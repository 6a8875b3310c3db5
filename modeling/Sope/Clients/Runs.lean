import Sope.Bank.Errands
import Sope.Clients.Users

/-! # Runs of the server among its users

What a step of the server among its users does to the world, and to the operations performed so far:
a call of the system, another operation of a thread, or a move of a user or of a pipe. A property of
both that holds at the start and is kept by these three holds in every run (`bank_induction`). -/

namespace Sope

open Concurrency

variable {P : Type} [DecidableEq P] [Fintype P] {C : Clientele P} {n files : ℕ}

/-- The operations of the server among its users, in a run. -/
abbrev BankEvent (C : Clientele P) (n files : ℕ) := ServerEvent n (clients C n files)

/-- Its configurations. -/
abbrev BankConfig (C : Clientele P) (n files : ℕ) :=
  Config (Thread n) ServerOp ServerRes (ServerState n (clients C n files)) Ctl

/-- What the functions of the server find in static variables. -/
abbrev bankSetup (n files : ℕ) : Setup := ⟨n, (files : ℤ), ((files + 1 : ℕ) : ℤ)⟩

/-- The state of the world in a configuration. -/
abbrev worldOf (c : BankConfig C n files) : Outside P n := c.shared.rest.world

/-- The state of the world in which an operation is performed. -/
abbrev worldAt (e : BankEvent C n files) : Outside P n := e.pre.rest.world

/-- The errands of the threads. -/
def bankErrands (tr : List (BankEvent C n files)) : Thread n → Errand :=
  fun t => errandOf (bankSetup n files) t tr

/-- Operations that are not calls of the system leave the world as it is. -/
theorem world_of_sem {t : Thread n} {e : Ext} {s s' : Shared (clients C n files)} {r : e.Res}
    (h : e.Sem t s r s') (hne : ∀ call, e ≠ .sys call) : s'.world = s.world := by
  cases e with
  | sys call => exact absurd rfl (hne call)
  | semWait sem => obtain ⟨-, rfl⟩ := h; cases sem <;> rfl
  | semPost sem => obtain rfl := h; cases sem <;> rfl
  | queuePush request => obtain ⟨queue, -, rfl⟩ := h; rfl
  | unlockQueueMutex | writeActive | pthreadCancel | mark => obtain rfl := h; rfl
  | segfault | exit => exact h.elim
  | _ => obtain ⟨-, rfl⟩ := h; rfl

/-- The end of the process leaves the world as it is. -/
theorem world_of_ends {t : Thread n} {e : Ext} {s s' : Shared (clients C n files)}
    (h : e.Ends t s s') : s'.world = s.world := by
  cases e with
  | segfault | exit => rw [show s' = s from h]
  | sys call =>
      obtain ⟨w, hw, rfl⟩ := h
      have hkills : Outside.kills s.world call = some w := hw
      cases call with
      | write fd bytes =>
          simp only [Outside.kills] at hkills
          split at hkills
          · split at hkills
            · exact (Option.some.inj hkills).symm
            · cases hkills
          · cases hkills
      | _ => cases hkills
  | _ => exact h.elim

/-- At first the main thread is about to read, and no office has anything in hand. -/
theorem bankErrands_nil : bankErrands ([] : List (BankEvent C n files)) = Thread.firstErrand := rfl

/-- What an operation does to the errands of all threads. -/
theorem exists_errandStep {tr : List (BankEvent C n files)} {c : BankConfig C n files} {t : Thread n}
    {o : ServerOp} {k : ServerRes o → Server Ctl} (h : (bank C n files).Run tr c)
    (hp : c.prog t = .op o k) (r : ServerRes o) :
    ∃ x', ErrandStep (bankSetup n files) (bankErrands tr t) o r x' ∧
      bankErrands (tr ++ [⟨t, o, r, c.shared⟩]) = Function.update (bankErrands tr) t x' :=
  ⟨_, errandStep_next (allows_of_run h hp) r,
    Monitor.after_append_eq_update (M := fun t => errands (bankSetup n files) (Thread.firstErrand t))⟩

/-- What a step does to the world, with the operation performed, after the operations `tr`. -/
inductive BankStep (tr : List (BankEvent C n files)) (c : BankConfig C n files) :
    Option (BankEvent C n files) → Outside P n → Prop
  /-- A thread goes round its loop, or is taken away from its next operation. -/
  | idle : BankStep tr c none (worldOf c)
  /-- The users or the pipes move. -/
  | move {m : Move P} {w' : Outside P n} (move : (worldOf c).move C m = some w') :
      BankStep tr c none w'
  /-- A thread makes a call of the system. -/
  | call {t : Thread n} {choice : Choice} {w' : Outside P n} {x' : Errand} {call : SysCall}
      {k : ServerRes (.ext (.sys call)) → Server Ctl} {r : ServerRes (.ext (.sys call))}
      (prog : c.prog t = .op (.ext (.sys call)) k)
      (errand : ErrandStep (bankSetup n files) (bankErrands tr t) (.ext (.sys call)) r x')
      (errands : bankErrands (tr ++ [⟨t, .ext (.sys call), r, c.shared⟩])
        = Function.update (bankErrands tr) t x')
      (exec : (worldOf c).exec t choice call = some (r, w')) :
      BankStep tr c (some ⟨t, .ext (.sys call), r, c.shared⟩) w'
  /-- A thread performs another operation. -/
  | other {t : Thread n} {x' : Errand} {o : ServerOp} {k : ServerRes o → Server Ctl} {r : ServerRes o}
      (prog : c.prog t = .op o k) (notCall : ∀ call, o ≠ .ext (.sys call))
      (errand : ErrandStep (bankSetup n files) (bankErrands tr t) o r x')
      (errands : bankErrands (tr ++ [⟨t, o, r, c.shared⟩]) = Function.update (bankErrands tr) t x') :
      BankStep tr c (some ⟨t, o, r, c.shared⟩) (worldOf c)

/-- **What a step does.** -/
theorem bankStep_of_step {tr : List (BankEvent C n files)} {c c' : BankConfig C n files}
    {e : Option (BankEvent C n files)} (hr : (bank C n files).Run tr c)
    (hs : (bank C n files).Step c e c') : BankStep tr c e (worldOf c') := by
  cases hs with
  | @exec t o k r s' hp hsem =>
      obtain ⟨x', hstep, hx'⟩ := exists_errandStep hr hp r
      have hsem' : Locked.sem table (fun s => s.alive = true) Ext.Sem t o c.shared r s' := hsem
      cases o with
      | ext e =>
          obtain ⟨-, rest, hrest, rfl⟩ := hsem'
          by_cases hcall : ∃ call, e = .sys call
          · obtain ⟨call, rfl⟩ := hcall
            obtain ⟨w', ⟨choice, hexec⟩, rfl⟩ := hrest
            exact .call hp hstep hx' hexec
          · have hne : ∀ call, e ≠ .sys call := fun call h => hcall ⟨call, h⟩
            show BankStep tr c _ rest.world
            rw [world_of_sem hrest hne]
            exact .other hp (fun call h => hne call (MemOp.ext.inj h)) hstep hx'
      | lock i =>
          obtain ⟨-, -, rfl⟩ := hsem'
          exact .other hp (by simp) hstep hx'
      | unlock i =>
          obtain ⟨-, rfl⟩ := hsem'
          exact .other hp (by simp) hstep hx'
      | access a =>
          obtain ⟨-, -, rfl⟩ := hsem'
          exact .other hp (by simp) hstep hx'
  | loop => exact .idle
  | @divert t o k x s' hp hd =>
      have hworld : s'.rest.world = worldOf c := by
        cases o with
        | ext e =>
            obtain ⟨-, -, ⟨rest, hends, rfl⟩ | ⟨i, -, -, -, rfl⟩⟩ := hd
            · show rest.world = worldOf c
              exact world_of_ends hends
            · rfl
        | _ => exact hd.elim
      show BankStep tr c _ s'.rest.world
      rw [hworld]
      exact .idle
  | env he =>
      obtain ⟨w', ⟨m, hm⟩, rfl⟩ := he
      exact .move hm

/-- **Induction over runs**, for properties of the operations performed so far and of the world. -/
theorem bank_induction {I : List (BankEvent C n files) → Outside P n → Prop}
    (start : I [] (.start C n files))
    (move : ∀ {tr c m w'}, (bank C n files).Run tr c → I tr (worldOf c) →
      (worldOf c).move C m = some w' → I tr w')
    (call : ∀ {tr c c' t choice w' x'} {call : SysCall} {k} {r : ServerRes (.ext (.sys call))},
      (bank C n files).Run tr c →
      (bank C n files).Run (tr ++ [⟨t, .ext (.sys call), r, c.shared⟩]) c' →
      c.prog t = .op (.ext (.sys call)) k →
      ErrandStep (bankSetup n files) (bankErrands tr t) (.ext (.sys call)) r x' →
      bankErrands (tr ++ [⟨t, .ext (.sys call), r, c.shared⟩])
        = Function.update (bankErrands tr) t x' →
      I tr (worldOf c) → (worldOf c).exec t choice call = some (r, w') →
      I (tr ++ [⟨t, .ext (.sys call), r, c.shared⟩]) w')
    (other : ∀ {tr c c' t x'} {o : ServerOp} {k} {r : ServerRes o}, (bank C n files).Run tr c →
      (bank C n files).Run (tr ++ [⟨t, o, r, c.shared⟩]) c' →
      c.prog t = .op o k → (∀ call, o ≠ .ext (.sys call)) →
      ErrandStep (bankSetup n files) (bankErrands tr t) o r x' →
      bankErrands (tr ++ [⟨t, o, r, c.shared⟩]) = Function.update (bankErrands tr) t x' →
      I tr (worldOf c) →
      I (tr ++ [⟨t, o, r, c.shared⟩]) (worldOf c))
    {tr : List (BankEvent C n files)} {c : BankConfig C n files} (h : (bank C n files).Run tr c) :
    I tr (worldOf c) := by
  refine System.Run.induction (I := fun tr c => I tr (worldOf c)) ?_ ?_ h
  · -- the users may have moved before the server begins
    intro c h₀
    have hinit : Relation.ReflTransGen (Outside.Moves C) (.start C n files) (worldOf c) := h₀.1.world
    suffices ∀ w, Relation.ReflTransGen (Outside.Moves C) (.start C n files) w → I [] w from
      this _ hinit
    intro w hw
    induction hw with
    | refl => exact start
    | @tail w w' hw hm ih =>
        obtain ⟨m, hm⟩ := hm
        -- every move of the users comes from a run of the empty trace
        let s : ServerState n (clients C n files) :=
          { c.shared with rest := { c.shared.rest with world := w } }
        have hs : ServerInit s := { h₀.1 with world := hw }
        have hrun : (bank C n files).Run [] ⟨s, c.prog⟩ := System.Initial.run ⟨hs, h₀.2⟩
        exact move hrun ih hm
  · intro tr c e c' hr ih hs
    have hstep := bankStep_of_step hr hs
    have hr' := hr.step hs
    generalize worldOf c' = w' at hstep
    cases hstep with
    | idle => simpa using ih
    | move hm => simpa using move hr ih hm
    | call hp hstep hx' hexec => exact call hr hr' hp hstep hx' ih hexec
    | other hp ho hstep hx' => exact other hr hr' hp ho hstep hx' ih

/-- Only the main thread reads requests. -/
theorem isReader_of_run {tr : List (BankEvent C n files)} {c : BankConfig C n files}
    (h : (bank C n files).Run tr c) (t : Thread n) :
    (bankErrands tr t).isReader = true ↔ t = .main := by
  have hstep : ∀ {x : Thread n → Errand} {u o r x'}, ErrandStep (bankSetup n files) (x u) o r x' →
      ((x t).isReader = true ↔ t = .main) →
      ((Function.update x u x' t).isReader = true ↔ t = .main) := by
    intro x u o r x' hs hx
    by_cases hu : t = u
    · subst hu
      rwa [Function.update_self, hs.isReader]
    · rwa [Function.update_of_ne hu]
  refine bank_induction (I := fun tr _ => (bankErrands tr t).isReader = true ↔ t = .main)
    ?_ (fun _ ih _ => ih) ?_ ?_ h
  · rw [bankErrands_nil]
    cases t <;> simp [Thread.firstErrand, Errand.isReader]
  · intro tr c c' u choice w' x' call k r _ _ _ hs hx' ih _
    rw [hx']
    exact hstep hs ih
  · intro tr c c' u x' o k r _ _ _ _ hs hx' ih
    rw [hx']
    exact hstep hs ih

end Sope
