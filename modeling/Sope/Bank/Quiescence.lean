import Sope.Bank.GracefulDrain
import Sope.Concurrency.Monitor

/-! # When nothing moves

The server as a whole cannot block. If no thread can go on, then either the main thread waits for a
client while every office waits for a request, or all threads have ended; and in both cases every
request that was ever pushed has been managed (`quiescent_of_stuck`).

* `Ext.Waits` — the operations that may have to wait, and when.
* `Ending` — what the main thread has cancelled and joined; an office that has ended was cancelled.
* `CanMove` — a thread can go on. -/

namespace Sope

open Concurrency

variable {n : ℕ} {W : World (Thread n)} {serverFifoFD shutdownFD : Int}

/-! ## The operations that may have to wait -/

/-- An operation has to wait in a state. -/
def Ext.Waits (t : Thread n) (s : Shared W) : Ext → Prop
  | .semWait sem => s.sem sem = 0
  | .lockQueueMutex => s.queueMutex ≠ none
  | .queuePush request => Sope.queuePush 2 s.queue request = none
  | .pthreadJoin i => s.terminated i = false
  | .sys call => ∀ r w, ¬ W.call t call s.world r w
  | .segfault | .exit _ => True
  | _ => False

/-- An operation that does not have to wait returns. -/
theorem Ext.returns_of_not_waits {t : Thread n} {s : Shared W} {e : Ext} (h : ¬ e.Waits t s) :
    ∃ r s', e.Sem t s r s' := by
  cases e with
  | semWait sem => exact ⟨(), _, Nat.pos_of_ne_zero h, rfl⟩
  | semPost sem => exact ⟨(), _, rfl⟩
  | lockQueueMutex => exact ⟨(), _, not_not.mp h, rfl⟩
  | queuePush request =>
      obtain ⟨queue, hq⟩ := Option.ne_none_iff_exists'.mp h
      exact ⟨(), _, queue, hq, rfl⟩
  | pthreadJoin i => exact ⟨(), _, by simpa [Ext.Waits] using h, rfl⟩
  | sys call =>
      simp only [Ext.Waits, not_forall, not_not] at h
      obtain ⟨r, w, hw⟩ := h
      exact ⟨r, _, w, hw, rfl⟩
  | segfault | exit => exact absurd trivial h
  | queuePop => exact ⟨_, _, rfl, rfl⟩
  | queueEmpty => exact ⟨_, _, rfl, rfl⟩
  | readActive i => exact ⟨_, _, rfl, rfl⟩
  | add a b => exact ⟨_, _, rfl, rfl⟩
  | sub a b => exact ⟨_, _, rfl, rfl⟩
  | _ => exact ⟨(), _, rfl⟩

/-- Every call of the main thread returns, but for `read`, which may wait for a client. -/
def World.MainReturns (W : World (Thread n)) : Prop :=
  ∀ (call : SysCall) (w : W.State), (∀ fd m, call ≠ .read fd m) →
    (∃ r w', W.call .main call w r w') ∨ ∃ w', W.kills .main call w w'

/-- A thread can go on: its next operation is possible, or it goes round its loop. -/
def CanMove (serverFifoFD shutdownFD : Int)
    (c : Config (Thread n) ServerOp ServerRes (ServerState n W) Ctl) (t : Thread n) : Prop :=
  (server n W serverFifoFD shutdownFD).Enabled c t ∨ ∃ ctl, c.prog t = .ret ctl ∧ ctl ≠ .ended

section Moves

variable {c : Config (Thread n) ServerOp ServerRes (ServerState n W) Ctl} {t : Thread n}

/-- A thread that cannot go on waits at its operation. -/
theorem waits_of_not_canMove (h : ¬ CanMove serverFifoFD shutdownFD c t)
    (halive : c.shared.rest.alive = true) {e : Ext} {k : e.Res → Server Ctl}
    (hp : c.prog t = .op (.ext e) k) : e.Waits t c.shared.rest := by
  by_contra hw
  obtain ⟨r, rest, hsem⟩ := Ext.returns_of_not_waits hw
  exact h (.inl ⟨.ext e, k, hp, .inl ⟨r, _, halive, rest, hsem, rfl⟩⟩)

/-- A thread that can be ended at its operation can go on. -/
theorem canMove_of_divert {o : ServerOp} {k : ServerRes o → Server Ctl} {x : Ctl}
    {s' : ServerState n W} (hp : c.prog t = .op o k) (hd : serverDivert t o c.shared x s') :
    CanMove serverFifoFD shutdownFD c t := .inl ⟨o, k, hp, .inr ⟨x, s', hd⟩⟩

/-- A thread at an operation can go on if the operation returns, or ends the thread. -/
theorem steps_of_canMove {o : ServerOp} {k : ServerRes o → Server Ctl}
    (h : CanMove serverFifoFD shutdownFD c t) (hp : c.prog t = .op o k) :
    (∃ r s', Locked.sem table (fun s => s.alive = true) Ext.Sem t o c.shared r s') ∨
      ∃ x s', serverDivert t o c.shared x s' := by
  rcases h with ⟨o', k', hp', h⟩ | ⟨ctl, hp', -⟩
  · rw [hp] at hp'
    cases hp'
    exact h
  · rw [hp] at hp'
    cases hp'

/-- A thread that cannot go on between two programs has ended. -/
theorem ended_of_not_canMove (h : ¬ CanMove serverFifoFD shutdownFD c t) {ctl : Ctl}
    (hp : c.prog t = .ret ctl) : ctl = .ended := by
  by_contra hne
  exact h (.inr ⟨ctl, hp, hne⟩)

end Moves

/-! ## The end of the threads -/

/-- How far the main thread is with the end of the offices, and whether an office has ended. -/
inductive Ending
  /-- The first `k` offices are cancelled and joined. -/
  | destroyed (k : ℕ)
  /-- Office `k` is cancelled, and the offices before it are joined too. -/
  | joining (k : ℕ)
  /-- An office has ended. -/
  | gone

/-- The main thread cancels and joins the offices one after the other; an office may do anything. -/
def endingMonitor : Thread n → Monitor ServerOp ServerRes Ending
  | .main =>
    { start := .destroyed 0
      allows
        | x, .ext (.pthreadCancel i) => x = .destroyed i ∧ i < n
        | x, .ext (.pthreadJoin i) => x = .joining i
        | _, _ => True
      next
        | _, .ext (.pthreadCancel i), _ => .joining i
        | _, .ext (.pthreadJoin i), _ => .destroyed (i + 1)
        | x, _, _ => x }
  | .office _ =>
    { start := .destroyed 0
      allows := fun _ _ => True
      next := fun x _ _ => x }

/-- The same as rules. -/
abbrev endings (t : Thread n) : Protocol ServerOp ServerRes Ending := (endingMonitor t).protocol

/-- What a thread guarantees of its end when it comes back to its loop. -/
def AtEnd : Thread n → Ctl → Ending → Prop
  | .main, .destroy k, g => g = .destroyed k ∧ k ≤ n
  | .main, .ended, g => g = .destroyed n
  | .main, .read, g | .main, .waitEmpty, g | .main, .waitIdle, g => g = .destroyed 0
  | .main, .start, _ | .main, .serve, _ => False
  | .office _, .start, _ | .office _, .serve, _ => True
  | .office _, .ended, g => g = .gone
  | .office _, _, _ => False

section Endings

variable {t : Thread n} {α : Type} {x : Ending}

/-- Any program of an office keeps to the rules. -/
theorem wp_ending_office {i : Fin n} {Q : α → Ending → Prop} (p : Server α) (h : ∀ a, Q a x) :
    p.wp (endings (.office i)) Q x := by
  induction p with
  | ret a => exact h a
  | op o k ih => exact ⟨trivial, fun r => ih r⟩

/-- An operation that ends nothing. -/
theorem wp_ending_ext {e : Ext} {k : e.Res → Server α} {Q : α → Ending → Prop}
    (h : ∀ r, (k r).wp (endings (.main : Thread n)) Q x)
    (hallows : (endingMonitor (.main : Thread n)).allows x (.ext e) ∧
      ∀ r, (endingMonitor (.main : Thread n)).next x (.ext e) r = x := by exact ⟨trivial, fun _ => rfl⟩) :
    (ext e >>= k).wp (endings (.main : Thread n)) Q x := by
  refine ⟨hallows.1, fun r => ?_⟩
  rw [hallows.2 r]
  exact h r

/-- The main thread ends nothing while it reads a request. -/
theorem wp_readRequestsRound_ending (setup : Setup) :
    (readRequestsRound setup).wp (endings (.main : Thread n)) (fun _ g => g = x) x := by
  refine wp_ending_ext fun request => wp_ending_ext fun bytes => ?_
  cases bytes with
  | none => rfl
  | some bytes =>
      refine wp_ending_ext fun value => ?_
      cases value with
      | none => rfl
      | some value =>
          dsimp only
          split
          · rfl
          · have hadd : (addRequestToQueue (decodeRequest (overlay (overlay request 0 bytes)
                sizeofTypeLength value))).wp (endings (.main : Thread n)) (fun _ g => g = x) x :=
              wp_ending_ext fun _ => wp_ending_ext fun _ => wp_ending_ext fun _ => wp_ending_ext fun _ =>
                wp_ending_ext fun _ => rfl
            exact Prog.wp_seq hadd fun _ _ hg => hg

/-- The main thread ends nothing while it counts the active offices. -/
theorem wp_countActive_ending (offices : List ℕ) (sum : ℕ) :
    (countActive offices sum).wp (endings (.main : Thread n)) (fun _ g => g = x) x := by
  induction offices generalizing sum with
  | nil => rfl
  | cons i offices ih => exact wp_ending_ext fun active => ih _

/-- The main thread ends the offices one after the other. -/
theorem wp_mainBody_ending {setup : Setup} {ctl : Ctl} (hsetup : setup.numberOfOffices = n)
    (h : AtEnd (.main : Thread n) ctl x) :
    (mainBody setup ctl).wp (endings (.main : Thread n)) (AtEnd (.main : Thread n)) x := by
  cases ctl with
  | read =>
      refine Prog.wp_seq (wp_readRequestsRound_ending setup) fun more g hg => ?_
      cases more <;> exact hg.trans h
  | waitEmpty =>
      have hround : queueEmptyRound.wp (endings (.main : Thread n)) (fun _ g => g = x) x :=
        wp_ending_ext fun _ => wp_ending_ext fun _ => wp_ending_ext fun _ => rfl
      refine Prog.wp_seq hround fun empty g hg => ?_
      cases empty <;> exact hg.trans h
  | waitIdle =>
      refine Prog.wp_seq (wp_countActive_ending _ 0) fun total g hg => ?_
      obtain rfl := hg.trans h
      split
      · exact rfl
      · exact ⟨rfl, Nat.zero_le n⟩
  | destroy k =>
      obtain ⟨rfl, hk⟩ := h
      simp only [mainBody, hsetup]
      split
      · next hlt => exact ⟨⟨rfl, hlt⟩, fun _ => ⟨rfl, fun _ => ⟨rfl, hlt⟩⟩⟩
      · next hge => exact congrArg _ (by omega)
  | ended => exact h
  | _ => exact h.elim

/-- An office comes back to its loop until it is ended. -/
theorem wp_officeBody_ending {setup : Setup} {i : Fin n} {ctl : Ctl}
    (h : AtEnd (.office i) ctl x) :
    (officeBody setup i ctl).wp (endings (.office i)) (AtEnd (.office i)) x := by
  cases ctl with
  | start | serve =>
      exact Prog.wp_seq (wp_ending_office (Q := fun _ _ => True) _ fun _ => trivial) fun _ _ _ => trivial
  | ended => exact h
  | _ => exact h.elim

/-- Only the end of an office counts, not what threads do with the accounts. -/
theorem endingMonitor_next {o : ServerOp} (ho : ∀ e, o ≠ .ext e) (r : ServerRes o) :
    (endingMonitor t).next x o r = x := by
  cases t <;> cases o <;> first | rfl | exact absurd rfl (ho _)

end Endings

/-- What is remembered of the ends is true. -/
structure EndingInv (s : Shared W) (g : Thread n → Ending) : Prop where
  destroyed : ∀ k, g .main = .destroyed k → ∀ i < k, s.cancelled i = true
  joining : ∀ k, g .main = .joining k → k < n ∧ ∀ i ≤ k, s.cancelled i = true
  gone : ∀ i : Fin n, g (.office i) = .gone → s.cancelled i = true ∧ s.terminated i = true

section Steps

variable {s s' : Shared W} {g : Thread n → Ending} {t : Thread n}

/-- An operation cancels at most one office, and ends none. -/
theorem Ext.Sem.cancelled {e : Ext} {r : e.Res} (h : e.Sem t s r s') :
    (∀ i, s.cancelled i = true → s'.cancelled i = true) ∧ s'.terminated = s.terminated := by
  cases e with
  | pthreadCancel i =>
      obtain rfl := h
      refine ⟨fun j hj => ?_, rfl⟩
      by_cases hji : j = i
      · simp [hji]
      · simpa [Function.update_of_ne hji] using hj
  | semWait sem => cases sem <;> obtain ⟨-, rfl⟩ := h <;> exact ⟨fun _ => id, rfl⟩
  | semPost sem => cases sem <;> obtain rfl := h <;> exact ⟨fun _ => id, rfl⟩
  | queuePush request => obtain ⟨queue, -, rfl⟩ := h; exact ⟨fun _ => id, rfl⟩
  | sys call => obtain ⟨w, -, rfl⟩ := h; exact ⟨fun _ => id, rfl⟩
  | segfault | exit => exact h.elim
  | unlockQueueMutex | writeActive | mark => obtain rfl := h; exact ⟨fun _ => id, rfl⟩
  | _ => obtain ⟨-, rfl⟩ := h; exact ⟨fun _ => id, rfl⟩

/-- More offices have been cancelled or have ended, and what is remembered is the same. -/
theorem EndingInv.mono (h : EndingInv s g) (hcancelled : ∀ i, s.cancelled i = true → s'.cancelled i = true)
    (hterminated : ∀ i, s.terminated i = true → s'.terminated i = true) : EndingInv s' g where
  destroyed k hk i hi := hcancelled i (h.destroyed k hk i hi)
  joining k hk := ⟨(h.joining k hk).1, fun i hi => hcancelled i ((h.joining k hk).2 i hi)⟩
  gone i hi := ⟨hcancelled i (h.gone i hi).1, hterminated i (h.gone i hi).2⟩

/-- An operation keeps what is remembered true. -/
theorem EndingInv.exec (h : EndingInv s g) {e : Ext} {r : e.Res}
    (hallows : (endingMonitor t).allows (g t) (.ext e)) (hs : e.Sem t s r s') :
    EndingInv s' (Function.update g t ((endingMonitor t).next (g t) (.ext e) r)) := by
  obtain ⟨hcancelled, hterminated⟩ := hs.cancelled
  have hmono : EndingInv s' g := h.mono hcancelled fun i hi => by rwa [hterminated]
  cases t with
  | office i =>
      change EndingInv s' (Function.update g (.office i) (g (.office i)))
      rwa [Function.update_eq_self]
  | main =>
      have hoffice : ∀ x i, Function.update g .main x (.office i) = g (.office i) :=
        fun x i => Function.update_of_ne (by simp) ..
      cases e with
      | pthreadCancel i =>
          obtain ⟨hi, hlt⟩ := hallows
          obtain rfl := hs
          refine ⟨fun k hk => ?_, fun k hk => ?_, fun j hj => ?_⟩
          · rw [Function.update_self] at hk
            cases hk
          · rw [Function.update_self] at hk
            cases hk
            refine ⟨hlt, fun j hj => ?_⟩
            rcases Nat.lt_or_eq_of_le hj with hj | rfl
            · exact hmono.destroyed i hi j hj
            · simp
          · rw [hoffice] at hj
            exact hmono.gone j hj
      | pthreadJoin i =>
          have hi : g .main = .joining i := hallows
          refine ⟨fun k hk => ?_, fun k hk => ?_, fun j hj => ?_⟩
          · rw [Function.update_self] at hk
            cases hk
            exact fun j hj => (hmono.joining i hi).2 j (Nat.le_of_lt_succ hj)
          · rw [Function.update_self] at hk
            cases hk
          · rw [hoffice] at hj
            exact hmono.gone j hj
      | _ =>
          change EndingInv s' (Function.update g .main (g .main))
          rwa [Function.update_eq_self]

end Steps

/-- What is remembered of the ends is true as long as the process runs. -/
def endingCertificate (serverFifoFD shutdownFD : Int) :
    Certificate (server n W serverFifoFD shutdownFD) (endings (n := n)) where
  assumes _ := True
  assumes_append := id
  inv _ c g := c.shared.rest.alive = true → EndingInv c.shared.rest g
  post := AtEnd
  init {c} h := by
    refine ⟨fun _ => .destroyed 0, fun _ => ⟨fun k hk i hi => ?_, fun k hk => ?_, fun i hi => ?_⟩,
      fun t => ?_⟩
    · cases hk
      exact absurd hi (Nat.not_lt_zero i)
    · cases hk
    · cases hi
    · cases t <;> trivial
  exec {tr c g t o k r s' Φ} _ _ hinv _ hr hs := by
    refine ⟨_, hr.2 r, fun _ => ?_⟩
    have hs : Locked.sem table (fun s => s.alive = true) Ext.Sem t o c.shared r s' := hs
    have h := hinv (Locked.sem_live hs)
    cases o with
    | ext e =>
        obtain ⟨-, rest, hsem, rfl⟩ := hs
        exact h.exec hr.1 hsem
    | access a =>
        obtain ⟨-, -, rfl⟩ := hs
        rwa [endingMonitor_next (by simp), Function.update_eq_self]
    | lock i =>
        obtain ⟨-, -, rfl⟩ := hs
        rwa [endingMonitor_next (by simp), Function.update_eq_self]
    | unlock i =>
        obtain ⟨-, rfl⟩ := hs
        rwa [endingMonitor_next (by simp), Function.update_eq_self]
  loop {tr c g t x} hinv _ hpost := by
    refine ⟨g t, ?_, by rwa [Function.update_eq_self]⟩
    cases t with
    | main => exact wp_mainBody_ending rfl hpost
    | office i => exact wp_officeBody_ending hpost
  divert {tr c g t o k x s' Φ} hinv _ _ hd := by
    cases o with
    | ext e =>
        obtain ⟨halive, rfl, ⟨rest, -, rfl⟩ | ⟨i, rfl, hcancel, -, rfl⟩⟩ := hd
        · cases t with
          | main => exact ⟨.destroyed n, rfl, nofun⟩
          | office i => exact ⟨.gone, rfl, nofun⟩
        · have h := hinv halive
          refine ⟨.gone, rfl, fun _ => ⟨fun k hk => ?_, fun k hk => ?_, fun j hj => ?_⟩⟩
          · rw [Function.update_of_ne (by simp)] at hk
            exact h.destroyed k hk
          · rw [Function.update_of_ne (by simp)] at hk
            exact h.joining k hk
          · by_cases hji : j = i
            · subst hji
              exact ⟨hcancel, by simp⟩
            · rw [Function.update_of_ne (by simpa using hji)] at hj
              have hne : (j : ℕ) ≠ i := fun hv => hji (Fin.ext hv)
              exact ⟨(h.gone j hj).1, by simpa [Function.update_of_ne hne] using (h.gone j hj).2⟩
    | _ => exact hd.elim
  env hinv h := by
    obtain ⟨w, -, rfl⟩ := h
    exact fun halive => (hinv halive).mono (fun _ => id) fun _ => id

/-! ## A state in which nothing moves -/

section Stuck

variable {tr : List (ServerEvent n W)} {c : Config (Thread n) ServerOp ServerRes (ServerState n W) Ctl}
  {s : ServerState n W} {g : Thread n → Hold UInt32 Slot × Phase}

/-- An office that has ended was cancelled. -/
theorem cancelled_of_ended (h : (server n W serverFifoFD shutdownFD).Run tr c)
    (halive : c.shared.rest.alive = true) {i : Fin n} (hp : c.prog (.office i) = .ret .ended) :
    c.shared.rest.cancelled i = true ∧ c.shared.rest.terminated i = true := by
  obtain ⟨g, hg⟩ := (endingCertificate serverFifoFD shutdownFD).run h trivial
  exact (hg.1 halive).gone i (hg.ret hp)

/-- A main thread that has ended has cancelled all offices. -/
theorem cancelled_of_main_ended (h : (server n W serverFifoFD shutdownFD).Run tr c)
    (halive : c.shared.rest.alive = true) (hp : c.prog .main = .ret .ended) (i : Fin n) :
    c.shared.rest.cancelled i = true := by
  obtain ⟨g, hg⟩ := (endingCertificate serverFifoFD shutdownFD).run h trivial
  exact (hg.1 halive).destroyed n (hg.ret hp) i i.isLt

/-- The office for which the main thread waits was cancelled. -/
theorem cancelled_of_join (h : (server n W serverFifoFD shutdownFD).Run tr c)
    (halive : c.shared.rest.alive = true) {i : ℕ} {k : Unit → Server Ctl}
    (hp : c.prog .main = .op (.ext (.pthreadJoin i)) k) :
    i < n ∧ c.shared.rest.cancelled i = true := by
  obtain ⟨g, hg⟩ := (endingCertificate serverFifoFD shutdownFD).run h trivial
  obtain ⟨hlt, hcancelled⟩ := (hg.1 halive).joining i (hg.rule hp).1
  exact ⟨hlt, hcancelled i le_rfl⟩

/-- While an office is cancelled, no office is at work. -/
theorem Synchronised.quiet_of_cancelled (h : Synchronised tr s g) {i : ℕ}
    (hi : s.rest.cancelled i = true) (j : Fin n) : (phaseOf tr (.office j)).isQuiet = true :=
  h.quiet_of_finished (by rw [h.drain.cancelled i hi]; rfl) j

/-- A thread at an operation on everything but the accounts makes a transition, or it is where it may
end the process. -/
theorem Synchronised.exists_transition (h : Synchronised tr s g) {t : Thread n} {e : Ext}
    (hr : (coord t).rule (g t) (.ext e) fun _ _ => True) :
    (e.mayEnd = true ∧ (phaseOf tr t).mayEnd = true) ∨
      e.mayEnd = false ∧ ∃ r x', (phaseOf tr t).Transition n t.index e r x' := by
  have htr : ∀ r : e.Res, ∃ x', (phaseOf tr t).Transition n t.index e r x' := fun r => by
    obtain ⟨x', htr, -⟩ := h.transition hr r
    exact ⟨x', htr⟩
  have hend : e.mayEnd = true → (phaseOf tr t).mayEnd = true := by
    rw [← h.phase t]
    exact hr.1
  cases e with
  | sys | segfault | exit => exact .inl ⟨rfl, hend rfl⟩
  | queuePop => exact .inr ⟨rfl, (default : TlvRequest), htr _⟩
  | queueEmpty => exact .inr ⟨rfl, true, htr _⟩
  | readActive i => exact .inr ⟨rfl, (0 : ℕ), htr _⟩
  | add a b => exact .inr ⟨rfl, (0 : UInt32), htr _⟩
  | sub a b => exact .inr ⟨rfl, (0 : UInt32), htr _⟩
  | _ => exact .inr ⟨rfl, (), htr _⟩

/-- Outside `manageRequest` a thread is at no account. -/
theorem Synchronised.exists_ext (h : Synchronised tr s g) {t : Thread n} {o : ServerOp}
    (hr : (coord t).rule (g t) o fun _ _ => True) (ht : (phaseOf tr t).isManaging = false) :
    ∃ e, o = .ext e := by
  rw [← h.phase t] at ht
  cases o with
  | ext e => exact ⟨e, rfl⟩
  | lock id => nomatch ht.symm.trans hr.1.1
  | unlock id => nomatch ht.symm.trans hr.1
  | access a => nomatch ht.symm.trans hr.1

/-- If whoever holds `queueMutex` cannot go on, nobody holds it. -/
theorem queueMutex_of_stuck (hn : 0 < n) (h : (server n W serverFifoFD shutdownFD).Run tr c)
    (halive : c.shared.rest.alive = true)
    (hstuck : ∀ t, c.shared.rest.queueMutex = some t → ¬ CanMove serverFifoFD shutdownFD c t) :
    c.shared.rest.queueMutex = none := by
  obtain ⟨g, hg, hrule, -⟩ := synchronised_of_run h halive
  by_contra hne
  obtain ⟨t, ht⟩ := Option.ne_none_iff_exists'.mp hne
  have hholds := (hg.queue.mutex t).mp ht
  cases hp : c.prog t with
  | ret ctl =>
      obtain rfl := ended_of_not_canMove (hstuck t ht) hp
      cases t with
      | main =>
          have hcancelled := cancelled_of_main_ended h halive hp ⟨0, hn⟩
          rw [hg.drain.cancelled _ hcancelled] at hholds
          cases hholds
      | office i =>
          have hquiet := hg.quiet_of_cancelled (cancelled_of_ended h halive hp).1 i
          revert hquiet hholds
          cases phaseOf tr (.office i) <;> simp [Phase.isQuiet, Phase.holdsQueueMutex]
  | op o k =>
      obtain ⟨e, rfl⟩ := hg.exists_ext (hrule t o k hp) (by
        revert hholds
        cases phaseOf tr t <;> simp [Phase.holdsQueueMutex, Phase.isManaging])
      have hwaits := waits_of_not_canMove (hstuck t ht) halive hp
      rcases hg.exists_transition (hrule t _ k hp) with ⟨-, hend⟩ | ⟨-, r, x', htr⟩
      · revert hend hholds
        cases phaseOf tr t <;> simp [Phase.mayEnd, Phase.holdsQueueMutex]
      -- inside the critical section no operation waits
      · generalize hx : phaseOf tr t = x at htr hholds
        cases htr with
        | push request =>
            have hlt := hg.queue.size_lt (t := t) (by rw [hx]; rfl)
            rw [Ext.Waits, RequestQueue.push_of_not_full hlt] at hwaits
            cases hwaits
        | pop | unlock | unlockPush | poll | unlockPoll | drain => exact hwaits
        | _ => cases hholds

/-- An office that is stuck outside `manageRequest` waits for a request, or has ended. -/
theorem office_of_stuck (h : (server n W serverFifoFD shutdownFD).Run tr c)
    (halive : c.shared.rest.alive = true) {i : Fin n}
    (hstuck : ¬ CanMove serverFifoFD shutdownFD c (.office i))
    (hmutex : c.shared.rest.queueMutex = none)
    (hmanaging : (phaseOf tr (.office i)).isManaging = false) :
    c.prog (.office i) = .ret .ended ∨ (∃ k, c.prog (.office i) = .op (.ext (.semWait .queueFullSem)) k) ∧
      c.shared.rest.queueFullSem = 0 ∧ c.shared.rest.cancelled i = false := by
  obtain ⟨g, hg, hrule, -⟩ := synchronised_of_run h halive
  cases hp : c.prog (.office i) with
  | ret ctl => exact .inl (by rw [ended_of_not_canMove hstuck hp])
  | op o k =>
      refine .inr ?_
      obtain ⟨e, rfl⟩ := hg.exists_ext (hrule _ o k hp) hmanaging
      have hwaits := waits_of_not_canMove hstuck halive hp
      have hrole := hg.drain.role (.office i)
      rcases hg.exists_transition (hrule _ _ k hp) with ⟨-, hend⟩ | ⟨-, r, x', htr⟩
      · revert hend hmanaging hrole
        cases phaseOf tr (.office i) <;>
          simp [Phase.mayEnd, Phase.isManaging, Phase.isOffice, Thread.isOffice]
      · generalize phaseOf tr (.office i) = x at htr hmanaging hrole
        cases htr with
        | enter =>
            refine ⟨⟨k, rfl⟩, hwaits, Bool.eq_false_of_not_eq_true fun hcancel => hstuck ?_⟩
            exact canMove_of_divert hp ⟨halive, rfl, .inr ⟨i, rfl, hcancel, rfl, rfl⟩⟩
        | lock => exact absurd hmutex hwaits
        | start | flag | pop | unlock | manage | clear => exact hwaits.elim
        | work | finish => cases hmanaging
        | _ => cases hrole

/-- An office at the `sem_wait` of `getRequestFromQueue` is at rest. -/
theorem Synchronised.idle_of_semWait (h : Synchronised tr s g) {i : Fin n}
    (hr : (coord (.office i)).rule (g (.office i)) (.ext (.semWait .queueFullSem)) fun _ _ => True)
    (hmanaging : (phaseOf tr (.office i)).isManaging = false) : phaseOf tr (.office i) = .idle := by
  obtain ⟨x', htr, -⟩ := h.transition hr ()
  generalize phaseOf tr (.office i) = x at htr hmanaging
  cases htr with
  | enter => rfl
  | work r request he => cases hmanaging

/-- Nobody has a request in hand when the offices are at rest, so all has been managed if the queue is
empty. -/
theorem Synchronised.managed_perm (h : Synchronised tr s g)
    (hquiet : ∀ i : Fin n, (phaseOf tr (.office i)).isQuiet = true) (hsize : s.rest.queue.size = 0) :
    (managed tr).Perm (pushed tr) := by
  have hpushed : pushed tr = popped tr := by
    have hfifo := h.queue.fifo
    rwa [List.eq_nil_of_length_eq_zero (RequestQueue.length_toList.trans hsize),
      List.append_nil] at hfifo
  rw [hpushed, List.perm_iff_count]
  intro request
  have hzero : total (Phase.inHand request) (phaseOf tr) = 0 := by
    refine total_eq_zero fun t => ?_
    cases t with
    | main =>
        have hrole := h.drain.role .main
        revert hrole
        cases phaseOf tr .main <;> simp [Phase.isOffice, Thread.isOffice, Phase.inHand]
    | office i =>
        have := hquiet i
        revert this
        cases phaseOf tr (.office i) <;> simp [Phase.isQuiet, Phase.inHand]
  have := h.drain.inHand request
  omega

/-- The main thread waits for a client and every office for a request. -/
def WaitsForClients (c : Config (Thread n) ServerOp ServerRes (ServerState n W) Ctl) : Prop :=
  (∃ fd m k, c.prog .main = .op (.ext (.sys (.read fd m))) k) ∧
    ∀ i : Fin n, ∃ k, c.prog (.office i) = .op (.ext (.semWait .queueFullSem)) k

/-- All threads have ended. -/
def HasEnded (c : Config (Thread n) ServerOp ServerRes (ServerState n W) Ctl) : Prop :=
  ∀ t, c.prog t = .ret .ended

/-- **The server never blocks with work to do.** Assume that all system calls return, but for the `read`
of the main thread, which may wait for a client. In every state of a running server with an office, some
thread can go on, or the server waits for clients, or all its threads have ended; and in the last two
cases every request that was ever pushed has been managed, exactly once. The accounts of the requests are
below `MAX_BANK_ACCOUNTS`, the number of the mutexes that there are. -/
theorem quiescent_of_stuck (hn : 0 < n) (hO : W.OfficesReturn) (hM : W.MainReturns)
    (h : (server n W serverFifoFD shutdownFD).Run tr c) (halive : c.shared.rest.alive = true) :
    (∃ t, CanMove serverFifoFD shutdownFD c t) ∨
      (WaitsForClients c ∨ HasEnded c) ∧ (managed tr).Perm (pushed tr) := by
  by_contra hnot
  push Not at hnot
  obtain ⟨hstuck, hnot⟩ := hnot
  obtain ⟨g, hg, hrule, -⟩ := synchronised_of_run h halive
  have hmanaging : ∀ i : Fin n, (phaseOf tr (.office i)).isManaging = false := by
    intro i
    by_contra hi
    obtain ⟨j, -, hj⟩ := exists_enabled_of_managing hO h halive (i := i) (by simpa using hi)
    exact hstuck (.office j) (.inl hj)
  have hmutex := queueMutex_of_stuck hn h halive fun t _ => hstuck t
  have hoffice := fun i => office_of_stuck h halive (hstuck (.office i)) hmutex (hmanaging i)
  have hrole := hg.drain.role .main
  cases hp : c.prog .main with
  | ret ctl =>
      obtain rfl := ended_of_not_canMove (hstuck .main) hp
      have hcancelled := cancelled_of_main_ended h halive hp
      refine hnot (.inr ?_) (hg.managed_perm (hg.quiet_of_cancelled (hcancelled ⟨0, hn⟩)) ?_)
      · rintro (_ | i)
        · exact hp
        · rcases hoffice i with hended | ⟨-, -, hi⟩
          · exact hended
          · rw [hcancelled i] at hi
            cases hi
      · refine hg.drain.drained ?_
        rw [hg.drain.cancelled _ (hcancelled ⟨0, hn⟩)]
        rfl
  | op o k =>
      obtain ⟨e, rfl⟩ := hg.exists_ext (hrule _ o k hp) (by
        revert hrole
        cases phaseOf tr .main <;> simp [Phase.isOffice, Thread.isOffice, Phase.isManaging])
      have hwaits := waits_of_not_canMove (hstuck .main) halive hp
      -- while the main thread reads, all offices wait for requests
      have hidle : phaseOf tr .main = .reading → ∀ i : Fin n,
          (∃ k, c.prog (.office i) = .op (.ext (.semWait .queueFullSem)) k) ∧
            c.shared.rest.queueFullSem = 0 ∧ phaseOf tr (.office i) = .idle := by
        intro hreading i
        rcases hoffice i with hended | ⟨⟨k', hk'⟩, hfull, -⟩
        · have hmain := hg.drain.cancelled _ (cancelled_of_ended h halive hended).1
          rw [hreading] at hmain
          cases hmain
        · exact ⟨⟨k', hk'⟩, hfull, hg.idle_of_semWait (hrule _ _ k' hk') (hmanaging i)⟩
      have hsize : phaseOf tr .main = .reading → c.shared.rest.queue.size = 0 ∧
          c.shared.rest.queueEmptySem = bufferSize := by
        intro hreading
        have hzero : ∀ f : Phase → ℕ, f .reading = 0 → f .idle = 0 → total f (phaseOf tr) = 0 := by
          intro f hf hf'
          refine total_eq_zero fun t => ?_
          cases t with
          | main => rw [hreading, hf]
          | office i => rw [(hidle hreading i).2.2, hf']
        have hfull := hg.queue.full
        have hempty := hg.queue.empty
        rw [(hidle hreading ⟨0, hn⟩).2.1, hzero _ rfl rfl, hzero _ rfl rfl] at hfull
        rw [hzero _ rfl rfl, hzero _ rfl rfl] at hempty
        omega
      rcases hg.exists_transition (hrule _ _ k hp) with ⟨he, hend⟩ | ⟨he, r, x', htr⟩
      · have hreading : phaseOf tr .main = .reading := by
          revert hend hrole
          cases phaseOf tr .main <;> simp [Phase.mayEnd, Phase.isOffice, Thread.isOffice]
        cases e with
        | sys call =>
            by_cases hread : ∃ fd m, call = .read fd m
            · obtain ⟨fd, m, rfl⟩ := hread
              refine hnot (.inl ⟨⟨fd, m, k, hp⟩, fun i => (hidle hreading i).1⟩)
                (hg.managed_perm (fun i => ?_) (hsize hreading).1)
              rw [(hidle hreading i).2.2]
              rfl
            · push Not at hread
              rcases hM call c.shared.rest.world hread with ⟨r, w, hw⟩ | ⟨w, hw⟩
              · exact hwaits r w hw
              · exact hstuck .main (canMove_of_divert hp ⟨halive, rfl, .inl ⟨_, ⟨w, hw, rfl⟩, rfl⟩⟩)
        | segfault | exit =>
            exact hstuck .main (canMove_of_divert hp ⟨halive, rfl, .inl ⟨_, rfl, rfl⟩⟩)
        | _ => cases he
      · generalize hx : phaseOf tr .main = x at htr hrole hsize
        cases htr with
        | permit =>
            have hempty : c.shared.rest.queueEmptySem = 0 := hwaits
            rw [(hsize rfl).2] at hempty
            cases hempty
        | push request =>
            have hlt := hg.queue.size_lt (t := .main) (by rw [hx]; rfl)
            rw [Ext.Waits, RequestQueue.push_of_not_full hlt] at hwaits
            cases hwaits
        | lockPush | lockPoll => exact hwaits hmutex
        | join i =>
            obtain ⟨hi, hcancelled⟩ := cancelled_of_join h halive hp
            rcases hoffice ⟨i, hi⟩ with hended | ⟨-, -, hnc⟩
            · have hterminated := (cancelled_of_ended h halive hended).2
              rw [show c.shared.rest.terminated i = false from hwaits] at hterminated
              cases hterminated
            · rw [hcancelled] at hnc
              cases hnc
        | read => cases he
        | work => cases hrole
        | _ => first | exact hwaits | cases hrole

end Stuck

/-! ## A server that waits -/

/-- The main thread waits for a client when it has read all that there is. -/
def patientScript (reads : List (Option Bytes)) : Script (Thread 1) where
  State := List (Option Bytes)
  start := reads
  call
    | .main, .read .., [] => none
    | t, call, w => (servingScript (Thread 1) reads).call t call w
  kills _ _ _ := none

/-- Its other calls return. -/
theorem patientScript_returns (reads : List (Option Bytes)) :
    (patientScript reads).world.OfficesReturn ∧ (patientScript reads).world.MainReturns := by
  constructor
  · intro i call w
    refine .inl ?_
    cases call with
    | read fd m => cases w <;> exact ⟨_, _, rfl⟩
    | _ => exact ⟨_, _, rfl⟩
  · intro call w hread
    refine .inl ?_
    cases call with
    | read fd m => exact absurd rfl (hread fd m)
    | _ => exact ⟨_, _, rfl⟩

/-- The thread is at the `read` of a client's request. -/
def isAtRead (p : Server Ctl) : Bool :=
  match p with
  | .op (.ext (.sys (.read ..))) _ => true
  | _ => false

/-- The thread is at the wait for a request. -/
def isAtWait (p : Server Ctl) : Bool :=
  match p with
  | .op (.ext (.semWait .queueFullSem)) _ => true
  | _ => false

/-- Everything has been read, and the main thread and the office `i` wait. -/
def isPatient {reads : List (Option Bytes)} (i : Fin 1)
    (c : Config (Thread 1) ServerOp ServerRes (ServerState 1 (patientScript reads).world) Ctl) : Bool :=
  isAtRead (c.prog .main) && isAtWait (c.prog (.office i)) && c.shared.rest.queueFullSem == 0 &&
    !c.shared.rest.cancelled i && (show List (Option Bytes) from c.shared.rest.world).isEmpty

/-- Neither of them can go on. -/
theorem not_canMove_of_isPatient {reads : List (Option Bytes)}
    {c : Config (Thread 1) ServerOp ServerRes (ServerState 1 (patientScript reads).world) Ctl}
    {i : Fin 1} (h : isPatient i c = true) (t : Thread 1) : ¬ CanMove 3 4 c t := by
  intro hmove
  simp only [isPatient, Bool.and_eq_true, beq_iff_eq, Bool.not_eq_true'] at h
  obtain ⟨⟨⟨⟨hmain, hoffice⟩, hfull⟩, hcancelled⟩, hworld⟩ := h
  have hworld : c.shared.rest.world = ([] : List (Option Bytes)) := List.isEmpty_iff.mp hworld
  cases t with
  | main =>
      unfold isAtRead at hmain
      split at hmain
      · next fd m k hp =>
          rcases steps_of_canMove hmove hp with
            ⟨r, s', -, rest, ⟨w, hw, -⟩, -⟩ | ⟨x, s', -, -, ⟨rest, ⟨w, hw, -⟩, -⟩ | ⟨i, ht, -⟩⟩
          · rw [hworld] at hw
            cases hw
          · cases hw
          · cases ht
      · cases hmain
  | office j =>
      obtain rfl : j = i := Subsingleton.elim _ _
      unfold isAtWait at hoffice
      split at hoffice
      · next k hp =>
          rcases steps_of_canMove hmove hp with
            ⟨r, s', -, rest, ⟨hpos, -⟩, -⟩ | ⟨x, s', -, -, ⟨rest, hends, -⟩ | ⟨k', ht, hk', -⟩⟩
          · exact absurd hfull hpos.ne'
          · exact hends.elim
          · cases ht
            exact absurd (hcancelled.symm.trans hk') Bool.false_ne_true
      · cases hoffice

/-- A run after which a server with one office has managed one request, and waits. -/
theorem exists_run_waiting :
    ∃ tr c, (server 1 (patientScript (readsOf balanceRequest)).world 3 4).Run tr c ∧
      (isPatient 0 c && (managed tr).length == 1 && c.shared.rest.alive) = true :=
  System.exists_run_of_play (serverPlayer _ 3 4)
    (List.replicate 11 (.run .main) ++ List.replicate 25 (.run (.office 0)))
    (initial_firstConfig (patientScript (readsOf balanceRequest)) [9] [7] (fun _ => 1) 3 4)
    (fun tr c => isPatient 0 c && (managed tr).length == 1 && c.shared.rest.alive) (by decide +kernel)

/-- The server then waits for clients, and its request has been managed. -/
theorem quiescent_of_stuck_patient :
    ∃ tr c, (server 1 (patientScript (readsOf balanceRequest)).world 3 4).Run tr c ∧
      (managed tr).length = 1 ∧ (∀ t, ¬ CanMove 3 4 c t) ∧ WaitsForClients c ∧
      (managed tr).Perm (pushed tr) := by
  obtain ⟨tr, c, h, hc⟩ := exists_run_waiting
  simp only [Bool.and_eq_true, beq_iff_eq] at hc
  obtain ⟨⟨hpatient, hmanaged⟩, halive⟩ := hc
  have hstuck := not_canMove_of_isPatient hpatient
  rcases quiescent_of_stuck Nat.one_pos (patientScript_returns _).1 (patientScript_returns _).2 h
    halive with ⟨t, ht⟩ | ⟨hwaits | hended, hperm⟩
  · exact absurd ht (hstuck t)
  · exact ⟨tr, c, h, hmanaged, hstuck, hwaits, hperm⟩
  · simp only [isPatient, hended .main, isAtRead, Bool.false_and] at hpatient
    cases hpatient

end Sope
