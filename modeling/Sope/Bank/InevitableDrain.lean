import Sope.Bank.Quiescence
import Sope.Concurrency.Inevitable

/-! # The offices finish what they have been given

While the main thread waits for the next client, the offices manage every request that it has pushed,
whatever the order of their steps is (`inevitably_managed`): no schedule of the offices goes on for ever
without coming to the state in which the queue is empty and every office waits.

* `Below` — a round of an office comes to its end, or to the `sem_wait` at which it takes a request.
* `workload` — the rank: the requests that may still be taken, and the rest of each office's round. -/

namespace Sope

open Concurrency

variable {n : ℕ} {W : World (Thread n)} {serverFifoFD shutdownFD : Int}

/-! ## The rest of a round -/

/-- What an office comes to by a step that takes no request. -/
inductive Below (setup : Setup) (office : ℕ) : Server Ctl → Server Ctl → Prop
  | op {o : ServerOp} {k : ServerRes o → Server Ctl} (r : ServerRes o)
      (h : o ≠ .ext (.semWait .queueFullSem)) : Below setup office (k r) (.op o k)
  | round {ctl : Ctl} (h : ctl ≠ .ended) :
      Below setup office (officeBody setup office ctl) (.ret ctl)

section Below

variable {setup : Setup} {office : ℕ}

/-- A program comes to an end, from whichever end the office can go on. -/
theorem acc_below (hret : ∀ ctl, Acc (Below setup office) (.ret ctl)) (p : Server Ctl) :
    Acc (Below setup office) p := by
  induction p with
  | ret ctl => exact hret ctl
  | op o k ih =>
      apply Acc.intro
      intro q hq
      cases hq with
      | op r _ => exact ih r

/-- The next request is the end of every round. -/
theorem acc_ret (ctl : Ctl) : Acc (Below setup office) (.ret ctl) := by
  have hstop : ∀ k : Unit → Server Ctl,
      Acc (Below setup office) (.op (.ext (.semWait .queueFullSem)) k) := by
    intro k
    apply Acc.intro
    intro q hq
    cases hq with
    | op _ h => exact absurd rfl h
  have hended : Acc (Below setup office) (.ret .ended) := by
    apply Acc.intro
    intro q hq
    cases hq with
    | round h => exact absurd rfl h
  have hserve : Acc (Below setup office) (.ret .serve) := by
    apply Acc.intro
    intro q hq
    cases hq with
    | round _ => exact hstop _
  apply Acc.intro
  intro q hq
  cases hq with
  | round h =>
      cases ctl with
      | serve => exact hstop _
      | start =>
          apply Acc.intro
          intro q hq
          cases hq with
          | op _ _ => exact hserve
      | _ => exact hended

/-- No office works on one request for ever. -/
theorem wellFounded_below (setup : Setup) (office : ℕ) : WellFounded (Below setup office) :=
  ⟨acc_below acc_ret⟩

end Below

/-! ## The work that is left -/

/-- The rank of a configuration: how many requests may still be taken, and where each office is in its
round. -/
def workload (c : Config (Thread n) ServerOp ServerRes (ServerState n W) Ctl) :
    ℕ × (Fin n → Server Ctl) :=
  (c.shared.rest.queueFullSem, fun i => c.prog (.office i))

/-- Less work is left. -/
def LessWork (setup : Setup) : ℕ × (Fin n → Server Ctl) → ℕ × (Fin n → Server Ctl) → Prop :=
  Prod.Lex (· < ·) (LowersOne fun i : Fin n => Below setup i)

/-- Work does not become less for ever. -/
theorem wellFounded_lessWork (setup : Setup) :
    WellFounded (LessWork setup : ℕ × (Fin n → Server Ctl) → _ → Prop) :=
  WellFounded.prod_lex wellFounded_lt (wellFounded_lowersOne fun i => wellFounded_below setup i)

/-- Only the `sem_wait` and the `sem_post` on `queueFullSem` change it. -/
theorem Ext.Sem.queueFullSem_eq {t : Thread n} {e : Ext} {s s' : Shared W} {r : e.Res}
    (h : e.Sem t s r s') (hwait : e ≠ .semWait .queueFullSem) (hpost : e ≠ .semPost .queueFullSem) :
    s'.queueFullSem = s.queueFullSem := by
  cases e with
  | semWait sem =>
      cases sem with
      | queueEmptySem => exact h.2 ▸ rfl
      | queueFullSem => exact absurd rfl hwait
  | semPost sem =>
      cases sem with
      | queueEmptySem => exact h ▸ rfl
      | queueFullSem => exact absurd rfl hpost
  | queuePush request => obtain ⟨queue, -, rfl⟩ := h; rfl
  | sys call => obtain ⟨w, -, rfl⟩ := h; rfl
  | segfault | exit => exact h.elim
  | unlockQueueMutex | writeActive | pthreadCancel | mark => exact h ▸ rfl
  | _ => exact h.2 ▸ rfl

section Steps

variable {tr : List (ServerEvent n W)} {c c' : Config (Thread n) ServerOp ServerRes (ServerState n W) Ctl}
  {s : ServerState n W} {g : Thread n → Hold UInt32 Slot × Phase} {i : Fin n}

/-- An office pushes nothing, and leaves the count of the requests alone unless it takes one. -/
theorem Synchronised.office_ext (h : Synchronised tr s g) {e : Ext}
    (hr : (coord (.office i)).rule (g (.office i)) (.ext e) fun _ _ => True) (r : e.Res) :
    e ≠ .semPost .queueFullSem ∧ e.pushes = none := by
  obtain ⟨x', htr, -⟩ := h.transition hr r
  have hrole := h.drain.role (.office i)
  generalize phaseOf tr (.office i) = x at htr hrole
  cases htr with
  | work r request he =>
      constructor
      · rintro rfl
        cases he
      · exact (Ext.local_quiet he r).1
  | start | enter | flag | lock | pop | unlock | manage | finish | clear => exact ⟨by simp, rfl⟩
  | _ => cases hrole

/-- The rank after a step that takes no request. -/
theorem lessWork_of_below {setup : Setup} {s' : ServerState n W} {p : Server Ctl}
    (hfull : s'.rest.queueFullSem = c.shared.rest.queueFullSem)
    (hp : Below setup i p (c.prog (.office i))) :
    LessWork setup (workload ⟨s', Function.update c.prog (.office i) p⟩) (workload c) := by
  unfold workload
  simp only [hfull]
  apply Prod.Lex.right
  refine ⟨i, ?_, fun j hj => ?_⟩
  · simpa using hp
  · exact Function.update_of_ne (by simpa using hj) ..

/-- A step of an office leaves less work, unless it is taken away from its operation. -/
theorem lessWork_of_stepOf (h : (server n W serverFifoFD shutdownFD).Run tr c)
    (halive : c.shared.rest.alive = true) {e : Option (ServerEvent n W)}
    (hs : (server n W serverFifoFD shutdownFD).StepOf (.office i) c e c')
    (hended : c.prog (.office i) ≠ .ret .ended) (hcancelled : c.shared.rest.cancelled i = false) :
    c'.shared.rest.alive = false ∨
      LessWork ⟨n, serverFifoFD, shutdownFD⟩ (workload c') (workload c) ∧
        pushed (tr ++ e.toList) = pushed tr := by
  obtain ⟨g, hg, hrule, -⟩ := synchronised_of_run h halive
  cases hs with
  | loop hp =>
      refine .inr ⟨lessWork_of_below rfl ?_, by simp⟩
      rw [hp]
      apply Below.round
      rintro rfl
      exact hended hp
  | divert hp hd =>
      rename_i o k x s'
      cases o with
      | ext op =>
          obtain ⟨-, -, ⟨rest, -, rfl⟩ | ⟨j, hj, hcancel, -⟩⟩ := hd
          · exact .inl rfl
          · cases hj
            rw [hcancelled] at hcancel
            cases hcancel
      | _ => exact hd.elim
  | exec hp hs =>
      rename_i o k r s'
      refine .inr ?_
      have hs : Locked.sem table (fun s => s.alive = true) Ext.Sem (.office i) o c.shared r s' := hs
      have hbelow : ∀ h : o ≠ .ext (.semWait .queueFullSem),
          Below ⟨n, serverFifoFD, shutdownFD⟩ i (k r) (c.prog (.office i)) := fun h => hp ▸ .op r h
      cases o with
      | access a =>
          obtain ⟨-, -, rfl⟩ := hs
          exact ⟨lessWork_of_below rfl (hbelow (by simp)), (pushed_append _).trans (List.append_nil _)⟩
      | lock id =>
          obtain ⟨-, -, rfl⟩ := hs
          exact ⟨lessWork_of_below rfl (hbelow (by simp)), (pushed_append _).trans (List.append_nil _)⟩
      | unlock id =>
          obtain ⟨-, rfl⟩ := hs
          exact ⟨lessWork_of_below rfl (hbelow (by simp)), (pushed_append _).trans (List.append_nil _)⟩
      | ext op =>
          obtain ⟨-, rest, hsem, rfl⟩ := hs
          obtain ⟨hpost, hpush⟩ := hg.office_ext (hrule _ _ k hp) r
          have hpushed : pushed (tr ++ [⟨.office i, .ext op, r, c.shared⟩]) = pushed tr := by
            rw [pushed_append]
            show pushed tr ++ op.pushes.toList = pushed tr
            rw [hpush, Option.toList_none, List.append_nil]
          by_cases hwait : op = .semWait .queueFullSem
          · subst hwait
            obtain ⟨hpos, rfl⟩ := hsem
            exact ⟨Prod.Lex.left _ _ (Nat.sub_lt hpos Nat.one_pos), hpushed⟩
          · exact ⟨lessWork_of_below (hsem.queueFullSem_eq hwait hpost) (hbelow (by simpa using hwait)),
              hpushed⟩

/-- A thread that can go on has a step. -/
theorem exists_stepOf {t : Thread n} (h : CanMove serverFifoFD shutdownFD c t) :
    ∃ e c', (server n W serverFifoFD shutdownFD).StepOf t c e c' := by
  rcases h with ⟨o, k, hp, ⟨r, s', hs⟩ | ⟨x, s', hd⟩⟩ | ⟨ctl, hp, -⟩
  · exact ⟨_, _, .exec hp hs⟩
  · exact ⟨_, _, .divert hp hd⟩
  · exact ⟨_, _, .loop hp⟩

/-- The surroundings change the world only. -/
theorem rest_of_drifts {s' : ServerState n W} (h : (server n W serverFifoFD shutdownFD).Drifts s s') :
    s'.rest.queueFullSem = s.rest.queueFullSem ∧ s'.rest.alive = s.rest.alive := by
  induction h with
  | refl => exact ⟨rfl, rfl⟩
  | tail _ he ih =>
      obtain ⟨w, -, rfl⟩ := he
      exact ih

end Steps

/-! ## The main thread waits for a client -/

/-- The main thread is at a `read`. -/
def MainReads (c : Config (Thread n) ServerOp ServerRes (ServerState n W) Ctl) : Prop :=
  ∃ fd m k, c.prog .main = .op (.ext (.sys (.read fd m))) k

section Reading

variable {tr : List (ServerEvent n W)} {c : Config (Thread n) ServerOp ServerRes (ServerState n W) Ctl}

/-- It is not in the middle of anything. -/
theorem MainReads.phase (hmain : MainReads c) (h : (server n W serverFifoFD shutdownFD).Run tr c)
    (halive : c.shared.rest.alive = true) : phaseOf tr .main = .reading := by
  obtain ⟨fd, m, k, hp⟩ := hmain
  obtain ⟨g, hg, hrule, -⟩ := synchronised_of_run h halive
  have hrole := hg.drain.role .main
  rcases hg.exists_transition (hrule _ _ k hp) with ⟨-, hend⟩ | ⟨he, -⟩
  · revert hend hrole
    cases phaseOf tr .main <;> simp [Phase.mayEnd, Phase.isOffice, Thread.isOffice]
  · cases he

/-- No office has been cancelled, and none has ended. -/
theorem MainReads.not_cancelled (hmain : MainReads c)
    (h : (server n W serverFifoFD shutdownFD).Run tr c) (halive : c.shared.rest.alive = true)
    (i : Fin n) : c.shared.rest.cancelled i = false ∧ c.prog (.office i) ≠ .ret .ended := by
  have hphase := hmain.phase h halive
  obtain ⟨g, hg, -⟩ := synchronised_of_run h halive
  have hnot : c.shared.rest.cancelled i = false := by
    apply Bool.eq_false_of_not_eq_true
    intro hcancelled
    have := hg.drain.cancelled _ hcancelled
    rw [hphase] at this
    cases this
  refine ⟨hnot, fun hp => ?_⟩
  have := (cancelled_of_ended h halive hp).1
  rw [hnot] at this
  cases this

/-- If no office can go on, then all of them wait, and all that has been pushed is managed. -/
theorem MainReads.managed_of_stuck (hmain : MainReads c) (hn : 0 < n) (hO : W.OfficesReturn)
    (h : (server n W serverFifoFD shutdownFD).Run tr c) (halive : c.shared.rest.alive = true)
    (hstuck : ∀ i : Fin n, ¬ CanMove serverFifoFD shutdownFD c (.office i)) :
    WaitsForClients c ∧ (managed tr).Perm (pushed tr) := by
  have hphase := hmain.phase h halive
  obtain ⟨g, hg, hrule, -⟩ := synchronised_of_run h halive
  have hmanaging : ∀ i : Fin n, (phaseOf tr (.office i)).isManaging = false := by
    intro i
    by_contra hi
    obtain ⟨j, -, hj⟩ := exists_enabled_of_managing hO h halive (i := i) (by simpa using hi)
    exact hstuck j (.inl hj)
  have hmutex : c.shared.rest.queueMutex = none := by
    apply queueMutex_of_stuck hn h halive
    intro t ht
    cases t with
    | office i => exact hstuck i
    | main =>
        have := (hg.queue.mutex .main).mp ht
        rw [hphase] at this
        cases this
  have hidle : ∀ i : Fin n, (∃ k, c.prog (.office i) = .op (.ext (.semWait .queueFullSem)) k) ∧
      c.shared.rest.queueFullSem = 0 ∧ phaseOf tr (.office i) = .idle := by
    intro i
    rcases office_of_stuck h halive (hstuck i) hmutex (hmanaging i) with hended | ⟨⟨k, hk⟩, hfull, -⟩
    · exact absurd hended (hmain.not_cancelled h halive i).2
    · exact ⟨⟨k, hk⟩, hfull, hg.idle_of_semWait (hrule _ _ k hk) (hmanaging i)⟩
  refine ⟨⟨hmain, fun i => (hidle i).1⟩, hg.managed_perm (fun i => ?_) ?_⟩
  · rw [(hidle i).2.2]
    rfl
  · have hzero : ∀ f : Phase → ℕ, f .reading = 0 → f .idle = 0 → total f (phaseOf tr) = 0 := by
      intro f hf hf'
      refine total_eq_zero fun t => ?_
      cases t with
      | main => rw [hphase, hf]
      | office i => rw [(hidle i).2.2, hf']
    have hfull := hg.queue.full
    rw [(hidle ⟨0, hn⟩).2.1, hzero _ rfl rfl, hzero _ rfl rfl] at hfull
    omega

/-- **The offices finish what they have been given.** Assume that the system calls of the offices return.
While the main thread waits at the `read` of the next request, every schedule of the offices, whatever
the surroundings do in between, comes to a state in which all offices wait for requests and every request
that was ever pushed has been managed, exactly once, unless a call has ended the process; and none stops
before. The accounts of the requests are below `MAX_BANK_ACCOUNTS`, the number of the mutexes that there
are. -/
theorem inevitably_managed (hn : 0 < n) (hO : W.OfficesReturn)
    (h : (server n W serverFifoFD shutdownFD).Run tr c) (hmain : MainReads c) :
    Inevitable ((server n W serverFifoFD shutdownFD).Turn (Set.range .office))
      (fun x => x.2.shared.rest.alive = false ∨
        WaitsForClients x.2 ∧ (managed x.1).Perm (pushed tr)) (tr, c) := by
  refine inevitable_of_wellFounded (wellFounded_lessWork ⟨n, serverFifoFD, shutdownFD⟩)
    (fun x => workload x.2)
    (I := fun x => (server n W serverFifoFD shutdownFD).Run x.1 x.2 ∧ MainReads x.2 ∧
      pushed x.1 = pushed tr) ?_ ?_ ⟨h, hmain, rfl⟩
  · rintro ⟨tr', c'⟩ ⟨hrun, hmain', hpushed⟩ hnot
    simp only [not_or] at hnot
    obtain ⟨halive, hnot⟩ := hnot
    have halive := Bool.eq_true_of_not_eq_false halive
    obtain ⟨i, hi⟩ : ∃ i : Fin n, CanMove serverFifoFD shutdownFD c' (.office i) := by
      by_contra hstuck
      push Not at hstuck
      have hend := hmain'.managed_of_stuck hn hO hrun halive hstuck
      rw [hpushed] at hend
      exact hnot hend
    obtain ⟨e, c'', hs⟩ := exists_stepOf hi
    exact ⟨(tr' ++ e.toList, c''), _, .refl, _, ⟨i, rfl⟩, e, hs, rfl⟩
  · rintro ⟨tr', c'⟩ ⟨-, c''⟩ ⟨hrun, hmain', hpushed⟩ hnot ⟨s, hdrift, -, ⟨i, rfl⟩, e, hs, rfl⟩
    simp only [not_or] at hnot
    obtain ⟨hfull, halive⟩ := rest_of_drifts hdrift
    have halive := halive.trans (Bool.eq_true_of_not_eq_false hnot.1)
    have hrun := hrun.drift hdrift
    have hmain'' : MainReads (⟨s, c'.prog⟩ : Config _ _ _ _ _) := hmain'
    obtain ⟨hcancelled, hended⟩ := hmain''.not_cancelled hrun halive i
    rcases lessWork_of_stepOf hrun halive hs hended hcancelled with hdead | ⟨hless, hpushed'⟩
    · exact .inl (.inl hdead)
    · refine .inr ⟨⟨hrun.step hs.step, ?_, hpushed'.trans hpushed⟩, ?_⟩
      · obtain ⟨fd, m, k, hp⟩ := hmain'
        exact ⟨fd, m, k, (hs.prog_of_ne (by simp)).trans hp⟩
      · have hsame : workload (⟨s, c'.prog⟩ : Config _ _ _ _ _) = workload c' := by
          unfold workload
          rw [hfull]
        rwa [← hsame]

end Reading

/-! ## A request that no office has taken yet -/

/-- What the test for it says. -/
theorem mainReads_of_isAtRead {c : Config (Thread n) ServerOp ServerRes (ServerState n W) Ctl}
    (h : isAtRead (c.prog .main) = true) : MainReads c := by
  unfold isAtRead at h
  split at h
  · next fd m k hp => exact ⟨fd, m, k, hp⟩
  · cases h

/-- A run after which the main thread waits for a client, and a request for an office. -/
theorem exists_run_pushed :
    ∃ tr c, (server 1 (patientScript (readsOf balanceRequest)).world 3 4).Run tr c ∧
      (isAtRead (c.prog .main) && (pushed tr).length == 1 && (managed tr).isEmpty) = true :=
  System.exists_run_of_play (serverPlayer _ 3 4) (List.replicate 11 (.run .main))
    (initial_firstConfig (patientScript (readsOf balanceRequest)) [9] [7] (fun _ => 1) 3 4)
    (fun tr c => isAtRead (c.prog .main) && (pushed tr).length == 1 && (managed tr).isEmpty)
    (by decide +kernel)

/-- It will be managed. -/
theorem inevitably_managed_pushed :
    ∃ tr c, (server 1 (patientScript (readsOf balanceRequest)).world 3 4).Run tr c ∧
      (pushed tr).length = 1 ∧ managed tr = [] ∧
      Inevitable ((server 1 (patientScript (readsOf balanceRequest)).world 3 4).Turn
        (Set.range .office)) (fun x => x.2.shared.rest.alive = false ∨
          WaitsForClients x.2 ∧ (managed x.1).Perm (pushed tr)) (tr, c) := by
  obtain ⟨tr, c, h, hc⟩ := exists_run_pushed
  simp only [Bool.and_eq_true, beq_iff_eq, List.isEmpty_iff] at hc
  obtain ⟨⟨hread, hpushed⟩, hmanaged⟩ := hc
  exact ⟨tr, c, h, hpushed, hmanaged,
    inevitably_managed Nat.one_pos (patientScript_returns _).1 h (mainReads_of_isAtRead hread)⟩

end Sope
