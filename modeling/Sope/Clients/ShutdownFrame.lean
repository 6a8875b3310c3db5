import Sope.Clients.Play
import Sope.Clients.ServerDescriptors

/-! # What a shutdown touches

`handleShutdownRequest` changes the mode of the descriptor in `shutdownFD` and closes it, each time an
authorised shutdown request is handled. It closes the write end of the server's FIFO the first time; the
number is free then, and the next `open` or `pipe` of another office takes it.

* `shutdown_acts_iff` — they act on the server's FIFO exactly as long as none has closed it before.
* `exists_shutdown_hits_reply` — a second shutdown closes the FIFO that another office has opened. -/

namespace Sope

open Concurrency

variable {P : Type} [DecidableEq P] [Fintype P] {C : Clientele P} {n files : ℕ}
  {tr : List (BankEvent C n files)} {c : BankConfig C n files}

/-- It acts on the write end of the server's FIFO, which `main` has passed to `assignShutdownFD`. -/
def ActsOnServerFifo (fd : Int) (e : BankEvent C n files) : Prop :=
  fd = (bankSetup n files).shutdownFD ∧ (worldAt e).descriptor fd = some .serverWrite

/-- One call: it acts on the server's FIFO unless that has been closed before. -/
theorem actsOnServerFifo_iff {tr₁ tr₂ : List (BankEvent C n files)} {e : BankEvent C n files} {fd : Int}
    (h : (bank C n files).Run tr c) (htr : tr = tr₁ ++ e :: tr₂) (he : IsShutdownCall fd tr₁ e) :
    ActsOnServerFifo fd e ↔ ¬ Occurs ClosesShutdownFD tr₁ := by
  have hallows := allows_of_mem h htr
  subst htr
  obtain ⟨c₁, k, s', hr, hpre, hp, -⟩ := h.split
  have hfd : fd = (bankSetup n files).shutdownFD := by
    obtain ⟨x', hstep, -⟩ := exists_errandStep hr hp e.res
    obtain ⟨t, o, r, s⟩ := e
    rcases he with rfl | ⟨rfl, -, hsealed⟩
    · obtain ⟨q, -, hfd, -⟩ := hstep.of_fchmod
      exact hfd
    · rcases hstep.of_close with ⟨q, -, hfd, -⟩ | ⟨q, hx, -⟩ | ⟨q, bytes, hx, -⟩
      · exact hfd
      · rw [hx] at hsealed
        cases hsealed
      · rw [hx] at hsealed
        cases hsealed
  have hinv := (fdInv_of_run hr).open_iff
  have hdescriptor : (worldAt e).descriptor fd = (worldOf c₁).fds.get (files + 1) := by
    rw [hfd, worldAt, ← hpre]
    exact Outside.descriptor_natCast _ (files + 1)
  rw [ActsOnServerFifo, hdescriptor, ← hinv]
  exact and_iff_right hfd

/-- **A shutdown touches only the server's FIFO exactly if it is the only one.** In a run, all calls of
`fchmod` and `close` in `handleShutdownRequest` act on the write end of the server's FIFO if and only if
none of them is made after one of them has closed it. -/
theorem shutdown_acts_iff (h : (bank C n files).Run tr c) :
    (∀ fd, Always (fun tr e => IsShutdownCall fd tr e → ActsOnServerFifo fd e) tr) ↔
      ∀ fd, Always (fun tr e => IsShutdownCall fd tr e → ¬ Occurs ClosesShutdownFD tr) tr := by
  refine forall_congr' fun fd => ?_
  constructor
  · intro hacts tr₁ e tr₂ htr he
    exact (actsOnServerFifo_iff h htr he).mp (hacts tr₁ e tr₂ htr he)
  · intro hfirst tr₁ e tr₂ htr he
    exact (actsOnServerFifo_iff h htr he).mpr (hfirst tr₁ e tr₂ htr he)

/-! ## One shutdown -/

/-- The operation closes a descriptor. -/
def ServerOp.isClose : ServerOp → Bool
  | .ext (.sys (.close _)) => true
  | _ => false

/-- Where no descriptor has been closed, `handleShutdownRequest` has closed none. -/
theorem not_occurs_of_all (h : tr.all fun e => !ServerOp.isClose e.op) :
    ¬ Occurs ClosesShutdownFD tr := by
  rintro ⟨tr₁, e, tr₂, rfl, ⟨fd, hop⟩, -⟩
  have := List.all_eq_true.mp h e (by simp)
  rw [hop] at this
  cases this

/-- A shutdown that is handled up to `close` acts on the server's FIFO. -/
theorem shutdown_acts_first :
    ∃ (tr : List (BankEvent twoAdmins 2 3)) (c : BankConfig twoAdmins 2 3),
      (bank twoAdmins 2 3).Run tr c ∧ (∃ e ∈ tr, ServerOp.isClose e.op = true) ∧
        ∀ fd, Always (fun tr e => IsShutdownCall fd tr e → ActsOnServerFifo fd e) tr := by
  obtain ⟨tr, c, h, hc⟩ := System.exists_run_of_play (bankPlayer twoAdmins 2 3)
    (requestMoves false ++ List.replicate 11 (.run .main) ++ List.replicate 18 (.run (.office 0)))
    (initial_bankStart twoAdmins 2 3)
    (fun tr _ => (tr.getLast?.elim false fun e => ServerOp.isClose e.op) &&
      tr.dropLast.all fun e => !ServerOp.isClose e.op) (by decide +kernel)
  rcases List.eq_nil_or_concat tr with rfl | ⟨tr, e, rfl⟩
  · cases hc
  rw [List.concat_eq_append] at h hc
  simp only [List.getLast?_concat, Option.elim_some, List.dropLast_concat, Bool.and_eq_true] at hc
  refine ⟨tr ++ [e], c, h, ⟨e, by simp, hc.1⟩, (shutdown_acts_iff h).mpr ?_⟩
  intro fd tr₁ e' tr₂ htr _
  refine not_occurs_of_all (List.all_eq_true.mpr fun a ha => List.all_eq_true.mp hc.2 a ?_)
  -- what comes before an operation is in the beginning of the run
  have hpre : tr₁ <+: tr := by
    have : tr₁ <+: tr ++ [e] := ⟨e' :: tr₂, htr.symm⟩
    refine (List.prefix_concat_iff.mp this).resolve_left ?_
    rintro rfl
    simp at htr
  exact hpre.subset ha

/-! ## A second shutdown -/

/-- The first shutdown is handled up to the opening of the user's FIFO, which gets the number that was
closed; the second one up to `close`. -/
def secondShutdown : List (Pick (Thread 2) (Move Bool)) :=
  requestMoves false ++ requestMoves true ++ List.replicate 20 (.run .main) ++
    List.replicate 21 (.run (.office 0)) ++ List.replicate 18 (.run (.office 1))

/-- The second office has just closed the number 4, in `handleShutdownRequest`, when it stood for the
FIFO that the first office has opened. -/
def hasHitReply (tr : List (BankEvent twoAdmins 2 3)) : Bool :=
  tr.getLast?.elim false fun e =>
    e.op = .ext (.sys (.close 4)) ∧ (bankErrands tr.dropLast e.tid).isSealed = true ∧
      e.tid = .office 1 ∧ (worldAt e).descriptor 4 = some (.userFifo false (.office 0))

/-- **A second shutdown closes the FIFO in which another office answers its user.** -/
theorem exists_shutdown_hits_reply :
    ∃ (tr : List (BankEvent twoAdmins 2 3)) (c : BankConfig twoAdmins 2 3) (e : _) (fd : Int)
      (p : Bool) (t : Thread 2), (bank twoAdmins 2 3).Run (tr ++ [e]) c ∧ IsShutdownCall fd tr e ∧
        (worldAt e).descriptor fd = some (.userFifo p t) ∧ t ≠ e.tid := by
  obtain ⟨tr, c, h, hc⟩ := System.exists_run_of_play (bankPlayer twoAdmins 2 3) secondShutdown
    (initial_bankStart twoAdmins 2 3) (fun tr _ => hasHitReply tr) (by decide +kernel)
  rcases List.eq_nil_or_concat tr with rfl | ⟨tr, e, rfl⟩
  · cases hc
  rw [List.concat_eq_append] at h hc
  simp only [hasHitReply, List.getLast?_concat, Option.elim_some, List.dropLast_concat,
    decide_eq_true_eq] at hc
  obtain ⟨hop, hsealed, htid, hfd⟩ := hc
  refine ⟨tr, c, e, 4, false, .office 0, h, .inr ⟨hop, ⟨4, hop⟩, hsealed⟩, hfd, ?_⟩
  rw [htid]
  decide

end Sope
