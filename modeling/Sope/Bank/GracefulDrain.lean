import Sope.Bank.AccountLocks

/-! # The shutdown of the server

When `waitForRequestFinish` has returned, every request that was pushed has been completely managed
and every office waits for requests that no longer come; and so it stays while `destroyBankOffices`
cancels the offices one by one. -/

namespace Sope

open Concurrency

variable {n : ℕ} {W : World (Thread n)} {serverFifoFD shutdownFD : Int}
  {tr tr' : List (ServerEvent n W)}
  {c c' : Config (Thread n) ServerOp ServerRes (ServerState n W) Ctl}

/-- After `waitForRequestFinish` the main thread goes on to cancel the offices, whatever happens. -/
theorem isFinished_append (h : (phaseOf tr .main).isFinished n = true) (tr' : List (ServerEvent n W)) :
    (phaseOf (tr ++ tr') .main).isFinished n = true := by
  induction tr' using List.reverseRecOn with
  | nil => rwa [List.append_nil]
  | append_singleton tr' e ih =>
      rw [← List.append_assoc, phaseOf_append]
      obtain ⟨t, o, r, s⟩ := e
      cases o with
      | ext op =>
          rw [afterEvent]
          by_cases ht : t = .main
          · subst ht
            rw [Function.update_self]
            cases hnext : (phaseOf (tr ++ tr') .main).next n Thread.main.index op r with
            | none => exact ih
            | some x' =>
                rw [Option.getD_some, (Phase.Transition.of_next hnext).isFinished ih]
                rfl
          · rwa [Function.update_of_ne (Ne.symm ht)]
      | _ => exact ih

/-- **Graceful drain.** Once `waitForRequestFinish` has returned, the process goes on running, and at
every later moment: every request ever pushed has been completely managed, no office is past its
`sem_wait` for a request, and no office holds `queueMutex` or an account. -/
theorem graceful_drain (h : (server n W serverFifoFD shutdownFD).Run tr c)
    (hmain : c.prog .main = .ret (.destroy 0))
    (hp : (server n W serverFifoFD shutdownFD).Path c tr' c') :
    c'.shared.rest.alive = true ∧
      (managed (tr ++ tr')).Perm (pushed (tr ++ tr')) ∧
      ∀ i : Fin n, (phaseOf (tr ++ tr') (.office i)).isQuiet = true ∧
        c'.shared.rest.queueMutex ≠ some (.office i) ∧
        ∀ id, c'.shared.owner id ≠ some (.office i) := by
  -- the main thread comes back to its loop with the wait over
  obtain ⟨g, hg⟩ := (coordinationCertificate serverFifoFD shutdownFD).run h ⟨⟩
  have hinv : CoordInv tr c.shared g := hg.1
  have hpost : between .main (.destroy 0) (g .main) := hg.ret hmain
  have hfin : (phaseOf tr .main).isFinished n = true := by
    rw [← (hinv.running (hinv.finished (.inl hpost.2))).phase]
    exact hpost.2
  -- and that remains so
  have hfin' := isFinished_append hfin tr'
  obtain ⟨g', hg'⟩ := (coordinationCertificate serverFifoFD shutdownFD).run (h.trans hp) ⟨⟩
  have hinv' : CoordInv (tr ++ tr') c'.shared g' := hg'.1
  have halive := hinv'.finished (.inr hfin')
  have hsync := hinv'.running halive
  have hquiet := hsync.quiet_of_finished hfin'
  have hsize : c'.shared.rest.queue.size = 0 := by
    refine hsync.drain.drained ?_
    rcases Phase.isFinished_iff.mp hfin' with hx | hx <;> rw [hx] <;> rfl
  refine ⟨halive, ?_, fun i => ⟨hquiet i, fun hm => ?_, fun id hid => ?_⟩⟩
  -- the queue is empty, so all that was pushed has been popped
  · have hpushed : pushed (tr ++ tr') = popped (tr ++ tr') := by
      have := hsync.queue.fifo
      rwa [List.eq_nil_of_length_eq_zero (RequestQueue.length_toList.trans hsize),
        List.append_nil] at this
    rw [hpushed, List.perm_iff_count]
    intro request
    -- and no thread has a popped request in hand
    have hzero : total (Phase.inHand request) (phaseOf (tr ++ tr')) = 0 := by
      refine total_eq_zero fun t => ?_
      cases t with
      | main => rcases Phase.isFinished_iff.mp hfin' with hx | hx <;> rw [hx] <;> rfl
      | office i =>
          have := hquiet i
          revert this
          cases phaseOf (tr ++ tr') (.office i) <;> simp [Phase.isQuiet, Phase.inHand]
    have := hsync.drain.inHand request
    omega
  · have := (hsync.queue.mutex (.office i)).mp hm
    have := hquiet i
    revert this ‹(phaseOf (tr ++ tr') (.office i)).holdsQueueMutex = true›
    cases phaseOf (tr ++ tr') (.office i) <;> simp [Phase.isQuiet, Phase.holdsQueueMutex]
  · have := hsync.isManaging_of_owner hid
    have := hquiet i
    revert this ‹(phaseOf (tr ++ tr') (.office i)).isManaging = true›
    cases phaseOf (tr ++ tr') (.office i) <;> simp [Phase.isQuiet, Phase.isManaging]

/-- The main thread is about to cancel the first office. -/
def hasWaited (p : Server Ctl) : Bool :=
  match p with
  | .ret ctl => ctl == .destroy 0
  | .op .. => false

theorem eq_of_hasWaited {p : Server Ctl} (h : hasWaited p = true) : p = .ret (.destroy 0) := by
  cases p with
  | ret ctl => rw [beq_iff_eq.mp h]
  | op => cases h

/-- What the main thread of a server reads that serves one request and is shut down. -/
def oneRequest : Script (Thread 1) :=
  servingScript _ (readsOf balanceRequest ++ [some [], some []])

/-- A run after which the main thread has waited for one office that managed one request. -/
theorem exists_run_drained :
    ∃ tr c, (server 1 oneRequest.world 3 4).Run tr c ∧
      (hasWaited (c.prog .main) && (managed tr).length == 1) = true :=
  System.exists_run_of_play (serverPlayer _ 3 4)
    (List.replicate 13 (.run .main) ++ List.replicate 24 (.run (.office 0)) ++
      List.replicate 6 (.run .main))
    (initial_firstConfig oneRequest [9] [7] (fun _ => 1) 3 4)
    (fun tr c => hasWaited (c.prog .main) && (managed tr).length == 1) (by decide +kernel)

/-- A server that has served a request is drained. -/
theorem graceful_drain_one :
    ∃ tr c, (server 1 oneRequest.world 3 4).Run tr c ∧ (managed tr).length = 1 ∧
      c.shared.rest.alive = true ∧ (managed tr).Perm (pushed tr) ∧
      (phaseOf tr (.office 0)).isQuiet = true := by
  obtain ⟨tr, c, h, hc⟩ := exists_run_drained
  simp only [Bool.and_eq_true, beq_iff_eq] at hc
  have hd := graceful_drain h (eq_of_hasWaited hc.1) (.refl c)
  rw [List.append_nil] at hd
  exact ⟨tr, c, h, hc.2, hd.1, hd.2.1, (hd.2.2 0).1⟩

end Sope
