import Sope.Bank.Ledger
import Sope.Bank.Play

/-! # Money is conserved

In every reachable state the balances of the used accounts and the amounts of the transfers that have
debited but not yet credited add up to the initial balances of the accounts created so far, and no
balance ever wraps. -/

namespace Sope

open Concurrency

variable {n : ℕ} {W : World (Thread n)} {lo : ℕ} {serverFifoFD shutdownFD : Int}
  {tr : List (ServerEvent n W)}
  {c : Config (Thread n) ServerOp ServerRes (ServerState n W) Ctl}

/-- The books are correct in every state that a run reaches, and every operation of a run was performed
as the rules of the books ask. -/
theorem books_of_run (hlo : lo ≤ minBalance) (h : (server n W serverFifoFD shutdownFD).Run tr c)
    (ha : Lawful lo tr) : ∃ g, BooksInv lo tr c.shared g ∧
      ∀ t o k, c.prog t = .op o k → (books lo).rule (g t) o fun _ _ => True := by
  obtain ⟨g, hg⟩ := (booksCertificate lo hlo serverFifoFD shutdownFD).run h ha
  exact ⟨g, hg.1, fun t o k hp => (books lo).mono (fun _ _ _ => trivial) (hg.rule hp)⟩

/-- Every operation of a run keeps the books. -/
theorem keeps_of_split (hlo : lo ≤ minBalance) {tr' : List (ServerEvent n W)} {e : ServerEvent n W}
    (h : (server n W serverFifoFD shutdownFD).Run (tr ++ e :: tr') c)
    (ha : Lawful lo (tr ++ e :: tr')) :
    ∃ b, Keeps lo ((booksOf tr).activity e.tid) b e.op := by
  obtain ⟨c₁, k, s', hr, hpre, hp, hsem⟩ := h.split
  obtain ⟨g, hinv, hrule⟩ := books_of_run hlo hr (ha.of_prefix ⟨e :: tr', rfl⟩)
  have hsem : Locked.sem table (fun s => s.alive = true) Ext.Sem e.tid e.op e.pre e.res s' := hsem
  rw [← hpre] at hsem
  rw [← (hinv.running (Locked.sem_live hsem)).2 e.tid]
  exact ⟨_, (hrule _ _ _ hp).1⟩

/-- **Money is conserved.** Take any run of the server, with any number of offices, in which the
requests are within the limits. The sum of the balances of all used accounts, plus the amounts of the
transfers that have debited but not yet credited, is the sum of the initial balances of the accounts
created so far, and every addition and subtraction of balances was exact. -/
theorem money_conserved (h : (server n W serverFifoFD shutdownFD).Run tr c)
    (hlimits : ∀ request ∈ pushed tr, request.WithinLimits) :
    bankTotal c.shared.cells + total Activity.inFlight (booksOf tr).activity = (booksOf tr).created ∧
      (∀ e ∈ tr, ∀ a b, e.op = .ext (.add a b) → a.toNat + b.toNat < 2 ^ 32) ∧
      ∀ e ∈ tr, ∀ a b, e.op = .ext (.sub a b) → b.toNat ≤ a.toNat := by
  have ha : Lawful 0 tr :=
    ⟨fun request hr => (hlimits request hr).within (Nat.zero_le _), .inl rfl⟩
  have hkeeps : ∀ e ∈ tr, ∃ x b, Keeps 0 x b e.op := by
    intro e he
    obtain ⟨tr₁, tr₂, rfl⟩ := List.append_of_mem he
    exact ⟨_, keeps_of_split (Nat.zero_le _) h ha⟩
  obtain ⟨g, hinv, -⟩ := books_of_run (Nat.zero_le _) h ha
  refine ⟨hinv.balance, fun e he a b hop => ?_, fun e he a b hop => ?_⟩
  · obtain ⟨x, hold, hkeep⟩ := hkeeps e he
    rw [hop] at hkeep
    exact hkeep
  · obtain ⟨x, hold, hkeep⟩ := hkeeps e he
    rw [hop] at hkeep
    exact hkeep

/-- A run of a server with one office in which two accounts are created and a transfer is caught
between its debit and its credit. -/
theorem exists_run_debited :
    ∃ tr c, (server 1 (servingScript _ (readsOf (creationRequest 1 5) ++
        readsOf (creationRequest 2 7) ++ readsOf (transferRequest 1 2 5))).world 3 4).Run tr c ∧
      (decide (∀ request ∈ pushed tr, request.WithinLimits) &&
        total Activity.inFlight (booksOf tr).activity == 5) = true :=
  System.exists_run_of_play (serverPlayer _ 3 4)
    (List.replicate 27 (.run .main) ++ List.replicate 92 (.run (.office 0)))
    (initial_firstConfig (servingScript _ (readsOf (creationRequest 1 5) ++
      readsOf (creationRequest 2 7) ++ readsOf (transferRequest 1 2 5))) [9] [7] (fun _ => 0) 3 4)
    (fun tr _ => decide (∀ request ∈ pushed tr, request.WithinLimits) &&
      total Activity.inFlight (booksOf tr).activity == 5) (by decide +kernel)

/-- While a transfer is between its debit and its credit, its amount is missing in the table. -/
theorem money_conserved_debited :
    ∃ tr c, (server 1 (servingScript _ (readsOf (creationRequest 1 5) ++
        readsOf (creationRequest 2 7) ++ readsOf (transferRequest 1 2 5))).world 3 4).Run tr c ∧
      bankTotal c.shared.cells + 5 = (booksOf tr).created := by
  obtain ⟨tr, c, h, hc⟩ := exists_run_debited
  simp only [Bool.and_eq_true, decide_eq_true_eq, beq_iff_eq] at hc
  have hbal := (money_conserved h hc.1).1
  rw [hc.2] at hbal
  exact ⟨tr, c, h, hbal⟩

end Sope
