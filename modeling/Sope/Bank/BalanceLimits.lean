import Sope.Bank.Conservation

/-! # Limits of the balances

Every account but the administrator's is meant to hold from `MIN_BALANCE` to `MAX_BALANCE`. The upper
limit holds in every run. The lower one does not: `handleTransferRequest` refuses a transfer only if
the source account holds less than the amount, so a transfer of the whole balance succeeds and leaves
nothing (`exists_run_exhausted`). In the runs without such a transfer both limits hold and the replies
are as the return codes say (`balances_within_limits`). -/

namespace Sope

open Concurrency

variable {n : ℕ} {W : World (Thread n)} {serverFifoFD shutdownFD : Int}
  {tr : List (ServerEvent n W)}
  {c : Config (Thread n) ServerOp ServerRes (ServerState n W) Ctl}

/-- What is required of a request: the limits, also for the amount of a transfer. -/
structure TlvRequest.FromUser (request : TlvRequest) : Prop extends request.WithinLimits where
  amount : request.type = .opTransfer → minBalance ≤ request.value.transfer.amount.toNat ∧
    request.value.transfer.amount.toNat ≤ maxBalance

instance (request : TlvRequest) : Decidable request.FromUser :=
  decidable_of_iff (request.WithinLimits ∧ (request.type = .opTransfer →
      minBalance ≤ request.value.transfer.amount.toNat ∧
        request.value.transfer.amount.toNat ≤ maxBalance))
    ⟨fun h => ⟨h.1, h.2⟩, fun h => ⟨h.toWithinLimits, h.amount⟩⟩

/-- An account that is used and is not the administrator's holds from `MIN_BALANCE` to
`MAX_BALANCE`. -/
def Slot.InLimits (id : UInt32) (slot : Slot) : Prop :=
  slot.used = true → id ≠ adminAccountId →
    minBalance ≤ slot.account.balance.toNat ∧ slot.account.balance.toNat ≤ maxBalance

/-- No transfer of the run takes all that its source account holds. -/
def NoTransferExhausts (tr : List (ServerEvent n W)) : Prop :=
  ∀ e ∈ tr, ∀ request, e.op = .ext (.mark (.handleTransfer request)) →
    ¬ request.Exhausts (e.pre.cells request.value.header.accountId)
      (e.pre.cells request.value.transfer.accountId)

/-- **Balance limits.** Take any run of the server, with any number of offices, in which the requests
are such as the user program sends and no transfer takes all that its source account holds. Then in
every state every used account but the administrator's is within the limits; and the reply of a
transfer that only the balances can prevent is `NO_FUNDS` if it would leave the source account below
`MIN_BALANCE`, `TOO_HIGH` if otherwise it would lift the destination account above `MAX_BALANCE`, both
with no balance written, and `OK` if neither, with both written. -/
theorem balances_within_limits (h : (server n W serverFifoFD shutdownFD).Run tr c)
    (huser : ∀ request ∈ pushed tr, request.FromUser) (hspares : NoTransferExhausts tr) :
    (∀ id, (c.shared.cells id).InLimits id) ∧
      ∀ tr₁ e tr₂, tr = tr₁ ++ e :: tr₂ → ∀ request reply,
        e.op = .ext (.mark (.managed request reply)) →
        ((booksOf tr₁).activity e.tid).Answers minBalance reply := by
  have ha : Lawful minBalance tr :=
    ⟨fun request hr => (huser request hr).toWithinLimits.within le_rfl, .inr hspares⟩
  refine ⟨fun id hu hid => ?_, fun tr₁ e tr₂ htr request reply hop => ?_⟩
  · obtain ⟨g, hinv, -⟩ := books_of_run le_rfl h ha
    exact ⟨(hinv.sound id).min_le hu hid, (hinv.sound id).le_max hu⟩
  · subst htr
    obtain ⟨b, hkeep⟩ := keeps_of_split le_rfl h ha
    rw [hop] at hkeep
    exact hkeep

/-! ## A transfer of the whole balance -/

/-- The requests of the example: two accounts are created, with 5 and 7, and the 5 are
transferred. -/
abbrev exhaustingReads : List (Option Bytes) :=
  readsOf (creationRequest 1 5) ++ readsOf (creationRequest 2 7) ++ readsOf (transferRequest 1 2 5)

/-- A transfer has been answered with `OK`. -/
def isTransferred : ServerEvent n W → Bool
  | ⟨_, .ext (.mark (.managed request reply)), _, _⟩ =>
      decide (request.type = .opTransfer) && decide (reply.value.header.retCode = .ok)
  | _ => false

/-- **The lower limit is not kept.** In some run of a server with one office in which all requests are
such as the user program sends and all have been handled, a transfer is answered with `OK` and leaves
its source account, the used account 1, out of the limits. -/
theorem exists_run_exhausted :
    ∃ tr c, (server 1 (servingScript _ exhaustingReads).world 3 4).Run tr c ∧
      (∀ request ∈ pushed tr, request.FromUser) ∧ managed tr = pushed tr ∧
      tr.any isTransferred = true ∧ ¬ (c.shared.cells 1).InLimits 1 := by
  obtain ⟨tr, c, h, hc⟩ := System.exists_run_of_play (serverPlayer _ 3 4)
    (List.replicate 27 (.run .main) ++ List.replicate 104 (.run (.office 0)))
    (initial_firstConfig (servingScript (Thread 1) exhaustingReads) [9] [7] (fun _ => 0) 3 4)
    (fun tr c => decide (∀ request ∈ pushed tr, request.FromUser) &&
      decide (managed tr = pushed tr) && tr.any isTransferred && (c.shared.cells 1).used &&
      decide ((c.shared.cells 1).account.balance.toNat < minBalance)) (by decide +kernel)
  simp only [Bool.and_eq_true, decide_eq_true_eq] at hc
  obtain ⟨⟨⟨⟨huser, hmanaged⟩, hok⟩, hused⟩, hlt⟩ := hc
  refine ⟨tr, c, h, huser, hmanaged, hok, fun hlim => ?_⟩
  exact absurd (hlim hused (by decide)).1 (Nat.not_le.mpr hlt)

/-- The operation is not the beginning of a transfer of the whole balance of its source account. -/
def isSpare : ServerEvent n W → Bool
  | ⟨_, .ext (.mark (.handleTransfer request)), _, pre⟩ =>
      decide ((pre.cells request.value.header.accountId).account.balance
        ≠ request.value.transfer.amount)
  | _ => true

/-- Checking the operations of a run one by one. -/
theorem noTransferExhausts_of_all (h : tr.all isSpare = true) : NoTransferExhausts tr := by
  rintro ⟨t, o, r, s⟩ he request rfl hex
  have := List.all_eq_true.mp h _ he
  exact of_decide_eq_true this hex.2

/-- Two accounts are created, with 5 and 7, and 4 are transferred. -/
abbrev sparingReads : List (Option Bytes) :=
  readsOf (creationRequest 1 5) ++ readsOf (creationRequest 2 7) ++ readsOf (transferRequest 1 2 4)

/-- A run with a transfer that leaves something. -/
theorem exists_run_spared :
    ∃ tr c, (server 1 (servingScript (Thread 1) sparingReads).world 3 4).Run tr c ∧
      (decide (∀ request ∈ pushed tr, request.FromUser) && tr.all isSpare &&
        tr.any isTransferred && (c.shared.cells 1).used) = true :=
  System.exists_run_of_play (serverPlayer _ 3 4)
    (List.replicate 27 (.run .main) ++ List.replicate 104 (.run (.office 0)))
    (initial_firstConfig (servingScript (Thread 1) sparingReads) [9] [7] (fun _ => 0) 3 4)
    (fun tr c => decide (∀ request ∈ pushed tr, request.FromUser) && tr.all isSpare &&
      tr.any isTransferred && (c.shared.cells 1).used) (by decide +kernel)

/-- After that transfer account 1 is used, and within the limits. -/
theorem balances_within_limits_spared :
    ∃ tr c, (server 1 (servingScript (Thread 1) sparingReads).world 3 4).Run tr c ∧
      tr.any isTransferred = true ∧ minBalance ≤ (c.shared.cells 1).account.balance.toNat := by
  obtain ⟨tr, c, h, hc⟩ := exists_run_spared
  simp only [Bool.and_eq_true, decide_eq_true_eq] at hc
  obtain ⟨⟨⟨huser, hspare⟩, hok⟩, hused⟩ := hc
  have hlim := (balances_within_limits h huser (noTransferExhausts_of_all hspare)).1 1
  exact ⟨tr, c, h, hok, (hlim hused (by decide)).1⟩

end Sope
