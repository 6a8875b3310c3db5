import Mathlib.Algebra.BigOperators.Intervals
import Sope.Bank.Phases

/-! # The books of the bank

What a run says of the money: which account an office is creating and which transfer it is executing
(`Activity`), and the sum of the initial balances of the accounts created so far (`Books`). The money
in the table is `bankTotal`.

The proof rules `bookkeeping lo` are about a single thread: every write is balanced by the change of
the thread's activity, every sum and difference of balances is exact, and every account that is used
holds its own number and a balance within the limits, from `lo` to `MAX_BALANCE`. The lower limit is a
parameter: with `lo = 0` nothing is assumed of the transfers, and with `lo = MIN_BALANCE` that none
takes all that an account holds. -/

namespace Sope

open Concurrency

/-! ## Money in the table -/

/-- What an account counts for. -/
def Slot.money (slot : Slot) : ℕ := if slot.used then slot.account.balance.toNat else 0

/-- The sum of the balances of all used accounts. -/
def bankTotal (cells : UInt32 → Slot) : ℕ :=
  ∑ id ∈ Finset.range maxBankAccounts, (cells (UInt32.ofNat id)).money

/-- The number of an account within the table, there and back. -/
theorem ofNat_eq_iff {i : ℕ} {id : UInt32} (hi : i < maxBankAccounts) :
    UInt32.ofNat i = id ↔ i = id.toNat := by
  have hlt : i < 2 ^ 32 := lt_trans hi (by decide)
  constructor
  · rintro rfl
    exact (UInt32.toNat_ofNat_of_lt' hlt).symm
  · rintro rfl
    exact UInt32.ofNat_toNat

/-- The sum of the balances after a change of one account. -/
theorem bankTotal_update (cells : UInt32 → Slot) {id : UInt32} (hid : id.toNat < maxBankAccounts)
    (slot : Slot) :
    bankTotal (Function.update cells id slot) + (cells id).money = bankTotal cells + slot.money := by
  have hmem : id.toNat ∈ Finset.range maxBankAccounts := Finset.mem_range.mpr hid
  have hsum : ∀ cells : UInt32 → Slot, bankTotal cells = (cells id).money +
      ∑ i ∈ (Finset.range maxBankAccounts).erase id.toNat, (cells (UInt32.ofNat i)).money := by
    intro cells
    rw [bankTotal, ← Finset.add_sum_erase _ _ hmem, UInt32.ofNat_toNat]
  have hrest : ∑ i ∈ (Finset.range maxBankAccounts).erase id.toNat,
        (Function.update cells id slot (UInt32.ofNat i)).money
      = ∑ i ∈ (Finset.range maxBankAccounts).erase id.toNat, (cells (UInt32.ofNat i)).money := by
    refine Finset.sum_congr rfl fun i hi => ?_
    obtain ⟨hne, hi⟩ := Finset.mem_erase.mp hi
    rw [Function.update_of_ne fun h => hne ((ofNat_eq_iff (Finset.mem_range.mp hi)).mp h)]
  rw [hsum, hsum cells, hrest, Function.update_self]
  omega

/-! ## What an office is doing -/

/-- What an office is doing with money. A transfer comes with the two accounts as they were when
`handleTransferRequest` was entered. -/
inductive Activity
  /-- Neither of the below. -/
  | idle
  /-- Inside `handleCreateAccountRequest`. -/
  | creating (request : TlvRequest)
  /-- Inside `handleTransferRequest`; no balance has been written. -/
  | transferring (request : TlvRequest) (src dest : Slot)
  /-- The source has been debited, the destination not yet credited. -/
  | debited (request : TlvRequest) (src dest : Slot)
  /-- Both balances have been written. -/
  | credited (request : TlvRequest) (src dest : Slot)
  deriving DecidableEq

namespace Activity

/-- What an office is doing after an operation on a table with content `cells`. -/
def next (x : Activity) (cells : UInt32 → Slot) : ServerOp → Activity
  | .ext (.mark (.handleCreate request)) => .creating request
  | .ext (.mark (.handleTransfer request)) =>
      .transferring request (cells request.value.header.accountId)
        (cells request.value.transfer.accountId)
  | .ext .queuePop => .idle
  | .access (.writeBalance ..) =>
      match x with
      | .transferring request src dest => .debited request src dest
      | .debited request src dest => .credited request src dest
      | x => x
  | _ => x

/-- The amount that has been debited and not yet credited. -/
def inFlight : Activity → ℕ
  | .debited request _ _ => request.value.transfer.amount.toNat
  | _ => 0

/-- The initial balance of the account that becomes used by an operation. -/
def opens : Activity → ServerOp → ℕ
  | .creating request, .access (.writeUsed _ true) => request.value.create.balance.toNat
  | _, _ => 0

end Activity

/-! ## Reading a run -/

variable {n : ℕ} {W : World (Thread n)}

/-- What a run says of the money. -/
structure Books (n : ℕ) where
  /-- What each thread is doing. -/
  activity : Thread n → Activity
  /-- The sum of the initial balances of the accounts created so far. -/
  created : ℕ

/-- The books after one more operation. -/
def Books.record (books : Books n) (e : ServerEvent n W) : Books n where
  activity :=
    Function.update books.activity e.tid ((books.activity e.tid).next e.pre.cells e.op)
  created := books.created + (books.activity e.tid).opens e.op

/-- The books after a run: at first nobody does anything, and no account but the administrator's,
which holds nothing, has been created. -/
def booksOf (tr : List (ServerEvent n W)) : Books n := tr.foldl Books.record ⟨fun _ => .idle, 0⟩

theorem booksOf_append (tr : List (ServerEvent n W)) (e : ServerEvent n W) :
    booksOf (tr ++ [e]) = (booksOf tr).record e := by
  simp [booksOf, List.foldl_append]

/-! ## The rules -/

/-- What is required of the account numbers and of the initial balance. The user program keeps to it but for
one account number: it lets `MAX_BANK_ACCOUNTS` itself pass. -/
structure TlvRequest.WithinLimits (request : TlvRequest) : Prop where
  header : request.value.header.accountId.toNat < maxBankAccounts
  create : request.type = .opCreateAccount →
    request.value.create.accountId.toNat < maxBankAccounts ∧
      minBalance ≤ request.value.create.balance.toNat ∧
      request.value.create.balance.toNat ≤ maxBalance
  transfer : request.type = .opTransfer →
    request.value.transfer.accountId.toNat < maxBankAccounts

instance (request : TlvRequest) : Decidable request.WithinLimits :=
  decidable_of_iff (request.value.header.accountId.toNat < maxBankAccounts ∧
      (request.type = .opCreateAccount → request.value.create.accountId.toNat < maxBankAccounts ∧
        minBalance ≤ request.value.create.balance.toNat ∧
        request.value.create.balance.toNat ≤ maxBalance) ∧
      (request.type = .opTransfer → request.value.transfer.accountId.toNat < maxBankAccounts))
    ⟨fun h => ⟨h.1, h.2.1, h.2.2⟩, fun h => ⟨h.header, h.create, h.transfer⟩⟩

/-- What the rules need of the account numbers and of the initial balance, which is at least `lo`. -/
structure TlvRequest.Within (lo : ℕ) (request : TlvRequest) : Prop where
  header : request.value.header.accountId.toNat < maxBankAccounts
  create : request.type = .opCreateAccount →
    request.value.create.accountId.toNat < maxBankAccounts ∧
      lo ≤ request.value.create.balance.toNat ∧ request.value.create.balance.toNat ≤ maxBalance
  transfer : request.type = .opTransfer →
    request.value.transfer.accountId.toNat < maxBankAccounts

/-- These are met within the limits, for every lower limit up to `MIN_BALANCE`. -/
theorem TlvRequest.WithinLimits.within {lo : ℕ} {request : TlvRequest} (h : request.WithinLimits)
    (hlo : lo ≤ minBalance) : request.Within lo where
  header := h.header
  create htype := ⟨(h.create htype).1, hlo.trans (h.create htype).2.1, (h.create htype).2.2⟩
  transfer := h.transfer

/-- The transfer is one that only the balances can prevent: both accounts are used, they are
different, and neither is the administrator's. -/
structure TlvRequest.Admissible (request : TlvRequest) (src dest : Slot) : Prop where
  src_used : src.used = true
  src_ne : request.value.header.accountId ≠ adminAccountId
  dest_used : dest.used = true
  dest_ne : request.value.transfer.accountId ≠ adminAccountId
  ne : request.value.header.accountId ≠ request.value.transfer.accountId

/-- The amount of the transfer is all that the source account holds. -/
def TlvRequest.Exhausts (request : TlvRequest) (src dest : Slot) : Prop :=
  request.Admissible src dest ∧ src.account.balance = request.value.transfer.amount

/-- A used account holds its own number and a balance from `lo` (unless it is the administrator's) to
`MAX_BALANCE`. -/
structure Slot.Sound (lo : ℕ) (id : UInt32) (slot : Slot) : Prop where
  accountId : slot.used = true → slot.account.accountId = id
  le_max : slot.used = true → slot.account.balance.toNat ≤ maxBalance
  min_le : slot.used = true → id ≠ adminAccountId → lo ≤ slot.account.balance.toNat

/-- A used account stays used, with the same number, hash and salt. -/
def Slot.Stable (slot slot' : Slot) : Prop :=
  slot.used = true → slot'.used = true ∧ slot'.account.accountId = slot.account.accountId ∧
    slot'.account.hash = slot.account.hash ∧ slot'.account.salt = slot.account.salt

/-- What every thread may rely on. -/
def bankSpec (lo : ℕ) : CellSpec UInt32 Slot where
  inv := Slot.Sound lo
  le := Slot.Stable
  refl _ h := ⟨h, rfl, rfl, rfl⟩
  trans h h' hu := by
    obtain ⟨hu', h₁, h₂, h₃⟩ := h hu
    obtain ⟨hu'', h₁', h₂', h₃'⟩ := h' hu'
    exact ⟨hu'', h₁'.trans h₁, h₂'.trans h₂, h₃'.trans h₃⟩

/-- The reply of a transfer agrees with the balances that `handleTransferRequest` found, and nothing
has been written unless it is `OK`. -/
def Activity.Answers (lo : ℕ) (reply : TlvReply) : Activity → Prop
  | .idle | .creating _ => True
  | .transferring request src dest => request.Admissible src dest →
      (src.account.balance.toNat < request.value.transfer.amount.toNat + lo ∧
          reply.value.header.retCode = .noFunds) ∨
        (request.value.transfer.amount.toNat + lo ≤ src.account.balance.toNat ∧
          maxBalance < dest.account.balance.toNat + request.value.transfer.amount.toNat ∧
          reply.value.header.retCode = .tooHigh)
  | .debited .. => False
  | .credited request src dest =>
      request.value.transfer.amount.toNat + lo ≤ src.account.balance.toNat ∧
        dest.account.balance.toNat + request.value.transfer.amount.toNat ≤ maxBalance ∧
        reply.value.header.retCode = .ok

/-- What an operation must satisfy for the money to be kept. -/
def Keeps (lo : ℕ) (x : Activity) (b : Hold UInt32 Slot) : ServerOp → Prop
  | .access a =>
      let slot := b.cur (table.loc a)
      let slot' := (table.run a slot).2
      a.isRead = true ∨ ((table.loc a).toNat < maxBankAccounts ∧ slot'.Sound lo (table.loc a) ∧
        slot'.money + (x.next b.cur (.access a)).inFlight
          = slot.money + x.inFlight + x.opens (.access a))
  | .ext (.add a c) => a.toNat + c.toNat < 2 ^ 32
  | .ext (.sub a c) => c.toNat ≤ a.toNat
  | .ext (.mark (.handleTransfer request)) => x.inFlight = 0 ∧
      request.value.header.accountId ∈ b.held ∧ request.value.transfer.accountId ∈ b.held
  | .ext (.mark (.handleCreate _)) | .ext .queuePop => x.inFlight = 0
  | .ext (.mark (.managed _ reply)) => x.Answers lo reply
  | _ => True

/-- What a thread may conclude from the result of an operation. -/
def Learns (lo : ℕ) (b : Hold UInt32 Slot) : (o : ServerOp) → ServerRes o → Prop
  | .ext (.add a c), r => r = a + c
  | .ext (.sub a c), r => r = a - c
  | .ext .queuePop, request => TlvRequest.Within lo request
  | .ext (.mark (.handleTransfer request)), _ => lo = 0 ∨
      ¬ request.Exhausts (b.cur request.value.header.accountId)
        (b.cur request.value.transfer.accountId)
  | _, _ => True

/-- The rules of the books. -/
def bookkeeping (lo : ℕ) : Extra UInt32 Slot TableOp Ext TableOp.Res Ext.Res Activity where
  pre x b o := Keeps lo x b o
  rule x b o r _ Φ := Learns lo b o r → Φ (x.next b.cur o)
  mono h hr hl := h _ (hr hl)

/-- The rules of the books, with what every thread may rely on. -/
abbrev books (lo : ℕ) : Protocol ServerOp ServerRes (Hold UInt32 Slot × Activity) :=
  (bookkeeping lo).protocol table (bankSpec lo)

end Sope
