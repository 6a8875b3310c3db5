import Mathlib.Data.List.TakeWhile
import Sope.Clients.FifoNames

/-! # The numbers that the user typed

The user program converts the numbers in its arguments to `int` and then to `uint32_t`, and tests them only
after that.

* `typedNumber` — the number that a text begins with.
* `Lands` — the numbers that the tests take for one from 1 to a limit.
* `amounts_as_typed` — when the numbers of a creation or a transfer are the typed ones. -/

namespace Sope

/-! ## Numbers -/

/-- The number that a text begins with: what `strtol` reads, if `long` had no limits. -/
def typedNumber (s : Bytes) : ℤ :=
  match s.dropWhile isSpace with
  | 45 :: s => -digitsValue (s.takeWhile isDigit)
  | 43 :: s => digitsValue (s.takeWhile isDigit)
  | s => digitsValue (s.takeWhile isDigit)

/-- A text without a sign. -/
theorem typedNumber_of_unsigned {s : Bytes} (h45 : ∀ t, s.dropWhile isSpace ≠ 45 :: t)
    (h43 : ∀ t, s.dropWhile isSpace ≠ 43 :: t) :
    typedNumber s = digitsValue ((s.dropWhile isSpace).takeWhile isDigit) := by
  unfold typedNumber
  split
  · next t ht => exact absurd ht (h45 t)
  · next t ht => exact absurd ht (h43 t)
  · rfl

/-- `strtol` returns the nearest `long`. -/
theorem strtol_eq (s : Bytes) : strtol s = max (-2 ^ 63) (min (2 ^ 63 - 1) (typedNumber s)) := by
  unfold strtol
  split
  · next t ht =>
      have htyped : typedNumber s = -digitsValue (t.takeWhile isDigit) := by
        simp only [typedNumber, ht]
      rw [htyped]
      omega
  · next t ht =>
      have htyped : typedNumber s = digitsValue (t.takeWhile isDigit) := by
        simp only [typedNumber, ht]
      rw [htyped]
      omega
  · next h45 h43 =>
      rw [typedNumber_of_unsigned h45 h43]
      omega

/-- `atoi`, as an unsigned word: the nearest `long`, reduced to 32 bits. -/
theorem toNat_atoi (s : Bytes) :
    ((atoi s).toUInt32.toNat : ℤ) = max (-2 ^ 63) (min (2 ^ 63 - 1) (typedNumber s)) % 2 ^ 32 := by
  have hword : (atoi s).toUInt32.toNat = (BitVec.ofInt 32 (strtol s)).toNat := rfl
  rw [hword, BitVec.toNat_ofInt, strtol_eq]
  omega

/-- A word holds the typed number, if it is one that a word can hold. -/
theorem toNat_atoi_eq_iff (s : Bytes) :
    ((atoi s).toUInt32.toNat : ℤ) = typedNumber s ↔ 0 ≤ typedNumber s ∧ typedNumber s < 2 ^ 32 := by
  rw [toNat_atoi]
  omega

/-- The number is from 1 to a limit. -/
def InRange (limit : ℕ) (n : ℤ) : Prop := 1 ≤ n ∧ n ≤ limit

instance (limit : ℕ) (n : ℤ) : Decidable (InRange limit n) := inferInstanceAs (Decidable (_ ∧ _))

/-- The number is a `long`, and its last 32 bits are a number from 1 to a limit. -/
def Lands (limit : ℕ) (n : ℤ) : Prop := -2 ^ 63 ≤ n ∧ n < 2 ^ 63 ∧ InRange limit (n % 2 ^ 32)

instance (limit : ℕ) (n : ℤ) : Decidable (Lands limit n) := inferInstanceAs (Decidable (_ ∧ _))

/-- These are the numbers that the tests accept. -/
theorem lands_iff {limit : ℕ} (hlimit : limit < 2 ^ 32 - 1) (s : Bytes) :
    Lands limit (typedNumber s) ↔
      ¬ ((atoi s).toUInt32 = 0 ∨ (atoi s).toUInt32.toNat > limit) := by
  have hzero : (atoi s).toUInt32 = 0 ↔ (atoi s).toUInt32.toNat = 0 := UInt32.toNat_inj.symm
  have hword := toNat_atoi s
  rw [hzero, Lands, InRange]
  omega

/-- An accepted number is the typed one if that is in the range. -/
theorem typed_iff_inRange {limit : ℕ} (hlimit : limit < 2 ^ 32 - 1) {s : Bytes}
    (h : Lands limit (typedNumber s)) :
    ((atoi s).toUInt32.toNat : ℤ) = typedNumber s ∧ InRange limit (typedNumber s) ↔
      InRange limit (typedNumber s) := by
  rw [toNat_atoi_eq_iff]
  unfold Lands InRange at *
  omega

/-! ## Amounts -/

/-- The token with index `i`; nothing if there are fewer ones. -/
def token (args : Bytes) (i : ℕ) : Bytes := (tokens args).getD i []

/-- What a transfer is made of is what the user typed: too few tokens are refused, and where the request is
made, its numbers are the typed ones, and they are in their ranges. -/
structure TransferAsTyped (args : Bytes) : Prop where
  few : (tokens args).length < 2 → makeTransferReq args = none
  accountId : ∀ transfer, makeTransferReq args = some transfer →
    (transfer.accountId.toNat : ℤ) = typedNumber (token args 0) ∧
      InRange maxBankAccounts (typedNumber (token args 0))
  amount : ∀ transfer, makeTransferReq args = some transfer →
    (transfer.amount.toNat : ℤ) = typedNumber (token args 1) ∧
      InRange maxBalance (typedNumber (token args 1))

/-- What an account creation is made of is what the user typed. -/
structure CreateAsTyped (args : Bytes) (locals : Locals) : Prop where
  few : (tokens args).length < 3 → makeCreateAccReq args locals = none
  accountId : ∀ create, makeCreateAccReq args locals = some create →
    (create.accountId.toNat : ℤ) = typedNumber (token args 0) ∧
      InRange maxBankAccounts (typedNumber (token args 0))
  balance : ∀ create, makeCreateAccReq args locals = some create →
    (create.balance.toNat : ℤ) = typedNumber (token args 1) ∧
      InRange maxBalance (typedNumber (token args 1))

/-- If the number of the account and the amount are both accepted, they are in their ranges. -/
def NumbersInRange (args : Bytes) : Prop :=
  Lands maxBankAccounts (typedNumber (token args 0)) → Lands maxBalance (typedNumber (token args 1)) →
    InRange maxBankAccounts (typedNumber (token args 0)) ∧ InRange maxBalance (typedNumber (token args 1))

/-- Without a token there is no number. -/
theorem not_lands_of_few {args : Bytes} {i : ℕ} (limit : ℕ) (h : (tokens args).length ≤ i) :
    ¬ Lands limit (typedNumber (token args i)) := by
  have htoken : token args i = [] := by
    rw [token, List.getD_eq_getElem?_getD, List.getElem?_eq_none h, Option.getD_none]
  rw [htoken]
  rintro ⟨-, -, hpos, -⟩
  exact absurd hpos (by decide)

/-- When `makeTransferReq` makes a request, and which one. -/
theorem makeTransferReq_eq_some {args : Bytes} {transfer : ReqTransfer} :
    makeTransferReq args = some transfer ↔
      Lands maxBankAccounts (typedNumber (token args 0)) ∧
        Lands maxBalance (typedNumber (token args 1)) ∧
        transfer = ⟨(atoi (token args 0)).toUInt32, (atoi (token args 1)).toUInt32⟩ := by
  have hlimit : maxBankAccounts < 2 ^ 32 - 1 := by decide
  have hlimit' : maxBalance < 2 ^ 32 - 1 := by decide
  rw [lands_iff hlimit, lands_iff hlimit', token, token, makeTransferReq]
  split
  · next accId amount rest htokens =>
      have hid : (tokens args).getD 0 [] = accId := by rw [htokens]; rfl
      have hamount : (tokens args).getD 1 [] = amount := by rw [htokens]; rfl
      rw [hid, hamount]
      dsimp only
      split_ifs with hid hamount
      · exact iff_of_false nofun fun h => h.1 hid
      · exact iff_of_false nofun fun h => h.2.1 hamount
      · rw [Option.some.injEq, eq_comm]
        exact ⟨fun h => ⟨hid, hamount, h⟩, fun h => h.2.2⟩
  · next hfew =>
      have hlength : (tokens args).length ≤ 1 := by
        match htokens : tokens args with
        | [] | [_] => simp
        | accId :: amount :: rest => exact absurd htokens (hfew accId amount rest)
      have hno := not_lands_of_few maxBalance hlength
      rw [lands_iff hlimit'] at hno
      rw [token] at hno
      simp only [hno, false_and, and_false, reduceCtorEq]

/-- When `makeCreateAccReq` makes a request, and with which numbers. -/
theorem makeCreateAccReq_eq_some {args : Bytes} {locals : Locals} {create : ReqCreateAccount} :
    makeCreateAccReq args locals = some create ↔
      Lands maxBankAccounts (typedNumber (token args 0)) ∧
        Lands maxBalance (typedNumber (token args 1)) ∧
        (minPasswordLen ≤ (token args 2).length ∧ (token args 2).length ≤ maxPasswordLen) ∧
        create = ⟨(atoi (token args 0)).toUInt32, (atoi (token args 1)).toUInt32,
          strcpy locals.password 0 (token args 2)⟩ := by
  have hlimit : maxBankAccounts < 2 ^ 32 - 1 := by decide
  have hlimit' : maxBalance < 2 ^ 32 - 1 := by decide
  rw [lands_iff hlimit, lands_iff hlimit', token, token, token, makeCreateAccReq]
  -- the source stops at the first field that fails, in the order of the tokens
  split
  · next accId balance password rest htokens =>
      have hid : (tokens args).getD 0 [] = accId := by rw [htokens]; rfl
      have hbalance : (tokens args).getD 1 [] = balance := by rw [htokens]; rfl
      have hpassword : (tokens args).getD 2 [] = password := by rw [htokens]; rfl
      rw [hid, hbalance, hpassword]
      dsimp only
      split_ifs with hid hbalance hpassword
      · exact iff_of_false nofun fun h => h.1 hid
      · exact iff_of_false nofun fun h => h.2.1 hbalance
      · refine iff_of_false nofun fun h => ?_
        have := h.2.2.1
        omega
      · rw [Option.some.injEq, eq_comm]
        exact ⟨fun h => ⟨hid, hbalance, by omega, h⟩, fun h => h.2.2.2⟩
  · next hfew =>
      have hlength : (tokens args).length ≤ 2 := by
        match htokens : tokens args with
        | [] | [_] | [_, _] => simp
        | accId :: balance :: password :: rest =>
            exact absurd htokens (hfew accId balance password rest)
      -- the missing password is too short
      have hpassword : (tokens args).getD 2 [] = [] := by
        rw [List.getD_eq_getElem?_getD, List.getElem?_eq_none hlength, Option.getD_none]
      rw [hpassword]
      simp [minPasswordLen]

/-- **Amounts are the typed ones, exactly for numbers in their ranges.** For every argument string,
`makeTransferReq` and `makeCreateAccReq` refuse it or make a request with the numbers that it contains,
within their limits, if and only if no number outside of its range is taken for one inside. -/
theorem amounts_as_typed (args : Bytes) (locals : Locals) :
    (TransferAsTyped args ↔ NumbersInRange args) ∧
      (CreateAsTyped args locals ↔
        (minPasswordLen ≤ (token args 2).length → (token args 2).length ≤ maxPasswordLen →
          NumbersInRange args)) := by
  have hlimit : maxBankAccounts < 2 ^ 32 - 1 := by decide
  have hlimit' : maxBalance < 2 ^ 32 - 1 := by decide
  constructor
  · constructor
    · intro h hid hamount
      -- both fields land, so a request is made and says what it holds
      have hsome := makeTransferReq_eq_some.mpr ⟨hid, hamount, rfl⟩
      exact ⟨(h.accountId _ hsome).2, (h.amount _ hsome).2⟩
    · intro h
      refine ⟨fun hfew => ?_, fun transfer hsome => ?_, fun transfer hsome => ?_⟩
      · refine Option.eq_none_iff_forall_ne_some.mpr fun transfer hsome => ?_
        exact not_lands_of_few _ (by omega) (makeTransferReq_eq_some.mp hsome).2.1
      · obtain ⟨hid, hamount, rfl⟩ := makeTransferReq_eq_some.mp hsome
        exact (typed_iff_inRange hlimit hid).mpr (h hid hamount).1
      · obtain ⟨hid, hamount, rfl⟩ := makeTransferReq_eq_some.mp hsome
        exact (typed_iff_inRange hlimit' hamount).mpr (h hid hamount).2
  · constructor
    · intro h hmin hmax hid hbalance
      have hsome : makeCreateAccReq args locals = some _ :=
        makeCreateAccReq_eq_some.mpr ⟨hid, hbalance, ⟨hmin, hmax⟩, rfl⟩
      exact ⟨(h.accountId _ hsome).2, (h.balance _ hsome).2⟩
    · intro h
      refine ⟨fun hfew => ?_, fun create hsome => ?_, fun create hsome => ?_⟩
      · refine Option.eq_none_iff_forall_ne_some.mpr fun create hsome => ?_
        -- a password that is not there is shorter than the least length
        have hmin := (makeCreateAccReq_eq_some.mp hsome).2.2.1.1
        rw [token, List.getD_eq_getElem?_getD, List.getElem?_eq_none (by omega)] at hmin
        exact absurd hmin (by decide)
      · obtain ⟨hid, hbalance, hpassword, rfl⟩ := makeCreateAccReq_eq_some.mp hsome
        exact (typed_iff_inRange hlimit hid).mpr (h hpassword.1 hpassword.2 hid hbalance).1
      · obtain ⟨hid, hbalance, hpassword, rfl⟩ := makeCreateAccReq_eq_some.mp hsome
        exact (typed_iff_inRange hlimit' hbalance).mpr (h hpassword.1 hpassword.2 hid hbalance).2

/-- The bytes of `"1 4294967306"`: account 1, and an amount that is 10 in its last 32 bits. -/
def foldedAmount : Bytes := [49, 32, 52, 50, 57, 52, 57, 54, 55, 51, 48, 54]

/-- The request is made, with the amount 10. -/
theorem exists_folded_amount :
    makeTransferReq foldedAmount = some ⟨1, 10⟩ ∧ ¬ TransferAsTyped foldedAmount := by
  have hmade : makeTransferReq foldedAmount = some ⟨1, 10⟩ := by decide +kernel
  exact ⟨hmade, fun h => absurd (h.amount _ hmade).1 (by decide +kernel)⟩

end Sope
