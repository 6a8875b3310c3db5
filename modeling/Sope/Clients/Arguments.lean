import Sope.Clients.Framing

/-! # The request that a user program makes

`processUserArgs` of `argProcessing.c`, and `createRequest` of `user.c` with the functions it calls. A
function that ends the program with `exit(1)` returns `none`; what it prints is left out.

Memory that has not been assigned (`Locals`) may hold anything. `strcpy` writes a string and its
terminator without looking at the size of the array: into `header.password` it may write over
`header.op_delay_ms`, the field behind it. -/

namespace Sope

/-! ## Strings -/

/-- `isspace`. -/
def isSpace (b : UInt8) : Bool := b = 32 ∨ 9 ≤ b ∧ b ≤ 13

/-- `isdigit`. -/
def isDigit (b : UInt8) : Bool := 48 ≤ b ∧ b ≤ 57

/-- The number that a sequence of decimal digits stands for. -/
def digitsValue (digits : Bytes) : ℕ := digits.foldl (fun v d => 10 * v + (d.toNat - 48)) 0

/-- `strtol(s, NULL, 10)`, with a `long` of 64 bits: too large numbers become the largest one. -/
def strtol (s : Bytes) : Int :=
  match s.dropWhile isSpace with
  | 45 :: s => max (-2 ^ 63) (-digitsValue (s.takeWhile isDigit))
  | 43 :: s => min (2 ^ 63 - 1) (digitsValue (s.takeWhile isDigit))
  | s => min (2 ^ 63 - 1) (digitsValue (s.takeWhile isDigit))

/-- `atoi`, which converts the result of `strtol` to `int`. -/
def atoi (s : Bytes) : Int32 := Int32.ofInt (strtol s)

/-- What the calls of `strtok(_, " ")` return, one after the other. -/
def tokens (s : Bytes) : List Bytes := (s.splitOn 32).filter (· ≠ [])

/-- The content of an array after `strcpy` has put a string at an offset of it. -/
def strcpy (memory : Bytes) (offset : ℕ) (s : Bytes) : Bytes := overlay memory offset (s ++ [0])

/-! ## Arguments -/

/-- `MIN_PASSWORD_LEN`. -/
def minPasswordLen : ℕ := 8

/-- `UserArgs`. -/
structure UserArgs where
  id : Int32
  password : Bytes
  delayMS : Int32
  opcode : Int32
  args : Bytes

/-- `processUserArgs`. -/
def processUserArgs : List Bytes → Option UserArgs
  | [_, id, password, delay, opcode, args] => some
      { id := atoi id
        password := password
        delayMS := atoi delay
        opcode := atoi opcode
        args := args }
  | _ => none

/-- What is in the local variables of `createRequest` and of the functions that it calls before they
are assigned. -/
structure Locals where
  /-- The variable `header` of `makeReqHeader`. -/
  header : Bytes
  header_length : header.length = sizeofReqHeader
  /-- The union in the variable `value` of `createRequest`. -/
  value : ReqCreateAccount
  value_length : value.password.length = maxPasswordLen + 1
  /-- The array in the variable `createAcc` of `makeCreateAccReq`. -/
  password : Bytes
  password_length : password.length = maxPasswordLen + 1

/-- The fields of a header in memory. What is written past its end is no part of it. -/
def decodeReqHeader (bytes : Bytes) : ReqHeader where
  pid := decodeWord bytes 0
  accountId := decodeWord bytes 4
  password := (bytes.drop 8).take (maxPasswordLen + 1)
  opDelayMs := decodeWord bytes 29

/-- `makeReqHeader`, in the process `pid`. The number of the account and the delay are assigned to
unsigned fields before they are tested, so neither is found negative. -/
def makeReqHeader (args : UserArgs) (pid : UInt32) (locals : Locals) : Option ReqHeader :=
  let header := overlay locals.header 0 (encodeWord pid)
  let header := overlay header 4 (encodeWord args.id.toUInt32)
  let header := overlay header 29 (encodeWord args.delayMS.toUInt32)
  if args.id.toUInt32.toNat > maxBankAccounts then none
  else some (decodeReqHeader (strcpy header 8 args.password))

/-- `makeCreateAccReq`. -/
def makeCreateAccReq (args : Bytes) (locals : Locals) : Option ReqCreateAccount :=
  match tokens args with
  | accId :: balance :: password :: _ =>
      let accountId := (atoi accId).toUInt32
      let balance := (atoi balance).toUInt32
      if accountId = 0 ∨ accountId.toNat > maxBankAccounts then none
      else if balance = 0 ∨ balance.toNat > maxBalance then none
      else if password.length < minPasswordLen ∨ password.length > maxPasswordLen then none
      else some ⟨accountId, balance, strcpy locals.password 0 password⟩
  | _ => none

/-- `makeTransferReq`. -/
def makeTransferReq (args : Bytes) : Option ReqTransfer :=
  match tokens args with
  | accId :: amount :: _ =>
      let accountId := (atoi accId).toUInt32
      let amount := (atoi amount).toUInt32
      if accountId = 0 ∨ accountId.toNat > maxBankAccounts then none
      else if amount = 0 ∨ amount.toNat > maxBalance then none
      else some ⟨accountId, amount⟩
  | _ => none

/-- `createRequest`, in the process `pid`. -/
def createRequest (args : UserArgs) (pid : UInt32) (locals : Locals) : Option TlvRequest :=
  if args.opcode < 0 ∨ args.opcode ≥ 4 then none
  else do
    let header ← makeReqHeader args pid locals
    match OpType.ofWord args.opcode.toUInt32 with
    | .opCreateAccount =>
        let create ← makeCreateAccReq args.args locals
        return { type := .opCreateAccount
                 length := UInt32.ofNat (sizeofReqHeader + sizeofReqCreateAccount)
                 value := ⟨header, create⟩ }
    | .opTransfer =>
        let transfer ← makeTransferReq args.args
        return { type := .opTransfer
                 length := UInt32.ofNat (sizeofReqHeader + sizeofReqTransfer)
                 value := ⟨header, transfer.accountId, transfer.amount, locals.value.password⟩ }
    | type => return { type, length := UInt32.ofNat sizeofReqHeader, value := ⟨header, locals.value⟩ }

/-! ## What a request made so is like -/

section

variable {args : UserArgs} {pid : UInt32} {locals : Locals}

theorem length_overlay (memory bytes : Bytes) {offset : ℕ} (h : offset ≤ memory.length) :
    (overlay memory offset bytes).length = max memory.length (offset + bytes.length) := by
  simp only [overlay, List.length_append, List.length_take, List.length_drop]
  omega

/-- Writing at an offset leaves what is before it. -/
theorem decodeWord_overlay (memory bytes : Bytes) {offset k : ℕ} (h : k + 4 ≤ offset)
    (hm : offset ≤ memory.length) : decodeWord (overlay memory offset bytes) k = decodeWord memory k := by
  have hget : ∀ i < offset, (overlay memory offset bytes).getD i 0 = memory.getD i 0 := by
    intro i hi
    rw [overlay, List.append_assoc, List.getD_append, List.getD_eq_getElem?_getD,
      List.getElem?_take_of_lt hi, List.getD_eq_getElem?_getD]
    rw [List.length_take]
    omega
  simp only [decodeWord, hget _ (show k < offset by omega), hget _ (show k + 1 < offset by omega),
    hget _ (show k + 2 < offset by omega), hget _ (show k + 3 < offset by omega)]

/-- A header has the number of the process and that of the account, which is not too large, and its
password is a complete array. -/
theorem makeReqHeader_spec {header : ReqHeader} (h : makeReqHeader args pid locals = some header) :
    header.pid = pid ∧ header.accountId = args.id.toUInt32 ∧
      header.accountId.toNat ≤ maxBankAccounts ∧ header.password.length = maxPasswordLen + 1 := by
  have hlength := locals.header_length
  simp only [sizeofReqHeader] at hlength
  simp only [makeReqHeader] at h
  split at h
  · cases h
  next hid =>
  cases h
  set memory₀ := overlay locals.header 0 (encodeWord pid) with h₀
  set memory₁ := overlay memory₀ 4 (encodeWord args.id.toUInt32) with h₁
  set memory₂ := overlay memory₁ 29 (encodeWord args.delayMS.toUInt32) with h₂
  -- the fields are written one after the other, the password last
  have hl₀ : memory₀.length = 33 := by
    rw [h₀, length_overlay _ _ (Nat.zero_le _), hlength]
    rfl
  have hl₁ : memory₁.length = 33 := by
    rw [h₁, length_overlay _ _ (by omega), hl₀]
    rfl
  have hl₂ : memory₂.length = 33 := by
    rw [h₂, length_overlay _ _ (by omega), hl₁]
    rfl
  have haccount : decodeWord (overlay memory₂ 8 (args.password ++ [0])) 4 = args.id.toUInt32 := by
    rw [decodeWord_overlay _ _ (by decide) (by omega), h₂,
      decodeWord_overlay _ _ (by decide) (by omega), h₁, overlay, List.append_assoc]
    have htake : (memory₀.take 4).length = 4 := by
      rw [List.length_take]
      omega
    simpa [htake] using decodeWord_append (memory₀.take 4)
      (memory₀.drop (4 + (encodeWord args.id.toUInt32).length)) args.id.toUInt32
  refine ⟨?_, haccount, ?_, ?_⟩
  · have hpid : decodeWord memory₀ 0 = pid := by
      rw [h₀, overlay_zero]
      exact decodeWord_append [] _ pid
    change decodeWord (overlay memory₂ 8 _) 0 = pid
    rw [decodeWord_overlay _ _ (by decide) (by omega), h₂,
      decodeWord_overlay _ _ (by decide) (by omega), h₁,
      decodeWord_overlay _ _ (by decide) (by omega), hpid]
  · change (decodeWord (overlay memory₂ 8 (args.password ++ [0])) 4).toNat ≤ _
    rw [haccount]
    omega
  · change (((overlay memory₂ 8 _).drop 8).take (maxPasswordLen + 1)).length = _
    rw [List.length_take, List.length_drop, length_overlay _ _ (by omega), hl₂, maxPasswordLen]
    omega

/-- The array of the password of a new account is complete. -/
theorem makeCreateAccReq_spec {create : ReqCreateAccount}
    (h : makeCreateAccReq args.args locals = some create) :
    create.password.length = maxPasswordLen + 1 := by
  unfold makeCreateAccReq at h
  split at h
  · next _ _ password _ _ =>
      dsimp only at h
      split_ifs at h with hid hbalance hpassword
      cases h
      change (overlay locals.password 0 (password ++ [0])).length = _
      rw [length_overlay _ _ (Nat.zero_le _), locals.password_length, List.length_append,
        List.length_singleton]
      omega
  · cases h

/-- An operation code that is accepted is one of the four. -/
theorem ofWord_opcode {opcode : Int32} (h : ¬ (opcode < 0 ∨ opcode ≥ 4)) :
    OpType.ofWord opcode.toUInt32 ≠ .opMaxNumber := by
  rw [not_or, Int32.lt_iff_toInt_lt, ge_iff_le, Int32.le_iff_toInt_le] at h
  have hcases : opcode.toInt = 0 ∨ opcode.toInt = 1 ∨ opcode.toInt = 2 ∨ opcode.toInt = 3 := by
    have h4 : (4 : Int32).toInt = 4 := by decide
    have h0 : (0 : Int32).toInt = 0 := by decide
    omega
  have heq : ∀ k : Int32, opcode.toInt = k.toInt → opcode = k := fun k => Int32.toInt_inj.mp
  rcases hcases with h | h | h | h
  · rw [heq 0 h]
    decide
  · rw [heq 1 h]
    decide
  · rw [heq 2 h]
    decide
  · rw [heq 3 h]
    decide

/-- **A request is well formed, and it names its process.** -/
theorem createRequest_spec {request : TlvRequest} (h : createRequest args pid locals = some request) :
    request.WellFormed ∧ request.value.header.pid = pid := by
  unfold createRequest at h
  split at h
  · cases h
  next hopcode =>
  obtain ⟨header, hheader, h⟩ := Option.bind_eq_some_iff.mp h
  obtain ⟨hpid, -, -, hpassword⟩ := makeReqHeader_spec hheader
  have htype := ofWord_opcode hopcode
  split at h
  · obtain ⟨create, hcreate, h⟩ := Option.bind_eq_some_iff.mp h
    cases h
    exact ⟨⟨(nomatch ·), rfl, hpassword, makeCreateAccReq_spec hcreate⟩, hpid⟩
  · obtain ⟨transfer, -, h⟩ := Option.bind_eq_some_iff.mp h
    cases h
    exact ⟨⟨(nomatch ·), rfl, hpassword, locals.value_length⟩, hpid⟩
  · next hcreate htransfer =>
      cases h
      refine ⟨⟨htype, ?_, hpassword, locals.value_length⟩, hpid⟩
      generalize OpType.ofWord args.opcode.toUInt32 = type at hcreate htransfer
      cases type with
      | opCreateAccount => exact absurd rfl hcreate
      | opTransfer => exact absurd rfl htransfer
      | _ => rfl

end

end Sope
