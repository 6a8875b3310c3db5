import Mathlib.Data.List.TakeWhile
import Mathlib.Data.Nat.Digits.Defs
import Mathlib.Tactic.Common

/-! # Data types of the home banking service

The constants, the account record, the requests and the replies of `constants.h` and `types.h`, with
the reply constructors of `replymaker.c` and the name of a user's FIFO from `fifoMaker.c`.

Arrays of `char` are byte lists. The two unions are laid out as in memory: the members of
`req_value_t`'s union begin at the same byte and agree on their first two fields, and the members of
`rep_value_t`'s union are one and the same word. -/

namespace Sope

/-- A byte string. -/
abbrev Bytes := List UInt8

/-- The C string in an array of `char`: what comes before the first NUL. -/
def cString (field : Bytes) : Bytes := field.takeWhile (· ≠ 0)

/-- A text without zeros is read as it stands. -/
theorem cString_of_notMem {text : Bytes} (h : 0 ∉ text) : cString text = text := by
  refine List.takeWhile_eq_self_iff.mpr fun c hc => ?_
  simpa using fun h0 : c = 0 => h (h0 ▸ hc)

/-- What follows a zero is not read. -/
theorem cString_append_of_mem {text : Bytes} (h : 0 ∈ text) (rest : Bytes) :
    cString (text ++ rest) = cString text := by
  induction text with
  | nil => cases h
  | cons c text ih =>
      by_cases hc : c = 0
      · simp [cString, hc]
      · have ih := ih ((List.mem_cons.mp h).resolve_left (Ne.symm hc))
        rw [cString, List.cons_append, List.takeWhile_cons_of_pos (by simpa using hc), cString,
          List.takeWhile_cons_of_pos (by simpa using hc)]
        exact congrArg (c :: ·) ih

/-! ## Constants -/

/-- `MAX_BANK_ACCOUNTS`. -/
def maxBankAccounts : ℕ := 4096

/-- `MIN_BALANCE`. -/
def minBalance : ℕ := 1

/-- `MAX_BALANCE`. -/
def maxBalance : ℕ := 1000000000

/-- `ADMIN_ACCOUNT_ID`. -/
def adminAccountId : UInt32 := 0

/-- `MAX_PASSWORD_LEN`. -/
def maxPasswordLen : ℕ := 20

/-- `BUFFER_SIZE`, the capacity of the request queue. -/
def bufferSize : ℕ := 5000

/-- The operations of `enum op_type`. The value `opMaxNumber` stands for `__OP_MAX_NUMBER` and for
every other number that is no operation: no `switch` of the server tells them apart. -/
inductive OpType
  | opCreateAccount
  | opBalance
  | opTransfer
  | opShutdown
  | opMaxNumber
  deriving DecidableEq, Repr

/-- The return codes of `enum ret_code`, in their order. -/
inductive RetCode
  | ok
  | srvDown
  | srvTimeout
  | usrDown
  | loginFail
  | opNallow
  | idInUse
  | idNotFound
  | sameId
  | noFunds
  | tooHigh
  | other
  deriving DecidableEq, Repr

/-! ## Accounts -/

/-- `bank_account_t`. The hash and the salt are the strings in their arrays. -/
structure BankAccount where
  /-- The account number. -/
  accountId : UInt32
  /-- The hash of the password and the salt. -/
  hash : Bytes
  /-- The salt. -/
  salt : Bytes
  /-- The balance, in euros. -/
  balance : UInt32
  deriving DecidableEq, Repr

/-! ## Requests -/

/-- `req_header_t`. -/
structure ReqHeader where
  /-- The process that sent the request. -/
  pid : UInt32
  /-- The account on whose behalf the request is made. -/
  accountId : UInt32
  /-- The password, an array of `MAX_PASSWORD_LEN + 1` characters. -/
  password : Bytes
  /-- The delay to introduce while the accounts are locked. -/
  opDelayMs : UInt32
  deriving DecidableEq, Repr

/-- `req_create_account_t`. -/
structure ReqCreateAccount where
  /-- The account to create. -/
  accountId : UInt32
  /-- Its balance. -/
  balance : UInt32
  /-- Its password. -/
  password : Bytes
  deriving DecidableEq, Repr

/-- `req_transfer_t`. -/
structure ReqTransfer where
  /-- The account that receives the money. -/
  accountId : UInt32
  /-- The amount. -/
  amount : UInt32
  deriving DecidableEq, Repr

/-- `req_value_t`. The union is stored as its larger member. -/
structure ReqValue where
  /-- The header, always present. -/
  header : ReqHeader
  /-- The union, read as the arguments of an account creation. -/
  create : ReqCreateAccount
  deriving DecidableEq, Repr

/-- The union, read as the arguments of a transfer: the first two words of its storage. -/
def ReqValue.transfer (value : ReqValue) : ReqTransfer :=
  ⟨value.create.accountId, value.create.balance⟩

/-- `tlv_request_t`. -/
structure TlvRequest where
  /-- The operation. -/
  type : OpType
  /-- The number of bytes of the value. -/
  length : UInt32
  /-- The header and the arguments. -/
  value : ReqValue
  deriving DecidableEq, Repr

/-- The account numbers that the operation of a request is about. -/
def TlvRequest.accountIds (request : TlvRequest) : List UInt32 :=
  request.value.header.accountId :: match request.type with
    | .opCreateAccount => [request.value.create.accountId]
    | .opTransfer => [request.value.transfer.accountId]
    | _ => []

/-! ## Replies -/

/-- `rep_header_t`. -/
structure RepHeader where
  /-- The account of the request. -/
  accountId : UInt32
  /-- The return code. -/
  retCode : RetCode
  deriving DecidableEq, Repr

/-- `rep_value_t`. The three members of the union are the same word (a balance, a balance, a number
of active offices), which is `none` while it has not been assigned. -/
structure RepValue where
  /-- The header, always present. -/
  header : RepHeader
  /-- The word of the union. -/
  info : Option UInt32
  deriving DecidableEq, Repr

/-- `tlv_reply_t`. -/
structure TlvReply where
  /-- The operation. -/
  type : OpType
  /-- The number of bytes of the value. -/
  length : UInt32
  /-- The header and the returned information. -/
  value : RepValue
  deriving DecidableEq, Repr

/-- The reply with another return code. -/
def TlvReply.withRetCode (reply : TlvReply) (retCode : RetCode) : TlvReply :=
  { reply with value := { reply.value with header := { reply.value.header with retCode } } }

/-- The reply without the number of active offices, if it is one to a shutdown request. -/
def TlvReply.withoutActiveOffices (reply : TlvReply) : TlvReply :=
  if reply.type = .opShutdown then { reply with value := { reply.value with info := none } }
  else reply

/-- `sizeof(rep_header_t)`. -/
def sizeofRepHeader : UInt32 := 8

/-- `makeErrorReply`. Its initial `newReply` leaves 0 in the union, and every other field is
overwritten. -/
def makeErrorReply (retCode : RetCode) (request : TlvRequest) : TlvReply :=
  { type := request.type
    length := sizeofRepHeader
    value := { header := ⟨request.value.header.accountId, retCode⟩, info := some 0 } }

/-- `makeShutdownReply`. -/
def makeShutdownReply (accountId activeOffices : UInt32) : TlvReply :=
  { type := .opShutdown
    length := sizeofRepHeader + 4
    value := { header := ⟨accountId, .ok⟩, info := some activeOffices } }

/-- `makeBalanceReply`. -/
def makeBalanceReply (accountId balance : UInt32) : TlvReply :=
  { type := .opBalance
    length := sizeofRepHeader + 4
    value := { header := ⟨accountId, .ok⟩, info := some balance } }

/-- `makeTransferReply`. -/
def makeTransferReply (accountId balance : UInt32) (retCode : RetCode) : TlvReply :=
  { type := .opTransfer
    length := sizeofRepHeader + 4
    value := { header := ⟨accountId, retCode⟩, info := some balance } }

/-- `makeCreateReply`. The union is not assigned. -/
def makeCreateReply (accountId : UInt32) : TlvReply :=
  { type := .opCreateAccount
    length := sizeofRepHeader
    value := { header := ⟨accountId, .ok⟩, info := none } }

/-! ## The name of a user's FIFO -/

/-- The decimal digits of a number, as characters, most significant first. -/
def decimal (n : ℕ) : Bytes :=
  if n = 0 then [48] else (Nat.digits 10 n).reverse.map fun d => UInt8.ofNat (48 + d)

/-- The decimal digits of a number, filled up with zeros on the left to a width. -/
def zeroPadded (width n : ℕ) : Bytes :=
  List.replicate (width - (decimal n).length) 48 ++ decimal n

/-- The byte of a decimal digit. -/
theorem toNat_digit {d : ℕ} (h : d < 10) : (UInt8.ofNat (48 + d)).toNat = 48 + d := by
  rw [UInt8.toNat_ofNat']
  omega

/-- The bytes of a number are digits. -/
theorem digit_of_mem_decimal {n : ℕ} {b : UInt8} (h : b ∈ decimal n) : 48 ≤ b.toNat := by
  unfold decimal at h
  split at h
  · obtain rfl := List.mem_singleton.mp h
    decide
  · obtain ⟨d, hd, rfl⟩ := List.mem_map.mp h
    have hlt : d < 10 := Nat.digits_lt_base (by decide) (List.mem_reverse.mp hd)
    rw [toNat_digit hlt]
    omega

theorem digit_of_mem_zeroPadded {width n : ℕ} {b : UInt8} (h : b ∈ zeroPadded width n) :
    48 ≤ b.toNat := by
  rcases List.mem_append.mp h with h | h
  · obtain rfl := List.eq_of_mem_replicate h
    decide
  · exact digit_of_mem_decimal h

/-- `sprintf`'s `%05d` for a `pid_t`: of a negative number the sign takes one place. -/
def formatPid (pid : UInt32) : Bytes :=
  if pid.toNat < 2 ^ 31 then zeroPadded 5 pid.toNat
  else 45 :: zeroPadded 4 (2 ^ 32 - pid.toNat)

/-- `USER_FIFO_PATH_PREFIX`, the bytes of `"/tmp/secure_"`. -/
def userFifoPathPrefix : Bytes := [47, 116, 109, 112, 47, 115, 101, 99, 117, 114, 101, 95]

/-- `getUserFifoPath`. For a process number of more than five characters the function of the source writes
behind the ends of its arrays, and this name is the model's only. -/
def getUserFifoPath (pid : UInt32) : Bytes := userFifoPathPrefix ++ formatPid pid

end Sope
