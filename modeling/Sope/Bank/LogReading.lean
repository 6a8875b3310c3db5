import Mathlib.Data.List.DropRight
import Sope.Bank.Logging

/-! # What the log tells

An `Entry` is what a line of the log tells: the function that was called, and those of its arguments that are
printed. `LogCall.entry` says what the line of a call is to tell; `readEntry` reads a line and `readLog` a
file. Requests are told from replies by the bracket behind their first number, the lines of offices from
those of accounts by a letter.

The password of a new account stands at the end of its line, and may contain quotes and newlines. It ends
with the last quote and newline that are within its reach. -/

namespace Sope.Log

open TextReader

/-! ## Entries -/

/-- The head of the line of a request. -/
structure RequestHead where
  /-- The request has been received, not emitted. -/
  received : Bool
  /-- Who has logged it. -/
  id : UInt32
  /-- The length that the message names. -/
  length : UInt32
  /-- The process that sent the request. -/
  pid : UInt32
  /-- The account on whose behalf the request is made. -/
  accountId : UInt32
  /-- The password. -/
  password : Bytes
  /-- The delay of the operation. -/
  opDelayMs : UInt32
  deriving DecidableEq, Repr

/-- What the line of a request says of its operation. -/
inductive RequestArgs
  | create (accountId balance : UInt32) (password : Bytes)
  | balance
  | transfer (accountId amount : UInt32)
  | shutdown
  deriving DecidableEq, Repr

/-- The head of the line of a reply. -/
structure ReplyHead where
  /-- The reply has been received, not emitted. -/
  received : Bool
  /-- Who has logged it. -/
  id : UInt32
  /-- The length that the message names. -/
  length : UInt32
  /-- The account of the request. -/
  accountId : UInt32
  /-- The return code. -/
  retCode : RetCode
  deriving DecidableEq, Repr

/-- What the line of a reply says of its operation. -/
inductive ReplyInfo
  | create
  | balance (balance : UInt32)
  | transfer (balance : UInt32)
  | shutdown (activeOffices : UInt32)
  deriving DecidableEq, Repr

/-- What a line of the log tells. -/
inductive Entry
  | request (head : RequestHead) (args : RequestArgs)
  | reply (head : ReplyHead) (info : ReplyInfo)
  | bankOffice (id : UInt32) (opened : Bool) (tid : UInt64)
  | accountCreation (id accountId : UInt32) (salt hashEnd : Bytes)
  | syncMech (id : UInt32) (smo : SyncMechOp) (role : SyncRole) (sid : UInt32) (val : Option UInt32)
  | delay (id delayMs : UInt32)
  | syncDelay (id sid delayMs : UInt32)
  deriving DecidableEq, Repr

/-- What the log is to tell of a request. -/
def requestEntry (getpid id : UInt32) (request : TlvRequest) : Option Entry :=
  let head := ⟨id ≠ getpid, id, request.length, request.value.header.pid, request.value.header.accountId,
    cString request.value.header.password, request.value.header.opDelayMs⟩
  match request.type with
  | .opCreateAccount =>
      some (.request head (.create request.value.create.accountId request.value.create.balance
        (cString request.value.create.password)))
  | .opBalance => some (.request head .balance)
  | .opTransfer =>
      some (.request head (.transfer request.value.transfer.accountId request.value.transfer.amount))
  | .opShutdown => some (.request head .shutdown)
  | .opMaxNumber => none

/-- What the log is to tell of a reply. -/
def replyEntry (getpid stale id : UInt32) (reply : TlvReply) : Option Entry :=
  let head := ⟨id = getpid, id, reply.length, reply.value.header.accountId, reply.value.header.retCode⟩
  let info := reply.value.info.getD stale
  match reply.type with
  | .opCreateAccount => some (.reply head .create)
  | .opBalance => some (.reply head (.balance info))
  | .opTransfer => some (.reply head (.transfer info))
  | .opShutdown => some (.reply head (.shutdown info))
  | .opMaxNumber => none

/-- What the log is to tell of a call. -/
def LogCall.entry (getpid : UInt32) : LogCall → Option Entry
  | .request id message => requestEntry getpid id message
  | .reply stale id message => replyEntry getpid stale id message
  | .bankOfficeOpen id tid => some (.bankOffice id true tid)
  | .bankOfficeClose id tid => some (.bankOffice id false tid)
  | .accountCreation id account =>
      some (.accountCreation id account.accountId account.salt (account.hash.drop (hashLen - widthHash)))
  | .syncMech id smo role sid => some (.syncMech id smo role sid none)
  | .syncMechSem id smo role sid val => some (.syncMech id smo role sid (some val))
  | .delay id delayMs => some (.delay id delayMs)
  | .syncDelay id sid delayMs => some (.syncDelay id sid delayMs)

/-- What the log is to tell of the calls of processes. -/
def logEntries (calls : List (UInt32 × LogCall)) : List Entry := calls.filterMap fun call => call.2.entry call.1

/-! ## The reader of a line -/

/-- The operations with a name. -/
def operations : List OpType := [.opCreateAccount, .opBalance, .opTransfer, .opShutdown]

/-- The return codes. -/
def retCodes : List RetCode :=
  [.ok, .srvDown, .srvTimeout, .usrDown, .loginFail, .opNallow, .idInUse, .idNotFound, .sameId, .noFunds,
    .tooHigh, .other]

/-- The calls that are logged for the synchronization. -/
def syncMechOps : List SyncMechOp :=
  [.mutexLock, .mutexUnlock, .mutexTrylock, .condSignal, .condWait, .semInit, .semPost, .semWait]

/-- Takes a password, the quote and the bracket behind it, and the blanks. -/
def readPassword : Reader UInt8 Bytes := do
  let field ← block (maxPasswordLen + 2)
  return (field.rdropWhile (· = 32)).dropLast.dropLast

/-- Takes the password of a new account, which the line ends with. -/
def readLastPassword : Reader UInt8 Bytes := longest (literal (utf8 "\"\n")) maxPasswordLen

/-- Takes what a request says of its operation. -/
def readRequestArgs : OpType → Reader UInt8 RequestArgs
  | .opCreateAccount => do
      literal (utf8 " ")
      let accountId ← readD0
      literal (utf8 " ")
      let balance ← readU
      literal (utf8 "€ \"")
      let password ← readLastPassword
      return .create accountId balance password
  | .opBalance => do
      literal (utf8 "\n")
      return .balance
  | .opTransfer => do
      literal (utf8 " ")
      let accountId ← readD0
      literal (utf8 " ")
      let amount ← readU
      literal (utf8 "€\n")
      return .transfer accountId amount
  | .opShutdown => do
      literal (utf8 "\n")
      return .shutdown
  | .opMaxNumber => failure

/-- Takes a request, from the bracket before the account. -/
def readRequest (received : Bool) (id length pid : UInt32) : Reader UInt8 Entry := do
  literal (utf8 "(")
  let accountId ← readD0
  literal (utf8 ", \"")
  let password ← readPassword
  literal (utf8 " [")
  let opDelayMs ← readU
  literal (utf8 " ms] ")
  let field ← block widthOp
  let type ← among operations (fun type => padEnd widthOp (opTypeStr type)) field
  let args ← readRequestArgs type
  return .request ⟨received, id, length, pid, accountId, password, opDelayMs⟩ args

/-- Takes what a reply says of its operation. -/
def readReplyInfo : OpType → Reader UInt8 ReplyInfo
  | .opCreateAccount => do
      literal (utf8 "\n")
      return .create
  | .opBalance => do
      literal (utf8 " ")
      let balance ← readD
      literal (utf8 "€\n")
      return .balance balance
  | .opTransfer => do
      literal (utf8 " ")
      let balance ← readD
      literal (utf8 "€\n")
      return .transfer balance
  | .opShutdown => do
      literal (utf8 " ")
      let activeOffices ← readD
      literal (utf8 "\n")
      return .shutdown activeOffices
  | .opMaxNumber => failure

/-- Takes a reply, from the name of the operation. -/
def readReply (received : Bool) (id length accountId : UInt32) : Reader UInt8 Entry := do
  let field ← block widthOp
  let type ← among operations (fun type => padStart widthOp (opTypeStr type)) field
  literal (utf8 " ")
  let field ← block widthRc
  let retCode ← among retCodes (fun retCode => padStart widthRc (rcStr retCode)) field
  let info ← readReplyInfo type
  return .reply ⟨received, id, length, accountId, retCode⟩ info

/-- Takes a message. A bracket behind the first number tells the requests from the replies. -/
def readMessage (received : Bool) (id : UInt32) : Reader UInt8 Entry := do
  literal (utf8 "[")
  let length ← readD
  literal (utf8 " bytes] ")
  let number ← readD0
  literal (utf8 " ")
  if (← peek) = some 40 then readRequest received id length number
  else readReply received id length number

/-- Takes of a bank office, or of a new account. -/
def readInformation (id : UInt32) : Reader UInt8 Entry := do
  let letter ← peek
  if letter = some 79 then
    literal (utf8 "OPEN  ")
    let tid ← readLu
    literal (utf8 "\n")
    return .bankOffice id true tid
  else if letter = some 67 then
    literal (utf8 "CLOSE ")
    let tid ← readLu
    literal (utf8 "\n")
    return .bankOffice id false tid
  else
    let accountId ← readD0
    literal (utf8 " ")
    let salt ← block saltLen
    literal (utf8 " ...")
    let hashEnd ← block widthHash
    literal (utf8 "\n")
    return .accountCreation id accountId salt hashEnd

/-- Takes of the use of a mutex or a semaphore. -/
def readSynchronization (id : UInt32) : Reader UInt8 Entry := do
  let letter ← block 1
  let role ← among [.producer, .consumer, .account] (fun role => [syncRoleLetter role]) letter
  let sid ← readD0
  literal (utf8 " ")
  let name ← spanning fun b => b ≠ 32 ∧ b ≠ 10
  let smo ← among syncMechOps syncMechStr name
  if (← peek) = some 10 then
    literal (utf8 "\n")
    return .syncMech id smo role sid none
  else
    literal (utf8 " [val=")
    let val ← readD
    literal (utf8 "]\n")
    return .syncMech id smo role sid (some val)

/-- Takes of a delay. -/
def readDelay (id : UInt32) : Reader UInt8 Entry := do
  if (← peek) = some 91 then
    literal (utf8 "[")
    let delayMs ← readU
    literal (utf8 " ms]\n")
    return .delay id delayMs
  else
    literal (utf8 "A")
    let sid ← readD0
    literal (utf8 " [")
    let delayMs ← readU
    literal (utf8 " ms]\n")
    return .syncDelay id sid delayMs

/-- Takes the rest of a line of a kind. -/
def readKind (kind : UInt8) (id : UInt32) : Reader UInt8 Entry :=
  if kind = 82 then readMessage true id
  else if kind = 69 then readMessage false id
  else if kind = 73 then readInformation id
  else if kind = 83 then readSynchronization id
  else if kind = 65 then readDelay id
  else failure

/-- Takes a line. -/
def readEntry : Reader UInt8 Entry := do
  let kind ← block 1
  literal (utf8 " - ")
  let id ← readD0
  literal (utf8 " - ")
  readKind (kind.headD 0) id

/-- Takes a log. -/
def readLog (file : Bytes) : Option (List Entry) := readAll readEntry file

end Sope.Log
