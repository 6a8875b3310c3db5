import Sope.Bank.Types
import Sope.Text.Printf

/-! # The log

The functions of `log.c`. Each prints one line into an array of `PIPE_BUF` bytes and writes it with one
`write`; it returns what `vsnprintf` returns, or `-2` for a request or a reply that is of no type, for which
it writes nothing. The pointers are never null here. -/

namespace Sope.Log

/-! ## Constants and names -/

/-- `PIPE_BUF`. -/
def pipeBuf : ℕ := 4096

/-- `WIDTH_DELAY`. -/
def widthDelay : ℕ := 5

/-- `WIDTH_ACCOUNT`. -/
def widthAccount : ℕ := 4

/-- `WIDTH_BALANCE`. -/
def widthBalance : ℕ := 10

/-- `WIDTH_OP`. -/
def widthOp : ℕ := 8

/-- `WIDTH_RC`. -/
def widthRc : ℕ := 12

/-- `WIDTH_HASH`. -/
def widthHash : ℕ := 5

/-- `WIDTH_TLV_LEN`. -/
def widthTlvLen : ℕ := 3

/-- `WIDTH_STARTEND`. -/
def widthStartend : ℕ := 5

/-- `HASH_LEN`. -/
def hashLen : ℕ := 64

/-- `SALT_LEN`. -/
def saltLen : ℕ := 64

/-- `sync_mech_op_t`. -/
inductive SyncMechOp
  | mutexLock
  | mutexUnlock
  | mutexTrylock
  | condSignal
  | condWait
  | semInit
  | semPost
  | semWait
  deriving DecidableEq, Repr

/-- `sync_role_t`. -/
inductive SyncRole
  | producer
  | consumer
  | account
  deriving DecidableEq, Repr

/-- `OP_TYPE_STR`. What is no operation has no name. -/
def opTypeStr : OpType → Bytes
  | .opCreateAccount => utf8 "CREATE"
  | .opBalance => utf8 "BALANCE"
  | .opTransfer => utf8 "TRANSFER"
  | .opShutdown => utf8 "SHUTDOWN"
  | .opMaxNumber => []

/-- `RC_STR`. -/
def rcStr : RetCode → Bytes
  | .ok => utf8 "OK"
  | .srvDown => utf8 "SRV_DOWN"
  | .srvTimeout => utf8 "SRV_TIMEOUT"
  | .usrDown => utf8 "USR_DOWN"
  | .loginFail => utf8 "LOGIN_FAIL"
  | .opNallow => utf8 "OP_NALLOW"
  | .idInUse => utf8 "ID_IN_USE"
  | .idNotFound => utf8 "ID_NOT_FOUND"
  | .sameId => utf8 "SAME_ID"
  | .noFunds => utf8 "NO_FUNDS"
  | .tooHigh => utf8 "TOO_HIGH"
  | .other => utf8 "OTHER"

/-- `SYNC_MECH_STR`. -/
def syncMechStr : SyncMechOp → Bytes
  | .mutexLock => utf8 "MUTEX_LOCK"
  | .mutexTrylock => utf8 "MUTEX_TRYLOCK"
  | .mutexUnlock => utf8 "MUTEX_UNLOCK"
  | .condSignal => utf8 "COND_SIGNAL"
  | .condWait => utf8 "COND_WAIT"
  | .semInit => utf8 "SEM_INIT"
  | .semPost => utf8 "SEM_POST"
  | .semWait => utf8 "SEM_WAIT"

/-- `SYNC_ROLE_STR`. -/
def syncRoleStr : SyncRole → Bytes
  | .account => utf8 "ACCOUNT"
  | .consumer => utf8 "CONSUMER"
  | .producer => utf8 "PRODUCER"

/-- `SYNC_ROLE_STR[role][0]`. -/
def syncRoleLetter (role : SyncRole) : UInt8 := (syncRoleStr role).headD 0

/-! ## One line -/

/-- `atomicPrintf`: what it returns, and what its one `write` writes. -/
def atomicPrintf (parts : List Part) : ℤ × Bytes :=
  let (buffer, ret) := vsnprintf pipeBuf parts
  (ret, cString buffer)

/-- The letter of a message that has been received, or has been emitted. -/
def directionLetter (received : Bool) : UInt8 := if received then 82 else 69

/-- The format of `logBaseRequestInfo`, with its arguments. -/
def baseRequestParts (getpid id : UInt32) (request : TlvRequest) : List Part :=
  let pass_padding : ℤ := maxPasswordLen - (cString request.value.header.password).length
  let received := id ≠ getpid
  [.c (directionLetter received), .chars (utf8 " - "), .d0 widthId id, .chars (utf8 " - "), .chars (utf8 "["),
    .d widthTlvLen request.length, .chars (utf8 " bytes] "), .d0 widthId request.value.header.pid,
    .chars (utf8 " "), .chars (utf8 "("), .d0 widthAccount request.value.header.accountId,
    .chars (utf8 ", \""), .s 0 request.value.header.password, .chars (utf8 "\")"), .s pass_padding [],
    .chars (utf8 " ["), .u widthDelay request.value.header.opDelayMs, .chars (utf8 " ms] "),
    .s (-widthOp) (opTypeStr request.type)]

/-- `logBaseRequestInfo`. -/
def logBaseRequestInfo (getpid id : UInt32) (request : TlvRequest) : Bytes :=
  (vsnprintf pipeBuf (baseRequestParts getpid id request)).1

/-- The format of `logBaseReplyInfo`, with its arguments. -/
def baseReplyParts (getpid id : UInt32) (reply : TlvReply) : List Part :=
  let received := id = getpid
  [.c (directionLetter received), .chars (utf8 " - "), .d0 widthId id, .chars (utf8 " - "), .chars (utf8 "["),
    .d widthTlvLen reply.length, .chars (utf8 " bytes] "), .d0 widthAccount reply.value.header.accountId,
    .chars (utf8 " "), .s widthOp (opTypeStr reply.type), .chars (utf8 " "),
    .s widthRc (rcStr reply.value.header.retCode)]

/-- `logBaseReplyInfo`. -/
def logBaseReplyInfo (getpid id : UInt32) (reply : TlvReply) : Bytes :=
  (vsnprintf pipeBuf (baseReplyParts getpid id reply)).1

/-- `logRequest`. -/
def logRequest (getpid id : UInt32) (request : TlvRequest) : ℤ × Bytes :=
  match request.type with
  | .opCreateAccount =>
      atomicPrintf [.s 0 (logBaseRequestInfo getpid id request), .chars (utf8 " "),
        .d0 widthAccount request.value.create.accountId, .chars (utf8 " "),
        .u widthBalance request.value.create.balance, .chars (utf8 "€ \""),
        .s 0 request.value.create.password, .chars (utf8 "\"\n")]
  | .opBalance => atomicPrintf [.s 0 (logBaseRequestInfo getpid id request), .chars (utf8 "\n")]
  | .opTransfer =>
      atomicPrintf [.s 0 (logBaseRequestInfo getpid id request), .chars (utf8 " "),
        .d0 widthAccount request.value.transfer.accountId, .chars (utf8 " "),
        .u widthBalance request.value.transfer.amount, .chars (utf8 "€\n")]
  | .opShutdown => atomicPrintf [.s 0 (logBaseRequestInfo getpid id request), .chars (utf8 "\n")]
  | .opMaxNumber => (-2, [])

/-- `logReply`. The word of the union is `stale` if it has never been assigned. -/
def logReply (getpid stale id : UInt32) (reply : TlvReply) : ℤ × Bytes :=
  let info := reply.value.info.getD stale
  match reply.type with
  | .opCreateAccount => atomicPrintf [.s 0 (logBaseReplyInfo getpid id reply), .chars (utf8 "\n")]
  | .opBalance =>
      atomicPrintf [.s 0 (logBaseReplyInfo getpid id reply), .chars (utf8 " "), .d widthBalance info,
        .chars (utf8 "€\n")]
  | .opTransfer =>
      atomicPrintf [.s 0 (logBaseReplyInfo getpid id reply), .chars (utf8 " "), .d widthBalance info,
        .chars (utf8 "€\n")]
  | .opShutdown =>
      atomicPrintf [.s 0 (logBaseReplyInfo getpid id reply), .chars (utf8 " "), .d 0 info, .chars (utf8 "\n")]
  | .opMaxNumber => (-2, [])

/-- `logBankOfficeInfo`. -/
def logBankOfficeInfo (id : UInt32) (tid : UInt64) (opened : Bool) : ℤ × Bytes :=
  atomicPrintf [.c 73, .chars (utf8 " - "), .d0 widthId id, .chars (utf8 " - "),
    .s (-widthStartend) (if opened then utf8 "OPEN" else utf8 "CLOSE"), .chars (utf8 " "), .lu tid,
    .chars (utf8 "\n")]

/-- `logBankOfficeOpen`. -/
def logBankOfficeOpen (id : UInt32) (tid : UInt64) : ℤ × Bytes := logBankOfficeInfo id tid true

/-- `logBankOfficeClose`. -/
def logBankOfficeClose (id : UInt32) (tid : UInt64) : ℤ × Bytes := logBankOfficeInfo id tid false

/-- `logAccountCreation`: of the hash only its end is shown. -/
def logAccountCreation (id : UInt32) (account : BankAccount) : ℤ × Bytes :=
  atomicPrintf [.c 73, .chars (utf8 " - "), .d0 widthId id, .chars (utf8 " - "),
    .d0 widthAccount account.accountId, .chars (utf8 " "), .s saltLen account.salt, .chars (utf8 " ..."),
    .s widthHash (account.hash.drop (hashLen - widthHash)), .chars (utf8 "\n")]

/-- `logSyncMech`. -/
def logSyncMech (id : UInt32) (smo : SyncMechOp) (role : SyncRole) (sid : UInt32) : ℤ × Bytes :=
  atomicPrintf [.c 83, .chars (utf8 " - "), .d0 widthId id, .chars (utf8 " - "),
    .c (syncRoleLetter role), .d0 widthId sid, .chars (utf8 " "), .s 0 (syncMechStr smo),
    .chars (utf8 "\n")]

/-- `logSyncMechSem`. -/
def logSyncMechSem (id : UInt32) (smo : SyncMechOp) (role : SyncRole) (sid val : UInt32) : ℤ × Bytes :=
  atomicPrintf [.c 83, .chars (utf8 " - "), .d0 widthId id, .chars (utf8 " - "),
    .c (syncRoleLetter role), .d0 widthId sid, .chars (utf8 " "), .s 0 (syncMechStr smo),
    .chars (utf8 " [val="), .d 0 val, .chars (utf8 "]\n")]

/-- `logDelay`. -/
def logDelay (id delayMs : UInt32) : ℤ × Bytes :=
  atomicPrintf [.c 65, .chars (utf8 " - "), .d0 widthId id, .chars (utf8 " - "), .chars (utf8 "["),
    .u widthDelay delayMs, .chars (utf8 " ms]\n")]

/-- `logSyncDelay`. -/
def logSyncDelay (id sid delayMs : UInt32) : ℤ × Bytes :=
  atomicPrintf [.c 65, .chars (utf8 " - "), .d0 widthId id, .chars (utf8 " - "),
    .c (syncRoleLetter .account), .d0 widthId sid, .chars (utf8 " ["), .u widthDelay delayMs,
    .chars (utf8 " ms]\n")]

/-! ## The log file -/

/-- A call of one of the functions of `log.c`. -/
inductive LogCall
  | request (id : UInt32) (message : TlvRequest)
  | reply (stale id : UInt32) (message : TlvReply)
  | bankOfficeOpen (id : UInt32) (tid : UInt64)
  | bankOfficeClose (id : UInt32) (tid : UInt64)
  | accountCreation (id : UInt32) (account : BankAccount)
  | syncMech (id : UInt32) (smo : SyncMechOp) (role : SyncRole) (sid : UInt32)
  | syncMechSem (id : UInt32) (smo : SyncMechOp) (role : SyncRole) (sid val : UInt32)
  | delay (id delayMs : UInt32)
  | syncDelay (id sid delayMs : UInt32)

/-- The call, by the process with this number. -/
def LogCall.run (getpid : UInt32) : LogCall → ℤ × Bytes
  | .request id message => logRequest getpid id message
  | .reply stale id message => logReply getpid stale id message
  | .bankOfficeOpen id tid => logBankOfficeOpen id tid
  | .bankOfficeClose id tid => logBankOfficeClose id tid
  | .accountCreation id account => logAccountCreation id account
  | .syncMech id smo role sid => logSyncMech id smo role sid
  | .syncMechSem id smo role sid val => logSyncMechSem id smo role sid val
  | .delay id delayMs => logDelay id delayMs
  | .syncDelay id sid delayMs => logSyncDelay id sid delayMs

/-- What calls leave in a file that is opened with `O_APPEND`, in the order of their writes; each with the
number of the process that makes it. -/
def logFile (calls : List (UInt32 × LogCall)) : Bytes := calls.flatMap fun call => (call.2.run call.1).2

end Sope.Log
