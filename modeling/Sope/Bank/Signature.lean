import Sope.Bank.Wire
import Sope.Concurrency.LockedMemory

/-! # The operations of the server's threads

What a thread of the server does to shared state, one operation for each indivisible step: locking
and unlocking an account, reading or writing one entry of `usedAccounts` or one field of an entry of
`accounts`, using the semaphores, `queueMutex`, the request queue or a flag of `activeOffices`, and
calling the system.

Additions and subtractions of balances are operations too, so that a run shows the operands of each
of them; a `mark` does nothing and makes a point of the program visible in a run. -/

namespace Sope

open Concurrency

/-- An entry of `usedAccounts` and the entry of `accounts` with the same index. -/
structure Slot where
  /-- The entry of `usedAccounts`. -/
  used : Bool
  /-- The entry of `accounts`. -/
  account : BankAccount
  deriving DecidableEq

/-- The accesses to `usedAccounts` and to the fields of `accounts`. -/
inductive TableOp
  | readUsed (id : UInt32)
  | writeUsed (id : UInt32) (used : Bool)
  | readAccountId (id : UInt32)
  | writeAccountId (id accountId : UInt32)
  | readHash (id : UInt32)
  | writeHash (id : UInt32) (hash : Bytes)
  | readSalt (id : UInt32)
  | writeSalt (id : UInt32) (salt : Bytes)
  | readBalance (id : UInt32)
  | writeBalance (id balance : UInt32)
  deriving DecidableEq

/-- The results of the accesses. -/
def TableOp.Res : TableOp → Type
  | .readUsed _ => Bool
  | .readAccountId _ | .readBalance _ => UInt32
  | .readHash _ | .readSalt _ => Bytes
  | .writeUsed .. | .writeAccountId .. | .writeHash .. | .writeSalt .. | .writeBalance .. => Unit

/-- What the accesses do. The arrays of the source have `MAX_BANK_ACCOUNTS` entries, here there is one for every
number. -/
def table : Cells UInt32 Slot TableOp TableOp.Res where
  loc
    | .readUsed id | .writeUsed id _ | .readAccountId id | .writeAccountId id _ | .readHash id
    | .writeHash id _ | .readSalt id | .writeSalt id _ | .readBalance id | .writeBalance id _ => id
  run
    | .readUsed _, slot => (slot.used, slot)
    | .writeUsed _ used, slot => ((), { slot with used })
    | .readAccountId _, slot => (slot.account.accountId, slot)
    | .writeAccountId _ accountId, slot =>
        ((), { slot with account := { slot.account with accountId } })
    | .readHash _, slot => (slot.account.hash, slot)
    | .writeHash _ hash, slot => ((), { slot with account := { slot.account with hash } })
    | .readSalt _, slot => (slot.account.salt, slot)
    | .writeSalt _ salt, slot => ((), { slot with account := { slot.account with salt } })
    | .readBalance _, slot => (slot.account.balance, slot)
    | .writeBalance _ balance, slot =>
        ((), { slot with account := { slot.account with balance } })

/-- The calls that leave the program: the system, and what has no meaning inside it (random numbers,
memory that has not been assigned). -/
inductive SysCall
  /-- `generateSalt()`. -/
  | generateSalt
  /-- `generateHash(password, salt)`; `none` is `NULL`. -/
  | generateHash (password salt : Bytes)
  /-- `usleep(us)`. -/
  | usleep (us : UInt32)
  /-- The content of a new local variable of type `tlv_request_t`. -/
  | newRequest
  /-- The value of a variable of type `tlv_reply_t` that was never assigned. -/
  | unassignedReply
  /-- `open(path, O_WRONLY | O_NONBLOCK)`; -1 for an error. -/
  | openFifo (path : Bytes)
  /-- `write(fd, bytes, n)` with the first `n` bytes; -1 for an error. -/
  | write (fd : Int) (bytes : Bytes)
  /-- `read(fd, _, n)`; `none` for -1. -/
  | read (fd : Int) (n : ℕ)
  /-- `close(fd)`. -/
  | close (fd : Int)
  /-- `fchmod(fd, 0444)`. -/
  | fchmod (fd : Int)
  /-- `logReply(slogFD, threadID, &reply)`. -/
  | logReply (reply : TlvReply)
  deriving DecidableEq

/-- The results of the calls. -/
def SysCall.Res : SysCall → Type
  | .generateSalt => Bytes
  | .generateHash .. => Option Bytes
  | .newRequest => Bytes
  | .unassignedReply => TlvReply
  | .openFifo _ | .write .. => Int
  | .read .. => Option Bytes
  | .usleep _ | .close _ | .fchmod _ | .logReply _ => Unit

/-- The points of the program that are made visible in a run. -/
inductive Mark
  /-- `handleCreateAccountRequest(request)` is entered, with the new account locked. -/
  | handleCreate (request : TlvRequest)
  /-- `handleBalanceRequest(request)` is entered, with the account locked. -/
  | handleBalance (request : TlvRequest)
  /-- `handleTransferRequest(request)` is entered, with both accounts locked. -/
  | handleTransfer (request : TlvRequest)
  /-- `manageRequest(request)` is over; it had handed `reply` to `sendReply`. -/
  | managed (request : TlvRequest) (reply : TlvReply)
  deriving DecidableEq

/-- The two semaphores of the request queue. -/
inductive QueueSem
  | queueEmptySem
  | queueFullSem
  deriving DecidableEq

/-- The operations on everything but the accounts. The number in an operation on `activeOffices` or
on a thread counts the offices from 0. -/
inductive Ext
  | semWait (sem : QueueSem)
  | semPost (sem : QueueSem)
  | lockQueueMutex
  | unlockQueueMutex
  | queuePush (request : TlvRequest)
  | queuePop
  | queueEmpty
  | readActive (office : ℕ)
  | writeActive (office : ℕ) (active : Bool)
  | pthreadCancel (office : ℕ)
  | pthreadJoin (office : ℕ)
  /-- The sum of two balances. -/
  | add (a b : UInt32)
  /-- The difference of two balances. -/
  | sub (a b : UInt32)
  | sys (call : SysCall)
  /-- The use of a null pointer. -/
  | segfault
  /-- `exit(status)`. -/
  | exit (status : ℕ)
  | mark (m : Mark)
  deriving DecidableEq

/-- The results of these operations; `segfault` and `exit` do not return. A flag of `activeOffices`
is read as the number in its byte. -/
def Ext.Res : Ext → Type
  | .queuePop => TlvRequest
  | .queueEmpty => Bool
  | .readActive _ => ℕ
  | .add .. | .sub .. => UInt32
  | .sys call => call.Res
  | .segfault | .exit _ => Empty
  | .semWait _ | .semPost _ | .lockQueueMutex | .unlockQueueMutex | .queuePush _ | .writeActive ..
  | .pthreadCancel _ | .pthreadJoin _ | .mark _ => Unit

/-- The operations of the server's threads. -/
abbrev ServerOp := MemOp UInt32 TableOp Ext

/-- Their results. -/
abbrev ServerRes : ServerOp → Type := MemOp.Res TableOp.Res Ext.Res

/-- Programs of the server. -/
abbrev Server := Prog ServerOp ServerRes

/-! ## The operations as programs -/

/-- An access to the table of accounts. -/
def access (a : TableOp) : Server a.Res := .op (MemOp.access a) .ret

/-- An operation on everything but the accounts. -/
def ext (e : Ext) : Server e.Res := .op (MemOp.ext e) .ret

/-- A call of the system. -/
def sys (call : SysCall) : Server call.Res := ext (.sys call)

/-- `lockAccount`. -/
def lockAccount (id : UInt32) : Server Unit := .op (MemOp.lock id) .ret

/-- `unlockAccount`. -/
def unlockAccount (id : UInt32) : Server Unit := .op (MemOp.unlock id) .ret

/-- The use of a null pointer, which ends the process. -/
def segfault {α : Type} : Server α := .op (MemOp.ext .segfault) fun r : Empty => nomatch r

/-- `exit`. -/
def exit {α : Type} (status : ℕ) : Server α := .op (MemOp.ext (.exit status)) fun r : Empty => nomatch r

end Sope
