import Sope.Bank.Accounts
import Sope.Bank.Queue

/-! # The bank offices

The functions of `bankoffice.c`: the handlers of the four requests, `manageRequest`, the two ends of
the request queue, and the loop of an office. Writing to the log is left out, but for the reply that
`sendReply` logs; so are the thread numbers that only the log uses. -/

namespace Sope

open Concurrency

/-- The descriptors and the number of offices that the functions find in static variables. -/
structure Setup where
  /-- `numberOfOffices`. -/
  numberOfOffices : ℕ
  /-- The read end of the server's FIFO, `readRequests`'s argument. -/
  serverFifoFD : Int
  /-- The write end of the server's FIFO, `shutdownFD`. -/
  shutdownFD : Int

/-! ## Delays and locks -/

/-- The argument of `usleep` in `opDelay` and `opDelayShutdown`: the delay is converted to `int` and
multiplied by 1000 in `int`. -/
def delayMicroseconds (delayMS : UInt32) : UInt32 := (delayMS.toInt32 * 1000).toUInt32

/-- `opDelayShutdown` and `opDelay`. -/
def opDelay (delayMS : UInt32) : Server Unit := sys (.usleep (delayMicroseconds delayMS))

/-- `getSingleAccountAccess`. -/
def getSingleAccountAccess (id delayMS : UInt32) : Server Unit := do
  lockAccount id
  opDelay delayMS

/-- `getDoubleAccountAccess`, with the macros `min` and `max`. -/
def getDoubleAccountAccess (id1 id2 delayMS : UInt32) : Server Unit :=
  if id1 = id2 then do
    lockAccount id1
    opDelay delayMS
  else do
    lockAccount (if id1 < id2 then id1 else id2)
    opDelay delayMS
    lockAccount (if id1 > id2 then id1 else id2)
    opDelay delayMS

/-- `unlockDoubleAccount`. -/
def unlockDoubleAccount (id1 id2 : UInt32) : Server Unit :=
  if id1 = id2 then unlockAccount id1
  else do
    unlockAccount (if id1 > id2 then id1 else id2)
    unlockAccount (if id1 < id2 then id1 else id2)

/-! ## The handlers -/

/-- `validateAccount`: `none` where the C function returns `true`, and `some reply` where it returns
`false` and sets `*reply`. Comparing with the hash `NULL` is the use of a null pointer. -/
def validateAccount (request : TlvRequest) : Server (Option TlvReply) := do
  let account ← getAccount request.value.header.accountId
  match account with
  | none => return some (makeErrorReply .idNotFound request)
  | some account =>
      let salt : Bytes ← access (.readSalt account)
      let hash : Option Bytes ← sys (.generateHash (cString request.value.header.password) salt)
      match hash with
      | none => segfault
      | some hash =>
          let accountHash : Bytes ← access (.readHash account)
          if hash ≠ accountHash then return some (makeErrorReply .loginFail request)
          else return none

/-- `handleCreateAccountRequest`. -/
def handleCreateAccountRequest (request : TlvRequest) : Server TlvReply := do
  ext (.mark (.handleCreate request))
  let accountId := request.value.header.accountId
  let newAccId := request.value.create.accountId
  if accountId ≠ adminAccountId then return makeErrorReply .opNallow request
  else
    let account ← getAccount newAccId
    match account with
    | some _ => return makeErrorReply .idInUse request
    | none =>
        createAccount newAccId request.value.create.balance
          (cString request.value.create.password)
        return makeCreateReply accountId

/-- The reply of a transfer: `makeTransferReply` of the source account as it is now. -/
def transferReply (srcAccount : UInt32) (retCode : RetCode) : Server TlvReply := do
  let accountId : UInt32 ← access (.readAccountId srcAccount)
  let balance : UInt32 ← access (.readBalance srcAccount)
  return makeTransferReply accountId balance retCode

/-- The end of `handleTransferRequest`, when the amount may be transferred. -/
def moveAmount (srcAccount destAccount amount : UInt32) : Server TlvReply := do
  -- srcAccount->balance -= amount
  let srcBalance : UInt32 ← access (.readBalance srcAccount)
  let srcBalance : UInt32 ← ext (.sub srcBalance amount)
  access (.writeBalance srcAccount srcBalance)
  -- destAccount->balance += amount
  let destBalance : UInt32 ← access (.readBalance destAccount)
  let destBalance : UInt32 ← ext (.add destBalance amount)
  access (.writeBalance destAccount destBalance)
  transferReply srcAccount .ok

/-- The tests of `handleTransferRequest` on the balances: the amount must be in the source account
and fit into the destination account. The sum is computed in 32 bits. -/
def transferAmount (srcAccount destAccount amount : UInt32) : Server TlvReply := do
  let srcBalance : UInt32 ← access (.readBalance srcAccount)
  if srcBalance < amount then transferReply srcAccount .noFunds
  else
    let destBalance : UInt32 ← access (.readBalance destAccount)
    let sum : UInt32 ← ext (.add destBalance amount)
    if sum.toNat > maxBalance then transferReply srcAccount .tooHigh
    else moveAmount srcAccount destAccount amount

/-- `handleTransferRequest`. The source account is used without a test for `NULL`. -/
def handleTransferRequest (request : TlvRequest) : Server TlvReply := do
  ext (.mark (.handleTransfer request))
  let srcAccount ← getAccount request.value.header.accountId
  let destAccount ← getAccount request.value.transfer.accountId
  match srcAccount with
  | none => segfault
  | some srcAccount =>
      let srcId : UInt32 ← access (.readAccountId srcAccount)
      if srcId = adminAccountId then transferReply srcAccount .opNallow
      else
        match destAccount with
        | none => transferReply srcAccount .idNotFound
        | some destAccount =>
            let destId : UInt32 ← access (.readAccountId destAccount)
            if destId = adminAccountId then transferReply srcAccount .opNallow
            else
              let srcId : UInt32 ← access (.readAccountId srcAccount)
              if srcId = request.value.transfer.accountId then transferReply srcAccount .sameId
              else transferAmount srcAccount destAccount request.value.transfer.amount

/-- The loop of `getNumActiveOffices` over a list of offices, from a number already counted. -/
def countActive : List ℕ → ℕ → Server ℕ
  | [], numActiveOffices => return numActiveOffices
  | i :: rest, numActiveOffices => do
      let active : ℕ ← ext (.readActive i)
      countActive rest (numActiveOffices + active)

/-- `getNumActiveOffices`. -/
def getNumActiveOffices (numberOfOffices : ℕ) : Server ℕ :=
  countActive (List.range numberOfOffices) 0

/-- `handleShutdownRequest`. -/
def handleShutdownRequest (setup : Setup) (request : TlvRequest) : Server TlvReply := do
  opDelay request.value.header.opDelayMs
  if request.value.header.accountId = adminAccountId then
    sys (.fchmod setup.shutdownFD)
    sys (.close setup.shutdownFD)
    let numActiveOffices ← getNumActiveOffices setup.numberOfOffices
    return makeShutdownReply request.value.header.accountId (UInt32.ofNat numActiveOffices)
  else return makeErrorReply .opNallow request

/-- `handleBalanceRequest`. The account is used without a test for `NULL`. -/
def handleBalanceRequest (request : TlvRequest) : Server TlvReply := do
  ext (.mark (.handleBalance request))
  if request.value.header.accountId ≠ adminAccountId then
    let account ← getAccount request.value.header.accountId
    match account with
    | none => segfault
    | some account =>
        let accountId : UInt32 ← access (.readAccountId account)
        let balance : UInt32 ← access (.readBalance account)
        return makeBalanceReply accountId balance
  else return makeErrorReply .opNallow request

/-! ## Managing a request -/

/-- `logReply`, into the server's log. -/
def logReply (reply : TlvReply) : Server Unit := sys (.logReply reply)

/-- `sendReply`. -/
def sendReply (reply : TlvReply) (userFifoPath : Bytes) : Server Unit := do
  let userFifoFD : Int ← sys (.openFifo userFifoPath)
  if userFifoFD = -1 then
    sys (.close userFifoFD)
    logReply (reply.withRetCode .usrDown)
  else
    let written : Int ← sys (.write userFifoFD (replyBytes reply))
    if written = -1 then exit 1
    else
      sys (.close userFifoFD)
      logReply reply

/-- The operation of a request whose account is valid, with the locks it needs. -/
def performRequest (setup : Setup) (request : TlvRequest) : Server TlvReply :=
  match request.type with
  | .opCreateAccount => do
      getSingleAccountAccess request.value.create.accountId request.value.header.opDelayMs
      let reply ← handleCreateAccountRequest request
      unlockAccount request.value.create.accountId
      return reply
  | .opBalance => do
      getSingleAccountAccess request.value.header.accountId request.value.header.opDelayMs
      let reply ← handleBalanceRequest request
      unlockAccount request.value.header.accountId
      return reply
  | .opTransfer => do
      getDoubleAccountAccess request.value.header.accountId request.value.transfer.accountId
        request.value.header.opDelayMs
      let reply ← handleTransferRequest request
      unlockDoubleAccount request.value.header.accountId request.value.transfer.accountId
      return reply
  | .opShutdown => handleShutdownRequest setup request
  | .opMaxNumber => sys .unassignedReply

/-- `manageRequest`. The C function returns nothing; the model returns the reply that was handed to
`sendReply`. -/
def manageRequest (setup : Setup) (request : TlvRequest) : Server TlvReply := do
  let userFifoPath := getUserFifoPath request.value.header.pid
  lockAccount request.value.header.accountId
  let invalid ← validateAccount request
  unlockAccount request.value.header.accountId
  match invalid with
  | some reply =>
      sendReply reply userFifoPath
      return reply
  | none =>
      let reply ← performRequest setup request
      sendReply reply userFifoPath
      return reply

/-! ## The request queue -/

/-- `addRequestToQueue`. -/
def addRequestToQueue (request : TlvRequest) : Server Unit := do
  ext (.semWait .queueEmptySem)
  ext .lockQueueMutex
  ext (.queuePush request)
  ext .unlockQueueMutex
  ext (.semPost .queueFullSem)

/-- `getRequestFromQueue`, in the office with index `office`. -/
def getRequestFromQueue (office : ℕ) : Server TlvRequest := do
  ext (.semWait .queueFullSem)
  ext (.writeActive office true)
  ext .lockQueueMutex
  let request : TlvRequest ← ext .queuePop
  ext .unlockQueueMutex
  ext (.semPost .queueEmptySem)
  return request

/-- One round of the loop of `runBankOffice`. -/
def bankOfficeRound (setup : Setup) (office : ℕ) : Server Unit := do
  let request ← getRequestFromQueue office
  let reply ← manageRequest setup request
  ext (.mark (.managed request reply))
  ext (.writeActive office false)

/-! ## The main thread -/

/-- One round of the loop of `readRequests`: `true` if the loop goes on. -/
def readRequestsRound (setup : Setup) : Server Bool := do
  let request : Bytes ← sys .newRequest
  let bytes : Option Bytes ← sys (.read setup.serverFifoFD sizeofTypeLength)
  match bytes with
  | none => return false
  | some bytes =>
      let request := overlay request 0 bytes
      let bytes : Option Bytes ← sys (.read setup.serverFifoFD (decodeWord request 4).toNat)
      match bytes with
      | none => return false
      | some bytes =>
          if bytes.length = 0 then return false
          else
            addRequestToQueue (decodeRequest (overlay request sizeofTypeLength bytes))
            return true

/-- One round of the first loop of `waitForRequestFinish`: `true` if the queue is empty. -/
def queueEmptyRound : Server Bool := do
  ext .lockQueueMutex
  let queueEmpty : Bool ← ext .queueEmpty
  ext .unlockQueueMutex
  return queueEmpty

end Sope
