import Sope.Bank.Identity
import Sope.Bank.Ledger
import Sope.Bank.Wire
import Sope.Concurrency.Monitor

/-! # Errands

What every thread of the server does with the world, in which order and with which arguments, as a
monitor: the main thread reads a request in two reads and puts what it has read into the queue; an
office takes a request, may be told to shut the server down, opens the FIFO of the request, writes one
reply to that request into it, closes it, and is done.

* `Errand` — the states of the monitor, `errands` — the monitor.
* `wp_errand_mainBody`, `wp_errand_officeBody` — the programs of the threads keep to it.

The reply is one to the request because an account that is used holds its own number, and because an
account that a login has found is still used when the operation looks it up again. -/

namespace Sope

open Concurrency

/-! ## The monitor -/

/-- How far a thread has come. -/
inductive Errand
  /-- The main thread is about to read the next request. -/
  | ready
  /-- It has a new `tlv_request_t`. -/
  | blank (memory : Bytes)
  /-- It has made the first read. -/
  | headed (memory : Bytes)
  /-- It has made the second read. -/
  | whole (request : TlvRequest)
  /-- It has found the end of the FIFO, or an error. -/
  | finished
  /-- An office has nothing in hand. -/
  | idle
  /-- It has taken a request. -/
  | managing (request : TlvRequest)
  /-- `generateHash` has failed in `validateAccount`. -/
  | hashless (request : TlvRequest)
  /-- It executes `handleCreateAccountRequest`. -/
  | creating (request : TlvRequest)
  /-- It has made the server's FIFO read-only. -/
  | sealed (request : TlvRequest)
  /-- It could not open the user's FIFO. -/
  | missed (request : TlvRequest)
  /-- It has opened the user's FIFO. -/
  | holding (request : TlvRequest) (fd : Int)
  /-- It could not write the reply. -/
  | unwritten (request : TlvRequest) (fd : Int)
  /-- It has written the reply. -/
  | written (request : TlvRequest) (fd : Int) (bytes : Bytes)
  /-- It has closed the user's FIFO. -/
  | sent (request : TlvRequest) (bytes : Bytes)
  /-- It has given up the reply. -/
  | dropped (request : TlvRequest)
  deriving DecidableEq

/-- The reply is one to the request, and its length is that of a reply. -/
structure TlvReply.IsFor (reply : TlvReply) (request : TlvRequest) : Prop where
  type : reply.type = request.type
  accountId : reply.value.header.accountId = request.value.header.accountId
  length : reply.length.toNat ≤ 12

/-- An error reply is one to the request. -/
theorem isFor_makeErrorReply (retCode : RetCode) (request : TlvRequest) :
    (makeErrorReply retCode request).IsFor request where
  type := rfl
  accountId := rfl
  length := (show sizeofRepHeader.toNat ≤ 12 by decide)

/-- So is the reply to a creation. -/
theorem isFor_makeCreateReply {request : TlvRequest} (h : request.type = .opCreateAccount) :
    (makeCreateReply request.value.header.accountId).IsFor request where
  type := h.symm
  accountId := rfl
  length := (show sizeofRepHeader.toNat ≤ 12 by decide)

/-- So is the reply to a shutdown. -/
theorem isFor_makeShutdownReply {request : TlvRequest} (h : request.type = .opShutdown)
    (activeOffices : UInt32) :
    (makeShutdownReply request.value.header.accountId activeOffices).IsFor request where
  type := h.symm
  accountId := rfl
  length := (show (sizeofRepHeader + 4).toNat ≤ 12 by decide)

/-- So is the reply to an enquiry, if it is about the account of the request. -/
theorem isFor_makeBalanceReply {request : TlvRequest} {accountId : UInt32}
    (h : request.type = .opBalance) (hid : accountId = request.value.header.accountId)
    (balance : UInt32) : (makeBalanceReply accountId balance).IsFor request where
  type := h.symm
  accountId := hid
  length := (show (sizeofRepHeader + 4).toNat ≤ 12 by decide)

/-- So is the reply to a transfer, if it is about the account of the request. -/
theorem isFor_makeTransferReply {request : TlvRequest} {accountId : UInt32}
    (h : request.type = .opTransfer) (hid : accountId = request.value.header.accountId)
    (balance : UInt32) (retCode : RetCode) :
    (makeTransferReply accountId balance retCode).IsFor request where
  type := h.symm
  accountId := hid
  length := (show (sizeofRepHeader + 4).toNat ≤ 12 by decide)

/-- It is, unless the request has no known operation. -/
def TlvReply.Suits (reply : TlvReply) (request : TlvRequest) : Prop :=
  request.type ≠ .opMaxNumber → reply.IsFor request

/-- The calls of the system that are allowed. -/
def Errand.AllowsCall (setup : Setup) : Errand → SysCall → Prop
  | .ready, .newRequest => True
  | _, .newRequest => False
  | .blank _, .read fd m => fd = setup.serverFifoFD ∧ m = sizeofTypeLength
  | .headed memory, .read fd m => fd = setup.serverFifoFD ∧ m = (decodeWord memory 4).toNat
  | _, .read .. => False
  | .managing request, .fchmod fd => fd = setup.shutdownFD ∧ request.type = .opShutdown ∧
      request.value.header.accountId = adminAccountId
  | _, .fchmod _ => False
  | .sealed _, .close fd => fd = setup.shutdownFD
  | .missed _, .close fd => fd = -1
  | .written _ fd _, .close fd' => fd' = fd
  | _, .close _ => False
  | .managing request, .openFifo path | .creating request, .openFifo path =>
      path = getUserFifoPath request.value.header.pid
  | _, .openFifo _ => False
  | .holding request fd, .write fd' bytes => fd' = fd ∧
      ∃ reply : TlvReply, reply.Suits request ∧ bytes = replyBytes reply
  | _, .write .. => False
  | _, _ => True

/-- The operations that are allowed. -/
def Errand.Allows (setup : Setup) : Errand → ServerOp → Prop
  | x, .ext (.sys call) => x.AllowsCall setup call
  | .whole request, .ext (.queuePush request') => request' = request
  | _, .ext (.queuePush _) => False
  | x, .ext .queuePop => x = .idle
  | x, .ext (.mark (.handleCreate request)) => x = .managing request
  | .sent request bytes, .ext (.mark (.managed request' reply)) => request' = request ∧
      reply.Suits request ∧ bytes = replyBytes reply
  | .dropped request, .ext (.mark (.managed request' reply)) => request' = request ∧
      reply.Suits request
  | _, .ext (.mark (.managed ..)) => False
  | .hashless _, .ext .segfault => True
  | _, .ext .segfault => False
  | .unwritten .., .ext (.exit _) => True
  | _, .ext (.exit _) => False
  | _, _ => True

/-- What a read gives to the main thread. -/
def Errand.afterRead (x : Errand) (result : Option Bytes) : Errand :=
  match x, result with
  | .blank memory, some bytes => .headed (overlay memory 0 bytes)
  | .headed memory, some bytes =>
      if bytes.length = 0 then .finished
      else .whole (decodeRequest (overlay memory sizeofTypeLength bytes))
  | _, _ => .finished

/-- What opening a FIFO gives to an office. -/
def Errand.afterOpen (x : Errand) (fd : Int) : Errand :=
  match x with
  | .managing request | .creating request => if fd = -1 then .missed request else .holding request fd
  | x => x

/-- What writing a reply gives to an office. -/
def Errand.afterWrite (x : Errand) (bytes : Bytes) (result : Int) : Errand :=
  match x with
  | .holding request fd => if result = -1 then .unwritten request fd else .written request fd bytes
  | x => x

/-- What closing a descriptor leaves to an office. -/
def Errand.afterClose : Errand → Errand
  | .sealed request => .managing request
  | .missed request => .dropped request
  | .written request _ bytes => .sent request bytes
  | x => x

/-- What `generateHash` gives to an office. -/
def Errand.afterHash (x : Errand) (hash : Option Bytes) : Errand :=
  match x, hash with
  | .managing request, none => .hashless request
  | x, _ => x

/-- What `fchmod` gives to an office. -/
def Errand.afterFchmod : Errand → Errand
  | .managing request => .sealed request
  | x => x

/-- The state after a call of the system. -/
def Errand.nextCall (x : Errand) : (call : SysCall) → call.Res → Errand
  | .newRequest, memory => .blank memory
  | .read .., result => x.afterRead result
  | .openFifo _, fd => x.afterOpen fd
  | .write _ bytes, result => x.afterWrite bytes result
  | .close _, _ => x.afterClose
  | .fchmod _, _ => x.afterFchmod
  | .generateHash .., hash => x.afterHash hash
  | .generateSalt, _ | .usleep _, _ | .unassignedReply, _ | .logReply _, _ => x

/-- The state after an operation. -/
def Errand.next (x : Errand) : (o : ServerOp) → ServerRes o → Errand
  | .ext (.sys call), r => x.nextCall call r
  | .ext (.queuePush _), _ => .ready
  | .ext (.mark (.managed ..)), _ => .idle
  | .ext .queuePop, request => .managing request
  | .ext (.mark (.handleCreate request)), _ => .creating request
  | _, _ => x

/-- The request of an office that has opened its FIFO, with the number that the office has in hand. -/
def Errand.inHand : Errand → Option (TlvRequest × Int)
  | .holding request fd | .unwritten request fd | .written request fd _ => some (request, fd)
  | _ => none

/-- The request of an office. -/
def Errand.request : Errand → Option TlvRequest
  | .managing request | .hashless request | .creating request | .sealed request | .missed request
  | .holding request _ | .unwritten request _ | .written request _ _ | .sent request _
  | .dropped request => some request
  | _ => none

/-- What an office has written to its user. -/
def Errand.bytes : Errand → Option Bytes
  | .written _ _ bytes | .sent _ bytes => some bytes
  | _ => none

/-- An office has made the server's FIFO read-only, and has not closed it yet. -/
def Errand.isSealed : Errand → Bool
  | .sealed _ => true
  | _ => false

/-- It is an errand of the main thread. -/
def Errand.isReader : Errand → Bool
  | .ready | .blank _ | .headed _ | .whole _ | .finished => true
  | _ => false

/-- The monitor of a thread with a given first errand. -/
def errands (setup : Setup) (first : Errand) : Monitor ServerOp ServerRes Errand where
  start := first
  allows := Errand.Allows setup
  next := Errand.next

/-- The rules of errands, with what every thread may rely on. -/
abbrev errand (setup : Setup) : Protocol ServerOp ServerRes (Hold UInt32 Slot × Errand) :=
  (errands setup .idle).rules.protocol table identitySpec

variable {setup : Setup} {request : TlvRequest} {b : Hold UInt32 Slot} {x : Errand} {α : Type}
  {Q : α → Hold UInt32 Slot × Errand → Prop}

/-! ## Operations that no errand notices -/

/-- The operations that are always allowed and leave the errand as it is. -/
def Ext.isUnnoticed : Ext → Bool
  | .sys .generateSalt | .sys (.usleep _) | .sys .unassignedReply | .sys (.logReply _) => true
  | .semWait _ | .semPost _ | .lockQueueMutex | .unlockQueueMutex | .queueEmpty | .readActive _
  | .writeActive .. | .pthreadCancel _ | .pthreadJoin _ | .add .. | .sub ..
  | .mark (.handleBalance _) | .mark (.handleTransfer _) => true
  | _ => false

theorem allows_of_isUnnoticed (setup : Setup) (x : Errand) {e : Ext} (h : e.isUnnoticed = true) :
    x.Allows setup (.ext e) ∧ ∀ r : e.Res, x.next (.ext e) r = x := by
  cases e with
  | sys call => cases call <;> first | exact ⟨by cases x <;> trivial, fun _ => rfl⟩ | cases h
  | mark m => cases m <;> first | exact ⟨by cases x <;> trivial, fun _ => rfl⟩ | cases h
  | _ => first | exact ⟨by cases x <;> trivial, fun _ => rfl⟩ | cases h

/-- A call is allowed if it is allowed as a call. -/
theorem Errand.allows_call (setup : Setup) (x : Errand) (call : SysCall) :
    x.Allows setup (.ext (.sys call)) ↔ x.AllowsCall setup call := by
  cases x <;> exact Iff.rfl

/-- What an allowed operation does to the errand of its thread. -/
inductive ErrandStep (setup : Setup) : Errand → (o : ServerOp) → ServerRes o → Errand → Prop
  /-- An operation that no errand notices. -/
  | memory {x : Errand} {o : ServerOp} {r : ServerRes o} (h : ∀ e, o ≠ .ext e) :
      ErrandStep setup x o r x
  | unnoticed {x : Errand} {e : Ext} {r : e.Res} (h : e.isUnnoticed = true) :
      ErrandStep setup x (.ext e) r x
  | hashed {x : Errand} {password salt : Bytes} {hash : Option Bytes} (h : x.afterHash hash = x) :
      ErrandStep setup x (.ext (.sys (.generateHash password salt))) hash x
  | hashless {q : TlvRequest} {password salt : Bytes} :
      ErrandStep setup (.managing q) (.ext (.sys (.generateHash password salt)))
        (none : Option Bytes) (.hashless q)
  | blank {memory : Bytes} :
      ErrandStep setup .ready (.ext (.sys .newRequest)) memory (.blank memory)
  | headed {memory bytes : Bytes} :
      ErrandStep setup (.blank memory) (.ext (.sys (.read setup.serverFifoFD sizeofTypeLength)))
        (some bytes) (.headed (overlay memory 0 bytes))
  | whole {memory bytes : Bytes} (h : bytes ≠ []) :
      ErrandStep setup (.headed memory)
        (.ext (.sys (.read setup.serverFifoFD (decodeWord memory 4).toNat))) (some bytes)
        (.whole (decodeRequest (overlay memory sizeofTypeLength bytes)))
  | ended {memory : Bytes} :
      ErrandStep setup (.headed memory)
        (.ext (.sys (.read setup.serverFifoFD (decodeWord memory 4).toNat))) (some []) .finished
  | failed {x : Errand} {m : ℕ} (h : (∃ memory, x = .blank memory ∧ m = sizeofTypeLength) ∨
        ∃ memory, x = .headed memory ∧ m = (decodeWord memory 4).toNat) :
      ErrandStep setup x (.ext (.sys (.read setup.serverFifoFD m))) none .finished
  | push {q : TlvRequest} : ErrandStep setup (.whole q) (.ext (.queuePush q)) () .ready
  | pop {q : TlvRequest} : ErrandStep setup .idle (.ext .queuePop) q (.managing q)
  | create {q : TlvRequest} :
      ErrandStep setup (.managing q) (.ext (.mark (.handleCreate q))) () (.creating q)
  | sealed {q : TlvRequest} (type : q.type = .opShutdown)
      (admin : q.value.header.accountId = adminAccountId) :
      ErrandStep setup (.managing q) (.ext (.sys (.fchmod setup.shutdownFD))) () (.sealed q)
  | unsealed {q : TlvRequest} :
      ErrandStep setup (.sealed q) (.ext (.sys (.close setup.shutdownFD))) () (.managing q)
  | missed {x : Errand} {q : TlvRequest} (h : x = .managing q ∨ x = .creating q) :
      ErrandStep setup x (.ext (.sys (.openFifo (getUserFifoPath q.value.header.pid)))) (-1 : Int)
        (.missed q)
  | holding {x : Errand} {q : TlvRequest} {fd : Int} (h : x = .managing q ∨ x = .creating q)
      (hfd : fd ≠ -1) :
      ErrandStep setup x (.ext (.sys (.openFifo (getUserFifoPath q.value.header.pid)))) fd
        (.holding q fd)
  | dropped {q : TlvRequest} :
      ErrandStep setup (.missed q) (.ext (.sys (.close (-1)))) () (.dropped q)
  | unwritten {q : TlvRequest} {fd : Int} {reply : TlvReply} (suits : reply.Suits q) :
      ErrandStep setup (.holding q fd) (.ext (.sys (.write fd (replyBytes reply)))) (-1 : Int)
        (.unwritten q fd)
  | written {q : TlvRequest} {fd result : Int} {reply : TlvReply} (suits : reply.Suits q)
      (h : result ≠ -1) :
      ErrandStep setup (.holding q fd) (.ext (.sys (.write fd (replyBytes reply)))) result
        (.written q fd (replyBytes reply))
  | sent {q : TlvRequest} {fd : Int} {bytes : Bytes} :
      ErrandStep setup (.written q fd bytes) (.ext (.sys (.close fd))) () (.sent q bytes)
  | done {q : TlvRequest} {reply : TlvReply} (suits : reply.Suits q) :
      ErrandStep setup (.sent q (replyBytes reply)) (.ext (.mark (.managed q reply))) () .idle
  | lost {q : TlvRequest} {reply : TlvReply} (suits : reply.Suits q) :
      ErrandStep setup (.dropped q) (.ext (.mark (.managed q reply))) () .idle

/-- Opening a FIFO is one of these steps. -/
theorem errandStep_openFifo {x : Errand} {path : Bytes} (h : x.AllowsCall setup (.openFifo path))
    (fd : Int) : ErrandStep setup x (.ext (.sys (.openFifo path))) fd (x.afterOpen fd) := by
  have hopen : ∀ q, x = .managing q ∨ x = .creating q → path = getUserFifoPath q.value.header.pid →
      ErrandStep setup x (.ext (.sys (.openFifo path))) fd (x.afterOpen fd) := by
    rintro q hx rfl
    have hnext : x.afterOpen fd = if fd = -1 then .missed q else .holding q fd := by
      rcases hx with rfl | rfl <;> rfl
    rw [hnext]
    split
    · next hfd =>
        subst hfd
        exact .missed hx
    · next hfd => exact .holding hx hfd
  cases x with
  | managing q => exact hopen q (.inl rfl) h
  | creating q => exact hopen q (.inr rfl) h
  | _ => exact h.elim

/-- Writing a reply is one of them. -/
theorem errandStep_write {x : Errand} {fd : Int} {bytes : Bytes}
    (h : x.AllowsCall setup (.write fd bytes)) (result : Int) :
    ErrandStep setup x (.ext (.sys (.write fd bytes))) result (x.afterWrite bytes result) := by
  cases x with
  | holding q fd =>
      obtain ⟨rfl, reply, hsuits, rfl⟩ := h
      show ErrandStep setup _ _ _ (if result = -1 then _ else _)
      split
      · next hr =>
          subst hr
          exact .unwritten hsuits
      · next hr => exact .written hsuits hr
  | _ => exact h.elim

/-- An allowed call is one of them. -/
theorem errandStep_call {x : Errand} {call : SysCall} (h : x.AllowsCall setup call) (r : call.Res) :
    ErrandStep setup x (.ext (.sys call)) r (x.nextCall call r) := by
  cases call with
  | newRequest => cases x <;> first | exact h.elim | exact .blank
  | read fd m =>
      cases x with
      | blank memory =>
          obtain ⟨rfl, rfl⟩ := h
          cases r with
          | none => exact .failed (.inl ⟨memory, rfl, rfl⟩)
          | some bytes => exact .headed
      | headed memory =>
          obtain ⟨rfl, rfl⟩ := h
          cases r with
          | none => exact .failed (.inr ⟨memory, rfl, rfl⟩)
          | some bytes =>
              cases bytes with
              -- 0 bytes: the loop of `readRequests` breaks
              | nil => exact .ended
              | cons b bytes => exact .whole nofun
      | _ => exact h.elim
  | openFifo path => exact errandStep_openFifo h r
  | write fd bytes => exact errandStep_write h r
  | close fd =>
      cases x with
      | «sealed» q => obtain rfl := h; exact .unsealed
      | missed q => obtain rfl := h; exact .dropped
      | written q fd bytes => obtain rfl := h; exact .sent
      | _ => exact h.elim
  | fchmod fd =>
      cases x with
      | managing q =>
          obtain ⟨rfl, htype, hadmin⟩ := h
          exact .sealed htype hadmin
      | _ => exact h.elim
  | generateHash password salt =>
      cases x with
      | managing q =>
          cases r with
          | none => exact .hashless
          | some hash => exact .hashed rfl
      | _ => exact .hashed rfl
  | _ => exact .unnoticed rfl

/-- **What errands do.** An allowed operation moves the errand by one of these steps. -/
theorem errandStep_next {x : Errand} {o : ServerOp} (h : x.Allows setup o) (r : ServerRes o) :
    ErrandStep setup x o r (x.next o r) := by
  cases o with
  | ext e =>
      cases e with
      | sys call => exact errandStep_call ((Errand.allows_call setup x call).mp h) r
      | queuePush q => cases x <;> first | exact h.elim | (obtain rfl := h; exact .push)
      | queuePop => cases x <;> first | exact .pop | cases h
      -- these do not return
      | segfault | exit => exact (nomatch r)
      | mark m =>
          cases m with
          | handleCreate q => cases x <;> cases h; exact .create
          | managed q reply =>
              cases x with
              | sent q' bytes =>
                  obtain ⟨rfl, hsuits, rfl⟩ := h
                  exact .done hsuits
              | dropped q' =>
                  obtain ⟨rfl, hsuits⟩ := h
                  exact .lost hsuits
              | _ => exact h.elim
          | _ => exact .unnoticed rfl
      | _ => exact .unnoticed rfl
  | _ => exact .memory (by simp)

section ErrandStep

variable {x' : Errand} {fd : Int}

/-- Opening a FIFO. -/
theorem ErrandStep.of_openFifo {path : Bytes}
    (h : ErrandStep setup x (.ext (.sys (.openFifo path))) fd x') :
    ∃ q, (x = .managing q ∨ x = .creating q) ∧ path = getUserFifoPath q.value.header.pid ∧
      (fd = -1 ∧ x' = .missed q ∨ fd ≠ -1 ∧ x' = .holding q fd) := by
  cases h with
  | memory hm => exact absurd rfl (hm _)
  | unnoticed hn => cases hn
  | missed hx => exact ⟨_, hx, rfl, .inl ⟨rfl, rfl⟩⟩
  | holding hx hfd => exact ⟨_, hx, rfl, .inr ⟨hfd, rfl⟩⟩

/-- Writing a reply. -/
theorem ErrandStep.of_write {bytes : Bytes} {result : Int}
    (h : ErrandStep setup x (.ext (.sys (.write fd bytes))) result x') :
    ∃ q reply, x = .holding q fd ∧ reply.Suits q ∧ bytes = replyBytes reply ∧
      (result = -1 ∧ x' = .unwritten q fd ∨ result ≠ -1 ∧ x' = .written q fd bytes) := by
  cases h with
  | memory hm => exact absurd rfl (hm _)
  | unnoticed hn => cases hn
  | unwritten hsuits => exact ⟨_, _, rfl, hsuits, rfl, .inl ⟨rfl, rfl⟩⟩
  | written hsuits hr => exact ⟨_, _, rfl, hsuits, rfl, .inr ⟨hr, rfl⟩⟩

/-- Closing a descriptor. -/
theorem ErrandStep.of_close {r : Unit} (h : ErrandStep setup x (.ext (.sys (.close fd))) r x') :
    (∃ q, x = .sealed q ∧ fd = setup.shutdownFD ∧ x' = .managing q) ∨
    (∃ q, x = .missed q ∧ fd = -1 ∧ x' = .dropped q) ∨
    (∃ q bytes, x = .written q fd bytes ∧ x' = .sent q bytes) := by
  cases h with
  | memory hm => exact absurd rfl (hm _)
  | unnoticed hn => cases hn
  | unsealed => exact .inl ⟨_, rfl, rfl, rfl⟩
  | dropped => exact .inr (.inl ⟨_, rfl, rfl, rfl⟩)
  | sent => exact .inr (.inr ⟨_, _, rfl, rfl⟩)

/-- Making the server's FIFO read-only. -/
theorem ErrandStep.of_fchmod {r : Unit} (h : ErrandStep setup x (.ext (.sys (.fchmod fd))) r x') :
    ∃ q, x = .managing q ∧ fd = setup.shutdownFD ∧ q.type = .opShutdown ∧
      q.value.header.accountId = adminAccountId ∧ x' = .sealed q := by
  cases h with
  | memory hm => exact absurd rfl (hm _)
  | unnoticed hn => cases hn
  | «sealed» htype hadmin => exact ⟨_, rfl, rfl, htype, hadmin, rfl⟩

/-- Reading from the server's FIFO. -/
theorem ErrandStep.of_read {m : ℕ} {r : Option Bytes}
    (h : ErrandStep setup x (.ext (.sys (.read fd m))) r x') :
    fd = setup.serverFifoFD ∧
      ((∃ memory, x = .blank memory ∧ m = sizeofTypeLength ∧
        (r = none ∨ ∃ bytes, r = some bytes ∧ x' = .headed (overlay memory 0 bytes))) ∨
      (∃ memory, x = .headed memory ∧ m = (decodeWord memory 4).toNat ∧
        (r = none ∨ r = some [] ∧ x' = .finished ∨ ∃ bytes, bytes ≠ [] ∧ r = some bytes ∧
          x' = .whole (decodeRequest (overlay memory sizeofTypeLength bytes))))) := by
  cases h with
  | memory hm => exact absurd rfl (hm _)
  | unnoticed hn => cases hn
  | headed => exact ⟨rfl, .inl ⟨_, rfl, rfl, .inr ⟨_, rfl, rfl⟩⟩⟩
  | whole hne => exact ⟨rfl, .inr ⟨_, rfl, rfl, .inr (.inr ⟨_, hne, rfl, rfl⟩)⟩⟩
  | ended => exact ⟨rfl, .inr ⟨_, rfl, rfl, .inr (.inl ⟨rfl, rfl⟩)⟩⟩
  | failed hx =>
      rcases hx with ⟨memory, rfl, rfl⟩ | ⟨memory, rfl, rfl⟩
      · exact ⟨rfl, .inl ⟨memory, rfl, rfl, .inl rfl⟩⟩
      · exact ⟨rfl, .inr ⟨memory, rfl, rfl, .inl rfl⟩⟩

/-- Putting a request into the queue. -/
theorem ErrandStep.of_queuePush {q : TlvRequest} {r : Unit}
    (h : ErrandStep setup x (.ext (.queuePush q)) r x') : x = .whole q ∧ x' = .ready := by
  cases h with
  | memory hm => exact absurd rfl (hm _)
  | unnoticed hn => cases hn
  | push => exact ⟨rfl, rfl⟩

variable {o : ServerOp} {r : ServerRes o}

/-- What an office has in hand changes when it opens or closes a descriptor. -/
theorem ErrandStep.inHand_eq (h : ErrandStep setup x o r x')
    (hopen : ∀ path, o ≠ .ext (.sys (.openFifo path)))
    (hclose : ∀ fd, o ≠ .ext (.sys (.close fd))) : x'.inHand = x.inHand := by
  cases h with
  | missed | holding => exact absurd rfl (hopen _)
  | unsealed | dropped | sent => exact absurd rfl (hclose _)
  | failed hx => rcases hx with ⟨memory, rfl, -⟩ | ⟨memory, rfl, -⟩ <;> rfl
  | _ => rfl

/-- An office goes on with its request until it has managed it, and takes a new one from the queue. -/
theorem ErrandStep.request_eq (h : ErrandStep setup x o r x') (hpop : o ≠ .ext .queuePop)
    (hmark : ∀ q reply, o ≠ .ext (.mark (.managed q reply))) : x'.request = x.request := by
  cases h with
  | pop => exact absurd rfl hpop
  | done | lost => exact absurd rfl (hmark _ _)
  | failed hx => rcases hx with ⟨memory, rfl, -⟩ | ⟨memory, rfl, -⟩ <;> rfl
  | missed hq | holding hq => rcases hq with rfl | rfl <;> rfl
  | _ => rfl

/-- An office has written to its user from the write until it has managed the request. -/
theorem ErrandStep.bytes_eq (h : ErrandStep setup x o r x')
    (hmark : ∀ q reply, o ≠ .ext (.mark (.managed q reply)))
    (hwrite : ∀ fd bytes, o ≠ .ext (.sys (.write fd bytes))) : x'.bytes = x.bytes := by
  cases h with
  | done | lost => exact absurd rfl (hmark _ _)
  | written | unwritten => exact absurd rfl (hwrite _ _)
  | failed hx => rcases hx with ⟨memory, rfl, -⟩ | ⟨memory, rfl, -⟩ <;> rfl
  | missed hq | holding hq => rcases hq with rfl | rfl <;> rfl
  | _ => rfl

/-- Taking a request. -/
theorem ErrandStep.of_queuePop {q : TlvRequest} (h : ErrandStep setup x (.ext .queuePop) q x') :
    x = .idle ∧ x' = .managing q := by
  cases h with
  | memory hm => exact absurd rfl (hm _)
  | unnoticed hn => cases hn
  | pop => exact ⟨rfl, rfl⟩

/-- Having managed a request: the reply has been sent, or given up. -/
theorem ErrandStep.of_managed {q : TlvRequest} {reply : TlvReply} {r : Unit}
    (h : ErrandStep setup x (.ext (.mark (.managed q reply))) r x') :
    reply.Suits q ∧ (x = .sent q (replyBytes reply) ∨ x = .dropped q) ∧ x' = .idle := by
  cases h with
  | memory hm => exact absurd rfl (hm _)
  | unnoticed hn => cases hn
  | done hsuits => exact ⟨hsuits, .inl rfl, rfl⟩
  | lost hsuits => exact ⟨hsuits, .inr rfl, rfl⟩

/-- After the end of the FIFO the main thread puts nothing into the queue. -/
theorem ErrandStep.of_finished (h : ErrandStep setup .finished o r x') :
    x' = .finished ∧ ∀ q, o ≠ .ext (.queuePush q) := by
  cases h with
  | memory hm => exact ⟨rfl, fun q => hm _⟩
  | unnoticed hn =>
      refine ⟨rfl, ?_⟩
      rintro q ⟨⟩
      cases hn
  | hashed => exact ⟨rfl, nofun⟩
  | failed hx => rcases hx with ⟨memory, hx, -⟩ | ⟨memory, hx, -⟩ <;> cases hx
  | missed hx | holding hx => rcases hx with hx | hx <;> cases hx

/-- The main thread stays the one that reads, and the offices those that do not. -/
theorem ErrandStep.isReader (h : ErrandStep setup x o r x') : x'.isReader = x.isReader := by
  cases h with
  | failed hx => rcases hx with ⟨memory, rfl, -⟩ | ⟨memory, rfl, -⟩ <;> rfl
  | missed hx | holding hx => rcases hx with rfl | rfl <;> rfl
  | _ => rfl

/-- The FIFO is made read-only by `fchmod`. -/
theorem ErrandStep.isSealed (h : ErrandStep setup x o r x') (hx : x'.isSealed = true)
    (ho : ∀ fd, o ≠ .ext (.sys (.fchmod fd))) : x.isSealed = true := by
  cases h <;> first | exact absurd rfl (ho _) | exact hx | cases hx

end ErrandStep

/-- Accesses are always allowed. -/
theorem allows_access (setup : Setup) (x : Errand) (a : TableOp) : x.Allows setup (.access a) := by
  cases x <;> trivial

/-- One of them. -/
theorem wp_errand_unnoticed {e : Ext} {k : e.Res → Server α} (h : e.isUnnoticed = true)
    (hk : ∀ r, (k r).wp (errand setup) Q (b, x)) :
    (ext e >>= k).wp (errand setup) Q (b, x) := by
  obtain ⟨hallows, hnext⟩ := allows_of_isUnnoticed setup x h
  refine Monitor.wp_ext hallows ?_
  intro r
  show (k r).wp (errand setup) Q (b, x.next (.ext e) r)
  rw [hnext]
  exact hk r

/-- An operation that the errand notices. -/
theorem wp_errand_ext {e : Ext} {k : e.Res → Server α} (h : x.Allows setup (.ext e))
    (hk : ∀ r, (k r).wp (errand setup) Q (b, x.next (.ext e) r)) :
    (ext e >>= k).wp (errand setup) Q (b, x) := Monitor.wp_ext h hk

/-- A program of operations that no errand notices. -/
theorem wp_errand_within {A : TableOp → Prop} {F : Ext → Prop} {p : Server α} (hp : p.Within A F)
    (hA : ∀ a, ¬ A a) (hF : ∀ e, F e → e.isUnnoticed = true) (hQ : ∀ a, Q a (b, x)) :
    p.wp (errand setup) Q (b, x) := by
  refine Monitor.wp_within (J := (· = b)) hp (fun a _ ha => absurd ha (hA a))
    (fun a ha => absurd ha (hA a)) (fun e he => allows_of_isUnnoticed setup x (hF e he)) rfl ?_
  intro a b' hb
  rw [hb]
  exact hQ a

/-! ## Held accounts -/

/-- A thread holds exactly the accounts `H`, they are sane, and `id` is among them and used. -/
structure Finds (H : Finset UInt32) (id : UInt32) (b : Hold UInt32 Slot) : Prop where
  held : b.held = H
  sane : Sane b
  mem : id ∈ H
  used : (b.cur id).used = true

variable {H : Finset UInt32} {id : UInt32}

/-- The account holds its own number. -/
theorem Finds.accountId (h : Finds H id b) : (b.cur id).account.accountId = id :=
  h.sane id (h.held ▸ h.mem) h.used

/-- An access that changes at most a balance. -/
theorem Finds.write {a : TableOp} (h : Finds H id b) (ha : a.isTransfer = true)
    (hloc : table.loc a ∈ H) :
    Finds H id (b.write (table.loc a) (table.run a (b.cur (table.loc a))).2) := by
  obtain ⟨-, hused, hid⟩ := TableOp.run_of_isTransfer ha (b.cur (table.loc a))
  refine ⟨h.held, h.sane.write fun hu => ?_, h.mem, ?_⟩
  · rw [hid]
    exact h.sane _ (h.held ▸ hloc) (hused ▸ hu)
  · rw [Hold.cur_write]
    by_cases hi : id = table.loc a
    · rw [hi, Function.update_self, hused, ← hi]
      exact h.used
    · rw [Function.update_of_ne hi]
      exact h.used

/-- Such an access, as a step of a program. -/
theorem wp_errand_access {a : TableOp} {k : a.Res → Server α} (ha : a.isTransfer = true)
    (h : Finds H id b) (hloc : table.loc a ∈ H)
    (hk : ∀ r b', Finds H id b' → (k r).wp (errand setup) Q (b', x)) :
    (access a >>= k).wp (errand setup) Q (b, x) :=
  ⟨allows_access setup x a, h.held ▸ hloc, (TableOp.run_of_isTransfer ha _).1, hk _ _ (h.write ha hloc)⟩

/-- Reading a field of a held account. -/
theorem wp_errand_read {a : TableOp} {k : a.Res → Server α} {r : a.Res} (ha : a.isRead = true)
    (hloc : table.loc a ∈ b.held) (hr : (table.run a (b.cur (table.loc a))).1 = r)
    (hk : (k r).wp (errand setup) Q (b, x)) : (access a >>= k).wp (errand setup) Q (b, x) := by
  have hb : b.write (table.loc a) (table.run a (b.cur (table.loc a))).2 = b := by
    rw [TableOp.run_of_isRead ha, Hold.write, Function.update_eq_self]
  refine ⟨allows_access setup x a, hloc, ?_, ?_⟩
  · rw [TableOp.run_of_isRead ha]
    exact identitySpec.refl _
  · show (k (table.run a (b.cur (table.loc a))).1).wp (errand setup) Q
      (b.write (table.loc a) (table.run a (b.cur (table.loc a))).2, x)
    rw [hb, hr]
    exact hk

/-- Looking up a held account. -/
theorem wp_errand_getAccount {f : Option UInt32 → Server α} (hid : id ∈ b.held)
    (hsome : (b.cur id).used = true → (f (some id)).wp (errand setup) Q (b, x))
    (hnone : (b.cur id).used = false → (f none).wp (errand setup) Q (b, x)) :
    (getAccount id >>= f).wp (errand setup) Q (b, x) := by
  rw [Prog.wp_bind]
  refine wp_errand_read rfl hid rfl ?_
  change ((if (b.cur id).used = true then return some id else return none : Server _)).wp _ _ _
  cases hused : (b.cur id).used with
  | true => exact hsome hused
  | false => exact hnone hused

/-! ## The login -/

/-- A login: it fails with a reply to the request, or the account exists. -/
theorem wp_errand_validateAccount {Q : Option TlvReply → Hold UInt32 Slot × Errand → Prop}
    (hid : request.value.header.accountId ∈ b.held)
    (hfail : ∀ reply : TlvReply, reply.IsFor request → Q (some reply) (b, .managing request))
    (hok : (b.cur request.value.header.accountId).used = true → Q none (b, .managing request)) :
    (validateAccount request).wp (errand setup) Q (b, .managing request) := by
  refine wp_errand_getAccount hid (fun hused => ?_) fun _ => hfail _ (isFor_makeErrorReply _ _)
  refine wp_errand_read rfl hid rfl (wp_errand_ext trivial ?_)
  intro hash
  cases hash with
  | none => exact ⟨trivial, fun r : Empty => r.elim⟩
  | some hash =>
      refine wp_errand_read rfl hid rfl ?_
      change (if hash ≠ (b.cur request.value.header.accountId).account.hash then _ else _ :
        Server (Option TlvReply)).wp _ _ _
      split
      · exact hfail _ (isFor_makeErrorReply _ _)
      · exact hok hused

/-- What a thread knows that has logged in: the account was used when it was released, and is used when
it is held. -/
structure Verified (request : TlvRequest) (b : Hold UInt32 Slot) : Prop where
  seen : ∃ slot, b.seen request.value.header.accountId = some slot ∧ slot.used = true
  cur : request.value.header.accountId ∈ b.held →
    (b.cur request.value.header.accountId).used = true

/-- It stays used when a lock is taken. -/
theorem Verified.lock {i : UInt32} {slot : Slot} (h : Verified request b)
    (hle : ∀ slot₀, b.seen i = some slot₀ → slot₀.Stable slot) : Verified request (b.lock i slot) := by
  refine ⟨h.seen, fun hmem => ?_⟩
  rw [Hold.cur_lock]
  by_cases hi : request.value.header.accountId = i
  · rw [hi, Function.update_self]
    obtain ⟨slot₀, hseen, hused⟩ := h.seen
    exact (hle slot₀ (hi ▸ hseen) hused).1
  · rw [Function.update_of_ne hi]
    exact h.cur ((Finset.mem_insert.mp hmem).resolve_left hi)

/-! ## The handlers -/

/-- What a handler leaves: the same accounts are held, and they are sane; the reply is one to the
request, and the office has still to send it. -/
structure Replies (request : TlvRequest) (H : Finset UInt32) (reply : TlvReply)
    (g : Hold UInt32 Slot × Errand) : Prop where
  held : g.1.held = H
  sane : Sane g.1
  isFor : reply.IsFor request
  errand : g.2 = .managing request ∨ g.2 = .creating request

/-- Filling in the record of an account that is not used yet. -/
theorem wp_errand_fill {a : TableOp} {k : a.Res → Server α} {slot slot' : Slot}
    (hloc : table.loc a = id) (hid : id ∈ b.held) (hcur : b.cur id = slot)
    (hrun : (table.run a slot).2 = slot') (hunused : slot.used = false)
    (hident : slot'.Identified id) (hb : Sane b)
    (hk : ∀ b', b'.held = b.held → b'.cur id = slot' → Sane b' →
      (k (table.run a slot).1).wp (errand setup) Q (b', x)) :
    (access a >>= k).wp (errand setup) Q (b, x) := by
  subst hloc hcur hrun
  refine ⟨allows_access setup x a, hid, ?_, ?_⟩
  · intro hu
    rw [hunused] at hu
    cases hu
  · exact hk _ rfl (Function.update_self ..) (hb.write hident)

/-- Creating an account that is not used: whether there is a hash or not, the accounts stay sane. -/
theorem wp_errand_createAccount {balance : UInt32} {password : Bytes} (hid : id ∈ b.held)
    (hunused : (b.cur id).used = false) (hb : Sane b) :
    (createAccount id balance password).wp (errand setup)
      (fun _ g => g.1.held = b.held ∧ Sane g.1 ∧ g.2 = .creating request) (b, .creating request) := by
  generalize hcur : b.cur id = slot at hunused
  obtain ⟨used, account⟩ := slot
  obtain rfl : used = false := hunused
  refine wp_errand_unnoticed rfl fun salt => wp_errand_ext trivial ?_
  intro hash
  cases hash with
  | none => exact ⟨rfl, hb, rfl⟩
  | some hash =>
      refine wp_errand_fill rfl hid hcur rfl rfl nofun hb fun b₁ hheld₁ hcur₁ hb₁ => ?_
      refine wp_errand_fill rfl (hheld₁ ▸ hid) hcur₁ rfl rfl nofun hb₁ fun b₂ hheld₂ hcur₂ hb₂ => ?_
      rw [hheld₁] at hheld₂
      refine wp_errand_fill rfl (hheld₂ ▸ hid) hcur₂ rfl rfl nofun hb₂ fun b₃ hheld₃ hcur₃ hb₃ => ?_
      rw [hheld₂] at hheld₃
      refine wp_errand_fill rfl (hheld₃ ▸ hid) hcur₃ rfl rfl nofun hb₃ fun b₄ hheld₄ hcur₄ hb₄ => ?_
      rw [hheld₃] at hheld₄
      exact wp_errand_fill rfl (hheld₄ ▸ hid) hcur₄ rfl rfl (fun _ => rfl) hb₄
        fun b₅ hheld₅ _ hb₅ => ⟨hheld₅.trans hheld₄, hb₅, rfl⟩

/-- Creating an account. -/
theorem wp_errand_handleCreate (htype : request.type = .opCreateAccount)
    (hid : request.value.create.accountId ∈ b.held) (hb : Sane b) :
    (handleCreateAccountRequest request).wp (errand setup) (Replies request b.held)
      (b, .managing request) := by
  refine wp_errand_ext rfl fun _ => ?_
  dsimp only
  split
  · exact ⟨rfl, hb, isFor_makeErrorReply _ _, .inr rfl⟩
  · refine wp_errand_getAccount hid (fun _ => ⟨rfl, hb, isFor_makeErrorReply _ _, .inr rfl⟩) ?_
    intro hunused
    refine Prog.wp_seq (wp_errand_createAccount hid hunused hb) fun _ g hg => ?_
    exact ⟨hg.1, hg.2.1, isFor_makeCreateReply htype, .inr hg.2.2⟩

/-- A balance enquiry finds the account. -/
theorem wp_errand_handleBalance (htype : request.type = .opBalance)
    (h : Finds H request.value.header.accountId b) :
    (handleBalanceRequest request).wp (errand setup) (Replies request H) (b, .managing request) := by
  have hid : request.value.header.accountId ∈ b.held := h.held ▸ h.mem
  refine wp_errand_unnoticed rfl fun _ => ?_
  split
  · refine wp_errand_getAccount hid (fun _ => ?_) ?_
    · refine wp_errand_read rfl hid rfl (wp_errand_read rfl hid rfl ?_)
      exact ⟨h.held, h.sane, isFor_makeBalanceReply htype h.accountId _, .inl rfl⟩
    · intro hunused
      rw [h.used] at hunused
      cases hunused
  · exact ⟨h.held, h.sane, isFor_makeErrorReply _ _, .inl rfl⟩

/-- The reply of a transfer. -/
theorem wp_errand_transferReply (htype : request.type = .opTransfer)
    (h : Finds H request.value.header.accountId b) (retCode : RetCode) :
    (transferReply request.value.header.accountId retCode).wp (errand setup) (Replies request H)
      (b, .managing request) := by
  have hid : request.value.header.accountId ∈ b.held := h.held ▸ h.mem
  refine wp_errand_read rfl hid rfl (wp_errand_read rfl hid rfl ?_)
  exact ⟨h.held, h.sane, isFor_makeTransferReply htype h.accountId _ _, .inl rfl⟩

/-- The tests on the balances, and the transfer. -/
theorem wp_errand_transferAmount {destAccount amount : UInt32} (htype : request.type = .opTransfer)
    (h : Finds H request.value.header.accountId b) (hdest : destAccount ∈ H) :
    (transferAmount request.value.header.accountId destAccount amount).wp (errand setup)
      (Replies request H) (b, .managing request) := by
  have hsrc := h.mem
  refine wp_errand_access rfl h hsrc fun (srcBalance : UInt32) b₁ h₁ => ?_
  split
  · exact wp_errand_transferReply htype h₁ _
  refine wp_errand_access rfl h₁ hdest fun (destBalance : UInt32) b₂ h₂ => ?_
  refine wp_errand_unnoticed rfl fun (sum : UInt32) => ?_
  split
  · exact wp_errand_transferReply htype h₂ _
  -- the debit, and the credit
  refine wp_errand_access rfl h₂ hsrc fun _ b₃ h₃ => wp_errand_unnoticed rfl fun _ => ?_
  refine wp_errand_access rfl h₃ hsrc fun _ b₄ h₄ => ?_
  refine wp_errand_access rfl h₄ hdest fun _ b₅ h₅ => wp_errand_unnoticed rfl fun _ => ?_
  exact wp_errand_access rfl h₅ hdest fun _ b₆ h₆ => wp_errand_transferReply htype h₆ _

/-- A transfer finds the source account. -/
theorem wp_errand_handleTransfer (htype : request.type = .opTransfer)
    (h : Finds H request.value.header.accountId b) (hdest : request.value.transfer.accountId ∈ H) :
    (handleTransferRequest request).wp (errand setup) (Replies request H) (b, .managing request) := by
  have hsrc : request.value.header.accountId ∈ b.held := h.held ▸ h.mem
  have hdest' : request.value.transfer.accountId ∈ b.held := h.held ▸ hdest
  have hreply : ∀ retCode, (transferReply request.value.header.accountId retCode).wp (errand setup)
      (Replies request H) (b, .managing request) := wp_errand_transferReply htype h
  refine wp_errand_unnoticed rfl fun _ => wp_errand_getAccount hsrc (fun _ => ?_) ?_
  · refine wp_errand_getAccount hdest' (fun _ => ?_) fun _ => ?_
    · refine wp_errand_read rfl hsrc rfl ?_
      split
      · exact hreply _
      refine wp_errand_read rfl hdest' rfl ?_
      split
      · exact hreply _
      refine wp_errand_read rfl hsrc rfl ?_
      split
      · exact hreply _
      · exact wp_errand_transferAmount htype h hdest
    · refine wp_errand_read rfl hsrc rfl ?_
      split <;> exact hreply _
  · intro hunused
    rw [h.used] at hunused
    cases hunused

/-- A shutdown. -/
theorem wp_errand_handleShutdown (htype : request.type = .opShutdown) (hb : Sane b) :
    (handleShutdownRequest setup request).wp (errand setup) (Replies request b.held)
      (b, .managing request) := by
  refine wp_errand_unnoticed rfl fun _ => ?_
  split
  · next hadmin =>
      refine wp_errand_ext ⟨rfl, htype, hadmin⟩ fun _ => wp_errand_ext rfl fun _ => ?_
      refine Prog.wp_seq (R := fun _ g => g = (b, .managing request)) ?_ ?_
      · exact wp_errand_within (A := fun _ => False) (within_countActive (fun _ => rfl) _ _)
          (fun _ ha => ha) (fun _ he => he) fun _ => rfl
      · rintro count g rfl
        exact ⟨rfl, hb, isFor_makeShutdownReply htype _, .inl rfl⟩
  · exact ⟨rfl, hb, isFor_makeErrorReply _ _, .inl rfl⟩

/-! ## Locks -/

/-- What the operation of a request leaves: nothing is locked, and there is a reply to send. -/
def HasReply (request : TlvRequest) (reply : TlvReply) (g : Hold UInt32 Slot × Errand) : Prop :=
  g.1.held = ∅ ∧ reply.Suits request ∧ (g.2 = .managing request ∨ g.2 = .creating request)

/-- Taking the lock of an account. -/
theorem wp_errand_lock {i : UInt32} {Q : Unit → Hold UInt32 Slot × Errand → Prop} (hi : i ∉ b.held)
    (hb : Sane b) (h : Verified request b)
    (hk : ∀ b', b'.held = insert i b.held → Sane b' → Verified request b' → Q () (b', x)) :
    (lockAccount i).wp (errand setup) Q (b, x) := by
  refine ⟨by cases x <;> trivial, hi, ?_⟩
  intro slot hslot hle
  exact hk _ rfl (hb.lock hslot) (h.lock hle)

/-- Releasing the lock of an account. -/
theorem wp_errand_unlock {i : UInt32} {Q : Unit → Hold UInt32 Slot × Errand → Prop} (hi : i ∈ b.held)
    (hb : Sane b) (hk : ∀ b', b'.held = b.held.erase i → Sane b' → Q () (b', x)) :
    (unlockAccount i).wp (errand setup) Q (b, x) :=
  ⟨by cases x <;> trivial, hi, hb i hi, hk _ rfl fun j hj => hb j (Finset.mem_of_mem_erase hj)⟩

/-- A delay. -/
theorem wp_errand_opDelay {delayMS : UInt32} {Q : Unit → Hold UInt32 Slot × Errand → Prop}
    (hQ : Q () (b, x)) : (opDelay delayMS).wp (errand setup) Q (b, x) :=
  wp_errand_unnoticed (k := .ret) rfl fun _ => hQ

/-- A request that needs one account locked. -/
theorem wp_errand_single {delayMS : UInt32} {handler : Server TlvReply} (hheld : b.held = ∅)
    (h : Verified request b)
    (hh : ∀ b' : Hold UInt32 Slot, b'.held = {id} → Sane b' → Verified request b' →
      handler.wp (errand setup) (Replies request b'.held) (b', .managing request)) :
    (do getSingleAccountAccess id delayMS
        let reply ← handler
        unlockAccount id
        return reply : Server TlvReply).wp (errand setup) (HasReply request)
      (b, .managing request) := by
  simp only [Prog.wp_bind, getSingleAccountAccess]
  refine wp_errand_lock (by simp [hheld]) (sane_of_empty hheld) h fun b₁ hheld₁ hb₁ h₁ => ?_
  have hsingle : b₁.held = {id} := by simp [hheld₁, hheld]
  refine wp_errand_opDelay (Prog.wp_mono ?_ (hh b₁ hsingle hb₁ h₁))
  rintro reply ⟨b₂, x₂⟩ ⟨hheld₂, hb₂, hreply, hx₂⟩
  have hheld₂ : b₂.held = {id} := hheld₂.trans hsingle
  refine wp_errand_unlock (by simp [hheld₂]) hb₂ fun b₃ hheld₃ _ => ⟨?_, fun _ => hreply, hx₂⟩
  rw [hheld₃, hheld₂, Finset.erase_singleton]

/-- A transfer: both accounts are locked, the smaller one first, or the one account once. -/
theorem wp_errand_double {id1 id2 delayMS : UInt32} {handler : Server TlvReply} (hheld : b.held = ∅)
    (h : Verified request b)
    (hh : ∀ b' : Hold UInt32 Slot, b'.held = {id1, id2} → Sane b' → Verified request b' →
      handler.wp (errand setup) (Replies request b'.held) (b', .managing request)) :
    (do getDoubleAccountAccess id1 id2 delayMS
        let reply ← handler
        unlockDoubleAccount id1 id2
        return reply : Server TlvReply).wp (errand setup) (HasReply request)
      (b, .managing request) := by
  by_cases heq : id1 = id2
  · subst heq
    rw [getDoubleAccountAccess, unlockDoubleAccount, if_pos rfl, if_pos rfl]
    exact wp_errand_single hheld h fun b' hb' => hh b' (by simp [hb'])
  obtain ⟨first, second, hlt, hids, hget, hput⟩ := getDoubleAccountAccess_of_ne heq delayMS
  have hne : first ≠ second := fun he => absurd hlt (by simp [he])
  have hpair : ({id1, id2} : Finset UInt32) = {second, first} := by
    rcases hids with ⟨rfl, rfl⟩ | ⟨rfl, rfl⟩
    · exact Finset.pair_comm _ _
    · rfl
  simp only [hget, hput, Prog.wp_bind]
  refine wp_errand_lock (by simp [hheld]) (sane_of_empty hheld) h fun b₁ hheld₁ hb₁ h₁ => ?_
  refine wp_errand_opDelay ?_
  refine wp_errand_lock (by simp [hheld₁, hheld, hne.symm]) hb₁ h₁ fun b₂ hheld₂ hb₂ h₂ => ?_
  have hboth : b₂.held = {second, first} := by simp [hheld₂, hheld₁, hheld]
  refine wp_errand_opDelay (Prog.wp_mono ?_ (hh b₂ (hboth.trans hpair.symm) hb₂ h₂))
  rintro reply ⟨b₃, x₃⟩ ⟨hheld₃, hb₃, hreply, hx₃⟩
  have hheld₃ : b₃.held = {second, first} := hheld₃.trans hboth
  refine wp_errand_unlock (by simp [hheld₃]) hb₃ fun b₄ hheld₄ hb₄ => ?_
  rw [hheld₃, Finset.erase_insert (by simp [hne.symm])] at hheld₄
  refine wp_errand_unlock (by simp [hheld₄]) hb₄ fun b₅ hheld₅ _ => ⟨?_, fun _ => hreply, hx₃⟩
  rw [hheld₅, hheld₄, Finset.erase_singleton]

/-! ## An office -/

/-- The operation of a request whose account is valid. -/
theorem wp_errand_performRequest (hheld : b.held = ∅) (h : Verified request b) :
    (performRequest setup request).wp (errand setup) (HasReply request) (b, .managing request) := by
  unfold performRequest
  cases htype : request.type with
  | opCreateAccount =>
      apply wp_errand_single hheld h
      intro b' hb' hsane _
      exact wp_errand_handleCreate htype (by simp [hb']) hsane
  | opBalance =>
      apply wp_errand_single hheld h
      intro b' hb' hsane h'
      have hmem : request.value.header.accountId ∈ b'.held := by simp [hb']
      exact wp_errand_handleBalance htype ⟨rfl, hsane, hmem, h'.cur hmem⟩
  | opTransfer =>
      apply wp_errand_double hheld h
      intro b' hb' hsane h'
      have hmem : request.value.header.accountId ∈ b'.held := by simp [hb']
      exact wp_errand_handleTransfer htype ⟨rfl, hsane, hmem, h'.cur hmem⟩ (by simp [hb'])
  | opShutdown =>
      refine Prog.wp_mono ?_ (wp_errand_handleShutdown htype (sane_of_empty hheld))
      rintro reply ⟨b', x'⟩ hg
      exact ⟨hg.held.trans hheld, fun _ => hg.isFor, hg.errand⟩
  | opMaxNumber =>
      refine wp_errand_unnoticed (k := .ret) rfl fun reply => ⟨hheld, ?_, .inl rfl⟩
      intro hne
      exact absurd htype hne

/-- The errand of an office that is done with a request. -/
def Errand.Done (request : TlvRequest) (reply : TlvReply) (x : Errand) : Prop :=
  x = .sent request (replyBytes reply) ∨ x = .dropped request

/-- Sending a reply to the request: it is written into the user's FIFO once, or given up. -/
theorem wp_errand_sendReply {reply : TlvReply} (h : HasReply request reply (b, x)) :
    (sendReply reply (getUserFifoPath request.value.header.pid)).wp (errand setup)
      (fun _ g => g.1.held = ∅ ∧ g.2.Done request reply) (b, x) := by
  obtain ⟨hheld, hreply, hx⟩ := h
  have hallows : x.Allows setup
      (.ext (.sys (.openFifo (getUserFifoPath request.value.header.pid)))) := by
    rcases hx with rfl | rfl <;> exact rfl
  refine wp_errand_ext hallows fun (fd : Int) => ?_
  have hnext : x.afterOpen fd = if fd = -1 then .missed request else .holding request fd := by
    rcases hx with rfl | rfl <;> rfl
  show (if fd = -1 then _ else _ : Server Unit).wp (errand setup) _ (b, x.afterOpen fd)
  rw [hnext]
  split
  · next hfd =>
      refine wp_errand_ext hfd fun _ => ?_
      exact wp_errand_unnoticed (k := .ret) rfl fun _ => ⟨hheld, .inr rfl⟩
  · refine wp_errand_ext ⟨rfl, reply, hreply, rfl⟩ fun (result : Int) => ?_
    show (if result = -1 then _ else _ : Server Unit).wp (errand setup) _
      (b, if result = -1 then .unwritten request fd else .written request fd (replyBytes reply))
    split
    · exact ⟨trivial, fun r : Empty => r.elim⟩
    · refine wp_errand_ext rfl fun _ => ?_
      exact wp_errand_unnoticed (k := .ret) rfl fun _ => ⟨hheld, .inl rfl⟩

/-- `manageRequest` sends one reply to the request. -/
theorem wp_errand_manageRequest (hheld : b.held = ∅) :
    (manageRequest setup request).wp (errand setup)
      (fun reply g => g.1.held = ∅ ∧ reply.Suits request ∧ g.2.Done request reply)
      (b, .managing request) := by
  have hsend : ∀ reply g, HasReply request reply g →
      (do sendReply reply (getUserFifoPath request.value.header.pid)
          return reply : Server TlvReply).wp (errand setup)
        (fun reply g => g.1.held = ∅ ∧ reply.Suits request ∧ g.2.Done request reply) g := by
    rintro reply ⟨b', x'⟩ hg
    refine Prog.wp_seq (wp_errand_sendReply hg) ?_
    rintro _ g' ⟨hheld', hdone⟩
    exact ⟨hheld', hg.2.1, hdone⟩
  simp only [manageRequest, Prog.wp_bind]
  refine ⟨trivial, by simp [hheld], fun slot hslot _ => ?_⟩
  have hb₁ : Sane (b.lock request.value.header.accountId slot) :=
    (sane_of_empty hheld).lock hslot
  have hid : request.value.header.accountId ∈ (b.lock request.value.header.accountId slot).held :=
    Finset.mem_insert_self ..
  refine wp_errand_validateAccount hid (fun reply hreply => ?_) fun hused => ?_
  · refine ⟨trivial, hid, hb₁ _ hid, hsend reply _ ⟨?_, fun _ => hreply, .inl rfl⟩⟩
    simp [hheld]
  · refine ⟨trivial, hid, hb₁ _ hid, ?_⟩
    refine Prog.wp_seq (wp_errand_performRequest (by simp [hheld]) ⟨⟨_, ?_, hused⟩, ?_⟩) hsend
    · rw [Hold.seen_unlock, Function.update_self]
    · simp [hheld]

/-- A round of an office. -/
theorem wp_errand_bankOfficeRound {office : ℕ} (hheld : b.held = ∅) :
    (bankOfficeRound setup office).wp (errand setup) (fun _ g => g.1.held = ∅ ∧ g.2 = .idle)
      (b, .idle) := by
  refine wp_errand_unnoticed rfl fun _ => wp_errand_unnoticed rfl fun _ =>
    wp_errand_unnoticed rfl fun _ => ?_
  refine wp_errand_ext rfl fun request => ?_
  refine wp_errand_unnoticed rfl fun _ => wp_errand_unnoticed rfl fun _ => ?_
  refine Prog.wp_seq (wp_errand_manageRequest hheld) ?_
  rintro reply ⟨b', x'⟩ ⟨hheld', hreply, hdone⟩
  have hallows : x'.Allows setup (.ext (.mark (.managed request reply))) := by
    rcases hdone with rfl | rfl
    · exact ⟨rfl, hreply, rfl⟩
    · exact ⟨rfl, hreply⟩
  refine wp_errand_ext hallows fun _ => ?_
  exact wp_errand_unnoticed (k := .ret) rfl fun _ => ⟨hheld', rfl⟩

/-! ## The main thread -/

/-- Reading a request: what the two reads have put together goes into the queue. -/
theorem wp_errand_readRequestsRound :
    (readRequestsRound setup).wp (errand setup)
      (fun more g => g.1.held = b.held ∧ g.2 = if more then .ready else .finished) (b, .ready) := by
  refine wp_errand_ext trivial fun (memory : Bytes) => ?_
  refine wp_errand_ext ⟨rfl, rfl⟩ fun (bytes : Option Bytes) => ?_
  cases bytes with
  | none => exact ⟨rfl, rfl⟩
  | some bytes =>
      refine wp_errand_ext ⟨rfl, rfl⟩ fun (value : Option Bytes) => ?_
      cases value with
      | none => exact ⟨rfl, rfl⟩
      | some value =>
          show (if value.length = 0 then _ else _ : Server Bool).wp (errand setup) _
            (b, if value.length = 0 then .finished else .whole (decodeRequest
              (overlay (overlay memory 0 bytes) sizeofTypeLength value)))
          split
          · exact ⟨rfl, rfl⟩
          · refine wp_errand_unnoticed rfl fun _ => wp_errand_unnoticed rfl fun _ => ?_
            refine wp_errand_ext rfl fun _ => wp_errand_unnoticed rfl fun _ => ?_
            exact wp_errand_unnoticed (k := fun _ => .ret true) rfl fun _ => ⟨rfl, rfl⟩

/-! ## The threads -/

/-- What a thread guarantees between two programs: it holds no account; an office has nothing in hand,
and the main thread is over once it has left the loop of `readRequests`. -/
def Rested {n : ℕ} (t : Thread n) (ctl : Ctl) (g : Hold UInt32 Slot × Errand) : Prop :=
  ctl = .ended ∨ g.1.held = ∅ ∧ match t with
    | .main => g.2 = if ctl = .read then .ready else .finished
    | .office _ => g.2 = .idle

/-- The main thread keeps to its errand. -/
theorem wp_errand_mainBody {n : ℕ} {ctl : Ctl} (h : Rested (.main : Thread n) ctl (b, x)) :
    (mainBody setup ctl).wp (errand setup) (Rested (.main : Thread n)) (b, x) := by
  rcases h with rfl | ⟨hheld, hx⟩
  · exact .inl rfl
  have hx : x = if ctl = .read then .ready else .finished := hx
  have hheld : b.held = ∅ := hheld
  have hover : ∀ ctl', ctl' ≠ .read → x = .finished → Rested (.main : Thread n) ctl' (b, x) :=
    fun ctl' hne hx => .inr ⟨hheld, hx.trans (if_neg hne).symm⟩
  cases ctl with
  | read =>
      subst hx
      refine Prog.wp_seq wp_errand_readRequestsRound ?_
      rintro more ⟨b', x'⟩ ⟨hheld', hx'⟩
      refine .inr ⟨hheld'.trans hheld, ?_⟩
      cases more with
      | true => exact hx'
      | false => exact hx'
  | waitEmpty =>
      refine wp_errand_unnoticed rfl fun _ => wp_errand_unnoticed rfl fun (queueEmpty : Bool) => ?_
      refine wp_errand_unnoticed rfl fun _ => hover _ ?_ hx
      cases queueEmpty <;> decide
  | waitIdle =>
      refine Prog.wp_seq (R := fun _ g => g = (b, x)) ?_ ?_
      · exact wp_errand_within (A := fun _ => False) (within_countActive (fun _ => rfl) _ _)
          (fun _ ha => ha) (fun _ he => he) fun _ => rfl
      · rintro count g rfl
        refine hover _ ?_ hx
        split <;> decide
  | destroy i =>
      rw [mainBody]
      split
      · exact wp_errand_unnoticed rfl fun _ => wp_errand_unnoticed rfl fun _ => hover _ (Ctl.noConfusion) hx
      · exact .inl rfl
  | _ => exact .inl rfl

/-- So does an office. -/
theorem wp_errand_officeBody {n : ℕ} {i : Fin n} {ctl : Ctl} (h : Rested (.office i) ctl (b, x)) :
    (officeBody setup i ctl).wp (errand setup) (Rested (.office i)) (b, x) := by
  rcases h with rfl | ⟨hheld, hx⟩
  · exact .inl rfl
  obtain rfl : x = .idle := hx
  cases ctl with
  | start => exact wp_errand_unnoticed rfl fun _ => .inr ⟨hheld, rfl⟩
  | serve => exact Prog.wp_seq (wp_errand_bankOfficeRound hheld) fun _ g hg => .inr hg
  | _ => exact .inl rfl

/-! ## Runs -/

section Runs

variable {n : ℕ} {W : World (Thread n)} {serverFifoFD shutdownFD : Int}
  {tr : List (ServerEvent n W)} {s s' : ServerState n W}
  {c : Config (Thread n) ServerOp ServerRes (ServerState n W) Ctl} {t : Thread n}

/-- The first errand of a thread. -/
def Thread.firstErrand : Thread n → Errand
  | .main => .ready
  | .office _ => .idle

/-- The errand of a thread, after the operations of a run. -/
def errandOf (setup : Setup) (t : Thread n) (tr : List (ServerEvent n W)) : Errand :=
  (errands setup t.firstErrand).after t tr

/-- The monitors show the errands, and what the threads know of the accounts is true. -/
structure ErrandInv (setup : Setup) (tr : List (ServerEvent n W)) (s : ServerState n W)
    (g : Thread n → Hold UInt32 Slot × Errand) : Prop where
  errand : ∀ t, (g t).2 = errandOf setup t tr
  running : s.rest.alive = true → HoldInv identitySpec s fun u => (g u).1

/-- It is about the accounts and the locks only, while the process runs. -/
theorem ErrandInv.congr {g : Thread n → Hold UInt32 Slot × Errand} (h : ErrandInv setup tr s g)
    (hcells : s'.cells = s.cells) (howner : s'.owner = s.owner)
    (halive : s'.rest.alive = true → s.rest.alive = true) : ErrandInv setup tr s' g where
  errand := h.errand
  running ha := (h.running (halive ha)).congr_rest hcells howner

/-- Every operation performed as its rule asks keeps the invariant. -/
theorem ErrandInv.exec {g : Thread n → Hold UInt32 Slot × Errand} (h : ErrandInv setup tr s g)
    {o : ServerOp} {r : ServerRes o} {Φ : ServerRes o → Hold UInt32 Slot × Errand → Prop}
    (hrule : (Sope.errand setup).rule (g t) o Φ)
    (hs : Locked.sem table (fun s => s.alive = true) Ext.Sem t o s r s') :
    ∃ g', Φ r g' ∧ ErrandInv setup (tr ++ [⟨t, o, r, s⟩]) s' (Function.update g t g') := by
  obtain ⟨b', hΦ, hhold'⟩ := (h.running (Locked.sem_live hs)).extra hrule hs
  refine ⟨(b', (g t).2.next o r), hΦ, ?_, fun _ => hhold' _⟩
  intro u
  by_cases hu : u = t
  · subst hu
    rw [Function.update_self, errandOf, Monitor.after_append_self, h.errand u]
    rfl
  · rw [Function.update_of_ne hu, errandOf, Monitor.after_append_of_ne (Ne.symm hu)]
    exact h.errand u

/-- The certificate of errands. -/
def errandCertificate (n : ℕ) (W : World (Thread n)) (serverFifoFD shutdownFD : Int) :
    Certificate (server n W serverFifoFD shutdownFD)
      fun _ => errand ⟨n, serverFifoFD, shutdownFD⟩ where
  assumes _ := True
  assumes_append _ := trivial
  inv tr c g := ErrandInv ⟨n, serverFifoFD, shutdownFD⟩ tr c.shared g
  post := Rested
  init {c} h := by
    refine ⟨fun t => (Hold.empty c.shared.cells, t.firstErrand), ⟨fun _ => rfl, fun _ => ?_⟩,
      fun t => ?_⟩
    · exact HoldInv.of_free (fun id => ((h.1.sound 0).2 id).accountId) h.1.owner
    · cases t <;> exact .inr ⟨rfl, rfl⟩
  exec _ _ h _ hrule hs := h.exec hrule hs
  loop {tr c g t x} h _ hpost := by
    refine ⟨g t, ?_, by rwa [Function.update_eq_self]⟩
    cases t with
    | main => exact wp_errand_mainBody hpost
    | office i => exact wp_errand_officeBody hpost
  divert {tr c g t o k x s' Φ} h _ _ hd := by
    obtain ⟨hx, hcells, howner, halive⟩ := frame_of_divert hd
    refine ⟨g t, .inl hx, ?_⟩
    rw [Function.update_eq_self]
    exact h.congr hcells howner halive
  env h he := by
    obtain ⟨w, -, rfl⟩ := he
    exact h.congr rfl rfl fun ha => ha

/-- **Every thread keeps to its errand.** In every run, in every world, a thread is about to perform only
operations that its errand allows. -/
theorem allows_of_run (h : (server n W serverFifoFD shutdownFD).Run tr c) {o : ServerOp}
    {k : ServerRes o → Server Ctl} (hp : c.prog t = .op o k) :
    (errandOf ⟨n, serverFifoFD, shutdownFD⟩ t tr).Allows ⟨n, serverFifoFD, shutdownFD⟩ o := by
  obtain ⟨g, hg⟩ := (errandCertificate n W serverFifoFD shutdownFD).run h trivial
  have hrule := (hg.rule hp).1
  rwa [hg.1.errand t] at hrule

/-- Between two rounds an office has nothing in hand; the main thread is over if it has left the loop of
`readRequests`. -/
theorem errand_of_ret (h : (server n W serverFifoFD shutdownFD).Run tr c) {ctl : Ctl}
    (hp : c.prog t = .ret ctl) (hne : ctl ≠ .ended) :
    errandOf ⟨n, serverFifoFD, shutdownFD⟩ t tr = match t with
      | .main => if ctl = .read then .ready else .finished
      | .office _ => .idle := by
  obtain ⟨g, hg⟩ := (errandCertificate n W serverFifoFD shutdownFD).run h trivial
  have hret : Rested t ctl (g t) := hg.ret hp
  rcases hret with hended | ⟨-, hx⟩
  · exact absurd hended hne
  rw [← hg.1.errand t]
  cases t with
  | main => exact hx
  | office i => exact hx

/-- An operation of a run was allowed. -/
theorem allows_of_mem (h : (server n W serverFifoFD shutdownFD).Run tr c) {e : ServerEvent n W}
    {tr₁ tr₂ : List (ServerEvent n W)} (htr : tr = tr₁ ++ e :: tr₂) :
    (errandOf ⟨n, serverFifoFD, shutdownFD⟩ e.tid tr₁).Allows ⟨n, serverFifoFD, shutdownFD⟩ e.op := by
  subst htr
  obtain ⟨c₁, k, s', hr, -, hp, -⟩ := h.split
  exact allows_of_run hr hp

end Runs

end Sope
