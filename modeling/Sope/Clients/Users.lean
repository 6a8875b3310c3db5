import Sope.Clients.Processes
import Sope.Concurrency.Monitor

/-! # What a user does

The calls of a user program in their order, as a monitor: a user makes its FIFO, writes at most one
request, which it has made from its arguments, into the server's FIFO, opens its own FIFO for reading,
and reads the reply in two reads.

* `UserPhase` — the states of the monitor, `userMonitor` — the monitor.
* `accepts_userMain` — the program of a user keeps to it. -/

namespace Sope

open Concurrency

/-! ## The monitor -/

/-- How far a user has come. -/
inductive UserPhase
  /-- It has done nothing. -/
  | fresh
  /-- It has made its FIFO. -/
  | made
  /-- It has opened the server's FIFO. -/
  | connected
  /-- It has written its request. -/
  | wrote
  /-- It has closed the server's FIFO. -/
  | asked
  /-- It has begun to open its own FIFO. -/
  | waiting
  /-- It has opened it. -/
  | opened
  /-- It has made the first read. -/
  | head (bytes : Bytes)
  /-- It has made the second read, and has read this in all. -/
  | got (bytes : Bytes)
  /-- It has closed its FIFO. -/
  | satisfied
  /-- It is giving up. -/
  | leaving
  deriving DecidableEq

/-- The request that a user makes from its arguments. -/
def Clientele.Makes {P : Type} (C : Clientele P) (p : P) (request : TlvRequest) : Prop :=
  ∃ args, processUserArgs (C.argv p) = some args ∧
    createRequest args (C.pid p) (C.locals p) = some request

/-- The name of a user's FIFO. -/
def Clientele.path {P : Type} (C : Clientele P) (p : P) : Bytes := getUserFifoPath (C.pid p)

section Monitor

variable {P : Type} (C : Clientele P) (p : P)

/-- The calls that are allowed. -/
def UserPhase.Allows : UserPhase → UserCall → Prop
  | .fresh, .mkfifo path => path = C.path p
  | _, .mkfifo _ => False
  | .made, .openServerFifo => True
  | _, .openServerFifo => False
  | .connected, .writeRequest request => C.Makes p request
  | _, .writeRequest _ => False
  | .wrote, .closeServerFifo => True
  | _, .closeServerFifo => False
  | .asked, .alarm _ | .got _, .alarm _ => True
  | _, .alarm _ => False
  | .asked, .openUserFifo path => path = C.path p
  | _, .openUserFifo _ => False
  | .waiting, .userFifoOpened => True
  | _, .userFifoOpened => False
  | .opened, .read m => m = sizeofTypeLength
  | .head bytes, .read m => m = (decodeWord (overlay newReply 0 bytes) 4).toNat
  | _, .read _ => False
  | .got _, .closeUserFifo => True
  | _, .closeUserFifo => False
  | .satisfied, .unlink path | .leaving, .unlink path => path = C.path p
  | _, .unlink _ => False
  | .fresh, .exit _ | .leaving, .exit _ => True
  | _, .exit _ => False

/-- What a read gives to a user. -/
def UserPhase.afterRead (phase : UserPhase) (result : Option Bytes) : UserPhase :=
  match phase, result with
  | .opened, some bytes => .head bytes
  | .head bytes, some bytes' => .got (bytes ++ bytes')
  | _, _ => .leaving

/-- The phase after a call. -/
def UserPhase.next (phase : UserPhase) : (c : UserCall) → c.Res → UserPhase
  | .mkfifo _, (result : Int) => if result = -1 then .leaving else .made
  | .openServerFifo, (fd : Int) => if fd = -1 then .leaving else .connected
  | .writeRequest _, (result : Int) => if result = -1 then .leaving else .wrote
  | .closeServerFifo, _ => .asked
  | .openUserFifo _, (fd : Int) => if fd = -1 then .leaving else .waiting
  | .userFifoOpened, _ => .opened
  | .read _, result => phase.afterRead result
  | .closeUserFifo, _ => .satisfied
  | .alarm _, _ | .unlink _, _ | .exit _, _ => phase

/-- The monitor of a user. -/
def userMonitor : Monitor UserCall UserCall.Res UserPhase where
  start := .fresh
  allows := UserPhase.Allows C p
  next := UserPhase.next

end Monitor

variable {P : Type} {C : Clientele P} {p : P}

/-! ## The program keeps to it -/

/-- Giving up. -/
theorem accepts_exit {phase : UserPhase} {α : Type} {status : ℕ} {k : Empty → User α}
    (h : phase = .fresh ∨ phase = .leaving) :
    (userMonitor C p).Accepts phase (.op (.exit status) k) := by
  refine Monitor.accepts_op ?_ fun r : Empty => r.elim
  rcases h with rfl | rfl <;> trivial

/-- The handler of the alarm. -/
theorem accepts_sigAlarmHandler :
    (userMonitor C p).Accepts .leaving (sigAlarmHandler (getUserFifoPath (C.pid p))) :=
  Monitor.accepts_op rfl fun _ => accepts_exit (.inr rfl)

/-- The end of `main`. -/
theorem accepts_deleteUserFifo {phase : UserPhase} (h : phase = .satisfied ∨ phase = .leaving) :
    (userMonitor C p).Accepts phase (deleteUserFifo (C.path p)) := by
  refine Monitor.accepts_op ?_ fun _ => trivial
  rcases h with rfl | rfl <;> rfl

/-- `awaitReply`, and the end of `main`. -/
theorem accepts_awaitReply (request : TlvRequest) : (userMonitor C p).Accepts .asked (do
    let _reply ← awaitReply request (C.path p)
    deleteUserFifo (C.path p)) := by
  refine Monitor.accepts_op trivial fun _ => Monitor.accepts_op rfl fun (fd : Int) => ?_
  show (userMonitor C p).Accepts (if fd = -1 then .leaving else .waiting)
    ((if fd = -1 then _ else _ : User Bytes) >>= _)
  split
  · exact accepts_deleteUserFifo (.inr rfl)
  refine Monitor.accepts_op trivial fun _ => Monitor.accepts_op rfl fun (bytes : Option Bytes) => ?_
  cases bytes with
  | none => exact accepts_exit (.inr rfl)
  | some bytes =>
      refine Monitor.accepts_op rfl fun (value : Option Bytes) => ?_
      cases value with
      | none => exact accepts_exit (.inr rfl)
      | some value =>
          refine Monitor.accepts_op trivial fun _ => Monitor.accepts_op trivial fun _ => ?_
          exact accepts_deleteUserFifo (.inl rfl)

/-- `sendRequest`, and what follows it. -/
theorem accepts_sendRequest {request : TlvRequest} (h : C.Makes p request) :
    (userMonitor C p).Accepts .made (do
      sendRequest request (C.path p)
      let _reply ← awaitReply request (C.path p)
      deleteUserFifo (C.path p)) := by
  refine Monitor.accepts_op trivial fun (fd : Int) => ?_
  show (userMonitor C p).Accepts (if fd = -1 then .leaving else .connected)
    ((if fd = -1 then _ else _ : User Unit) >>= _)
  split
  · exact Monitor.accepts_op rfl fun _ => accepts_exit (.inr rfl)
  refine Monitor.accepts_op h fun (written : Int) => ?_
  show (userMonitor C p).Accepts (if written = -1 then .leaving else .wrote)
    ((if written = -1 then _ else _ : User Unit) >>= _)
  split
  · exact accepts_exit (.inr rfl)
  · exact Monitor.accepts_op trivial fun _ => accepts_awaitReply request

/-- **The program of a user keeps to its phases.** -/
theorem accepts_userMain (C : Clientele P) (p : P) :
    (userMonitor C p).Accepts .fresh (userMain (C.argv p) (C.pid p) (C.locals p)) := by
  unfold userMain
  cases hargs : processUserArgs (C.argv p) with
  | none => exact accepts_exit (.inl rfl)
  | some args =>
      rw [Option.bind_some]
      cases hrequest : createRequest args (C.pid p) (C.locals p) with
      | none => exact accepts_exit (.inl rfl)
      | some request =>
          refine Monitor.accepts_op rfl fun (result : Int) => ?_
          show (userMonitor C p).Accepts (if result = -1 then .leaving else .made)
            ((if result = -1 then User.exit 1 else return C.path p : User Bytes) >>= _)
          by_cases hresult : result = -1
          · rw [if_pos hresult, if_pos hresult]
            exact accepts_exit (.inr rfl)
          · rw [if_neg hresult, if_neg hresult]
            exact accepts_sendRequest ⟨args, hargs, hrequest⟩

end Sope
