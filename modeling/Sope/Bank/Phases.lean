import Mathlib.Algebra.BigOperators.Group.Finset.Piecewise
import Sope.Bank.Footprints

/-! # Phases of the threads

Where a thread of the server is between its synchronisation operations, as a function of the
operations it has performed: `Phase.next` is an automaton that accepts the operations of a thread in
the order in which its program performs them, and `phaseOf` runs it over a run of the server.

The requests a run has pushed, popped and completely managed are read off the run as well
(`pushed`, `popped`, `managed`). -/

namespace Sope

open Concurrency

/-- Where a thread is. The first ten are the phases of an office, the others those of the main
thread. -/
inductive Phase
  /-- The office has not begun to run. -/
  | starting
  /-- Before or at `sem_wait(&queueFullSem)`, with the flag cleared. -/
  | idle
  /-- Past the `sem_wait`; the flag is not set yet. -/
  | admitted
  /-- The flag is set. -/
  | flagged
  /-- `queueMutex` is locked; nothing is popped yet. -/
  | locked
  /-- A request is popped; `queueMutex` is still locked. -/
  | popped (request : TlvRequest)
  /-- `queueMutex` is unlocked; `queueEmptySem` is not posted yet. -/
  | released (request : TlvRequest)
  /-- `getRequestFromQueue` has returned and `manageRequest` is not over. -/
  | managing (request : TlvRequest)
  /-- `manageRequest` is over; the flag is still set. -/
  | managed
  /-- Reading requests, or polling the queue. -/
  | reading
  /-- Past `sem_wait(&queueEmptySem)`. -/
  | permitted
  /-- `queueMutex` is locked; nothing is pushed yet. -/
  | pushing
  /-- The request is pushed; `queueMutex` is still locked. -/
  | pushed
  /-- `queueMutex` is unlocked; `queueFullSem` is not posted yet. -/
  | pushReleased
  /-- `queueMutex` is locked in order to test whether the queue is empty. -/
  | polling
  /-- The test said `empty`; `queueMutex` is still locked. -/
  | polled (empty : Bool)
  /-- The queue was found empty, and the first `k` flags were read, with the given sum. -/
  | scanning (k sum : ℕ)
  /-- Cancelling the offices. -/
  | destroying
  deriving DecidableEq

namespace Phase

/-- What the performed operations say about the next phase; `none` if the thread's program never
performs the operation there. `self` is the index of the thread's own flag and `n` the number of
offices. -/
def next (n self : ℕ) : Phase → (e : Ext) → e.Res → Option Phase
  | .starting, .writeActive i false, _ => if i = self then some .idle else none
  | .idle, .semWait .queueFullSem, _ => some .admitted
  | .admitted, .writeActive i true, _ => if i = self then some .flagged else none
  | .flagged, .lockQueueMutex, _ => some .locked
  | .locked, .queuePop, request => some (.popped request)
  | .popped request, .unlockQueueMutex, _ => some (.released request)
  | .released request, .semPost .queueEmptySem, _ => some (.managing request)
  | .managing request, .mark (.managed request' _), _ =>
      if request' = request then some .managed else none
  | .managing request, e, _ => if e.isLocal then some (.managing request) else none
  | .managed, .writeActive i false, _ => if i = self then some .idle else none
  | .reading, .sys _, _ => some .reading
  | .reading, .semWait .queueEmptySem, _ => some .permitted
  | .permitted, .lockQueueMutex, _ => some .pushing
  | .pushing, .queuePush _, _ => some .pushed
  | .pushed, .unlockQueueMutex, _ => some .pushReleased
  | .pushReleased, .semPost .queueFullSem, _ => some .reading
  | .reading, .lockQueueMutex, _ => some .polling
  | .polling, .queueEmpty, empty => some (.polled empty)
  | .polled empty, .unlockQueueMutex, _ => some (if empty then .scanning 0 0 else .reading)
  | .scanning k sum, .readActive i, active =>
      if k = n ∧ sum = 0 then none
      else if i = k then some (.scanning (k + 1) (Nat.add sum active))
      else if i = 0 then some (.scanning 1 active)
      else none
  | .scanning k sum, .pthreadCancel _, _ => if k = n ∧ sum = 0 then some .destroying else none
  | .destroying, .pthreadCancel _, _ => some .destroying
  | .destroying, .pthreadJoin _, _ => some .destroying
  | _, _, _ => none

/-- The thread is inside `manageRequest`. -/
def isManaging : Phase → Bool
  | .managing _ => true
  | _ => false

/-- The thread may be at an operation that ends the process. -/
def mayEnd : Phase → Bool
  | .managing _ | .reading => true
  | _ => false

/-- `waitForRequestFinish` has returned, in a server with `n` offices. -/
def isFinished (n : ℕ) : Phase → Bool
  | .scanning k sum => k == n && sum == 0
  | .destroying => true
  | _ => false

/-- The thread is an office between two requests. -/
def isQuiet : Phase → Bool
  | .starting | .idle => true
  | _ => false

/-- The thread is an office. -/
def isOffice : Phase → Bool
  | .starting | .idle | .admitted | .flagged | .locked | .popped _ | .released _ | .managing _
  | .managed => true
  | _ => false

/-- The thread has locked `queueMutex`. -/
def holdsQueueMutex : Phase → Bool
  | .locked | .popped _ | .pushing | .pushed | .polling | .polled _ => true
  | _ => false

/-- 1 for an office that has taken a unit of `queueFullSem` for a request it has not popped yet. -/
def awaitsPop : Phase → ℕ
  | .admitted | .flagged | .locked => 1
  | _ => 0

/-- 1 for an office that has popped a request and not yet posted `queueEmptySem`. -/
def owesEmpty : Phase → ℕ
  | .popped _ | .released _ => 1
  | _ => 0

/-- 1 for a main thread that has taken a unit of `queueEmptySem` and not pushed yet. -/
def awaitsPush : Phase → ℕ
  | .permitted | .pushing => 1
  | _ => 0

/-- 1 for a main thread that has pushed a request and not yet posted `queueFullSem`. -/
def owesFull : Phase → ℕ
  | .pushed | .pushReleased => 1
  | _ => 0

/-- 1 for an office that has popped the request and not finished it. -/
def inHand (request : TlvRequest) : Phase → ℕ
  | .popped r | .released r | .managing r => if r = request then 1 else 0
  | _ => 0

/-- The office has set its flag and not cleared it. -/
def isFlagged : Phase → Bool
  | .flagged | .locked | .popped _ | .released _ | .managing _ | .managed => true
  | _ => false

/-- The main thread has found the queue empty in `waitForRequestFinish`. -/
def isDrained : Phase → Bool
  | .polled true | .scanning .. | .destroying => true
  | _ => false

/-- How many offices, counted from the first, the main thread has seen with a cleared flag. -/
def quietBelow (n : ℕ) : Phase → ℕ
  | .scanning k 0 => k
  | .destroying => n
  | _ => 0

theorem quietBelow_scanning (n k sum : ℕ) :
    (scanning k sum).quietBelow n = if sum = 0 then k else 0 := by
  cases sum <;> rfl

theorem isDrained_of_quietBelow {n : ℕ} {x : Phase} (h : 0 < x.quietBelow n) :
    x.isDrained = true := by
  cases x <;> first | rfl | exact absurd h (Nat.lt_irrefl 0)

theorem isFinished_iff {n : ℕ} {x : Phase} :
    x.isFinished n = true ↔ x = .scanning n 0 ∨ x = .destroying := by
  cases x <;> simp [isFinished]

end Phase

/-! ## Reading a run -/

/-- The events of a run of the server. -/
abbrev ServerEvent (n : ℕ) (W : World (Thread n)) :=
  Event (Thread n) ServerOp ServerRes (ServerState n W)

variable {n : ℕ} {W : World (Thread n)}

/-- The index of a thread's flag in `activeOffices`. -/
def Thread.index : Thread n → ℕ
  | .main => n
  | .office i => i

/-- The thread is an office. -/
def Thread.isOffice : Thread n → Bool
  | .main => false
  | .office _ => true

/-- The phase in which a thread begins. -/
def Thread.firstPhase : Thread n → Phase
  | .main => .reading
  | .office _ => .starting

/-- The phases of the threads after one more operation. -/
def afterEvent (x : Thread n → Phase) (e : ServerEvent n W) : Thread n → Phase :=
  match e with
  | ⟨t, .ext op, r, _⟩ => Function.update x t (((x t).next n t.index op r).getD (x t))
  | _ => x

/-- The phases of the threads after a run. -/
def phaseOf (tr : List (ServerEvent n W)) : Thread n → Phase :=
  tr.foldl afterEvent Thread.firstPhase

/-- The request an operation pushes. -/
def Ext.pushes : Ext → Option TlvRequest
  | .queuePush request => some request
  | _ => none

/-- The request an operation pops. -/
def Ext.pops : (e : Ext) → e.Res → Option TlvRequest
  | .queuePop, request => some request
  | _, _ => none

/-- The request that has been completely managed with an operation. -/
def Ext.manages : Ext → Option TlvRequest
  | .mark (.managed request _) => some request
  | _ => none

/-- A local operation pushes, pops and finishes no request. -/
theorem Ext.local_quiet {e : Ext} (he : e.isLocal = true) (r : e.Res) :
    e.pushes = none ∧ e.pops r = none ∧ e.manages = none := by
  cases e with
  | mark m =>
      cases m with
      | managed request reply => cases he
      | _ => exact ⟨rfl, rfl, rfl⟩
  | _ => first | exact ⟨rfl, rfl, rfl⟩ | cases he

/-- The request an event pushes. -/
def pushedBy : ServerEvent n W → Option TlvRequest
  | ⟨_, .ext op, _, _⟩ => op.pushes
  | _ => none

/-- The request an event pops. -/
def poppedBy : ServerEvent n W → Option TlvRequest
  | ⟨_, .ext op, r, _⟩ => op.pops r
  | _ => none

/-- The request that has been completely managed with an event. -/
def managedBy : ServerEvent n W → Option TlvRequest
  | ⟨_, .ext op, _, _⟩ => op.manages
  | _ => none

/-- The requests pushed in a run, in the order of the pushes. -/
def pushed (tr : List (ServerEvent n W)) : List TlvRequest := tr.filterMap pushedBy

/-- The requests popped in a run, in the order of the pops, over all the offices. -/
def popped (tr : List (ServerEvent n W)) : List TlvRequest := tr.filterMap poppedBy

/-- The requests that have been completely managed in a run: `sendReply` has returned. -/
def managed (tr : List (ServerEvent n W)) : List TlvRequest := tr.filterMap managedBy

variable {tr : List (ServerEvent n W)}

@[simp] theorem phaseOf_nil : phaseOf ([] : List (ServerEvent n W)) = Thread.firstPhase := rfl

/-- The phases after one more event. -/
theorem phaseOf_append (e : ServerEvent n W) :
    phaseOf (tr ++ [e]) = afterEvent (phaseOf tr) e := by
  simp [phaseOf, List.foldl_append]

theorem pushed_append (e : ServerEvent n W) :
    pushed (tr ++ [e]) = pushed tr ++ (pushedBy e).toList := by
  simp [pushed, List.filterMap_append, List.filterMap_cons, List.filterMap_nil]
  cases pushedBy e <;> rfl

theorem popped_append (e : ServerEvent n W) :
    popped (tr ++ [e]) = popped tr ++ (poppedBy e).toList := by
  simp [popped, List.filterMap_append, List.filterMap_cons, List.filterMap_nil]
  cases poppedBy e <;> rfl

theorem managed_append (e : ServerEvent n W) :
    managed (tr ++ [e]) = managed tr ++ (managedBy e).toList := by
  simp [managed, List.filterMap_append, List.filterMap_cons, List.filterMap_nil]
  cases managedBy e <;> rfl

end Sope
