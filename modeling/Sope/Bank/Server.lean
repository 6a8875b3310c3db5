import Mathlib.Data.Fintype.Sum
import Mathlib.Tactic.DeriveFintype
import Sope.Bank.Offices

/-! # The server as a system of threads

The main thread (`readRequests`, then `destroyBankOffices`) and the offices (`runBankOffice`) over
the state they share. What the system calls do is a parameter, a `World`: the results of this
development that hold for every world hold whatever clients send, whatever `generateHash` and the
random numbers are, and whatever happens to replies.

* `Shared` — the state next to the table of accounts: semaphores, `queueMutex`, the request queue,
  the flags of `activeOffices`, the cancellations, and the world.
* `Ext.Sem` — the effect of each operation on it. Mutexes are not recursive; nothing happens in a
  process that has ended.
* `server` — the system. Its main thread starts where `readRequests` is called: the accounts are set
  up, the offices have been created, and their flags hold whatever `malloc` left there. -/

namespace Sope

open Concurrency

/-- The threads of a server with `n` offices. -/
inductive Thread (n : ℕ)
  | main
  | office (i : Fin n)
  deriving DecidableEq, Fintype

/-- What is outside the server's own memory: its state, the results and effects of system calls,
which calls may end the process, and what happens by itself. -/
structure World (Tid : Type) where
  /-- The state. -/
  State : Type
  /-- The states in which the main thread may start to read requests. -/
  init : State → Prop
  /-- `call t c w r w'`: made by `t` in `w`, the call `c` may return `r` and leave `w'`. -/
  call : Tid → (c : SysCall) → State → c.Res → State → Prop
  /-- `kills t c w w'`: made by `t` in `w`, the call `c` may end the process, leaving `w'`. -/
  kills : Tid → SysCall → State → State → Prop
  /-- What may happen by itself. -/
  env : State → State → Prop

/-- The state shared by the threads, but for the table of accounts. -/
structure Shared {Tid : Type} (W : World Tid) where
  /-- The process has not ended. -/
  alive : Bool
  /-- The thread holding `queueMutex`, if any. -/
  queueMutex : Option Tid
  /-- The value of `queueEmptySem`. -/
  queueEmptySem : ℕ
  /-- The value of `queueFullSem`. -/
  queueFullSem : ℕ
  /-- The request queue. -/
  queue : RequestQueue TlvRequest
  /-- The bytes of `activeOffices`. -/
  activeOffices : ℕ → ℕ
  /-- The offices for which `pthread_cancel` has been called. -/
  cancelled : ℕ → Bool
  /-- The offices that have ended. -/
  terminated : ℕ → Bool
  /-- The world. -/
  world : W.State

instance : Inhabited TlvRequest := ⟨⟨.opMaxNumber, 0, ⟨⟨0, 0, [], 0⟩, ⟨0, 0, []⟩⟩⟩⟩

variable {n : ℕ} {Tid : Type} {W : World Tid}

namespace Shared

/-- The value of a semaphore. -/
def sem (s : Shared W) : QueueSem → ℕ
  | .queueEmptySem => s.queueEmptySem
  | .queueFullSem => s.queueFullSem

/-- The state with another value of a semaphore. -/
def setSem (s : Shared W) : QueueSem → ℕ → Shared W
  | .queueEmptySem, v => { s with queueEmptySem := v }
  | .queueFullSem, v => { s with queueFullSem := v }

end Shared

/-- The effect of an operation of thread `t` on everything but the accounts. -/
def Ext.Sem (t : Tid) : (e : Ext) → Shared W → e.Res → Shared W → Prop
  | .semWait sem, s, _, s' => 0 < s.sem sem ∧ s' = s.setSem sem (s.sem sem - 1)
  | .semPost sem, s, _, s' => s' = s.setSem sem (s.sem sem + 1)
  | .lockQueueMutex, s, _, s' => s.queueMutex = none ∧ s' = { s with queueMutex := some t }
  | .unlockQueueMutex, s, _, s' => s' = { s with queueMutex := none }
  | .queuePush request, s, _, s' =>
      ∃ queue, Sope.queuePush 2 s.queue request = some queue ∧ s' = { s with queue }
  | .queuePop, s, r, s' => r = queueFront s.queue ∧ s' = { s with queue := Sope.queuePop s.queue }
  | .queueEmpty, s, r, s' => r = Sope.queueEmpty s.queue ∧ s' = s
  | .readActive i, s, r, s' => r = s.activeOffices i ∧ s' = s
  | .writeActive i active, s, _, s' =>
      s' = { s with activeOffices := Function.update s.activeOffices i active.toNat }
  | .pthreadCancel i, s, _, s' => s' = { s with cancelled := Function.update s.cancelled i true }
  | .pthreadJoin i, s, _, s' => s.terminated i = true ∧ s' = s
  | .add a b, s, r, s' => r = a + b ∧ s' = s
  | .sub a b, s, r, s' => r = a - b ∧ s' = s
  | .sys call, s, r, s' => ∃ w, W.call t call s.world r w ∧ s' = { s with world := w }
  | .segfault, _, _, _ => False
  | .exit _, _, _, _ => False
  | .mark _, s, _, s' => s' = s

/-- What an operation leaves alone. -/
theorem Ext.Sem.frame {t : Tid} {e : Ext} {s s' : Shared W} {r : e.Res} (h : e.Sem t s r s') :
    s'.alive = s.alive ∧
      (s'.activeOffices = s.activeOffices ∨ ∃ i active, e = .writeActive i active) ∧
      (s'.cancelled = s.cancelled ∨ ∃ i, e = .pthreadCancel i) ∧
      (s'.queue = s.queue ∨ e = .queuePop ∨ ∃ request, e = .queuePush request) := by
  cases e with
  | semWait sem => cases sem <;> obtain ⟨-, rfl⟩ := h <;> exact ⟨rfl, .inl rfl, .inl rfl, .inl rfl⟩
  | semPost sem => cases sem <;> obtain rfl := h <;> exact ⟨rfl, .inl rfl, .inl rfl, .inl rfl⟩
  | unlockQueueMutex | mark => obtain rfl := h; exact ⟨rfl, .inl rfl, .inl rfl, .inl rfl⟩
  | queuePush request =>
      obtain ⟨queue, -, rfl⟩ := h
      exact ⟨rfl, .inl rfl, .inl rfl, .inr (.inr ⟨request, rfl⟩)⟩
  | queuePop => obtain ⟨-, rfl⟩ := h; exact ⟨rfl, .inl rfl, .inl rfl, .inr (.inl rfl)⟩
  | writeActive i active => obtain rfl := h; exact ⟨rfl, .inr ⟨i, active, rfl⟩, .inl rfl, .inl rfl⟩
  | pthreadCancel i => obtain rfl := h; exact ⟨rfl, .inl rfl, .inr ⟨i, rfl⟩, .inl rfl⟩
  | sys call => obtain ⟨w, -, rfl⟩ := h; exact ⟨rfl, .inl rfl, .inl rfl, .inl rfl⟩
  | segfault | exit => exact h.elim
  | _ => obtain ⟨-, rfl⟩ := h; exact ⟨rfl, .inl rfl, .inl rfl, .inl rfl⟩

/-- The operations at which a thread acts on a cancellation. -/
def Ext.isCancellationPoint : Ext → Bool
  | .semWait _ => true
  | .sys (.usleep _) | .sys (.openFifo _) | .sys (.write ..) | .sys (.close _) => true
  | _ => false

/-- The ways an operation may end the process. -/
def Ext.Ends (t : Tid) : Ext → Shared W → Shared W → Prop
  | .segfault, s, s' => s' = s
  | .exit _, s, s' => s' = s
  | .sys call, s, s' => ∃ w, W.kills t call s.world w ∧ s' = { s with world := w }
  | _, _, _ => False

/-- Where a thread is between two programs. -/
inductive Ctl
  /-- The main thread, before a round of `readRequests`. -/
  | read
  /-- The main thread, before a round of the first loop of `waitForRequestFinish`. -/
  | waitEmpty
  /-- The main thread, before a round of the second loop of `waitForRequestFinish`. -/
  | waitIdle
  /-- The main thread, before it cancels the office with this index in `destroyBankOffices`. -/
  | destroy (office : ℕ)
  /-- An office that has not begun to run. -/
  | start
  /-- An office before a round of its loop. -/
  | serve
  /-- A thread that has ended. -/
  | ended
  deriving DecidableEq

/-- The program of the main thread. -/
def mainBody (setup : Setup) : Ctl → Server Ctl
  | .read => do
      let more ← readRequestsRound setup
      return if more then .read else .waitEmpty
  | .waitEmpty => do
      let queueEmpty ← queueEmptyRound
      return if queueEmpty then .waitIdle else .waitEmpty
  | .waitIdle => do
      let numActiveOffices ← getNumActiveOffices setup.numberOfOffices
      return if numActiveOffices > 0 then .waitIdle else .destroy 0
  | .destroy i =>
      if i < setup.numberOfOffices then do
        ext (.pthreadCancel i)
        ext (.pthreadJoin i)
        return .destroy (i + 1)
      else return .ended
  | _ => return .ended

/-- The program of an office, `runBankOffice`. -/
def officeBody (setup : Setup) (office : ℕ) : Ctl → Server Ctl
  | .start => do
      ext (.writeActive office false)
      return .serve
  | .serve => do
      bankOfficeRound setup office
      return .serve
  | _ => return .ended

/-- The states of the server. -/
abbrev ServerState (n : ℕ) (W : World (Thread n)) := Locked (Thread n) UInt32 Slot (Shared W)

/-- The states in which the main thread starts to read requests: `setupAccounts` has run alone on
the cleared table, with some salt and some outcome of `generateHash`; no lock is held; the queue has
just been created. -/
structure ServerInit {W : World (Thread n)} (s : ServerState n W) : Prop where
  cells : ∃ ans adminPassword,
    (setupAccounts adminPassword).solo table ans clearAccounts = some ((), s.cells)
  owner : ∀ i, s.owner i = none
  alive : s.rest.alive = true
  queueMutex : s.rest.queueMutex = none
  queueEmptySem : s.rest.queueEmptySem = bufferSize
  queueFullSem : s.rest.queueFullSem = 0
  queue : s.rest.queue = queueCreate bufferSize
  cancelled : ∀ i, s.rest.cancelled i = false
  terminated : ∀ i, s.rest.terminated i = false
  world : W.init s.rest.world

/-- Taking a thread away from its next operation: the operation ends the process, or the thread is
an office that acts on its cancellation. -/
def serverDivert {W : World (Thread n)} (t : Thread n) :
    ServerOp → ServerState n W → Ctl → ServerState n W → Prop
  | .ext e, s, x, s' => s.rest.alive = true ∧ x = .ended ∧
      ((∃ rest, e.Ends t s.rest rest ∧ s' = { s with rest := { rest with alive := false } }) ∨
        ∃ i, t = .office i ∧ s.rest.cancelled i = true ∧ e.isCancellationPoint = true ∧
          s' = { s with rest :=
            { s.rest with terminated := Function.update s.rest.terminated i true } })
  | _, _, _, _ => False

/-- Taking a thread away changes neither the accounts nor their locks, and the thread ends. -/
theorem frame_of_divert {W : World (Thread n)} {t : Thread n} {o : ServerOp} {s s' : ServerState n W}
    {x : Ctl} (hd : serverDivert t o s x s') : x = .ended ∧ s'.cells = s.cells ∧ s'.owner = s.owner ∧
      (s'.rest.alive = true → s.rest.alive = true) := by
  cases o with
  | ext e =>
      obtain ⟨halive, hx, ⟨rest, -, rfl⟩ | ⟨i, -, -, -, rfl⟩⟩ := hd
      · exact ⟨hx, rfl, rfl, fun _ => halive⟩
      · exact ⟨hx, rfl, rfl, id⟩
  | _ => exact hd.elim

/-- The server with `n` offices in the world `W`. -/
def server (n : ℕ) (W : World (Thread n)) (serverFifoFD shutdownFD : Int) :
    System (Thread n) ServerOp ServerRes (ServerState n W) Ctl where
  init := ServerInit
  start
    | .main => .read
    | .office _ => .start
  body
    | .main => mainBody ⟨n, serverFifoFD, shutdownFD⟩
    | .office i => officeBody ⟨n, serverFifoFD, shutdownFD⟩ i
  sem := Locked.sem table (fun s => s.alive = true) Ext.Sem
  env s s' := ∃ w, W.env s.rest.world w ∧ s' = { s with rest := { s.rest with world := w } }
  divert := serverDivert

end Sope
