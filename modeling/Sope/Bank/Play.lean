import Sope.Bank.Server
import Sope.Concurrency.Player

/-! # Playing the server

The steps of the server as functions, for a world whose calls can be computed, and the initial
configuration that `setupAccounts` leads to. `worldPlayer` plays the server in such a world; with it the
existence of a run with a given outcome is decided by computation.

* `Computed` — a world with functions that compute steps of it.
* `Script` — a world whose calls are functions, in which nothing happens by itself. -/

namespace Sope

open Concurrency

variable {n : ℕ} {Tid : Type}

/-- Steps of a world, computed. `M` names what may happen by itself. -/
structure Computed (W : World Tid) (M : Type) where
  /-- The result and the effect of a call. -/
  call : Tid → (c : SysCall) → W.State → Option (c.Res × W.State)
  /-- The state in which a call ends the process. -/
  kills : Tid → SysCall → W.State → Option W.State
  /-- The effect of what happens by itself. -/
  move : M → W.State → Option W.State
  /-- Computed calls are calls of the world. -/
  call_sound : ∀ {t c w r w'}, call t c w = some (r, w') → W.call t c w r w'
  /-- Computed ends are ends. -/
  kills_sound : ∀ {t c w w'}, kills t c w = some w' → W.kills t c w w'
  /-- Computed moves are moves. -/
  move_sound : ∀ {m w w'}, move m w = some w' → W.env w w'

/-- A world whose calls are functions of its state. -/
structure Script (Tid : Type) where
  /-- The state. -/
  State : Type
  /-- The state in which the main thread starts to read requests. -/
  start : State
  /-- The result and the effect of a call; `none` if the call does not return. -/
  call : Tid → (c : SysCall) → State → Option (c.Res × State)
  /-- The state in which a call ends the process; `none` if it does not. -/
  kills : Tid → SysCall → State → Option State

/-- The world of a script. -/
def Script.world (W : Script Tid) : World Tid where
  State := W.State
  init w := w = W.start
  call t c w r w' := W.call t c w = some (r, w')
  kills t c w w' := W.kills t c w = some w'
  env _ _ := False

/-- Its steps, computed. -/
def Script.computed (W : Script Tid) : Computed W.world Empty where
  call := W.call
  kills := W.kills
  move m := nomatch m
  call_sound h := h
  kills_sound h := h
  move_sound {m} := nomatch m

/-- A world in which every call succeeds, but that no user waits for a reply: the reads return
`reads`, one after the other, and the random numbers and the hashes do not vary. -/
def servingScript (Tid : Type) (reads : List (Option Bytes)) : Script Tid where
  State := List (Option Bytes)
  start := reads
  call _
    | .generateSalt, w => some ([7], w)
    | .generateHash .., w => some (some [9], w)
    | .newRequest, w => some ([], w)
    | .unassignedReply, w => some (makeCreateReply 0, w)
    | .openFifo _, w => some ((-1 : Int), w)
    | .write _ bytes, w => some ((bytes.length : Int), w)
    | .read .., [] => some (none, [])
    | .read .., bytes :: rest => some (bytes, rest)
    | .usleep _, w | .close _, w | .fchmod _, w | .logReply _, w => some ((), w)
  kills _ _ _ := none

/-- The two reads that deliver a request. -/
def readsOf (request : TlvRequest) : List (Option Bytes) :=
  [some ((encodeRequest request).take sizeofTypeLength),
    some ((requestBytes request).drop sizeofTypeLength)]

variable {M : Type}

/-- The effect of an operation on everything but the accounts. -/
def Ext.exec {W : World Tid} (K : Computed W M) (t : Tid) :
    (e : Ext) → Shared W → Option (e.Res × Shared W)
  | .semWait sem, s => if 0 < s.sem sem then some ((), s.setSem sem (s.sem sem - 1)) else none
  | .semPost sem, s => some ((), s.setSem sem (s.sem sem + 1))
  | .lockQueueMutex, s =>
      if s.queueMutex.isNone then some ((), { s with queueMutex := some t }) else none
  | .unlockQueueMutex, s => some ((), { s with queueMutex := none })
  | .queuePush request, s =>
      (Sope.queuePush 2 s.queue request).map fun queue => ((), { s with queue })
  | .queuePop, s => some (queueFront s.queue, { s with queue := Sope.queuePop s.queue })
  | .queueEmpty, s => some (Sope.queueEmpty s.queue, s)
  | .readActive i, s => some (s.activeOffices i, s)
  | .writeActive i active, s =>
      some ((), { s with activeOffices := Function.update s.activeOffices i active.toNat })
  | .pthreadCancel i, s => some ((), { s with cancelled := Function.update s.cancelled i true })
  | .pthreadJoin i, s => if s.terminated i then some ((), s) else none
  | .add a b, s => some (a + b, s)
  | .sub a b, s => some (a - b, s)
  | .sys call, s => (K.call t call s.world).map fun p => (p.1, { s with world := p.2 })
  | .segfault, _ => none
  | .exit _, _ => none
  | .mark _, s => some ((), s)

/-- Computed effects are effects. -/
theorem Ext.exec_sound {W : World Tid} {K : Computed W M} {t : Tid} {e : Ext} {s s' : Shared W}
    {r : e.Res} (h : e.exec K t s = some (r, s')) : e.Sem t s r s' := by
  cases e with
  | semWait sem =>
      simp only [exec] at h
      split at h
      · next hpos =>
          cases h
          exact ⟨hpos, rfl⟩
      · cases h
  | lockQueueMutex =>
      simp only [exec] at h
      split at h
      · next hfree =>
          cases h
          exact ⟨Option.isNone_iff_eq_none.mp hfree, rfl⟩
      · cases h
  | queuePush request =>
      obtain ⟨queue, hq, hs⟩ := Option.map_eq_some_iff.mp h
      cases hs
      exact ⟨queue, hq, rfl⟩
  | pthreadJoin i =>
      simp only [exec] at h
      split at h
      · next hterm =>
          cases h
          exact ⟨hterm, rfl⟩
      · cases h
  | sys call =>
      obtain ⟨⟨r', w⟩, hw, hs⟩ := Option.map_eq_some_iff.mp h
      cases hs
      exact ⟨w, K.call_sound hw, rfl⟩
  | segfault | exit => cases h
  | queuePop | queueEmpty | readActive | add | sub => cases h; exact ⟨rfl, rfl⟩
  | _ => cases h; rfl

/-- The effect of an operation of the server. -/
def serverExec {W : World (Thread n)} (K : Computed W M) (t : Thread n) :
    (o : ServerOp) → ServerState n W → Option (ServerRes o × ServerState n W)
  | .lock i, s =>
      if s.rest.alive ∧ (s.owner i).isNone then
        some ((), { s with owner := Function.update s.owner i (some t) })
      else none
  | .unlock i, s =>
      if s.rest.alive then some ((), { s with owner := Function.update s.owner i none }) else none
  | .access a, s =>
      if s.rest.alive then
        let p := table.run a (s.cells (table.loc a))
        some (p.1, { s with cells := Function.update s.cells (table.loc a) p.2 })
      else none
  | .ext e, s =>
      if s.rest.alive then (e.exec K t s.rest).map fun p => (p.1, { s with rest := p.2 }) else none

/-- A call that ends the process. -/
def serverKill {W : World (Thread n)} (K : Computed W M) (t : Thread n) :
    ServerOp → ServerState n W → Option (Ctl × ServerState n W)
  | .ext (.sys call), s =>
      if s.rest.alive then
        (K.kills t call s.rest.world).map fun w =>
          (.ended, { s with rest := { s.rest with world := w, alive := false } })
      else none
  | _, _ => none

/-- The server in such a world, played. -/
def worldPlayer {W : World (Thread n)} (K : Computed W M) (serverFifoFD shutdownFD : Int) :
    Player (server n W serverFifoFD shutdownFD) M where
  exec := serverExec K
  env m s := (K.move m s.rest.world).map fun w => { s with rest := { s.rest with world := w } }
  divert := serverKill K
  exec_sound {t o s r s'} h := by
    cases o with
    | lock i =>
        simp only [serverExec] at h
        split at h
        · next hs =>
            cases h
            exact ⟨hs.1, Option.isNone_iff_eq_none.mp hs.2, rfl⟩
        · cases h
    | unlock i =>
        simp only [serverExec] at h
        split at h
        · next hs =>
            cases h
            exact ⟨hs, rfl⟩
        · cases h
    | access a =>
        simp only [serverExec] at h
        split at h
        · next hs =>
            cases h
            exact ⟨hs, rfl, rfl⟩
        · cases h
    | ext e =>
        simp only [serverExec] at h
        split at h
        · next hs =>
            obtain ⟨⟨r', rest⟩, hr, he⟩ := Option.map_eq_some_iff.mp h
            cases he
            exact ⟨hs, rest, Ext.exec_sound hr, rfl⟩
        · cases h
  env_sound h := by
    obtain ⟨w, hw, rfl⟩ := Option.map_eq_some_iff.mp h
    exact ⟨w, K.move_sound hw, rfl⟩
  divert_sound {t o s x s'} h := by
    cases o with
    | ext e =>
        cases e with
        | sys call =>
            simp only [serverKill] at h
            split at h
            · next hs =>
                obtain ⟨w, hw, he⟩ := Option.map_eq_some_iff.mp h
                cases he
                exact ⟨hs, rfl, .inl ⟨{ s.rest with world := w }, ⟨w, K.kills_sound hw, rfl⟩, rfl⟩⟩
            · cases h
        | _ => cases h
    | _ => cases h

/-- The server in the world of a script, played. -/
def serverPlayer (W : Script (Thread n)) (serverFifoFD shutdownFD : Int) :
    Player (server n W.world serverFifoFD shutdownFD) Empty :=
  worldPlayer W.computed serverFifoFD shutdownFD

/-- The configuration in which the main thread starts to read requests, in a given state of the world:
the administrator's account is the only one, with the given salt and hash, and `malloc` has left
`activeOffices` as it is. -/
def startConfig {W : World (Thread n)} (world : W.State) (hash salt : Bytes) (activeOffices : ℕ → ℕ) :
    Config (Thread n) ServerOp ServerRes (ServerState n W) Ctl where
  shared :=
    { cells := Function.update clearAccounts 0 ⟨true, ⟨0, hash, salt, 0⟩⟩
      owner := fun _ => none
      rest :=
        { alive := true
          queueMutex := none
          queueEmptySem := bufferSize
          queueFullSem := 0
          queue := queueCreate bufferSize
          activeOffices := activeOffices
          cancelled := fun _ => false
          terminated := fun _ => false
          world := world } }
  prog
    | .main => .ret .read
    | .office _ => .ret .start

/-- The same in the world of a script. -/
def firstConfig (W : Script (Thread n)) (hash salt : Bytes) (activeOffices : ℕ → ℕ) :
    Config (Thread n) ServerOp ServerRes (ServerState n W.world) Ctl :=
  startConfig (W := W.world) W.start hash salt activeOffices

/-- The table that `setupAccounts` makes. -/
theorem solo_setupAccounts {ans : (e : Ext) → Option e.Res} {adminPassword hash salt : Bytes}
    (hsalt : ans (.sys .generateSalt) = some salt)
    (hhash : ans (.sys (.generateHash adminPassword salt)) = some (some hash)) :
    (setupAccounts adminPassword).solo table ans clearAccounts
      = some ((), Function.update clearAccounts 0 ⟨true, ⟨0, hash, salt, 0⟩⟩) := by
  refine (Prog.solo_ext hsalt).trans ((Prog.solo_ext hhash).trans ?_)
  change some ((), _) = some ((), _)
  congr 2
  funext i
  by_cases hi : i = 0
  · subst hi
    rfl
  · simp [table, adminAccountId, hi]

/-- What the world answers when the administrator's account is made. -/
def setupAnswers (hash salt : Bytes) : (e : Ext) → Option e.Res
  | .sys .generateSalt => some salt
  | .sys (.generateHash ..) => some (some hash)
  | _ => none

/-- It is the initial configuration of a server. -/
theorem initial_startConfig {W : World (Thread n)} {world : W.State} (hworld : W.init world)
    (hash salt : Bytes) (activeOffices : ℕ → ℕ) (serverFifoFD shutdownFD : Int) :
    (server n W serverFifoFD shutdownFD).Initial (startConfig world hash salt activeOffices) := by
  refine ⟨⟨⟨setupAnswers hash salt, [], ?_⟩, fun _ => rfl, rfl, rfl, rfl, rfl, rfl, fun _ => rfl,
    fun _ => rfl, hworld⟩, fun t => by cases t <;> rfl⟩
  exact solo_setupAccounts rfl rfl

/-- So it is in the world of a script. -/
theorem initial_firstConfig (W : Script (Thread n)) (hash salt : Bytes) (activeOffices : ℕ → ℕ)
    (serverFifoFD shutdownFD : Int) :
    (server n W.world serverFifoFD shutdownFD).Initial (firstConfig W hash salt activeOffices) :=
  initial_startConfig rfl hash salt activeOffices serverFifoFD shutdownFD

/-! ## Requests to play with -/

/-- A request of the administrator's to create an account, with an empty password and no delay. -/
def creationRequest (newAccId balance : UInt32) : TlvRequest :=
  { type := .opCreateAccount
    length := 62
    value :=
      { header := ⟨100, adminAccountId, List.replicate 21 0, 0⟩
        create := ⟨newAccId, balance, List.replicate 21 0⟩ } }

/-- A request to transfer an amount, with an empty password and no delay. -/
def transferRequest (srcAccId destAccId amount : UInt32) : TlvRequest :=
  { type := .opTransfer
    length := 41
    value :=
      { header := ⟨100, srcAccId, List.replicate 21 0, 0⟩
        create := ⟨destAccId, amount, List.replicate 21 0⟩ } }

end Sope
