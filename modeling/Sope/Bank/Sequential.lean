import Sope.Concurrency.Serial
import Sope.Bank.Books

/-! # Requests one at a time

What `manageRequest` does when nothing else runs: the salt that it draws is an input, `generateHash`
is a function that succeeds, and the reply reaches the user. A `Job` is a request with the salt drawn
for it and the reply it gets, and `Job.Serial` says that this is what `manageRequest` does alone. -/

namespace Sope

open Concurrency

/-- The results of the system's calls. -/
def SysCall.answer (hash : Bytes → Bytes → Bytes) (salt : Bytes) : (call : SysCall) → Option call.Res
  | .generateSalt => some salt
  | .generateHash password salt => some (some (hash password salt))
  | .openFifo _ => some (3 : Int)
  | .write _ bytes => some (bytes.length : Int)
  | .usleep _ | .close _ | .fchmod _ | .logReply _ => some ()
  | .newRequest | .unassignedReply | .read .. => none

/-- The results of the operations that `manageRequest` performs on everything but the accounts. -/
def Ext.answer (hash : Bytes → Bytes → Bytes) (salt : Bytes) : (e : Ext) → Option e.Res
  | .readActive _ => some (0 : ℕ)
  | .add a b => some (a + b)
  | .sub a b => some (a - b)
  | .sys call => call.answer hash salt
  | .mark _ => some ()
  | _ => none

/-- What is around a program that runs alone answers it: `generateHash` is the function `hash`, `salt`
is drawn, sums and differences are right, calls return, and writing to a FIFO does not fail. -/
structure Answers (hash : Bytes → Bytes → Bytes) (salt : Bytes) (ans : (e : Ext) → Option e.Res) :
    Prop where
  generateHash : ∀ password salt,
    ans (.sys (.generateHash password salt)) = some (some (hash password salt))
  generateSalt : ans (.sys .generateSalt) = some salt
  add : ∀ a b, ans (.add a b) = some (a + b)
  sub : ∀ a b, ans (.sub a b) = some (a - b)
  mark : ∀ m, ans (.mark m) = some ()
  usleep : ∀ us, ans (.sys (.usleep us)) = some ()
  close : ∀ fd, ans (.sys (.close fd)) = some ()
  fchmod : ∀ fd, ans (.sys (.fchmod fd)) = some ()
  logReply : ∀ reply, ans (.sys (.logReply reply)) = some ()
  readActive : ∀ i, ∃ active : ℕ, ans (.readActive i) = some active
  openFifo : ∀ path, ∃ fd : Int, ans (.sys (.openFifo path)) = some fd
  write : ∀ fd bytes, ∃ written : Int, written ≠ -1 ∧ ans (.sys (.write fd bytes)) = some written

/-- The results above are such answers. -/
theorem answers_answer (hash : Bytes → Bytes → Bytes) (salt : Bytes) :
    Answers hash salt (Ext.answer hash salt) where
  generateHash _ _ := rfl
  generateSalt := rfl
  add _ _ := rfl
  sub _ _ := rfl
  mark _ := rfl
  usleep _ := rfl
  close _ := rfl
  fchmod _ := rfl
  logReply _ := rfl
  readActive _ := ⟨0, rfl⟩
  openFifo _ := ⟨3, rfl⟩
  write _ bytes := ⟨bytes.length, by omega, rfl⟩

/-- A request, the salt drawn for it (nothing, if none was drawn), and the reply, without the number
of active offices. -/
structure Job where
  request : TlvRequest
  salt : Bytes
  reply : TlvReply
  deriving DecidableEq

/-- Alone, `manageRequest` takes the table `m` to `m'`, with this reply. -/
def Job.Serial (setup : Setup) (hash : Bytes → Bytes → Bytes) (job : Job) (m m' : UInt32 → Slot) :
    Prop :=
  ∃ reply, (manageRequest setup job.request).solo table (Ext.answer hash job.salt) m
      = some (reply, m') ∧ reply.withoutActiveOffices = job.reply

variable {setup : Setup} {hash : Bytes → Bytes → Bytes} {salt : Bytes} {request : TlvRequest}
  {m m' : UInt32 → Slot} {ans : (e : Ext) → Option e.Res}

/-! ## The login -/

/-- The outcome of a login: the reply that refuses it, or nothing. -/
def checkLogin (hash : Bytes → Bytes → Bytes) (request : TlvRequest) (slot : Slot) :
    Option TlvReply :=
  if slot.used then
    if hash (cString request.value.header.password) slot.account.salt ≠ slot.account.hash then
      some (makeErrorReply .loginFail request)
    else none
  else some (makeErrorReply .idNotFound request)

/-- A login that succeeds would succeed at any later moment. -/
theorem checkLogin_of_stable {slot slot' : Slot} (hs : slot.Stable slot')
    (h : checkLogin hash request slot = none) : checkLogin hash request slot' = none := by
  have hused : slot.used = true := by
    by_contra hu
    simp [checkLogin, hu] at h
  obtain ⟨hused', -, hhash, hsalt⟩ := hs hused
  simpa [checkLogin, hused, hused', hhash, hsalt] using h

/-- Reading a field, alone. -/
theorem solo_read {α : Type} {a : TableOp} {k : a.Res → Server α} {r : a.Res}
    (hread : a.isRead = true) (hr : (table.run a (m (table.loc a))).1 = r) :
    (Prog.op (MemOp.access a) k : Server α).solo table ans m = (k r).solo table ans m :=
  Prog.solo_access (TableOp.run_of_isRead hread _) hr

/-- `getAccount`, alone. -/
theorem solo_getAccount {α : Type} {id : UInt32} {f : Option UInt32 → Server α} :
    (getAccount id >>= f).solo table ans m
      = (f (if (m id).used then some id else none)).solo table ans m := by
  refine (solo_read (a := .readUsed id) rfl rfl).trans ?_
  change ((if (m id).used = true then return some id else return none : Server _) >>= f).solo _ _ _ = _
  split <;> rfl

/-- `validateAccount`, alone. -/
theorem solo_validateAccount (h : Answers hash salt ans) :
    (validateAccount request).solo table ans m
      = some (checkLogin hash request (m request.value.header.accountId), m) := by
  refine solo_getAccount.trans ?_
  unfold checkLogin
  cases hused : (m request.value.header.accountId).used with
  | false => rfl
  | true =>
      refine (solo_read (a := .readSalt request.value.header.accountId) rfl rfl).trans ?_
      refine (Prog.solo_ext (h.generateHash _ _)).trans ?_
      refine (solo_read (a := .readHash request.value.header.accountId) rfl rfl).trans ?_
      change (if hash (cString request.value.header.password)
          (m request.value.header.accountId).account.salt
          ≠ (m request.value.header.accountId).account.hash
        then _ else _ : Server (Option TlvReply)).solo _ _ _ = _
      rw [if_pos rfl]
      split <;> rfl

/-! ## The rest of `manageRequest` -/

/-- `sendReply`, alone. -/
theorem solo_sendReply (h : Answers hash salt ans) {reply : TlvReply} {path : Bytes} :
    (sendReply reply path).solo table ans m = some ((), m) := by
  have hlog : ∀ reply, (logReply reply).solo table ans m = some ((), m) := fun reply =>
    (Prog.solo_ext (h.logReply reply)).trans rfl
  obtain ⟨fd, hfd⟩ := h.openFifo path
  refine (Prog.solo_ext hfd).trans ?_
  change (if fd = -1 then _ else _ : Server Unit).solo _ _ _ = _
  split
  · exact (Prog.solo_ext (h.close fd)).trans (hlog _)
  · obtain ⟨written, hne, hwritten⟩ := h.write fd (replyBytes reply)
    refine (Prog.solo_ext hwritten).trans ?_
    change (if written = -1 then _ else _ : Server Unit).solo _ _ _ = _
    rw [if_neg hne]
    exact (Prog.solo_ext (h.close fd)).trans (hlog _)

/-- `getNumActiveOffices`, alone. -/
theorem solo_countActive (h : Answers hash salt ans) (offices : List ℕ) (numActiveOffices : ℕ) :
    ∃ count, (countActive offices numActiveOffices).solo table ans m = some (count, m) := by
  induction offices generalizing numActiveOffices with
  | nil => exact ⟨_, rfl⟩
  | cons i rest ih =>
      obtain ⟨active, hactive⟩ := h.readActive i
      obtain ⟨count, hcount⟩ := ih (numActiveOffices + active)
      exact ⟨count, (Prog.solo_ext hactive).trans hcount⟩

/-- The reply to a shutdown request, without the number of active offices. -/
def shutdownReply (request : TlvRequest) : TlvReply :=
  if request.value.header.accountId = adminAccountId then
    (makeShutdownReply request.value.header.accountId 0).withoutActiveOffices
  else (makeErrorReply .opNallow request).withoutActiveOffices

/-- `handleShutdownRequest`, alone. -/
theorem solo_handleShutdownRequest (h : Answers hash salt ans) (setup : Setup)
    (request : TlvRequest) (m : UInt32 → Slot) :
    ∃ reply, (handleShutdownRequest setup request).solo table ans m = some (reply, m) ∧
      reply.withoutActiveOffices = shutdownReply request := by
  unfold handleShutdownRequest shutdownReply
  by_cases hadmin : request.value.header.accountId = adminAccountId
  · obtain ⟨count, hcount⟩ := solo_countActive h (m := m) (List.range setup.numberOfOffices) 0
    refine ⟨makeShutdownReply request.value.header.accountId (UInt32.ofNat count), ?_,
      (if_pos hadmin).symm⟩
    refine (Prog.solo_ext (h.usleep _)).trans ?_
    change (if _ then _ else _ : Server TlvReply).solo _ _ _ = _
    rw [if_pos hadmin]
    refine (Prog.solo_ext (h.fchmod _)).trans ((Prog.solo_ext (h.close _)).trans ?_)
    change (getNumActiveOffices setup.numberOfOffices >>= _ : Server TlvReply).solo _ _ _ = _
    rw [Prog.solo_bind, getNumActiveOffices, hcount]
    rfl
  · refine ⟨makeErrorReply .opNallow request, ?_, (if_neg hadmin).symm⟩
    refine (Prog.solo_ext (h.usleep _)).trans ?_
    change (if _ then _ else _ : Server TlvReply).solo _ _ _ = _
    rw [if_neg hadmin]
    rfl

/-- A handler between locks, alone. -/
theorem solo_locked {get put : Server Unit} {handler : Server TlvReply}
    (hget : ∀ m, get.solo table ans m = some ((), m))
    (hput : ∀ m, put.solo table ans m = some ((), m)) :
    (do get
        let reply ← handler
        put
        return reply : Server TlvReply).solo table ans m = handler.solo table ans m := by
  rw [Prog.solo_bind, hget]
  change (handler >>= _ : Server TlvReply).solo _ _ _ = _
  rw [Prog.solo_bind]
  cases handler.solo table ans m with
  | none => rfl
  | some r =>
      change (put >>= _ : Server TlvReply).solo _ _ _ = _
      rw [Prog.solo_bind, hput]
      rfl

/-- Locks do not matter to a program alone. -/
theorem solo_lock {α : Type} {id : UInt32} {k : Unit → Server α} :
    (lockAccount id >>= k).solo table ans m = (k ()).solo table ans m := rfl

theorem solo_unlock {α : Type} {id : UInt32} {k : Unit → Server α} :
    (unlockAccount id >>= k).solo table ans m = (k ()).solo table ans m := rfl

/-- `manageRequest`, alone: the login, and the operation if the login succeeds. -/
theorem solo_manageRequest (h : Answers hash salt ans) :
    (manageRequest setup request).solo table ans m =
      match checkLogin hash request (m request.value.header.accountId) with
      | some reply => some (reply, m)
      | none => (performRequest setup request).solo table ans m := by
  rw [manageRequest, solo_lock, Prog.solo_bind, solo_validateAccount h, Option.bind_some, solo_unlock]
  cases checkLogin hash request (m request.value.header.accountId) with
  | some reply =>
      dsimp only
      rw [Prog.solo_bind, solo_sendReply h]
      rfl
  | none =>
      dsimp only
      rw [Prog.solo_bind]
      cases (performRequest setup request).solo table ans m with
      | none => rfl
      | some r =>
          rw [Option.bind_some, Prog.solo_bind, solo_sendReply h]
          rfl

/-! ## Jobs -/

/-- A request whose login fails. -/
theorem Job.serial_of_invalid {reply : TlvReply}
    (h : checkLogin hash request (m request.value.header.accountId) = some reply) :
    Job.Serial setup hash ⟨request, salt, reply.withoutActiveOffices⟩ m m := by
  refine ⟨reply, ?_, rfl⟩
  rw [solo_manageRequest (answers_answer hash salt), h]

/-- A request whose login succeeds. -/
theorem Job.serial_of_valid {reply : TlvReply}
    (h : checkLogin hash request (m request.value.header.accountId) = none)
    (hp : (performRequest setup request).solo table (Ext.answer hash salt) m = some (reply, m')) :
    Job.Serial setup hash ⟨request, salt, reply.withoutActiveOffices⟩ m m' := by
  refine ⟨reply, ?_, rfl⟩
  rw [solo_manageRequest (answers_answer hash salt), h]
  exact hp

/-- A shutdown request whose login succeeds. -/
theorem Job.serial_of_shutdown (htype : request.type = .opShutdown)
    (h : checkLogin hash request (m request.value.header.accountId) = none) :
    Job.Serial setup hash ⟨request, salt, shutdownReply request⟩ m m := by
  obtain ⟨reply, hsolo, hreply⟩ := solo_handleShutdownRequest (answers_answer hash salt) setup request m
  rw [← hreply]
  refine Job.serial_of_valid h ?_
  rw [performRequest, htype]
  exact hsolo

end Sope
