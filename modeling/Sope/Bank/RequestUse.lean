import Sope.Bank.Footprints
import Sope.Concurrency.Comparison

/-! # What is used of a request

`manageRequest` looks at some fields of its request only, and at the passwords only up to their first NUL.

* `TlvRequest.Agrees` — the requests agree in what is used of them.
* `alike_manageRequest` — then `manageRequest` does the same with both.
* `password_of_alike`, `createPassword_of_alike` — it does not if their passwords differ.
* `makes_manageRequest` — it always assigns the reply, if the request is for one of the operations. -/

namespace Sope

open Concurrency

/-- A mark of what is visible in a run is nothing that the program does. -/
def IsMark (o : ServerOp) : Prop := ∃ m, o = .ext (.mark m)

/-- The requests agree in what is used of them. -/
structure TlvRequest.Agrees (request request' : TlvRequest) : Prop where
  type : request'.type = request.type
  pid : request'.value.header.pid = request.value.header.pid
  accountId : request'.value.header.accountId = request.value.header.accountId
  password : cString request'.value.header.password = cString request.value.header.password
  opDelayMs : request'.value.header.opDelayMs = request.value.header.opDelayMs
  newAccountId : request.type = .opCreateAccount →
    request'.value.create.accountId = request.value.create.accountId
  newAccount : request.type = .opCreateAccount → request.value.header.accountId = adminAccountId →
    request'.value.create.balance = request.value.create.balance ∧
      cString request'.value.create.password = cString request.value.create.password
  transfer : request.type = .opTransfer → request'.value.transfer = request.value.transfer

/-! ## Requests that agree -/

section Agrees

variable {request request' : TlvRequest} (h : request.Agrees request')
include h

theorem TlvRequest.Agrees.makeErrorReply (retCode : RetCode) :
    makeErrorReply retCode request' = makeErrorReply retCode request := by
  simp only [Sope.makeErrorReply, h.type, h.accountId]

/-- A login looks at the account and its password. -/
theorem TlvRequest.Agrees.validateAccount : validateAccount request' = validateAccount request := by
  simp only [Sope.validateAccount, h.makeErrorReply, h.accountId]
  -- the password occurs in the type of the hash as well
  rw [h.password]

theorem TlvRequest.Agrees.handleShutdownRequest (setup : Setup) :
    handleShutdownRequest setup request' = handleShutdownRequest setup request := by
  simp only [Sope.handleShutdownRequest, h.makeErrorReply, h.accountId, h.opDelayMs]

/-- The account is created with what the requests agree in, if it is created at all. -/
theorem alike_handleCreateAccountRequest (htype : request.type = .opCreateAccount) :
    Prog.Alike IsMark (handleCreateAccountRequest request) (handleCreateAccountRequest request') := by
  refine .silent ⟨_, rfl⟩ ⟨_, rfl⟩ fun _ _ => ?_
  simp only [h.accountId, h.newAccountId htype, h.makeErrorReply]
  split
  · exact .refl _
  · next hadmin =>
      obtain ⟨hbalance, hpassword⟩ := h.newAccount htype (not_not.mp hadmin)
      rw [hbalance, hpassword]
      exact .refl _

theorem alike_handleBalanceRequest :
    Prog.Alike IsMark (handleBalanceRequest request) (handleBalanceRequest request') := by
  refine .silent ⟨_, rfl⟩ ⟨_, rfl⟩ fun _ _ => ?_
  simp only [h.accountId, h.makeErrorReply]
  exact .refl _

theorem alike_handleTransferRequest (htype : request.type = .opTransfer) :
    Prog.Alike IsMark (handleTransferRequest request) (handleTransferRequest request') := by
  refine .silent ⟨_, rfl⟩ ⟨_, rfl⟩ fun _ _ => ?_
  simp only [h.accountId, h.transfer htype]
  exact .refl _

/-- The operation of a request, with its locks. -/
theorem alike_performRequest (setup : Setup) :
    Prog.Alike IsMark (performRequest setup request) (performRequest setup request') := by
  unfold performRequest
  rw [h.type]
  cases htype : request.type with
  | opCreateAccount =>
      simp only [h.newAccountId htype, h.opDelayMs]
      exact (Prog.Alike.refl _).bind fun _ =>
        (alike_handleCreateAccountRequest h htype).bind fun _ => .refl _
  | opBalance =>
      simp only [h.accountId, h.opDelayMs]
      exact (Prog.Alike.refl _).bind fun _ => (alike_handleBalanceRequest h).bind fun _ => .refl _
  | opTransfer =>
      simp only [h.accountId, h.transfer htype, h.opDelayMs]
      exact (Prog.Alike.refl _).bind fun _ =>
        (alike_handleTransferRequest h htype).bind fun _ => .refl _
  | opShutdown =>
      simp only [h.handleShutdownRequest]
      exact .refl _
  | opMaxNumber => exact .refl _

/-- **Nothing else is used.** With requests that agree `manageRequest` does the same. -/
theorem alike_manageRequest (setup : Setup) :
    Prog.Alike IsMark (manageRequest setup request) (manageRequest setup request') := by
  simp only [manageRequest, h.pid, h.accountId, h.validateAccount]
  refine (Prog.Alike.refl _).bind fun _ => (Prog.Alike.refl _).bind fun invalid =>
    (Prog.Alike.refl _).bind fun _ => ?_
  cases invalid with
  | some reply => exact .refl _
  | none => exact (alike_performRequest h setup).bind fun _ => .refl _

end Agrees

/-! ## Requests that do not agree -/

/-- A call of the system is observed. -/
theorem not_isMark_sys (call : SysCall) : ¬ IsMark (.ext (.sys call)) := by
  rintro ⟨m, hm⟩
  cases hm

section Differ

variable {setup : Setup} {request request' : TlvRequest}

/-- The password of every request is hashed if its account is used. -/
theorem password_of_alike
    (h : Prog.Alike IsMark (manageRequest setup request) (manageRequest setup request'))
    (hid : request'.value.header.accountId = request.value.header.accountId) :
    cString request'.value.header.password = cString request.value.header.password := by
  unfold manageRequest validateAccount getAccount at h
  rw [hid] at h
  have hlocked := Prog.Alike.of_op h ()
  have hused := Prog.Alike.of_op hlocked true
  have hsalt := Prog.Alike.of_op hused ([] : Bytes)
  have hhash := Prog.Alike.eq_of_op (not_isMark_sys _) hsalt
  injection hhash with hhash
  injection hhash with hhash
  injection hhash with hpassword
  exact hpassword.symm

/-- The password of a new account is hashed if the administrator creates it. -/
theorem createPassword_of_alike_handle {α : Type} {f f' : TlvReply → Server α}
    (h : Prog.Alike IsMark (handleCreateAccountRequest request >>= f)
      (handleCreateAccountRequest request' >>= f'))
    (hadmin : request.value.header.accountId = adminAccountId)
    (hadmin' : request'.value.header.accountId = adminAccountId)
    (hid : request'.value.create.accountId = request.value.create.accountId) :
    cString request'.value.create.password = cString request.value.create.password := by
  unfold handleCreateAccountRequest getAccount createAccount fillAccount at h
  rw [hadmin, hadmin', hid] at h
  have hentered := Prog.Alike.of_heq h () () HEq.rfl
  have hunused := Prog.Alike.of_op hentered false
  have hsalt := Prog.Alike.of_op hunused ([] : Bytes)
  have hhash := Prog.Alike.eq_of_op (not_isMark_sys _) hsalt
  injection hhash with hhash
  injection hhash with hhash
  injection hhash with hpassword
  exact hpassword.symm

/-- So it is if the administrator may log in and the account does not exist. -/
theorem createPassword_of_alike
    (h : Prog.Alike IsMark (manageRequest setup request) (manageRequest setup request'))
    (htype : request.type = .opCreateAccount) (htype' : request'.type = .opCreateAccount)
    (hadmin : request.value.header.accountId = adminAccountId)
    (hadmin' : request'.value.header.accountId = adminAccountId)
    (hid : request'.value.create.accountId = request.value.create.accountId)
    (hdelay : request'.value.header.opDelayMs = request.value.header.opDelayMs) :
    cString request'.value.create.password = cString request.value.create.password := by
  have hpassword := password_of_alike h (hadmin'.trans hadmin.symm)
  unfold manageRequest validateAccount getAccount performRequest at h
  rw [hadmin, hadmin', hpassword, htype, htype', hid, hdelay] at h
  -- the login succeeds
  have hlocked := Prog.Alike.of_op h ()
  have hused := Prog.Alike.of_op hlocked true
  have hsalt := Prog.Alike.of_op hused ([] : Bytes)
  have hhash := Prog.Alike.of_op hsalt (some ([] : Bytes))
  have hvalid := Prog.Alike.of_op hhash ([] : Bytes)
  have hunlocked := Prog.Alike.of_op hvalid ()
  -- the new account is locked
  have hnewLocked := Prog.Alike.of_op hunlocked ()
  have hdelayed := Prog.Alike.of_op hnewLocked ()
  change Prog.Alike IsMark (handleCreateAccountRequest request >>= _ >>= _)
    (handleCreateAccountRequest request' >>= _ >>= _) at hdelayed
  rw [Prog.bind_assoc, Prog.bind_assoc] at hdelayed
  exact createPassword_of_alike_handle hdelayed hadmin hadmin' hid

end Differ

/-! ## Replies -/

/-- The operation does not use a reply that has not been assigned. -/
def Assigned (o : ServerOp) : Prop := o ≠ .ext (.sys .unassignedReply)

/-- Of the operations between a lock and its unlock only calls of the system may use it. -/
theorem Assigned.of_within {α : Type} {p : Server α} {A : TableOp → Prop} {E : Ext → Prop}
    (hp : p.Within A E) (hE : ∀ e, E e → e ≠ .sys .unassignedReply) : p.Makes Assigned := by
  induction p with
  | ret a => trivial
  | op o k ih =>
      cases o with
      | lock id | unlock id => exact hp.elim
      | access a => exact ⟨by simp [Assigned], fun r => ih r (hp.2 r)⟩
      | ext e =>
          refine ⟨fun h => hE e hp.1 ?_, fun r => ih r (hp.2 r)⟩
          injection h

theorem makes_opDelay (delayMS : UInt32) : (opDelay delayMS).Makes Assigned :=
  ⟨by simp [Assigned], fun _ => trivial⟩

theorem makes_validateAccount (request : TlvRequest) : (validateAccount request).Makes Assigned :=
  Assigned.of_within (views_validateAccount (H := fun _ => True) trivial) fun e he => by
    rintro rfl
    cases he

theorem makes_handleBalanceRequest (request : TlvRequest) :
    (handleBalanceRequest request).Makes Assigned :=
  Assigned.of_within (views_handleBalanceRequest (H := fun _ => True) trivial) fun e he => by
    rintro rfl
    cases he

theorem makes_handleTransferRequest (request : TlvRequest) :
    (handleTransferRequest request).Makes Assigned :=
  Assigned.of_within (computes_handleTransferRequest (H := fun _ => True) trivial trivial) fun e he => by
    rintro rfl
    cases he

theorem makes_handleCreateAccountRequest (request : TlvRequest) :
    (handleCreateAccountRequest request).Makes Assigned := by
  have hfill : ∀ id balance password salt, (fillAccount id balance password salt).Makes Assigned :=
    fun id balance password salt => Assigned.of_within within_fillAccount fun e he => by
      rintro rfl
      cases he
  refine ⟨by simp [Assigned], fun _ => ?_⟩
  refine Prog.Makes.ite (fun _ => trivial) fun _ => ⟨by simp [Assigned], fun used => ?_⟩
  cases used with
  | true => trivial
  | false => exact ⟨by simp [Assigned], fun salt => (hfill _ _ _ _).bind fun _ => trivial⟩

theorem makes_handleShutdownRequest (setup : Setup) (request : TlvRequest) :
    (handleShutdownRequest setup request).Makes Assigned := by
  have hcount : ∀ n, (getNumActiveOffices n).Makes Assigned := fun n =>
    Assigned.of_within (within_countActive (A := fun _ => True) (E := (· ≠ .sys .unassignedReply))
      (fun _ => by simp) _ _) fun _ he => he
  refine (makes_opDelay _).bind fun _ => Prog.Makes.ite (fun _ => ?_) fun _ => trivial
  exact ⟨by simp [Assigned], fun _ => ⟨by simp [Assigned], fun _ => (hcount _).bind fun _ => trivial⟩⟩

theorem makes_sendReply (reply : TlvReply) (userFifoPath : Bytes) :
    (sendReply reply userFifoPath).Makes Assigned := by
  have hlog : ∀ reply, (logReply reply).Makes Assigned := fun reply => ⟨by simp [Assigned], fun _ => trivial⟩
  refine ⟨by simp [Assigned], fun (fd : Int) => ?_⟩
  refine Prog.Makes.ite (fun _ => ⟨by simp [Assigned], fun _ => hlog _⟩) fun _ => ?_
  refine ⟨by simp [Assigned], fun (written : Int) => ?_⟩
  refine Prog.Makes.ite (fun _ => ⟨by simp [Assigned], fun r => r.elim⟩) fun _ => ?_
  exact ⟨by simp [Assigned], fun _ => hlog _⟩

theorem makes_lockAccount (id : UInt32) : (lockAccount id).Makes Assigned :=
  ⟨by simp [Assigned], fun _ => trivial⟩

theorem makes_unlockAccount (id : UInt32) : (unlockAccount id).Makes Assigned :=
  ⟨by simp [Assigned], fun _ => trivial⟩

theorem makes_performRequest (setup : Setup) {request : TlvRequest} (h : request.type ≠ .opMaxNumber) :
    (performRequest setup request).Makes Assigned := by
  have hsingle : ∀ id delayMS, (getSingleAccountAccess id delayMS).Makes Assigned := fun id delayMS =>
    (makes_lockAccount _).bind fun _ => makes_opDelay _
  unfold performRequest
  cases htype : request.type with
  | opCreateAccount =>
      exact (hsingle _ _).bind fun _ => (makes_handleCreateAccountRequest _).bind fun _ =>
        (makes_unlockAccount _).bind fun _ => trivial
  | opBalance =>
      exact (hsingle _ _).bind fun _ => (makes_handleBalanceRequest _).bind fun _ =>
        (makes_unlockAccount _).bind fun _ => trivial
  | opTransfer =>
      have hdouble : ∀ id1 id2 delayMS, (getDoubleAccountAccess id1 id2 delayMS).Makes Assigned :=
        fun id1 id2 delayMS => Prog.Makes.ite (fun _ => hsingle _ _) fun _ =>
          (makes_lockAccount _).bind fun _ => (makes_opDelay _).bind fun _ => hsingle _ _
      have hunlock : ∀ id1 id2, (unlockDoubleAccount id1 id2).Makes Assigned := fun id1 id2 =>
        Prog.Makes.ite (fun _ => makes_unlockAccount _) fun _ =>
          (makes_unlockAccount _).bind fun _ => makes_unlockAccount _
      exact (hdouble _ _ _).bind fun _ => (makes_handleTransferRequest _).bind fun _ =>
        (hunlock _ _).bind fun _ => trivial
  | opShutdown => exact makes_handleShutdownRequest setup request
  | opMaxNumber => exact (h htype).elim

/-- **The reply has been assigned**, if the request is for one of the operations. -/
theorem makes_manageRequest (setup : Setup) {request : TlvRequest} (h : request.type ≠ .opMaxNumber) :
    (manageRequest setup request).Makes Assigned := by
  refine (makes_lockAccount _).bind fun _ => (makes_validateAccount request).bind fun invalid =>
    (makes_unlockAccount _).bind fun _ => ?_
  cases invalid with
  | some reply => exact (makes_sendReply _ _).bind fun _ => trivial
  | none =>
      exact (makes_performRequest setup h).bind fun _ => (makes_sendReply _ _).bind fun _ => trivial

end Sope
