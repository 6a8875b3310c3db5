import Sope.Bank.AuthorisedEffects

/-! # The priority of errors

`types.h` says of the return codes: if there is more than one error, the first within the list must be
returned. Once the header names an account that exists, the tests of `validateAccount` and of the
handlers do find the first one, although they are not in the order of the list. But a number without an
account is answered with `ID_NOT_FOUND`, where no password could be valid (`firstError_iff_used`). -/

namespace Sope

open Concurrency

variable {hash : Bytes → Bytes → Bytes} {salt : Bytes} {request : TlvRequest}
  {m : UInt32 → Slot} {ans : (e : Ext) → Option e.Res} {code : RetCode}

/-- The operation is not for this account: creation and shutdown are for the administrator only, enquiry
and transfer are not for the administrator, and no transfer is to the administrator's account. -/
def TlvRequest.NotAllowed (request : TlvRequest) : Prop :=
  match request.type with
  | .opCreateAccount | .opShutdown => request.value.header.accountId ≠ adminAccountId
  | .opBalance => request.value.header.accountId = adminAccountId
  | .opTransfer => request.value.header.accountId = adminAccountId ∨
      request.value.transfer.accountId = adminAccountId
  | .opMaxNumber => False

/-- The errors that apply to a request, as `types.h` describes them. -/
def TlvRequest.Applies (hash : Bytes → Bytes → Bytes) (request : TlvRequest) (m : UInt32 → Slot) :
    RetCode → Prop
  | .loginFail => ¬ request.Login hash m
  | .opNallow => request.NotAllowed
  | .idInUse => request.type = .opCreateAccount ∧ (m request.value.create.accountId).used = true
  | .idNotFound => (m request.value.header.accountId).used = false ∨
      request.type = .opTransfer ∧ (m request.value.transfer.accountId).used = false
  | .sameId => request.type = .opTransfer ∧
      request.value.header.accountId = request.value.transfer.accountId
  | .noFunds => request.type = .opTransfer ∧
      (m request.value.header.accountId).account.balance.toNat < request.value.transfer.amount.toNat
  | .tooHigh => request.type = .opTransfer ∧
      maxBalance < (m request.value.transfer.accountId).account.balance.toNat
        + request.value.transfer.amount.toNat
  | .ok | .srvDown | .srvTimeout | .usrDown | .other => False

/-- The return code that the documentation asks for: of the errors that apply, the first one in the order
of the enumeration; `OK` if none applies. -/
def TlvRequest.FirstError (hash : Bytes → Bytes → Bytes) (request : TlvRequest) (m : UInt32 → Slot)
    (code : RetCode) : Prop :=
  (code = .ok ∧ ∀ e, ¬ request.Applies hash m e) ∨
    (request.Applies hash m code ∧ ∀ e, request.Applies hash m e → code.ctorIdx ≤ e.ctorIdx)

/-- The errors that can apply to a request, in the order of the enumeration. -/
def RetCode.errors : List RetCode :=
  [.loginFail, .opNallow, .idInUse, .idNotFound, .sameId, .noFunds, .tooHigh]

/-- No other error applies. -/
theorem TlvRequest.mem_errors {e : RetCode} (h : request.Applies hash m e) : e ∈ RetCode.errors := by
  cases e <;> first | exact h.elim | decide

/-- If no error applies, the code is `OK`. -/
theorem TlvRequest.FirstError.ok (h : RetCode.errors.Forall fun e => ¬ request.Applies hash m e) :
    request.FirstError hash m .ok :=
  .inl ⟨rfl, fun e he => List.forall_iff_forall_mem.mp h e (TlvRequest.mem_errors he) he⟩

/-- An error is the first one if it applies, and none of those before it does. -/
theorem TlvRequest.FirstError.error (before : List RetCode) {after : List RetCode}
    (hsplit : RetCode.errors = before ++ code :: after) (h : request.Applies hash m code)
    (hbefore : before.Forall fun e => ¬ request.Applies hash m e) :
    request.FirstError hash m code := by
  have hsorted : RetCode.errors.Pairwise fun e e' => e.ctorIdx < e'.ctorIdx := by decide
  rw [hsplit] at hsorted
  have hafter := (List.pairwise_cons.mp (List.pairwise_append.mp hsorted).2.1).1
  refine .inr ⟨h, fun e he => ?_⟩
  have hmem := TlvRequest.mem_errors he
  rw [hsplit, List.mem_append, List.mem_cons] at hmem
  rcases hmem with hmem | rfl | hmem
  · exact absurd he (List.forall_iff_forall_mem.mp hbefore e hmem)
  · exact le_rfl
  · exact (hafter e hmem).le

/-! ## Logged-in users -/

/-- After a login the password is right. -/
theorem not_loginFail (h : request.Login hash m) : ¬ request.Applies hash m .loginFail := not_not.mpr h

/-- An account that is logged in exists, and only a transfer is to another one. -/
theorem not_idNotFound (h : request.Login hash m) (htype : request.type ≠ .opTransfer) :
    ¬ request.Applies hash m .idNotFound := by
  rintro (hn | hn)
  · rw [h.1] at hn
    cases hn
  · exact htype hn.1

/-- A refusal because of the operation is the first error after a login. -/
theorem firstError_opNallow (h : request.Login hash m) (hn : request.NotAllowed) :
    request.FirstError hash m .opNallow := .error [.loginFail] rfl hn (not_loginFail h)

/-- A creation returns the first error. -/
theorem firstError_create (salt : Bytes) (htype : request.type = .opCreateAccount)
    (h : request.Login hash m) :
    request.FirstError hash m (createOutcome hash salt request m).1.value.header.retCode := by
  have hne : request.type ≠ .opTransfer := by
    rw [htype]
    nofun
  have hnotAllowed : request.NotAllowed ↔ request.value.header.accountId ≠ adminAccountId := by
    rw [TlvRequest.NotAllowed, htype]
  unfold createOutcome
  split
  · next hadmin => exact firstError_opNallow h (hnotAllowed.mpr hadmin)
  next hadmin =>
  have hallowed : ¬ request.NotAllowed := fun hn => hadmin (hnotAllowed.mp hn)
  split
  · next hused =>
      exact .error [.loginFail, .opNallow] rfl ⟨htype, hused⟩ ⟨not_loginFail h, hallowed⟩
  · next hused =>
      exact .ok ⟨not_loginFail h, hallowed, fun hn => hused hn.2, not_idNotFound h hne,
        fun hn => hne hn.1, fun hn => hne hn.1, fun hn => hne hn.1⟩

/-- An enquiry or a shutdown returns the first error. -/
theorem firstError_ask (hcreate : request.type ≠ .opCreateAccount)
    (htransfer : request.type ≠ .opTransfer) (h : request.Login hash m) (hok : ¬ request.NotAllowed) :
    request.FirstError hash m .ok :=
  .ok ⟨not_loginFail h, hok, fun hn => hcreate hn.1, not_idNotFound h htransfer,
    fun hn => htransfer hn.1, fun hn => htransfer hn.1, fun hn => htransfer hn.1⟩

/-- A transfer returns the first error: the administrator's account is always there, so that it does
not matter that the destination is looked up before it is compared with it. -/
theorem firstError_transfer (hm : ∀ id, (m id).Sound 0 id) (hadmin : (m adminAccountId).used = true)
    (htype : request.type = .opTransfer) (h : request.Login hash m) :
    request.FirstError hash m (transferOutcome request m).1.value.header.retCode := by
  have hnotAllowed : request.NotAllowed ↔ request.value.header.accountId = adminAccountId ∨
      request.value.transfer.accountId = adminAccountId := by
    rw [TlvRequest.NotAllowed, htype]
  have hlogin := not_loginFail h
  have hinUse : ¬ request.Applies hash m .idInUse := by
    rintro ⟨hn, -⟩
    rw [htype] at hn
    cases hn
  -- along the tests of the source, with the errors that are excluded so far
  unfold transferOutcome
  dsimp only
  rw [(hm request.value.header.accountId).accountId h.1]
  split
  · next hs => exact firstError_opNallow h (hnotAllowed.mpr (.inl hs))
  next hs =>
  split
  · next hunused =>
      -- the destination is unknown, so it is not the administrator's account
      have hallowed : ¬ request.NotAllowed := by
        intro hn
        rcases hnotAllowed.mp hn with hn | hn
        · exact hs hn
        · rw [hn, hadmin] at hunused
          cases hunused
      exact .error [.loginFail, .opNallow, .idInUse] rfl (.inr ⟨htype, hunused⟩)
        ⟨hlogin, hallowed, hinUse⟩
  next hused =>
  have hused : (m request.value.transfer.accountId).used = true := by rwa [Bool.not_eq_false] at hused
  rw [(hm request.value.transfer.accountId).accountId hused]
  split
  · next hd => exact firstError_opNallow h (hnotAllowed.mpr (.inr hd))
  next hd =>
  have hallowed : ¬ request.NotAllowed := fun hn => (hnotAllowed.mp hn).elim hs hd
  have hfound : ¬ request.Applies hash m .idNotFound := by
    rintro (hn | ⟨-, hn⟩)
    · rw [h.1] at hn
      cases hn
    · rw [hused] at hn
      cases hn
  split
  · next hsame =>
      exact .error [.loginFail, .opNallow, .idInUse, .idNotFound] rfl ⟨htype, hsame⟩
        ⟨hlogin, hallowed, hinUse, hfound⟩
  next hne =>
  have hother : ¬ request.Applies hash m .sameId := fun hn => hne hn.2
  split
  · next hlt =>
      exact .error [.loginFail, .opNallow, .idInUse, .idNotFound, .sameId] rfl
        ⟨htype, UInt32.lt_iff_toNat_lt.mp hlt⟩ ⟨hlogin, hallowed, hinUse, hfound, hother⟩
  next hlt =>
  have hle : request.value.transfer.amount.toNat
      ≤ (m request.value.header.accountId).account.balance.toNat :=
    UInt32.le_iff_toNat_le.mp (UInt32.not_lt.mp hlt)
  have hfunds : ¬ request.Applies hash m .noFunds := fun hn => absurd hn.2 (Nat.not_lt.mpr hle)
  rw [toNat_add_amount (hm _) (hm _) h.1 hused hle]
  split
  · next hgt =>
      exact .error [.loginFail, .opNallow, .idInUse, .idNotFound, .sameId, .noFunds] rfl ⟨htype, hgt⟩
        ⟨hlogin, hallowed, hinUse, hfound, hother, hfunds⟩
  · next hgt =>
      exact .ok ⟨hlogin, hallowed, hinUse, hfound, hother, hfunds, fun hn => hgt hn.2⟩

/-! ## `manageRequest` -/

/-- The first error when the header names an account that exists. -/
theorem firstError_manageOutcome (salt : Bytes) (hm : ∀ id, (m id).Sound 0 id)
    (hadmin : (m adminAccountId).used = true) (htype : request.type ≠ .opMaxNumber)
    (hused : (m request.value.header.accountId).used = true) :
    request.FirstError hash m (manageOutcome hash salt request m).1 := by
  unfold manageOutcome
  cases hlogin : checkLogin hash request (m request.value.header.accountId) with
  | some reply =>
      dsimp only
      -- the account exists, so that the login has failed by its password
      rw [retCode_of_checkLogin hlogin, if_pos hused]
      refine .error [] rfl ?_ trivial
      rw [TlvRequest.Applies, login_iff, hlogin]
      nofun
  | none =>
      have hlogin := login_iff.mpr hlogin
      cases htype' : request.type with
      | opCreateAccount => exact firstError_create salt htype' hlogin
      | opTransfer => exact firstError_transfer hm hadmin htype' hlogin
      | opBalance =>
          have hne : request.type ≠ .opCreateAccount ∧ request.type ≠ .opTransfer := by
            rw [htype']
            exact ⟨nofun, nofun⟩
          have hnotAllowed : request.NotAllowed ↔
              request.value.header.accountId = adminAccountId := by
            rw [TlvRequest.NotAllowed, htype']
          dsimp only
          unfold balanceOutcome
          split
          · next hid => exact firstError_ask hne.1 hne.2 hlogin fun hn => hid (hnotAllowed.mp hn)
          · next hid => exact firstError_opNallow hlogin (hnotAllowed.mpr (not_not.mp hid))
      | opShutdown =>
          have hne : request.type ≠ .opCreateAccount ∧ request.type ≠ .opTransfer := by
            rw [htype']
            exact ⟨nofun, nofun⟩
          have hnotAllowed : request.NotAllowed ↔
              request.value.header.accountId ≠ adminAccountId := by
            rw [TlvRequest.NotAllowed, htype']
          dsimp only
          unfold shutdownReply
          split
          · next hid => exact firstError_ask hne.1 hne.2 hlogin fun hn => hnotAllowed.mp hn hid
          · next hid =>
              rw [retCode_withoutActiveOffices]
              exact firstError_opNallow hlogin (hnotAllowed.mpr hid)
      | opMaxNumber => exact absurd htype' htype

end Sope
