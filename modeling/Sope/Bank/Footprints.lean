import Sope.Bank.Server

/-! # Footprints of the server's functions

Which accounts each function between a lock and its unlock may touch, and which other operations it
may perform. The kinds of programs told apart are `Views`, which read accounts and compute hashes,
`Reads`, which may also call the system, `Computes`, which may also change balances, and `Touches`,
which do nothing to the request queue. The programs of the main thread are `Plain`: they touch no
account. -/

namespace Sope

open Concurrency

/-- The operations that neither synchronise with other threads nor change a flag. -/
def Ext.isLocal : Ext → Bool
  | .sys _ | .add .. | .sub .. | .readActive _ | .segfault | .exit _ => true
  | .mark (.handleCreate _) | .mark (.handleBalance _) | .mark (.handleTransfer _) => true
  | _ => false

/-- A local operation changes nothing but the world. -/
theorem Ext.Sem.of_local {Tid : Type} {W : World Tid} {t : Tid} {e : Ext} {s s' : Shared W}
    {r : e.Res} (h : e.Sem t s r s') (he : e.isLocal = true) : ∃ w, s' = { s with world := w } := by
  cases e with
  | sys call =>
      obtain ⟨w, -, rfl⟩ := h
      exact ⟨w, rfl⟩
  | readActive i | add a b | sub a b => exact ⟨s.world, h.2⟩
  | mark m => exact ⟨s.world, h⟩
  | segfault | exit status => exact h.elim
  | _ => cases he

/-- The operations whose result depends on their arguments alone. -/
def Ext.isDetermined : Ext → Bool
  | .sys (.generateHash ..) | .add .. | .sub .. | .segfault => true
  | .mark (.handleCreate _) | .mark (.handleBalance _) | .mark (.handleTransfer _) => true
  | _ => false

/-- They are local. -/
theorem Ext.isLocal_of_isDetermined {e : Ext} (he : e.isDetermined = true) : e.isLocal = true := by
  cases e with
  | mark m => cases m <;> first | rfl | cases he
  | _ => first | rfl | cases he

/-- The additions and subtractions. -/
def Ext.isArithmetic : Ext → Bool
  | .add .. | .sub .. => true
  | _ => false

/-- What a login and a balance enquiry need of them. -/
def Ext.isPure : Ext → Bool
  | .sys (.generateHash ..) | .segfault | .mark (.handleBalance _) => true
  | _ => false

/-- The local operations but for the arithmetic on balances, the salts, and the marks of what changes
accounts. -/
def Ext.isInert : Ext → Bool
  | .sys .generateSalt => false
  | .sys _ | .readActive _ | .segfault | .exit _ | .mark (.handleBalance _) => true
  | _ => false

/-- The system calls that have nothing to do with passwords, and the operations around them. -/
def Ext.isCall : Ext → Bool
  | .sys .generateSalt | .sys (.generateHash ..) => false
  | .sys _ | .readActive _ | .exit _ => true
  | _ => false

/-- The operations of the main thread are among these. -/
def Ext.isPlain : Ext → Bool
  | .add .. | .sub .. | .mark _ | .queuePop | .segfault | .exit _ => false
  | .sys .generateSalt | .sys (.generateHash ..) => false
  | _ => true

/-- The accesses that change nothing. -/
def TableOp.isRead : TableOp → Bool
  | .readUsed _ | .readAccountId _ | .readHash _ | .readSalt _ | .readBalance _ => true
  | _ => false

/-- The accesses that change at most a balance. -/
def TableOp.isTransfer : TableOp → Bool
  | .writeBalance .. => true
  | a => a.isRead

/-- Reading leaves the account as it is. -/
theorem TableOp.run_of_isRead {a : TableOp} (h : a.isRead = true) (slot : Slot) :
    (table.run a slot).2 = slot := by
  cases a <;> first | rfl | cases h

/-- The operations that may end the process. -/
def Ext.mayEnd : Ext → Bool
  | .sys _ | .segfault | .exit _ => true
  | _ => false

/-! ## Kinds of programs -/

/-- A program of local operations on the accounts in `H`. -/
abbrev Touches {α : Type} (H : UInt32 → Prop) (p : Server α) : Prop :=
  p.Within (fun a => H (table.loc a)) fun e => e.isLocal = true

/-- A program that computes with the accounts in `H` and changes at most balances. -/
abbrev Computes {α : Type} (H : UInt32 → Prop) (p : Server α) : Prop :=
  p.Within (fun a => H (table.loc a) ∧ a.isTransfer = true) fun e => e.isDetermined = true

/-- A program that reads accounts in `H` and otherwise calls the system or reads flags. -/
abbrev Reads {α : Type} (H : UInt32 → Prop) (p : Server α) : Prop :=
  p.Within (fun a => H (table.loc a) ∧ a.isRead = true) fun e => e.isInert = true

/-- A program that only calls the system or reads flags. -/
abbrev Calls {α : Type} (p : Server α) : Prop :=
  p.Within (fun _ => False) fun e => e.isCall = true

/-- A program that reads accounts in `H` and otherwise computes hashes. -/
abbrev Views {α : Type} (H : UInt32 → Prop) (p : Server α) : Prop :=
  p.Within (fun a => H (table.loc a) ∧ a.isRead = true) fun e => e.isPure = true

/-- A program that has nothing to do with accounts. -/
abbrev Plain {α : Type} (p : Server α) : Prop :=
  p.Within (fun _ => False) fun e => e.isPlain = true

section Kinds

variable {α : Type} {H : UInt32 → Prop} {p : Server α}

theorem Calls.reads (h : Calls p) : Reads H p := by
  refine h.mono (fun _ ha => ha.elim) fun e he => ?_
  cases e with
  | sys call => cases call <;> first | rfl | cases he
  | _ => first | rfl | cases he

theorem Views.reads (h : Views H p) : Reads H p := by
  refine h.mono (fun _ ha => ha) fun e he => ?_
  cases e with
  | sys call => cases call <;> first | rfl | cases he
  | mark m => cases m <;> first | rfl | cases he
  | _ => first | rfl | cases he

theorem Views.computes (h : Views H p) : Computes H p := by
  refine h.mono (fun a ha => ⟨ha.1, ?_⟩) fun e he => ?_
  · cases a <;> first | rfl | cases ha.2
  · cases e with
    | sys call => cases call <;> first | rfl | cases he
    | mark m => cases m <;> first | rfl | cases he
    | _ => first | rfl | cases he

theorem Reads.touches (h : Reads H p) : Touches H p := by
  refine h.mono (fun _ ha => ha.1) fun e he => ?_
  cases e with
  | mark m => cases m <;> first | rfl | cases he
  | _ => first | rfl | cases he

theorem Computes.touches (h : Computes H p) : Touches H p :=
  h.mono (fun _ ha => ha.1) fun _ => Ext.isLocal_of_isDetermined

end Kinds

section Within

variable {α : Type} {A : TableOp → Prop} {E : Ext → Prop}

theorem within_access {a : TableOp} {k : a.Res → Server α} (ha : A a)
    (hk : ∀ r, (k r).Within A E) : (access a >>= k).Within A E := ⟨ha, hk⟩

theorem within_ext {e : Ext} {k : e.Res → Server α} (he : E e)
    (hk : ∀ r, (k r).Within A E) : (ext e >>= k).Within A E := ⟨he, hk⟩

theorem within_sys {call : SysCall} {k : call.Res → Server α} (he : E (.sys call))
    (hk : ∀ r, (k r).Within A E) : (sys call >>= k).Within A E := ⟨he, hk⟩

theorem within_segfault (he : E .segfault) : (segfault : Server α).Within A E :=
  ⟨he, fun r => nomatch r⟩

theorem within_exit {status : ℕ} (he : E (.exit status)) : (exit status : Server α).Within A E :=
  ⟨he, fun r => nomatch r⟩

end Within

variable {H : UInt32 → Prop}

/-! ## Locking two accounts -/

/-- Two different accounts are locked the smaller one first, and unlocked in the opposite order. -/
theorem getDoubleAccountAccess_of_ne {id1 id2 : UInt32} (h : id1 ≠ id2) (delayMS : UInt32) :
    ∃ lo hi : UInt32, lo.toNat < hi.toNat ∧ (id1 = lo ∧ id2 = hi ∨ id1 = hi ∧ id2 = lo) ∧
      getDoubleAccountAccess id1 id2 delayMS = (do
        lockAccount lo
        opDelay delayMS
        lockAccount hi
        opDelay delayMS) ∧
      unlockDoubleAccount id1 id2 = (do
        unlockAccount hi
        unlockAccount lo) := by
  have hne : id1.toNat ≠ id2.toNat := fun he => h (UInt32.toNat_inj.mp he)
  rcases Nat.lt_or_gt_of_ne hne with hlt | hgt
  · have h₁ : id1 < id2 := UInt32.lt_iff_toNat_lt.mpr hlt
    have h₂ : ¬ id1 > id2 := fun hgt => absurd (UInt32.lt_iff_toNat_lt.mp hgt) (by omega)
    refine ⟨id1, id2, hlt, .inl ⟨rfl, rfl⟩, ?_, ?_⟩
    · simp only [getDoubleAccountAccess, if_neg h, if_pos h₁, if_neg h₂]
    · simp only [unlockDoubleAccount, if_neg h, if_pos h₁, if_neg h₂]
  · have h₁ : ¬ id1 < id2 := fun hlt => absurd (UInt32.lt_iff_toNat_lt.mp hlt) (by omega)
    have h₂ : id1 > id2 := UInt32.lt_iff_toNat_lt.mpr hgt
    refine ⟨id2, id1, hgt, .inr ⟨rfl, rfl⟩, ?_, ?_⟩
    · simp only [getDoubleAccountAccess, if_neg h, if_neg h₁, if_pos h₂]
    · simp only [unlockDoubleAccount, if_neg h, if_neg h₁, if_pos h₂]

/-- What holds of the smaller and of the larger account holds of both. -/
theorem both_of_ids {id1 id2 lo hi : UInt32} {p : UInt32 → Prop} (hids : id1 = lo ∧ id2 = hi ∨ id1 = hi ∧ id2 = lo)
    (hlo : p lo) (hhi : p hi) : p id1 ∧ p id2 := by
  rcases hids with ⟨rfl, rfl⟩ | ⟨rfl, rfl⟩
  · exact ⟨hlo, hhi⟩
  · exact ⟨hhi, hlo⟩

/-! ## Functions that only read -/

theorem views_getAccount {id : UInt32} (h : H id) : Views H (getAccount id) := by
  refine within_access ⟨h, rfl⟩ fun used => ?_
  cases used <;> trivial

/-- A login reads the account it is for. -/
theorem views_validateAccount {request : TlvRequest} (h : H request.value.header.accountId) :
    Views H (validateAccount request) := by
  refine within_access ⟨h, rfl⟩ fun used => ?_
  cases used with
  | false => trivial
  | true =>
      refine within_access ⟨h, rfl⟩ fun salt => within_sys rfl fun hash => ?_
      cases hash with
      | none => exact within_segfault rfl
      | some hash =>
          refine within_access ⟨h, rfl⟩ fun accountHash => ?_
          split <;> trivial

theorem views_handleBalanceRequest {request : TlvRequest}
    (h : H request.value.header.accountId) : Views H (handleBalanceRequest request) := by
  refine within_ext rfl fun _ => ?_
  split
  · refine within_access ⟨h, rfl⟩ fun used => ?_
    cases used with
    | false => exact within_segfault rfl
    | true => exact within_access ⟨h, rfl⟩ fun _ => within_access ⟨h, rfl⟩ fun _ => trivial
  · trivial

theorem within_transferReply {A : TableOp → Prop} {E : Ext → Prop} {srcAccount : UInt32}
    {retCode : RetCode} (hid : A (.readAccountId srcAccount)) (hbalance : A (.readBalance srcAccount)) :
    (transferReply srcAccount retCode).Within A E :=
  within_access hid fun _ => within_access hbalance fun _ => trivial

/-! ## Functions that call the system -/

theorem calls_opDelay (delayMS : UInt32) : Calls (opDelay delayMS) := ⟨rfl, fun _ => trivial⟩

/-- Counting the active offices reads their flags. -/
theorem within_countActive {A : TableOp → Prop} {E : Ext → Prop} (hE : ∀ i, E (.readActive i))
    (offices : List ℕ) (numActiveOffices : ℕ) :
    (countActive offices numActiveOffices).Within A E := by
  induction offices generalizing numActiveOffices with
  | nil => trivial
  | cons i rest ih => exact within_ext (hE i) fun _ => ih _

/-- A shutdown reads no account. -/
theorem calls_handleShutdownRequest (setup : Setup) (request : TlvRequest) :
    Calls (handleShutdownRequest setup request) := by
  refine (calls_opDelay _).bind fun _ => ?_
  split
  · exact within_sys rfl fun _ => within_sys rfl fun _ =>
      (within_countActive (fun _ => rfl) _ _).bind fun _ => trivial
  · trivial

theorem calls_unassignedReply : Calls (sys .unassignedReply) := ⟨rfl, fun _ => trivial⟩

theorem calls_logReply (reply : TlvReply) : Calls (logReply reply) := ⟨rfl, fun _ => trivial⟩

/-- Sending a reply reads no account. -/
theorem calls_sendReply (reply : TlvReply) (userFifoPath : Bytes) :
    Calls (sendReply reply userFifoPath) := by
  refine within_sys rfl fun (fd : Int) => ?_
  split
  · exact within_sys rfl fun _ => calls_logReply _
  · refine within_sys rfl fun (written : Int) => ?_
    split
    · exact within_exit rfl
    · exact within_sys rfl fun _ => calls_logReply _

/-! ## Functions that write -/

/-- Once the salt is there, creating an account is determined. -/
theorem within_fillAccount {id balance : UInt32} {password salt : Bytes} :
    (fillAccount id balance password salt).Within (fun a => table.loc a = id)
      fun e => e.isDetermined = true := by
  refine within_sys rfl fun hash => ?_
  cases hash with
  | none => trivial
  | some hash =>
      exact within_access rfl fun _ => within_access rfl fun _ => within_access rfl fun _ =>
        within_access rfl fun _ => ⟨rfl, fun _ => trivial⟩

/-- Creating an account touches it. -/
theorem touches_createAccount {id balance : UInt32} {password : Bytes} (h : H id) :
    Touches H (createAccount id balance password) := by
  refine within_sys rfl fun salt => within_fillAccount.mono (fun a ha => by rwa [ha]) fun e he => ?_
  exact Ext.isLocal_of_isDetermined he

theorem touches_handleCreateAccountRequest {request : TlvRequest}
    (h : H request.value.create.accountId) : Touches H (handleCreateAccountRequest request) := by
  refine within_ext rfl fun _ => ?_
  dsimp only
  split
  · trivial
  · refine (views_getAccount h).reads.touches.bind fun account => ?_
    cases account with
    | some _ => trivial
    | none => exact (touches_createAccount h).bind fun _ => trivial

/-- The tests on the balances and what follows them change at most balances. -/
theorem within_transferAmount {srcAccount destAccount amount : UInt32} (hs : H srcAccount)
    (hd : H destAccount) : (transferAmount srcAccount destAccount amount).Within
      (fun a => H (table.loc a) ∧ a.isTransfer = true) fun e => e.isArithmetic = true := by
  have hreply : ∀ retCode, (transferReply srcAccount retCode).Within
      (fun a => H (table.loc a) ∧ a.isTransfer = true) fun e => e.isArithmetic = true :=
    fun retCode => within_transferReply ⟨hs, rfl⟩ ⟨hs, rfl⟩
  refine within_access ⟨hs, rfl⟩ fun srcBalance => ?_
  split
  · exact hreply _
  · refine within_access ⟨hd, rfl⟩ fun destBalance => within_ext rfl fun sum => ?_
    split
    · exact hreply _
    · exact within_access ⟨hs, rfl⟩ fun _ => within_ext rfl fun _ => within_access ⟨hs, rfl⟩ fun _ =>
        within_access ⟨hd, rfl⟩ fun _ => within_ext rfl fun _ => within_access ⟨hd, rfl⟩ fun _ =>
          hreply _

theorem computes_transferAmount {srcAccount destAccount amount : UInt32} (hs : H srcAccount)
    (hd : H destAccount) : Computes H (transferAmount srcAccount destAccount amount) :=
  (within_transferAmount hs hd).mono (fun _ ha => ha) fun e he => by cases e <;> first | rfl | cases he

/-- A transfer computes with its two accounts. -/
theorem computes_handleTransferRequest {request : TlvRequest}
    (hs : H request.value.header.accountId) (hd : H request.value.transfer.accountId) :
    Computes H (handleTransferRequest request) := by
  have hreply : ∀ retCode, Computes H (transferReply request.value.header.accountId retCode) :=
    fun retCode => within_transferReply ⟨hs, rfl⟩ ⟨hs, rfl⟩
  refine within_ext rfl fun _ => within_access ⟨hs, rfl⟩ fun srcUsed => ?_
  cases srcUsed with
  | false =>
      exact within_access ⟨hd, rfl⟩ fun destUsed => by cases destUsed <;> exact within_segfault rfl
  | true =>
      refine within_access ⟨hd, rfl⟩ fun destUsed => ?_
      cases destUsed with
      | false =>
          refine within_access ⟨hs, rfl⟩ fun srcId => ?_
          split <;> exact hreply _
      | true =>
          refine within_access ⟨hs, rfl⟩ fun srcId => ?_
          split
          · exact hreply _
          · refine within_access ⟨hd, rfl⟩ fun destId => ?_
            split
            · exact hreply _
            · refine within_access ⟨hs, rfl⟩ fun srcId => ?_
              split
              · exact hreply _
              · exact computes_transferAmount hs hd

/-! ## The main thread -/

/-- Reading requests. -/
theorem plain_readRequestsRound (setup : Setup) : Plain (readRequestsRound setup) := by
  refine within_sys rfl fun request => within_sys rfl fun bytes => ?_
  cases bytes with
  | none => trivial
  | some bytes =>
      refine within_sys rfl fun value => ?_
      cases value with
      | none => trivial
      | some value =>
          dsimp only
          split
          · trivial
          · exact within_ext rfl fun _ => within_ext rfl fun _ => within_ext rfl fun _ =>
              within_ext rfl fun _ => within_ext (k := fun _ => .ret true) rfl fun _ => trivial

/-- The main thread has nothing to do with accounts. -/
theorem plain_mainBody (setup : Setup) (ctl : Ctl) : Plain (mainBody setup ctl) := by
  cases ctl with
  | read => exact (plain_readRequestsRound setup).bind fun _ => trivial
  | waitEmpty =>
      refine Prog.Within.bind (p := queueEmptyRound) ?_ fun _ => trivial
      exact within_ext rfl fun _ => within_ext rfl fun _ => within_ext rfl fun _ => trivial
  | waitIdle => exact (within_countActive (fun _ => rfl) _ _).bind fun _ => trivial
  | destroy i =>
      rw [mainBody]
      split
      · exact within_ext rfl fun _ => within_ext rfl fun _ => trivial
      · trivial
  | _ => trivial

end Sope
