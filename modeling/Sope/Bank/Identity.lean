import Sope.Bank.Footprints
import Sope.Bank.Sequential

/-! # The identity of accounts

An account, once it is used, stays used and keeps its number, its hash and its salt. A thread that
holds no lock between a login and the operation that follows it may rely on that: the account that it
finds is the one that it has logged in to. The rules `identities` state, for a `generateHash` that
succeeds, that every thread keeps to it, and that a creation is answered with `OK` only by the thread
that has opened the account. -/

namespace Sope

open Concurrency

/-! ## The rules -/

/-- A used account holds its own number. -/
def Slot.Identified (id : UInt32) (slot : Slot) : Prop :=
  slot.used = true → slot.account.accountId = id

/-- What every thread may rely on. -/
def identitySpec : CellSpec UInt32 Slot := { bankSpec 0 with inv := Slot.Identified }

/-- The return codes with which a creation may be refused. -/
def RetCode.isRefusal : RetCode → Bool
  | .loginFail | .opNallow | .idInUse | .idNotFound => true
  | _ => false

/-- A creation is answered with `OK` if the thread has opened the account, and is refused if not. -/
def TlvRequest.Settled (request : TlvRequest) (reply : TlvReply) (opened : Option UInt32) : Prop :=
  request.type = .opCreateAccount →
    (reply.value.header.retCode = .ok ∧ opened = some request.value.create.accountId) ∨
      reply.value.header.retCode.isRefusal = true

/-- The account that a thread has opened for its request, after an operation. -/
def openedAfter (opened : Option UInt32) : ServerOp → Option UInt32
  | .access (.writeUsed id true) => some id
  | .ext .queuePop | .ext (.mark (.managed ..)) => none
  | _ => opened

/-- What a thread may conclude from the result of an operation. -/
def Ext.Hashes (hash : Bytes → Bytes → Bytes) : (e : Ext) → e.Res → Prop
  | .sys (.generateHash password salt), r => r = some (hash password salt)
  | _, _ => True

/-- What an operation must satisfy for the accounts to keep their identity. -/
def Identifies (hash : Bytes → Bytes → Bytes) (opened : Option UInt32) (b : Hold UInt32 Slot) :
    ServerOp → Prop
  | .access a => a.isTransfer = true ∨ ((b.cur (table.loc a)).used = false ∧
      (table.run a (b.cur (table.loc a))).2.Identified (table.loc a))
  | .ext .segfault => False
  | .ext (.mark (.handleBalance request)) | .ext (.mark (.handleTransfer request)) =>
      request.value.header.accountId ∈ b.held ∧
        checkLogin hash request (b.cur request.value.header.accountId) = none
  | .ext (.mark (.managed request reply)) => request.Settled reply opened
  | _ => True

/-- The rules of identity. -/
def identities (hash : Bytes → Bytes → Bytes) :
    Extra UInt32 Slot TableOp Ext TableOp.Res Ext.Res (Option UInt32) where
  pre opened b o := Identifies hash opened b o
  rule opened _ o r _ Φ :=
    match o, r with
    | .ext e, r => e.Hashes hash r → Φ (openedAfter opened (.ext e))
    | o, _ => Φ (openedAfter opened o)
  mono {x b o r b' Φ Ψ} h hr := by
    cases o with
    | ext e => exact fun he => h _ (hr he)
    | _ => exact h _ hr

/-- The rules of identity, with what every thread may rely on. -/
abbrev identity (hash : Bytes → Bytes → Bytes) :
    Protocol ServerOp ServerRes (Hold UInt32 Slot × Option UInt32) :=
  (identities hash).protocol table identitySpec

variable {hash : Bytes → Bytes → Bytes} {request : TlvRequest} {b : Hold UInt32 Slot}
  {x : Option UInt32} {α : Type} {Q : α → Hold UInt32 Slot × Option UInt32 → Prop}

/-! ## Single operations -/

/-- The held accounts that are used hold their own numbers. -/
def Sane (b : Hold UInt32 Slot) : Prop := ∀ i ∈ b.held, (b.cur i).Identified i

theorem sane_of_empty (hb : b.held = ∅) : Sane b := fun i hi => by simp [hb] at hi

/-- An access that changes at most a balance keeps the identity of the account. -/
theorem TableOp.run_of_isTransfer {a : TableOp} (h : a.isTransfer = true) (slot : Slot) :
    slot.Stable (table.run a slot).2 ∧
      ((table.run a slot).2.used = slot.used ∧
        (table.run a slot).2.account.accountId = slot.account.accountId) := by
  cases a with
  | writeBalance id balance => exact ⟨fun hu => ⟨hu, rfl, rfl, rfl⟩, rfl, rfl⟩
  | _ => first | exact ⟨fun hu => ⟨hu, rfl, rfl, rfl⟩, rfl, rfl⟩ | cases h

/-- A held account after a change that keeps it sane. -/
theorem Sane.write {i : UInt32} {slot : Slot} (h : Sane b) (hs : slot.Identified i) :
    Sane (b.write i slot) := by
  intro j hj
  by_cases hji : j = i
  · subst hji
    rw [Hold.cur_write, Function.update_self]
    exact hs
  · rw [Hold.cur_write, Function.update_of_ne hji]
    exact h j hj

/-- Taking the lock of an account. -/
theorem Sane.lock {i : UInt32} {slot : Slot} (h : Sane b) (hs : slot.Identified i) :
    Sane (b.lock i slot) := by
  intro j hj
  by_cases hji : j = i
  · subst hji
    rw [Hold.cur_lock, Function.update_self]
    exact hs
  · rw [Hold.cur_lock, Function.update_of_ne hji]
    exact h j ((Finset.mem_insert.mp hj).resolve_left hji)

/-- Reading a held account. -/
theorem wp_identity_read {a : TableOp} {k : a.Res → Server α} {r : a.Res} (hread : a.isRead = true)
    (hloc : table.loc a ∈ b.held) (hr : (table.run a (b.cur (table.loc a))).1 = r)
    (hk : (k r).wp (identity hash) Q (b, x)) : (access a >>= k).wp (identity hash) Q (b, x) := by
  have htransfer : a.isTransfer = true := by
    cases a <;> first | rfl | cases hread
  have hb : b.write (table.loc a) (table.run a (b.cur (table.loc a))).2 = b := by
    rw [TableOp.run_of_isRead hread, Hold.write, Function.update_eq_self]
  have hx : openedAfter x (.access a) = x := by
    cases a <;> first | rfl | cases hread
  refine ⟨.inl htransfer, hloc, ?_, ?_⟩
  · rw [TableOp.run_of_isRead hread]
    exact identitySpec.refl _
  · change (k (table.run a (b.cur (table.loc a))).1).wp (identity hash) Q
      (b.write (table.loc a) (table.run a (b.cur (table.loc a))).2, openedAfter x (.access a))
    rw [hb, hr, hx]
    exact hk

/-- A program that only calls the system. -/
theorem wp_identity_calls {p : Server α} (hp : Calls p) (hQ : ∀ a, Q a (b, x)) :
    p.wp (identity hash) Q (b, x) := by
  refine hp.wp_keep (J := (· = b)) (fun _ _ ha => ha.elim) (fun e b' he _ => ⟨?_, ?_⟩) rfl ?_
  · cases e <;> trivial
  · intro r b'' Φ hΦ _
    have hx : openedAfter x (.ext e) = x := by
      cases e <;> first | rfl | cases he
    rwa [hx]
  · rintro a b' rfl
    exact hQ a

/-- An operation on everything but the accounts. -/
theorem wp_identity_ext {e : Ext} {k : e.Res → Server α} (hpre : Identifies hash x b (.ext e))
    (hk : ∀ r, e.Hashes hash r → (k r).wp (identity hash) Q (b, openedAfter x (.ext e))) :
    (ext e >>= k).wp (identity hash) Q (b, x) := ⟨hpre, hk⟩

/-- Computing a hash. -/
theorem wp_identity_hash {password salt : Bytes} {k : Option Bytes → Server α}
    (hk : (k (some (hash password salt))).wp (identity hash) Q (b, x)) :
    (sys (.generateHash password salt) >>= k).wp (identity hash) Q (b, x) := by
  refine ⟨trivial, fun r hr => ?_⟩
  obtain rfl := hr
  exact hk

/-- Looking up a held account. -/
theorem wp_identity_getAccount {id : UInt32} {f : Option UInt32 → Server α} (hid : id ∈ b.held)
    (hsome : (b.cur id).used = true → (f (some id)).wp (identity hash) Q (b, x))
    (hnone : (b.cur id).used = false → (f none).wp (identity hash) Q (b, x)) :
    (getAccount id >>= f).wp (identity hash) Q (b, x) := by
  rw [Prog.wp_bind]
  refine wp_identity_read rfl hid rfl ?_
  change ((if (b.cur id).used = true then return some id else return none : Server _)).wp _ _ _
  cases hused : (b.cur id).used with
  | true => exact hsome hused
  | false => exact hnone hused

/-- A program on held accounts that changes at most balances. -/
theorem wp_identity_transfers {p : Server α} {H : UInt32 → Prop}
    (hp : p.Within (fun a => H (table.loc a) ∧ a.isTransfer = true) fun e => e.isArithmetic = true)
    (hH : ∀ i, H i → i ∈ b.held) (hb : Sane b)
    (hQ : ∀ a b', b'.held = b.held → Sane b' → Q a (b', x)) : p.wp (identity hash) Q (b, x) := by
  refine hp.wp_keep (J := fun b' => b'.held = b.held ∧ Sane b') (fun a b' ha hJ => ?_)
    (fun e b' he _ => ⟨?_, ?_⟩) ⟨rfl, hb⟩ fun a b' hJ => hQ a b' hJ.1 hJ.2
  · obtain ⟨hstable, hused, hid⟩ := TableOp.run_of_isTransfer ha.2 (b'.cur (table.loc a))
    have hmem : table.loc a ∈ b'.held := by
      rw [hJ.1]
      exact hH _ ha.1
    refine ⟨.inl ha.2, hmem, hstable, ⟨hJ.1, hJ.2.write fun hu => ?_⟩, fun r b'' Φ hΦ => ?_⟩
    · rw [hid]
      exact hJ.2 _ hmem (hused ▸ hu)
    · have hx : openedAfter x (.access a) = x := by
        cases a <;> first | rfl | cases ha.2
      change Φ (openedAfter x (.access a))
      rwa [hx]
  · cases e <;> trivial
  · intro r b'' Φ hΦ _
    have hx : openedAfter x (.ext e) = x := by
      cases e <;> first | rfl | cases he
    rwa [hx]

/-! ## The login -/

/-- A login that succeeds shows the account that it is for. -/
theorem used_of_checkLogin {slot : Slot} (h : checkLogin hash request slot = none) :
    slot.used = true := by
  by_contra hu
  simp [checkLogin, hu] at h

/-- A login: it fails with a refusal, or the account accepts the password. -/
theorem wp_identity_validateAccount {Q : Option TlvReply → Hold UInt32 Slot × Option UInt32 → Prop}
    (hid : request.value.header.accountId ∈ b.held)
    (hfail : ∀ reply : TlvReply, reply.value.header.retCode.isRefusal = true →
      Q (some reply) (b, x))
    (hok : checkLogin hash request (b.cur request.value.header.accountId) = none → Q none (b, x)) :
    (validateAccount request).wp (identity hash) Q (b, x) := by
  refine wp_identity_getAccount hid (fun hused => ?_) fun _ => hfail _ rfl
  refine wp_identity_read rfl hid rfl (wp_identity_hash (wp_identity_read rfl hid rfl ?_))
  change (if hash (cString request.value.header.password)
      (b.cur request.value.header.accountId).account.salt
      ≠ (b.cur request.value.header.accountId).account.hash
    then _ else _ : Server (Option TlvReply)).wp _ _ _
  split
  · exact hfail _ rfl
  · next hsame =>
      refine hok ?_
      rw [checkLogin, if_pos hused, if_neg hsame]

/-- What a thread knows that has logged in: the account accepted the password when it was released,
and accepts it when it is held. -/
structure Authenticated (hash : Bytes → Bytes → Bytes) (request : TlvRequest) (b : Hold UInt32 Slot) :
    Prop where
  seen : ∃ slot, b.seen request.value.header.accountId = some slot ∧
    checkLogin hash request slot = none
  cur : request.value.header.accountId ∈ b.held →
    checkLogin hash request (b.cur request.value.header.accountId) = none

/-- The login stays valid when a lock is taken. -/
theorem Authenticated.lock {i : UInt32} {slot : Slot} (h : Authenticated hash request b)
    (hle : ∀ slot₀, b.seen i = some slot₀ → slot₀.Stable slot) :
    Authenticated hash request (b.lock i slot) := by
  refine ⟨h.seen, fun hmem => ?_⟩
  by_cases hi : request.value.header.accountId = i
  · subst hi
    rw [Hold.cur_lock, Function.update_self]
    obtain ⟨slot₀, hseen, hlogin⟩ := h.seen
    exact checkLogin_of_stable (hle _ hseen) hlogin
  · rw [Hold.cur_lock, Function.update_of_ne hi]
    exact h.cur ((Finset.mem_insert.mp hmem).resolve_left hi)

/-! ## The handlers -/

/-- What a handler leaves: the same accounts are held, and they are sane; the reply agrees with what
the thread has opened. -/
def Handles (request : TlvRequest) (b : Hold UInt32 Slot) (reply : TlvReply)
    (g : Hold UInt32 Slot × Option UInt32) : Prop :=
  g.1.held = b.held ∧ Sane g.1 ∧ request.Settled reply g.2

/-- Filling in the record of an account that is not used yet. -/
theorem wp_identity_fill {a : TableOp} {k : a.Res → Server α} {id : UInt32} {slot slot' : Slot}
    (hloc : table.loc a = id) (hid : id ∈ b.held) (hcur : b.cur id = slot)
    (hrun : (table.run a slot).2 = slot') (hunused : slot.used = false)
    (hident : slot'.Identified id) (hb : Sane b)
    (hk : ∀ b', b'.held = b.held → b'.cur id = slot' → Sane b' →
      (k (table.run a slot).1).wp (identity hash) Q (b', openedAfter x (.access a))) :
    (access a >>= k).wp (identity hash) Q (b, x) := by
  subst hloc hcur hrun
  refine ⟨.inr ⟨hunused, hident⟩, hid, fun hu => ?_, ?_⟩
  · rw [hunused] at hu
    cases hu
  · exact hk _ rfl (Function.update_self ..) (hb.write hident)

/-- Creating an account that is not used opens it. -/
theorem wp_identity_createAccount {id balance : UInt32} {password : Bytes} (hid : id ∈ b.held)
    (hunused : (b.cur id).used = false) (hb : Sane b) :
    (createAccount id balance password).wp (identity hash)
      (fun _ g => g.1.held = b.held ∧ Sane g.1 ∧ g.2 = some id) (b, x) := by
  generalize hcur : b.cur id = slot at hunused
  obtain ⟨used, account⟩ := slot
  obtain rfl : used = false := hunused
  refine ⟨trivial, fun (salt : Bytes) _ => wp_identity_hash ?_⟩
  refine wp_identity_fill rfl hid hcur rfl rfl nofun hb fun b₁ hheld₁ hcur₁ hb₁ => ?_
  refine wp_identity_fill rfl (hheld₁ ▸ hid) hcur₁ rfl rfl nofun hb₁ fun b₂ hheld₂ hcur₂ hb₂ => ?_
  rw [hheld₁] at hheld₂
  refine wp_identity_fill rfl (hheld₂ ▸ hid) hcur₂ rfl rfl nofun hb₂ fun b₃ hheld₃ hcur₃ hb₃ => ?_
  rw [hheld₂] at hheld₃
  refine wp_identity_fill rfl (hheld₃ ▸ hid) hcur₃ rfl rfl nofun hb₃ fun b₄ hheld₄ hcur₄ hb₄ => ?_
  rw [hheld₃] at hheld₄
  -- the number is in the record before the account becomes used
  refine wp_identity_fill rfl (hheld₄ ▸ hid) hcur₄ rfl rfl (fun _ => rfl) hb₄
    fun b₅ hheld₅ _ hb₅ => ⟨hheld₅.trans hheld₄, hb₅, rfl⟩

/-- Creating an account. -/
theorem wp_identity_handleCreate (hid : request.value.create.accountId ∈ b.held) (hb : Sane b) :
    (handleCreateAccountRequest request).wp (identity hash) (Handles request b) (b, x) := by
  refine ⟨trivial, fun _ _ => ?_⟩
  dsimp only
  split
  · exact ⟨rfl, hb, fun _ => .inr rfl⟩
  · refine wp_identity_getAccount hid (fun _ => ⟨rfl, hb, fun _ => .inr rfl⟩) fun hunused => ?_
    refine Prog.wp_seq (wp_identity_createAccount hid hunused hb) fun _ g hg => ?_
    exact ⟨hg.1, hg.2.1, fun _ => .inl ⟨rfl, hg.2.2⟩⟩

/-- A balance enquiry finds the account. -/
theorem wp_identity_handleBalance (htype : request.type ≠ .opCreateAccount)
    (hid : request.value.header.accountId ∈ b.held) (hlogin : Authenticated hash request b)
    (hb : Sane b) :
    (handleBalanceRequest request).wp (identity hash) (Handles request b) (b, x) := by
  have hdone : ∀ reply, Handles request b reply (b, x) :=
    fun reply => ⟨rfl, hb, fun h => absurd h htype⟩
  refine ⟨⟨hid, hlogin.cur hid⟩, fun _ _ => ?_⟩
  split
  · refine wp_identity_getAccount hid (fun _ => ?_) fun hunused => ?_
    · exact wp_identity_read rfl hid rfl (wp_identity_read rfl hid rfl (hdone _))
    · rw [used_of_checkLogin (hlogin.cur hid)] at hunused
      cases hunused
  · exact hdone _

/-- A transfer finds the source account. -/
theorem wp_identity_handleTransfer (htype : request.type ≠ .opCreateAccount)
    (hsrc : request.value.header.accountId ∈ b.held)
    (hdest : request.value.transfer.accountId ∈ b.held) (hlogin : Authenticated hash request b)
    (hb : Sane b) :
    (handleTransferRequest request).wp (identity hash) (Handles request b) (b, x) := by
  have hreply : ∀ retCode, (transferReply request.value.header.accountId retCode).wp (identity hash)
      (Handles request b) (b, x) := fun retCode =>
    wp_identity_read rfl hsrc rfl (wp_identity_read rfl hsrc rfl
      ⟨rfl, hb, fun h => absurd h htype⟩)
  refine ⟨⟨hsrc, hlogin.cur hsrc⟩, fun _ _ => ?_⟩
  refine wp_identity_getAccount hsrc (fun _ => ?_) fun hunused => ?_
  · refine wp_identity_getAccount hdest (fun _ => ?_) fun _ => ?_
    · refine wp_identity_read rfl hsrc rfl ?_
      split
      · exact hreply _
      · refine wp_identity_read rfl hdest rfl ?_
        split
        · exact hreply _
        · refine wp_identity_read rfl hsrc rfl ?_
          split
          · exact hreply _
          · refine wp_identity_transfers (H := (· ∈ b.held)) (within_transferAmount hsrc hdest)
              (fun _ hi => hi) hb fun reply b' hheld hb' => ?_
            exact ⟨hheld, hb', fun h => absurd h htype⟩
    · refine wp_identity_read rfl hsrc rfl ?_
      split <;> exact hreply _
  · rw [used_of_checkLogin (hlogin.cur hsrc)] at hunused
    cases hunused

/-! ## Locks -/

/-- Taking the lock of an account: a login stays valid. -/
theorem wp_identity_lock {i : UInt32} {Q : Unit → Hold UInt32 Slot × Option UInt32 → Prop}
    (hi : i ∉ b.held) (hb : Sane b) (hlogin : Authenticated hash request b)
    (hk : ∀ b', b'.held = insert i b.held → Sane b' → Authenticated hash request b' → Q () (b', x)) :
    (lockAccount i).wp (identity hash) Q (b, x) :=
  ⟨trivial, hi, fun _ hslot hle => hk _ rfl (hb.lock hslot) (hlogin.lock hle)⟩

/-- Releasing the lock of an account. -/
theorem wp_identity_unlock {i : UInt32} {Q : Unit → Hold UInt32 Slot × Option UInt32 → Prop}
    (hi : i ∈ b.held) (hb : Sane b)
    (hk : ∀ b', b'.held = b.held.erase i → Sane b' → Q () (b', x)) :
    (unlockAccount i).wp (identity hash) Q (b, x) :=
  ⟨trivial, hi, hb i hi, hk _ rfl fun j hj => hb j (Finset.mem_of_mem_erase hj)⟩

/-- What `manageRequest` and its parts leave: no account is locked, and the reply agrees with what the
thread has opened. -/
def Manages (request : TlvRequest) (reply : TlvReply) (g : Hold UInt32 Slot × Option UInt32) : Prop :=
  g.1.held = ∅ ∧ request.Settled reply g.2

/-- A request that needs one account locked. -/
theorem wp_identity_single {id delayMS : UInt32} {handler : Server TlvReply} (hheld : b.held = ∅)
    (hlogin : Authenticated hash request b)
    (hh : ∀ b' : Hold UInt32 Slot, id ∈ b'.held → Sane b' → Authenticated hash request b' →
      handler.wp (identity hash) (Handles request b') (b', x)) :
    (do getSingleAccountAccess id delayMS
        let reply ← handler
        unlockAccount id
        return reply : Server TlvReply).wp (identity hash) (Manages request) (b, x) := by
  simp only [Prog.wp_bind, getSingleAccountAccess]
  refine wp_identity_lock (by simp [hheld]) (sane_of_empty hheld) hlogin
    fun b₁ hheld₁ hb₁ hlogin₁ => ?_
  refine wp_identity_calls (calls_opDelay delayMS) fun _ => ?_
  have hid : id ∈ b₁.held := by simp [hheld₁]
  refine Prog.wp_mono (fun reply g hg => ?_) (hh b₁ hid hb₁ hlogin₁)
  obtain ⟨b₂, x₂⟩ := g
  obtain ⟨hheld₂, hb₂, hsettled⟩ := hg
  have hheld₂ : b₂.held = b₁.held := hheld₂
  refine wp_identity_unlock (hheld₂ ▸ hid) hb₂ fun b₃ hheld₃ _ => ⟨?_, hsettled⟩
  rw [hheld₃, hheld₂, hheld₁, hheld]
  simp

/-- A transfer: both accounts are locked, the smaller one first, or the one account once. -/
theorem wp_identity_double {id1 id2 delayMS : UInt32} {handler : Server TlvReply}
    (hheld : b.held = ∅) (hlogin : Authenticated hash request b)
    (hh : ∀ b' : Hold UInt32 Slot, id1 ∈ b'.held → id2 ∈ b'.held → Sane b' →
      Authenticated hash request b' → handler.wp (identity hash) (Handles request b') (b', x)) :
    (do getDoubleAccountAccess id1 id2 delayMS
        let reply ← handler
        unlockDoubleAccount id1 id2
        return reply : Server TlvReply).wp (identity hash) (Manages request) (b, x) := by
  by_cases heq : id1 = id2
  · subst heq
    rw [getDoubleAccountAccess, unlockDoubleAccount, if_pos rfl, if_pos rfl]
    exact wp_identity_single hheld hlogin fun b' hid => hh b' hid hid
  -- the two locks in their order, whichever account comes first in the request
  · obtain ⟨first, second, hlt, hids, hget, hput⟩ := getDoubleAccountAccess_of_ne heq delayMS
    have hne : first ≠ second := fun h => absurd hlt (by simp [h])
    simp only [hget, hput, Prog.wp_bind]
    refine wp_identity_lock (by simp [hheld]) (sane_of_empty hheld) hlogin
      fun b₁ hheld₁ hb₁ hlogin₁ => ?_
    refine wp_identity_calls (calls_opDelay delayMS) fun _ => ?_
    refine wp_identity_lock (by simp [hheld₁, hheld, hne.symm]) hb₁ hlogin₁
      fun b₂ hheld₂ hb₂ hlogin₂ => ?_
    refine wp_identity_calls (calls_opDelay delayMS) fun _ => ?_
    have hfirst : first ∈ b₂.held := by simp [hheld₂, hheld₁]
    have hsecond : second ∈ b₂.held := by simp [hheld₂]
    have hmem : id1 ∈ b₂.held ∧ id2 ∈ b₂.held := both_of_ids hids hfirst hsecond
    refine Prog.wp_mono (fun reply g hg => ?_) (hh b₂ hmem.1 hmem.2 hb₂ hlogin₂)
    obtain ⟨b₃, x₃⟩ := g
    obtain ⟨hheld₃, hb₃, hsettled⟩ := hg
    have hheld₃ : b₃.held = b₂.held := hheld₃
    rw [← hheld₃] at hfirst hsecond
    -- they are released in the opposite order
    refine wp_identity_unlock hsecond hb₃ fun b₄ hheld₄ hb₄ => ?_
    refine wp_identity_unlock (by simp [hheld₄, hfirst, hne]) hb₄
      fun b₅ hheld₅ _ => ⟨?_, hsettled⟩
    rw [hheld₅, hheld₄, hheld₃, hheld₂, hheld₁, hheld]
    ext i
    simp only [Finset.mem_erase, Finset.mem_insert, Finset.notMem_empty, or_false, iff_false]
    tauto

/-! ## An office -/

/-- The operation of a request whose account is valid. -/
theorem wp_identity_performRequest {setup : Setup} (hheld : b.held = ∅)
    (hlogin : Authenticated hash request b) :
    (performRequest setup request).wp (identity hash) (Manages request) (b, x) := by
  unfold performRequest
  have hother : request.type ≠ .opCreateAccount → ∀ reply, request.Settled reply x :=
    fun hne _ h => absurd h hne
  cases htype : request.type with
  | opCreateAccount =>
      exact wp_identity_single hheld hlogin fun b' hid hb' _ => wp_identity_handleCreate hid hb'
  | opBalance =>
      exact wp_identity_single hheld hlogin fun b' hid hb' hlogin' =>
        wp_identity_handleBalance (by rw [htype]; nofun) hid hlogin' hb'
  | opTransfer =>
      exact wp_identity_double hheld hlogin fun b' hsrc hdest hb' hlogin' =>
        wp_identity_handleTransfer (by rw [htype]; nofun) hsrc hdest hlogin' hb'
  | opShutdown =>
      exact wp_identity_calls (calls_handleShutdownRequest setup request)
        fun _ => ⟨hheld, hother (by rw [htype]; nofun) _⟩
  | opMaxNumber =>
      exact wp_identity_calls calls_unassignedReply
        fun _ => ⟨hheld, hother (by rw [htype]; nofun) _⟩

/-- Sending the reply changes nothing. -/
theorem wp_identity_sendReply {reply : TlvReply} {path : Bytes}
    (h : Manages request reply (b, x)) :
    (do sendReply reply path
        return reply : Server TlvReply).wp (identity hash) (Manages request) (b, x) := by
  rw [Prog.wp_bind]
  exact wp_identity_calls (calls_sendReply reply path) fun _ => h

/-- **`manageRequest` keeps the identity of all accounts.** -/
theorem wp_identity_manageRequest {setup : Setup} (hheld : b.held = ∅) :
    (manageRequest setup request).wp (identity hash) (Manages request) (b, x) := by
  simp only [manageRequest, Prog.wp_bind]
  refine ⟨trivial, by simp [hheld], fun slot hslot _ => ?_⟩
  have hb₁ : Sane (b.lock request.value.header.accountId slot) :=
    (sane_of_empty hheld).lock hslot
  have hid : request.value.header.accountId ∈ (b.lock request.value.header.accountId slot).held :=
    Finset.mem_insert_self ..
  refine wp_identity_validateAccount hid (fun reply hreply => ?_) fun hok => ?_
  · refine ⟨trivial, hid, hb₁ _ hid, wp_identity_sendReply ⟨?_, fun _ => .inr hreply⟩⟩
    simp [hheld]
  · refine ⟨trivial, hid, hb₁ _ hid, ?_⟩
    change (performRequest setup request >>= _ : Server TlvReply).wp _ _ _
    refine Prog.wp_seq (wp_identity_performRequest (by simp [hheld]) ⟨⟨_, ?_, hok⟩, ?_⟩)
      fun reply g hg => wp_identity_sendReply hg
    · rw [Hold.seen_unlock, Function.update_self]
    · simp [hheld]

/-- **A round of an office keeps the identity of all accounts.** -/
theorem wp_identity_bankOfficeRound {setup : Setup} {office : ℕ} (hheld : b.held = ∅) :
    (bankOfficeRound setup office).wp (identity hash) (fun _ g => g.1.held = ∅ ∧ g.2 = none)
      (b, x) := by
  refine wp_identity_ext trivial fun _ _ => wp_identity_ext trivial fun _ _ =>
    wp_identity_ext trivial fun _ _ => ?_
  refine wp_identity_ext trivial fun request _ => ?_
  refine wp_identity_ext trivial fun _ _ => wp_identity_ext trivial fun _ _ => ?_
  refine Prog.wp_seq (wp_identity_manageRequest hheld) fun reply g hg => ?_
  refine wp_identity_ext hg.2 fun _ _ => ?_
  exact wp_identity_ext (k := .ret) trivial fun _ _ => ⟨hg.1, rfl⟩

end Sope
