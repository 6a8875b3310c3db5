import Sope.Bank.Identity
import Sope.Bank.Ledger
import Sope.Bank.Play
import Sope.Bank.Serializability

/-! # Accounts keep their identity

In every run in which `generateHash` succeeds, an account that is used stays used and keeps its number,
its hash and its salt; at most one creation of it is answered with `OK`; and an office that executes a
balance enquiry or a transfer finds the account that it has logged in to, although it has held no lock
in between. -/

namespace Sope

open Concurrency

variable {n : ℕ} {W : World (Thread n)} {hash : Bytes → Bytes → Bytes} {serverFifoFD shutdownFD : Int}
  {tr tr' : List (ServerEvent n W)} {s s' : ServerState n W}
  {c c' : Config (Thread n) ServerOp ServerRes (ServerState n W) Ctl}
  {g : Thread n → Hold UInt32 Slot × Option UInt32} {t : Thread n} {id : UInt32}

/-- A creation of the account has been answered with `OK`. -/
def ServerOp.isCreationOf (id : UInt32) : ServerOp → Bool
  | .ext (.mark (.managed request reply)) => request.type = .opCreateAccount ∧
      request.value.create.accountId = id ∧ reply.value.header.retCode = .ok
  | _ => false

/-- The number of creations of an account that a run answers with `OK`. -/
def creations (id : UInt32) (tr : List (ServerEvent n W)) : ℕ :=
  tr.countP fun e => ServerOp.isCreationOf id e.op

/-- One, for a thread that has opened the account for its request. -/
def opens (id : UInt32) (opened : Option UInt32) : ℕ := if opened = some id then 1 else 0

/-- One, for an account that is used. -/
def Slot.usedCount (slot : Slot) : ℕ := if slot.used then 1 else 0

/-! ## The invariant -/

/-- Every account that has been created is used, and the thread that has opened it is the only one that
may yet answer `OK`. -/
structure IdentityInv (tr : List (ServerEvent n W)) (s : ServerState n W)
    (g : Thread n → Hold UInt32 Slot × Option UInt32) : Prop where
  /-- Every used account holds its own number. -/
  identified : ∀ id, (s.cells id).Identified id
  /-- No account is created twice. -/
  once : ∀ id, creations id tr + total (opens id) (fun u => (g u).2) ≤ (s.cells id).usedCount
  /-- While the process runs, the threads know what they hold. -/
  running : s.rest.alive = true → HoldInv identitySpec s fun u => (g u).1

/-- The invariant holds initially. -/
theorem IdentityInv.init (h : ServerInit s) : IdentityInv [] s fun _ => (Hold.empty s.cells, none) where
  identified id := ((h.sound 0).2 id).accountId
  once id := by
    have hzero : total (opens id) (fun _ : Thread n => (none : Option UInt32)) = 0 :=
      total_eq_zero fun _ => rfl
    change creations id [] + total (opens id) (fun _ : Thread n => (none : Option UInt32)) ≤ _
    rw [hzero]
    exact Nat.zero_le _
  running _ := HoldInv.of_free (fun id => ((h.sound 0).2 id).accountId) h.owner

/-- It is about the accounts and the locks only, while the process runs. -/
theorem IdentityInv.congr (h : IdentityInv tr s g) (hcells : s'.cells = s.cells)
    (howner : s'.owner = s.owner) (halive : s'.rest.alive = true → s.rest.alive = true) :
    IdentityInv tr s' g where
  identified := by
    rw [hcells]
    exact h.identified
  once := by
    rw [hcells]
    exact h.once
  running ha := (h.running (halive ha)).congr_rest hcells howner

/-- The creations after one more operation. -/
theorem creations_append (id : UInt32) (tr : List (ServerEvent n W)) (e : ServerEvent n W) :
    creations id (tr ++ [e]) = creations id tr + if ServerOp.isCreationOf id e.op then 1 else 0 := by
  rw [creations, List.countP_append, List.countP_singleton]
  rfl

/-- The accounts opened after an operation of thread `t`. -/
theorem total_opens (id : UInt32) (g : Thread n → Hold UInt32 Slot × Option UInt32) (t : Thread n)
    (g' : Hold UInt32 Slot × Option UInt32) :
    (total (opens id) fun u => (Function.update g t g' u).2) + opens id (g t).2
      = (total (opens id) fun u => (g u).2) + opens id g'.2 := by
  have hsnd : (fun u => (Function.update g t g' u).2) = Function.update (fun u => (g u).2) t g'.2 :=
    Function.comp_update Prod.snd g t g'
  rw [hsnd, total_update]

/-- An access opens at most the account that it is about, and leaves it used if it does. -/
theorem opens_of_access (a : TableOp) (slot : Slot) (x : Option UInt32) :
    opens (table.loc a) (openedAfter x (.access a)) ≤ opens (table.loc a) x +
        (table.run a slot).2.usedCount ∧
      ∀ id, id ≠ table.loc a → opens id (openedAfter x (.access a)) ≤ opens id x := by
  have hsame : openedAfter x (.access a) = x →
      opens (table.loc a) (openedAfter x (.access a)) ≤ opens (table.loc a) x +
          (table.run a slot).2.usedCount ∧
        ∀ id, id ≠ table.loc a → opens id (openedAfter x (.access a)) ≤ opens id x := by
    intro h
    rw [h]
    exact ⟨Nat.le_add_right _ _, fun _ _ => le_rfl⟩
  cases a with
  | writeUsed id used =>
      cases used with
      | false => exact hsame rfl
      | true =>
          refine ⟨?_, fun i hi => ?_⟩
          · change opens id (some id) ≤ opens id x + 1
            rw [opens, if_pos rfl]
            exact Nat.le_add_left _ _
          · change opens i (some id) ≤ _
            have hne : some id ≠ some i := fun h => hi (Option.some.inj h).symm
            rw [opens, if_neg hne]
            exact Nat.zero_le _
  | _ => exact hsame rfl

/-- An operation on everything but the accounts: what is answered with `OK` had been opened. -/
theorem opens_of_ext {b : Hold UInt32 Slot} {x : Option UInt32} {e : Ext}
    (hpre : Identifies hash x b (.ext e)) (id : UInt32) :
    (if ServerOp.isCreationOf id (.ext e) then 1 else 0) + opens id (openedAfter x (.ext e))
      ≤ opens id x := by
  have hother : ServerOp.isCreationOf id (.ext e) = false →
      openedAfter x (.ext e) = x ∨ openedAfter x (.ext e) = none →
      (if ServerOp.isCreationOf id (.ext e) then 1 else 0) + opens id (openedAfter x (.ext e))
        ≤ opens id x := by
    rintro h (hx | hx)
    · rw [h, hx]
      exact (Nat.zero_add _).le
    · rw [h, hx]
      exact Nat.zero_le _
  cases e with
  | mark m =>
      cases m with
      | managed request reply =>
          by_cases hok : ServerOp.isCreationOf id (.ext (.mark (.managed request reply))) = true
          · obtain ⟨htype, rfl, hret⟩ := of_decide_eq_true hok
            rcases hpre htype with ⟨-, hx⟩ | hrefusal
            · rw [if_pos hok, hx, opens, opens, if_pos rfl]
              exact le_rfl
            · rw [hret] at hrefusal
              cases hrefusal
          · exact hother (Bool.eq_false_iff.mpr hok) (.inr rfl)
      | _ => exact hother rfl (.inl rfl)
  | queuePop => exact hother rfl (.inr rfl)
  | _ => exact hother rfl (.inl rfl)

/-- A thread opens an account only with the access that makes it used. -/
theorem opens_access_le {a : TableOp} {slot : Slot} (x : Option UInt32)
    (h : a.isTransfer = true ∨ slot.used = false) :
    opens (table.loc a) (openedAfter x (.access a)) + slot.usedCount
      ≤ opens (table.loc a) x + (table.run a slot).2.usedCount := by
  rcases h with htransfer | hunused
  · -- a balance changes, or nothing does
    have hx : openedAfter x (.access a) = x := by
      cases a <;> first | rfl | cases htransfer
    rw [hx, Slot.usedCount, Slot.usedCount, (TableOp.run_of_isTransfer htransfer slot).2.1]
  · -- the record of an account that is not used
    have hzero : slot.usedCount = 0 := by
      rw [Slot.usedCount, hunused]
      rfl
    rw [hzero]
    exact (opens_of_access a slot x).1

/-- No account is created twice after one more operation, if whatever is answered or opened with it has been
open before, or becomes used. -/
theorem IdentityInv.once_append (h : IdentityInv tr s g) {o : ServerOp} {r : ServerRes o}
    {x' : Option UInt32} {cells' : UInt32 → Slot} (b' : Hold UInt32 Slot)
    (hle : ∀ id, (if ServerOp.isCreationOf id o then 1 else 0) + opens id x' + (s.cells id).usedCount
      ≤ opens id (g t).2 + (cells' id).usedCount) (id : UInt32) :
    creations id (tr ++ [⟨t, o, r, s⟩]) +
      (total (opens id) fun u => (Function.update g t (b', x') u).2) ≤ (cells' id).usedCount := by
  have honce := h.once id
  have htotal := total_opens id g t (b', x')
  have hle := hle id
  rw [creations_append]
  dsimp only at *
  omega

/-- Changing one account as its identity allows. -/
theorem stable_update {cells : UInt32 → Slot} {i : UInt32} {slot : Slot} (h : (cells i).Stable slot)
    (id : UInt32) : (cells id).Stable (Function.update cells i slot id) := by
  by_cases hid : id = i
  · subst hid
    rwa [Function.update_self]
  · rw [Function.update_of_ne hid]
    exact identitySpec.refl _

theorem identified_update {cells : UInt32 → Slot} {i : UInt32} {slot : Slot}
    (h : ∀ id, (cells id).Identified id) (hi : slot.Identified i) (id : UInt32) :
    (Function.update cells i slot id).Identified id := by
  by_cases hid : id = i
  · subst hid
    rwa [Function.update_self]
  · rw [Function.update_of_ne hid]
    exact h id

/-- **What an operation does to the accounts.** They keep their identity, and none is created twice. -/
theorem IdentityInv.accounts (h : IdentityInv tr s g)
    (hhold : HoldInv identitySpec s fun u => (g u).1) {o : ServerOp} {r : ServerRes o}
    {Φ : ServerRes o → Hold UInt32 Slot × Option UInt32 → Prop} (b' : Hold UInt32 Slot)
    (hrule : (identity hash).rule (g t) o Φ)
    (hs : Locked.sem table (fun s => s.alive = true) Ext.Sem t o s r s') :
    (∀ id, (s.cells id).Stable (s'.cells id)) ∧ (∀ id, (s'.cells id).Identified id) ∧
      ∀ id, creations id (tr ++ [⟨t, o, r, s⟩]) +
        (total (opens id) fun u => (Function.update g t (b', openedAfter (g t).2 o) u).2)
          ≤ (s'.cells id).usedCount := by
  obtain ⟨hpre, hrule⟩ := hrule
  have hsame : (∀ id, (if ServerOp.isCreationOf id o then 1 else 0) +
      opens id (openedAfter (g t).2 o) ≤ opens id (g t).2) →
      (∀ id, (s.cells id).Stable (s.cells id)) ∧ (∀ id, (s.cells id).Identified id) ∧
        ∀ id, creations id (tr ++ [⟨t, o, r, s⟩]) +
          (total (opens id) fun u => (Function.update g t (b', openedAfter (g t).2 o) u).2)
            ≤ (s.cells id).usedCount :=
    fun ho => ⟨fun id => identitySpec.refl _, h.identified,
      h.once_append b' fun id => Nat.add_le_add_right (ho id) _⟩
  cases o with
  | lock i =>
      obtain ⟨-, -, rfl⟩ := hs
      exact hsame fun id => (Nat.zero_add _).le
  | unlock i =>
      obtain ⟨-, rfl⟩ := hs
      exact hsame fun id => (Nat.zero_add _).le
  | ext e =>
      obtain ⟨-, rest, -, rfl⟩ := hs
      exact hsame (opens_of_ext hpre)
  | access a =>
      obtain ⟨-, -, rfl⟩ := hs
      obtain ⟨hmem, hle, -⟩ := hrule
      have hcur : (g t).1.cur (table.loc a) = s.cells (table.loc a) := hhold.cur t _ hmem
      rw [hcur] at hle
      have hident : (table.run a (s.cells (table.loc a))).2.Identified (table.loc a) := by
        rcases hpre with htransfer | ⟨-, hident⟩
        · obtain ⟨-, hused, hid⟩ := TableOp.run_of_isTransfer htransfer (s.cells (table.loc a))
          intro hu
          rw [hid]
          exact h.identified _ (hused ▸ hu)
        · rwa [hcur] at hident
      have hunused : a.isTransfer = true ∨ (s.cells (table.loc a)).used = false :=
        hpre.imp_right fun hpre => hcur ▸ hpre.1
      refine ⟨stable_update hle, identified_update h.identified hident, h.once_append b' fun id => ?_⟩
      change 0 + _ + _ ≤ _ + (Function.update s.cells (table.loc a) _ id).usedCount
      rw [Nat.zero_add]
      by_cases hid : id = table.loc a
      · subst hid
        rw [Function.update_self]
        exact opens_access_le _ hunused
      · rw [Function.update_of_ne hid]
        exact Nat.add_le_add_right ((opens_of_access a (s.cells (table.loc a)) _).2 id hid) _

/-! ## The certificate -/

/-- The results of `generateHash` are as the world says. -/
theorem hashes_of_sem (hhash : W.HashesBy hash) {e : Ext} {r : e.Res} {s s' : Shared W}
    (h : e.Sem t s r s') : e.Hashes hash r := by
  cases e with
  | sys call =>
      obtain ⟨w, hw, -⟩ := h
      cases call with
      | generateHash password salt => exact hhash _ _ _ _ _ _ hw
      | _ => trivial
  | _ => trivial

/-- Every operation performed as its rule asks keeps the invariant. -/
theorem IdentityInv.exec (h : IdentityInv tr s g) (hhash : W.HashesBy hash) {o : ServerOp}
    {r : ServerRes o} {Φ : ServerRes o → Hold UInt32 Slot × Option UInt32 → Prop}
    (hrule : (identity hash).rule (g t) o Φ)
    (hs : Locked.sem table (fun s => s.alive = true) Ext.Sem t o s r s') :
    ∃ g', Φ r g' ∧ IdentityInv (tr ++ [⟨t, o, r, s⟩]) s' (Function.update g t g') := by
  have hhold := h.running (Locked.sem_live hs)
  obtain ⟨b', hΦ, hhold'⟩ := hhold.extra hrule hs
  obtain ⟨-, hident, honce⟩ := h.accounts hhold b' hrule hs
  refine ⟨(b', openedAfter (g t).2 o), ?_, hident, honce, fun _ => hhold' _⟩
  cases o with
  | ext e =>
      obtain ⟨-, rest, hsem, -⟩ := hs
      exact hΦ (hashes_of_sem hhash hsem)
  | _ => exact hΦ

/-- What a thread guarantees between two programs: it holds no account. -/
def released (ctl : Ctl) (g : Hold UInt32 Slot × Option UInt32) : Prop :=
  ctl = .ended ∨ g.1.held = ∅

/-- The threads keep the rules of identity. -/
theorem wp_identity_body {ctl : Ctl} {g : Hold UInt32 Slot × Option UInt32} (h : released ctl g) :
    ((server n W serverFifoFD shutdownFD).body t ctl).wp (identity hash) released g := by
  obtain ⟨b, x⟩ := g
  rcases h with rfl | hb
  · cases t <;> exact .inl rfl
  have hb : b.held = ∅ := hb
  cases t with
  | main =>
      refine (plain_mainBody _ ctl).wp_keep (J := (· = b)) (fun _ _ ha => ha.elim)
        (fun e b' he _ => ⟨?_, fun r b'' Φ hΦ _ => ?_⟩) rfl ?_
      · cases e <;> trivial
      · have hx : openedAfter x (.ext e) = x := by
          cases e <;> first | rfl | cases he
        rwa [hx]
      · rintro ctl' b' rfl
        exact .inr hb
  | office i =>
      change (officeBody ⟨n, serverFifoFD, shutdownFD⟩ i ctl).wp (identity hash) released (b, x)
      cases ctl with
      | start => exact wp_identity_ext trivial fun _ _ => .inr hb
      | serve =>
          exact Prog.wp_seq (wp_identity_bankOfficeRound hb) fun _ _ hg => .inr hg.1
      | _ => exact .inl rfl

/-- The certificate of identity. -/
def identityCertificate (hhash : W.HashesBy hash) (serverFifoFD shutdownFD : Int) :
    Certificate (server n W serverFifoFD shutdownFD) fun _ => identity hash where
  assumes _ := True
  assumes_append _ := trivial
  inv tr c g := IdentityInv tr c.shared g
  post _ := released
  init h := ⟨_, IdentityInv.init h.1, fun _ => .inr rfl⟩
  exec _ _ h _ hrule hs := h.exec hhash hrule hs
  loop {tr c g t x} h _ hpost :=
    ⟨g t, wp_identity_body hpost, by rwa [Function.update_eq_self]⟩
  divert {tr c g t o k x s' Φ} h _ _ hd := by
    obtain ⟨hx, hcells, howner, halive⟩ := frame_of_divert hd
    refine ⟨g t, .inl hx, ?_⟩
    rw [Function.update_eq_self]
    exact h.congr hcells howner halive
  env h he := by
    obtain ⟨w, -, rfl⟩ := he
    exact h.congr rfl rfl fun ha => ha

/-! ## Runs -/

/-- An account on which a login succeeds is used and accepts the password. -/
theorem checkLogin_eq_none {request : TlvRequest} {slot : Slot}
    (h : checkLogin hash request slot = none) : slot.used = true ∧
      hash (cString request.value.header.password) slot.account.salt = slot.account.hash := by
  have hused := used_of_checkLogin h
  refine ⟨hused, ?_⟩
  by_contra hne
  rw [checkLogin, if_pos hused, if_pos hne] at h
  cases h

/-- Every operation that a thread is about to perform in a run is as the rules of identity ask. -/
theorem identifies_of_run (hhash : W.HashesBy hash)
    (h : (server n W serverFifoFD shutdownFD).Run tr c) :
    ∃ g, IdentityInv tr c.shared g ∧ ∀ t o k, c.prog t = .op o k →
      (identity hash).rule (g t) o fun _ _ => True := by
  obtain ⟨g, hg⟩ := (identityCertificate hhash serverFifoFD shutdownFD).run h trivial
  exact ⟨g, hg.1, fun t o k hp => (identity hash).mono (fun _ _ _ => trivial) (hg.rule hp)⟩

/-- One step of a run keeps the identity of all accounts. -/
theorem stable_of_step (hhash : W.HashesBy hash) {e : Option (ServerEvent n W)}
    (h : (server n W serverFifoFD shutdownFD).Run tr c)
    (hs : (server n W serverFifoFD shutdownFD).Step c e c') (id : UInt32) :
    (c.shared.cells id).Stable (c'.shared.cells id) := by
  have hsame : c'.shared.cells = c.shared.cells → (c.shared.cells id).Stable (c'.shared.cells id) := by
    intro hcells
    rw [hcells]
    exact identitySpec.refl _
  cases hs with
  | exec hp hsem =>
      have hsem : Locked.sem table (fun s => s.alive = true) Ext.Sem _ _ _ _ _ := hsem
      obtain ⟨g, hinv, hrule⟩ := identifies_of_run hhash h
      have hhold := hinv.running (Locked.sem_live hsem)
      exact (hinv.accounts hhold (Hold.empty c.shared.cells) (hrule _ _ _ hp) hsem).1 id
  | loop => exact hsame rfl
  | divert hp hd =>
      rename_i o k x s'
      cases o with
      | ext e =>
          obtain ⟨-, -, ⟨rest, -, rfl⟩ | ⟨i, -, -, -, rfl⟩⟩ := hd
          · exact hsame rfl
          · exact hsame rfl
      | _ => exact hd.elim
  | env he =>
      obtain ⟨w, -, rfl⟩ := he
      exact hsame rfl

/-- So do any number of steps. -/
theorem stable_of_path (hhash : W.HashesBy hash)
    (h : (server n W serverFifoFD shutdownFD).Run tr c)
    (hp : (server n W serverFifoFD shutdownFD).Path c tr' c') (id : UInt32) :
    (c.shared.cells id).Stable (c'.shared.cells id) := by
  induction hp with
  | refl => exact identitySpec.refl _
  | step hp hs ih => exact identitySpec.trans ih (stable_of_step hhash (h.trans hp) hs id)

/-- What `getAccount` finds for the account of a request: it is used, it is the account of this number,
and it accepts the password. -/
structure TlvRequest.Finds (hash : Bytes → Bytes → Bytes) (request : TlvRequest)
    (cells : UInt32 → Slot) : Prop where
  used : (cells request.value.header.accountId).used = true
  accountId : (cells request.value.header.accountId).account.accountId
    = request.value.header.accountId
  accepts : hash (cString request.value.header.password)
      (cells request.value.header.accountId).account.salt
    = (cells request.value.header.accountId).account.hash

/-- **Account identity is permanent and unique.** Take any number of offices, any requests, and any run
in which `generateHash` succeeds. An account that is used stays used, with the same number, hash and
salt, whatever happens afterwards; it holds its own number; at most one creation of it is answered with
`OK`, and every other one is refused. An office that is about to execute a balance enquiry or a
transfer finds the account of its request, which accepts the password of the request; and no thread
ever uses a null pointer. -/
theorem accounts_keep_identity (hhash : W.HashesBy hash)
    (h : (server n W serverFifoFD shutdownFD).Run tr c) :
    (∀ tr' c', (server n W serverFifoFD shutdownFD).Path c tr' c' → ∀ id,
        (c.shared.cells id).Stable (c'.shared.cells id)) ∧
      (∀ id, (c.shared.cells id).used = true → c.shared.owner id = none →
        (c.shared.cells id).account.accountId = id) ∧
      (∀ id, creations id tr ≤ 1) ∧
      (∀ e ∈ tr, ∀ request reply, e.op = .ext (.mark (.managed request reply)) →
        request.type = .opCreateAccount →
        reply.value.header.retCode = .ok ∨ reply.value.header.retCode.isRefusal = true) ∧
      (∀ t request k, c.prog t = .op (.ext (.mark (.handleBalance request))) k ∨
        c.prog t = .op (.ext (.mark (.handleTransfer request))) k →
        c.shared.rest.alive = true → request.Finds hash c.shared.cells) ∧
      ∀ t k, c.prog t ≠ .op (.ext .segfault) k := by
  obtain ⟨g, hinv, hrule⟩ := identifies_of_run hhash h
  refine ⟨fun tr' c' hp id => stable_of_path hhash h hp id, fun id hused _ => hinv.identified id hused,
    fun id => ?_, ?_, ?_, fun t k hp => (hrule t _ k hp).1⟩
  · have := hinv.once id
    have hle : (c.shared.cells id).usedCount ≤ 1 := by
      rw [Slot.usedCount]
      split <;> omega
    omega
  · intro e he request reply hop htype
    -- back to the state in which the reply was marked
    obtain ⟨tr₁, c₁, k, s', hr, -, hp, -⟩ := h.mem he
    obtain ⟨g₁, -, hrule₁⟩ := identifies_of_run hhash hr
    have hpre : Identifies hash (g₁ e.tid).2 (g₁ e.tid).1 e.op := (hrule₁ _ _ _ hp).1
    rw [hop] at hpre
    have hsettled : request.Settled reply (g₁ e.tid).2 := hpre
    exact (hsettled htype).imp And.left fun hrefusal => hrefusal
  · intro t request k hp halive
    have hfind : request.value.header.accountId ∈ (g t).1.held ∧
        checkLogin hash request ((g t).1.cur request.value.header.accountId) = none := by
      rcases hp with hp | hp
      · exact (hrule t (.ext (.mark (.handleBalance request))) k hp).1
      · exact (hrule t (.ext (.mark (.handleTransfer request))) k hp).1
    rw [(hinv.running halive).cur t _ hfind.1] at hfind
    obtain ⟨hused, haccepts⟩ := checkLogin_eq_none hfind.2
    exact ⟨hused, hinv.identified _ hused, haccepts⟩

/-- Two offices are told to create the same account: one creation is answered with `OK`. -/
theorem accounts_keep_identity_rivals :
    ∃ tr c, (server 2 (servingScript _ rivalReads).world 3 4).Run tr c ∧ (managed tr).length = 2 ∧
      creations 1 tr ≤ 1 := by
  obtain ⟨tr, c, hp, hc⟩ := System.exists_path_of_play (serverPlayer _ 3 4)
    (List.replicate 18 (.run .main) ++ List.replicate 15 (.run (.office 0)) ++
      List.replicate 15 (.run (.office 1)) ++ List.replicate 18 (.run (.office 0)) ++
      List.replicate 11 (.run (.office 1)))
    (firstConfig (servingScript (Thread 2) rivalReads) [9] [7] fun _ => 0)
    (fun tr _ => (managed tr).length == 2) (by decide +kernel)
  have hhash : (servingScript (Thread 2) rivalReads).world.HashesBy fun _ _ => [9] := by
    intro t password salt w r w' h
    exact (Prod.mk.inj (Option.some.inj h)).1.symm
  have hrun := System.Run.trans (System.Initial.run
    (initial_firstConfig (servingScript (Thread 2) rivalReads) [9] [7] (fun _ => 0) 3 4)) hp
  exact ⟨tr, c, hrun, beq_iff_eq.mp hc, (accounts_keep_identity hhash hrun).2.2.1 1⟩

end Sope
