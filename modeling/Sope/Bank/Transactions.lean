import Sope.Bank.Sequential

/-! # Requests as transactions

Each request takes effect at one moment, its *commit*: when the login fails or the request is one for a
shutdown, the unlocking after the login, otherwise the first unlocking after the operation. The rules
`transactions` ask that at this moment the thread has done to the accounts it holds what
`manageRequest` does alone, whatever the other accounts hold (`Commits`).

The login is made before the operation and in a critical section of its own. It stays valid until the
commit, since an account that is used stays used and keeps its hash and its salt (`Slot.Stable`). -/

namespace Sope

open Concurrency

/-- What a thread may rely on: accounts are stable. -/
def loginSpec : CellSpec UInt32 Slot := { bankSpec 0 with inv := fun _ _ => True }

/-- What a thread knows of the request it is working on. -/
structure Tx where
  /-- The salt drawn for the request, empty if none was drawn; `none` without a request. -/
  hand : Option Bytes
  /-- What the accounts that the thread holds would contain without its own changes. -/
  snap : UInt32 → Slot
  /-- The job that the thread has committed. -/
  done : Option Job

/-- The salt after an operation. -/
def handAfter (hand : Option Bytes) : (o : ServerOp) → ServerRes o → Option Bytes
  | .ext .queuePop, _ => some []
  | .ext (.sys .generateSalt), salt => hand.map fun _ => salt
  | .ext (.mark (.managed ..)), _ => none
  | _, _ => hand

/-- Between requests nothing is committed. -/
def Ext.isBoundary : Ext → Bool
  | .queuePop | .mark (.managed ..) => true
  | _ => false

/-- What a thread knows after an operation. -/
def Tx.after (x : Tx) (e : Ext) (r : e.Res) : Tx :=
  { x with
    hand := handAfter x.hand (.ext e) r
    done := if e.isBoundary then none else x.done }

/-- The thread may commit `job`: its changes keep the logins valid, and they are what `manageRequest`
does alone on any table that agrees with what the thread knows. -/
def Commits (setup : Setup) (hash : Bytes → Bytes → Bytes) (b : Hold UInt32 Slot)
    (snap : UInt32 → Slot) (job : Job) : Prop :=
  (∀ i ∈ b.held, (snap i).Stable (b.cur i)) ∧
    ∀ m, (∀ i ∈ b.held, m i = snap i) → (∀ i slot, b.seen i = some slot → slot.Stable (m i)) →
      job.Serial setup hash m (b.over m)

/-- What a thread may conclude from the result of an operation. -/
def Ext.Tells (hash : Bytes → Bytes → Bytes) : (e : Ext) → e.Res → Prop
  | .sys (.generateHash password salt), r => r = some (hash password salt)
  | .add a b, r => r = a + b
  | .sub a b, r => r = a - b
  | .queuePop, request => TlvRequest.type request ≠ .opMaxNumber
  | _, _ => True

/-- The rules of transactions. -/
def transactions (setup : Setup) (hash : Bytes → Bytes → Bytes) :
    Extra UInt32 Slot TableOp Ext TableOp.Res Ext.Res Tx where
  pre x b
    | .lock _ => x.hand ≠ none
    | .ext .queuePop => x.hand = none
    | .ext (.mark (.managed request reply)) => b.held = ∅ ∧ ∃ salt, x.hand = some salt ∧
        x.done = some ⟨request, salt, reply.withoutActiveOffices⟩
    | _ => True
  rule x b o r b' Φ :=
    match o, r with
    | .lock i, _ => Φ { x with snap := Function.update x.snap i (b'.cur i) }
    | .unlock i, _ => (b.cur i = x.snap i ∧ Φ x) ∨
        (x.done = none ∧ ∃ job, Commits setup hash b x.snap job ∧
          Φ { x with snap := b.cur, done := some job })
    | .access _, _ => Φ x
    | .ext e, r => e.Tells hash r → Φ (x.after e r)
  mono {x b o r b' Φ Ψ} h hr := by
    cases o with
    | lock i => exact h _ hr
    | unlock i =>
        rcases hr with ⟨hsame, hr⟩ | ⟨hdone, job, hjob, hr⟩
        · exact .inl ⟨hsame, h _ hr⟩
        · exact .inr ⟨hdone, job, hjob, h _ hr⟩
    | access a => exact h _ hr
    | ext e => exact fun he => h _ (hr he)

/-- The rules of transactions, with those of the locks. -/
abbrev transacts (setup : Setup) (hash : Bytes → Bytes → Bytes) :
    Protocol ServerOp ServerRes (Hold UInt32 Slot × Tx) :=
  (transactions setup hash).protocol table .trivial

variable {setup : Setup} {hash : Bytes → Bytes → Bytes} {request : TlvRequest} {α : Type}
  {b : Hold UInt32 Slot} {x : Tx}

/-! ## Single operations -/

/-- An operation that is no boundary and draws no salt tells the thread nothing about its request. -/
theorem Tx.after_of_isInert {e : Ext} (he : e.isInert = true) (r : e.Res) : x.after e r = x := by
  cases e with
  | sys call => cases call <;> first | rfl | cases he
  | mark m => cases m <;> first | rfl | cases he
  | _ => first | rfl | cases he

theorem Tx.after_of_isDetermined {e : Ext} (he : e.isDetermined = true) (r : e.Res) :
    x.after e r = x := by
  cases e with
  | sys call => cases call <;> first | rfl | cases he
  | mark m => cases m <;> first | rfl | cases he
  | _ => first | rfl | cases he

/-- An operation on everything but the accounts. -/
theorem wp_tx_ext {Q : α → Hold UInt32 Slot × Tx → Prop} {e : Ext} {k : e.Res → Server α}
    (hpre : (transactions setup hash).pre x b (.ext e))
    (hk : ∀ r, e.Tells hash r → (k r).wp (transacts setup hash) Q (b, x.after e r)) :
    (ext e >>= k).wp (transacts setup hash) Q (b, x) := ⟨hpre, hk⟩

/-- A program that only reads held accounts. -/
theorem wp_tx_reads {Q : α → Hold UInt32 Slot × Tx → Prop} {p : Server α} {H : UInt32 → Prop}
    (hp : Reads H p) (hH : ∀ i, H i → i ∈ b.held) (hQ : ∀ a, Q a (b, x)) :
    p.wp (transacts setup hash) Q (b, x) := by
  refine hp.wp_read (fun a ha => ⟨hH _ ha.1, TableOp.run_of_isRead ha.2⟩)
    (fun a ha => ⟨trivial, fun r Φ h => h⟩) (fun e he => ⟨?_, fun (r : e.Res) Φ h _ => ?_⟩) hQ
  · cases e with
    | mark m => cases m <;> trivial
    | _ => trivial
  · rwa [Tx.after_of_isInert he]

/-- A program that only calls the system. -/
theorem wp_tx_calls {Q : α → Hold UInt32 Slot × Tx → Prop} {p : Server α} (hp : Calls p)
    (hQ : ∀ a, Q a (b, x)) : p.wp (transacts setup hash) Q (b, x) :=
  wp_tx_reads (H := fun _ => False) hp.reads (fun _ hi => hi.elim) hQ

/-- Reading a held account. -/
theorem wp_tx_read {Q : α → Hold UInt32 Slot × Tx → Prop} {a : TableOp} {k : a.Res → Server α}
    {r : a.Res} (hread : a.isRead = true) (hloc : table.loc a ∈ b.held)
    (hr : (table.run a (b.cur (table.loc a))).1 = r)
    (hk : (k r).wp (transacts setup hash) Q (b, x)) :
    (access a >>= k).wp (transacts setup hash) Q (b, x) := by
  refine ⟨trivial, hloc, trivial, ?_⟩
  have hb : b.write (table.loc a) (table.run a (b.cur (table.loc a))).2 = b := by
    rw [TableOp.run_of_isRead hread, Hold.write, Function.update_eq_self]
  rw [hb, hr]
  exact hk

/-- A program that computes with held accounts. -/
theorem wp_tx_computes {Q : α → Hold UInt32 Slot × Tx → Prop} {p : Server α} {A : TableOp → Prop}
    (salt : Bytes) (hp : p.Within A fun e => e.isDetermined = true)
    (hA : ∀ a, A a → table.loc a ∈ b.held)
    (hQ : ∀ a b', b.Ran table (Ext.answer hash salt) p a b' → Q a (b', x)) :
    p.wp (transacts setup hash) Q (b, x) := by
  refine hp.wp_solo hA (fun a b => ⟨trivial, fun r b' Φ h => h⟩)
    (fun e b he => ⟨?_, fun (r : e.Res) b' Φ h htells => ?_⟩) hQ
  · cases e with
    | mark m => cases m <;> trivial
    | _ => trivial
  · rw [Tx.after_of_isDetermined he]
    refine h ?_
    cases e with
    | sys call =>
        cases call with
        | generateHash password salt' =>
            change r = some (hash password salt') at htells
            rw [htells]
            rfl
        | _ => cases he
    | add a c | sub a c =>
        obtain rfl := htells
        rfl
    | mark m => rfl
    | segfault => exact nomatch r
    | _ => cases he

/-! ## Operations between locks -/

/-- In the middle of the other threads, a handler does to the held accounts what it does alone, with
the salt that it draws, and keeps the logins valid. -/
def Isolated (setup : Setup) (hash : Bytes → Bytes → Bytes) (handler : Server TlvReply)
    (b : Hold UInt32 Slot) (x : Tx) : Prop :=
  ∀ Q : TlvReply → Hold UInt32 Slot × Tx → Prop,
    (∀ reply b' salt, b.Ran table (Ext.answer hash salt) handler reply b' →
      (∀ i ∈ b.held, (b.cur i).Stable (b'.cur i)) → Q reply (b', { x with hand := some salt })) →
    handler.wp (transacts setup hash) Q (b, x)

/-- A handler that computes with held accounts. -/
theorem isolated_of_computes {handler : Server TlvReply} {H : UInt32 → Prop}
    (hp : Computes H handler) (hH : ∀ i, H i → i ∈ b.held) (hx : x.hand = some []) :
    Isolated setup hash handler b x := by
  intro Q hQ
  refine wp_tx_computes [] hp (fun a ha => hH _ ha.1) fun reply b' hran => ?_
  have hx' : x = { x with hand := some [] } := by rw [← hx]
  rw [hx']
  refine hQ reply b' [] hran fun i hi => ?_
  -- alone, too, it changes at most balances
  have hle := hp.solo_le (L := loginSpec) (fun a ha slot => ?_)
    (hran.2.2 b.cur fun _ _ => rfl) i
  · rw [Hold.over_of_mem (by rw [hran.1]; exact hi)] at hle
    exact hle
  · have ha := ha.2
    cases a with
    | writeBalance id balance => exact fun hu => ⟨hu, rfl, rfl, rfl⟩
    | _ => first | exact loginSpec.refl _ | cases ha

/-- Creating an account, the only one that is locked. -/
theorem isolated_handleCreateAccountRequest (hb : b.held = {request.value.create.accountId})
    (hx : x.hand = some []) :
    Isolated setup hash (handleCreateAccountRequest request) b x := by
  intro Q hQ
  have hid : request.value.create.accountId ∈ b.held := by simp [hb]
  have hx' : x = { x with hand := some [] } := by rw [← hx]
  have hrefl : ∀ i ∈ b.held, (b.cur i).Stable (b.cur i) := fun i _ => loginSpec.refl _
  refine wp_tx_ext trivial fun _ _ => ?_
  change (if request.value.header.accountId ≠ adminAccountId then _ else _ : Server TlvReply).wp
    _ Q (b, x)
  by_cases hadmin : request.value.header.accountId ≠ adminAccountId
  · rw [if_pos hadmin, hx']
    refine hQ _ b [] (.ext (r := ()) rfl ?_) hrefl
    change Hold.Ran _ _ (if request.value.header.accountId ≠ adminAccountId then _ else _) _ _ _
    rw [if_pos hadmin]
    exact .ret
  · rw [if_neg hadmin]
    have hstart : ∀ {used : Bool} {k : Bool → Server TlvReply} {salt : Bytes} {reply : TlvReply}
        {b' : Hold UInt32 Slot}, (b.cur request.value.create.accountId).used = used →
        b.Ran table (Ext.answer hash salt) (k used) reply b' →
        b.Ran table (Ext.answer hash salt)
          (.op (.access (.readUsed request.value.create.accountId)) k) reply b' :=
      fun hused hran => .read (a := TableOp.readUsed _) hid (fun _ => rfl) hused hran
    -- the same branches as in the program, now with the transaction alone
    cases hused : (b.cur request.value.create.accountId).used with
    | true =>
        refine wp_tx_read (a := .readUsed _) rfl hid hused ?_
        rw [hx']
        refine hQ _ b [] (.ext (r := ()) rfl ?_) hrefl
        change Hold.Ran _ _ (if request.value.header.accountId ≠ adminAccountId then _ else _) _ _ _
        rw [if_neg hadmin]
        exact hstart hused .ret
    | false =>
        refine wp_tx_read (a := .readUsed _) rfl hid hused ?_
        refine wp_tx_ext trivial fun salt _ => ?_
        have hsalt : x.after (.sys .generateSalt) salt = { x with hand := some salt } := by
          obtain ⟨hand, snap, done⟩ := x
          obtain rfl : hand = some [] := hx
          rfl
        rw [hsalt]
        change (fillAccount _ _ _ salt >>= _ : Server TlvReply).wp _ Q _
        refine wp_tx_computes (A := fun a => table.loc a = request.value.create.accountId) salt
          (within_fillAccount.bind fun _ => trivial) (fun a ha => ?_) fun reply b' hran => ?_
        · rw [ha]
          exact hid
        · refine hQ reply b' salt (.ext (r := ()) rfl ?_) fun i hi hu => ?_
          · change Hold.Ran _ _ (if request.value.header.accountId ≠ adminAccountId then _ else _)
              _ _ _
            rw [if_neg hadmin]
            exact hstart hused (.ext rfl hran)
          · -- the account was not used, so nothing is asked of the new one
            rw [hb, Finset.mem_singleton] at hi
            rw [hi, hused] at hu
            cases hu

/-! ## Committing -/

/-- The request is finished: its job is committed, and no account is locked. -/
def Finished (request : TlvRequest) (reply : TlvReply) (g : Hold UInt32 Slot × Tx) : Prop :=
  g.1.held = ∅ ∧ ∃ salt, g.2.hand = some salt ∧
    g.2.done = some ⟨request, salt, reply.withoutActiveOffices⟩

/-- An operation may be committed when it has done what it does alone and the login, made before on
the account `slot`, has succeeded. -/
theorem commits_of_ran {handler : Server TlvReply} {b' : Hold UInt32 Slot} {snap : UInt32 → Slot}
    {salt : Bytes} {reply : TlvReply} {slot : Slot}
    (hran : b.Ran table (Ext.answer hash salt) handler reply b')
    (hstable : ∀ i ∈ b.held, (b.cur i).Stable (b'.cur i)) (hsnap : ∀ i ∈ b.held, snap i = b.cur i)
    (hseen : b.seen request.value.header.accountId = some slot)
    (hlogin : checkLogin hash request slot = none)
    (hsolo : ∀ m, (performRequest setup request).solo table (Ext.answer hash salt) m
      = handler.solo table (Ext.answer hash salt) m) :
    Commits setup hash b' snap ⟨request, salt, reply.withoutActiveOffices⟩ := by
  obtain ⟨hheld, hseen', hran⟩ := hran
  refine ⟨fun i hi => ?_, fun m hm hs => ?_⟩
  · rw [hheld] at hi
    rw [hsnap i hi]
    exact hstable i hi
  · refine Job.serial_of_valid (checkLogin_of_stable (hs _ slot (by rw [hseen', hseen])) hlogin) ?_
    rw [hsolo, hran]
    intro i hi
    rw [hm i (by rwa [hheld]), hsnap i hi]

/-- Taking a lock. -/
theorem wp_tx_lock {Q : Unit → Hold UInt32 Slot × Tx → Prop} {i : UInt32} (hx : x.hand ≠ none)
    (hi : i ∉ b.held)
    (hk : ∀ slot, Q () (b.lock i slot, { x with snap := Function.update x.snap i slot })) :
    (lockAccount i).wp (transacts setup hash) Q (b, x) := by
  refine ⟨hx, hi, fun slot _ _ => ?_⟩
  have := hk slot
  change Q () (b.lock i slot, { x with snap := Function.update x.snap i ((b.lock i slot).cur i) })
  rwa [Hold.cur_lock, Function.update_self]

/-- Releasing a lock after the commit, or without one when nothing has been changed. -/
theorem wp_tx_unlock {Q : Unit → Hold UInt32 Slot × Tx → Prop} {i : UInt32} (hi : i ∈ b.held)
    (hsame : b.cur i = x.snap i) (hk : Q () (b.unlock i, x)) :
    (unlockAccount i).wp (transacts setup hash) Q (b, x) :=
  ⟨trivial, hi, trivial, .inl ⟨hsame, hk⟩⟩

/-- Releasing the first lock, with a commit. -/
theorem wp_tx_commit {Q : Unit → Hold UInt32 Slot × Tx → Prop} {i : UInt32} (job : Job)
    (hi : i ∈ b.held) (hdone : x.done = none) (hjob : Commits setup hash b x.snap job)
    (hk : Q () (b.unlock i, { x with snap := b.cur, done := some job })) :
    (unlockAccount i).wp (transacts setup hash) Q (b, x) :=
  ⟨trivial, hi, trivial, .inr ⟨hdone, job, hjob, hk⟩⟩

/-! ## Managing a request -/

/-- The login has succeeded, on the account as it was in `slot`, and nothing else has been done. -/
structure LoggedIn (hash : Bytes → Bytes → Bytes) (request : TlvRequest) (slot : Slot)
    (b : Hold UInt32 Slot) (x : Tx) : Prop where
  held : b.held = ∅
  hand : x.hand = some []
  done : x.done = none
  seen : b.seen request.value.header.accountId = some slot
  login : checkLogin hash request slot = none

/-- A request that needs one account locked. -/
theorem wp_tx_single {id delayMS : UInt32} {handler : Server TlvReply} {slot : Slot}
    (h : LoggedIn hash request slot b x)
    (hp : performRequest setup request = do
      getSingleAccountAccess id delayMS
      let reply ← handler
      unlockAccount id
      return reply)
    (hh : ∀ b' x', b'.held = {id} → x'.hand = some [] → Isolated setup hash handler b' x') :
    (performRequest setup request).wp (transacts setup hash) (Finished request) (b, x) := by
  have hsolo : ∀ salt m, (performRequest setup request).solo table (Ext.answer hash salt) m
      = handler.solo table (Ext.answer hash salt) m := by
    intro salt m
    rw [hp]
    exact solo_locked (fun _ => rfl) fun _ => rfl
  rw [hp]
  simp only [Prog.wp_bind, getSingleAccountAccess]
  refine wp_tx_lock (by simp [h.hand]) (by simp [h.held]) fun c => ?_
  refine wp_tx_calls (calls_opDelay delayMS) fun _ => ?_
  have hheld : (b.lock id c).held = {id} := by simp [h.held]
  refine hh _ ⟨x.hand, Function.update x.snap id c, x.done⟩ hheld h.hand _
    fun reply b' salt hran hstable => ?_
  have hid : id ∈ b'.held := by simp [hran.1]
  refine wp_tx_commit _ hid h.done (commits_of_ran hran hstable ?_ h.seen h.login (hsolo salt)) ?_
  · intro i hi
    rw [hheld, Finset.mem_singleton] at hi
    subst hi
    simp
  · exact ⟨by simp [hran.1, h.held], salt, rfl, rfl⟩

/-- A transfer: both accounts are locked, the smaller one first, or the one account once. -/
theorem wp_tx_double {id1 id2 delayMS : UInt32} {handler : Server TlvReply} {slot : Slot}
    (h : LoggedIn hash request slot b x)
    (hp : performRequest setup request = do
      getDoubleAccountAccess id1 id2 delayMS
      let reply ← handler
      unlockDoubleAccount id1 id2
      return reply)
    (hh : ∀ b' x', id1 ∈ b'.held → id2 ∈ b'.held → x'.hand = some [] →
      Isolated setup hash handler b' x') :
    (performRequest setup request).wp (transacts setup hash) (Finished request) (b, x) := by
  by_cases heq : id1 = id2
  · subst heq
    rw [getDoubleAccountAccess, unlockDoubleAccount, if_pos rfl, if_pos rfl] at hp
    exact wp_tx_single h hp fun b' x' hb' => hh b' x' (by simp [hb']) (by simp [hb'])
  · obtain ⟨first, second, hlt, hids, hget, hput⟩ := getDoubleAccountAccess_of_ne heq delayMS
    have hne : first ≠ second := fun h => absurd hlt (by simp [h])
    rw [hget, hput] at hp
    -- alone, the locks and the delay do nothing
    have hsolo : ∀ salt m, (performRequest setup request).solo table (Ext.answer hash salt) m
        = handler.solo table (Ext.answer hash salt) m := by
      intro salt m
      rw [hp]
      exact solo_locked (fun _ => rfl) fun _ => rfl
    rw [hp]
    simp only [Prog.wp_bind]
    refine wp_tx_lock (by simp [h.hand]) (by simp [h.held]) fun c₁ => ?_
    refine wp_tx_calls (calls_opDelay delayMS) fun _ => ?_
    refine wp_tx_lock (by simp [h.hand]) (by simp [h.held, hne.symm]) fun c₂ => ?_
    refine wp_tx_calls (calls_opDelay delayMS) fun _ => ?_
    have hheld : ((b.lock first c₁).lock second c₂).held = {second, first} := by simp [h.held]
    have hmem : id1 ∈ ((b.lock first c₁).lock second c₂).held ∧
        id2 ∈ ((b.lock first c₁).lock second c₂).held := by
      rw [hheld]
      exact both_of_ids (p := (· ∈ ({second, first} : Finset UInt32))) hids (by simp) (by simp)
    refine hh _ ⟨x.hand, Function.update (Function.update x.snap first c₁) second c₂, x.done⟩
      hmem.1 hmem.2 h.hand _ fun reply b' salt hran hstable => ?_
    have hheld' : b'.held = {second, first} := hran.1.trans hheld
    -- the commit comes before the first of the two locks is released
    refine wp_tx_commit _ (by simp [hheld']) h.done
      (commits_of_ran hran hstable ?_ h.seen h.login (hsolo salt)) ?_
    · intro i hi
      rw [hheld, Finset.mem_insert, Finset.mem_singleton] at hi
      rcases hi with rfl | rfl
      · simp
      · simp [hne]
    · refine wp_tx_unlock (by simp [hheld', hne]) rfl ⟨?_, salt, rfl, rfl⟩
      change (b'.held.erase second).erase first = ∅
      rw [hheld']
      simp [hne.symm]

/-- The operation of a request other than a shutdown. -/
theorem wp_tx_performRequest {slot : Slot} (h : LoggedIn hash request slot b x)
    (hshutdown : request.type ≠ .opShutdown) (hmax : request.type ≠ .opMaxNumber) :
    (performRequest setup request).wp (transacts setup hash) (Finished request) (b, x) := by
  cases htype : request.type with
  | opCreateAccount =>
      exact wp_tx_single h (by rw [performRequest, htype]) fun b' x' =>
        isolated_handleCreateAccountRequest
  | opBalance =>
      refine wp_tx_single h (by rw [performRequest, htype]) fun b' x' hb' hx' => ?_
      exact isolated_of_computes (views_handleBalanceRequest (H := (· ∈ b'.held))
        (by simp [hb'])).computes (fun i hi => hi) hx'
  | opTransfer =>
      refine wp_tx_double h (by rw [performRequest, htype]) fun b' x' hsrc hdest hx' => ?_
      exact isolated_of_computes (computes_handleTransferRequest (H := (· ∈ b'.held)) hsrc hdest)
        (fun i hi => hi) hx'
  | opShutdown => exact absurd htype hshutdown
  | opMaxNumber => exact absurd htype hmax

/-- A shutdown, which was committed with the login. -/
theorem wp_tx_handleShutdown {Q : TlvReply → Hold UInt32 Slot × Tx → Prop}
    (hQ : ∀ reply : TlvReply, reply.withoutActiveOffices = shutdownReply request →
      Q reply (b, x)) :
    (handleShutdownRequest setup request).wp (transacts setup hash) Q (b, x) := by
  refine Prog.wp_seq (wp_tx_calls (Q := fun _ g => g = (b, x)) (calls_opDelay _) fun _ => rfl) ?_
  rintro - g rfl
  by_cases hadmin : request.value.header.accountId = adminAccountId
  · rw [if_pos hadmin]
    refine wp_tx_ext trivial fun _ _ => wp_tx_ext trivial fun _ _ => ?_
    refine Prog.wp_seq (wp_tx_calls (Q := fun _ g => g = (b, x))
      (within_countActive (fun _ => rfl) _ _) fun _ => rfl) ?_
    rintro numActiveOffices g rfl
    exact hQ _ (by rw [shutdownReply, if_pos hadmin]; rfl)
  · rw [if_neg hadmin]
    exact hQ _ (by rw [shutdownReply, if_neg hadmin])

/-- Sending the reply changes nothing. -/
theorem wp_tx_sendReply {reply : TlvReply} {path : Bytes} (h : Finished request reply (b, x)) :
    (do sendReply reply path
        return reply : Server TlvReply).wp (transacts setup hash) (Finished request) (b, x) := by
  rw [Prog.wp_bind]
  exact wp_tx_calls (calls_sendReply reply path) fun _ => h

/-- A login that is all there is to a request may be committed. -/
theorem commits_of_login {b' : Hold UInt32 Slot} {snap : UInt32 → Slot} {id : UInt32} {slot : Slot}
    {job : Job} (hheld : b'.held = {id}) (hcur : b'.cur id = slot) (hsnap : snap id = slot)
    (hserial : ∀ m, m id = slot → job.Serial setup hash m m) : Commits setup hash b' snap job := by
  have hmem : ∀ i ∈ b'.held, i = id := fun i hi => by
    rwa [hheld, Finset.mem_singleton] at hi
  refine ⟨fun i hi => ?_, fun m hm _ => ?_⟩
  · rw [hmem i hi, hsnap, hcur]
    exact loginSpec.refl slot
  · have hid : m id = slot := by rw [hm id (by simp [hheld]), hsnap]
    rw [Hold.over_eq_self fun i hi => by rw [hmem i hi, hcur, hid]]
    exact hserial m hid

/-- In the middle of the other threads, too, a login finds what it finds alone. -/
theorem ran_validateAccount {salt : Bytes} {invalid : Option TlvReply} {b' : Hold UInt32 Slot}
    (hid : request.value.header.accountId ∈ b.held)
    (h : b.Ran table (Ext.answer hash salt) (validateAccount request) invalid b') :
    invalid = checkLogin hash request (b.cur request.value.header.accountId) ∧
      b'.cur request.value.header.accountId = b.cur request.value.header.accountId := by
  have hsolo := (h.2.2 b.cur fun _ _ => rfl).symm.trans
    (solo_validateAccount (answers_answer hash salt))
  obtain ⟨hinvalid, hover⟩ := Prod.mk.inj (Option.some.inj hsolo)
  refine ⟨hinvalid, ?_⟩
  rw [← Hold.over_of_mem (b := b') (by rw [h.1]; exact hid) b.cur, hover]

/-- **`manageRequest` is a transaction.** -/
theorem wp_tx_manageRequest (hb : b.held = ∅) (hx : x.hand = some []) (hdone : x.done = none)
    (hmax : request.type ≠ .opMaxNumber) :
    (manageRequest setup request).wp (transacts setup hash) (Finished request) (b, x) := by
  simp only [manageRequest, Prog.wp_bind]
  refine wp_tx_lock (by simp [hx]) (by simp [hb]) fun slot => ?_
  have hid : request.value.header.accountId ∈
      (b.lock request.value.header.accountId slot).held := by simp
  refine wp_tx_computes [] (views_validateAccount (H := (· ∈ _)) hid).computes
    (fun a ha => ha.1) fun invalid b' hran => ?_
  obtain ⟨hinvalid, hcur⟩ := ran_validateAccount hid hran
  simp only [Hold.cur_lock, Function.update_self] at hinvalid hcur
  have hheld : b'.held = {request.value.header.accountId} := by simp [hran.1, hb]
  have hmem : request.value.header.accountId ∈ b'.held := by simp [hheld]
  have hsnap : Function.update x.snap request.value.header.accountId slot
      request.value.header.accountId = slot := Function.update_self ..
  have hunlock : (b'.unlock request.value.header.accountId).held = ∅ := by simp [hheld]
  cases hlogin : checkLogin hash request slot with
  | some reply =>
      -- the commit of a request that is refused
      rw [hlogin] at hinvalid
      subst hinvalid
      refine wp_tx_commit ⟨request, [], reply.withoutActiveOffices⟩ hmem hdone
        (commits_of_login hheld hcur hsnap fun m hm => Job.serial_of_invalid (by rw [hm, hlogin])) ?_
      exact wp_tx_sendReply ⟨hunlock, [], hx, rfl⟩
  | none =>
      rw [hlogin] at hinvalid
      subst hinvalid
      by_cases hshutdown : request.type = .opShutdown
      · -- the commit of a shutdown
        refine wp_tx_commit ⟨request, [], shutdownReply request⟩ hmem hdone
          (commits_of_login hheld hcur hsnap fun m hm =>
            Job.serial_of_shutdown hshutdown (by rw [hm, hlogin])) ?_
        refine Prog.wp_seq (R := Finished request) ?_ fun reply g hg => wp_tx_sendReply hg
        rw [performRequest, hshutdown]
        exact wp_tx_handleShutdown fun reply hreply => ⟨hunlock, [], hx, by rw [hreply]⟩
      · refine wp_tx_unlock hmem (hcur.trans hsnap.symm) ?_
        have hin : LoggedIn hash request slot (b'.unlock request.value.header.accountId)
            ⟨x.hand, Function.update x.snap request.value.header.accountId slot, x.done⟩ :=
          ⟨hunlock, hx, hdone, by simp [hcur], hlogin⟩
        exact Prog.wp_seq (wp_tx_performRequest hin hshutdown hmax) fun reply g hg =>
          wp_tx_sendReply hg

/-! ## The threads -/

/-- What a thread guarantees between two programs: it has no request in hand. -/
def unengaged (ctl : Ctl) (g : Hold UInt32 Slot × Tx) : Prop :=
  ctl = .ended ∨ (g.1.held = ∅ ∧ g.2.hand = none ∧ g.2.done = none)

/-- **A round of an office is a transaction.** -/
theorem wp_tx_bankOfficeRound {office : ℕ} (hb : b.held = ∅) (hx : x.hand = none) :
    (bankOfficeRound setup office).wp (transacts setup hash)
      (fun _ g => g.1.held = ∅ ∧ g.2.hand = none ∧ g.2.done = none) (b, x) := by
  refine wp_tx_ext trivial fun _ _ => wp_tx_ext trivial fun _ _ => wp_tx_ext trivial fun _ _ => ?_
  refine wp_tx_ext hx fun request htype => ?_
  refine wp_tx_ext trivial fun _ _ => wp_tx_ext trivial fun _ _ => ?_
  refine Prog.wp_seq (wp_tx_manageRequest hb rfl rfl htype) fun reply g hg => ?_
  obtain ⟨b', x'⟩ := g
  refine wp_tx_ext hg fun _ _ => ?_
  exact wp_tx_ext (k := .ret) trivial fun _ _ => ⟨hg.1, rfl, rfl⟩

/-- The main thread has no requests in hand. -/
theorem wp_tx_mainBody {setup' : Setup} {ctl : Ctl} {g : Hold UInt32 Slot × Tx}
    (h : unengaged ctl g) : (mainBody setup' ctl).wp (transacts setup hash) unengaged g := by
  obtain ⟨b, x⟩ := g
  rcases h with rfl | ⟨hb, hx, hdone⟩
  · exact .inl rfl
  · refine (plain_mainBody setup' ctl).wp_read (fun a ha => ha.elim) (fun a ha => ha.elim)
      (fun e he => ⟨?_, fun (r : e.Res) Φ hΦ _ => ?_⟩) fun _ => .inr ⟨hb, hx, hdone⟩
    · cases e with
    | mark m => cases m <;> trivial
    | _ => trivial
    · have hafter : x.after e r = x := by
        cases e with
        | sys call => cases call <;> first | rfl | cases he
        | _ => first | rfl | cases he
      rwa [hafter]

/-- The programs of an office are transactions. -/
theorem wp_tx_officeBody {office : ℕ} {ctl : Ctl} {g : Hold UInt32 Slot × Tx}
    (h : unengaged ctl g) :
    (officeBody setup office ctl).wp (transacts setup hash) unengaged g := by
  obtain ⟨b, x⟩ := g
  rcases h with rfl | ⟨hb, hx, hdone⟩
  · exact .inl rfl
  · cases ctl with
    | start => exact wp_tx_ext trivial fun _ _ => .inr ⟨hb, hx, hdone⟩
    | serve => exact Prog.wp_seq (wp_tx_bankOfficeRound hb hx) fun _ _ hg => .inr hg
    | _ => exact .inl rfl

end Sope
