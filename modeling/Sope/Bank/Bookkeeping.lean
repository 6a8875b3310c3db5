import Sope.Bank.Books

/-! # The offices keep the books

Every function of an office, verified against the rules of the books: a creation opens an account
that was not used, a transfer debits one account and credits another one with the same amount, and
nothing else writes (`wp_books_bankOfficeRound`). -/

namespace Sope

open Concurrency

variable {lo : ℕ} {b : Hold UInt32 Slot} {x : Activity} {α : Type}
  {Q : α → Hold UInt32 Slot × Activity → Prop}
  {Q' : TlvReply → Hold UInt32 Slot × Activity → Prop}

/-! ## Single operations -/

/-- Reading a held account. -/
theorem wp_books_read {a : TableOp} {k : a.Res → Server α} {id : UInt32} {slot : Slot}
    (hloc : table.loc a = id) (hid : id ∈ b.held) (hcur : b.cur id = slot) (hread : a.isRead = true)
    (hk : (k (table.run a slot).1).wp (books lo) Q (b, x)) :
    (access a >>= k).wp (books lo) Q (b, x) := by
  subst hloc hcur
  have hcur := TableOp.run_of_isRead hread (b.cur (table.loc a))
  have hb : b.write (table.loc a) (b.cur (table.loc a)) = b := by
    rw [Hold.write, Function.update_eq_self]
  have hx : x.next b.cur (.access a) = x := by cases a <;> first | rfl | cases hread
  refine ⟨.inl hread, hid, ?_, fun _ => ?_⟩
  · rw [hcur]
    exact (bankSpec lo).refl _
  · rw [hcur, hb, hx]
    exact hk

/-- Nothing has changed but the content of the held account `id`, which is `slot'` now. -/
structure Wrote (b : Hold UInt32 Slot) (id : UInt32) (slot' : Slot) (b' : Hold UInt32 Slot) :
    Prop where
  held : b'.held = b.held
  cur : b'.cur id = slot'
  other : ∀ i, i ≠ id → b'.cur i = b.cur i

/-- Two writes to the same account are one. -/
theorem Wrote.trans {id : UInt32} {slot slot' : Slot} {b' b'' : Hold UInt32 Slot}
    (h : Wrote b id slot b') (h' : Wrote b' id slot' b'') : Wrote b id slot' b'' where
  held := h'.held.trans h.held
  cur := h'.cur
  other i hi := (h'.other i hi).trans (h.other i hi)

/-- If the new content is sound, all held accounts are. -/
theorem Wrote.sound {id : UInt32} {slot' : Slot} {b' : Hold UInt32 Slot} (h : Wrote b id slot' b')
    (hs : slot'.Sound lo id) (hb : ∀ i ∈ b.held, (b.cur i).Sound lo i) (i : UInt32)
    (hi : i ∈ b.held) : (b'.cur i).Sound lo i := by
  by_cases hid : i = id
  · subst hid
    rw [h.cur]
    exact hs
  · rw [h.other i hid]
    exact hb i hi

/-- Writing a held account, with a balanced change. -/
theorem wp_books_write {a : TableOp} {k : a.Res → Server α} {id : UInt32} {slot slot' : Slot}
    {x' : Activity} (hloc : table.loc a = id) (hid : id ∈ b.held)
    (hlt : id.toNat < maxBankAccounts) (hcur : b.cur id = slot)
    (hrun : (table.run a slot).2 = slot') (hx : x.next b.cur (.access a) = x')
    (hsound : slot'.Sound lo id) (hstable : slot.Stable slot')
    (hbal : slot'.money + x'.inFlight = slot.money + x.inFlight + x.opens (.access a))
    (hk : ∀ b', Wrote b id slot' b' → (k (table.run a slot).1).wp (books lo) Q (b', x')) :
    (access a >>= k).wp (books lo) Q (b, x) := by
  subst hloc hcur hrun hx
  exact ⟨.inr ⟨hlt, hsound, hbal⟩, hid, hstable, fun _ =>
    hk _ ⟨rfl, Function.update_self .., fun i hi => Function.update_of_ne hi _ _⟩⟩

/-- An operation on everything but the accounts. -/
theorem wp_books_ext {e : Ext} {k : e.Res → Server α} (hkeep : Keeps lo x b (.ext e))
    (hk : ∀ r, Learns lo b (.ext e) r → (k r).wp (books lo) Q (b, x.next b.cur (.ext e))) :
    (ext e >>= k).wp (books lo) Q (b, x) := ⟨hkeep, hk⟩

/-- Adding two balances. -/
theorem wp_books_add {a c : UInt32} {k : UInt32 → Server α} (hlt : a.toNat + c.toNat < 2 ^ 32)
    (hk : ∀ sum : UInt32, sum.toNat = a.toNat + c.toNat → (k sum).wp (books lo) Q (b, x)) :
    (ext (.add a c) >>= k).wp (books lo) Q (b, x) := by
  refine wp_books_ext hlt fun sum (hsum : sum = a + c) => ?_
  subst hsum
  exact hk _ ((UInt32.toNat_add a c).trans (Nat.mod_eq_of_lt hlt))

/-- Subtracting two balances. -/
theorem wp_books_sub {a c : UInt32} {k : UInt32 → Server α} (hle : c.toNat ≤ a.toNat)
    (hk : ∀ left : UInt32, left.toNat + c.toNat = a.toNat → (k left).wp (books lo) Q (b, x)) :
    (ext (.sub a c) >>= k).wp (books lo) Q (b, x) := by
  refine wp_books_ext hle fun left (hleft : left = a - c) => ?_
  subst hleft
  refine hk _ ?_
  rw [UInt32.toNat_sub_of_le _ _ (UInt32.le_iff_toNat_le.mpr hle)]
  omega

/-- A program that only reads held accounts. -/
theorem wp_books_reads {p : Server α} {H : UInt32 → Prop} (hp : Reads H p)
    (hH : ∀ i, H i → i ∈ b.held) (hQ : ∀ a, Q a (b, x)) : p.wp (books lo) Q (b, x) := by
  refine hp.wp_read (fun a ha => ⟨hH _ ha.1, TableOp.run_of_isRead ha.2⟩)
    (fun a ha => ⟨.inl ha.2, fun r Φ h _ => ?_⟩) (fun e he => ⟨?_, fun r Φ h _ => ?_⟩) hQ
  · have hx : x.next b.cur (.access a) = x := by
      cases a <;> first | rfl | cases ha.2
    rwa [hx]
  · cases e with
    | mark m => cases m <;> trivial
    | _ => trivial
  · have hx : x.next b.cur (.ext e) = x := by
      cases e with
      | mark m => cases m <;> first | rfl | cases he
      | _ => first | rfl | cases he
    rwa [hx]

/-- A program that only calls the system. -/
theorem wp_books_calls {p : Server α} (hp : Calls p) (hQ : ∀ a, Q a (b, x)) :
    p.wp (books lo) Q (b, x) :=
  wp_books_reads (H := fun _ => False) hp.reads (fun _ hi => hi.elim) hQ

/-- Looking up a held account. -/
theorem wp_books_getAccount {id : UInt32} {f : Option UInt32 → Server α} (hid : id ∈ b.held)
    (hsome : (b.cur id).used = true → (f (some id)).wp (books lo) Q (b, x))
    (hnone : (b.cur id).used = false → (f none).wp (books lo) Q (b, x)) :
    (getAccount id >>= f).wp (books lo) Q (b, x) := by
  rw [Prog.wp_bind]
  refine wp_books_read rfl hid rfl rfl ?_
  change ((if (b.cur id).used = true then return some id else return none : Server _)).wp _ _ _
  cases hused : (b.cur id).used with
  | true => exact hsome hused
  | false => exact hnone hused

/-! ## Inside a critical section -/

/-- What a handler leaves: the same accounts are held, each of them sound, and the reply agrees with
what has been done. -/
def Handled (lo : ℕ) (b : Hold UInt32 Slot) (reply : TlvReply) (g : Hold UInt32 Slot × Activity) :
    Prop :=
  g.1.held = b.held ∧ (∀ i ∈ b.held, (g.1.cur i).Sound lo i) ∧ g.2.Answers lo reply

/-- What is not debited is not in flight. -/
theorem Activity.Answers.inFlight {reply : TlvReply} (h : x.Answers lo reply) : x.inFlight = 0 := by
  cases x <;> first | rfl | exact h.elim

/-- An account that is not used is sound whatever it holds. -/
theorem Slot.sound_of_unused {slot : Slot} {id : UInt32} (h : slot.used = false) :
    slot.Sound lo id :=
  ⟨fun h' => by simp [h] at h', fun h' => by simp [h] at h', fun h' => by simp [h] at h'⟩

/-- Filling in the record of an account that is not used yet. -/
theorem wp_books_fill {request : TlvRequest} {a : TableOp} {k : a.Res → Server α} {id : UInt32}
    {slot slot' : Slot} (hloc : table.loc a = id) (hid : id ∈ b.held)
    (hlt : id.toNat < maxBankAccounts) (hcur : b.cur id = slot)
    (hrun : (table.run a slot).2 = slot') (hunused : slot.used = false)
    (hunused' : slot'.used = false)
    (hk : ∀ b', Wrote b id slot' b' →
      (k (table.run a slot).1).wp (books lo) Q (b', .creating request)) :
    (access a >>= k).wp (books lo) Q (b, .creating request) := by
  have hopens : (Activity.creating request).opens (.access a) = 0 := by
    cases a with
    | writeUsed i used =>
        obtain rfl : used = false := by rwa [← hrun] at hunused'
        rfl
    | _ => rfl
  refine wp_books_write hloc hid hlt hcur hrun (by cases a <;> rfl)
    (Slot.sound_of_unused hunused') (fun h => by simp [hunused] at h) ?_ hk
  rw [hopens, Slot.money, Slot.money, hunused, hunused']
  rfl

/-- Creating an account that is not used. The record is complete before the account becomes used. -/
theorem wp_books_createAccount {request : TlvRequest} {id : UInt32} {password : Bytes}
    (hid : id ∈ b.held) (hlt : id.toNat < maxBankAccounts) (hunused : (b.cur id).used = false)
    (hmin : lo ≤ request.value.create.balance.toNat)
    (hmax : request.value.create.balance.toNat ≤ maxBalance)
    (hsound : ∀ i ∈ b.held, (b.cur i).Sound lo i) :
    (createAccount id request.value.create.balance password).wp (books lo)
      (fun _ g => g.1.held = b.held ∧ (∀ i ∈ b.held, (g.1.cur i).Sound lo i) ∧
        g.2 = .creating request) (b, .creating request) := by
  generalize hcur : b.cur id = slot at hunused
  obtain ⟨used, account⟩ := slot
  obtain rfl : used = false := hunused
  refine wp_books_ext trivial fun (salt : Bytes) _ => wp_books_ext trivial fun hash _ => ?_
  -- `generateHash` may fail: then nothing is written
  cases hash with
  | none => exact ⟨rfl, hsound, rfl⟩
  | some hash =>
      refine wp_books_fill rfl hid hlt hcur rfl rfl rfl
        fun b₁ (h₁ : Wrote b id ⟨false, { account with accountId := id }⟩ b₁) => ?_
      refine wp_books_fill rfl (h₁.held ▸ hid) hlt h₁.cur rfl rfl rfl
        fun b₂ (h₂ : Wrote b₁ id ⟨false, ⟨id, hash, account.salt, account.balance⟩⟩ b₂) => ?_
      have h₂ := h₁.trans h₂
      refine wp_books_fill rfl (h₂.held ▸ hid) hlt h₂.cur rfl rfl rfl
        fun b₃ (h₃ : Wrote b₂ id ⟨false, ⟨id, hash, salt, account.balance⟩⟩ b₃) => ?_
      have h₃ := h₂.trans h₃
      refine wp_books_fill rfl (h₃.held ▸ hid) hlt h₃.cur rfl rfl rfl
        fun b₄ (h₄ : Wrote b₃ id ⟨false, ⟨id, hash, salt, request.value.create.balance⟩⟩ b₄) => ?_
      have h₄ := h₃.trans h₄
      -- the record is complete, and the account is used from here on
      have hnew : Slot.Sound lo id ⟨true, ⟨id, hash, salt, request.value.create.balance⟩⟩ :=
        ⟨fun _ => rfl, fun _ => hmax, fun _ _ => hmin⟩
      refine wp_books_write rfl (h₄.held ▸ hid) hlt h₄.cur rfl
        (show (Activity.creating request).next _ _ = .creating request from rfl) hnew
        (fun h => nomatch h) ?_ fun b₅ h₅ => ?_
      · simp [Slot.money, table, Activity.inFlight, Activity.opens]
      · have h₅ := h₄.trans h₅
        exact ⟨h₅.held, h₅.sound hnew hsound, rfl⟩

/-- Creating an account. -/
theorem wp_books_handleCreate {request : TlvRequest} (hx : x.inFlight = 0)
    (hid : request.value.create.accountId ∈ b.held)
    (hlt : request.value.create.accountId.toNat < maxBankAccounts)
    (hmin : lo ≤ request.value.create.balance.toNat)
    (hmax : request.value.create.balance.toNat ≤ maxBalance)
    (hsound : ∀ i ∈ b.held, (b.cur i).Sound lo i) :
    (handleCreateAccountRequest request).wp (books lo) (Handled lo b) (b, x) := by
  refine wp_books_ext hx fun _ _ => ?_
  dsimp only
  split
  · exact ⟨rfl, hsound, trivial⟩
  · refine wp_books_getAccount hid (fun _ => ⟨rfl, hsound, trivial⟩) fun hunused => ?_
    refine Prog.wp_seq (wp_books_createAccount hid hlt hunused hmin hmax hsound) fun _ g hg => ?_
    obtain ⟨b', x'⟩ := g
    obtain ⟨hheld, hsound', rfl⟩ := hg
    exact ⟨hheld, hsound', trivial⟩

/-- The reply of a transfer reads the source account. -/
theorem wp_books_transferReply {src : UInt32} {retCode : RetCode} (hsrc : src ∈ b.held)
    (hQ : ∀ reply : TlvReply, reply.value.header.retCode = retCode → Q' reply (b, x)) :
    (transferReply src retCode).wp (books lo) Q' (b, x) := by
  refine wp_books_read rfl hsrc rfl rfl ?_
  refine wp_books_read rfl hsrc rfl rfl ?_
  exact hQ _ rfl

/-- What is known inside `handleTransferRequest` when only the balances can prevent the transfer. -/
structure Transferable (lo : ℕ) (request : TlvRequest) (b : Hold UInt32 Slot) : Prop where
  lo_le : lo ≤ minBalance
  src_held : request.value.header.accountId ∈ b.held
  dest_held : request.value.transfer.accountId ∈ b.held
  src_lt : request.value.header.accountId.toNat < maxBankAccounts
  dest_lt : request.value.transfer.accountId.toNat < maxBankAccounts
  sound : ∀ i ∈ b.held, (b.cur i).Sound lo i
  admissible : request.Admissible (b.cur request.value.header.accountId)
    (b.cur request.value.transfer.accountId)
  spares : lo = 0 ∨ ¬ request.Exhausts (b.cur request.value.header.accountId)
    (b.cur request.value.transfer.accountId)

/-- Of an amount that is not more than the source holds, something is left. -/
theorem Transferable.add_lo_le {request : TlvRequest} (h : Transferable lo request b)
    (hle : ¬ (b.cur request.value.header.accountId).account.balance
      < request.value.transfer.amount) :
    request.value.transfer.amount.toNat + lo
      ≤ (b.cur request.value.header.accountId).account.balance.toNat := by
  have hle := UInt32.not_lt.mp hle
  rw [UInt32.le_iff_toNat_le] at hle
  rcases h.spares with hlo | hne
  · omega
  · have hne : (b.cur request.value.header.accountId).account.balance.toNat
        ≠ request.value.transfer.amount.toNat := fun he =>
      hne ⟨h.admissible, UInt32.toNat_inj.mp he⟩
    have := h.lo_le
    rw [minBalance] at this
    omega

/-- The sum of the balance of the destination and of an amount that the source holds does not wrap. -/
theorem Transferable.add_lt {request : TlvRequest} (h : Transferable lo request b)
    (hle : request.value.transfer.amount.toNat + lo
      ≤ (b.cur request.value.header.accountId).account.balance.toNat) :
    (b.cur request.value.transfer.accountId).account.balance.toNat
      + request.value.transfer.amount.toNat < 2 ^ 32 := by
  have hsrc := (h.sound _ h.src_held).le_max h.admissible.src_used
  have hdest := (h.sound _ h.dest_held).le_max h.admissible.dest_used
  rw [maxBalance] at hsrc hdest
  omega

/-- Debiting the source and crediting the destination. -/
theorem wp_books_moveAmount {request : TlvRequest} (h : Transferable lo request b)
    (hle : request.value.transfer.amount.toNat + lo
      ≤ (b.cur request.value.header.accountId).account.balance.toNat)
    (hmax : (b.cur request.value.transfer.accountId).account.balance.toNat
      + request.value.transfer.amount.toNat ≤ maxBalance) :
    (moveAmount request.value.header.accountId request.value.transfer.accountId
      request.value.transfer.amount).wp (books lo) (Handled lo b)
      (b, .transferring request (b.cur request.value.header.accountId)
        (b.cur request.value.transfer.accountId)) := by
  have hlt := h.add_lt hle
  have hsrc := h.sound _ h.src_held
  have hdest := h.sound _ h.dest_held
  generalize hs : b.cur request.value.header.accountId = src at hle hsrc
  generalize hd : b.cur request.value.transfer.accountId = dest at hmax hlt hdest
  have hsu : src.used = true := hs ▸ h.admissible.src_used
  have hdu : dest.used = true := hd ▸ h.admissible.dest_used
  -- the debit
  refine wp_books_read rfl h.src_held hs rfl ?_
  refine wp_books_sub (a := src.account.balance) (by omega) fun left hleft => ?_
  have hdebit : Slot.Sound lo request.value.header.accountId
      { src with account := { src.account with balance := left } } := by
    refine ⟨hsrc.accountId, fun hu => ?_, fun _ _ => ?_⟩
    · have := hsrc.le_max hu
      change left.toNat ≤ maxBalance
      omega
    · change lo ≤ left.toNat
      omega
  refine wp_books_write rfl h.src_held h.src_lt hs rfl
    (show Activity.next _ _ _ = .debited request src dest from rfl) hdebit
    (fun hu => ⟨hu, rfl, rfl, rfl⟩) ?_ fun b₁ h₁ => ?_
  · simp only [Slot.money, table, hsu, Activity.inFlight, Activity.opens, if_true]
    omega
  -- the credit
  have hne := h.admissible.ne.symm
  have hd₁ : b₁.cur request.value.transfer.accountId = dest := (h₁.other _ hne).trans hd
  have hheld₁ : request.value.transfer.accountId ∈ b₁.held := by
    rw [h₁.held]
    exact h.dest_held
  refine wp_books_read rfl hheld₁ hd₁ rfl ?_
  refine wp_books_add (a := dest.account.balance) hlt fun sum hsum => ?_
  have hcredit : Slot.Sound lo request.value.transfer.accountId
      { dest with account := { dest.account with balance := sum } } := by
    refine ⟨hdest.accountId, fun _ => ?_, fun hu hne => ?_⟩
    · change sum.toNat ≤ maxBalance
      omega
    · have := hdest.min_le hu hne
      change lo ≤ sum.toNat
      omega
  refine wp_books_write rfl hheld₁ h.dest_lt hd₁ rfl
    (show Activity.next _ _ _ = .credited request src dest from rfl) hcredit
    (fun hu => ⟨hu, rfl, rfl, rfl⟩) ?_ fun b₂ h₂ => ?_
  · simp only [Slot.money, table, hdu, Activity.inFlight, Activity.opens, if_true]
    omega
  -- the reply
  have hheld₂ : b₂.held = b.held := h₂.held.trans h₁.held
  refine wp_books_transferReply (by rw [hheld₂]; exact h.src_held) fun reply hreply =>
    ⟨hheld₂, fun i hi => ?_, hle, hmax, hreply⟩
  exact h₂.sound hcredit (fun j hj => h₁.sound hdebit h.sound j (h₁.held ▸ hj)) i (h₁.held ▸ hi)

/-- The tests on the balances. -/
theorem wp_books_transferAmount {request : TlvRequest} (h : Transferable lo request b) :
    (transferAmount request.value.header.accountId request.value.transfer.accountId
      request.value.transfer.amount).wp (books lo) (Handled lo b)
      (b, .transferring request (b.cur request.value.header.accountId)
        (b.cur request.value.transfer.accountId)) := by
  refine wp_books_read rfl h.src_held rfl rfl ?_
  change (if (b.cur request.value.header.accountId).account.balance < request.value.transfer.amount
    then _ else _ : Server TlvReply).wp _ _ _
  by_cases hlt : (b.cur request.value.header.accountId).account.balance
      < request.value.transfer.amount
  · rw [if_pos hlt]
    refine wp_books_transferReply h.src_held fun reply hreply => ⟨rfl, h.sound, fun _ => .inl ?_⟩
    have := UInt32.lt_iff_toNat_lt.mp hlt
    exact ⟨by omega, hreply⟩
  · rw [if_neg hlt]
    have hle := h.add_lo_le hlt
    refine wp_books_read rfl h.dest_held rfl rfl ?_
    refine wp_books_add (a := (b.cur request.value.transfer.accountId).account.balance)
      (h.add_lt hle) fun sum hsum => ?_
    by_cases hmax : sum.toNat > maxBalance
    · rw [if_pos hmax]
      exact wp_books_transferReply h.src_held fun reply hreply =>
        ⟨rfl, h.sound, fun _ => .inr ⟨hle, hsum ▸ hmax, hreply⟩⟩
    · rw [if_neg hmax]
      exact wp_books_moveAmount h hle (by omega)

/-- Executing a transfer. The tests before those on the balances leave everything as it is. -/
theorem wp_books_handleTransfer {request : TlvRequest} (hlo : lo ≤ minBalance) (hx : x.inFlight = 0)
    (hsrc : request.value.header.accountId ∈ b.held)
    (hdest : request.value.transfer.accountId ∈ b.held)
    (hsrc_lt : request.value.header.accountId.toNat < maxBankAccounts)
    (hdest_lt : request.value.transfer.accountId.toNat < maxBankAccounts)
    (hsound : ∀ i ∈ b.held, (b.cur i).Sound lo i) :
    (handleTransferRequest request).wp (books lo) (Handled lo b) (b, x) := by
  refine wp_books_ext ⟨hx, hsrc, hdest⟩ fun _ hspares => ?_
  -- what both accounts hold is fixed here, for the rest of the transfer
  change (getAccount _ >>= _ : Server _).wp _ _ (b, Activity.transferring request
    (b.cur request.value.header.accountId) (b.cur request.value.transfer.accountId))
  have hrefuse : ∀ retCode, ¬ request.Admissible (b.cur request.value.header.accountId)
      (b.cur request.value.transfer.accountId) →
      (transferReply request.value.header.accountId retCode).wp (books lo) (Handled lo b)
        (b, .transferring request (b.cur request.value.header.accountId)
          (b.cur request.value.transfer.accountId)) := fun retCode hn =>
    wp_books_transferReply hsrc fun reply _ => ⟨rfl, hsound, fun ha => absurd ha hn⟩
  -- the tests in the order of the source; each that fails leaves an inadmissible transfer
  refine wp_books_getAccount hsrc (fun hsu => ?_) fun hsu => ?_
  · have hsid := (hsound _ hsrc).accountId hsu
    refine wp_books_getAccount hdest (fun hdu => ?_) fun hdu => ?_
    · have hdid := (hsound _ hdest).accountId hdu
      refine wp_books_read rfl hsrc rfl rfl ?_
      change (if (b.cur request.value.header.accountId).account.accountId = adminAccountId
        then _ else _ : Server TlvReply).wp _ _ _
      rw [hsid]
      split
      · next h => exact hrefuse _ fun ha => ha.src_ne h
      · next hs =>
          refine wp_books_read rfl hdest rfl rfl ?_
          change (if (b.cur request.value.transfer.accountId).account.accountId = adminAccountId
            then _ else _ : Server TlvReply).wp _ _ _
          rw [hdid]
          split
          · next h => exact hrefuse _ fun ha => ha.dest_ne h
          · next hd =>
              refine wp_books_read rfl hsrc rfl rfl ?_
              change (if (b.cur request.value.header.accountId).account.accountId
                = request.value.transfer.accountId then _ else _ : Server TlvReply).wp _ _ _
              rw [hsid]
              split
              · next h => exact hrefuse _ fun ha => ha.ne h
              · next hne =>
                  exact wp_books_transferAmount ⟨hlo, hsrc, hdest, hsrc_lt, hdest_lt, hsound,
                    ⟨hsu, hs, hdu, hd, hne⟩, hspares⟩
    · refine wp_books_read rfl hsrc rfl rfl ?_
      have hn : ¬ request.Admissible (b.cur request.value.header.accountId)
          (b.cur request.value.transfer.accountId) := fun ha => by
        rw [ha.dest_used] at hdu
        cases hdu
      split <;> exact hrefuse _ hn
  · -- an unknown source account is a null pointer
    refine wp_books_getAccount hdest (fun _ => ?_) fun _ => ?_ <;>
      exact ⟨trivial, fun r => nomatch r⟩

/-! ## Locks -/

/-- Taking the lock of an account, which is found sound. -/
theorem wp_books_lock {i : UInt32} {Q : Unit → Hold UInt32 Slot × Activity → Prop}
    (hi : i ∉ b.held) (hsound : ∀ j ∈ b.held, (b.cur j).Sound lo j)
    (hk : ∀ b', b'.held = insert i b.held → (∀ j ∈ b'.held, (b'.cur j).Sound lo j) →
      Q () (b', x)) : (lockAccount i).wp (books lo) Q (b, x) := by
  refine ⟨trivial, hi, fun c hc _ _ => hk _ rfl fun j hj => ?_⟩
  by_cases hji : j = i
  · subst hji
    rw [Hold.cur_lock, Function.update_self]
    exact hc
  · simp only [Hold.cur_lock, Function.update_of_ne hji]
    exact hsound j ((Finset.mem_insert.mp hj).resolve_left hji)

/-- Releasing the lock of an account. -/
theorem wp_books_unlock {i : UInt32} {Q : Unit → Hold UInt32 Slot × Activity → Prop}
    (hi : i ∈ b.held) (hsound : ∀ j ∈ b.held, (b.cur j).Sound lo j)
    (hk : ∀ b', b'.held = b.held.erase i → (∀ j ∈ b'.held, (b'.cur j).Sound lo j) →
      Q () (b', x)) : (unlockAccount i).wp (books lo) Q (b, x) :=
  ⟨trivial, hi, hsound i hi, fun _ => hk _ rfl fun j hj => hsound j (Finset.mem_of_mem_erase hj)⟩

/-- What `manageRequest` and its parts leave: no account is locked, and the reply agrees with what has
been done. -/
def Managed (lo : ℕ) (reply : TlvReply) (g : Hold UInt32 Slot × Activity) : Prop :=
  g.1.held = ∅ ∧ g.2.Answers lo reply

/-- Nothing is held, so nothing held is unsound. -/
theorem sound_of_empty (hb : b.held = ∅) (i : UInt32) (hi : i ∈ b.held) : (b.cur i).Sound lo i := by
  rw [hb] at hi
  simp at hi

/-- A request that needs one account locked. -/
theorem wp_books_single {id delayMS : UInt32} {handler : Server TlvReply} (hb : b.held = ∅)
    (hh : ∀ b' : Hold UInt32 Slot, id ∈ b'.held → (∀ i ∈ b'.held, (b'.cur i).Sound lo i) →
      handler.wp (books lo) (Handled lo b') (b', x)) :
    (do getSingleAccountAccess id delayMS
        let reply ← handler
        unlockAccount id
        return reply : Server TlvReply).wp (books lo) (Managed lo) (b, x) := by
  simp only [Prog.wp_bind, getSingleAccountAccess]
  refine wp_books_lock (by simp [hb]) (sound_of_empty hb) fun b₁ hheld₁ hsound₁ => ?_
  refine wp_books_calls (calls_opDelay delayMS) fun _ => ?_
  have hid : id ∈ b₁.held := by simp [hheld₁]
  refine Prog.wp_mono (fun reply g hg => ?_) (hh b₁ hid hsound₁)
  obtain ⟨b₂, x₂⟩ := g
  obtain ⟨hheld₂, hsound₂, hans⟩ := hg
  rw [← hheld₂] at hid hsound₂
  refine wp_books_unlock hid hsound₂ fun b₃ hheld₃ _ => ⟨?_, hans⟩
  rw [hheld₃, show b₂.held = b₁.held from hheld₂, hheld₁, hb]
  simp

/-- A transfer: both accounts are locked, the smaller one first, or the one account once. -/
theorem wp_books_double {id1 id2 delayMS : UInt32} {handler : Server TlvReply} (hb : b.held = ∅)
    (hh : ∀ b' : Hold UInt32 Slot, id1 ∈ b'.held → id2 ∈ b'.held →
      (∀ i ∈ b'.held, (b'.cur i).Sound lo i) →
      handler.wp (books lo) (Handled lo b') (b', x)) :
    (do getDoubleAccountAccess id1 id2 delayMS
        let reply ← handler
        unlockDoubleAccount id1 id2
        return reply : Server TlvReply).wp (books lo) (Managed lo) (b, x) := by
  by_cases heq : id1 = id2
  · subst heq
    rw [getDoubleAccountAccess, unlockDoubleAccount, if_pos rfl, if_pos rfl]
    exact wp_books_single hb fun b' hid => hh b' hid hid
  -- the two locks in their order, whichever account comes first in the request
  · obtain ⟨first, second, hlt, hids, hget, hput⟩ := getDoubleAccountAccess_of_ne heq delayMS
    have hne : first ≠ second := fun h => absurd hlt (by simp [h])
    simp only [hget, hput, Prog.wp_bind]
    refine wp_books_lock (by simp [hb]) (sound_of_empty hb) fun b₁ hheld₁ hsound₁ => ?_
    refine wp_books_calls (calls_opDelay delayMS) fun _ => ?_
    refine wp_books_lock (by simp [hheld₁, hb, hne.symm]) hsound₁ fun b₂ hheld₂ hsound₂ => ?_
    refine wp_books_calls (calls_opDelay delayMS) fun _ => ?_
    have hfirst : first ∈ b₂.held := by simp [hheld₂, hheld₁]
    have hsecond : second ∈ b₂.held := by simp [hheld₂]
    have hmem : id1 ∈ b₂.held ∧ id2 ∈ b₂.held := both_of_ids hids hfirst hsecond
    refine Prog.wp_mono (fun reply g hg => ?_) (hh b₂ hmem.1 hmem.2 hsound₂)
    obtain ⟨b₃, x₃⟩ := g
    obtain ⟨hheld₃, hsound₃, hans⟩ := hg
    have hheld₃ : b₃.held = b₂.held := hheld₃
    rw [← hheld₃] at hfirst hsecond hsound₃
    -- they are released in the opposite order
    refine wp_books_unlock hsecond hsound₃ fun b₄ hheld₄ hsound₄ => ?_
    refine wp_books_unlock (by simp [hheld₄, hfirst, hne]) hsound₄ fun b₅ hheld₅ _ => ⟨?_, hans⟩
    rw [hheld₅, hheld₄, hheld₃, hheld₂, hheld₁, hb]
    ext i
    simp only [Finset.mem_erase, Finset.mem_insert, Finset.notMem_empty, or_false, iff_false]
    tauto

/-! ## An office -/

/-- The operation of a request whose account is valid. -/
theorem wp_books_performRequest {setup : Setup} {request : TlvRequest} (hlo : lo ≤ minBalance)
    (hb : b.held = ∅) (hx : x = .idle) (hlimits : request.Within lo) :
    (performRequest setup request).wp (books lo) (Managed lo) (b, x) := by
  subst hx
  unfold performRequest
  cases htype : request.type with
  | opCreateAccount =>
      obtain ⟨hlt, hmin, hmax⟩ := hlimits.create htype
      exact wp_books_single hb fun b' hid hsound =>
        wp_books_handleCreate rfl hid hlt hmin hmax hsound
  | opBalance =>
      exact wp_books_single hb fun b' hid hsound => wp_books_reads
        (views_handleBalanceRequest (H := (· ∈ b'.held)) hid).reads (fun i hi => hi)
        fun _ => ⟨rfl, hsound, trivial⟩
  | opTransfer =>
      exact wp_books_double hb fun b' hsrc hdest hsound => wp_books_handleTransfer hlo rfl hsrc hdest
        hlimits.header (hlimits.transfer htype) hsound
  | opShutdown =>
      exact wp_books_calls (calls_handleShutdownRequest setup request) fun _ => ⟨hb, trivial⟩
  | opMaxNumber =>
      exact wp_books_calls calls_unassignedReply fun _ => ⟨hb, trivial⟩

/-- Sending the reply changes nothing. -/
theorem wp_books_sendReply {reply : TlvReply} {path : Bytes} (h : Managed lo reply (b, x)) :
    (do sendReply reply path
        return reply : Server TlvReply).wp (books lo) (Managed lo) (b, x) := by
  rw [Prog.wp_bind]
  exact wp_books_calls (calls_sendReply reply path) fun _ => h

/-- **`manageRequest` keeps the books.** -/
theorem wp_books_manageRequest {setup : Setup} {request : TlvRequest} (hlo : lo ≤ minBalance)
    (hb : b.held = ∅) (hx : x = .idle) (hlimits : request.Within lo) :
    (manageRequest setup request).wp (books lo) (Managed lo) (b, x) := by
  simp only [manageRequest, Prog.wp_bind]
  refine wp_books_lock (by simp [hb]) (sound_of_empty hb) fun b₁ hheld₁ hsound₁ => ?_
  have hid : request.value.header.accountId ∈ b₁.held := by simp [hheld₁]
  refine wp_books_reads (views_validateAccount (H := (· ∈ b₁.held)) hid).reads (fun i hi => hi)
    fun invalid => ?_
  refine wp_books_unlock hid hsound₁ fun b₂ hheld₂ _ => ?_
  have hb₂ : b₂.held = ∅ := by simp [hheld₂, hheld₁, hb]
  cases invalid with
  | some reply => exact wp_books_sendReply ⟨hb₂, by rw [hx]; trivial⟩
  | none =>
      refine Prog.wp_seq (wp_books_performRequest hlo hb₂ hx hlimits) fun reply g hg => ?_
      exact wp_books_sendReply hg

/-- **A round of an office keeps the books.** -/
theorem wp_books_bankOfficeRound {setup : Setup} {office : ℕ} (hlo : lo ≤ minBalance)
    (hb : b.held = ∅) (hx : x.inFlight = 0) :
    (bankOfficeRound setup office).wp (books lo) (fun _ g => g.1.held = ∅ ∧ g.2.inFlight = 0)
      (b, x) := by
  refine wp_books_ext trivial fun _ _ => wp_books_ext trivial fun _ _ =>
    wp_books_ext trivial fun _ _ => ?_
  refine wp_books_ext hx fun request hlimits => ?_
  refine wp_books_ext trivial fun _ _ => wp_books_ext trivial fun _ _ => ?_
  refine Prog.wp_seq (wp_books_manageRequest hlo hb rfl hlimits) fun reply g hg => ?_
  obtain ⟨b', x'⟩ := g
  obtain ⟨hb', hans⟩ := hg
  refine wp_books_ext hans fun _ _ => ?_
  exact wp_books_ext (k := .ret) trivial fun _ _ => ⟨hb', hans.inFlight⟩

end Sope
