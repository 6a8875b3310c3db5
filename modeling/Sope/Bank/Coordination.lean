import Sope.Bank.Phases

/-! # How the threads synchronise

The proof rules for the synchronisation of the server's threads, whatever the data and the world are:
a thread performs its operations in the order of its phases, locks accounts only inside
`manageRequest` and in increasing order, and holds none outside. Every program of the server is
verified against these rules here, once (`wp_mainBody`, `wp_officeBody`); the results on the request
queue, the account locks and the shutdown follow from invariants on the phases. -/

namespace Sope

open Concurrency

variable {n : ℕ}

/-- What a thread may do in a phase, and its next phase. -/
def coordination (t : Thread n) : Extra UInt32 Slot TableOp Ext TableOp.Res Ext.Res Phase where
  pre x b
    | .lock i => x.isManaging = true ∧ ∀ j ∈ b.held, j.toNat < i.toNat
    | .unlock _ | .access _ => x.isManaging = true
    | .ext e => e.mayEnd = true → x.mayEnd = true
  rule x _ o r b' Φ :=
    match o, r with
    | .ext e, r => ∃ x', x.next n t.index e r = some x' ∧ (x'.isManaging = false → b'.held = ∅) ∧ Φ x'
    | _, _ => Φ x
  mono {x b o r b' Φ Ψ} h := by
    cases o with
    | ext e => exact fun ⟨x', h₁, h₂, h₃⟩ => ⟨x', h₁, h₂, h _ h₃⟩
    | _ => exact h _

/-- The synchronisation rules of a thread. -/
abbrev coord (t : Thread n) :
    Protocol ServerOp ServerRes (Hold UInt32 Slot × Phase) :=
  (coordination t).protocol table .trivial

section Rules

variable {t : Thread n} {b : Hold UInt32 Slot} {x : Phase} {request : TlvRequest} {α : Type}

/-- A local operation does not end `manageRequest`. -/
theorem next_managing_local {e : Ext} (he : e.isLocal = true) (self : ℕ) (r : e.Res) :
    (Phase.managing request).next n self e r = some (.managing request) := by
  cases e with
  | mark m => cases m <;> first | rfl | nomatch he
  | _ => first | rfl | nomatch he

/-- An operation on everything but the accounts, and what follows it. -/
theorem wp_ext {e : Ext} {k : e.Res → Server α} {Q : α → Hold UInt32 Slot × Phase → Prop}
    (h : ∀ r, ∃ x', x.next n t.index e r = some x' ∧ (x'.isManaging = false → b.held = ∅) ∧
      (k r).wp (coord t) Q (b, x'))
    (hend : e.mayEnd = true → x.mayEnd = true := by intro h; first | rfl | cases h) :
    (ext e >>= k).wp (coord t) Q (b, x) := ⟨hend, h⟩

/-- Taking the lock of an account. -/
theorem wp_lockAccount {i : UInt32} {Q : Unit → Hold UInt32 Slot × Phase → Prop}
    (hi : i ∉ b.held) (hord : ∀ j ∈ b.held, j.toNat < i.toNat)
    (hQ : ∀ b', b'.held = insert i b.held → Q () (b', .managing request)) :
    (lockAccount i).wp (coord t) Q (b, .managing request) :=
  ⟨⟨rfl, hord⟩, hi, fun _ _ _ => hQ _ rfl⟩

/-- Releasing the lock of an account. -/
theorem wp_unlockAccount {i : UInt32} {Q : Unit → Hold UInt32 Slot × Phase → Prop}
    (hi : i ∈ b.held) (hQ : ∀ b', b'.held = b.held.erase i → Q () (b', .managing request)) :
    (unlockAccount i).wp (coord t) Q (b, .managing request) :=
  ⟨rfl, hi, trivial, hQ _ rfl⟩

/-- A program on held accounts, inside `manageRequest`. -/
theorem wp_touches {p : Server α} {H : UInt32 → Prop}
    {Q : α → Hold UInt32 Slot × Phase → Prop} (hp : Touches H p) (hH : ∀ i, H i ↔ i ∈ b.held)
    (hQ : ∀ a b', b'.held = b.held → Q a (b', .managing request)) :
    p.wp (coord t) Q (b, .managing request) := by
  obtain rfl : H = (· ∈ b.held) := funext fun i => propext (hH i)
  exact hp.wp (fun _ h => h) (fun _ _ => ⟨rfl, fun _ _ _ => id⟩)
    (fun _ _ he => ⟨fun _ => rfl,
      fun _ _ _ h => ⟨_, next_managing_local he _ _, (nomatch ·), h⟩⟩) hQ

end Rules

/-! ## Inside `manageRequest` -/

section Managing

variable {t : Thread n} {b : Hold UInt32 Slot} {request q : TlvRequest} {setup : Setup}

/-- What `manageRequest` and its parts leave: no account is locked. -/
def Unlocked {α : Type} (q : TlvRequest) (_ : α) (g : Hold UInt32 Slot × Phase) : Prop :=
  g.1.held = ∅ ∧ g.2 = .managing q

/-- A request that needs one account locked: delay, handler, unlock. -/
theorem wp_single {id delayMS : UInt32} {handler : Server TlvReply} (hb : b.held = ∅)
    (hh : Touches (· = id) handler) :
    (do getSingleAccountAccess id delayMS
        let reply ← handler
        unlockAccount id
        return reply : Server TlvReply).wp (coord t) (Unlocked q) (b, .managing q) := by
  simp only [Prog.wp_bind, getSingleAccountAccess]
  refine wp_lockAccount (by simp [hb]) (by simp [hb]) fun b₁ hb₁ => ?_
  have hmem : ∀ i, i = id ↔ i ∈ b₁.held := by simp [hb₁, hb]
  refine wp_touches (calls_opDelay delayMS).reads.touches hmem fun _ b₂ hb₂ => ?_
  rw [← hb₂] at hmem
  refine wp_touches hh hmem fun reply b₃ hb₃ => ?_
  rw [← hb₃] at hmem
  refine wp_unlockAccount ((hmem id).mp rfl) fun b₄ hb₄ => ⟨?_, rfl⟩
  simp [hb₄, hb₃, hb₂, hb₁, hb]

/-- A transfer: both accounts are locked in increasing order, or the one account once. -/
theorem wp_double {id1 id2 delayMS : UInt32} {handler : Server TlvReply} (hb : b.held = ∅)
    (hh : ∀ H : UInt32 → Prop, H id1 → H id2 → Touches H handler) :
    (do getDoubleAccountAccess id1 id2 delayMS
        let reply ← handler
        unlockDoubleAccount id1 id2
        return reply : Server TlvReply).wp (coord t) (Unlocked q) (b, .managing q) := by
  by_cases heq : id1 = id2
  · subst heq
    rw [getDoubleAccountAccess, unlockDoubleAccount, if_pos rfl, if_pos rfl]
    exact wp_single hb (hh (· = id1) rfl rfl)
  · obtain ⟨lo, hi, hlt, hids, hget, hput⟩ := getDoubleAccountAccess_of_ne heq delayMS
    have hne : lo ≠ hi := fun h => absurd hlt (by simp [h])
    simp only [hget, hput, Prog.wp_bind]
    refine wp_lockAccount (by simp [hb]) (by simp [hb]) fun b₁ hb₁ => ?_
    refine wp_touches (H := (· ∈ b₁.held)) (calls_opDelay delayMS).reads.touches (fun _ => .rfl)
      fun _ b₂ hb₂ => ?_
    refine wp_lockAccount (by simp [hb₂, hb₁, hb, hne.symm]) (by simp [hb₂, hb₁, hb, hlt])
      fun b₃ hb₃ => ?_
    refine wp_touches (H := (· ∈ b₃.held)) (calls_opDelay delayMS).reads.touches (fun _ => .rfl)
      fun _ b₄ hb₄ => ?_
    have hlo : lo ∈ b₄.held := by simp [hb₄, hb₃, hb₂, hb₁]
    have hhi : hi ∈ b₄.held := by simp [hb₄, hb₃]
    -- both accounts are held, in whichever order they were locked
    have hmem : id1 ∈ b₄.held ∧ id2 ∈ b₄.held := both_of_ids hids hlo hhi
    refine wp_touches (hh (· ∈ b₄.held) hmem.1 hmem.2) (fun _ => .rfl) fun reply b₅ hb₅ => ?_
    refine wp_unlockAccount (by rwa [hb₅]) fun b₆ hb₆ => ?_
    refine wp_unlockAccount (by simp [hb₆, hb₅, hlo, hne]) fun b₇ hb₇ => ⟨?_, rfl⟩
    rw [hb₇, hb₆, hb₅, hb₄, hb₃, hb₂, hb₁, hb]
    ext i
    simp only [Finset.mem_erase, Finset.mem_insert, Finset.notMem_empty, or_false, iff_false]
    tauto

theorem wp_performRequest (hb : b.held = ∅) :
    (performRequest setup request).wp (coord t) (Unlocked q) (b, .managing q) := by
  have hnone : ∀ i : UInt32, False ↔ i ∈ b.held := by simp [hb]
  unfold performRequest
  cases request.type with
  | opCreateAccount => exact wp_single hb (touches_handleCreateAccountRequest rfl)
  | opBalance => exact wp_single hb (views_handleBalanceRequest (H := (· = _)) rfl).reads.touches
  | opTransfer => exact wp_double hb fun H hs hd => (computes_handleTransferRequest hs hd).touches
  | opShutdown =>
      exact wp_touches (calls_handleShutdownRequest setup request).reads.touches hnone
        fun _ b' hb' => ⟨hb'.trans hb, rfl⟩
  | opMaxNumber =>
      exact wp_touches calls_unassignedReply.reads.touches hnone fun _ b' hb' => ⟨hb'.trans hb, rfl⟩

/-- **`manageRequest` takes accounts in order and gives them all back.** -/
theorem wp_manageRequest (hb : b.held = ∅) :
    (manageRequest setup request).wp (coord t) (Unlocked q) (b, .managing q) := by
  have hsend : ∀ (b' : Hold UInt32 Slot) (reply : TlvReply) (path : Bytes), b'.held = ∅ →
      (do sendReply reply path; return reply : Server TlvReply).wp (coord t) (Unlocked q)
        (b', .managing q) := by
    intro b' reply path hb'
    rw [Prog.wp_bind]
    exact wp_touches (H := fun _ => False) (calls_sendReply reply path).reads.touches (by simp [hb'])
      fun _ b'' hb'' => ⟨hb''.trans hb', rfl⟩
  simp only [manageRequest, Prog.wp_bind]
  refine wp_lockAccount (by simp [hb]) (by simp [hb]) fun b₁ hb₁ => ?_
  refine wp_touches (H := (· = request.value.header.accountId))
    (views_validateAccount (H := (· = _)) rfl).reads.touches (by simp [hb₁, hb]) fun invalid b₂ hb₂ => ?_
  refine wp_unlockAccount (by simp [hb₂, hb₁]) fun b₃ hb₃ => ?_
  have hb₃ : b₃.held = ∅ := by simp [hb₃, hb₂, hb₁, hb]
  cases invalid with
  | some reply => exact hsend b₃ reply _ hb₃
  | none =>
      simp only [Prog.wp_bind]
      refine Prog.wp_mono (fun reply g hg => ?_) (wp_performRequest hb₃)
      obtain ⟨b', x⟩ := g
      obtain ⟨hb', rfl⟩ := hg
      simpa only [Prog.wp_bind] using hsend b' reply _ hb'

end Managing

/-! ## The loops -/

/-- What a thread guarantees each time it comes back to its loop. -/
def between (t : Thread n) (ctl : Ctl) (g : Hold UInt32 Slot × Phase) : Prop :=
  g.1.held = ∅ ∧
    match t, ctl with
    | .main, .read | .main, .waitEmpty => g.2 = .reading
    | .main, .waitIdle => g.2 = .scanning 0 0 ∨ 0 < n ∧ ∃ sum, 0 < sum ∧ g.2 = .scanning n sum
    | .main, .destroy _ => g.2.isFinished n = true
    | .office _, .start => g.2 = .starting
    | .office _, .serve => g.2 = .idle
    | _, .ended => g.2.isManaging = false
    | _, _ => False

section Loops

variable {b : Hold UInt32 Slot} {setup : Setup}

/-- One round of an office. -/
theorem wp_bankOfficeRound {i : Fin n} (hb : b.held = ∅) :
    (bankOfficeRound setup i).wp (coord (.office i)) (fun _ g => between (.office i) .serve g) (b, .idle) := by
  refine wp_ext fun _ => ⟨.admitted, rfl, fun _ => hb, ?_⟩
  refine wp_ext fun _ => ⟨.flagged, if_pos rfl, fun _ => hb, ?_⟩
  refine wp_ext fun _ => ⟨.locked, rfl, fun _ => hb, ?_⟩
  refine wp_ext fun request => ⟨.popped request, rfl, fun _ => hb, ?_⟩
  refine wp_ext fun _ => ⟨.released request, rfl, fun _ => hb, ?_⟩
  refine wp_ext fun _ => ⟨.managing request, rfl, fun _ => hb, ?_⟩
  refine Prog.wp_seq (wp_manageRequest hb) fun reply g hg => ?_
  obtain ⟨b', x⟩ := g
  obtain ⟨hb', rfl⟩ := hg
  refine wp_ext fun _ => ⟨.managed, if_pos rfl, fun _ => hb', ?_⟩
  exact wp_ext fun _ => ⟨.idle, if_pos rfl, fun _ => hb', hb', rfl⟩

/-- The program of an office. -/
theorem wp_officeBody {i : Fin n} {ctl : Ctl} {g : Hold UInt32 Slot × Phase}
    (h : between (.office i) ctl g) :
    (officeBody setup i ctl).wp (coord (.office i)) (between (.office i)) g := by
  obtain ⟨b, x⟩ := g
  obtain ⟨hb, hx⟩ := h
  cases ctl with
  | start =>
      cases hx
      exact wp_ext fun _ => ⟨.idle, if_pos rfl, fun _ => hb, hb, rfl⟩
  | serve =>
      cases hx
      exact Prog.wp_seq (wp_bankOfficeRound hb) fun _ _ hg => hg
  | ended => exact ⟨hb, hx⟩
  | _ => exact hx.elim

/-- Pushing a request. -/
theorem wp_addRequestToQueue {request : TlvRequest} (hb : b.held = ∅) :
    (addRequestToQueue request).wp (coord (.main : Thread n)) (fun _ g => between (.main : Thread n) .read g)
      (b, .reading) := by
  refine wp_ext fun _ => ⟨.permitted, rfl, fun _ => hb, ?_⟩
  refine wp_ext fun _ => ⟨.pushing, rfl, fun _ => hb, ?_⟩
  refine wp_ext fun _ => ⟨.pushed, rfl, fun _ => hb, ?_⟩
  refine wp_ext fun _ => ⟨.pushReleased, rfl, fun _ => hb, ?_⟩
  exact wp_ext fun _ => ⟨.reading, rfl, fun _ => hb, hb, rfl⟩

/-- One round of `readRequests`. -/
theorem wp_readRequestsRound (hb : b.held = ∅) :
    (readRequestsRound setup).wp (coord (.main : Thread n)) (fun _ g => between (.main : Thread n) .read g)
      (b, .reading) := by
  refine wp_ext fun request => ⟨.reading, rfl, fun _ => hb, ?_⟩
  refine wp_ext fun bytes => ⟨.reading, rfl, fun _ => hb, ?_⟩
  cases bytes with
  | none => exact ⟨hb, rfl⟩
  | some bytes =>
      refine wp_ext fun value => ⟨.reading, rfl, fun _ => hb, ?_⟩
      cases value with
      | none => exact ⟨hb, rfl⟩
      | some value =>
          dsimp only
          split
          · exact ⟨hb, rfl⟩
          · exact Prog.wp_seq (wp_addRequestToQueue hb) fun _ _ hg => hg

/-- One round of the wait for an empty queue. -/
theorem wp_queueEmptyRound (hb : b.held = ∅) :
    queueEmptyRound.wp (coord (.main : Thread n))
      (fun empty g => g.1.held = ∅ ∧ g.2 = if empty then .scanning 0 0 else .reading)
      (b, .reading) := by
  refine wp_ext fun _ => ⟨.polling, rfl, fun _ => hb, ?_⟩
  refine wp_ext fun empty => ⟨.polled empty, rfl, fun _ => hb, ?_⟩
  exact wp_ext fun _ => ⟨_, rfl, fun _ => hb, hb, rfl⟩

/-- Counting the flags of `m` offices from office `k` on. -/
theorem wp_countActive {k m sum : ℕ} (hb : b.held = ∅) (hm : k + m ≤ n) :
    (countActive (List.range' k m) sum).wp (coord (.main : Thread n))
      (fun total g => g.1.held = ∅ ∧ g.2 = .scanning (k + m) total) (b, .scanning k sum) := by
  induction m generalizing k sum with
  | zero => exact ⟨hb, rfl⟩
  | succ m ih =>
      rw [List.range'_succ, countActive]
      have hnext : ∀ active : ℕ, (Phase.scanning k sum).next n (Thread.main : Thread n).index
          (.readActive k) active = some (.scanning (k + 1) (Nat.add sum active)) := fun active => by
        simp [Phase.next, show k ≠ n by omega]
      refine wp_ext fun active => ⟨_, hnext active, fun _ => hb, ?_⟩
      have := @ih (k + 1) (Nat.add sum active) (by omega)
      rwa [Nat.add_right_comm] at this

/-- A whole scan of the flags, the first one or one after another. -/
theorem wp_getNumActiveOffices {x : Phase} (hb : b.held = ∅)
    (hx : x = .scanning 0 0 ∨ 0 < n ∧ ∃ sum, 0 < sum ∧ x = .scanning n sum) :
    (getNumActiveOffices n).wp (coord (.main : Thread n))
      (fun total g => (0 < total → 0 < n) ∧ g.1.held = ∅ ∧ g.2 = .scanning n total) (b, x) := by
  rw [getNumActiveOffices, List.range_eq_range']
  cases n with
  | zero =>
      obtain rfl : x = .scanning 0 0 := hx.resolve_right fun h => absurd h.1 (by simp)
      exact ⟨id, hb, rfl⟩
  | succ m =>
      rw [List.range'_succ, countActive]
      -- whichever scan it is, the first flag read begins a new sum
      have hnext : ∀ active : ℕ, x.next (m + 1) (Thread.main : Thread (m + 1)).index (.readActive 0)
          active = some (.scanning 1 active) := by
        intro active
        rcases hx with rfl | ⟨-, sum, hsum, rfl⟩
        · simp [Phase.next]
        · simp [Phase.next, hsum.ne']
      refine wp_ext fun (active : ℕ) => ⟨.scanning 1 active, hnext active, fun _ => hb, ?_⟩
      rw [Nat.zero_add, Nat.zero_add active]
      refine Prog.wp_mono (fun total g hg => ?_) 
        (wp_countActive (k := 1) (m := m) hb (by omega))
      rw [Nat.add_comm m 1]
      exact ⟨fun _ => by omega, hg⟩

/-- The program of the main thread. -/
theorem wp_mainBody {ctl : Ctl} {g : Hold UInt32 Slot × Phase} (hsetup : setup.numberOfOffices = n)
    (h : between (.main : Thread n) ctl g) :
    (mainBody setup ctl).wp (coord (.main : Thread n)) (between (.main : Thread n)) g := by
  obtain ⟨b, x⟩ := g
  obtain ⟨hb, hx⟩ := h
  cases ctl with
  | read =>
      cases hx
      refine Prog.wp_seq (wp_readRequestsRound hb) fun more g hg => ?_
      cases more <;> exact hg
  | waitEmpty =>
      cases hx
      refine Prog.wp_seq (wp_queueEmptyRound hb) fun empty g hg => ?_
      cases empty with
      | false => exact hg
      | true => exact ⟨hg.1, .inl hg.2⟩
  | waitIdle =>
      rw [mainBody, hsetup]
      refine Prog.wp_seq (wp_getNumActiveOffices hb hx) fun total g hg => ?_
      obtain ⟨hn, hb', hx'⟩ := hg
      -- an office was seen active: the count begins again
      by_cases ht : total > 0
      · simp only [if_pos ht]
        exact ⟨hb', .inr ⟨hn ht, total, ht, hx'⟩⟩
      · obtain rfl : total = 0 := by omega
        exact ⟨hb', Phase.isFinished_iff.mpr (.inl hx')⟩
  | destroy i =>
      simp only [mainBody, hsetup]
      split
      · have hnext : x.next n n (.pthreadCancel i) () = some .destroying := by
          rcases Phase.isFinished_iff.mp hx with rfl | rfl <;> simp [Phase.next]
        refine wp_ext fun _ => ⟨.destroying, hnext, fun _ => hb, ?_⟩
        exact wp_ext fun _ => ⟨.destroying, rfl, fun _ => hb, hb, rfl⟩
      · refine ⟨hb, ?_⟩
        rcases Phase.isFinished_iff.mp hx with rfl | rfl <;> rfl
  | ended => exact ⟨hb, hx⟩
  | _ => exact hx.elim

end Loops

end Sope
