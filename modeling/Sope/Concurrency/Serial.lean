import Sope.Concurrency.LockedMemory

/-! # Serial executions

Threads that lock the cells they use and keep them until their work is done behave as if they ran one
after the other, each at the moment at which it *commits*.

* `Serially R` — a list of jobs executed one after the other, where `R j` is what job `j` does alone.
* `Hold.over` — the memory after a thread's changes to the cells it holds. A program within the held
  cells does in the middle of other threads exactly what it does alone (`Prog.Within.wp_solo`).
* `SerialInv` — the memory as the jobs committed so far would have left it, one after the other: it
  agrees with the real memory on the cells nobody holds, and with what a thread found in the cells that
  it holds and has not committed. -/

namespace Concurrency

/-! ## Executions of jobs in a row -/

/-- The jobs are executed one after the other, `R j` being the effect of `j`. -/
def Serially {J σ : Type} (R : J → σ → σ → Prop) : List J → σ → σ → Prop
  | [], s, s' => s' = s
  | j :: js, s, s' => ∃ s₁, R j s s₁ ∧ Serially R js s₁ s'

/-- One more job. -/
theorem Serially.append {J σ : Type} {R : J → σ → σ → Prop} {js : List J} {j : J} {s s' s'' : σ}
    (h : Serially R js s s') (hj : R j s' s'') : Serially R (js ++ [j]) s s'' := by
  induction js generalizing s with
  | nil =>
      obtain rfl : s' = s := h
      exact ⟨s'', hj, rfl⟩
  | cons k ks ih =>
      obtain ⟨s₁, hk, hks⟩ := h
      exact ⟨s₁, hk, ih hks⟩

/-! ## Programs alone and in the middle of others -/

variable {Tid Id Cell Acc Ext ω X α β : Type} {ARes : Acc → Type} {ERes : Ext → Type}
  [DecidableEq Tid] [DecidableEq Id]

/-- A program whose accesses all move a cell along a preorder moves every cell along it. -/
theorem Prog.Within.solo_le {C : Cells Id Cell Acc ARes} {L : CellSpec Id Cell}
    {ans : (e : Ext) → Option (ERes e)} {A : Acc → Prop} {E : Ext → Prop}
    {p : Prog (MemOp Id Acc Ext) (MemOp.Res ARes ERes) α} {m m' : Id → Cell} {a : α}
    (hp : p.Within A E) (hA : ∀ a, A a → ∀ c, L.le c (C.run a c).2)
    (h : p.solo C ans m = some (a, m')) (i : Id) : L.le (m i) (m' i) := by
  induction p generalizing m with
  | ret a =>
      obtain ⟨-, rfl⟩ := Prod.mk.inj (Option.some.inj h)
      exact L.refl _
  | op o k ih =>
      cases o with
      | lock j => exact hp.elim
      | unlock j => exact hp.elim
      | access b =>
          refine L.trans ?_ (ih _ (hp.2 _) h)
          by_cases hi : i = C.loc b
          · subst hi
            rw [Function.update_self]
            exact hA b hp.1 _
          · rw [Function.update_of_ne hi]
            exact L.refl _
      | ext e =>
          obtain ⟨r, -, hr⟩ := Option.bind_eq_some_iff.mp h
          exact ih r (hp.2 r) hr

/-- The memory `m` with the cells that a thread holds as the thread has them. -/
def Hold.over (b : Hold Id Cell) (m : Id → Cell) : Id → Cell :=
  fun i => if i ∈ b.held then b.cur i else m i

theorem Hold.over_of_mem {b : Hold Id Cell} {i : Id} (h : i ∈ b.held) (m : Id → Cell) :
    b.over m i = b.cur i := if_pos h

theorem Hold.over_of_notMem {b : Hold Id Cell} {i : Id} (h : i ∉ b.held) (m : Id → Cell) :
    b.over m i = m i := if_neg h

/-- A thread that has changed nothing. -/
theorem Hold.over_eq_self {b : Hold Id Cell} {m : Id → Cell} (h : ∀ i ∈ b.held, m i = b.cur i) :
    b.over m = m := by
  funext i
  by_cases hi : i ∈ b.held
  · rw [over_of_mem hi, h i hi]
  · rw [over_of_notMem hi]

/-- A change in a held cell is hidden by what the thread has there. -/
theorem Hold.over_update {b : Hold Id Cell} {i : Id} (hi : i ∈ b.held) (m : Id → Cell) (c : Cell) :
    b.over (Function.update m i c) = b.over m := by
  funext j
  by_cases hj : j ∈ b.held
  · rw [over_of_mem hj, over_of_mem hj]
  · have hji : j ≠ i := by
      rintro rfl
      exact hj hi
    rw [over_of_notMem hj, over_of_notMem hj, Function.update_of_ne hji]

/-- In the middle of other threads, a program has returned `a` and left what it does alone in every
memory that agrees with the held cells. -/
def Hold.Ran (C : Cells Id Cell Acc ARes) (ans : (e : Ext) → Option (ERes e))
    (p : Prog (MemOp Id Acc Ext) (MemOp.Res ARes ERes) α) (b : Hold Id Cell) (a : α)
    (b' : Hold Id Cell) : Prop :=
  b'.held = b.held ∧ b'.seen = b.seen ∧
    ∀ m, (∀ i ∈ b.held, m i = b.cur i) → p.solo C ans m = some (a, b'.over m)

namespace Hold.Ran

variable {C : Cells Id Cell Acc ARes} {ans : (e : Ext) → Option (ERes e)} {b b' : Hold Id Cell}
  {v : α}

theorem ret : b.Ran C ans (.ret v) v b :=
  ⟨rfl, rfl, fun m hm => by rw [Hold.over_eq_self hm]; rfl⟩

/-- An access to a held cell, and what comes after it. -/
theorem access {a : Acc} {k : ARes a → Prog (MemOp Id Acc Ext) (MemOp.Res ARes ERes) α}
    (hloc : C.loc a ∈ b.held)
    (h : (b.write (C.loc a) (C.run a (b.cur (C.loc a))).2).Ran C ans
      (k (C.run a (b.cur (C.loc a))).1) v b') :
    b.Ran C ans (.op (MemOp.access a) k) v b' := by
  obtain ⟨hheld, hseen, hsolo⟩ := h
  refine ⟨hheld, hseen, fun m hm => ?_⟩
  have hmem : C.loc a ∈ b'.held := by
    rw [hheld]
    exact hloc
  rw [← Hold.over_update hmem m (C.run a (b.cur (C.loc a))).2, ← hsolo]
  · change (k (C.run a (m (C.loc a))).1).solo C ans _ = _
    rw [hm _ hloc]
  · intro i hi
    by_cases hia : i = C.loc a
    · subst hia
      simp
    · simpa [Function.update_of_ne hia] using hm i hi

/-- Reading a held cell, and what comes after it. -/
theorem read {a : Acc} {k : ARes a → Prog (MemOp Id Acc Ext) (MemOp.Res ARes ERes) α} {r : ARes a}
    (hloc : C.loc a ∈ b.held) (hsame : ∀ c, (C.run a c).2 = c)
    (hr : (C.run a (b.cur (C.loc a))).1 = r) (h : b.Ran C ans (k r) v b') :
    b.Ran C ans (.op (MemOp.access a) k) v b' := by
  refine access hloc ?_
  rwa [hsame, Hold.write, Function.update_eq_self, hr]

/-- An external operation that is answered, and what comes after it. -/
theorem ext {e : Ext} {k : ERes e → Prog (MemOp Id Acc Ext) (MemOp.Res ARes ERes) α} {r : ERes e}
    (hr : ans e = some r) (h : b.Ran C ans (k r) v b') : b.Ran C ans (.op (MemOp.ext e) k) v b' :=
  ⟨h.1, h.2.1, fun m hm => (Prog.solo_ext hr).trans (h.2.2 m hm)⟩

end Hold.Ran

/-- **The rule of isolation.** A program within the held cells, whose external operations leave the
further ghost value alone and return what `ans` says, does what it does alone. -/
theorem Prog.Within.wp_solo {E : Extra Id Cell Acc Ext ARes ERes X} {C : Cells Id Cell Acc ARes}
    {ans : (e : Ext) → Option (ERes e)} {A : Acc → Prop} {F : Ext → Prop} {x : X}
    {b : Hold Id Cell} {p : Prog (MemOp Id Acc Ext) (MemOp.Res ARes ERes) α}
    {Q : α → Hold Id Cell × X → Prop} (hp : p.Within A F) (hA : ∀ a, A a → C.loc a ∈ b.held)
    (hacc : ∀ a b, E.pre x b (.access a) ∧
      ∀ r b' (Φ : X → Prop), Φ x → E.rule x b (.access a) r b' Φ)
    (hext : ∀ e b, F e → E.pre x b (.ext e) ∧
      ∀ r b' (Φ : X → Prop), (ans e = some r → Φ x) → E.rule x b (.ext e) r b' Φ)
    (hQ : ∀ a b', b.Ran C ans p a b' → Q a (b', x)) :
    p.wp (E.protocol C .trivial) Q (b, x) := by
  induction p generalizing b with
  | ret a => exact hQ a b .ret
  | op o k ih =>
      cases o with
      | lock i => exact hp.elim
      | unlock i => exact hp.elim
      | access a =>
          exact ⟨(hacc a b).1, hA a hp.1, trivial, (hacc a b).2 _ _ _
            (ih _ (hp.2 _) hA fun v b' h => hQ v b' (h.access (hA a hp.1)))⟩
      | ext e =>
          exact ⟨(hext e b hp.1).1, fun r => (hext e b hp.1).2 _ _ _ fun hr =>
            ih r (hp.2 r) hA fun v b' h => hQ v b' (h.ext hr)⟩

/-! ## The serial memory -/

/-- `abs` is the memory that the jobs committed so far leave when they run one after the other, and
`snap t i` what it holds in a cell `i` held by `t`. -/
structure SerialInv (L : CellSpec Id Cell) (s : Locked Tid Id Cell ω) (b : Tid → Hold Id Cell)
    (snap : Tid → Id → Cell) (abs : Id → Cell) : Prop where
  /-- The threads know what they hold. -/
  hold : HoldInv .trivial s b
  /-- Where nobody holds the lock, `abs` is the memory. -/
  free : ∀ i, s.owner i = none → abs i = s.cells i
  /-- Where a thread holds the lock, it knows `abs`. -/
  held : ∀ t i, i ∈ (b t).held → abs i = snap t i
  /-- A cell of `abs` has only grown since a thread released it. -/
  seen : ∀ t i c, (b t).seen i = some c → L.le c (abs i)

namespace SerialInv

variable {L : CellSpec Id Cell} {s s' : Locked Tid Id Cell ω} {b : Tid → Hold Id Cell}
  {snap : Tid → Id → Cell} {abs : Id → Cell} {t : Tid} {i : Id}

omit [DecidableEq Tid] [DecidableEq Id] in
/-- Initially nothing is committed. -/
theorem of_free {cur : Id → Cell} (ho : ∀ i, s.owner i = none) :
    SerialInv L s (fun _ : Tid => Hold.empty cur) snap s.cells where
  hold := HoldInv.of_free (fun _ => trivial) ho
  free _ _ := rfl
  held t i h := absurd h (by simp)
  seen t i c h := absurd h (by simp)

omit [DecidableEq Tid] [DecidableEq Id] in
/-- The invariant does not depend on the rest of the state. -/
theorem congr_rest (h : SerialInv L s b snap abs) (hc : s'.cells = s.cells)
    (ho : s'.owner = s.owner) : SerialInv L s' b snap abs where
  hold := h.hold.congr_rest hc ho
  free i hi := by
    rw [hc]
    rw [ho] at hi
    exact h.free i hi
  held := h.held
  seen := h.seen

/-- Taking a free lock. -/
theorem lock (h : SerialInv L s b snap abs) (hf : s.owner i = none) :
    SerialInv L { s with owner := Function.update s.owner i (some t) }
      (Function.update b t ((b t).lock i (s.cells i)))
      (Function.update snap t (Function.update (snap t) i (s.cells i))) abs where
  hold := h.hold.lock hf
  free j hj := by
    by_cases hji : j = i
    · subst hji
      simp at hj
    · exact h.free j (by simpa [Function.update_of_ne hji] using hj)
  held u j hj := by
    by_cases hu : u = t
    · subst hu
      by_cases hji : j = i
      · subst hji
        simpa using h.free j hf
      · simp only [Function.update_self, Hold.held_lock, Finset.mem_insert, hji, false_or] at hj
        simpa [hji] using h.held u j hj
    · rw [Function.update_of_ne hu] at hj ⊢
      exact h.held u j hj
  seen u j c hc := by
    by_cases hu : u = t
    · subst hu
      exact h.seen u j c (by simpa using hc)
    · exact h.seen u j c (by simpa [Function.update_of_ne hu] using hc)

/-- Changing a held cell. -/
theorem write (h : SerialInv L s b snap abs) {c : Cell} (hi : i ∈ (b t).held) :
    SerialInv L { s with cells := Function.update s.cells i c }
      (Function.update b t ((b t).write i c)) snap abs where
  hold := h.hold.write hi trivial
  free j hj := by
    have hji : j ≠ i := by
      rintro rfl
      rw [(h.hold.held t j).mp hi] at hj
      simp at hj
    simpa [Function.update_of_ne hji] using h.free j hj
  held u j hj := by
    by_cases hu : u = t
    · subst hu
      exact h.held u j (by simpa using hj)
    · exact h.held u j (by simpa [Function.update_of_ne hu] using hj)
  seen u j c hc := by
    by_cases hu : u = t
    · subst hu
      exact h.seen u j c (by simpa using hc)
    · exact h.seen u j c (by simpa [Function.update_of_ne hu] using hc)

/-- Releasing a held cell that holds what it holds in `abs`. -/
theorem unlock (h : SerialInv L s b snap abs) (hi : i ∈ (b t).held)
    (hsame : (b t).cur i = snap t i) :
    SerialInv L { s with owner := Function.update s.owner i none }
      (Function.update b t ((b t).unlock i)) snap abs where
  hold := h.hold.unlock hi trivial
  free j hj := by
    by_cases hji : j = i
    · subst hji
      rw [h.held t j hi, ← hsame, h.hold.cur t j hi]
    · exact h.free j (by simpa [Function.update_of_ne hji] using hj)
  held u j hj := by
    by_cases hu : u = t
    · subst hu
      simp only [Function.update_self, Hold.held_unlock, Finset.mem_erase] at hj
      exact h.held u j hj.2
    · exact h.held u j (by simpa [Function.update_of_ne hu] using hj)
  seen u j c hc := by
    by_cases hu : u = t
    · subst hu
      by_cases hji : j = i
      · subst hji
        simp only [Function.update_self, Hold.seen_unlock, Option.some.injEq] at hc
        rw [h.held u j hi, ← hsame, hc]
        exact L.refl _
      · exact h.seen u j c (by simpa [hji] using hc)
    · exact h.seen u j c (by simpa [Function.update_of_ne hu] using hc)

/-- **Committing.** The changes of a thread to the cells it holds are made in `abs`, all at once. -/
theorem commit (h : SerialInv L s b snap abs)
    (hle : ∀ i ∈ (b t).held, L.le (snap t i) ((b t).cur i)) :
    SerialInv L s b (Function.update snap t (b t).cur) ((b t).over abs) where
  hold := h.hold
  free j hj := by
    have hnot : j ∉ (b t).held := fun hmem => by
      rw [(h.hold.held t j).mp hmem] at hj
      cases hj
    rw [Hold.over_of_notMem hnot]
    exact h.free j hj
  held u j hj := by
    by_cases hu : u = t
    · subst hu
      rw [Function.update_self, Hold.over_of_mem hj]
    · have hnot : j ∉ (b t).held := fun hmem => hu (h.hold.held_disjoint hj hmem)
      rw [Function.update_of_ne hu, Hold.over_of_notMem hnot]
      exact h.held u j hj
  seen u j c hc := by
    by_cases hj : j ∈ (b t).held
    · rw [Hold.over_of_mem hj]
      have := h.seen u j c hc
      rw [h.held t j hj] at this
      exact L.trans this (hle j hj)
    · rw [Hold.over_of_notMem hj]
      exact h.seen u j c hc

omit [DecidableEq Tid] [DecidableEq Id] in
/-- When nothing is held, the memory is what the committed jobs leave. -/
theorem eq_cells (h : SerialInv L s b snap abs) (hb : ∀ t, (b t).held = ∅) : s.cells = abs := by
  funext i
  have hfree : s.owner i = none := by
    by_contra hne
    obtain ⟨t, ht⟩ := Option.ne_none_iff_exists'.mp hne
    have := (h.hold.held t i).mpr ht
    rw [hb t] at this
    simp at this
  exact (h.free i hfree).symm

end SerialInv

end Concurrency
