import Mathlib.Data.Finset.Basic
import Mathlib.Order.Defs.PartialOrder
import Sope.Concurrency.Protocol

/-! # Memory cells guarded by locks

A memory of cells, each guarded by its own non-recursive lock. Besides taking and releasing locks
and accessing one cell, a thread may perform *external* operations on the rest of the shared state,
which have no access to the cells.

The thread-local proof rules `Hold.rule` let a thread access a cell only while it holds the cell's
lock; they are parametrised by a `CellSpec`: an invariant that every cell satisfies while its lock is
free, and a preorder along which cells may only grow. In return a thread *knows* the content of the
cells it holds, and of every cell that it held before, that it has only grown since. The matching
global invariant `HoldInv` is kept by every operation (`HoldInv.step`).

With a rank on the locks, no deadlock can arise between threads that take locks in increasing order
(`exists_owner_not_blocked`). -/

namespace Concurrency

/-- The operations of a memory of cells `Id` guarded by locks: accesses `Acc`, and external
operations `Ext`. -/
inductive MemOp (Id Acc Ext : Type) : Type
  /-- Take the lock of a cell, waiting until it is free. -/
  | lock (i : Id)
  /-- Release the lock of a cell. -/
  | unlock (i : Id)
  /-- Read or write one cell. -/
  | access (a : Acc)
  /-- An operation on the rest of the state. -/
  | ext (e : Ext)
  deriving DecidableEq

/-- The results of the operations. -/
def MemOp.Res {Id Acc Ext : Type} (ARes : Acc → Type) (ERes : Ext → Type) :
    MemOp Id Acc Ext → Type
  | .lock _ => Unit
  | .unlock _ => Unit
  | .access a => ARes a
  | .ext e => ERes e

/-- What the accesses do: the cell an access is about, and its effect on it. -/
structure Cells (Id Cell Acc : Type) (ARes : Acc → Type) where
  /-- The cell that is accessed. -/
  loc : Acc → Id
  /-- The result of the access, and what it leaves in the cell. -/
  run : (a : Acc) → Cell → ARes a × Cell

/-- A memory with locks, next to the rest of the shared state. -/
structure Locked (Tid Id Cell ω : Type) where
  /-- The content of the cells. -/
  cells : Id → Cell
  /-- The thread holding each lock, if any. -/
  owner : Id → Option Tid
  /-- The rest of the shared state. -/
  rest : ω

variable {Tid Id Cell Acc Ext ω X : Type} {ARes : Acc → Type} {ERes : Ext → Type}
  [DecidableEq Tid] [DecidableEq Id]

/-- The effect of an operation. Nothing happens in a state that is not `live`; the meaning of the
external operations is the parameter `extSem`. -/
def Locked.sem (C : Cells Id Cell Acc ARes) (live : ω → Prop)
    (extSem : Tid → (e : Ext) → ω → ERes e → ω → Prop) (t : Tid) :
    (o : MemOp Id Acc Ext) → Locked Tid Id Cell ω → o.Res ARes ERes → Locked Tid Id Cell ω → Prop
  | .lock i, s, _, s' =>
      live s.rest ∧ s.owner i = none ∧ s' = { s with owner := Function.update s.owner i (some t) }
  | .unlock i, s, _, s' =>
      live s.rest ∧ s' = { s with owner := Function.update s.owner i none }
  | .access a, s, r, s' =>
      live s.rest ∧ r = (C.run a (s.cells (C.loc a))).1 ∧
        s' = { s with cells :=
          Function.update s.cells (C.loc a) (C.run a (s.cells (C.loc a))).2 }
  | .ext e, s, r, s' => live s.rest ∧ ∃ w, extSem t e s.rest r w ∧ s' = { s with rest := w }

omit [DecidableEq Tid] in
/-- Operations happen in live states only. -/
theorem Locked.sem_live {C : Cells Id Cell Acc ARes} {live : ω → Prop}
    {extSem : Tid → (e : Ext) → ω → ERes e → ω → Prop} {t : Tid} {o : MemOp Id Acc Ext}
    {s s' : Locked Tid Id Cell ω} {r : o.Res ARes ERes} (h : Locked.sem C live extSem t o s r s') :
    live s.rest := by
  cases o <;> exact h.1

/-! ## Running a program alone -/

/-- What a program does when no other thread takes a step: its value and the cells it leaves. The
external operations are answered by `ans`; `none` if one of them has no answer. Locks need not be
looked at, for a program that takes only locks it does not hold. -/
def Prog.solo {α : Type} (C : Cells Id Cell Acc ARes) (ans : (e : Ext) → Option (ERes e)) :
    Prog (MemOp Id Acc Ext) (MemOp.Res ARes ERes) α → (Id → Cell) → Option (α × (Id → Cell))
  | .ret a, m => some (a, m)
  | .op (.lock _) k, m => (k ()).solo C ans m
  | .op (.unlock _) k, m => (k ()).solo C ans m
  | .op (.access a) k, m =>
      (k (C.run a (m (C.loc a))).1).solo C ans
        (Function.update m (C.loc a) (C.run a (m (C.loc a))).2)
  | .op (.ext e) k, m => (ans e).bind fun r => (k r).solo C ans m

/-- Running a program alone, and then another one. -/
theorem Prog.solo_bind {α β : Type} {C : Cells Id Cell Acc ARes}
    {ans : (e : Ext) → Option (ERes e)}
    (p : Prog (MemOp Id Acc Ext) (MemOp.Res ARes ERes) α)
    (f : α → Prog (MemOp Id Acc Ext) (MemOp.Res ARes ERes) β) (m : Id → Cell) :
    (p >>= f).solo C ans m = (p.solo C ans m).bind fun r => (f r.1).solo C ans r.2 := by
  induction p generalizing m with
  | ret a => rfl
  | op o k ih =>
      cases o with
      | lock i => exact ih () m
      | unlock i => exact ih () m
      | access a => exact ih _ _
      | ext e =>
          change ((ans e).bind fun r => (k r >>= f).solo C ans m) =
            ((ans e).bind fun r => (k r).solo C ans m).bind _
          cases ans e with
          | none => rfl
          | some r => exact ih r m

/-- Alone, an access that leaves its cell as it is. -/
theorem Prog.solo_access {α : Type} {C : Cells Id Cell Acc ARes}
    {ans : (e : Ext) → Option (ERes e)} {a : Acc}
    {k : ARes a → Prog (MemOp Id Acc Ext) (MemOp.Res ARes ERes) α} {m : Id → Cell} {r : ARes a}
    (hsame : (C.run a (m (C.loc a))).2 = m (C.loc a)) (hr : (C.run a (m (C.loc a))).1 = r) :
    (Prog.op (MemOp.access a) k).solo C ans m = (k r).solo C ans m := by
  change (k (C.run a (m (C.loc a))).1).solo C ans (Function.update m _ _) = _
  rw [hsame, Function.update_eq_self, hr]

/-- Alone, an external operation that is answered. -/
theorem Prog.solo_ext {α : Type} {C : Cells Id Cell Acc ARes}
    {ans : (e : Ext) → Option (ERes e)} {e : Ext}
    {k : ERes e → Prog (MemOp Id Acc Ext) (MemOp.Res ARes ERes) α} {m : Id → Cell} {r : ERes e}
    (hr : ans e = some r) : (Prog.op (MemOp.ext e) k).solo C ans m = (k r).solo C ans m := by
  change (ans e).bind _ = _
  rw [hr]
  rfl

/-- The program takes and releases no lock, and performs only accesses that satisfy `A` and external
operations that satisfy `E`, whatever the operations return. -/
def Prog.Within {α : Type} (A : Acc → Prop) (E : Ext → Prop) :
    Prog (MemOp Id Acc Ext) (MemOp.Res ARes ERes) α → Prop
  | .ret _ => True
  | .op (.lock _) _ => False
  | .op (.unlock _) _ => False
  | .op (.access a) k => A a ∧ ∀ r, (k r).Within A E
  | .op (.ext e) k => E e ∧ ∀ r, (k r).Within A E

omit [DecidableEq Id] in
/-- Footprints compose along sequential composition. -/
theorem Prog.Within.bind {α β : Type} {A : Acc → Prop} {E : Ext → Prop}
    {p : Prog (MemOp Id Acc Ext) (MemOp.Res ARes ERes) α}
    {f : α → Prog (MemOp Id Acc Ext) (MemOp.Res ARes ERes) β} (hp : p.Within A E)
    (hf : ∀ a, (f a).Within A E) : (p >>= f).Within A E := by
  induction p with
  | ret a => exact hf a
  | op o k ih =>
      cases o with
      | lock i => exact hp
      | unlock i => exact hp
      | access a => exact ⟨hp.1, fun r => ih r (hp.2 r)⟩
      | ext e => exact ⟨hp.1, fun r => ih r (hp.2 r)⟩

omit [DecidableEq Id] in
/-- A footprint within a smaller one. -/
theorem Prog.Within.mono {α : Type} {A A' : Acc → Prop} {E E' : Ext → Prop}
    {p : Prog (MemOp Id Acc Ext) (MemOp.Res ARes ERes) α} (hp : p.Within A E)
    (hA : ∀ a, A a → A' a) (hE : ∀ e, E e → E' e) : p.Within A' E' := by
  induction p with
  | ret a => trivial
  | op o k ih =>
      cases o with
      | lock i => exact hp
      | unlock i => exact hp
      | access a => exact ⟨hA a hp.1, fun r => ih r (hp.2 r)⟩
      | ext e => exact ⟨hE e hp.1, fun r => ih r (hp.2 r)⟩

/-! ## What a thread knows of the cells -/

/-- What a thread knows of the memory: the cells it holds and their content, and the content it last
saw in the cells it has released. -/
structure Hold (Id Cell : Type) where
  /-- The cells whose lock the thread holds. -/
  held : Finset Id
  /-- The content of the held cells. -/
  cur : Id → Cell
  /-- The content of the released cells when they were released. -/
  seen : Id → Option Cell

namespace Hold

/-- The lock of `i` is taken, and the cell is found to hold `c`. -/
def lock (b : Hold Id Cell) (i : Id) (c : Cell) : Hold Id Cell :=
  { b with held := insert i b.held, cur := Function.update b.cur i c }

/-- The lock of `i` is released. -/
def unlock (b : Hold Id Cell) (i : Id) : Hold Id Cell :=
  { b with held := b.held.erase i, seen := Function.update b.seen i (some (b.cur i)) }

/-- The held cell `i` is changed to `c`. -/
def write (b : Hold Id Cell) (i : Id) (c : Cell) : Hold Id Cell :=
  { b with cur := Function.update b.cur i c }

/-- Nothing is held and nothing is known. -/
def empty (cur : Id → Cell) : Hold Id Cell := ⟨∅, cur, fun _ => none⟩

variable (b : Hold Id Cell) (i : Id) (c : Cell)

@[simp] theorem held_lock : (b.lock i c).held = insert i b.held := rfl
@[simp] theorem cur_lock : (b.lock i c).cur = Function.update b.cur i c := rfl
@[simp] theorem seen_lock : (b.lock i c).seen = b.seen := rfl
@[simp] theorem held_unlock : (b.unlock i).held = b.held.erase i := rfl
@[simp] theorem cur_unlock : (b.unlock i).cur = b.cur := rfl
@[simp] theorem seen_unlock :
    (b.unlock i).seen = Function.update b.seen i (some (b.cur i)) := rfl
@[simp] theorem held_write : (b.write i c).held = b.held := rfl
@[simp] theorem cur_write : (b.write i c).cur = Function.update b.cur i c := rfl
@[simp] theorem seen_write : (b.write i c).seen = b.seen := rfl
omit [DecidableEq Id] in
@[simp] theorem held_empty (cur : Id → Cell) : (empty cur).held = (∅ : Finset Id) := rfl
omit [DecidableEq Id] in
@[simp] theorem seen_empty (cur : Id → Cell) : (empty cur).seen i = none := rfl

end Hold

/-- What every thread may rely on: an invariant of the cells whose lock is free, and a preorder along
which every access moves the cell. -/
structure CellSpec (Id Cell : Type) where
  /-- The invariant of a cell whose lock is free. -/
  inv : Id → Cell → Prop
  /-- `le c c'`: a cell holding `c` may come to hold `c'`. -/
  le : Cell → Cell → Prop
  /-- A cell may stay as it is. -/
  refl : ∀ c, le c c
  /-- Two changes in a row are a change. -/
  trans : ∀ {c c' c''}, le c c' → le c' c'' → le c c''

/-- The specification that promises nothing. -/
def CellSpec.trivial : CellSpec Id Cell := ⟨fun _ _ => True, fun _ _ => True, fun _ => ⟨⟩, fun _ _ => ⟨⟩⟩

/-- The thread-local rules: a lock is taken only if it is not held already, released only if it is,
with the invariant of its cell restored, and a cell is accessed only while its lock is held. -/
def Hold.rule (C : Cells Id Cell Acc ARes) (L : CellSpec Id Cell) (b : Hold Id Cell) :
    (o : MemOp Id Acc Ext) → (o.Res ARes ERes → Hold Id Cell → Prop) → Prop
  | .lock i, Φ => i ∉ b.held ∧
      ∀ c, L.inv i c → (∀ c₀, b.seen i = some c₀ → L.le c₀ c) → Φ () (b.lock i c)
  | .unlock i, Φ => i ∈ b.held ∧ L.inv i (b.cur i) ∧ Φ () (b.unlock i)
  | .access a, Φ => C.loc a ∈ b.held ∧ L.le (b.cur (C.loc a)) (C.run a (b.cur (C.loc a))).2 ∧
      Φ (C.run a (b.cur (C.loc a))).1 (b.write (C.loc a) (C.run a (b.cur (C.loc a))).2)
  | .ext _, Φ => ∀ r, Φ r b

/-- The rules are monotone. -/
theorem Hold.rule_mono {C : Cells Id Cell Acc ARes} {L : CellSpec Id Cell} {b : Hold Id Cell}
    {o : MemOp Id Acc Ext} {Φ Ψ : o.Res ARes ERes → Hold Id Cell → Prop}
    (h : ∀ r b', Φ r b' → Ψ r b') (hr : b.rule C L o Φ) : b.rule C L o Ψ := by
  cases o with
  | lock i => exact ⟨hr.1, fun c hc hs => h _ _ (hr.2 c hc hs)⟩
  | unlock i => exact ⟨hr.1, hr.2.1, h _ _ hr.2.2⟩
  | access a => exact ⟨hr.1, hr.2.1, h _ _ hr.2.2⟩
  | ext e => exact fun r => h _ _ (hr r)

/-! ## What holds of the memory as a whole -/

/-- The global invariant behind the thread-local rules: free cells satisfy their invariant, the
threads hold the locks they think they hold, and what they know of the cells is true. -/
structure HoldInv (L : CellSpec Id Cell) (s : Locked Tid Id Cell ω) (b : Tid → Hold Id Cell) :
    Prop where
  /-- A cell whose lock is free satisfies its invariant. -/
  free : ∀ i, s.owner i = none → L.inv i (s.cells i)
  /-- A thread holds exactly the locks it owns. -/
  held : ∀ t i, i ∈ (b t).held ↔ s.owner i = some t
  /-- A thread knows the content of the cells it holds. -/
  cur : ∀ t i, i ∈ (b t).held → (b t).cur i = s.cells i
  /-- A cell has only grown since a thread released it. -/
  seen : ∀ t i c, (b t).seen i = some c → L.le c (s.cells i)

namespace HoldInv

variable {L : CellSpec Id Cell} {C : Cells Id Cell Acc ARes} {live : ω → Prop}
  {extSem : Tid → (e : Ext) → ω → ERes e → ω → Prop} {s s' : Locked Tid Id Cell ω}
  {b : Tid → Hold Id Cell} {t : Tid}

omit [DecidableEq Tid] [DecidableEq Id] in
/-- The invariant does not depend on the rest of the state. -/
theorem congr_rest (h : HoldInv L s b) (hc : s'.cells = s.cells) (ho : s'.owner = s.owner) :
    HoldInv L s' b :=
  ⟨by rw [hc, ho]; exact h.free, by rw [ho]; exact h.held, by rw [hc]; exact h.cur,
    by rw [hc]; exact h.seen⟩

omit [DecidableEq Tid] [DecidableEq Id] in
/-- If no lock is taken and every cell satisfies its invariant, threads that know nothing know
nothing wrong. -/
theorem of_free {cur : Id → Cell} (hi : ∀ i, L.inv i (s.cells i)) (ho : ∀ i, s.owner i = none) :
    HoldInv L s fun _ : Tid => Hold.empty cur where
  free i _ := hi i
  held t i := by simp [ho]
  cur t i h := absurd h (by simp)
  seen t i c h := absurd h (by simp)

omit [DecidableEq Tid] [DecidableEq Id] in
/-- Two threads never hold the same lock. -/
theorem held_disjoint (h : HoldInv L s b) {t u : Tid} {i : Id} (ht : i ∈ (b t).held)
    (hu : i ∈ (b u).held) : t = u := by
  have := ((h.held t i).mp ht).symm.trans ((h.held u i).mp hu)
  simpa using this

/-- Taking a free lock. -/
theorem lock (h : HoldInv L s b) {i : Id} (hf : s.owner i = none) :
    HoldInv L { s with owner := Function.update s.owner i (some t) }
      (Function.update b t ((b t).lock i (s.cells i))) where
  free j hj := by
    by_cases hji : j = i
    · subst hji
      simp at hj
    · exact h.free j (by simpa [Function.update_of_ne hji] using hj)
  held u j := by
    have hj := h.held u j
    by_cases hu : u = t <;> by_cases hji : j = i
    · subst hu hji
      simp
    · subst hu
      simpa [hji] using hj
    · subst hji
      simp only [Function.update_of_ne hu, Function.update_self, hj, hf]
      simp [Ne.symm hu]
    · simpa [hu, hji] using hj
  cur u j hj := by
    by_cases hu : u = t
    · subst hu
      by_cases hji : j = i
      · subst hji
        simp
      · simp only [Function.update_self, Hold.held_lock, Finset.mem_insert, hji, false_or] at hj
        simpa [hji] using h.cur u j hj
    · rw [Function.update_of_ne hu] at hj ⊢
      exact h.cur u j hj
  seen u j c hc := by
    by_cases hu : u = t
    · subst hu
      exact h.seen u j c (by simpa using hc)
    · exact h.seen u j c (by simpa [Function.update_of_ne hu] using hc)

/-- Releasing a held lock. -/
theorem unlock (h : HoldInv L s b) {i : Id} (hi : i ∈ (b t).held) (hc : L.inv i ((b t).cur i)) :
    HoldInv L { s with owner := Function.update s.owner i none }
      (Function.update b t ((b t).unlock i)) where
  free j hj := by
    by_cases hji : j = i
    · subst hji
      rw [← h.cur t j hi]
      exact hc
    · exact h.free j (by simpa [Function.update_of_ne hji] using hj)
  held u j := by
    have hj := h.held u j
    by_cases hu : u = t <;> by_cases hji : j = i
    · subst hu hji
      simp
    · subst hu
      simpa [hji] using hj
    · subst hji
      simp only [Function.update_of_ne hu, Function.update_self, hj, (h.held t j).mp hi]
      simp [Ne.symm hu]
    · simpa [hu, hji] using hj
  cur u j hj := by
    by_cases hu : u = t
    · subst hu
      simp only [Function.update_self, Hold.held_unlock, Finset.mem_erase] at hj
      simpa using h.cur u j hj.2
    · rw [Function.update_of_ne hu] at hj ⊢
      exact h.cur u j hj
  seen u j c hj := by
    by_cases hu : u = t
    · subst hu
      by_cases hji : j = i
      · subst hji
        simp only [Function.update_self, Hold.seen_unlock, Option.some.injEq] at hj
        rw [← hj, h.cur u j hi]
        exact L.refl _
      · exact h.seen u j c (by simpa [hji] using hj)
    · exact h.seen u j c (by simpa [Function.update_of_ne hu] using hj)

/-- Changing a held cell along the preorder. -/
theorem write (h : HoldInv L s b) {i : Id} {c : Cell} (hi : i ∈ (b t).held)
    (hc : L.le (s.cells i) c) :
    HoldInv L { s with cells := Function.update s.cells i c }
      (Function.update b t ((b t).write i c)) where
  free j hj := by
    have hji : j ≠ i := by
      rintro rfl
      rw [(h.held t j).mp hi] at hj
      simp at hj
    simpa [Function.update_of_ne hji] using h.free j hj
  held u j := by
    by_cases hu : u = t
    · subst hu
      simpa using h.held u j
    · simpa [Function.update_of_ne hu] using h.held u j
  cur u j hj := by
    by_cases hu : u = t
    · subst hu
      by_cases hji : j = i
      · subst hji
        simp
      · simpa [hji] using h.cur u j (by simpa using hj)
    · rw [Function.update_of_ne hu] at hj ⊢
      have hji : j ≠ i := by
        rintro rfl
        exact hu (h.held_disjoint hj hi)
      simpa [Function.update_of_ne hji] using h.cur u j hj
  seen u j d hd := by
    have hold : L.le d (s.cells j) := by
      by_cases hu : u = t
      · subst hu
        exact h.seen u j d (by simpa using hd)
      · exact h.seen u j d (by simpa [Function.update_of_ne hu] using hd)
    by_cases hji : j = i
    · subst hji
      simpa using L.trans hold hc
    · simpa [Function.update_of_ne hji] using hold

/-- **Every operation performed as its rule asks keeps the invariant.** -/
theorem step (h : HoldInv L s b) {o : MemOp Id Acc Ext}
    {Φ : o.Res ARes ERes → Hold Id Cell → Prop} {r : o.Res ARes ERes}
    (hr : (b t).rule C L o Φ) (hs : Locked.sem C live extSem t o s r s') :
    ∃ b', Φ r b' ∧ HoldInv L s' (Function.update b t b') := by
  cases o with
  | lock i =>
      obtain ⟨-, hf, rfl⟩ := hs
      exact ⟨_, hr.2 _ (h.free i hf) (h.seen t i), h.lock hf⟩
  | unlock i =>
      obtain ⟨-, rfl⟩ := hs
      exact ⟨_, hr.2.2, h.unlock hr.1 hr.2.1⟩
  | access a =>
      obtain ⟨-, rfl, rfl⟩ := hs
      obtain ⟨hi, hle, hΦ⟩ := hr
      rw [h.cur t _ hi] at hle hΦ
      exact ⟨_, hΦ, h.write hi hle⟩
  | ext e =>
      obtain ⟨-, w, -, rfl⟩ := hs
      refine ⟨b t, hr r, ?_⟩
      rw [Function.update_eq_self]
      exact h.congr_rest rfl rfl

end HoldInv

/-! ## Protocols over a locked memory -/

/-- Further rules on top of `Hold.rule`, over a further ghost value: `pre x b o` is asked before an
operation `o`, and `rule x b o r b' Φ` when it has returned `r` and has taken what the thread knows
of the memory from `b` to `b'`. -/
structure Extra (Id Cell Acc Ext : Type) (ARes : Acc → Type) (ERes : Ext → Type) (X : Type) where
  /-- What must be known before an operation. -/
  pre : X → Hold Id Cell → MemOp Id Acc Ext → Prop
  /-- The further rules. -/
  rule : X → Hold Id Cell → (o : MemOp Id Acc Ext) → o.Res ARes ERes → Hold Id Cell →
    (X → Prop) → Prop
  /-- A weaker aim is easier to reach. -/
  mono : ∀ {x b o r b'} {Φ Ψ : X → Prop}, (∀ x', Φ x' → Ψ x') → rule x b o r b' Φ →
    rule x b o r b' Ψ

/-- The rules of a locked memory, extended. -/
def Extra.protocol (E : Extra Id Cell Acc Ext ARes ERes X) (C : Cells Id Cell Acc ARes)
    (L : CellSpec Id Cell) :
    Protocol (MemOp Id Acc Ext) (MemOp.Res ARes ERes) (Hold Id Cell × X) where
  rule g o Φ := E.pre g.2 g.1 o ∧
    g.1.rule C L o fun r b' => E.rule g.2 g.1 o r b' fun x' => Φ r (b', x')
  mono h := And.imp_right (Hold.rule_mono fun r b' => E.mono fun x' => h r (b', x'))

/-- An operation performed as the extended rules ask keeps the memory's invariant and meets the
further rule. -/
theorem HoldInv.extra {E : Extra Id Cell Acc Ext ARes ERes X} {C : Cells Id Cell Acc ARes}
    {L : CellSpec Id Cell} {live : ω → Prop} {extSem : Tid → (e : Ext) → ω → ERes e → ω → Prop}
    {s s' : Locked Tid Id Cell ω} {g : Tid → Hold Id Cell × X} {t : Tid} {o : MemOp Id Acc Ext}
    {r : o.Res ARes ERes} {Φ : o.Res ARes ERes → Hold Id Cell × X → Prop}
    (h : HoldInv L s fun u => (g u).1) (hr : (E.protocol C L).rule (g t) o Φ)
    (hs : Locked.sem C live extSem t o s r s') :
    ∃ b', E.rule (g t).2 (g t).1 o r b' (fun x' => Φ r (b', x')) ∧
      ∀ x', HoldInv L s' fun u => (Function.update g t (b', x') u).1 := by
  obtain ⟨b', hΦ, hi⟩ :=
    h.step hr.2 hs
  refine ⟨b', hΦ, fun x' => ?_⟩
  convert hi using 2 with u
  by_cases hu : u = t
  · subst hu
    simp
  · simp [hu]

/-- **The rule of footprints.** A program within the held cells, each of whose operations keeps what is
known of the memory in `J` and leaves the further ghost value alone, returns with both. -/
theorem Prog.Within.wp_keep {α : Type} {E : Extra Id Cell Acc Ext ARes ERes X}
    {C : Cells Id Cell Acc ARes} {L : CellSpec Id Cell} {A : Acc → Prop} {F : Ext → Prop} {x : X}
    {b : Hold Id Cell} {J : Hold Id Cell → Prop}
    {p : Prog (MemOp Id Acc Ext) (MemOp.Res ARes ERes) α} {Q : α → Hold Id Cell × X → Prop}
    (hp : p.Within A F)
    (hacc : ∀ a b, A a → J b → E.pre x b (.access a) ∧ C.loc a ∈ b.held ∧
      L.le (b.cur (C.loc a)) (C.run a (b.cur (C.loc a))).2 ∧
      J (b.write (C.loc a) (C.run a (b.cur (C.loc a))).2) ∧
      ∀ r b' (Φ : X → Prop), Φ x → E.rule x b (.access a) r b' Φ)
    (hext : ∀ e b, F e → J b → E.pre x b (.ext e) ∧
      ∀ r b' (Φ : X → Prop), Φ x → E.rule x b (.ext e) r b' Φ)
    (hJ : J b) (hQ : ∀ a b', J b' → Q a (b', x)) : p.wp (E.protocol C L) Q (b, x) := by
  induction p generalizing b with
  | ret a => exact hQ a b hJ
  | op o k ih =>
      cases o with
      | lock i => exact hp.elim
      | unlock i => exact hp.elim
      | access a =>
          obtain ⟨hpre, hheld, hle, hJ', hrule⟩ := hacc a b hp.1 hJ
          exact ⟨hpre, hheld, hle, hrule _ _ _ (ih _ (hp.2 _) hJ')⟩
      | ext e =>
          obtain ⟨hpre, hrule⟩ := hext e b hp.1 hJ
          exact ⟨hpre, fun r => hrule _ _ _ (ih r (hp.2 r) hJ)⟩

/-- The rule of footprints where nothing is promised of the cells: the same locks are held. -/
theorem Prog.Within.wp {α : Type} {E : Extra Id Cell Acc Ext ARes ERes X}
    {C : Cells Id Cell Acc ARes} {A : Acc → Prop} {F : Ext → Prop} {x : X} {b : Hold Id Cell}
    {p : Prog (MemOp Id Acc Ext) (MemOp.Res ARes ERes) α} {Q : α → Hold Id Cell × X → Prop}
    (hp : p.Within A F) (hA : ∀ a, A a → C.loc a ∈ b.held)
    (hacc : ∀ a b, E.pre x b (.access a) ∧
      ∀ r b' (Φ : X → Prop), Φ x → E.rule x b (.access a) r b' Φ)
    (hext : ∀ e b, F e → E.pre x b (.ext e) ∧
      ∀ r b' (Φ : X → Prop), Φ x → E.rule x b (.ext e) r b' Φ)
    (hQ : ∀ a b', b'.held = b.held → Q a (b', x)) :
    p.wp (E.protocol C .trivial) Q (b, x) := by
  refine hp.wp_keep (J := fun b' => b'.held = b.held) (fun a b' ha hb' => ?_)
    (fun e b' he _ => hext e b' he) rfl hQ
  exact ⟨(hacc a b').1, by rw [hb']; exact hA a ha, ⟨⟩, hb', (hacc a b').2⟩

/-- **The rule of reading.** A program that only reads held cells, and whose external operations
leave the further ghost value alone, returns with everything known as before. -/
theorem Prog.Within.wp_read {α : Type} {E : Extra Id Cell Acc Ext ARes ERes X}
    {C : Cells Id Cell Acc ARes} {L : CellSpec Id Cell} {A : Acc → Prop} {F : Ext → Prop} {x : X}
    {b : Hold Id Cell} {p : Prog (MemOp Id Acc Ext) (MemOp.Res ARes ERes) α}
    {Q : α → Hold Id Cell × X → Prop} (hp : p.Within A F)
    (hA : ∀ a, A a → C.loc a ∈ b.held ∧ ∀ c, (C.run a c).2 = c)
    (hacc : ∀ a, A a → E.pre x b (.access a) ∧
      ∀ r (Φ : X → Prop), Φ x → E.rule x b (.access a) r b Φ)
    (hext : ∀ e, F e → E.pre x b (.ext e) ∧
      ∀ r (Φ : X → Prop), Φ x → E.rule x b (.ext e) r b Φ)
    (hQ : ∀ a, Q a (b, x)) : p.wp (E.protocol C L) Q (b, x) := by
  induction p with
  | ret a => exact hQ a
  | op o k ih =>
      cases o with
      | lock i => exact hp.elim
      | unlock i => exact hp.elim
      | access a =>
          have hsame : b.write (C.loc a) (b.cur (C.loc a)) = b := by
            rw [Hold.write, Function.update_eq_self]
          refine ⟨(hacc a hp.1).1, (hA a hp.1).1, ?_, ?_⟩
          · rw [(hA a hp.1).2]
            exact L.refl _
          · rw [(hA a hp.1).2, hsame]
            exact (hacc a hp.1).2 _ _ (ih _ (hp.2 _))
      | ext e => exact ⟨(hext e hp.1).1, fun r => (hext e hp.1).2 _ _ (ih r (hp.2 r))⟩

/-! ## Lock order -/

omit [DecidableEq Tid] [DecidableEq Id] in
/-- **No circular wait.** Suppose locks have ranks below a bound and a thread wants a lock only of
higher rank than those it owns. Then, whenever some lock is owned, some owner of a lock does not
want a lock that is taken. -/
theorem exists_owner_not_blocked {rank : Id → ℕ} {bound : ℕ} (hb : ∀ i, rank i < bound)
    {owner : Id → Option Tid} {wants : Tid → Id → Prop}
    (hord : ∀ t i j, wants t i → owner j = some t → rank j < rank i) {t : Tid} {i : Id}
    (h : owner i = some t) : ∃ u j, owner j = some u ∧ ∀ k, wants u k → owner k = none := by
  -- from an owner that is blocked, follow the lock it wants to its owner: ranks increase
  induction hn : bound - rank i using Nat.strong_induction_on generalizing t i with
  | _ n ih =>
    by_cases hw : ∀ k, wants t k → owner k = none
    · exact ⟨t, i, h, hw⟩
    · push Not at hw
      obtain ⟨k, hk, hok⟩ := hw
      obtain ⟨v, hv⟩ := Option.ne_none_iff_exists'.mp hok
      have hlt := hord t k i hk h
      have := hb k
      exact ih (bound - rank k) (by omega) hv rfl

end Concurrency
