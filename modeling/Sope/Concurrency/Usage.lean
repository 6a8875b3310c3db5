import Sope.Concurrency.Serial

/-! # The cells that a program uses

A program *uses* a cell of a locked memory when it takes or releases the cell's lock or accesses the
cell. `Prog.Uses` says that it does so in some execution alone, from a given memory and with any
results of the external operations; `Prog.Only` bounds the cells that it uses in any execution, also
when other threads change the memory in between. -/

namespace Concurrency

variable {Id Cell Acc Ext α β : Type} {ARes : Acc → Type} {ERes : Ext → Type} [DecidableEq Id]

/-- Alone and from the memory `m`, the program may use the cell `i`. -/
def Prog.Uses (C : Cells Id Cell Acc ARes) (i : Id) :
    Prog (MemOp Id Acc Ext) (MemOp.Res ARes ERes) α → (Id → Cell) → Prop
  | .ret _, _ => False
  | .op (.lock j) k, m => i = j ∨ (k ()).Uses C i m
  | .op (.unlock j) k, m => i = j ∨ (k ()).Uses C i m
  | .op (.access a) k, m => i = C.loc a ∨ (k (C.run a (m (C.loc a))).1).Uses C i
      (Function.update m (C.loc a) (C.run a (m (C.loc a))).2)
  | .op (.ext _) k, m => ∃ r, (k r).Uses C i m

/-- The program uses only cells in `P`, whatever its operations return. -/
def Prog.Only (C : Cells Id Cell Acc ARes) (P : Id → Prop) :
    Prog (MemOp Id Acc Ext) (MemOp.Res ARes ERes) α → Prop
  | .ret _ => True
  | .op (.lock j) k => P j ∧ (k ()).Only C P
  | .op (.unlock j) k => P j ∧ (k ()).Only C P
  | .op (.access a) k => P (C.loc a) ∧ ∀ r, (k r).Only C P
  | .op (.ext _) k => ∀ r, (k r).Only C P

variable {C : Cells Id Cell Acc ARes} {P : Id → Prop}
  {p : Prog (MemOp Id Acc Ext) (MemOp.Res ARes ERes) α}
  {f : α → Prog (MemOp Id Acc Ext) (MemOp.Res ARes ERes) β}

omit [DecidableEq Id] in
/-- The cells used compose along sequential composition. -/
theorem Prog.Only.bind (hp : p.Only C P) (hf : ∀ a, (f a).Only C P) : (p >>= f).Only C P := by
  induction p with
  | ret a => exact hf a
  | op o k ih =>
      cases o with
      | lock i => exact ⟨hp.1, ih () hp.2⟩
      | unlock i => exact ⟨hp.1, ih () hp.2⟩
      | access a => exact ⟨hp.1, fun r => ih r (hp.2 r)⟩
      | ext e => exact fun r => ih r (hp r)

omit [DecidableEq Id] in
/-- A program within a footprint uses the cells of the footprint. -/
theorem Prog.Within.only {A : Acc → Prop} {E : Ext → Prop} (hp : p.Within A E)
    (hA : ∀ a, A a → P (C.loc a)) : p.Only C P := by
  induction p with
  | ret a => trivial
  | op o k ih =>
      cases o with
      | lock i => exact hp.elim
      | unlock i => exact hp.elim
      | access a => exact ⟨hA a hp.1, fun r => ih r (hp.2 r)⟩
      | ext e => exact fun r => ih r (hp.2 r)

/-- A cell that is used is one of those that may be. -/
theorem Prog.Only.of_uses {i : Id} {m : Id → Cell} (hp : p.Only C P) (hi : p.Uses C i m) : P i := by
  induction p generalizing m with
  | ret a => exact hi.elim
  | op o k ih =>
      cases o with
      | lock j =>
          rcases hi with rfl | hi
          exacts [hp.1, ih () hp.2 hi]
      | unlock j =>
          rcases hi with rfl | hi
          exacts [hp.1, ih () hp.2 hi]
      | access a =>
          rcases hi with rfl | hi
          exacts [hp.1, ih _ (hp.2 _) hi]
      | ext e =>
          obtain ⟨r, hi⟩ := hi
          exact ih r (hp r) hi

/-- What comes after a program that has run alone is part of the execution. -/
theorem Prog.Uses.after {ans : (e : Ext) → Option (ERes e)} {i : Id} {m m' : Id → Cell} {a : α}
    (hp : p.solo C ans m = some (a, m')) (hi : (f a).Uses C i m') : (p >>= f).Uses C i m := by
  induction p generalizing m with
  | ret b =>
      cases hp
      exact hi
  | op o k ih =>
      cases o with
      | lock j => exact .inr (ih () hp)
      | unlock j => exact .inr (ih () hp)
      | access b => exact .inr (ih _ hp)
      | ext e =>
          obtain ⟨r, -, hp⟩ := Option.bind_eq_some_iff.mp hp
          exact ⟨r, ih r hp⟩

end Concurrency
