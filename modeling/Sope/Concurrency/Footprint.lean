import Mathlib.Data.Finset.Disjoint
import Mathlib.Tactic.Common

/-! # Footprints

A transformer of a memory of cells returns a result and the memory that it leaves. `HasFootprint` says
which cells it may look at and which of them it may write. Two transformers of which neither writes what
the other one looks at commute, in their results and in the memory (`HasFootprint.commute`). -/

namespace Concurrency

variable {Id Cell R R' : Type} [DecidableEq Id]

/-- The transformer `f` looks at the cells in `named` only, and writes those in `written` only. -/
structure HasFootprint (f : (Id → Cell) → R × (Id → Cell)) (named written : Finset Id) : Prop where
  /-- It may look at what it writes. -/
  subset : written ⊆ named
  /-- It leaves every other cell as it is. -/
  frame : ∀ m, ∀ i ∉ written, (f m).2 i = m i
  /-- Its result depends on the named cells. -/
  result : ∀ m m', (∀ i ∈ named, m i = m' i) → (f m).1 = (f m').1
  /-- So does what it writes. -/
  writes : ∀ m m', (∀ i ∈ named, m i = m' i) → ∀ i ∈ written, (f m).2 i = (f m').2 i

variable {f : (Id → Cell) → R × (Id → Cell)} {g : (Id → Cell) → R' × (Id → Cell)}
  {named written named' written' : Finset Id}

omit [DecidableEq Id] in
/-- What one transformer leaves is the same for another one that looks at none of the written cells. -/
theorem HasFootprint.agree (hf : HasFootprint f named written) (h : Disjoint written named')
    (m : Id → Cell) : ∀ i ∈ named', (f m).2 i = m i :=
  fun i hi => hf.frame m i fun hw => Finset.disjoint_left.mp h hw hi

/-- **Independent transformers commute.** -/
theorem HasFootprint.commute (hf : HasFootprint f named written) (hg : HasFootprint g named' written')
    (h : Disjoint written named') (h' : Disjoint written' named) (m : Id → Cell) :
    (g (f m).2).1 = (g m).1 ∧ (f (g m).2).1 = (f m).1 ∧ (g (f m).2).2 = (f (g m).2).2 := by
  have hagree := hf.agree h m
  have hagree' := hg.agree h' m
  refine ⟨hg.result _ _ hagree, hf.result _ _ hagree', ?_⟩
  funext i
  by_cases hi : i ∈ written
  · have hi' : i ∉ written' := fun hw => Finset.disjoint_left.mp h hi (hg.subset hw)
    rw [hg.frame _ i hi', hf.writes _ _ hagree' i hi]
  rw [hf.frame _ i hi]
  by_cases hi' : i ∈ written'
  · rw [hg.writes _ _ hagree i hi']
  · -- neither writes this cell
    rw [hg.frame _ i hi', hg.frame _ i hi', hf.frame _ i hi]

end Concurrency
