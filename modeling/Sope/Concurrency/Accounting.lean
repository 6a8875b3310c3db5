import Mathlib.Algebra.BigOperators.Group.List.Basic
import Mathlib.Algebra.GroupWithZero.Nat
import Sope.Concurrency.Serial

/-! # Accounts of jobs in a row

Jobs that are executed one after the other, and a quantity of which every job gives and takes something. What
is there at the end, and at every moment in between, is what the jobs so far have given, less what they have
taken.

* `Serially.split` — the state before a job, and the state behind it.
* `Serially.keeps` — what every job keeps.
* `Serially.balanced` — what all jobs give and take. -/

namespace Concurrency

variable {J σ : Type} {R : J → σ → σ → Prop} {js : List J} {s s' : σ} {I : σ → Prop}

/-- The state before a job, and the state behind it. -/
theorem Serially.split {before after : List J} {j : J} (h : Serially R (before ++ j :: after) s s') :
    ∃ s₁ s₂, Serially R before s s₁ ∧ R j s₁ s₂ ∧ Serially R after s₂ s' := by
  induction before generalizing s with
  | nil =>
      obtain ⟨s₂, hj, hafter⟩ := h
      exact ⟨s, s₂, rfl, hj, hafter⟩
  | cons k before ih =>
      obtain ⟨s₀, hk, hrest⟩ := h
      obtain ⟨s₁, s₂, hbefore, hj, hafter⟩ := ih hrest
      exact ⟨s₁, s₂, ⟨s₀, hk, hbefore⟩, hj, hafter⟩

/-- What every job keeps, all of them keep. -/
theorem Serially.keeps (h : Serially R js s s') (hs : I s)
    (hstep : ∀ j ∈ js, ∀ s s', I s → R j s s' → I s') : I s' := by
  induction js generalizing s with
  | nil =>
      obtain rfl : s' = s := h
      exact hs
  | cons j js ih =>
      obtain ⟨s₁, hj, hjs⟩ := h
      apply ih hjs
      · exact hstep j (.head _) s s₁ hs hj
      · intro k hk
        exact hstep k (.tail _ hk)

/-- **The quantity at the end is that at the beginning, with all that the jobs give and without all that
they take.** -/
theorem Serially.balanced (amount : σ → ℕ) (gives takes : J → ℕ) (h : Serially R js s s') (hs : I s)
    (hstep : ∀ j ∈ js, ∀ s s', I s → R j s s' →
      I s' ∧ amount s' + takes j = amount s + gives j) :
    amount s' + (js.map takes).sum = amount s + (js.map gives).sum := by
  induction js generalizing s with
  | nil =>
      obtain rfl : s' = s := h
      rfl
  | cons j js ih =>
      obtain ⟨s₁, hj, hjs⟩ := h
      obtain ⟨hs₁, hamount⟩ := hstep j (.head _) s s₁ hs hj
      have ih := ih hjs hs₁ fun k hk => hstep k (.tail _ hk)
      rw [List.map_cons, List.sum_cons, List.map_cons, List.sum_cons]
      omega

end Concurrency
