import Mathlib.Data.Finset.Max

/-! # Cyclic waits between intervals

A party `i` is born at `time i` and keeps something open in an interval around that moment; whoever is
born in the interval takes a copy along, and `i` then waits for all copies to be given up. Here
`R i j` says that `j` took a copy of what `i` keeps open. If everyone waits for someone then, by
following these waits, two parties that wait for each other are found (`eq_empty_of_waits`). -/

namespace Concurrency

/-- **Only pairs can wait in a circle.** Let the parties born while `i` keeps something open be an
interval around `i` (`before`, `after`). If no two parties of a finite set wait for each other, then
not each of them waits for another one of the set, unless the set is empty. -/
theorem eq_empty_of_waits {ι : Type} [DecidableEq ι] (time : ι → ℕ) {R : ι → ι → Prop} (S : Finset ι)
    (inj : ∀ i ∈ S, ∀ j ∈ S, time i = time j → i = j)
    (before : ∀ i ∈ S, ∀ a ∈ S, ∀ b ∈ S, time a < time b → time b < time i → R i a → R i b)
    (after : ∀ i ∈ S, ∀ a ∈ S, ∀ b ∈ S, time i < time a → time a < time b → R i b → R i a)
    (pair : ∀ i ∈ S, ∀ j ∈ S, R i j → ¬ R j i)
    (waits : ∀ i ∈ S, ∃ j ∈ S, j ≠ i ∧ R i j) : S = ∅ := by
  induction S using Finset.strongInduction with
  | H S ih =>
    by_contra hne
    obtain ⟨m, hm, hmax⟩ := Finset.exists_max_image S time (Finset.nonempty_iff_ne_empty.mpr hne)
    have hlt : ∀ i ∈ S, i ≠ m → time i < time m := fun i hi him =>
      lt_of_le_of_ne (hmax i hi) fun h => him (inj i hi m hm h)
    obtain ⟨s, hs, hsm, hms⟩ := waits m hm
    have hsub : ∀ i ∈ S.erase m, i ∈ S := fun i => Finset.mem_of_mem_erase
    -- without the youngest party, everyone still waits for someone
    have hempty := ih (S.erase m) (Finset.erase_ssubset hm)
      (fun i hi j hj => inj i (hsub i hi) j (hsub j hj))
      (fun i hi a ha b hb => before i (hsub i hi) a (hsub a ha) b (hsub b hb))
      (fun i hi a ha b hb => after i (hsub i hi) a (hsub a ha) b (hsub b hb))
      (fun i hi j hj => pair i (hsub i hi) j (hsub j hj)) fun i hie => by
        obtain ⟨him, hi⟩ := Finset.mem_erase.mp hie
        obtain ⟨j, hj, hji, hij⟩ := waits i hi
        by_cases hjm : j = m
        · -- who waited for `m` was born before `s`, so it waits for `s` as well
          subst hjm
          have hnot : ¬ R j i := pair i hi j hm hij
          have hsi : s ≠ i := by
            rintro rfl
            exact hnot hms
          have his : time i < time s := by
            rcases Nat.lt_trichotomy (time i) (time s) with h | h | h
            · exact h
            · exact absurd (inj i hi s hs h).symm hsi
            · exact absurd (before j hm s hs i hi h (hlt i hi him) hms) hnot
          exact ⟨s, Finset.mem_erase.mpr ⟨hsm, hs⟩, hsi,
            after i hi s hs j hm his (hlt s hs hsm) hij⟩
        · exact ⟨j, Finset.mem_erase.mpr ⟨hjm, hj⟩, hji, hij⟩
    have hmem : s ∈ S.erase m := Finset.mem_erase.mpr ⟨hsm, hs⟩
    rw [hempty] at hmem
    simp at hmem

end Concurrency
