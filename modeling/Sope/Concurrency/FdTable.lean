import Mathlib.Data.Finset.Card
import Mathlib.Data.Finset.Range
import Mathlib.Data.List.Basic
import Mathlib.Tactic.Common

/-! # Descriptor tables

The table in which a process keeps what its descriptors stand for, with entries in any type `E`: a new
descriptor is a free one, the lowest one as POSIX has it. -/

namespace Concurrency

/-- A descriptor table: what each descriptor stands for, if it is open. -/
structure FdTable (E : Type) where
  get : ℕ → Option E
  /-- No descriptor from here on is open. -/
  size : ℕ
  closed : ∀ fd, size ≤ fd → get fd = none

namespace FdTable

variable {E : Type}

/-- No descriptor is open. -/
def empty : FdTable E := ⟨fun _ => none, 0, fun _ _ => rfl⟩

/-- The descriptors below `size` are open, all of them for the same. -/
def filled (size : ℕ) (e : E) : FdTable E where
  get fd := if fd < size then some e else none
  size := size
  closed _ h := if_neg (Nat.not_lt.mpr h)

/-- The table after a descriptor has been opened or closed. -/
def set (t : FdTable E) (fd : ℕ) (e : Option E) : FdTable E where
  get := Function.update t.get fd e
  size := max t.size (fd + 1)
  closed fd' h := by
    have hne : fd' ≠ fd := by omega
    rw [Function.update_of_ne hne]
    exact t.closed fd' (by omega)

/-- The lowest descriptor that is free. -/
def lowest (t : FdTable E) : ℕ :=
  ((List.range t.size).find? fun fd => (t.get fd).isNone).getD t.size

/-- Whether some descriptor stands for `e`. -/
def holds [DecidableEq E] (t : FdTable E) (e : E) : Bool :=
  (List.range t.size).any fun fd => t.get fd == some e

@[simp] theorem get_empty (fd : ℕ) : (empty : FdTable E).get fd = none := rfl

theorem get_filled (size fd : ℕ) (e : E) :
    (filled size e).get fd = if fd < size then some e else none := rfl

@[simp] theorem get_set_self (t : FdTable E) (fd : ℕ) (e : Option E) : (t.set fd e).get fd = e :=
  Function.update_self ..

theorem get_set_of_ne (t : FdTable E) {fd fd' : ℕ} (h : fd' ≠ fd) (e : Option E) :
    (t.set fd e).get fd' = t.get fd' := Function.update_of_ne h ..

/-- A change of a descriptor that does not stand for `a`, and will not, does not matter to `a`. -/
theorem get_set_eq_iff {t : FdTable E} {fd : ℕ} {e : Option E} {a : E} (h : t.get fd ≠ some a)
    (he : e ≠ some a) (fd' : ℕ) : (t.set fd e).get fd' = some a ↔ t.get fd' = some a := by
  by_cases hfd : fd' = fd
  · subst hfd
    rw [get_set_self]
    exact iff_of_false he h
  · rw [get_set_of_ne t hfd]

/-- The lowest free descriptor is free. -/
theorem get_lowest (t : FdTable E) : t.get t.lowest = none := by
  unfold lowest
  cases h : (List.range t.size).find? fun fd => (t.get fd).isNone with
  | none => exact t.closed _ (Nat.le_refl _)
  | some fd => exact Option.isNone_iff_eq_none.mp (by simpa using List.find?_some h)

/-- An open descriptor is below the size. -/
theorem lt_size_of_get {t : FdTable E} {fd : ℕ} {e : E} (h : t.get fd = some e) : fd < t.size := by
  by_contra hle
  rw [t.closed fd (Nat.le_of_not_lt hle)] at h
  cases h

theorem holds_iff [DecidableEq E] (t : FdTable E) (e : E) :
    t.holds e = true ↔ ∃ fd, t.get fd = some e := by
  simp only [holds, List.any_eq_true, List.mem_range, beq_iff_eq]
  constructor
  · rintro ⟨fd, -, h⟩
    exact ⟨fd, h⟩
  · rintro ⟨fd, h⟩
    exact ⟨fd, lt_size_of_get h, h⟩

/-! ## How many descriptors are open -/

/-- The descriptors that are open. -/
def openFds (t : FdTable E) : Finset ℕ := {fd ∈ Finset.range t.size | (t.get fd).isSome}

theorem mem_openFds {t : FdTable E} {fd : ℕ} : fd ∈ t.openFds ↔ t.get fd ≠ none := by
  rw [openFds, Finset.mem_filter, Finset.mem_range, Option.isSome_iff_ne_none, and_iff_right_iff_imp]
  intro h
  obtain ⟨e, he⟩ := Option.ne_none_iff_exists'.mp h
  exact lt_size_of_get he

/-- The number of open descriptors. -/
def count (t : FdTable E) : ℕ := t.openFds.card

theorem count_congr {t t' : FdTable E} (h : t.get = t'.get) : t.count = t'.count := by
  refine congrArg Finset.card ?_
  ext fd
  rw [mem_openFds, mem_openFds, h]

/-- Opening a descriptor. -/
theorem count_set_of_none {t : FdTable E} {fd : ℕ} (h : t.get fd = none) (e : E) :
    (t.set fd (some e)).count = t.count + 1 := by
  have hopen : (t.set fd (some e)).openFds = insert fd t.openFds := by
    ext fd'
    rw [Finset.mem_insert, mem_openFds, mem_openFds]
    by_cases hfd : fd' = fd
    · simp [hfd]
    · simp [hfd, get_set_of_ne t hfd]
  rw [count, hopen, Finset.card_insert_of_notMem, count]
  rw [mem_openFds, h]
  simp

/-- Putting something else in the place of an open descriptor. -/
theorem count_set_of_open {t : FdTable E} {fd : ℕ} (h : t.get fd ≠ none) (e : E) :
    (t.set fd (some e)).count = t.count := by
  refine congrArg Finset.card ?_
  ext fd'
  rw [mem_openFds, mem_openFds]
  by_cases hfd : fd' = fd
  · simp [hfd, h]
  · rw [get_set_of_ne t hfd]

/-- Closing a descriptor. -/
theorem count_set_none {t : FdTable E} {fd : ℕ} (h : t.get fd ≠ none) :
    (t.set fd none).count + 1 = t.count := by
  have hopen : (t.set fd none).openFds = t.openFds.erase fd := by
    ext fd'
    rw [Finset.mem_erase, mem_openFds, mem_openFds]
    by_cases hfd : fd' = fd
    · simp [hfd]
    · simp [hfd, get_set_of_ne t hfd]
  rw [count, hopen, Finset.card_erase_add_one (mem_openFds.mpr h), count]

end FdTable

end Concurrency
