import Mathlib.Data.List.TakeWhile
import Mathlib.Tactic.Common

/-! # Arrays of characters

The memory from the beginning of an array on, with how far it has been written. The array has no end here:
whether the writes stayed inside it is a question about `Buffer.reach`, asked afterwards.

* `stringOf` — the string that begins where memory does;
* `Buffer.strcpy`, `Buffer.strcat` — the library's functions, as the bytes that they store. -/

namespace Memory

/-- The string at the beginning of memory: what stands before the first NUL. -/
def stringOf (memory : List UInt8) : List UInt8 := memory.takeWhile (· ≠ 0)

/-- A string is read up to its NUL. -/
theorem stringOf_append {text : List UInt8} (h : 0 ∉ text) (rest : List UInt8) :
    stringOf (text ++ 0 :: rest) = text := by
  induction text with
  | nil => simp [stringOf]
  | cons b text ih =>
      have hb : b ≠ 0 := fun h0 => h (by simp [h0])
      have ih := ih fun h0 => h (List.mem_cons_of_mem b h0)
      simp only [stringOf, List.cons_append] at ih ⊢
      rw [List.takeWhile_cons_of_pos (by simpa using hb), ih]

/-- An array and what lies behind it. -/
structure Buffer where
  /-- The bytes, from the beginning of the array on. -/
  content : List UInt8
  /-- The number of bytes from the beginning that contains all that have been written. -/
  reach : ℕ

namespace Buffer

/-- A new array, in memory that holds anything. -/
def fresh (memory : List UInt8) : Buffer := ⟨memory, 0⟩

/-- Bytes are written, from an offset on. -/
def store (b : Buffer) (offset : ℕ) (bytes : List UInt8) : Buffer :=
  { content := b.content.take offset ++ bytes ++ b.content.drop (offset + bytes.length)
    reach := max b.reach (offset + bytes.length) }

/-- The string in the array. -/
def string (b : Buffer) : List UInt8 := stringOf b.content

/-- `strcpy`, and `sprintf` when it makes this text. -/
def strcpy (b : Buffer) (text : List UInt8) : Buffer := b.store 0 (text ++ [0])

/-- `strcat`. -/
def strcat (b : Buffer) (text : List UInt8) : Buffer := b.store b.string.length (text ++ [0])

@[simp] theorem reach_fresh (memory : List UInt8) : (fresh memory).reach = 0 := rfl

@[simp] theorem reach_strcpy (b : Buffer) (text : List UInt8) :
    (b.strcpy text).reach = max b.reach (text.length + 1) := by
  simp [strcpy, store]

@[simp] theorem reach_strcat (b : Buffer) (text : List UInt8) :
    (b.strcat text).reach = max b.reach (b.string.length + (text.length + 1)) := by
  simp [strcat, store]

/-- `strcpy` copies the string. -/
theorem string_strcpy (b : Buffer) {text : List UInt8} (h : 0 ∉ text) : (b.strcpy text).string = text := by
  simp only [strcpy, store, string, List.take_zero, List.nil_append, List.append_assoc, List.singleton_append]
  exact stringOf_append h _

/-- `strcat` appends the string. -/
theorem string_strcat (b : Buffer) {text : List UInt8} (h : 0 ∉ text) :
    (b.strcat text).string = b.string ++ text := by
  have hzero : 0 ∉ b.string := fun h0 => by simpa using List.mem_takeWhile_imp h0
  have htake : b.content.take b.string.length = b.string := by
    rw [string, stringOf]
    exact (List.prefix_iff_eq_take.mp (List.takeWhile_prefix _)).symm
  have happend : 0 ∉ b.string ++ text := by simp [hzero, h]
  rw [strcat, store, string, htake]
  simp only [List.append_assoc, List.singleton_append]
  rw [← List.append_assoc]
  exact stringOf_append happend _

end Buffer

end Memory
