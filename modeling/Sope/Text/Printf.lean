import Sope.Clients.FifoNames
import Sope.Text.Parsing

/-! # Formatted output

The conversions of `printf` that the log uses, each with the argument that it prints, and readers that get
the argument back. A number ends where no digit follows; a string is read by its width. -/

namespace Sope

open TextReader

/-- The bytes of a text. -/
def utf8 (s : String) : Bytes := s.toUTF8.data.toList

/-- The text, filled up with blanks on the left to a width. -/
def padStart (width : ℕ) (text : Bytes) : Bytes := List.replicate (width - text.length) 32 ++ text

/-- The text, filled up with blanks on the right to a width. -/
def padEnd (width : ℕ) (text : Bytes) : Bytes := text ++ List.replicate (width - text.length) 32

@[simp] theorem length_padStart (width : ℕ) (text : Bytes) :
    (padStart width text).length = max width text.length := by
  simp only [padStart, List.length_append, List.length_replicate]
  omega

@[simp] theorem length_padEnd (width : ℕ) (text : Bytes) :
    (padEnd width text).length = max width text.length := by
  simp only [padEnd, List.length_append, List.length_replicate]
  omega

/-- `%0*d`, of the word as an `int`: of a negative number the sign takes one place. -/
def formatD0 (width : ℕ) (n : UInt32) : Bytes :=
  if n.toNat < 2 ^ 31 then zeroPadded width n.toNat
  else 45 :: zeroPadded (width - 1) (2 ^ 32 - n.toNat)

/-- `%*d`, of the word as an `int`. -/
def formatD (width : ℕ) (n : UInt32) : Bytes := padStart width (formatD0 0 n)

/-- A part of a format: characters that stand for themselves, or a conversion with its argument. -/
inductive Part
  /-- Characters that stand for themselves. -/
  | chars (text : Bytes)
  /-- `%c`. -/
  | c (byte : UInt8)
  /-- `%*d`. -/
  | d (width : ℕ) (n : UInt32)
  /-- `%0*d`. -/
  | d0 (width : ℕ) (n : UInt32)
  /-- `%*u`. -/
  | u (width : ℕ) (n : UInt32)
  /-- `%lu`. -/
  | lu (n : UInt64)
  /-- `%*s`, or `%s` with width zero. With a negative width the blanks are on the right, as with `%-*s`. -/
  | s (width : ℤ) (string : Bytes)

namespace Part

/-- What the part prints. -/
def bytes : Part → Bytes
  | chars text => text
  | c byte => [byte]
  | d width n => formatD width n
  | d0 width n => formatD0 width n
  | u width n => padStart width (decimal n.toNat)
  | lu n => decimal n.toNat
  | s width string =>
      if 0 ≤ width then padStart width.toNat (cString string) else padEnd width.natAbs (cString string)

end Part

/-- What is printed. -/
def format (parts : List Part) : Bytes := parts.flatMap Part.bytes

@[simp] theorem format_nil : format [] = [] := rfl

@[simp] theorem format_cons (part : Part) (parts : List Part) :
    format (part :: parts) = part.bytes ++ format parts := rfl

@[simp] theorem format_append (parts parts' : List Part) :
    format (parts ++ parts') = format parts ++ format parts' := List.flatMap_append

/-- `vsnprintf`: what it leaves in the array, up to the NUL, and what it returns. -/
def vsnprintf (size : ℕ) (parts : List Part) : Bytes × ℕ :=
  ((format parts).take (size - 1), (format parts).length)

/-- What fits is not cut. -/
theorem vsnprintf_of_length_lt {size : ℕ} {parts : List Part} (h : (format parts).length < size) :
    vsnprintf size parts = (format parts, (format parts).length) := by
  rw [vsnprintf, List.take_of_length_le (by omega)]

/-! ## How long a text is -/

theorem length_decimal_le_ten (n : UInt32) : (decimal n.toNat).length ≤ 10 := by
  rw [length_decimal_le (by decide)]
  have := n.toNat_lt
  omega

theorem length_formatD0_le (width : ℕ) (n : UInt32) : (formatD0 width n).length ≤ max width 11 := by
  have h := n.toNat_lt
  have hneg : (decimal (2 ^ 32 - n.toNat)).length ≤ 10 := by
    rw [length_decimal_le (by decide)]
    omega
  unfold formatD0
  split
  · rw [length_zeroPadded]
    have := length_decimal_le_ten n
    omega
  · rw [List.length_cons, length_zeroPadded]
    omega

theorem le_length_formatD0 (width : ℕ) (n : UInt32) : width ≤ (formatD0 width n).length := by
  unfold formatD0
  split
  · rw [length_zeroPadded]
    omega
  · rw [List.length_cons, length_zeroPadded]
    omega

namespace Part

/-- The most bytes that the part may print. -/
def room : Part → ℕ
  | chars text => text.length
  | c _ => 1
  | d width _ | d0 width _ | u width _ => max width 11
  | lu _ => 20
  | s width string => max width.natAbs (cString string).length

/-- The bytes that the part prints at least. -/
def least : Part → ℕ
  | chars text => text.length
  | c _ => 1
  | d width _ | d0 width _ | u width _ => width
  | lu _ => 0
  | s width _ => width.natAbs

theorem length_bytes_le (part : Part) : part.bytes.length ≤ part.room := by
  cases part with
  | chars text => exact le_rfl
  | c byte => exact le_rfl
  | d width n =>
      have := length_formatD0_le 0 n
      show (padStart width (formatD0 0 n)).length ≤ max width 11
      rw [length_padStart]
      omega
  | d0 width n => exact length_formatD0_le width n
  | u width n =>
      have := length_decimal_le_ten n
      show (padStart width (decimal n.toNat)).length ≤ max width 11
      rw [length_padStart]
      omega
  | lu n =>
      show (decimal n.toNat).length ≤ 20
      rw [length_decimal_le (by decide)]
      have := n.toNat_lt
      omega
  | s width string =>
      show (if 0 ≤ width then _ else _ : Bytes).length ≤ max width.natAbs _
      split
      · rw [length_padStart]
        omega
      · rw [length_padEnd]

theorem least_le_length (part : Part) : part.least ≤ part.bytes.length := by
  cases part with
  | chars text => exact le_rfl
  | c byte => exact le_rfl
  | d width n =>
      show width ≤ (padStart width (formatD0 0 n)).length
      rw [length_padStart]
      omega
  | d0 width n => exact le_length_formatD0 width n
  | u width n =>
      show width ≤ (padStart width (decimal n.toNat)).length
      rw [length_padStart]
      omega
  | lu n => exact Nat.zero_le _
  | s width string =>
      show width.natAbs ≤ (if 0 ≤ width then _ else _ : Bytes).length
      split
      · rw [length_padStart]
        omega
      · rw [length_padEnd]
        omega

end Part

theorem length_format_le {parts : List Part} {k : ℕ} (h : ∀ part ∈ parts, part.room ≤ k) :
    (format parts).length ≤ k * parts.length := by
  induction parts with
  | nil => exact Nat.zero_le _
  | cons part parts ih =>
      have ih := ih fun part' hpart => h part' (.tail _ hpart)
      have hpart := part.length_bytes_le.trans (h part (.head _))
      rw [format_cons, List.length_append, List.length_cons, Nat.mul_succ]
      omega

theorem least_le_length_format (parts : List Part) : (parts.map Part.least).sum ≤ (format parts).length := by
  induction parts with
  | nil => exact le_rfl
  | cons part parts ih =>
      have := part.least_le_length
      rw [format_cons, List.length_append, List.map_cons, List.sum_cons]
      omega

/-! ## Which bytes do not occur -/

/-- Neither a digit, nor a sign, nor a blank. -/
def Rare (b : UInt8) : Prop := b.toNat < 48 ∧ b ≠ 45 ∧ b ≠ 32

instance (b : UInt8) : Decidable (Rare b) := inferInstanceAs (Decidable (_ ∧ _))

theorem Rare.notMem_decimal {b : UInt8} (hb : Rare b) (n : ℕ) : b ∉ decimal n := by
  intro h
  have := digit_of_mem_decimal h
  have := hb.1
  omega

theorem Rare.notMem_zeroPadded {b : UInt8} (hb : Rare b) (width n : ℕ) : b ∉ zeroPadded width n := by
  intro h
  have := digit_of_mem_zeroPadded h
  have := hb.1
  omega

theorem Rare.mem_padStart {b : UInt8} (hb : Rare b) {width : ℕ} {text : Bytes} :
    b ∈ padStart width text ↔ b ∈ text := by
  simp only [padStart, List.mem_append, List.mem_replicate, hb.2.2, and_false, false_or]

theorem Rare.mem_padEnd {b : UInt8} (hb : Rare b) {width : ℕ} {text : Bytes} :
    b ∈ padEnd width text ↔ b ∈ text := by
  simp only [padEnd, List.mem_append, List.mem_replicate, hb.2.2, and_false, or_false]

theorem Rare.notMem_formatD0 {b : UInt8} (hb : Rare b) (width : ℕ) (n : UInt32) : b ∉ formatD0 width n := by
  unfold formatD0
  split
  · exact hb.notMem_zeroPadded _ _
  · intro h
    rcases List.mem_cons.mp h with h | h
    · exact hb.2.1 h
    · exact hb.notMem_zeroPadded _ _ h

/-- The texts among the parts do not contain the byte. -/
def Part.Lacks (b : UInt8) : Part → Prop
  | .chars text => b ∉ text
  | .c byte => byte ≠ b
  | .d .. | .d0 .. | .u .. | .lu _ => True
  | .s _ string => b ∉ cString string

theorem Rare.notMem_bytes {b : UInt8} (hb : Rare b) {part : Part} (h : part.Lacks b) : b ∉ part.bytes := by
  cases part with
  | chars text => exact h
  | c byte => simpa [Part.bytes] using Ne.symm h
  | d width n => exact mt hb.mem_padStart.mp (hb.notMem_formatD0 0 n)
  | d0 width n => exact hb.notMem_formatD0 width n
  | u width n => exact mt hb.mem_padStart.mp (hb.notMem_decimal _)
  | lu n => exact hb.notMem_decimal _
  | s width string =>
      show b ∉ (if 0 ≤ width then _ else _ : Bytes)
      split
      · exact mt hb.mem_padStart.mp h
      · exact mt hb.mem_padEnd.mp h

theorem Rare.notMem_format {b : UInt8} (hb : Rare b) {parts : List Part} (h : ∀ part ∈ parts, part.Lacks b) :
    b ∉ format parts := by
  intro hmem
  obtain ⟨part, hpart, hmem⟩ := List.mem_flatMap.mp hmem
  exact hb.notMem_bytes (h part hpart) hmem

/-- A C string has no NUL. -/
theorem zero_notMem_cString (field : Bytes) : 0 ∉ cString field := by
  intro h
  have := List.mem_takeWhile_imp h
  simp at this

/-! ## Reading the arguments back -/

/-- Takes digits. -/
def readDigits : Reader UInt8 ℕ := digitsValue <$> spanning isDigit

/-- Takes blanks. -/
def readBlanks : Reader UInt8 Bytes := spanning (· = 32)

/-- Takes what `%0*d` has printed. -/
def readD0 : Reader UInt8 UInt32 := do
  if (← peek) = some 45 then
    literal [45]
    let n ← readDigits
    return 0 - UInt32.ofNat n
  else
    let n ← readDigits
    return UInt32.ofNat n

/-- Takes what `%*d` has printed. -/
def readD : Reader UInt8 UInt32 := do
  let _ ← readBlanks
  readD0

/-- Takes what `%*u` has printed. -/
def readU : Reader UInt8 UInt32 := do
  let _ ← readBlanks
  let n ← readDigits
  return UInt32.ofNat n

/-- Takes what `%lu` has printed. -/
def readLu : Reader UInt8 UInt64 := do
  let n ← readDigits
  return UInt64.ofNat n

theorem isDigit_of_mem_decimal {n : ℕ} {b : UInt8} (h : b ∈ decimal n) : isDigit b := by
  unfold decimal at h
  split at h
  · obtain rfl := List.mem_singleton.mp h
    decide
  · obtain ⟨d, hd, rfl⟩ := List.mem_map.mp h
    have hlt : d < 10 := Nat.digits_lt_base (by decide) (List.mem_reverse.mp hd)
    have hdigit := toNat_digit hlt
    simp only [isDigit, UInt8.le_iff_toNat_le, hdigit, decide_eq_true_eq]
    exact ⟨by simp, by simp; omega⟩

theorem isDigit_of_mem_zeroPadded {width n : ℕ} {b : UInt8} (h : b ∈ zeroPadded width n) : isDigit b := by
  rcases List.mem_append.mp h with h | h
  · obtain rfl := List.eq_of_mem_replicate h
    decide
  · exact isDigit_of_mem_decimal h

theorem zeroPadded_ne_nil (width n : ℕ) : zeroPadded width n ≠ [] := by
  intro h
  have hlen := congrArg List.length h
  rw [length_zeroPadded, List.length_nil] at hlen
  have : decimal n = [] := List.length_eq_zero_iff.mp (by omega)
  unfold decimal at this
  split at this
  · cases this
  · next hn =>
      rw [List.map_eq_nil_iff, List.reverse_eq_nil_iff, Nat.digits_eq_nil_iff_eq_zero] at this
      exact hn this

/-- Digits are read as their number, with zeros in front or without. -/
theorem takes_readDigits (width n : ℕ) : Takes readDigits (zeroPadded width n) n (Stops isDigit) := by
  have hdigits : ∀ b ∈ zeroPadded width n, isDigit b := fun b hb => isDigit_of_mem_zeroPadded hb
  have h := (takes_spanning hdigits).map (f := digitsValue)
  rwa [digitsValue_zeroPadded] at h

/-- `%0*d` is read as the word that was printed. -/
theorem takes_readD0 (width : ℕ) (n : UInt32) : Takes readD0 (formatD0 width n) n (Stops isDigit) := by
  have hlt := n.toNat_lt
  unfold formatD0
  split
  · obtain ⟨b, text, htext⟩ := List.exists_cons_of_ne_nil (zeroPadded_ne_nil width n.toNat)
    have hb : some b ≠ some 45 := by
      intro hb
      have hdigit : isDigit b := isDigit_of_mem_zeroPadded (htext ▸ List.mem_cons_self)
      rw [Option.some.inj hb] at hdigit
      exact absurd hdigit (by decide)
    have hread := takes_readDigits width n.toNat
    rw [htext] at hread ⊢
    refine Takes.peek (fun rest _ => rfl) ?_
    rw [if_neg hb]
    have hend := hread.map (f := UInt32.ofNat)
    rw [UInt32.ofNat_toNat] at hend
    exact hend
  · refine Takes.peek (fun rest _ => rfl) ?_
    rw [if_pos rfl]
    have hend := (takes_readDigits (width - 1) (2 ^ 32 - n.toNat)).map (f := fun k => 0 - UInt32.ofNat k)
    have hback : 0 - UInt32.ofNat (2 ^ 32 - n.toNat) = n := by
      apply UInt32.toNat_inj.mp
      rw [UInt32.toNat_sub, UInt32.toNat_ofNat']
      simp
      omega
    rw [hback] at hend
    exact (takes_literal [45]).bind hend fun _ _ => trivial

/-- Digits are no blanks. -/
theorem stops_blanks_zeroPadded (width n : ℕ) (rest : Bytes) :
    Stops (fun b => decide (b = 32)) (zeroPadded width n ++ rest) := by
  obtain ⟨b, text, htext⟩ := List.exists_cons_of_ne_nil (zeroPadded_ne_nil width n)
  have hdigit : isDigit b := isDigit_of_mem_zeroPadded (htext ▸ List.mem_cons_self)
  rw [htext, List.cons_append, stops_cons, decide_eq_false_iff_not]
  rintro rfl
  exact absurd hdigit (by decide)

theorem stops_blanks_formatD0 (width : ℕ) (n : UInt32) (rest : Bytes) :
    Stops (fun b => decide (b = 32)) (formatD0 width n ++ rest) := by
  unfold formatD0
  split
  · exact stops_blanks_zeroPadded _ _ _
  · exact stops_cons.mpr rfl

/-- The blanks in front are read. -/
theorem takes_readBlanks (k : ℕ) :
    Takes readBlanks (List.replicate k 32) (List.replicate k 32) (Stops fun b => decide (b = 32)) := by
  apply takes_spanning
  intro b hb
  simp [List.eq_of_mem_replicate hb]

/-- `%*d` is read as the word that was printed. -/
theorem takes_readD (width : ℕ) (n : UInt32) : Takes readD (formatD width n) n (Stops isDigit) := by
  apply (takes_readBlanks _).bind (takes_readD0 0 n)
  intro rest _
  exact stops_blanks_formatD0 0 n rest

theorem zeroPadded_zero (n : ℕ) : zeroPadded 0 n = decimal n := by
  simp [zeroPadded]

/-- `%*u` is read as the word that was printed. -/
theorem takes_readU (width : ℕ) (n : UInt32) :
    Takes readU (padStart width (decimal n.toNat)) n (Stops isDigit) := by
  have hread := (takes_readDigits 0 n.toNat).map (f := UInt32.ofNat)
  rw [UInt32.ofNat_toNat, zeroPadded_zero] at hread
  apply (takes_readBlanks _).bind hread
  intro rest _
  rw [← zeroPadded_zero]
  exact stops_blanks_zeroPadded 0 n.toNat rest

/-- `%lu` is read as the number that was printed. -/
theorem takes_readLu (n : UInt64) : Takes readLu (decimal n.toNat) n (Stops isDigit) := by
  have hread := (takes_readDigits 0 n.toNat).map (f := UInt64.ofNat)
  rwa [UInt64.ofNat_toNat, zeroPadded_zero] at hread

end Sope
