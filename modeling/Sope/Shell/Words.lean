import Mathlib.Tactic.Common

/-! # The words of a shell command

Commands that the shell takes as they stand: one simple command, made of blanks, unquoted characters, and
quotes around others. `simpleCommand` reads the words of such a command, and has no value for any other one,
with an expansion, a substitution, a pattern, an operator, a comment or an open quote.

* `Literal` — the texts that keep their meaning between double quotes;
* `words_double` — such a text, between double quotes, is one word with the same characters;
* `literal_of_words_double` — every other text comes to nothing or to fewer characters. -/

namespace Shell

/-- Where the reader is. -/
inductive Mode
  /-- Outside quotes. -/
  | unquoted
  /-- Behind a backslash outside quotes. -/
  | escaped
  /-- Between double quotes. -/
  | double
  /-- Behind a backslash between double quotes that is special. -/
  | doubleEscaped
  /-- Between single quotes. -/
  | single

/-- Blank and tab. -/
def blanks : List UInt8 := [9, 32]

/-- Newline and ``! # $ % & ( ) * ; < = > ? [ ` { | } ~``, which are or may be special outside quotes. -/
def specials : List UInt8 :=
  [10, 33, 35, 36, 37, 38, 40, 41, 42, 59, 60, 61, 62, 63, 91, 96, 123, 124, 125, 126]

/-- ``$ ` " \`` and newline: between double quotes a backslash is special before these. -/
def escapable : List UInt8 := [36, 96, 34, 92, 10]

/-- A dollar sign before this character begins an expansion: a digit, a letter, `_`, one of `@ * # ? - $ !`,
`{` or `(`. -/
def beginsExpansion (c : UInt8) : Bool :=
  (48 ≤ c && c ≤ 57) || (65 ≤ c && c ≤ 90) || (97 ≤ c && c ≤ 122) ||
    [95, 64, 42, 35, 63, 45, 36, 33, 123, 40].contains c

/-- A dollar sign between double quotes, before this text, stands for itself. The standard does not say what
a dollar sign is that begins no expansion: `lenient` if the shell takes it for itself. -/
def dollarIsLiteral (lenient : Bool) (rest : List UInt8) : Bool := lenient && !rest.head?.any beginsExpansion

/-- A backslash between double quotes, before this text, is special. -/
def backslashIsSpecial (rest : List UInt8) : Bool := rest.head?.any escapable.contains

/-- One more character in a word. -/
def push (word : Option (List UInt8)) (c : UInt8) : Option (List UInt8) := some (word.getD [] ++ [c])

/-- The words from here on. The word that has been begun is `none` between two words. -/
def words (lenient : Bool) : Mode → Option (List UInt8) → List UInt8 → Option (List (List UInt8))
  | .unquoted, word, [] => some word.toList
  | .unquoted, word, c :: rest =>
      if c ∈ blanks then (words lenient .unquoted none rest).map (word.toList ++ ·)
      else if c = 34 then words lenient .double (some (word.getD [])) rest
      else if c = 39 then words lenient .single (some (word.getD [])) rest
      else if c = 92 then words lenient .escaped word rest
      else if c ∈ specials then none
      else words lenient .unquoted (push word c) rest
  | .escaped, word, c :: rest =>
      -- backslash and newline are removed
      if c = 10 then words lenient .unquoted word rest else words lenient .unquoted (push word c) rest
  | .double, word, c :: rest =>
      if c = 34 then words lenient .unquoted word rest
      else if c = 96 then none
      else if c = 36 then
        if dollarIsLiteral lenient rest then words lenient .double (push word c) rest else none
      else if c = 92 ∧ backslashIsSpecial rest then words lenient .doubleEscaped word rest
      else words lenient .double (push word c) rest
  | .doubleEscaped, word, c :: rest =>
      if c = 10 then words lenient .double word rest else words lenient .double (push word c) rest
  | .single, word, c :: rest =>
      if c = 39 then words lenient .unquoted word rest else words lenient .single (push word c) rest
  | _, _, [] => none

/-- The words of a simple command that is taken as it stands. -/
def simpleCommand (lenient : Bool) (command : List UInt8) : Option (List (List UInt8)) :=
  words lenient .unquoted none command

/-- A text that keeps its meaning between double quotes. -/
def Literal (lenient : Bool) : List UInt8 → Prop
  | [] => True
  | c :: rest => c ≠ 34 ∧ c ≠ 96 ∧ (c = 36 → dollarIsLiteral lenient rest = true) ∧
      (c = 92 → rest ≠ [] ∧ backslashIsSpecial rest = false) ∧ Literal lenient rest

instance decidableLiteral (lenient : Bool) : (text : List UInt8) → Decidable (Literal lenient text)
  | [] => inferInstanceAs (Decidable True)
  | _ :: rest => have := decidableLiteral lenient rest; inferInstanceAs (Decidable (_ ∧ _))

/-! ## How long the words are -/

/-- The number of characters in all words. -/
def size (ws : List (List UInt8)) : ℕ := ws.flatten.length

@[simp] theorem size_nil : size [] = 0 := rfl

@[simp] theorem size_cons (w : List UInt8) (ws : List (List UInt8)) : size (w :: ws) = w.length + size ws := by
  simp [size]

/-- The number of characters of the word that has been begun. -/
def begun (word : Option (List UInt8)) : ℕ := (word.getD []).length

@[simp] theorem begun_none : begun none = 0 := rfl

@[simp] theorem begun_some (w : List UInt8) : begun (some w) = w.length := rfl

@[simp] theorem begun_push (word : Option (List UInt8)) (c : UInt8) : begun (push word c) = begun word + 1 := by
  simp [begun, push]

@[simp] theorem length_getD (word : Option (List UInt8)) : (word.getD []).length = begun word := rfl

/-- The number of quotes that are still needed. -/
def Mode.closing : Mode → ℕ
  | .unquoted | .escaped => 0
  | .double | .doubleEscaped | .single => 1

variable {lenient : Bool}

/-- Blanks end the word. -/
theorem size_blank {word : Option (List UInt8)} {ws : List (List UInt8)} :
    size (word.toList ++ ws) = begun word + size ws := by
  cases word <;> simp

/-- The words have at most the characters of the text, and the closing quote is none of them. -/
theorem size_words_le {text : List UInt8} {mode : Mode} {word : Option (List UInt8)} {ws : List (List UInt8)}
    (h : words lenient mode word text = some ws) : size ws + mode.closing ≤ begun word + text.length := by
  induction text generalizing mode word ws with
  | nil =>
      cases mode with
      | unquoted =>
          obtain rfl := Option.some.inj h
          cases word <;> simp [Mode.closing]
      | _ => exact absurd h (by simp [words])
  | cons c rest ih =>
      cases mode with
      | unquoted =>
          simp only [words] at h
          split_ifs at h
          · obtain ⟨ws', hws', rfl⟩ := Option.map_eq_some_iff.mp h
            have := ih hws'
            rw [size_blank]
            simp [Mode.closing] at this ⊢
            omega
          all_goals
            have := ih h
            simp [Mode.closing] at this ⊢
            omega
      | _ =>
          simp only [words] at h
          split_ifs at h
          all_goals
            have := ih h
            simp [Mode.closing] at this ⊢
            omega

/-- A double quote outside quotes is lost. -/
theorem size_words_lt {text : List UInt8} {word : Option (List UInt8)} {ws : List (List UInt8)}
    (hquote : 34 ∈ text) (h : words lenient .unquoted word text = some ws) :
    size ws < begun word + text.length := by
  induction text generalizing word ws with
  | nil => simp at hquote
  | cons c rest ih =>
      simp only [words] at h
      split_ifs at h with hblank hdouble hsingle hescape hspecial
      · obtain ⟨ws', hws', rfl⟩ := Option.map_eq_some_iff.mp h
        have := size_words_le hws'
        rw [size_blank]
        simp [Mode.closing] at this ⊢
        omega
      · have := size_words_le h
        simp [Mode.closing] at this ⊢
        omega
      · have := size_words_le h
        simp [Mode.closing] at this ⊢
        omega
      · have := size_words_le h
        simp [Mode.closing] at this ⊢
        omega
      · -- the character is kept, and the quote is further on
        have hrest : 34 ∈ rest := by
          rcases List.mem_cons.mp hquote with rfl | hrest
          · exact absurd rfl hdouble
          · exact hrest
        have := ih hrest h
        simp at this ⊢
        omega

/-! ## Between double quotes -/

/-- A special backslash between double quotes is lost. -/
theorem size_words_doubleEscaped {text : List UInt8} {word : Option (List UInt8)} {ws : List (List UInt8)}
    (h : words lenient .doubleEscaped word text = some ws) : size ws + 1 ≤ begun word + text.length :=
  size_words_le h

/-- What the character before the end is followed by. -/
theorem head?_append_quote {rest : List UInt8} (h : rest ≠ []) : (rest ++ [34]).head? = rest.head? := by
  cases rest with
  | nil => exact absurd rfl h
  | cons c rest => rfl

theorem dollarIsLiteral_append (rest : List UInt8) :
    dollarIsLiteral lenient (rest ++ [34]) = dollarIsLiteral lenient rest := by
  cases rest <;> rfl

/-- **A literal text between double quotes is one word.** -/
theorem words_double {text : List UInt8} (h : Literal lenient text) (word : List UInt8) :
    words lenient .double (some word) (text ++ [34]) = some [word ++ text] := by
  induction text generalizing word with
  | nil => simp [words]
  | cons c rest ih =>
      obtain ⟨hquote, hback, hdollar, hslash, hrest⟩ := h
      have ih := ih hrest (word ++ [c])
      rw [List.append_assoc, List.singleton_append] at ih
      rw [List.cons_append, words, if_neg hquote, if_neg hback, dollarIsLiteral_append]
      by_cases hc : c = 36
      · rw [if_pos hc, if_pos (hdollar hc)]
        exact ih
      · rw [if_neg hc, if_neg]
        · exact ih
        · rintro ⟨rfl, hspecial⟩
          obtain ⟨hne, hfalse⟩ := hslash rfl
          rw [backslashIsSpecial, head?_append_quote hne] at hspecial
          exact absurd (hspecial.symm.trans hfalse) (by decide)

/-- **Every other text is not.** If the words have as many characters as the text between the quotes, then it
is literal. -/
theorem literal_of_words_double {text : List UInt8} {word : Option (List UInt8)} {ws : List (List UInt8)}
    (h : words lenient .double word (text ++ [34]) = some ws) (hsize : begun word + text.length ≤ size ws) :
    Literal lenient text := by
  induction text generalizing word with
  | nil => trivial
  | cons c rest ih =>
      rw [List.cons_append, words, dollarIsLiteral_append] at h
      rw [List.length_cons] at hsize
      split_ifs at h with hquote hback hdollar hliteral hslash
      · -- the quoting ends here, and the last quote is outside
        have := size_words_lt (by simp) h
        simp at this
        omega
      · refine ⟨hquote, hback, fun _ => hliteral, fun hc => ?_, ih h (by simp; omega)⟩
        exact absurd (hdollar.symm.trans hc) (by decide)
      · have := size_words_doubleEscaped h
        simp at this
        omega
      · refine ⟨hquote, hback, fun hc => absurd hc hdollar, fun hc => ?_, ih h (by simp; omega)⟩
        have hspecial : backslashIsSpecial (rest ++ [34]) = false :=
          Bool.eq_false_iff.mpr fun hspecial => hslash ⟨hc, hspecial⟩
        have hne : rest ≠ [] := by
          rintro rfl
          exact absurd hspecial (by decide)
        rw [backslashIsSpecial, head?_append_quote hne] at hspecial
        exact ⟨hne, hspecial⟩

/-- **Double quotes around a text.** The text comes out as one word exactly if it is literal. -/
theorem words_double_iff (text : List UInt8) :
    words lenient .double (some []) (text ++ [34]) = some [text] ↔ Literal lenient text := by
  constructor
  · intro h
    exact literal_of_words_double h (by simp)
  · intro h
    exact words_double h []

end Shell
