import Mathlib.Data.List.Infix
import Mathlib.Tactic.Common

/-! # Reading what has been written

A reader takes the front of a list of tokens and gives a value, or fails. It `Takes` a text as a value if
it takes just this text, whatever comes after it, as long as that is something that may follow.

* `Takes.bind` — one text after the other.
* `literal`, `block`, `spanning`, `peek`, `among`, `longest` — the readers, with what they read.
* `readAll` — a reader over and over, until nothing is left; `readAll_of_takes` is what it reads. -/

namespace TextReader

variable {σ α β : Type}

/-- A reader of a list of tokens: what it has read, and what is left. -/
abbrev Reader (σ α : Type) := StateT (List σ) Option α

/-- The reader takes the text for the value, if what follows is something that may follow. -/
def Takes (r : Reader σ α) (text : List σ) (a : α) (next : List σ → Prop) : Prop :=
  ∀ rest, next rest → r.run (text ++ rest) = some (a, rest)

namespace Takes

variable {r : Reader σ α} {text text' : List σ} {a : α} {b : β} {next next' : List σ → Prop}

/-- Less may follow. -/
theorem mono (h : Takes r text a next) (hnext : ∀ rest, next' rest → next rest) : Takes r text a next' := by
  intro rest hrest
  exact h rest (hnext rest hrest)

/-- Nothing is read. -/
theorem pure (a : α) : Takes (Pure.pure a : Reader σ α) [] a next := by
  intro rest _
  rfl

/-- One text after the other. -/
theorem bind {f : α → Reader σ β} (h : Takes r text a next) (hf : Takes (f a) text' b next')
    (hnext : ∀ rest, next' rest → next (text' ++ rest)) : Takes (r >>= f) (text ++ text') b next' := by
  intro rest hrest
  show (r >>= f).run (text ++ text' ++ rest) = some (b, rest)
  rw [StateT.run_bind, List.append_assoc, h _ (hnext rest hrest)]
  exact hf rest hrest

/-- The value is made of what has been read last. -/
theorem bind_pure {f : α → β} (h : Takes r text a next) :
    Takes (r >>= fun a => Pure.pure (f a)) text (f a) next := by
  intro rest hrest
  rw [StateT.run_bind, h rest hrest]
  rfl

/-- The reader of what the value is made of. -/
theorem map {f : α → β} (h : Takes r text a next) : Takes (f <$> r) text (f a) next := by
  intro rest hrest
  rw [StateT.run_map, h rest hrest]
  rfl

end Takes

/-! ## Fixed texts and fixed lengths -/

/-- Takes just this text. -/
def literal [DecidableEq σ] (mark : List σ) : Reader σ Unit := fun input =>
  if mark <+: input then some ((), input.drop mark.length) else none

theorem takes_literal [DecidableEq σ] (mark : List σ) : Takes (literal mark) mark () fun _ => True := by
  intro rest _
  show (if mark <+: mark ++ rest then _ else _) = _
  rw [if_pos (List.prefix_append mark rest), List.drop_left]

/-- Something else is not read. -/
theorem literal_eq_none [DecidableEq σ] {mark input : List σ} (h : ¬ mark <+: input) :
    (literal mark).run input = none := if_neg h

/-- Takes so many tokens. -/
def block (n : ℕ) : Reader σ (List σ) := fun input =>
  if n ≤ input.length then some (input.splitAt n) else none

theorem takes_block {n : ℕ} {text : List σ} (h : text.length = n) :
    Takes (block n) text text fun _ => True := by
  subst h
  intro rest _
  show (if text.length ≤ (text ++ rest).length then _ else _) = _
  rw [if_pos (by simp), List.splitAt_eq, List.take_left, List.drop_left]

/-- Looks at the next token. -/
def peek : Reader σ (Option σ) := fun input => some (input.head?, input)

/-- What comes next decides how the reading goes on. -/
theorem Takes.peek {f : Option σ → Reader σ β} {text : List σ} {b : β} {next : List σ → Prop} {c : σ}
    (hc : ∀ rest, next rest → (text ++ rest).head? = some c) (hf : Takes (f (some c)) text b next) :
    Takes (peek >>= f) text b next := by
  intro rest hrest
  show (f (text ++ rest).head?).run (text ++ rest) = some (b, rest)
  rw [hc rest hrest]
  exact hf rest hrest

/-! ## Texts that end where they must -/

/-- Takes the tokens of a kind. -/
def spanning (p : σ → Bool) : Reader σ (List σ) := fun input => some (input.takeWhile p, input.dropWhile p)

/-- What follows does not go on with tokens of the kind. -/
def Stops (p : σ → Bool) (rest : List σ) : Prop := ∀ c ∈ rest.head?, ¬ p c

@[simp] theorem stops_cons {p : σ → Bool} {c : σ} {rest : List σ} : Stops p (c :: rest) ↔ p c = false := by
  simp [Stops]

theorem takes_spanning {p : σ → Bool} {text : List σ} (h : ∀ c ∈ text, p c) :
    Takes (spanning p) text text (Stops p) := by
  intro rest hrest
  show some ((text ++ rest).takeWhile p, (text ++ rest).dropWhile p) = _
  rw [List.takeWhile_append_of_pos h, List.dropWhile_append_of_pos h]
  cases rest with
  | nil => simp
  | cons c rest =>
      rw [stops_cons] at hrest
      simp [hrest]

/-- Gives the value that is written so. -/
def among [DecidableEq σ] (values : List α) (write : α → List σ) (text : List σ) : Reader σ α :=
  match values.find? fun a => write a = text with
  | some a => pure a
  | none => failure

theorem takes_among [DecidableEq σ] {values : List α} {write : α → List σ} {a : α}
    (hinj : Function.Injective write) (ha : a ∈ values) :
    Takes (among values write (write a)) [] a fun _ => True := by
  have hfind : values.find? (fun b => decide (write b = write a)) = some a := by
    obtain ⟨b, hb⟩ : ∃ b, values.find? (fun b => decide (write b = write a)) = some b := by
      rw [← Option.isSome_iff_exists, List.find?_isSome]
      exact ⟨a, ha, by simp⟩
    have hwrite := List.find?_some hb
    rw [hb, hinj (of_decide_eq_true hwrite)]
  unfold among
  rw [hfind]
  exact Takes.pure a

/-! ## Texts that end with a mark -/

/-- Takes the longest text of at most so many tokens that has `stop` behind it, and `stop`. -/
def longest (stop : Reader σ Unit) : ℕ → Reader σ (List σ)
  | 0, input => (stop.run input).map fun x => ([], x.2)
  | n + 1, input =>
      match input with
      | [] => (stop.run []).map fun x => ([], x.2)
      | c :: input' =>
          match longest stop n input' with
          | some (text, rest) => some (c :: text, rest)
          | none => (stop.run input).map fun x => ([], x.2)

/-- Without a mark there is nothing to read. -/
theorem longest_eq_none {stop : Reader σ Unit} {n : ℕ} {input : List σ}
    (h : ∀ k ≤ n, stop.run (input.drop k) = none) : longest stop n input = none := by
  induction n generalizing input with
  | zero =>
      have h := h 0 le_rfl
      rw [List.drop_zero] at h
      simp [longest, h]
  | succ n ih =>
      have h0 := h 0 (Nat.zero_le _)
      rw [List.drop_zero] at h0
      cases input with
      | nil => simp [longest, h0]
      | cons c input =>
          have hlater : longest stop n input = none := by
            apply ih
            intro k hk
            exact h (k + 1) (by omega)
          simp [longest, hlater, h0]

/-- The mark that is the last one within reach ends the text. -/
theorem takes_longest {stop : Reader σ Unit} {mark text : List σ} {n : ℕ} {next : List σ → Prop}
    (hstop : Takes stop mark () next) (hlen : text.length ≤ n)
    (hlast : ∀ rest, next rest → ∀ k, 0 < k → k + text.length ≤ n →
      stop.run ((mark ++ rest).drop k) = none) :
    Takes (longest stop n) (text ++ mark) text next := by
  intro rest hrest
  show longest stop n (text ++ mark ++ rest) = some (text, rest)
  induction text generalizing n with
  | nil =>
      cases n with
      | zero => simp [longest, hstop rest hrest]
      | succ n =>
          have hend := hstop rest hrest
          have hlater := hlast rest hrest
          rw [List.nil_append]
          generalize mark ++ rest = input at hend hlater
          cases input with
          | nil => simp [longest, hend]
          | cons c input =>
              have hnone : longest stop n input = none := by
                apply longest_eq_none
                intro k hk
                exact hlater (k + 1) (by omega) (by simp; omega)
              simp [longest, hnone, hend]
  | cons c text ih =>
      cases n with
      | zero => simp at hlen
      | succ n =>
          have ih := ih (n := n) (by simpa using hlen) fun rest hrest k hk hle =>
            hlast rest hrest k hk (by simp; omega)
          rw [List.cons_append, List.cons_append, longest, ih]

/-! ## Over and over -/

/-- Takes values until nothing is left, at most so many. -/
def readUpTo (r : Reader σ α) : ℕ → List σ → Option (List α)
  | _, [] => some []
  | 0, _ :: _ => none
  | n + 1, input => do
      let (a, rest) ← r.run input
      let values ← readUpTo r n rest
      return a :: values

/-- Takes values until nothing is left; each takes at least one token. -/
def readAll (r : Reader σ α) (input : List σ) : Option (List α) := readUpTo r input.length input

/-- **Texts that may follow each other are read one by one.** -/
theorem readAll_of_takes {r : Reader σ α} {next : List σ → Prop} {lines : List (List σ × α)}
    (htakes : ∀ line ∈ lines, Takes r line.1 line.2 next) (hne : ∀ line ∈ lines, line.1 ≠ [])
    (hnil : next []) (hnext : ∀ line ∈ lines, ∀ rest, next (line.1 ++ rest)) :
    readAll r (lines.flatMap Prod.fst) = some (lines.map Prod.snd) := by
  suffices h : ∀ n, (lines.flatMap Prod.fst).length ≤ n →
      readUpTo r n (lines.flatMap Prod.fst) = some (lines.map Prod.snd) from h _ le_rfl
  induction lines with
  | nil =>
      intro n _
      cases n <;> rfl
  | cons line lines ih =>
      intro n hn
      obtain ⟨c, text, hline⟩ := List.exists_cons_of_ne_nil (hne line (.head _))
      have ih := ih (fun l hl => htakes l (.tail _ hl)) (fun l hl => hne l (.tail _ hl))
        fun l hl => hnext l (.tail _ hl)
      have hrest : next (lines.flatMap Prod.fst) := by
        cases lines with
        | nil => exact hnil
        | cons line' lines => exact hnext line' (.tail _ (.head _)) _
      have hread := htakes line (.head _) _ hrest
      rw [hline] at hread
      rw [List.flatMap_cons, hline] at hn ⊢
      rw [List.length_append, List.length_cons] at hn
      cases n with
      | zero => omega
      | succ n =>
          rw [List.cons_append] at hread ⊢
          simp [readUpTo, hread, ih n (by omega)]

end TextReader
