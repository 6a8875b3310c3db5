import Mathlib.Data.DFinsupp.WellFounded
import Sope.Concurrency.System

/-! # What must happen

A safety property says what no run does. Here is the other kind: whatever the threads of a system do
next, and in whatever order, they come to a state as described, and they do not stop before.

* `Inevitable` — on every way on from here, at some time.
* `inevitable_of_wellFounded` — the rule: every step before that time lowers a rank, and there is one.
* `System.StepOf`, `System.Turn` — the steps of one thread, and one step of some of the threads after
  any moves of the surroundings. -/

namespace Concurrency

/-! ## On all ways, at some time -/

section Inevitable

variable {α β ι : Type*} {Step : α → α → Prop} {P : α → Prop} {a : α}

/-- Every sequence of steps from here comes to a place where `P` holds, and can be continued until
then. -/
inductive Inevitable (Step : α → α → Prop) (P : α → Prop) : α → Prop
  /-- Here is such a place. -/
  | here {a : α} (holds : P a) : Inevitable Step P a
  /-- There is a next step, and after every next step it is inevitable. -/
  | later {a : α} (goes : ∃ b, Step a b) (all : ∀ b, Step a b → Inevitable Step P b) :
      Inevitable Step P a

/-- **The rule of progress.** Where `I` holds and `P` does not, there is a step, and every step leads to
`P`, or keeps `I` and lowers the rank. -/
theorem inevitable_of_wellFounded {r : β → β → Prop} (hr : WellFounded r) (rank : α → β) {I : α → Prop}
    (hgoes : ∀ a, I a → ¬ P a → ∃ b, Step a b)
    (hstep : ∀ a b, I a → ¬ P a → Step a b → P b ∨ I b ∧ r (rank b) (rank a)) (ha : I a) :
    Inevitable Step P a := by
  induction hb : rank a using hr.induction generalizing a with
  | h x ih =>
      subst hb
      by_cases hP : P a
      · exact .here hP
      · apply Inevitable.later (hgoes a ha hP)
        intro b hab
        rcases hstep a b ha hP hab with hb | ⟨hb, hlt⟩
        · exact .here hb
        · exact ih _ hlt hb rfl

/-- One value of a family is lowered, and the others stay. -/
def LowersOne (r : ι → β → β → Prop) (f g : ι → β) : Prop :=
  ∃ i, r i (f i) (g i) ∧ ∀ j, j ≠ i → f j = g j

/-- The values of a finite family cannot be lowered for ever. -/
theorem wellFounded_lowersOne [LinearOrder ι] [Finite ι] {r : ι → β → β → Prop}
    (hr : ∀ i, WellFounded (r i)) : WellFounded (LowersOne r) := by
  have hlex : WellFounded (Pi.Lex (· < ·) fun {i : ι} => r i) := Pi.Lex.wellFounded (· < ·) hr
  refine Subrelation.wf (fun {f g} h => ?_) hlex
  obtain ⟨i, hi, hother⟩ := h
  exact ⟨i, fun j hj => hother j (ne_of_lt hj), hi⟩

end Inevitable

/-! ## The steps of some threads -/

namespace System

variable {Tid Op : Type} {Res : Op → Type} {σ Ctl : Type} [DecidableEq Tid]

/-- One step of the thread `t`, with the operation performed, if any. -/
inductive StepOf (S : System Tid Op Res σ Ctl) (t : Tid) :
    Config Tid Op Res σ Ctl → Option (Event Tid Op Res σ) → Config Tid Op Res σ Ctl → Prop
  /-- It performs its next operation. -/
  | exec {c : Config Tid Op Res σ Ctl} {o : Op} {k : Res o → Prog Op Res Ctl} {r : Res o} {s' : σ}
      (prog : c.prog t = .op o k) (sem : S.sem t o c.shared r s') :
      StepOf S t c (some ⟨t, o, r, c.shared⟩) ⟨s', Function.update c.prog t (k r)⟩
  /-- It goes round its loop. -/
  | loop {c : Config Tid Op Res σ Ctl} {x : Ctl} (prog : c.prog t = .ret x) :
      StepOf S t c none ⟨c.shared, Function.update c.prog t (S.body t x)⟩
  /-- It is taken away from its next operation. -/
  | divert {c : Config Tid Op Res σ Ctl} {o : Op} {k : Res o → Prog Op Res Ctl} {x : Ctl} {s' : σ}
      (prog : c.prog t = .op o k) (divert : S.divert t o c.shared x s') :
      StepOf S t c none ⟨s', Function.update c.prog t (.ret x)⟩

variable {S : System Tid Op Res σ Ctl} {t : Tid} {c c' : Config Tid Op Res σ Ctl}
  {e : Option (Event Tid Op Res σ)}

/-- It is a step of the system. -/
theorem StepOf.step (h : S.StepOf t c e c') : S.Step c e c' := by
  cases h with
  | exec hp hs => exact .exec hp hs
  | loop hp => exact .loop hp
  | divert hp hd => exact .divert hp hd

/-- It changes no other thread's program. -/
theorem StepOf.prog_of_ne (h : S.StepOf t c e c') {u : Tid} (hu : u ≠ t) : c'.prog u = c.prog u := by
  cases h <;> exact Function.update_of_ne hu ..

/-- Any number of moves of the surroundings. -/
def Drifts (S : System Tid Op Res σ Ctl) : σ → σ → Prop := Relation.ReflTransGen S.env

/-- After any moves of the surroundings, one of the threads in `T` takes a step. The operations that have
been performed are written down. -/
def Turn (S : System Tid Op Res σ Ctl) (T : Set Tid)
    (x y : List (Event Tid Op Res σ) × Config Tid Op Res σ Ctl) : Prop :=
  ∃ s, S.Drifts x.2.shared s ∧ ∃ t ∈ T, ∃ e, S.StepOf t ⟨s, x.2.prog⟩ e y.2 ∧ y.1 = x.1 ++ e.toList

/-- A run goes on while the surroundings move. -/
theorem Run.drift {tr : List (Event Tid Op Res σ)} (h : S.Run tr c) {s : σ}
    (hs : S.Drifts c.shared s) : S.Run tr ⟨s, c.prog⟩ := by
  induction hs with
  | refl => exact h
  | tail _ he ih => simpa using ih.step (.env he)

end System

end Concurrency
