import Sope.Concurrency.Program

/-! # Comparing programs

* `Prog.Makes` — all operations that a program may come to are of some kind.
* `Prog.Alike` — two programs do the same, whatever their operations return, but for operations that are not
  observed.
* `Prog.answered` — what a program does when its operations are answered by a function. -/

namespace Concurrency

namespace Prog

variable {Op : Type} {Res : Op → Type} {α β γ σ : Type}

/-- Programs one after the other, in either order of composition. -/
theorem bind_assoc (p : Prog Op Res α) (f : α → Prog Op Res β) (g : β → Prog Op Res γ) :
    p >>= f >>= g = p >>= fun a => f a >>= g := by
  induction p with
  | ret a => rfl
  | op o k ih =>
      simp only [op_bind]
      exact congrArg (Prog.op o) (funext ih)

/-! ## Kinds of operations -/

/-- All operations of the program are in `P`. -/
def Makes (P : Op → Prop) : Prog Op Res α → Prop
  | .ret _ => True
  | .op o k => P o ∧ ∀ r, (k r).Makes P

/-- The operations of two programs one after the other. -/
theorem Makes.bind {P : Op → Prop} {p : Prog Op Res α} {f : α → Prog Op Res β} (hp : p.Makes P)
    (hf : ∀ a, (f a).Makes P) : (p >>= f).Makes P := by
  induction p with
  | ret a => exact hf a
  | op o k ih => exact ⟨hp.1, fun r => ih r (hp.2 r)⟩

/-- The operations of one of two programs. -/
theorem Makes.ite {P : Op → Prop} {c : Prop} [Decidable c] {p q : Prog Op Res α} (hp : c → p.Makes P)
    (hq : ¬ c → q.Makes P) : (if c then p else q).Makes P := by
  split
  · next hc => exact hp hc
  · next hc => exact hq hc

/-! ## Programs that do the same -/

/-- The programs perform the same operations and end with the same value, whatever the operations return. Where
one performs a silent operation the other one may perform another silent operation. -/
inductive Alike (silent : Op → Prop) : Prog Op Res α → Prog Op Res α → Prop
  | ret (a : α) : Alike silent (.ret a) (.ret a)
  | op (o : Op) {k k' : Res o → Prog Op Res α} (h : ∀ r, Alike silent (k r) (k' r)) :
      Alike silent (.op o k) (.op o k')
  | silent {o o' : Op} (ho : silent o) (ho' : silent o') {k : Res o → Prog Op Res α}
      {k' : Res o' → Prog Op Res α} (h : ∀ r r', Alike silent (k r) (k' r')) :
      Alike silent (.op o k) (.op o' k')

namespace Alike

variable {silent : Op → Prop} {p q : Prog Op Res α}

theorem refl (p : Prog Op Res α) : Alike silent p p := by
  induction p with
  | ret a => exact .ret a
  | op o k ih => exact .op o ih

/-- Programs one after the other. -/
theorem bind {f g : α → Prog Op Res β} (h : Alike silent p q) (hf : ∀ a, Alike silent (f a) (g a)) :
    Alike silent (p >>= f) (q >>= g) := by
  induction h with
  | ret a => exact hf a
  | op o _ ih => exact .op o ih
  | silent ho ho' _ ih => exact .silent ho ho' ih

/-- The first operation is the same, unless it is silent. -/
theorem eq_of_op {o o' : Op} {k : Res o → Prog Op Res α} {k' : Res o' → Prog Op Res α} (ho : ¬ silent o)
    (h : Alike silent (.op o k) (.op o' k')) : o = o' := by
  cases h with
  | op => rfl
  | silent ho' => exact (ho ho').elim

/-- The programs do the same behind their first operations when these return the same. -/
theorem of_heq {o o' : Op} {k : Res o → Prog Op Res α} {k' : Res o' → Prog Op Res α}
    (h : Alike silent (.op o k) (.op o' k')) (r : Res o) (r' : Res o') (hr : HEq r r') :
    Alike silent (k r) (k' r') := by
  cases h with
  | op _ h =>
      obtain rfl := eq_of_heq hr
      exact h r
  | silent _ _ h => exact h r r'

theorem of_op {o : Op} {k k' : Res o → Prog Op Res α} (h : Alike silent (.op o k) (.op o k'))
    (r : Res o) : Alike silent (k r) (k' r) :=
  h.of_heq r r HEq.rfl

end Alike

/-! ## Answers -/

/-- What the program does, up to its end or to the first operation that is not answered: the operations with
their results, and the value at the end. -/
def answered (answer : σ → (o : Op) → Option (Res o × σ)) :
    Prog Op Res α → σ → List ((o : Op) × Res o) × Option α
  | .ret a, _ => ([], some a)
  | .op o k, s =>
      match answer s o with
      | none => ([], none)
      | some (r, s') => (⟨o, r⟩ :: (answered answer (k r) s').1, (answered answer (k r) s').2)

end Prog

end Concurrency
