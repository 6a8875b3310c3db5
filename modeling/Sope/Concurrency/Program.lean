import Mathlib.Logic.Function.Basic
import Mathlib.Tactic.Common

/-! # Programs over a signature of operations

A sequential program that talks to its surroundings only through *operations*: a tree whose nodes
are operations and whose branches are the results an operation may return. The tree is the free
monad of the signature `(Op, Res)`, so programs are written in `do`-notation and one text of a
program can be run against several meanings of its operations (one thread alone, many threads
interleaved, a proof obligation).

* `Prog Op Res α` — programs with operations `o : Op`, results `Res o`, and a final value in `α`. -/

namespace Concurrency

/-- A program with operations in `Op`, an operation `o` returning a `Res o`, that ends with a value
in `α`. -/
inductive Prog (Op : Type) (Res : Op → Type) (α : Type) : Type
  /-- The program is over, with value `a`. -/
  | ret (a : α)
  /-- Perform `o`, and continue as `k r` when it returns `r`. -/
  | op (o : Op) (k : Res o → Prog Op Res α)

namespace Prog

variable {Op : Type} {Res : Op → Type} {α β : Type}

/-- Sequential composition: run the first program, then the one chosen by its value. -/
def bind : Prog Op Res α → (α → Prog Op Res β) → Prog Op Res β
  | .ret a, f => f a
  | .op o k, f => .op o fun r => (k r).bind f

instance : Monad (Prog Op Res) where
  pure := .ret
  bind := bind

/-- The program that performs the one operation `o` and returns its result. -/
def call (o : Op) : Prog Op Res (Res o) := .op o .ret

@[simp] theorem pure_eq_ret (a : α) : (pure a : Prog Op Res α) = .ret a := rfl

@[simp] theorem ret_bind (a : α) (f : α → Prog Op Res β) :
    (.ret a : Prog Op Res α) >>= f = f a := rfl

@[simp] theorem op_bind (o : Op) (k : Res o → Prog Op Res α) (f : α → Prog Op Res β) :
    (.op o k : Prog Op Res α) >>= f = .op o fun r => k r >>= f := rfl

@[simp] theorem call_bind (o : Op) (f : Res o → Prog Op Res β) :
    (call o : Prog Op Res (Res o)) >>= f = .op o f := rfl

end Prog

end Concurrency
