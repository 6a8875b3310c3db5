import Sope.Concurrency.System

/-! # Protocols: thread-local proof rules for a system

A `Protocol` gives every operation a proof rule over a thread-local *ghost* value: what the thread
must know to perform the operation, and what it may conclude from the result. Folding the rules over
a program gives its weakest precondition `Prog.wp`, which composes along `do`-blocks
(`Prog.wp_bind`), so a program is verified one function at a time.

A `Certificate` ties the ghost values of all threads to the shared state of a system by a global
invariant that every operation keeps as far as its rule promises. Its soundness theorem
`Certificate.run` is the only induction over runs: in every reachable configuration the invariant
holds, and the rest of every thread's program is still verified from the thread's ghost value. -/

namespace Concurrency

/-- Proof rules for operations: `rule g o Φ` says that a thread with ghost value `g` may perform
`o`, and that whatever `o` returns, it can go on with a ghost value for which `Φ` holds. -/
structure Protocol (Op : Type) (Res : Op → Type) (Ghost : Type) where
  /-- The rule of each operation, as a predicate transformer. -/
  rule : Ghost → (o : Op) → (Res o → Ghost → Prop) → Prop
  /-- A weaker aim is easier to reach. -/
  mono : ∀ {g : Ghost} {o : Op} {Φ Ψ : Res o → Ghost → Prop},
    (∀ r g', Φ r g' → Ψ r g') → rule g o Φ → rule g o Ψ

variable {Tid Op : Type} {Res : Op → Type} {σ Ctl Ghost α β : Type}

namespace Prog

/-- The weakest precondition of a program: the ghost values from which every operation is performed
as its rule asks and the final value satisfies `Q`. -/
def wp (P : Protocol Op Res Ghost) : Prog Op Res α → (α → Ghost → Prop) → Ghost → Prop
  | .ret a, Q, g => Q a g
  | .op o k, Q, g => P.rule g o fun r g' => (k r).wp P Q g'

variable {P : Protocol Op Res Ghost}

@[simp] theorem wp_ret (a : α) (Q : α → Ghost → Prop) (g : Ghost) :
    (.ret a : Prog Op Res α).wp P Q g = Q a g := rfl

theorem wp_op (o : Op) (k : Res o → Prog Op Res α) (Q : α → Ghost → Prop) (g : Ghost) :
    (Prog.op o k).wp P Q g = P.rule g o fun r g' => (k r).wp P Q g' := rfl

/-- Weakest preconditions compose along sequential composition. -/
theorem wp_bind (p : Prog Op Res α) (f : α → Prog Op Res β) (Q : β → Ghost → Prop) :
    (p >>= f).wp P Q = p.wp P fun a => (f a).wp P Q := by
  induction p with
  | ret a => rfl
  | op o k ih =>
      funext g
      rw [op_bind, wp_op, wp_op]
      exact congrArg (P.rule g o) (funext ih)

/-- The rule of consequence. -/
theorem wp_mono {p : Prog Op Res α} {Q Q' : α → Ghost → Prop} {g : Ghost}
    (hQ : ∀ a g', Q a g' → Q' a g') (h : p.wp P Q g) : p.wp P Q' g := by
  induction p generalizing g with
  | ret a => exact hQ a g h
  | op o k ih => exact P.mono (fun r g' => ih r) h

/-- The rule of sequential composition. -/
theorem wp_seq {p : Prog Op Res α} {f : α → Prog Op Res β} {Q : β → Ghost → Prop}
    {R : α → Ghost → Prop} {g : Ghost} (hp : p.wp P R g)
    (hf : ∀ a g', R a g' → (f a).wp P Q g') : (p >>= f).wp P Q g := by
  rw [wp_bind]
  exact wp_mono hf hp

/-- The rule of a choice. -/
theorem wp_ite {c : Prop} [Decidable c] {p q : Prog Op Res α} {Q : α → Ghost → Prop} {g : Ghost}
    (hp : c → p.wp P Q g) (hq : ¬ c → q.wp P Q g) : (if c then p else q).wp P Q g := by
  split
  · next hc => exact hp hc
  · next hc => exact hq hc

end Prog

/-- A proof about a system by a protocol for each thread: a global invariant on the operations
performed so far, the configuration and the ghost values of the threads, with what each kind of step
does to it. `post` is what a thread guarantees each time it comes back to its loop. The proof is about
the runs whose operations satisfy `assumes`. -/
structure Certificate [DecidableEq Tid] (S : System Tid Op Res σ Ctl)
    (P : Tid → Protocol Op Res Ghost) where
  /-- What is assumed of the operations of a run. -/
  assumes : List (Event Tid Op Res σ) → Prop
  /-- What is assumed of a run is assumed of its beginnings. -/
  assumes_append : ∀ {tr tr'}, assumes (tr ++ tr') → assumes tr
  /-- The global invariant. -/
  inv : List (Event Tid Op Res σ) → Config Tid Op Res σ Ctl → (Tid → Ghost) → Prop
  /-- What a thread guarantees when its program returns a control value. -/
  post : Tid → Ctl → Ghost → Prop
  /-- The invariant can be established. -/
  init : ∀ {c}, S.Initial c → ∃ g, inv [] c g ∧ ∀ t, post t (S.start t) (g t)
  /-- An operation performed as its rule asks keeps the invariant. -/
  exec : ∀ {tr c g t o k r s' Φ}, S.Run (tr ++ [⟨t, o, r, c.shared⟩])
      ⟨s', Function.update c.prog t (k r)⟩ → assumes (tr ++ [⟨t, o, r, c.shared⟩]) → inv tr c g →
    c.prog t = .op o k → (P t).rule (g t) o Φ → S.sem t o c.shared r s' →
    ∃ g', Φ r g' ∧ inv (tr ++ [⟨t, o, r, c.shared⟩]) ⟨s', Function.update c.prog t (k r)⟩
      (Function.update g t g')
  /-- Going round the loop keeps the invariant, and the next program is verified. -/
  loop : ∀ {tr c g t x}, inv tr c g → c.prog t = .ret x → post t x (g t) →
    ∃ g', (S.body t x).wp (P t) (post t) g' ∧
      inv tr ⟨c.shared, Function.update c.prog t (S.body t x)⟩ (Function.update g t g')
  /-- Taking a thread away from its next operation keeps the invariant. -/
  divert : ∀ {tr c g t o k x s' Φ}, inv tr c g → c.prog t = .op o k →
    (P t).rule (g t) o Φ → S.divert t o c.shared x s' →
    ∃ g', post t x g' ∧
      inv tr ⟨s', Function.update c.prog t (.ret x)⟩ (Function.update g t g')
  /-- The surroundings keep the invariant. -/
  env : ∀ {tr c g s'}, inv tr c g → S.env c.shared s' → inv tr ⟨s', c.prog⟩ g

namespace Certificate

variable [DecidableEq Tid] {S : System Tid Op Res σ Ctl} {P : Tid → Protocol Op Res Ghost}
  (C : Certificate S P)

/-- The invariant holds, and what is left of each thread's program is verified. -/
def Holds (tr : List (Event Tid Op Res σ)) (c : Config Tid Op Res σ Ctl) (g : Tid → Ghost) : Prop :=
  C.inv tr c g ∧ ∀ t, (c.prog t).wp (P t) (C.post t) (g t)

variable {C} {tr : List (Event Tid Op Res σ)} {c c' : Config Tid Op Res σ Ctl} {g : Tid → Ghost}
  {e : Option (Event Tid Op Res σ)}

/-- Replacing one thread's program and ghost value keeps every thread verified. -/
theorem wp_update {prog : Tid → Prog Op Res Ctl} {t : Tid} {p : Prog Op Res Ctl} {g' : Ghost}
    (h : ∀ u, (prog u).wp (P u) (C.post u) (g u)) (ht : p.wp (P t) (C.post t) g') (u : Tid) :
    (Function.update prog t p u).wp (P u) (C.post u) (Function.update g t g' u) := by
  by_cases hu : u = t
  · subst hu
    simpa using ht
  · simpa [Function.update_of_ne hu] using h u

/-- The rule of the operation that a thread is about to perform holds of its ghost value. -/
theorem Holds.rule (h : C.Holds tr c g) {t : Tid} {o : Op} {k : Res o → Prog Op Res Ctl}
    (hp : c.prog t = .op o k) :
    (P t).rule (g t) o fun r g' => (k r).wp (P t) (C.post t) g' := by
  have := h.2 t
  rwa [hp, Prog.wp_op] at this

/-- A thread that comes back to its loop guarantees its postcondition. -/
theorem Holds.ret (h : C.Holds tr c g) {t : Tid} {x : Ctl} (hp : c.prog t = .ret x) :
    C.post t x (g t) := by
  have := h.2 t
  rwa [hp, Prog.wp_ret] at this

/-- One step of the system. -/
theorem Holds.step (hr : S.Run tr c) (h : C.Holds tr c g) (hs : S.Step c e c')
    (ha : C.assumes (tr ++ e.toList)) : ∃ g', C.Holds (tr ++ e.toList) c' g' := by
  cases hs with
  | exec hp hsem =>
      obtain ⟨g', hk, hi⟩ := C.exec (hr.step (.exec hp hsem)) ha h.1 hp (h.rule hp) hsem
      exact ⟨_, hi, wp_update h.2 hk⟩
  | loop hp =>
      obtain ⟨g', hk, hi⟩ := C.loop h.1 hp (h.ret hp)
      exact ⟨_, by simpa using hi, wp_update h.2 hk⟩
  | divert hp hd =>
      obtain ⟨g', hx, hi⟩ := C.divert h.1 hp (h.rule hp) hd
      exact ⟨_, by simpa using hi, wp_update h.2 hx⟩
  | env he => exact ⟨g, by simpa using C.env h.1 he, h.2⟩

/-- **Soundness.** In every run as assumed the invariant holds at the end, for some ghost values from
which every thread's remaining program is verified. -/
theorem run (h : S.Run tr c) (ha : C.assumes tr) : ∃ g, C.Holds tr c g := by
  revert ha
  refine System.Run.induction (I := fun tr c => C.assumes tr → ∃ g, C.Holds tr c g)
    (fun c h₀ _ => ?_) (fun tr c e c' hr ih hs ha => ?_) h
  · obtain ⟨g, hi, hp⟩ := C.init h₀
    refine ⟨g, hi, fun t => ?_⟩
    rw [h₀.2 t]
    exact hp t
  · obtain ⟨g, hg⟩ := ih (C.assumes_append ha)
    exact hg.step hr hs ha

end Certificate

end Concurrency
