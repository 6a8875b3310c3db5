import Mathlib.Algebra.BigOperators.Group.Finset.Piecewise
import Mathlib.Algebra.Order.BigOperators.Group.Finset
import Sope.Concurrency.Program

/-! # Systems of interleaved threads

A `System` is a family of threads, each of which repeats: run the program `body t x` of its control
value `x` to its end, and go on with the control value that the program returned. The threads share
one state; an operation is one indivisible step on it, and between any two steps of a thread any
number of steps of the others may happen.

* `System.Step` — one step: a thread performs its next operation (`exec`), goes round its loop
  (`loop`), or is taken away from its next operation by a signal, a cancellation or the end of the
  process (`divert`); or the surroundings change the shared state (`env`).
* `System.Path`, `System.Run` — finite sequences of steps, from a configuration and from an initial
  one, with the list of the operations performed. Every performed operation is recorded together
  with the shared state in which it was performed, so properties of whole runs are properties of
  that list. -/

namespace Concurrency

/-- An operation performed by a thread: who, what, with which result, and in which shared state. -/
structure Event (Tid Op : Type) (Res : Op → Type) (σ : Type) where
  /-- The thread that performed the operation. -/
  tid : Tid
  /-- The operation. -/
  op : Op
  /-- What the operation returned. -/
  res : Res op
  /-- The shared state just before the operation. -/
  pre : σ

/-- A configuration: the shared state, and what each thread still has to run before it goes round
its loop again. -/
structure Config (Tid Op : Type) (Res : Op → Type) (σ Ctl : Type) where
  /-- The state shared by the threads. -/
  shared : σ
  /-- The rest of each thread's program. -/
  prog : Tid → Prog Op Res Ctl

/-- A system of threads over a shared state. -/
structure System (Tid Op : Type) (Res : Op → Type) (σ Ctl : Type) where
  /-- The initial shared states. -/
  init : σ → Prop
  /-- The control value with which each thread begins. -/
  start : Tid → Ctl
  /-- The program a thread runs for a control value. -/
  body : Tid → Ctl → Prog Op Res Ctl
  /-- `sem t o s r s'`: performed by `t` in `s`, the operation `o` may return `r` and leave `s'`. -/
  sem : Tid → (o : Op) → σ → Res o → σ → Prop
  /-- What the surroundings may do to the shared state by themselves. -/
  env : σ → σ → Prop
  /-- `divert t o s x s'`: instead of performing `o` in `s`, thread `t` may be sent to the control
  value `x`, leaving `s'`. -/
  divert : Tid → (o : Op) → σ → Ctl → σ → Prop

variable {Tid Op : Type} {Res : Op → Type} {σ Ctl : Type} [DecidableEq Tid]

namespace System

/-- One step of a system, with the operation performed, if any. -/
inductive Step (S : System Tid Op Res σ Ctl) :
    Config Tid Op Res σ Ctl → Option (Event Tid Op Res σ) → Config Tid Op Res σ Ctl → Prop
  /-- A thread performs its next operation. -/
  | exec {c : Config Tid Op Res σ Ctl} {t : Tid} {o : Op} {k : Res o → Prog Op Res Ctl}
      {r : Res o} {s' : σ} (prog : c.prog t = .op o k) (sem : S.sem t o c.shared r s') :
      Step S c (some ⟨t, o, r, c.shared⟩) ⟨s', Function.update c.prog t (k r)⟩
  /-- A thread goes round its loop. -/
  | loop {c : Config Tid Op Res σ Ctl} {t : Tid} {x : Ctl} (prog : c.prog t = .ret x) :
      Step S c none ⟨c.shared, Function.update c.prog t (S.body t x)⟩
  /-- A thread is taken away from its next operation. -/
  | divert {c : Config Tid Op Res σ Ctl} {t : Tid} {o : Op} {k : Res o → Prog Op Res Ctl}
      {x : Ctl} {s' : σ} (prog : c.prog t = .op o k) (divert : S.divert t o c.shared x s') :
      Step S c none ⟨s', Function.update c.prog t (.ret x)⟩
  /-- The surroundings move. -/
  | env {c : Config Tid Op Res σ Ctl} {s' : σ} (env : S.env c.shared s') :
      Step S c none ⟨s', c.prog⟩

/-- A finite sequence of steps, with the operations performed in it, oldest first. -/
inductive Path (S : System Tid Op Res σ Ctl) :
    Config Tid Op Res σ Ctl → List (Event Tid Op Res σ) → Config Tid Op Res σ Ctl → Prop
  /-- The empty sequence. -/
  | refl (c : Config Tid Op Res σ Ctl) : Path S c [] c
  /-- One more step. -/
  | step {c c' c'' : Config Tid Op Res σ Ctl} {tr : List (Event Tid Op Res σ)}
      {e : Option (Event Tid Op Res σ)} (path : Path S c tr c') (step : Step S c' e c'') :
      Path S c (tr ++ e.toList) c''

/-- An initial configuration: an initial shared state, every thread at its first control value. -/
def Initial (S : System Tid Op Res σ Ctl) (c : Config Tid Op Res σ Ctl) : Prop :=
  S.init c.shared ∧ ∀ t, c.prog t = .ret (S.start t)

/-- A run: a finite sequence of steps from an initial configuration. -/
def Run (S : System Tid Op Res σ Ctl) (tr : List (Event Tid Op Res σ))
    (c : Config Tid Op Res σ Ctl) : Prop :=
  ∃ c₀, S.Initial c₀ ∧ S.Path c₀ tr c

variable {S : System Tid Op Res σ Ctl} {c c' c'' : Config Tid Op Res σ Ctl}
  {tr tr' : List (Event Tid Op Res σ)} {e : Option (Event Tid Op Res σ)}

/-- An initial configuration is reached by the empty run. -/
theorem Initial.run (h : S.Initial c) : S.Run [] c := ⟨c, h, .refl c⟩

/-- A run can be continued by a step. -/
theorem Run.step (h : S.Run tr c) (hs : S.Step c e c') : S.Run (tr ++ e.toList) c' := by
  obtain ⟨c₀, h₀, hp⟩ := h
  exact ⟨c₀, h₀, hp.step hs⟩

/-- Paths compose. -/
theorem Path.trans (h : S.Path c tr c') (h' : S.Path c' tr' c'') :
    S.Path c (tr ++ tr') c'' := by
  induction h' with
  | refl => simpa using h
  | step _ hs ih => simpa [List.append_assoc] using ih.step hs

/-- A run followed by a path is a run. -/
theorem Run.trans (h : S.Run tr c) (h' : S.Path c tr' c') : S.Run (tr ++ tr') c' := by
  obtain ⟨c₀, h₀, hp⟩ := h
  exact ⟨c₀, h₀, hp.trans h'⟩

/-- What holds initially and is kept by every step holds at the end of every run. -/
theorem Run.induction {I : List (Event Tid Op Res σ) → Config Tid Op Res σ Ctl → Prop}
    (init : ∀ c, S.Initial c → I [] c)
    (step : ∀ tr c e c', S.Run tr c → I tr c → S.Step c e c' → I (tr ++ e.toList) c')
    (h : S.Run tr c) : I tr c := by
  obtain ⟨c₀, h₀, hp⟩ := h
  induction hp with
  | refl => exact init c₀ h₀
  | step hp hs ih => exact step _ _ _ _ ⟨c₀, h₀, hp⟩ ih hs

/-- An operation of a run was performed in a configuration that the operations before it lead to. -/
theorem Run.split {e : Event Tid Op Res σ} (h : S.Run (tr ++ e :: tr') c) :
    ∃ c₁ k s', S.Run tr c₁ ∧ c₁.shared = e.pre ∧ c₁.prog e.tid = .op e.op k ∧
      S.sem e.tid e.op e.pre e.res s' := by
  suffices ∀ l, S.Run l c → ∀ tr', l = tr ++ e :: tr' → ∃ c₁ k s', S.Run tr c₁ ∧
      c₁.shared = e.pre ∧ c₁.prog e.tid = .op e.op k ∧ S.sem e.tid e.op e.pre e.res s'
    from this _ h tr' rfl
  intro l hl
  refine Run.induction (I := fun l _ => ∀ tr', l = tr ++ e :: tr' → _) (fun _ _ tr' h => ?_)
    (fun l c₁ a c₂ hr ih hs tr' h => ?_) hl
  · simp at h
  · cases a with
    | none => exact ih tr' (by simpa using h)
    | some a =>
        rw [Option.toList_some] at h
        rcases List.eq_nil_or_concat tr' with rfl | ⟨tr'', b, rfl⟩
        · -- the step is the last one
          obtain ⟨rfl, ha⟩ := List.append_inj' h rfl
          obtain rfl := List.singleton_inj.mp ha
          cases hs with
          | exec hp hsem => exact ⟨c₁, _, _, hr, rfl, hp, hsem⟩
        · rw [List.concat_eq_append, ← List.cons_append, ← List.append_assoc] at h
          exact ih tr'' (List.append_inj' h rfl).1

/-- An operation of a run was performed in a configuration that a run reaches. -/
theorem Run.mem (h : S.Run tr c) {e : Event Tid Op Res σ} (he : e ∈ tr) :
    ∃ tr₁ c₁ k s', S.Run tr₁ c₁ ∧ c₁.shared = e.pre ∧ c₁.prog e.tid = .op e.op k ∧
      S.sem e.tid e.op e.pre e.res s' := by
  obtain ⟨tr₁, tr₂, rfl⟩ := List.append_of_mem he
  exact ⟨tr₁, h.split⟩

/-- The system, started in a given state. -/
def startingAt (S : System Tid Op Res σ Ctl) (s₀ : σ) : System Tid Op Res σ Ctl :=
  { S with init := fun s => s = s₀ }

/-- The state in which a system starts does not matter for its steps. -/
theorem step_startingAt {s₀ : σ} : (S.startingAt s₀).Step c e c' ↔ S.Step c e c' := by
  constructor
  · rintro (⟨hp, hs⟩ | hp | ⟨hp, hd⟩ | he)
    exacts [.exec hp hs, .loop hp, .divert hp hd, .env he]
  · rintro (⟨hp, hs⟩ | hp | ⟨hp, hd⟩ | he)
    exacts [.exec hp hs, .loop (S := S.startingAt s₀) hp, .divert hp hd, .env he]

/-- A path from an initial configuration is a run of the system started there. -/
theorem Initial.run_startingAt (h : S.Initial c) (hp : S.Path c tr c') :
    (S.startingAt c.shared).Run tr c' := by
  refine ⟨c, ⟨rfl, h.2⟩, ?_⟩
  clear h
  generalize c.shared = s₀
  induction hp with
  | refl => exact .refl _
  | step _ hs ih => exact ih.step (step_startingAt.mpr hs)

/-- A run of a system started in one of its initial states is a run of the system. -/
theorem Run.of_startingAt {s₀ : σ} (h₀ : S.init s₀) (h : (S.startingAt s₀).Run tr c) :
    S.Run tr c := by
  obtain ⟨c₀, ⟨hs₀, hprog⟩, hp⟩ := h
  refine ⟨c₀, ⟨hs₀.symm ▸ h₀, hprog⟩, ?_⟩
  induction hp with
  | refl => exact .refl _
  | step _ hs ih => exact ih.step (step_startingAt.mp hs)

/-- The system in which a thread performs an operation, or is taken away from it, only where `G` allows
it. -/
def onlyIf (S : System Tid Op Res σ Ctl) (G : Tid → Op → σ → Prop) : System Tid Op Res σ Ctl :=
  { S with
    sem := fun t o s r s' => G t o s ∧ S.sem t o s r s'
    divert := fun t o s x s' => G t o s ∧ S.divert t o s x s' }

/-- Its steps are steps of the system. -/
theorem Step.of_onlyIf {G : Tid → Op → σ → Prop} (h : (S.onlyIf G).Step c e c') : S.Step c e c' := by
  rcases h with ⟨hp, hs⟩ | hp | ⟨hp, hd⟩ | he
  exacts [.exec hp hs.2, .loop hp, .divert hp hd.2, .env he]

/-- Its runs are runs of the system. -/
theorem Run.of_onlyIf {G : Tid → Op → σ → Prop} (h : (S.onlyIf G).Run tr c) : S.Run tr c := by
  obtain ⟨c₀, h₀, hp⟩ := h
  refine ⟨c₀, h₀, ?_⟩
  induction hp with
  | refl => exact .refl _
  | step _ hs ih => exact ih.step hs.of_onlyIf

/-- Thread `t` can perform its next operation, or be taken away from it. -/
def Enabled (S : System Tid Op Res σ Ctl) (c : Config Tid Op Res σ Ctl) (t : Tid) : Prop :=
  ∃ o k, c.prog t = .op o k ∧
    ((∃ r s', S.sem t o c.shared r s') ∨ ∃ x s', S.divert t o c.shared x s')

end System

/-! ## Counting over the threads -/

/-- The sum of a weight over the values of all threads. -/
def total {α : Type} [Fintype Tid] (f : α → ℕ) (x : Tid → α) : ℕ := ∑ u, f (x u)

/-- The sum after the value of one thread has changed. -/
theorem total_update {α : Type} [Fintype Tid] (f : α → ℕ) (x : Tid → α) (t : Tid) (v : α) :
    total f (Function.update x t v) + f (x t) = total f x + f v := by
  have h := Finset.sum_update_of_mem (Finset.mem_univ t) (fun u => f (x u)) (f v)
  have h' := Finset.sum_update_of_mem (Finset.mem_univ t) (fun u => f (x u)) (f (x t))
  rw [Function.update_eq_self] at h'
  have hcomp : (fun u => f (Function.update x t v u)) = Function.update (fun u => f (x u)) t (f v) :=
    Function.comp_update f x t v
  rw [total, total, hcomp, h, h']
  omega

omit [DecidableEq Tid] in
/-- The weight of one thread is part of the sum. -/
theorem le_total {α : Type} [Fintype Tid] (f : α → ℕ) (x : Tid → α) (t : Tid) :
    f (x t) ≤ total f x :=
  Finset.single_le_sum (f := fun u => f (x u)) (fun _ _ => Nat.zero_le _) (Finset.mem_univ t)

omit [DecidableEq Tid] in
/-- The sum is zero if every weight is. -/
theorem total_eq_zero {α : Type} [Fintype Tid] {f : α → ℕ} {x : Tid → α} (h : ∀ u, f (x u) = 0) :
    total f x = 0 :=
  Finset.sum_eq_zero fun u _ => h u

end Concurrency
