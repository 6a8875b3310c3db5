import Sope.Concurrency.Program
import Mathlib.Data.Int.Notation
import Mathlib.Data.List.Basic

/-! # Processes that fork and take signals

A system of processes, each with a local state and a program, over one shared state. A process may fork:
the child gets a copy of the local state, and it goes on with the same program. Before any step a process may
take a signal; then it executes the handler, and afterwards what it had been about to do. A call during
which a signal is taken may come back with another result.

* `Forking.Step` — one step, with what has happened in it.
* `Forking.Path`, `Forking.Run` — finite sequences of steps, with everything that has happened.
* `Forking.Executes` — what a process does when nothing comes in between.
* `Forking.play` — steps that are computed from a schedule. -/

namespace Concurrency

/-- What a process does: it forks, or it performs an operation. -/
inductive ForkOp (Op : Type) : Type
  | fork
  | call (o : Op)

/-- `fork` returns the number of the child, zero in the child, and `-1` if it fails. -/
def ForkOp.Res {Op : Type} (Res : Op → Type) : ForkOp Op → Type
  | .fork => ℤ
  | .call o => Res o

/-- The programs of such processes. -/
abbrev ForkProg (Op : Type) (Res : Op → Type) (α : Type) : Type := Prog (ForkOp Op) (ForkOp.Res Res) α

/-- Perform an operation. -/
def ForkProg.perform {Op : Type} {Res : Op → Type} (o : Op) : ForkProg Op Res (Res o) :=
  .op (.call o) .ret

/-- Fork. -/
def ForkProg.fork {Op : Type} {Res : Op → Type} : ForkProg Op Res ℤ := .op .fork .ret

/-- Something that has happened, with the local and the shared state just before. -/
inductive Happening (Op : Type) (Res : Op → Type) (Loc σ Sig : Type) : Type
  /-- A process has performed an operation. -/
  | exec (pid : ℕ) (o : Op) (r : Res o) (pre : Loc × σ)
  /-- A process has forked a child. -/
  | fork (pid child : ℕ)
  /-- A process could not fork. -/
  | forkFails (pid : ℕ)
  /-- A process has gone round its loop. -/
  | loop (pid : ℕ)
  /-- A process has taken a signal. -/
  | take (pid : ℕ) (sig : Sig) (pre : Loc × σ)
  /-- A process has taken a signal while it was performing an operation, which has returned for that. -/
  | interrupt (pid : ℕ) (sig : Sig) (o : Op) (r : Res o) (pre : Loc × σ)
  /-- The surroundings have changed the shared state. -/
  | env

/-- A process: its local state, and what it still has to run before it goes round its loop again. -/
structure Running (Op : Type) (Res : Op → Type) (Loc Ctl : Type) : Type where
  loc : Loc
  prog : ForkProg Op Res Ctl

/-- The process that takes the step, unless it is the surroundings that move. -/
def Happening.pid {Op : Type} {Res : Op → Type} {Loc σ Sig : Type} : Happening Op Res Loc σ Sig → Option ℕ
  | .exec pid _ _ _ | .fork pid _ | .forkFails pid | .loop pid | .take pid _ _
  | .interrupt pid _ _ _ _ => some pid
  | .env => none

/-- A configuration: the shared state, and all processes in the order in which they have been forked. -/
structure Family (Op : Type) (Res : Op → Type) (Loc σ Ctl : Type) : Type where
  shared : σ
  members : List (Running Op Res Loc Ctl)

/-- A system of processes that fork and take signals. -/
structure Forking (Op : Type) (Res : Op → Type) (Loc σ Ctl Sig : Type) : Type where
  /-- The control value with which the first process begins. -/
  start : Ctl
  /-- The program that a process runs for a control value. -/
  body : Ctl → ForkProg Op Res Ctl
  /-- The handler of a signal. -/
  handler : Sig → ForkProg Op Res Unit
  /-- The process goes round its loop. -/
  goesOn : Loc → Prop
  /-- `sem pid o pre r post`: performed by the process `pid`, the operation `o` may return `r`. -/
  sem : ℕ → (o : Op) → Loc × σ → Res o → Loc × σ → Prop
  /-- `fork pid child pre loc post`: the process `pid` may fork a child that begins with `loc`. -/
  fork : ℕ → ℕ → Loc × σ → Loc → Loc × σ → Prop
  /-- The process may fail to fork. -/
  forkFails : ℕ → Loc × σ → Loc × σ → Prop
  /-- The process may take a signal. -/
  take : ℕ → Sig → Loc × σ → Loc × σ → Prop
  /-- Interrupted by a signal, the operation may return `r`. -/
  interrupt : ℕ → Sig → (o : Op) → Loc × σ → Res o → Loc × σ → Prop
  /-- What the surroundings may do. -/
  env : σ → σ → Prop

variable {Op : Type} {Res : Op → Type} {Loc σ Ctl Sig : Type}

namespace Forking

/-- One step of a system. -/
inductive Step (S : Forking Op Res Loc σ Ctl Sig) :
    Family Op Res Loc σ Ctl → Happening Op Res Loc σ Sig → Family Op Res Loc σ Ctl → Prop
  | exec {c : Family Op Res Loc σ Ctl} {pid : ℕ} {l l' : Loc} {s' : σ} {o : Op} {r : Res o}
      {k : Res o → ForkProg Op Res Ctl} (member : c.members[pid]? = some ⟨l, .op (.call o) k⟩)
      (sem : S.sem pid o (l, c.shared) r (l', s')) :
      Step S c (.exec pid o r (l, c.shared)) ⟨s', c.members.set pid ⟨l', k r⟩⟩
  | fork {c : Family Op Res Loc σ Ctl} {pid : ℕ} {l l' child : Loc} {s' : σ}
      {k : ℤ → ForkProg Op Res Ctl} (member : c.members[pid]? = some ⟨l, .op .fork k⟩)
      (fork : S.fork pid c.members.length (l, c.shared) child (l', s')) :
      Step S c (.fork pid c.members.length)
        ⟨s', c.members.set pid ⟨l', k c.members.length⟩ ++ [⟨child, k 0⟩]⟩
  | forkFails {c : Family Op Res Loc σ Ctl} {pid : ℕ} {l l' : Loc} {s' : σ}
      {k : ℤ → ForkProg Op Res Ctl} (member : c.members[pid]? = some ⟨l, .op .fork k⟩)
      (fails : S.forkFails pid (l, c.shared) (l', s')) :
      Step S c (.forkFails pid) ⟨s', c.members.set pid ⟨l', k (-1)⟩⟩
  | loop {c : Family Op Res Loc σ Ctl} {pid : ℕ} {l : Loc} {x : Ctl}
      (member : c.members[pid]? = some ⟨l, .ret x⟩) (goesOn : S.goesOn l) :
      Step S c (.loop pid) ⟨c.shared, c.members.set pid ⟨l, S.body x⟩⟩
  | take {c : Family Op Res Loc σ Ctl} {pid : ℕ} {l l' : Loc} {s' : σ} {sig : Sig}
      {p : ForkProg Op Res Ctl} (member : c.members[pid]? = some ⟨l, p⟩)
      (take : S.take pid sig (l, c.shared) (l', s')) :
      Step S c (.take pid sig (l, c.shared)) ⟨s', c.members.set pid ⟨l', S.handler sig >>= fun _ => p⟩⟩
  | interrupt {c : Family Op Res Loc σ Ctl} {pid : ℕ} {l l' : Loc} {s' : σ} {sig : Sig} {o : Op}
      {r : Res o} {k : Res o → ForkProg Op Res Ctl}
      (member : c.members[pid]? = some ⟨l, .op (.call o) k⟩)
      (interrupt : S.interrupt pid sig o (l, c.shared) r (l', s')) :
      Step S c (.interrupt pid sig o r (l, c.shared))
        ⟨s', c.members.set pid ⟨l', S.handler sig >>= fun _ => k r⟩⟩
  | env {c : Family Op Res Loc σ Ctl} {s' : σ} (env : S.env c.shared s') :
      Step S c .env ⟨s', c.members⟩

/-- A finite sequence of steps, with what has happened in them, oldest first. -/
inductive Path (S : Forking Op Res Loc σ Ctl Sig) :
    Family Op Res Loc σ Ctl → List (Happening Op Res Loc σ Sig) → Family Op Res Loc σ Ctl → Prop
  | refl (c : Family Op Res Loc σ Ctl) : Path S c [] c
  | step {c c' c'' : Family Op Res Loc σ Ctl} {tr : List (Happening Op Res Loc σ Sig)}
      {e : Happening Op Res Loc σ Sig} (path : Path S c tr c') (step : Step S c' e c'') :
      Path S c (tr ++ [e]) c''

/-- The configuration in which a process begins alone. -/
def alone (S : Forking Op Res Loc σ Ctl Sig) (l : Loc) (s : σ) : Family Op Res Loc σ Ctl :=
  ⟨s, [⟨l, .ret S.start⟩]⟩

/-- A run: a finite sequence of steps from the configuration of a process that is alone. -/
def Run (S : Forking Op Res Loc σ Ctl Sig) (l : Loc) (s : σ)
    (tr : List (Happening Op Res Loc σ Sig)) (c : Family Op Res Loc σ Ctl) : Prop :=
  S.Path (S.alone l s) tr c

variable {S : Forking Op Res Loc σ Ctl Sig} {l₀ : Loc} {s₀ : σ} {c c' : Family Op Res Loc σ Ctl}
  {tr : List (Happening Op Res Loc σ Sig)} {e : Happening Op Res Loc σ Sig}

/-- What holds in the beginning and is kept by every step that `G` allows holds at the end of every run of
such steps. -/
theorem Run.induction {G : Happening Op Res Loc σ Sig → Prop}
    {I : List (Happening Op Res Loc σ Sig) → Family Op Res Loc σ Ctl → Prop}
    (init : I [] (S.alone l₀ s₀))
    (step : ∀ tr c e c', S.Run l₀ s₀ tr c → (∀ e ∈ tr, G e) → I tr c → G e → S.Step c e c' →
      I (tr ++ [e]) c')
    (h : S.Run l₀ s₀ tr c) (hG : ∀ e ∈ tr, G e) : I tr c := by
  unfold Run at h
  generalize hc : S.alone l₀ s₀ = c₀ at h
  induction h with
  | refl =>
      subst hc
      exact init
  | step path hstep ih =>
      subst hc
      rw [List.forall_mem_append, List.forall_mem_singleton] at hG
      exact step _ _ _ _ path hG.1 (ih hG.1) hG.2 hstep

/-- No process is ever removed. -/
theorem Step.length_le (h : S.Step c e c') : c.members.length ≤ c'.members.length := by
  cases h with
  | fork member fork =>
      rw [List.length_append, List.length_set]
      exact Nat.le_add_right _ _
  | env => exact Nat.le_refl _
  | _ => exact Nat.le_of_eq (List.length_set ..).symm

/-- Steps are taken by processes that there are. -/
theorem Run.pid_lt (h : S.Run l₀ s₀ tr c) : ∀ e ∈ tr, ∀ pid, e.pid = some pid → pid < c.members.length := by
  refine Run.induction (G := fun _ => True)
    (I := fun tr c => ∀ e ∈ tr, ∀ pid, e.pid = some pid → pid < c.members.length) nofun ?_ h fun _ _ => trivial
  intro tr c e c' _ _ ih _ hstep e' he' pid hpid
  rcases List.mem_append.mp he' with he' | he'
  · exact Nat.lt_of_lt_of_le (ih e' he' pid hpid) hstep.length_le
  · obtain rfl := List.mem_singleton.mp he'
    refine Nat.lt_of_lt_of_le ?_ hstep.length_le
    cases hstep with
    | env => nomatch hpid
    | exec member | fork member | forkFails member | loop member | take member | interrupt member =>
        obtain rfl := Option.some.inj hpid
        exact (List.getElem?_eq_some_iff.mp member).1

/-- What a process does to its own state and to the shared one. -/
inductive Acts (S : Forking Op Res Loc σ Ctl Sig) (pid : ℕ) : Loc × σ → Loc × σ → Prop
  | exec {st st' : Loc × σ} {o : Op} {r : Res o} (sem : S.sem pid o st r st') : Acts S pid st st'
  | fork {st st' : Loc × σ} {child : ℕ} {l : Loc} (fork : S.fork pid child st l st') : Acts S pid st st'
  | forkFails {st st' : Loc × σ} (fails : S.forkFails pid st st') : Acts S pid st st'
  | loop {l : Loc} {s : σ} (goesOn : S.goesOn l) : Acts S pid (l, s) (l, s)
  | take {st st' : Loc × σ} {sig : Sig} (take : S.take pid sig st st') : Acts S pid st st'
  | interrupt {st st' : Loc × σ} {sig : Sig} {o : Op} {r : Res o}
      (interrupt : S.interrupt pid sig o st r st') : Acts S pid st st'

/-! ## One process, when nothing comes in between -/

/-- A process executes a program without forks to its end. -/
inductive Executes (S : Forking Op Res Loc σ Ctl Sig) (pid : ℕ) {α : Type} :
    ForkProg Op Res α → Loc × σ → List (Happening Op Res Loc σ Sig) → α → Loc × σ → Prop
  | ret (a : α) (st : Loc × σ) : Executes S pid (.ret a) st [] a st
  | call {st st' st'' : Loc × σ} {o : Op} {r : Res o} {k : Res o → ForkProg Op Res α} {a : α}
      {tr : List (Happening Op Res Loc σ Sig)} (sem : S.sem pid o st r st')
      (rest : Executes S pid (k r) st' tr a st'') :
      Executes S pid (.op (.call o) k) st (.exec pid o r st :: tr) a st''

section

variable {pid : ℕ} {α β : Type} {p : ForkProg Op Res α} {f : α → ForkProg Op Res β}
  {st st' st'' : Loc × σ} {tr₁ tr₂ : List (Happening Op Res Loc σ Sig)} {a : α} {b : β}

/-- The end of an execution. -/
theorem executes_ret {tr : List (Happening Op Res Loc σ Sig)} {a' : α} :
    S.Executes pid (.ret a) st tr a' st' ↔ tr = [] ∧ a' = a ∧ st' = st := by
  constructor
  · intro h
    cases h
    exact ⟨rfl, rfl, rfl⟩
  · rintro ⟨rfl, rfl, rfl⟩
    exact .ret a' st'

/-- The first operation of an execution. -/
theorem executes_call {o : Op} {k : Res o → ForkProg Op Res α}
    {tr : List (Happening Op Res Loc σ Sig)} :
    S.Executes pid (.op (.call o) k) st tr a st'' ↔ ∃ r st' tr', S.sem pid o st r st' ∧
      S.Executes pid (k r) st' tr' a st'' ∧ tr = .exec pid o r st :: tr' := by
  constructor
  · intro h
    cases h with
    | call sem rest => exact ⟨_, _, _, sem, rest, rfl⟩
  · rintro ⟨r, st', tr', sem, rest, rfl⟩
    exact .call sem rest

/-- Executions one after the other. -/
theorem Executes.bind (hp : S.Executes pid p st tr₁ a st') (hf : S.Executes pid (f a) st' tr₂ b st'') :
    S.Executes pid (p >>= f) st (tr₁ ++ tr₂) b st'' := by
  induction hp with
  | ret => exact hf
  | call sem _ ih => exact .call sem (ih hf)

/-- An execution of two programs one after the other. -/
theorem Executes.of_bind {tr : List (Happening Op Res Loc σ Sig)}
    (h : S.Executes pid (p >>= f) st tr b st'') : ∃ a st' tr₁ tr₂, S.Executes pid p st tr₁ a st' ∧
      S.Executes pid (f a) st' tr₂ b st'' ∧ tr = tr₁ ++ tr₂ := by
  induction p generalizing st tr with
  | ret a => exact ⟨a, st, [], tr, .ret a st, h, rfl⟩
  | op o k ih =>
      cases o with
      | fork => nomatch h
      | call o =>
          obtain ⟨r, st₁, tr', sem, rest, rfl⟩ := executes_call.mp h
          obtain ⟨a, st', tr₁, tr₂, hp, hf, rfl⟩ := ih r rest
          exact ⟨a, st', _, tr₂, .call sem hp, hf, rfl⟩

end

end Forking

/-! ## Schedules -/

/-- An entry of a schedule: a process takes a step, or it takes a signal, or an operation of it is interrupted
by one; or the surroundings move. -/
inductive ForkPick (Sig M : Type) : Type
  | run (pid : ℕ)
  | take (pid : ℕ) (sig : Sig)
  | interrupt (pid : ℕ) (sig : Sig)
  | env (m : M)

/-- Computed steps of a system. -/
structure ForkPlayer (S : Forking Op Res Loc σ Ctl Sig) (M : Type) where
  goesOn : Loc → Bool
  exec : ℕ → (o : Op) → Loc × σ → Option (Res o × Loc × σ)
  fork : ℕ → ℕ → Loc × σ → Option (Loc × Loc × σ)
  take : ℕ → Sig → Loc × σ → Option (Loc × σ)
  interrupt : ℕ → Sig → (o : Op) → Loc × σ → Option (Res o × Loc × σ)
  env : M → σ → Option σ
  goesOn_sound : ∀ {l}, goesOn l = true → S.goesOn l
  exec_sound : ∀ {pid o st r st'}, exec pid o st = some (r, st') → S.sem pid o st r st'
  fork_sound : ∀ {pid child st l st'}, fork pid child st = some (l, st') → S.fork pid child st l st'
  take_sound : ∀ {pid sig st st'}, take pid sig st = some st' → S.take pid sig st st'
  interrupt_sound : ∀ {pid sig o st r st'}, interrupt pid sig o st = some (r, st') →
    S.interrupt pid sig o st r st'
  env_sound : ∀ {m s s'}, env m s = some s' → S.env s s'

namespace Forking

variable {S : Forking Op Res Loc σ Ctl Sig} {M : Type}

/-- A step of a process that is not disturbed. -/
def advanceMember (P : ForkPlayer S M) (c : Family Op Res Loc σ Ctl) (pid : ℕ) :
    Running Op Res Loc Ctl → Option (Happening Op Res Loc σ Sig × Family Op Res Loc σ Ctl)
  | ⟨l, .ret x⟩ =>
      if P.goesOn l then some (.loop pid, ⟨c.shared, c.members.set pid ⟨l, S.body x⟩⟩) else none
  | ⟨l, .op .fork k⟩ =>
      match P.fork pid c.members.length (l, c.shared) with
      | none => none
      | some (child, l', s') => some (.fork pid c.members.length,
          ⟨s', c.members.set pid ⟨l', k (c.members.length : ℤ)⟩ ++ [⟨child, k (0 : ℤ)⟩]⟩)
  | ⟨l, .op (.call o) k⟩ =>
      match P.exec pid o (l, c.shared) with
      | none => none
      | some (r, l', s') => some (.exec pid o r (l, c.shared), ⟨s', c.members.set pid ⟨l', k r⟩⟩)

/-- An operation of a process is interrupted. -/
def interruptMember (P : ForkPlayer S M) (c : Family Op Res Loc σ Ctl) (pid : ℕ) (sig : Sig) :
    Running Op Res Loc Ctl → Option (Happening Op Res Loc σ Sig × Family Op Res Loc σ Ctl)
  | ⟨l, .op (.call o) k⟩ =>
      match P.interrupt pid sig o (l, c.shared) with
      | none => none
      | some (r, l', s') => some (.interrupt pid sig o r (l, c.shared),
          ⟨s', c.members.set pid ⟨l', S.handler sig >>= fun _ => k r⟩⟩)
  | _ => none

/-- One step of a schedule. -/
def advance (P : ForkPlayer S M) (c : Family Op Res Loc σ Ctl) :
    ForkPick Sig M → Option (Happening Op Res Loc σ Sig × Family Op Res Loc σ Ctl)
  | .run pid => c.members[pid]?.bind (advanceMember P c pid)
  | .take pid sig => c.members[pid]?.bind fun member =>
      (P.take pid sig (member.loc, c.shared)).map fun st =>
        (.take pid sig (member.loc, c.shared),
          ⟨st.2, c.members.set pid ⟨st.1, S.handler sig >>= fun _ => member.prog⟩⟩)
  | .interrupt pid sig => c.members[pid]?.bind (interruptMember P c pid sig)
  | .env m => (P.env m c.shared).map fun s' => (.env, ⟨s', c.members⟩)

/-- The steps of a schedule, with what has happened, after what is in `tr`. -/
def play (P : ForkPlayer S M) : List (ForkPick Sig M) → List (Happening Op Res Loc σ Sig) →
    Family Op Res Loc σ Ctl → Option (List (Happening Op Res Loc σ Sig) × Family Op Res Loc σ Ctl)
  | [], tr, c => some (tr, c)
  | p :: rest, tr, c =>
      match advance P c p with
      | none => none
      | some (e, c') => play P rest (tr ++ [e]) c'

/-- A computed step is a step. -/
theorem step_of_advance {P : ForkPlayer S M} {c c' : Family Op Res Loc σ Ctl} {p : ForkPick Sig M}
    {e : Happening Op Res Loc σ Sig} (h : advance P c p = some (e, c')) : S.Step c e c' := by
  cases p with
  | run pid =>
      obtain ⟨⟨l, prog⟩, hmember, h⟩ := Option.bind_eq_some_iff.mp h
      cases prog with
      | ret x =>
          simp only [advanceMember] at h
          split at h
          · next hgoesOn =>
              cases h
              exact .loop hmember (P.goesOn_sound hgoesOn)
          · cases h
      | op o k =>
          cases o with
          | fork =>
              simp only [advanceMember] at h
              split at h
              · cases h
              · next hfork =>
                  cases h
                  exact .fork hmember (P.fork_sound hfork)
          | call o =>
              simp only [advanceMember] at h
              split at h
              · cases h
              · next hexec =>
                  cases h
                  exact .exec hmember (P.exec_sound hexec)
  | take pid sig =>
      obtain ⟨⟨l, prog⟩, hmember, h⟩ := Option.bind_eq_some_iff.mp h
      obtain ⟨st, htake, h⟩ := Option.map_eq_some_iff.mp h
      cases h
      exact .take hmember (P.take_sound htake)
  | interrupt pid sig =>
      obtain ⟨⟨l, prog⟩, hmember, h⟩ := Option.bind_eq_some_iff.mp h
      cases prog with
      | ret x => nomatch h
      | op o k =>
          cases o with
          | fork => nomatch h
          | call o =>
              simp only [interruptMember] at h
              split at h
              · cases h
              · next hinterrupt =>
                  cases h
                  exact .interrupt hmember (P.interrupt_sound hinterrupt)
  | env m =>
      obtain ⟨s', henv, h⟩ := Option.map_eq_some_iff.mp h
      cases h
      exact .env (P.env_sound henv)

/-- The steps of a schedule continue a path. -/
theorem path_of_play {P : ForkPlayer S M} {picks : List (ForkPick Sig M)}
    {tr tr' : List (Happening Op Res Loc σ Sig)} {c₀ c c' : Family Op Res Loc σ Ctl}
    (hp : S.Path c₀ tr c) (h : play P picks tr c = some (tr', c')) : S.Path c₀ tr' c' := by
  induction picks generalizing tr c with
  | nil =>
      cases h
      exact hp
  | cons p rest ih =>
      simp only [play] at h
      split at h
      · cases h
      · next e c₁ he => exact ih (hp.step (step_of_advance he)) h

/-- A program without forks, executed by computed steps. -/
def execute {α : Type} (P : ForkPlayer S M) (pid : ℕ) :
    ForkProg Op Res α → Loc × σ → Option (List (Happening Op Res Loc σ Sig) × α × Loc × σ)
  | .ret a, st => some ([], a, st)
  | .op .fork _, _ => none
  | .op (.call o) k, st =>
      match P.exec pid o st with
      | none => none
      | some (r, st') => (execute P pid (k r) st').map fun x => (.exec pid o r st :: x.1, x.2)

/-- It is an execution. -/
theorem executes_of_execute {α : Type} {P : ForkPlayer S M} {pid : ℕ} {p : ForkProg Op Res α}
    {st : Loc × σ} {x : List (Happening Op Res Loc σ Sig) × α × Loc × σ} (h : execute P pid p st = some x) :
    S.Executes pid p st x.1 x.2.1 x.2.2 := by
  induction p generalizing st x with
  | ret a =>
      cases h
      exact .ret a st
  | op o k ih =>
      cases o with
      | fork => cases h
      | call o =>
          simp only [execute] at h
          split at h
          · cases h
          · next r st' hexec =>
              obtain ⟨x', hx', rfl⟩ := Option.map_eq_some_iff.mp h
              exact .call (P.exec_sound hexec) (ih r hx')

/-- If executing a program ends with a property, some execution has that property. -/
theorem exists_executes_of_execute {α : Type} (P : ForkPlayer S M) (pid : ℕ) (p : ForkProg Op Res α)
    (st : Loc × σ) (Q : List (Happening Op Res Loc σ Sig) → Bool)
    (h : ((execute P pid p st).elim false fun x => Q x.1) = true) :
    ∃ tr a st', S.Executes pid p st tr a st' ∧ Q tr = true := by
  cases hx : execute P pid p st with
  | none => simp [hx] at h
  | some x => exact ⟨x.1, x.2.1, x.2.2, executes_of_execute hx, by simpa [hx] using h⟩

/-- If playing a schedule ends with a property, some run has that property. -/
theorem exists_run_of_play (P : ForkPlayer S M) (picks : List (ForkPick Sig M)) (l : Loc) (s : σ)
    (Q : List (Happening Op Res Loc σ Sig) → Family Op Res Loc σ Ctl → Bool)
    (h : ((play P picks [] (S.alone l s)).elim false fun p => Q p.1 p.2) = true) :
    ∃ tr c, S.Run l s tr c ∧ Q tr c = true := by
  cases hp : play P picks [] (S.alone l s) with
  | none => simp [hp] at h
  | some p =>
      obtain ⟨tr, c⟩ := p
      exact ⟨tr, c, path_of_play (.refl _) hp, by simpa [hp] using h⟩

end Forking

end Concurrency
