import Sope.Concurrency.System

/-! # Playing a schedule

The steps of a `System` are relations. A `Player` computes some of them: the result of an operation,
a move of the surroundings, a diversion. Given a schedule, the steps it computes form a run
(`System.exists_run_of_play`), so that the existence of a run with a decidable property is a
computation. -/

namespace Concurrency

variable {Tid Op : Type} {Res : Op → Type} {σ Ctl M : Type} [DecidableEq Tid]

/-- Computed steps of a system: functions whose values are steps that the system allows. `M` names
the moves of the surroundings. -/
structure Player (S : System Tid Op Res σ Ctl) (M : Type) where
  /-- Perform an operation. -/
  exec : Tid → (o : Op) → σ → Option (Res o × σ)
  /-- Move the surroundings. -/
  env : M → σ → Option σ
  /-- Take a thread away from an operation. -/
  divert : Tid → Op → σ → Option (Ctl × σ)
  /-- Computed results are results of the system. -/
  exec_sound : ∀ {t o s r s'}, exec t o s = some (r, s') → S.sem t o s r s'
  /-- Computed moves are moves of the system. -/
  env_sound : ∀ {m s s'}, env m s = some s' → S.env s s'
  /-- Computed diversions are diversions of the system. -/
  divert_sound : ∀ {t o s x s'}, divert t o s = some (x, s') → S.divert t o s x s'

/-- An entry of a schedule. -/
inductive Pick (Tid M : Type) : Type
  /-- The thread performs its next operation, or goes round its loop. -/
  | run (t : Tid)
  /-- The thread is taken away from its next operation. -/
  | divert (t : Tid)
  /-- The surroundings move. -/
  | env (m : M)

/-- The steps that `G` allows. -/
def Player.onlyIf {S : System Tid Op Res σ Ctl} (P : Player S M) (G : Tid → Op → σ → Prop)
    [∀ t o s, Decidable (G t o s)] : Player (S.onlyIf G) M where
  exec t o s := if G t o s then P.exec t o s else none
  env := P.env
  divert t o s := if G t o s then P.divert t o s else none
  exec_sound {t o s r s'} h := by
    split at h
    · next hG => exact ⟨hG, P.exec_sound h⟩
    · cases h
  env_sound h := P.env_sound h
  divert_sound {t o s x s'} h := by
    split at h
    · next hG => exact ⟨hG, P.divert_sound h⟩
    · cases h

namespace System

variable {S : System Tid Op Res σ Ctl}

/-- One step of a schedule. -/
def advance (P : Player S M) (c : Config Tid Op Res σ Ctl) :
    Pick Tid M → Option (Option (Event Tid Op Res σ) × Config Tid Op Res σ Ctl)
  | .run t =>
      match c.prog t with
      | .ret x => some (none, ⟨c.shared, Function.update c.prog t (S.body t x)⟩)
      | .op o k =>
          match P.exec t o c.shared with
          | none => none
          | some (r, s') => some (some ⟨t, o, r, c.shared⟩, ⟨s', Function.update c.prog t (k r)⟩)
  | .divert t =>
      match c.prog t with
      | .ret _ => none
      | .op o _ =>
          match P.divert t o c.shared with
          | none => none
          | some (x, s') => some (none, ⟨s', Function.update c.prog t (.ret x)⟩)
  | .env m =>
      match P.env m c.shared with
      | none => none
      | some s' => some (none, ⟨s', c.prog⟩)

/-- The steps of a schedule, with the operations performed, after those in `tr`. -/
def play (P : Player S M) : List (Pick Tid M) → List (Event Tid Op Res σ) →
    Config Tid Op Res σ Ctl → Option (List (Event Tid Op Res σ) × Config Tid Op Res σ Ctl)
  | [], tr, c => some (tr, c)
  | p :: rest, tr, c =>
      match advance P c p with
      | none => none
      | some (e, c') => play P rest (tr ++ e.toList) c'

/-- A computed step is a step. -/
theorem step_of_advance {P : Player S M} {c c' : Config Tid Op Res σ Ctl} {p : Pick Tid M}
    {e : Option (Event Tid Op Res σ)} (h : advance P c p = some (e, c')) : S.Step c e c' := by
  cases p with
  | run t =>
      simp only [advance] at h
      split at h
      · next x hp =>
          cases h
          exact .loop hp
      · next o k hp =>
          split at h
          · cases h
          · next r s' hr =>
              cases h
              exact .exec hp (P.exec_sound hr)
  | divert t =>
      simp only [advance] at h
      split at h
      · cases h
      · next o k hp =>
          split at h
          · cases h
          · next x s' hx =>
              cases h
              exact .divert hp (P.divert_sound hx)
  | env m =>
      simp only [advance] at h
      split at h
      · cases h
      · next s' hs =>
          cases h
          exact .env (P.env_sound hs)

/-- The steps of a schedule continue a path. -/
theorem path_of_play {P : Player S M} {picks : List (Pick Tid M)}
    {tr tr' : List (Event Tid Op Res σ)} {c₀ c c' : Config Tid Op Res σ Ctl} (hp : S.Path c₀ tr c)
    (h : play P picks tr c = some (tr', c')) : S.Path c₀ tr' c' := by
  induction picks generalizing tr c with
  | nil =>
      cases h
      exact hp
  | cons p rest ih =>
      simp only [play] at h
      split at h
      · cases h
      · next e c₁ he => exact ih (hp.step (step_of_advance he)) h

/-- If playing a schedule ends with a property, some path has that property. -/
theorem exists_path_of_play (P : Player S M) (picks : List (Pick Tid M))
    (c₀ : Config Tid Op Res σ Ctl)
    (Q : List (Event Tid Op Res σ) → Config Tid Op Res σ Ctl → Bool)
    (h : ((play P picks [] c₀).elim false fun p => Q p.1 p.2) = true) :
    ∃ tr c, S.Path c₀ tr c ∧ Q tr c = true := by
  cases hp : play P picks [] c₀ with
  | none => simp [hp] at h
  | some p =>
      obtain ⟨tr, c⟩ := p
      exact ⟨tr, c, path_of_play (.refl c₀) hp, by simpa [hp] using h⟩

/-- **A schedule is a run.** If playing a schedule from an initial configuration ends with a
property, some run has that property. -/
theorem exists_run_of_play (P : Player S M) (picks : List (Pick Tid M))
    {c₀ : Config Tid Op Res σ Ctl} (h₀ : S.Initial c₀)
    (Q : List (Event Tid Op Res σ) → Config Tid Op Res σ Ctl → Bool)
    (h : ((play P picks [] c₀).elim false fun p => Q p.1 p.2) = true) :
    ∃ tr c, S.Run tr c ∧ Q tr c = true := by
  obtain ⟨tr, c, hp, hQ⟩ := exists_path_of_play P picks c₀ Q h
  exact ⟨tr, c, ⟨c₀, h₀, hp⟩, hQ⟩

end System

end Concurrency
