import Sope.Concurrency.Monitor

/-! # Systems that are watched

A `Monitor` for each thread of a system. If every program of a thread keeps to its monitor, from the
state in which the thread came back to its loop, then in every run no operation is performed in a state
that does not allow it.

* `Watched` — the programs keep to the monitors.
* `Watched.always` — what that says of runs. -/

namespace Concurrency

variable {Tid Op X σ Ctl : Type} {Res : Op → Type} [DecidableEq Tid]

/-- The programs of the threads keep to their monitors; `post` is what a thread guarantees each time it
comes back to its loop. -/
structure Watched (S : System Tid Op Res σ Ctl) (M : Tid → Monitor Op Res X) (post : Tid → Ctl → X → Prop) :
    Prop where
  /-- At first nothing has been done. -/
  start : ∀ t, post t (S.start t) (M t).start
  /-- Every program keeps to the monitor. -/
  body : ∀ t ctl x, post t ctl x → (S.body t ctl).wp (M t).protocol (post t) x
  /-- A thread that is taken away from its operation need not have kept to it. -/
  divert : ∀ t o s ctl s' x, S.divert t o s ctl s' → post t ctl x

namespace Watched

variable {S : System Tid Op Res σ Ctl} {M : Tid → Monitor Op Res X} {post : Tid → Ctl → X → Prop}
  {tr : List (Event Tid Op Res σ)} {c : Config Tid Op Res σ Ctl}

/-- The state of each monitor is known from the run. -/
def certificate (h : Watched S M post) : Certificate S fun t => (M t).protocol where
  assumes _ := True
  assumes_append := id
  inv tr _ g := g = fun t => (M t).after t tr
  post := post
  init _ := ⟨_, rfl, h.start⟩
  exec {tr c g t o k r s' Φ} _ _ hinv _ hrule _ := by
    subst hinv
    exact ⟨_, hrule.2 r, Monitor.after_append_eq_update.symm⟩
  loop {tr c g t x} hinv _ hpost := ⟨g t, h.body t x _ hpost, by rwa [Function.update_eq_self]⟩
  divert {tr c g t o k x s' Φ} hinv _ _ hd :=
    ⟨g t, h.divert _ _ _ _ _ _ hd, by rwa [Function.update_eq_self]⟩
  env hinv _ := hinv

/-- What is left of each program keeps to its monitor. -/
theorem accepts (h : Watched S M post) (hr : S.Run tr c) (t : Tid) :
    (c.prog t).wp (M t).protocol (post t) ((M t).after t tr) := by
  obtain ⟨g, hinv, hg⟩ := h.certificate.run hr trivial
  have hg := hg t
  rwa [show g = fun t => (M t).after t tr from hinv] at hg

/-- **No operation is performed in a state that does not allow it.** -/
theorem always (h : Watched S M post) (hr : S.Run tr c) :
    Always (fun tr e => (M e.tid).allows ((M e.tid).after e.tid tr) e.op) tr := by
  intro tr₁ e tr₂ htr
  subst htr
  obtain ⟨c₁, k, s', hr, -, hp, -⟩ := hr.split
  have hop := h.accepts hr e.tid
  rw [hp] at hop
  exact hop.1

end Watched

end Concurrency
