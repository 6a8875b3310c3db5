import Sope.Concurrency.Forking

/-! # One process among others

What a process does from the beginning of a program to its end, while the others change the shared state,
and while signals come.

* `Forking.Passes` — the process goes through a program.
* `Forking.Frame` — what nothing but some of the calls changes. It holds from one state to a later one, with
  what has happened in between, and it is kept by the handlers.
* `Frame.of_passes`, `Frame.step` — what a passage keeps, up to its end and up to the next call. -/

namespace Concurrency

variable {Op : Type} {Res : Op → Type} {Loc σ Ctl Sig α β : Type}

/-- The program does not fork, and all its calls are in `P`. -/
def ForkProg.Calls (P : Op → Prop) : ForkProg Op Res α → Prop
  | .ret _ => True
  | .op .fork _ => False
  | .op (.call o) k => P o ∧ ∀ r, ForkProg.Calls P (k r)

/-- The calls of two programs one after the other. -/
theorem ForkProg.Calls.bind {P : Op → Prop} {p : ForkProg Op Res α} {f : α → ForkProg Op Res β}
    (hp : p.Calls P) (hf : ∀ a, (f a).Calls P) : ForkProg.Calls P (p >>= f) := by
  induction p with
  | ret a => exact hf a
  | op o k ih =>
      cases o with
      | fork => exact hp.elim
      | call o => exact ⟨hp.1, fun r => ih r (hp.2 r)⟩

/-- More calls may be allowed. -/
theorem ForkProg.Calls.mono {P P' : Op → Prop} (hP : ∀ o, P o → P' o) {p : ForkProg Op Res α}
    (hp : p.Calls P) : p.Calls P' := by
  induction p with
  | ret a => trivial
  | op o k ih =>
      cases o with
      | fork => exact hp.elim
      | call o => exact ⟨hP o hp.1, fun r => ih r (hp.2 r)⟩

/-- The calls of one of two programs. -/
theorem ForkProg.Calls.ite {P : Op → Prop} {c : Prop} [Decidable c] {p q : ForkProg Op Res α}
    (hp : c → p.Calls P) (hq : ¬ c → q.Calls P) : ForkProg.Calls P (if c then p else q) := by
  split
  · next hc => exact hp hc
  · next hc => exact hq hc

namespace Forking

/-- What happens in an execution: the calls of the program. -/
theorem Executes.of_calls {S : Forking Op Res Loc σ Ctl Sig} {P : Op → Prop} {pid : ℕ}
    {p : ForkProg Op Res α} {st st' : Loc × σ} {tr : List (Happening Op Res Loc σ Sig)} {a : α}
    (hp : p.Calls P) (h : S.Executes pid p st tr a st') : ∀ e ∈ tr, ∃ o r st₁, P o ∧ e = .exec pid o r st₁ := by
  induction h with
  | ret => exact fun e he => absurd he List.not_mem_nil
  | call _ _ ih =>
      intro e he
      rcases List.mem_cons.mp he with rfl | he
      · exact ⟨_, _, _, hp.1, rfl⟩
      · exact ih (hp.2 _) e he

/-- The process goes through a program. -/
inductive Passes (S : Forking Op Res Loc σ Ctl Sig) (others : σ → σ → Prop) (pid : ℕ) : {α : Type} →
    ForkProg Op Res α → Loc × σ → List (Happening Op Res Loc σ Sig) → α → Loc × σ → Prop
  | ret {α : Type} (a : α) (st : Loc × σ) : Passes S others pid (.ret a) st [] a st
  | call {α : Type} {o : Op} {r : Res o} {k : Res o → ForkProg Op Res α} {st st' st'' : Loc × σ} {a : α}
      {tr : List (Happening Op Res Loc σ Sig)} (sem : S.sem pid o st r st')
      (rest : Passes S others pid (k r) st' tr a st'') :
      Passes S others pid (.op (.call o) k) st (.exec pid o r st :: tr) a st''
  | take {α : Type} {p : ForkProg Op Res α} {st st₁ st₂ st₃ : Loc × σ} {sig : Sig} {a : α}
      {tr₁ tr₂ : List (Happening Op Res Loc σ Sig)} (take : S.take pid sig st st₁)
      (handle : Passes S others pid (S.handler sig) st₁ tr₁ () st₂)
      (rest : Passes S others pid p st₂ tr₂ a st₃) :
      Passes S others pid p st (.take pid sig st :: (tr₁ ++ tr₂)) a st₃
  | interrupt {α : Type} {o : Op} {r : Res o} {k : Res o → ForkProg Op Res α} {st st₁ st₂ st₃ : Loc × σ}
      {sig : Sig} {a : α} {tr₁ tr₂ : List (Happening Op Res Loc σ Sig)}
      (interrupt : S.interrupt pid sig o st r st₁)
      (handle : Passes S others pid (S.handler sig) st₁ tr₁ () st₂)
      (rest : Passes S others pid (k r) st₂ tr₂ a st₃) :
      Passes S others pid (.op (.call o) k) st (.interrupt pid sig o r st :: (tr₁ ++ tr₂)) a st₃
  | others {α : Type} {p : ForkProg Op Res α} {l : Loc} {s s' : σ} {st : Loc × σ} {a : α}
      {tr : List (Happening Op Res Loc σ Sig)} (step : others s s')
      (rest : Passes S others pid p (l, s') tr a st) : Passes S others pid p (l, s) tr a st

section

variable {S : Forking Op Res Loc σ Ctl Sig} {others : σ → σ → Prop} {pid : ℕ} {st st' st'' : Loc × σ}
  {tr tr' : List (Happening Op Res Loc σ Sig)} {a : α} {b : β}

/-- A passage through two programs one after the other. -/
theorem Passes.of_bind {p : ForkProg Op Res α} {f : α → ForkProg Op Res β}
    (h : S.Passes others pid (p >>= f) st tr b st'') : ∃ a st' tr₁ tr₂, S.Passes others pid p st tr₁ a st' ∧
      S.Passes others pid (f a) st' tr₂ b st'' ∧ tr = tr₁ ++ tr₂ := by
  -- on the passage; `p` ends where its program is `ret`
  generalize hq : p >>= f = q at h
  induction h generalizing p with
  | ret b st =>
      cases p with
      | ret a =>
          change f a = _ at hq
          exact ⟨a, st, [], [], .ret a st, hq ▸ .ret b st, rfl⟩
      | op o k => nomatch hq
  | @call _ o r k st _ _ _ tr sem rest ih =>
      cases p with
      | ret a =>
          change f a = _ at hq
          exact ⟨a, st, [], _, .ret a st, hq ▸ .call sem rest, rfl⟩
      | op o k =>
          cases hq
          obtain ⟨a, st', tr₁, tr₂, hp, hf, rfl⟩ := ih rfl
          exact ⟨a, st', _, tr₂, .call sem hp, hf, rfl⟩
  | take take handle _ _ ih =>
      obtain ⟨a, st', tr₁, tr₂, hp, hf, rfl⟩ := ih hq
      exact ⟨a, st', _, tr₂, .take take handle hp, hf, by rw [List.cons_append, List.append_assoc]⟩
  | @interrupt _ o r k st _ _ _ sig _ tr₁ tr₂ interrupt handle rest _ ih =>
      cases p with
      | ret a =>
          change f a = _ at hq
          exact ⟨a, st, [], _, .ret a st, hq ▸ .interrupt interrupt handle rest, rfl⟩
      | op o k =>
          cases hq
          obtain ⟨a, st', tr₁, tr₂, hp, hf, rfl⟩ := ih rfl
          exact ⟨a, st', _, tr₂, .interrupt interrupt handle hp, hf,
            by rw [List.cons_append, List.append_assoc]⟩
  | others step _ ih =>
      obtain ⟨a, st', tr₁, tr₂, hp, hf, rfl⟩ := ih hq
      exact ⟨a, st', tr₁, tr₂, .others step hp, hf, rfl⟩

/-- A relation between a state and a later one that is kept by the calls in `P` and by whatever may come in
between. -/
structure Frame (S : Forking Op Res Loc σ Ctl Sig) (others : σ → σ → Prop) (pid : ℕ) (P : Op → Prop)
    (Q : Loc × σ → List (Happening Op Res Loc σ Sig) → Loc × σ → Prop) : Prop where
  refl : ∀ st, Q st [] st
  trans : ∀ {st tr st' tr' st''}, Q st tr st' → Q st' tr' st'' → Q st (tr ++ tr') st''
  call : ∀ {o st r st'}, P o → S.sem pid o st r st' → Q st [.exec pid o r st] st'
  take : ∀ {sig st st'}, S.take pid sig st st' → Q st [.take pid sig st] st'
  interrupt : ∀ {sig o st r st'}, S.interrupt pid sig o st r st' → Q st [.interrupt pid sig o r st] st'
  others : ∀ {l s s'}, others s s' → Q (l, s) [] (l, s')
  handler : ∀ sig, ForkProg.Calls P (S.handler sig)

namespace Frame

variable {P : Op → Prop} {Q : Loc × σ → List (Happening Op Res Loc σ Sig) → Loc × σ → Prop}

/-- What a passage through such calls keeps. -/
theorem of_passes (F : S.Frame others pid P Q) {p : ForkProg Op Res α} (hp : p.Calls P)
    (h : S.Passes others pid p st tr a st') : Q st tr st' := by
  induction h with
  | ret a st => exact F.refl st
  | call sem _ ih => exact F.trans (F.call hp.1 sem) (ih (hp.2 _))
  | take take _ _ ihHandler ihRest =>
      exact F.trans (F.take take) (F.trans (ihHandler (F.handler _)) (ihRest hp))
  | interrupt interrupt _ _ ihHandler ihRest =>
      exact F.trans (F.interrupt interrupt) (F.trans (ihHandler (F.handler _)) (ihRest (hp.2 _)))
  | others step _ ih => exact F.trans (F.others step) (ih hp)

/-- What every passage keeps, if every call does. -/
theorem of_passes_all (F : S.Frame others pid P Q) (hP : ∀ o, P o) {p : ForkProg Op Res α}
    (h : S.Passes others pid p st tr a st') : Q st tr st' := by
  induction h with
  | ret a st => exact F.refl st
  | call sem _ ih => exact F.trans (F.call (hP _) sem) ih
  | take take _ _ ihHandler ihRest => exact F.trans (F.take take) (F.trans ihHandler ihRest)
  | interrupt interrupt _ _ ihHandler ihRest =>
      exact F.trans (F.interrupt interrupt) (F.trans ihHandler ihRest)
  | others step _ ih => exact F.trans (F.others step) ih

/-- The end of a passage. -/
theorem ret (F : S.Frame others pid P Q) {a' : α} (h : S.Passes others pid (.ret a') st tr a st') :
    a = a' ∧ Q st tr st' := by
  generalize hp : (Prog.ret a' : ForkProg Op Res α) = p at h
  induction h with
  | ret a st =>
      cases hp
      exact ⟨rfl, F.refl st⟩
  | call => nomatch hp
  | take take handle _ _ ih =>
      obtain ⟨rfl, hQ⟩ := ih hp
      exact ⟨rfl, F.trans (F.take take) (F.trans (F.of_passes (F.handler _) handle) hQ)⟩
  | interrupt => nomatch hp
  | others step _ ih =>
      obtain ⟨rfl, hQ⟩ := ih hp
      exact ⟨rfl, F.trans (F.others step) hQ⟩

/-- The next call of a passage, with what comes after it; it is performed or interrupted. -/
theorem next (F : S.Frame others pid P Q) {o : Op} {k : Res o → ForkProg Op Res α}
    (h : S.Passes others pid (.op (.call o) k) st tr a st') :
    ∃ st₁ r st₂ tr₁ tr₂ tr₃, Q st tr₁ st₁ ∧
      ((S.sem pid o st₁ r st₂ ∧ tr₂ = [.exec pid o r st₁]) ∨
        ∃ sig st₁' tr', S.interrupt pid sig o st₁ r st₁' ∧ Q st₁' tr' st₂ ∧
          tr₂ = .interrupt pid sig o r st₁ :: tr') ∧
      S.Passes others pid (k r) st₂ tr₃ a st' ∧ tr = tr₁ ++ (tr₂ ++ tr₃) := by
  generalize hp : (Prog.op (ForkOp.call o) k : ForkProg Op Res α) = p at h
  induction h with
  | ret => nomatch hp
  | @call _ _ r _ st st₂ _ _ tr sem rest =>
      cases hp
      exact ⟨st, r, st₂, [], _, tr, F.refl st, .inl ⟨sem, rfl⟩, rest, rfl⟩
  | @take _ _ st _ _ _ sig _ tr₁ tr₂ take handle _ _ ih =>
      obtain ⟨st₁, r, st₂, tr₃, tr₄, tr₅, hQ, hdone, hrest, rfl⟩ := ih hp
      refine ⟨st₁, r, st₂, .take pid sig st :: (tr₁ ++ tr₃), tr₄, tr₅, ?_, hdone, hrest, ?_⟩
      · exact F.trans (F.take take) (F.trans (F.of_passes (F.handler _) handle) hQ)
      · rw [List.cons_append, List.append_assoc]
  | @interrupt _ _ r _ st st₁ st₂ _ sig _ tr₁ tr₂ interrupt handle rest =>
      cases hp
      exact ⟨st, r, st₂, [], _, tr₂, F.refl st,
        .inr ⟨sig, st₁, tr₁, interrupt, F.of_passes (F.handler _) handle, rfl⟩, rest, rfl⟩
  | others step _ ih =>
      obtain ⟨st₁, r, st₂, tr₃, tr₄, tr₅, hQ, hdone, hrest, rfl⟩ := ih hp
      exact ⟨st₁, r, st₂, tr₃, tr₄, tr₅, F.trans (F.others step) hQ, hdone, hrest, rfl⟩

/-- The next call of a passage, if signals do not interrupt it. -/
theorem step (F : S.Frame others pid P Q) {o : Op} {k : Res o → ForkProg Op Res α}
    (hwaits : ∀ sig st r st', ¬ S.interrupt pid sig o st r st')
    (h : S.Passes others pid (.op (.call o) k) st tr a st') :
    ∃ st₁ r st₂ tr₁ tr₂, Q st tr₁ st₁ ∧ S.sem pid o st₁ r st₂ ∧ S.Passes others pid (k r) st₂ tr₂ a st' ∧
      tr = tr₁ ++ .exec pid o r st₁ :: tr₂ := by
  obtain ⟨st₁, r, st₂, tr₁, tr₂, tr₃, hQ, ⟨sem, rfl⟩ | ⟨_, _, _, hint, _⟩, hrest, rfl⟩ := F.next h
  · exact ⟨st₁, r, st₂, tr₁, tr₃, hQ, sem, hrest, rfl⟩
  · exact (hwaits _ _ _ _ hint).elim

/-- The next call of a passage, if it is one of those in `P`. -/
theorem skip (F : S.Frame others pid P Q) {o : Op} {k : Res o → ForkProg Op Res α} (ho : P o)
    (h : S.Passes others pid (.op (.call o) k) st tr a st') :
    ∃ r st₁ tr₁ tr₂, Q st tr₁ st₁ ∧ S.Passes others pid (k r) st₁ tr₂ a st' ∧ tr = tr₁ ++ tr₂ := by
  obtain ⟨st₁, r, st₂, tr₁, tr₂, tr₃, hQ, hdone, hrest, rfl⟩ := F.next h
  refine ⟨r, st₂, tr₁ ++ tr₂, tr₃, F.trans hQ ?_, hrest, (List.append_assoc ..).symm⟩
  rcases hdone with ⟨sem, rfl⟩ | ⟨sig, st₁', tr', hint, hQ', rfl⟩
  · exact F.call ho sem
  · exact F.trans (F.interrupt hint) hQ'

end Frame

end

end Forking

end Concurrency
