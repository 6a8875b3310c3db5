import Mathlib.Algebra.BigOperators.Group.Finset.Basic
import Mathlib.Data.Finset.Update
import Sope.Concurrency.Passage
import Sope.Concurrency.Protocol

/-! # Protocols for processes that fork

A `Protocol` for the programs of forking processes gives a rule to every operation and to `fork`. A
`ForkProof` ties the ghost value of each process to its local state and to the shared state, says what every
kind of step does to them, and keeps a statement about the sum of the weights of all ghost values: a fork
splits the weight of the process among it and its child.

Its soundness theorem is `ForkProof.run`. -/

namespace Concurrency

variable {Op : Type} {Res : Op → Type} {Loc σ Ctl Sig Ghost M : Type}

section

variable {P : Protocol (ForkOp Op) (ForkOp.Res Res) Ghost} {α : Type} {g : Ghost}

/-- How the process goes on that has forked a child. -/
theorem ForkProg.wp_parent {n : ℕ} {p q r : ForkProg Op Res α} {Q : α → Ghost → Prop} (hn : 0 < n)
    (h : r.wp P Q g) : Prog.wp P (if (n : ℤ) < 0 then p else if (n : ℤ) = 0 then q else r) Q g := by
  rwa [if_neg (by omega), if_neg (by omega)]

/-- A program whose calls leave the ghost value as it is. -/
theorem ForkProg.Calls.wp {N : Op → Prop} {p : ForkProg Op Res α} {Q : α → Ghost → Prop}
    (hrule : ∀ o Φ, N o → (∀ r, Φ r g) → P.rule g (.call o) Φ) (hp : p.Calls N) (hQ : ∀ a, Q a g) :
    p.wp P Q g := by
  induction p with
  | ret a => exact hQ a
  | op o k ih =>
      cases o with
      | fork => exact hp.elim
      | call o => exact hrule o _ hp.1 fun r => ih r (hp.2 r)

end

/-- A proof about a system of forking processes. -/
structure ForkProof (S : Forking Op Res Loc σ Ctl Sig) (P : Protocol (ForkOp Op) (ForkOp.Res Res) Ghost)
    (M : Type) [AddCommMonoid M] where
  /-- What is assumed of every step. -/
  Admits : Happening Op Res Loc σ Sig → Prop
  /-- The process has ended. -/
  Over : Loc → Prop
  /-- What a process guarantees when its program returns a control value. -/
  post : Ctl → Ghost → Prop
  /-- What it guarantees when it has ended. -/
  Final : Ghost → Prop
  /-- What a ghost value of a process means. -/
  Sees : ℕ → Loc × σ → Ghost → Prop
  /-- What is known anyway of the number of processes and the shared state. -/
  Sound : ℕ → σ → Prop
  /-- The weight of the ghost value of a process, after what has happened. -/
  weight : List (Happening Op Res Loc σ Sig) → ℕ → Ghost → M
  /-- What is true of the sum of all weights. -/
  Whole : List (Happening Op Res Loc σ Sig) → σ → M → Prop
  stops : ∀ {pid l s st'}, Over l → ¬ S.Acts pid (l, s) st'
  stable : ∀ {pid pid' l s l' s' l₁ g}, pid' ≠ pid → S.Acts pid (l, s) (l', s') →
    Sees pid' (l₁, s) g → Sees pid' (l₁, s') g
  stable_env : ∀ {pid l s s' g}, S.env s s' → Sees pid (l, s) g → Sees pid (l, s') g
  weight_other : ∀ {tr e pid g}, e.pid ≠ some pid → weight (tr ++ [e]) pid g = weight tr pid g
  exec : ∀ {tr n pid o r l s l' s' g Φ}, Sound n s → Sees pid (l, s) g → P.rule g (.call o) Φ →
    Admits (.exec pid o r (l, s)) → S.sem pid o (l, s) r (l', s') →
    ∃ g', Sees pid (l', s') g' ∧ (Over l' → Final g') ∧ (¬ Over l' → Φ r g') ∧
      ∀ m, Whole tr s (weight tr pid g + m) →
        Whole (tr ++ [.exec pid o r (l, s)]) s' (weight (tr ++ [.exec pid o r (l, s)]) pid g' + m)
  fork : ∀ {tr n pid l s child l' s' g Φ}, Sound n s → Sees pid (l, s) g → P.rule g .fork Φ → 0 < n →
    (∀ e ∈ tr ++ [.fork pid n], e.pid ≠ some n) → Admits (.fork pid n) →
    S.fork pid n (l, s) child (l', s') →
    ∃ g' g'', Sees pid (l', s') g' ∧ Sees n (child, s') g'' ∧ ¬ Over l' ∧ ¬ Over child ∧
      Φ (n : ℤ) g' ∧ Φ (0 : ℤ) g'' ∧ ∀ m, Whole tr s (weight tr pid g + m) →
        Whole (tr ++ [.fork pid n]) s'
          (weight (tr ++ [.fork pid n]) pid g' + (weight (tr ++ [.fork pid n]) n g'' + m))
  forkFails : ∀ {tr pid l s l' s' g Φ}, Sees pid (l, s) g → P.rule g .fork Φ → Admits (.forkFails pid) →
    S.forkFails pid (l, s) (l', s') →
    ∃ g', Sees pid (l', s') g' ∧ ¬ Over l' ∧ Φ (-1 : ℤ) g' ∧ ∀ m, Whole tr s (weight tr pid g + m) →
      Whole (tr ++ [.forkFails pid]) s' (weight (tr ++ [.forkFails pid]) pid g' + m)
  loop : ∀ {tr pid l s g x}, Sees pid (l, s) g → post x g → S.goesOn l →
    ∃ g', Sees pid (l, s) g' ∧ (S.body x).wp P post g' ∧ ∀ m, Whole tr s (weight tr pid g + m) →
      Whole (tr ++ [.loop pid]) s (weight (tr ++ [.loop pid]) pid g' + m)
  take : ∀ {tr pid sig l s l' s' g}, Sees pid (l, s) g → Admits (.take pid sig (l, s)) →
    S.take pid sig (l, s) (l', s') →
    ∃ g', Sees pid (l', s') g' ∧ ¬ Over l' ∧ (S.handler sig).wp P (fun _ g'' => g'' = g) g' ∧
      ∀ m, Whole tr s (weight tr pid g + m) →
        Whole (tr ++ [.take pid sig (l, s)]) s' (weight (tr ++ [.take pid sig (l, s)]) pid g' + m)
  interrupt : ∀ {tr pid sig o r l s l' s' g Φ}, Sees pid (l, s) g → P.rule g (.call o) Φ →
    Admits (.interrupt pid sig o r (l, s)) → S.interrupt pid sig o (l, s) r (l', s') →
    ∃ g' g₁, Sees pid (l', s') g' ∧ ¬ Over l' ∧ Φ r g₁ ∧
      (S.handler sig).wp P (fun _ g'' => g'' = g₁) g' ∧ ∀ m, Whole tr s (weight tr pid g + m) →
        Whole (tr ++ [.interrupt pid sig o r (l, s)]) s'
          (weight (tr ++ [.interrupt pid sig o r (l, s)]) pid g' + m)
  env : ∀ {tr s s' m}, S.env s s' → Admits .env → Whole tr s m → Whole (tr ++ [.env]) s' m

namespace ForkProof

variable {S : Forking Op Res Loc σ Ctl Sig} {P : Protocol (ForkOp Op) (ForkOp.Res Res) Ghost}
  [AddCommMonoid M] {F : ForkProof S P M} {tr : List (Happening Op Res Loc σ Sig)}
  {e : Happening Op Res Loc σ Sig} {c c' : Family Op Res Loc σ Ctl}

variable (F) in
/-- A process with its ghost value: what is left of its program is verified, unless it has ended. -/
structure Holds (s : σ) (pid : ℕ) (member : Running Op Res Loc Ctl) (g : Ghost) : Prop where
  sees : F.Sees pid (member.loc, s) g
  final : F.Over member.loc → F.Final g
  prog : ¬ F.Over member.loc → member.prog.wp P F.post g

variable (F) in
/-- All processes with their ghost values. -/
structure Invariant (tr : List (Happening Op Res Loc σ Sig)) (c : Family Op Res Loc σ Ctl) (g : ℕ → Ghost) :
    Prop where
  holds : ∀ pid member, c.members[pid]? = some member → F.Holds c.shared pid member (g pid)
  whole : F.Whole tr c.shared (∑ pid ∈ Finset.range c.members.length, F.weight tr pid (g pid))
  fresh : ∀ e ∈ tr, ∀ pid, e.pid = some pid → pid < c.members.length

/-! ## Steps -/

/-- A sum with one summand put in front. -/
theorem sum_range_eq {f : ℕ → M} {n i : ℕ} (hlt : i < n) :
    ∑ j ∈ Finset.range n, f j = f i + ∑ j ∈ (Finset.range n).erase i, f j :=
  (Finset.add_sum_erase _ f (Finset.mem_range.mpr hlt)).symm

/-- The weights after something that one process has done. -/
theorem sum_weight_update {g : ℕ → Ghost} {pid n : ℕ} {g' : Ghost} (hlt : pid < n) (he : e.pid = some pid) :
    ∑ j ∈ Finset.range n, F.weight (tr ++ [e]) j (Function.update g pid g' j)
      = F.weight (tr ++ [e]) pid g' + ∑ j ∈ (Finset.range n).erase pid, F.weight tr j (g j) := by
  rw [sum_range_eq hlt, Function.update_self]
  congr 1
  refine Finset.sum_congr rfl fun j hj => ?_
  have hne : j ≠ pid := (Finset.mem_erase.mp hj).1
  rw [Function.update_of_ne hne, F.weight_other]
  rw [he]
  exact fun h => hne (Option.some.inj h).symm

/-- The processes when one of them has gone on. -/
theorem Invariant.holds_set {g : ℕ → Ghost} {s' : σ} {pid : ℕ} {member member' : Running Op Res Loc Ctl}
    {g' : Ghost} (h : F.Invariant tr c g) (hlt : pid < c.members.length)
    (hacts : S.Acts pid (member.loc, c.shared) (member'.loc, s')) (hholds : F.Holds s' pid member' g')
    {pid' : ℕ} {m : Running Op Res Loc Ctl} (hm : (c.members.set pid member')[pid']? = some m) :
    F.Holds s' pid' m (Function.update g pid g' pid') := by
  by_cases hpid : pid' = pid
  · subst hpid
    rw [List.getElem?_set_self hlt] at hm
    obtain rfl := Option.some.inj hm
    rwa [Function.update_self]
  · rw [List.getElem?_set_ne (Ne.symm hpid)] at hm
    rw [Function.update_of_ne hpid]
    obtain ⟨hsees, hfinal, hprog⟩ := h.holds pid' m hm
    exact ⟨F.stable hpid hacts hsees, hfinal, hprog⟩

/-- What has happened so far and now has been done by processes that are there. -/
theorem Invariant.fresh_append {g : ℕ → Ghost} {pid : ℕ} (h : F.Invariant tr c g)
    (hlt : pid < c.members.length) (he : e.pid = some pid) :
    ∀ e' ∈ tr ++ [e], ∀ pid', e'.pid = some pid' → pid' < c.members.length := by
  intro e' he' pid' hpid'
  rcases List.mem_append.mp he' with he' | he'
  · exact h.fresh e' he' pid' hpid'
  · obtain rfl := List.mem_singleton.mp he'
    rw [he] at hpid'
    obtain rfl := Option.some.inj hpid'
    exact hlt

/-- A step of one process. -/
theorem Invariant.member {g : ℕ → Ghost} {s' : σ} {pid : ℕ} {member member' : Running Op Res Loc Ctl}
    {g' : Ghost} (h : F.Invariant tr c g) (hmember : c.members[pid]? = some member)
    (he : e.pid = some pid) (hacts : S.Acts pid (member.loc, c.shared) (member'.loc, s'))
    (hholds : F.Holds s' pid member' g')
    (hwhole : ∀ m, F.Whole tr c.shared (F.weight tr pid (g pid) + m) →
      F.Whole (tr ++ [e]) s' (F.weight (tr ++ [e]) pid g' + m)) :
    F.Invariant (tr ++ [e]) ⟨s', c.members.set pid member'⟩ (Function.update g pid g') := by
  have hlt : pid < c.members.length := (List.getElem?_eq_some_iff.mp hmember).1
  refine ⟨fun pid' m hm => h.holds_set hlt hacts hholds hm, ?_, ?_⟩
  · have hwhole' := h.whole
    rw [sum_range_eq hlt] at hwhole'
    rw [List.length_set, sum_weight_update hlt he]
    exact hwhole _ hwhole'
  · rw [List.length_set]
    exact h.fresh_append hlt he

/-- A fork. -/
theorem Invariant.fork {g : ℕ → Ghost} {s' : σ} {pid : ℕ} {member member' child : Running Op Res Loc Ctl}
    {g' g'' : Ghost} (h : F.Invariant tr c g) (hmember : c.members[pid]? = some member)
    (hacts : S.Acts pid (member.loc, c.shared) (member'.loc, s'))
    (hholds : F.Holds s' pid member' g') (hchild : F.Holds s' c.members.length child g'')
    (hwhole : ∀ m, F.Whole tr c.shared (F.weight tr pid (g pid) + m) →
      F.Whole (tr ++ [.fork pid c.members.length]) s'
        (F.weight (tr ++ [.fork pid c.members.length]) pid g' +
          (F.weight (tr ++ [.fork pid c.members.length]) c.members.length g'' + m))) :
    F.Invariant (tr ++ [.fork pid c.members.length]) ⟨s', c.members.set pid member' ++ [child]⟩
      (Function.update (Function.update g pid g') c.members.length g'') := by
  have hlt : pid < c.members.length := (List.getElem?_eq_some_iff.mp hmember).1
  refine ⟨?_, ?_, ?_⟩
  · intro pid' m hm
    rcases Nat.lt_or_ge pid' c.members.length with hlt' | hge
    · rw [List.getElem?_append_left (by rwa [List.length_set])] at hm
      rw [Function.update_of_ne hlt'.ne]
      exact h.holds_set hlt hacts hholds hm
    · -- the new process is the last one
      rw [List.getElem?_append_right (by rwa [List.length_set]), List.length_set] at hm
      obtain rfl : pid' = c.members.length := by
        have := (List.getElem?_eq_some_iff.mp hm).1
        rw [List.length_singleton] at this
        omega
      rw [Nat.sub_self] at hm
      obtain rfl := Option.some.inj hm
      rwa [Function.update_self]
  · have hwhole' := h.whole
    rw [sum_range_eq hlt] at hwhole'
    have hold : ∑ j ∈ Finset.range c.members.length, F.weight (tr ++ [.fork pid c.members.length]) j
        (Function.update (Function.update g pid g') c.members.length g'' j)
        = ∑ j ∈ Finset.range c.members.length, F.weight (tr ++ [.fork pid c.members.length]) j
          (Function.update g pid g' j) := by
      refine Finset.sum_congr rfl fun j hj => ?_
      rw [Function.update_of_ne (Finset.mem_range.mp hj).ne]
    rw [List.length_append, List.length_set, List.length_singleton, Finset.sum_range_succ, hold,
      sum_weight_update hlt rfl, Function.update_self, add_assoc, add_comm (∑ j ∈ _, _)]
    exact hwhole _ hwhole'
  · rw [List.length_append, List.length_set]
    exact fun e' he' pid' hpid' => Nat.lt_succ_of_lt (h.fresh_append hlt rfl e' he' pid' hpid')

/-- Every step that is admitted. -/
theorem Invariant.step {g : ℕ → Ghost} (h : F.Invariant tr c g) (hsound : F.Sound c.members.length c.shared)
    (he : F.Admits e) (hstep : S.Step c e c') : ∃ g', F.Invariant (tr ++ [e]) c' g' := by
  -- a member that acts has not stopped, so its program keeps the protocol
  have hactive : ∀ {pid l p s'}, c.members[pid]? = some ⟨l, p⟩ → S.Acts pid (l, c.shared) s' →
      F.Sees pid (l, c.shared) (g pid) ∧ p.wp P F.post (g pid) := by
    intro pid l p st' hmember hacts
    have hholds := h.holds pid _ hmember
    exact ⟨hholds.sees, hholds.prog fun hover => F.stops hover hacts⟩
  cases hstep with
  | exec hmember hsem =>
      obtain ⟨hsees, hprog⟩ := hactive hmember (.exec hsem)
      obtain ⟨g', hsees', hfinal, hk, hwhole⟩ := F.exec hsound hsees hprog he hsem
      exact ⟨_, h.member hmember rfl (.exec hsem) ⟨hsees', hfinal, hk⟩ hwhole⟩
  | @fork pid l l' child s' k hmember hfork =>
      obtain ⟨hsees, hprog⟩ := hactive hmember (.fork hfork)
      have hlt : pid < c.members.length := (List.getElem?_eq_some_iff.mp hmember).1
      -- nothing has happened yet under the number of the new member
      have hfresh : ∀ e ∈ tr ++ [.fork pid c.members.length], e.pid ≠ some c.members.length := by
        rw [List.forall_mem_append, List.forall_mem_singleton]
        refine ⟨fun e he hpid => Nat.lt_irrefl _ (h.fresh e he _ hpid), ?_⟩
        exact fun hpid => hlt.ne (Option.some.inj hpid)
      obtain ⟨g', g'', hsees', hchild, hover, hover', hk, hk', hwhole⟩ :=
        F.fork hsound hsees hprog (by omega) hfresh he hfork
      exact ⟨_, h.fork hmember (.fork hfork) ⟨hsees', fun h => (hover h).elim, fun _ => hk⟩
        ⟨hchild, fun h => (hover' h).elim, fun _ => hk'⟩ hwhole⟩
  | forkFails hmember hfails =>
      obtain ⟨hsees, hprog⟩ := hactive hmember (.forkFails hfails)
      obtain ⟨g', hsees', hover, hk, hwhole⟩ := F.forkFails hsees hprog he hfails
      exact ⟨_, h.member hmember rfl (.forkFails hfails) ⟨hsees', fun h => (hover h).elim, fun _ => hk⟩
        hwhole⟩
  | loop hmember hgoesOn =>
      obtain ⟨hsees, hpost⟩ := hactive hmember (.loop hgoesOn)
      obtain ⟨g', hsees', hbody, hwhole⟩ := F.loop hsees hpost hgoesOn
      exact ⟨_, h.member hmember rfl (.loop hgoesOn)
        ⟨hsees', fun hover => (F.stops hover (.loop hgoesOn : Forking.Acts S 0 (_, c.shared) _)).elim, fun _ => hbody⟩
        hwhole⟩
  | take hmember htake =>
      obtain ⟨hsees, hprog⟩ := hactive hmember (.take htake)
      obtain ⟨g', hsees', hover, hhandler, hwhole⟩ := F.take hsees he htake
      refine ⟨_, h.member hmember rfl (.take htake) ⟨hsees', fun h => (hover h).elim, fun _ => ?_⟩ hwhole⟩
      exact Prog.wp_seq hhandler fun _ _ heq => heq ▸ hprog
  | interrupt hmember hinterrupt =>
      obtain ⟨hsees, hprog⟩ := hactive hmember (.interrupt hinterrupt)
      obtain ⟨g', g₁, hsees', hover, hk, hhandler, hwhole⟩ := F.interrupt hsees hprog he hinterrupt
      refine ⟨_, h.member hmember rfl (.interrupt hinterrupt) ⟨hsees', fun h => (hover h).elim, fun _ => ?_⟩
        hwhole⟩
      exact Prog.wp_seq hhandler fun _ _ heq => heq ▸ hk
  | env henv =>
      refine ⟨g, ?_, ?_, ?_⟩
      · intro pid member hmember
        obtain ⟨hsees, hfinal, hprog⟩ := h.holds pid member hmember
        exact ⟨F.stable_env henv hsees, hfinal, hprog⟩
      -- no member's weight changes
      · have hsame : ∀ pid, F.weight (tr ++ [.env]) pid (g pid) = F.weight tr pid (g pid) :=
          fun pid => F.weight_other nofun
        simp only [hsame]
        exact F.env henv he h.whole
      · intro e' he' pid hpid
        rcases List.mem_append.mp he' with he' | he'
        · exact h.fresh e' he' pid hpid
        · obtain rfl := List.mem_singleton.mp he'
          nomatch hpid

/-- **Soundness.** At the end of every run whose steps are admitted, every process has a ghost value that fits
its state, and from which the rest of its program is verified. -/
theorem run {l₀ : Loc} {s₀ : σ} {g₀ : Ghost} (hover : ¬ F.Over l₀) (hsees : F.Sees 0 (l₀, s₀) g₀)
    (hpost : F.post S.start g₀) (hwhole : F.Whole [] s₀ (F.weight [] 0 g₀))
    (hsound : ∀ tr c, S.Run l₀ s₀ tr c → (∀ e ∈ tr, F.Admits e) → F.Sound c.members.length c.shared)
    (hadmits : ∀ e ∈ tr, F.Admits e) (h : S.Run l₀ s₀ tr c) : ∃ g, F.Invariant tr c g := by
  refine Forking.Run.induction (I := fun tr c => ∃ g, F.Invariant tr c g) ?_ ?_ h hadmits
  · refine ⟨fun _ => g₀, ?_, ?_, fun _ he => nomatch he⟩
    · intro pid member hmember
      rw [Forking.alone, List.getElem?_singleton] at hmember
      split at hmember
      · next hpid =>
          subst hpid
          obtain rfl := Option.some.inj hmember
          exact ⟨hsees, fun h => (hover h).elim, fun _ => hpost⟩
      · nomatch hmember
    · have hsum : ∑ pid ∈ Finset.range 1, F.weight [] pid g₀ = F.weight [] 0 g₀ := Finset.sum_range_one _
      exact hsum ▸ hwhole
  · rintro tr c e c' hrun hall ⟨g, hg⟩ he hstep
    exact hg.step (hsound tr c hrun hall) he hstep

end ForkProof

end Concurrency
