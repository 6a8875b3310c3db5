import Sope.Forensic.Effects

/-! # Parents and children

Whatever happens, the list of children keeps account of the processes: every process but the first one is on
it, with a parent that is older, it has exited exactly if the process has ended, and only a child that has
exited is waited for.

* `Registers` — what a step does to the list.
* `Kinship` — the invariant, which holds in all runs (`kinship_of_run`). -/

namespace Sope.Forensic

open Concurrency

/-! ## The list of children -/

/-- What a step of the process `pid` may do to a child; `ends` if the process ends. -/
structure Becomes (pid : ℕ) (ends : Bool) (child child' : Child) : Prop where
  parent : child'.parent = child.parent
  process : child'.process = child.process
  exited : ∀ j, child.process = some j → (child'.exited = true ↔ child.exited = true ∨ ends = true ∧ j = pid)
  stays : child.exited = true → child'.exited = true
  reaped : child'.reaped = true → child.reaped = true ∨ child.exited = true
  unreaped : child'.reaped = false → child.reaped = false

/-- What it may do to the list of children: it may append a shell. -/
structure Registers (pid : ℕ) (ends : Bool) (children children' : List Child) : Prop where
  old : ∀ child ∈ children, ∃ child' ∈ children', Becomes pid ends child child'
  new : ∀ child' ∈ children', child' = ⟨pid, none, false, false⟩ ∨
    ∃ child ∈ children, Becomes pid ends child child'

section

variable {world : World} {args : ForensicArgs} {entries : Entries} {pid : ℕ} {st st' : State}
  {children : List Child}

/-- Nothing happens to a child. -/
theorem Becomes.refl (pid : ℕ) (child : Child) : Becomes pid false child child :=
  ⟨rfl, rfl, fun _ _ => by simp, id, .inl, id⟩

/-- Nothing happens to the list. -/
theorem Registers.refl (pid : ℕ) (children : List Child) : Registers pid false children children where
  old child h := ⟨child, h, .refl pid child⟩
  new child h := .inr ⟨child, h, .refl pid child⟩

/-- A shell is started. -/
theorem Registers.shell (pid : ℕ) (children : List Child) :
    Registers pid false children (children ++ [⟨pid, none, false, false⟩]) where
  old child h := ⟨child, List.mem_append_left _ h, .refl pid child⟩
  new child h := by
    rcases List.mem_append.mp h with h | h
    · exact .inr ⟨child, h, .refl pid child⟩
    · exact .inl (List.mem_singleton.mp h)

/-- All children are changed. -/
theorem Registers.map {ends : Bool} {f : Child → Child}
    (h : ∀ child ∈ children, Becomes pid ends child (f child)) :
    Registers pid ends children (children.map f) where
  old child hmem := ⟨f child, List.mem_map_of_mem hmem, h child hmem⟩
  new child' hmem := by
    obtain ⟨child, hchild, rfl⟩ := List.mem_map.mp hmem
    exact .inr ⟨child, hchild, h child hchild⟩

/-- One child is changed. -/
theorem Registers.modify {i : ℕ} {child : Child} {f : Child → Child} (hchild : children[i]? = some child)
    (h : Becomes pid false child (f child)) : Registers pid false children (children.modify i f) where
  old c hmem := by
    obtain ⟨j, hj⟩ := List.mem_iff_getElem?.mp hmem
    by_cases hij : i = j
    · subst hij
      obtain rfl := Option.some.inj (hchild.symm.trans hj)
      refine ⟨f child, List.mem_iff_getElem?.mpr ⟨i, ?_⟩, h⟩
      rw [List.getElem?_modify_eq, hj]
      rfl
    · refine ⟨c, List.mem_iff_getElem?.mpr ⟨j, ?_⟩, .refl pid c⟩
      rw [List.getElem?_modify_ne _ _ hij, hj]
  new c hmem := by
    obtain ⟨j, hj⟩ := List.mem_iff_getElem?.mp hmem
    by_cases hij : i = j
    · subst hij
      rw [List.getElem?_modify_eq, hchild] at hj
      obtain rfl := Option.some.inj hj
      exact .inr ⟨child, List.mem_of_getElem? hchild, h⟩
    · rw [List.getElem?_modify_ne _ _ hij] at hj
      exact .inr ⟨c, List.mem_of_getElem? hj, .refl pid c⟩

/-- A child that has exited is waited for. -/
theorem Registers.reap {i : ℕ} {child : Child} (hchild : children[i]? = some child)
    (hexited : child.exited = true) : Registers pid false children (reap children i) :=
  .modify hchild ⟨rfl, rfl, fun _ _ => by simp, id, fun _ => .inr hexited, nofun⟩

/-- A shell exits. -/
theorem registers_shellExits {s s' : Shared} (h : ShellExits s s') :
    Registers pid false s.children s'.children := by
  obtain ⟨i, child, hchild, hshell, hexited, rfl⟩ := h
  refine .modify hchild ⟨rfl, rfl, ?_, fun _ => rfl, .inl, id⟩
  intro j hj
  rw [hshell] at hj
  nomatch hj

/-- What a call does to the list. -/
theorem sem_registers {o : Call} {r : o.Res} (h : o.Sem world pid st r st') :
    Registers pid st'.1.ended st.2.children st'.2.children := by
  have hleaves := sem_leaves h
  rw [hleaves.ended]
  by_cases hends : o.ends = true
  · rw [hends, ends_children hends h]
    refine .map fun child _ => ?_
    by_cases hprocess : child.process = some pid
    · rw [if_pos hprocess]
      refine ⟨rfl, rfl, fun j hj => ?_, fun _ => rfl, .inl, id⟩
      exact iff_of_true rfl (.inr ⟨rfl, Option.some.inj (hj.symm.trans hprocess)⟩)
    · rw [if_neg hprocess]
      refine ⟨rfl, rfl, fun j hj => ?_, id, .inl, id⟩
      have hne : j ≠ pid := fun hj' => hprocess (hj' ▸ hj)
      simp [hne]
  · rw [Bool.not_eq_true] at hends
    rw [hends]
    cases o with
    | popen command =>
        rcases popen_children h with h | h <;> rw [h]
        · exact .refl pid _
        · exact .shell pid _
    | wait =>
        obtain ⟨i, child, -, hchild, hzombie, rfl⟩ | ⟨-, -, rfl⟩ := sem_wait h
        · simp only [Child.zombie, decide_eq_true_eq] at hzombie
          exact .reap hchild hzombie.2
        · exact .refl pid _
    | exit | crash => nomatch hends
    | _ =>
        rw [hleaves.children rfl]
        exact .refl pid _

/-- What a step that is no fork does to the list. -/
theorem take_registers {sig : Signal} (h : (forensic world args entries).take pid sig st st') :
    Registers pid st'.1.ended st.2.children st'.2.children := by
  obtain ⟨⟨hended, -⟩, rfl⟩ := h
  change Registers pid st.1.ended _ _
  rw [hended]
  exact .refl pid _

theorem interrupt_registers {sig : Signal} {o : Call} {r : o.Res}
    (h : (forensic world args entries).interrupt pid sig o st r st') :
    Registers pid st'.1.ended st.2.children st'.2.children := by
  obtain ⟨⟨hended, -⟩, -, h⟩ := h
  obtain ⟨-, -, hended', -, -, hshared⟩ := interrupted_leaves h
  rw [hended', hshared]
  change Registers pid st.1.ended _ _
  rw [hended]
  exact .refl pid _

theorem forkFails_registers (h : (forensic world args entries).forkFails pid st st') :
    Registers pid st'.1.ended st.2.children st'.2.children := by
  obtain ⟨⟨hended, -⟩, rfl⟩ := h
  change Registers pid st.1.ended _ _
  rw [hended]
  exact .refl pid _

/-- The children that a process has not waited for are its own affair: others add none, whatever they do. -/
theorem acts_unreaped {pid' : ℕ} {l l' : Local} {s s' : Shared} (hpid : pid' ≠ pid)
    (h : (forensic world args entries).Acts pid (l, s) (l', s'))
    (hnone : s.children.any (Child.unreaped pid') = false) :
    s'.children.any (Child.unreaped pid') = false := by
  rw [List.any_eq_false] at hnone ⊢
  have hregisters : ∀ {ends}, Registers pid ends s.children s'.children →
      ∀ child ∈ s'.children, ¬ child.unreaped pid' = true := by
    intro ends hregisters child' hmem hunreaped
    simp only [Child.unreaped, Bool.not_eq_true', decide_eq_true_eq] at hunreaped
    rcases hregisters.new child' hmem with rfl | ⟨child, hchild, hbecomes⟩
    · exact hpid hunreaped.1.symm
    · refine hnone child hchild ?_
      simp only [Child.unreaped, Bool.not_eq_true', decide_eq_true_eq]
      exact ⟨hbecomes.parent ▸ hunreaped.1, hbecomes.unreaped hunreaped.2⟩
  cases h with
  | exec sem => exact hregisters (sem_registers sem)
  | fork fork =>
      obtain ⟨-, h⟩ := fork
      cases h
      intro child hmem hunreaped
      rcases List.mem_append.mp hmem with hmem | hmem
      · exact hnone child hmem hunreaped
      · obtain rfl := List.mem_singleton.mp hmem
        simp only [Child.unreaped, decide_eq_true_eq] at hunreaped
        exact hpid hunreaped.1.symm
  | forkFails fails => exact hregisters (forkFails_registers fails)
  | loop => exact hnone
  | take take => exact hregisters (take_registers take)
  | interrupt interrupt => exact hregisters (interrupt_registers interrupt)

/-- The end of a process adds none. -/
theorem exited_unreaped (pid pid' : ℕ) (st : State) :
    (st.exited pid).2.children.any (Child.unreaped pid') = st.2.children.any (Child.unreaped pid') := by
  refine List.any_map.trans (congrArg (st.2.children.any ·) (funext fun child => ?_))
  simp only [Function.comp_apply]
  split <;> rfl

/-- Nor does the exit of a shell. -/
theorem shellExits_unreaped {s s' : Shared} (h : ShellExits s s')
    (hnone : s.children.any (Child.unreaped pid) = false) :
    s'.children.any (Child.unreaped pid) = false := by
  rw [List.any_eq_false] at hnone ⊢
  intro child' hmem hunreaped
  simp only [Child.unreaped, Bool.not_eq_true', decide_eq_true_eq] at hunreaped
  -- the step is one of a process that has nothing to do with it
  rcases (@registers_shellExits (pid + 1) _ _ h).new child' hmem with rfl | ⟨child, hchild, hbecomes⟩
  · exact absurd hunreaped.1 (Nat.succ_ne_self pid)
  · refine hnone child hchild ?_
    simp only [Child.unreaped, Bool.not_eq_true', decide_eq_true_eq]
    exact ⟨hbecomes.parent ▸ hunreaped.1, hbecomes.unreaped hunreaped.2⟩

end

/-! ## The invariant -/

/-- The list of children keeps account of the processes. -/
structure Kinship (c : Family Call Call.Res Local Shared Ctl) : Prop where
  entry : ∀ j, 0 < j → j < c.members.length → ∃ child ∈ c.shared.children, child.process = some j
  older : ∀ child ∈ c.shared.children, ∀ j, child.process = some j →
    child.parent < j ∧ j < c.members.length
  exited : ∀ child ∈ c.shared.children, ∀ j member, child.process = some j →
    c.members[j]? = some member → (child.exited = true ↔ member.loc.ended = true)
  reaped : ∀ child ∈ c.shared.children, child.reaped = true → child.exited = true

section

variable {world : World} {args : ForensicArgs} {entries : Entries} {pid : ℕ} {errno : Errno}
  {tr : List Event} {c c' : Family Call Call.Res Local Shared Ctl} {e : Event} {s' : Shared}

/-- A step in which no process is forked. -/
theorem Kinship.registers {ends : Bool} {members' : List (Running Call Call.Res Local Ctl)} (h : Kinship c)
    (hregisters : Registers pid ends c.shared.children s'.children)
    (hlength : members'.length = c.members.length)
    (hended : ∀ j member', members'[j]? = some member' → ∃ member, c.members[j]? = some member ∧
      (member'.loc.ended = true ↔ member.loc.ended = true ∨ ends = true ∧ j = pid)) :
    Kinship ⟨s', members'⟩ where
  entry j hpos hlt := by
    rw [hlength] at hlt
    obtain ⟨child, hchild, hprocess⟩ := h.entry j hpos hlt
    obtain ⟨child', hchild', hbecomes⟩ := hregisters.old child hchild
    exact ⟨child', hchild', hbecomes.process.trans hprocess⟩
  older child' hchild' j hprocess := by
    rw [hlength]
    rcases hregisters.new child' hchild' with rfl | ⟨child, hchild, hbecomes⟩
    · nomatch hprocess
    · rw [hbecomes.parent]
      exact h.older child hchild j (hbecomes.process.symm.trans hprocess)
  exited child' hchild' j member' hprocess hmember' := by
    rcases hregisters.new child' hchild' with rfl | ⟨child, hchild, hbecomes⟩
    · nomatch hprocess
    · have hprocess := hbecomes.process.symm.trans hprocess
      obtain ⟨member, hmember, hiff⟩ := hended j member' hmember'
      rw [hbecomes.exited j hprocess, hiff, h.exited child hchild j member hprocess hmember]
  reaped child' hchild' hreaped := by
    rcases hregisters.new child' hchild' with rfl | ⟨child, hchild, hbecomes⟩
    · nomatch hreaped
    · rcases hbecomes.reaped hreaped with hreaped | hexited
      · exact hbecomes.stays (h.reaped child hchild hreaped)
      · exact hbecomes.stays hexited

/-- A step of one process that is no fork. -/
theorem Kinship.member {member member' : Running Call Call.Res Local Ctl} (h : Kinship c)
    (hmember : c.members[pid]? = some member) (hended : member.loc.ended = false)
    (hregisters : Registers pid member'.loc.ended c.shared.children s'.children) :
    Kinship ⟨s', c.members.set pid member'⟩ := by
  refine h.registers hregisters List.length_set ?_
  intro j m hm
  by_cases hj : j = pid
  · subst hj
    rw [List.getElem?_set_self (List.getElem?_eq_some_iff.mp hmember).1] at hm
    obtain rfl := Option.some.inj hm
    exact ⟨member, hmember, by simp [hended]⟩
  · rw [List.getElem?_set_ne (Ne.symm hj)] at hm
    exact ⟨m, hm, by simp [hj]⟩

/-- The exit of a shell. -/
theorem Kinship.env (h : Kinship c) (henv : ShellExits c.shared s') : Kinship ⟨s', c.members⟩ :=
  h.registers (@registers_shellExits 0 _ _ henv) rfl fun _ member hmember => ⟨member, hmember, by simp⟩

/-- A fork. -/
theorem Kinship.fork {member member' child : Running Call Call.Res Local Ctl} (h : Kinship c)
    (hmember : c.members[pid]? = some member) (hsame : member'.loc.ended = member.loc.ended)
    (hchild : child.loc.ended = false)
    (hchildren : s'.children = c.shared.children ++ [⟨pid, some c.members.length, false, false⟩]) :
    Kinship ⟨s', c.members.set pid member' ++ [child]⟩ := by
  have hlt : pid < c.members.length := (List.getElem?_eq_some_iff.mp hmember).1
  refine ⟨?_, ?_, ?_, ?_⟩ <;> dsimp only <;> rw [hchildren]
  · intro j hpos hj
    rw [List.length_append, List.length_set, List.length_singleton] at hj
    rcases Nat.lt_succ_iff_lt_or_eq.mp hj with hj | rfl
    · obtain ⟨child, hmem, hprocess⟩ := h.entry j hpos hj
      exact ⟨child, List.mem_append_left _ hmem, hprocess⟩
    · exact ⟨_, List.mem_append_right _ (List.mem_singleton_self _), rfl⟩
  · intro child hmem j hprocess
    rw [List.length_append, List.length_set, List.length_singleton]
    rcases List.mem_append.mp hmem with hmem | hmem
    · obtain ⟨hparent, hj⟩ := h.older child hmem j hprocess
      exact ⟨hparent, Nat.lt_succ_of_lt hj⟩
    · obtain rfl := List.mem_singleton.mp hmem
      obtain rfl := Option.some.inj hprocess
      exact ⟨hlt, Nat.lt_succ_self _⟩
  · intro entry hentry j m hprocess hm
    rcases List.mem_append.mp hentry with hmem | hmem
    -- an older entry: its process is not the new one
    · obtain ⟨-, hj⟩ := h.older entry hmem j hprocess
      rw [List.getElem?_append_left (by rwa [List.length_set])] at hm
      by_cases hpid : j = pid
      · subst hpid
        rw [List.getElem?_set_self hlt] at hm
        obtain rfl := Option.some.inj hm
        rw [hsame]
        exact h.exited entry hmem j member hprocess hmember
      · rw [List.getElem?_set_ne (Ne.symm hpid)] at hm
        exact h.exited entry hmem j m hprocess hm
    · obtain rfl := List.mem_singleton.mp hmem
      obtain rfl := Option.some.inj hprocess
      rw [List.getElem?_append_right (by rw [List.length_set]), List.length_set, Nat.sub_self] at hm
      obtain rfl := Option.some.inj hm
      simp [hchild]
  · intro entry hmem hreaped
    rcases List.mem_append.mp hmem with hmem | hmem
    · exact h.reaped entry hmem hreaped
    · obtain rfl := List.mem_singleton.mp hmem
      nomatch hreaped

/-- Every step keeps it. -/
theorem Kinship.step (h : Kinship c) (hstep : (forensic world args entries).Step c e c') : Kinship c' := by
  cases hstep with
  | exec member sem => exact h.member member sem.1.1 (sem_registers sem)
  | fork member fork =>
      obtain ⟨⟨hended, -⟩, hforked⟩ := fork
      cases hforked
      exact h.fork member rfl hended rfl
  | forkFails member fails => exact h.member member fails.1.1 (forkFails_registers fails)
  | loop member goesOn =>
      refine h.member member goesOn ?_
      rw [show _ = false from goesOn]
      exact .refl _ _
  | take member take => exact h.member member take.1.1 (take_registers take)
  | interrupt member interrupt => exact h.member member interrupt.1.1 (interrupt_registers interrupt)
  | env env => exact h.env env

/-- **Kinship.** It holds in every run, whatever fails and whichever signals come. -/
theorem kinship_of_run (h : ForensicRun world args entries errno tr c) : Kinship c := by
  refine Forking.Run.induction (G := fun _ => True) (I := fun _ c => Kinship c) ?_ ?_ h fun _ _ => trivial
  · refine ⟨?_, nofun, nofun, nofun⟩
    intro j hpos hlt
    have hlt : j < 1 := hlt
    omega
  · intro tr c e c' _ _ ih _ hstep
    exact ih.step hstep

end

end Sope.Forensic
