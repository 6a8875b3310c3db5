import Mathlib.Algebra.Order.BigOperators.Group.Finset
import Mathlib.Algebra.Order.Group.Multiset
import Sope.Concurrency.ForkProtocol

/-! # What forking processes do altogether

An `Account` names the acts that matter, and says what may be known of the local state of a process. The ghost
value of a process is its `Load`: the acts that it has still to do itself, and one list of acts for each of the
processes that it has still to fork, directly or not. A fork hands a part of the load to the child.

What the processes of a run have done and have still to do is the same all the time (`Account.balanced`), and
when all of them are over it is what they have done (`Account.Balanced.done`). -/

namespace Concurrency

variable {Op : Type} {Res : Op → Type} {Loc σ Ctl Sig X Act : Type}

/-- What a process has still to do, and what is known of its local state. -/
structure Load (X Act : Type) where
  /-- What is known of the local state. -/
  view : X
  /-- What the process does itself. -/
  todo : List Act
  /-- What the processes do that it forks, and those that these fork. -/
  rest : Multiset (List Act)

/-- The acts that matter in runs of a system, and what is known of the local state of a process. -/
structure Account (S : Forking Op Res Loc σ Ctl Sig) (X Act : Type) where
  /-- What is known of a local state. -/
  view : Loc → X
  /-- The steps that are counted on. -/
  Admits : Happening Op Res Loc σ Sig → Prop
  /-- The acts in an operation. -/
  acts : Op → X → List Act
  /-- What an operation may return and leave. -/
  step : (o : Op) → X → Res o → X → Prop
  /-- What it may return and leave when it is interrupted. -/
  broken : (o : Op) → X → Res o → X → Prop
  /-- The signal may be taken. -/
  Quiet : Sig → X → Prop
  /-- The operation ends the process. -/
  Ends : Op → Prop
  /-- The process has ended. -/
  Over : Loc → Prop
  stops : ∀ {pid l s st'}, Over l → ¬ S.Acts pid (l, s) st'
  exec_sound : ∀ {pid o r l s l' s'}, Admits (.exec pid o r (l, s)) → S.sem pid o (l, s) r (l', s') →
    step o (view l) r (view l') ∧ (Over l' → Ends o)
  fork_sound : ∀ {pid n l s child l' s'}, S.fork pid n (l, s) child (l', s') →
    view l' = view l ∧ view child = view l ∧ ¬ Over l' ∧ ¬ Over child
  forkFails_sound : ∀ {pid}, ¬ Admits (.forkFails pid)
  take_sound : ∀ {pid sig l s l' s'}, Admits (.take pid sig (l, s)) → S.take pid sig (l, s) (l', s') →
    Quiet sig (view l) ∧ view l' = view l ∧ ¬ Over l'
  interrupt_sound : ∀ {pid sig o r l s l' s'}, Admits (.interrupt pid sig o r (l, s)) →
    S.interrupt pid sig o (l, s) r (l', s') →
    Quiet sig (view l') ∧ broken o (view l) r (view l') ∧ ¬ Over l'

namespace Account

variable {S : Forking Op Res Loc σ Ctl Sig} (A : Account S X Act)

/-- The load is taken up by what is done: an act is the next one of those to be done, a fork hands over what
the child and its own children have to do, and nothing is left when a process ends. -/
def protocol : Protocol (ForkOp Op) (ForkOp.Res Res) (Load X Act) where
  rule
    | ⟨x, todo, rest⟩, .fork, Φ => ∃ own below rest', rest = own ::ₘ (below + rest') ∧
        (∀ n : ℕ, 0 < n → Φ (n : ℤ) ⟨x, todo, rest'⟩) ∧ Φ (0 : ℤ) ⟨x, own, below⟩
    | ⟨x, todo, rest⟩, .call o, Φ =>
        (∀ r x', A.step o x r x' → ∃ todo', todo = A.acts o x ++ todo' ∧
          (A.Ends o → todo' = [] ∧ rest = 0) ∧ Φ r ⟨x', todo', rest⟩) ∧
        ∀ r x', A.broken o x r x' → Φ r ⟨x', todo, rest⟩
  mono {g o Φ Ψ} h hrule := by
    cases o with
    | fork =>
        obtain ⟨own, below, rest', hrest, hparent, hchild⟩ := hrule
        exact ⟨own, below, rest', hrest, fun n hn => h _ _ (hparent n hn), h _ _ hchild⟩
    | call o =>
        refine ⟨fun r x' hstep => ?_, fun r x' hbroken => h _ _ (hrule.2 r x' hbroken)⟩
        obtain ⟨todo', htodo, hends, hΦ⟩ := hrule.1 r x' hstep
        exact ⟨todo', htodo, hends, h _ _ hΦ⟩

/-- The acts of one process in something that has happened. -/
def actsOf (pid : ℕ) : Happening Op Res Loc σ Sig → List Act
  | .exec pid' o _ pre => if pid' = pid then A.acts o (A.view pre.1) else []
  | _ => []

/-- The acts of one process in a run. -/
def done (tr : List (Happening Op Res Loc σ Sig)) (pid : ℕ) : List Act := tr.flatMap (A.actsOf pid)

/-- What a process has done and has still to do, with what the processes have to do that it forks. -/
def share (tr : List (Happening Op Res Loc σ Sig)) (pid : ℕ) (g : Load X Act) : Multiset (List Act) :=
  (A.done tr pid ++ g.todo) ::ₘ g.rest

variable {A} {tr : List (Happening Op Res Loc σ Sig)} {e : Happening Op Res Loc σ Sig} {pid : ℕ}
  {total : Multiset (List Act)} {K : Ctl → Load X Act → Prop}

/-- The rule of an operation that is no act. -/
theorem rule_of_acts_eq_nil {o : Op} {g : Load X Act} {Φ : Res o → Load X Act → Prop}
    (hacts : A.acts o g.view = []) (hends : ¬ A.Ends o)
    (hstep : ∀ r x', A.step o g.view r x' → Φ r { g with view := x' })
    (hbroken : ∀ r x', A.broken o g.view r x' → Φ r { g with view := x' }) :
    A.protocol.rule g (.call o) Φ := by
  refine ⟨fun r x' h => ⟨g.todo, ?_, fun he => (hends he).elim, hstep r x' h⟩, hbroken⟩
  exact (congrArg (· ++ g.todo) hacts).symm

theorem done_append : A.done (tr ++ [e]) pid = A.done tr pid ++ A.actsOf pid e := by
  rw [done, done, List.flatMap_append, List.flatMap_singleton]

/-- A process has done nothing as long as it has taken no step. -/
theorem actsOf_of_pid_ne (h : e.pid ≠ some pid) : A.actsOf pid e = [] := by
  cases e with
  | exec pid' o r pre => exact if_neg fun heq => h (congrArg some heq)
  | _ => rfl

/-- Nor has it in a whole run. -/
theorem done_eq_nil (h : ∀ e ∈ tr, e.pid ≠ some pid) : A.done tr pid = [] :=
  List.flatMap_eq_nil_iff.mpr fun e he => actsOf_of_pid_ne (h e he)

/-- A step without an act. -/
theorem share_of_actsOf_eq_nil (h : A.actsOf pid e = []) (g : Load X Act) :
    A.share (tr ++ [e]) pid g = A.share tr pid g := by
  rw [share, share, done_append, h, List.append_nil]

variable (A) in
/-- The proof about a system by an account: a process does what its load says, and the handlers do nothing. -/
def proof (K : Ctl → Load X Act → Prop) (total : Multiset (List Act))
    (hloop : ∀ x g, K x g → (S.body x).wp A.protocol K g)
    (hhandler : ∀ sig g, A.Quiet sig g.view →
      (S.handler sig).wp A.protocol (fun _ g' => g' = g) g) :
    ForkProof S A.protocol (Multiset (List Act)) where
  Admits := A.Admits
  Over := A.Over
  post := K
  Final g := g.todo = [] ∧ g.rest = 0
  Sees _ st g := A.view st.1 = g.view
  Sound _ _ := True
  weight := A.share
  Whole _ _ m := m = total
  stops := A.stops
  stable _ _ h := h
  stable_env _ h := h
  weight_other h := share_of_actsOf_eq_nil (actsOf_of_pid_ne h) _
  exec {tr n pid o r l s l' s' g Φ} _ hsees hrule he hsem := by
    obtain ⟨hstep, hover⟩ := A.exec_sound he hsem
    rw [hsees] at hstep
    obtain ⟨todo', htodo, hends, hΦ⟩ := hrule.1 r _ hstep
    refine ⟨⟨A.view l', todo', g.rest⟩, rfl, fun h => hends (hover h), fun _ => hΦ, fun m hm => ?_⟩
    have hacts : A.actsOf pid (.exec pid o r (l, s)) = A.acts o g.view := by
      rw [← hsees]
      exact if_pos rfl
    rw [share, done_append, hacts, List.append_assoc, ← htodo]
    exact hm
  fork {tr n pid l s child l' s' g Φ} _ hsees hrule hn hfresh _ hfork := by
    obtain ⟨hparent, hchild, hover, hover'⟩ := A.fork_sound hfork
    obtain ⟨own, below, rest', hrest, hΦ, hΦ'⟩ := hrule
    refine ⟨⟨g.view, g.todo, rest'⟩, ⟨g.view, own, below⟩, hparent.trans hsees, hchild.trans hsees, hover,
      hover', hΦ n hn, hΦ', fun m hm => ?_⟩
    rw [share_of_actsOf_eq_nil rfl, share, share, done_eq_nil hfresh, List.nil_append, ← hm, share, hrest]
    simp only [← Multiset.singleton_add]
    ac_rfl
  forkFails _ _ he _ := (A.forkFails_sound he).elim
  loop {tr pid l s g x} hsees hpost _ :=
    ⟨g, hsees, hloop x g hpost, fun m hm => by rwa [share_of_actsOf_eq_nil rfl]⟩
  take {tr pid sig l s l' s' g} hsees he htake := by
    obtain ⟨hquiet, hview, hover⟩ := A.take_sound he htake
    refine ⟨g, hview.trans hsees, hover, hhandler sig g (hsees ▸ hquiet), fun m hm => ?_⟩
    rwa [share_of_actsOf_eq_nil rfl]
  interrupt {tr pid sig o r l s l' s' g Φ} hsees hrule he hinterrupt := by
    obtain ⟨hquiet, hbroken, hover⟩ := A.interrupt_sound he hinterrupt
    rw [hsees] at hbroken
    refine ⟨⟨A.view l', g.todo, g.rest⟩, ⟨A.view l', g.todo, g.rest⟩, rfl, hover, hrule.2 r _ hbroken,
      hhandler sig _ hquiet, fun m hm => ?_⟩
    rw [share_of_actsOf_eq_nil rfl]
    exact hm
  env _ _ h := h

variable (A) in
/-- What the processes have done and have still to do is `total`, and those that are over have nothing to
do. -/
def Balanced (total : Multiset (List Act)) (tr : List (Happening Op Res Loc σ Sig))
    (c : Family Op Res Loc σ Ctl) : Prop :=
  ∃ g : ℕ → Load X Act, ∑ pid ∈ Finset.range c.members.length, A.share tr pid (g pid) = total ∧
    ∀ pid member, c.members[pid]? = some member → A.Over member.loc → (g pid).todo = [] ∧ (g pid).rest = 0

variable {c : Family Op Res Loc σ Ctl}

/-- **The balance of a run**: what the processes have done and have still to do is what the first one has to
do when it begins, with the processes that it forks. -/
theorem balanced {l₀ : Loc} {s₀ : σ} {own : List Act} {below : Multiset (List Act)}
    (hloop : ∀ x g, K x g → (S.body x).wp A.protocol K g)
    (hhandler : ∀ sig g, A.Quiet sig g.view →
      (S.handler sig).wp A.protocol (fun _ g' => g' = g) g)
    (hover : ¬ A.Over l₀) (hstart : K S.start ⟨A.view l₀, own, below⟩)
    (hadmits : ∀ e ∈ tr, A.Admits e) (h : S.Run l₀ s₀ tr c) : A.Balanced (own ::ₘ below) tr c := by
  have hsees : (A.proof K (own ::ₘ below) hloop hhandler).Sees 0 (l₀, s₀) ⟨A.view l₀, own, below⟩ := rfl
  obtain ⟨g, hg⟩ := ForkProof.run hover hsees hstart rfl (fun _ _ _ _ => trivial) hadmits h
  exact ⟨g, hg.whole, fun pid member hmember => (hg.holds pid member hmember).final⟩

/-- The acts of all processes in something that has happened. -/
def allActsOf (A : Account S X Act) : Happening Op Res Loc σ Sig → List Act
  | .exec _ o _ pre => A.acts o (A.view pre.1)
  | _ => []

/-- What all processes have done in a step. -/
theorem sum_actsOf {n : ℕ} (h : ∀ pid, e.pid = some pid → pid < n) :
    ∑ pid ∈ Finset.range n, (↑(A.actsOf pid e) : Multiset Act) = ↑(A.allActsOf e) := by
  cases e with
  | exec pid o r pre =>
      rw [Finset.sum_eq_single pid]
      · exact congrArg Multiset.ofList (if_pos rfl)
      · intro pid' _ hne
        exact congrArg Multiset.ofList (if_neg hne.symm)
      · exact fun hnot => (hnot (Finset.mem_range.mpr (h pid rfl))).elim
  | _ => exact Finset.sum_const_zero

/-- What all processes have done in a run. -/
theorem sum_done {n : ℕ} (h : ∀ e ∈ tr, ∀ pid, e.pid = some pid → pid < n) :
    ∑ pid ∈ Finset.range n, (↑(A.done tr pid) : Multiset Act) = ↑(tr.flatMap A.allActsOf) := by
  induction tr with
  | nil => exact Finset.sum_const_zero
  | cons e tr ih =>
      rw [List.forall_mem_cons] at h
      have hcons : ∀ pid, (↑(A.done (e :: tr) pid) : Multiset Act) = ↑(A.actsOf pid e) + ↑(A.done tr pid) :=
        fun pid => (Multiset.coe_add _ _).symm
      simp only [hcons]
      rw [Finset.sum_add_distrib, sum_actsOf h.1, ih h.2, List.flatMap_cons, ← Multiset.coe_add]

/-- One element for each process. -/
theorem map_range_eq_sum {α : Type} (n : ℕ) (f : ℕ → α) :
    (Multiset.range n).map f = ∑ pid ∈ Finset.range n, ({f pid} : Multiset α) := by
  rw [← Multiset.sum_map_singleton ((Multiset.range n).map f), Multiset.map_map]
  rfl

/-- What each process has done is a beginning of a part of the whole. -/
theorem Balanced.le (h : A.Balanced total tr c) : ∃ todo : ℕ → List Act,
    (Multiset.range c.members.length).map (fun pid => A.done tr pid ++ todo pid) ≤ total := by
  obtain ⟨g, hsum, -⟩ := h
  refine ⟨fun pid => (g pid).todo, ?_⟩
  rw [← hsum, map_range_eq_sum]
  refine Finset.sum_le_sum fun pid _ => ?_
  exact Multiset.singleton_le.mpr (Multiset.mem_cons_self _ _)

/-- When all processes are over, the whole has been done. -/
theorem Balanced.done (h : A.Balanced total tr c) (hover : ∀ member ∈ c.members, A.Over member.loc) :
    (Multiset.range c.members.length).map (A.done tr) = total := by
  obtain ⟨g, hsum, hfinal⟩ := h
  rw [← hsum, map_range_eq_sum]
  refine Finset.sum_congr rfl fun pid hpid => ?_
  have hlt := Finset.mem_range.mp hpid
  obtain ⟨htodo, hrest⟩ :=
    hfinal pid _ (List.getElem?_eq_getElem hlt) (hover _ (List.getElem_mem hlt))
  rw [share, htodo, hrest, List.append_nil]
  rfl

/-- At any time, what has been done is some of the whole. -/
theorem Balanced.all_le (h : A.Balanced total tr c)
    (hpid : ∀ e ∈ tr, ∀ pid, e.pid = some pid → pid < c.members.length) :
    (↑(tr.flatMap A.allActsOf) : Multiset Act) ≤ (total.map Multiset.ofList).sum := by
  obtain ⟨todo, hle⟩ := h.le
  rw [← sum_done hpid]
  calc ∑ pid ∈ Finset.range c.members.length, (↑(A.done tr pid) : Multiset Act)
      ≤ ∑ pid ∈ Finset.range c.members.length, ↑(A.done tr pid ++ todo pid) := by
        refine Finset.sum_le_sum fun pid _ => ?_
        exact Multiset.coe_le.mpr (List.sublist_append_left _ _).subperm
    _ = (((Multiset.range c.members.length).map fun pid => A.done tr pid ++ todo pid).map
          Multiset.ofList).sum := by
        rw [Multiset.map_map]
        rfl
    _ ≤ (total.map Multiset.ofList).sum := by
        obtain ⟨more, rfl⟩ := Multiset.le_iff_exists_add.mp hle
        rw [Multiset.map_add, Multiset.sum_add]
        exact Multiset.le_add_right _ _

/-- When all processes are over, it is the whole. -/
theorem Balanced.all_eq (h : A.Balanced total tr c) (hover : ∀ member ∈ c.members, A.Over member.loc)
    (hpid : ∀ e ∈ tr, ∀ pid, e.pid = some pid → pid < c.members.length) :
    (↑(tr.flatMap A.allActsOf) : Multiset Act) = (total.map Multiset.ofList).sum := by
  rw [← sum_done hpid, ← h.done hover, Multiset.map_map]
  rfl

end Account

end Concurrency
