import Sope.Hashing.Descriptors

/-! # Which child inherits which pipe

A child inherits the write end of every pipe that the server has open when the child is forked. Since
the server has the write end of a pipe open during one interval of time, the children that inherit it
are consecutive ones (`Descent.convex`). If every fork is safe (`Kernel.ForkSafe`), then no two children
inherit each the write end of the other's input pipe (`Descent.pair`). -/

namespace Sope.Hashing

open Concurrency

variable {n : ℕ}

/-- The pipe of an end. -/
def End.pipe : End → Option ℕ
  | .readEnd p | .writeEnd p => some p
  | .file => none

/-- The pipe that is read through a descriptor. -/
def Fds.reads (t : Fds) (fd : ℕ) : Option ℕ :=
  match t.get fd with
  | some (.readEnd p) => some p
  | _ => none

theorem Fds.reads_of_get {t : Fds} {fd p : ℕ} (h : t.get fd = some (.readEnd p)) :
    t.reads fd = some p := by
  rw [Fds.reads, h]

namespace Kernel

/-- The server has the write end of the pipe `p` open. -/
def Open (s : Kernel n) (p : ℕ) : Prop := ∃ fd, s.fds.get fd = some (.writeEnd p)

/-- It is safe to fork a child that is to read from `fd2`: each child that has inherited the write end
of this pipe reads from a pipe whose write end the server has closed. -/
def ForkSafe (s : Kernel n) (fd2 : FdPair) : Prop :=
  ∀ p ∈ s.fds.reads fd2.pipeRead, ∀ child ∈ s.children, child.fds.holds (.writeEnd p) →
    ∀ q ∈ child.fds.reads child.fd2.pipeRead, ¬ s.fds.holds (.writeEnd q)

instance (s : Kernel n) (fd2 : FdPair) : Decidable (s.ForkSafe fd2) :=
  inferInstanceAs (Decidable (∀ p ∈ s.fds.reads fd2.pipeRead, ∀ child ∈ s.children,
    child.fds.holds (.writeEnd p) → ∀ q ∈ child.fds.reads child.fd2.pipeRead,
      ¬ s.fds.holds (.writeEnd q)))

end Kernel

/-- What is remembered of the forks. -/
structure Lineage where
  /-- The server had the write end of the pipe open when it forked the child with this number. -/
  inherits : ℕ → ℕ → Prop
  /-- The pipe from which a child reads its input. -/
  input : ℕ → ℕ

/-- What holds of the child with number `k` at any time after its fork: it has inherited all write ends
that it has, and unless it has read its input to the end, it still has all but that of its input. -/
structure Heir (s : Kernel n) (L : Lineage) (k : ℕ) (child : Process n) : Prop where
  input : L.inherits k (L.input k)
  inherits : ∀ fd p, child.fds.get fd = some (.writeEnd p) → L.inherits k p
  alive : (child.fds.get child.fd2.pipeRead = some (.readEnd (L.input k)) ∧
      ∀ p, p ≠ L.input k → L.inherits k p → ∃ fd, child.fds.get fd = some (.writeEnd p)) ∨
    (∀ fd, child.fds.get fd = none) ∧ ¬ s.Open (L.input k)

/-- The global invariant on the descriptors. -/
structure Descent (s : Kernel n) (L : Lineage) : Prop where
  stdin : s.fds.get stdinFileno = some .file
  stdout : s.fds.get stdoutFileno = some .file
  bound : ∀ fd e p, s.fds.get fd = some e → e.pipe = some p → p < s.pipes
  inherits_lt : ∀ k p, L.inherits k p → k < s.children.length ∧ p < s.pipes
  /-- While the write end of a pipe is open, new children inherit it. -/
  upward : ∀ p, s.Open p → ∀ a b, a < b → b < s.children.length → L.inherits a p → L.inherits b p
  /-- The children that inherit the write end of a pipe are consecutive. -/
  convex : ∀ p a b c, a < b → b < c → L.inherits a p → L.inherits c p → L.inherits b p
  /-- No two children inherit each the input of the other. -/
  pair : ∀ a b, a < b → L.inherits a (L.input b) → ¬ L.inherits b (L.input a)
  heir : ∀ k child, s.children[k]? = some child → Heir s L k child

/-- What a party knows is true. -/
def Informed (s : Kernel n) (L : Lineage) : Party n → Knows → Prop
  | .office _, .office own unread =>
      (∀ fd e, own fd = some e → s.fds.get fd = some e ∧ e ≠ .file) ∧
        ∀ p ∈ unread, p < s.pipes ∧ ∀ k < s.children.length, L.input k ≠ p
  | .child k, .unborn => ∀ child, s.children[k]? = some child →
      (∃ output, TwoPipes child.fds.get child.fd1 child.fd2 output (L.input k)) ∧
        child.fds.get stdinFileno = some .file ∧ child.fds.get stdoutFileno = some .file
  | .child k, .child fds input eof => ∃ child, s.children[k]? = some child ∧ child.fds.get = fds ∧
      L.input k = input ∧ fds child.fd2.pipeRead = some (.readEnd input) ∧
      (eof = true → ¬ s.Open input)
  | .child _, .ended => True
  | _, _ => False

/-- No two offices own the same descriptor or have the same pipe. -/
def DisjointOwn (g : Party n → Knows) : Prop :=
  ∀ i j own own' unread unread', i ≠ j → g (.office i) = .office own unread →
    g (.office j) = .office own' unread' →
    (∀ fd, own fd ≠ none → own' fd = none) ∧ ∀ p ∈ unread, p ∉ unread'

/-- The invariant of the hashing offices and their children. -/
def HashingInv (s : Kernel n) (g : Party n → Knows) : Prop :=
  DisjointOwn g ∧ ∃ L, Descent s L ∧ ∀ t, Informed s L t (g t)

/-! ## Steps on the descriptors of the server -/

/-- The server's table has changed, but what stands in it now is no end of an older pipe that did not
stand there before. -/
structure ServerStep (s s' : Kernel n) : Prop where
  children : s'.children = s.children
  pipes : s.pipes ≤ s'.pipes
  stdin : s'.fds.get stdinFileno = some .file
  stdout : s'.fds.get stdoutFileno = some .file
  fds : ∀ fd e, s'.fds.get fd = some e → s.fds.get fd = some e ∨
    ∀ p, e.pipe = some p → s.pipes ≤ p ∧ p < s'.pipes

section Server

variable {s s' : Kernel n} {L : Lineage}

/-- No pipe is opened again. -/
theorem ServerStep.reopen (h : ServerStep s s') {p : ℕ} (hp : p < s.pipes) (ho : s'.Open p) :
    s.Open p := by
  obtain ⟨fd, hfd⟩ := ho
  rcases h.fds fd _ hfd with hfd | hnew
  · exact ⟨fd, hfd⟩
  · exact absurd (hnew p rfl).1 (by omega)

theorem Heir.server {k : ℕ} {child : Process n} (h : Heir s L k child) (hs : ServerStep s s')
    (hk : L.input k < s.pipes) : Heir s' L k child where
  input := h.input
  inherits := h.inherits
  alive := h.alive.imp_right fun ⟨hfds, hclosed⟩ => ⟨hfds, fun ho => hclosed (hs.reopen hk ho)⟩

theorem Descent.server (h : Descent s L) (hs : ServerStep s s') : Descent s' L where
  stdin := hs.stdin
  stdout := hs.stdout
  bound fd e p hfd hp := by
    rcases hs.fds fd e hfd with hfd | hnew
    · exact (h.bound fd e p hfd hp).trans_le hs.pipes
    · exact (hnew p hp).2
  inherits_lt k p hk := by
    rw [hs.children]
    exact ⟨(h.inherits_lt k p hk).1, (h.inherits_lt k p hk).2.trans_le hs.pipes⟩
  upward p ho a b hab hb ha := by
    rw [hs.children] at hb
    exact h.upward p (hs.reopen (h.inherits_lt a p ha).2 ho) a b hab hb ha
  convex := h.convex
  pair := h.pair
  heir k child hk := by
    rw [hs.children] at hk
    have hheir := h.heir k child hk
    exact hheir.server hs (h.inherits_lt k _ hheir.input).2

theorem Informed.server {t : Party n} {x : Knows} (h : Informed s L t x) (hD : Descent s L)
    (hs : ServerStep s s')
    (hkeep : ∀ own unread, x = .office own unread → ∀ fd, own fd ≠ none →
      s'.fds.get fd = s.fds.get fd) :
    Informed s' L t x := by
  cases t with
  | office i =>
      cases x with
      | office own unread =>
          refine ⟨fun fd e hfd => ?_, fun p hp => ?_⟩
          · rw [hkeep own unread rfl fd (by simp [hfd])]
            exact h.1 fd e hfd
          · rw [hs.children]
            exact ⟨(h.2 p hp).1.trans_le hs.pipes, (h.2 p hp).2⟩
      | _ => exact h
  | child k =>
      cases x with
      | child fds input eof =>
          obtain ⟨child, hk, hfds, hin, hread, heof⟩ := h
          have hlt := (hD.inherits_lt k _ (hD.heir k child hk).input).2
          rw [hin] at hlt
          exact ⟨child, by rwa [hs.children], hfds, hin, hread,
            fun he ho => heof he (hs.reopen hlt ho)⟩
      | unborn =>
          intro child hk
          rw [hs.children] at hk
          exact h child hk
      | _ => exact h

variable {g : Party n → Knows}

/-- The offices stay apart when one of them changes what it has, if it takes from no other. -/
theorem DisjointOwn.update {i : Fin n} {own' : ℕ → Option End} {unread' : Set ℕ} (h : DisjointOwn g)
    (hown : ∀ j own unread, j ≠ i → g (.office j) = .office own unread →
      (∀ fd, own' fd ≠ none → own fd = none) ∧ ∀ p ∈ unread', p ∉ unread) :
    DisjointOwn (Function.update g (.office i) (.office own' unread')) := by
  intro j k own₁ own₂ unread₁ unread₂ hjk hj hk
  by_cases hji : j = i
  · subst hji
    rw [Function.update_self] at hj
    rw [Function.update_of_ne (by simpa using hjk.symm)] at hk
    cases hj
    exact hown k own₂ unread₂ hjk.symm hk
  · rw [Function.update_of_ne (by simpa using hji)] at hj
    by_cases hki : k = i
    · subst hki
      rw [Function.update_self] at hk
      cases hk
      obtain ⟨hfds, hpipes⟩ := hown j own₁ unread₁ hji hj
      refine ⟨fun fd hfd => ?_, fun p hp hp' => hpipes p hp' hp⟩
      by_contra hne
      exact hfd (hfds fd hne)
    · rw [Function.update_of_ne (by simpa using hki)] at hk
      exact h j k own₁ own₂ unread₁ unread₂ hjk hj hk

/-- Replacing what one party knows. -/
theorem informed_update {t : Party n} {x : Knows} (h : ∀ u, u ≠ t → Informed s' L u (g u))
    (ht : Informed s' L t x) (u : Party n) : Informed s' L u (Function.update g t x u) := by
  by_cases hu : u = t
  · subst hu
    rwa [Function.update_self]
  · rw [Function.update_of_ne hu]
    exact h u hu

/-- An office opens or closes descriptors of its own. -/
theorem HashingInv.office {i : Fin n} {own own' : ℕ → Option End} {unread unread' : Set ℕ}
    (h : HashingInv s g) (hg : g (.office i) = .office own unread) (hs : ServerStep s s')
    (hkeep : ∀ fd e, s.fds.get fd = some e → own fd = none → s'.fds.get fd = some e)
    (hown : ∀ fd e, own' fd = some e → s'.fds.get fd = some e ∧ e ≠ .file)
    (hnew : ∀ fd, own' fd ≠ none → own fd ≠ none ∨ s.fds.get fd = none)
    (hpipes : ∀ p ∈ unread', p ∈ unread ∨ s.pipes ≤ p ∧ p < s'.pipes) :
    HashingInv s' (Function.update g (.office i) (.office own' unread')) := by
  obtain ⟨hdisj, L, hD, hI⟩ := h
  -- what another office owns is in the table and not among what this one owns
  have hothers : ∀ j own₁ unread₁, j ≠ i → g (.office j) = .office own₁ unread₁ →
      ∀ fd e, own₁ fd = some e → s.fds.get fd = some e ∧ own fd = none := by
    intro j own₁ unread₁ hji hj fd e hfd
    have hj' := hI (.office j)
    rw [hj] at hj'
    exact ⟨(hj'.1 fd e hfd).1, (hdisj j i _ _ _ _ hji hj hg).1 fd (by simp [hfd])⟩
  have hi := hI (.office i)
  rw [hg] at hi
  refine ⟨hdisj.update fun j own₁ unread₁ hji hj => ⟨fun fd hfd => ?_, fun p hp hp₁ => ?_⟩, L,
    hD.server hs, informed_update (fun u hu => (hI u).server hD hs ?_) ⟨hown, fun p hp => ?_⟩⟩
  · cases hown₁ : own₁ fd with
    | none => rfl
    | some e =>
        obtain ⟨hget, hnone⟩ := hothers j own₁ unread₁ hji hj fd e hown₁
        rcases hnew fd hfd with hne | hfree
        · exact absurd hnone hne
        · rw [hfree] at hget
          cases hget
  · rcases hpipes p hp with hp | ⟨hle, -⟩
    · exact (hdisj i j _ _ _ _ hji.symm hg hj).2 p hp hp₁
    · have hj' := hI (.office j)
      rw [hj] at hj'
      exact absurd (hj'.2 p hp₁).1 (by omega)
  · intro own₁ unread₁ hu₁ fd hfd
    cases u with
    | child k =>
        have := hI (.child k)
        rw [hu₁] at this
        exact this.elim
    | office j =>
        obtain ⟨e, he⟩ := Option.ne_none_iff_exists'.mp hfd
        obtain ⟨hget, hnone⟩ := hothers j own₁ unread₁ (by simpa using hu) hu₁ fd e he
        rw [hkeep fd e hget hnone, hget]
  · rw [hs.children]
    rcases hpipes p hp with hp | ⟨hle, hlt⟩
    · exact ⟨(hi.2 p hp).1.trans_le hs.pipes, (hi.2 p hp).2⟩
    -- a pipe made in this step is no child's input
    · refine ⟨hlt, fun k hk hkp => ?_⟩
      have := hD.inherits_lt k _ (hD.heir k _ (List.getElem?_eq_getElem hk)).input
      omega

/-- The rest of the server does not touch the descriptors of the pipes. -/
theorem HashingInv.otherFds (h : HashingInv s g) (hs : OtherFds s s') : HashingInv s' g := by
  obtain ⟨hdisj, L, hD, hI⟩ := h
  -- the rest of the server opens at a free number and closes files only
  have hstep : ServerStep s s' ∧ ∀ fd e, s.fds.get fd = some e → e ≠ .file →
      s'.fds.get fd = some e := by
    cases hs with
    | opened =>
        have hset : ∀ fd e, s.fds.get fd = some e →
            (s.fds.set s.fds.lowest (some .file)).get fd = some e := by
          intro fd e hfd
          have hne : fd ≠ s.fds.lowest := by
            rintro rfl
            rw [s.fds.get_lowest] at hfd
            cases hfd
          rwa [FdTable.get_set_of_ne _ hne]
        refine ⟨⟨rfl, le_rfl, hset _ _ hD.stdin, hset _ _ hD.stdout, fun fd e hfd => ?_⟩,
          fun fd e hfd _ => hset fd e hfd⟩
        by_cases hlow : fd = s.fds.lowest
        · subst hlow
          simp only [FdTable.get_set_self, Option.some.injEq] at hfd
          subst hfd
          exact .inr (by simp [End.pipe])
        · exact .inl (by rwa [FdTable.get_set_of_ne _ hlow] at hfd)
    | @closed fd hfile hin hout =>
        refine ⟨⟨rfl, le_rfl, ?_, ?_, fun fd' e hfd' => ?_⟩, fun fd' e hfd' he => ?_⟩
        · simpa only [FdTable.get_set_of_ne _ hin.symm] using hD.stdin
        · simpa only [FdTable.get_set_of_ne _ hout.symm] using hD.stdout
        · by_cases hne : fd' = fd
          · subst hne
            simp at hfd'
          · exact .inl (by rwa [FdTable.get_set_of_ne _ hne] at hfd')
        · have hne : fd' ≠ fd := by
            rintro rfl
            exact he (Option.some.inj (hfd'.symm.trans hfile))
          simpa only [FdTable.get_set_of_ne _ hne] using hfd'
  refine ⟨hdisj, L, hD.server hstep.1, fun t => (hI t).server hD hstep.1 ?_⟩
  intro own unread ht fd hfd
  cases t with
  | child k =>
      have := hI (.child k)
      rw [ht] at this
      exact this.elim
  | office i =>
      obtain ⟨e, he⟩ := Option.ne_none_iff_exists'.mp hfd
      have := hI (.office i)
      rw [ht] at this
      rw [hstep.2 fd e (this.1 fd e he).1 (this.1 fd e he).2, (this.1 fd e he).1]

end Server

/-! ## Forks -/

section Fork

variable {s : Kernel n} {L : Lineage} {g : Party n → Knows} {i : Fin n} {fd1 fd2 : FdPair}
  {output input : ℕ}

/-- The state after a fork. -/
def Kernel.forked (s : Kernel n) (i : Fin n) (fd1 fd2 : FdPair) : Kernel n :=
  { s with children := s.children ++ [⟨i, fd1, fd2, s.fds⟩] }

/-- The forks so far and a fork of a child that reads `input`. -/
def Lineage.fork (L : Lineage) (s : Kernel n) (input : ℕ) : Lineage where
  inherits k p := L.inherits k p ∨ k = s.children.length ∧ s.Open p
  input := Function.update L.input s.children.length input

/-- An older child inherits what it has inherited. -/
theorem Lineage.fork_inherits {k : ℕ} (hk : k < s.children.length) (p : ℕ) :
    (L.fork s input).inherits k p ↔ L.inherits k p := by
  simp [Lineage.fork, hk.ne]

/-- The new child inherits what the server has open. -/
theorem Lineage.fork_inherits_length (hD : Descent s L) (p : ℕ) :
    (L.fork s input).inherits s.children.length p ↔ s.Open p := by
  constructor
  · rintro (h | h)
    · exact absurd (hD.inherits_lt _ _ h).1 (lt_irrefl _)
    · exact h.2
  · exact fun h => .inr ⟨rfl, h⟩

/-- An older child reads what it has read. -/
theorem Lineage.fork_input {k : ℕ} (hk : k < s.children.length) :
    (L.fork s input).input k = L.input k := Function.update_of_ne hk.ne ..

@[simp] theorem Lineage.fork_input_length : (L.fork s input).input s.children.length = input :=
  Function.update_self ..

/-- A child that inherits the write end of the pipe from which the next child is to read, while the
server has that of its own input, would make the fork unsafe. -/
theorem Descent.not_open_input (h : Descent s L) (hsafe : s.ForkSafe fd2)
    (hread : s.fds.get fd2.pipeRead = some (.readEnd input)) {k : ℕ} (hk : L.inherits k input)
    (hne : input ≠ L.input k) : ¬ s.Open (L.input k) := by
  intro ho
  obtain ⟨child, hchild⟩ : ∃ child, s.children[k]? = some child :=
    ⟨_, List.getElem?_eq_getElem (h.inherits_lt k _ hk).1⟩
  rcases (h.heir k child hchild).alive with ⟨hin, halive⟩ | ⟨-, hclosed⟩
  · refine hsafe input (Fds.reads_of_get hread) child (List.mem_of_getElem? hchild) ?_ _
      (Fds.reads_of_get hin) ?_
    · exact (FdTable.holds_iff _ _).mpr (halive input hne hk)
    · exact (FdTable.holds_iff _ _).mpr ho
  · exact hclosed ho

theorem Descent.fork (h : Descent s L) (htwo : TwoPipes s.fds.get fd1 fd2 output input)
    (hunread : ∀ k < s.children.length, L.input k ≠ input) (hsafe : s.ForkSafe fd2) :
    Descent (s.forked i fd1 fd2) (L.fork s input) where
  stdin := h.stdin
  stdout := h.stdout
  bound := h.bound
  inherits_lt k p hk := by
    rw [Kernel.forked, List.length_append, List.length_singleton]
    rcases hk with hk | ⟨rfl, fd, hfd⟩
    · exact ⟨(h.inherits_lt k p hk).1.trans (Nat.lt_succ_self _), (h.inherits_lt k p hk).2⟩
    · exact ⟨Nat.lt_succ_self _, h.bound fd _ p hfd rfl⟩
  upward p ho a b hab hb ha := by
    rw [Kernel.forked, List.length_append, List.length_singleton, Nat.lt_succ_iff_lt_or_eq] at hb
    rcases hb with hb | rfl
    · rw [Lineage.fork_inherits (hab.trans hb)] at ha
      exact .inl (h.upward p ho a b hab hb ha)
    · exact .inr ⟨rfl, ho⟩
  convex p a b c hab hbc ha hc := by
    rcases hc with hc | ⟨rfl, ho⟩
    · rw [Lineage.fork_inherits (by have := (h.inherits_lt c p hc).1; omega)] at ha
      exact .inl (h.convex p a b c hab hbc ha hc)
    · rw [Lineage.fork_inherits (hab.trans hbc)] at ha
      exact .inl (h.upward p ho a b hab hbc ha)
  pair a b hab ha hb := by
    rcases Nat.lt_trichotomy b s.children.length with hlt | rfl | hlt
    · rw [Lineage.fork_inherits (hab.trans hlt), Lineage.fork_input hlt] at ha
      rw [Lineage.fork_inherits hlt, Lineage.fork_input (hab.trans hlt)] at hb
      exact h.pair a b hab ha hb
    · -- the new child is one of the two
      rw [Lineage.fork_inherits hab, Lineage.fork_input_length] at ha
      rw [Lineage.fork_inherits_length h, Lineage.fork_input hab] at hb
      exact h.not_open_input hsafe htwo.fd2Read ha (hunread a hab).symm hb
    · rcases hb with hb | ⟨rfl, -⟩
      -- no child is as young as that
      · exact absurd (h.inherits_lt b _ hb).1 (by omega)
      · exact absurd hlt (lt_irrefl _)
  heir k child hk := by
    rw [Kernel.forked, List.getElem?_append] at hk
    split at hk
    · next hlt =>
        have hheir := h.heir k child hk
        have halive := hheir.alive
        constructor
        · rw [Lineage.fork_inherits hlt, Lineage.fork_input hlt]
          exact hheir.input
        · exact fun fd p hfd => .inl (hheir.inherits fd p hfd)
        · simp only [Lineage.fork_inherits hlt, Lineage.fork_input hlt]
          exact halive
    · next hge =>
        obtain ⟨hk', rfl⟩ : k = s.children.length ∧ (⟨i, fd1, fd2, s.fds⟩ : Process n) = child := by
          rw [List.getElem?_singleton] at hk
          split at hk
          · next h0 => exact ⟨by omega, Option.some.inj hk⟩
          · cases hk
        subst hk'
        constructor
        · rw [Lineage.fork_inherits_length h, Lineage.fork_input_length]
          exact ⟨_, htwo.fd2Write⟩
        · exact fun fd p hfd => .inr ⟨rfl, fd, hfd⟩
        · rw [Lineage.fork_input_length]
          refine .inl ⟨htwo.fd2Read, fun p _ hp => ?_⟩
          exact (Lineage.fork_inherits_length h p).mp hp

/-- What a party knows stays true when another one is forked. -/
theorem Informed.fork {t : Party n} {x : Knows} (h : Informed s L t x) (hD : Descent s L)
    (htwo : TwoPipes s.fds.get fd1 fd2 output input)
    (hunread : ∀ own unread, x = .office own unread → input ∉ unread) :
    Informed (s.forked i fd1 fd2) (L.fork s input) t x := by
  cases t with
  | office j =>
      cases x with
      | office own unread =>
          refine ⟨h.1, fun p hp => ⟨(h.2 p hp).1, fun k hk => ?_⟩⟩
          rw [Kernel.forked, List.length_append, List.length_singleton,
            Nat.lt_succ_iff_lt_or_eq] at hk
          rcases hk with hk | rfl
          · rw [Lineage.fork_input hk]
            exact (h.2 p hp).2 k hk
          -- the new child: its input is one of the two pipes of this call
          · rw [Lineage.fork_input_length]
            rintro rfl
            exact hunread own unread rfl hp
      | _ => exact h
  | child k =>
      cases x with
      | unborn =>
          intro child hk
          rw [Kernel.forked, List.getElem?_append] at hk
          split at hk
          · next hlt =>
              rw [Lineage.fork_input hlt]
              exact h child hk
          · next hge =>
              rw [List.getElem?_singleton] at hk
              split at hk
              · next h0 =>
                  obtain rfl : k = s.children.length := by omega
                  cases hk
                  rw [Lineage.fork_input_length]
                  exact ⟨⟨output, htwo⟩, hD.stdin, hD.stdout⟩
              · cases hk
      | child fds input' eof =>
          obtain ⟨child, hk, hfds, hin, hread, heof⟩ := h
          have hlt : k < s.children.length := (List.getElem?_eq_some_iff.mp hk).1
          refine ⟨child, ?_, hfds, by rwa [Lineage.fork_input hlt], hread, heof⟩
          rw [Kernel.forked, List.getElem?_append_left hlt]
          exact hk
      | _ => exact h

/-- An office forks a child that reads one of its pipes. -/
theorem HashingInv.fork {own : ℕ → Option End} {unread : Set ℕ} (h : HashingInv s g)
    (hg : g (.office i) = .office own unread) (htwo : TwoPipes own fd1 fd2 output input)
    (hin : input ∈ unread) (hsafe : s.ForkSafe fd2) :
    HashingInv (s.forked i fd1 fd2)
      (Function.update g (.office i) (.office own (unread \ {input}))) := by
  obtain ⟨hdisj, L, hD, hI⟩ := h
  have hi := hI (.office i)
  rw [hg] at hi
  have htwo' : TwoPipes s.fds.get fd1 fd2 output input :=
    ⟨htwo.ne, (hi.1 _ _ htwo.fd1Read).1, (hi.1 _ _ htwo.fd1Write).1, (hi.1 _ _ htwo.fd2Read).1,
      (hi.1 _ _ htwo.fd2Write).1⟩
  refine ⟨hdisj.update fun j own₁ unread₁ hji hj => ?_, L.fork s input,
    hD.fork htwo' (hi.2 input hin).2 hsafe,
    informed_update (fun u hu => (hI u).fork hD htwo' fun own₁ unread₁ hu₁ => ?_) ?_⟩
  · obtain ⟨hfds, hpipes⟩ := hdisj i j _ _ _ _ hji.symm hg hj
    exact ⟨hfds, fun p hp => hpipes p hp.1⟩
  · cases u with
    | child k =>
        have := hI (.child k)
        rw [hu₁] at this
        exact this.elim
    | office j =>
        exact (hdisj i j _ _ _ _ (Ne.symm (by simpa using hu)) hg hu₁).2 input hin
  · have hi' : Informed s L (.office i) (.office own (unread \ {input})) :=
      ⟨hi.1, fun p hp => hi.2 p hp.1⟩
    refine hi'.fork hD htwo' fun own₁ unread₁ hu₁ => ?_
    cases hu₁
    simp

end Fork

/-! ## Steps of the children -/

section Child

variable {s : Kernel n} {g : Party n → Knows} {k : ℕ}

/-- The state after a child has changed its table. -/
theorem Kernel.setTable_child {child : Process n} (hk : s.children[k]? = some child) (fds : Fds)
    (k' : ℕ) : (s.setTable (.child k) fds).children[k']? =
      if k' = k then some { child with fds } else s.children[k']? := by
  rw [Kernel.setTable, List.getElem?_modify]
  split
  · next h =>
      subst h
      rw [if_pos rfl, hk]
      rfl
  · next h =>
      rw [if_neg (Ne.symm h)]
      exact id_map _

/-- The offices stay apart, whatever a child knows. -/
theorem DisjointOwn.update_child (h : DisjointOwn g) (k : ℕ) (x : Knows) :
    DisjointOwn (Function.update g (.child k) x) := by
  intro i j own own' unread unread' hij hi hj
  rw [Function.update_of_ne (by simp)] at hi hj
  exact h i j own own' unread unread' hij hi hj

/-- A child that goes on using its table still has what it has inherited. -/
theorem Heir.of_fds {L : Lineage} {child : Process n} {fds' : Fds} (h : Heir s L k child)
    (hread : fds'.get child.fd2.pipeRead = some (.readEnd (L.input k)))
    (hsub : ∀ fd p, fds'.get fd = some (.writeEnd p) → ∃ fd', child.fds.get fd' = some (.writeEnd p))
    (hkeep : ∀ fd p, p ≠ L.input k → child.fds.get fd = some (.writeEnd p) →
      fds'.get fd = some (.writeEnd p))
    (halive : child.fds.get child.fd2.pipeRead = some (.readEnd (L.input k))) :
    Heir s L k { child with fds := fds' } where
  input := h.input
  inherits fd p hfd := by
    obtain ⟨fd', hfd'⟩ := hsub fd p hfd
    exact h.inherits fd' p hfd'
  alive := by
    rcases h.alive with ⟨-, hall⟩ | ⟨hnone, -⟩
    · refine .inl ⟨hread, fun p hp hk => ?_⟩
      obtain ⟨fd, hfd⟩ := hall p hp hk
      exact ⟨fd, hkeep fd p hp hfd⟩
    · rw [hnone] at halive
      cases halive

/-- A child changes its own table. -/
theorem HashingInv.child {fds : ℕ → Option End} {input : ℕ} {eof : Bool} {fds' : Fds} {x : Knows}
    (h : HashingInv s g) (hg : g (.child k) = .child fds input eof)
    (hheir : ∀ L child, s.children[k]? = some child → child.fds.get = fds → L.input k = input →
      fds child.fd2.pipeRead = some (.readEnd input) → (eof = true → ¬ s.Open input) →
      Heir s L k child →
        Heir s L k { child with fds := fds' } ∧
        Informed (s.setTable (.child k) fds') L (.child k) x) :
    HashingInv (s.setTable (.child k) fds') (Function.update g (.child k) x) := by
  obtain ⟨hdisj, L, hD, hI⟩ := h
  have hk := hI (.child k)
  rw [hg] at hk
  obtain ⟨child, hchild, hfds, hin, hread, heof⟩ := hk
  obtain ⟨hnew, hx⟩ := hheir L child hchild hfds hin hread heof (hD.heir k child hchild)
  have hlength : (s.setTable (.child k) fds').children.length = s.children.length := by
    simp [Kernel.setTable]
  refine ⟨hdisj.update_child k x, L, ?_, informed_update (fun u hu => ?_) hx⟩
  · refine { hD with inherits_lt := ?_, upward := ?_, heir := fun k' child' hk' => ?_ }
    · rw [hlength]
      exact hD.inherits_lt
    · rw [hlength]
      exact hD.upward
    · rw [Kernel.setTable_child hchild] at hk'
      split at hk'
      · next h =>
          subst h
          cases hk'
          exact ⟨hnew.input, hnew.inherits, hnew.alive⟩
      · have hold := hD.heir k' child' hk'
        exact ⟨hold.input, hold.inherits, hold.alive⟩
  -- the other parties do not look at the table of this child
  · cases u with
    | office i =>
        cases hgi : g (.office i) with
        | office own unread =>
            have hi := hI (.office i)
            rw [hgi] at hi
            exact ⟨hi.1, by rw [hlength]; exact hi.2⟩
        | _ =>
            have hi := hI (.office i)
            rw [hgi] at hi
            exact hi.elim
    | child k' =>
        have hne : k' ≠ k := by simpa using hu
        have hget : (s.setTable (.child k) fds').children[k']? = s.children[k']? := by
          rw [Kernel.setTable_child hchild, if_neg hne]
        have hk' := hI (.child k')
        cases hgk : g (.child k') <;> rw [hgk] at hk' <;> simp only [Informed, hget] at hk' ⊢ <;>
          exact hk'

/-- A child that changes its table and goes on: it reads its input where it did, has got no other write end,
and has lost none but that of its input. -/
theorem HashingInv.childTable {child : Process n} {fds' : Fds} {input : ℕ} {eof : Bool}
    (h : HashingInv s g) (hg : g (.child k) = .child child.fds.get input eof)
    (hchild : s.children[k]? = some child)
    (hread : fds'.get child.fd2.pipeRead = child.fds.get child.fd2.pipeRead)
    (hsub : ∀ fd p, fds'.get fd = some (.writeEnd p) → ∃ fd', child.fds.get fd' = some (.writeEnd p))
    (hkeep : ∀ fd p, p ≠ input → child.fds.get fd = some (.writeEnd p) →
      fds'.get fd = some (.writeEnd p)) :
    HashingInv (s.setTable (.child k) fds')
      (Function.update g (.child k) (.child fds'.get input eof)) := by
  refine h.child hg fun L child' hchild' _ hin hreads heof hheir => ?_
  obtain rfl : child' = child := Option.some.inj (hchild'.symm.trans hchild)
  refine ⟨hheir.of_fds ?_ hsub (fun fd p hp => hkeep fd p (hin ▸ hp)) ?_, ?_⟩
  · rw [hread, hreads, hin]
  · rw [hreads, hin]
  · exact ⟨{ child' with fds := fds' }, by rw [Kernel.setTable_child hchild, if_pos rfl], rfl, hin,
      hread.trans hreads, heof⟩

end Child

/-! ## The invariant -/

section Exec

variable {s s' : Kernel n} {g : Party n → Knows} {o : Syscall} {r : o.Res}
  {Φ : o.Res → Knows → Prop}

/-- A change of what is in the pipes. -/
theorem HashingInv.buffer (h : HashingInv s g) (buffer : ℕ → Bytes) :
    HashingInv { s with buffer } g := by
  obtain ⟨hdisj, L, hD, hI⟩ := h
  have hs : ServerStep s { s with buffer } :=
    ⟨rfl, le_rfl, hD.stdin, hD.stdout, fun _ _ hfd => .inl hfd⟩
  exact ⟨hdisj, L, hD.server hs, fun t => (hI t).server hD hs fun _ _ _ _ _ => rfl⟩

/-- A write changes the content of the pipes at most. -/
theorem Syscall.exec_write {t : Party n} {fd : ℕ} {bytes : Bytes} {r : Int}
    (he : (Syscall.write fd bytes).exec t s = some (r, s')) : ∃ buffer, s' = { s with buffer } := by
  obtain ⟨fds, -, he⟩ := Option.bind_eq_some_iff.mp he
  split at he
  · split at he <;> cases he
    exact ⟨_, rfl⟩
  all_goals
    cases he
    exact ⟨s.buffer, rfl⟩

/-- A read changes the content of the pipes at most. It finds the end only when the server has closed
the write end. -/
theorem Syscall.exec_read {t : Party n} {fd m : ℕ} {r : Option Bytes}
    (he : (Syscall.read fd m).exec t s = some (r, s')) : (∃ buffer, s' = { s with buffer }) ∧
      ∀ fds p, s.table t = some fds → fds.get fd = some (.readEnd p) → 0 < m →
        ∃ bytes, r = some bytes ∧ (bytes = [] → ¬ s.Open p) := by
  obtain ⟨fds, hfds, he⟩ := Option.bind_eq_some_iff.mp he
  split at he
  · next p hp =>
      split at he
      · split at he
        · cases he
        · next hempty hholds =>
            cases he
            refine ⟨⟨s.buffer, rfl⟩, fun fds' p' hfds' hp' _ => ⟨[], rfl, ?_⟩⟩
            rintro - ⟨fd', hfd'⟩
            rw [hfds] at hfds'
            cases hfds'
            rw [hp] at hp'
            cases hp'
            exact hholds (by simp [Kernel.holds, (FdTable.holds_iff s.fds _).mpr ⟨fd', hfd'⟩])
      · next hne =>
          cases he
          refine ⟨⟨_, rfl⟩, fun fds' p' _ _ hm => ⟨_, rfl, fun hnil => ?_⟩⟩
          rcases List.take_eq_nil_iff.mp hnil with h | h
          · omega
          · exact absurd h hne
  all_goals
    next hfd _ =>
      cases he
      refine ⟨⟨s.buffer, rfl⟩, fun fds' p' hfds' hp' _ => ?_⟩
      rw [hfds] at hfds'
      cases hfds'
      simp_all

/-- `close` succeeds on an open descriptor. -/
theorem Syscall.exec_close {t : Party n} {fd : ℕ} {r : Int} {fds : Fds} {e : End}
    (ht : s.table t = some fds) (hfd : fds.get fd = some e)
    (he : (Syscall.close fd).exec t s = some (r, s')) :
    r = 0 ∧ s' = s.setTable t (fds.set fd none) := by
  obtain ⟨fds', hfds', he⟩ := Option.map_eq_some_iff.mp he
  rw [ht] at hfds'
  cases hfds'
  split at he
  · next h =>
      rw [hfd] at h
      cases h
  · cases he
    exact ⟨rfl, rfl⟩

/-- `dup2` succeeds on an open descriptor. -/
theorem Syscall.exec_dup2 {t : Party n} {fd fd' : ℕ} {r : Int} {fds : Fds} {e : End}
    (ht : s.table t = some fds) (hfd : fds.get fd = some e)
    (he : (Syscall.dup2 fd fd').exec t s = some (r, s')) :
    r = fd' ∧ s' = s.setTable t (fds.set fd' (some e)) := by
  obtain ⟨fds', hfds', he⟩ := Option.map_eq_some_iff.mp he
  rw [ht] at hfds'
  cases hfds'
  split at he
  · next h =>
      rw [hfd] at h
      cases h
  · next e' h =>
      cases he
      obtain rfl : e' = e := Option.some.inj (h.symm.trans hfd)
      exact ⟨rfl, rfl⟩

/-- `pipe` opens two descriptors that were free, for the ends of a new pipe. -/
theorem HashingInv.pipe {i : Fin n} {own : ℕ → Option End} {unread : Set ℕ} {r : FdPair}
    {Φ : FdPair → Knows → Prop} (h : HashingInv s g) (hg : g (.office i) = .office own unread)
    (hr : (Knows.office own unread).rule .pipe Φ)
    (he : Syscall.pipe.exec (.office i) s = some (r, s')) :
    ∃ x, Φ r x ∧ HashingInv s' (Function.update g (.office i) x) := by
  cases he
  obtain ⟨hdisj, L, hD, hI⟩ := id h
  have hi := hI (.office i)
  rw [hg] at hi
  set a := s.fds.lowest with ha
  set fds₁ := s.fds.set a (some (.readEnd s.pipes)) with hfds₁
  set b := fds₁.lowest with hb
  have ha₀ : s.fds.get a = none := s.fds.get_lowest
  have hb₁ : fds₁.get b = none := fds₁.get_lowest
  have hba : b ≠ a := by
    intro h
    rw [h, hfds₁, FdTable.get_set_self] at hb₁
    cases hb₁
  have hb₀ : s.fds.get b = none := by rwa [hfds₁, FdTable.get_set_of_ne _ hba] at hb₁
  -- the table after the two ends are put in
  have hget : ∀ fd, (fds₁.set b (some (.writeEnd s.pipes))).get fd =
      if fd = b then some (.writeEnd s.pipes) else if fd = a then some (.readEnd s.pipes)
        else s.fds.get fd := by
    intro fd
    split_ifs with h h'
    · rw [h, FdTable.get_set_self]
    · rw [FdTable.get_set_of_ne _ h, h', FdTable.get_set_self]
    · rw [FdTable.get_set_of_ne _ h, FdTable.get_set_of_ne _ h']
  have hkeep : ∀ fd e, s.fds.get fd = some e →
      (fds₁.set b (some (.writeEnd s.pipes))).get fd = some e := by
    intro fd e hfd
    rw [hget, if_neg, if_neg, hfd]
    · rintro rfl
      rw [ha₀] at hfd
      cases hfd
    · rintro rfl
      rw [hb₀] at hfd
      cases hfd
  -- the office owns no descriptor that is free
  have hfree : ∀ fd, s.fds.get fd = none → own fd = none := by
    intro fd hfd
    by_contra hne
    obtain ⟨e, hown⟩ := Option.ne_none_iff_exists'.mp hne
    rw [(hi.1 fd e hown).1] at hfd
    cases hfd
  refine ⟨_, hr ⟨a, b⟩ s.pipes (hfree a ha₀) (hfree b hb₀) hba.symm fun fd hfd => ?_,
    h.office hg ⟨rfl, Nat.le_succ _, hkeep _ _ hD.stdin, hkeep _ _ hD.stdout, fun fd e hfd => ?_⟩
      (fun fd e hfd _ => hkeep fd e hfd) (fun fd e hfd => ?_) (fun fd hfd => ?_) (fun p hp => ?_)⟩
  -- the pipe is new: no end of it was there
  · exact absurd (hD.bound fd _ s.pipes (hi.1 fd _ hfd).1 rfl) (lt_irrefl _)
  · change (fds₁.set b _).get fd = some e at hfd
    rw [hget] at hfd
    split_ifs at hfd
    · cases hfd
      exact .inr (by simp [End.pipe])
    · cases hfd
      exact .inr (by simp [End.pipe])
    · exact .inl hfd
  · change (fds₁.set b _).get fd = some e ∧ e ≠ .file
    simp only [Function.update_apply] at hfd
    rw [hget]
    split_ifs at hfd ⊢
    · exact ⟨hfd, by cases hfd; simp⟩
    · exact ⟨hfd, by cases hfd; simp⟩
    · exact hi.1 fd e hfd
  · simp only [Function.update_apply] at hfd
    split_ifs at hfd with hfdb hfda
    · exact .inr (hfdb ▸ hb₀)
    · exact .inr (hfda ▸ ha₀)
    · exact .inl hfd
  · rcases hp with rfl | hp
    · exact .inr ⟨le_rfl, Nat.lt_succ_self _⟩
    · exact .inl hp

/-- A system call of an office keeps the invariant. -/
theorem HashingInv.exec_office {i : Fin n} (h : HashingInv s g) (hr : (g (.office i)).rule o Φ)
    (he : o.exec (.office i) s = some (r, s'))
    (hsafe : ∀ fd1 fd2, o = .fork fd1 fd2 → s.ForkSafe fd2) :
    ∃ x, Φ r x ∧ HashingInv s' (Function.update g (.office i) x) := by
  obtain ⟨hdisj, L, hD, hI⟩ := id h
  have hi := hI (.office i)
  cases hg : g (.office i) with
  | office own unread =>
      rw [hg] at hr hi
      -- a call that leaves the table leaves what the office owns
      have hsame : ∀ x, Φ r x → x = .office own unread → (∃ buffer, s' = { s with buffer }) →
          ∃ x, Φ r x ∧ HashingInv s' (Function.update g (.office i) x) := by
        rintro x hx rfl ⟨buffer, rfl⟩
        refine ⟨_, hx, ?_⟩
        rw [← hg, Function.update_eq_self]
        exact h.buffer buffer
      cases o with
      | pipe => exact h.pipe hg hr he
      | fork fd1 fd2 =>
          cases he
          obtain ⟨output, input, htwo, hin, hΦ⟩ := hr
          exact ⟨_, hΦ _, h.fork hg htwo hin (hsafe fd1 fd2 rfl)⟩
      | close fd =>
          obtain ⟨hfd, hΦ⟩ := hr
          obtain ⟨e, hown⟩ := Option.ne_none_iff_exists'.mp hfd
          obtain ⟨hget, hfile⟩ := hi.1 fd e hown
          obtain ⟨rfl, rfl⟩ := Syscall.exec_close rfl hget he
          -- what is closed is an end of the office, never standard input or output
          have hne : ∀ fd', s.fds.get fd' = some .file → fd' ≠ fd := by
            rintro fd' hfd' rfl
            exact hfile (Option.some.inj (hget.symm.trans hfd'))
          refine ⟨_, hΦ, h.office hg ⟨rfl, le_rfl, ?_, ?_, fun fd' e' hfd' => .inl ?_⟩
            (fun fd' e' hfd' hnone => ?_) (fun fd' e' hfd' => ?_) (fun fd' hfd' => .inl ?_)
            fun p hp => .inl hp⟩
          · exact (FdTable.get_set_of_ne _ (hne _ hD.stdin) _).trans hD.stdin
          · exact (FdTable.get_set_of_ne _ (hne _ hD.stdout) _).trans hD.stdout
          · by_cases heq : fd' = fd
            · subst heq
              simp [Kernel.setTable] at hfd'
            · exact (FdTable.get_set_of_ne _ heq _).symm.trans hfd'
          · have heq : fd' ≠ fd := by
              rintro rfl
              rw [hown] at hnone
              cases hnone
            exact (FdTable.get_set_of_ne _ heq _).trans hfd'
          · by_cases heq : fd' = fd
            · subst heq
              simp at hfd'
            · rw [Function.update_of_ne heq] at hfd'
              exact ⟨(FdTable.get_set_of_ne _ heq _).trans (hi.1 fd' e' hfd').1, (hi.1 fd' e' hfd').2⟩
          · intro hnone
            by_cases heq : fd' = fd
            · subst heq
              simp at hfd'
            · rw [Function.update_of_ne heq] at hfd'
              exact hfd' hnone
      | write fd bytes => exact hsame _ (hr r) rfl (Syscall.exec_write he)
      | read fd m => exact hsame _ (hr r) rfl (Syscall.exec_read he).1
      | _ => exact hr.elim
  | _ =>
      rw [hg] at hi
      exact hi.elim

/-- A system call of a child keeps the invariant. -/
theorem HashingInv.exec_child {k : ℕ} (h : HashingInv s g) (hr : (g (.child k)).rule o Φ)
    (he : o.exec (.child k) s = some (r, s')) :
    ∃ x, Φ r x ∧ HashingInv s' (Function.update g (.child k) x) := by
  obtain ⟨hdisj, L, hD, hI⟩ := id h
  have hk := hI (.child k)
  cases hg : g (.child k) with
  | office own unread =>
      rw [hg] at hk
      exact hk.elim
  | ended =>
      rw [hg] at hr
      cases o <;> exact hr.elim
  | unborn =>
      rw [hg] at hr hk
      cases o with
      | forked =>
          obtain ⟨child, hchild, hres⟩ := Option.map_eq_some_iff.mp he
          cases hres
          obtain ⟨⟨output, htwo⟩, hin, hout⟩ := hk child hchild
          refine ⟨_, hr child.fd1 child.fd2 child.fds.get output (L.input k) htwo hin hout,
            hdisj.update_child k _, L, hD, informed_update (fun u _ => hI u) ?_⟩
          exact ⟨child, hchild, rfl, rfl, htwo.fd2Read, by simp⟩
      | _ => exact hr.elim
  | child fds input eof =>
      rw [hg] at hr hk
      obtain ⟨child, hchild, rfl, hin, hread, heof⟩ := hk
      have htable : s.table (.child k) = some child.fds := by
        rw [Kernel.table, hchild]
        rfl
      -- a call that leaves the table only moves the buffer and what has been read
      have hsame : ∀ x, Φ r x → (∃ buffer, s' = { s with buffer }) →
          (∃ eof', x = .child child.fds.get input eof' ∧ (eof' = true → ¬ s.Open input)) →
          ∃ x, Φ r x ∧ HashingInv s' (Function.update g (.child k) x) := by
        rintro x hx ⟨buffer, rfl⟩ ⟨eof', rfl, heof'⟩
        refine ⟨_, hx, HashingInv.buffer ?_ buffer⟩
        exact ⟨hdisj.update_child k _, L, hD, informed_update (fun u _ => hI u)
          ⟨child, hchild, rfl, hin, hread, heof'⟩⟩
      cases o with
      | close fd =>
          obtain ⟨⟨e, hfd, hne, hown⟩, hΦ⟩ := hr
          obtain ⟨rfl, rfl⟩ := Syscall.exec_close htable hfd he
          have hset : ∀ fd', fd' ≠ fd → (child.fds.set fd none).get fd' = child.fds.get fd' :=
            fun fd' h => FdTable.get_set_of_ne _ h _
          have hreadne : child.fd2.pipeRead ≠ fd := by
            rintro rfl
            exact hne (Option.some.inj (hfd.symm.trans hread))
          refine ⟨_, hΦ, h.childTable hg hchild (hset _ hreadne) (fun fd' p hfd' => ⟨fd', ?_⟩)
            fun fd' p hp hfd' => ?_⟩
          -- what is left after the close was there before it
          · by_cases heq : fd' = fd
            · subst heq
              simp at hfd'
            · rwa [hset fd' heq] at hfd'
          · rw [hset, hfd']
            rintro rfl
            exact hp (hown p (Option.some.inj (hfd.symm.trans hfd')))
      | dup2 fd fd' =>
          obtain ⟨hfile, e, hfd, hΦ⟩ := hr
          obtain ⟨rfl, rfl⟩ := Syscall.exec_dup2 htable hfd he
          have hset : ∀ fd'', fd'' ≠ fd' →
              (child.fds.set fd' (some e)).get fd'' = child.fds.get fd'' :=
            fun fd'' h => FdTable.get_set_of_ne _ h _
          -- only the file at `fd'` is replaced, so the ends the child has to keep stay
          have hnofile : ∀ fd'' e', child.fds.get fd'' = some e' → e' ≠ .file → fd'' ≠ fd' := by
            rintro fd'' e' hget hne rfl
            exact hne (Option.some.inj (hget.symm.trans hfile))
          have hreadne := hnofile _ _ hread (by simp)
          refine ⟨_, hΦ, h.childTable hg hchild (hset _ hreadne) (fun fd'' p hfd'' => ?_)
            fun fd'' p _ hfd'' => ?_⟩
          · by_cases heq : fd'' = fd'
            · subst heq
              rw [FdTable.get_set_self] at hfd''
              exact ⟨fd, hfd.trans hfd''⟩
            · exact ⟨fd'', by rwa [hset fd'' heq] at hfd''⟩
          · rw [hset _ (hnofile _ _ hfd'' (by simp)), hfd'']
      | execlp =>
          cases he
          exact hsame _ hr ⟨s.buffer, rfl⟩ ⟨eof, rfl, heof⟩
      | write fd bytes => exact hsame _ (hr r) (Syscall.exec_write he) ⟨eof, rfl, heof⟩
      | read fd m =>
          obtain ⟨hm, hfd, hmore, hend⟩ := hr
          obtain ⟨hbuffer, hres⟩ := Syscall.exec_read he
          obtain ⟨bytes, rfl, hclosed⟩ := hres child.fds input htable hfd hm
          -- an empty read is the end of the input: no process holds its write end
          by_cases hnil : bytes = []
          · subst hnil
            exact hsame _ hend hbuffer ⟨true, rfl, fun _ => hclosed rfl⟩
          · exact hsame _ (hmore bytes hnil) hbuffer ⟨eof, rfl, heof⟩
      | exit status =>
          cases he
          obtain ⟨hend, hΦ⟩ := hr
          refine ⟨_, hΦ, h.child hg fun L' child' hchild' hget hin' hread' heof' hheir =>
            ⟨⟨hheir.input, by simp, .inr ⟨fun _ => rfl, ?_⟩⟩, trivial⟩⟩
          rw [hin']
          exact heof' hend
      | _ => exact hr.elim

end Exec

/-! ## The certificate -/

/-- Every fork of a run was safe. -/
def SafeForks (tr : List (Event (Party n) Syscall Syscall.Res (Kernel n))) : Prop :=
  ∀ e ∈ tr, ∀ fd1 fd2, e.op = .fork fd1 fd2 → e.pre.ForkSafe fd2

/-- The invariant holds in all runs whose forks are safe. -/
def hashingCertificate (concatd : Fin n → ℕ → Bytes) (digest : Bytes → Bytes) :
    Certificate (hashing concatd digest) descriptors where
  assumes := SafeForks
  assumes_append h e he := h e (List.mem_append_left _ he)
  inv _ c g := HashingInv c.shared g
  post := AtLoop
  init {c} h := by
    refine ⟨fun | .office _ => .office (fun _ => none) ∅ | .child _ => .unborn, ⟨?_, ?_⟩, ?_⟩
    · intro i j own own' unread unread' _ hi hj
      cases hi
      cases hj
      exact ⟨fun _ _ => rfl, fun p hp => hp.elim⟩
    · have hnone : ∀ k : ℕ, c.shared.children[k]? = none := by
        intro k
        rw [h.1.children, List.getElem?_nil]
      refine ⟨⟨fun _ _ => False, fun _ => 0⟩, ⟨h.1.stdin, h.1.stdout, fun fd e p hfd hp => ?_,
        fun _ _ h => h.elim, fun _ _ _ _ _ _ h => h.elim, fun _ _ _ _ _ _ h => h.elim,
        fun _ _ _ h => h.elim, fun k child hk => ?_⟩, fun t => ?_⟩
      · rw [h.1.fds fd e hfd] at hp
        cases hp
      · rw [hnone] at hk
        cases hk
      · cases t with
        | office i => exact ⟨fun _ _ h => (nomatch h), fun p hp => hp.elim⟩
        | child k =>
            intro child hk
            rw [hnone] at hk
            cases hk
    · rintro (i | k)
      · exact ⟨⟨0, rfl⟩, _, _, rfl⟩
      · exact rfl
  exec {tr c g t o k r s' Φ} _ ha hinv _ hrule hsem := by
    have hsafe : ∀ fd1 fd2, o = .fork fd1 fd2 → c.shared.ForkSafe fd2 :=
      fun fd1 fd2 h => ha ⟨t, o, r, c.shared⟩ (by simp) fd1 fd2 h
    cases t with
    | office i => exact hinv.exec_office hrule hsem hsafe
    | child k => exact hinv.exec_child hrule hsem
  loop {tr c g t x} hinv _ hpost := by
    cases t with
    | office i =>
        obtain ⟨⟨number, rfl⟩, own, unread, hg⟩ := hpost
        refine ⟨_, wp_officeBody i (concatd i) number, ?_⟩
        obtain ⟨hdisj, L, hD, hI⟩ := hinv
        refine ⟨hdisj.update fun j own₁ unread₁ _ _ => ?_, L, hD, informed_update (fun u _ => hI u) ?_⟩
        · exact ⟨fun fd hfd => absurd rfl hfd, fun p hp => hp.elim⟩
        · exact ⟨fun _ _ h => (nomatch h), fun p hp => hp.elim⟩
    | child k =>
        refine ⟨_, wp_childBody k digest hpost, ?_⟩
        rwa [Function.update_eq_self]
  divert _ _ _ h := h.elim
  env hinv h := hinv.otherFds h

end Sope.Hashing
