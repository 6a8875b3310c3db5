import Sope.Hashing.Conversations
import Sope.Hashing.CyclicWaits

/-! # Every office reads its own hash

All offices hash at once, each with a child of its own, and the children inherit ends of the pipes of
the others. Nevertheless the hashes that an office reads are those of its own strings, in the order in
which it has hashed them (`hashes_of_run`), whether or not the forks are safe.

* `Talk` — what has become of the string that an office gives to its child, and of the digest.
* `Converse` — the global invariant: each pipe serves one purpose of one conversation. -/

namespace Sope.Hashing

open Concurrency

variable {n : ℕ}

/-! ## The invariant -/

/-- What is remembered of a child: its pipes, the string for it and how far it and its office are. -/
structure Talk where
  input : ℕ
  output : ℕ
  /-- The string that the office hashes. -/
  text : Bytes
  /-- The office has written the string. -/
  sent : Bool
  /-- What the child has read. -/
  got : Bytes
  /-- The child has written the digest. -/
  printed : Bool
  /-- The office has read the hash. -/
  taken : Bool

/-- What is in the two pipes of a child. -/
structure Talk.Carried (digest : Bytes → Bytes) (buffer : ℕ → Bytes) (talk : Talk) : Prop where
  unsent : talk.sent = false → talk.got = [] ∧ buffer talk.input = []
  sent : talk.sent = true → talk.got ++ buffer talk.input = talk.text
  output : talk.taken = false →
    buffer talk.output = if talk.printed then digest talk.text else []

/-- Only what is in the pipes of the child matters. -/
theorem Talk.Carried.congr {digest : Bytes → Bytes} {buffer buffer' : ℕ → Bytes} {talk : Talk}
    (h : talk.Carried digest buffer) (hin : buffer' talk.input = buffer talk.input)
    (hout : buffer' talk.output = buffer talk.output) : talk.Carried digest buffer' where
  unsent hsent := by
    rw [hin]
    exact h.unsent hsent
  sent hsent := by
    rw [hin]
    exact h.sent hsent
  output htaken := by
    rw [hout]
    exact h.output htaken

/-- What is remembered of the pipes and of the children. -/
structure Records (n : ℕ) where
  /-- The office that has made a pipe. -/
  maker : ℕ → Party n
  /-- The child with a number. -/
  talk : ℕ → Talk

/-- Nothing has been written into the pipe `p`, and it is not for any child. -/
def Kernel.Unused (s : Kernel n) (R : Records n) (p : ℕ) : Prop :=
  s.buffer p = [] ∧ ∀ k < s.children.length, (R.talk k).input ≠ p ∧ (R.talk k).output ≠ p

/-- What an office knows of the child that it talks to is true. -/
def Stage.Holds (texts : ℕ → Bytes) (s : Kernel n) (R : Records n) (i : Fin n)
    (own : ℕ → Option End) (hashed : ℕ) : Stage → Prop
  | .calling => ∀ fd e p, own fd = some e → e.pipe = some p → s.Unused R p
  | .forked k output input => k < s.children.length ∧ R.maker output = .office i ∧
      (R.talk k).output = output ∧ (R.talk k).input = input ∧ (R.talk k).text = texts hashed ∧
      (R.talk k).sent = false ∧ (R.talk k).taken = false ∧ ∃ fd, own fd = some (.writeEnd input)
  | .sent k output => k < s.children.length ∧ R.maker output = .office i ∧
      (R.talk k).output = output ∧ (R.talk k).text = texts hashed ∧ (R.talk k).sent = true ∧
      (R.talk k).taken = false
  | .finished => True

/-- What a child knows of its progress is true. -/
def Progress.Holds (talk : Talk) : Progress → Prop
  | .reading got => talk.got = got ∧ talk.printed = false
  | .atEnd got => talk.got = got ∧ talk.printed = false ∧ talk.text = got
  | .printed => talk.printed = true

/-- What a party knows is true. -/
def Role.Holds (concatd : Fin n → ℕ → Bytes) (s : Kernel n) (R : Records n) :
    Party n → Role → Prop
  | .office i, .office own hashed stage =>
      (∀ fd e, own fd = some e → s.fds.get fd = some e ∧
        ∃ p, e.pipe = some p ∧ p < s.pipes ∧ R.maker p = .office i) ∧
      stage.Holds (concatd i) s R i own hashed
  | .child k, .unborn => ∀ child, s.children[k]? = some child →
      TwoPipes child.fds.get child.fd1 child.fd2 (R.talk k).output (R.talk k).input ∧
        child.fds.get stdinFileno = some .file ∧ child.fds.get stdoutFileno = some .file ∧
        (R.talk k).got = [] ∧ (R.talk k).printed = false
  | .child k, .child fds input output progress => ∃ child, s.children[k]? = some child ∧
      child.fds.get = fds ∧ (R.talk k).input = input ∧ (R.talk k).output = output ∧
      (∃ fd, fds fd = some (.writeEnd output)) ∧ progress.Holds (R.talk k)
  | .child k, .ended => k < s.children.length ∧ (R.talk k).printed = true
  | _, _ => False

/-- The invariant on the pipes: each is used in one conversation, and for one purpose. -/
structure Converse (digest : Bytes → Bytes) (s : Kernel n) (R : Records n)
    (g : Party n → Role) : Prop where
  stdin : s.fds.get stdinFileno = some .file
  stdout : s.fds.get stdoutFileno = some .file
  /-- A pipe that has not been made is empty. -/
  fresh : ∀ p, s.pipes ≤ p → s.buffer p = []
  made : ∀ k < s.children.length, (R.talk k).input < s.pipes ∧ (R.talk k).output < s.pipes
  /-- No pipe is used twice. -/
  apart : ∀ a < s.children.length, ∀ b < s.children.length,
    (R.talk a).input ≠ (R.talk b).output ∧
      (a ≠ b → (R.talk a).input ≠ (R.talk b).input ∧ (R.talk a).output ≠ (R.talk b).output)
  /-- As long as the string of a child has not been written, there is an office that is about to. -/
  pending : ∀ k < s.children.length, (R.talk k).sent = false → ∃ i own hashed,
    g (.office i) = .office own hashed (.forked k (R.talk k).output (R.talk k).input)
  carried : ∀ k < s.children.length, (R.talk k).Carried digest s.buffer

/-- The invariant of the hashing offices and their children. -/
def ConverseInv (concatd : Fin n → ℕ → Bytes) (digest : Bytes → Bytes) (s : Kernel n)
    (g : Party n → Role) : Prop :=
  ∃ R : Records n, Converse digest s R g ∧ ∀ t, Role.Holds concatd s R t (g t)

section Steps

variable {concatd : Fin n → ℕ → Bytes} {digest : Bytes → Bytes} {s s' : Kernel n} {R N : Records n}
  {g : Party n → Role} {i : Fin n} {k : ℕ} {x : Role}

/-- What an office knows stays true if its own descriptors, its pipes and its child's string do. -/
theorem Role.Holds.office (h : Role.Holds concatd s R (.office i) x) (hC : Converse digest s R g)
    (hfds : ∀ fd e p, s.fds.get fd = some e → e.pipe = some p → R.maker p = .office i →
      s'.fds.get fd = some e)
    (hpipes : s.pipes ≤ s'.pipes) (hmaker : ∀ p < s.pipes, N.maker p = R.maker p)
    (hunused : ∀ p < s.pipes, R.maker p = .office i → s.Unused R p → s'.Unused N p)
    (htalk : ∀ k < s.children.length, R.maker (R.talk k).output = .office i →
      k < s'.children.length ∧ ∃ got printed, N.talk k = { R.talk k with got, printed }) :
    Role.Holds concatd s' N (.office i) x := by
  cases x with
  | office own hashed stage =>
      obtain ⟨hown, hstage⟩ := h
      refine ⟨fun fd e hfd => ?_, ?_⟩
      · obtain ⟨hget, p, hp, hlt, hi⟩ := hown fd e hfd
        exact ⟨hfds fd e p hget hp hi, p, hp, hlt.trans_le hpipes, (hmaker p hlt).trans hi⟩
      · cases stage with
        | calling =>
            intro fd e p hfd hp
            obtain ⟨-, p', hp', hlt, hi⟩ := hown fd e hfd
            obtain rfl : p = p' := Option.some.inj (hp.symm.trans hp')
            exact hunused p hlt hi (hstage fd e p hfd hp)
        | forked k output input =>
            obtain ⟨hk, hi, hout, hin, htext, hsent, htaken, hfd⟩ := hstage
            obtain ⟨hk', got, printed, htalk⟩ := htalk k hk (hout ▸ hi)
            have hlt := (hC.made k hk).2
            rw [hout] at hlt
            exact ⟨hk', (hmaker _ hlt).trans hi, by rw [htalk, ← hout], by rw [htalk, ← hin],
              by rw [htalk, ← htext], by rw [htalk, ← hsent], by rw [htalk, ← htaken], hfd⟩
        | sent k output =>
            obtain ⟨hk, hi, hout, htext, hsent, htaken⟩ := hstage
            obtain ⟨hk', got, printed, htalk⟩ := htalk k hk (hout ▸ hi)
            have hlt := (hC.made k hk).2
            rw [hout] at hlt
            exact ⟨hk', (hmaker _ hlt).trans hi, by rw [htalk, ← hout], by rw [htalk, ← htext],
              by rw [htalk, ← hsent], by rw [htalk, ← htaken]⟩
        | finished => trivial
  | _ => exact h

/-- What a child knows stays true if its table and its own progress do. -/
theorem Role.Holds.child (h : Role.Holds concatd s R (.child k) x)
    (hchild : s'.children[k]? = s.children[k]?)
    (htalk : ∃ sent taken, N.talk k = { R.talk k with sent, taken }) :
    Role.Holds concatd s' N (.child k) x := by
  obtain ⟨sent, taken, htalk⟩ := htalk
  cases x with
  | office own hashed stage => exact h
  | unborn =>
      intro child hk
      rw [hchild] at hk
      rw [htalk]
      exact h child hk
  | child fds input output progress =>
      obtain ⟨child, hk, hfds, hin, hout, hfd, hprogress⟩ := h
      refine ⟨child, hchild.trans hk, hfds, by rw [htalk, ← hin], by rw [htalk, ← hout], hfd, ?_⟩
      rw [htalk]
      cases progress <;> exact hprogress
  | ended =>
      refine ⟨?_, by rw [htalk]; exact h.2⟩
      by_contra hge
      rw [List.getElem?_eq_none (Nat.le_of_not_lt hge), List.getElem?_eq_getElem h.1] at hchild
      cases hchild

/-- An office that is not about to write stays away from the strings that are not written. -/
theorem Converse.pending_office {own own' : ℕ → Option End} {hashed hashed' : ℕ}
    {stage stage' : Stage} (h : Converse digest s R g)
    (hg : g (.office i) = .office own hashed stage)
    (hstage : stage' = stage ∨ ∀ k output input, stage ≠ .forked k output input) :
    ∀ k < s.children.length, (R.talk k).sent = false → ∃ j own hashed,
      Function.update g (.office i) (.office own' hashed' stage') (.office j) =
        .office own hashed (.forked k (R.talk k).output (R.talk k).input) := by
  intro k hk hsent
  obtain ⟨j, own₁, hashed₁, hj⟩ := h.pending k hk hsent
  by_cases hji : j = i
  · subst hji
    rw [hg] at hj
    cases hj
    exact ⟨j, own', hashed', by rw [Function.update_self, hstage.resolve_right fun h => h _ _ _ rfl]⟩
  · exact ⟨j, own₁, hashed₁, by rw [Function.update_of_ne (by simpa using hji), hj]⟩

/-- A child does not matter to the strings that are not written. -/
theorem Converse.pending_child (h : Converse digest s R g) :
    ∀ k' < s.children.length, (R.talk k').sent = false → ∃ i own hashed,
      Function.update g (.child k) x (.office i) =
        .office own hashed (.forked k' (R.talk k').output (R.talk k').input) := by
  intro k' hk' hsent
  obtain ⟨i, own, hashed, hi⟩ := h.pending k' hk' hsent
  exact ⟨i, own, hashed, by rw [Function.update_of_ne (by simp), hi]⟩

/-- A step changes the descriptors of the server and perhaps makes pipes. -/
theorem Converse.table {fds : Fds} {pipes : ℕ} {m : ℕ → Party n} (h : Converse digest s R g)
    (hin : fds.get stdinFileno = some .file) (hout : fds.get stdoutFileno = some .file)
    (hpipes : s.pipes ≤ pipes) : Converse digest { s with fds, pipes } { R with maker := m } g where
  stdin := hin
  stdout := hout
  fresh p hp := h.fresh p (hpipes.trans hp)
  made k hk := ⟨(h.made k hk).1.trans_le hpipes, (h.made k hk).2.trans_le hpipes⟩
  apart := h.apart
  pending := h.pending
  carried := h.carried

/-- What another party knows stays true when the server's descriptors change. -/
theorem Role.Holds.table {fds : Fds} {pipes : ℕ} {maker : ℕ → Party n} {t : Party n}
    (h : Role.Holds concatd s R t x) (hC : Converse digest s R g) (hpipes : s.pipes ≤ pipes)
    (hmaker : ∀ p < s.pipes, maker p = R.maker p)
    (hfds : ∀ fd e p, s.fds.get fd = some e → e.pipe = some p → R.maker p = t →
      fds.get fd = some e) :
    Role.Holds concatd { s with fds, pipes } { R with maker } t x := by
  cases t with
  | office j =>
      exact Role.Holds.office (N := { R with maker }) h hC hfds hpipes hmaker
        (fun _ _ _ hp => hp) fun k hk _ => ⟨hk, _, _, rfl⟩
  | child k => exact h.child rfl ⟨_, _, rfl⟩

/-- The rest of the server does not touch the descriptors of the pipes. -/
theorem ConverseInv.otherFds (h : ConverseInv concatd digest s g) (hs : OtherFds s s') :
    ConverseInv concatd digest s' g := by
  obtain ⟨R, hC, hR⟩ := h
  cases hs with
  | opened =>
      have hset : ∀ fd e, s.fds.get fd = some e →
          (s.fds.set s.fds.lowest (some .file)).get fd = some e := by
        intro fd e hfd
        have hne : fd ≠ s.fds.lowest := by
          rintro rfl
          rw [s.fds.get_lowest] at hfd
          cases hfd
        rwa [FdTable.get_set_of_ne _ hne]
      exact ⟨R, hC.table (hset _ _ hC.stdin) (hset _ _ hC.stdout) le_rfl, fun t =>
        (hR t).table hC le_rfl (fun _ _ => rfl) fun fd e _ hfd _ _ => hset fd e hfd⟩
  | @closed fd hfile hin hout =>
      refine ⟨R, hC.table ?_ ?_ le_rfl, fun t => (hR t).table hC le_rfl (fun _ _ => rfl) ?_⟩
      · rw [FdTable.get_set_of_ne _ hin.symm]
        exact hC.stdin
      · rw [FdTable.get_set_of_ne _ hout.symm]
        exact hC.stdout
      · intro fd' e p hfd' hp _
        have hne : fd' ≠ fd := by
          rintro rfl
          rw [hfile] at hfd'
          cases hfd'
          cases hp
        rwa [FdTable.get_set_of_ne _ hne]

/-! ## System calls of the offices -/

/-- `pipe` opens two descriptors that were free, for the ends of a new pipe. -/
theorem Syscall.exec_pipe {r : FdPair} (he : Syscall.pipe.exec (.office i) s = some (r, s')) :
    ∃ fds : Fds, s' = { s with fds, pipes := s.pipes + 1 } ∧ s.fds.get r.pipeRead = none ∧
      s.fds.get r.pipeWrite = none ∧ r.pipeRead ≠ r.pipeWrite ∧
      fds.get = Function.update (Function.update s.fds.get r.pipeRead (some (.readEnd s.pipes)))
        r.pipeWrite (some (.writeEnd s.pipes)) := by
  cases he
  have hne : s.fds.lowest ≠ (s.fds.set s.fds.lowest (some (.readEnd s.pipes))).lowest := by
    intro h
    have hfree := (s.fds.set s.fds.lowest (some (.readEnd s.pipes))).get_lowest
    rw [← h, FdTable.get_set_self] at hfree
    cases hfree
  refine ⟨_, rfl, s.fds.get_lowest, ?_, hne, rfl⟩
  rw [← FdTable.get_set_of_ne s.fds hne.symm]
  exact FdTable.get_lowest _

/-- A write into a pipe appends to what is in it. -/
theorem Syscall.exec_write_pipe {t : Party n} {fd p : ℕ} {bytes : Bytes} {r : Int} {fds : Fds}
    (ht : s.table t = some fds) (hfd : fds.get fd = some (.writeEnd p))
    (he : (Syscall.write fd bytes).exec t s = some (r, s')) :
    r = bytes.length ∧
      s' = { s with buffer := Function.update s.buffer p (s.buffer p ++ bytes) } := by
  simp only [Syscall.exec, ht, Option.bind_some, hfd] at he
  split at he
  · cases he
    exact ⟨rfl, rfl⟩
  · cases he

/-- A read takes the first bytes of a pipe; there are none only if nobody can write any. -/
theorem Syscall.exec_read_pipe {t : Party n} {fd p m : ℕ} {r : Option Bytes} {fds : Fds}
    (ht : s.table t = some fds) (hfd : fds.get fd = some (.readEnd p))
    (he : (Syscall.read fd m).exec t s = some (r, s')) :
    r = some ((s.buffer p).take m) ∧
      s' = { s with buffer := Function.update s.buffer p ((s.buffer p).drop m) } ∧
      (s.buffer p = [] → s.holds (.writeEnd p) = false) := by
  simp only [Syscall.exec, ht, Option.bind_some, hfd] at he
  split at he
  · next hempty =>
      split at he
      · cases he
      · next hholds =>
          cases he
          refine ⟨by rw [hempty, List.take_nil], ?_, fun _ => by simpa using hholds⟩
          rw [hempty, List.drop_nil, ← hempty, Function.update_eq_self]
  · next hne =>
      cases he
      exact ⟨rfl, rfl, fun h => absurd h hne⟩

/-- An office makes a pipe. -/
theorem ConverseInv.pipe {own : ℕ → Option End} {hashed : ℕ} {r : FdPair}
    {Φ : FdPair → Role → Prop} (h : ConverseInv concatd digest s g)
    (hg : g (.office i) = .office own hashed .calling)
    (hr : (Role.office own hashed .calling).rule (concatd i) digest .pipe Φ)
    (he : Syscall.pipe.exec (.office i) s = some (r, s')) :
    ∃ x, Φ r x ∧ ConverseInv concatd digest s' (Function.update g (.office i) x) := by
  obtain ⟨R, hC, hR⟩ := h
  obtain ⟨fds, rfl, hr₀, hw₀, hne, hfds⟩ := Syscall.exec_pipe he
  have hi := hR (.office i)
  rw [hg] at hi
  obtain ⟨hown, hunused⟩ := hi
  -- what was open stays open
  have hkeep : ∀ fd e, s.fds.get fd = some e → fds.get fd = some e := by
    intro fd e hfd
    rw [hfds, Function.update_of_ne, Function.update_of_ne, hfd]
    · rintro rfl
      rw [hr₀] at hfd
      cases hfd
    · rintro rfl
      rw [hw₀] at hfd
      cases hfd
  -- the office owns no descriptor that is free
  have hfree : ∀ fd, s.fds.get fd = none → own fd = none := by
    intro fd hfd
    by_contra hown'
    obtain ⟨e, he⟩ := Option.ne_none_iff_exists'.mp hown'
    rw [(hown fd e he).1] at hfd
    cases hfd
  refine ⟨_, hr r s.pipes (hfree _ hr₀) (hfree _ hw₀) hne fun fd hfd => ?_,
    { R with maker := Function.update R.maker s.pipes (.office i) }, ?_,
    (Function.forall_update_iff _ _).mpr ⟨⟨fun fd e hfd => ?_, fun fd e p hfd hp => ?_⟩, ?_⟩⟩
  · obtain ⟨-, p, hp, hlt, -⟩ := hown fd _ hfd
    cases hp
    exact lt_irrefl _ hlt
  · have hC' := hC.table (m := Function.update R.maker s.pipes (.office i)) (hkeep _ _ hC.stdin)
      (hkeep _ _ hC.stdout) (Nat.le_succ s.pipes)
    exact { hC' with pending := hC.pending_office hg (.inl rfl) }
  · change fds.get fd = some e ∧ ∃ p, e.pipe = some p ∧ p < s.pipes + 1 ∧
      Function.update R.maker s.pipes (.office i) p = .office i
    simp only [Function.update_apply] at hfd
    split_ifs at hfd with hfdw hfdr
    · cases hfd
      exact ⟨by rw [hfds, hfdw, Function.update_self], _, rfl, Nat.lt_succ_self _, by simp⟩
    · cases hfd
      refine ⟨?_, _, rfl, Nat.lt_succ_self _, by simp⟩
      rw [hfds, hfdr, Function.update_of_ne hne, Function.update_self]
    · obtain ⟨hget, p, hp, hlt, hi⟩ := hown fd e hfd
      exact ⟨hkeep fd e hget, p, hp, hlt.trans (Nat.lt_succ_self _), by
        rw [Function.update_of_ne hlt.ne, hi]⟩
  · -- nothing is in the new pipe, and no child has it
    have hnew : s.Unused R s.pipes :=
      ⟨hC.fresh _ le_rfl, fun k hk => ⟨(hC.made k hk).1.ne, (hC.made k hk).2.ne⟩⟩
    simp only [Function.update_apply] at hfd
    split_ifs at hfd with hfdw hfdr
    · cases hfd
      cases hp
      exact hnew
    · cases hfd
      cases hp
      exact hnew
    · exact hunused fd e p hfd hp
  · intro t _
    exact (hR t).table hC (Nat.le_succ _) (fun p hp => Function.update_of_ne hp.ne ..)
      fun fd e _ hfd _ _ => hkeep fd e hfd

/-- An office closes one of its descriptors. -/
theorem ConverseInv.close {own : ℕ → Option End} {hashed fd : ℕ} {stage : Stage} {r : Int}
    (h : ConverseInv concatd digest s g) (hg : g (.office i) = .office own hashed stage)
    (hfd : own fd ≠ none)
    (hstage : ∀ k output input, stage = .forked k output input → own fd ≠ some (.writeEnd input))
    (he : (Syscall.close fd).exec (.office i) s = some (r, s')) :
    r = 0 ∧ ConverseInv concatd digest s' (Function.update g (.office i)
      (.office (Function.update own fd none) hashed stage)) := by
  obtain ⟨R, hC, hR⟩ := h
  have hi := hR (.office i)
  rw [hg] at hi
  obtain ⟨hown, hst⟩ := hi
  obtain ⟨e, hfd⟩ := Option.ne_none_iff_exists'.mp hfd
  obtain ⟨hget, p, hp, hlt, hmaker⟩ := hown fd e hfd
  obtain ⟨rfl, rfl⟩ := Syscall.exec_close rfl hget he
  -- what stays is all but the end of the office's own pipe
  have hkeep : ∀ fd' e', s.fds.get fd' = some e' → e'.pipe ≠ some p →
      (s.fds.set fd none).get fd' = some e' := by
    intro fd' e' hfd' hne
    have : fd' ≠ fd := by
      rintro rfl
      rw [hget] at hfd'
      cases hfd'
      exact hne hp
    rwa [FdTable.get_set_of_ne _ this]
  refine ⟨rfl, R, ?_, (Function.forall_update_iff _ _).mpr ⟨⟨fun fd' e' hfd' => ?_, ?_⟩, ?_⟩⟩
  · have hC' := hC.table (m := R.maker) (hkeep _ _ hC.stdin (nomatch ·))
      (hkeep _ _ hC.stdout (nomatch ·)) (le_refl s.pipes)
    exact { hC' with pending := hC.pending_office hg (.inl rfl) }
  · have hne : fd' ≠ fd := by
      rintro rfl
      simp at hfd'
    rw [Function.update_of_ne hne] at hfd'
    obtain ⟨hget', hrest⟩ := hown fd' e' hfd'
    exact ⟨(FdTable.get_set_of_ne _ hne _).trans hget', hrest⟩
  · cases stage with
    | calling =>
        intro fd' e' p' hfd' hp'
        have hne : fd' ≠ fd := by
          rintro rfl
          simp at hfd'
        rw [Function.update_of_ne hne] at hfd'
        exact hst fd' e' p' hfd' hp'
    | forked k output input =>
        obtain ⟨hk, hi, hout, hin, htext, hsent, htaken, fd', hfd'⟩ := hst
        refine ⟨hk, hi, hout, hin, htext, hsent, htaken, fd', ?_⟩
        rw [Function.update_of_ne, hfd']
        rintro rfl
        exact hstage k output input rfl hfd'
    | sent k output => exact hst
    | finished => trivial
  · intro t ht
    refine (hR t).table hC le_rfl (fun _ _ => rfl) fun fd' e' p' hfd' hp' hmaker' => ?_
    refine hkeep fd' e' hfd' ?_
    rw [hp']
    rintro ⟨⟩
    exact ht (hmaker'.symm.trans hmaker)

/-- What is remembered when one of the children is remembered differently. -/
def Records.setTalk (R : Records n) (k : ℕ) (talk : Talk) : Records n :=
  { R with talk := Function.update R.talk k talk }

@[simp] theorem Records.setTalk_self (talk : Talk) : (R.setTalk k talk).talk k = talk :=
  Function.update_self ..

theorem Records.setTalk_of_ne {k' : ℕ} (h : k' ≠ k) (talk : Talk) :
    (R.setTalk k talk).talk k' = R.talk k' := Function.update_of_ne h ..

/-- An office forks a child that reads the one pipe and writes into the other. -/
theorem ConverseInv.fork {own : ℕ → Option End} {hashed output input : ℕ} {fd1 fd2 : FdPair}
    (h : ConverseInv concatd digest s g) (hg : g (.office i) = .office own hashed .calling)
    (htwo : TwoPipes own fd1 fd2 output input) :
    ConverseInv concatd digest (s.forked i fd1 fd2) (Function.update g (.office i)
      (.office own hashed (.forked s.children.length output input))) := by
  obtain ⟨R, hC, hR⟩ := h
  have hi := hR (.office i)
  rw [hg] at hi
  obtain ⟨hown, hunused⟩ := hi
  have hlength : (s.forked i fd1 fd2).children.length = s.children.length + 1 := by
    simp [Kernel.forked]
  have hin : s.Unused R input := hunused _ _ _ htwo.fd2Read rfl
  have hout : s.Unused R output := hunused _ _ _ htwo.fd1Read rfl
  have hpipe : ∀ {fd e p}, own fd = some e → e.pipe = some p →
      p < s.pipes ∧ R.maker p = .office i := by
    intro fd e p hfd hp
    obtain ⟨-, p', hp', hrest⟩ := hown fd e hfd
    obtain rfl : p = p' := Option.some.inj (hp.symm.trans hp')
    exact hrest
  obtain ⟨hinlt, hini⟩ := hpipe htwo.fd2Read rfl
  obtain ⟨houtlt, houti⟩ := hpipe htwo.fd1Read rfl
  set talk : Talk := ⟨input, output, concatd i hashed, false, [], false, false⟩ with htalk
  have hold : ∀ k < s.children.length, (R.setTalk s.children.length talk).talk k = R.talk k :=
    fun k hk => Records.setTalk_of_ne hk.ne talk
  -- a child that there is now is an older one or the new one
  have hcases : ∀ {P : ℕ → Prop}, (∀ k < s.children.length, P k) → P s.children.length →
      ∀ k < (s.forked i fd1 fd2).children.length, P k := by
    intro P hlt hnew k hk
    rw [hlength] at hk
    rcases Nat.lt_succ_iff_lt_or_eq.mp hk with hk | rfl
    exacts [hlt k hk, hnew]
  refine ⟨R.setTalk s.children.length talk, ⟨hC.stdin, hC.stdout, hC.fresh, ?_, ?_, ?_, ?_⟩,
    (Function.forall_update_iff _ _).mpr ⟨⟨hown, ?_⟩, ?_⟩⟩
  · refine hcases (fun k hk => ?_) ?_
    · rw [hold k hk]
      exact hC.made k hk
    · rw [Records.setTalk_self]
      exact ⟨hinlt, houtlt⟩
  · refine hcases (fun a ha => hcases (fun b hb => ?_) ?_) (hcases (fun b hb => ?_) ?_)
    · rw [hold a ha, hold b hb]
      exact hC.apart a ha b hb
    · rw [hold a ha, Records.setTalk_self]
      exact ⟨(hout.2 a ha).1, fun _ => ⟨(hin.2 a ha).1, (hout.2 a ha).2⟩⟩
    · rw [hold b hb, Records.setTalk_self]
      exact ⟨(hin.2 b hb).2.symm, fun _ => ⟨(hin.2 b hb).1.symm, (hout.2 b hb).2.symm⟩⟩
    · rw [Records.setTalk_self]
      exact ⟨htwo.ne.symm, fun hne => absurd rfl hne⟩
  · refine hcases (fun k hk => ?_) fun _ => ⟨i, own, hashed, ?_⟩
    · rw [hold k hk]
      exact hC.pending_office hg (.inr (by simp)) k hk
    · rw [Records.setTalk_self, Function.update_self]
  · refine hcases (fun k hk => ?_) ?_
    · rw [hold k hk]
      exact hC.carried k hk
    · rw [Records.setTalk_self]
      exact ⟨fun _ => ⟨rfl, hin.1⟩, (Bool.noConfusion ·), fun _ => hout.1⟩
  · rw [Stage.Holds, Records.setTalk_self, hlength]
    exact ⟨Nat.lt_succ_self _, houti, rfl, rfl, rfl, rfl, rfl, _, htwo.fd2Write⟩
  · rintro (j | k) hj
    · refine Role.Holds.office (N := R.setTalk s.children.length talk) (hR (.office j)) hC
        (fun _ _ _ hfd _ _ => hfd) le_rfl (fun _ _ => rfl) (fun p _ hp hunused => ?_)
        fun k hk _ => ⟨by omega, _, _, hold k hk⟩
      have hne : ∀ {q}, R.maker q = .office i → q ≠ p := by
        rintro q hq rfl
        exact hj (hp.symm.trans hq)
      refine ⟨hunused.1, hcases (fun k hk => ?_) ?_⟩
      · rw [hold k hk]
        exact hunused.2 k hk
      · rw [Records.setTalk_self]
        exact ⟨hne hini, hne houti⟩
    · rcases Nat.lt_trichotomy k s.children.length with hk | rfl | hk
      · refine Role.Holds.child (N := R.setTalk s.children.length talk) (hR (.child k)) ?_
          ⟨_, _, hold k hk⟩
        exact List.getElem?_append_left hk
      -- the new child begins with the table of the server
      · have hnew := hR (.child s.children.length)
        cases hgk : g (.child s.children.length) with
        | unborn =>
            rw [hgk] at hnew
            intro child hchild
            rw [Kernel.forked, List.getElem?_concat_length] at hchild
            cases hchild
            rw [Records.setTalk_self]
            exact ⟨⟨htwo.ne, (hown _ _ htwo.fd1Read).1, (hown _ _ htwo.fd1Write).1,
              (hown _ _ htwo.fd2Read).1, (hown _ _ htwo.fd2Write).1⟩, hC.stdin, hC.stdout, rfl, rfl⟩
        | office own hashed stage =>
            rw [hgk] at hnew
            exact hnew.elim
        | child fds input output progress =>
            rw [hgk] at hnew
            obtain ⟨child, hchild, -⟩ := hnew
            rw [List.getElem?_length] at hchild
            cases hchild
        | ended =>
            rw [hgk] at hnew
            exact absurd hnew.1 (lt_irrefl _)
      · refine Role.Holds.child (N := R.setTalk s.children.length talk) (hR (.child k)) ?_
          ⟨_, _, Records.setTalk_of_ne hk.ne' talk⟩
        rw [Kernel.forked, List.getElem?_eq_none (by simp; omega), List.getElem?_eq_none (by omega)]

/-- A step that is not the office's write leaves the strings unwritten that were. -/
theorem Records.unsent_of_talking {talk : Talk} {k' : ℕ} (hsent : talk.sent = (R.talk k).sent)
    (hself : k' = k → talk.sent = false) (hother : k' ≠ k → (R.talk k').sent = false) :
    (R.talk k').sent = false := by
  by_cases hkk : k' = k
  · rw [hkk, ← hsent]
    exact hself hkk
  · exact hother hkk

/-- A step in the conversation with the child `k` changes what is in one of its two pipes. -/
theorem Converse.talking {p : ℕ} {bytes : Bytes} {talk : Talk} {g' : Party n → Role}
    (h : Converse digest s R g) (hk : k < s.children.length)
    (hp : p = (R.talk k).input ∨ p = (R.talk k).output) (hin : talk.input = (R.talk k).input)
    (hout : talk.output = (R.talk k).output)
    (hpending : ∀ k' < s.children.length, (k' = k → talk.sent = false) →
      (k' ≠ k → (R.talk k').sent = false) → ∃ i own hashed,
        g' (.office i) = .office own hashed (.forked k' (R.talk k').output (R.talk k').input))
    (hcarried : talk.Carried digest (Function.update s.buffer p bytes)) :
    Converse digest { s with buffer := Function.update s.buffer p bytes } (R.setTalk k talk) g' := by
  have hpipes : ∀ k', ((R.setTalk k talk).talk k').input = (R.talk k').input ∧
      ((R.setTalk k talk).talk k').output = (R.talk k').output := by
    intro k'
    by_cases hkk : k' = k
    · subst hkk
      rw [Records.setTalk_self]
      exact ⟨hin, hout⟩
    · rw [Records.setTalk_of_ne hkk]
      exact ⟨rfl, rfl⟩
  refine ⟨h.stdin, h.stdout, fun p' hp' => ?_, fun k' hk' => ?_, fun a ha b hb => ?_,
    fun k' hk' hsent => ?_, fun k' hk' => ?_⟩
  · change Function.update s.buffer p bytes p' = []
    have hlt : p < s.pipes := by
      rcases hp with rfl | rfl
      exacts [(h.made k hk).1, (h.made k hk).2]
    rw [Function.update_of_ne (hlt.trans_le hp').ne']
    exact h.fresh p' hp'
  · rw [(hpipes k').1, (hpipes k').2]
    exact h.made k' hk'
  · rw [(hpipes a).1, (hpipes a).2, (hpipes b).1, (hpipes b).2]
    exact h.apart a ha b hb
  · rw [(hpipes k').1, (hpipes k').2]
    refine hpending k' hk' (fun hkk => ?_) fun hkk => ?_
    · rwa [hkk, Records.setTalk_self] at hsent
    · rwa [Records.setTalk_of_ne hkk] at hsent
  · by_cases hkk : k' = k
    · subst hkk
      rwa [Records.setTalk_self]
    -- the pipes of another child are other pipes
    · rw [Records.setTalk_of_ne hkk]
      have hother : (R.talk k').input ≠ p ∧ (R.talk k').output ≠ p := by
        obtain ⟨hio, hne⟩ := h.apart k' hk' k hk
        rcases hp with rfl | rfl
        · exact ⟨(hne hkk).1, (h.apart k hk k' hk').1.symm⟩
        · exact ⟨hio, (hne hkk).2⟩
      exact (h.carried k' hk').congr (Function.update_of_ne hother.1 ..)
        (Function.update_of_ne hother.2 ..)

/-- What another party knows stays true in the conversation with the child `k`. -/
theorem Role.Holds.talking {p : ℕ} {bytes : Bytes} {talk : Talk} {t : Party n}
    (h : Role.Holds concatd s R t x) (hC : Converse digest s R g) (hk : k < s.children.length)
    (hp : p = (R.talk k).input ∨ p = (R.talk k).output) (hin : talk.input = (R.talk k).input)
    (hout : talk.output = (R.talk k).output)
    (hoffice : t = R.maker (R.talk k).output →
      ∃ got printed, talk = { R.talk k with got, printed })
    (hchild : t = .child k → ∃ sent taken, talk = { R.talk k with sent, taken }) :
    Role.Holds concatd { s with buffer := Function.update s.buffer p bytes } (R.setTalk k talk)
      t x := by
  cases t with
  | office j =>
      refine h.office hC (fun _ _ _ hfd _ _ => hfd) le_rfl (fun _ _ => rfl)
        (fun p' _ _ hunused => ⟨?_, fun k' hk' => ?_⟩) fun k' hk' hj => ⟨hk', ?_⟩
      · change Function.update s.buffer p bytes p' = []
        rw [Function.update_of_ne]
        · exact hunused.1
        · rcases hp with rfl | rfl
          exacts [(hunused.2 k hk).1.symm, (hunused.2 k hk).2.symm]
      · by_cases hkk : k' = k
        · subst hkk
          rw [Records.setTalk_self, hin, hout]
          exact hunused.2 k' hk'
        · rw [Records.setTalk_of_ne hkk]
          exact hunused.2 k' hk'
      · by_cases hkk : k' = k
        · subst hkk
          rw [Records.setTalk_self]
          exact hoffice hj.symm
        · exact ⟨_, _, Records.setTalk_of_ne hkk talk⟩
  | child k' =>
      refine h.child rfl ?_
      by_cases hkk : k' = k
      · subst hkk
        rw [Records.setTalk_self]
        exact hchild rfl
      · exact ⟨_, _, Records.setTalk_of_ne hkk talk⟩

/-- An office writes its string. -/
theorem ConverseInv.write {own : ℕ → Option End} {hashed output input fd : ℕ} {r : Int}
    (h : ConverseInv concatd digest s g)
    (hg : g (.office i) = .office own hashed (.forked k output input))
    (hfd : own fd = some (.writeEnd input))
    (he : (Syscall.write fd (concatd i hashed)).exec (.office i) s = some (r, s')) :
    r = (concatd i hashed).length ∧ ConverseInv concatd digest s'
      (Function.update g (.office i) (.office own hashed (.sent k output))) := by
  obtain ⟨R, hC, hR⟩ := h
  have hi := hR (.office i)
  rw [hg] at hi
  obtain ⟨hown, hk, hi, rfl, rfl, htext, hsent, htaken, -⟩ := hi
  obtain ⟨rfl, rfl⟩ := Syscall.exec_write_pipe rfl (hown fd _ hfd).1 he
  obtain ⟨hgot, hempty⟩ := (hC.carried k hk).unsent hsent
  refine ⟨rfl, R.setTalk k { R.talk k with sent := true },
    hC.talking hk (.inl rfl) rfl rfl (fun k' hk' hkk hsent' => ?_) ⟨(Bool.noConfusion ·), fun _ => ?_, ?_⟩,
    (Function.forall_update_iff _ _).mpr ⟨⟨hown, hk, hi, ?_, ?_, ?_, ?_⟩, fun t ht =>
      (hR t).talking hC hk (.inl rfl) rfl rfl (fun hj => ?_) fun _ => ⟨_, _, rfl⟩⟩⟩
  · have hne : k' ≠ k := fun h => nomatch hkk h
    obtain ⟨j, own', hashed', hj⟩ := hC.pending k' hk' (hsent' hne)
    refine ⟨j, own', hashed', ?_⟩
    rw [Function.update_of_ne, hj]
    rintro ⟨⟩
    rw [hg] at hj
    cases hj
    exact hne rfl
  · rw [Function.update_self, hempty, hgot, ← htext]
    rfl
  · rw [Function.update_of_ne (hC.apart k hk k hk).1.symm]
    exact (hC.carried k hk).output
  · rw [Records.setTalk_self]
  · rw [Records.setTalk_self, ← htext]
  · rw [Records.setTalk_self]
  · rw [Records.setTalk_self, ← htaken]
  · exact absurd (hj.trans hi) ht

/-- A child that has not written the digest has the write end of its output pipe. -/
theorem Role.Holds.holds_output (h : Role.Holds concatd s R (.child k) x) (hk : k < s.children.length)
    (hprinted : (R.talk k).printed = false) : s.holds (.writeEnd (R.talk k).output) = true := by
  have hheld : ∃ child ∈ s.children, ∃ fd, child.fds.get fd = some (.writeEnd (R.talk k).output) := by
    cases x with
    | office own hashed stage => exact h.elim
    | unborn =>
        obtain ⟨htwo, -⟩ := h _ (List.getElem?_eq_getElem hk)
        exact ⟨_, List.getElem_mem hk, _, htwo.fd1Write⟩
    | child fds input output progress =>
        obtain ⟨child, hchild, rfl, -, rfl, hfd, -⟩ := h
        exact ⟨child, List.mem_of_getElem? hchild, hfd⟩
    | ended =>
        rw [h.2] at hprinted
        cases hprinted
  obtain ⟨child, hmem, hfd⟩ := hheld
  rw [Kernel.holds, Bool.or_eq_true, List.any_eq_true]
  exact .inr ⟨child, hmem, (FdTable.holds_iff _ _).mpr hfd⟩

/-- An office reads the digest of its string. -/
theorem ConverseInv.read {own : ℕ → Option End} {hashed output fd m : ℕ} {r : Option Bytes}
    (h : ConverseInv concatd digest s g) (hg : g (.office i) = .office own hashed (.sent k output))
    (hfd : own fd = some (.readEnd output))
    (he : (Syscall.read fd m).exec (.office i) s = some (r, s')) :
    r = some ((digest (concatd i hashed)).take m) ∧ ConverseInv concatd digest s'
      (Function.update g (.office i) (.office own (hashed + 1) .finished)) := by
  obtain ⟨R, hC, hR⟩ := h
  have hi := hR (.office i)
  rw [hg] at hi
  obtain ⟨hown, hk, hi, rfl, htext, hsent, htaken⟩ := hi
  obtain ⟨rfl, rfl, hclosed⟩ := Syscall.exec_read_pipe rfl (hown fd _ hfd).1 he
  have hbuffer := (hC.carried k hk).output htaken
  -- the pipe is not at its end before the child has printed
  have hprinted : (R.talk k).printed = true := by
    by_contra hnot
    rw [if_neg hnot] at hbuffer
    have hheld := (hR (.child k)).holds_output hk (by simpa using hnot)
    rw [hclosed hbuffer] at hheld
    cases hheld
  rw [if_pos hprinted, htext] at hbuffer
  refine ⟨by rw [hbuffer], R.setTalk k { R.talk k with taken := true },
    hC.talking hk (.inr rfl) rfl rfl (fun k' hk' hkk hsent' => ?_) ⟨fun hns => ?_, fun _ => ?_,
      (Bool.noConfusion ·)⟩,
    (Function.forall_update_iff _ _).mpr ⟨⟨hown, trivial⟩, fun t ht =>
      (hR t).talking hC hk (.inr rfl) rfl rfl (fun hj => ?_) fun _ => ⟨_, _, rfl⟩⟩⟩
  · exact hC.pending_office hg (.inr (by simp)) k' hk' (Records.unsent_of_talking rfl hkk hsent')
  · rw [hsent] at hns
    cases hns
  · rw [Function.update_of_ne (hC.apart k hk k hk).1]
    exact (hC.carried k hk).sent hsent
  · exact absurd (hj.trans hi) ht

/-- A system call of an office keeps the invariant. -/
theorem ConverseInv.exec_office {o : Syscall} {r : o.Res} {Φ : o.Res → Role → Prop}
    (h : ConverseInv concatd digest s g) (hr : (g (.office i)).rule (concatd i) digest o Φ)
    (he : o.exec (.office i) s = some (r, s')) :
    ∃ x, Φ r x ∧ ConverseInv concatd digest s' (Function.update g (.office i) x) := by
  obtain ⟨R, hC, hR⟩ := id h
  have hi := hR (.office i)
  cases hg : g (.office i) with
  | office own hashed stage =>
      rw [hg] at hr
      -- every stage allows an office to close what is its own
      have hclose : ∀ fd (Ψ : Int → Role → Prop) (r : Int), own fd ≠ none →
          (∀ k output input, stage = .forked k output input → own fd ≠ some (.writeEnd input)) →
          Ψ (0 : Int) (.office (Function.update own fd none) hashed stage) →
          (Syscall.close fd).exec (.office i) s = some (r, s') →
          ∃ x, Ψ r x ∧ ConverseInv concatd digest s' (Function.update g (.office i) x) := by
        intro fd Ψ r hfd hstage hΨ he
        obtain ⟨rfl, hinv⟩ := h.close hg hfd hstage he
        exact ⟨_, hΨ, hinv⟩
      cases stage with
      | calling =>
          cases o with
          | pipe => exact h.pipe hg hr he
          | fork fd1 fd2 =>
              cases he
              obtain ⟨output, input, htwo, hΦ⟩ := hr
              exact ⟨_, hΦ _ _, h.fork hg htwo⟩
          | close fd => exact hclose fd Φ r hr.1 hr.2.1 hr.2.2 he
          | _ => exact hr.elim
      | forked k output input =>
          cases o with
          | write fd bytes =>
              obtain ⟨hfd, rfl, hΦ⟩ := hr
              obtain ⟨rfl, hinv⟩ := h.write hg hfd he
              exact ⟨_, hΦ, hinv⟩
          | close fd => exact hclose fd Φ r hr.1 hr.2.1 hr.2.2 he
          | _ => exact hr.elim
      | sent k output =>
          cases o with
          | read fd m =>
              obtain ⟨hfd, -, hΦ⟩ := hr
              obtain ⟨rfl, hinv⟩ := h.read hg hfd he
              exact ⟨_, hΦ, hinv⟩
          | close fd => exact hclose fd Φ r hr.1 hr.2.1 hr.2.2 he
          | _ => exact hr.elim
      | finished =>
          cases o with
          | close fd => exact hclose fd Φ r hr.1 hr.2.1 hr.2.2 he
          | _ => exact hr.elim
  | _ =>
      rw [hg] at hi
      exact hi.elim

/-! ## System calls of the children -/

/-- A child changes its own table. -/
theorem ConverseInv.child_table {child : Process n} {fds : Fds} (h : ConverseInv concatd digest s g)
    (hchild : s.children[k]? = some child)
    (hx : ∀ R, Role.Holds concatd s R (.child k) (g (.child k)) →
      Role.Holds concatd (s.setTable (.child k) fds) R (.child k) x) :
    ConverseInv concatd digest (s.setTable (.child k) fds) (Function.update g (.child k) x) := by
  obtain ⟨R, hC, hR⟩ := h
  have hlength : (s.setTable (.child k) fds).children.length = s.children.length := by
    simp [Kernel.setTable]
  refine ⟨R, ⟨hC.stdin, hC.stdout, hC.fresh, ?_, ?_, ?_, ?_⟩,
    (Function.forall_update_iff _ _).mpr ⟨hx R (hR (.child k)), ?_⟩⟩
  · rw [hlength]
    exact hC.made
  · rw [hlength]
    exact hC.apart
  · rw [hlength]
    exact hC.pending_child
  · rw [hlength]
    exact hC.carried
  · rintro (j | k') ht
    · refine (hR (.office j)).office hC (fun _ _ _ hfd _ _ => hfd) le_rfl (fun _ _ => rfl)
        (fun p _ _ hunused => ⟨hunused.1, ?_⟩) fun k' hk' _ => ⟨by rwa [hlength], _, _, rfl⟩
      rw [hlength]
      exact hunused.2
    · refine (hR (.child k')).child ?_ ⟨_, _, rfl⟩
      rw [Kernel.setTable_child hchild, if_neg (by simpa using ht)]

/-- A child reads: its input is what its office has written, and ends only after that. -/
theorem ConverseInv.read_child {fds : ℕ → Option End} {input output fd m : ℕ} {got : Bytes}
    {r : Option Bytes} {Φ : Option Bytes → Role → Prop} (h : ConverseInv concatd digest s g)
    (hg : g (.child k) = .child fds input output (.reading got)) (hm : 0 < m)
    (hfd : fds fd = some (.readEnd input))
    (hmore : ∀ bytes, bytes ≠ [] →
      Φ (some bytes) (.child fds input output (.reading (got ++ bytes))))
    (hend : Φ (some []) (.child fds input output (.atEnd got)))
    (he : (Syscall.read fd m).exec (.child k) s = some (r, s')) :
    ∃ x, Φ r x ∧ ConverseInv concatd digest s' (Function.update g (.child k) x) := by
  obtain ⟨R, hC, hR⟩ := h
  have hk := hR (.child k)
  rw [hg] at hk
  obtain ⟨child, hchild, rfl, rfl, rfl, hwrite, rfl, hprinted⟩ := hk
  have hlt : k < s.children.length := (List.getElem?_eq_some_iff.mp hchild).1
  have htable : s.table (.child k) = some child.fds := by
    rw [Kernel.table, hchild]
    rfl
  obtain ⟨rfl, rfl, hclosed⟩ := Syscall.exec_read_pipe htable hfd he
  have hold := hC.carried k hlt
  have happart := (hC.apart k hlt k hlt).1
  -- whatever is read, the string is what has been read and what is left
  have hstep : ∀ progress : Progress,
      progress.Holds { R.talk k with
        got := (R.talk k).got ++ (s.buffer (R.talk k).input).take m } →
      ConverseInv concatd digest
        { s with
          buffer := Function.update s.buffer (R.talk k).input
            ((s.buffer (R.talk k).input).drop m) }
        (Function.update g (.child k)
          (.child child.fds.get (R.talk k).input (R.talk k).output progress)) := by
    intro progress hprogress
    refine ⟨R.setTalk k { R.talk k with got := (R.talk k).got ++ (s.buffer (R.talk k).input).take m },
      hC.talking hlt (.inl rfl) rfl rfl (fun k' hk' hkk hsent => ?_) ⟨fun hsent => ?_, fun hsent => ?_,
        fun htaken => ?_⟩,
      (Function.forall_update_iff _ _).mpr ⟨⟨child, hchild, rfl, ?_, ?_, hwrite, ?_⟩, fun t ht =>
        (hR t).talking hC hlt (.inl rfl) rfl rfl (fun _ => ⟨_, _, rfl⟩) fun hc => absurd hc ht⟩⟩
    · exact hC.pending_child k' hk' (Records.unsent_of_talking rfl hkk hsent)
    · obtain ⟨hgot, hempty⟩ := hold.unsent hsent
      rw [Function.update_self, hempty, hgot]
      exact ⟨List.take_nil, List.drop_nil⟩
    · rw [Function.update_self, List.append_assoc, List.take_append_drop]
      exact hold.sent hsent
    · rw [Function.update_of_ne happart.symm]
      exact hold.output htaken
    · rw [Records.setTalk_self]
    · rw [Records.setTalk_self]
    · rwa [Records.setTalk_self]
  by_cases hempty : s.buffer (R.talk k).input = []
  · -- the end of the input: the office has closed it, so it has written before
    have hsent : (R.talk k).sent = true := by
      by_contra hnot
      obtain ⟨i, own, hashed, hi⟩ := hC.pending k hlt (by simpa using hnot)
      have hoffice := hR (.office i)
      rw [hi] at hoffice
      obtain ⟨hown, -, -, -, -, -, -, -, fd', hfd'⟩ := hoffice
      have hheld : s.holds (.writeEnd (R.talk k).input) = true := by
        rw [Kernel.holds, Bool.or_eq_true]
        exact .inl ((FdTable.holds_iff _ _).mpr ⟨fd', (hown fd' _ hfd').1⟩)
      rw [hclosed hempty] at hheld
      cases hheld
    have htext := hold.sent hsent
    rw [hempty, List.append_nil] at htext
    have hstep' := hstep (.atEnd (R.talk k).got)
    rw [hempty, List.take_nil, List.append_nil] at hstep'
    rw [hempty, List.take_nil]
    exact ⟨_, hend, hstep' ⟨rfl, hprinted, htext.symm⟩⟩
  · refine ⟨_, hmore _ fun hnil => ?_, hstep _ ⟨rfl, hprinted⟩⟩
    rcases List.take_eq_nil_iff.mp hnil with h | h
    · exact hm.ne' h
    · exact hempty h

/-- A child writes the digest of its input. -/
theorem ConverseInv.write_child {fds : ℕ → Option End} {input output fd : ℕ} {got : Bytes} {r : Int}
    (h : ConverseInv concatd digest s g)
    (hg : g (.child k) = .child fds input output (.atEnd got))
    (hfd : fds fd = some (.writeEnd output))
    (he : (Syscall.write fd (digest got)).exec (.child k) s = some (r, s')) :
    r = (digest got).length ∧ ConverseInv concatd digest s'
      (Function.update g (.child k) (.child fds input output .printed)) := by
  obtain ⟨R, hC, hR⟩ := h
  have hk := hR (.child k)
  rw [hg] at hk
  obtain ⟨child, hchild, rfl, rfl, rfl, hwrite, rfl, hprinted, htext⟩ := hk
  have hlt : k < s.children.length := (List.getElem?_eq_some_iff.mp hchild).1
  have htable : s.table (.child k) = some child.fds := by
    rw [Kernel.table, hchild]
    rfl
  obtain ⟨rfl, rfl⟩ := Syscall.exec_write_pipe htable hfd he
  have hold := hC.carried k hlt
  have happart := (hC.apart k hlt k hlt).1
  refine ⟨rfl, R.setTalk k { R.talk k with printed := true },
    hC.talking hlt (.inr rfl) rfl rfl (fun k' hk' hkk hsent => ?_) ⟨?_, ?_, fun htaken => ?_⟩,
    (Function.forall_update_iff _ _).mpr ⟨⟨child, hchild, rfl, ?_, ?_, hwrite, ?_⟩, fun t ht =>
      (hR t).talking hC hlt (.inr rfl) rfl rfl (fun _ => ⟨_, _, rfl⟩) fun hc => absurd hc ht⟩⟩
  · exact hC.pending_child k' hk' (Records.unsent_of_talking rfl hkk hsent)
  · rw [Function.update_of_ne happart]
    exact hold.unsent
  · rw [Function.update_of_ne happart]
    exact hold.sent
  · rw [Function.update_self, hold.output htaken, if_neg (by rw [hprinted]; decide), htext]
    rfl
  · rw [Records.setTalk_self]
  · rw [Records.setTalk_self]
  · rw [Records.setTalk_self]
    rfl

/-- A system call of a child keeps the invariant. -/
theorem ConverseInv.exec_child {o : Syscall} {r : o.Res} {Φ : o.Res → Role → Prop}
    {texts : ℕ → Bytes} (h : ConverseInv concatd digest s g)
    (hr : (g (.child k)).rule texts digest o Φ) (he : o.exec (.child k) s = some (r, s')) :
    ∃ x, Φ r x ∧ ConverseInv concatd digest s' (Function.update g (.child k) x) := by
  obtain ⟨R, hC, hR⟩ := id h
  have hk := hR (.child k)
  cases hg : g (.child k) with
  | office own hashed stage =>
      rw [hg] at hk
      exact hk.elim
  | ended =>
      rw [hg] at hr
      cases o <;> exact hr.elim
  | unborn =>
      rw [hg] at hr hk
      cases o with
      | forked =>
          obtain ⟨child, hchild, hres⟩ := Option.map_eq_some_iff.mp he
          cases hres
          obtain ⟨htwo, hin, hout, hgot, hprinted⟩ := hk child hchild
          refine ⟨_, hr child.fd1 child.fd2 child.fds.get _ _ htwo hin hout, R,
            { hC with pending := hC.pending_child }, (Function.forall_update_iff _ _).mpr
              ⟨⟨child, hchild, rfl, rfl, rfl, ⟨_, htwo.fd1Write⟩, hgot, hprinted⟩, fun t _ => hR t⟩⟩
      | _ => exact hr.elim
  | child fds input output progress =>
      rw [hg] at hr hk
      obtain ⟨child, hchild, rfl, hin, hout, ⟨fdw, hfdw⟩, -⟩ := hk
      have htable : s.table (.child k) = some child.fds := by
        rw [Kernel.table, hchild]
        rfl
      -- a new table of the child that still has the write end of its output
      have htab : ∀ (fds' : Fds), (∃ fd, fds'.get fd = some (.writeEnd output)) →
          ConverseInv concatd digest (s.setTable (.child k) fds') (Function.update g (.child k)
            (.child fds'.get input output progress)) := by
        intro fds' hfd
        refine h.child_table hchild fun R' hR' => ?_
        rw [hg] at hR'
        obtain ⟨-, -, -, hin', hout', -, hprogress⟩ := hR'
        refine ⟨{ child with fds := fds' }, ?_, rfl, hin', hout', hfd, hprogress⟩
        rw [Kernel.setTable_child hchild, if_pos rfl]
      have hclose : ∀ fd (Ψ : Int → Role → Prop) (r : Int),
          (∃ e, child.fds.get fd = some e ∧ e ≠ .writeEnd output) →
          Ψ (0 : Int) (.child (Function.update child.fds.get fd none) input output progress) →
          (Syscall.close fd).exec (.child k) s = some (r, s') →
          ∃ x, Ψ r x ∧ ConverseInv concatd digest s' (Function.update g (.child k) x) := by
        rintro fd Ψ r ⟨e, hfd, hne⟩ hΨ he
        obtain ⟨rfl, rfl⟩ := Syscall.exec_close htable hfd he
        refine ⟨_, hΨ, htab (child.fds.set fd none) ⟨fdw, ?_⟩⟩
        rw [FdTable.get_set_of_ne, hfdw]
        rintro rfl
        exact hne (Option.some.inj (hfd.symm.trans hfdw))
      have hdup : ∀ fd fd' (Ψ : Int → Role → Prop) (r : Int), child.fds.get fd' = some .file →
          (∃ e, child.fds.get fd = some e ∧ Ψ (fd' : Int)
            (.child (Function.update child.fds.get fd' (some e)) input output progress)) →
          (Syscall.dup2 fd fd').exec (.child k) s = some (r, s') →
          ∃ x, Ψ r x ∧ ConverseInv concatd digest s' (Function.update g (.child k) x) := by
        rintro fd fd' Ψ r hfile ⟨e, hfd, hΨ⟩ he
        obtain ⟨rfl, rfl⟩ := Syscall.exec_dup2 htable hfd he
        refine ⟨_, hΨ, htab (child.fds.set fd' (some e)) ⟨fdw, ?_⟩⟩
        rw [FdTable.get_set_of_ne, hfdw]
        rintro rfl
        rw [hfile] at hfdw
        cases hfdw
      cases o with
      | close fd => cases progress <;> exact hclose fd Φ r hr.1 hr.2 he
      | dup2 fd fd' => cases progress <;> exact hdup fd fd' Φ r hr.1 hr.2 he
      | execlp =>
          cases he
          refine ⟨.child child.fds.get input output progress, by cases progress <;> exact hr, ?_⟩
          rwa [← hg, Function.update_eq_self]
      | read fd m =>
          cases progress with
          | reading got =>
              obtain ⟨hm, hfd, hmore, hend⟩ := hr
              exact h.read_child hg hm hfd hmore hend he
          | _ => exact hr.elim
      | write fd bytes =>
          cases progress with
          | atEnd got =>
              obtain ⟨hfd, rfl, hΦ⟩ := hr
              obtain ⟨rfl, hinv⟩ := h.write_child hg hfd he
              exact ⟨_, hΦ, hinv⟩
          | _ => exact hr.elim
      | exit status =>
          cases progress with
          | printed =>
              cases he
              refine ⟨_, hr, h.child_table hchild fun R' hR' => ?_⟩
              rw [hg] at hR'
              obtain ⟨child', hchild', -, -, -, -, hprinted⟩ := hR'
              refine ⟨?_, hprinted⟩
              simpa [Kernel.setTable] using (List.getElem?_eq_some_iff.mp hchild').1
          | _ => exact hr.elim
      | _ => cases progress <;> exact hr.elim

end Steps

/-! ## The hashes that an office reads -/

/-- What the office `i` has read in its calls of `generateHash`, oldest first. -/
def hashes (i : Fin n) (tr : List (Event (Party n) Syscall Syscall.Res (Kernel n))) :
    List (Option Bytes) :=
  tr.filterMap fun
    | ⟨t, .read _ _, hash, _⟩ => if t = .office i then some hash else none
    | _ => none

/-- The hashes of the first `m` strings. -/
def expectedHashes (texts : ℕ → Bytes) (digest : Bytes → Bytes) (m : ℕ) : List (Option Bytes) :=
  (List.range m).map fun number => some ((digest (texts number)).take hashLen)

@[simp] theorem length_expectedHashes (texts : ℕ → Bytes) (digest : Bytes → Bytes) (m : ℕ) :
    (expectedHashes texts digest m).length = m := by
  simp [expectedHashes]

theorem expectedHashes_succ (texts : ℕ → Bytes) (digest : Bytes → Bytes) (m : ℕ) :
    expectedHashes texts digest (m + 1) =
      expectedHashes texts digest m ++ [some ((digest (texts m)).take hashLen)] := by
  simp [expectedHashes, List.range_succ]

/-- The number of hashes that an office has read. -/
def Role.hashed : Role → ℕ
  | .office _ hashed _ => hashed
  | _ => 0

/-- What an office knows after a system call counts the hashes, and the hash is the right one. -/
def Role.Counts (texts : ℕ → Bytes) (digest : Bytes → Bytes) (hashed : ℕ) (y : Role) :
    (o : Syscall) → o.Res → Prop
  | .read _ _, hash => hash = some ((digest (texts hashed)).take hashLen) ∧ y.hashed = hashed + 1
  | _, _ => y.hashed = hashed

/-- The rules of an office count its hashes. -/
theorem Role.rule_counts {texts : ℕ → Bytes} {digest : Bytes → Bytes} {own : ℕ → Option End}
    {hashed : ℕ} {stage : Stage} {o : Syscall} {Φ : o.Res → Role → Prop}
    (h : (Role.office own hashed stage).rule texts digest o Φ) :
    (Role.office own hashed stage).rule texts digest o
      fun r y => Φ r y ∧ y.Counts texts digest hashed o r := by
  cases o with
  | pipe =>
      cases stage with
      | calling => exact fun fd p h₁ h₂ h₃ h₄ => ⟨h fd p h₁ h₂ h₃ h₄, rfl⟩
      | _ => exact h.elim
  | fork fd1 fd2 =>
      cases stage with
      | calling =>
          obtain ⟨output, input, htwo, hΦ⟩ := h
          exact ⟨output, input, htwo, fun pid k => ⟨hΦ pid k, rfl⟩⟩
      | _ => exact h.elim
  | close fd => cases stage <;> exact ⟨h.1, h.2.1, h.2.2, rfl⟩
  | write fd bytes =>
      cases stage with
      | forked k output input => exact ⟨h.1, h.2.1, h.2.2, rfl⟩
      | _ => exact h.elim
  | read fd m =>
      cases stage with
      | sent k output =>
          obtain ⟨hfd, rfl, hΦ⟩ := h
          exact ⟨hfd, rfl, hΦ, rfl, rfl⟩
      | _ => exact h.elim
  | _ => cases stage <;> exact h.elim

section Hashes

variable {concatd : Fin n → ℕ → Bytes} {digest : Bytes → Bytes} {g : Party n → Role}
  {tr : List (Event (Party n) Syscall Syscall.Res (Kernel n))} {i : Fin n}

/-- A system call that is not a read of the office adds nothing to what it has read. -/
theorem hashes_append_of_not_read {e : Event (Party n) Syscall Syscall.Res (Kernel n)}
    (h : e.tid = .office i → ∀ fd m, e.op ≠ .read fd m) : hashes i (tr ++ [e]) = hashes i tr := by
  obtain ⟨t, o, r, s⟩ := e
  cases o with
  | read fd m =>
      have hne : t ≠ .office i := fun ht => h ht fd m rfl
      simp [hashes, List.filterMap_append, hne]
  | _ => simp [hashes, List.filterMap_append]

/-- A system call of an office adds the right hash, or none. -/
theorem hashes_append {o : Syscall} {r : o.Res} {y : Role} {hashed : ℕ} {s : Kernel n}
    (h : hashes i tr = expectedHashes (concatd i) digest hashed)
    (hy : y.Counts (concatd i) digest hashed o r) :
    hashes i (tr ++ [⟨.office i, o, r, s⟩]) = expectedHashes (concatd i) digest y.hashed := by
  cases o with
  | read fd m =>
      obtain ⟨rfl, hhashed⟩ := hy
      rw [hhashed, expectedHashes_succ, ← h]
      simp [hashes, List.filterMap_append]
  | _ =>
      rw [hashes_append_of_not_read (by simp), h]
      exact congrArg _ (Eq.symm hy)

end Hashes

/-- The pipes are used as intended in all runs, and the hashes are right. -/
def integrityCertificate (concatd : Fin n → ℕ → Bytes) (digest : Bytes → Bytes) :
    Certificate (hashing concatd digest) (conversation concatd digest) where
  assumes _ := True
  assumes_append _ := trivial
  inv tr c g := ConverseInv concatd digest c.shared g ∧
    ∀ i, hashes i tr = expectedHashes (concatd i) digest (g (.office i)).hashed
  post := AtTurn
  init {c} h := by
    have hnone : ∀ k : ℕ, ¬ k < c.shared.children.length := by simp [h.1.children]
    let g : Party n → Role
      | .office _ => .office (fun _ => none) 0 .finished
      | .child _ => .unborn
    refine ⟨g, ⟨⟨⟨.child, fun _ => ⟨0, 0, [], false, [], false, false⟩⟩, ⟨h.1.stdin, h.1.stdout,
      fun p _ => h.1.buffer p, fun k hk => absurd hk (hnone k), fun k hk => absurd hk (hnone k),
      fun k hk => absurd hk (hnone k), fun k hk => absurd hk (hnone k)⟩, ?_⟩, fun _ => rfl⟩, ?_⟩
    · rintro (i | k)
      · exact ⟨fun _ _ h => (nomatch h), trivial⟩
      · intro child hk
        exact absurd (List.getElem?_eq_some_iff.mp hk).1 (hnone k)
    · rintro (i | k)
      · exact ⟨0, _, rfl, rfl⟩
      · exact rfl
  exec {tr c g t o k r s' Φ} _ _ hinv _ hrule hsem := by
    obtain ⟨hinv, hhashes⟩ := hinv
    cases t with
    | office i =>
        obtain ⟨R, -, hR⟩ := id hinv
        have hi := hR (.office i)
        cases hg : g (.office i) with
        | office own hashed stage =>
            have hcounts : (g (.office i)).rule (concatd i) digest o
                fun r y => Φ r y ∧ y.Counts (concatd i) digest hashed o r := by
              rw [hg] at hrule ⊢
              exact Role.rule_counts hrule
            obtain ⟨x, ⟨hΦ, hx⟩, hinv'⟩ := hinv.exec_office hcounts hsem
            refine ⟨x, hΦ, hinv', fun j => ?_⟩
            by_cases hj : j = i
            · subst hj
              rw [Function.update_self]
              refine hashes_append ?_ hx
              rw [hhashes j, hg]
              rfl
            · rw [Function.update_of_ne (by simpa using hj), ← hhashes j]
              exact hashes_append_of_not_read fun h => absurd h (by simpa using Ne.symm hj)
        | _ =>
            rw [hg] at hi
            exact hi.elim
    | child k =>
        obtain ⟨x, hΦ, hinv'⟩ := hinv.exec_child hrule hsem
        refine ⟨x, hΦ, hinv', fun i => ?_⟩
        rw [Function.update_of_ne (by simp), ← hhashes i]
        exact hashes_append_of_not_read fun h => nomatch h
  loop {tr c g t x} hinv _ hpost := by
    obtain ⟨⟨R, hC, hR⟩, hhashes⟩ := hinv
    cases t with
    | office i =>
        obtain ⟨number, own, rfl, hg⟩ := hpost
        refine ⟨_, Role.wp_officeBody i number, ⟨R,
          { hC with pending := hC.pending_office hg (.inr (by simp)) },
          (Function.forall_update_iff _ _).mpr
            ⟨⟨fun _ _ h => (nomatch h), fun _ _ _ h => (nomatch h)⟩, fun t _ => hR t⟩⟩, fun j => ?_⟩
        rw [hhashes j]
        by_cases hj : j = i
        · subst hj
          rw [Function.update_self, hg]
          rfl
        · rw [Function.update_of_ne (by simpa using hj)]
    | child k =>
        refine ⟨g (.child k), Role.wp_childBody k hpost, ?_⟩
        rw [Function.update_eq_self]
        exact ⟨⟨R, hC, hR⟩, hhashes⟩
  divert _ _ _ h := h.elim
  env hinv h := ⟨hinv.1.otherFds h, hinv.2⟩

/-- **Every office reads its own hashes.** In every run in which `pipe` and `fork` succeed, as they do here,
whatever the other offices do and whatever their children have inherited, the hashes that an office reads are
the digests of the strings that it hashes, one for each, in their order. -/
theorem hashes_of_run {concatd : Fin n → ℕ → Bytes} {digest : Bytes → Bytes}
    {tr : List (Event (Party n) Syscall Syscall.Res (Kernel n))}
    {c : Config (Party n) Syscall Syscall.Res (Kernel n) Ctl}
    (h : (hashing concatd digest).Run tr c) (i : Fin n) :
    hashes i tr = expectedHashes (concatd i) digest (hashes i tr).length := by
  obtain ⟨g, ⟨-, hhashes⟩, -⟩ := (integrityCertificate concatd digest).run h trivial
  rw [hhashes i, length_expectedHashes]

/-- Two offices hash at once, and the child of the first has inherited both ends of a pipe of the
second. -/
theorem hashes_of_run_two_offices : ∃ tr c,
    (hashing (n := 2) (fun i _ => [97 + i.val.toUInt8]) fun text => .replicate hashLen text.head!).Run
      tr c ∧ hashes 0 tr = [some (.replicate hashLen 97)] ∧
      hashes 1 tr = [some (.replicate hashLen 98)] := by
  obtain ⟨tr, c, h, hc⟩ := System.exists_run_of_play (hashingPlayer _ _)
    (office 0 3 ++ office 1 3 ++ office 0 5 ++ office 1 5 ++ .replicate 13 (.run (.child 0)) ++
      .replicate 13 (.run (.child 1)) ++ office 1 1 ++ office 0 1)
    (initial_firstConfig (n := 2) (fun i _ => [97 + i.val.toUInt8]) fun text =>
      .replicate hashLen text.head!)
    (fun tr _ => decide ((hashes 0 tr).length = 1 ∧ (hashes 1 tr).length = 1)) (by decide +kernel)
  obtain ⟨h0, h1⟩ := of_decide_eq_true hc
  refine ⟨tr, c, h, ?_, ?_⟩
  · rw [hashes_of_run h 0, h0]
    rfl
  · rw [hashes_of_run h 1, h1]
    rfl

end Sope.Hashing
