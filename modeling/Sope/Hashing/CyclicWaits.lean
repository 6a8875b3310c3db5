import Sope.Concurrency.CyclicWait
import Sope.Hashing.Inheritance

/-! # Offices that wait for each other's children

An office waits in `generateHash` for its child, the child waits for the end of its input, and that end
does not come while a child of another office still has the write end of the input pipe: one that was
forked before the office closed it. Two offices whose forks both fall between the `pipe` and the
`close` of the other wait for each other for ever (`exists_run_cyclicWait`). Nothing else makes offices
wait in a circle: if every fork is safe, no run leads to a circle of any length
(`no_cyclicWait`). -/

namespace Sope.Hashing

open Concurrency

variable {n : ℕ}

/-- The next system call of a program. -/
def Proc.next {α : Type} : Proc α → Option Syscall
  | .ret _ => none
  | .op o _ => some o

/-- A party waits in the system call `o`. -/
def blocked (c : Config (Party n) Syscall Syscall.Res (Kernel n) Ctl) (t : Party n) (o : Syscall) :
    Bool :=
  Proc.next (c.prog t) = some o && (o.exec t c.shared).isNone

/-- The last child that an office has forked, and its number. -/
def Kernel.latestChild (s : Kernel n) (i : Fin n) : Option (Process n × ℕ) :=
  s.children.zipIdx.reverse.find? fun child => child.1.parent = i

/-- The office `i` is blocked in the read of `fd1`, its child is blocked in the read of its input, and
the child of `j` has the write end of that input. -/
def waitsFor (c : Config (Party n) Syscall Syscall.Res (Kernel n) Ctl) (i j : Fin n) : Bool :=
  match c.shared.latestChild i, c.shared.latestChild j with
  | some (child, k), some (other, _) =>
      blocked c (.office i) (.read child.fd1.pipeRead hashLen) &&
        blocked c (.child k) (.read stdinFileno 32768) &&
        match child.fds.get stdinFileno with
        | some (.readEnd p) => other.fds.holds (.writeEnd p)
        | _ => false
  | _, _ => false

/-- A nonempty set of offices, each of which waits for another one of the set. -/
def CyclicWait (c : Config (Party n) Syscall Syscall.Res (Kernel n) Ctl) (S : Finset (Fin n)) : Prop :=
  S.Nonempty ∧ ∀ i ∈ S, ∃ j ∈ S, j ≠ i ∧ waitsFor c i j = true

instance (c : Config (Party n) Syscall Syscall.Res (Kernel n) Ctl) (S : Finset (Fin n)) :
    Decidable (CyclicWait c S) := inferInstanceAs (Decidable (_ ∧ _))

/-- The last child of an office is a child of the office. -/
theorem Kernel.latestChild_spec {s : Kernel n} {i : Fin n} {child : Process n} {k : ℕ}
    (h : s.latestChild i = some (child, k)) : s.children[k]? = some child ∧ child.parent = i := by
  have hmem := List.mem_reverse.mp (List.mem_of_find?_eq_some h)
  exact ⟨List.mem_zipIdx_iff_getElem?.mp hmem, by simpa using List.find?_some h⟩

/-- What it means that an office waits for another one. -/
theorem waitsFor_spec {c : Config (Party n) Syscall Syscall.Res (Kernel n) Ctl} {i j : Fin n}
    (h : waitsFor c i j = true) : ∃ child k other k' p cont,
      c.shared.latestChild i = some (child, k) ∧ c.shared.latestChild j = some (other, k') ∧
      c.prog (.child k) = .op (.read stdinFileno 32768) cont ∧
      child.fds.get stdinFileno = some (.readEnd p) ∧
      ∃ fd, other.fds.get fd = some (.writeEnd p) := by
  unfold waitsFor at h
  split at h
  · next child k other k' hi hj =>
      rw [Bool.and_eq_true, Bool.and_eq_true] at h
      obtain ⟨⟨-, hblocked⟩, hholds⟩ := h
      split at hholds
      · next p hp =>
          rw [blocked, Bool.and_eq_true, decide_eq_true_eq] at hblocked
          obtain ⟨cont, hcont⟩ : ∃ cont, c.prog (.child k) = .op (.read stdinFileno 32768) cont := by
            cases hprog : c.prog (.child k) with
            | ret x => simp [hprog, Proc.next] at hblocked
            | op o cont =>
                rw [hprog] at hblocked
                obtain rfl : o = .read stdinFileno 32768 := Option.some.inj hblocked.1
                exact ⟨cont, rfl⟩
          exact ⟨child, k, other, k', p, cont, hi, hj, hcont, hp, (FdTable.holds_iff _ _).mp hholds⟩
      · cases hholds
  · cases h

/-- **Safe forks prevent cyclic waits.** If, whenever a child is forked, each older child that has the
write end of its input pipe reads a pipe whose write end the server has closed already, then in no
reachable state there is a circle of waiting offices. -/
theorem no_cyclicWait {concatd : Fin n → ℕ → Bytes} {digest : Bytes → Bytes}
    {tr : List (Event (Party n) Syscall Syscall.Res (Kernel n))}
    {c : Config (Party n) Syscall Syscall.Res (Kernel n) Ctl}
    (h : (hashing concatd digest).Run tr c) (hsafe : SafeForks tr) (S : Finset (Fin n)) :
    ¬ CyclicWait c S := by
  obtain ⟨g, hholds⟩ := (hashingCertificate concatd digest).run h hsafe
  obtain ⟨-, L, hD, hI⟩ := hholds.1
  rintro ⟨hne, hwaits⟩
  -- the number of an office's last child
  let time (i : Fin n) : ℕ := (c.shared.latestChild i).elim 0 Prod.snd
  have hchild : ∀ i ∈ S, ∃ child, c.shared.children[time i]? = some child ∧ child.parent = i := by
    intro i hi
    obtain ⟨j, -, -, hij⟩ := hwaits i hi
    obtain ⟨child, k, other, k', p, cont, hlatest, -⟩ := waitsFor_spec hij
    have htime : time i = k := by simp [time, hlatest]
    exact ⟨child, htime ▸ Kernel.latestChild_spec hlatest⟩
  have hown : ∀ i ∈ S, L.inherits (time i) (L.input (time i)) := by
    intro i hi
    obtain ⟨child, hget, -⟩ := hchild i hi
    exact (hD.heir _ child hget).input
  refine hne.ne_empty (eq_empty_of_waits time
    (R := fun i j => j ≠ i ∧ L.inherits (time j) (L.input (time i))) S ?_ ?_ ?_ ?_ ?_)
  · intro i hi j hj hij
    obtain ⟨child, hget, rfl⟩ := hchild i hi
    obtain ⟨child', hget', rfl⟩ := hchild j hj
    rw [← hij, hget] at hget'
    cases hget'
    rfl
  · rintro i hi a - b - hab hbi ⟨-, ha⟩
    exact ⟨fun heq => by rw [heq] at hbi; exact lt_irrefl _ hbi, hD.convex _ _ _ _ hab hbi ha (hown i hi)⟩
  · rintro i hi a - b - hia hab ⟨-, hb⟩
    exact ⟨fun heq => by rw [heq] at hia; exact lt_irrefl _ hia, hD.convex _ _ _ _ hia hab (hown i hi) hb⟩
  · rintro i hi j hj ⟨hji, hij⟩ ⟨-, hij'⟩
    rcases Nat.lt_trichotomy (time i) (time j) with hlt | heq | hlt
    · exact hD.pair _ _ hlt hij' hij
    · obtain ⟨child, hget, rfl⟩ := hchild i hi
      obtain ⟨child', hget', rfl⟩ := hchild j hj
      rw [← heq, hget] at hget'
      cases hget'
      exact hji rfl
    · exact hD.pair _ _ hlt hij hij'
  · intro i hi
    obtain ⟨j, hj, hji, hij⟩ := hwaits i hi
    obtain ⟨child, k, other, k', p, cont, hlatest, hlatest', hprog, hp, fd, hfd⟩ := waitsFor_spec hij
    have htime : time i = k ∧ time j = k' := by simp [time, hlatest, hlatest']
    have hinput : p = L.input k := by
      have hrule := hholds.rule hprog
      have hk := hI (.child k)
      cases hg : g (.child k) with
      | child fds input eof =>
          rw [hg] at hrule hk
          obtain ⟨child', hget, rfl, hin, -⟩ := hk
          rw [(Kernel.latestChild_spec hlatest).1] at hget
          cases hget
          have := hp.symm.trans hrule.2.1
          simp only [Option.some.injEq, End.readEnd.injEq] at this
          rw [this, hin]
      | office own unread =>
          rw [hg] at hk
          exact hk.elim
      | _ =>
          rw [hg] at hrule
          exact hrule.elim
    refine ⟨j, hj, hji, hji, ?_⟩
    rw [htime.1, htime.2, ← hinput]
    exact (hD.heir k' other (Kernel.latestChild_spec hlatest').1).inherits fd p hfd

/-! ## Two offices -/

/-- The first state: only the standard input and output are open. -/
def firstKernel : Kernel n where
  fds := (FdTable.empty.set stdinFileno (some .file)).set stdoutFileno (some .file)
  children := []
  pipes := 0
  buffer _ := []

/-- The configuration in which everything begins. -/
def firstConfig : Config (Party n) Syscall Syscall.Res (Kernel n) Ctl where
  shared := firstKernel
  prog
    | .office _ => .ret (.generateHash 0)
    | .child _ => .ret .unborn

theorem initial_firstConfig (concatd : Fin n → ℕ → Bytes) (digest : Bytes → Bytes) :
    (hashing concatd digest).Initial firstConfig := by
  refine ⟨⟨rfl, rfl, fun fd e hfd => ?_, rfl, rfl, fun _ => rfl⟩, by rintro (i | k) <;> rfl⟩
  simp only [firstConfig, firstKernel] at hfd
  by_cases h1 : fd = stdoutFileno
  · subst h1
    simpa using hfd.symm
  · rw [FdTable.get_set_of_ne _ h1] at hfd
    by_cases h0 : fd = stdinFileno
    · subst h0
      simpa using hfd.symm
    · rw [FdTable.get_set_of_ne _ h0] at hfd
      cases hfd

/-- The system calls, computed. -/
def hashingPlayer (concatd : Fin n → ℕ → Bytes) (digest : Bytes → Bytes) :
    Player (hashing concatd digest) Empty where
  exec t o s := o.exec t s
  env m _ := nomatch m
  divert _ _ _ := none
  exec_sound h := h
  env_sound {m} := nomatch m
  divert_sound h := nomatch h

/-- Some steps of an office. -/
def office (i : Fin 2) (steps : ℕ) : List (Pick (Party 2) Empty) :=
  .replicate steps (.run (.office i))

/-- The steps of a child until it waits for the end of its input. -/
def childSteps (k : ℕ) : List (Pick (Party 2) Empty) := .replicate 10 (.run (.child k))

/-- **A cyclic wait.** Two offices make their pipes, then both fork, and each waits for its child, whose
input ends only when the child of the other ends. -/
theorem exists_run_cyclicWait :
    ∃ tr c, (hashing (n := 2) (fun _ _ => [97]) (fun _ => .replicate hashLen 48)).Run tr c ∧
      CyclicWait c {0, 1} := by
  obtain ⟨tr, c, h, hc⟩ := System.exists_run_of_play (hashingPlayer _ _)
    (office 0 3 ++ office 1 3 ++ office 0 1 ++ office 1 1 ++ office 0 4 ++ office 1 4 ++
      childSteps 0 ++ childSteps 1)
    (initial_firstConfig (n := 2) (fun _ _ => [97]) fun _ => .replicate hashLen 48)
    (fun _ c => decide (CyclicWait c {0, 1})) (by decide +kernel)
  exact ⟨tr, c, h, of_decide_eq_true hc⟩

/-- If the second office forks when the first one has closed its input, it may have to wait for the
child of the first, but not for ever. -/
theorem no_cyclicWait_closed :
    ∃ tr c, (hashing (n := 2) (fun _ _ => [97]) (fun _ => .replicate hashLen 48)).Run tr c ∧
      SafeForks tr ∧ waitsFor c 1 0 = true ∧ ∀ S, ¬ CyclicWait c S := by
  obtain ⟨tr, c, h, hc⟩ := System.exists_run_of_play (hashingPlayer _ _)
    (office 0 3 ++ office 1 3 ++ office 0 1 ++ office 0 4 ++ office 1 1 ++ office 1 4 ++
      childSteps 1)
    (initial_firstConfig (n := 2) (fun _ _ => [97]) fun _ => .replicate hashLen 48)
    (fun tr c => waitsFor c 1 0 && tr.all fun e =>
      match e.op with
      | .fork _ fd2 => decide (e.pre.ForkSafe fd2)
      | _ => true) (by decide +kernel)
  rw [Bool.and_eq_true, List.all_eq_true] at hc
  have hsafe : SafeForks tr := by
    intro e he fd1 fd2 hop
    have := hc.2 e he
    rw [hop] at this
    exact of_decide_eq_true this
  exact ⟨tr, c, h, hsafe, hc.1, no_cyclicWait h hsafe⟩

end Sope.Hashing
