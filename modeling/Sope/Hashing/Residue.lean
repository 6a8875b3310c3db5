import Sope.Hashing.Descriptors

/-! # What `generateHash` leaves behind

`generateHash` once more, in the process of the server alone, when every system call may fail. It tests the
results of `close`, `write` and `read`, but not those of `pipe` and `fork`; it returns after a call that
fails without closing what is still open, it never waits for the child, and a write to a pipe without
readers ends the process.

* `Luck` — how the system calls turn out, and what unassigned memory holds.
* `LeavesNothing` — the call returns a hash or `NULL`, and it leaves the descriptors as they were and no
  child.
* `leaves_nothing_iff` — when this is so. -/

namespace Sope.Hashing

open Concurrency

/-! ## The outcomes of the system calls -/

/-- How a `close` of an open descriptor turns out. After an error the descriptor may be closed or not. -/
inductive CloseOutcome
  | succeeds
  | failsClosed
  | failsOpen
  deriving DecidableEq

/-- How a `write` to an open descriptor turns out; `sigpipe` is the signal that ends the process. -/
inductive WriteOutcome
  | writes (n : ℕ)
  | fails
  | sigpipe
  deriving DecidableEq

/-- How the system calls turn out, and what is in the variables of `generateHash` before they are
assigned. -/
structure Luck where
  /-- Whether the call of `pipe` with this number succeeds. -/
  pipe : ℕ → Bool
  /-- What is in its array if it does not. -/
  unassigned : ℕ → FdPair
  /-- Whether `fork` succeeds. -/
  fork : Bool
  close : ℕ → CloseOutcome
  write : WriteOutcome
  /-- What `read` returns; `none` if it fails. -/
  read : Option Bytes

/-- The process of the server while it executes `generateHash`. -/
structure ServerProcess where
  fds : Fds
  /-- The number of its children that it has not waited for. -/
  unreaped : ℕ
  /-- The number of calls of `pipe` that it has made. -/
  pipes : ℕ
  /-- The number of calls of `close` that it has made. -/
  closes : ℕ

namespace Luck

variable (luck : Luck)

/-- `pipe`. -/
def piping (s : ServerProcess) : FdPair × ServerProcess :=
  if luck.pipe s.pipes then
    let pipeRead := s.fds.lowest
    let fds := s.fds.set pipeRead (some (.readEnd s.pipes))
    let pipeWrite := fds.lowest
    (⟨pipeRead, pipeWrite⟩,
      { s with fds := fds.set pipeWrite (some (.writeEnd s.pipes)), pipes := s.pipes + 1 })
  else (luck.unassigned s.pipes, { s with pipes := s.pipes + 1 })

/-- `close`: whether it succeeds, and the process after it. -/
def closing (fd : ℕ) (s : ServerProcess) : Bool × ServerProcess :=
  match s.fds.get fd, luck.close s.closes with
  | none, _ => (false, { s with closes := s.closes + 1 })
  | some _, .succeeds => (true, { s with fds := s.fds.set fd none, closes := s.closes + 1 })
  | some _, .failsClosed => (false, { s with fds := s.fds.set fd none, closes := s.closes + 1 })
  | some _, .failsOpen => (false, { s with closes := s.closes + 1 })

/-- The system calls in the process of the server; `none` when the process ends. The calls of the child
are none of its calls. -/
def perform : (o : Syscall) → ServerProcess → Option (o.Res × ServerProcess)
  | .pipe, s => some (luck.piping s)
  | .fork .., s =>
      some (if luck.fork then ((1 : Int), { s with unreaped := s.unreaped + 1 }) else ((-1 : Int), s))
  | .close fd, s =>
      some ((if (luck.closing fd s).1 then (0 : ℤ) else (-1 : ℤ) : ℤ), (luck.closing fd s).2)
  | .write fd _, s =>
      match s.fds.get fd, luck.write with
      | none, _ | some (.readEnd _), _ => some ((-1 : Int), s)
      | some _, .writes n => some ((n : Int), s)
      | some _, .fails => some ((-1 : Int), s)
      | some _, .sigpipe => none
  | .read fd _, s =>
      match s.fds.get fd with
      | none | some (.writeEnd _) => some (none, s)
      | some _ => some (luck.read, s)
  | _, _ => none

/-- The run of a program: what it returns, and the process after it; `none` if the process ends. -/
def run {α : Type} : Proc α → ServerProcess → Option (α × ServerProcess)
  | .ret a, s => some (a, s)
  | .op o k, s => (luck.perform o s).bind fun r => run (k r.1) r.2

end Luck

/-- The process of the server when it calls `generateHash`. -/
def ServerProcess.entering (fds : Fds) (unreaped : ℕ) : ServerProcess := ⟨fds, unreaped, 0, 0⟩

/-- A call of `generateHash` returns a hash of `HASH_LEN` characters or `NULL` without ending the process;
the descriptors are those from before, and there is no other child to be waited for. -/
def Luck.Leaves (luck : Luck) (concatd : Bytes) (fds : Fds) (unreaped : ℕ) : Prop :=
  ∃ hash s, luck.run (generateHash concatd) (.entering fds unreaped) = some (hash, s) ∧
    (∀ bytes, hash = some bytes → bytes.length = hashLen) ∧
    (∀ fd, s.fds.get fd = fds.get fd) ∧ s.unreaped = unreaped

/-- This is so whatever unassigned memory holds. -/
def LeavesNothing (luck : Luck) (concatd : Bytes) (fds : Fds) (unreaped : ℕ) : Prop :=
  ∀ unassigned, Luck.Leaves { luck with unassigned } concatd fds unreaped

/-! ## The program, call by call -/

section

variable {luck : Luck} {s s' : ServerProcess} {fd1 fd2 : FdPair} {concatd : Bytes}

/-- What the parent does after `fork`. -/
def afterFork (concatd : Bytes) (fd1 fd2 : FdPair) : Proc (Option Bytes) := do
  let closed : Int ← call (.close fd2.pipeRead)
  if closed = -1 then return none
  else
    let closed : Int ← call (.close fd1.pipeWrite)
    if closed = -1 then return none
    else
      let written : Int ← call (.write fd2.pipeWrite concatd)
      if written ≠ concatd.length then return none
      else
        let closed : Int ← call (.close fd2.pipeWrite)
        if closed = -1 then return none
        else
          let hash : Option Bytes ← call (.read fd1.pipeRead hashLen)
          match hash with
          | none => return none
          | some hash =>
              if hash.length ≠ hashLen then return none
              else
                let closed : Int ← call (.close fd1.pipeRead)
                if closed = -1 then return none else return some hash

/-- A close and the test of its result. -/
theorem run_close (fd : ℕ) (p : Proc (Option Bytes)) :
    luck.run (do let closed : Int ← call (.close fd)
                 if closed = -1 then return none else p : Proc (Option Bytes)) s
      = if (luck.closing fd s).1 then luck.run p (luck.closing fd s).2
        else some (none, (luck.closing fd s).2) := by
  change luck.run (if (if (luck.closing fd s).1 then (0 : ℤ) else -1) = -1 then .ret none else p)
    (luck.closing fd s).2 = _
  cases (luck.closing fd s).1 <;> rfl

/-- The write into a pipe and the test of its result. -/
theorem run_write {fd : ℕ} {pipe : ℕ} (hfd : s.fds.get fd = some (.writeEnd pipe))
    (p : Proc (Option Bytes)) :
    luck.run (do let written : Int ← call (.write fd concatd)
                 if written ≠ concatd.length then return none else p : Proc (Option Bytes)) s
      = match luck.write with
        | .writes n => if n = concatd.length then luck.run p s else some (none, s)
        | .fails => some (none, s)
        | .sigpipe => none := by
  -- the call itself, before its result is compared
  have hop : ∀ k : ℤ → Proc (Option Bytes), luck.run (.op (.write fd concatd) k) s
      = match luck.write with
        | .writes n => luck.run (k n) s
        | .fails => luck.run (k (-1)) s
        | .sigpipe => none := by
    intro k
    have hperform : luck.perform (.write fd concatd) s = match luck.write with
        | .writes n => some ((n : ℤ), s)
        | .fails => some ((-1 : ℤ), s)
        | .sigpipe => none := by
      simp only [Luck.perform, hfd]
      cases luck.write <;> rfl
    change (luck.perform (.write fd concatd) s).bind (fun r => luck.run (k r.1) r.2) = _
    rw [hperform]
    cases luck.write <;> rfl
  refine (hop _).trans ?_
  cases luck.write with
  | writes n =>
      change luck.run (if (n : ℤ) ≠ concatd.length then .ret none else p) s = _
      by_cases hn : n = concatd.length
      · rw [if_neg (not_not.mpr (congrArg Nat.cast hn))]
        exact (if_pos hn).symm
      · rw [if_pos fun h => hn (Int.ofNat_inj.mp h)]
        exact (if_neg hn).symm
  | fails =>
      change luck.run (if (-1 : ℤ) ≠ concatd.length then .ret none else p) s = _
      rw [if_pos (by omega)]
      rfl
  | sigpipe => rfl

/-- The read from a pipe, the test of its result, and what follows. -/
theorem run_read {fd : ℕ} {pipe : ℕ} (hfd : s.fds.get fd = some (.readEnd pipe))
    (p : Bytes → Proc (Option Bytes)) :
    luck.run (do let hash : Option Bytes ← call (.read fd hashLen)
                 match hash with
                 | none => return none
                 | some hash => if hash.length ≠ hashLen then return none else p hash :
                   Proc (Option Bytes)) s
      = match luck.read with
        | none => some (none, s)
        | some hash => if hash.length ≠ hashLen then some (none, s) else luck.run (p hash) s := by
  have hop : ∀ k : Option Bytes → Proc (Option Bytes),
      luck.run (.op (.read fd hashLen) k) s = luck.run (k luck.read) s := by
    intro k
    have hperform : luck.perform (.read fd hashLen) s = some (luck.read, s) := by
      simp only [Luck.perform, hfd]
      rfl
    change (luck.perform (.read fd hashLen) s).bind (fun r => luck.run (k r.1) r.2) = _
    rw [hperform]
    rfl
  refine (hop _).trans ?_
  cases luck.read with
  | none => rfl
  | some hash =>
      change luck.run (if hash.length ≠ hashLen then .ret none else p hash) s = _
      dsimp only
      split <;> rfl

/-- The whole call. -/
theorem run_generateHash (luck : Luck) (concatd : Bytes) (s : ServerProcess) :
    luck.run (generateHash concatd) s =
      let first := luck.piping s
      let second := luck.piping first.2
      luck.run (afterFork concatd first.1 second.1)
        (if luck.fork then { second.2 with unreaped := second.2.unreaped + 1 } else second.2) := by
  change ((luck.perform (.fork _ _) _).bind fun r => luck.run (afterFork concatd _ _) r.2) = _
  unfold Luck.perform
  rw [Option.bind_some]
  cases luck.fork <;> rfl

/-! ## Closing -/

/-- A close leaves the other descriptors. -/
theorem get_closing_of_ne {fd fd' : ℕ} (h : fd' ≠ fd) :
    (luck.closing fd s).2.fds.get fd' = s.fds.get fd' := by
  unfold Luck.closing
  split <;> first | rfl | exact FdTable.get_set_of_ne _ h _

/-- It opens none. -/
theorem get_closing_of_none {fd fd' : ℕ} (h : s.fds.get fd' = none) :
    (luck.closing fd s).2.fds.get fd' = none := by
  by_cases hfd : fd' = fd
  · subst hfd
    unfold Luck.closing
    rw [h]
    exact h
  · rw [get_closing_of_ne hfd, h]

@[simp] theorem unreaped_closing (fd : ℕ) : (luck.closing fd s).2.unreaped = s.unreaped := by
  unfold Luck.closing
  split <;> rfl

@[simp] theorem closes_closing (fd : ℕ) : (luck.closing fd s).2.closes = s.closes + 1 := by
  unfold Luck.closing
  split <;> rfl

/-- When a close succeeds. -/
theorem closing_eq_true {fd : ℕ} :
    (luck.closing fd s).1 = true ↔ s.fds.get fd ≠ none ∧ luck.close s.closes = .succeeds := by
  unfold Luck.closing
  split <;> simp_all

/-- When an open descriptor is closed after it. -/
theorem get_closing_self {fd : ℕ} (h : s.fds.get fd ≠ none) :
    (luck.closing fd s).2.fds.get fd = none ↔ luck.close s.closes ≠ .failsOpen := by
  obtain ⟨e, he⟩ := Option.ne_none_iff_exists'.mp h
  unfold Luck.closing
  rw [he]
  cases luck.close s.closes with
  | failsOpen => simp [he]
  | _ => simp

/-! ## Both pipes have been made -/

/-- Everything after `fork` succeeds; the last `close` may report an error. -/
structure Luck.FinishesWell (luck : Luck) (concatd : Bytes) : Prop where
  close : ∀ i < 3, luck.close i = .succeeds
  write : luck.write = .writes concatd.length
  read : ∃ hash, luck.read = some hash ∧ hash.length = hashLen
  lastClose : luck.close 3 ≠ .failsOpen

section

variable {output input : ℕ}

/-- If a descriptor is closed in the end that a close leaves open, then the close has succeeded. -/
theorem goes_on_close {fd fd' : ℕ} {p : Proc (Option Bytes)} {hash : Option Bytes} (hne : fd' ≠ fd)
    (hopen : s.fds.get fd' ≠ none)
    (h : luck.run (do let closed : Int ← call (.close fd)
                      if closed = -1 then return none else p : Proc (Option Bytes)) s = some (hash, s'))
    (hclosed : s'.fds.get fd' = none) :
    (s.fds.get fd ≠ none ∧ luck.close s.closes = .succeeds) ∧
      luck.run p (luck.closing fd s).2 = some (hash, s') := by
  rw [run_close] at h
  split at h
  · next hok => exact ⟨closing_eq_true.mp hok, h⟩
  · obtain ⟨-, rfl⟩ := Prod.mk.inj (Option.some.inj h)
    rw [get_closing_of_ne hne] at hclosed
    exact absurd hclosed hopen

/-- The same for a write into a pipe: everything has been written. -/
theorem goes_on_write {fd fd' pipe : ℕ} {p : Proc (Option Bytes)} {hash : Option Bytes}
    (hfd : s.fds.get fd = some (.writeEnd pipe)) (hopen : s.fds.get fd' ≠ none)
    (h : luck.run (do let written : Int ← call (.write fd concatd)
                      if written ≠ concatd.length then return none else p : Proc (Option Bytes)) s
      = some (hash, s')) (hclosed : s'.fds.get fd' = none) :
    luck.write = .writes concatd.length ∧ luck.run p s = some (hash, s') := by
  have hstuck : some ((none : Option Bytes), s) ≠ some (hash, s') := by
    intro h
    obtain ⟨-, rfl⟩ := Prod.mk.inj (Option.some.inj h)
    exact hopen hclosed
  rw [run_write hfd] at h
  cases hwrite : luck.write with
  | writes n =>
      rw [hwrite] at h
      dsimp only at h
      split at h
      · next hn => exact ⟨by rw [hn], h⟩
      · exact absurd h hstuck
  | fails =>
      rw [hwrite] at h
      exact absurd h hstuck
  | sigpipe =>
      rw [hwrite] at h
      cases h

/-- And for the read of the hash. -/
theorem goes_on_read {fd fd' pipe : ℕ} {p : Bytes → Proc (Option Bytes)} {hash : Option Bytes}
    (hfd : s.fds.get fd = some (.readEnd pipe)) (hopen : s.fds.get fd' ≠ none)
    (h : luck.run (do let hash : Option Bytes ← call (.read fd hashLen)
                      match hash with
                      | none => return none
                      | some hash => if hash.length ≠ hashLen then return none else p hash :
                        Proc (Option Bytes)) s = some (hash, s')) (hclosed : s'.fds.get fd' = none) :
    ∃ bytes, luck.read = some bytes ∧ bytes.length = hashLen ∧
      luck.run (p bytes) s = some (hash, s') := by
  have hstuck : some ((none : Option Bytes), s) ≠ some (hash, s') := by
    intro h
    obtain ⟨-, rfl⟩ := Prod.mk.inj (Option.some.inj h)
    exact hopen hclosed
  rw [run_read hfd] at h
  cases hread : luck.read with
  | none =>
      rw [hread] at h
      exact absurd h hstuck
  | some bytes =>
      rw [hread] at h
      dsimp only at h
      split at h
      · exact absurd h hstuck
      · next hlength => exact ⟨bytes, rfl, not_not.mp hlength, h⟩

/-- Before the last `close` the read end of the first pipe stays open, so that everything has succeeded if
it has been closed. -/
theorem finishesWell_of_run (htwo : TwoPipes s.fds.get fd1 fd2 output input) (hs : s.closes = 0)
    {hash : Option Bytes} (h : luck.run (afterFork concatd fd1 fd2) s = some (hash, s'))
    (hclosed : s'.fds.get fd1.pipeRead = none) : luck.FinishesWell concatd := by
  have hnodup := htwo.nodup
  simp only [List.nodup_cons, List.mem_cons, List.not_mem_nil, not_or, or_false] at hnodup
  obtain ⟨⟨hrw, hrr, hrw'⟩, ⟨hwr, hww⟩, hrw₂, -⟩ := hnodup
  have hread := htwo.fd1Read
  have hwrite := htwo.fd2Write
  obtain ⟨⟨-, hok₁⟩, h⟩ := goes_on_close hrr (by rw [hread]; nofun) h hclosed
  have hcloses : (luck.closing fd2.pipeRead s).2.closes = 1 := by rw [closes_closing, hs]
  rw [← @get_closing_of_ne luck _ _ _ hrr] at hread
  rw [← @get_closing_of_ne luck _ _ _ (Ne.symm hrw₂)] at hwrite
  rw [hs] at hok₁
  generalize (luck.closing fd2.pipeRead s).2 = s₁ at hread hwrite hcloses h
  obtain ⟨⟨-, hok₂⟩, h⟩ := goes_on_close hrw (by rw [hread]; nofun) h hclosed
  have hcloses₂ : (luck.closing fd1.pipeWrite s₁).2.closes = 2 := by rw [closes_closing, hcloses]
  rw [← @get_closing_of_ne luck _ _ _ hrw] at hread
  rw [← @get_closing_of_ne luck _ _ _ (Ne.symm hww)] at hwrite
  rw [hcloses] at hok₂
  generalize (luck.closing fd1.pipeWrite s₁).2 = s₂ at hread hwrite hcloses₂ h
  obtain ⟨hwritten, h⟩ := goes_on_write hwrite (by rw [hread]; nofun) h hclosed
  obtain ⟨⟨-, hok₃⟩, h⟩ := goes_on_close hrw' (by rw [hread]; nofun) h hclosed
  have hcloses₃ : (luck.closing fd2.pipeWrite s₂).2.closes = 3 := by rw [closes_closing, hcloses₂]
  rw [← @get_closing_of_ne luck _ _ _ hrw'] at hread
  rw [hcloses₂] at hok₃
  generalize (luck.closing fd2.pipeWrite s₂).2 = s₃ at hread hcloses₃ h
  have hopen₃ : s₃.fds.get fd1.pipeRead ≠ none := by
    rw [hread]
    nofun
  obtain ⟨bytes, hbytes, hlength, h⟩ := goes_on_read hread hopen₃ h hclosed
  -- the last close decides whether the descriptor is closed
  rw [run_close] at h
  have hs' : s' = (luck.closing fd1.pipeRead s₃).2 := by
    split at h <;> exact (Prod.mk.inj (Option.some.inj h)).2.symm
  rw [hs', get_closing_self hopen₃, hcloses₃] at hclosed
  refine ⟨fun i hi => ?_, hwritten, ⟨bytes, hbytes, hlength⟩, hclosed⟩
  match i, hi with
  | 0, _ => exact hok₁
  | 1, _ => exact hok₂
  | 2, _ => exact hok₃

/-- If everything succeeds, the four descriptors are closed, and the others are as before. -/
theorem run_of_finishesWell (htwo : TwoPipes s.fds.get fd1 fd2 output input) (hs : s.closes = 0)
    (h : luck.FinishesWell concatd) :
    ∃ hash s', luck.run (afterFork concatd fd1 fd2) s = some (hash, s') ∧
      (∀ bytes, hash = some bytes → bytes.length = hashLen) ∧
      (∀ fd ∈ [fd1.pipeRead, fd1.pipeWrite, fd2.pipeRead, fd2.pipeWrite], s'.fds.get fd = none) ∧
      (∀ fd ∉ [fd1.pipeRead, fd1.pipeWrite, fd2.pipeRead, fd2.pipeWrite],
        s'.fds.get fd = s.fds.get fd) ∧ s'.unreaped = s.unreaped := by
  have hnodup := htwo.nodup
  simp only [List.nodup_cons, List.mem_cons, List.not_mem_nil, not_or, or_false] at hnodup
  obtain ⟨⟨hrw, hrr, hrw'⟩, ⟨hwr, hww⟩, hrw₂, -⟩ := hnodup
  obtain ⟨bytes, hbytes, hlength⟩ := h.read
  set s₁ := (luck.closing fd2.pipeRead s).2 with hs₁
  set s₂ := (luck.closing fd1.pipeWrite s₁).2 with hs₂
  set s₃ := (luck.closing fd2.pipeWrite s₂).2 with hs₃
  set s₄ := (luck.closing fd1.pipeRead s₃).2 with hs₄
  have hcloses : s₁.closes = 1 ∧ s₂.closes = 2 ∧ s₃.closes = 3 := by simp [hs₃, hs₂, hs₁, hs]
  have hok₁ : (luck.closing fd2.pipeRead s).1 = true := by
    rw [closing_eq_true, htwo.fd2Read, hs]
    exact ⟨nofun, h.close 0 (by decide)⟩
  have hok₂ : (luck.closing fd1.pipeWrite s₁).1 = true := by
    rw [closing_eq_true, hcloses.1, hs₁, get_closing_of_ne hwr, htwo.fd1Write]
    exact ⟨nofun, h.close 1 (by decide)⟩
  have hwrite : s₂.fds.get fd2.pipeWrite = some (.writeEnd input) := by
    rw [hs₂, get_closing_of_ne (Ne.symm hww), hs₁, get_closing_of_ne (Ne.symm hrw₂), htwo.fd2Write]
  have hok₃ : (luck.closing fd2.pipeWrite s₂).1 = true := by
    rw [closing_eq_true, hcloses.2.1, hwrite]
    exact ⟨nofun, h.close 2 (by decide)⟩
  have hread : s₃.fds.get fd1.pipeRead = some (.readEnd output) := by
    rw [hs₃, get_closing_of_ne hrw', hs₂, get_closing_of_ne hrw, hs₁, get_closing_of_ne hrr, htwo.fd1Read]
  have hrun : luck.run (afterFork concatd fd1 fd2) s
      = if (luck.closing fd1.pipeRead s₃).1 then some (some bytes, s₄) else some (none, s₄) := by
    rw [afterFork, run_close, if_pos hok₁, run_close, if_pos hok₂, run_write hwrite, h.write]
    dsimp only
    rw [if_pos rfl, run_close, if_pos hok₃, run_read hread, hbytes]
    dsimp only
    rw [if_neg (not_not.mpr hlength), run_close]
    rfl
  -- what is closed stays closed
  have hclosed₁ : s₁.fds.get fd2.pipeRead = none :=
    (get_closing_self (by rw [htwo.fd2Read]; nofun)).mpr (by rw [hs, h.close 0 (by decide)]; nofun)
  have hclosed₂ : s₂.fds.get fd1.pipeWrite = none := by
    refine (get_closing_self ?_).mpr (by rw [hcloses.1, h.close 1 (by decide)]; nofun)
    rw [hs₁, get_closing_of_ne hwr, htwo.fd1Write]
    nofun
  have hclosed₃ : s₃.fds.get fd2.pipeWrite = none :=
    (get_closing_self (by rw [hwrite]; nofun)).mpr
      (by rw [hcloses.2.1, h.close 2 (by decide)]; nofun)
  have hclosed₄ : s₄.fds.get fd1.pipeRead = none :=
    (get_closing_self (by rw [hread]; nofun)).mpr (by rw [hcloses.2.2]; exact h.lastClose)
  have hend : ∃ hash, luck.run (afterFork concatd fd1 fd2) s = some (hash, s₄) ∧
      ∀ bytes, hash = some bytes → bytes.length = hashLen := by
    rw [hrun]
    split
    · exact ⟨_, rfl, fun bytes' h => Option.some.inj h ▸ hlength⟩
    · exact ⟨_, rfl, nofun⟩
  obtain ⟨hash, hrun, hhash⟩ := hend
  refine ⟨hash, s₄, hrun, hhash, ?_, ?_, by simp [hs₄, hs₃, hs₂, hs₁]⟩
  · simp only [List.mem_cons, List.not_mem_nil, or_false, forall_eq_or_imp, forall_eq]
    exact ⟨hclosed₄, get_closing_of_none (get_closing_of_none hclosed₂),
      get_closing_of_none (get_closing_of_none (get_closing_of_none hclosed₁)),
      get_closing_of_none hclosed₃⟩
  · intro fd hfd
    simp only [List.mem_cons, List.not_mem_nil, or_false, not_or] at hfd
    rw [hs₄, get_closing_of_ne hfd.1, hs₃, get_closing_of_ne hfd.2.2.2, hs₂,
      get_closing_of_ne hfd.2.1, hs₁, get_closing_of_ne hfd.2.2.1]

end

/-! ## Pipes -/

/-- `pipe` returns two new descriptors. -/
theorem piping_succeeds (h : luck.pipe s.pipes = true) {fd : FdPair} (hp : luck.piping s = (fd, s')) :
    (s.fds.get fd.pipeRead = none ∧ s.fds.get fd.pipeWrite = none) ∧
      s'.fds.get fd.pipeRead = some (.readEnd s.pipes) ∧
      s'.fds.get fd.pipeWrite = some (.writeEnd s.pipes) ∧
      (∀ fd', fd' ≠ fd.pipeRead → fd' ≠ fd.pipeWrite → s'.fds.get fd' = s.fds.get fd') ∧
      s'.unreaped = s.unreaped ∧ s'.pipes = s.pipes + 1 ∧ s'.closes = s.closes := by
  rw [Luck.piping, if_pos h] at hp
  obtain ⟨rfl, rfl⟩ := Prod.mk.inj hp
  dsimp only
  set fds := s.fds.set s.fds.lowest (some (.readEnd s.pipes)) with hfds
  have hne : fds.lowest ≠ s.fds.lowest := by
    intro heq
    have hfree := fds.get_lowest
    rw [heq, hfds, FdTable.get_set_self] at hfree
    cases hfree
  refine ⟨⟨s.fds.get_lowest, ?_⟩, ?_, FdTable.get_set_self .., fun fd' hr hw => ?_, rfl, rfl, rfl⟩
  · rw [← fds.get_lowest, hfds, FdTable.get_set_of_ne _ hne]
  · rw [FdTable.get_set_of_ne _ hne.symm, hfds, FdTable.get_set_self]
  · rw [FdTable.get_set_of_ne _ hw, hfds, FdTable.get_set_of_ne _ hr]

@[simp] theorem unreaped_piping : (luck.piping s).2.unreaped = s.unreaped := by
  unfold Luck.piping
  split <;> rfl

/-- No call gets rid of a child. -/
theorem unreaped_le_perform {o : Syscall} {r : o.Res} (h : luck.perform o s = some (r, s')) :
    s.unreaped ≤ s'.unreaped := by
  cases o with
  | pipe =>
      obtain ⟨-, rfl⟩ := Prod.mk.inj (Option.some.inj h)
      exact unreaped_piping.ge
  | fork fd1 fd2 =>
      cases hfork : luck.fork with
      | true =>
          simp only [Luck.perform, hfork] at h
          cases h
          exact Nat.le_succ _
      | false =>
          simp only [Luck.perform, hfork] at h
          cases h
          exact le_rfl
  | close fd =>
      obtain ⟨-, rfl⟩ := Prod.mk.inj (Option.some.inj h)
      exact (unreaped_closing fd).ge
  | write | read =>
      simp only [Luck.perform] at h
      split at h <;> cases h <;> exact le_rfl
  | _ => cases h

theorem unreaped_le_run {α : Type} {p : Proc α} {a : α} (h : luck.run p s = some (a, s')) :
    s.unreaped ≤ s'.unreaped := by
  induction p generalizing s with
  | ret b =>
      obtain ⟨-, rfl⟩ := Prod.mk.inj (Option.some.inj h)
      exact le_rfl
  | op o k ih =>
      obtain ⟨⟨r, s₁⟩, hperform, h⟩ := Option.bind_eq_some_iff.mp h
      exact (unreaped_le_perform hperform).trans (ih r h)

end

/-! ## `generateHash` -/

/-- What it takes for nothing to be left: `fork` fails, and either both pipes are made and everything else
succeeds, or neither is made and the first `close` finds nothing to close. -/
def Luck.NoResidue (luck : Luck) (concatd : Bytes) (fds : Fds) : Prop :=
  luck.fork = false ∧
    ((luck.pipe 0 = true ∧ luck.pipe 1 = true ∧ luck.FinishesWell concatd) ∨
      (luck.pipe 0 = false ∧ luck.pipe 1 = false ∧
        (luck.close 0 = .failsOpen ∨ ∀ fd, fds.get fd = none)))

section

variable {luck : Luck} {concatd : Bytes} {fds : Fds} {unreaped : ℕ}

/-- Nothing is left only if `fork` fails: there is nobody who waits for the child. -/
theorem fork_fails (h : luck.Leaves concatd fds unreaped) : luck.fork = false := by
  by_contra hfork
  rw [Bool.not_eq_false] at hfork
  obtain ⟨hash, s, hrun, -, -, hunreaped⟩ := h
  rw [run_generateHash] at hrun
  dsimp only at hrun
  rw [if_pos hfork] at hrun
  have hle := unreaped_le_run hrun
  simp only [unreaped_piping, ServerProcess.entering] at hle
  omega

/-- What is left, when `fork` fails. -/
theorem leaves_iff (hfork : luck.fork = false) {fd1 fd2 : FdPair} {s₁ s₂ : ServerProcess}
    (hfirst : luck.piping (.entering fds unreaped) = (fd1, s₁)) (hsecond : luck.piping s₁ = (fd2, s₂)) :
    luck.Leaves concatd fds unreaped ↔ ∃ hash s, luck.run (afterFork concatd fd1 fd2) s₂ = some (hash, s) ∧
      (∀ bytes, hash = some bytes → bytes.length = hashLen) ∧
      (∀ fd, s.fds.get fd = fds.get fd) ∧ s.unreaped = unreaped := by
  rw [Luck.Leaves, run_generateHash]
  dsimp only
  rw [hfirst, hsecond, if_neg (by rw [hfork]; decide)]

/-- A call of `pipe` that fails. -/
theorem piping_fails {s : ServerProcess} (h : luck.pipe s.pipes = false) :
    luck.piping s = (luck.unassigned s.pipes, { s with pipes := s.pipes + 1 }) := by
  rw [Luck.piping, if_neg (by rw [h]; decide)]

/-- Two pipes that have just been made. -/
theorem twoPipes_of_piping {fd1 fd2 : FdPair} {s₁ s₂ : ServerProcess}
    (hpipe : luck.pipe 0 = true) (hpipe' : luck.pipe 1 = true)
    (hfirst : luck.piping (.entering fds unreaped) = (fd1, s₁)) (hsecond : luck.piping s₁ = (fd2, s₂)) :
    TwoPipes s₂.fds.get fd1 fd2 0 1 ∧
      (∀ fd ∈ [fd1.pipeRead, fd1.pipeWrite, fd2.pipeRead, fd2.pipeWrite], fds.get fd = none) ∧
      (∀ fd ∉ [fd1.pipeRead, fd1.pipeWrite, fd2.pipeRead, fd2.pipeWrite],
        s₂.fds.get fd = fds.get fd) ∧ s₂.unreaped = unreaped ∧ s₂.closes = 0 := by
  obtain ⟨⟨hfree, hfree'⟩, hread, hwrite, hother, hunreaped, hpipes, hcloses⟩ :=
    piping_succeeds (s := .entering fds unreaped) hpipe hfirst
  have hpipes : s₁.pipes = 1 := hpipes
  obtain ⟨⟨hfree₂, hfree₂'⟩, hread₂, hwrite₂, hother₂, hunreaped₂, -, hcloses₂⟩ :=
    piping_succeeds (s := s₁) (by rw [hpipes]; exact hpipe') hsecond
  rw [hpipes] at hread₂ hwrite₂
  -- the second call leaves the descriptors of the first one, and those that it finds free were free before
  have hkept : ∀ fd, s₁.fds.get fd ≠ none → s₂.fds.get fd = s₁.fds.get fd := by
    intro fd he
    refine hother₂ fd ?_ ?_
    · rintro rfl
      exact he hfree₂
    · rintro rfl
      exact he hfree₂'
  have hfree_of : ∀ fd, s₁.fds.get fd = none → fds.get fd = none := by
    intro fd he
    rw [← he, hother fd]
    · rfl
    · rintro rfl
      rw [hread] at he
      cases he
    · rintro rfl
      rw [hwrite] at he
      cases he
  refine ⟨⟨Nat.zero_ne_one, ?_, ?_, hread₂, hwrite₂⟩, ?_, ?_, hunreaped₂.trans hunreaped,
    hcloses₂.trans hcloses⟩
  · rw [hkept _ (by rw [hread]; nofun), hread]
    rfl
  · rw [hkept _ (by rw [hwrite]; nofun), hwrite]
    rfl
  · simp only [List.mem_cons, List.not_mem_nil, or_false, forall_eq_or_imp, forall_eq]
    exact ⟨hfree, hfree', hfree_of _ hfree₂, hfree_of _ hfree₂'⟩
  · intro fd hfd
    simp only [List.mem_cons, List.not_mem_nil, or_false, not_or] at hfd
    rw [hother₂ fd hfd.2.2.1 hfd.2.2.2, hother fd hfd.1 hfd.2.1]
    rfl

/-- With both pipes, nothing is left exactly if everything succeeds. -/
theorem leaves_both_pipes (hfork : luck.fork = false) (hpipe : luck.pipe 0 = true)
    (hpipe' : luck.pipe 1 = true) : luck.Leaves concatd fds unreaped ↔ luck.FinishesWell concatd := by
  cases hfirst : luck.piping (.entering fds unreaped) with
  | mk fd1 s₁ =>
  cases hsecond : luck.piping s₁ with
  | mk fd2 s₂ =>
  obtain ⟨htwo, hfree, hother, hunreaped, hcloses⟩ := twoPipes_of_piping hpipe hpipe' hfirst hsecond
  rw [leaves_iff hfork hfirst hsecond]
  constructor
  · rintro ⟨hash, s, hrun, -, hfds, -⟩
    refine finishesWell_of_run htwo hcloses hrun ?_
    rw [hfds]
    exact hfree _ List.mem_cons_self
  · intro h
    obtain ⟨hash, s, hrun, hhash, hclosed, hrest, hsame⟩ := run_of_finishesWell htwo hcloses h
    refine ⟨hash, s, hrun, hhash, fun fd => ?_, hsame.trans hunreaped⟩
    by_cases hfd : fd ∈ [fd1.pipeRead, fd1.pipeWrite, fd2.pipeRead, fd2.pipeWrite]
    · rw [hclosed fd hfd, hfree fd hfd]
    · rw [hrest fd hfd, hother fd hfd]

/-- If only the first pipe is made and the array of the second one holds no open descriptor, the first
pipe is left. -/
theorem not_leaves_first_pipe (hpipe : luck.pipe 0 = true) (hpipe' : luck.pipe 1 = false)
    (hclosed : (luck.piping (.entering fds unreaped)).2.fds.get (luck.unassigned 1).pipeRead = none) :
    ¬ luck.Leaves concatd fds unreaped := by
  intro h
  have hfork := fork_fails h
  cases hfirst : luck.piping (.entering fds unreaped) with
  | mk fd1 s₁ =>
  obtain ⟨⟨hfree, -⟩, hread, -, -, -, hpipes, -⟩ :=
    piping_succeeds (s := .entering fds unreaped) hpipe hfirst
  have hpipes : s₁.pipes = 1 := hpipes
  rw [hfirst] at hclosed
  have hsecond := piping_fails (s := s₁) (by rw [hpipes]; exact hpipe')
  obtain ⟨hash, s, hrun, -, hfds, -⟩ := (leaves_iff hfork hfirst hsecond).mp h
  rw [hpipes] at hrun
  have hne : fd1.pipeRead ≠ (luck.unassigned 1).pipeRead := by
    intro heq
    rw [← heq, hread] at hclosed
    cases hclosed
  have hend : s.fds.get fd1.pipeRead = none := (hfds _).trans hfree
  exact (goes_on_close hne (by rw [hread]; nofun) hrun hend).1.1 hclosed

/-- If only the second pipe is made and the array of the first one holds no open descriptor, the second
pipe is left. -/
theorem not_leaves_second_pipe (hpipe : luck.pipe 0 = false) (hpipe' : luck.pipe 1 = true)
    (hclosed : (luck.piping ⟨fds, unreaped, 1, 0⟩).2.fds.get (luck.unassigned 0).pipeWrite = none) :
    ¬ luck.Leaves concatd fds unreaped := by
  intro h
  have hfork := fork_fails h
  have hfirst : luck.piping (.entering fds unreaped) = (luck.unassigned 0, ⟨fds, unreaped, 1, 0⟩) :=
    piping_fails hpipe
  cases hsecond : luck.piping ⟨fds, unreaped, 1, 0⟩ with
  | mk fd2 s₂ =>
  obtain ⟨⟨-, hfree⟩, hread, hwrite, -⟩ :=
    piping_succeeds (s := ⟨fds, unreaped, 1, 0⟩) hpipe' hsecond
  rw [hsecond] at hclosed
  obtain ⟨hash, s, hrun, -, hfds, -⟩ := (leaves_iff hfork hfirst hsecond).mp h
  have hend : s.fds.get fd2.pipeWrite = none := (hfds _).trans hfree
  have hne : fd2.pipeWrite ≠ fd2.pipeRead := by
    intro heq
    rw [heq, hread] at hwrite
    cases hwrite
  have hne' : fd2.pipeWrite ≠ (luck.unassigned 0).pipeWrite := by
    intro heq
    rw [← heq, hwrite] at hclosed
    cases hclosed
  obtain ⟨-, hrun⟩ := goes_on_close hne (by rw [hwrite]; nofun) hrun hend
  have hopen : (luck.closing fd2.pipeRead s₂).2.fds.get fd2.pipeWrite ≠ none := by
    rw [get_closing_of_ne hne, hwrite]
    nofun
  -- the second close finds nothing to close
  exact (goes_on_close hne' hopen hrun hend).1.1 (get_closing_of_none hclosed)

/-- If no pipe is made and the arrays hold an open descriptor, that is not left open by a close that works. -/
theorem failsOpen_of_leaves {fd : ℕ} (h : luck.Leaves concatd fds unreaped) (hpipe : luck.pipe 0 = false)
    (hpipe' : luck.pipe 1 = false) (hun : ∀ i, luck.unassigned i = ⟨fd, fd⟩) (hfd : fds.get fd ≠ none) :
    luck.close 0 = .failsOpen := by
  have hfork := fork_fails h
  have hfirst : luck.piping (.entering fds unreaped) = (luck.unassigned 0, ⟨fds, unreaped, 1, 0⟩) :=
    piping_fails hpipe
  have hsecond : luck.piping ⟨fds, unreaped, 1, 0⟩ = (luck.unassigned 1, ⟨fds, unreaped, 2, 0⟩) :=
    piping_fails hpipe'
  obtain ⟨hash, s, hrun, -, hfds, -⟩ := (leaves_iff hfork hfirst hsecond).mp h
  by_contra hclose
  have hclosed : (luck.closing fd ⟨fds, unreaped, 2, 0⟩).2.fds.get fd = none :=
    (get_closing_self hfd).mpr hclose
  have hagain : (luck.closing fd (luck.closing fd ⟨fds, unreaped, 2, 0⟩).2).1 = false := by
    rw [Bool.eq_false_iff]
    exact fun htrue => (closing_eq_true.mp htrue).1 hclosed
  rw [hun, hun, afterFork, run_close, run_close] at hrun
  simp only [hagain, Bool.false_eq_true, if_false] at hrun
  have hend : s.fds.get fd = none := by
    split at hrun
    · rw [← (Prod.mk.inj (Option.some.inj hrun)).2]
      exact get_closing_of_none hclosed
    · rw [← (Prod.mk.inj (Option.some.inj hrun)).2]
      exact hclosed
  exact hfd ((hfds fd).symm.trans hend)

/-- If no pipe is made and the first close closes nothing, `NULL` is returned at once. -/
theorem leaves_no_pipes (hfork : luck.fork = false) (hpipe : luck.pipe 0 = false)
    (hpipe' : luck.pipe 1 = false) (h : luck.close 0 = .failsOpen ∨ ∀ fd, fds.get fd = none) :
    luck.Leaves concatd fds unreaped := by
  have hfirst : luck.piping (.entering fds unreaped) = (luck.unassigned 0, ⟨fds, unreaped, 1, 0⟩) :=
    piping_fails hpipe
  have hsecond : luck.piping ⟨fds, unreaped, 1, 0⟩ = (luck.unassigned 1, ⟨fds, unreaped, 2, 0⟩) :=
    piping_fails hpipe'
  rw [leaves_iff hfork hfirst hsecond]
  have hclosing : luck.closing (luck.unassigned 1).pipeRead ⟨fds, unreaped, 2, 0⟩
      = (false, ⟨fds, unreaped, 2, 1⟩) := by
    unfold Luck.closing
    dsimp only
    rcases h with h | h
    · rw [h]
      split <;> simp_all
    · rw [h]
  refine ⟨none, ⟨fds, unreaped, 2, 1⟩, ?_, nofun, fun _ => rfl, rfl⟩
  rw [afterFork, run_close, hclosing, if_neg Bool.false_ne_true]

/-- **What `generateHash` leaves behind.** For every outcome of every system call, the process of the
server goes on with a hash or `NULL`, with the descriptors from before and without a child to be waited
for, if and only if `fork` fails, and either both pipes are made and everything else succeeds, or neither
is made and the first `close` closes nothing. -/
theorem leaves_nothing_iff (luck : Luck) (concatd : Bytes) (fds : Fds) (unreaped : ℕ) :
    LeavesNothing luck concatd fds unreaped ↔ luck.NoResidue concatd fds := by
  constructor
  · intro h
    have hfork : luck.fork = false := fork_fails (h luck.unassigned)
    refine ⟨hfork, ?_⟩
    cases hpipe : luck.pipe 0 with
    | true =>
        left
        cases hpipe' : luck.pipe 1 with
        | true =>
            exact ⟨rfl, rfl, (leaves_both_pipes hfork hpipe hpipe').mp (h luck.unassigned)⟩
        | false =>
            -- numbers that `fd2` may start with and that name no open descriptor
            let free := (luck.piping (.entering fds unreaped)).2.fds.lowest
            refine absurd (h fun _ => ⟨free, free⟩)
              (@not_leaves_first_pipe { luck with unassigned := fun _ => ⟨free, free⟩ } _ _ _ hpipe hpipe' ?_)
            have hsame : Luck.piping { luck with unassigned := fun _ => ⟨free, free⟩ }
                (.entering fds unreaped) = luck.piping (.entering fds unreaped) := by
              have hpipe₀ : luck.pipe (ServerProcess.entering fds unreaped).pipes = true := hpipe
              simp only [Luck.piping, hpipe₀, if_pos]
            rw [hsame]
            exact FdTable.get_lowest _
    | false =>
        right
        cases hpipe' : luck.pipe 1 with
        | true =>
            let free := (luck.piping ⟨fds, unreaped, 1, 0⟩).2.fds.lowest
            refine absurd (h fun _ => ⟨free, free⟩)
              (@not_leaves_second_pipe { luck with unassigned := fun _ => ⟨free, free⟩ } _ _ _ hpipe hpipe' ?_)
            have hsame : Luck.piping { luck with unassigned := fun _ => ⟨free, free⟩ }
                ⟨fds, unreaped, 1, 0⟩ = luck.piping ⟨fds, unreaped, 1, 0⟩ := by
              simp only [Luck.piping, hpipe', if_pos]
            rw [hsame]
            exact FdTable.get_lowest _
        | false =>
            refine ⟨rfl, rfl, ?_⟩
            by_contra hno
            simp only [not_or, not_forall] at hno
            obtain ⟨hclose, fd, hfd⟩ := hno
            exact hclose (@failsOpen_of_leaves { luck with unassigned := fun _ => ⟨fd, fd⟩ } _ _ _ _
              (h fun _ => ⟨fd, fd⟩) hpipe hpipe' (fun _ => rfl) hfd)
  · rintro ⟨hfork, ⟨hpipe, hpipe', h⟩ | ⟨hpipe, hpipe', h⟩⟩ unassigned
    · exact (@leaves_both_pipes { luck with unassigned } _ _ _ hfork hpipe hpipe').mpr
        ⟨h.close, h.write, h.read, h.lastClose⟩
    · exact @leaves_no_pipes { luck with unassigned } _ _ _ hfork hpipe hpipe' h

/-- Everything succeeds, for a string of three characters. -/
def goodLuck : Luck where
  pipe _ := true
  unassigned _ := ⟨0, 0⟩
  fork := true
  close _ := .succeeds
  write := .writes 3
  read := some (List.replicate 64 97)

/-- The ordinary call: the hash is returned, all descriptors are closed, and there is a child that nobody
waits for. -/
theorem exists_unreaped_child :
    (∃ s, goodLuck.run (generateHash [97, 98, 99]) (.entering (.filled 3 .file) 0)
        = some (some (List.replicate 64 97), s) ∧ s.unreaped = 1) ∧
      ¬ LeavesNothing goodLuck [97, 98, 99] (.filled 3 .file) 0 := by
  have hrun : ∃ s, goodLuck.run (generateHash [97, 98, 99]) (.entering (.filled 3 .file) 0)
      = some (some (List.replicate 64 97), s) ∧ s.unreaped = 1 := ⟨_, rfl, rfl⟩
  exact ⟨hrun, fun h => absurd (fork_fails (h goodLuck.unassigned)) (by decide)⟩

end

end Sope.Hashing
