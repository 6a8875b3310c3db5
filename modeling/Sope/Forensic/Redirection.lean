import Sope.Forensic.Calls
import Sope.Forensic.CheckSums

/-! # Where the standard output goes

With `-o`, `scanfile` lets descriptor 1 stand for the output file while it works on a file. Every stream that
it opens with `fopen` stays open; when the output file or the file itself cannot be opened, it returns without
undoing what it has done to the descriptors.

* `Restores` — descriptor 1 is as before, and as many descriptors are open.
* `scanfile_cases` — one call.
* `restores_iff` — when all calls of a sequence leave the descriptors so. -/

namespace Sope.Forensic

open Concurrency

/-! ## Calls of `scanfile` -/

/-- Descriptor 1 refers to the same open file, and the number of open descriptors is the same. -/
structure Restores (st st' : State) : Prop where
  stdout : st'.1.fds.get stdoutFileno = st.1.fds.get stdoutFileno
  count : st'.1.fds.count = st.1.fds.count

/-- `dup` or `open` has returned a descriptor. -/
def obtains : Event → Bool
  | .exec _ (.dup _) (r : Option ℕ) _ => r.isSome
  | .exec _ (.openAppend _) (r : Option ℕ) _ => r.isSome
  | _ => false

/-- What other processes do to what is shared: the numbers of files that have been opened are not used
again. -/
def OthersOpen (s s' : Shared) : Prop := s.opens ≤ s'.opens

/-- A call of `scanfile`: the state before and after it, and what has happened in between. -/
structure ScanCall where
  before : State
  happened : List Event
  after : State

/-- Calls of `scanfile` by one process, one after the other. -/
inductive ScanCalls (world : World) (args : ForensicArgs) (entries : Entries) (pid : ℕ) :
    List Bytes → State → List ScanCall → Prop
  | nil (st : State) : ScanCalls world args entries pid [] st []
  | cons {filename : Bytes} {filenames : List Bytes} {st st' : State} {tr : List Event} {r : ℤ}
      {calls : List ScanCall}
      (call : (forensic world args entries).Passes OthersOpen pid
        (scanfile world.localtime args filename) st tr r st')
      (rest : ScanCalls world args entries pid filenames st' calls) :
      ScanCalls world args entries pid (filename :: filenames) st (⟨st, tr, st'⟩ :: calls)

/-- The file has been opened by one of the first `n` calls. -/
def OpenFile.Before (n : ℕ) : OpenFile → Prop
  | .terminal => True
  | .report m | .other m => m < n

/-- The process has a standard output, and what it has open has been opened before. -/
structure Sound (st : State) : Prop where
  stdout : st.1.fds.get stdoutFileno ≠ none
  before : ∀ fd file, st.1.fds.get fd = some file → file.Before st.2.opens

/-! ## What the calls do to the descriptors -/

section

variable {world : World} {args : ForensicArgs} {entries : Entries} {pid : ℕ} {st st' : State}
  {tr : List Event}

/-- A file that has been opened before has been opened before any later time. -/
theorem OpenFile.Before.mono {n m : ℕ} {file : OpenFile} (h : file.Before n) (hle : n ≤ m) :
    file.Before m := by
  cases file with
  | terminal => trivial
  | report _ | other _ => exact lt_of_lt_of_le h hle

/-- The calls that leave the descriptors as they are. -/
def leavesFds : Call → Bool
  | .dup _ | .openAppend _ | .dup2 .. | .close _ | .fopen _ | .popen _ | .fclose _ | .opendir _
  | .closedir _ => false
  | _ => true

/-- The descriptors are the same, and `dup` and `open` have not returned any. -/
structure Unredirected (st : State) (tr : List Event) (st' : State) : Prop where
  get : st'.1.fds.get = st.1.fds.get
  opens : st.2.opens ≤ st'.2.opens
  obtains : ∀ e ∈ tr, obtains e = false

/-- Writing changes no descriptor. -/
theorem fds_written (fd : ℕ) (bytes : Bytes) (st : State) :
    (st.written fd bytes).1.fds = st.1.fds ∧ (st.written fd bytes).2.opens = st.2.opens := by
  unfold State.written
  split <;> exact ⟨rfl, rfl⟩

/-- Nor do these calls. -/
theorem sem_leavesFds {o : Call} {r : o.Res} (ho : leavesFds o = true) (h : o.Sem world pid st r st') :
    st'.1.fds = st.1.fds ∧ st'.2.opens = st.2.opens := by
  obtain ⟨-, h | h⟩ := h
  · cases o with
    | printf text | write _ text =>
        obtain ⟨-, rfl⟩ := Prod.mk.inj (Option.some.inj h)
        exact fds_written _ _ st
    | fgets stream n =>
        rw [perform_fgets] at h
        split at h <;> cases h <;> exact ⟨rfl, rfl⟩
    | count sig => cases sig <;> cases h <;> exact ⟨rfl, rfl⟩
    | wait =>
        rw [perform_wait] at h
        split at h
        · cases h
          exact ⟨rfl, rfl⟩
        · split at h
          · cases h
          · cases h
            exact ⟨rfl, rfl⟩
    | dup | openAppend | dup2 | close | fopen | popen | fclose | opendir | closedir => cases ho
    | _ =>
        cases h
        exact ⟨rfl, rfl⟩
  · cases o with
    | stat | malloc | addLog | overflow =>
        cases h
        exact ⟨rfl, rfl⟩
    | wait =>
        obtain ⟨i, child, -, -, -, rfl⟩ := h
        exact ⟨rfl, rfl⟩
    | dup | openAppend | dup2 | close | fopen | popen | fclose | opendir | closedir => cases ho
    | _ => exact h.elim

/-- A call that is interrupted leaves them. -/
theorem interrupted_fds {o : Call} {r : o.Res} (h : o.Interrupted pid st r st') :
    st'.1.fds = st.1.fds ∧ st'.2.opens = st.2.opens := by
  cases o with
  | wait =>
      obtain ⟨-, -, -, rfl⟩ := h
      exact ⟨rfl, rfl⟩
  | fread stream n =>
      obtain ⟨m, -, -, rfl⟩ := h
      exact ⟨rfl, rfl⟩
  | fgets stream n =>
      obtain ⟨-, rfl⟩ := h
      exact ⟨rfl, rfl⟩
  | _ => exact h.elim

/-- These calls obtain no descriptor. -/
theorem obtains_of_leavesFds {o : Call} {r : o.Res} (ho : leavesFds o = true) :
    obtains (.exec pid o r st) = false := by
  cases o with
  | dup | openAppend => cases ho
  | _ => rfl

/-- The handlers leave them. -/
theorem leavesFds_of_handles {o : Call} (ho : o.handles = true) : leavesFds o = true := by
  cases o <;> first | rfl | cases ho

/-- One after the other. -/
theorem Unredirected.trans {st'' : State} {tr' : List Event} (h : Unredirected st tr st')
    (h' : Unredirected st' tr' st'') : Unredirected st (tr ++ tr') st'' where
  get := h'.get.trans h.get
  opens := h.opens.trans h'.opens
  obtains := List.forall_mem_append.mpr ⟨h.obtains, h'.obtains⟩

/-- What comes in between leaves them. -/
theorem frame_unredirected : (forensic world args entries).Frame OthersOpen pid
    (fun o => leavesFds o = true) Unredirected where
  refl st := ⟨rfl, Nat.le_refl _, fun _ h => nomatch h⟩
  trans := Unredirected.trans
  call ho h := by
    obtain ⟨hfds, hopens⟩ := sem_leavesFds ho h
    exact ⟨by rw [hfds], hopens.ge, List.forall_mem_singleton.mpr (obtains_of_leavesFds ho)⟩
  take h := by
    obtain ⟨-, rfl⟩ := h
    exact ⟨rfl, Nat.le_refl _, List.forall_mem_singleton.mpr rfl⟩
  interrupt h := by
    obtain ⟨hfds, hopens⟩ := interrupted_fds h.2.2
    exact ⟨by rw [hfds]; rfl, hopens.ge, List.forall_mem_singleton.mpr rfl⟩
  others h := ⟨rfl, h, fun _ h => nomatch h⟩
  handler sig := calls_handler (fun _ => leavesFds_of_handles) fun _ => rfl

/-- Writing into an array leaves them. -/
theorem skip_within {b : Prop} [Decidable b] {α : Type} {k : Unit → Proc α} {a : α}
    (h : (forensic world args entries).Passes OthersOpen pid (within b >>= k) st tr a st') :
    ∃ st₁ tr₁ tr₂, Unredirected st tr₁ st₁ ∧
      (forensic world args entries).Passes OthersOpen pid (k ()) st₁ tr₂ a st' ∧ tr = tr₁ ++ tr₂ := by
  obtain ⟨_, st₁, tr₁, tr₂, hput, hrest, htr⟩ := Forking.Passes.of_bind (p := within b) h
  have hcalls : (within b).Calls fun o => leavesFds o = true := calls_within rfl rfl
  exact ⟨st₁, tr₁, tr₂, frame_unredirected.of_passes hcalls hput, hrest, htr⟩

/-! ## Opening and closing -/

/-- `dup`, when the descriptor is open. -/
theorem sem_dup {fd : ℕ} {r : Option ℕ} {file : OpenFile} (hfd : st.1.fds.get fd = some file)
    (h : (Call.dup fd).Sem world pid st r st') : st'.2.opens = st.2.opens ∧
      (r = none ∧ st'.1.fds = st.1.fds ∨
        r = some st.1.fds.lowest ∧ st'.1.fds = st.1.fds.set st.1.fds.lowest (some file)) := by
  obtain ⟨-, h | ⟨rfl, rfl⟩⟩ := h
  · rw [perform_dup] at h
    rw [hfd] at h
    cases h
    exact ⟨rfl, .inr ⟨rfl, rfl⟩⟩
  · exact ⟨rfl, .inl ⟨rfl, rfl⟩⟩

/-- A call has opened a file, or has not. -/
def OpensFile (file : ℕ → OpenFile) (st : State) (r : Option ℕ) (st' : State) : Prop :=
  (r = none ∧ st'.1.fds = st.1.fds ∧ st'.2.opens = st.2.opens) ∨
    (r = some st.1.fds.lowest ∧ st'.1.fds = st.1.fds.set st.1.fds.lowest (some (file st.2.opens)) ∧
      st'.2.opens = st.2.opens + 1)

/-- `open`. -/
theorem sem_openAppend {path : Bytes} {r : Option ℕ}
    (h : (Call.openAppend path).Sem world pid st r st') : OpensFile .report st r st' := by
  obtain ⟨-, h | ⟨rfl, rfl⟩⟩ := h
  · cases h
    exact .inr ⟨rfl, rfl, rfl⟩
  · exact .inl ⟨rfl, rfl, rfl⟩

/-- `fopen`. -/
theorem sem_fopen {path : Bytes} {r : Option ℕ} (h : (Call.fopen path).Sem world pid st r st') :
    OpensFile .other st r st' := by
  obtain ⟨-, h | ⟨rfl, rfl⟩⟩ := h
  · cases h
    exact .inr ⟨rfl, rfl, rfl⟩
  · exact .inl ⟨rfl, rfl, rfl⟩

/-- `popen`. -/
theorem sem_popen {command : Bytes} {r : Option ℕ} (h : (Call.popen command).Sem world pid st r st') :
    OpensFile .other st r st' := by
  obtain ⟨-, h | ⟨rfl, rfl⟩⟩ := h
  · cases h
    exact .inr ⟨rfl, rfl, rfl⟩
  · exact .inl ⟨rfl, rfl, rfl⟩

/-- `dup2`, when the descriptors are open or none. -/
theorem sem_dup2 {fd : Option ℕ} {fd' : ℕ} {r : Unit} (h : (Call.dup2 fd fd').Sem world pid st r st') :
    st'.2.opens = st.2.opens ∧ st'.1.fds = match fd.bind st.1.fds.get with
      | none => st.1.fds
      | some file => st.1.fds.set fd' (some file) := by
  obtain ⟨-, h | h⟩ := h
  · rw [perform_dup2] at h
    cases hfd : fd.bind st.1.fds.get with
    | none =>
        rw [hfd] at h
        cases h
        exact ⟨rfl, rfl⟩
    | some file =>
        rw [hfd] at h
        cases h
        exact ⟨rfl, rfl⟩
  · exact h.elim

/-- `close`. -/
theorem sem_close {fd : Option ℕ} {r : Unit} (h : (Call.close fd).Sem world pid st r st') :
    st'.2.opens = st.2.opens ∧ st'.1.fds = match fd with
      | none => st.1.fds
      | some fd => st.1.fds.set fd none := by
  obtain ⟨-, h | h⟩ := h
  · cases fd <;> cases h <;> exact ⟨rfl, rfl⟩
  · exact h.elim

/-- `fclose`. -/
theorem sem_fclose {stream : ℕ} {r : Unit} (h : (Call.fclose stream).Sem world pid st r st') :
    st'.2.opens = st.2.opens ∧ st'.1.fds = st.1.fds.set stream none := by
  obtain ⟨-, h | h⟩ := h
  · cases h
    exact ⟨rfl, rfl⟩
  · exact h.elim

/-! ## The streams of commands -/

/-- The program closes the stream, and does nothing else to the descriptors. -/
def ClosesStream {α : Type} (stream : ℕ) : Proc α → Prop
  | .ret _ => False
  | .op .fork _ => False
  | .op (.call o) k =>
      (o = .fclose stream ∧ ∀ r, ForkProg.Calls (fun o => leavesFds o = true) (k r)) ∨
        (leavesFds o = true ∧ ∀ r, ClosesStream stream (k r))

/-- Writing into an array comes before it. -/
theorem closesStream_within {α : Type} {stream : ℕ} {b : Prop} [Decidable b] {k : Unit → Proc α}
    (hk : ClosesStream stream (k ())) : ClosesStream stream (within b >>= k) := by
  unfold within
  by_cases hb : b
  · rw [if_pos hb]
    exact hk
  · rw [if_neg hb]
    -- outside of the array: if the process goes on, then to the same program
    refine Or.inr ⟨rfl, fun goesOn => ?_⟩
    cases goesOn with
    | false => exact Or.inr ⟨rfl, fun _ => hk⟩
    | true => exact hk

/-- A passage through such a program. -/
theorem get_of_closesStream {α : Type} {stream : ℕ} {p : Proc α} {a : α} (hp : ClosesStream stream p)
    (h : (forensic world args entries).Passes OthersOpen pid p st tr a st') :
    st'.1.fds.get = (st.1.fds.set stream none).get ∧ st.2.opens ≤ st'.2.opens ∧
      ∀ e ∈ tr, obtains e = false := by
  induction p generalizing st tr with
  | ret a => exact hp.elim
  | op o k ih =>
      cases o with
      | fork => exact hp.elim
      | call o =>
          rcases hp with ⟨rfl, hk⟩ | ⟨ho, hk⟩
          · obtain ⟨st₁, r, st₂, tr₁, tr₂, hQ, hsem, hrest, rfl⟩ :=
              frame_unredirected.step (not_interrupt rfl) h
            obtain ⟨hopens, hfds⟩ := sem_fclose hsem
            have hQ' := frame_unredirected.of_passes (hk r) hrest
            refine ⟨?_, ?_, ?_⟩
            · rw [hQ'.get, hfds]
              exact congrArg (Function.update · stream none) hQ.get
            · exact hQ.opens.trans (hopens.ge.trans hQ'.opens)
            · rw [List.forall_mem_append, List.forall_mem_cons]
              exact ⟨hQ.obtains, rfl, hQ'.obtains⟩
          · obtain ⟨r, st₁, tr₁, tr₂, hQ, hrest, rfl⟩ := frame_unredirected.skip ho h
            obtain ⟨hget, hopens, hobtains⟩ := ih r (hk r) hrest
            refine ⟨?_, hQ.opens.trans hopens, List.forall_mem_append.mpr ⟨hQ.obtains, hobtains⟩⟩
            rw [hget]
            exact congrArg (Function.update · stream none) hQ.get

/-- A passage through a `popen` and what follows, if the stream is closed. -/
theorem unredirected_of_popen {α : Type} {command : Bytes} {k : Option ℕ → Proc α} {a : α}
    (hnone : ForkProg.Calls (fun o => leavesFds o = true) (k none))
    (hsome : ∀ stream, ClosesStream stream (k (some stream)))
    (h : (forensic world args entries).Passes OthersOpen pid (.op (.call (.popen command)) k) st tr a
      st') : Unredirected st tr st' := by
  obtain ⟨st₁, r, st₂, tr₁, tr₂, hQ, hsem, hrest, rfl⟩ :=
    frame_unredirected.step (not_interrupt rfl) h
  refine hQ.trans ?_
  rcases sem_popen hsem with ⟨rfl, hfds, hopens⟩ | ⟨rfl, hfds, hopens⟩
  · have hQ' := frame_unredirected.of_passes hnone hrest
    refine ⟨by rw [hQ'.get, hfds], hopens.ge.trans hQ'.opens, ?_⟩
    exact List.forall_mem_cons.mpr ⟨rfl, hQ'.obtains⟩
  · obtain ⟨hget, hopens', hobtains⟩ := get_of_closesStream (hsome _) hrest
    refine ⟨?_, by omega, List.forall_mem_cons.mpr ⟨rfl, hobtains⟩⟩
    rw [hget, hfds]
    -- the descriptor was free before
    funext fd
    by_cases hfd : fd = st₁.1.fds.lowest
    · rw [hfd, FdTable.get_set_self, FdTable.get_lowest]
    · rw [FdTable.get_set_of_ne _ hfd, FdTable.get_set_of_ne _ hfd]

/-- `getFileType` leaves the descriptors. -/
theorem unredirected_getFileType {filename : Bytes} {r : Option Bytes}
    (h : (forensic world args entries).Passes OthersOpen pid (getFileType filename) st tr r st') :
    Unredirected st tr st' := by
  obtain ⟨memory, st₁, tr₁, tr₂, hQ, hrest, rfl⟩ := frame_unredirected.skip rfl h
  obtain ⟨st₂, tr₃, tr₄, hput, hpopen, rfl⟩ :=
    skip_within (b := (fileCommand filename).length < maxChar) hrest
  refine hQ.trans (hput.trans ?_)
  refine unredirected_of_popen ?_ ?_ hpopen
  · exact ⟨rfl, fun _ => trivial⟩
  · intro stream
    exact .inr ⟨rfl, fun start => .inr ⟨rfl, fun line => .inl ⟨rfl, fun _ => trivial⟩⟩⟩

/-- So does `getCheckSum`. -/
theorem unredirected_getCheckSum {filename : Bytes} {type : FileSumType} {r : Option Bytes}
    (h : (forensic world args entries).Passes OthersOpen pid (getCheckSum filename type) st tr r st') :
    Unredirected st tr st' := by
  obtain ⟨memory, st₁, tr₁, tr₂, hQ, hrest, rfl⟩ := frame_unredirected.skip rfl h
  obtain ⟨st₂, tr₃, tr₄, hput, hpopen, rfl⟩ :=
    skip_within (b := (sumCommand type filename).length < maxChar) hrest
  refine hQ.trans (hput.trans ?_)
  refine unredirected_of_popen ?_ ?_ hpopen
  · exact ⟨rfl, fun _ => trivial⟩
  · intro stream
    refine .inr ⟨rfl, fun line => ?_⟩
    exact closesStream_within (b := 0 ≤ cutIndex (cString (line.getD memory)) filename)
      (.inl ⟨rfl, fun _ => trivial⟩)

/-- So does what appends a checksum. -/
theorem unredirected_appendCheckSum {filename : Bytes} {requested : Bool} {type : FileSumType}
    {info r : Bytes} (h : (forensic world args entries).Passes OthersOpen pid
      (appendCheckSum filename requested type info) st tr r st') : Unredirected st tr st' := by
  cases requested with
  | false => exact (frame_unredirected.ret h).2
  | true =>
      obtain ⟨checkSum, st₁, tr₁, tr₂, hsum, hrest, rfl⟩ := h.of_bind
      refine Unredirected.trans (unredirected_getCheckSum hsum) ?_
      refine frame_unredirected.of_passes ?_ hrest
      cases checkSum with
      | none => exact ⟨rfl, fun _ => trivial⟩
      | some checkSum =>
          exact (calls_within (P := fun o => leavesFds o = true) rfl rfl).bind fun _ => trivial

/-! ## The end of the redirection -/

/-- The descriptors after `dup2(saved_stdout, STDOUT_FILENO)` and `close(saved_stdout)`. -/
def restored (savedStdout : Option ℕ) (fds : FdTable OpenFile) : FdTable OpenFile :=
  match savedStdout with
  | none => fds
  | some fd =>
      match fds.get fd with
      | none => fds.set fd none
      | some file => (fds.set stdoutFileno (some file)).set fd none

/-- They depend on nothing but the descriptors before. -/
theorem get_restored_congr {savedStdout : Option ℕ} {fds fds' : FdTable OpenFile}
    (h : fds.get = fds'.get) : (restored savedStdout fds).get = (restored savedStdout fds').get := by
  cases savedStdout with
  | none => exact h
  | some fd =>
      simp only [restored, h]
      split
      · exact congrArg (Function.update · fd none) h
      · next file hfile =>
          exact congrArg
            (fun get => Function.update (Function.update get stdoutFileno (some file)) fd none) h

/-- The calls, with `-o`. -/
theorem restoreStdout_eq (ho : args.o = true) (savedStdout : Option ℕ) : restoreStdout args savedStdout =
    (do call (.dup2 savedStdout stdoutFileno)
        call (.close savedStdout) : Proc Unit) := if_pos ho

/-- A passage through them. -/
theorem get_restoreStdout (ho : args.o = true) {savedStdout : Option ℕ} {r : Unit}
    (h : (forensic world args entries).Passes OthersOpen pid (restoreStdout args savedStdout) st tr r
      st') : st'.1.fds.get = (restored savedStdout st.1.fds).get := by
  rw [restoreStdout_eq ho] at h
  obtain ⟨st₁, _, st₂, tr₁, tr₂, hQ, hsem, hrest, rfl⟩ := frame_unredirected.step (not_interrupt rfl) h
  obtain ⟨st₃, _, st₄, tr₃, tr₄, hQ', hsem', hrest', rfl⟩ :=
    frame_unredirected.step (not_interrupt rfl) hrest
  have hdup := (sem_dup2 hsem).2
  have hclose := (sem_close hsem').2
  rw [(frame_unredirected.ret hrest').2.get, hclose, ← get_restored_congr hQ.get]
  cases savedStdout with
  | none => exact hQ'.get.trans (congrArg FdTable.get hdup)
  | some fd =>
      change (st₃.1.fds.set fd none).get = _
      rw [Option.bind_some] at hdup
      simp only [restored]
      cases hfd : st₁.1.fds.get fd with
      | none =>
          rw [hfd] at hdup
          exact congrArg (Function.update · fd none) (hQ'.get.trans (congrArg FdTable.get hdup))
      | some file =>
          rw [hfd] at hdup
          exact congrArg (Function.update · fd none) (hQ'.get.trans (congrArg FdTable.get hdup))

/-- A passage through the rest of `scanfile`: the file cannot be opened, and everything stays as it is, or it
is opened, and never closed. -/
theorem get_analyse (ho : args.o = true) {filename : Bytes} {savedStdout : Option ℕ} {r : ℤ}
    (h : (forensic world args entries).Passes OthersOpen pid
      (analyse world.localtime args filename savedStdout) st tr r st') :
    st'.1.fds.get = st.1.fds.get ∨ ∃ fd n, st.1.fds.get fd = none ∧
      st'.1.fds.get = (restored savedStdout (st.1.fds.set fd (some (.other n)))).get := by
  obtain ⟨st₁, file, st₂, tr₁, tr₂, hQ, hsem, hrest, rfl⟩ :=
    frame_unredirected.step (not_interrupt rfl) h
  rcases sem_fopen hsem with ⟨rfl, hfds, -⟩ | ⟨rfl, hfds, -⟩
  · have hQ' := frame_unredirected.of_passes (p := (do call (.perror filename); return 1 : Proc ℤ))
      ⟨rfl, fun _ => trivial⟩ hrest
    exact .inl (by rw [hQ'.get, hfds, hQ.get])
  · obtain ⟨stat, st₃, tr₃, tr₄, hQ₃, hrest, -⟩ := frame_unredirected.skip rfl hrest
    obtain ⟨fileType, st₄, tr₅, tr₆, htype, hrest, -⟩ :=
      Forking.Passes.of_bind (p := getFileType filename) hrest
    obtain ⟨st₄', _, _, hinfo, hrest, -⟩ := skip_within hrest
    obtain ⟨info₁, st₅, tr₇, tr₈, hmd5, hrest, -⟩ := hrest.of_bind
    obtain ⟨info₂, st₆, tr₉, tr₁₀, hsha1, hrest, -⟩ := hrest.of_bind
    obtain ⟨info₃, st₇, tr₁₁, tr₁₂, hsha256, hrest, -⟩ := hrest.of_bind
    obtain ⟨st₇', _, _, hline, hrest, -⟩ := skip_within hrest
    obtain ⟨_, st₈, tr₁₃, tr₁₄, hQ₈, hrest, -⟩ := frame_unredirected.skip rfl hrest
    obtain ⟨_, st₉, tr₁₅, tr₁₆, hrestore, hrest, -⟩ :=
      Forking.Passes.of_bind (p := restoreStdout args savedStdout) hrest
    -- nothing between the `fopen` and the restoring touches the table
    have hbefore : st₈.1.fds.get = (st.1.fds.set st₁.1.fds.lowest (some (.other st₁.2.opens))).get := by
      rw [hQ₈.get, hline.get, (unredirected_appendCheckSum hsha256).get,
        (unredirected_appendCheckSum hsha1).get, (unredirected_appendCheckSum hmd5).get, hinfo.get,
        (unredirected_getFileType htype).get, hQ₃.get, hfds]
      exact congrArg (Function.update · _ _) hQ.get
    have hlogged : (logged args .fileScan filename).Calls fun o => leavesFds o = true :=
      calls_logged rfl rfl rfl
    have hend : Unredirected st₉ tr₁₆ st' :=
      frame_unredirected.of_passes (hlogged.bind (f := fun _ => .ret 0) fun _ => trivial) hrest
    refine .inr ⟨st₁.1.fds.lowest, st₁.2.opens, ?_, ?_⟩
    · rw [← hQ.get]
      exact FdTable.get_lowest _
    · rw [hend.get, get_restoreStdout ho hrestore]
      exact get_restored_congr hbefore

/-! ## The beginning of the redirection -/

/-- The descriptors after the output file has been opened, put in the place of the standard output, and
closed again. -/
theorem get_redirected {fds : FdTable OpenFile} (hstdout : fds.get stdoutFileno ≠ none) (file : OpenFile) :
    (((fds.set fds.lowest (some file)).set stdoutFileno (some file)).set fds.lowest none).get
      = (fds.set stdoutFileno (some file)).get := by
  have hne : fds.lowest ≠ stdoutFileno := by
    intro h
    rw [← h] at hstdout
    exact hstdout fds.get_lowest
  funext fd
  by_cases hfd : fd = fds.lowest
  · subst hfd
    rw [FdTable.get_set_self, FdTable.get_set_of_ne _ hne, FdTable.get_lowest]
  · rw [FdTable.get_set_of_ne _ hfd]
    by_cases hfd' : fd = stdoutFileno
    · subst hfd'
      rw [FdTable.get_set_self, FdTable.get_set_self]
    · rw [FdTable.get_set_of_ne _ hfd', FdTable.get_set_of_ne _ hfd', FdTable.get_set_of_ne _ hfd]

/-- Redirecting opens no descriptor. -/
theorem count_redirected {fds : FdTable OpenFile} (hstdout : fds.get stdoutFileno ≠ none)
    (file : OpenFile) : (fds.set stdoutFileno (some file)).count = fds.count :=
  FdTable.count_set_of_open hstdout file

/-- A passage through a redirection that succeeds. -/
theorem get_redirect {savedStdout : Option ℕ} {filename : Bytes} {fdOut n : ℕ} {fds : FdTable OpenFile}
    {r : ℤ} (hstdout : fds.get stdoutFileno ≠ none) (hfdOut : fdOut = fds.lowest)
    (hst : st.1.fds = fds.set fdOut (some (.report n)))
    (h : (forensic world args entries).Passes OthersOpen pid
      (do call (.dup2 (some fdOut) stdoutFileno)
          call (.close (some fdOut))
          analyse world.localtime args filename savedStdout : Proc ℤ) st tr r st') :
    ∃ st₁ tr₁, st₁.1.fds.get = (fds.set stdoutFileno (some (.report n))).get ∧
      (forensic world args entries).Passes OthersOpen pid
        (analyse world.localtime args filename savedStdout) st₁ tr₁ r st' := by
  obtain ⟨st₁, _, st₂, tr₁, tr₂, hQ, hsem, hrest, -⟩ := frame_unredirected.step (not_interrupt rfl) h
  obtain ⟨st₃, _, st₄, tr₃, tr₄, hQ', hsem', hrest', -⟩ :=
    frame_unredirected.step (not_interrupt rfl) hrest
  refine ⟨st₄, tr₄, ?_, hrest'⟩
  have hget : st₁.1.fds.get fdOut = some (.report n) := by
    rw [hQ.get, hst, FdTable.get_set_self]
  have hdup := (sem_dup2 hsem).2
  rw [Option.bind_some, hget] at hdup
  rw [(sem_close hsem').2, ← get_redirected hstdout (.report n), ← hfdOut, ← hst]
  refine congrArg (Function.update · fdOut none) (hQ'.get.trans ?_)
  rw [hdup]
  exact congrArg (Function.update · stdoutFileno (some (.report n))) hQ.get

/-! ## One call -/

/-- What `scanfile` does to the descriptors when `dup` or `open` has returned one: they are not as before, but
there still is a standard output. -/
structure Disturbs (st st' : State) : Prop where
  stdout : st'.1.fds.get stdoutFileno ≠ none
  restores : ¬ Restores st st'

/-- More descriptors are open than before. -/
theorem Disturbs.of_count (hstdout : st'.1.fds.get stdoutFileno ≠ none)
    (hcount : st'.1.fds.count = st.1.fds.count + 1) : Disturbs st st' :=
  ⟨hstdout, fun h => by have := h.count; omega⟩

/-- After a redirection without a saved standard output. -/
theorem disturbs_of_lost {st₁ : State} {filename : Bytes} {n : ℕ} {r : ℤ} (ho : args.o = true)
    (hsound : Sound st) (hn : st.2.opens ≤ n)
    (hget : st₁.1.fds.get = (st.1.fds.set stdoutFileno (some (.report n))).get)
    (h : (forensic world args entries).Passes OthersOpen pid
      (analyse world.localtime args filename none) st₁ tr r st') : Disturbs st st' := by
  have hstdout : st₁.1.fds.get stdoutFileno = some (.report n) := by
    rw [hget, FdTable.get_set_self]
  rcases get_analyse ho h with hget' | ⟨fd, m, hfd, hget'⟩
  · -- the file could not be opened: descriptor 1 is the output file
    rw [← hget'] at hstdout
    refine ⟨by simp [hstdout], ?_⟩
    intro hrestores
    have hbefore := hsound.before stdoutFileno (.report n) (hrestores.stdout ▸ hstdout)
    exact absurd hbefore (Nat.not_lt.mpr hn)
  · have hne : stdoutFileno ≠ fd := by
      rintro rfl
      rw [hstdout] at hfd
      nomatch hfd
    refine .of_count ?_ ?_
    · rw [hget', restored, FdTable.get_set_of_ne _ hne, hstdout]
      simp
    · rw [FdTable.count_congr hget', restored, FdTable.count_set_of_none hfd, FdTable.count_congr hget,
        count_redirected hsound.stdout]

/-- After a redirection with a saved one. -/
theorem disturbs_of_saved {st₁ : State} {filename : Bytes} {fd n : ℕ} {file : OpenFile} {r : ℤ}
    (ho : args.o = true) (hstdout : st.1.fds.get stdoutFileno = some file) (hfree : st.1.fds.get fd = none)
    (hget : st₁.1.fds.get = ((st.1.fds.set fd (some file)).set stdoutFileno (some (.report n))).get)
    (h : (forensic world args entries).Passes OthersOpen pid
      (analyse world.localtime args filename (some fd)) st₁ tr r st') : Disturbs st st' := by
  have hne : stdoutFileno ≠ fd := by
    rintro rfl
    rw [hstdout] at hfree
    nomatch hfree
  have hopen : (st.1.fds.set fd (some file)).get stdoutFileno ≠ none := by
    rw [FdTable.get_set_of_ne _ hne, hstdout]
    simp
  have hcount : st₁.1.fds.count = st.1.fds.count + 1 := by
    rw [FdTable.count_congr hget, count_redirected hopen, FdTable.count_set_of_none hfree]
  have hsaved : st₁.1.fds.get fd = some file := by
    rw [hget, FdTable.get_set_of_ne _ hne.symm, FdTable.get_set_self]
  have hreport : st₁.1.fds.get stdoutFileno = some (.report n) := by
    rw [hget, FdTable.get_set_self]
  -- `analyse` comes back early, or it opens the record's file at one more number
  rcases get_analyse ho h with hget' | ⟨fd', m, hfd', hget'⟩
  · refine .of_count ?_ ((FdTable.count_congr hget').trans hcount)
    rw [hget', hreport]
    simp
  · have hfd : fd ≠ fd' := by
      rintro rfl
      rw [hsaved] at hfd'
      nomatch hfd'
    have hstdout' : stdoutFileno ≠ fd' := by
      rintro rfl
      rw [hreport] at hfd'
      nomatch hfd'
    have hsaved' : (st₁.1.fds.set fd' (some (.other m))).get fd = some file := by
      rw [FdTable.get_set_of_ne _ hfd, hsaved]
    -- standard output is put back and the copy is closed; the file is not
    have hrestored : restored (some fd) (st₁.1.fds.set fd' (some (.other m)))
        = ((st₁.1.fds.set fd' (some (.other m))).set stdoutFileno (some file)).set fd none := by
      simp only [restored, hsaved']
    rw [hrestored] at hget'
    refine .of_count ?_ ?_
    · rw [hget', FdTable.get_set_of_ne _ hne, FdTable.get_set_self]
      simp
    · have hheld : ((st₁.1.fds.set fd' (some (.other m))).set stdoutFileno (some file)).get fd ≠ none := by
        rw [FdTable.get_set_of_ne _ hne.symm, hsaved']
        simp
      have hclosed := FdTable.count_set_none hheld
      rw [count_redirected (by rw [FdTable.get_set_of_ne _ hstdout', hreport]; simp),
        FdTable.count_set_of_none hfd', hcount] at hclosed
      rw [FdTable.count_congr hget']
      omega

/-- `scanfile` with `-o`, behind the signal. -/
theorem scanfile_eq (ho : args.o = true) (filename : Bytes) : scanfile world.localtime args filename =
    (do call (.scanfile filename)
        signalled args .usr2
        let savedStdout ← call (.dup stdoutFileno)
        match ← call (.openAppend (args.outFilePath.getD [])) with
        | none =>
            call (.perror (args.outFilePath.getD []))
            return 1
        | some fdOut =>
            call (.dup2 (some fdOut) stdoutFileno)
            call (.close (some fdOut))
            analyse world.localtime args filename savedStdout : Proc ℤ) := by
  unfold scanfile
  exact congrArg (fun p => call (.scanfile filename) >>= fun _ => signalled args .usr2 >>= fun _ => p) (if_pos ho)

/-- One call with `-o`: neither `dup` nor `open` returns a descriptor, and nothing changes, or one of them
does, and something does change. -/
theorem scanfile_cases (ho : args.o = true) (hsound : Sound st) {filename : Bytes} {r : ℤ}
    (h : (forensic world args entries).Passes OthersOpen pid
      (scanfile world.localtime args filename) st tr r st') :
    Unredirected st tr st' ∨ (∃ e ∈ tr, obtains e = true) ∧ Disturbs st st' := by
  rw [scanfile_eq ho] at h
  obtain ⟨_, st₁, tr₁, _, hQ₁, h₁, rfl⟩ := frame_unredirected.skip rfl h
  obtain ⟨_, st₂, tr₂, _, hsignalled, h₂, rfl⟩ :=
    Forking.Passes.of_bind (p := signalled args .usr2) h₁
  have hQ₂ := hQ₁.trans (frame_unredirected.of_passes (calls_signalled rfl) hsignalled)
  obtain ⟨st₃, saved, st₄, tr₃, _, hQ₃, hdup, h₄, rfl⟩ := frame_unredirected.step (not_interrupt rfl) h₂
  obtain ⟨st₅, fdOut, st₆, tr₅, tr₆, hQ₅, hopen, h₆, rfl⟩ :=
    frame_unredirected.step (not_interrupt rfl) h₄
  have hQ₃ := hQ₂.trans hQ₃
  obtain ⟨file, hfile⟩ := Option.ne_none_iff_exists'.mp hsound.stdout
  have hfile₃ : st₃.1.fds.get stdoutFileno = some file := by rw [hQ₃.get, hfile]
  obtain ⟨hopens₄, ⟨rfl, hfds₄⟩ | ⟨rfl, hfds₄⟩⟩ := sem_dup hfile₃ hdup
  · -- `dup` fails
    have hget₅ : st₅.1.fds.get = st.1.fds.get := by rw [hQ₅.get, hfds₄, hQ₃.get]
    rcases sem_openAppend hopen with ⟨rfl, hfds₆, hopens₆⟩ | ⟨rfl, hfds₆, hopens₆⟩
    -- the output file cannot be opened: the record is not analysed
    · left
      have hQ₆ := frame_unredirected.of_passes (p := (do
        call (.perror (args.outFilePath.getD []))
        return 1 : Proc ℤ)) ⟨rfl, fun _ => trivial⟩ h₆
      refine ⟨by rw [hQ₆.get, hfds₆, hget₅], ?_, ?_⟩
      · have := hQ₃.opens
        have := hQ₅.opens
        have := hQ₆.opens
        omega
      · have hfirst := hQ₃.obtains
        simp only [List.forall_mem_append, List.forall_mem_cons] at hfirst ⊢
        exact ⟨hfirst.1.1, hfirst.1.2, hfirst.2, rfl, hQ₅.obtains, rfl, hQ₆.obtains⟩
    · right
      refine ⟨⟨_, List.mem_append_right _ (List.mem_append_right _ (List.mem_append_right _
        (List.mem_cons_of_mem _ (List.mem_append_right _ List.mem_cons_self)))), rfl⟩, ?_⟩
      have hopens₅ : st.2.opens ≤ st₅.2.opens := by
        have := hQ₃.opens
        have := hQ₅.opens
        omega
      obtain ⟨st₇, tr₇, hget₇, h₇⟩ := get_redirect (hget₅ ▸ hsound.stdout) rfl hfds₆ h₆
      refine disturbs_of_lost ho hsound hopens₅ ?_ h₇
      rw [hget₇]
      exact congrArg (Function.update · _ _) hget₅
  · right
    refine ⟨⟨_, List.mem_append_right _ (List.mem_append_right _ (List.mem_append_right _
      List.mem_cons_self)), rfl⟩, ?_⟩
    -- the copy of standard output lies at the lowest free number
    have hfree : st.1.fds.get st₃.1.fds.lowest = none := by
      rw [← hQ₃.get]
      exact FdTable.get_lowest _
    have hne : stdoutFileno ≠ st₃.1.fds.lowest := by
      intro heq
      rw [← heq, hfile] at hfree
      nomatch hfree
    have hget₅ : st₅.1.fds.get = (st.1.fds.set st₃.1.fds.lowest (some file)).get := by
      rw [hQ₅.get, hfds₄]
      exact congrArg (Function.update · _ _) hQ₃.get
    have hstdout₅ : st₅.1.fds.get stdoutFileno = some file := by
      rw [hget₅, FdTable.get_set_of_ne _ hne, hfile]
    rcases sem_openAppend hopen with ⟨rfl, hfds₆, hopens₆⟩ | ⟨rfl, hfds₆, hopens₆⟩
    · have hQ₆ := frame_unredirected.of_passes (p := (do
        call (.perror (args.outFilePath.getD []))
        return 1 : Proc ℤ)) ⟨rfl, fun _ => trivial⟩ h₆
      have hget' : st'.1.fds.get = (st.1.fds.set st₃.1.fds.lowest (some file)).get := by
        rw [hQ₆.get, hfds₆, hget₅]
      -- the copy is not closed when the output file cannot be opened
      refine .of_count ?_ ?_
      · rw [hget', ← hget₅, hstdout₅]
        simp
      · rw [FdTable.count_congr hget', FdTable.count_set_of_none hfree]
    · obtain ⟨st₇, tr₇, hget₇, h₇⟩ := get_redirect (by simp [hstdout₅]) rfl hfds₆ h₆
      refine disturbs_of_saved (n := st₅.2.opens) ho hfile hfree ?_ h₇
      rw [hget₇]
      exact congrArg (Function.update · _ _) hget₅

/-! ## What a process has opened -/

/-- Everything in the table has been opened before. -/
def AllBefore (st : State) : Prop := ∀ fd file, st.1.fds.get fd = some file → file.Before st.2.opens

/-- It stays so when a descriptor is changed. -/
theorem AllBefore.set {fd : ℕ} {file : Option OpenFile} (h : AllBefore st)
    (hfile : ∀ f ∈ file, f.Before st'.2.opens) (hopens : st.2.opens ≤ st'.2.opens)
    (hfds : st'.1.fds = st.1.fds.set fd file) : AllBefore st' := by
  intro fd' file' hfd'
  rw [hfds] at hfd'
  by_cases heq : fd' = fd
  · rw [heq, FdTable.get_set_self] at hfd'
    exact hfile file' hfd'
  · rw [FdTable.get_set_of_ne _ heq] at hfd'
    exact (h fd' file' hfd').mono hopens

/-- It stays so when the table is the same. -/
theorem AllBefore.same (h : AllBefore st) (hopens : st.2.opens ≤ st'.2.opens)
    (hfds : st'.1.fds = st.1.fds) : AllBefore st' := by
  intro fd file hfd
  rw [hfds] at hfd
  exact (h fd file hfd).mono hopens

/-- It stays so when a file is opened. -/
theorem AllBefore.opens {r : Option ℕ} (h : AllBefore st) (file : ℕ → OpenFile)
    (hfile : ∀ n, (file n).Before (n + 1)) (hopen : OpensFile file st r st') :
    st.2.opens ≤ st'.2.opens ∧ AllBefore st' := by
  rcases hopen with ⟨-, hfds, hopens⟩ | ⟨-, hfds, hopens⟩
  · exact ⟨hopens.ge, h.same hopens.ge hfds⟩
  · refine ⟨by omega, h.set ?_ (by omega) hfds⟩
    intro f hf
    obtain rfl := Option.mem_some_iff.mp hf
    rw [hopens]
    exact hfile _

/-- It stays so when a descriptor is closed. -/
theorem AllBefore.close {fd : ℕ} (h : AllBefore st) (hopens : st'.2.opens = st.2.opens)
    (hfds : st'.1.fds = st.1.fds.set fd none) : st.2.opens ≤ st'.2.opens ∧ AllBefore st' :=
  ⟨hopens.ge, h.set (fun _ hf => by cases hf) hopens.ge hfds⟩

/-- It stays so when a descriptor is copied. -/
theorem AllBefore.copy {fd fd' : ℕ} {file : OpenFile} (h : AllBefore st)
    (hfile : st.1.fds.get fd = some file) (hopens : st'.2.opens = st.2.opens)
    (hfds : st'.1.fds = st.1.fds.set fd' (some file)) : st.2.opens ≤ st'.2.opens ∧ AllBefore st' := by
  refine ⟨hopens.ge, h.set ?_ hopens.ge hfds⟩
  intro f hf
  obtain rfl := Option.mem_some_iff.mp hf
  exact (h fd file hfile).mono hopens.ge

/-- Every call keeps it. -/
theorem AllBefore.sem {o : Call} {r : o.Res} (h : AllBefore st) (hsem : o.Sem world pid st r st') :
    st.2.opens ≤ st'.2.opens ∧ AllBefore st' := by
  -- the table changes in the calls of the `dup`, `open` and `close` kind only
  by_cases ho : leavesFds o = true
  · obtain ⟨hfds, hopens⟩ := sem_leavesFds ho hsem
    exact ⟨hopens.ge, h.same hopens.ge hfds⟩
  · cases o with
    | dup fd =>
        cases hfd : st.1.fds.get fd with
        | none =>
            obtain ⟨-, hperform | ⟨-, rfl⟩⟩ := hsem
            · rw [perform_dup] at hperform
              rw [hfd] at hperform
              cases hperform
              exact ⟨Nat.le_refl _, h⟩
            · exact ⟨Nat.le_refl _, h⟩
        | some file =>
            obtain ⟨hopens, ⟨-, hfds⟩ | ⟨-, hfds⟩⟩ := sem_dup hfd hsem
            · exact ⟨hopens.ge, h.same hopens.ge hfds⟩
            · exact h.copy hfd hopens hfds
    | openAppend path => exact h.opens .report Nat.lt_succ_self (sem_openAppend hsem)
    | fopen path => exact h.opens .other Nat.lt_succ_self (sem_fopen hsem)
    | popen command => exact h.opens .other Nat.lt_succ_self (sem_popen hsem)
    | opendir dirname =>
        refine h.opens .other (r := r) Nat.lt_succ_self ?_
        obtain ⟨-, hperform | ⟨rfl, rfl⟩⟩ := hsem
        · cases hperform
          exact .inr ⟨rfl, rfl, rfl⟩
        · exact .inl ⟨rfl, rfl, rfl⟩
    | dup2 fd fd' =>
        obtain ⟨hopens, hfds⟩ := sem_dup2 hsem
        cases hfd : fd.bind st.1.fds.get with
        | none =>
            rw [hfd] at hfds
            exact ⟨hopens.ge, h.same hopens.ge hfds⟩
        | some file =>
            rw [hfd] at hfds
            obtain ⟨fd, -, hget⟩ := Option.bind_eq_some_iff.mp hfd
            exact h.copy hget hopens hfds
    | close fd =>
        obtain ⟨hopens, hfds⟩ := sem_close hsem
        cases fd with
        | none => exact ⟨hopens.ge, h.same hopens.ge hfds⟩
        | some fd => exact h.close hopens hfds
    | fclose stream =>
        obtain ⟨hopens, hfds⟩ := sem_fclose hsem
        exact h.close hopens hfds
    | closedir dir =>
        obtain ⟨-, hperform | hperform⟩ := hsem
        · cases hperform
          exact h.close rfl rfl
        · exact hperform.elim
    | _ => exact (ho rfl).elim

/-- What comes in between keeps it. -/
theorem frame_allBefore : (forensic world args entries).Frame OthersOpen pid (fun _ => True)
    (fun st _ st' => AllBefore st → st.2.opens ≤ st'.2.opens ∧ AllBefore st') where
  refl st h := ⟨Nat.le_refl _, h⟩
  trans h₁ h₂ h := ⟨(h₁ h).1.trans (h₂ (h₁ h).2).1, (h₂ (h₁ h).2).2⟩
  call _ hsem h := h.sem hsem
  take h₁ h := by
    obtain ⟨-, rfl⟩ := h₁
    exact ⟨Nat.le_refl _, h⟩
  interrupt h₁ h := by
    obtain ⟨hfds, hopens⟩ := interrupted_fds h₁.2.2
    exact ⟨hopens.ge, h.same hopens.ge hfds⟩
  others h₁ h := ⟨h₁, h.same h₁ rfl⟩
  handler sig := calls_handler (fun _ _ => trivial) fun _ => trivial

/-- A call that changes nothing leaves the process with a standard output. -/
theorem Sound.of_unredirected (hsound : Sound st) {filename : Bytes} {r : ℤ}
    (h : (forensic world args entries).Passes OthersOpen pid
      (scanfile world.localtime args filename) st tr r st') (hsame : Unredirected st tr st') :
    Sound st' where
  stdout := by
    rw [hsame.get]
    exact hsound.stdout
  before := (frame_allBefore.of_passes_all (fun _ => trivial) h hsound.before).2

end

/-! ## All calls -/

/-- With `-o`, all calls of a sequence leave descriptor 1 and the number of open descriptors as they are exactly
if in none of them `dup` or `open` has returned a descriptor. -/
theorem restores_iff (world : World) (args : ForensicArgs) (entries : Entries) (pid : ℕ)
    (filenames : List Bytes) (st : State) (calls : List ScanCall) (ho : args.o = true)
    (hsound : Sound st) (h : ScanCalls world args entries pid filenames st calls) :
    (∀ call ∈ calls, Restores call.before call.after) ↔
      ∀ call ∈ calls, ∀ e ∈ call.happened, obtains e = false := by
  induction h with
  | nil st => simp
  | @cons filename filenames st st' tr r calls call rest ih =>
      rw [List.forall_mem_cons, List.forall_mem_cons]
      rcases scanfile_cases ho hsound call with hsame | ⟨⟨e, he, hobtains⟩, hdisturbs⟩
      · have hrestores : Restores st st' := ⟨by rw [hsame.get], FdTable.count_congr hsame.get⟩
        rw [ih (hsound.of_unredirected call hsame)]
        exact and_congr_left fun _ => iff_of_true hrestores hsame.obtains
      · constructor
        · rintro ⟨hrestores, -⟩
          exact (hdisturbs.restores hrestores).elim
        · rintro ⟨hnone, -⟩
          rw [hnone e he] at hobtains
          nomatch hobtains

/-- `forensic -r -o report evidence`. -/
def reportArgs : ForensicArgs :=
  { zeroArgs with
    r := true
    o := true
    isDir := true
    path := some evidence
    outFilePath := some reportFile
    command := commandOf [forensicName, optionR, optionO, reportFile, evidence] }

/-- A process in the beginning. -/
def firstState : State := (firstLocal .other, firstShared)

/-- It has a standard output. -/
theorem sound_firstState : Sound firstState where
  stdout := by decide
  before := by
    intro fd file h
    change (FdTable.filled 3 OpenFile.terminal).get fd = some file at h
    rw [FdTable.get_filled] at h
    split at h
    · obtain rfl := Option.some.inj h
      trivial
    · nomatch h

/-- A call, and a passage after it. -/
theorem exists_passes_call {world : World} {args : ForensicArgs} {entries : Entries} {pid : ℕ} {α : Type}
    {o : Call} {r : o.Res} {k : o.Res → Proc α} {st st₁ : State} {a : α} {P : State → Prop}
    (hsem : o.Sem world pid st r st₁)
    (h : ∃ tr st', (forensic world args entries).Passes OthersOpen pid (k r) st₁ tr a st' ∧ P st') :
    ∃ tr st', (forensic world args entries).Passes OthersOpen pid (.op (.call o) k) st tr a st' ∧
      P st' := by
  obtain ⟨tr, st', h, hP⟩ := h
  exact ⟨_, st', .call hsem h, hP⟩

/-- A call in which no descriptor is free. -/
theorem restores_no_descriptor :
    ∃ calls, ScanCalls zeroWorld reportArgs .nil 1 [evidence] firstState calls ∧ calls ≠ [] ∧
      ((∀ call ∈ calls, Restores call.before call.after) ↔
        ∀ call ∈ calls, ∀ e ∈ call.happened, obtains e = false) := by
  have hcall : ∃ tr st', (forensic zeroWorld reportArgs .nil).Passes OthersOpen 1
      (scanfile zeroWorld.localtime reportArgs evidence) firstState tr (1 : ℤ) st' ∧ True := by
    refine exists_passes_call (o := .scanfile evidence) ⟨⟨rfl, rfl⟩, .inl rfl⟩ ?_
    refine exists_passes_call (o := .kill .usr2) ⟨⟨rfl, rfl⟩, .inl rfl⟩ ?_
    refine exists_passes_call (o := .dup 1) ⟨⟨rfl, rfl⟩, .inr ⟨rfl, rfl⟩⟩ ?_
    refine exists_passes_call (o := .openAppend reportFile) ⟨⟨rfl, rfl⟩, .inr ⟨rfl, rfl⟩⟩ ?_
    refine exists_passes_call (o := .perror reportFile) ⟨⟨rfl, rfl⟩, .inl rfl⟩ ?_
    exact ⟨_, _, .ret _ _, trivial⟩
  obtain ⟨tr, st', hcall, -⟩ := hcall
  have hcalls := ScanCalls.cons hcall (.nil st')
  exact ⟨_, hcalls, by simp, restores_iff zeroWorld reportArgs .nil 1 [evidence] firstState _ rfl
    sound_firstState hcalls⟩

/-- After the call for a file that cannot be opened, descriptor 1 is the output file. -/
theorem exists_unrestored :
    ∃ calls, ScanCalls zeroWorld reportArgs .nil 1 [evidence] firstState calls ∧
      ∃ call ∈ calls, call.after.1.fds.get stdoutFileno = some (.report 0) ∧
        ¬ Restores call.before call.after := by
  have hcall : ∃ tr st', (forensic zeroWorld reportArgs .nil).Passes OthersOpen 1
      (scanfile zeroWorld.localtime reportArgs evidence) firstState tr (1 : ℤ) st' ∧
      st'.1.fds.get stdoutFileno = some (.report 0) := by
    refine exists_passes_call (o := .scanfile evidence) ⟨⟨rfl, rfl⟩, .inl rfl⟩ ?_
    refine exists_passes_call (o := .kill .usr2) ⟨⟨rfl, rfl⟩, .inl rfl⟩ ?_
    refine exists_passes_call (o := .dup 1) ⟨⟨rfl, rfl⟩, .inl rfl⟩ ?_
    refine exists_passes_call (o := .openAppend reportFile) ⟨⟨rfl, rfl⟩, .inl rfl⟩ ?_
    refine exists_passes_call (o := .dup2 (some 4) 1) ⟨⟨rfl, rfl⟩, .inl rfl⟩ ?_
    refine exists_passes_call (o := .close (some 4)) ⟨⟨rfl, rfl⟩, .inl rfl⟩ ?_
    refine exists_passes_call (o := .fopen evidence) ⟨⟨rfl, rfl⟩, .inr ⟨rfl, rfl⟩⟩ ?_
    refine exists_passes_call (o := .perror evidence) ⟨⟨rfl, rfl⟩, .inl rfl⟩ ?_
    exact ⟨_, _, .ret _ _, by decide⟩
  obtain ⟨tr, st', hcall, hstdout⟩ := hcall
  refine ⟨_, .cons hcall (.nil st'), _, List.mem_singleton_self _, hstdout, ?_⟩
  intro h
  have hsame : some (OpenFile.report 0) = firstState.1.fds.get stdoutFileno :=
    hstdout.symm.trans h.stdout
  exact absurd hsame (by decide)

end Sope.Forensic
