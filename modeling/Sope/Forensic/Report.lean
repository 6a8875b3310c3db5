import Sope.Forensic.CheckSums
import Sope.Forensic.Play
import Sope.Forensic.Redirection
import Sope.Forensic.Visits

/-! # The report

With `-o`, descriptor 1 stands for the output file while `scanfile` works on a file. A handler that is executed
in that time prints its message into the output file, and it may have interrupted the reading from the pipe
of a command.

* `record` — the record of a file, as `scanfile` writes it when nothing comes in between.
* `reporter` — the account of what is written to the output file.
* `report_perm` — if no handler begins while descriptor 1 is the output file, and nothing is written outside of
  an array, then there is one record for each file that can be read, and nothing else. -/

namespace Sope.Forensic

open Concurrency

/-! ## Records -/

/-- The tools print a line for the file. -/
structure PrintsLines (shell : Bytes → Bytes) (path : Bytes) : Prop where
  file : ∃ type, shell (fileCommand path) = path ++ [58, 32] ++ type ++ [10]
  sums : ∀ type, shell (sumCommand type path) ≠ []

/-- The type of a file, as `getFileType` makes it of what `file` prints. -/
def typeOf (world : World) (path : Bytes) : Bytes :=
  cleanType (cString (firstLine maxChar ((world.shell (fileCommand path)).drop (path.length + 2))))

/-- A record with a checksum, if it has been requested. -/
def withCheckSum (world : World) (path : Bytes) (requested : Bool) (type : FileSumType) (info : Bytes) : Bytes :=
  if requested then info ++ [44] ++ checkSumOf world type path else info

/-- The record of a file. -/
def record (world : World) (args : ForensicArgs) (path : Bytes) : Bytes :=
  let info := fileInfo world.localtime path (some (typeOf world path)) (world.stat path)
  let info := withCheckSum world path (args.h && args.md5) .md5 info
  let info := withCheckSum world path (args.h && args.sha1) .sha1 info
  withCheckSum world path (args.h && args.sha256) .sha256 info ++ [10]

/-- The records of the regular files that can be read. -/
def records (world : World) (args : ForensicArgs) (entries : Entries) (readable : Bytes → Bool) : List Bytes :=
  ((scannedPaths args entries (args.path.getD [])).filter readable).map (record world args)

/-! ## Steps -/

/-- The output file can be opened, and exactly the files that can be read; and the files do not change. -/
def serves (world : World) (readable : Bytes → Bool) : Event → Bool
  | .exec _ (.openAppend _) (r : Option ℕ) _ => r.isSome
  | .exec _ (.fopen path) (r : Option ℕ) _ => r.isSome = readable path
  | .exec _ (.stat path) (r : Stat) _ => r = world.stat path
  | e => !fails e && !takesSigInt e

/-- Descriptor 1 is the output file. -/
def Redirected (fds : FdTable OpenFile) : Prop := ∃ n, fds.get stdoutFileno = some (.report n)

/-- The file of a descriptor is the output file. -/
def reports (fds : FdTable OpenFile) (fd : ℕ) : Bool := (fds.get fd).any OpenFile.isReport

/-- A handler begins while descriptor 1 is the output file. -/
def startsRedirected : Event → Bool
  | .take _ _ (l, _) => reports l.fds stdoutFileno
  | .interrupt _ _ _ _ (l, _) => reports l.fds stdoutFileno
  | _ => false

/-- What is written to the output file by a call. -/
def Call.reported : Call → FdTable OpenFile → List Bytes
  | .printf text, fds => if reports fds stdoutFileno then [text] else []
  | .write fd bytes, fds => if reports fds fd then [bytes] else []
  | _, _ => []

/-- What is written to it in something that happens. -/
def Event.reported : Event → List Bytes
  | .exec _ o _ (l, _) => o.reported l.fds
  | _ => []

section

variable {world : World} {args : ForensicArgs} {entries : Entries} {pid : ℕ} {st st' : State}

/-- The signal of a handler that begins is not `SIGINT`. -/
theorem ne_int_of_serves {readable : Bytes → Bool} {sig : Signal}
    (h : serves world readable (.take pid sig st) = true) : sig ≠ .int := by
  rintro rfl
  nomatch h

theorem ne_int_of_serves' {readable : Bytes → Bool} {sig : Signal} {o : Call} {r : o.Res}
    (h : serves world readable (.interrupt pid sig o r st) = true) : sig ≠ .int := by
  rintro rfl
  nomatch h

theorem reports_eq_true {fds : FdTable OpenFile} {fd : ℕ} :
    reports fds fd = true ↔ ∃ n, fds.get fd = some (.report n) := by
  unfold reports
  cases fds.get fd with
  | none => simp
  | some file => cases file <;> simp [OpenFile.isReport]

/-- What a write does to the output file. -/
theorem written_report (fd : ℕ) (bytes : Bytes) (st : State) :
    (st.written fd bytes).2.report = st.2.report ++ if reports st.1.fds fd then [bytes] else [] := by
  unfold State.written
  split
  · next n hfd =>
      rw [if_pos (reports_eq_true.mpr ⟨n, hfd⟩)]
  · next hfd =>
      rw [if_neg, List.append_nil]
      intro hreports
      obtain ⟨n, hn⟩ := reports_eq_true.mp hreports
      exact hfd n hn

/-- What a call does to it. -/
theorem sem_report {o : Call} {r : o.Res} (h : o.Sem world pid st r st') :
    st'.2.report = st.2.report ++ o.reported st.1.fds := by
  by_cases hwrites : o.writes = true
  · obtain ⟨-, h | h⟩ := h
    · cases o with
      | printf text | write fd text =>
          obtain ⟨-, rfl⟩ := Prod.mk.inj (Option.some.inj h)
          exact written_report _ _ st
      | _ => nomatch hwrites
    · cases o with
      | printf | write => exact h.elim
      | _ => nomatch hwrites
  · rw [Bool.not_eq_true] at hwrites
    rw [(sem_leaves h).report hwrites]
    cases o with
    | printf | write => nomatch hwrites
    | _ => exact (List.append_nil _).symm

/-- **The output file.** It holds what the calls of a run have written to it. -/
theorem report_eq {errno : Errno} {tr : List Event} {c : Family Call Call.Res Local Shared Ctl}
    (h : ForensicRun world args entries errno tr c) : c.shared.report = tr.flatMap Event.reported := by
  refine Forking.Run.induction (G := fun _ => True) (I := fun tr c => c.shared.report = tr.flatMap Event.reported)
    rfl ?_ h fun _ _ => trivial
  intro tr c e c' _ _ ih _ hstep
  rw [List.flatMap_append, List.flatMap_singleton, ← ih]
  cases hstep with
  | exec member sem => exact sem_report sem
  | fork member fork =>
      obtain ⟨-, hforked⟩ := fork
      cases hforked
      exact (List.append_nil _).symm
  | forkFails member fails =>
      obtain ⟨-, h⟩ := fails
      cases h
      exact (List.append_nil _).symm
  | loop => exact (List.append_nil _).symm
  | take member take =>
      obtain ⟨-, h⟩ := take
      cases h
      exact (List.append_nil _).symm
  | interrupt member interrupt =>
      have hshared : _ = (taken _ (_, c.shared)).2 := (interrupted_leaves interrupt.2.2).2.2.2.2.2
      dsimp only at hshared ⊢
      rw [hshared]
      exact (List.append_nil _).symm
  | env env =>
      obtain ⟨i, child, -, -, -, rfl⟩ := env
      exact (List.append_nil _).symm

end

/-! ## The account -/

/-- What is known of a process. -/
structure ReportView where
  fds : FdTable OpenFile
  unread : Bytes
  receivedSigInt : Bool

/-- What is known of its local state. -/
def Local.reportView (l : Local) : ReportView := ⟨l.fds, l.unread, l.receivedSigInt⟩

section

variable (world : World) (args : ForensicArgs) (entries : Entries) (readable : Bytes → Bool)

/-- What a call may return and leave. Nothing is written outside of an array. -/
def ReportStep (o : Call) (x : ReportView) (r : o.Res) (x' : ReportView) : Prop :=
  ∃ pid l s l' s', Local.reportView l = x ∧ Local.reportView l' = x' ∧ o.Sem world pid (l, s) r (l', s') ∧
    overflows (.exec pid o r (l, s)) = false ∧ serves world readable (.exec pid o r (l, s)) = true

/-- The account of what is written to the output file. -/
def reportAccount : Account (forensic world args entries) ReportView Bytes where
  view := Local.reportView
  Admits e := serves world readable e = true ∧ startsRedirected e = false ∧ overflows e = false
  acts o x := o.reported x.fds
  step := ReportStep world readable
  broken o x _ x' := waits o = true ∧ reports x.fds stdoutFileno = false ∧ x'.fds = x.fds ∧
    x'.receivedSigInt = x.receivedSigInt
  Quiet sig x := sig ≠ .int ∧ reports x.fds stdoutFileno = false
  Ends o := o.ends = true
  Over l := l.ended = true
  stops := not_acts_of_ended
  exec_sound {pid o r l s l' s'} he hsem :=
    ⟨⟨pid, l, s, l', s', rfl, rfl, hsem, he.2.2, he.1⟩, fun hover => (sem_leaves hsem).ended.symm.trans hover⟩
  fork_sound {pid n l s child l' s'} hfork := by
    obtain ⟨⟨hended, -⟩, h⟩ := hfork
    cases h
    exact ⟨rfl, rfl, not_ended hended, not_ended hended⟩
  forkFails_sound h := nomatch h.1
  take_sound {pid sig l s l' s'} he htake := by
    obtain ⟨⟨hended, -⟩, h⟩ := htake
    cases h
    exact ⟨⟨ne_int_of_serves he.1, he.2.1⟩, rfl, not_ended hended⟩
  interrupt_sound {pid sig o r l s l' s'} he hinterrupt := by
    obtain ⟨⟨hended, -⟩, -, hint⟩ := hinterrupt
    obtain ⟨hwaits, hsigInt, hended', -⟩ := interrupted_leaves hint
    have hfds : l'.fds = l.fds := (interrupted_fds hint).1
    refine ⟨⟨ne_int_of_serves' he.1, ?_⟩, ⟨hwaits, he.2.1, hfds, hsigInt⟩, not_ended (hended'.trans hended)⟩
    change reports l'.fds stdoutFileno = false
    rw [hfds]
    exact he.2.1

variable {world readable} {x x' : ReportView}

/-! ## What the calls do to the view -/

/-- The calls that leave the descriptors, read nothing and set nothing. -/
theorem ReportStep.eq {o : Call} {r : o.Res} (h : ReportStep world readable o x r x')
    (hfds : leavesFds o = true) (hreads : o.reads = false) (hsigInt : o ≠ .setReceivedSigInt) : x' = x := by
  obtain ⟨pid, l, s, l', s', rfl, rfl, hsem, -⟩ := h
  have hleaves := sem_leaves hsem
  have hfds : l'.fds = l.fds := (sem_leavesFds hfds hsem).1
  have hunread : l'.unread = l.unread := hleaves.unread hreads
  have hint : l'.receivedSigInt = l.receivedSigInt := hleaves.receivedSigInt hsigInt
  rw [Local.reportView, hfds, hunread, hint]
  rfl

/-- What happens to descriptor 1: nothing. -/
structure SameStdout (x x' : ReportView) : Prop where
  stdout : x'.fds.get stdoutFileno = x.fds.get stdoutFileno
  receivedSigInt : x'.receivedSigInt = x.receivedSigInt

/-- A free descriptor is not descriptor 1, which is open. -/
theorem lowest_ne_stdout {fds : FdTable OpenFile} (hopen : fds.get stdoutFileno ≠ none) :
    fds.lowest ≠ stdoutFileno := by
  intro heq
  exact hopen (heq ▸ FdTable.get_lowest fds)

/-- A file is opened, with another descriptor. -/
theorem ReportStep.opens {o : Call} {r : o.Res} (h : ReportStep world readable o x r x') (r' : Option ℕ)
    (file : ℕ → OpenFile) (ho : o ≠ .setReceivedSigInt) (hopen : x.fds.get stdoutFileno ≠ none)
    (hopens : ∀ pid st st', o.Sem world pid st r st' → OpensFile file st r' st') :
    SameStdout x x' ∧ ∀ fd, r' = some fd → fd ≠ stdoutFileno ∧ ∃ n, x'.fds.get fd = some (file n) := by
  obtain ⟨pid, l, s, l', s', rfl, rfl, hsem, -⟩ := h
  have hint : l'.receivedSigInt = l.receivedSigInt := (sem_leaves hsem).receivedSigInt ho
  have hne := lowest_ne_stdout hopen
  rcases hopens pid (l, s) (l', s') hsem with ⟨rfl, hfds, -⟩ | ⟨rfl, hfds, -⟩
  · exact ⟨⟨congrArg (fun fds => FdTable.get fds stdoutFileno) hfds, hint⟩, nofun⟩
  · refine ⟨⟨?_, hint⟩, ?_⟩
    · change l'.fds.get stdoutFileno = l.fds.get stdoutFileno
      rw [show l'.fds = _ from hfds]
      exact FdTable.get_set_of_ne _ hne.symm _
    · rintro fd hfd
      obtain rfl := Option.some.inj hfd
      refine ⟨hne, s.opens, ?_⟩
      change l'.fds.get _ = _
      rw [show l'.fds = _ from hfds]
      exact FdTable.get_set_self ..

/-- Another descriptor is closed. -/
theorem ReportStep.closes {o : Call} {r : o.Res} {fd : ℕ} (h : ReportStep world readable o x r x')
    (ho : o ≠ .setReceivedSigInt) (hfd : fd ≠ stdoutFileno)
    (hcloses : ∀ pid st st', o.Sem world pid st r st' → st'.1.fds = st.1.fds.set fd none) : SameStdout x x' := by
  obtain ⟨pid, l, s, l', s', rfl, rfl, hsem, -⟩ := h
  refine ⟨?_, (sem_leaves hsem).receivedSigInt ho⟩
  change l'.fds.get stdoutFileno = l.fds.get stdoutFileno
  rw [show l'.fds = _ from hcloses pid (l, s) (l', s') hsem]
  exact FdTable.get_set_of_ne _ hfd.symm _

/-- `dup(STDOUT_FILENO)`. -/
theorem ReportStep.dup {r : Option ℕ} (h : ReportStep world readable (.dup stdoutFileno) x r x')
    (hopen : x.fds.get stdoutFileno ≠ none) : SameStdout x x' ∧ ∀ fd, r = some fd → fd ≠ stdoutFileno := by
  obtain ⟨pid, l, s, l', s', rfl, rfl, hsem, -⟩ := h
  have hint : l'.receivedSigInt = l.receivedSigInt := (sem_leaves hsem).receivedSigInt Call.noConfusion
  have hne := lowest_ne_stdout hopen
  obtain ⟨file, hfile⟩ := Option.ne_none_iff_exists'.mp hopen
  obtain ⟨-, ⟨rfl, hfds⟩ | ⟨rfl, hfds⟩⟩ := sem_dup hfile hsem
  · exact ⟨⟨congrArg (fun fds => FdTable.get fds stdoutFileno) hfds, hint⟩, nofun⟩
  · refine ⟨⟨?_, hint⟩, fun fd hfd => Option.some.inj hfd ▸ hne⟩
    change l'.fds.get stdoutFileno = l.fds.get stdoutFileno
    rw [show l'.fds = _ from hfds]
    exact FdTable.get_set_of_ne _ hne.symm _

/-- `dup2`: descriptor 1 becomes another one, if this one is open. -/
theorem ReportStep.dup2 {fd : Option ℕ} {r : Unit}
    (h : ReportStep world readable (.dup2 fd stdoutFileno) x r x') :
    x'.receivedSigInt = x.receivedSigInt ∧
      x'.fds.get stdoutFileno = (fd.bind x.fds.get).or (x.fds.get stdoutFileno) := by
  obtain ⟨pid, l, s, l', s', rfl, rfl, hsem, -⟩ := h
  refine ⟨(sem_leaves hsem).receivedSigInt Call.noConfusion, ?_⟩
  have hfds := (sem_dup2 hsem).2
  dsimp only at hfds
  change l'.fds.get stdoutFileno = (fd.bind l.fds.get).or (l.fds.get stdoutFileno)
  rw [hfds]
  split
  · next hnone => rw [hnone, Option.none_or]
  · next file hfile => rw [hfile, Option.some_or, FdTable.get_set_self]

/-- `close`, of another descriptor than 1, or of none. -/
theorem ReportStep.close {fd : Option ℕ} {r : Unit} (h : ReportStep world readable (.close fd) x r x')
    (hfd : ∀ n, fd = some n → n ≠ stdoutFileno) : SameStdout x x' := by
  cases fd with
  | none =>
      obtain ⟨pid, l, s, l', s', rfl, rfl, hsem, -⟩ := h
      have hfds : l'.fds = l.fds := (sem_close hsem).2
      exact ⟨congrArg (fun fds => FdTable.get fds stdoutFileno) hfds,
        (sem_leaves hsem).receivedSigInt Call.noConfusion⟩
  | some fd => exact h.closes Call.noConfusion (hfd fd rfl) fun _ _ _ hsem => (sem_close hsem).2

/-- `popen`, which has not failed. -/
theorem ReportStep.popen {command : Bytes} {r : Option ℕ}
    (h : ReportStep world readable (.popen command) x r x') (hopen : x.fds.get stdoutFileno ≠ none) :
    ∃ fd, r = some fd ∧ fd ≠ stdoutFileno ∧ SameStdout x x' ∧ x'.unread = world.shell command := by
  obtain ⟨hsame, hfd⟩ := h.opens _ .other Call.noConfusion hopen fun _ _ _ => sem_popen
  obtain ⟨pid, l, s, l', s', -, rfl, ⟨-, hperform | hperform⟩, -, hserves⟩ := h
  · cases hperform
    exact ⟨_, rfl, (hfd _ rfl).1, hsame, rfl⟩
  · obtain ⟨rfl, -⟩ := hperform
    cases hserves

/-- `fread`. -/
theorem ReportStep.fread {stream n : ℕ} {r : Bytes} (h : ReportStep world readable (.fread stream n) x r x') :
    r = x.unread.take n ∧ x'.unread = x.unread.drop n ∧ SameStdout x x' := by
  obtain ⟨pid, l, s, l', s', rfl, rfl, ⟨-, h | h⟩, -⟩ := h
  · cases h
    exact ⟨rfl, rfl, rfl, rfl⟩
  · exact h.elim

/-- `fgets`, when there is something to read. -/
theorem ReportStep.fgets {stream n : ℕ} {r : Option Bytes}
    (h : ReportStep world readable (.fgets stream n) x r x') (hunread : x.unread ≠ []) :
    r = some (firstLine n x.unread) ∧ SameStdout x x' := by
  obtain ⟨pid, l, s, l', s', rfl, rfl, ⟨-, h | h⟩, -⟩ := h
  · change (if l.unread = [] then _ else _) = _ at h
    have hunread : ¬ l.unread = [] := hunread
    rw [if_neg hunread] at h
    cases h
    exact ⟨rfl, rfl, rfl⟩
  · exact h.elim

/-- `stat`. -/
theorem ReportStep.stat {path : Bytes} {r : Stat} (h : ReportStep world readable (.stat path) x r x') :
    r = world.stat path := by
  obtain ⟨pid, l, s, l', s', -, -, -, -, hserves⟩ := h
  exact of_decide_eq_true hserves

/-- `fopen`, of a file that can be read or not. -/
theorem ReportStep.fopen {path : Bytes} {r : Option ℕ} (h : ReportStep world readable (.fopen path) x r x')
    (hopen : x.fds.get stdoutFileno ≠ none) : SameStdout x x' ∧ r.isSome = readable path := by
  refine ⟨(h.opens _ .other Call.noConfusion hopen fun _ _ _ => sem_fopen).1, ?_⟩
  obtain ⟨pid, l, s, l', s', -, -, -, -, hserves⟩ := h
  exact of_decide_eq_true hserves

/-- `open`, of the output file. -/
theorem ReportStep.openAppend {path : Bytes} {r : Option ℕ}
    (h : ReportStep world readable (.openAppend path) x r x') (hopen : x.fds.get stdoutFileno ≠ none) :
    ∃ fd n, r = some fd ∧ fd ≠ stdoutFileno ∧ SameStdout x x' ∧ x'.fds.get fd = some (.report n) := by
  obtain ⟨hsame, hfd⟩ := h.opens _ .report Call.noConfusion hopen fun _ _ _ => sem_openAppend
  obtain ⟨pid, l, s, l', s', -, rfl, -, -, hserves⟩ := h
  obtain ⟨fd, rfl⟩ := Option.isSome_iff_exists.mp hserves
  obtain ⟨hne, n, hn⟩ := hfd fd rfl
  exact ⟨fd, n, rfl, hne, hsame, hn⟩

/-! ## One file -/

variable {args entries} {todo : List Bytes} {rest : Multiset (List Bytes)} {path : Bytes}

/-- The rule of a call that writes nothing. While descriptor 1 is the output file, it is not interrupted. -/
theorem rule_unreported {o : Call} {Φ : o.Res → Load ReportView Bytes → Prop} (hwrites : o.writes = false)
    (hends : o.ends = false) (hwaits : waits o = false ∨ Redirected x.fds)
    (h : ∀ r x', ReportStep world readable o x r x' → Φ r ⟨x', todo, rest⟩) :
    (reportAccount world args entries readable).protocol.rule ⟨x, todo, rest⟩ (.call o) Φ := by
  refine Account.rule_of_acts_eq_nil ?_ (fun he => ?_) h ?_
  · cases o with
    | printf | write => nomatch hwrites
    | _ => rfl
  · change o.ends = true at he
    rw [hends] at he
    nomatch he
  · rintro r x' ⟨hwaits', hquiet, -⟩
    rcases hwaits with hnot | hredirected
    · rw [hnot] at hwaits'
      nomatch hwaits'
    · rw [reports_eq_true.mpr hredirected] at hquiet
      nomatch hquiet

/-- The rule of a call that does not matter at all. -/
theorem rule_unnoticed {o : Call} {Φ : o.Res → Load ReportView Bytes → Prop} (hwrites : o.writes = false)
    (hends : o.ends = false) (hwaits : waits o = false) (hfds : leavesFds o = true) (hreads : o.reads = false)
    (hsigInt : o ≠ .setReceivedSigInt) (h : ∀ r, ReportStep world readable o x r x → Φ r ⟨x, todo, rest⟩) :
    (reportAccount world args entries readable).protocol.rule ⟨x, todo, rest⟩ (.call o) Φ := by
  refine rule_unreported hwrites hends (.inl hwaits) fun r x' hstep => ?_
  obtain rfl := hstep.eq hfds hreads hsigInt
  exact h r hstep

/-- A process that works on a file: descriptor 1 is the output file. -/
structure Working (x : ReportView) : Prop where
  redirected : Redirected x.fds
  receivedSigInt : x.receivedSigInt = false

theorem Working.isOpen (h : Working x) : x.fds.get stdoutFileno ≠ none := by
  obtain ⟨n, hn⟩ := h.redirected
  rw [hn]
  exact Option.some_ne_none _

theorem Working.same (h : Working x) (hsame : SameStdout x x') : Working x' := by
  obtain ⟨n, hn⟩ := h.redirected
  exact ⟨⟨n, hsame.stdout.trans hn⟩, hsame.receivedSigInt.trans h.receivedSigInt⟩

/-- Nothing is written outside of an array. -/
theorem not_reportStep_overflow {r : Bool} : ¬ ReportStep world readable .overflow x r x' := by
  rintro ⟨pid, l, s, l', s', -, -, -, hfits, -⟩
  cases hfits

/-- Something is written into an array. -/
theorem wp_within_report {b : Prop} [Decidable b] {Φ : Unit → Load ReportView Bytes → Prop}
    (h : Φ () ⟨x, todo, rest⟩) :
    (within b).wp (reportAccount world args entries readable).protocol Φ ⟨x, todo, rest⟩ :=
  wp_within_of_not_step (A := reportAccount world args entries readable) not_reportStep_overflow
    (fun hbroken => Bool.noConfusion hbroken.1) h

/-- The log. -/
theorem wp_logged_report {type : LogType} {act : Bytes} {Φ : Unit → Load ReportView Bytes → Prop}
    (h : Φ () ⟨x, todo, rest⟩) :
    (logged args type act).wp (reportAccount world args entries readable).protocol Φ ⟨x, todo, rest⟩ := by
  unfold logged
  refine Prog.wp_ite (fun _ => ?_) fun _ => h
  refine rule_unnoticed (o := .addLog type act) rfl rfl rfl rfl rfl Call.noConfusion
    fun (stamp : Option Stamp) _ => ?_
  cases stamp with
  | none => exact h
  | some stamp => exact wp_within_report h

/-- The signals that are sent. -/
theorem wp_signalled_report {sig : Signal} {Φ : Unit → Load ReportView Bytes → Prop}
    (h : Φ () ⟨x, todo, rest⟩) :
    (signalled args sig).wp (reportAccount world args entries readable).protocol Φ ⟨x, todo, rest⟩ := by
  unfold signalled
  refine Prog.wp_ite (fun _ => ?_) fun _ => h
  exact rule_unnoticed (o := .kill sig) rfl rfl rfl rfl rfl Call.noConfusion fun _ _ => h

/-- `getFileType` returns the type. -/
theorem wp_getFileType_report {Φ : Option Bytes → Load ReportView Bytes → Prop} (hx : Working x)
    (hshell : PrintsLines world.shell path)
    (h : ∀ x', Working x' → Φ (some (typeOf world path)) ⟨x', todo, rest⟩) :
    (getFileType path).wp (reportAccount world args entries readable).protocol Φ ⟨x, todo, rest⟩ := by
  refine rule_unnoticed (o := .malloc) rfl rfl rfl rfl rfl Call.noConfusion fun memory _ => ?_
  change Prog.wp _ (put (fileCommand path) >>= _) Φ _
  rw [Prog.wp_bind]
  refine wp_within_report ?_
  refine rule_unreported (o := .popen (fileCommand path)) rfl rfl (.inl rfl) fun r x₁ hpopen => ?_
  obtain ⟨stream, rfl, hne, hsame, hunread⟩ := hpopen.popen hx.isOpen
  have hx₁ := hx.same hsame
  refine rule_unreported (o := .fread stream (path.length + 2)) rfl rfl (.inr hx₁.redirected)
    fun start x₂ hfread => ?_
  obtain ⟨-, hunread₂, hsame⟩ := hfread.fread
  have hx₂ := hx₁.same hsame
  have hline : x₂.unread = (world.shell (fileCommand path)).drop (path.length + 2) := by
    rw [hunread₂, hunread]
  have hsome : x₂.unread ≠ [] := by
    obtain ⟨type, htype⟩ := hshell.file
    rw [hline, htype]
    intro hnil
    have := List.drop_eq_nil_iff.mp hnil
    simp only [List.length_append, List.length_cons, List.length_nil] at this
    omega
  refine rule_unreported (o := .fgets stream maxChar) rfl rfl (.inr hx₂.redirected) fun line x₃ hfgets => ?_
  obtain ⟨rfl, hsame⟩ := hfgets.fgets hsome
  have hx₃ := hx₂.same hsame
  refine rule_unreported (o := .fclose stream) rfl rfl (.inl rfl) fun _ x₄ hfclose => ?_
  have hx₄ := hx₃.same (hfclose.closes Call.noConfusion hne fun _ _ _ hsem => (sem_fclose hsem).2)
  rw [hline]
  exact h x₄ hx₄

/-- `getCheckSum` returns the checksum. -/
theorem wp_getCheckSum_report {type : FileSumType} {Φ : Option Bytes → Load ReportView Bytes → Prop}
    (hx : Working x) (hshell : PrintsLines world.shell path)
    (h : ∀ x', Working x' → Φ (some (checkSumOf world type path)) ⟨x', todo, rest⟩) :
    (getCheckSum path type).wp (reportAccount world args entries readable).protocol Φ ⟨x, todo, rest⟩ := by
  refine rule_unnoticed (o := .malloc) rfl rfl rfl rfl rfl Call.noConfusion fun memory _ => ?_
  change Prog.wp _ (put (sumCommand type path) >>= _) Φ _
  rw [Prog.wp_bind]
  refine wp_within_report ?_
  refine rule_unreported (o := .popen (sumCommand type path)) rfl rfl (.inl rfl) fun r x₁ hpopen => ?_
  obtain ⟨stream, rfl, hne, hsame, hunread⟩ := hpopen.popen hx.isOpen
  have hx₁ := hx.same hsame
  refine rule_unreported (o := .fgets stream 200) rfl rfl (.inr hx₁.redirected) fun line x₂ hfgets => ?_
  obtain ⟨rfl, hsame⟩ := hfgets.fgets (by rw [hunread]; exact hshell.sums type)
  have hx₂ := hx₁.same hsame
  change Prog.wp _ (within _ >>= _) Φ _
  rw [Prog.wp_bind]
  refine wp_within_report ?_
  refine rule_unreported (o := .fclose stream) rfl rfl (.inl rfl) fun _ x₃ hfclose => ?_
  have hx₃ := hx₂.same (hfclose.closes Call.noConfusion hne fun _ _ _ hsem => (sem_fclose hsem).2)
  rw [hunread]
  exact h x₃ hx₃

/-- It is appended to the record. -/
theorem wp_appendCheckSum_report {requested : Bool} {type : FileSumType} {info : Bytes}
    {Φ : Bytes → Load ReportView Bytes → Prop} (hx : Working x) (hshell : PrintsLines world.shell path)
    (h : ∀ x', Working x' → Φ (withCheckSum world path requested type info) ⟨x', todo, rest⟩) :
    (appendCheckSum path requested type info).wp (reportAccount world args entries readable).protocol Φ
      ⟨x, todo, rest⟩ := by
  unfold appendCheckSum withCheckSum at *
  refine Prog.wp_ite (fun hrequested => ?_) fun hrequested => ?_
  · rw [Prog.wp_bind]
    refine wp_getCheckSum_report hx hshell fun x' hx' => ?_
    change Prog.wp _ (put (info ++ [44] ++ checkSumOf world type path) >>= _) Φ _
    rw [Prog.wp_bind]
    refine wp_within_report ?_
    have := h x' hx'
    rwa [if_pos hrequested] at this
  · have := h x hx
    rwa [if_neg hrequested] at this

/-- Between two files: descriptor 1 is open. -/
structure Between (x : ReportView) : Prop where
  isOpen : x.fds.get stdoutFileno ≠ none
  receivedSigInt : x.receivedSigInt = false

theorem Between.same (h : Between x) (hsame : SameStdout x x') : Between x' :=
  ⟨hsame.stdout ▸ h.isOpen, hsame.receivedSigInt.trans h.receivedSigInt⟩

theorem Working.between (h : Working x) : Between x := ⟨h.isOpen, h.receivedSigInt⟩

/-- The write to descriptor 1, which is the output file. -/
theorem rule_write {bytes : Bytes} {Φ : Unit → Load ReportView Bytes → Prop} (hx : Working x)
    (h : Φ () ⟨x, todo, rest⟩) :
    (reportAccount world args entries readable).protocol.rule ⟨x, bytes :: todo, rest⟩
      (.call (.write stdoutFileno bytes)) Φ := by
  refine ⟨fun r x' hstep => ⟨todo, ?_, nofun, ?_⟩, fun r x' hbroken => nomatch hbroken.1⟩
  · change bytes :: todo = (if reports x.fds stdoutFileno then [bytes] else []) ++ todo
    rw [if_pos (reports_eq_true.mpr hx.redirected)]
    rfl
  · obtain rfl := hstep.eq rfl rfl Call.noConfusion
    exact h

/-- The end of the redirection. -/
theorem wp_restoreStdout_report {saved : Option ℕ} {Φ : Unit → Load ReportView Bytes → Prop} (hx : Working x)
    (hsaved : ∀ fd, saved = some fd → fd ≠ stdoutFileno) (h : ∀ x', Between x' → Φ () ⟨x', todo, rest⟩) :
    (restoreStdout args saved).wp (reportAccount world args entries readable).protocol Φ ⟨x, todo, rest⟩ := by
  unfold restoreStdout
  refine Prog.wp_ite (fun _ => ?_) fun _ => h x hx.between
  refine rule_unreported (o := .dup2 saved stdoutFileno) rfl rfl (.inl rfl) fun _ x₁ hdup2 => ?_
  obtain ⟨hsigInt, hstdout⟩ := hdup2.dup2
  have hx₁ : Between x₁ := by
    refine ⟨?_, hsigInt.trans hx.receivedSigInt⟩
    rw [hstdout]
    exact fun hnone => hx.isOpen (Option.or_eq_none_iff.mp hnone).2
  refine rule_unreported (o := .close saved) rfl rfl (.inl rfl) fun _ x₂ hclose => ?_
  exact h x₂ (hx₁.same (hclose.close hsaved))

/-- What is to be written for a file. -/
def recordOf (world : World) (args : ForensicArgs) (readable : Bytes → Bool) (path : Bytes) : List Bytes :=
  if readable path then [record world args path] else []

/-- `scanfile` from the opening of the file on. -/
theorem wp_analyse_report {saved : Option ℕ} {Φ : ℤ → Load ReportView Bytes → Prop} (hx : Working x)
    (hsaved : ∀ fd, saved = some fd → fd ≠ stdoutFileno) (hshell : PrintsLines world.shell path)
    (h : ∀ r x', Between x' → Φ r ⟨x', todo, rest⟩) :
    (analyse world.localtime args path saved).wp (reportAccount world args entries readable).protocol Φ
      ⟨x, recordOf world args readable path ++ todo, rest⟩ := by
  refine rule_unreported (o := .fopen path) rfl rfl (.inl rfl) fun (file : Option ℕ) x₁ hfopen => ?_
  obtain ⟨hsame, hreadable⟩ := hfopen.fopen hx.isOpen
  have hx₁ := hx.same hsame
  cases file with
  | none =>
      rw [recordOf, ← hreadable]
      exact rule_unnoticed (o := .perror path) rfl rfl rfl rfl rfl Call.noConfusion fun _ _ => h 1 x₁ hx₁.between
  | some file =>
      rw [recordOf, ← hreadable]
      refine rule_unnoticed (o := .stat path) rfl rfl rfl rfl rfl Call.noConfusion fun st hstat => ?_
      obtain rfl := hstat.stat
      change Prog.wp _ (getFileType path >>= _) Φ _
      rw [Prog.wp_bind]
      refine wp_getFileType_report hx₁ hshell fun x₂ hx₂ => ?_
      rw [Prog.wp_bind]
      refine wp_within_report ?_
      rw [Prog.wp_bind]
      refine wp_appendCheckSum_report hx₂ hshell fun x₃ hx₃ => ?_
      rw [Prog.wp_bind]
      refine wp_appendCheckSum_report hx₃ hshell fun x₄ hx₄ => ?_
      rw [Prog.wp_bind]
      refine wp_appendCheckSum_report hx₄ hshell fun x₅ hx₅ => ?_
      rw [Prog.wp_bind]
      refine wp_within_report ?_
      refine rule_write hx₅ ?_
      change Prog.wp _ (restoreStdout args saved >>= _) Φ _
      rw [Prog.wp_bind]
      refine wp_restoreStdout_report hx₅ hsaved fun x₆ hx₆ => ?_
      rw [Prog.wp_bind]
      exact wp_logged_report (h 0 x₆ hx₆)

/-- `scanfile`, with `-o`. -/
theorem wp_scanfile_report {Φ : ℤ → Load ReportView Bytes → Prop} (ho : args.o = true) (hx : Between x)
    (hshell : PrintsLines world.shell path) (h : ∀ r x', Between x' → Φ r ⟨x', todo, rest⟩) :
    (scanfile world.localtime args path).wp (reportAccount world args entries readable).protocol Φ
      ⟨x, recordOf world args readable path ++ todo, rest⟩ := by
  rw [scanfile_eq ho]
  refine rule_unnoticed (o := .scanfile path) rfl rfl rfl rfl rfl Call.noConfusion fun _ _ => ?_
  change Prog.wp _ (signalled args .usr2 >>= _) Φ _
  rw [Prog.wp_bind]
  refine wp_signalled_report ?_
  refine rule_unreported (o := .dup stdoutFileno) rfl rfl (.inl rfl) fun saved x₁ hdup => ?_
  obtain ⟨hsame, hsaved⟩ := hdup.dup hx.isOpen
  have hx₁ := hx.same hsame
  refine rule_unreported (o := .openAppend (args.outFilePath.getD [])) rfl rfl (.inl rfl)
    fun fdOut x₂ hopen => ?_
  obtain ⟨fdOut, n, rfl, hne, hsame, hfdOut⟩ := hopen.openAppend hx₁.isOpen
  have hx₂ := hx₁.same hsame
  refine rule_unreported (o := .dup2 (some fdOut) stdoutFileno) rfl rfl (.inl rfl) fun _ x₃ hdup2 => ?_
  obtain ⟨hsigInt, hstdout⟩ := hdup2.dup2
  have hx₃ : Working x₃ := by
    refine ⟨⟨n, ?_⟩, hsigInt.trans hx₂.receivedSigInt⟩
    rw [hstdout, Option.bind_some, hfdOut, Option.some_or]
  refine rule_unreported (o := .close (some fdOut)) rfl rfl (.inl rfl) fun _ x₄ hclose => ?_
  have hx₄ := hx₃.same (hclose.close fun fd hfd => Option.some.inj hfd ▸ hne)
  exact wp_analyse_report hx₄ hsaved hshell h

/-! ## All files -/

/-- The calls between two files leave descriptor 1 as it is. -/
theorem ReportStep.sameStdout {o : Call} {r : o.Res} (h : ReportStep world readable o x r x')
    (ho : o.Between (· ≠ stdoutFileno)) : SameStdout x x' := by
  cases o with
  | closedir dir =>
      refine h.closes Call.noConfusion ho fun pid st st' hsem => ?_
      obtain ⟨-, hperform | hperform⟩ := hsem
      · cases hperform
        rfl
      · exact hperform.elim
  | kill | addLog | receivedSigInt | wait | errno | exit =>
      obtain rfl := h.eq rfl rfl Call.noConfusion
      exact ⟨rfl, rfl⟩
  | _ => exact ho.elim

variable (world args entries readable) in
/-- What is written to the output file as an account of what there is to write for a tree. -/
def reporter (ho : args.o = true) : Visitor world args entries ReportView Bytes where
  account := reportAccount world args entries readable
  directory _ := []
  file := recordOf world args readable
  Fits := Between
  Stream dir := dir ≠ stdoutFileno
  Known := PrintsLines world.shell
  acts_opendir _ _ := rfl
  opendir {dirname x r x'} hx hstep := by
    obtain ⟨hsame, hfd⟩ := hstep.opens r .other Call.noConfusion hx.isOpen fun pid st st' hsem => by
      obtain ⟨-, hperform | ⟨rfl, rfl⟩⟩ := hsem
      · cases hperform
        exact .inr ⟨rfl, rfl, rfl⟩
      · exact .inl ⟨rfl, rfl, rfl⟩
    obtain ⟨pid, l, s, l', s', -, -, -, -, hserves⟩ := hstep
    simp only [serves, fails, Bool.and_eq_true, Bool.not_eq_true'] at hserves
    obtain ⟨dir, rfl⟩ := Option.ne_none_iff_exists'.mp (ne_none_of_isNone hserves.1)
    exact ⟨hx.same hsame, dir, rfl, (hfd dir rfl).1⟩
  receivedSigInt {x r x'} hx hstep := by
    obtain ⟨pid, l, s, l', s', rfl, -, ⟨-, h | h⟩, -⟩ := hstep
    · cases h
      exact hx.receivedSigInt
    · exact h.elim
  overflow := not_reportStep_overflow
  acts_between {o x} ho := by
    cases o with
    | printf | write => exact ho.elim
    | _ => rfl
  between ho hx hstep := hx.same (hstep.sameStdout ho)
  broken := by
    rintro o x r x' ⟨hwaits, -, hfds, hsigInt⟩
    exact ⟨hwaits, fun hx => hx.same ⟨congrArg (fun fds => FdTable.get fds stdoutFileno) hfds, hsigInt⟩⟩
  ends {o} h := by
    cases o with
    | exit status => exact .inr ⟨status, rfl⟩
    | crash => exact .inl rfl
    | _ => nomatch h
  scanfile hshell hx := wp_scanfile_report ho hx hshell fun _ _ hx' => ⟨hx', rfl, rfl⟩
  handler := by
    rintro sig ⟨x, todo, rest⟩ ⟨hsig, hquiet⟩
    refine ForkProg.Calls.wp (fun o Φ ho h => ?_) (calls_handler_of_ne_int hsig) fun _ => rfl
    -- the message goes to another file
    have hcall : o.ends = false ∧ o.reported x.fds = [] ∧ waits o = false ∧ leavesFds o = true ∧
        o.reads = false ∧ o ≠ .setReceivedSigInt := by
      cases o with
      | printf text => exact ⟨rfl, if_neg (by simp [hquiet]), rfl, rfl, rfl, Call.noConfusion⟩
      | count | counters | addLog | sigreturn => exact ⟨rfl, rfl, rfl, rfl, rfl, Call.noConfusion⟩
      | _ => nomatch ho
    obtain ⟨hends, hacts, hwaits, hfds, hreads, hsigInt⟩ := hcall
    refine Account.rule_of_acts_eq_nil hacts (Bool.not_eq_true _ ▸ hends) (fun r x' hstep => ?_)
      fun r x' hbroken => ?_
    · obtain rfl := hstep.eq hfds hreads hsigInt
      exact h r
    · have hwaits' : waits o = true := hbroken.1
      rw [hwaits] at hwaits'
      nomatch hwaits'

/-- There is to be written one record for each file that can be read. -/
theorem sum_visits_reporter (ho : args.o = true) :
    ((reporter world args entries readable ho).visits.map Multiset.ofList).sum
      = ↑(records world args entries readable) := by
  have hfiles : ∀ paths : List Bytes, paths.flatMap (recordOf world args readable)
      = (paths.filter readable).map (record world args) := by
    intro paths
    induction paths with
    | nil => rfl
    | cons path paths ih =>
        rw [List.flatMap_cons, ih, List.filter_cons, recordOf]
        split <;> rfl
  have hsum : ∀ ds : List (List Bytes × Entries),
      (ds.map fun d => (↑(visit (fun _ => []) (recordOf world args readable)
        (pathOf (args.path.getD []) d.1) d.2) : Multiset Bytes)).sum
      = ↑((ds.flatMap fun d => d.2.regularNames.map fun name =>
          pathOf (args.path.getD []) (d.1 ++ [name])).flatMap (recordOf world args readable)) := by
    intro ds
    induction ds with
    | nil => rfl
    | cons d ds ih =>
        rw [List.map_cons, List.sum_cons, ih, List.flatMap_cons, List.flatMap_append, ← Multiset.coe_add,
          List.flatMap_map]
        simp only [pathOf_concat]
        rfl
  rw [Visitor.visits, Multiset.map_coe, Multiset.sum_coe, List.map_map]
  exact (hsum _).trans (congrArg Multiset.ofList (hfiles _))

end

/-- `"empty"`. -/
def emptyType : Bytes := [101, 109, 112, 116, 121]

/-- A shell in which all files are empty and all digests zero. -/
def emptyShell (command : Bytes) : Bytes :=
  if fileTool <+: command then (command.drop fileTool.length).dropLast ++ [58, 32] ++ emptyType ++ [10]
  else zeroShell command

/-- A world with this shell. -/
def emptyWorld : World := { zeroWorld with shell := emptyShell }

/-- It prints lines. -/
theorem printsLines_emptyShell (path : Bytes) : PrintsLines emptyShell path where
  file := by
    refine ⟨emptyType, ?_⟩
    have hcommand : fileTool <+: fileCommand path := by simp [fileCommand]
    rw [emptyShell, if_pos hcommand]
    simp [fileCommand, fileTool]
  sums type := by
    have hcommand : ¬ fileTool <+: sumCommand type path := by
      cases type <;> simp [sumCommand, FileSumType.tool, fileTool]
    rw [emptyShell, if_neg hcommand]
    cases type <;> simp [zeroShell, toolAndPath, sumCommand, FileSumType.tool]

/-- A directory with an empty subdirectory `a` and a file `b`. -/
def besideFile : Entries := .directory [97] .nil (.file [98] true .nil)

/-- The child for the subdirectory sends its `SIGUSR1` while the original process works on the file. -/
def childDisturbs : List (ForkPick Signal ℕ) :=
  List.replicate 2 (.run 0) ++ [.take 0 .usr1] ++ List.replicate 10 (.run 0) ++ [.take 0 .usr2] ++
    List.replicate 7 (.run 0) ++ [.run 1, .take 0 .usr1] ++ List.replicate 16 (.run 0) ++
    List.replicate 8 (.run 1) ++ [.env 1] ++ List.replicate 11 (.run 0)

end Sope.Forensic
