import Sope.Forensic.Scanning

/-! # The processes of the forensic tool

What the calls of the tool do to the process and to what the processes share. A process has its own
descriptors and variables, of which a child that is forked gets a copy. Only the original process is sent
`SIGUSR1` and `SIGUSR2`; a signal that is pending already is not queued a second time. The shell that `popen`
starts is a child as well, and `fclose` does not wait for it.

* `Call.perform` — what a call does when it succeeds.
* `Call.Sem` — everything that a call may do.
* `forensic` — the system of the processes. -/

namespace Sope.Forensic

open Concurrency

/-! ## States -/

/-- An open file: which one it is, and the number of the call that has opened it. -/
inductive OpenFile
  | terminal
  /-- The output file, `outFilePath`. -/
  | report (number : ℕ)
  | other (number : ℕ)
  deriving DecidableEq

/-- Whether it is the output file. -/
def OpenFile.isReport : OpenFile → Bool
  | .report _ => true
  | _ => false

/-- What a process has for itself. -/
structure Local where
  fds : FdTable OpenFile
  /-- What has not been read of what the command of the last `popen` prints. -/
  unread : Bytes
  errno : Errno
  receivedSigInt : Bool
  numDirs : ℕ
  numFiles : ℕ
  /-- The signals whose handlers it is executing. -/
  blocked : Signal → Bool
  /-- A signal that it has sent to itself. It takes it before `kill` returns. -/
  due : Option Signal
  ended : Bool

/-- A child of a process. -/
structure Child where
  parent : ℕ
  /-- Its number, unless it is the shell of a `popen`. -/
  process : Option ℕ
  exited : Bool
  /-- Its parent has waited for it. -/
  reaped : Bool
  deriving DecidableEq

/-- What the processes share. -/
structure Shared where
  /-- The number of the calls that have opened something. -/
  opens : ℕ
  /-- What has been written to the output file, one write after the other. -/
  report : List Bytes
  /-- The signals that are pending for the original process. -/
  pending : Signal → Bool
  children : List Child

/-- The state of a process, and what it shares. -/
abbrev State : Type := Local × Shared

/-- What the tool runs in. -/
structure World where
  /-- What a command prints. -/
  shell : Bytes → Bytes
  stat : Bytes → Stat
  localtime : ℤ → Tm
  /-- Whether a `SIGINT` may come from the keyboard. -/
  keyboard : Bool

namespace State

/-- A call has failed. -/
def failed (st : State) : State := ({ st.1 with errno := .other }, st.2)

/-- A file has been opened, with the lowest descriptor that is free. -/
def opened (file : ℕ → OpenFile) (st : State) : State :=
  ({ st.1 with fds := st.1.fds.set st.1.fds.lowest (some (file st.2.opens)) },
    { st.2 with opens := st.2.opens + 1 })

/-- A descriptor has been closed. -/
def closed (fd : ℕ) (st : State) : State := ({ st.1 with fds := st.1.fds.set fd none }, st.2)

/-- Something has been written to a descriptor. -/
def written (fd : ℕ) (bytes : Bytes) (st : State) : State :=
  match st.1.fds.get fd with
  | some (.report _) => (st.1, { st.2 with report := st.2.report ++ [bytes] })
  | _ => st

/-- The process has come to its end. -/
def exited (pid : ℕ) (st : State) : State :=
  ({ st.1 with ended := true },
    { st.2 with children := st.2.children.map fun child =>
        if child.process = some pid then { child with exited := true } else child })

end State

/-- It is a child of the process, and has not been waited for. -/
def Child.unreaped (pid : ℕ) (child : Child) : Bool := child.parent = pid ∧ !child.reaped

/-- It has exited, and can be waited for. -/
def Child.zombie (pid : ℕ) (child : Child) : Bool := child.unreaped pid ∧ child.exited

/-- The children after one of them has been waited for. -/
def reap (children : List Child) (i : ℕ) : List Child :=
  children.modify i fun child => { child with reaped := true }

/-! ## Calls -/

/-- What a call of the process `pid` does when it succeeds, if it does not have to wait. -/
def Call.perform (world : World) (pid : ℕ) : (o : Call) → State → Option (o.Res × State)
  | .kill sig, (l, s) =>
      some ((), ({ l with due := if pid = 0 ∧ l.blocked sig = false then some sig else l.due },
        { s with pending := Function.update s.pending sig true }))
  | .printf text, st => some ((), st.written stdoutFileno text)
  | .perror _, st => some ((), st)
  | .addLog .., st => some (some ⟨[], Nat.zero_le _⟩, st)
  | .scanfile _, st => some ((), st)
  | .dup fd, (l, s) =>
      match l.fds.get fd with
      | none => some ((none : Option ℕ), State.failed (l, s))
      | some file =>
          some (some l.fds.lowest, ({ l with fds := l.fds.set l.fds.lowest (some file) }, s))
  | .openAppend _, st => some (some st.1.fds.lowest, st.opened .report)
  | .dup2 fd fd', (l, s) =>
      match fd.bind l.fds.get with
      | none => some ((), State.failed (l, s))
      | some file => some ((), ({ l with fds := l.fds.set fd' (some file) }, s))
  | .close none, st => some ((), st.failed)
  | .close (some fd), st => some ((), st.closed fd)
  | .fopen _, st => some (some st.1.fds.lowest, st.opened .other)
  | .stat path, st => some (world.stat path, st)
  | .malloc, st => some (([] : Bytes), st)
  | .popen command, st =>
      let st' := st.opened .other
      some (some st.1.fds.lowest, ({ st'.1 with unread := world.shell command },
        { st'.2 with children := st'.2.children ++ [⟨pid, none, false, false⟩] }))
  | .fread _ n, (l, s) => some (l.unread.take n, ({ l with unread := l.unread.drop n }, s))
  | .fgets _ n, (l, s) =>
      if l.unread = [] then some ((none : Option Bytes), (l, s))
      else some (some (firstLine n l.unread),
        ({ l with unread := l.unread.drop (firstLine n l.unread).length }, s))
  | .fclose stream, st => some ((), st.closed stream)
  | .write fd bytes, st => some ((), st.written fd bytes)
  | .opendir _, st => some (some st.1.fds.lowest, st.opened .other)
  | .closedir dir, st => some ((), st.closed dir)
  | .receivedSigInt, st => some (st.1.receivedSigInt, st)
  | .setReceivedSigInt, (l, s) => some ((), ({ l with receivedSigInt := true }, s))
  | .count .usr1, (l, s) => some ((), ({ l with numDirs := l.numDirs + 1 }, s))
  | .count _, (l, s) => some ((), ({ l with numFiles := l.numFiles + 1 }, s))
  | .counters, st => some ((st.1.numDirs, st.1.numFiles), st)
  | .sigreturn sig, (l, s) => some ((), ({ l with blocked := Function.update l.blocked sig false }, s))
  | .wait, (l, s) =>
      match s.children.findIdx? (Child.zombie pid) with
      | some i => some (some i, (l, { s with children := reap s.children i }))
      | none =>
          if s.children.any (Child.unreaped pid) then none
          else some ((none : Option ℕ), ({ l with errno := .echild }, s))
  | .errno, st => some (st.1.errno, st)
  | .exit _, st => some ((), st.exited pid)
  | .overflow, st => some (false, st)
  | .crash, st => some ((), st.exited pid)

/-- What else a call may do: it fails, or it returns another value than the one above. -/
def Call.Else (pid : ℕ) : (o : Call) → State → o.Res → State → Prop
  | .dup _, st, r, st' | .openAppend _, st, r, st' | .fopen _, st, r, st' | .popen _, st, r, st'
  | .opendir _, st, r, st' => r = (none : Option ℕ) ∧ st' = st.failed
  | .stat _, st, _, st' => st' = st
  | .malloc, st, _, st' => st' = st
  | .addLog .., st, _, st' => st' = st
  | .overflow, st, _, st' => st' = st
  | .wait, (l, s), r, st' => ∃ (i : ℕ) (child : Child), r = some i ∧ s.children[i]? = some child ∧
      child.zombie pid = true ∧ st' = (l, { s with children := reap s.children i })
  | _, _, _, _ => False

/-- The process has not ended, and there is no signal that it has to take first. -/
def Ready (st : State) : Prop := st.1.ended = false ∧ st.1.due = none

instance (st : State) : Decidable (Ready st) :=
  inferInstanceAs (Decidable (st.1.ended = false ∧ st.1.due = none))

/-- The meaning of a call of the process `pid`. -/
def Call.Sem (world : World) (pid : ℕ) (o : Call) (st : State) (r : o.Res) (st' : State) : Prop :=
  Ready st ∧ (o.perform world pid st = some (r, st') ∨ o.Else pid st r st')

section

variable {world : World} {pid : ℕ} {st : State}

/-- `dup`. -/
theorem perform_dup (fd : ℕ) : (Call.dup fd).perform world pid st = match st.1.fds.get fd with
    | none => some ((none : Option ℕ), st.failed)
    | some file =>
        some (some st.1.fds.lowest, ({ st.1 with fds := st.1.fds.set st.1.fds.lowest (some file) }, st.2)) :=
  rfl

/-- `dup2`. -/
theorem perform_dup2 (fd : Option ℕ) (fd' : ℕ) :
    (Call.dup2 fd fd').perform world pid st = match fd.bind st.1.fds.get with
    | none => some ((), st.failed)
    | some file => some ((), ({ st.1 with fds := st.1.fds.set fd' (some file) }, st.2)) := rfl

/-- `wait`. -/
theorem perform_wait :
    Call.wait.perform world pid st = match st.2.children.findIdx? (Child.zombie pid) with
    | some i => some (some i, (st.1, { st.2 with children := reap st.2.children i }))
    | none =>
        if st.2.children.any (Child.unreaped pid) then none
        else some ((none : Option ℕ), ({ st.1 with errno := .echild }, st.2)) := rfl

/-- `fgets`. -/
theorem perform_fgets (stream n : ℕ) : (Call.fgets stream n).perform world pid st =
    if st.1.unread = [] then some ((none : Option Bytes), st)
    else some (some (firstLine n st.1.unread),
      ({ st.1 with unread := st.1.unread.drop (firstLine n st.1.unread).length }, st.2)) := rfl

end

/-! ## Forks and signals -/

/-- The process `pid` has forked a child with the number `child`, which begins with a copy of its state. -/
def forked (pid child : ℕ) (st : State) : Local × State :=
  (st.1, st.1, { st.2 with children := st.2.children ++ [⟨pid, some child, false, false⟩] })

/-- The process `pid` may take the signal now. -/
def MayTake (world : World) (pid : ℕ) (sig : Signal) (st : State) : Prop :=
  st.1.ended = false ∧ st.1.blocked sig = false ∧
    ((sig = .int ∧ world.keyboard = true) ∨ (sig ≠ .int ∧ pid = 0 ∧ st.2.pending sig = true))

instance (world : World) (pid : ℕ) (sig : Signal) (st : State) : Decidable (MayTake world pid sig st) :=
  inferInstanceAs (Decidable (_ ∧ _))

/-- The state in which the handler begins. -/
def taken (sig : Signal) (st : State) : State :=
  ({ st.1 with
      blocked := Function.update st.1.blocked sig true
      due := if st.1.due = some sig then none else st.1.due },
    { st.2 with pending := Function.update st.2.pending sig false })

/-- `EINTR`. -/
def interrupted (st : State) : State := ({ st.1 with errno := .eintr }, st.2)

/-- What a call returns that was waiting when the signal was taken. -/
def Call.Interrupted (pid : ℕ) : (o : Call) → State → o.Res → State → Prop
  | .wait, st, r, st' => st.2.children.any (Child.unreaped pid) = true ∧
      st.2.children.any (Child.zombie pid) = false ∧ r = (none : Option ℕ) ∧ st' = interrupted st
  | .fread _ n, (l, s), r, st' => ∃ m < n, r = l.unread.take m ∧
      st' = interrupted ({ l with unread := l.unread.drop m }, s)
  | .fgets .., st, r, st' => r = (none : Option Bytes) ∧ st' = interrupted st
  | _, _, _, _ => False

/-- A shell exits. -/
def ShellExits (s s' : Shared) : Prop :=
  ∃ i child, s.children[i]? = some child ∧ child.process = none ∧ child.exited = false ∧
    s' = { s with children := s.children.modify i fun child => { child with exited := true } }

/-! ## The system -/

/-- The processes that a call of the tool starts. -/
def forensic (world : World) (args : ForensicArgs) (entries : Entries) :
    Forking Call Call.Res Local Shared Ctl Signal where
  start := .main
  body := body world.localtime args entries
  handler := handler args
  goesOn l := l.ended = false
  sem pid o st r st' := o.Sem world pid st r st'
  fork pid child st l st' := Ready st ∧ (l, st') = forked pid child st
  forkFails _ st st' := Ready st ∧ st' = State.failed st
  take pid sig st st' := MayTake world pid sig st ∧ st' = taken sig st
  interrupt pid sig o st r st' := Ready st ∧ MayTake world pid sig st ∧
    o.Interrupted pid (taken sig st) r st'
  env := ShellExits

/-- The calls that may be interrupted. -/
def waits : Call → Bool
  | .wait | .fread .. | .fgets .. => true
  | _ => false

/-- No other call is. -/
theorem not_interrupt {world : World} {args : ForensicArgs} {entries : Entries} {pid : ℕ} {o : Call}
    (ho : waits o = false) (sig : Signal) (st : State) (r : o.Res) (st' : State) :
    ¬ (forensic world args entries).interrupt pid sig o st r st' := by
  rintro ⟨-, -, h⟩
  cases o with
  | wait | fread | fgets => nomatch ho
  | _ => exact h.elim

/-- The original process when it begins. -/
def firstLocal (errno : Errno) : Local where
  fds := .filled 3 .terminal
  unread := []
  errno := errno
  receivedSigInt := false
  numDirs := 0
  numFiles := 0
  blocked := fun _ => false
  due := none
  ended := false

/-- What the processes share in the beginning. The output file has been emptied. -/
def firstShared : Shared where
  opens := 0
  report := []
  pending := fun _ => false
  children := []

/-- Something that has happened. -/
abbrev Event : Type := Happening Call Call.Res Local Shared Signal

/-- The runs of the tool. -/
def ForensicRun (world : World) (args : ForensicArgs) (entries : Entries) (errno : Errno)
    (tr : List Event) (c : Family Call Call.Res Local Shared Ctl) : Prop :=
  (forensic world args entries).Run (firstLocal errno) firstShared tr c

end Sope.Forensic
