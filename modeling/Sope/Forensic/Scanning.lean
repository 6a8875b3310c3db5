import Sope.Concurrency.FdTable
import Sope.Concurrency.Forking
import Sope.Forensic.Records

/-! # The forensic tool, call by call

`scanfile`, `scanDir`, `waitForChildren`, `main` and the signal handlers of `forensic.c`, as programs whose
operations are the calls that leave or change the process.

* `within` — something is written into an array, or outside of it, which is undefined behaviour.
* `Entries` — the directory tree, as `readdir` lists it. It does not change while it is scanned.
* `scanDir` — a child that has been forked for a subdirectory calls `scanDir` for it, and returns what this
  returns; the stack frames that it has copied from its parent then return one after the other.
* `Ctl` — where a process is between two rounds of the loop in `waitForChildren`, and in how many stack
  frames of `scanDir`.

What is in the log file is left out, and so is the time. -/

namespace Sope.Forensic

open Concurrency

/-! ## Calls -/

/-- `SIGINT`, `SIGUSR1` and `SIGUSR2`. -/
inductive Signal
  | int
  | usr1
  | usr2
  deriving DecidableEq

/-- What is read of `errno`. -/
inductive Errno
  | echild
  | eintr
  | other
  deriving DecidableEq

/-- The calls of the program. A descriptor of `none` is `-1`, a stream of `none` is a null pointer; a stream
is the descriptor below it. -/
inductive Call
  /-- `kill(originalPID, sig)`. -/
  | kill (sig : Signal)
  /-- `printf`, flushed at once. -/
  | printf (text : Bytes)
  | perror (text : Bytes)
  /-- The opening of the log file, with what is printed of the time and of the number of the process. -/
  | addLog (type : LogType) (act : Bytes)
  /-- The beginning of `scanfile`, which is no call by itself. -/
  | scanfile (filename : Bytes)
  | dup (fd : ℕ)
  /-- `open(path, O_WRONLY | O_CREAT | O_APPEND)`. -/
  | openAppend (path : Bytes)
  | dup2 (fd : Option ℕ) (fd' : ℕ)
  | close (fd : Option ℕ)
  /-- `fopen(path, "r")`. -/
  | fopen (path : Bytes)
  | stat (path : Bytes)
  /-- `malloc`, with what is in the array that it returns. -/
  | malloc
  | popen (command : Bytes)
  | fread (stream n : ℕ)
  | fgets (stream n : ℕ)
  | fclose (stream : ℕ)
  | write (fd : ℕ) (bytes : Bytes)
  | opendir (dirname : Bytes)
  | closedir (dir : ℕ)
  /-- The value of `receivedSigInt`. -/
  | receivedSigInt
  /-- `receivedSigInt = true`. -/
  | setReceivedSigInt
  /-- `numDirs++` or `numFiles++`. -/
  | count (sig : Signal)
  /-- The values of `numDirs` and `numFiles`. -/
  | counters
  /-- The end of a handler. -/
  | sigreturn (sig : Signal)
  /-- `wait(NULL)`. -/
  | wait
  | errno
  | exit (status : ℕ)
  /-- Something is written outside of an array. What is returned is whether the process goes on. -/
  | overflow
  /-- A null pointer is read, or the memory has been damaged: the process is ended by a signal. -/
  | crash
  deriving DecidableEq

/-- What a call returns. -/
def Call.Res : Call → Type
  | .dup _ | .openAppend _ | .fopen _ | .popen _ | .opendir _ | .wait => Option ℕ
  | .addLog .. => Option Stamp
  | .stat _ => Stat
  | .malloc | .fread .. => Bytes
  | .fgets .. => Option Bytes
  | .receivedSigInt | .overflow => Bool
  | .counters => ℕ × ℕ
  | .errno => Errno
  | _ => Unit

/-- A program of the tool. -/
abbrev Proc (α : Type) : Type := ForkProg Call Call.Res α

/-- Make a call. -/
abbrev call (o : Call) : Proc o.Res := ForkProg.perform o

/-- `STDOUT_FILENO`. -/
def stdoutFileno : ℕ := 1

/-- Something is written into an array, if this is so. Otherwise it is written outside of it, and then the
process goes on as if nothing had happened, or it ends. -/
def within (b : Prop) [Decidable b] : Proc Unit :=
  if b then return ()
  else do
    let goesOn : Bool ← call .overflow
    if goesOn then return () else call .crash

/-- A string is written into an array of `MAXCHAR` characters, with the zero behind it. -/
abbrev put (string : Bytes) : Proc Unit := within (string.length < maxChar)

/-- A zero is written into an array that is long enough. -/
abbrev putZero (index : ℤ) : Proc Unit := within (0 ≤ index)

theorem within_of {b : Prop} [Decidable b] (h : b) : within b = return () := if_pos h

/-- `if (args->v) addLog(args->logFilePath, type, act)`. -/
def logged (args : ForensicArgs) (type : LogType) (act : Bytes) : Proc Unit :=
  if args.v then do
    match ← call (.addLog type act) with
    | none => return ()
    | some stamp => put (logLine stamp type act)
  else return ()

/-- `if (args->o) signalUSR1()`, or `signalUSR2()`. -/
def signalled (args : ForensicArgs) (sig : Signal) : Proc Unit :=
  if args.o then call (.kill sig) else return ()

/-! ## One file -/

/-- `getFileType`. -/
def getFileType (filename : Bytes) : Proc (Option Bytes) := do
  let memory : Bytes ← call .malloc
  put (fileCommand filename)
  match ← call (.popen (fileCommand filename)) with
  | none =>
      call (.printf (fileCommand filename ++ commandFailed))
      return none
  | some stream =>
      let start : Bytes ← call (.fread stream (filename.length + 2))
      let line : Option Bytes ← call (.fgets stream maxChar)
      call (.fclose stream)
      -- without a line the array holds what `fread` has put into it
      return some (cleanType (cString (line.getD (start ++ memory.drop start.length))))

/-- `getCheckSum`. -/
def getCheckSum (filename : Bytes) (type : FileSumType) : Proc (Option Bytes) := do
  let memory : Bytes ← call .malloc
  put (sumCommand type filename)
  match ← call (.popen (sumCommand type filename)) with
  | none =>
      call (.printf (sumCommand type filename ++ commandFailed))
      return none
  | some stream =>
      let line : Option Bytes ← call (.fgets stream 200)
      let str := cString (line.getD memory)
      putZero (cutIndex str filename)
      call (.fclose stream)
      return some (cutCheckSum str filename)

/-- One of the parts of `scanfile` that append a checksum to the record, if it has been asked for. -/
def appendCheckSum (filename : Bytes) (requested : Bool) (type : FileSumType) (info : Bytes) :
    Proc Bytes :=
  if requested then do
    match ← getCheckSum filename type with
    | none =>
        -- `strcat` from a null pointer
        call .crash
        return info
    | some checkSum =>
        put (info ++ [44] ++ checkSum)
        return info ++ [44] ++ checkSum
  else return info

/-- The end of the redirection, `if (args->o)`. -/
def restoreStdout (args : ForensicArgs) (savedStdout : Option ℕ) : Proc Unit :=
  if args.o then do
    call (.dup2 savedStdout stdoutFileno)
    call (.close savedStdout)
  else return ()

/-- `scanfile` from the opening of the file on. -/
def analyse (localtime : ℤ → Tm) (args : ForensicArgs) (filename : Bytes) (savedStdout : Option ℕ) :
    Proc ℤ := do
  match ← call (.fopen filename) with
  | none =>
      call (.perror filename)
      return 1
  | some _ =>
      let st : Stat ← call (.stat filename)
      let fileType ← getFileType filename
      let info := fileInfo localtime filename fileType st
      put info
      let info ← appendCheckSum filename (args.h && args.md5) .md5 info
      let info ← appendCheckSum filename (args.h && args.sha1) .sha1 info
      let info ← appendCheckSum filename (args.h && args.sha256) .sha256 info
      put (info ++ [10])
      call (.write stdoutFileno (info ++ [10]))
      restoreStdout args savedStdout
      logged args .fileScan filename
      return 0

/-- `scanfile`. -/
def scanfile (localtime : ℤ → Tm) (args : ForensicArgs) (filename : Bytes) : Proc ℤ := do
  call (.scanfile filename)
  signalled args .usr2
  if args.o then
    let savedStdout ← call (.dup stdoutFileno)
    match ← call (.openAppend (args.outFilePath.getD [])) with
    | none =>
        call (.perror (args.outFilePath.getD []))
        return 1
    | some fdOut =>
        call (.dup2 (some fdOut) stdoutFileno)
        call (.close (some fdOut))
        analyse localtime args filename savedStdout
  else analyse localtime args filename (some 0)

/-! ## A directory -/

/-- What is in a directory, as `readdir` lists it: `"."` and `".."` are among the entries. -/
inductive Entries
  | nil
  /-- An entry that is no directory; `regular` if its type is `DT_REG`. -/
  | file (name : Bytes) (regular : Bool) (rest : Entries)
  /-- An entry of type `DT_DIR`. -/
  | directory (name : Bytes) (content rest : Entries)
  deriving DecidableEq

/-- `"."` or `".."`. -/
def isDots (name : Bytes) : Bool := name = [46] ∨ name = [46, 46]

/-- Where a process goes on. -/
inductive Ctl
  /-- At the beginning of `main`, behind `processArgs`. -/
  | main
  /-- In the loop of `waitForChildren`, called by `scanDir` below the frames of so many other calls. -/
  | waiting (frames : ℕ)
  /-- In `main`, or in one of the frames that are left, with the value of `scanDir`. -/
  | returning (frames : ℕ)
  deriving DecidableEq

/-- The end of the process. -/
def exit (status : ℕ) : Proc Ctl := do
  call (.exit status)
  return .returning 0

/-- `scanDir` up to its loop. -/
def enterDir (args : ForensicArgs) (dirname : Bytes) (loop : ℕ → Proc Ctl) : Proc Ctl := do
  signalled args .usr1
  match ← call (.opendir dirname) with
  | none =>
      -- `readdir` of a null pointer
      call .crash
      return .returning 0
  | some dir => loop dir

/-- The loop of `scanDir` and what comes behind it. -/
def scanEntries (localtime : ℤ → Tm) (args : ForensicArgs) : Entries → Bytes → ℕ → ℕ → Proc Ctl
  | .nil, _, dir, frames => do
      call (.closedir dir)
      return .waiting frames
  | .file name regular rest, dirname, dir, frames => do
      let stop : Bool ← call .receivedSigInt
      if stop then
        call (.closedir dir)
        return .waiting frames
      else if isDots name then scanEntries localtime args rest dirname dir frames
      else if regular then
        put (joined dirname name)
        let _ ← scanfile localtime args (joined dirname name)
        scanEntries localtime args rest dirname dir frames
      else scanEntries localtime args rest dirname dir frames
  | .directory name content rest, dirname, dir, frames => do
      let stop : Bool ← call .receivedSigInt
      if stop then
        call (.closedir dir)
        return .waiting frames
      else if isDots name then scanEntries localtime args rest dirname dir frames
      else if args.r then
        let pid ← ForkProg.fork
        if pid < 0 then
          call (.printf errorCreatingChild)
          exit 1
        else if pid = 0 then
          put (joined dirname name)
          enterDir args (joined dirname name) fun dir' =>
            scanEntries localtime args content (joined dirname name) dir' (frames + 1)
        else scanEntries localtime args rest dirname dir frames
      else scanEntries localtime args rest dirname dir frames

/-- `scanDir`. -/
def scanDir (localtime : ℤ → Tm) (args : ForensicArgs) (entries : Entries) (dirname : Bytes)
    (frames : ℕ) : Proc Ctl :=
  enterDir args dirname fun dir => scanEntries localtime args entries dirname dir frames

/-- One round of the loop in `waitForChildren`. -/
def waitRound (frames : ℕ) : Proc Ctl := do
  let waitRet : Option ℕ ← call .wait
  let errno : Errno ← call .errno
  if errno ≠ .echild ∧ waitRet ≠ none then return .waiting frames else return .returning frames

/-- What a process runs for a control value. -/
def body (localtime : ℤ → Tm) (args : ForensicArgs) (entries : Entries) : Ctl → Proc Ctl
  | .main => do
      -- `processArgs` has put the command together
      within args.command.isSome
      logged args .command (args.command.getD [])
      if args.isDir then scanDir localtime args entries (args.path.getD []) 0
      else
        let _ ← scanfile localtime args (args.path.getD [])
        return .returning 0
  | .waiting frames => waitRound frames
  | .returning 0 => exit 0
  -- `return scanDir(newDir, args)`
  | .returning (frames + 1) => return .returning frames

/-! ## Handlers -/

/-- The handlers of `SIGUSR1` and `SIGUSR2`. -/
def sigUsrHandler (args : ForensicArgs) (sig : Signal) (message name : Bytes) : Proc Unit := do
  call (.count sig)
  let counters : ℕ × ℕ ← call .counters
  call (.printf (counterText message counters.1 counters.2))
  logged args .sigReceive name
  call (.sigreturn sig)

/-- The handler of a signal. -/
def handler (args : ForensicArgs) : Signal → Proc Unit
  | .int => do
      call .setReceivedSigInt
      call (.sigreturn .int)
  | .usr1 => sigUsrHandler args .usr1 newDirectory usr1Name
  | .usr2 => sigUsrHandler args .usr2 newFile usr2Name

end Sope.Forensic
