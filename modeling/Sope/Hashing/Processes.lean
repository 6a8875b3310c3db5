import Sope.Bank.Types
import Sope.Concurrency.FdTable
import Sope.Concurrency.Player

/-! # `generateHash` and its co-processes

`generateHash` of `accounts.c` makes two pipes, forks a child that becomes `sha256sum`, writes the
password and the salt into the one pipe and reads the digest from the other. Here it is modelled one
system call at a time, in any number of offices at once: these are threads of one process and share
its descriptor table, and every child begins with a copy of that table.

* `Fds` — the descriptor table of a process.
* `Kernel` — the table of the server, its children with theirs, and the content of the pipes.
* `Syscall.exec` — the effect of a system call. `pipe` and `fork` do not fail; `execlp` leaves every
  descriptor open; a read from an empty pipe waits while any process has a write end of the pipe, and
  returns nothing after that.
* `hashing` — the system of the offices and their children. -/

namespace Sope.Hashing

open Concurrency

/-! ## Descriptor tables -/

/-- What a descriptor stands for. -/
inductive End
  /-- The end of a pipe from which to read. -/
  | readEnd (pipe : ℕ)
  /-- The end of a pipe to which to write. -/
  | writeEnd (pipe : ℕ)
  /-- Anything but a pipe. -/
  | file
  deriving DecidableEq

/-- The descriptor table of a process. -/
abbrev Fds := FdTable End

/-! ## The system calls -/

/-- The two descriptors that `pipe` returns, `fd[PIPE_READ]` and `fd[PIPE_WRITE]`. -/
structure FdPair where
  pipeRead : ℕ
  pipeWrite : ℕ
  deriving DecidableEq

/-- The system calls of `generateHash`, of its child, and of `sha256sum`. -/
inductive Syscall
  | pipe
  /-- `fork()` in the parent, with the variables that the child goes on to use. -/
  | fork (fd1 fd2 : FdPair)
  /-- The return of `fork()` in the child, which has the variables of its parent. -/
  | forked
  | close (fd : ℕ)
  | write (fd : ℕ) (bytes : Bytes)
  | read (fd n : ℕ)
  | dup2 (fd fd' : ℕ)
  | execlp
  | exit (status : ℕ)
  deriving DecidableEq

/-- Their results; `none` is the -1 of `read`. -/
def Syscall.Res : Syscall → Type
  | .pipe => FdPair
  | .forked => FdPair × FdPair
  | .fork .. | .close _ | .write .. | .dup2 .. => Int
  | .read .. => Option Bytes
  | .execlp | .exit _ => Unit

/-- A child of the server. -/
structure Process (n : ℕ) where
  /-- The office that has forked it. -/
  parent : Fin n
  fd1 : FdPair
  fd2 : FdPair
  fds : Fds

/-- The server's process, its children, and the pipes. -/
structure Kernel (n : ℕ) where
  /-- The descriptor table of the server. -/
  fds : Fds
  /-- The children, oldest first. One that has ended has no descriptor open. -/
  children : List (Process n)
  /-- The number of pipes made so far. -/
  pipes : ℕ
  /-- The content of each pipe. -/
  buffer : ℕ → Bytes

/-- The parties: the offices, and the children in the order of their forks. -/
inductive Party (n : ℕ)
  | office (i : Fin n)
  | child (k : ℕ)
  deriving DecidableEq

variable {n : ℕ}

namespace Kernel

/-- The descriptor table of a party. -/
def table (s : Kernel n) : Party n → Option Fds
  | .office _ => some s.fds
  | .child k => s.children[k]?.map Process.fds

/-- The state with another descriptor table for a party. -/
def setTable (s : Kernel n) (t : Party n) (fds : Fds) : Kernel n :=
  match t with
  | .office _ => { s with fds }
  | .child k => { s with children := s.children.modify k fun child => { child with fds } }

/-- Whether some process holds `e`. -/
def holds (s : Kernel n) (e : End) : Bool :=
  s.fds.holds e || s.children.any fun child => child.fds.holds e

end Kernel

/-- The effect of a system call; `none` if it does not return now. -/
def Syscall.exec (t : Party n) : (o : Syscall) → Kernel n → Option (o.Res × Kernel n)
  | .pipe, s =>
      (s.table t).map fun fds =>
        let pipeRead := fds.lowest
        let fds := fds.set pipeRead (some (.readEnd s.pipes))
        let pipeWrite := fds.lowest
        let fds := fds.set pipeWrite (some (.writeEnd s.pipes))
        (⟨pipeRead, pipeWrite⟩, { s.setTable t fds with pipes := s.pipes + 1 })
  | .fork fd1 fd2, s =>
      match t with
      | .office i =>
          some (((s.children.length + 1 : ℕ) : Int),
            { s with children := s.children ++ [⟨i, fd1, fd2, s.fds⟩] })
      | .child _ => none
  | .forked, s =>
      match t with
      | .office _ => none
      | .child k => s.children[k]?.map fun child => ((child.fd1, child.fd2), s)
  | .close fd, s =>
      (s.table t).map fun fds =>
        match fds.get fd with
        | none => ((-1 : Int), s)
        | some _ => ((0 : Int), s.setTable t (fds.set fd none))
  | .write fd bytes, s =>
      (s.table t).bind fun fds =>
        match fds.get fd with
        | some (.writeEnd p) =>
            -- without a reader, the process would be sent SIGPIPE
            if s.holds (.readEnd p) then
              some ((bytes.length : Int),
                { s with buffer := Function.update s.buffer p (s.buffer p ++ bytes) })
            else none
        | some .file => some ((bytes.length : Int), s)
        | _ => some ((-1 : Int), s)
  | .read fd n, s =>
      (s.table t).bind fun fds =>
        match fds.get fd with
        | some (.readEnd p) =>
            if s.buffer p = [] then
              if s.holds (.writeEnd p) then none else some (some [], s)
            else
              some (some ((s.buffer p).take n),
                { s with buffer := Function.update s.buffer p ((s.buffer p).drop n) })
        | some .file => some (some [], s)
        | _ => some (none, s)
  | .dup2 fd fd', s =>
      (s.table t).map fun fds =>
        match fds.get fd with
        | none => ((-1 : Int), s)
        | some e => ((fd' : Int), s.setTable t (fds.set fd' (some e)))
  | .execlp, s => some ((), s)
  | .exit _, s => some ((), s.setTable t .empty)

/-! ## The programs -/

/-- Programs of the parties. -/
abbrev Proc := Prog Syscall Syscall.Res

/-- A system call, as a program. -/
def call (o : Syscall) : Proc o.Res := Prog.call o

/-- `STDIN_FILENO`. -/
def stdinFileno : ℕ := 0

/-- `STDOUT_FILENO`. -/
def stdoutFileno : ℕ := 1

/-- `HASH_LEN`. -/
def hashLen : ℕ := 64

/-- `generateHash` in the parent, for the string `concatd`; `none` is `NULL`. -/
def generateHash (concatd : Bytes) : Proc (Option Bytes) := do
  let fd1 : FdPair ← call .pipe
  let fd2 : FdPair ← call .pipe
  let _pid : Int ← call (.fork fd1 fd2)
  let closed : Int ← call (.close fd2.pipeRead)
  if closed = -1 then return none
  else
    let closed : Int ← call (.close fd1.pipeWrite)
    if closed = -1 then return none
    else
      let written : Int ← call (.write fd2.pipeWrite concatd)
      if written ≠ concatd.length then return none
      else
        let closed : Int ← call (.close fd2.pipeWrite)
        if closed = -1 then return none
        else
          let hash : Option Bytes ← call (.read fd1.pipeRead hashLen)
          match hash with
          | none => return none
          | some hash =>
              if hash.length ≠ hashLen then return none
              else
                let closed : Int ← call (.close fd1.pipeRead)
                if closed = -1 then return none else return some hash

/-- Where a party is between two programs. -/
inductive Ctl
  /-- An office, before its call of `generateHash` with this number. -/
  | generateHash (number : ℕ)
  /-- A child, before it is forked. -/
  | unborn
  /-- A child that runs `sha256sum` and has read `input`. -/
  | sha256sum (input : Bytes)
  | ended
  deriving DecidableEq

/-- The end of a process. -/
def exit (status : ℕ) : Proc Ctl := do
  call (.exit status)
  return .ended

/-- The branch of `generateHash` that the child takes. -/
def coprocess : Proc Ctl := do
  let (fd1, fd2) : FdPair × FdPair ← call .forked
  let closed : Int ← call (.close fd1.pipeRead)
  if closed = -1 then exit 1
  else
    let closed : Int ← call (.close fd2.pipeWrite)
    if closed = -1 then exit 1
    else
      let duplicated : Int ← call (.dup2 fd1.pipeWrite stdoutFileno)
      if duplicated = -1 then exit 1
      else
        let duplicated : Int ← call (.dup2 fd2.pipeRead stdinFileno)
        if duplicated = -1 then exit 1
        else
          call .execlp
          return .sha256sum []

/-- The next read of `sha256sum`, which prints the digest when there is no more to read. -/
def sha256sum (digest : Bytes → Bytes) (input : Bytes) : Proc Ctl := do
  let bytes : Option Bytes ← call (.read stdinFileno 32768)
  match bytes with
  | none => exit 1
  | some [] =>
      let _written : Int ← call (.write stdoutFileno (digest input))
      exit 0
  | some bytes => return .sha256sum (input ++ bytes)

/-- The programs of an office, which calls `generateHash` again and again, with the strings that
`concatd` lists. -/
def officeBody (concatd : ℕ → Bytes) : Ctl → Proc Ctl
  | .generateHash number => do
      let _hash ← generateHash (concatd number)
      return .generateHash (number + 1)
  | _ => return .ended

/-- The programs of a child. -/
def childBody (digest : Bytes → Bytes) : Ctl → Proc Ctl
  | .unborn => coprocess
  | .sha256sum input => sha256sum digest input
  | _ => return .ended

/-- Nothing has been hashed yet: no pipe has been made and no child forked, and the standard input
and output of the server are open. -/
structure HashingInit (s : Kernel n) : Prop where
  stdin : s.fds.get stdinFileno = some .file
  stdout : s.fds.get stdoutFileno = some .file
  fds : ∀ fd e, s.fds.get fd = some e → e = .file
  children : s.children = []
  pipes : s.pipes = 0
  buffer : ∀ pipe, s.buffer pipe = []

/-- What the rest of the server does to its descriptors: it opens and closes FIFOs and logs, and leaves
the standard input and output open. -/
inductive OtherFds : Kernel n → Kernel n → Prop
  | opened (s : Kernel n) : OtherFds s { s with fds := s.fds.set s.fds.lowest (some .file) }
  | closed {s : Kernel n} {fd : ℕ} (file : s.fds.get fd = some .file) (stdin : fd ≠ stdinFileno)
      (stdout : fd ≠ stdoutFileno) : OtherFds s { s with fds := s.fds.set fd none }

/-- `n` offices that call `generateHash`, and their children. -/
def hashing (concatd : Fin n → ℕ → Bytes) (digest : Bytes → Bytes) :
    System (Party n) Syscall Syscall.Res (Kernel n) Ctl where
  init := HashingInit
  start
    | .office _ => .generateHash 0
    | .child _ => .unborn
  body
    | .office i => officeBody (concatd i)
    | .child _ => childBody digest
  sem t o s r s' := o.exec t s = some (r, s')
  env := OtherFds
  divert _ _ _ _ _ := False

end Sope.Hashing
