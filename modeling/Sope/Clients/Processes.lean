import Mathlib.Logic.Relation
import Sope.Bank.Server
import Sope.Clients.FifoNames
import Sope.Concurrency.FdTable

/-! # The user processes and their FIFOs

The world in which the server runs: any number of user processes, the server's FIFO, and the FIFO of
each user. The users run the program of `user.c`, one system call at a time, in any order with each
other and with the threads of the server; each of them may be interrupted by its alarm or killed at any
moment.

* `User`, `userMain` — the program of a user, without what it prints and logs. `open(path, O_RDONLY)` is
  two calls: it begins, and it returns when a writer has opened the FIFO.
* `Outside` — the state of the world. The name of a FIFO can be removed while processes have it open,
  and what is unread is lost when it is open nowhere.
* `Outside.exec`, `Outside.kills`, `Outside.move` — the calls of the server, and what the users do. A
  new descriptor of the server is the lowest free one.
* `clients` — the world, `bank` — the server in it. Unassigned memory may hold anything, and
  `generateHash` may return anything or fail. Its pipes are opened, written and closed by themselves, in
  any order, since the call itself is one step of the server; the coprocesses are left out.

What becomes of the users after the end of the server's process is left out: its descriptors stay open. -/

namespace Sope

open Concurrency

/-! ## The user program -/

/-- The calls of the user program, but for those that print or log. -/
inductive UserCall
  /-- `mkfifo(path, 0777)`. -/
  | mkfifo (path : Bytes)
  /-- `open(SERVER_FIFO_PATH, O_WRONLY | O_NONBLOCK)`. -/
  | openServerFifo
  /-- `write(serverFifoFD, &request, 8 + request.length)`. -/
  | writeRequest (request : TlvRequest)
  /-- `close(serverFifoFD)`. -/
  | closeServerFifo
  /-- `alarm(seconds)`. -/
  | alarm (seconds : ℕ)
  /-- `open(path, O_RDONLY)` begins; -1 if it fails at once. -/
  | openUserFifo (path : Bytes)
  /-- It returns. -/
  | userFifoOpened
  /-- `read(userFifoFD, _, n)`. -/
  | read (n : ℕ)
  /-- `close(userFifoFD)`. -/
  | closeUserFifo
  /-- `unlink(path)`. -/
  | unlink (path : Bytes)
  /-- `exit(status)`. -/
  | exit (status : ℕ)
  deriving DecidableEq

/-- Their results; `none` is the -1 of `read`. -/
def UserCall.Res : UserCall → Type
  | .mkfifo _ | .openServerFifo | .writeRequest _ | .openUserFifo _ => Int
  | .closeServerFifo | .alarm _ | .userFifoOpened | .closeUserFifo | .unlink _ => Unit
  | .read _ => Option Bytes
  | .exit _ => Empty

/-- Programs of a user. -/
abbrev User := Prog UserCall UserCall.Res

namespace User

/-- A call, as a program. -/
def call (c : UserCall) : User c.Res := Prog.call c

/-- `exit`. -/
def exit {α : Type} (status : ℕ) : User α := .op (UserCall.exit status) fun r : Empty => nomatch r

end User

/-- `FIFO_TIMEOUT_SECS`. -/
def fifoTimeoutSecs : ℕ := 30

/-- `makeUserFifo`. -/
def makeUserFifo (pid : UInt32) : User Bytes := do
  let userFifoPath := getUserFifoPath pid
  let made : Int ← User.call (.mkfifo userFifoPath)
  if made = -1 then User.exit 1 else return userFifoPath

/-- `deleteUserFifo`. -/
def deleteUserFifo (userFifoPath : Bytes) : User Unit := User.call (.unlink userFifoPath)

/-- `close(serverFifoFD)`. -/
def closeServerFifo : User Unit := User.call .closeServerFifo

/-- `sendRequest`. -/
def sendRequest (request : TlvRequest) (userFifoPath : Bytes) : User Unit := do
  let serverFifoFD : Int ← User.call .openServerFifo
  if serverFifoFD = -1 then
    deleteUserFifo userFifoPath
    User.exit 0
  else
    let written : Int ← User.call (.writeRequest request)
    if written = -1 then User.exit 1 else closeServerFifo

/-- The memory of a reply that `newReply` has initialised. -/
def newReply : Bytes :=
  encodeWord 0xFFFFFFFF ++ encodeWord 0xFFFFFFFF ++ encodeWord 0xFFFFFFFF ++
    encodeWord RetCode.other.toWord ++ encodeWord 0

/-- `awaitReply`, which returns the memory of the reply. -/
def awaitReply (request : TlvRequest) (userFifoPath : Bytes) : User Bytes := do
  User.call (.alarm fifoTimeoutSecs)
  let userFifoFD : Int ← User.call (.openUserFifo userFifoPath)
  if userFifoFD = -1 then return encodeReply (makeErrorReply .usrDown request)
  else
    User.call .userFifoOpened
    let bytes : Option Bytes ← User.call (.read sizeofTypeLength)
    match bytes with
    | none => User.exit 1
    | some bytes =>
        let reply := overlay newReply 0 bytes
        let bytes : Option Bytes ← User.call (.read (decodeWord reply 4).toNat)
        match bytes with
        | none => User.exit 1
        | some bytes =>
            User.call (.alarm 0)
            User.call .closeUserFifo
            return overlay reply sizeofTypeLength bytes

/-- `main` of `user.c`, in the process `pid`. -/
def userMain (argv : List Bytes) (pid : UInt32) (locals : Locals) : User Unit :=
  match (processUserArgs argv).bind fun args => createRequest args pid locals with
  | none => User.exit 1
  | some request => do
      let userFifoPath ← makeUserFifo pid
      sendRequest request userFifoPath
      let _reply ← awaitReply request userFifoPath
      deleteUserFifo userFifoPath

/-- `sigAlarmHandler`. -/
def sigAlarmHandler (userFifoPath : Bytes) : User Unit := do
  deleteUserFifo userFifoPath
  User.exit 0

/-! ## The state of the world -/

/-- How far a user has come with opening its FIFO for reading. -/
inductive Reading
  | closed
  /-- `open` has begun and not returned. -/
  | waiting
  | opened
  deriving DecidableEq

/-- A user process and its FIFO. -/
structure UserState where
  /-- What it has still to do. -/
  prog : User Unit
  /-- It has not been interrupted by its alarm, and it has not ended. -/
  running : Bool
  /-- Its alarm has been set. -/
  alarmed : Bool
  /-- It has the server's FIFO open for writing. -/
  sending : Bool
  /-- Whether it has its own FIFO open for reading. -/
  reading : Reading
  /-- A writer has opened its FIFO since it has begun to open it for reading. -/
  notified : Bool
  /-- The mode of its FIFO allows to open it for writing. -/
  writable : Bool
  /-- What is in its FIFO. -/
  content : Bytes
  /-- What it has read from its FIFO. -/
  received : Bytes

/-- The process after its end. -/
def UserState.ended (u : UserState) : UserState :=
  { u with prog := .ret (), running := false, alarmed := false, sending := false, reading := .closed }

/-- The users: their process numbers, which are different, their arguments, and their memory. -/
structure Clientele (P : Type) where
  pid : P → UInt32
  pid_injective : Function.Injective pid
  argv : P → List Bytes
  locals : P → Locals

/-- What a descriptor of the server stands for. -/
inductive Descriptor (P : Type) (n : ℕ)
  | serverRead
  | serverWrite
  /-- The FIFO of a user, open for writing; with the thread that has opened it. -/
  | userFifo (p : P) (opener : Thread n)
  /-- An end of a pipe that `generateHash` has opened. -/
  | pipe
  /-- A file that stays open: a standard stream, or the log. -/
  | file
  deriving DecidableEq

/-- The state of the world. -/
structure Outside (P : Type) (n : ℕ) where
  /-- The descriptors of the server. -/
  fds : FdTable (Descriptor P n)
  /-- The numbers of the pipes that calls of `generateHash` have opened and not closed. -/
  pipes : List ℕ
  /-- The mode of the server's FIFO allows to open it for writing. -/
  writable : Bool
  /-- What is in the server's FIFO. -/
  channel : Bytes
  /-- The requests that have been written into it, oldest first. -/
  written : List TlvRequest
  /-- The FIFOs of the users, by their names. -/
  fifos : Bytes → Option P
  users : P → UserState

variable {P : Type} [DecidableEq P] {n : ℕ}

namespace Outside

/-- What a descriptor stands for. -/
def descriptor (w : Outside P n) (fd : Int) : Option (Descriptor P n) :=
  if 0 ≤ fd then w.fds.get fd.toNat else none

/-- The state after a change of a user. -/
def setUser (w : Outside P n) (p : P) (u : UserState) : Outside P n :=
  { w with users := Function.update w.users p u }

/-- The server has the FIFO of a user open. -/
def isOpen (w : Outside P n) (p : P) : Bool :=
  (List.range w.fds.size).any fun fd =>
    match w.fds.get fd with
    | some (.userFifo q _) => q = p
    | _ => false

/-- What is unread in a FIFO is lost if it is open nowhere. -/
def settle (w : Outside P n) (p : P) : Outside P n :=
  if (w.users p).reading = .closed ∧ w.isOpen p = false then
    w.setUser p { w.users p with content := [] }
  else w

/-- The state after a descriptor of the server has been closed, whatever it stands for. -/
def closeFd (w : Outside P n) (fd : ℕ) : Outside P n :=
  match w.fds.get fd with
  | some (.userFifo p _) => ({ w with fds := w.fds.set fd none } : Outside P n).settle p
  | _ => { w with fds := w.fds.set fd none }

/-- Some process has the server's FIFO open for writing. -/
def hasWriter [Fintype P] (w : Outside P n) : Bool :=
  w.fds.holds .serverWrite || decide (∃ p, (w.users p).sending = true)

end Outside

/-! ## The calls of the server -/

/-- What a call of the server may choose: the content of unassigned memory and of a salt, and the
result of `generateHash`. -/
structure Choice where
  bytes : Bytes
  reply : TlvReply
  hash : Option Bytes

/-- `sizeof(tlv_request_t)`. -/
def sizeofTlvRequest : ℕ := 70

/-- The result and the effect of a call of the server; `none` if it does not return now. -/
def Outside.exec [Fintype P] (t : Thread n) (choice : Choice) (w : Outside P n) :
    (c : SysCall) → Option (c.Res × Outside P n)
  | .generateSalt => some (choice.bytes, w)
  | .generateHash .. => some (choice.hash, w)
  | .newRequest => if choice.bytes.length = sizeofTlvRequest then some (choice.bytes, w) else none
  | .unassignedReply => some (choice.reply, w)
  | .usleep _ | .logReply _ => some ((), w)
  | .openFifo path =>
      match w.fifos path with
      | none => some ((-1 : Int), w)
      | some p =>
          let u := w.users p
          if u.writable = true ∧ u.reading ≠ .closed then
            some ((w.fds.lowest : Int), { w.setUser p { u with notified := true } with
              fds := w.fds.set w.fds.lowest (some (.userFifo p t)) })
          else some ((-1 : Int), w)
  | .write fd bytes =>
      match w.descriptor fd with
      | some (.userFifo p _) =>
          let u := w.users p
          -- without a reader, the server is sent SIGPIPE
          if u.reading = .closed then none
          else some ((bytes.length : Int), w.setUser p { u with content := u.content ++ bytes })
      | some .serverWrite => some ((bytes.length : Int), { w with channel := w.channel ++ bytes })
      | _ => some ((-1 : Int), w)
  | .read fd m =>
      match w.descriptor fd with
      | some .serverRead =>
          if m = 0 then some (some [], w)
          else if w.channel = [] then if w.hasWriter then none else some (some [], w)
          else some (some (w.channel.take m), { w with channel := w.channel.drop m })
      | _ => some (none, w)
  | .close fd => some ((), if 0 ≤ fd then w.closeFd fd.toNat else w)
  | .fchmod fd =>
      match w.descriptor fd with
      | some (.userFifo p _) => some ((), w.setUser p { w.users p with writable := false })
      | some .serverRead | some .serverWrite => some ((), { w with writable := false })
      | _ => some ((), w)

/-- A write into a FIFO that no one has open for reading ends the process. -/
def Outside.kills (w : Outside P n) : SysCall → Option (Outside P n)
  | .write fd _ =>
      match w.descriptor fd with
      | some (.userFifo p _) => if (w.users p).reading = .closed then some w else none
      | _ => none
  | _ => none

/-! ## The steps of the users -/

/-- `PIPE_BUF` or more: how much a FIFO holds. -/
def pipeCapacity : ℕ := 65536

/-- The result and the effect of a call of a user; `none` if it does not return now. -/
def UserCall.exec (p : P) (w : Outside P n) : (c : UserCall) → Option (c.Res × Outside P n)
  | .mkfifo path =>
      match w.fifos path with
      | some _ => some ((-1 : Int), w)
      | none => some ((0 : Int), { w with fifos := Function.update w.fifos path (some p) })
  | .openServerFifo =>
      if w.writable = true ∧ w.fds.holds .serverRead then
        some ((0 : Int), w.setUser p { w.users p with sending := true })
      else some ((-1 : Int), w)
  | .writeRequest request =>
      let bytes := requestBytes request
      if (w.users p).sending = false then some ((-1 : Int), w)
      -- a write of at most `PIPE_BUF` bytes is all or nothing
      else if w.channel.length + bytes.length ≤ pipeCapacity then
        some ((bytes.length : Int),
          { w with channel := w.channel ++ bytes, written := w.written ++ [request] })
      else some ((-1 : Int), w)
  | .closeServerFifo => some ((), w.setUser p { w.users p with sending := false })
  | .alarm seconds => some ((), w.setUser p { w.users p with alarmed := seconds ≠ 0 })
  | .openUserFifo path =>
      if w.fifos path = some p then
        some ((0 : Int), w.setUser p { w.users p with reading := .waiting, notified := false })
      else some ((-1 : Int), w)
  | .userFifoOpened =>
      if (w.users p).notified then some ((), w.setUser p { w.users p with reading := .opened })
      else none
  | .read m =>
      let u := w.users p
      if u.reading ≠ .opened then some (none, w)
      else if m = 0 then some (some [], w)
      else if u.content = [] then if w.isOpen p then none else some (some [], w)
      else some (some (u.content.take m),
        w.setUser p { u with content := u.content.drop m, received := u.received ++ u.content.take m })
  | .closeUserFifo => some ((), (w.setUser p { w.users p with reading := .closed }).settle p)
  | .unlink path => some ((), { w with fifos := Function.update w.fifos path none })
  | .exit _ => none

/-- What a user may do, or what may happen to it; and what `generateHash` may do with its pipes. -/
inductive Move (P : Type)
  /-- It makes its next call. -/
  | step (p : P)
  /-- It ends: `main` has returned, or it is at `exit`. -/
  | finish (p : P)
  /-- It is interrupted by its alarm. -/
  | alarm (p : P)
  /-- It is killed. -/
  | kill (p : P)
  /-- A pipe is opened. -/
  | openPipe
  /-- A descriptor that was opened for a pipe is written to. -/
  | writePipe (fd : ℕ) (bytes : Bytes)
  /-- It is closed. -/
  | closePipe (fd : ℕ)

/-- A user ends. -/
def Outside.endUser (w : Outside P n) (p : P) : Outside P n :=
  (w.setUser p (w.users p).ended).settle p

/-- What a move does; `none` if it is not possible. -/
def Outside.move (C : Clientele P) (w : Outside P n) : Move P → Option (Outside P n)
  | .step p =>
      match (w.users p).prog with
      | .ret _ => none
      | .op c k => (c.exec p w).map fun (r, w') => w'.setUser p { w'.users p with prog := k r }
  | .finish p =>
      match (w.users p).prog with
      | .ret _ | .op (.exit _) _ => some (w.endUser p)
      | _ => none
  | .alarm p =>
      if (w.users p).alarmed then
        some (w.setUser p { w.users p with
          prog := sigAlarmHandler (getUserFifoPath (C.pid p)), running := false, alarmed := false })
      else none
  | .kill p => some (w.endUser p)
  | .openPipe => some { w with
      fds := w.fds.set w.fds.lowest (some .pipe), pipes := w.fds.lowest :: w.pipes }
  | .writePipe fd bytes =>
      if fd ∈ w.pipes then
        match w.fds.get fd with
        | some (.userFifo p _) =>
            let u := w.users p
            if u.reading = .closed then none
            else some (w.setUser p { u with content := u.content ++ bytes })
        | some .serverWrite => some { w with channel := w.channel ++ bytes }
        | _ => some w
      else none
  | .closePipe fd =>
      if fd ∈ w.pipes then some (({ w with pipes := w.pipes.erase fd } : Outside P n).closeFd fd)
      else none

/-- At first the server's FIFO is empty and open at both ends, with the lowest numbers after those of
`files` other files, and no user has begun to run. -/
def Outside.start (C : Clientele P) (n files : ℕ) : Outside P n where
  fds := ((FdTable.filled files .file).set files (some .serverRead)).set (files + 1)
    (some .serverWrite)
  pipes := []
  writable := true
  channel := []
  written := []
  fifos _ := none
  users p :=
    { prog := userMain (C.argv p) (C.pid p) (C.locals p)
      running := true
      alarmed := false
      sending := false
      reading := .closed
      notified := false
      writable := true
      content := []
      received := [] }

/-- Users move by themselves. -/
def Outside.Moves (C : Clientele P) (w w' : Outside P n) : Prop := ∃ m, w.move C m = some w'

/-- The world of the users. They may have moved before the server begins to read requests. -/
def clients [Fintype P] (C : Clientele P) (n files : ℕ) : World (Thread n) where
  State := Outside P n
  init := Relation.ReflTransGen (Outside.Moves C) (.start C n files)
  call t c w r w' := ∃ choice, w.exec t choice c = some (r, w')
  kills _ c w w' := w.kills c = some w'
  env := Outside.Moves C

/-- The server with `n` offices among these users. -/
abbrev bank [Fintype P] (C : Clientele P) (n files : ℕ) :=
  server n (clients C n files) (files : ℤ) ((files + 1 : ℕ) : ℤ)

end Sope
