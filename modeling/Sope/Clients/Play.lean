import Sope.Bank.Play
import Sope.Clients.AccountIds
import Sope.Clients.Runs

/-! # Playing the server among its users

The calls and the moves of the world of the users are functions, so runs of the server among them can be
played (`bankPlayer`). Two users who ask to shut the server down (`twoAdmins`), or one who asks for a
balance (`enquirer`), are enough to show what can go wrong. -/

namespace Sope

open Concurrency

variable {P : Type} [DecidableEq P] [Fintype P] {C : Clientele P} {n files : ℕ}

/-- The world of the users, computed, with one choice for all calls. -/
def clientsComputed (C : Clientele P) (n files : ℕ) (choice : Choice) :
    Computed (clients C n files) (Move P) where
  call t c w := Outside.exec t choice w c
  kills _ c w := Outside.kills w c
  move m w := Outside.move C w m
  call_sound h := ⟨choice, h⟩
  kills_sound h := h
  move_sound h := ⟨_, h⟩

/-- The choice in which every hash is the same, and unassigned memory is zero. -/
def plainChoice : Choice := ⟨List.replicate sizeofTlvRequest 0, makeCreateReply 0, some [9]⟩

/-- The server among its users, played. -/
def bankPlayer (C : Clientele P) (n files : ℕ) : Player (bank C n files) (Move P) :=
  worldPlayer (clientsComputed C n files plainChoice) _ _

/-- The configuration in which the server starts among the users: they have not begun to run. -/
def bankStart (C : Clientele P) (n files : ℕ) : BankConfig C n files :=
  startConfig (W := clients C n files) (Outside.start C n files) [9] [7] fun _ => 0

theorem initial_bankStart (C : Clientele P) (n files : ℕ) :
    (bank C n files).Initial (bankStart C n files) :=
  initial_startConfig (W := clients C n files) .refl [9] [7] (fun _ => 0) _ _

/-! ## Two administrators -/

/-- `./user 0 "" 0 3 ""`, a request of the administrator's to shut the server down. -/
def shutdownArgs : List Bytes := [[46, 47, 117, 115, 101, 114], [48], [], [48], [51], []]

/-- Two users who make this request. -/
def twoAdmins : Clientele Bool where
  pid p := if p then 101 else 100
  pid_injective := by decide
  argv _ := shutdownArgs
  locals _ := zeroLocals

/-- The moves with which a user makes its FIFO, sends its request and begins to open its FIFO. -/
def requestMoves (p : P) : List (Pick (Thread n) (Move P)) := List.replicate 6 (.env (.step p))

/-! ## An enquiry -/

/-- A user who asks for the balance of the administrator's account. -/
def enquirer : Clientele Unit where
  pid _ := 100
  pid_injective := by decide
  argv _ := balanceArgs [48]
  locals _ := zeroLocals

/-- The user waits for its reply when the office opens its FIFO, and the request is managed. -/
def answeredEnquiry : List (Pick (Thread 1) (Move Unit)) :=
  requestMoves () ++ List.replicate 11 (.run .main) ++ List.replicate 24 (.run (.office 0))

/-- The user waits for its reply when the office opens its FIFO, and is killed. -/
def killedEnquiry : List (Pick (Thread 1) (Move Unit)) :=
  requestMoves () ++ List.replicate 11 (.run .main) ++ List.replicate 20 (.run (.office 0)) ++
    [.env (.kill ())]

end Sope
