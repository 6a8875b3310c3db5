import Sope.Concurrency.Passage
import Sope.Forensic.Scanning

/-! # Which calls the programs make

For the parts of `scanfile` and for the handlers, the calls that they consist of. Each lemma is about any
property of calls, so that whoever knows it of these calls has it for the whole part. -/

namespace Sope.Forensic

open Concurrency

/-- The calls around the `popen` of `getFileType` and `getCheckSum`. -/
def Call.fetches : Call → Bool
  | .malloc | .overflow | .crash | .printf _ | .fread .. | .fgets .. | .fclose _ => true
  | _ => false

/-- The calls of `scanfile` from the opening of the file on. -/
def Call.analyses : Call → Bool
  | .fopen _ | .perror _ | .stat _ | .popen _ | .write .. | .dup2 .. | .close _ | .addLog .. => true
  | o => o.fetches

/-- The calls of the handlers of `SIGUSR1` and `SIGUSR2`. -/
def Call.handles : Call → Bool
  | .count _ | .counters | .printf _ | .addLog .. | .sigreturn _ => true
  | _ => false

variable {P : Call → Prop} {localtime : ℤ → Tm} {args : ForensicArgs} {path : Bytes}

/-! ## One file -/

/-- What is written within an array or outside of it. -/
theorem calls_within {b : Prop} [Decidable b] (hoverflow : P .overflow) (hcrash : P .crash) :
    (within b).Calls P :=
  ForkProg.Calls.ite (fun _ => trivial) fun _ => ⟨hoverflow, fun (_ : Bool) =>
    ForkProg.Calls.ite (fun _ => trivial) fun _ => ⟨hcrash, fun _ => trivial⟩⟩

theorem calls_logged {type : LogType} {act : Bytes} (h : P (.addLog type act)) (hoverflow : P .overflow)
    (hcrash : P .crash) : (logged args type act).Calls P := by
  refine ForkProg.Calls.ite (fun _ => ⟨h, fun (stamp : Option Stamp) => ?_⟩) fun _ => trivial
  cases stamp with
  | none => trivial
  | some stamp => exact calls_within hoverflow hcrash

/-- The line for something short fits. -/
theorem length_logLine_lt {stamp : Stamp} {type : LogType} {act : Bytes} (hact : act.length ≤ 900) :
    (logLine stamp type act).length < maxChar := by
  have hname : type.name.length ≤ 8 := by cases type <;> decide
  have hshort := stamp.short
  simp only [logLine, List.length_append, List.length_cons, List.length_nil, maxChar]
  omega

theorem calls_logged_short {type : LogType} {act : Bytes} (hact : act.length ≤ 900) (h : P (.addLog type act)) :
    (logged args type act).Calls P := by
  refine ForkProg.Calls.ite (fun _ => ⟨h, fun (stamp : Option Stamp) => ?_⟩) fun _ => trivial
  cases stamp with
  | none => trivial
  | some stamp =>
      change ForkProg.Calls P (within _)
      rw [within_of (length_logLine_lt hact)]
      trivial

theorem calls_signalled {sig : Signal} (h : P (.kill sig)) : (signalled args sig).Calls P :=
  ForkProg.Calls.ite (fun _ => ⟨h, fun _ => trivial⟩) fun _ => trivial

theorem calls_getFileType (h : ∀ o, o.fetches = true → P o) (hpopen : P (.popen (fileCommand path))) :
    (getFileType path).Calls P := by
  refine ⟨h _ rfl, fun memory => (calls_within (h _ rfl) (h _ rfl)).bind fun _ => ?_⟩
  refine ⟨hpopen, fun (stream : Option ℕ) => ?_⟩
  cases stream with
  | none => exact ⟨h _ rfl, fun _ => trivial⟩
  | some stream => exact ⟨h _ rfl, fun _ => ⟨h _ rfl, fun _ => ⟨h _ rfl, fun _ => trivial⟩⟩⟩

theorem calls_getCheckSum {type : FileSumType} (h : ∀ o, o.fetches = true → P o)
    (hpopen : P (.popen (sumCommand type path))) : (getCheckSum path type).Calls P := by
  refine ⟨h _ rfl, fun memory => (calls_within (h _ rfl) (h _ rfl)).bind fun _ => ?_⟩
  refine ⟨hpopen, fun (stream : Option ℕ) => ?_⟩
  cases stream with
  | none => exact ⟨h _ rfl, fun _ => trivial⟩
  | some stream =>
      exact ⟨h _ rfl, fun _ => (calls_within (h _ rfl) (h _ rfl)).bind fun _ => ⟨h _ rfl, fun _ => trivial⟩⟩

theorem calls_restoreStdout (h : ∀ fd fd', P (.dup2 fd fd')) (h' : ∀ fd, P (.close fd)) (saved : Option ℕ) :
    (restoreStdout args saved).Calls P :=
  ForkProg.Calls.ite (fun _ => ⟨h _ _, fun _ => ⟨h' _, fun _ => trivial⟩⟩) fun _ => trivial

section

variable (h : ∀ o, o.analyses = true → P o)
include h

/-- What is asked for of a command's output. -/
theorem fetches_of_analyses : ∀ o, o.fetches = true → P o := by
  intro o ho
  cases o with
  | malloc | overflow | crash | printf | fread | fgets | fclose => exact h _ rfl
  | _ => cases ho

theorem calls_appendCheckSum {requested : Bool} {type : FileSumType} {info : Bytes} :
    (appendCheckSum path requested type info).Calls P := by
  unfold appendCheckSum
  refine ForkProg.Calls.ite (fun _ => ?_) fun _ => trivial
  refine (calls_getCheckSum (fetches_of_analyses h) (h _ rfl)).bind fun checkSum => ?_
  cases checkSum with
  | none => exact ⟨h _ rfl, fun _ => trivial⟩
  | some checkSum => exact (calls_within (h _ rfl) (h _ rfl)).bind fun _ => trivial

/-- `scanfile` from the opening of the file on. -/
theorem calls_analyse {saved : Option ℕ} : (analyse localtime args path saved).Calls P := by
  refine ⟨h _ rfl, fun (file : Option ℕ) => ?_⟩
  cases file with
  | none => exact ⟨h _ rfl, fun _ => trivial⟩
  | some file =>
      refine ⟨h _ rfl, fun st => ?_⟩
      refine (calls_getFileType (fetches_of_analyses h) (h _ rfl)).bind fun fileType => ?_
      refine (calls_within (h _ rfl) (h _ rfl)).bind fun _ => ?_
      refine (calls_appendCheckSum h).bind fun info₁ => (calls_appendCheckSum h).bind fun info₂ => ?_
      refine (calls_appendCheckSum h).bind fun info₃ => (calls_within (h _ rfl) (h _ rfl)).bind fun _ => ?_
      refine ⟨h _ rfl, fun _ => ?_⟩
      refine (calls_restoreStdout (fun _ _ => h _ rfl) (fun _ => h _ rfl) saved).bind fun _ => ?_
      exact (calls_logged (h _ rfl) (h _ rfl) (h _ rfl)).bind fun _ => trivial

end

/-! ## Handlers -/

theorem calls_handler {sig : Signal} (h : ∀ o, o.handles = true → P o)
    (hint : sig = .int → P .setReceivedSigInt) : (handler args sig).Calls P := by
  have husr : ∀ message name, name.length ≤ 900 → (sigUsrHandler args sig message name).Calls P := by
    intro message name hname
    refine ⟨h _ rfl, fun _ => ⟨h _ rfl, fun counters => ⟨h _ rfl, fun _ => ?_⟩⟩⟩
    exact (calls_logged_short hname (h _ rfl)).bind fun _ => ⟨h _ rfl, fun _ => trivial⟩
  cases sig with
  | int => exact ⟨hint rfl, fun _ => ⟨h _ rfl, fun _ => trivial⟩⟩
  | usr1 => exact husr _ _ (by decide)
  | usr2 => exact husr _ _ (by decide)

/-- The handlers of `SIGUSR1` and `SIGUSR2` make no other calls. -/
theorem calls_handler_of_ne_int {sig : Signal} (hsig : sig ≠ .int) :
    (handler args sig).Calls fun o => o.handles = true :=
  calls_handler (fun _ h => h) fun h => (hsig h).elim

end Sope.Forensic
