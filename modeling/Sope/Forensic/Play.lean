import Sope.Forensic.Processes

/-! # Playing a schedule

Computed steps of the processes of the tool: every call does what it does when it succeeds. The entries of a
schedule for the surroundings are the shells that exit. -/

namespace Sope.Forensic

open Concurrency

/-- What a call that a signal has interrupted returns; a read returns nothing. -/
def Call.interruption (pid : ℕ) : (o : Call) → State → Option (o.Res × State)
  | .wait, st =>
      if st.2.children.any (Child.unreaped pid) = true ∧ st.2.children.any (Child.zombie pid) = false then
        some ((none : Option ℕ), interrupted st)
      else none
  | .fgets .., st => some ((none : Option Bytes), interrupted st)
  | _, _ => none

/-- It may return this. -/
theorem interruption_sound {pid : ℕ} {o : Call} {st st' : State} {r : o.Res}
    (h : o.interruption pid st = some (r, st')) : o.Interrupted pid st r st' := by
  cases o with
  | wait =>
      simp only [Call.interruption] at h
      split at h
      · next hwaits =>
          cases h
          exact ⟨hwaits.1, hwaits.2, rfl, rfl⟩
      · nomatch h
  | fgets stream n =>
      cases h
      exact ⟨rfl, rfl⟩
  | _ => nomatch h

/-- A shell exits. -/
def shellExit (i : ℕ) (s : Shared) : Option Shared :=
  match s.children[i]? with
  | some ⟨_, none, false, _⟩ =>
      some { s with children := s.children.modify i fun child => { child with exited := true } }
  | _ => none

/-- It is one that may exit. -/
theorem shellExit_sound {i : ℕ} {s s' : Shared} (h : shellExit i s = some s') : ShellExits s s' := by
  unfold shellExit at h
  split at h
  · next hchild =>
      cases h
      exact ⟨i, _, hchild, rfl, rfl, rfl⟩
  · nomatch h

/-- The computed steps. -/
def forensicPlayer (world : World) (args : ForensicArgs) (entries : Entries) :
    ForkPlayer (forensic world args entries) ℕ where
  goesOn l := !l.ended
  exec pid o st := if Ready st then o.perform world pid st else none
  fork pid child st := if Ready st then some (forked pid child st) else none
  take pid sig st := if MayTake world pid sig st then some (taken sig st) else none
  interrupt pid sig o st :=
    if Ready st ∧ MayTake world pid sig st then o.interruption pid (taken sig st) else none
  env := shellExit
  goesOn_sound {l} h := by
    change l.ended = false
    simpa using h
  exec_sound h := by
    split at h
    · next hready => exact ⟨hready, .inl h⟩
    · nomatch h
  fork_sound h := by
    split at h
    · next hready => exact ⟨hready, (Option.some.inj h).symm⟩
    · nomatch h
  take_sound h := by
    split at h
    · next hmay => exact ⟨hmay, (Option.some.inj h).symm⟩
    · nomatch h
  interrupt_sound h := by
    split at h
    · next hmay => exact ⟨hmay.1, hmay.2, interruption_sound h⟩
    · nomatch h
  env_sound := shellExit_sound

/-- A directory with a subdirectory `a`, in which there is a file `b`. -/
def oneBelow : Entries := .directory [97] (.file [98] true .nil) .nil

/-- With `-r` and `-o`, the original process waits, and its child begins. -/
def childBegins : List (ForkPick Signal ℕ) :=
  List.replicate 2 (.run 0) ++ [.take 0 .usr1] ++ List.replicate 9 (.run 0)

/-- The child scans the file and ends, and then the original process does. -/
def childEnds : List (ForkPick Signal ℕ) :=
  childBegins ++ List.replicate 20 (.run 1) ++ [.env 1] ++ List.replicate 9 (.run 1) ++
    List.replicate 7 (.run 0)

end Sope.Forensic
