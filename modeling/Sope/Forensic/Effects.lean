import Sope.Forensic.Processes

/-! # What a step of a process changes

For each kind of step, the parts of the state that it leaves as they are. -/

namespace Sope.Forensic

open Concurrency

/-! ## Calls -/

/-- The call ends the process. -/
def Call.ends : Call → Bool
  | .exit _ | .crash => true
  | _ => false

/-- The call adds a child, or waits for one, or ends the process. -/
def Call.registers : Call → Bool
  | .popen _ | .wait | .exit _ | .crash => true
  | _ => false

/-- The call sends a signal. -/
def Call.kills : Call → Bool
  | .kill _ => true
  | _ => false

/-- The call reads from the pipe of a command, or starts one. -/
def Call.reads : Call → Bool
  | .popen _ | .fread .. | .fgets .. => true
  | _ => false

/-- The call writes to a descriptor. -/
def Call.writes : Call → Bool
  | .printf _ | .write .. => true
  | _ => false

/-- What a call leaves as it is. -/
structure Leaves (o : Call) (st st' : State) : Prop where
  receivedSigInt : o ≠ .setReceivedSigInt → st'.1.receivedSigInt = st.1.receivedSigInt
  ended : st'.1.ended = o.ends
  errno : o ≠ .wait → st'.1.errno = st.1.errno ∨ st'.1.errno = .other
  due : o.kills = false → st'.1.due = none
  children : o.registers = false → st'.2.children = st.2.children
  unread : o.reads = false → st'.1.unread = st.1.unread
  report : o.writes = false → st'.2.report = st.2.report

section

variable {world : World} {args : ForensicArgs} {entries : Entries} {pid : ℕ} {st st' : State}

/-- A call that changes nothing of all that, `errno` apart. -/
theorem leaves_of_eq {o : Call} (hready : Ready st) (ho : o.ends = false)
    (hsigInt : st'.1.receivedSigInt = st.1.receivedSigInt) (hended : st'.1.ended = st.1.ended)
    (hdue : st'.1.due = st.1.due) (hchildren : st'.2.children = st.2.children)
    (hunread : st'.1.unread = st.1.unread) (hreport : st'.2.report = st.2.report)
    (herrno : st'.1.errno = st.1.errno ∨ st'.1.errno = .other) : Leaves o st st' :=
  ⟨fun _ => hsigInt, (hended.trans hready.1).trans ho.symm, fun _ => herrno, fun _ => hdue.trans hready.2,
    fun _ => hchildren, fun _ => hunread, fun _ => hreport⟩

/-- A call that has failed. -/
theorem leaves_failed {o : Call} (hready : Ready st) (ho : o.ends = false) : Leaves o st st.failed :=
  leaves_of_eq hready ho rfl rfl rfl rfl rfl rfl (.inr rfl)

/-- A call that writes. -/
theorem leaves_written {o : Call} {fd : ℕ} {bytes : Bytes} (hready : Ready st) (ho : o.ends = false)
    (hwrites : o.writes = true) : Leaves o st (st.written fd bytes) := by
  have hnot : ¬ o.writes = false := by simp [hwrites]
  unfold State.written
  split <;>
    exact ⟨fun _ => rfl, hready.1.trans ho.symm, fun _ => .inl rfl, fun _ => hready.2, fun _ => rfl, fun _ => rfl,
      fun h => (hnot h).elim⟩

/-- What each call leaves as it is. -/
theorem sem_leaves {o : Call} {r : o.Res} (h : o.Sem world pid st r st') : Leaves o st st' := by
  -- the call does what it is for, or it fails in one of the ways the manual gives
  obtain ⟨hready, h | h⟩ := h
  · cases o with
    | kill sig =>
        cases h
        exact ⟨fun _ => rfl, hready.1, fun _ => .inl rfl, Bool.noConfusion, fun _ => rfl, fun _ => rfl, fun _ => rfl⟩
    | printf text | write _ text =>
        obtain ⟨-, rfl⟩ := Prod.mk.inj (Option.some.inj h)
        exact leaves_written hready rfl rfl
    | dup fd =>
        rw [perform_dup] at h
        split at h <;> cases h
        · exact leaves_failed hready rfl
        · exact leaves_of_eq hready rfl rfl rfl rfl rfl rfl rfl (.inl rfl)
    | dup2 fd fd' =>
        rw [perform_dup2] at h
        split at h <;> cases h
        · exact leaves_failed hready rfl
        · exact leaves_of_eq hready rfl rfl rfl rfl rfl rfl rfl (.inl rfl)
    | close fd =>
        cases fd <;> cases h
        · exact leaves_failed hready rfl
        · exact leaves_of_eq hready rfl rfl rfl rfl rfl rfl rfl (.inl rfl)
    | popen command =>
        cases h
        exact ⟨fun _ => rfl, hready.1, fun _ => .inl rfl, fun _ => hready.2,
          Bool.noConfusion, Bool.noConfusion, fun _ => rfl⟩
    | fread stream n =>
        cases h
        exact ⟨fun _ => rfl, hready.1, fun _ => .inl rfl, fun _ => hready.2,
          fun _ => rfl, Bool.noConfusion, fun _ => rfl⟩
    | fgets stream n =>
        rw [perform_fgets] at h
        split at h <;> cases h <;>
          exact ⟨fun _ => rfl, hready.1, fun _ => .inl rfl, fun _ => hready.2,
            fun _ => rfl, Bool.noConfusion, fun _ => rfl⟩
    | setReceivedSigInt =>
        cases h
        exact ⟨fun h => (h rfl).elim, hready.1, fun _ => .inl rfl, fun _ => hready.2, fun _ => rfl, fun _ => rfl,
          fun _ => rfl⟩
    | count sig =>
        cases sig <;> cases h <;> exact leaves_of_eq hready rfl rfl rfl rfl rfl rfl rfl (.inl rfl)
    | wait =>
        rw [perform_wait] at h
        split at h
        · cases h
          exact ⟨fun _ => rfl, hready.1, fun _ => .inl rfl, fun _ => hready.2,
            Bool.noConfusion, fun _ => rfl, fun _ => rfl⟩
        · split at h <;> cases h
          exact ⟨fun _ => rfl, hready.1, fun h => (h rfl).elim, fun _ => hready.2, Bool.noConfusion, fun _ => rfl,
            fun _ => rfl⟩
    | exit | crash =>
        cases h
        exact ⟨fun _ => rfl, rfl, fun _ => .inl rfl, fun _ => hready.2, Bool.noConfusion, fun _ => rfl, fun _ => rfl⟩
    | _ =>
        cases h
        exact leaves_of_eq hready rfl rfl rfl rfl rfl rfl rfl (.inl rfl)
  · cases o with
    | dup | openAppend | fopen | popen | opendir =>
        obtain ⟨-, rfl⟩ := h
        exact leaves_failed hready rfl
    | stat | malloc | addLog | overflow =>
        cases h
        exact leaves_of_eq hready rfl rfl rfl rfl rfl rfl rfl (.inl rfl)
    | wait =>
        obtain ⟨i, child, -, -, -, rfl⟩ := h
        exact ⟨fun _ => rfl, hready.1, fun _ => .inl rfl, fun _ => hready.2,
          Bool.noConfusion, fun _ => rfl, fun _ => rfl⟩
    | _ => exact h.elim

/-- `wait`: a child that has exited has been waited for, or there is no child to wait for. -/
theorem sem_wait {r : Option ℕ} (h : Call.Sem world pid .wait st r st') :
    (∃ i child, r = some i ∧ st.2.children[i]? = some child ∧ child.zombie pid = true ∧
      st' = (st.1, { st.2 with children := reap st.2.children i })) ∨
    (r = none ∧ st.2.children.any (Child.unreaped pid) = false ∧
      st' = ({ st.1 with errno := .echild }, st.2)) := by
  obtain ⟨-, h | ⟨i, child, hr, hchild, hzombie, hst'⟩⟩ := h
  · rw [perform_wait] at h
    split at h
    · next i hi =>
        obtain ⟨hlt, hzombie, -⟩ := List.findIdx?_eq_some_iff_getElem.mp hi
        cases h
        exact .inl ⟨i, _, rfl, List.getElem?_eq_getElem hlt, hzombie, rfl⟩
    · split at h
      · cases h
      · next hnone =>
          cases h
          exact .inr ⟨rfl, Bool.not_eq_true _ ▸ hnone, rfl⟩
  · exact .inl ⟨i, child, hr, hchild, hzombie, hst'⟩

/-- `popen`: it has failed, or it has started a shell. -/
theorem popen_children {command : Bytes} {r : Option ℕ}
    (h : Call.Sem world pid (.popen command) st r st') :
    st'.2.children = st.2.children ∨ st'.2.children = st.2.children ++ [⟨pid, none, false, false⟩] := by
  obtain ⟨-, h | ⟨-, rfl⟩⟩ := h
  · cases h
    exact .inr rfl
  · exact .inl rfl

/-- The process ends. -/
theorem ends_children {o : Call} {r : o.Res} (ho : o.ends = true) (h : o.Sem world pid st r st') :
    st'.2.children = (st.exited pid).2.children := by
  obtain ⟨-, h | h⟩ := h
  · cases o with
    | exit | crash =>
        cases h
        rfl
    | _ => nomatch ho
  · cases o with
    | exit | crash => exact h.elim
    | _ => nomatch ho

/-! ## Signals -/

/-- A call that is interrupted has changed `errno` and what is unread at most. -/
theorem interrupted_leaves {o : Call} {r : o.Res} (h : o.Interrupted pid st r st') :
    waits o = true ∧ st'.1.receivedSigInt = st.1.receivedSigInt ∧ st'.1.ended = st.1.ended ∧
      st'.1.errno = .eintr ∧ st'.1.due = st.1.due ∧ st'.2 = st.2 := by
  cases o with
  | wait =>
      obtain ⟨-, -, -, rfl⟩ := h
      exact ⟨rfl, rfl, rfl, rfl, rfl, rfl⟩
  | fread stream n =>
      obtain ⟨m, -, -, rfl⟩ := h
      exact ⟨rfl, rfl, rfl, rfl, rfl, rfl⟩
  | fgets stream n =>
      obtain ⟨-, rfl⟩ := h
      exact ⟨rfl, rfl, rfl, rfl, rfl, rfl⟩
  | _ => exact h.elim

/-- A process that goes on has not ended. -/
theorem not_ended {l : Local} (h : l.ended = false) : ¬ l.ended = true := by simp [h]

/-- A process that has ended does nothing any more. -/
theorem not_acts_of_ended {l : Local} {s : Shared} (h : l.ended = true) :
    ¬ (forensic world args entries).Acts pid (l, s) st' := by
  intro hacts
  cases hacts with
  | exec sem => exact not_ended sem.1.1 h
  | fork fork => exact not_ended fork.1.1 h
  | forkFails fails => exact not_ended fails.1.1 h
  | loop goesOn => exact not_ended goesOn h
  | take take => exact not_ended take.1.1 h
  | interrupt interrupt => exact not_ended interrupt.1.1 h

end

end Sope.Forensic
