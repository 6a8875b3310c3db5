import Sope.Clients.Processes

/-! # What the calls and the moves change

The effect of each call of the server, of each call of a user and of each move on the parts of the state
of the world, so that nothing later unfolds them. -/

namespace Sope

open Concurrency

variable {P : Type} [DecidableEq P] {n : ℕ} {w w' : Outside P n} {p q : P} {u : UserState}

namespace Outside

/-! ## Changes of one user -/

@[simp] theorem setUser_fds : (w.setUser p u).fds = w.fds := rfl
@[simp] theorem setUser_pipes : (w.setUser p u).pipes = w.pipes := rfl
@[simp] theorem setUser_writable : (w.setUser p u).writable = w.writable := rfl
@[simp] theorem setUser_channel : (w.setUser p u).channel = w.channel := rfl
@[simp] theorem setUser_written : (w.setUser p u).written = w.written := rfl
@[simp] theorem setUser_fifos : (w.setUser p u).fifos = w.fifos := rfl

@[simp] theorem setUser_users_self : (w.setUser p u).users p = u := Function.update_self ..

theorem setUser_users_of_ne (h : q ≠ p) : (w.setUser p u).users q = w.users q :=
  Function.update_of_ne h ..

/-- `settle` changes at most what is in the FIFO. -/
theorem settle_eq : w.settle p = w.setUser p { w.users p with
    content := if (w.users p).reading = .closed ∧ w.isOpen p = false then [] else
      (w.users p).content } := by
  unfold settle
  split
  · rfl
  · exact (congrArg (fun users => { w with users }) (Function.update_eq_self p w.users)).symm

@[simp] theorem settle_fds : (w.settle p).fds = w.fds := by rw [settle_eq]; rfl
@[simp] theorem settle_pipes : (w.settle p).pipes = w.pipes := by rw [settle_eq]; rfl
@[simp] theorem settle_writable : (w.settle p).writable = w.writable := by rw [settle_eq]; rfl
@[simp] theorem settle_channel : (w.settle p).channel = w.channel := by rw [settle_eq]; rfl
@[simp] theorem settle_written : (w.settle p).written = w.written := by rw [settle_eq]; rfl
@[simp] theorem settle_fifos : (w.settle p).fifos = w.fifos := by rw [settle_eq]; rfl

theorem settle_users_of_ne (h : q ≠ p) : (w.settle p).users q = w.users q := by
  rw [settle_eq, setUser_users_of_ne h]

/-- A user is as before, or what was unread in its FIFO is lost, and it does not read it. -/
def Faded (u u' : UserState) : Prop :=
  u' = u ∨ u.reading = .closed ∧ u' = { u with content := [] }

theorem settle_users (q : P) : Faded (w.users q) ((w.settle p).users q) := by
  by_cases hq : q = p
  · subst hq
    rw [settle_eq, setUser_users_self]
    split
    · next h => exact .inr ⟨h.1, rfl⟩
    · exact .inl rfl
  · exact .inl (settle_users_of_ne hq)

/-! ## Closing a descriptor -/

@[simp] theorem closeFd_fds (fd : ℕ) : (w.closeFd fd).fds = w.fds.set fd none := by
  unfold closeFd
  split <;> simp

@[simp] theorem closeFd_pipes (fd : ℕ) : (w.closeFd fd).pipes = w.pipes := by
  unfold closeFd
  split <;> simp

@[simp] theorem closeFd_writable (fd : ℕ) : (w.closeFd fd).writable = w.writable := by
  unfold closeFd
  split <;> simp

@[simp] theorem closeFd_channel (fd : ℕ) : (w.closeFd fd).channel = w.channel := by
  unfold closeFd
  split <;> simp

@[simp] theorem closeFd_written (fd : ℕ) : (w.closeFd fd).written = w.written := by
  unfold closeFd
  split <;> simp

@[simp] theorem closeFd_fifos (fd : ℕ) : (w.closeFd fd).fifos = w.fifos := by
  unfold closeFd
  split <;> simp

theorem closeFd_users (fd : ℕ) (q : P) : Faded (w.users q) ((w.closeFd fd).users q) := by
  unfold closeFd
  split
  · exact settle_users q
  · exact .inl rfl

/-! ## The calls of the server -/

variable [Fintype P] {t : Thread n} {choice : Choice}

/-- Opening a FIFO fails, or opens the FIFO of a user that has it open for reading or is about to. -/
theorem exec_openFifo {path : Bytes} {r : Int} (h : w.exec t choice (.openFifo path) = some (r, w')) :
    r = -1 ∧ w' = w ∧ (∀ p, w.fifos path = some p →
      (w.users p).writable = false ∨ (w.users p).reading = .closed) ∨
    ∃ p, w.fifos path = some p ∧ (w.users p).reading ≠ .closed ∧ r = w.fds.lowest ∧
      w' = { w.setUser p { w.users p with notified := true } with
        fds := w.fds.set w.fds.lowest (some (.userFifo p t)) } := by
  simp only [Outside.exec] at h
  split at h
  · next hnone =>
      cases h
      exact .inl ⟨rfl, rfl, fun p hp => by simp [hnone] at hp⟩
  · next p hp =>
      split at h
      · next hu =>
          cases h
          exact .inr ⟨p, hp, hu.2, rfl, rfl⟩
      · next hu =>
          cases h
          refine .inl ⟨rfl, rfl, fun q hq => ?_⟩
          obtain rfl : p = q := Option.some.inj (hp.symm.trans hq)
          by_cases hw : (w.users p).writable = true
          · exact .inr (not_not.mp fun hr => hu ⟨hw, hr⟩)
          · exact .inl (Bool.eq_false_iff.mpr hw)

/-- Writing goes to a user that reads, into the server's own FIFO, or nowhere. -/
theorem exec_write {fd : Int} {bytes : Bytes} {r : Int}
    (h : w.exec t choice (.write fd bytes) = some (r, w')) :
    (∃ p o, w.descriptor fd = some (.userFifo p o) ∧ (w.users p).reading ≠ .closed ∧
      r = bytes.length ∧
      w' = w.setUser p { w.users p with content := (w.users p).content ++ bytes }) ∨
    (w.descriptor fd = some .serverWrite ∧ r = bytes.length ∧
      w' = { w with channel := w.channel ++ bytes }) ∨
    ((∀ p o, w.descriptor fd ≠ some (.userFifo p o)) ∧ r = -1 ∧ w' = w) := by
  simp only [Outside.exec] at h
  split at h
  · next p o hfd =>
      split at h
      · cases h
      · next hr =>
          cases h
          exact .inl ⟨p, o, hfd, hr, rfl, rfl⟩
  · next hfd =>
      cases h
      exact .inr (.inl ⟨hfd, rfl, rfl⟩)
  · next hfd _ =>
      cases h
      exact .inr (.inr ⟨hfd, rfl, rfl⟩)

/-- Reading from the server's FIFO: nothing has been asked for, the end, or some bytes. -/
theorem exec_read {fd : Int} {m : ℕ} {r : Option Bytes} (hfd : w.descriptor fd = some .serverRead)
    (h : w.exec t choice (.read fd m) = some (r, w')) :
    (m = 0 ∧ r = some [] ∧ w' = w) ∨
    (m ≠ 0 ∧ w.channel = [] ∧ w.hasWriter = false ∧ r = some [] ∧ w' = w) ∨
    (m ≠ 0 ∧ w.channel ≠ [] ∧ r = some (w.channel.take m) ∧
      w' = { w with channel := w.channel.drop m }) := by
  simp only [Outside.exec, hfd] at h
  split_ifs at h with hm hchannel hwriter
  · cases h
    exact .inl ⟨hm, rfl, rfl⟩
  · cases h
    exact .inr (.inl ⟨hm, hchannel, Bool.eq_false_iff.mpr hwriter, rfl, rfl⟩)
  · cases h
    exact .inr (.inr ⟨hm, hchannel, rfl, rfl⟩)

/-- Closing a descriptor, if the number is not -1. -/
theorem exec_close {fd : Int} {r : Unit} (h : w.exec t choice (.close fd) = some (r, w')) :
    w' = if 0 ≤ fd then w.closeFd fd.toNat else w := by
  cases h
  rfl

/-- `fchmod` takes the right to open a user's FIFO, or the server's, or it does nothing. -/
theorem exec_fchmod {fd : Int} {r : Unit} (h : w.exec t choice (.fchmod fd) = some (r, w')) :
    (∃ p o, w.descriptor fd = some (.userFifo p o) ∧
      w' = w.setUser p { w.users p with writable := false }) ∨
    ((w.descriptor fd = some .serverRead ∨ w.descriptor fd = some .serverWrite) ∧
      w' = { w with writable := false }) ∨
    (w.descriptor fd ≠ some .serverWrite ∧ w' = w) := by
  simp only [Outside.exec] at h
  split at h
  · next p o hfd =>
      cases h
      exact .inl ⟨p, o, hfd, rfl⟩
  · next hfd =>
      cases h
      exact .inr (.inl ⟨.inl hfd, rfl⟩)
  · next hfd =>
      cases h
      exact .inr (.inl ⟨.inr hfd, rfl⟩)
  · next _ hfd =>
      cases h
      exact .inr (.inr ⟨hfd, rfl⟩)

/-- The descriptors change only when one is opened or closed. -/
theorem exec_fds {call : SysCall} {r : call.Res} (h : w.exec t choice call = some (r, w'))
    (hopen : ∀ path, call ≠ .openFifo path) (hclose : ∀ fd, call ≠ .close fd) :
    w'.fds = w.fds ∧ w'.pipes = w.pipes := by
  cases call with
  | openFifo path => exact absurd rfl (hopen path)
  | close fd => exact absurd rfl (hclose fd)
  | write fd bytes =>
      rcases exec_write h with ⟨p, o, -, -, -, rfl⟩ | ⟨-, -, rfl⟩ | ⟨-, -, rfl⟩ <;> exact ⟨rfl, rfl⟩
  | fchmod fd =>
      rcases exec_fchmod h with ⟨p, o, -, rfl⟩ | ⟨-, rfl⟩ | ⟨-, rfl⟩ <;> exact ⟨rfl, rfl⟩
  | read fd m =>
      simp only [Outside.exec] at h
      split at h <;> try split_ifs at h
      all_goals cases h; exact ⟨rfl, rfl⟩
  | newRequest =>
      simp only [Outside.exec] at h
      split at h <;> cases h
      exact ⟨rfl, rfl⟩
  | _ =>
      cases h
      exact ⟨rfl, rfl⟩

/-- The mode of the server's FIFO changes by `fchmod` only. -/
theorem exec_writable {call : SysCall} {r : call.Res} (h : w.exec t choice call = some (r, w'))
    (hfchmod : ∀ fd, call ≠ .fchmod fd) : w'.writable = w.writable := by
  cases call with
  | fchmod fd => exact absurd rfl (hfchmod fd)
  | openFifo path => rcases exec_openFifo h with ⟨-, rfl, -⟩ | ⟨p, -, -, -, rfl⟩ <;> rfl
  | write fd bytes =>
      rcases exec_write h with ⟨p, o, -, -, -, rfl⟩ | ⟨-, -, rfl⟩ | ⟨-, -, rfl⟩ <;> rfl
  | close fd =>
      obtain rfl := exec_close h
      split
      · exact closeFd_writable _
      · rfl
  | read fd m =>
      simp only [Outside.exec] at h
      split at h <;> try split_ifs at h
      all_goals cases h; rfl
  | newRequest =>
      simp only [Outside.exec] at h
      split at h <;> cases h
      rfl
  | _ => cases h; rfl

/-- What is in the server's FIFO changes when it is read or written. -/
theorem exec_channel {call : SysCall} {r : call.Res} (h : w.exec t choice call = some (r, w'))
    (hread : ∀ fd m, call ≠ .read fd m)
    (hwrite : ∀ fd bytes, call = .write fd bytes → w.descriptor fd ≠ some .serverWrite) :
    w'.channel = w.channel := by
  cases call with
  | read fd m => exact absurd rfl (hread fd m)
  | openFifo path => rcases exec_openFifo h with ⟨-, rfl, -⟩ | ⟨p, -, -, -, rfl⟩ <;> rfl
  | write fd bytes =>
      rcases exec_write h with ⟨p, o, -, -, -, rfl⟩ | ⟨hfd, -⟩ | ⟨-, -, rfl⟩
      · rfl
      · exact absurd hfd (hwrite fd bytes rfl)
      · rfl
  | close fd =>
      obtain rfl := exec_close h
      split
      · exact closeFd_channel _
      · rfl
  | fchmod fd => rcases exec_fchmod h with ⟨p, o, -, rfl⟩ | ⟨-, rfl⟩ | ⟨-, rfl⟩ <;> rfl
  | newRequest =>
      simp only [Outside.exec] at h
      split at h <;> cases h
      rfl
  | _ => cases h; rfl

end Outside

/-! ## The calls of a user -/

/-- A call of a user leaves the server's side alone, and the other users. -/
theorem UserCall.exec_frame {c : UserCall} {r : c.Res} (h : c.exec p w = some (r, w')) :
    w'.fds = w.fds ∧ w'.pipes = w.pipes ∧ w'.writable = w.writable ∧
      ∀ q, q ≠ p → w'.users q = w.users q := by
  have same : w.fds = w.fds ∧ w.pipes = w.pipes ∧ w.writable = w.writable ∧
      ∀ q, q ≠ p → w.users q = w.users q := ⟨rfl, rfl, rfl, fun _ _ => rfl⟩
  -- a call that changes its own user only
  have one : ∀ u, (w.setUser p u).fds = w.fds ∧ (w.setUser p u).pipes = w.pipes ∧
      (w.setUser p u).writable = w.writable ∧ ∀ q, q ≠ p → (w.setUser p u).users q = w.users q :=
    fun _ => ⟨rfl, rfl, rfl, fun _ hq => Outside.setUser_users_of_ne hq⟩
  cases c with
  | mkfifo path =>
      simp only [UserCall.exec] at h
      split at h <;> cases h <;> exact same
  | openServerFifo | openUserFifo =>
      simp only [UserCall.exec] at h
      split at h <;> cases h
      · exact one _
      · exact same
  | writeRequest request =>
      simp only [UserCall.exec] at h
      split_ifs at h <;> cases h <;> exact same
  | closeServerFifo | alarm => cases h; exact one _
  | userFifoOpened =>
      simp only [UserCall.exec] at h
      split at h <;> cases h
      exact one _
  | read m =>
      simp only [UserCall.exec] at h
      split_ifs at h <;> cases h
      · exact same
      · exact same
      · exact same
      · exact one _
  | closeUserFifo =>
      cases h
      refine ⟨by simp, by simp, by simp, fun q hq => ?_⟩
      rw [Outside.settle_users_of_ne hq, Outside.setUser_users_of_ne hq]
  | unlink path => cases h; exact same
  | exit status => cases h

/-! ## The moves -/

namespace Outside

variable {C : Clientele P} {m : Move P}

@[simp] theorem endUser_fds : (w.endUser p).fds = w.fds := by simp [endUser]
@[simp] theorem endUser_pipes : (w.endUser p).pipes = w.pipes := by simp [endUser]
@[simp] theorem endUser_writable : (w.endUser p).writable = w.writable := by simp [endUser]
@[simp] theorem endUser_channel : (w.endUser p).channel = w.channel := by simp [endUser]
@[simp] theorem endUser_written : (w.endUser p).written = w.written := by simp [endUser]
@[simp] theorem endUser_fifos : (w.endUser p).fifos = w.fifos := by simp [endUser]

theorem endUser_users_of_ne (h : q ≠ p) : (w.endUser p).users q = w.users q := by
  rw [endUser, settle_users_of_ne h, setUser_users_of_ne h]

theorem endUser_users_self : Faded (w.users p).ended ((w.endUser p).users p) := by
  have h := settle_users (w := w.setUser p (w.users p).ended) (p := p) p
  rwa [setUser_users_self] at h

/-- Something happens to a number that `generateHash` has opened for a pipe, whatever the number stands
for now. -/
inductive PipeMoved (w : Outside P n) : Outside P n → Prop
  | opened : PipeMoved w { w with
      fds := w.fds.set w.fds.lowest (some .pipe), pipes := w.fds.lowest :: w.pipes }
  | wroteFifo {fd : ℕ} {p : P} {o : Thread n} {bytes : Bytes} (mem : fd ∈ w.pipes)
      (get : w.fds.get fd = some (.userFifo p o)) (reading : (w.users p).reading ≠ .closed) :
      PipeMoved w (w.setUser p { w.users p with content := (w.users p).content ++ bytes })
  | wroteServer {fd : ℕ} {bytes : Bytes} (mem : fd ∈ w.pipes)
      (get : w.fds.get fd = some .serverWrite) :
      PipeMoved w { w with channel := w.channel ++ bytes }
  | wrote {fd : ℕ} (mem : fd ∈ w.pipes) : PipeMoved w w
  | closed {fd : ℕ} (mem : fd ∈ w.pipes) :
      PipeMoved w (({ w with pipes := w.pipes.erase fd } : Outside P n).closeFd fd)

/-- A user makes its next call, it ends, or it is interrupted; or something happens to a pipe. -/
inductive Moved (C : Clientele P) (w : Outside P n) : Outside P n → Prop
  | step {p : P} {c : UserCall} {k : c.Res → User Unit} {r : c.Res} {w₁ : Outside P n}
      (prog : (w.users p).prog = .op c k) (exec : c.exec p w = some (r, w₁)) :
      Moved C w (w₁.setUser p { w₁.users p with prog := k r })
  | ended {p : P} : Moved C w (w.endUser p)
  | alarm {p : P} :
      Moved C w (w.setUser p { w.users p with
        prog := sigAlarmHandler (getUserFifoPath (C.pid p)), running := false, alarmed := false })
  | pipe {w' : Outside P n} (h : PipeMoved w w') : Moved C w w'

/-- All that a move can do. -/
theorem moved_of_move (h : w.move C m = some w') : Moved C w w' := by
  cases m with
  | step p =>
      simp only [move] at h
      split at h
      · cases h
      · next c k hp =>
          obtain ⟨⟨r, w₁⟩, hexec, rfl⟩ := Option.map_eq_some_iff.mp h
          exact .step hp hexec
  | finish p =>
      simp only [move] at h
      split at h <;> cases h
      · exact .ended
      · exact .ended
  | alarm p =>
      simp only [move] at h
      split at h
      · cases h
        exact .alarm
      · cases h
  | kill p => cases h; exact .ended
  | openPipe => cases h; exact .pipe .opened
  | writePipe fd bytes =>
      simp only [move] at h
      split at h
      · next hmem =>
          split at h
          · next p o hget =>
              split at h
              · cases h
              · next hr =>
                  cases h
                  exact .pipe (.wroteFifo hmem hget hr)
          · next hget =>
              cases h
              exact .pipe (.wroteServer hmem hget)
          · cases h
            exact .pipe (.wrote hmem)
      · cases h
  | closePipe fd =>
      simp only [move] at h
      split at h
      · next hmem =>
          cases h
          exact .pipe (.closed hmem)
      · cases h

end Outside

end Sope
