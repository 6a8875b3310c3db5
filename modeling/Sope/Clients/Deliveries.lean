import Sope.Clients.Ownership

/-! # What gets into the FIFO of a user

The bytes that the offices write into the FIFO of a user, and what becomes of them: the user reads them,
they are still in the FIFO, or they have been lost with it.

* `repliesTo` — what the offices have written into the FIFO of a user in a run.
* `UserState.stream` — what a user has read from its FIFO, and what is in it.
* `stream_sublist_of_run` — as long as descriptors belong to those who have opened them, nothing else
  gets into it. -/

namespace Sope

open Concurrency

variable {P : Type} [DecidableEq P] {C : Clientele P} {n files : ℕ} {w w' : Outside P n} {p q : P}

/-! ## Written by the offices -/

/-- What a call writes into the FIFO of a user. -/
def Outside.delivers (w : Outside P n) (p : P) : SysCall → Option Bytes
  | .write fd bytes =>
      match w.descriptor fd with
      | some (.userFifo q _) => if q = p then some bytes else none
      | _ => none
  | _ => none

/-- A write into the FIFO of a user. -/
theorem Outside.delivers_write {fd : Int} {bytes : Bytes} {t : Thread n}
    (h : w.descriptor fd = some (.userFifo q t)) :
    w.delivers p (.write fd bytes) = if q = p then some bytes else none := by
  simp only [delivers, h]

/-- The other calls write nothing. -/
theorem Outside.delivers_of_not_write {call : SysCall} (h : ∀ fd bytes, call ≠ .write fd bytes) :
    w.delivers p call = none := by
  cases call with
  | write fd bytes => exact absurd rfl (h fd bytes)
  | _ => rfl

/-- What an operation writes into it. -/
def repliedTo [Fintype P] (p : P) (e : BankEvent C n files) : Option Bytes :=
  match e.op with
  | .ext (.sys call) => (worldAt e).delivers p call
  | _ => none

/-- What has been written into it, oldest first. -/
def repliesTo [Fintype P] (p : P) (tr : List (BankEvent C n files)) : List Bytes :=
  tr.filterMap (repliedTo p)

@[simp] theorem repliesTo_nil [Fintype P] : repliesTo p ([] : List (BankEvent C n files)) = [] := rfl

/-- One more operation. -/
theorem repliesTo_append [Fintype P] {tr : List (BankEvent C n files)} (e : BankEvent C n files) :
    repliesTo p (tr ++ [e]) = repliesTo p tr ++ (repliedTo p e).toList := by
  rw [repliesTo, List.filterMap_append, List.filterMap_cons, List.filterMap_nil]
  cases repliedTo p e <;> rfl

/-! ## Read by the user, or in its FIFO -/

/-- What a user has read from its FIFO, and what is in it. -/
def UserState.stream (u : UserState) : Bytes := u.received ++ u.content

/-- Losing what is unread. -/
theorem Outside.Faded.stream {u u' : UserState} (h : Faded u u') :
    u'.stream = u.stream ∨ u.reading = .closed ∧ u'.stream = u.received := by
  rcases h with rfl | ⟨hclosed, rfl⟩
  · exact .inl rfl
  · exact .inr ⟨hclosed, List.append_nil _⟩

theorem UserState.stream_sublist_of {u u' : UserState} {P : Prop}
    (h : u'.stream = u.stream ∨ P ∧ u'.stream = u.received) : u'.stream.Sublist u.stream := by
  rcases h with h | ⟨-, h⟩
  · rw [h]
  · rw [h]
    exact List.sublist_append_left ..

/-- A read takes bytes out of the FIFO. -/
theorem UserRead.stream {m : ℕ} {bytes : Bytes} (h : UserRead p w m bytes w') :
    (w'.users p).stream = (w.users p).stream := by
  cases h with
  | nothing | ended => rfl
  | some =>
      rw [Outside.setUser_users_self]
      show ((w.users p).received ++ (w.users p).content.take m) ++ (w.users p).content.drop m = _
      rw [List.append_assoc, List.take_append_drop]
      rfl

/-- A call of a user moves bytes from the FIFO to what it has read; only when it closes its FIFO
something may be lost. -/
theorem UserStep.stream {phase phase' : UserPhase} (h : UserStep C p w phase phase' w') :
    (w'.users p).stream = (w.users p).stream ∨
      (∃ bytes, phase = .got bytes) ∧ (w'.users p).stream = (w.users p).received := by
  cases h with
  | head hreads | got hreads => exact .inl hreads.stream
  | connect | disconnect | alarm | wait | opened =>
      rw [Outside.setUser_users_self]
      exact .inl rfl
  | @leave bytes =>
      have hfaded := Outside.settle_users
        (w := w.setUser p { w.users p with reading := .closed }) (p := p) p
      rw [Outside.setUser_users_self] at hfaded
      rcases hfaded.stream with he | ⟨-, he⟩
      · exact .inl he
      · exact .inr ⟨⟨bytes, rfl⟩, he⟩
  | _ => exact .inl rfl

/-- What happens to pipes, when their numbers stand for pipes. -/
theorem Outside.PipeMoved.faded (h : w.PipeMoved w')
    (hpipes : ∀ fd ∈ w.pipes, w.fds.get fd = some .pipe) (p : P) :
    Faded (w.users p) (w'.users p) := by
  cases h with
  | wroteFifo hmem hget => cases (hpipes _ hmem).symm.trans hget
  | closed => exact closeFd_users _ p
  | _ => exact .inl rfl

/-- A user ends. -/
theorem Outside.endUser_stream (p q : P) :
    ((w.endUser p).users q).stream.Sublist (w.users q).stream := by
  by_cases hq : q = p
  · subst hq
    exact UserState.stream_sublist_of (u := (w.users q).ended) endUser_users_self.stream
  · rw [endUser_users_of_ne hq]

/-- The moves of the users and of the pipes put nothing into the FIFO of a user. -/
theorem PhasesMoved.stream_sublist {phases phases' : P → UserPhase}
    (h : PhasesMoved C w phases w' phases') (hpipes : ∀ fd ∈ w.pipes, w.fds.get fd = some .pipe)
    (q : P) : (w'.users q).stream.Sublist (w.users q).stream := by
  cases h with
  | @step p phase w₁ prog hs =>
      by_cases hq : q = p
      · subst hq
        rw [Outside.setUser_users_self]
        exact UserState.stream_sublist_of hs.stream
      · rw [Outside.setUser_users_of_ne hq, hs.frame.others q hq]
  | ended => exact Outside.endUser_stream _ _
  | @alarm p prog =>
      by_cases hq : q = p
      · subst hq
        rw [Outside.setUser_users_self]
        exact List.Sublist.refl _
      · rw [Outside.setUser_users_of_ne hq]
  | pipe hm => exact UserState.stream_sublist_of (hm.faded hpipes q).stream

section Server

variable [Fintype P] {t : Thread n} {choice : Choice}

/-- A call of the server puts into the FIFO of a user what it delivers; something may be lost if the user
does not read. -/
theorem Outside.exec_stream {call : SysCall} {r : call.Res} (h : w.exec t choice call = some (r, w'))
    (p : P) : (w'.users p).stream = (w.users p).stream ++ (w.delivers p call).getD [] ∨
      (w.users p).reading = .closed ∧ w.delivers p call = none ∧
        (w'.users p).stream = (w.users p).received := by
  have same : ∀ {q : P} {u : UserState}, u.stream = (w.users q).stream →
      ((w.setUser q u).users p).stream = (w.users p).stream ++ [] := by
    intro q u hu
    rw [List.append_nil]
    by_cases hp : p = q
    · subst hp
      rwa [setUser_users_self]
    · rw [setUser_users_of_ne hp]
  cases call with
  | openFifo path =>
      rcases exec_openFifo h with ⟨-, rfl, -⟩ | ⟨q, -, -, -, rfl⟩
      · exact .inl (List.append_nil _).symm
      · exact .inl (same rfl)
  | write fd bytes =>
      rcases exec_write h with ⟨q, o, hfd, -, -, rfl⟩ | ⟨hfd, -, rfl⟩ | ⟨hfd, -, rfl⟩
      · rw [delivers_write hfd]
        by_cases hp : q = p
        · subst hp
          rw [setUser_users_self, if_pos rfl]
          exact .inl (List.append_assoc ..).symm
        · rw [setUser_users_of_ne (Ne.symm hp), if_neg hp]
          exact .inl (List.append_nil _).symm
      · simp only [delivers, hfd]
        exact .inl (List.append_nil _).symm
      · have hnone : w'.delivers p (.write fd bytes) = none := by
          simp only [delivers]
        rw [hnone]
        exact .inl (List.append_nil _).symm
  | close fd =>
      obtain rfl := exec_close h
      -- when the last end is closed, what has not been read is gone
      split
      · rcases (closeFd_users (w := w) fd.toNat p).stream with he | ⟨hclosed, he⟩
        · exact .inl (he.trans (List.append_nil _).symm)
        · exact .inr ⟨hclosed, rfl, he⟩
      · exact .inl (List.append_nil _).symm
  | fchmod fd =>
      rcases exec_fchmod h with ⟨q, o, -, rfl⟩ | ⟨-, rfl⟩ | ⟨-, rfl⟩
      · exact .inl (same rfl)
      · exact .inl (List.append_nil _).symm
      · exact .inl (List.append_nil _).symm
  | read fd m =>
      simp only [Outside.exec] at h
      split at h <;> try split_ifs at h
      all_goals cases h; exact .inl (List.append_nil _).symm
  | newRequest =>
      simp only [Outside.exec] at h
      split at h <;> cases h
      exact .inl (List.append_nil _).symm
  | _ =>
      cases h
      exact .inl (List.append_nil _).symm

end Server

/-! ## Runs -/

section Runs

variable [Fintype P] {tr : List (BankEvent C n files)} {c : BankConfig C n files}

/-- An operation that is no call of the system writes nothing. -/
theorem repliedTo_of_not_call {t : Thread n} {o : ServerOp} {r : ServerRes o}
    {s : ServerState n (clients C n files)} (ho : ∀ call, o ≠ .ext (.sys call)) :
    repliedTo p (⟨t, o, r, s⟩ : BankEvent C n files) = none := by
  cases o with
  | ext e =>
      cases e with
      | sys call => exact absurd rfl (ho call)
      | _ => rfl
  | _ => rfl

/-- **Nothing but what the offices write gets into the FIFO of a user**, in every run in which the
shutdowns spare the descriptors of others. -/
theorem stream_sublist_of_run (h : (bank C n files).Run tr c) (hspares : Always SparesOthers tr)
    (p : P) : ((worldOf c).users p).stream.Sublist (repliesTo p tr).flatten := by
  revert hspares
  refine bank_induction (I := fun tr w => Always SparesOthers tr →
    (w.users p).stream.Sublist (repliesTo p tr).flatten) ?_ ?_ ?_ ?_ h
  · intro _
    exact List.Sublist.refl _
  · intro tr c m w' hr ih hm hspares
    obtain ⟨phases, husers⟩ := usersInv_of_run hr
    obtain ⟨phases', hmoved, -⟩ := husers.move hm
    exact (hmoved.stream_sublist (ownInv_of_run hr hspares).pipes p).trans (ih hspares)
  · intro tr c c' t choice w' x' call k r hr _ _ _ _ ih hexec hspares
    have hflatten : (repliesTo p (tr ++ [⟨t, .ext (.sys call), r, c.shared⟩])).flatten
        = (repliesTo p tr).flatten ++ ((worldOf c).delivers p call).getD [] := by
      rw [repliesTo_append, List.flatten_append]
      show _ ++ ((worldOf c).delivers p call).toList.flatten = _
      cases (worldOf c).delivers p call <;> simp
    rw [hflatten]
    rcases Outside.exec_stream hexec p with he | ⟨-, -, he⟩
    · rw [he]
      exact (ih hspares.left).append (List.Sublist.refl _)
    · rw [he]
      exact ((List.sublist_append_left ..).trans (ih hspares.left)).trans
        (List.sublist_append_left ..)
  · intro tr c c' t x' o k r _ _ _ ho _ _ ih hspares
    rw [repliesTo_append, repliedTo_of_not_call ho, Option.toList_none, List.append_nil]
    exact ih hspares.left

end Runs

end Sope
