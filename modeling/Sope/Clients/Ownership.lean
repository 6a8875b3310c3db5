import Sope.Clients.ServerDescriptors
import Sope.Clients.UserStates

/-! # The descriptors of the offices

As long as the calls of `handleShutdownRequest` act on the server's own FIFO or on nothing, every
descriptor belongs to the one who has opened it: an office that has a number in hand finds the FIFO of
its user there, and the numbers of the pipes stand for pipes.

* `SparesOthers` — the condition on one operation.
* `OwnInv`, `ownInv_of_run` — the descriptors in a run in which it always holds. -/

namespace Sope

open Concurrency

variable {P : Type} [DecidableEq P] {C : Clientele P} {n files : ℕ} {w w' : Outside P n}
  {x : Thread n → Errand} {x' : Errand} {t : Thread n}

/-! ## The invariant -/

/-- Descriptors belong to those who have opened them. -/
structure OwnInv (C : Clientele P) (x : Thread n → Errand) (w : Outside P n) : Prop where
  /-- The number in the hand of an office stands for the FIFO of its user, which it has opened. -/
  inHand : ∀ t q fd, (x t).inHand = some (q, fd) →
    ∃ p, C.pid p = q.value.header.pid ∧ w.descriptor fd = some (.userFifo p t)
  /-- The numbers of pipes stand for pipes. -/
  pipes : ∀ fd ∈ w.pipes, w.fds.get fd = some .pipe
  nodup : w.pipes.Nodup
  /-- The FIFOs of the users can be opened. -/
  writable : ∀ p, (w.users p).writable = true

omit [DecidableEq P] in
/-- At the start. -/
theorem ownInv_start (C : Clientele P) (n files : ℕ) :
    OwnInv C Thread.firstErrand (.start C n files : Outside P n) where
  inHand t q fd h := by cases t <;> cases h
  pipes := nofun
  nodup := List.nodup_nil
  writable _ := rfl

omit [DecidableEq P] in
/-- A change elsewhere. -/
theorem OwnInv.congr (h : OwnInv C x w) (hfds : w'.fds = w.fds) (hpipes : w'.pipes = w.pipes)
    (hwritable : ∀ p, (w'.users p).writable = (w.users p).writable) : OwnInv C x w' := by
  refine ⟨fun t q fd ht => ?_, ?_, ?_, fun p => ?_⟩
  · rw [Outside.descriptor_congr hfds]
    exact h.inHand t q fd ht
  · rw [hfds, hpipes]
    exact h.pipes
  · rw [hpipes]
    exact h.nodup
  · rw [hwritable]
    exact h.writable p

omit [DecidableEq P] in
/-- A change of an errand. -/
theorem OwnInv.errand (h : OwnInv C x w) (hx : ∀ q fd, x'.inHand = some (q, fd) →
      ∃ p, C.pid p = q.value.header.pid ∧ w.descriptor fd = some (.userFifo p t)) :
    OwnInv C (Function.update x t x') w := by
  refine ⟨fun u q fd hu => ?_, h.pipes, h.nodup, h.writable⟩
  by_cases hut : u = t
  · subst hut
    rw [Function.update_self] at hu
    exact hx q fd hu
  · rw [Function.update_of_ne hut] at hu
    exact h.inHand u q fd hu

omit [DecidableEq P] in
/-- Opening or closing a descriptor that belongs to nobody else. -/
theorem OwnInv.set (h : OwnInv C x w) {fd : ℕ} {d : Option (Descriptor P n)}
    (hfd : ∀ u q, (x u).inHand = some (q, (fd : ℤ)) → False)
    (hpipe : ∀ fd' ∈ w'.pipes, (fd' = fd ∧ d = some .pipe) ∨ (fd' ≠ fd ∧ fd' ∈ w.pipes))
    (hnodup : w'.pipes.Nodup) (hfds : w'.fds = w.fds.set fd d)
    (hwritable : ∀ p, (w'.users p).writable = (w.users p).writable) : OwnInv C x w' := by
  refine ⟨fun u q fd' hu => ?_, fun fd' hmem => ?_, hnodup, fun p => ?_⟩
  · rcases Outside.descriptor_set hfds fd' with he | ⟨rfl, -⟩
    · rw [he]
      exact h.inHand u q fd' hu
    · exact (hfd u q hu).elim
  · rw [hfds]
    rcases hpipe fd' hmem with ⟨rfl, rfl⟩ | ⟨hne, hmem⟩
    · rw [FdTable.get_set_self]
    · rw [FdTable.get_set_of_ne _ hne]
      exact h.pipes fd' hmem
  · rw [hwritable]
    exact h.writable p

omit [DecidableEq P] in
/-- A number that stands for something else is in no hand. -/
theorem OwnInv.not_inHand (h : OwnInv C x w) {fd : ℕ}
    (hfd : ∀ p u, w.fds.get fd = some (.userFifo p u) → u = t) {u : Thread n} (hu : u ≠ t)
    {q : TlvRequest} (hq : (x u).inHand = some (q, (fd : ℤ))) : False := by
  obtain ⟨p, -, hp⟩ := h.inHand u q _ hq
  rw [Outside.descriptor_natCast] at hp
  exact hu (hfd p u hp)

/-- What happens to pipes. -/
theorem OwnInv.pipeMoved (h : OwnInv C x w) (hm : w.PipeMoved w') : OwnInv C x w' := by
  -- no office holds a descriptor that is no FIFO of a user
  have hnot : ∀ {fd : ℕ}, (∀ p u, w.fds.get fd ≠ some (.userFifo p u)) →
      ∀ u q, (x u).inHand = some (q, (fd : ℤ)) → False := by
    intro fd hfd u q hq
    obtain ⟨p, -, hp⟩ := h.inHand u q _ hq
    exact hfd p u ((w.descriptor_natCast fd).symm.trans hp)
  cases hm with
  | opened =>
      have hfree : w.fds.lowest ∉ w.pipes := by
        intro hmem
        have := h.pipes _ hmem
        rw [FdTable.get_lowest] at this
        cases this
      refine h.set (d := some .pipe) (hnot fun p u => by rw [FdTable.get_lowest]; nofun) ?_
        (List.nodup_cons.mpr ⟨hfree, h.nodup⟩) rfl fun _ => rfl
      intro fd' hmem
      rcases List.mem_cons.mp hmem with rfl | hmem
      · exact .inl ⟨rfl, rfl⟩
      · exact .inr ⟨fun he => hfree (he ▸ hmem), hmem⟩
  | wroteFifo hmem hget => cases (h.pipes _ hmem).symm.trans hget
  | wroteServer | wrote => exact h.congr rfl rfl fun _ => rfl
  | @closed fd hmem =>
      have hpipe := h.pipes fd hmem
      refine h.set (d := none) (hnot fun p u => by rw [hpipe]; nofun) ?_ ?_ (by simp) fun p => ?_
      · intro fd' hmem'
        rw [Outside.closeFd_pipes] at hmem'
        have := (List.Nodup.mem_erase_iff h.nodup).mp hmem'
        exact .inr this
      · rw [Outside.closeFd_pipes]
        exact h.nodup.erase fd
      · rcases Outside.closeFd_users (w := { w with pipes := w.pipes.erase fd }) fd p with he | ⟨-, he⟩
        · rw [he]
        · rw [he]

/-- The moves of the users and of the pipes. -/
theorem OwnInv.move (h : OwnInv C x w) {phases phases' : P → UserPhase}
    (hm : PhasesMoved C w phases w' phases') : OwnInv C x w' := by
  cases hm with
  | @step p phase w₁ prog hs =>
      refine h.congr hs.frame.fds hs.frame.pipes fun q => ?_
      by_cases hq : q = p
      · subst hq
        rw [Outside.setUser_users_self]
        exact hs.frame.writable
      · rw [Outside.setUser_users_of_ne hq, hs.frame.others q hq]
  | @ended p =>
      refine h.congr (by simp) (by simp) fun q => ?_
      by_cases hq : q = p
      · subst hq
        rcases Outside.endUser_users_self (w := w) (p := q) with he | ⟨-, he⟩ <;> rw [he] <;> rfl
      · rw [Outside.endUser_users_of_ne hq]
  | @alarm p prog =>
      refine h.congr rfl rfl fun q => ?_
      by_cases hq : q = p
      · subst hq
        rw [Outside.setUser_users_self]
      · rw [Outside.setUser_users_of_ne hq]
  | pipe hm => exact h.pipeMoved hm

/-! ## The calls of the server -/

section Server

variable [Fintype P] {choice : Choice}

/-- Only `fchmod` takes the right to open the FIFO of a user. -/
theorem exec_userWritable {call : SysCall} {r : call.Res} (h : w.exec t choice call = some (r, w'))
    (hfchmod : ∀ fd, call = .fchmod fd → ∀ p o, w.descriptor fd ≠ some (.userFifo p o)) (p : P) :
    (w'.users p).writable = (w.users p).writable := by
  have hset : ∀ {q : P} {u : UserState}, u.writable = (w.users q).writable →
      ((w.setUser q u).users p).writable = (w.users p).writable := by
    intro q u hu
    by_cases hp : p = q
    · subst hp
      rwa [Outside.setUser_users_self]
    · rw [Outside.setUser_users_of_ne hp]
  cases call with
  | openFifo path =>
      rcases Outside.exec_openFifo h with ⟨-, rfl, -⟩ | ⟨q, -, -, -, rfl⟩
      · rfl
      · exact hset rfl
  | write fd bytes =>
      rcases Outside.exec_write h with ⟨q, o, -, -, -, rfl⟩ | ⟨-, -, rfl⟩ | ⟨-, -, rfl⟩
      · exact hset rfl
      · rfl
      · rfl
  | close fd =>
      obtain rfl := Outside.exec_close h
      split
      · rcases Outside.closeFd_users (w := w) fd.toNat p with he | ⟨-, he⟩ <;> rw [he]
      · rfl
  | fchmod fd =>
      rcases Outside.exec_fchmod h with ⟨q, o, hfd, -⟩ | ⟨-, rfl⟩ | ⟨-, rfl⟩
      · exact absurd hfd (hfchmod fd rfl q o)
      · rfl
      · rfl
  | read fd m =>
      simp only [Outside.exec] at h
      split at h <;> try split_ifs at h
      all_goals cases h; rfl
  | newRequest =>
      simp only [Outside.exec] at h
      split at h <;> cases h
      rfl
  | _ => cases h; rfl

variable {setup : Setup}

/-- Opening the FIFO of a user. -/
theorem OwnInv.openFifo (h : OwnInv C x w)
    (hnames : ∀ path p, w.fifos path = some p → path = C.path p) {path : Bytes} {r : Int}
    (hstep : ErrandStep setup (x t) (.ext (.sys (.openFifo path))) r x')
    (hexec : w.exec t choice (.openFifo path) = some (r, w')) :
    OwnInv C (Function.update x t x') w' := by
  obtain ⟨q, -, hpath, hx'⟩ := hstep.of_openFifo
  rcases Outside.exec_openFifo hexec with ⟨rfl, rfl, -⟩ | ⟨p, hp, -, rfl, rfl⟩
  · obtain rfl : x' = .missed q := by simpa using hx'
    exact h.errand nofun
  · obtain rfl : x' = .holding q w.fds.lowest := by
      rcases hx' with ⟨hr, -⟩ | ⟨-, hx'⟩
      · omega
      · exact hx'
    have hpid : C.pid p = q.value.header.pid :=
      getUserFifoPath_injective ((hnames path p hp).symm.trans hpath)
    refine OwnInv.errand (h.set (d := some (.userFifo p t)) (fun u q' hq' => ?_) (fun fd' hmem => ?_)
      h.nodup rfl (exec_userWritable hexec nofun)) fun q' fd hq' => ?_
    · obtain ⟨p', -, hp'⟩ := h.inHand u q' _ hq'
      rw [Outside.descriptor_natCast, FdTable.get_lowest] at hp'
      cases hp'
    · refine .inr ⟨?_, hmem⟩
      rintro rfl
      have := h.pipes _ hmem
      rw [FdTable.get_lowest] at this
      cases this
    · cases hq'
      refine ⟨p, hpid, ?_⟩
      rw [Outside.descriptor_natCast, FdTable.get_set_self]

omit [Fintype P] in
/-- Closing a descriptor that stands for the server's FIFO, for nothing, or for what the office has
opened. -/
theorem OwnInv.closeFd (h : OwnInv C x w) (hx' : x'.inHand = none) {fd : ℕ}
    (hfd : ∀ p u, w.fds.get fd = some (.userFifo p u) → u = t)
    (hpipe : w.fds.get fd ≠ some .pipe) : OwnInv C (Function.update x t x') (w.closeFd fd) := by
  -- the thread has nothing in hand afterwards, so only the others matter
  have hother : OwnInv C (Function.update x t x') w := h.errand fun q fd hq => by rw [hx'] at hq; cases hq
  refine hother.set (fun u q hq => ?_) (fun fd' hmem => ?_) ?_ (w.closeFd_fds fd) fun p => ?_
  · by_cases hu : u = t
    · subst hu
      rw [Function.update_self, hx'] at hq
      cases hq
    · exact hother.not_inHand hfd hu hq
  · rw [Outside.closeFd_pipes] at hmem
    exact .inr ⟨fun he => hpipe (he ▸ h.pipes fd' hmem), hmem⟩
  · rw [Outside.closeFd_pipes]
    exact h.nodup
  · rcases Outside.closeFd_users (w := w) fd p with he | ⟨-, he⟩ <;> rw [he]

/-- Closing a descriptor, if a shutdown closes the server's FIFO or nothing. -/
theorem OwnInv.close (h : OwnInv C x w) {fd : Int} {r : Unit}
    (hstep : ErrandStep setup (x t) (.ext (.sys (.close fd))) r x')
    (hspares : (x t).isSealed = true →
      w.descriptor fd = some .serverWrite ∨ w.descriptor fd = none)
    (hexec : w.exec t choice (.close fd) = some (r, w')) :
    OwnInv C (Function.update x t x') w' := by
  obtain rfl := Outside.exec_close hexec
  have hinHand : x'.inHand = none := by
    rcases hstep.of_close with ⟨q, -, -, rfl⟩ | ⟨q, -, -, rfl⟩ | ⟨q, bytes, -, rfl⟩ <;> rfl
  split
  · next hpos =>
      have hget : w.descriptor fd = w.fds.get fd.toNat := if_pos hpos
      refine h.closeFd hinHand ?_ ?_
      · intro p u hu
        rcases hstep.of_close with ⟨q, hx, -⟩ | ⟨q, -, rfl, -⟩ | ⟨q, bytes, hx, -⟩
        · rcases hspares (by rw [hx]; rfl) with hd | hd
          · cases hu.symm.trans (hget.symm.trans hd)
          · cases hu.symm.trans (hget.symm.trans hd)
        · omega
        · obtain ⟨p', -, hp'⟩ := h.inHand t q fd (by rw [hx]; rfl)
          cases hu.symm.trans (hget.symm.trans hp')
          rfl
      · intro hpipe
        rcases hstep.of_close with ⟨q, hx, -⟩ | ⟨q, -, rfl, -⟩ | ⟨q, bytes, hx, -⟩
        · rcases hspares (by rw [hx]; rfl) with hd | hd
          · cases hpipe.symm.trans (hget.symm.trans hd)
          · cases hpipe.symm.trans (hget.symm.trans hd)
        · omega
        · obtain ⟨p', -, hp'⟩ := h.inHand t q fd (by rw [hx]; rfl)
          cases hpipe.symm.trans (hget.symm.trans hp')
  · exact h.errand fun q fd hq => by rw [hinHand] at hq; cases hq

end Server

/-! ## Runs -/

section Runs

variable [Fintype P] {tr : List (BankEvent C n files)} {c : BankConfig C n files}

/-- A call of `handleShutdownRequest` acts on the server's FIFO, or on a number that stands for nothing:
not on what another office, or a call of `generateHash`, has opened. -/
def SparesOthers (tr : List (BankEvent C n files)) (e : BankEvent C n files) : Prop :=
  ∀ fd, IsShutdownCall fd tr e →
    (worldAt e).descriptor fd = some .serverWrite ∨ (worldAt e).descriptor fd = none

/-- **Descriptors belong to those who have opened them**, in every run in which the shutdowns spare the
others. -/
theorem ownInv_of_run (h : (bank C n files).Run tr c) (hspares : Always SparesOthers tr) :
    OwnInv C (bankErrands tr) (worldOf c) := by
  revert hspares
  refine bank_induction
    (I := fun tr w => Always SparesOthers tr → OwnInv C (bankErrands tr) w) ?_ ?_ ?_ ?_ h
  · intro _
    exact ownInv_start C n files
  · intro tr c m w' hr ih hm hspares
    obtain ⟨phases, husers⟩ := usersInv_of_run hr
    obtain ⟨phases', hmoved, -⟩ := husers.move hm
    exact (ih hspares).move hmoved
  · intro tr c c' t choice w' x' call k r hr _ _ hstep hx' ih hexec hspares
    have ih := ih hspares.left
    have hlast := hspares.last
    rw [hx']
    cases call with
    | openFifo path =>
        obtain ⟨phases, husers⟩ := usersInv_of_run hr
        exact ih.openFifo husers.fifos hstep hexec
    | close fd => exact ih.close hstep (fun hs => hlast fd (.inr ⟨rfl, ⟨fd, rfl⟩, hs⟩)) hexec
    | fchmod fd =>
        obtain ⟨hfds, hpipes⟩ := Outside.exec_fds hexec nofun nofun
        refine OwnInv.errand (ih.congr hfds hpipes (exec_userWritable hexec ?_)) fun q fd' hq => ?_
        -- the shutdown spares the users: `fd` is none of their FIFOs
        · rintro fd' ⟨⟩ p o hfd
          rcases hlast fd (.inl rfl) with hd | hd
          · cases hfd.symm.trans hd
          · cases hfd.symm.trans hd
        · rw [hstep.inHand_eq nofun nofun] at hq
          rw [Outside.descriptor_congr hfds]
          exact ih.inHand t q fd' hq
    | _ =>
        obtain ⟨hfds, hpipes⟩ := Outside.exec_fds hexec nofun nofun
        refine OwnInv.errand (ih.congr hfds hpipes (exec_userWritable hexec nofun)) fun q fd' hq => ?_
        rw [hstep.inHand_eq nofun nofun] at hq
        rw [Outside.descriptor_congr hfds]
        exact ih.inHand t q fd' hq
  · intro tr c c' t x' o k r _ _ _ ho hstep hx' ih hspares
    rw [hx']
    refine (ih hspares.left).errand fun q fd hq => ?_
    rw [hstep.inHand_eq (fun path => ho _) fun fd => ho _] at hq
    exact (ih hspares.left).inHand t q fd hq

end Runs

end Sope
