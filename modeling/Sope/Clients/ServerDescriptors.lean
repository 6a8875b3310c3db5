import Sope.Clients.Effects
import Sope.Clients.Runs

/-! # The descriptors of the server

What the numbers that the threads of the server work with stand for, in every run. The number of the
read end always stands for it; the number in `shutdownFD` stands for the write end until a call of
`handleShutdownRequest` has closed it, and never again after that.

* `Descriptor.IsForeign` — a descriptor that is no end of the server's FIFO.
* `FdInv`, `fdInv_of_run` — what the numbers stand for.
* `IsShutdownCall` — the calls of `handleShutdownRequest`. -/

namespace Sope

open Concurrency

variable {P : Type} [DecidableEq P] {n files : ℕ} {w w' : Outside P n}

/-! ## Descriptors that are no end of the server's FIFO -/

/-- It is no end of the server's FIFO. -/
structure Descriptor.IsForeign (d : Option (Descriptor P n)) : Prop where
  ne_read : d ≠ some .serverRead
  ne_write : d ≠ some .serverWrite

omit [DecidableEq P] in
theorem Descriptor.isForeign_none : IsForeign (none : Option (Descriptor P n)) := ⟨nofun, nofun⟩

omit [DecidableEq P] in
theorem Descriptor.isForeign_pipe : IsForeign (some (.pipe : Descriptor P n)) := ⟨nofun, nofun⟩

omit [DecidableEq P] in
theorem Descriptor.isForeign_userFifo (p : P) (t : Thread n) :
    IsForeign (some (.userFifo p t)) := ⟨nofun, nofun⟩

omit [DecidableEq P] in
/-- A free number is one. -/
theorem Outside.isForeign_lowest (w : Outside P n) :
    Descriptor.IsForeign (w.fds.get w.fds.lowest) := by
  rw [FdTable.get_lowest]
  exact Descriptor.isForeign_none

omit [DecidableEq P] in
/-- The descriptor of a natural number. -/
@[simp] theorem Outside.descriptor_natCast (w : Outside P n) (fd : ℕ) :
    w.descriptor (fd : ℤ) = w.fds.get fd := by
  simp [Outside.descriptor]

omit [DecidableEq P] in
/-- After a change of the table at one number, another number stands for what it stood for. -/
theorem Outside.descriptor_set {fd : ℕ} {d : Option (Descriptor P n)}
    (hfds : w'.fds = w.fds.set fd d) (fd' : Int) :
    w'.descriptor fd' = w.descriptor fd' ∨ fd' = fd ∧ w'.descriptor fd' = d := by
  unfold Outside.descriptor
  split
  · next hpos =>
      rw [hfds]
      by_cases h : fd'.toNat = fd
      · refine .inr ⟨by omega, ?_⟩
        rw [h, FdTable.get_set_self]
      · exact .inl (FdTable.get_set_of_ne _ h _)
  · exact .inl rfl

omit [DecidableEq P] in
/-- What a number stands for depends on the table only. -/
theorem Outside.descriptor_congr (hfds : w'.fds = w.fds) (fd : Int) :
    w'.descriptor fd = w.descriptor fd := by
  unfold Outside.descriptor
  rw [hfds]

/-! ## The invariant -/

/-- What the numbers stand for, when the errands of the threads are `x`, and whether
`handleShutdownRequest` has closed the number in `shutdownFD`. -/
structure FdInv (files : ℕ) (x : Thread n → Errand) (closed : Prop) (w : Outside P n) : Prop where
  /-- The read end is open. -/
  read : w.fds.get files = some .serverRead
  /-- The write end has one number. -/
  write : ∀ fd, w.fds.get fd = some .serverWrite → fd = files + 1
  /-- The numbers of the pipes do not stand for the server's FIFO. -/
  pipes : ∀ fd ∈ w.pipes, Descriptor.IsForeign (w.fds.get fd)
  /-- Nor do the numbers that the offices write their replies to. -/
  inHand : ∀ t q fd, (x t).inHand = some (q, fd) → Descriptor.IsForeign (w.descriptor fd)
  /-- The write end is open until it has been closed. -/
  open_iff : w.fds.get (files + 1) = some .serverWrite ↔ ¬ closed
  /-- The FIFO has been read-only since before. -/
  readOnly : (closed ∨ ∃ t, (x t).isSealed = true) → w.writable = false

variable {C : Clientele P} {x : Thread n → Errand} {x' : Errand} {closed : Prop} {t : Thread n}

omit [DecidableEq P] in
/-- At the start. -/
theorem fdInv_start (C : Clientele P) (n files : ℕ) :
    FdInv files Thread.firstErrand False (.start C n files : Outside P n) where
  read := by
    show ((FdTable.set _ _ _).set _ _).get files = _
    rw [FdTable.get_set_of_ne _ (by omega), FdTable.get_set_self]
  write fd h := by
    by_contra hne
    have h : ((FdTable.set (FdTable.filled files .file) files (some .serverRead)).set (files + 1)
      (some .serverWrite)).get fd = some (Descriptor.serverWrite : Descriptor P n) := h
    rw [FdTable.get_set_of_ne _ hne] at h
    by_cases hfd : fd = files
    · rw [hfd, FdTable.get_set_self] at h
      cases h
    · rw [FdTable.get_set_of_ne _ hfd, FdTable.get_filled] at h
      split at h <;> cases h
  pipes := nofun
  inHand t q fd h := by cases t <;> cases h
  open_iff := iff_of_true (FdTable.get_set_self ..) not_false
  readOnly h := by
    rcases h with h | ⟨t, h⟩
    · exact h.elim
    · cases t <;> cases h

omit [DecidableEq P] in
/-- A change of the table at a number that is no end of the server's FIFO, to another such descriptor. -/
theorem FdInv.set (h : FdInv files x closed w) {fd : ℕ} {d : Option (Descriptor P n)}
    (hfd : Descriptor.IsForeign (w.fds.get fd)) (hd : Descriptor.IsForeign d)
    (hfds : w'.fds = w.fds.set fd d) (hpipes : ∀ fd' ∈ w'.pipes, fd' = fd ∨ fd' ∈ w.pipes)
    (hwritable : w'.writable = w.writable) : FdInv files x closed w' := by
  have hread := FdTable.get_set_eq_iff hfd.ne_read hd.ne_read
  have hwrite := FdTable.get_set_eq_iff hfd.ne_write hd.ne_write
  refine ⟨?_, fun fd' h' => ?_, fun fd' h' => ?_, fun t q fd' h' => ?_, ?_, fun h' => ?_⟩
  · rw [hfds]
    exact (hread _).mpr h.read
  · rw [hfds] at h'
    exact h.write fd' ((hwrite _).mp h')
  · rw [hfds]
    rcases hpipes fd' h' with rfl | hmem
    · rwa [FdTable.get_set_self]
    · have := h.pipes fd' hmem
      exact ⟨fun he => this.ne_read ((hread _).mp he), fun he => this.ne_write ((hwrite _).mp he)⟩
  · rcases Outside.descriptor_set hfds fd' with he | ⟨-, he⟩
    · rw [he]
      exact h.inHand t q fd' h'
    · rwa [he]
  · rw [hfds, hwrite]
    exact h.open_iff
  · rw [hwritable]
    exact h.readOnly h'

omit [DecidableEq P] in
/-- A change elsewhere. -/
theorem FdInv.congr (h : FdInv files x closed w) (hfds : w'.fds = w.fds)
    (hpipes : w'.pipes = w.pipes) (hwritable : w'.writable = w.writable) :
    FdInv files x closed w' := by
  refine ⟨?_, ?_, ?_, fun t q fd ht => ?_, ?_, ?_⟩
  · rw [hfds]; exact h.read
  · rw [hfds]; exact h.write
  · rw [hfds, hpipes]; exact h.pipes
  · rw [Outside.descriptor_congr hfds]; exact h.inHand t q fd ht
  · rw [hfds]; exact h.open_iff
  · rw [hwritable]; exact h.readOnly

omit [DecidableEq P] in
/-- A change of an errand, if its thread has no new descriptor in hand and has not made the FIFO
read-only. -/
theorem FdInv.errand (h : FdInv files x closed w)
    (hfd : ∀ q fd, x'.inHand = some (q, fd) → Descriptor.IsForeign (w.descriptor fd))
    (hsealed : x'.isSealed = true → w.writable = false) :
    FdInv files (Function.update x t x') closed w := by
  refine ⟨h.read, h.write, h.pipes, fun u q fd hu => ?_, h.open_iff, ?_⟩
  · by_cases hut : u = t
    · subst hut
      rw [Function.update_self] at hu
      exact hfd q fd hu
    · rw [Function.update_of_ne hut] at hu
      exact h.inHand u q fd hu
  · rintro (hc | ⟨u, hu⟩)
    · exact h.readOnly (.inl hc)
    · by_cases hut : u = t
      · subst hut
        rw [Function.update_self] at hu
        exact hsealed hu
      · rw [Function.update_of_ne hut] at hu
        exact h.readOnly (.inr ⟨u, hu⟩)

/-- What happens to pipes. -/
theorem FdInv.pipeMoved (h : FdInv files x closed w) (hm : w.PipeMoved w') :
    FdInv files x closed w' := by
  cases hm with
  | opened =>
      exact h.set w.isForeign_lowest Descriptor.isForeign_pipe rfl (fun _ => List.mem_cons.mp) rfl
  | wroteFifo | wroteServer | wrote => exact h.congr rfl rfl rfl
  | @closed fd hmem =>
      refine h.set (h.pipes fd hmem) Descriptor.isForeign_none (by simp) ?_ (by simp)
      intro fd' hmem'
      rw [Outside.closeFd_pipes] at hmem'
      exact .inr (List.mem_of_mem_erase hmem')

/-- The moves of the users and of the pipes. -/
theorem FdInv.move (h : FdInv files x closed w) {m : Move P} (hm : w.move C m = some w') :
    FdInv files x closed w' := by
  cases Outside.moved_of_move hm with
  | step hp hexec =>
      obtain ⟨hfds, hpipes, hwritable, -⟩ := UserCall.exec_frame hexec
      exact h.congr hfds hpipes hwritable
  | ended => exact h.congr (by simp) (by simp) (by simp)
  | alarm => exact h.congr rfl rfl rfl
  | pipe hm => exact h.pipeMoved hm

omit [DecidableEq P] in
/-- Operations that neither open nor close a descriptor, nor make a FIFO read-only. -/
theorem FdInv.quiet (h : FdInv files x closed w) {setup : Setup} {o : ServerOp} {r : ServerRes o}
    (hstep : ErrandStep setup (x t) o r x') (hopen : ∀ path, o ≠ .ext (.sys (.openFifo path)))
    (hclose : ∀ fd, o ≠ .ext (.sys (.close fd))) (hfchmod : ∀ fd, o ≠ .ext (.sys (.fchmod fd))) :
    FdInv files (Function.update x t x') closed w :=
  h.errand (fun q fd hfd => h.inHand t q fd (hstep.inHand_eq hopen hclose ▸ hfd))
    fun hsealed => h.readOnly (.inr ⟨t, hstep.isSealed hsealed hfchmod⟩)

variable [Fintype P] {choice : Choice}

/-- Opening the FIFO of a user. -/
theorem FdInv.openFifo (h : FdInv files x closed w) {setup : Setup} {path : Bytes} {r : Int}
    (hstep : ErrandStep setup (x t) (.ext (.sys (.openFifo path))) r x')
    (hexec : w.exec t choice (.openFifo path) = some (r, w')) :
    FdInv files (Function.update x t x') closed w' := by
  obtain ⟨q, -, -, hx'⟩ := hstep.of_openFifo
  rcases Outside.exec_openFifo hexec with ⟨rfl, rfl, -⟩ | ⟨p, -, -, rfl, rfl⟩
  · obtain rfl : x' = .missed q := by simpa using hx'
    exact h.errand nofun nofun
  · obtain rfl : x' = .holding q w.fds.lowest := by
      rcases hx' with ⟨hr, -⟩ | ⟨-, hx'⟩
      · omega
      · exact hx'
    refine FdInv.errand (h.set w.isForeign_lowest (Descriptor.isForeign_userFifo p t) rfl
      (fun _ => .inr) rfl) (fun q' fd hfd => ?_) nofun
    cases hfd
    rw [Outside.descriptor_natCast, FdTable.get_set_self]
    exact Descriptor.isForeign_userFifo p t

/-- Closing a descriptor: in `handleShutdownRequest`, or after a reply. -/
theorem FdInv.close (h : FdInv files x closed w) {fd : Int} {r : Unit}
    (hstep : ErrandStep (bankSetup n files) (x t) (.ext (.sys (.close fd))) r x')
    (hexec : w.exec t choice (.close fd) = some (r, w')) :
    FdInv files (Function.update x t x') (closed ∨ (x t).isSealed = true) w' := by
  obtain rfl := Outside.exec_close hexec
  rcases hstep.of_close with ⟨q, hx, rfl, rfl⟩ | ⟨q, hx, rfl, rfl⟩ | ⟨q, bytes, hx, rfl⟩
  · -- the number in `shutdownFD` does not stand for the write end any more
    have hwritable := h.readOnly (.inr ⟨t, by rw [hx]; rfl⟩)
    rw [if_pos (Int.natCast_nonneg _), Int.toNat_natCast, hx]
    have hset := w.closeFd_fds (files + 1)
    refine FdInv.errand ⟨?_, fun fd hfd => ?_, fun fd hfd => ?_, fun u q fd hu => ?_, ?_, ?_⟩
      nofun nofun
    · rw [hset, FdTable.get_set_of_ne _ (by omega)]
      exact h.read
    · rw [hset] at hfd
      by_cases hne : fd = files + 1
      · exact hne
      · rw [FdTable.get_set_of_ne _ hne] at hfd
        exact h.write fd hfd
    · rw [Outside.closeFd_pipes] at hfd
      have := Outside.descriptor_set hset fd
      simp only [Outside.descriptor_natCast] at this
      rcases this with he | ⟨-, he⟩
      · rw [he]
        exact h.pipes fd hfd
      · rw [he]
        exact Descriptor.isForeign_none
    · rcases Outside.descriptor_set hset fd with he | ⟨-, he⟩
      · rw [he]
        exact h.inHand u q fd hu
      · rw [he]
        exact Descriptor.isForeign_none
    · rw [hset, FdTable.get_set_self]
      exact iff_of_false nofun (not_not.mpr (.inr rfl))
    · exact fun _ => (w.closeFd_writable _).trans hwritable
  · simp only [hx, Errand.isSealed, Bool.false_eq_true, or_false]
    exact h.errand nofun nofun
  -- a reply FIFO is closed: its number stood for neither end of the server FIFO
  · have hforeign := h.inHand t q fd (by rw [hx]; rfl)
    simp only [hx, Errand.isSealed, Bool.false_eq_true, or_false]
    refine FdInv.errand ?_ nofun nofun
    split
    · next hpos =>
        have hforeign : Descriptor.IsForeign (w.fds.get fd.toNat) := by
          rwa [Outside.descriptor, if_pos hpos] at hforeign
        exact h.set hforeign Descriptor.isForeign_none (w.closeFd_fds _)
          (fun _ => by rw [Outside.closeFd_pipes]; exact .inr) (w.closeFd_writable _)
    · exact h

/-- Making the FIFO read-only. -/
theorem FdInv.fchmod (h : FdInv files x closed w) {fd : Int} {r : Unit}
    (hstep : ErrandStep (bankSetup n files) (x t) (.ext (.sys (.fchmod fd))) r x')
    (hexec : w.exec t choice (.fchmod fd) = some (r, w')) :
    FdInv files (Function.update x t x') closed w' := by
  obtain ⟨q, hx, rfl, -, -, rfl⟩ := hstep.of_fchmod
  have hdescriptor : w.descriptor (bankSetup n files).shutdownFD = w.fds.get (files + 1) :=
    w.descriptor_natCast (files + 1)
  -- if the number does not stand for the write end, it has been closed, and the FIFO is read-only
  have hwritable : w'.writable = false := by
    by_cases hopen : w.fds.get (files + 1) = some .serverWrite
    · rcases Outside.exec_fchmod hexec with ⟨p, o, hfd, -⟩ | ⟨-, rfl⟩ | ⟨hne, -⟩
      · rw [hdescriptor, hopen] at hfd
        cases hfd
      · rfl
      · exact absurd (hdescriptor.trans hopen) hne
    · have hclosed := h.readOnly (.inl (not_not.mp fun hc => hopen (h.open_iff.mpr hc)))
      rcases Outside.exec_fchmod hexec with ⟨p, o, -, rfl⟩ | ⟨-, rfl⟩ | ⟨-, rfl⟩
      exacts [hclosed, rfl, hclosed]
  obtain ⟨hfds, hpipes⟩ := Outside.exec_fds hexec nofun nofun
  refine FdInv.errand ⟨?_, ?_, ?_, fun u q fd hu => ?_, ?_, fun _ => hwritable⟩ nofun
    fun _ => hwritable
  · rw [hfds]; exact h.read
  · rw [hfds]; exact h.write
  · rw [hfds, hpipes]; exact h.pipes
  · rw [Outside.descriptor_congr hfds]; exact h.inHand u q fd hu
  · rw [hfds]; exact h.open_iff

/-! ## Runs -/

/-- The call of `close` in `handleShutdownRequest`: the thread has made the server's FIFO read-only, and
closes a descriptor next. -/
def ClosesShutdownFD (tr : List (BankEvent C n files)) (e : BankEvent C n files) : Prop :=
  (∃ fd, e.op = .ext (.sys (.close fd))) ∧ (bankErrands tr e.tid).isSealed = true

/-- A call of `fchmod` or `close` in `handleShutdownRequest`, with its argument. -/
def IsShutdownCall (fd : Int) (tr : List (BankEvent C n files)) (e : BankEvent C n files) : Prop :=
  e.op = .ext (.sys (.fchmod fd)) ∨ e.op = .ext (.sys (.close fd)) ∧ ClosesShutdownFD tr e

/-- Only a call of `close` can be it. -/
theorem occurs_closesShutdownFD {tr : List (BankEvent C n files)} {o : ServerOp} {r : ServerRes o}
    {s : ServerState n (clients C n files)} (ho : ∀ fd, o ≠ .ext (.sys (.close fd))) :
    Occurs ClosesShutdownFD (tr ++ [⟨t, o, r, s⟩]) ↔ Occurs ClosesShutdownFD tr := by
  rw [occurs_concat]
  exact or_iff_left fun ⟨⟨fd, hfd⟩, _⟩ => ho fd hfd

/-- **The descriptors in every run.** -/
theorem fdInv_of_run {tr : List (BankEvent C n files)} {c : BankConfig C n files}
    (h : (bank C n files).Run tr c) :
    FdInv files (bankErrands tr) (Occurs ClosesShutdownFD tr) (worldOf c) := by
  refine bank_induction
    (I := fun tr w => FdInv files (bankErrands tr) (Occurs ClosesShutdownFD tr) w) ?_ ?_ ?_ ?_ h
  · rw [bankErrands_nil, eq_false not_occurs_nil]
    exact fdInv_start C n files
  · intro tr c m w' _ ih hm
    exact ih.move hm
  · intro tr c c' t choice w' x' call k r _ _ _ hstep hx' ih hexec
    rw [hx']
    have hoccurs : (∀ fd, call ≠ .close fd) →
        (Occurs ClosesShutdownFD (tr ++ [⟨t, .ext (.sys call), r, c.shared⟩]) ↔
          Occurs ClosesShutdownFD tr) := fun hne =>
      occurs_closesShutdownFD fun fd h => hne fd (Ext.sys.inj (MemOp.ext.inj h))
    cases call with
    | openFifo path =>
        rw [hoccurs nofun]
        exact ih.openFifo hstep hexec
    | close fd =>
        rw [occurs_concat, ClosesShutdownFD, and_iff_right ⟨fd, rfl⟩]
        exact ih.close hstep hexec
    | fchmod fd =>
        rw [hoccurs nofun]
        exact ih.fchmod hstep hexec
    | _ =>
        rw [hoccurs nofun]
        obtain ⟨hfds, hpipes⟩ := Outside.exec_fds hexec nofun nofun
        exact (ih.quiet hstep nofun nofun nofun).congr hfds hpipes (Outside.exec_writable hexec nofun)
  · intro tr c c' t x' o k r _ _ _ ho hstep hx' ih
    rw [hx', occurs_closesShutdownFD fun fd => ho _]
    exact ih.quiet hstep (fun path => ho _) (fun fd => ho _) fun fd => ho _

end Sope
