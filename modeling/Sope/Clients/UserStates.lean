import Sope.Clients.Effects
import Sope.Clients.Runs

/-! # The users in the world

How far each user has come, and what follows from it for its FIFO, for what it has read, and for the
requests that have been written. It holds whatever the server does.

* `UserStep` — what the calls of a user do, by its phase.
* `UserInv`, `UsersInv` — what holds of one user, and of all of them.
* `PhasesMoved` — the moves of the world, with the phases of the users; `UsersInv.moved`. -/

namespace Sope

open Concurrency

variable {P : Type} [DecidableEq P] {n : ℕ}

/-! ## The calls of a user, by its phase -/

/-- Reading `m` bytes gives `bytes`: nothing has been asked for, no writer is left, or there is
something. -/
inductive UserRead (p : P) (w : Outside P n) (m : ℕ) : Bytes → Outside P n → Prop
  | nothing (zero : m = 0) : UserRead p w m [] w
  | ended (pos : m ≠ 0) (empty : (w.users p).content = []) (closed : w.isOpen p = false) :
      UserRead p w m [] w
  | some (pos : m ≠ 0) (nonempty : (w.users p).content ≠ []) :
      UserRead p w m ((w.users p).content.take m) (w.setUser p { w.users p with
        content := (w.users p).content.drop m
        received := (w.users p).received ++ (w.users p).content.take m })

/-- What a call of a user does, but for its program. -/
inductive UserStep (C : Clientele P) (p : P) (w : Outside P n) :
    UserPhase → UserPhase → Outside P n → Prop
  | mkfifo (free : w.fifos (C.path p) = none) :
      UserStep C p w .fresh .made
        { w with fifos := Function.update w.fifos (C.path p) (some p) }
  | connect (writable : w.writable = true) :
      UserStep C p w .made .connected (w.setUser p { w.users p with sending := true })
  | write {request : TlvRequest} (makes : C.Makes p request)
      (sending : (w.users p).sending = true) :
      UserStep C p w .connected .wrote { w with
        channel := w.channel ++ requestBytes request, written := w.written ++ [request] }
  | disconnect :
      UserStep C p w .wrote .asked (w.setUser p { w.users p with sending := false })
  | alarm {phase : UserPhase} {alarmed : Bool} (asked : phase = .asked ∨ ∃ bytes, phase = .got bytes) :
      UserStep C p w phase phase (w.setUser p { w.users p with alarmed })
  | wait (named : w.fifos (C.path p) = some p) :
      UserStep C p w .asked .waiting (w.setUser p { w.users p with
        reading := .waiting, notified := false })
  | opened (notified : (w.users p).notified = true) :
      UserStep C p w .waiting .opened (w.setUser p { w.users p with reading := .opened })
  | head {bytes : Bytes} {w' : Outside P n} (reads : UserRead p w sizeofTypeLength bytes w') :
      UserStep C p w .opened (.head bytes) w'
  | got {head bytes : Bytes} {w' : Outside P n}
      (reads : UserRead p w (decodeWord (overlay newReply 0 head) 4).toNat bytes w') :
      UserStep C p w (.head head) (.got (head ++ bytes)) w'
  | leave {bytes : Bytes} :
      UserStep C p w (.got bytes) .satisfied
        ((w.setUser p { w.users p with reading := .closed }).settle p)
  | unlink {phase : UserPhase} (done : phase = .satisfied ∨ phase = .leaving) :
      UserStep C p w phase phase { w with fifos := Function.update w.fifos (C.path p) none }
  | unasked {phase : UserPhase} (early : phase = .fresh ∨ phase = .made ∨ phase = .connected) :
      UserStep C p w phase .leaving w
  | unnamed (unnamed : w.fifos (C.path p) ≠ some p) : UserStep C p w .asked .leaving w
  | unread {phase : UserPhase} (reads : phase = .opened ∨ ∃ bytes, phase = .head bytes)
      (unread : (w.users p).reading ≠ .opened) : UserStep C p w phase .leaving w

variable {C : Clientele P} {w w' : Outside P n} {p q : P} {phase phase' : UserPhase}

/-- What reading gives to a user that has opened its FIFO. -/
theorem reads_of_exec {m : ℕ} {r : Option Bytes} (h : UserCall.exec p w (.read m) = some (r, w')) :
    (w.users p).reading ≠ .opened ∧ r = none ∧ w' = w ∨ ∃ bytes, r = some bytes ∧ UserRead p w m bytes w' := by
  simp only [UserCall.exec] at h
  split_ifs at h with hreading hm hcontent hopen
  · cases h
    exact .inl ⟨hreading, rfl, rfl⟩
  · cases h
    exact .inr ⟨[], rfl, .nothing hm⟩
  · cases h
    exact .inr ⟨[], rfl, .ended hm hcontent (Bool.eq_false_iff.mpr hopen)⟩
  · cases h
    exact .inr ⟨_, rfl, .some hm hcontent⟩

/-- **What users do.** A call that the phase allows is one of these steps. -/
theorem userStep_of_exec {c : UserCall} {r : c.Res} (hallows : phase.Allows C p c)
    (h : c.exec p w = some (r, w')) : UserStep C p w phase (phase.next c r) w' := by
  -- each call is made in one phase only, or in the few its two callers share
  cases c with
  | mkfifo path =>
      cases phase <;> try exact False.elim hallows
      obtain rfl : path = C.path p := hallows
      simp only [UserCall.exec] at h
      split at h
      · cases h
        exact .unasked (.inl rfl)
      · next hfree =>
          cases h
          exact .mkfifo hfree
  | openServerFifo =>
      cases phase <;> try exact False.elim hallows
      simp only [UserCall.exec] at h
      split at h
      · next hopen =>
          cases h
          exact .connect hopen.1
      · cases h
        exact .unasked (.inr (.inl rfl))
  | writeRequest request =>
      cases phase <;> try exact False.elim hallows
      simp only [UserCall.exec] at h
      split_ifs at h with hsending hroom
      · cases h
        exact .unasked (.inr (.inr rfl))
      · cases h
        rw [UserPhase.next, if_neg (by omega)]
        exact .write hallows (Bool.not_eq_false _ ▸ hsending)
      · cases h
        exact .unasked (.inr (.inr rfl))
  | closeServerFifo =>
      cases phase <;> try exact False.elim hallows
      cases h
      exact .disconnect
  | alarm seconds =>
      cases phase <;> try exact False.elim hallows
      · cases h
        exact .alarm (.inl rfl)
      · next bytes =>
          cases h
          exact .alarm (.inr ⟨bytes, rfl⟩)
  | openUserFifo path =>
      cases phase <;> try exact False.elim hallows
      obtain rfl : path = C.path p := hallows
      simp only [UserCall.exec] at h
      split at h
      · next hnamed =>
          cases h
          exact .wait hnamed
      · next hnamed =>
          cases h
          exact .unnamed hnamed
  | userFifoOpened =>
      cases phase <;> try exact False.elim hallows
      simp only [UserCall.exec] at h
      split at h
      · next hnotified =>
          cases h
          exact .opened hnotified
      · cases h
  | read m =>
      rcases reads_of_exec h with ⟨hreading, rfl, rfl⟩ | ⟨bytes, rfl, hreads⟩
      · cases phase <;> try exact False.elim hallows
        · exact .unread (.inl rfl) hreading
        · exact .unread (.inr ⟨_, rfl⟩) hreading
      · cases phase <;> try exact False.elim hallows
        · obtain rfl : m = _ := hallows
          exact .head hreads
        · obtain rfl : m = _ := hallows
          exact .got hreads
  | closeUserFifo =>
      cases phase <;> try exact False.elim hallows
      cases h
      exact .leave
  | unlink path =>
      cases phase <;> try exact False.elim hallows
      · obtain rfl : path = C.path p := hallows
        cases h
        exact .unlink (.inl rfl)
      · obtain rfl : path = C.path p := hallows
        cases h
        exact .unlink (.inr rfl)
  | exit status => cases h

/-! ## What follows from the phase of a user -/

/-- The name of its FIFO exists. -/
def UserPhase.hasFifo : UserPhase → Bool
  | .made | .connected | .wrote | .asked | .waiting | .opened | .head _ | .got _ => true
  | _ => false

/-- It has written its request. -/
def UserPhase.hasAsked : UserPhase → Bool
  | .wrote | .asked | .waiting | .opened | .head _ | .got _ | .satisfied => true
  | _ => false

/-- Whether it has its FIFO open. -/
def UserPhase.reading : UserPhase → Reading
  | .waiting => .waiting
  | .opened | .head _ | .got _ => .opened
  | _ => .closed

/-- What it has read, before it closes its FIFO. -/
def UserPhase.received : UserPhase → Option Bytes
  | .head bytes | .got bytes => some bytes
  | .satisfied | .leaving => none
  | _ => some []

/-- The requests that have been written in the name of a user. -/
def Outside.requestsOf (w : Outside P n) (C : Clientele P) (p : P) : List TlvRequest :=
  w.written.filter fun request => request.value.header.pid = C.pid p

/-- What holds of a user that has come so far. -/
structure UserInv (C : Clientele P) (w : Outside P n) (p : P) (phase : UserPhase) : Prop where
  /-- An interrupted or ended user is leaving. -/
  running : (w.users p).running = false → phase = .leaving
  /-- Its name stands for its FIFO. -/
  fifo : phase.hasFifo = true → w.fifos (C.path p) = some p
  /-- It has its FIFO open or not. -/
  reading : phase ≠ .leaving → (w.users p).reading = phase.reading
  /-- It has read what it has read. -/
  received : ∀ bytes, phase.received = some bytes → (w.users p).received = bytes
  /-- It has opened its FIFO together with a writer. -/
  notified : phase.reading = .opened → (w.users p).notified = true
  /-- Before it writes its request there is none of it. -/
  unasked : (w.users p).running = true → phase.hasAsked = false → w.requestsOf C p = []
  /-- There is one of it at most. -/
  once : (w.requestsOf C p).length ≤ 1

omit [DecidableEq P] in
/-- It depends on little. -/
theorem UserInv.congr (h : UserInv C w p phase)
    (hrunning : (w'.users p).running = (w.users p).running)
    (hreading : (w'.users p).reading = (w.users p).reading)
    (hreceived : (w'.users p).received = (w.users p).received)
    (hnotified : (w.users p).notified = true → (w'.users p).notified = true)
    (hfifos : w'.fifos (C.path p) = w.fifos (C.path p))
    (hrequests : w'.requestsOf C p = w.requestsOf C p) : UserInv C w' p phase where
  running hr := h.running (hrunning ▸ hr)
  fifo hf := hfifos ▸ h.fifo hf
  reading hne := hreading ▸ h.reading hne
  received bytes hb := hreceived ▸ h.received bytes hb
  notified ho := hnotified (h.notified ho)
  unasked hr ha := hrequests ▸ h.unasked (hrunning ▸ hr) ha
  once := hrequests ▸ h.once

omit [DecidableEq P] in
/-- Someone who makes a request is named by it. -/
theorem Clientele.Makes.pid {request : TlvRequest} (h : C.Makes p request) :
    request.value.header.pid = C.pid p := by
  obtain ⟨args, -, hrequest⟩ := h
  exact (createRequest_spec hrequest).2

omit [DecidableEq P] in
/-- A request that a user makes is well formed. -/
theorem Clientele.Makes.wellFormed {request : TlvRequest} (h : C.Makes p request) :
    request.WellFormed := by
  obtain ⟨args, -, hrequest⟩ := h
  exact (createRequest_spec hrequest).1

omit [DecidableEq P] in
/-- Different users have different names for their FIFOs. -/
theorem Clientele.path_injective (C : Clientele P) : Function.Injective C.path := fun _ _ h =>
  C.pid_injective (getUserFifoPath_injective h)

omit [DecidableEq P] in
/-- A request more. -/
theorem Outside.requestsOf_concat {request : TlvRequest}
    (hwritten : w'.written = w.written ++ [request]) :
    w'.requestsOf C p = if request.value.header.pid = C.pid p then w.requestsOf C p ++ [request]
      else w.requestsOf C p := by
  rw [requestsOf, hwritten, List.filter_append]
  split
  · next h => simp [requestsOf, h]
  · next h => simp [requestsOf, h]

/-- What a call of a user leaves alone. -/
structure UserFrame (C : Clientele P) (p : P) (w w' : Outside P n) : Prop where
  others : ∀ q, q ≠ p → w'.users q = w.users q
  running : (w'.users p).running = (w.users p).running
  writable : (w'.users p).writable = (w.users p).writable
  fifos : ∀ path, path ≠ C.path p → w'.fifos path = w.fifos path
  written : w'.written = w.written ∨
    ∃ request, C.Makes p request ∧ w'.written = w.written ++ [request]
  fds : w'.fds = w.fds
  pipes : w'.pipes = w.pipes

/-- A change of the state of the user only. -/
theorem userFrame_setUser (C : Clientele P) {u : UserState} (hrunning : u.running = (w.users p).running)
    (hwritable : u.writable = (w.users p).writable) : UserFrame C p w (w.setUser p u) where
  others q hq := Outside.setUser_users_of_ne hq
  running := by rwa [Outside.setUser_users_self]
  writable := by rwa [Outside.setUser_users_self]
  fifos _ _ := rfl
  written := .inl rfl
  fds := rfl
  pipes := rfl

/-- No call of a user changes more. -/
theorem UserStep.frame (h : UserStep C p w phase phase' w') : UserFrame C p w w' := by
  have hsame : UserFrame C p w w :=
    ⟨fun _ _ => rfl, rfl, rfl, fun _ _ => rfl, .inl rfl, rfl, rfl⟩
  have hnames : ∀ o, UserFrame C p w { w with fifos := Function.update w.fifos (C.path p) o } :=
    fun o => { hsame with fifos := fun _ hne => Function.update_of_ne hne .. }
  have hreads : ∀ {m bytes v}, UserRead p w m bytes v → UserFrame C p w v := by
    intro m bytes v hv
    cases hv with
    | nothing | ended => exact hsame
    | some => exact userFrame_setUser C rfl rfl
  cases h with
  | mkfifo | unlink => exact hnames _
  | connect | disconnect | alarm | wait | opened => exact userFrame_setUser C rfl rfl
  | write hmakes => exact { hsame with written := .inr ⟨_, hmakes, rfl⟩ }
  | head hv | got hv => exact hreads hv
  | leave =>
      refine ⟨fun q hq => ?_, ?_, ?_, fun _ _ => by simp, .inl (by simp), by simp, by simp⟩
      · rw [Outside.settle_users_of_ne hq, Outside.setUser_users_of_ne hq]
      · rw [Outside.settle_eq, Outside.setUser_users_self, Outside.setUser_users_self]
      · rw [Outside.settle_eq, Outside.setUser_users_self, Outside.setUser_users_self]
  | unasked | unnamed | unread => exact hsame

/-- A user gives its name to its own FIFO only. -/
theorem UserStep.names (h : UserStep C p w phase phase' w')
    (hfifos : ∀ path q, w.fifos path = some q → path = C.path q) :
    ∀ path q, w'.fifos path = some q → path = C.path q := by
  have hupdate : ∀ o : Option P, (∀ q, o = some q → q = p) → ∀ path q,
      Function.update w.fifos (C.path p) o path = some q → path = C.path q := by
    intro o ho path q hq
    by_cases hpath : path = C.path p
    · subst hpath
      rw [Function.update_self] at hq
      rw [ho q hq]
    · rw [Function.update_of_ne hpath] at hq
      exact hfifos path q hq
  have hreads : ∀ {m bytes v}, UserRead p w m bytes v →
      ∀ path q, v.fifos path = some q → path = C.path q := by
    intro m bytes v hv
    cases hv <;> exact hfifos
  cases h with
  | mkfifo => exact hupdate _ fun q hq => (Option.some.inj hq).symm
  | unlink => exact hupdate _ nofun
  | head hv | got hv => exact hreads hv
  | leave => simpa using hfifos
  | _ => exact hfifos

/-- What a user has read is what it has read before, and what it reads. -/
theorem UserRead.received {m : ℕ} {bytes : Bytes} (h : UserRead p w m bytes w') :
    (w'.users p).received = (w.users p).received ++ bytes ∧
      (w'.users p).reading = (w.users p).reading ∧ (w'.users p).notified = (w.users p).notified ∧
      w'.fifos = w.fifos ∧ w'.written = w.written := by
  cases h with
  | nothing | ended => exact ⟨(List.append_nil _).symm, rfl, rfl, rfl, rfl⟩
  | some =>
      rw [Outside.setUser_users_self]
      exact ⟨rfl, rfl, rfl, rfl, rfl⟩

omit [DecidableEq P] in
/-- A call of the user itself, that does not write a request, and does not open or close its FIFO. -/
theorem UserInv.quiet (h : UserInv C w p phase) (hne : phase ≠ .leaving)
    (hrunning : (w'.users p).running = (w.users p).running)
    (hreading : (w'.users p).reading = phase'.reading)
    (hreceived : ∀ bytes, phase'.received = some bytes → (w'.users p).received = bytes)
    (hnotified : phase'.reading = .opened → (w'.users p).notified = true)
    (hfifo : phase'.hasFifo = true → w'.fifos (C.path p) = some p)
    (hwritten : w'.written = w.written) (hasked : phase'.hasAsked = phase.hasAsked) :
    UserInv C w' p phase' where
  running hr := absurd (h.running (hrunning ▸ hr)) hne
  fifo := hfifo
  reading _ := hreading
  received := hreceived
  notified := hnotified
  unasked hr ha := by
    rw [Outside.requestsOf, hwritten]
    exact h.unasked (hrunning ▸ hr) (hasked ▸ ha)
  once := by
    rw [Outside.requestsOf, hwritten]
    exact h.once

omit [DecidableEq P] in
/-- A user that gives up before it has written a request. -/
theorem UserInv.leave (h : UserInv C w p phase) (hasked : phase.hasAsked = false) :
    UserInv C w p .leaving where
  running _ := rfl
  fifo := nofun
  reading hne := absurd rfl hne
  received := nofun
  notified := nofun
  unasked hr _ := h.unasked hr hasked
  once := h.once

/-- **A call of a user keeps what holds of it.** -/
theorem UserInv.step (h : UserInv C w p phase) (hs : UserStep C p w phase phase' w') :
    UserInv C w' p phase' := by
  have hframe := hs.frame.running
  cases hs with
  | mkfifo =>
      exact h.quiet nofun rfl (h.reading nofun) h.received nofun
        (fun _ => Function.update_self ..) rfl rfl
  | connect =>
      refine h.quiet nofun hframe ?_ ?_ nofun h.fifo rfl rfl <;> rw [Outside.setUser_users_self]
      · exact h.reading nofun
      · exact h.received
  | @write request hmakes hsending =>
      -- an ended user is past every call, so this one has asked nothing before
      have hrunning : (w.users p).running = true := by
        by_contra hr
        cases h.running (Bool.eq_false_iff.mpr hr)
      have hrequests : Outside.requestsOf { w with
          channel := w.channel ++ requestBytes request
          written := w.written ++ [request] } C p = w.requestsOf C p ++ [request] :=
        (Outside.requestsOf_concat rfl).trans (if_pos hmakes.pid)
      rw [h.unasked hrunning rfl] at hrequests
      refine ⟨fun hr => ?_, h.fifo, fun _ => h.reading nofun, h.received, nofun, nofun, ?_⟩
      · exact absurd (hrunning.symm.trans hr) nofun
      · rw [hrequests]
        exact Nat.le_refl 1
  | disconnect =>
      refine h.quiet nofun hframe ?_ ?_ nofun h.fifo rfl rfl <;> rw [Outside.setUser_users_self]
      · exact h.reading nofun
      · exact h.received
  | alarm hasked =>
      refine h.congr hframe ?_ ?_ ?_ rfl rfl <;> rw [Outside.setUser_users_self]
      exact id
  | wait hnamed =>
      refine h.quiet nofun hframe ?_ ?_ nofun h.fifo rfl rfl <;> rw [Outside.setUser_users_self]
      · rfl
      · exact h.received
  | opened hnotified =>
      refine h.quiet nofun hframe ?_ ?_ ?_ h.fifo rfl rfl <;> rw [Outside.setUser_users_self]
      · rfl
      · exact h.received
      · exact fun _ => hnotified
  | head hreads =>
      obtain ⟨hreceived, hreading, hnotified, hfifos, hwritten⟩ := hreads.received
      refine h.quiet nofun hframe (hreading.trans (h.reading nofun)) ?_ ?_ ?_ hwritten rfl
      · rintro bytes ⟨⟩
        rw [hreceived, h.received [] rfl, List.nil_append]
      · exact fun _ => hnotified.trans (h.notified rfl)
      · exact fun _ => hfifos ▸ h.fifo rfl
  | @got head _ _ hreads =>
      obtain ⟨hreceived, hreading, hnotified, hfifos, hwritten⟩ := hreads.received
      refine h.quiet nofun hframe (hreading.trans (h.reading nofun)) ?_ ?_ ?_ hwritten rfl
      · rintro bytes ⟨⟩
        rw [hreceived, h.received head rfl]
      · exact fun _ => hnotified.trans (h.notified rfl)
      · exact fun _ => hfifos ▸ h.fifo rfl
  | leave =>
      refine h.quiet nofun hframe ?_ nofun nofun nofun (by simp) rfl
      rw [Outside.settle_eq, Outside.setUser_users_self, Outside.setUser_users_self]
      rfl
  | unlink hdone =>
      refine ⟨h.running, fun hf => ?_, h.reading, h.received, h.notified, h.unasked, h.once⟩
      rcases hdone with rfl | rfl <;> cases hf
  | unasked hearly =>
      refine h.leave ?_
      rcases hearly with rfl | rfl | rfl <;> rfl
  | unnamed hne => exact absurd (h.fifo rfl) hne
  | unread hreads hne =>
      refine absurd (h.reading ?_) ?_
      · rcases hreads with rfl | ⟨bytes, rfl⟩ <;> nofun
      · rcases hreads with rfl | ⟨bytes, rfl⟩ <;> exact hne

/-- Another user does not notice it. -/
theorem UserInv.step_other (h : UserInv C w q phase) (hq : q ≠ p) {x x' : UserPhase}
    (hs : UserStep C p w x x' w') : UserInv C w' q phase := by
  have hu := hs.frame.others q hq
  refine h.congr (by rw [hu]) (by rw [hu]) (by rw [hu]) (by rw [hu]; exact id)
    (hs.frame.fifos _ (C.path_injective.ne hq)) ?_
  rcases hs.frame.written with hsame | ⟨request, hmakes, hmore⟩
  · rw [Outside.requestsOf, hsame, Outside.requestsOf]
  · rw [Outside.requestsOf_concat hmore, if_neg]
    rw [hmakes.pid]
    exact fun he => hq (C.pid_injective he).symm

omit [DecidableEq P] in
/-- A user that has ended, or has been interrupted. -/
theorem UserInv.interrupt (h : UserInv C w p phase) (hrunning : (w'.users p).running = false)
    (hwritten : w'.written = w.written) : UserInv C w' p .leaving where
  running _ := rfl
  fifo h := by cases h
  reading hne := absurd rfl hne
  received _ h := by cases h
  notified h := by cases h
  unasked hr := absurd (hrunning.symm.trans hr) Bool.false_ne_true
  once := by
    rw [Outside.requestsOf, hwritten]
    exact h.once

/-! ## All users -/

/-- The users have come so far. -/
structure UsersInv (C : Clientele P) (w : Outside P n) (phases : P → UserPhase) : Prop where
  /-- The rest of each user's program keeps to its phases. -/
  accepts : ∀ p, (userMonitor C p).Accepts (phases p) (w.users p).prog
  user : ∀ p, UserInv C w p (phases p)
  /-- The names of the FIFOs are those of their users. -/
  fifos : ∀ path p, w.fifos path = some p → path = C.path p
  /-- Every request has been made by a user. -/
  makes : ∀ request ∈ w.written, ∃ p, C.Makes p request

/-- A move of the world, with the phases of the users. -/
inductive PhasesMoved (C : Clientele P) (w : Outside P n) (phases : P → UserPhase) :
    Outside P n → (P → UserPhase) → Prop
  | step {p : P} {phase : UserPhase} {w₁ : Outside P n} {prog : User Unit}
      (step : UserStep C p w (phases p) phase w₁) :
      PhasesMoved C w phases (w₁.setUser p { w₁.users p with prog }) (Function.update phases p phase)
  | ended {p : P} : PhasesMoved C w phases (w.endUser p) (Function.update phases p .leaving)
  | alarm {p : P} {prog : User Unit} :
      PhasesMoved C w phases
        (w.setUser p { w.users p with prog, running := false, alarmed := false })
        (Function.update phases p .leaving)
  | pipe {w' : Outside P n} (moved : w.PipeMoved w') : PhasesMoved C w phases w' phases

variable {phases phases' : P → UserPhase}

omit [DecidableEq P] in
/-- At the start. -/
theorem usersInv_start (C : Clientele P) (n files : ℕ) :
    UsersInv C (.start C n files : Outside P n) fun _ => .fresh where
  accepts p := accepts_userMain C p
  user _ := ⟨nofun, nofun, fun _ => rfl, fun _ hb => Option.some.inj hb, nofun, fun _ _ => rfl,
    Nat.zero_le 1⟩
  fifos := nofun
  makes := nofun

/-- A change of one user. -/
theorem UsersInv.update (h : UsersInv C w phases)
    (haccepts : (userMonitor C p).Accepts phase (w'.users p).prog) (hp : UserInv C w' p phase)
    (hq : ∀ q, q ≠ p → (w'.users q).prog = (w.users q).prog ∧ UserInv C w' q (phases q))
    (hfifos : ∀ path q, w'.fifos path = some q → path = C.path q)
    (hmakes : ∀ request ∈ w'.written, ∃ p, C.Makes p request) :
    UsersInv C w' (Function.update phases p phase) := by
  refine ⟨fun q => ?_, fun q => ?_, hfifos, hmakes⟩
  · by_cases he : q = p
    · subst he
      rwa [Function.update_self]
    · rw [Function.update_of_ne he, (hq q he).1]
      exact h.accepts q
  · by_cases he : q = p
    · subst he
      rwa [Function.update_self]
    · rw [Function.update_of_ne he]
      exact (hq q he).2

/-- A user notices nothing, but perhaps that its FIFO has been opened. -/
structure Unnoticed (u u' : UserState) : Prop where
  prog : u'.prog = u.prog
  running : u'.running = u.running
  reading : u'.reading = u.reading
  received : u'.received = u.received
  sending : u'.sending = u.sending
  notified : u.notified = true → u'.notified = true

theorem Unnoticed.refl (u : UserState) : Unnoticed u u := ⟨rfl, rfl, rfl, rfl, rfl, id⟩

/-- What is unread in its FIFO may be lost. -/
theorem Outside.Faded.unnoticed {u u' : UserState} (h : Outside.Faded u u') : Unnoticed u u' := by
  rcases h with rfl | ⟨-, rfl⟩
  · exact .refl _
  · exact ⟨rfl, rfl, rfl, rfl, rfl, id⟩

/-- A change of one user that it does not notice. -/
theorem unnoticed_setUser {u : UserState} (h : Unnoticed (w.users p) u) (q : P) :
    Unnoticed (w.users q) ((w.setUser p u).users q) := by
  by_cases hq : q = p
  · subst hq
    rwa [Outside.setUser_users_self]
  · rw [Outside.setUser_users_of_ne hq]
    exact .refl _

/-- What happens to pipes is not noticed. -/
theorem Outside.PipeMoved.frame (h : w.PipeMoved w') :
    (∀ q, Unnoticed (w.users q) (w'.users q)) ∧ w'.fifos = w.fifos ∧ w'.written = w.written := by
  cases h with
  | opened | wroteServer | wrote => exact ⟨fun _ => .refl _, rfl, rfl⟩
  | wroteFifo => exact ⟨unnoticed_setUser ⟨rfl, rfl, rfl, rfl, rfl, id⟩, rfl, rfl⟩
  | @closed fd =>
      have hclosed := closeFd_users (w := { w with pipes := w.pipes.erase fd }) fd
      exact ⟨fun q => (hclosed q).unnoticed, by simp, by simp⟩

/-- Nor are the calls of the server. -/
theorem Outside.exec_unnoticed [Fintype P] {t : Thread n} {choice : Choice} {call : SysCall}
    {r : call.Res} (h : w.exec t choice call = some (r, w')) :
    (∀ q, Unnoticed (w.users q) (w'.users q)) ∧ w'.fifos = w.fifos ∧ w'.written = w.written := by
  have same : (∀ q, Unnoticed (w.users q) (w.users q)) ∧ w.fifos = w.fifos ∧
      w.written = w.written := ⟨fun _ => .refl _, rfl, rfl⟩
  cases call with
  | openFifo path =>
      rcases exec_openFifo h with ⟨-, rfl, -⟩ | ⟨p, -, -, -, rfl⟩
      · exact same
      · exact ⟨unnoticed_setUser ⟨rfl, rfl, rfl, rfl, rfl, fun _ => rfl⟩, rfl, rfl⟩
  | write fd bytes =>
      rcases exec_write h with ⟨p, o, -, -, -, rfl⟩ | ⟨-, -, rfl⟩ | ⟨-, -, rfl⟩
      · exact ⟨unnoticed_setUser ⟨rfl, rfl, rfl, rfl, rfl, id⟩, rfl, rfl⟩
      · exact same
      · exact same
  | close fd =>
      obtain rfl := exec_close h
      split
      · exact ⟨fun q => (closeFd_users _ q).unnoticed, by simp, by simp⟩
      · exact same
  | fchmod fd =>
      rcases exec_fchmod h with ⟨p, o, -, rfl⟩ | ⟨-, rfl⟩ | ⟨-, rfl⟩
      · exact ⟨unnoticed_setUser ⟨rfl, rfl, rfl, rfl, rfl, id⟩, rfl, rfl⟩
      · exact same
      · exact same
  | read fd m =>
      simp only [Outside.exec] at h
      split at h <;> try split_ifs at h
      all_goals cases h; exact same
  | newRequest =>
      simp only [Outside.exec] at h
      split at h <;> cases h
      exact same
  | _ => cases h; exact same

omit [DecidableEq P] in
/-- A change that the users do not notice. -/
theorem UsersInv.congr (h : UsersInv C w phases)
    (husers : ∀ p, Unnoticed (w.users p) (w'.users p)) (hfifos : w'.fifos = w.fifos)
    (hwritten : w'.written = w.written) : UsersInv C w' phases := by
  refine ⟨fun p => ?_, fun p => ?_, ?_, ?_⟩
  · rw [(husers p).prog]
    exact h.accepts p
  · obtain ⟨-, hrunning, hreading, hreceived, -, hnotified⟩ := husers p
    exact (h.user p).congr hrunning hreading hreceived hnotified (by rw [hfifos])
      (by rw [Outside.requestsOf, hwritten, Outside.requestsOf])
  · rw [hfifos]
    exact h.fifos
  · rw [hwritten]
    exact h.makes

/-- **The users keep their invariant**, whatever moves. -/
theorem UsersInv.move (h : UsersInv C w phases) {m : Move P} (hm : w.move C m = some w') :
    ∃ phases', PhasesMoved C w phases w' phases' ∧ UsersInv C w' phases' := by
  cases Outside.moved_of_move hm with
  | @step p c k r w₁ hprog hexec =>
      have hop := h.accepts p
      rw [hprog] at hop
      have hs := userStep_of_exec hop.op.1 hexec
      refine ⟨_, .step hs, h.update ?_ ?_ (fun q hq => ?_) ?_ ?_⟩
      · rw [Outside.setUser_users_self]
        exact hop.op.2 r
      -- the user that moves
      · have hp := (h.user p).step hs
        refine hp.congr ?_ ?_ ?_ ?_ rfl rfl <;> rw [Outside.setUser_users_self]
        exact id
      -- the others see only the names and the channel change
      · have hq' := (h.user q).step_other hq hs
        rw [Outside.setUser_users_of_ne hq]
        refine ⟨by rw [hs.frame.others q hq], hq'.congr ?_ ?_ ?_ ?_ rfl rfl⟩ <;>
          rw [Outside.setUser_users_of_ne hq]
        exact id
      · exact hs.names h.fifos
      · intro request hmem
        rcases hs.frame.written with hsame | ⟨request', hmakes, hmore⟩
        · exact h.makes request (hsame ▸ hmem)
        · have hmem : request ∈ w₁.written := hmem
          rw [hmore, List.mem_append, List.mem_singleton] at hmem
          rcases hmem with hmem | rfl
          · exact h.makes request hmem
          · exact ⟨p, hmakes⟩
  | @ended p =>
      have hself : Unnoticed (w.users p).ended ((w.endUser p).users p) :=
        Outside.endUser_users_self.unnoticed
      refine ⟨_, .ended, h.update ?_ ?_ (fun q hq => ?_) ?_ ?_⟩
      · rw [hself.prog]
        trivial
      · exact (h.user p).interrupt hself.running (by simp)
      · rw [Outside.endUser_users_of_ne hq]
        refine ⟨rfl, (h.user q).congr ?_ ?_ ?_ ?_ (by simp) (by simp [Outside.requestsOf])⟩ <;>
          rw [Outside.endUser_users_of_ne hq]
        exact id
      · simpa using h.fifos
      · simpa using h.makes
  | @alarm p =>
      refine ⟨_, .alarm, h.update ?_ ?_ (fun q hq => ?_) h.fifos h.makes⟩
      · rw [Outside.setUser_users_self]
        exact accepts_sigAlarmHandler
      · refine (h.user p).interrupt ?_ rfl
        rw [Outside.setUser_users_self]
      · rw [Outside.setUser_users_of_ne hq]
        refine ⟨rfl, (h.user q).congr ?_ ?_ ?_ ?_ rfl rfl⟩ <;> rw [Outside.setUser_users_of_ne hq]
        exact id
  | pipe hm =>
      obtain ⟨husers, hfifos, hwritten⟩ := hm.frame
      exact ⟨phases, .pipe hm, h.congr husers hfifos hwritten⟩

/-- **The users in every run.** -/
theorem usersInv_of_run [Fintype P] {files : ℕ} {tr : List (BankEvent C n files)}
    {c : BankConfig C n files} (h : (bank C n files).Run tr c) :
    ∃ phases, UsersInv C (worldOf c) phases := by
  refine bank_induction (I := fun _ w => ∃ phases, UsersInv C w phases) ?_ ?_ ?_ ?_ h
  · exact ⟨_, usersInv_start C n files⟩
  · rintro tr c m w' - ⟨phases, ih⟩ hm
    obtain ⟨phases', -, ih'⟩ := ih.move hm
    exact ⟨phases', ih'⟩
  · rintro tr c c' t choice w' x' call k r - - - - - ⟨phases, ih⟩ hexec
    obtain ⟨husers, hfifos, hwritten⟩ := Outside.exec_unnoticed hexec
    exact ⟨phases, ih.congr husers hfifos hwritten⟩
  · intro tr c c' t x' o k r _ _ _ _ _ _ ih
    exact ih

end Sope
