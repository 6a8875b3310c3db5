import Sope.Clients.Replies
import Sope.Clients.ReplyDecoding

/-! # A waiting user gets its reply

What becomes of the reply to a user that has not ended and has not been interrupted, when the offices
open the FIFOs of such users only after they have begun to open them: the open succeeds, the user waits
until the reply is written, and reads all of it.

* `FindsReader` — the condition on one operation.
* `WaitInv` — what has been written to a user, and how far it has come.
* `reply_reaches_user` — the property. -/

namespace Sope

open Concurrency

variable {P : Type} [DecidableEq P] {C : Clientele P} {n files : ℕ}

/-! ## Offices that hold a FIFO, or have given up -/

/-- The request of an office that has opened its FIFO and has not written the reply yet. -/
def Errand.holds : Errand → Option TlvRequest
  | .holding request _ => some request
  | _ => none

/-- The request of an office that could not open its FIFO. -/
def Errand.gaveUp : Errand → Option TlvRequest
  | .missed request | .dropped request => some request
  | _ => none

section Errand

variable {setup : Setup} {x x' : Errand} {o : ServerOp} {r : ServerRes o} {q : TlvRequest}

/-- It has the FIFO in hand. -/
theorem exists_inHand_of_holds (h : x.holds = some q) :
    ∃ fd, x = .holding q fd ∧ x.inHand = some (q, fd) := by
  cases x with
  | holding q fd =>
      cases h
      exact ⟨fd, rfl, rfl⟩
  | _ => cases h

/-- An office holds the FIFO until it writes. -/
theorem ErrandStep.holds_eq (h : ErrandStep setup x o r x')
    (hopen : ∀ path, o ≠ .ext (.sys (.openFifo path)))
    (hwrite : ∀ fd bytes, o ≠ .ext (.sys (.write fd bytes))) : x'.holds = x.holds := by
  cases h with
  | missed | holding => exact absurd rfl (hopen _)
  | written | unwritten => exact absurd rfl (hwrite _ _)
  | failed hx => rcases hx with ⟨memory, rfl, -⟩ | ⟨memory, rfl, -⟩ <;> rfl
  | _ => rfl

/-- An office gives up only when it opens. -/
theorem ErrandStep.gaveUp_eq (h : ErrandStep setup x o r x')
    (hopen : ∀ path, o ≠ .ext (.sys (.openFifo path)))
    (hx' : x'.gaveUp = some q) : x.gaveUp = some q := by
  cases h with
  | missed | holding => exact absurd rfl (hopen _)
  | memory | unnoticed | hashed | dropped => exact hx'
  | _ => cases hx'

end Errand

/-! ## What holds of a user that waits -/

/-- What holds of a user that has not ended and has not been interrupted, and has come so far: `replies`
have been written into its FIFO, and `computed` are the replies to requests of it that have been
managed. -/
structure WaitInv (pid : UInt32) (x : Thread n → Errand) (replies : List Bytes)
    (computed : List TlvReply) (u : UserState) (phase : UserPhase) : Prop where
  /-- Nothing has been lost. -/
  stream : u.stream = replies.flatten
  /-- There is nothing in the FIFO when it does not have it open. -/
  unread : u.reading = .closed → u.content = []
  /-- If an office has opened its FIFO, then it still has it, or it has written the reply. -/
  notified : u.notified = true → replies ≠ [] ∨ ∃ t q, (x t).holds = some q ∧ q.isFrom pid = true
  /-- What it has read first is type and length of the reply. -/
  head : ∀ bytes, phase = .head bytes → ∃ reply : TlvReply, reply.length.toNat ≤ 12 ∧
    replies = [replyBytes reply] ∧ bytes = (replyBytes reply).take sizeofTypeLength
  /-- Then it has read all of it. -/
  got : ∀ bytes, phase = .got bytes → replies ≠ [] ∧ u.content = []
  /-- No office has given up the reply to it. -/
  answered : ∀ t q, (x t).gaveUp = some q → q.isFrom pid = false
  /-- What has been computed has been written. -/
  agrees : ∀ reply ∈ computed, replies = [replyBytes reply]

/-- A user stays as it is, but perhaps what is unread in its FIFO is lost, and it does not read it. -/
structure Kept (u u' : UserState) : Prop where
  running : u'.running = u.running
  reading : u'.reading = u.reading
  notified : u'.notified = u.notified
  received : u'.received = u.received
  content : u'.content = u.content ∨ u.reading = .closed ∧ u'.content = []

theorem Kept.refl (u : UserState) : Kept u u := ⟨rfl, rfl, rfl, rfl, .inl rfl⟩

theorem Outside.Faded.kept {u u' : UserState} (h : Outside.Faded u u') : Kept u u' := by
  rcases h with rfl | ⟨hclosed, rfl⟩
  · exact .refl _
  · exact ⟨rfl, rfl, rfl, rfl, .inr ⟨hclosed, rfl⟩⟩

section WaitInv

variable {pid : UInt32} {x : Thread n → Errand} {replies : List Bytes} {computed : List TlvReply}
  {u u' : UserState} {phase phase' : UserPhase} {w w' : Outside P n} {p : P}

/-- Such a change does not matter. -/
theorem WaitInv.congr (h : WaitInv pid x replies computed u phase) (hu : Kept u u')
    (hhead : ∀ bytes, phase' = .head bytes → phase = .head bytes)
    (hgot : ∀ bytes, phase' = .got bytes → phase = .got bytes) :
    WaitInv pid x replies computed u' phase' := by
  have hcontent : u'.content = u.content := by
    rcases hu.content with he | ⟨hclosed, he⟩
    · exact he
    · rw [he, h.unread hclosed]
  refine ⟨?_, fun hr => ?_, fun hn => ?_, fun bytes hb => ?_, fun bytes hb => ?_, h.answered, h.agrees⟩
  · rw [UserState.stream, hu.received, hcontent]
    exact h.stream
  · rw [hcontent]
    exact h.unread (hu.reading ▸ hr)
  · exact h.notified (hu.notified ▸ hn)
  · exact h.head bytes (hhead bytes hb)
  · rw [hcontent]
    exact h.got bytes (hgot bytes hb)

/-- The first read: it waits for the reply. -/
theorem WaitInv.readHead (h : WaitInv pid x replies computed (w.users p) .opened)
    (hinv : UserInv C w p .opened)
    (hreplies : replies = [] ∨ ∃ reply : TlvReply, reply.length.toNat ≤ 12 ∧
      replies = [replyBytes reply])
    (hopen : (∃ t q, (x t).holds = some q ∧ q.isFrom pid = true) → w.isOpen p = true) {bytes : Bytes}
    (hreads : UserRead p w sizeofTypeLength bytes w') :
    WaitInv pid x replies computed (w'.users p) (.head bytes) := by
  have hcontent : (w.users p).content = replies.flatten := by
    rw [← h.stream, UserState.stream, hinv.received [] rfl, List.nil_append]
  have hstream := hreads.stream
  obtain ⟨-, hreading, hnotified, -, -⟩ := hreads.received
  -- the user was notified: an office holds its FIFO or has replied to it
  have hwritten : ∃ reply : TlvReply, reply.length.toNat ≤ 12 ∧ replies = [replyBytes reply] := by
    refine hreplies.resolve_left fun hnil => ?_
    rw [hnil] at hcontent
    cases hreads with
    | nothing hzero => cases hzero
    | ended _ _ hclosed =>
        rcases h.notified (hinv.notified rfl) with hne | hheld
        · exact hne hnil
        · cases (hopen hheld).symm.trans hclosed
    | some _ hne => exact hne hcontent
  obtain ⟨reply, hlen, hreply⟩ := hwritten
  rw [hreply, List.flatten_singleton] at hcontent
  have hbytes : bytes = (replyBytes reply).take sizeofTypeLength := by
    cases hreads with
    | nothing hzero => cases hzero
    | ended _ hempty =>
        have := congrArg List.length (hempty.symm.trans hcontent)
        rw [length_replyBytes hlen, List.length_nil, sizeofTypeLength] at this
        omega
    | some => rw [hcontent]
  refine ⟨hstream.trans h.stream, fun hr => ?_, fun _ => ?_, ?_, fun _ => UserPhase.noConfusion, h.answered, h.agrees⟩
  · cases (hr.symm.trans hreading).trans (hinv.reading UserPhase.noConfusion)
  · rw [hreply]
    exact .inl (List.cons_ne_nil _ _)
  · rintro _ ⟨⟩
    exact ⟨reply, hlen, hreply, hbytes⟩

/-- The second read: it takes the rest of the reply. -/
theorem WaitInv.readValue {head bytes : Bytes}
    (h : WaitInv pid x replies computed (w.users p) (.head head)) (hinv : UserInv C w p (.head head))
    (hreads : UserRead p w (decodeWord (overlay newReply 0 head) 4).toNat bytes w') :
    WaitInv pid x replies computed (w'.users p) (.got (head ++ bytes)) := by
  obtain ⟨reply, hlen, hreply, rfl⟩ := h.head head rfl
  have hstream := h.stream
  rw [UserState.stream, hinv.received _ rfl, hreply, List.flatten_singleton] at hstream
  have hcontent : (w.users p).content = (replyBytes reply).drop sizeofTypeLength := by
    conv_rhs at hstream => rw [← List.take_append_drop sizeofTypeLength (replyBytes reply)]
    exact List.append_cancel_left hstream
  have hrest : (w.users p).content.length = reply.length.toNat := by
    rw [hcontent, List.length_drop, length_replyBytes hlen]
    omega
  rw [decodeWord_replyLength] at hreads
  obtain ⟨-, hreading, -⟩ := hreads.received
  have hempty : (w'.users p).content = [] := by
    cases hreads with
    | nothing hzero => exact List.eq_nil_of_length_eq_zero (hrest.trans hzero)
    | ended _ hempty => exact hempty
    | some =>
        rw [Outside.setUser_users_self]
        exact List.drop_of_length_le hrest.le
  refine ⟨hreads.stream.trans h.stream, fun _ => hempty, fun _ => ?_, nofun, ?_, h.answered, h.agrees⟩
  · exact .inl (by rw [hreply]; nofun)
  · rintro _ ⟨⟩
    exact ⟨by rw [hreply]; nofun, hempty⟩

/-- **A call of the user itself.** -/
theorem WaitInv.step (h : WaitInv pid x replies computed (w.users p) phase) (hinv : UserInv C w p phase)
    (hs : UserStep C p w phase phase' w')
    (hreplies : replies = [] ∨ ∃ reply : TlvReply, reply.length.toNat ≤ 12 ∧
      replies = [replyBytes reply])
    (hopen : (∃ t q, (x t).holds = some q ∧ q.isFrom pid = true) → w.isOpen p = true) :
    WaitInv pid x replies computed (w'.users p) phase' := by
  cases hs with
  | mkfifo | write | unasked | unnamed | unread => exact h.congr (.refl _) nofun nofun
  | unlink => exact h.congr (.refl _) (fun _ => id) fun _ => id
  | connect | disconnect =>
      refine h.congr ?_ nofun nofun
      rw [Outside.setUser_users_self]
      exact ⟨rfl, rfl, rfl, rfl, .inl rfl⟩
  | alarm =>
      refine h.congr ?_ (fun _ => id) fun _ => id
      rw [Outside.setUser_users_self]
      exact ⟨rfl, rfl, rfl, rfl, .inl rfl⟩
  | wait =>
      rw [Outside.setUser_users_self]
      exact ⟨h.stream, nofun, nofun, nofun, nofun, h.answered, h.agrees⟩
  | opened hnotified =>
      rw [Outside.setUser_users_self]
      exact ⟨h.stream, nofun, h.notified, nofun, nofun, h.answered, h.agrees⟩
  | head hreads => exact h.readHead hinv hreplies hopen hreads
  | got hreads => exact h.readValue hinv hreads
  | @leave bytes =>
      obtain ⟨hne, hempty⟩ := h.got bytes rfl
      have hclosed : WaitInv pid x replies computed { w.users p with reading := .closed } .satisfied :=
        ⟨h.stream, fun _ => hempty, h.notified, nofun, nofun, h.answered, h.agrees⟩
      have hfaded := Outside.settle_users
        (w := w.setUser p { w.users p with reading := .closed }) (p := p) p
      rw [Outside.setUser_users_self] at hfaded
      exact hclosed.congr hfaded.kept nofun nofun

/-- Someone else's errand. -/
theorem WaitInv.errand (h : WaitInv pid x replies computed u phase) {t : Thread n} {x' : Errand}
    (hholds : x'.holds = (x t).holds) (hgaveUp : ∀ q, x'.gaveUp = some q → (x t).gaveUp = some q) :
    WaitInv pid (Function.update x t x') replies computed u phase := by
  refine ⟨h.stream, h.unread, fun hn => ?_, h.head, h.got, fun v q hv => ?_, h.agrees⟩
  · refine (h.notified hn).imp_right ?_
    rintro ⟨v, q, hv, hq⟩
    refine ⟨v, q, ?_, hq⟩
    by_cases hvt : v = t
    · subst hvt
      rwa [Function.update_self, hholds]
    · rwa [Function.update_of_ne hvt]
  · by_cases hvt : v = t
    · subst hvt
      rw [Function.update_self] at hv
      exact h.answered v q (hgaveUp q hv)
    · rw [Function.update_of_ne hvt] at hv
      exact h.answered v q hv

/-- An office opens a FIFO: it holds the FIFO of the user, which is notified, or it has not looked for
it. -/
theorem WaitInv.openFifo (h : WaitInv pid x replies computed u phase) {t : Thread n} {x' : Errand}
    (hx : (x t).holds = none) (hanswered : ∀ q, x'.gaveUp = some q → q.isFrom pid = false)
    (hu : u' = u ∨ u' = { u with notified := true } ∧ ∃ q, x'.holds = some q ∧ q.isFrom pid = true) :
    WaitInv pid (Function.update x t x') replies computed u' phase := by
  have hothers : ∀ v q, (Function.update x t x' v).gaveUp = some q → q.isFrom pid = false := by
    intro v q hv
    by_cases hvt : v = t
    · subst hvt
      rw [Function.update_self] at hv
      exact hanswered q hv
    · rw [Function.update_of_ne hvt] at hv
      exact h.answered v q hv
  rcases hu with rfl | ⟨rfl, q, hq, hfrom⟩
  · refine ⟨h.stream, h.unread, fun hn => ?_, h.head, h.got, hothers, h.agrees⟩
    refine (h.notified hn).imp_right ?_
    rintro ⟨v, q, hv, hq⟩
    refine ⟨v, q, ?_, hq⟩
    rwa [Function.update_of_ne]
    rintro rfl
    cases hx.symm.trans hv
  · exact ⟨h.stream, h.unread, fun _ => .inr ⟨t, q, by rwa [Function.update_self], hfrom⟩, h.head,
      h.got, hothers, h.agrees⟩

/-- An office writes to another user. -/
theorem WaitInv.wroteOther (h : WaitInv pid x replies computed u phase) {t : Thread n} {q : TlvRequest}
    {fd : Int} {bytes : Bytes} (hx : x t = .holding q fd) (hq : q.isFrom pid = false) :
    WaitInv pid (Function.update x t (.written q fd bytes)) replies computed u phase := by
  refine ⟨h.stream, h.unread, fun hn => ?_, h.head, h.got, fun v q' hv => ?_, h.agrees⟩
  · refine (h.notified hn).imp_right ?_
    rintro ⟨v, q', hv, hq'⟩
    refine ⟨v, q', ?_, hq'⟩
    rwa [Function.update_of_ne]
    rintro rfl
    rw [hx] at hv
    cases hv
    cases hq.symm.trans hq'
  · by_cases hvt : v = t
    · subst hvt
      rw [Function.update_self] at hv
      cases hv
    · rw [Function.update_of_ne hvt] at hv
      exact h.answered v q' hv

/-- An office writes the reply to the user. -/
theorem WaitInv.wrote (h : WaitInv pid x [] [] u phase) {t : Thread n} {q : TlvRequest}
    {fd : Int} {bytes : Bytes} (hreading : u.reading ≠ .closed) :
    WaitInv pid (Function.update x t (.written q fd bytes)) [bytes] []
      { u with content := u.content ++ bytes } phase := by
  refine ⟨?_, fun hr => absurd hr hreading, fun _ => .inl nofun, fun b hb => ?_, fun b hb => ?_,
    fun v q' hv => ?_, nofun⟩
  · show u.received ++ (u.content ++ bytes) = _
    rw [← List.append_assoc]
    show u.stream ++ bytes = _
    rw [h.stream, List.flatten_singleton]
    rfl
  · obtain ⟨reply, -, hnil, -⟩ := h.head b hb
    cases hnil
  · exact absurd rfl (h.got b hb).1
  · by_cases hvt : v = t
    · subst hvt
      rw [Function.update_self] at hv
      cases hv
    · rw [Function.update_of_ne hvt] at hv
      exact h.answered v q' hv

/-- A request of the user has been managed. -/
theorem WaitInv.manage (h : WaitInv pid x replies computed u phase) {t : Thread n} {reply : TlvReply}
    (hx : (x t).holds = none) (hreply : replies = [replyBytes reply]) (hnil : computed = []) :
    WaitInv pid (Function.update x t .idle) replies (computed ++ [reply]) u phase := by
  have hidle : WaitInv pid (Function.update x t .idle) replies computed u phase :=
    h.errand hx.symm nofun
  refine ⟨hidle.stream, hidle.unread, hidle.notified, hidle.head, hidle.got, hidle.answered, ?_⟩
  intro reply' hmem
  rw [hnil, List.nil_append, List.mem_singleton] at hmem
  rw [hmem]
  exact hreply

end WaitInv

/-! ## The calls of the server -/

/-- A call that neither opens a FIFO nor writes keeps the users. -/
theorem Outside.exec_kept [Fintype P] {w w' : Outside P n} {t : Thread n} {choice : Choice}
    {call : SysCall} {r : call.Res} (h : w.exec t choice call = some (r, w'))
    (hopen : ∀ path, call ≠ .openFifo path) (hwrite : ∀ fd bytes, call ≠ .write fd bytes) (p : P) :
    Kept (w.users p) (w'.users p) := by
  cases call with
  | openFifo path => exact absurd rfl (hopen path)
  | write fd bytes => exact absurd rfl (hwrite fd bytes)
  | close fd =>
      obtain rfl := exec_close h
      split
      · exact (closeFd_users _ p).kept
      · exact .refl _
  | fchmod fd =>
      rcases exec_fchmod h with ⟨q, o, -, rfl⟩ | ⟨-, rfl⟩ | ⟨-, rfl⟩
      · by_cases hp : p = q
        · subst hp
          rw [setUser_users_self]
          exact ⟨rfl, rfl, rfl, rfl, .inl rfl⟩
        · rw [setUser_users_of_ne hp]
          exact .refl _
      · exact .refl _
      · exact .refl _
  | read fd m =>
      simp only [Outside.exec] at h
      split at h <;> try split_ifs at h
      all_goals cases h; exact .refl _
  | newRequest =>
      simp only [Outside.exec] at h
      split at h <;> cases h
      exact .refl _
  | _ =>
      cases h
      exact .refl _

/-- An office that holds the FIFO of a user keeps it open. -/
theorem OwnInv.isOpen {x : Thread n → Errand} {w : Outside P n} (h : OwnInv C x w) {p : P}
    (hx : ∃ t q, (x t).holds = some q ∧ q.isFrom (C.pid p) = true) : w.isOpen p = true := by
  obtain ⟨t, q, hq, hfrom⟩ := hx
  obtain ⟨fd, -, hhand⟩ := exists_inHand_of_holds hq
  obtain ⟨p', hpid, hfd⟩ := h.inHand t q fd hhand
  obtain rfl : p' = p := C.pid_injective (hpid.trans (of_decide_eq_true hfrom))
  unfold Outside.descriptor at hfd
  split at hfd
  · refine List.any_eq_true.mpr ⟨fd.toNat, List.mem_range.mpr (FdTable.lt_size_of_get hfd), ?_⟩
    rw [hfd]
    exact decide_eq_true rfl
  · cases hfd

/-! ## Runs -/

section Runs

variable [Fintype P] {tr : List (BankEvent C n files)} {c : BankConfig C n files}

/-- When an office opens the FIFO of a user that has not ended and has not been interrupted, the user has
begun to open it for reading. -/
def FindsReader (e : BankEvent C n files) : Prop :=
  ∀ p, e.op = .ext (.sys (.openFifo (C.path p))) → ((worldAt e).users p).running = true →
    ((worldAt e).users p).reading ≠ .closed

/-- At most one reply is written to a user, and it is as long as it says. -/
theorem repliesTo_of_run (h : (bank C n files).Run tr c) (hspares : Always SparesOthers tr) (p : P) :
    repliesTo p tr = [] ∨ ∃ reply : TlvReply, reply.length.toNat ≤ 12 ∧
      repliesTo p tr = [replyBytes reply] := by
  have hlen : (repliesTo p tr).length ≤ 1 := by
    have := (replyInv_of_run h hspares p).replied
    have := popped_le_one h p
    omega
  by_cases hnil : repliesTo p tr = []
  · exact .inl hnil
  obtain ⟨bytes, hbytes⟩ : ∃ b, repliesTo p tr = [b] := by
    rw [← List.length_eq_one_iff]
    have := List.length_pos_iff.mpr hnil
    omega
  have hmem : bytes ∈ repliesTo p tr := by simp [hbytes]
  obtain ⟨e, hmem, he⟩ := List.mem_filterMap.mp hmem
  obtain ⟨tr₁, tr₂, htr⟩ := List.append_of_mem hmem
  obtain ⟨request, -, -, q, fd, reply, -, -, hfor, rfl⟩ := exists_request_of_replied h hspares htr he
  exact .inr ⟨reply, hfor.length, hbytes⟩

omit [DecidableEq P] [Fintype P] in
/-- A user whose request is in hand has written it, and its FIFO has its name until it has read the
reply. -/
theorem UserInv.asked {w : Outside P n} {p : P} {phase : UserPhase} (h : UserInv C w p phase)
    (hrunning : (w.users p).running = true) {request : TlvRequest} (hmem : request ∈ w.written)
    (hmakes : C.Makes p request) : phase.hasAsked = true := by
  by_contra hasked
  have hnil := h.unasked hrunning (Bool.eq_false_iff.mpr hasked)
  have hmem : request ∈ w.requestsOf C p :=
    List.mem_filter.mpr ⟨hmem, decide_eq_true hmakes.pid⟩
  rw [hnil] at hmem
  cases hmem

/-- Opening the FIFO of a user that has begun to open it succeeds. -/
theorem openFifo_of_findsReader {t : Thread n} {choice : Choice} {w' : Outside P n} {q : TlvRequest}
    {p : P} {phase : UserPhase} {r : Int} (h : (bank C n files).Run tr c)
    (hown : OwnInv C (bankErrands tr) (worldOf c)) (hinv : UserInv C (worldOf c) p phase)
    (hrunning : ((worldOf c).users p).running = true) (hq : (bankErrands tr t).request = some q)
    (hfrom : q.isFrom (C.pid p) = true) (hreading : ((worldOf c).users p).reading ≠ .closed)
    (hexec : (worldOf c).exec t choice (.openFifo (getUserFifoPath q.value.header.pid)) = some (r, w')) :
    r ≠ -1 := by
  obtain ⟨request, hmem, hmakes, -⟩ := exists_original h (mem_popped_of_request h hq) hfrom
  have hasked := hinv.asked hrunning hmem hmakes
  have hpath : getUserFifoPath q.value.header.pid = C.path p :=
    congrArg getUserFifoPath (of_decide_eq_true hfrom)
  rw [hpath] at hexec
  rcases Outside.exec_openFifo hexec with ⟨-, -, hclosed⟩ | ⟨p', -, -, rfl, -⟩
  · have hfifo : phase.hasFifo = true := by
      have hphase := hinv.reading (by rintro rfl; cases hasked)
      rw [hphase] at hreading
      cases phase <;> first | rfl | exact absurd rfl hreading
    rcases hclosed p (hinv.fifo hfifo) with hwritable | hclosed
    · cases hwritable.symm.trans (hown.writable p)
    · exact absurd hclosed hreading
  · omega

/-- All users. -/
def Waits (C : Clientele P) (tr : List (BankEvent C n files)) (w : Outside P n)
    (phases : P → UserPhase) : Prop :=
  ∀ p, (w.users p).running = true → WaitInv (C.pid p) (bankErrands tr) (repliesTo p tr)
    (computedFor (C.pid p) tr) (w.users p) (phases p)

/-- The moves of the users and of the pipes. -/
theorem Waits.move {w' : Outside P n} {phases phases' : P → UserPhase}
    (h : Waits C tr (worldOf c) phases) (hr : (bank C n files).Run tr c)
    (hspares : Always SparesOthers tr) (husers : UsersInv C (worldOf c) phases)
    (hm : PhasesMoved C (worldOf c) phases w' phases') : Waits C tr w' phases' := by
  have hown := ownInv_of_run hr hspares
  intro p hrunning
  cases hm with
  | @step p₀ phase w₁ prog hs =>
      by_cases hp : p = p₀
      · subst hp
        rw [Outside.setUser_users_self] at hrunning ⊢
        rw [Function.update_self]
        have hstep := (h p (hs.frame.running ▸ hrunning)).step (husers.user p) hs
          (repliesTo_of_run hr hspares p) hown.isOpen
        exact hstep.congr ⟨rfl, rfl, rfl, rfl, .inl rfl⟩ (fun _ => id) fun _ => id
      · rw [Outside.setUser_users_of_ne hp, hs.frame.others p hp] at hrunning ⊢
        rw [Function.update_of_ne hp]
        exact h p hrunning
  | @ended p₀ =>
      by_cases hp : p = p₀
      · subst hp
        cases (Outside.endUser_users_self.unnoticed.running.symm.trans hrunning)
      · rw [Outside.endUser_users_of_ne hp] at hrunning ⊢
        rw [Function.update_of_ne hp]
        exact h p hrunning
  | @alarm p₀ prog =>
      by_cases hp : p = p₀
      · subst hp
        rw [Outside.setUser_users_self] at hrunning
        cases hrunning
      · rw [Outside.setUser_users_of_ne hp] at hrunning ⊢
        rw [Function.update_of_ne hp]
        exact h p hrunning
  | pipe hm =>
      -- a pipe that drains or closes changes nothing a user waits for
      have hkept := (hm.faded hown.pipes p).kept
      exact (h p (hkept.running ▸ hrunning)).congr hkept (fun _ => id) fun _ => id

/-- An office opens a FIFO. -/
theorem Waits.openFifo {t : Thread n} {choice : Choice} {w' : Outside P n} {x' : Errand}
    {phases : P → UserPhase} {path : Bytes} {r : Int} (h : Waits C tr (worldOf c) phases)
    (hr : (bank C n files).Run tr c) (hspares : Always SparesOthers tr)
    (husers : UsersInv C (worldOf c) phases)
    (hfinds : ∀ p, path = C.path p → ((worldOf c).users p).running = true →
      ((worldOf c).users p).reading ≠ .closed)
    (hstep : ErrandStep (bankSetup n files) (bankErrands tr t) (.ext (.sys (.openFifo path))) r x')
    (hexec : (worldOf c).exec t choice (.openFifo path) = some (r, w')) {p : P}
    (hrunning : (w'.users p).running = true) :
    WaitInv (C.pid p) (Function.update (bankErrands tr) t x') (repliesTo p tr)
      (computedFor (C.pid p) tr) (w'.users p) (phases p) := by
  obtain ⟨hunnoticed, -⟩ := Outside.exec_unnoticed hexec
  have hrunning : ((worldOf c).users p).running = true := (hunnoticed p).running ▸ hrunning
  obtain ⟨q, hx, rfl, hx'⟩ := hstep.of_openFifo
  have hholds : (bankErrands tr t).holds = none := by
    rcases hx with hx | hx <;> rw [hx] <;> rfl
  have hrequest : (bankErrands tr t).request = some q := by
    rcases hx with hx | hx <;> rw [hx] <;> rfl
  refine (h p hrunning).openFifo hholds (fun q' hq' => ?_) ?_
  · -- an office that has given up has not found this user
    rcases hx' with ⟨rfl, rfl⟩ | ⟨-, rfl⟩
    · cases hq'
      by_contra hfrom
      have hfrom := Bool.not_eq_false _ ▸ hfrom
      have hpath : getUserFifoPath q.value.header.pid = C.path p :=
        congrArg getUserFifoPath (of_decide_eq_true hfrom)
      exact openFifo_of_findsReader hr (ownInv_of_run hr hspares) (husers.user p) hrunning hrequest
        hfrom (hfinds p hpath hrunning) hexec rfl
    · cases hq'
  · rcases Outside.exec_openFifo hexec with ⟨-, rfl, -⟩ | ⟨p', hp', -, rfl, rfl⟩
    · exact .inl rfl
    -- the FIFO opened is that of the one user whose pid names it
    · obtain rfl : x' = .holding q (worldOf c).fds.lowest := by
        rcases hx' with ⟨hr, -⟩ | ⟨-, hx'⟩
        · omega
        · exact hx'
      by_cases hp : p = p'
      · subst hp
        have hpid : q.value.header.pid = C.pid p :=
          getUserFifoPath_injective (husers.fifos _ p hp')
        refine .inr ⟨?_, q, rfl, decide_eq_true hpid⟩
        exact Outside.setUser_users_self
      · exact .inl (Outside.setUser_users_of_ne hp)

/-- An office writes a reply. -/
theorem Waits.write {t : Thread n} {choice : Choice} {w' : Outside P n} {x' : Errand}
    {phases : P → UserPhase} {fd : Int} {bytes : Bytes} {r : Int}
    (h : Waits C tr (worldOf c) phases) (hr : (bank C n files).Run tr c)
    (hspares : Always SparesOthers tr)
    (hstep : ErrandStep (bankSetup n files) (bankErrands tr t) (.ext (.sys (.write fd bytes))) r x')
    (hexec : (worldOf c).exec t choice (.write fd bytes) = some (r, w')) {p : P}
    (hrunning : (w'.users p).running = true) :
    WaitInv (C.pid p) (Function.update (bankErrands tr) t x')
      (repliesTo p tr ++ ((worldOf c).delivers p (.write fd bytes)).toList)
      (computedFor (C.pid p) tr) (w'.users p) (phases p) := by
  obtain ⟨hunnoticed, -⟩ := Outside.exec_unnoticed hexec
  have hbefore : ((worldOf c).users p).running = true := (hunnoticed p).running ▸ hrunning
  have hown := ownInv_of_run hr hspares
  obtain ⟨q, reply, hx, -, -, hx'⟩ := hstep.of_write
  have hhand : (bankErrands tr t).inHand = some (q, fd) := by
    rw [hx]
    rfl
  obtain rfl := (hx'.resolve_left fun he => hown.write_ne hhand hexec he.1).2
  obtain ⟨p', hpid, hfd⟩ := hown.inHand t q fd hhand
  rcases Outside.exec_write hexec with ⟨p₁, o, hfd', hreading, -, rfl⟩ | ⟨hfd', -⟩ | ⟨hfd', -⟩
  · cases hfd.symm.trans hfd'
    by_cases hp : p = p'
    · subst hp
      have hfrom : q.isFrom (C.pid p) = true := decide_eq_true hpid.symm
      -- its own user: before this `write` nothing was replied to it nor managed for it
      have hinv := replyInv_of_run hr hspares p
      have hone := popped_le_one hr p
      have hwait := h p hbefore
      rw [hinv.replies_eq_nil hone (by rw [hx]; rfl) (by rw [hx]; rfl) hfrom,
        hinv.computed_eq_nil hone (by rw [hx]; rfl) hfrom] at hwait ⊢
      rw [Outside.setUser_users_self, Outside.delivers_write hfd, if_pos rfl]
      exact hwait.wrote hreading
    -- the FIFO of another user
    · have hfrom : q.isFrom (C.pid p) = false := by
        refine decide_eq_false ?_
        rw [← hpid]
        exact fun he => hp (C.pid_injective he).symm
      rw [Outside.setUser_users_of_ne hp, Outside.delivers_write hfd, if_neg (Ne.symm hp),
        Option.toList_none, List.append_nil]
      exact (h p hbefore).wroteOther hx hfrom
  · cases hfd.symm.trans hfd'
  · exact absurd hfd (hfd' p' t)

/-- A request has been managed. -/
theorem Waits.manage {t : Thread n} {x' : Errand} {phases : P → UserPhase} {q : TlvRequest}
    {reply : TlvReply} {r : Unit} (h : Waits C tr (worldOf c) phases)
    (hr : (bank C n files).Run tr c) (hspares : Always SparesOthers tr)
    (hstep : ErrandStep (bankSetup n files) (bankErrands tr t) (.ext (.mark (.managed q reply))) r x')
    {p : P} (hrunning : ((worldOf c).users p).running = true) :
    WaitInv (C.pid p) (Function.update (bankErrands tr) t x') (repliesTo p tr)
      (computedFor (C.pid p) tr ++ (if q.isFrom (C.pid p) then some reply else none).toList)
      ((worldOf c).users p) (phases p) := by
  have hwait := h p hrunning
  obtain ⟨-, hx, rfl⟩ := hstep.of_managed
  have hholds : (bankErrands tr t).holds = none := by
    rcases hx with hx | hx <;> rw [hx] <;> rfl
  cases hfrom : q.isFrom (C.pid p) with
  | false =>
      rw [if_neg Bool.false_ne_true, Option.toList_none, List.append_nil]
      exact hwait.errand hholds.symm fun q' h => by cases h
  | true =>
      have hinv := replyInv_of_run hr hspares p
      have hrequest : (bankErrands tr t).request = some q := by
        rcases hx with hx | hx <;> rw [hx] <;> rfl
      rw [if_pos rfl]
      refine hwait.manage hholds ?_ (hinv.computed_eq_nil (popped_le_one hr p) hrequest hfrom)
      rcases hx with hx | hx
      -- the reply that was sent is the only one this user has
      · have hmem := hinv.written t (replyBytes reply) ⟨by rw [hx]; rfl, q, hrequest, hfrom⟩
        rcases repliesTo_of_run hr hspares p with hnil | ⟨reply', -, hreply⟩
        · rw [hnil] at hmem
          cases hmem
        · rw [hreply, List.mem_singleton] at hmem
          rw [hreply, hmem]
      -- an office that answered this user has not dropped its reply
      · cases (hwait.answered t q (by rw [hx]; rfl)).symm.trans hfrom

/-- **All users in every run** in which the shutdowns spare the descriptors of others and the offices
find readers. -/
theorem waits_of_run (h : (bank C n files).Run tr c) (hspares : Always SparesOthers tr)
    (hfinds : ∀ e ∈ tr, FindsReader e) :
    ∃ phases, UsersInv C (worldOf c) phases ∧ Waits C tr (worldOf c) phases := by
  revert hspares hfinds
  refine bank_induction (I := fun tr w => Always SparesOthers tr → (∀ e ∈ tr, FindsReader e) →
    ∃ phases, UsersInv C w phases ∧ Waits C tr w phases) ?_ ?_ ?_ ?_ h
  · intro _ _
    refine ⟨_, usersInv_start C n files, fun p _ => ?_⟩
    refine ⟨rfl, fun _ => rfl, nofun, nofun, nofun, fun t q ht => ?_, nofun⟩
    cases t <;> cases ht
  · intro tr c m w' hr ih hm hspares hfinds
    obtain ⟨phases, husers, hwaits⟩ := ih hspares hfinds
    obtain ⟨phases', hmoved, husers'⟩ := husers.move hm
    exact ⟨phases', husers', hwaits.move hr hspares husers hmoved⟩
  · intro tr c c' t choice w' x' call k r hr _ _ hstep hx' ih hexec hall hfinds
    have hspares := hall.left
    obtain ⟨phases, husers, hwaits⟩ := ih hspares fun e he => hfinds e (List.mem_append_left _ he)
    obtain ⟨hunnoticed, hfifos, hwritten⟩ := Outside.exec_unnoticed hexec
    refine ⟨phases, husers.congr hunnoticed hfifos hwritten, fun p hrunning => ?_⟩
    have hcomputed : computedFor (C.pid p) (tr ++ [⟨t, .ext (.sys call), r, c.shared⟩])
        = computedFor (C.pid p) tr := computedFor_concat (by simp)
    have hreplies : repliesTo p (tr ++ [⟨t, .ext (.sys call), r, c.shared⟩])
        = repliesTo p tr ++ ((worldOf c).delivers p call).toList := repliesTo_append _
    rw [hx', hcomputed, hreplies]
    -- `write` and `openFifo` are the calls that reach a user
    by_cases hwrite : ∃ fd bytes, call = .write fd bytes
    · obtain ⟨fd, bytes, rfl⟩ := hwrite
      exact hwaits.write hr hspares hstep hexec hrunning
    have hwrite : ∀ fd bytes, call ≠ .write fd bytes := fun fd bytes he => hwrite ⟨fd, bytes, he⟩
    rw [Outside.delivers_of_not_write hwrite, Option.toList_none, List.append_nil]
    by_cases hopen : ∃ path, call = .openFifo path
    · obtain ⟨path, rfl⟩ := hopen
      refine hwaits.openFifo hr hspares husers (fun p hp => ?_) hstep hexec hrunning
      exact hfinds ⟨t, _, r, c.shared⟩ (by simp) p (hp ▸ rfl)
    have hopen : ∀ path, call ≠ .openFifo path := fun path he => hopen ⟨path, he⟩
    have hkept := Outside.exec_kept hexec hopen hwrite p
    have hopen' : ∀ path, (.ext (.sys call) : ServerOp) ≠ .ext (.sys (.openFifo path)) :=
      fun path he => hopen path (Ext.sys.inj (MemOp.ext.inj he))
    have hwait := (hwaits p (hkept.running ▸ hrunning)).errand (t := t)
      (hstep.holds_eq hopen' fun fd bytes he => hwrite fd bytes (Ext.sys.inj (MemOp.ext.inj he)))
      fun q => hstep.gaveUp_eq hopen'
    exact hwait.congr hkept (fun _ => id) fun _ => id
  · intro tr c c' t x' o k r hr _ _ ho hstep hx' ih hall hfinds
    have hspares := hall.left
    obtain ⟨phases, husers, hwaits⟩ := ih hspares fun e he => hfinds e (List.mem_append_left _ he)
    refine ⟨phases, husers, fun p hrunning => ?_⟩
    rw [hx', repliesTo_append, repliedTo_of_not_call ho, Option.toList_none, List.append_nil]
    by_cases hmark : ∃ q reply, o = .ext (.mark (.managed q reply))
    · obtain ⟨q, reply, rfl⟩ := hmark
      rw [computedFor_append]
      exact hwaits.manage hr hspares hstep hrunning
    rw [computedFor_concat fun q reply he => hmark ⟨q, reply, he⟩]
    exact (hwaits p hrunning).errand (hstep.holds_eq (fun path => ho _) fun fd bytes => ho _)
      fun q => hstep.gaveUp_eq fun path => ho _

/-- **A waiting user gets its reply.** In every run in which the offices open the FIFOs of users that run
only after these have begun to open them, and each call of `handleShutdownRequest` acts on the server's
FIFO or on nothing: when the request of a user has been managed, and the user has not ended and has not
been interrupted, the reply is what it has read and what is in its FIFO; it is as soon as an office has
written it; and no office has given up a reply to such a user. -/
theorem reply_reaches_user (h : (bank C n files).Run tr c) (hspares : Always SparesOthers tr)
    (hfinds : ∀ e ∈ tr, FindsReader e) {p : P} (hrunning : ((worldOf c).users p).running = true) :
    (∀ reply ∈ computedFor (C.pid p) tr, ((worldOf c).users p).stream = replyBytes reply) ∧
    (∀ t bytes, (bankErrands tr t).HasReplied (C.pid p) bytes →
      ((worldOf c).users p).stream = bytes) ∧
    ∀ t q, (bankErrands tr t).gaveUp = some q → q.isFrom (C.pid p) = false := by
  obtain ⟨phases, -, hwaits⟩ := waits_of_run h hspares hfinds
  have hwait := hwaits p hrunning
  refine ⟨fun reply hreply => ?_, fun t bytes ht => ?_, hwait.answered⟩
  · rw [hwait.stream, hwait.agrees reply hreply, List.flatten_singleton]
  · have hmem := (replyInv_of_run h hspares p).written t bytes ht
    rcases repliesTo_of_run h hspares p with hnil | ⟨reply, -, hreply⟩
    · rw [hnil] at hmem
      cases hmem
    · rw [hreply, List.mem_singleton] at hmem
      rw [hwait.stream, hreply, List.flatten_singleton, hmem]

end Runs

/-! ## A user in time, and a user too late -/

/-- The user has begun to open its FIFO when the office opens it, and its request has been managed. -/
theorem reply_reaches_user_enquiry :
    ∃ (tr : List (BankEvent enquirer 1 3)) (c : BankConfig enquirer 1 3) (reply : TlvReply),
      (bank enquirer 1 3).Run tr c ∧ reply ∈ computedFor 100 tr ∧
        ((worldOf c).users ()).running = true ∧ ((worldOf c).users ()).stream = replyBytes reply := by
  obtain ⟨tr, c, h, hc⟩ := System.exists_run_of_play (bankPlayer enquirer 1 3) answeredEnquiry
    (initial_bankStart enquirer 1 3)
    (fun tr c => (worldOf c).fds.get 4 == some .serverWrite && ((worldOf c).users ()).running &&
      (tr.all fun e => decide (e.op = .ext (.sys (.openFifo (enquirer.path ()))) →
        ((worldAt e).users ()).reading ≠ .closed)) &&
      (computedFor 100 tr).length == 1) (by decide +kernel)
  simp only [Bool.and_eq_true, beq_iff_eq] at hc
  obtain ⟨⟨⟨hopen, hrunning⟩, hfinds⟩, hcomputed⟩ := hc
  obtain ⟨reply, hreply⟩ := List.length_eq_one_iff.mp hcomputed
  have hspares := sparesOthers_of_not_closed h ((fdInv_of_run h).open_iff.mp hopen)
  have hmem : reply ∈ computedFor 100 tr := by simp [hreply]
  refine ⟨tr, c, reply, h, hmem, hrunning, (reply_reaches_user h hspares ?_ hrunning).1 reply hmem⟩
  intro e he p hop _
  exact of_decide_eq_true (List.all_eq_true.mp hfinds e he) hop

/-- **A user that is slow loses its reply**: it has sent its request and has not begun to open its FIFO
when the office opens it. The request has been managed, and the user waits for ever. -/
theorem exists_lost_reply :
    ∃ (tr : List (BankEvent enquirer 1 3)) (c : BankConfig enquirer 1 3) (reply : TlvReply),
      (bank enquirer 1 3).Run tr c ∧ reply ∈ computedFor 100 tr ∧
        ((worldOf c).users ()).running = true ∧ ((worldOf c).users ()).stream = [] ∧
          replyBytes reply ≠ [] := by
  obtain ⟨tr, c, h, hc⟩ := System.exists_run_of_play (bankPlayer enquirer 1 3)
    ((requestMoves ()).dropLast ++ List.replicate 11 (.run .main) ++
      List.replicate 24 (.run (.office 0)))
    (initial_bankStart enquirer 1 3)
    (fun tr c => ((worldOf c).users ()).running && ((worldOf c).users ()).stream == [] &&
      (computedFor 100 tr).any fun reply => replyBytes reply != []) (by decide +kernel)
  simp only [Bool.and_eq_true, beq_iff_eq, List.any_eq_true, bne_iff_ne] at hc
  obtain ⟨⟨hrunning, hstream⟩, reply, hmem, hne⟩ := hc
  exact ⟨tr, c, reply, h, hmem, hrunning, hstream, hne⟩

end Sope
