import Sope.Bank.Synchronised
import Sope.Clients.Play
import Sope.Clients.ServerDescriptors
import Sope.Clients.UserStates

/-! # The request channel

The server's FIFO, from the users that write requests into it to the main thread that reads them and puts
them into the queue, including its end: the main thread leaves the loop of `readRequests` when a read
finds the FIFO empty and no process has it open for writing. Then a shutdown has closed the server's own
write end, after it has made the FIFO read-only, so that no user can open it any more.

* `Drained` — the end of the FIFO.
* `ChannelInv` — what has been read, and what is unread, by the errand of the main thread.
* `channel_lossless` — every request that is written is put into the queue, once, in order, unchanged. -/

namespace Sope

open Concurrency

variable {P : Type} [DecidableEq P] {C : Clientele P} {n files : ℕ} {w w' : Outside P n}
  {queued : List TlvRequest} {closed closed' : Prop} {x x' : Errand}

/-! ## The invariant -/

/-- The server has closed its own write end, no user has the FIFO open for writing, and it is empty. -/
structure Drained (closed : Prop) (w : Outside P n) : Prop where
  closed : closed
  sending : ∀ p, (w.users p).sending = false
  channel : w.channel = []

/-- What is unread follows what has been put into the queue, when the main thread has come so far. -/
inductive ChannelInv (queued : List TlvRequest) (closed : Prop) (w : Outside P n) : Errand → Prop
  | ready {taken unread : List TlvRequest} (written : w.written = taken ++ unread)
      (same : List.Forall₂ TlvRequest.Same taken queued)
      (channel : w.channel = unread.flatMap requestBytes) : ChannelInv queued closed w .ready
  | blank {taken unread : List TlvRequest} {memory : Bytes} (written : w.written = taken ++ unread)
      (same : List.Forall₂ TlvRequest.Same taken queued)
      (channel : w.channel = unread.flatMap requestBytes) : ChannelInv queued closed w (.blank memory)
  | headed {taken unread : List TlvRequest} {q : TlvRequest} {memory : Bytes}
      (written : w.written = taken ++ q :: unread)
      (same : List.Forall₂ TlvRequest.Same taken queued)
      (channel : w.channel = (requestBytes q).drop sizeofTypeLength ++ unread.flatMap requestBytes) :
      ChannelInv queued closed w
        (.headed (overlay memory 0 ((requestBytes q).take sizeofTypeLength)))
  | drained {memory : Bytes} (same : List.Forall₂ TlvRequest.Same w.written queued)
      (drained : Drained closed w) : ChannelInv queued closed w (.headed memory)
  | whole {taken unread : List TlvRequest} {q q' : TlvRequest}
      (written : w.written = taken ++ q :: unread)
      (same : List.Forall₂ TlvRequest.Same taken queued) (request : q.Same q')
      (channel : w.channel = unread.flatMap requestBytes) : ChannelInv queued closed w (.whole q')
  | finished (same : List.Forall₂ TlvRequest.Same w.written queued) (drained : Drained closed w) :
      ChannelInv queued closed w .finished

omit [DecidableEq P] in
/-- A change that does not concern the FIFO. -/
theorem ChannelInv.congr (h : ChannelInv queued closed w x) (hchannel : w'.channel = w.channel)
    (hwritten : w'.written = w.written) (hdrained : Drained closed w → Drained closed' w') :
    ChannelInv queued closed' w' x := by
  cases h with
  | ready hw hs hc => exact .ready (hwritten.trans hw) hs (hchannel.trans hc)
  | blank hw hs hc => exact .blank (hwritten.trans hw) hs (hchannel.trans hc)
  | headed hw hs hc => exact .headed (hwritten.trans hw) hs (hchannel.trans hc)
  | drained hs hd => exact .drained (hwritten ▸ hs) (hdrained hd)
  | whole hw hs hq hc => exact .whole (hwritten.trans hw) hs hq (hchannel.trans hc)
  | finished hs hd => exact .finished (hwritten ▸ hs) (hdrained hd)

omit [DecidableEq P] in
/-- A user writes its request; it has the FIFO open. -/
theorem ChannelInv.write (h : ChannelInv queued closed w x) {request : TlvRequest} {p : P}
    (hsending : (w.users p).sending = true) (hchannel : w'.channel = w.channel ++ requestBytes request)
    (hwritten : w'.written = w.written ++ [request]) : ChannelInv queued closed w' x := by
  have hflat : ∀ unread : List TlvRequest, unread.flatMap requestBytes ++ requestBytes request
      = (unread ++ [request]).flatMap requestBytes := by simp
  have hopen : ¬ Drained closed w := fun hd => absurd ((hd.sending p).symm.trans hsending) Bool.false_ne_true
  cases h with
  | @ready taken unread hw hs hc =>
      exact .ready (by rw [hwritten, hw, List.append_assoc]) hs (by rw [hchannel, hc, hflat])
  | @blank taken unread memory hw hs hc =>
      exact .blank (by rw [hwritten, hw, List.append_assoc]) hs (by rw [hchannel, hc, hflat])
  | @headed taken unread q memory hw hs hc =>
      have hw' : w'.written = taken ++ q :: (unread ++ [request]) := by
        rw [hwritten, hw, List.append_assoc, List.cons_append]
      exact .headed hw' hs (by rw [hchannel, hc, List.append_assoc, hflat])
  | drained hs hd => exact absurd hd hopen
  | @whole taken unread q q' hw hs hq hc =>
      have hw' : w'.written = taken ++ q :: (unread ++ [request]) := by
        rw [hwritten, hw, List.append_assoc, List.cons_append]
      exact .whole hw' hs hq (by rw [hchannel, hc, hflat])
  | finished hs hd => exact absurd hd hopen

/-! ## The users -/

/-- What a call of a user does to the server's FIFO: nothing, or it writes a request into it. -/
theorem UserStep.channel {p : P} {phase phase' : UserPhase} (h : UserStep C p w phase phase' w') :
    (w'.channel = w.channel ∧ w'.written = w.written ∧
      ∀ q, (w'.users q).sending = true → (w.users q).sending = true ∨ w.writable = true) ∨
    ∃ request, (w.users p).sending = true ∧ w'.channel = w.channel ++ requestBytes request ∧
      w'.written = w.written ++ [request] := by
  have hset : ∀ {v : Outside P n} {u : UserState}, v.users = w.users →
      (u.sending = true → (w.users p).sending = true ∨ w.writable = true) →
      ∀ q, ((v.setUser p u).users q).sending = true →
        (w.users q).sending = true ∨ w.writable = true := by
    intro v u hv hu q hq
    by_cases he : q = p
    · subst he
      rw [Outside.setUser_users_self] at hq
      exact hu hq
    · rw [Outside.setUser_users_of_ne he, hv] at hq
      exact .inl hq
  have hread : ∀ {m bytes v}, UserRead p w m bytes v → v.channel = w.channel ∧
      v.written = w.written ∧
        ∀ q, (v.users q).sending = true → (w.users q).sending = true ∨ w.writable = true := by
    intro m bytes v hv
    cases hv with
    | nothing | ended => exact ⟨rfl, rfl, fun _ => .inl⟩
    | some => exact ⟨rfl, rfl, hset rfl .inl⟩
  -- only `write` puts something in, and only `open` begins to send
  cases h with
  | connect hwritable => exact .inl ⟨rfl, rfl, hset rfl fun _ => .inr hwritable⟩
  | write hmakes hsending => exact .inr ⟨_, hsending, rfl, rfl⟩
  | disconnect => exact .inl ⟨rfl, rfl, hset rfl nofun⟩
  | alarm | wait | opened => exact .inl ⟨rfl, rfl, hset rfl .inl⟩
  | head hv | got hv => exact .inl (hread hv)
  | leave =>
      refine .inl ⟨by simp, by simp, fun q hq => ?_⟩
      rw [(Outside.settle_users q).unnoticed.sending] at hq
      exact hset (u := { w.users p with reading := .closed }) rfl .inl q hq
  | _ => exact .inl ⟨rfl, rfl, fun _ => .inl⟩

/-- The moves of the users and of the pipes. -/
theorem ChannelInv.move (h : ChannelInv queued closed w x) {y : Thread n → Errand}
    (hfd : FdInv files y closed w) {phases phases' : P → UserPhase}
    (hm : PhasesMoved C w phases w' phases') : ChannelInv queued closed w' x := by
  cases hm with
  | @step p phase w₁ prog hs =>
      have hsending : ∀ q, ((w₁.setUser p { w₁.users p with prog }).users q).sending
          = (w₁.users q).sending := by
        intro q
        by_cases hq : q = p
        · subst hq
          rw [Outside.setUser_users_self]
        · rw [Outside.setUser_users_of_ne hq]
      -- once the FIFO is drained it cannot be opened for writing again
      rcases hs.channel with ⟨hchannel, hwritten, hopen⟩ | ⟨request, hopen, hchannel, hwritten⟩
      · refine h.congr hchannel hwritten fun hd => ⟨hd.closed, fun q => ?_, hchannel.trans hd.channel⟩
        rw [hsending]
        by_contra hq
        rcases hopen q (Bool.not_eq_false _ ▸ hq) with hq | hwritable
        · exact absurd ((hd.sending q).symm.trans hq) Bool.false_ne_true
        · exact absurd ((hfd.readOnly (.inl hd.closed)).symm.trans hwritable) Bool.false_ne_true
      · exact h.write hopen hchannel hwritten
  | @ended p =>
      refine h.congr (by simp) (by simp) fun hd => ⟨hd.closed, fun q => ?_, by simpa using hd.channel⟩
      by_cases hq : q = p
      · subst hq
        exact Outside.endUser_users_self.unnoticed.sending
      · rw [Outside.endUser_users_of_ne hq]
        exact hd.sending q
  | @alarm p prog =>
      refine h.congr rfl rfl fun hd => ⟨hd.closed, fun q => ?_, hd.channel⟩
      by_cases hq : q = p
      · subst hq
        rw [Outside.setUser_users_self]
        exact hd.sending q
      · rw [Outside.setUser_users_of_ne hq]
        exact hd.sending q
  | pipe hm =>
      obtain ⟨husers, -, hwritten⟩ := hm.frame
      have hchannel : w'.channel = w.channel := by
        cases hm with
        | wroteServer hmem hget => exact absurd hget (hfd.pipes _ hmem).ne_write
        | closed => simp
        | _ => rfl
      refine h.congr hchannel hwritten fun hd => ⟨hd.closed, fun q => ?_, hchannel.trans hd.channel⟩
      rw [(husers q).sending]
      exact hd.sending q

/-! ## The server -/

omit [DecidableEq P] in
/-- An operation of the main thread that neither reads nor pushes. -/
theorem ChannelInv.errand (h : ChannelInv queued closed w x) {setup : Setup} {o : ServerOp}
    {r : ServerRes o} (hstep : ErrandStep setup x o r x')
    (hread : ∀ fd m, o ≠ .ext (.sys (.read fd m))) (hpush : ∀ q, o ≠ .ext (.queuePush q)) :
    ChannelInv queued closed w x' := by
  cases hstep with
  | memory | unnoticed | hashed => exact h
  | blank =>
      cases h with
      | ready hw hs hc => exact .blank hw hs hc
  | headed | whole | ended | failed => exact absurd rfl (hread _ _)
  | push => exact absurd rfl (hpush _)
  | missed hx | holding hx => rcases hx with rfl | rfl <;> cases h
  | _ => cases h

omit [DecidableEq P] in
/-- What has been read is put into the queue. -/
theorem ChannelInv.push {q' : TlvRequest} (h : ChannelInv queued closed w (.whole q')) :
    ChannelInv (queued ++ [q']) closed w .ready := by
  cases h with
  | @whole taken unread q _ hw hs hq hc =>
      have hw' : w.written = (taken ++ [q]) ++ unread := by
        rw [hw, List.append_assoc, List.singleton_append]
      exact .ready hw' (List.rel_append hs (.cons hq .nil)) hc

section Server

variable [Fintype P] {t : Thread n} {choice : Choice} {y : Thread n → Errand}

/-- A call of the server that does not read. -/
theorem ChannelInv.exec (h : ChannelInv queued closed w x) {call : SysCall} {r : call.Res}
    (hexec : w.exec t choice call = some (r, w')) (hclosed : closed → closed')
    (hread : ∀ fd m, call ≠ .read fd m)
    (hwrite : ∀ fd bytes, call = .write fd bytes → w.descriptor fd ≠ some .serverWrite) :
    ChannelInv queued closed' w' x := by
  obtain ⟨husers, -, hwritten⟩ := Outside.exec_unnoticed hexec
  have hchannel := Outside.exec_channel hexec hread hwrite
  refine h.congr hchannel hwritten fun hd => ⟨hclosed hd.closed, fun q => ?_, hchannel.trans hd.channel⟩
  rw [(husers q).sending]
  exact hd.sending q

/-- Without a writer, the server has closed its own write end. -/
theorem drained_of_hasWriter (hfd : FdInv files y closed w) (hwriter : w.hasWriter = false)
    (hchannel : w.channel = []) : Drained closed w := by
  obtain ⟨hholds, hsending⟩ := Bool.or_eq_false_iff.mp hwriter
  refine ⟨?_, fun p => ?_, hchannel⟩
  · by_contra hc
    have hget := hfd.open_iff.mpr hc
    exact absurd (hholds.symm.trans ((FdTable.holds_iff _ _).mpr ⟨_, hget⟩)) Bool.false_ne_true
  · by_contra hp
    exact of_decide_eq_false hsending ⟨p, Bool.not_eq_false _ ▸ hp⟩

/-- **Reading.** The first read takes type and length of the oldest unread request, the second one the
rest of it; or the FIFO is drained. -/
theorem ChannelInv.read (h : ChannelInv queued closed w x) (hfd : FdInv files y closed w)
    (hwf : ∀ q ∈ w.written, q.WellFormed) {fd : Int} {m : ℕ} {r : Option Bytes}
    (hstep : ErrandStep (bankSetup n files) x (.ext (.sys (.read fd m))) r x')
    (hexec : w.exec t choice (.read fd m) = some (r, w')) : ChannelInv queued closed w' x' := by
  obtain ⟨rfl, hx⟩ := hstep.of_read
  have hread := Outside.exec_read (w.descriptor_natCast files ▸ hfd.read) hexec
  have hsome : r ≠ none := by
    rcases hread with ⟨-, rfl, -⟩ | ⟨-, -, -, rfl, -⟩ | ⟨-, -, rfl, -⟩ <;> nofun
  rcases hx with ⟨memory, rfl, rfl, hr⟩ | ⟨memory, rfl, rfl, hr⟩
  · -- the first read
    obtain ⟨bytes, rfl, rfl⟩ := hr.resolve_left hsome
    cases h with
    | @blank taken unread _ hw hs hc =>
        rcases hread with ⟨hzero, -⟩ | ⟨-, hempty, hwriter, hbytes, rfl⟩ | ⟨-, hne, hbytes, rfl⟩
        · cases hzero
        -- 0 bytes: nobody can write any more, and nothing is left
        · have hunread : unread = [] := by
            cases unread with
            | nil => rfl
            | cons q rest =>
                have hlen := length_requestBytes (hwf q (by simp [hw]))
                rw [List.flatMap_cons, hempty] at hc
                have := congrArg List.length hc
                simp only [List.length_nil, List.length_append, hlen, sizeofTypeLength] at this
                omega
          rw [hunread, List.append_nil] at hw
          exact .drained (hw ▸ hs) (drained_of_hasWriter hfd hwriter hempty)
        · cases unread with
          | nil => exact absurd hc hne
          | cons q rest =>
              have hle : sizeofTypeLength ≤ (requestBytes q).length := by
                rw [length_requestBytes (hwf q (by simp [hw]))]
                omega
              -- a request is written in one piece, so type and length are there together
              obtain rfl : bytes = (requestBytes q).take sizeofTypeLength := by
                rw [Option.some.inj hbytes, hc, List.flatMap_cons,
                  List.take_append_of_le_length hle]
              refine .headed hw hs ?_
              show w.channel.drop sizeofTypeLength = _
              rw [hc, List.flatMap_cons, List.drop_append_of_le_length hle]
  · -- the second read
    have hr := hr.resolve_left hsome
    cases h with
    | @headed taken unread q memory hw hs hc =>
        have hq := hwf q (by simp [hw])
        have hlen : ((requestBytes q).drop sizeofTypeLength).length = q.length.toNat := by
          rw [List.length_drop, length_requestBytes hq]
          omega
        -- the second read asks for some bytes and finds all of them
        have hpos : 0 < q.length.toNat := by
          rw [hq.length]
          cases q.type <;> decide
        rw [decodeWord_length hq] at hread
        rcases hread with ⟨hzero, -⟩ | ⟨-, hempty, -⟩ | ⟨-, -, hbytes, rfl⟩
        · omega
        · rw [hempty] at hc
          have := congrArg List.length hc
          simp only [List.length_nil, List.length_append, hlen] at this
          omega
        · have htake : w.channel.take q.length.toNat = (requestBytes q).drop sizeofTypeLength := by
            rw [hc, ← hlen, List.take_left]
          rcases hr with ⟨hnil, -⟩ | ⟨bytes, -, hsome, rfl⟩
          · rw [hbytes, htake] at hnil
            have := congrArg List.length (Option.some.inj hnil)
            simp only [List.length_nil, hlen] at this
            omega
          · obtain rfl : bytes = (requestBytes q).drop sizeofTypeLength :=
              (Option.some.inj (hbytes.symm.trans hsome)).symm.trans htake
            refine .whole hw hs (decodeRequest_overlay hq memory) ?_
            show w.channel.drop q.length.toNat = _
            rw [hc, ← hlen, List.drop_left]
    | drained hs hd =>
        have hnil : r = some [] ∧ w' = w := by
          rcases hread with ⟨-, hr, hw⟩ | ⟨-, -, -, hr, hw⟩ | ⟨-, hne, -⟩
          · exact ⟨hr, hw⟩
          · exact ⟨hr, hw⟩
          · exact absurd hd.channel hne
        obtain ⟨rfl, rfl⟩ := hnil
        rcases hr with ⟨-, rfl⟩ | ⟨bytes, hne, hbytes, -⟩
        · exact .finished hs hd
        · exact absurd (Option.some.inj hbytes).symm hne

end Server

/-! ## Runs -/

section Runs

variable [Fintype P] {tr : List (BankEvent C n files)} {c : BankConfig C n files}

/-- Only the main thread pushes. -/
theorem pushed_concat {t : Thread n} {o : ServerOp} {r : ServerRes o}
    {s : ServerState n (clients C n files)} (ho : ∀ request, o ≠ .ext (.queuePush request)) :
    pushed (tr ++ [⟨t, o, r, s⟩]) = pushed tr := by
  rw [pushed, List.filterMap_append]
  cases o with
  | ext e =>
      cases e with
      | queuePush request => exact absurd rfl (ho request)
      | _ => exact List.append_nil _
  | _ => exact List.append_nil _

/-- **The channel in every run.** -/
theorem channelInv_of_run (h : (bank C n files).Run tr c) :
    ChannelInv (pushed tr) (Occurs ClosesShutdownFD tr) (worldOf c) (bankErrands tr .main) := by
  refine bank_induction (I := fun tr w =>
    ChannelInv (pushed tr) (Occurs ClosesShutdownFD tr) w (bankErrands tr .main)) ?_ ?_ ?_ ?_ h
  · exact .ready rfl .nil rfl
  · intro tr c m w' hr ih hm
    obtain ⟨phases, husers⟩ := usersInv_of_run hr
    obtain ⟨phases', hmoved, -⟩ := husers.move hm
    exact ih.move (fdInv_of_run hr) hmoved
  · intro tr c c' t choice w' x' call k r hr _ _ hstep hx' ih hexec
    have hfd := fdInv_of_run hr
    have hpushed : pushed (tr ++ [⟨t, .ext (.sys call), r, c.shared⟩]) = pushed tr :=
      pushed_concat nofun
    rw [hx', hpushed]
    -- replies go to users only, never into the server's own FIFO
    have hwrite : ∀ fd bytes, call = .write fd bytes →
        (worldOf c).descriptor fd ≠ some .serverWrite := by
      rintro fd bytes rfl
      obtain ⟨q, reply, hx, -⟩ := hstep.of_write
      exact (hfd.inHand t q fd (by rw [hx]; rfl)).ne_write
    by_cases ht : t = .main
    · subst ht
      rw [Function.update_self]
      by_cases hread : ∃ fd m, call = .read fd m
      · obtain ⟨fd, m, rfl⟩ := hread
        obtain ⟨phases, husers⟩ := usersInv_of_run hr
        refine (ih.read hfd ?_ hstep hexec).congr rfl rfl fun hd =>
          ⟨hd.closed.append _, hd.sending, hd.channel⟩
        intro q hq
        obtain ⟨p, hmakes⟩ := husers.makes q hq
        exact hmakes.wellFormed
      · have hread : ∀ fd m, call ≠ .read fd m := fun fd m he => hread ⟨fd, m, he⟩
        refine (ih.exec hexec (fun hc => hc.append _) hread hwrite).errand hstep ?_ nofun
        exact fun fd m he => hread fd m (Ext.sys.inj (MemOp.ext.inj he))
    · rw [Function.update_of_ne (Ne.symm ht)]
      refine ih.exec hexec (fun hc => hc.append _) ?_ hwrite
      rintro fd m rfl
      obtain ⟨-, ⟨memory, hx, -⟩ | ⟨memory, hx, -⟩⟩ := hstep.of_read
      · exact ht ((isReader_of_run hr t).mp (by rw [hx]; rfl))
      · exact ht ((isReader_of_run hr t).mp (by rw [hx]; rfl))
  · intro tr c c' t x' o k r hr _ _ ho hstep hx' ih
    have hclosed : ChannelInv (pushed tr) (Occurs ClosesShutdownFD (tr ++ [⟨t, o, r, c.shared⟩]))
        (worldOf c) (bankErrands tr .main) :=
      ih.congr rfl rfl fun hd => ⟨hd.closed.append _, hd.sending, hd.channel⟩
    rw [hx']
    -- only a push changes what has been queued
    by_cases hpush : ∃ q, o = .ext (.queuePush q)
    · obtain ⟨q, rfl⟩ := hpush
      obtain ⟨hx, rfl⟩ := hstep.of_queuePush
      obtain rfl : t = .main := (isReader_of_run hr t).mp (by rw [hx]; rfl)
      rw [hx] at hclosed
      rw [Function.update_self, pushed, List.filterMap_append]
      exact hclosed.push
    · have hpush : ∀ q, o ≠ .ext (.queuePush q) := fun q he => hpush ⟨q, he⟩
      rw [pushed_concat hpush]
      by_cases ht : t = .main
      · subst ht
        rw [Function.update_self]
        exact hclosed.errand hstep (fun fd m => ho _) hpush
      · rwa [Function.update_of_ne (Ne.symm ht)]

omit [Fintype P] [DecidableEq P] in
/-- What has been put into the queue is a beginning of what has been written. -/
theorem ChannelInv.exists_taken (h : ChannelInv queued closed w x) :
    ∃ taken unread, w.written = taken ++ unread ∧ List.Forall₂ TlvRequest.Same taken queued := by
  cases h with
  | ready hw hs | blank hw hs | headed hw hs | whole hw hs => exact ⟨_, _, hw, hs⟩
  | drained hs | finished hs => exact ⟨_, [], (List.append_nil _).symm, hs⟩

/-- What has been written stays written. -/
theorem written_of_step {c' : BankConfig C n files} {e : Option (BankEvent C n files)}
    (hr : (bank C n files).Run tr c) (hs : (bank C n files).Step c e c') :
    (worldOf c).written <+: (worldOf c').written := by
  have hstep := bankStep_of_step hr hs
  generalize worldOf c' = w' at hstep
  cases hstep with
  | idle | other => exact List.prefix_rfl
  | move hm =>
      obtain ⟨phases, husers⟩ := usersInv_of_run hr
      obtain ⟨phases', hmoved, -⟩ := husers.move hm
      cases hmoved with
      | @step p phase w₁ prog hs =>
          rcases hs.frame.written with hsame | ⟨request, -, hmore⟩
          · exact hsame ▸ List.prefix_rfl
          · exact ⟨[request], hmore.symm⟩
      | ended => simp
      | alarm => exact List.prefix_rfl
      | pipe hm => exact hm.frame.2.2 ▸ List.prefix_rfl
  | call hp hx hx' hexec => exact (Outside.exec_unnoticed hexec).2.2 ▸ List.prefix_rfl

/-- Once the main thread has found the end of the FIFO, nothing is written or put into the queue. -/
theorem over_of_path {tr' : List (BankEvent C n files)} {c' : BankConfig C n files}
    (h : (bank C n files).Run tr c) (hover : bankErrands tr .main = .finished)
    (hp : (bank C n files).Path c tr' c') :
    bankErrands (tr ++ tr') .main = .finished ∧ pushed (tr ++ tr') = pushed tr ∧
      (worldOf c').written = (worldOf c).written := by
  induction hp with
  | refl => simpa using hover
  | @step c₁ c₂ tr₁ e hp hs ih =>
      obtain ⟨ihover, ihpushed, ihwritten⟩ := ih
      have hr := h.trans hp
      have hr' := hr.step hs
      have hchannel := channelInv_of_run hr'
      rw [List.append_assoc] at hr' hchannel
      have hsame : bankErrands (tr ++ (tr₁ ++ e.toList)) .main = .finished ∧
          pushed (tr ++ (tr₁ ++ e.toList)) = pushed tr := by
        have hone : ∀ {t o r s x'}, ErrandStep (bankSetup n files) (bankErrands (tr ++ tr₁) t) o r x' →
            bankErrands (tr ++ tr₁ ++ [⟨t, o, r, s⟩]) = Function.update (bankErrands (tr ++ tr₁)) t x' →
            bankErrands (tr ++ tr₁ ++ [⟨t, o, r, s⟩]) .main = .finished ∧
              pushed (tr ++ tr₁ ++ [⟨t, o, r, s⟩]) = pushed tr := by
          intro t o r s x' hstep hx'
          by_cases ht : t = .main
          · subst ht
            rw [ihover] at hstep
            obtain ⟨rfl, hpush⟩ := hstep.of_finished
            rw [hx', Function.update_self, pushed_concat hpush]
            exact ⟨rfl, ihpushed⟩
          · rw [hx', Function.update_of_ne (Ne.symm ht), pushed_concat]
            · exact ⟨ihover, ihpushed⟩
            · rintro q rfl
              exact ht ((isReader_of_run hr t).mp (by rw [hstep.of_queuePush.1]; rfl))
        rw [← List.append_assoc]
        have hstep := bankStep_of_step hr hs
        generalize worldOf c₂ = w' at hstep
        cases hstep with
        | idle | move => simpa using ⟨ihover, ihpushed⟩
        | call hp hstep hx' => exact hone hstep hx'
        | other hp ho hstep hx' => exact hone hstep hx'
      refine ⟨hsame.1, hsame.2, ?_⟩
      -- as many have been written as have been put into the queue, before and after the step
      rw [← ihwritten]
      have hold := channelInv_of_run hr
      rw [ihover, ihpushed] at hold
      rw [hsame.1, hsame.2] at hchannel
      cases hold with
      | finished hold =>
          cases hchannel with
          | finished hnew =>
              refine ((written_of_step hr hs).eq_of_length ?_).symm
              rw [hold.length_eq, hnew.length_eq]

/-- **The request channel loses and corrupts nothing.** In every run, the requests that users have
written have been made by them, and those that have been put into the queue are a beginning of them, in
the order of the writes, each equal to the original in what its operation uses. When the main thread
leaves the loop of `readRequests`, they are all of them; and from then on, whatever happens, no request
is written and none is put into the queue. -/
theorem channel_lossless (h : (bank C n files).Run tr c) :
    (∀ request ∈ (worldOf c).written, ∃ p, C.Makes p request) ∧
    (∃ taken unread, (worldOf c).written = taken ++ unread ∧
      List.Forall₂ TlvRequest.Same taken (pushed tr)) ∧
    (c.prog .main = .ret .waitEmpty →
      List.Forall₂ TlvRequest.Same (worldOf c).written (pushed tr) ∧
      ∀ tr' c', (bank C n files).Path c tr' c' →
        pushed (tr ++ tr') = pushed tr ∧ (worldOf c').written = (worldOf c).written) := by
  obtain ⟨phases, husers⟩ := usersInv_of_run h
  have hchannel := channelInv_of_run h
  refine ⟨husers.makes, hchannel.exists_taken, fun hret => ?_⟩
  have hover : bankErrands tr .main = .finished := errand_of_ret h hret nofun
  refine ⟨?_, fun tr' c' hp => (over_of_path h hover hp).2⟩
  rw [hover] at hchannel
  cases hchannel with
  | finished hsame => exact hsame

end Runs

/-! ## A run to the end of the FIFO -/

/-- The main thread has left the loop of `readRequests`. -/
def hasReadAll (p : Server Ctl) : Bool :=
  match p with
  | .ret ctl => ctl == .waitEmpty
  | .op .. => false

/-- A user has asked for a shutdown, and it has been handled; the main thread has found the end of the
FIFO, with one request in the queue. -/
theorem channel_lossless_shutdown :
    ∃ (tr : List (BankEvent twoAdmins 1 3)) (c : BankConfig twoAdmins 1 3),
      (bank twoAdmins 1 3).Run tr c ∧ (worldOf c).written.length = 1 ∧ (pushed tr).length = 1 ∧
        ∀ tr' c', (bank twoAdmins 1 3).Path c tr' c' → pushed (tr ++ tr') = pushed tr := by
  obtain ⟨tr, c, h, hc⟩ := System.exists_run_of_play (bankPlayer twoAdmins 1 3)
    (requestMoves false ++ List.replicate 11 (.run .main) ++ List.replicate 18 (.run (.office 0)) ++
      List.replicate 2 (.run .main))
    (initial_bankStart twoAdmins 1 3)
    (fun tr c => hasReadAll (c.prog .main) && (worldOf c).written.length == 1 &&
      (pushed tr).length == 1) (by decide +kernel)
  simp only [Bool.and_eq_true, beq_iff_eq] at hc
  obtain ⟨⟨hread, hwritten⟩, hpushed⟩ := hc
  have hret : c.prog .main = .ret .waitEmpty := by
    generalize c.prog .main = p at hread
    cases p with
    | ret ctl => rw [beq_iff_eq.mp hread]
    | op => cases hread
  obtain ⟨-, -, hend⟩ := channel_lossless h
  exact ⟨tr, c, h, hwritten, hpushed, fun tr' c' hp => ((hend hret).2 tr' c' hp).1⟩

end Sope
