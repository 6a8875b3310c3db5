import Sope.Clients.Channel
import Sope.Clients.Deliveries
import Sope.Clients.ShutdownFrame

/-! # Replies reach their requester

What the offices write into the FIFO of a user, in a run in which the shutdowns spare the descriptors of
others. A user sends one request at most, the queue hands it out once, and the office that has it writes
once, into the FIFO that the request names.

* `HandledFor` — a request in the hand of an office is one that a user has written.
* `ReplyInv` — the account of the requests of a user: as many as have been taken from the queue are in
  the hands of offices or have been managed, and have not been answered or have been.
* `replies_correlated` — the property. -/

namespace Sope

open Concurrency

variable {P : Type} [DecidableEq P] {C : Clientele P} {n files : ℕ}

/-! ## Requests in hand -/

/-- The request names the process. -/
def TlvRequest.isFrom (pid : UInt32) (request : TlvRequest) : Bool := request.value.header.pid = pid

/-- The requests of the process that an office has in hand. -/
def Errand.carries (pid : UInt32) (x : Errand) : ℕ :=
  x.request.toList.countP fun request => request.isFrom pid

/-- Those of them to which it has not written a reply. -/
def Errand.owes (pid : UInt32) (x : Errand) : ℕ := if x.bytes.isSome then 0 else x.carries pid

section

variable {setup : Setup} {x x' : Errand} {o : ServerOp} {r : ServerRes o} {pid : UInt32}
  {q : TlvRequest}

theorem carries_of_request (h : x.request = some q) :
    x.carries pid = if q.isFrom pid then 1 else 0 := by
  simp [Errand.carries, h]

theorem carries_of_none (h : x.request = none) : x.carries pid = 0 := by
  simp [Errand.carries, h]

theorem owes_of_bytes {bytes : Bytes} (h : x.bytes = some bytes) : x.owes pid = 0 := by
  simp [Errand.owes, h]

theorem owes_of_none (h : x.bytes = none) : x.owes pid = x.carries pid := by
  simp [Errand.owes, h]

/-- A request of the process is in hand, and this has been written in reply to it. -/
def Errand.HasReplied (pid : UInt32) (bytes : Bytes) (x : Errand) : Prop :=
  x.bytes = some bytes ∧ ∃ q, x.request = some q ∧ q.isFrom pid = true

/-- Most operations leave requests in hand, and replies to be written. -/
theorem ErrandStep.quiet (h : ErrandStep setup x o r x') (hpop : o ≠ .ext .queuePop)
    (hmark : ∀ q reply, o ≠ .ext (.mark (.managed q reply)))
    (hwrite : ∀ fd bytes, o ≠ .ext (.sys (.write fd bytes))) :
    x'.carries pid = x.carries pid ∧ x'.owes pid = x.owes pid ∧
      ∀ bytes, x'.HasReplied pid bytes → x.HasReplied pid bytes := by
  have hrequest := h.request_eq hpop hmark
  have hbytes := h.bytes_eq hmark hwrite
  have hcarries : x'.carries pid = x.carries pid := by
    rw [Errand.carries, hrequest, Errand.carries]
  refine ⟨hcarries, by rw [Errand.owes, hbytes, hcarries, Errand.owes], fun bytes => ?_⟩
  rw [Errand.HasReplied, hrequest, hbytes]
  exact id

end

/-! ## The account -/

/-- The account of the requests of a process, of which `taken` have been taken from the queue: what has
been written in reply to them, and the replies that have been computed for those that have been
managed. -/
structure ReplyInv (pid : UInt32) (x : Thread n → Errand) (taken : ℕ) (replies : List Bytes)
    (computed : List TlvReply) : Prop where
  /-- They are in hand, or they have been managed. -/
  carried : total (Errand.carries pid) x + computed.length ≤ taken
  /-- A reply is owed, or it has been written. -/
  replied : replies.length + total (Errand.owes pid) x ≤ taken
  /-- What an office remembers to have written has been written. -/
  written : ∀ t bytes, (x t).HasReplied pid bytes → bytes ∈ replies
  /-- What has been written has been computed. -/
  agrees : ∀ reply ∈ computed, ∀ bytes ∈ replies, bytes = replyBytes reply

section ReplyInv

variable {pid : UInt32} {x : Thread n → Errand} {x' : Errand} {t : Thread n} {taken : ℕ}
  {replies : List Bytes} {computed : List TlvReply} {q : TlvRequest}

/-- At the start. -/
theorem replyInv_start (pid : UInt32) : ReplyInv pid (Thread.firstErrand (n := n)) 0 [] [] where
  carried := by
    rw [total_eq_zero fun u => by cases u <;> rfl]
    exact Nat.le_refl 0
  replied := by
    rw [total_eq_zero fun u => by cases u <;> rfl]
    exact Nat.le_refl 0
  written t bytes h := by
    obtain ⟨hbytes, -⟩ := h
    cases t <;> cases hbytes
  agrees _ h := absurd h List.not_mem_nil

/-- An operation that leaves requests in hand, and replies to be written. -/
theorem ReplyInv.quiet (h : ReplyInv pid x taken replies computed)
    (hx : x'.carries pid = (x t).carries pid ∧ x'.owes pid = (x t).owes pid ∧
      ∀ bytes, x'.HasReplied pid bytes → (x t).HasReplied pid bytes) :
    ReplyInv pid (Function.update x t x') taken replies computed := by
  obtain ⟨hcarries, howes, hreplied⟩ := hx
  have hcarried := total_update (Errand.carries pid) x t x'
  have howed := total_update (Errand.owes pid) x t x'
  refine ⟨?_, ?_, fun u bytes hu => ?_, h.agrees⟩
  · have := h.carried
    omega
  · have := h.replied
    omega
  · by_cases hut : u = t
    · subst hut
      rw [Function.update_self] at hu
      exact h.written u bytes (hreplied bytes hu)
    · rw [Function.update_of_ne hut] at hu
      exact h.written u bytes hu

/-- A request is taken from the queue. -/
theorem ReplyInv.pop (h : ReplyInv pid x taken replies computed) (hx : x t = .idle) :
    ReplyInv pid (Function.update x t (.managing q)) (taken + if q.isFrom pid then 1 else 0) replies
      computed := by
  have hcarries : (Errand.managing q).carries pid = if q.isFrom pid then 1 else 0 :=
    carries_of_request rfl
  have howes : (Errand.managing q).owes pid = if q.isFrom pid then 1 else 0 :=
    (owes_of_none rfl).trans hcarries
  have hcarried := total_update (Errand.carries pid) x t (.managing q)
  have howed := total_update (Errand.owes pid) x t (.managing q)
  rw [hx, carries_of_none rfl, hcarries] at hcarried
  rw [hx, owes_of_none rfl, carries_of_none rfl, howes] at howed
  refine ⟨?_, ?_, fun u bytes hu => ?_, h.agrees⟩
  · have := h.carried
    omega
  · have := h.replied
    omega
  · by_cases hut : u = t
    · subst hut
      rw [Function.update_self] at hu
      cases hu.1
    · rw [Function.update_of_ne hut] at hu
      exact h.written u bytes hu

/-- An office that writes has one request in hand, and nothing has been computed for the process. -/
theorem ReplyInv.computed_eq_nil (h : ReplyInv pid x taken replies computed) (hone : taken ≤ 1)
    (hx : (x t).request = some q) (hq : q.isFrom pid = true) : computed = [] := by
  have hcarries : (x t).carries pid = 1 := (carries_of_request hx).trans (if_pos hq)
  have hle := le_total (Errand.carries pid) x t
  have := h.carried
  exact List.eq_nil_of_length_eq_zero (by omega)

/-- It has not been answered before. -/
theorem ReplyInv.replies_eq_nil (h : ReplyInv pid x taken replies computed) (hone : taken ≤ 1)
    (hx : (x t).request = some q) (hbytes : (x t).bytes = none) (hq : q.isFrom pid = true) :
    replies = [] := by
  have howes : (x t).owes pid = 1 :=
    (owes_of_none hbytes).trans ((carries_of_request hx).trans (if_pos hq))
  have hle := le_total (Errand.owes pid) x t
  have := h.replied
  exact List.eq_nil_of_length_eq_zero (by omega)

/-- A reply is written. -/
theorem ReplyInv.write (h : ReplyInv pid x taken replies computed) (bytes : Bytes) (hone : taken ≤ 1)
    {fd : Int} (hx : x t = .holding q fd) :
    ReplyInv pid (Function.update x t (.written q fd bytes)) taken
      (if q.isFrom pid then replies ++ [bytes] else replies) computed := by
  have hcarries : (Errand.written q fd bytes).carries pid = (x t).carries pid := by
    rw [hx]
    rfl
  have howes : (Errand.written q fd bytes).owes pid = 0 := owes_of_bytes rfl
  have hholding : (x t).owes pid = if q.isFrom pid then 1 else 0 := by
    rw [hx]
    exact (owes_of_none rfl).trans (carries_of_request rfl)
  have hcarried := total_update (Errand.carries pid) x t (.written q fd bytes)
  have howed := total_update (Errand.owes pid) x t (.written q fd bytes)
  rw [howes, hholding] at howed
  -- the office that wrote stops owing the reply that `replies` gains, and nothing else moves
  refine ⟨?_, ?_, fun u bytes' hu => ?_, fun reply hreply => ?_⟩
  · have := h.carried
    omega
  · have := h.replied
    split at howed
    · next hq =>
        rw [if_pos hq, List.length_append, List.length_singleton]
        omega
    · next hq =>
        rw [if_neg hq]
        omega
  · by_cases hut : u = t
    -- what this office holds now is what it has just written
    · subst hut
      rw [Function.update_self] at hu
      obtain ⟨hbytes, q', hq', hfrom⟩ := hu
      cases hbytes
      cases hq'
      simp [hfrom]
    · rw [Function.update_of_ne hut] at hu
      have := h.written u bytes' hu
      split
      · exact List.mem_append_left _ this
      · exact this
  · split
    · next hq =>
        -- no reply to this user has been managed while its one request is still in an office
        rw [h.computed_eq_nil hone (by rw [hx]; rfl) hq] at hreply
        cases hreply
    · exact h.agrees reply hreply

/-- A request has been managed. -/
theorem ReplyInv.manage (h : ReplyInv pid x taken replies computed) (hone : taken ≤ 1)
    {reply : TlvReply} (hx : x t = .sent q (replyBytes reply) ∨ x t = .dropped q) :
    ReplyInv pid (Function.update x t .idle) taken replies
      (if q.isFrom pid then computed ++ [reply] else computed) := by
  have hrequest : (x t).request = some q := by
    rcases hx with hx | hx <;> rw [hx] <;> rfl
  have hcarries : (x t).carries pid = if q.isFrom pid then 1 else 0 := carries_of_request hrequest
  have hcarried := total_update (Errand.carries pid) x t .idle
  have howed := total_update (Errand.owes pid) x t .idle
  rw [hcarries, carries_of_none rfl] at hcarried
  rw [owes_of_none (x := .idle) rfl, carries_of_none rfl] at howed
  refine ⟨?_, ?_, fun u bytes hu => ?_, ?_⟩
  · have := h.carried
    split at hcarried
    · next hq =>
        rw [if_pos hq, List.length_append, List.length_singleton]
        omega
    · next hq =>
        rw [if_neg hq]
        omega
  · have := h.replied
    omega
  · by_cases hut : u = t
    · subst hut
      rw [Function.update_self] at hu
      -- an idle office has written nothing
      cases hu.1
    · rw [Function.update_of_ne hut] at hu
      exact h.written u bytes hu
  · split
    · next hq =>
        intro reply' hmem bytes hbytes
        rcases hx with hx | hx
        · -- what has been written is in hand, and nothing else has been written
          have hwritten : replyBytes reply ∈ replies :=
            h.written t _ ⟨by rw [hx]; rfl, q, hrequest, hq⟩
          rw [h.computed_eq_nil hone hrequest hq, List.nil_append, List.mem_singleton] at hmem
          subst hmem
          have hlen : replies.length ≤ 1 := by
            have := h.replied
            omega
          obtain ⟨reply₀, rfl⟩ : ∃ b, replies = [b] := by
            rw [← List.length_eq_one_iff]
            have := List.length_pos_of_mem hwritten
            omega
          rw [List.mem_singleton] at hwritten hbytes
          rw [hbytes, hwritten]
        -- a dropped reply was never written
        · rw [h.replies_eq_nil hone hrequest (by rw [hx]; rfl) hq] at hbytes
          cases hbytes
    · exact h.agrees

end ReplyInv

section Runs

variable [Fintype P] {tr : List (BankEvent C n files)} {c : BankConfig C n files} {p : P}

/-! ## A user's request is taken once -/

/-- Requests that agree name the same processes. -/
theorem countP_isFrom_of_same {requests handled : List TlvRequest} (pid : UInt32)
    (h : List.Forall₂ TlvRequest.Same requests handled) :
    handled.countP (TlvRequest.isFrom pid) = requests.countP (TlvRequest.isFrom pid) := by
  induction h with
  | nil => rfl
  | cons hsame _ ih =>
      rw [List.countP_cons, List.countP_cons, ih, TlvRequest.isFrom, TlvRequest.isFrom, hsame.header]

/-- Each of the handled ones agrees with one of the others. -/
theorem exists_same_of_mem {requests handled : List TlvRequest} {q : TlvRequest}
    (h : List.Forall₂ TlvRequest.Same requests handled) (hq : q ∈ handled) :
    ∃ request ∈ requests, request.Same q := by
  induction h with
  | nil => cases hq
  | @cons request _ _ _ hsame _ ih =>
      rcases List.mem_cons.mp hq with rfl | hq
      · exact ⟨request, List.mem_cons_self, hsame⟩
      · obtain ⟨request', hmem, hsame'⟩ := ih hq
        exact ⟨request', List.mem_cons_of_mem _ hmem, hsame'⟩

/-- **At most one request of a user is taken from the queue.** -/
theorem popped_le_one (h : (bank C n files).Run tr c) (p : P) :
    (popped tr).countP (TlvRequest.isFrom (C.pid p)) ≤ 1 := by
  obtain ⟨phases, husers⟩ := usersInv_of_run h
  obtain ⟨taken, unread, hwritten, hsame⟩ := (channelInv_of_run h).exists_taken
  calc (popped tr).countP (TlvRequest.isFrom (C.pid p))
      ≤ (pushed tr).countP (TlvRequest.isFrom (C.pid p)) := (popped_isPrefix h).sublist.countP_le
    _ = taken.countP (TlvRequest.isFrom (C.pid p)) := countP_isFrom_of_same _ hsame
    _ ≤ (worldOf c).written.countP (TlvRequest.isFrom (C.pid p)) := by
        rw [hwritten]
        exact (List.sublist_append_left taken unread).countP_le
    _ = ((worldOf c).requestsOf C p).length := List.countP_eq_length_filter
    _ ≤ 1 := (husers.user p).once

/-- A request that has been taken is one that its user has written. -/
theorem exists_original (h : (bank C n files).Run tr c) {q : TlvRequest} (hq : q ∈ popped tr)
    (hp : q.isFrom (C.pid p) = true) :
    ∃ request ∈ (worldOf c).written, C.Makes p request ∧ request.Same q := by
  obtain ⟨phases, husers⟩ := usersInv_of_run h
  obtain ⟨taken, unread, hwritten, hsame⟩ := (channelInv_of_run h).exists_taken
  obtain ⟨request, hmem, hrequest⟩ := exists_same_of_mem hsame ((popped_isPrefix h).subset hq)
  have hmem : request ∈ (worldOf c).written := by
    rw [hwritten]
    exact List.mem_append_left _ hmem
  obtain ⟨p', hmakes⟩ := husers.makes request hmem
  have hpid : C.pid p' = C.pid p := by
    rw [← hmakes.pid, ← hrequest.header]
    exact of_decide_eq_true hp
  obtain rfl := C.pid_injective hpid
  exact ⟨request, hmem, hmakes, hrequest⟩

/-! ## Replies in a run -/

/-- The reply that has been computed for a request of the process, when `manageRequest` has returned. -/
def computedBy (pid : UInt32) (e : BankEvent C n files) : Option TlvReply :=
  match e.op with
  | .ext (.mark (.managed q reply)) => if q.isFrom pid then some reply else none
  | _ => none

/-- The replies that have been computed for the requests of the process. -/
def computedFor (pid : UInt32) (tr : List (BankEvent C n files)) : List TlvReply :=
  tr.filterMap (computedBy pid)

theorem computedFor_append {pid : UInt32} (e : BankEvent C n files) :
    computedFor pid (tr ++ [e]) = computedFor pid tr ++ (computedBy pid e).toList := by
  rw [computedFor, List.filterMap_append, List.filterMap_cons, List.filterMap_nil]
  cases computedBy pid e <;> rfl

/-- Only when a request has been managed. -/
theorem computedFor_concat {pid : UInt32} {t : Thread n} {o : ServerOp} {r : ServerRes o}
    {s : ServerState n (clients C n files)} (ho : ∀ q reply, o ≠ .ext (.mark (.managed q reply))) :
    computedFor pid (tr ++ [⟨t, o, r, s⟩]) = computedFor pid tr := by
  rw [computedFor_append]
  cases o with
  | ext e =>
      cases e with
      | mark m =>
          cases m with
          | managed q reply => exact absurd rfl (ho q reply)
          | _ => exact List.append_nil _
      | _ => exact List.append_nil _
  | _ => exact List.append_nil _

/-- Only an office that takes one takes a request from the queue. -/
theorem popped_concat {t : Thread n} {o : ServerOp} {r : ServerRes o}
    {s : ServerState n (clients C n files)} (ho : o ≠ .ext .queuePop) :
    popped (tr ++ [⟨t, o, r, s⟩]) = popped tr := by
  rw [popped_append]
  cases o with
  | ext e =>
      cases e with
      | queuePop => exact absurd rfl ho
      | _ => exact List.append_nil _
  | _ => exact List.append_nil _

omit [Fintype P] in
/-- An office that has opened the FIFO of its request has opened the FIFO of the user who is named
there. -/
theorem OwnInv.delivers {x : Thread n → Errand} {w : Outside P n} {t : Thread n} {q : TlvRequest}
    {fd : Int} (h : OwnInv C x w) (hx : (x t).inHand = some (q, fd)) (p : P) (bytes : Bytes) :
    w.delivers p (.write fd bytes) = if q.isFrom (C.pid p) then some bytes else none := by
  obtain ⟨p', hpid, hfd⟩ := h.inHand t q fd hx
  rw [Outside.delivers_write hfd]
  by_cases hp : p' = p
  · subst hp
    have hfrom : q.isFrom (C.pid p') = true := decide_eq_true hpid.symm
    rw [if_pos rfl, if_pos hfrom]
  · have hfrom : q.isFrom (C.pid p) = false := by
      refine decide_eq_false ?_
      rw [← hpid]
      exact fun he => hp (C.pid_injective he)
    rw [if_neg hp, hfrom]
    rfl

/-- Its write succeeds. -/
theorem OwnInv.write_ne {x : Thread n → Errand} {w w' : Outside P n} {t : Thread n} {q : TlvRequest}
    {fd : Int} {bytes : Bytes} {r : Int} {choice : Choice} (h : OwnInv C x w)
    (hx : (x t).inHand = some (q, fd)) (hexec : w.exec t choice (.write fd bytes) = some (r, w')) :
    r ≠ -1 := by
  obtain ⟨p, -, hfd⟩ := h.inHand t q fd hx
  rcases Outside.exec_write hexec with ⟨-, -, -, -, rfl, -⟩ | ⟨hfd', -⟩ | ⟨hfd', -⟩
  · omega
  · cases hfd.symm.trans hfd'
  · exact absurd hfd (hfd' p t)

/-- **The account of every user's requests**, in every run in which the shutdowns spare the descriptors of
others. -/
theorem replyInv_of_run (h : (bank C n files).Run tr c) (hspares : Always SparesOthers tr) (p : P) :
    ReplyInv (C.pid p) (bankErrands tr) ((popped tr).countP (TlvRequest.isFrom (C.pid p)))
      (repliesTo p tr) (computedFor (C.pid p) tr) := by
  revert hspares
  refine bank_induction (I := fun tr _ => Always SparesOthers tr →
    ReplyInv (C.pid p) (bankErrands tr) ((popped tr).countP (TlvRequest.isFrom (C.pid p)))
      (repliesTo p tr) (computedFor (C.pid p) tr)) ?_ (fun _ ih _ => ih) ?_ ?_ h
  · intro _
    exact replyInv_start _
  · intro tr c c' t choice w' x' call k r hr _ _ hstep hx' ih hexec hspares
    have ih := ih hspares.left
    have hpopped : popped (tr ++ [⟨t, .ext (.sys call), r, c.shared⟩]) = popped tr := by
      rw [popped_append]
      exact List.append_nil _
    have hcomputed : computedFor (C.pid p) (tr ++ [⟨t, .ext (.sys call), r, c.shared⟩])
        = computedFor (C.pid p) tr := by
      rw [computedFor_append]
      exact List.append_nil _
    have hreplies : repliesTo p (tr ++ [⟨t, .ext (.sys call), r, c.shared⟩])
        = repliesTo p tr ++ ((worldOf c).delivers p call).toList := repliesTo_append _
    rw [hx', hpopped, hcomputed, hreplies]
    -- of the calls only `write` moves the counts: the others leave every office in its class
    by_cases hwrite : ∃ fd bytes, call = .write fd bytes
    · obtain ⟨fd, bytes, rfl⟩ := hwrite
      have hown := ownInv_of_run hr hspares.left
      obtain ⟨q, reply, hx, -, -, hx'⟩ := hstep.of_write
      have hhand : (bankErrands tr t).inHand = some (q, fd) := by
        rw [hx]
        rfl
      obtain rfl := (hx'.resolve_left fun he => hown.write_ne hhand hexec he.1).2
      rw [hown.delivers hhand]
      have hwrite := ih.write bytes (popped_le_one hr p) hx
      split at hwrite
      · next hq => rwa [if_pos hq]
      · next hq => rwa [if_neg hq, Option.toList_none, List.append_nil]
    · have hwrite : ∀ fd bytes, call ≠ .write fd bytes := fun fd bytes he => hwrite ⟨fd, bytes, he⟩
      rw [Outside.delivers_of_not_write hwrite, Option.toList_none, List.append_nil]
      refine ih.quiet (hstep.quiet (by simp) (by simp) fun fd bytes he => ?_)
      exact hwrite fd bytes (Ext.sys.inj (MemOp.ext.inj he))
  · intro tr c c' t x' o k r hr _ _ ho hstep hx' ih hspares
    have ih := ih hspares.left
    rw [hx', repliesTo_append, repliedTo_of_not_call ho, Option.toList_none, List.append_nil]
    -- of the other operations only the pop and the managed mark do
    by_cases hpop : o = .ext .queuePop
    · subst hpop
      obtain ⟨hx, rfl⟩ := hstep.of_queuePop
      have hcomputed : computedFor (C.pid p) (tr ++ [⟨t, .ext .queuePop, r, c.shared⟩])
          = computedFor (C.pid p) tr := computedFor_concat (by simp)
      rw [hcomputed, popped_append, List.countP_append]
      have hone : (poppedBy (⟨t, .ext .queuePop, r, c.shared⟩ : BankEvent C n files)).toList.countP
          (TlvRequest.isFrom (C.pid p)) = if TlvRequest.isFrom (C.pid p) r then 1 else 0 :=
        List.countP_singleton
      rw [hone]
      exact ih.pop hx
    rw [popped_concat hpop]
    by_cases hmark : ∃ q reply, o = .ext (.mark (.managed q reply))
    · obtain ⟨q, reply, rfl⟩ := hmark
      obtain ⟨-, hx, rfl⟩ := hstep.of_managed
      have hmanage := ih.manage (popped_le_one hr p) hx
      rw [computedFor_append]
      show ReplyInv _ _ _ _ (_ ++ (if q.isFrom (C.pid p) then some reply else none).toList)
      split at hmanage
      · next hq => rwa [if_pos hq]
      · next hq => rwa [if_neg hq, Option.toList_none, List.append_nil]
    · have hmark : ∀ q reply, o ≠ .ext (.mark (.managed q reply)) :=
        fun q reply he => hmark ⟨q, reply, he⟩
      rw [computedFor_concat hmark]
      exact ih.quiet (hstep.quiet hpop hmark fun fd bytes => ho _)

/-- A request in hand has been taken from the queue. -/
theorem mem_popped_of_request (h : (bank C n files).Run tr c) {t : Thread n} {q : TlvRequest}
    (hq : (bankErrands tr t).request = some q) : q ∈ popped tr := by
  -- one step of an office: it takes its request from the queue or has it already
  have hupdate : ∀ {tr : List (BankEvent C n files)} {c : BankConfig C n files} {u o x'}
      {r : ServerRes o}, ErrandStep (bankSetup n files) (bankErrands tr u) o r x' →
      (∀ t q, (bankErrands tr t).request = some q → q ∈ popped tr) →
      ∀ t q, (Function.update (bankErrands tr) u x' t).request = some q →
        q ∈ popped (tr ++ [⟨u, o, r, c.shared⟩]) := by
    intro tr c u o x' r hstep ih t q hq
    have hold : ∀ q, (bankErrands tr t).request = some q →
        q ∈ popped (tr ++ [⟨u, o, r, c.shared⟩]) := by
      intro q hq
      rw [popped_append]
      exact List.mem_append_left _ (ih t q hq)
    by_cases htu : t = u
    · subst htu
      rw [Function.update_self] at hq
      by_cases hpop : o = .ext .queuePop
      · subst hpop
        obtain ⟨-, rfl⟩ := hstep.of_queuePop
        cases hq
        rw [popped_append]
        exact List.mem_append_right _ (List.mem_singleton.mpr rfl)
      by_cases hmark : ∃ q reply, o = .ext (.mark (.managed q reply))
      · obtain ⟨q, reply, rfl⟩ := hmark
        obtain ⟨-, -, rfl⟩ := hstep.of_managed
        cases hq
      · rw [hstep.request_eq hpop fun q reply he => hmark ⟨q, reply, he⟩] at hq
        exact hold q hq
    · rw [Function.update_of_ne htu] at hq
      exact hold q hq
  suffices hall : ∀ t q, (bankErrands tr t).request = some q → q ∈ popped tr from hall t q hq
  refine bank_induction (I := fun tr _ => ∀ t q, (bankErrands tr t).request = some q →
    q ∈ popped tr) ?_ (fun _ ih _ => ih) ?_ ?_ h
  · intro t q hq
    cases t <;> cases hq
  · intro tr c c' u choice w' x' call k r _ _ _ hstep hx' ih _ t q hq
    rw [hx'] at hq
    exact hupdate hstep ih t q hq
  · intro tr c c' u x' o k r _ _ _ _ hstep hx' ih t q hq
    rw [hx'] at hq
    exact hupdate hstep ih t q hq

/-- **Every reply that is written is one to a request of its reader.** -/
theorem exists_request_of_replied (h : (bank C n files).Run tr c) (hspares : Always SparesOthers tr)
    {tr₁ tr₂ : List (BankEvent C n files)} {e : BankEvent C n files} (htr : tr = tr₁ ++ e :: tr₂)
    {bytes : Bytes} (he : repliedTo p e = some bytes) :
    ∃ request ∈ (worldAt e).written, C.Makes p request ∧ ∃ q fd reply,
      bankErrands tr₁ e.tid = .holding q fd ∧ request.Same q ∧ reply.IsFor request ∧
        bytes = replyBytes reply := by
  subst htr
  obtain ⟨c₁, k, s', hr, hpre, hp, -⟩ := h.split
  obtain ⟨t, o, r, s⟩ := e
  obtain rfl : s = c₁.shared := hpre.symm
  obtain ⟨x', hstep, -⟩ := exists_errandStep hr hp r
  by_cases hwrite : ∃ fd bytes', o = .ext (.sys (.write fd bytes'))
  · obtain ⟨fd, bytes', rfl⟩ := hwrite
    obtain ⟨q, reply, hx, hsuits, rfl, -⟩ := hstep.of_write
    have hhand : (bankErrands tr₁ t).inHand = some (q, fd) := by
      rw [hx]
      rfl
    have hdelivers := (ownInv_of_run hr hspares.left).delivers hhand p (replyBytes reply)
    have he : (worldOf c₁).delivers p (.write fd (replyBytes reply)) = some bytes := he
    rw [hdelivers] at he
    split at he
    · next hfrom =>
        cases he
        have hpopped := mem_popped_of_request hr (t := t) (q := q) (by rw [hx]; rfl)
        obtain ⟨request, hmem, hmakes, hsame⟩ := exists_original hr hpopped hfrom
        have hfor := hsuits (hsame.type ▸ hmakes.wellFormed.type)
        refine ⟨request, hmem, hmakes, q, fd, reply, hx, hsame, ⟨?_, ?_, hfor.length⟩, rfl⟩
        · rw [hfor.type, hsame.type]
        · rw [hfor.accountId, hsame.header]
    · cases he
  -- only a `write` replies
  · have hnone : repliedTo p (⟨t, o, r, c₁.shared⟩ : BankEvent C n files) = none := by
      cases o with
      | ext e =>
          cases e with
          | sys call =>
              exact Outside.delivers_of_not_write fun fd bytes' he => hwrite ⟨fd, bytes', he ▸ rfl⟩
          | _ => rfl
      | _ => rfl
    cases hnone.symm.trans he

/-- **Replies reach only their requester.** In every run in which each call of `handleShutdownRequest`
acts on the server's FIFO or on nothing: at most one reply is written into the FIFO of a user, and
nothing else gets there; it is written for the request that the user has made, with the type and the
account of that request; and it is the reply that `manageRequest` has computed for it. -/
theorem replies_correlated (h : (bank C n files).Run tr c) (hspares : Always SparesOthers tr) (p : P) :
    (repliesTo p tr).length ≤ 1 ∧
    ((worldOf c).users p).stream.Sublist (repliesTo p tr).flatten ∧
    (∀ tr₁ e tr₂ bytes, tr = tr₁ ++ e :: tr₂ → repliedTo p e = some bytes →
      ∃ request ∈ (worldAt e).written, C.Makes p request ∧ ∃ q fd reply,
        bankErrands tr₁ e.tid = .holding q fd ∧ request.Same q ∧ reply.IsFor request ∧
          bytes = replyBytes reply) ∧
    ∀ reply ∈ computedFor (C.pid p) tr, ∀ bytes ∈ repliesTo p tr, bytes = replyBytes reply := by
  have hinv := replyInv_of_run h hspares p
  refine ⟨?_, stream_sublist_of_run h hspares p, fun tr₁ e tr₂ bytes htr he => ?_, hinv.agrees⟩
  · have hone := popped_le_one h p
    have := hinv.replied
    omega
  · exact exists_request_of_replied h hspares htr he

/-! ## One shutdown spares the others -/

/-- As long as `handleShutdownRequest` has not closed its descriptor, it has spared those of others. -/
theorem sparesOthers_of_not_closed (h : (bank C n files).Run tr c)
    (hopen : ¬ Occurs ClosesShutdownFD tr) : Always SparesOthers tr := by
  intro tr₁ e tr₂ htr fd he
  refine .inl ((actsOnServerFifo_iff h htr he).mpr fun hclosed => hopen ?_).2
  rw [htr]
  exact hclosed.append _

end Runs

/-! ## An answer -/

/-- A user asks for a balance; its request has been managed, and the reply is in its FIFO. -/
theorem replies_correlated_enquiry :
    ∃ (tr : List (BankEvent enquirer 1 3)) (c : BankConfig enquirer 1 3) (request : TlvRequest)
      (reply : TlvReply), (bank enquirer 1 3).Run tr c ∧ computedFor 100 tr = [reply] ∧
        repliesTo () tr = [replyBytes reply] ∧ enquirer.Makes () request ∧
          ∃ reply', reply'.IsFor request ∧ replyBytes reply' = replyBytes reply := by
  obtain ⟨tr, c, h, hc⟩ := System.exists_run_of_play (bankPlayer enquirer 1 3) answeredEnquiry
    (initial_bankStart enquirer 1 3)
    (fun tr c => (worldOf c).fds.get 4 == some .serverWrite && (repliesTo () tr).length == 1 &&
      (computedFor 100 tr).length == 1) (by decide +kernel)
  simp only [Bool.and_eq_true, beq_iff_eq] at hc
  obtain ⟨⟨hopen, hreplies⟩, hcomputed⟩ := hc
  obtain ⟨bytes, hbytes⟩ := List.length_eq_one_iff.mp hreplies
  obtain ⟨reply, hreply⟩ := List.length_eq_one_iff.mp hcomputed
  have hspares := sparesOthers_of_not_closed h ((fdInv_of_run h).open_iff.mp hopen)
  obtain ⟨-, -, hreplied, hagrees⟩ := replies_correlated h hspares ()
  have hmem : bytes ∈ repliesTo () tr := by simp [hbytes]
  obtain rfl := hagrees reply (by rw [show enquirer.pid () = 100 from rfl, hreply]; simp) bytes hmem
  obtain ⟨e, hmem, he⟩ := List.mem_filterMap.mp hmem
  obtain ⟨tr₁, tr₂, htr⟩ := List.append_of_mem hmem
  obtain ⟨request, -, hmakes, q, fd, reply', -, -, hfor, heq⟩ := hreplied tr₁ e tr₂ _ htr he
  exact ⟨tr, c, request, reply, h, hreply, hbytes, hmakes, reply', hfor, heq.symm⟩

/-! ## Two replies in one FIFO -/

/-- **After a second shutdown two replies are written into one FIFO**: the second office has closed the
number with which the first one had opened the FIFO of its user, and has got the same number for the FIFO
of its own. -/
theorem exists_two_replies :
    ∃ (tr : List (BankEvent twoAdmins 2 3)) (c : BankConfig twoAdmins 2 3) (p : Bool),
      (bank twoAdmins 2 3).Run tr c ∧ (repliesTo p tr).length = 2 := by
  obtain ⟨tr, c, h, hc⟩ := System.exists_run_of_play (bankPlayer twoAdmins 2 3)
    (secondShutdown ++ List.replicate 3 (.run (.office 1)) ++ [.run (.office 0), .run (.office 1)])
    (initial_bankStart twoAdmins 2 3) (fun tr _ => (repliesTo true tr).length == 2) (by decide +kernel)
  exact ⟨tr, c, true, h, beq_iff_eq.mp hc⟩

end Sope
