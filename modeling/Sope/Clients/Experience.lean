import Sope.Bank.Spans
import Sope.Clients.Replies

/-! # What the users see

The bank from the outside, from the arguments of the user programs to the bytes that they read. When no
request is in the hand of an office, there is one order of the requests, executed one at a time, that
explains what every user has got, and that agrees with what users could see of each other: a user that has
read something of its reply comes before every user that has not written its request yet
(`users_see_one_bank`). -/

namespace Sope

open Concurrency

variable {P : Type} [DecidableEq P] [Fintype P] {C : Clientele P} {n files : ℕ}
  {hash : Bytes → Bytes → Bytes} {tr tr₁ tr₂ : List (BankEvent C n files)} {c c₀ c₁ : BankConfig C n files}
  {p q : P}

/-- Where one at most is counted, there is no other one. -/
theorem eq_of_countP_le_one {α : Type} {l : List α} {f : α → Bool} {a b : α} (h : l.countP f ≤ 1)
    (ha : a ∈ l) (hb : b ∈ l) (hfa : f a = true) (hfb : f b = true) : a = b := by
  have ha : a ∈ l.filter f := List.mem_filter.mpr ⟨ha, hfa⟩
  have hb : b ∈ l.filter f := List.mem_filter.mpr ⟨hb, hfb⟩
  rw [List.countP_eq_length_filter] at h
  cases hl : l.filter f with
  | nil =>
      rw [hl] at ha
      cases ha
  | cons x rest =>
      rw [hl, List.length_cons] at h
      obtain rfl : rest = [] := List.eq_nil_of_length_eq_zero (by omega)
      rw [hl, List.mem_singleton] at ha hb
      rw [ha, hb]

/-! ## The requests of a user -/

/-- The job is one for the process. -/
def Job.isFrom (pid : UInt32) (job : Job) : Bool := job.request.isFrom pid

/-- Users ask for the four operations only. -/
theorem knownTypes_of_run (h : (bank C n files).Run tr c) : KnownTypes tr := by
  intro request hrequest
  obtain ⟨phases, husers⟩ := usersInv_of_run h
  obtain ⟨taken, unread, hwritten, hsame⟩ := (channelInv_of_run h).exists_taken
  obtain ⟨original, hmem, hsame⟩ := exists_same_of_mem hsame hrequest
  have hmem : original ∈ (worldOf c).written := by
    rw [hwritten]
    exact List.mem_append_left _ hmem
  obtain ⟨p, hmakes⟩ := husers.makes original hmem
  rw [hsame.type]
  exact hmakes.wellFormed.type

/-- A reply for each request that has been managed. -/
theorem length_computedFor (pid : UInt32) :
    (computedFor pid tr).length = (managed tr).countP (TlvRequest.isFrom pid) := by
  induction tr using List.reverseRecOn with
  | nil => rfl
  | append_singleton tr e ih =>
      rw [computedFor_append, managed_append, List.length_append, List.countP_append, ih]
      congr 1
      obtain ⟨t, o, r, s⟩ := e
      cases o with
      | ext op =>
          cases op with
          | mark m =>
              cases m with
              | managed request reply =>
                  show (if request.isFrom pid then some reply else none).toList.length
                    = [request].countP (TlvRequest.isFrom pid)
                  rw [List.countP_singleton]
                  split <;> rfl
              | _ => rfl
          | _ => rfl
      | _ => rfl

/-- A user has one job at most. -/
theorem countP_spansOf (h : (bank C n files).Run tr c) (hspares : Always SparesOthers tr) (p : P) :
    (spansOf tr).countP (fun span => span.job.isFrom (C.pid p)) ≤ 1 := by
  have hcarried := (replyInv_of_run h hspares p).carried
  have hone := popped_le_one h p
  -- a reply is computed for each of its jobs, and no more than one request of a user is ever taken
  have hcount : (spansOf tr).countP (fun span => span.job.isFrom (C.pid p))
      = (managed tr).countP (TlvRequest.isFrom (C.pid p)) := by
    rw [← map_request_jobsOf, ← spansOf_map_job, List.map_map, List.countP_map]
    rfl
  rw [hcount, ← length_computedFor]
  omega

/-- An office that writes to a user has its request. -/
theorem exists_holding_of_mem (h : (bank C n files).Run tr c) (hspares : Always SparesOthers tr)
    {bytes : Bytes} (hbytes : bytes ∈ repliesTo p tr) :
    ∃ tr₁ e tr₂ q, tr = tr₁ ++ e :: tr₂ ∧ (bankErrands tr₁ e.tid).told = some q ∧
      ∃ request, C.Makes p request ∧ request.Same q := by
  obtain ⟨e, he, hreplied⟩ := List.mem_filterMap.mp hbytes
  obtain ⟨tr₁, tr₂, htr⟩ := List.append_of_mem he
  obtain ⟨request, -, hmakes, q, fd, reply, hx, hsame, -⟩ := exists_request_of_replied h hspares htr hreplied
  refine ⟨tr₁, e, tr₂, q, htr, ?_, request, hmakes, hsame⟩
  rw [hx]
  rfl

/-- It has begun to answer before it writes, and the request is finished at the end. -/
theorem exists_span_of_mem (h : (bank C n files).Run (tr₁ ++ tr₂) c)
    (hspares : Always SparesOthers (tr₁ ++ tr₂))
    (hdone : (managed (tr₁ ++ tr₂)).length = (popped (tr₁ ++ tr₂)).length) (h₁ : (bank C n files).Run tr₁ c₁)
    {bytes : Bytes} (hbytes : bytes ∈ repliesTo p tr₁) :
    ∃ span ∈ spansOf (tr₁ ++ tr₂), span.finish < tr₁.length ∧
      ∃ request, C.Makes p request ∧ request.Same span.job.request := by
  obtain ⟨tr₀, e, tr', q, rfl, htold, request, hmakes, hsame⟩ :=
    exists_holding_of_mem h₁ hspares.left hbytes
  rw [List.append_assoc] at h hdone ⊢
  rcases span_of_told h htold with hrequest | ⟨span, hspan, hrequest, hfinish⟩
  -- an office that still has it would be one request short at the end
  · rw [request_eq_none h hdone] at hrequest
    cases hrequest
  · refine ⟨span, hspan, ?_, request, hmakes, hrequest ▸ hsame⟩
    rw [List.length_append]
    omega

omit [Fintype P] [DecidableEq P] in
/-- A request that agrees with one that a user makes is its. -/
theorem Clientele.Makes.isFrom {request handled : TlvRequest} (h : C.Makes p request)
    (hsame : request.Same handled) : handled.isFrom (C.pid p) = true := by
  rw [TlvRequest.isFrom, hsame.header, h.pid]
  exact decide_eq_true rfl

/-- What an office has answered a user is what it has computed for the user's job. -/
theorem exists_job_of_mem (h : (bank C n files).Run tr c) (hspares : Always SparesOthers tr)
    (hdone : (managed tr).length = (popped tr).length) {bytes : Bytes} (hbytes : bytes ∈ repliesTo p tr) :
    ∃ job ∈ jobsOf tr, ∃ request reply, C.Makes p request ∧ request.Same job.request ∧
      job.reply = reply.withoutActiveOffices ∧ bytes = replyBytes reply := by
  have h' : (bank C n files).Run (tr ++ []) c := by rwa [List.append_nil]
  obtain ⟨span, hspan, -, request, hmakes, hsame⟩ :=
    exists_span_of_mem h' (by rwa [List.append_nil]) (by rwa [List.append_nil]) h hbytes
  rw [List.append_nil] at hspan
  have hjob : span.job ∈ jobsOf tr := by
    rw [← spansOf_map_job]
    exact List.mem_map_of_mem hspan
  obtain ⟨e, he, reply, ho, hreply⟩ := exists_managed_of_mem_jobsOf hjob
  have hcomputed : reply ∈ computedFor (C.pid p) tr := by
    refine List.mem_filterMap.mpr ⟨e, he, ?_⟩
    rw [computedBy, ho]
    exact if_pos (hmakes.isFrom hsame)
  have hagrees := (replyInv_of_run h hspares p).agrees reply hcomputed bytes hbytes
  exact ⟨span.job, hjob, request, reply, hmakes, hsame, hreply, hagrees⟩

/-- A user that has read something has been written to. -/
theorem exists_mem_repliesTo (h : (bank C n files).Run tr c) (hspares : Always SparesOthers tr)
    (hreceived : ((worldOf c).users p).received ≠ []) : ∃ bytes, bytes ∈ repliesTo p tr := by
  have hstream := stream_sublist_of_run h hspares p
  apply List.exists_mem_of_ne_nil
  intro hnone
  rw [hnone, List.flatten_nil, List.sublist_nil, UserState.stream, List.append_eq_nil_iff] at hstream
  exact hreceived hstream.1

/-! ## Who comes first -/

/-- A user that had not written its request has been served from then on only. -/
theorem start_of_unwritten (h : (bank C n files).Run (tr₁ ++ tr₂) c) (h₁ : (bank C n files).Run tr₁ c₁)
    (hunwritten : (worldOf c₁).requestsOf C q = []) {span : Span Job} (hspan : span ∈ spansOf (tr₁ ++ tr₂))
    (hfrom : span.job.isFrom (C.pid q) = true) : tr₁.length ≤ span.start := by
  by_contra hlt
  -- what an office has taken was read from the server FIFO, so a user had written it
  have htaken := (takenAt_of_span h span hspan).mem_popped (Nat.lt_of_not_le hlt)
  obtain ⟨request, hmem, hmakes, -⟩ := exists_original h₁ htaken hfrom
  have hmem : request ∈ (worldOf c₁).requestsOf C q :=
    List.mem_filter.mpr ⟨hmem, decide_eq_true hmakes.pid⟩
  rw [hunwritten] at hmem
  exact List.not_mem_nil hmem

/-- A user that had read something of its reply has been served before. -/
theorem finish_of_received (h : (bank C n files).Run (tr₁ ++ tr₂) c)
    (hspares : Always SparesOthers (tr₁ ++ tr₂))
    (hdone : (managed (tr₁ ++ tr₂)).length = (popped (tr₁ ++ tr₂)).length) (h₁ : (bank C n files).Run tr₁ c₁)
    (hreceived : ((worldOf c₁).users p).received ≠ []) {span : Span Job}
    (hspan : span ∈ spansOf (tr₁ ++ tr₂)) (hfrom : span.job.isFrom (C.pid p) = true) :
    span.finish < tr₁.length := by
  obtain ⟨bytes, hbytes⟩ := exists_mem_repliesTo h₁ hspares.left hreceived
  obtain ⟨span', hspan', hfinish, request, hmakes, hsame⟩ := exists_span_of_mem h hspares hdone h₁ hbytes
  -- the user has no other job
  have heq : span = span' :=
    eq_of_countP_le_one (countP_spansOf h hspares p) hspan hspan' hfrom (hmakes.isFrom hsame)
  rw [heq]
  exact hfinish

/-- **The users see one bank.** Take any users with process numbers of at most five digits, so that the paths of
their FIFOs fit the arrays, and with any arguments that do not name the account 4096, which the programs accept
and which lies behind the ends of `accounts`, `usedAccounts` and `accountMutexes`; any number of offices; and
any run in which the shutdowns spare the descriptors of others, in which `generateHash` was a function, and in
which as many requests have been handled as have been handed to the offices. Then there is an order of the
requests, at most one from each user, in which running `manageRequest` on them one at a time takes the initial
accounts to those at the end of the run; whatever a user has read is part of the bytes of the reply that its
own request has there (but for the number of active offices in the reply to a shutdown), and nothing else has
been written to it. And the order is that of the users' own experience: when a user has read something before
another one has written its request, it comes first. -/
theorem users_see_one_bank (_hpids : ∀ p, (C.pid p).toNat ≤ 99999)
    (_hargs : ∀ p, ∀ id ∈ accountIdsOfArgs (C.argv p), id ≠ 4096)
    (h₀ : (bank C n files).Initial c₀) (hp : (bank C n files).Path c₀ tr c)
    (hspares : Always SparesOthers tr) (hhashed : HashedBy hash tr)
    (hdone : (managed tr).length = (popped tr).length) :
    ∃ order : List Job, order.Perm (jobsOf tr) ∧
      Serially (Job.Serial (bankSetup n files) hash) order c₀.shared.cells c.shared.cells ∧
      (∀ p, order.countP (Job.isFrom (C.pid p)) ≤ 1) ∧
      (∀ p, repliesTo p tr = [] ∧ ((worldOf c).users p).received = [] ∨
        ∃ job ∈ order, ∃ request reply, C.Makes p request ∧ request.Same job.request ∧
          job.reply = reply.withoutActiveOffices ∧ repliesTo p tr = [replyBytes reply] ∧
          ((worldOf c).users p).received.Sublist (replyBytes reply)) ∧
      ∀ p q tr₁ tr₂ c₁, tr = tr₁ ++ tr₂ → (bank C n files).Run tr₁ c₁ →
        ((worldOf c₁).users p).received ≠ [] → (worldOf c₁).requestsOf C q = [] →
        order.Pairwise fun job job' =>
          ¬ (job.isFrom (C.pid q) = true ∧ job'.isFrom (C.pid p) = true) := by
  have h : (bank C n files).Run tr c := ⟨c₀, h₀, hp⟩
  obtain ⟨order, hperm, hpairwise, hserial⟩ :=
    exists_strictOrder h₀ hp (knownTypes_of_run h) hhashed hdone
  have hjobs : (order.map Span.job).Perm (jobsOf tr) := by
    rw [← spansOf_map_job]
    exact hperm.map Span.job
  refine ⟨order.map Span.job, hjobs, hserial, ?_, ?_, ?_⟩
  · intro p
    rw [List.countP_map, hperm.countP_eq]
    exact countP_spansOf h hspares p
  · intro p
    have hstream := stream_sublist_of_run h hspares p
    have hreceived := (List.sublist_append_left _ ((worldOf c).users p).content).trans hstream
    have hinv := replyInv_of_run h hspares p
    have hone := popped_le_one h p
    match hreplies : repliesTo p tr with
    | [] =>
        rw [hreplies, List.flatten_nil, List.sublist_nil] at hreceived
        exact .inl ⟨rfl, hreceived⟩
    | bytes :: rest =>
        have hmem : bytes ∈ repliesTo p tr := by
          rw [hreplies]
          exact .head _
        obtain ⟨job, hjob, request, reply, hmakes, hsame, hreply, rfl⟩ := exists_job_of_mem h hspares hdone hmem
        have hreplied := hinv.replied
        rw [hreplies, List.length_cons] at hreplied
        obtain rfl : rest = [] := List.eq_nil_of_length_eq_zero (by omega)
        rw [hreplies, List.flatten_singleton] at hreceived
        exact .inr ⟨job, hjobs.mem_iff.mpr hjob, request, reply, hmakes, hsame, hreply, rfl, hreceived⟩
  · rintro p q tr₁ tr₂ c₁ rfl h₁ hreceived hunwritten
    rw [List.pairwise_map]
    refine hpairwise.imp_of_mem ?_
    rintro v w hv hw hvw ⟨hq, hp⟩
    have hstart := start_of_unwritten h h₁ hunwritten (hperm.mem_iff.mp hv) hq
    have hfinish := finish_of_received h hspares hdone h₁ hreceived (hperm.mem_iff.mp hw) hp
    omega

/-! ## An enquiry -/

/-- A user asks for a balance, and gets the reply of its own request. -/
theorem users_see_one_bank_enquiry :
    ∃ (tr : List (BankEvent enquirer 1 3)) (c : BankConfig enquirer 1 3) (order : List Job),
      (bank enquirer 1 3).Path (bankStart enquirer 1 3) tr c ∧ order.Perm (jobsOf tr) ∧
        Serially (Job.Serial (bankSetup 1 3) fun _ _ => [9]) order (bankStart enquirer 1 3).shared.cells
          c.shared.cells ∧
        ∃ job ∈ order, ∃ request reply, enquirer.Makes () request ∧ request.Same job.request ∧
          job.reply = reply.withoutActiveOffices ∧ repliesTo () tr = [replyBytes reply] := by
  obtain ⟨tr, c, hp, hc⟩ := System.exists_path_of_play (bankPlayer enquirer 1 3) answeredEnquiry
    (bankStart enquirer 1 3)
    (fun tr c => (worldOf c).fds.get 4 == some .serverWrite && (repliesTo () tr).length == 1 &&
      (tr.all fun e => hashesAs (fun _ _ => [9]) e.op e.res) &&
      (managed tr).length == (popped tr).length) (by decide +kernel)
  simp only [Bool.and_eq_true, beq_iff_eq] at hc
  obtain ⟨⟨⟨hopen, hreplies⟩, hhashed⟩, hdone⟩ := hc
  have h : (bank enquirer 1 3).Run tr c := ⟨_, initial_bankStart enquirer 1 3, hp⟩
  have hspares := sparesOthers_of_not_closed h ((fdInv_of_run h).open_iff.mp hopen)
  have hids : (accountIdsOfArgs (balanceArgs [48])).all (· ≠ 4096) = true := by decide +kernel
  have hargs : ∀ p : Unit, ∀ id ∈ accountIdsOfArgs (enquirer.argv p), id ≠ 4096 := fun _ id hid =>
    of_decide_eq_true (List.all_eq_true.mp hids id hid)
  have hpid : (100 : UInt32).toNat ≤ 99999 := by decide
  obtain ⟨order, hperm, hserial, -, hread, -⟩ := users_see_one_bank (fun _ => hpid) hargs
    (initial_bankStart enquirer 1 3) hp hspares (List.all_eq_true.mp hhashed) hdone
  rcases hread () with ⟨hnone, -⟩ | ⟨job, hjob, request, reply, hmakes, hsame, hreply, hone, -⟩
  · rw [hnone] at hreplies
    cases hreplies
  · exact ⟨tr, c, order, hp, hperm, hserial, job, hjob, request, reply, hmakes, hsame, hreply, hone⟩

end Sope
