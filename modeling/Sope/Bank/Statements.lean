import Sope.Bank.Independence
import Sope.Bank.Spans
import Sope.Concurrency.Accounting

/-! # Account statements

The replies of the server add up (`statements_add_up`). In the order in which the requests take effect, every
balance that a reply shows is what the replies so far have brought to the account, less what they have taken
from it; and so is the balance at the end. An account is there when a creation of it has been answered with
`OK`, and that happens at most once. -/

namespace Sope

open Concurrency

/-! ## What the replies say -/

namespace Job

/-- What an answered request has brought to an account. -/
def credit (id : UInt32) (job : Job) : ℕ :=
  if job.reply.value.header.retCode = .ok then
    match job.request.type with
    | .opCreateAccount =>
        if job.request.value.create.accountId = id then job.request.value.create.balance.toNat else 0
    | .opTransfer =>
        if job.request.value.transfer.accountId = id then job.request.value.transfer.amount.toNat else 0
    | _ => 0
  else 0

/-- What an answered request has taken from an account. -/
def debit (id : UInt32) (job : Job) : ℕ :=
  if job.reply.value.header.retCode = .ok then
    match job.request.type with
    | .opTransfer =>
        if job.request.value.header.accountId = id then job.request.value.transfer.amount.toNat else 0
    | _ => 0
  else 0

/-- One, if the request has opened the account. -/
def opens (id : UInt32) (job : Job) : ℕ :=
  if job.reply.value.header.retCode = .ok ∧ job.request.type = .opCreateAccount ∧
    job.request.value.create.accountId = id then 1 else 0

/-- What the answered requests have brought to an account. -/
def credited (id : UInt32) (jobs : List Job) : ℕ := (jobs.map (credit id)).sum

/-- What the answered requests have taken from an account. -/
def debited (id : UInt32) (jobs : List Job) : ℕ := (jobs.map (debit id)).sum

/-- How often the answered requests have opened an account. -/
def opened (id : UInt32) (jobs : List Job) : ℕ := (jobs.map (opens id)).sum

/-- The reply shows a balance: it answers an enquiry with `OK`, or a transfer of someone who is logged in
to an account that exists. -/
def ShowsBalance (job : Job) : Prop :=
  job.request.type = .opBalance ∧ job.reply.value.header.retCode = .ok ∨
    job.request.type = .opTransfer ∧ job.reply.value.header.retCode ≠ .loginFail ∧
      job.reply.value.header.retCode ≠ .idNotFound

end Job

/-- One, if the account is used. -/
def Slot.there (slot : Slot) : ℕ := if slot.used then 1 else 0

/-! ## What one request does -/

section

variable {setup : Setup} {hash : Bytes → Bytes → Bytes} {job : Job} {m m' : UInt32 → Slot}

/-- What a request does to the table agrees with its reply. -/
structure Job.Adds (job : Job) (m m' : UInt32 → Slot) : Prop where
  sound : ∀ id, (m' id).Sound 0 id
  money : ∀ id, (m' id).money + job.debit id = (m id).money + job.credit id
  there : ∀ id, (m' id).there = (m id).there + job.opens id
  shows : job.ShowsBalance → ∃ balance, job.reply.value.info = some balance ∧
    balance.toNat = (m' job.request.value.header.accountId).money

/-- A request that is refused does nothing. -/
theorem Job.adds_of_refused (hm : ∀ id, (m id).Sound 0 id) (hok : job.reply.value.header.retCode ≠ .ok)
    (hshows : job.ShowsBalance → ∃ balance, job.reply.value.info = some balance ∧
      balance.toNat = (m job.request.value.header.accountId).money) : job.Adds m m where
  sound := hm
  money id := by rw [Job.debit, Job.credit, if_neg hok, if_neg hok]
  there id := by rw [Job.opens, if_neg fun h => hok h.1, Nat.add_zero]
  shows := hshows

variable {request : TlvRequest} {salt : Bytes}

/-- A reply to a transfer shows the balance that the source account is left with. -/
theorem info_transferOutcome
    (hid : (m request.value.header.accountId).account.accountId = request.value.header.accountId) :
    (transferOutcome request m).1.value.info
      = some ((transferOutcome request m).2 request.value.header.accountId).account.balance := by
  unfold transferOutcome
  dsimp only
  split_ifs with h₁ h₂ h₃ h₄ h₅ h₆
  iterate 6 rfl
  rw [hid] at h₄
  show _ = some (transferredTable request m request.value.header.accountId).account.balance
  unfold transferredTable
  rw [Function.update_of_ne h₄, Function.update_self]
  rfl

/-- Only the reply to a shutdown is without the number of active offices. -/
theorem withoutActiveOffices_of_ne {reply : TlvReply} (h : reply.type ≠ .opShutdown) :
    reply.withoutActiveOffices = reply := if_neg h

theorem withoutActiveOffices_balanceOutcome (htype : request.type = .opBalance) :
    (balanceOutcome request m).withoutActiveOffices = balanceOutcome request m := by
  apply withoutActiveOffices_of_ne
  unfold balanceOutcome
  split
  · exact nofun
  · show request.type ≠ .opShutdown
    rw [htype]
    exact nofun

theorem withoutActiveOffices_transferOutcome :
    (transferOutcome request m).1.withoutActiveOffices = (transferOutcome request m).1 := by
  apply withoutActiveOffices_of_ne
  unfold transferOutcome
  dsimp only
  split_ifs <;> exact nofun

/-- A request of one of the four types alone: what it replies, and the table that it leaves. -/
theorem Job.Serial.respond (h : job.Serial setup hash m m') (hm : ∀ id, (m id).Sound 0 id)
    (hordinary : job.request.IsOrdinary) :
    job.reply = (job.request.respond hash job.salt m).1.withoutActiveOffices ∧
      m' = (job.request.respond hash job.salt m).2 := by
  obtain ⟨reply, hsolo, hreply⟩ := h
  rw [solo_manageRequest_respond setup (answers_answer hash job.salt) (fun id => (hm id).accountId)
    hordinary] at hsolo
  obtain ⟨rfl, rfl⟩ := Prod.mk.inj (Option.some.inj hsolo)
  exact ⟨hreply.symm, rfl⟩

/-- A shutdown changes no account. -/
theorem Job.Serial.table_of_shutdown (h : job.Serial setup hash m m')
    (htype : job.request.type = .opShutdown) : m' = m := by
  obtain ⟨reply, hsolo, -⟩ := h
  rw [solo_manageRequest (answers_answer hash job.salt)] at hsolo
  cases hlogin : checkLogin hash job.request (m job.request.value.header.accountId) with
  | some refusal =>
      rw [hlogin] at hsolo
      exact (Prod.mk.inj (Option.some.inj hsolo)).2.symm
  | none =>
      obtain ⟨answer, hanswer, -⟩ :=
        solo_handleShutdownRequest (answers_answer hash job.salt) setup job.request m
      rw [hlogin] at hsolo
      dsimp only at hsolo
      rw [solo_performRequest (answers_answer hash job.salt), htype] at hsolo
      exact (Prod.mk.inj (Option.some.inj (hanswer.symm.trans hsolo))).2.symm

/-- A login that fails is a refusal. -/
theorem Job.adds_of_login (hm : ∀ id, (m id).Sound 0 id) {reply : TlvReply}
    (hlogin : checkLogin hash job.request (m job.request.value.header.accountId) = some reply)
    (hreply : job.reply = reply.withoutActiveOffices) : job.Adds m m := by
  have hcode := retCode_of_checkLogin hlogin
  rw [← retCode_withoutActiveOffices, ← hreply] at hcode
  refine Job.adds_of_refused hm ?_ ?_
  · rw [hcode]
    split <;> decide
  · rintro (⟨-, hok⟩ | ⟨-, hfail, hfound⟩)
    · rw [hcode] at hok
      split at hok <;> cases hok
    · rw [hcode] at hfail hfound
      split at hfail
      · exact absurd rfl hfail
      · next hused => exact absurd (if_neg hused) hfound

/-- A creation. -/
theorem Job.adds_creation (hm : ∀ id, (m id).Sound 0 id) (hwithin : job.request.Within 0)
    (htype : job.request.type = .opCreateAccount) (hlogin : job.request.Login hash m)
    (hcode : job.reply.value.header.retCode
      = (createOutcome hash salt job.request m).1.value.header.retCode)
    (htable : m' = (createOutcome hash salt job.request m).2) : job.Adds m m' := by
  have hshows : ¬ job.ShowsBalance := by
    rintro (⟨h, -⟩ | ⟨h, -⟩) <;> exact absurd (htype.symm.trans h) (by decide)
  rcases createOutcome_cases salt htype hlogin with ⟨hmay, hok, hadds⟩ | ⟨-, hok, hsame⟩
  · rw [← htable] at hadds
    have hok : job.reply.value.header.retCode = .ok := hcode.trans hok
    have hdebit : ∀ id, job.debit id = 0 := by
      intro id
      rw [Job.debit, if_pos hok, htype]
    refine ⟨?_, ?_, ?_, fun h => absurd h hshows⟩
    · intro id
      by_cases hid : id = job.request.value.create.accountId
      · subst hid
        refine ⟨fun _ => hadds.accountId, fun _ => ?_, fun _ _ => Nat.zero_le _⟩
        rw [hadds.balance]
        exact (hwithin.create htype).2.2
      · rw [hadds.frame id hid]
        exact hm id
    · intro id
      rw [hdebit, Job.credit, if_pos hok, htype]
      show (m' id).money + 0 = (m id).money + if job.request.value.create.accountId = id then _ else 0
      by_cases hid : job.request.value.create.accountId = id
      · subst hid
        rw [if_pos rfl, Slot.money, if_pos hadds.used, hadds.balance, Slot.money,
          if_neg (by rw [hmay.unused]; decide), Nat.add_comm]
      · rw [if_neg hid, hadds.frame id (Ne.symm hid)]
    · intro id
      by_cases hid : job.request.value.create.accountId = id
      · subst hid
        rw [Job.opens, if_pos ⟨hok, htype, rfl⟩, Slot.there, if_pos hadds.used, Slot.there,
          if_neg (by rw [hmay.unused]; decide)]
      · rw [Job.opens, if_neg fun h => hid h.2.2, hadds.frame id (Ne.symm hid), Nat.add_zero]
  · rw [htable, hsame]
    exact Job.adds_of_refused hm (hcode ▸ hok) fun h => absurd h hshows

/-- An enquiry. -/
theorem Job.adds_enquiry (hm : ∀ id, (m id).Sound 0 id) (htype : job.request.type = .opBalance)
    (hlogin : job.request.Login hash m) (hreply : job.reply = balanceOutcome job.request m) :
    job.Adds m m := by
  have hmoney : (m job.request.value.header.accountId).money
      = (m job.request.value.header.accountId).account.balance.toNat := by
    rw [Slot.money, if_pos hlogin.1]
  refine ⟨hm, ?_, ?_, ?_⟩
  · intro id
    rw [Job.debit, Job.credit, htype]
  · intro id
    rw [Job.opens, if_neg (by rw [htype]; exact fun h => absurd h.2.1 (by decide)), Nat.add_zero]
  · rintro (⟨-, hok⟩ | ⟨h, -⟩)
    · rw [hreply] at hok ⊢
      unfold balanceOutcome at hok ⊢
      split at hok
      · next hadmin =>
          rw [if_pos hadmin]
          exact ⟨_, rfl, hmoney.symm⟩
      · cases hok
    · exact absurd (htype.symm.trans h) (by decide)

/-- A transfer. -/
theorem Job.adds_transfer (hm : ∀ id, (m id).Sound 0 id) (htype : job.request.type = .opTransfer)
    (hlogin : job.request.Login hash m) (hreply : job.reply = (transferOutcome job.request m).1)
    (htable : m' = (transferOutcome job.request m).2) : job.Adds m m' := by
  have hid := (hm job.request.value.header.accountId).accountId hlogin.1
  have hinfo := info_transferOutcome hid
  rw [← hreply, ← htable] at hinfo
  rcases transferOutcome_cases hm htype hlogin with ⟨hmay, hok, hmoved⟩ | ⟨-, hok, hsame⟩
  · have hmoves : job.request.MovesAmount m m' := by
      rw [htable, hmoved]
      exact movesAmount_transferredTable hmay.ne hmay.funds hmay.fits
    have hok : job.reply.value.header.retCode = .ok := by rw [hreply, hok]
    have hsrcUsed := (hmoves.kept job.request.value.header.accountId).1.trans hlogin.1
    have hdestUsed := (hmoves.kept job.request.value.transfer.accountId).1.trans hmay.dest_used
    refine ⟨?_, ?_, ?_, fun _ => ⟨_, hinfo, ?_⟩⟩
    · intro id
      refine ⟨fun hu => ?_, fun hu => ?_, fun _ _ => Nat.zero_le _⟩
      · rw [(hmoves.kept id).1] at hu
        rw [(hmoves.kept id).2.1]
        exact (hm id).accountId hu
      · rw [(hmoves.kept id).1] at hu
        have hle := (hm id).le_max hu
        have hdebit := hmoves.debit
        have hcredit := hmoves.credit
        have hfits := hmay.fits
        by_cases hs : id = job.request.value.header.accountId
        · subst hs
          omega
        by_cases hd : id = job.request.value.transfer.accountId
        · subst hd
          omega
        rw [hmoves.frame id hs hd]
        exact hle
    · intro id
      rw [Job.debit, Job.credit, if_pos hok, if_pos hok, htype]
      show (m' id).money + (if job.request.value.header.accountId = id then _ else 0)
        = (m id).money + if job.request.value.transfer.accountId = id then _ else 0
      by_cases hs : job.request.value.header.accountId = id
      · subst hs
        rw [if_pos rfl, if_neg hmay.ne, Slot.money, if_pos hsrcUsed, Slot.money, if_pos hlogin.1]
        have := hmoves.debit
        omega
      · rw [if_neg hs]
        by_cases hd : job.request.value.transfer.accountId = id
        · subst hd
          rw [if_pos rfl, Slot.money, if_pos hdestUsed, Slot.money, if_pos hmay.dest_used]
          exact hmoves.credit
        · rw [if_neg hd, hmoves.frame id (Ne.symm hs) (Ne.symm hd)]
    · intro id
      rw [Job.opens, if_neg (by rw [htype]; exact fun h => absurd h.2.1 (by decide)), Slot.there, Slot.there,
        (hmoves.kept id).1, Nat.add_zero]
    · rw [Slot.money, if_pos hsrcUsed]
  · rw [htable, hsame] at hinfo ⊢
    refine Job.adds_of_refused hm (by rw [hreply]; exact hok) fun _ => ⟨_, hinfo, ?_⟩
    rw [Slot.money, if_pos hlogin.1]

/-- **What a request does to the table agrees with its reply.** -/
theorem Job.Serial.adds (h : job.Serial setup hash m m') (hm : ∀ id, (m id).Sound 0 id)
    (hwithin : job.request.Within 0) (htype : job.request.type ≠ .opMaxNumber) : job.Adds m m' := by
  by_cases hshutdown : job.request.type = .opShutdown
  · rw [h.table_of_shutdown hshutdown]
    refine ⟨hm, ?_, ?_, ?_⟩
    · intro id
      rw [Job.debit, Job.credit, hshutdown]
    · intro id
      rw [Job.opens, if_neg (by rw [hshutdown]; exact fun h => absurd h.2.1 (by decide)), Nat.add_zero]
    · rintro (⟨h, -⟩ | ⟨h, -⟩) <;> exact absurd (hshutdown.symm.trans h) (by decide)
  · have hordinary : job.request.IsOrdinary := by
      cases hcase : job.request.type with
      | opCreateAccount => exact .inl hcase
      | opBalance => exact .inr (.inl hcase)
      | opTransfer => exact .inr (.inr hcase)
      | opShutdown => exact absurd hcase hshutdown
      | opMaxNumber => exact absurd hcase htype
    obtain ⟨hreply, htable⟩ := h.respond hm hordinary
    unfold TlvRequest.respond at hreply htable
    cases hlogin : checkLogin hash job.request (m job.request.value.header.accountId) with
    | some reply =>
        rw [hlogin] at hreply htable
        rw [htable]
        exact Job.adds_of_login hm hlogin hreply
    | none =>
        rw [hlogin] at hreply htable
        have hlogin := login_iff.mpr hlogin
        rcases hordinary with hcase | hcase | hcase
        · rw [hcase] at hreply htable
          refine Job.adds_creation hm hwithin hcase hlogin ?_ htable
          rw [hreply, retCode_withoutActiveOffices]
        · rw [hcase] at hreply htable
          rw [htable]
          exact Job.adds_enquiry hm hcase hlogin (hreply.trans (withoutActiveOffices_balanceOutcome hcase))
        · rw [hcase] at hreply htable
          exact Job.adds_transfer hm hcase hlogin (hreply.trans withoutActiveOffices_transferOutcome) htable

end

/-! ## Runs -/

variable {n : ℕ} {W : World (Thread n)} {hash : Bytes → Bytes → Bytes} {serverFifoFD shutdownFD : Int}
  {tr tr' : List (ServerEvent n W)} {c₀ c : Config (Thread n) ServerOp ServerRes (ServerState n W) Ctl}

/-- A request that has been managed has been pushed. -/
theorem mem_pushed_of_managed (h : (server n W serverFifoFD shutdownFD).Run tr c) {request : TlvRequest}
    (hmem : request ∈ managed tr) : request ∈ pushed tr := by
  obtain ⟨e, he, hmanaged⟩ := List.mem_filterMap.mp hmem
  obtain ⟨tr₁, tr₂, rfl⟩ := List.append_of_mem he
  obtain ⟨t, o, r, s⟩ := e
  cases o with
  | ext op =>
      cases op with
      | mark mark =>
          cases mark with
          | managed request' reply =>
              obtain rfl : request' = request := Option.some.inj hmanaged
              obtain ⟨c₁, k, s', hr, hpre, hp, hsem⟩ := h.split
              have hsem : Locked.sem table (fun s => s.alive = true) Ext.Sem t
                (.ext (.mark (.managed request' reply))) s r s' := hsem
              have halive : c₁.shared.rest.alive = true := by
                rw [hpre]
                exact Locked.sem_live hsem
              obtain ⟨g, hsync, hrule, -⟩ := synchronised_of_run hr halive
              -- the thread has the request in hand, so it has been popped
              obtain ⟨x, htransition, -⟩ := hsync.transition (hrule _ _ _ hp) r
              have hhand : Phase.inHand request' (phaseOf tr₁ t) = 1 := by
                generalize phaseOf tr₁ t = phase at htransition
                cases htransition with
                | finish => exact if_pos rfl
                | work _ _ hlocal => cases hlocal
              have hcount := hsync.drain.inHand request'
              have hle := le_total (Phase.inHand request') (phaseOf tr₁) t
              have hpopped : request' ∈ popped tr₁ := List.count_pos_iff.mp (by omega)
              have hpushed : request' ∈ pushed tr₁ := (popped_isPrefix hr).subset hpopped
              rw [pushed, List.filterMap_append]
              exact List.mem_append_left _ hpushed
          | _ => cases hmanaged
      | _ => cases hmanaged
  | _ => cases hmanaged

/-- There is no money at first. -/
theorem ServerInit.money {s : ServerState n W} (h : ServerInit s) (id : UInt32) : (s.cells id).money = 0 := by
  rcases h.cells_eq with hs | ⟨hash, salt, hs⟩
  · rw [hs]
    rfl
  · rw [hs, Function.update_apply]
    split <;> rfl

/-- **The replies add up.** Take any number of offices, any requests of the four types within the limits,
and any run in which as many requests have been handled as have been handed to the offices. Then the
requests have an order, in which none stands before one that was already being answered when an office
took it from the queue, and in which every balance that a reply shows, to an enquiry or to a transfer, is
the sum of what the replies up to this one have brought to the account (with what it was created with),
less what they have taken from it. So is the balance of every account at the end; and the accounts that
are there at the end are those at the beginning and those of which a creation was answered with `OK`,
once each. -/
theorem statements_add_up (hhash : W.HashesBy hash)
    (h₀ : (server n W serverFifoFD shutdownFD).Initial c₀)
    (hp : (server n W serverFifoFD shutdownFD).Path c₀ tr c) (htypes : KnownTypes tr)
    (hlimits : ∀ request ∈ pushed tr, request.Within 0)
    (hdone : (managed tr).length = (popped tr).length) :
    ∃ order : List (Span Job), order.Perm (spansOf tr) ∧
      order.Pairwise (fun v w => v.start < w.finish) ∧
      (∀ before span after, order = before ++ span :: after → span.job.ShowsBalance →
        ∃ balance, span.job.reply.value.info = some balance ∧
          balance.toNat
              + Job.debited span.job.request.value.header.accountId ((before ++ [span]).map Span.job)
            = Job.credited span.job.request.value.header.accountId ((before ++ [span]).map Span.job)) ∧
      ∀ id, (c.shared.cells id).money + Job.debited id (jobsOf tr) = Job.credited id (jobsOf tr) ∧
        (c.shared.cells id).there = (c₀.shared.cells id).there + Job.opened id (jobsOf tr) := by
  obtain ⟨order, hperm, hpairwise, hserial⟩ :=
    exists_strictOrder h₀ hp htypes (hashedBy_of_run hhash ⟨c₀, h₀, hp⟩) hdone
  have hjobs : (order.map Span.job).Perm (jobsOf tr) := by
    rw [← spansOf_map_job]
    exact hperm.map Span.job
  -- every request keeps the accounts sound, and does what its reply says
  have hstep : ∀ job ∈ order.map Span.job, ∀ m m' : UInt32 → Slot, (∀ id, (m id).Sound 0 id) →
      job.Serial ⟨n, serverFifoFD, shutdownFD⟩ hash m m' → job.Adds m m' := by
    intro job hjob m m' hm hserial
    have hmem : job.request ∈ pushed tr := by
      apply mem_pushed_of_managed ⟨c₀, h₀, hp⟩
      rw [← map_request_jobsOf]
      exact List.mem_map_of_mem (hjobs.mem_iff.mp hjob)
    exact hserial.adds hm (hlimits _ hmem) (htypes _ hmem)
  have hsound : ∀ id, (c₀.shared.cells id).Sound 0 id := (h₀.1.sound 0).2
  have hbalanced : ∀ {jobs : List Job} {m : UInt32 → Slot}, (∀ job ∈ jobs, job ∈ order.map Span.job) →
      Serially (Job.Serial ⟨n, serverFifoFD, shutdownFD⟩ hash) jobs c₀.shared.cells m →
      ∀ id, (m id).money + Job.debited id jobs = Job.credited id jobs := by
    intro jobs m hsub hserial id
    have h := hserial.balanced (fun m => (m id).money) (Job.credit id) (Job.debit id) hsound
      fun job hjob m m' hm hserial => ⟨(hstep job (hsub job hjob) m m' hm hserial).sound,
        (hstep job (hsub job hjob) m m' hm hserial).money id⟩
    rwa [h₀.1.money id, Nat.zero_add] at h
  refine ⟨order, hperm, hpairwise, ?_, ?_⟩
  · intro before span after horder hshows
    have hmap : order.map Span.job = before.map Span.job ++ span.job :: after.map Span.job := by
      rw [horder, List.map_append, List.map_cons]
    have hsub : ∀ job ∈ (before ++ [span]).map Span.job, job ∈ order.map Span.job := by
      rw [hmap, List.map_append]
      intro job hjob
      rcases List.mem_append.mp hjob with hjob | hjob
      · exact List.mem_append_left _ hjob
      · obtain rfl := List.mem_singleton.mp hjob
        exact List.mem_append_right _ (.head _)
    rw [hmap] at hserial
    obtain ⟨m₁, m₂, hbefore, hjob, -⟩ := hserial.split
    -- the table before the request is sound, so the request does what its reply says
    have hm₁ : ∀ id, (m₁ id).Sound 0 id := by
      apply hbefore.keeps hsound
      intro job hmem m m' hm hserial
      apply (hstep job (hsub job _) m m' hm hserial).sound
      rw [List.map_append]
      exact List.mem_append_left _ hmem
    have hmem : span.job ∈ order.map Span.job := by
      rw [hmap]
      exact List.mem_append_right _ (.head _)
    obtain ⟨balance, hinfo, hbalance⟩ := (hstep _ hmem m₁ m₂ hm₁ hjob).shows hshows
    refine ⟨balance, hinfo, ?_⟩
    rw [hbalance]
    apply hbalanced hsub
    rw [List.map_append]
    exact hbefore.append hjob
  · intro id
    constructor
    · have h := hbalanced (fun _ hjob => hjob) hserial id
      rwa [Job.debited, Job.credited, (hjobs.map _).sum_eq, (hjobs.map _).sum_eq] at h
    · have h := hserial.balanced (fun m => (m id).there) (Job.opens id) (fun _ => 0) hsound
        fun job hjob m m' hm hserial =>
          ⟨(hstep job hjob m m' hm hserial).sound, (hstep job hjob m m' hm hserial).there id⟩
      have hzero : ((order.map Span.job).map fun _ => 0).sum = 0 := by simp [Function.comp_def]
      rwa [(hjobs.map (Job.opens id)).sum_eq, hzero, Nat.add_zero] at h

/-! ## An example -/

/-- Two accounts are created, with 5 and 7, and 4 are transferred. -/
abbrev statementReads : List (Option Bytes) :=
  readsOf (creationRequest 1 5) ++ readsOf (creationRequest 2 7) ++ readsOf (transferRequest 1 2 4)

/-- A run in which the three requests are answered. -/
theorem exists_path_answered :
    ∃ tr c, (server 1 (servingScript _ statementReads).world 3 4).Path
        (firstConfig (servingScript _ statementReads) [9] [7] fun _ => 0) tr c ∧
      (decide (∀ request ∈ pushed tr, request.type ≠ .opMaxNumber) &&
        decide (∀ request ∈ pushed tr, request.WithinLimits) &&
        (managed tr).length == (popped tr).length && Job.debited 1 (jobsOf tr) == 4 &&
        Job.credited 1 (jobsOf tr) == 5) = true :=
  System.exists_path_of_play (serverPlayer _ 3 4)
    (List.replicate 27 (.run .main) ++ List.replicate 104 (.run (.office 0)))
    (firstConfig (servingScript (Thread 1) statementReads) [9] [7] fun _ => 0)
    (fun tr _ => decide (∀ request ∈ pushed tr, request.type ≠ .opMaxNumber) &&
      decide (∀ request ∈ pushed tr, request.WithinLimits) &&
      (managed tr).length == (popped tr).length && Job.debited 1 (jobsOf tr) == 4 &&
      Job.credited 1 (jobsOf tr) == 5) (by decide +kernel)

/-- Of the 5 on account 1 the transfer has taken 4. -/
theorem statements_add_up_answered :
    ∃ tr c, (server 1 (servingScript _ statementReads).world 3 4).Path
        (firstConfig (servingScript _ statementReads) [9] [7] fun _ => 0) tr c ∧
      (c.shared.cells 1).money = 1 := by
  obtain ⟨tr, c, hp, hc⟩ := exists_path_answered
  simp only [Bool.and_eq_true, decide_eq_true_eq, beq_iff_eq] at hc
  obtain ⟨⟨⟨⟨htypes, hlimits⟩, hdone⟩, hdebited⟩, hcredited⟩ := hc
  have hhash : (servingScript (Thread 1) statementReads).world.HashesBy fun _ _ => [9] := by
    intro t password salt w r w' h
    exact (Prod.mk.inj (Option.some.inj h)).1.symm
  obtain ⟨order, -, -, -, hend⟩ := statements_add_up hhash
    (initial_firstConfig (servingScript (Thread 1) statementReads) [9] [7] (fun _ => 0) 3 4) hp htypes
    (fun request hmem => (hlimits request hmem).within (Nat.zero_le _)) hdone
  have hmoney := (hend 1).1
  rw [hdebited, hcredited] at hmoney
  exact ⟨tr, c, hp, by omega⟩

end Sope
