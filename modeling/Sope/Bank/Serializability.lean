import Sope.Bank.Play
import Sope.Bank.Synchronised
import Sope.Bank.Transactions

/-! # Serializability

Whatever the interleaving of the offices, when all requests have been handled the accounts and the
replies are those of the same requests handled one at a time, in the order of their commits
(`requests_serializable`). -/

namespace Sope

open Concurrency

variable {n : ℕ} {W : World (Thread n)} {hash : Bytes → Bytes → Bytes}
  {serverFifoFD shutdownFD : Int} {tr tr' : List (ServerEvent n W)} {s s' : ServerState n W}
  {c c₀ : Config (Thread n) ServerOp ServerRes (ServerState n W) Ctl} {t : Thread n}

/-! ## Reading a run -/

/-- What a run says of the requests: the salt drawn for the request that a thread has in hand, and the
requests that are finished. -/
structure History (n : ℕ) where
  hand : Thread n → Option Bytes
  jobs : List Job

/-- The job that an operation finishes. -/
def finishes (hand : Option Bytes) : ServerOp → Option Job
  | .ext (.mark (.managed request reply)) =>
      some ⟨request, hand.getD [], reply.withoutActiveOffices⟩
  | _ => none

/-- The history after one more operation. -/
def History.record (h : History n) (e : ServerEvent n W) : History n where
  hand := Function.update h.hand e.tid (handAfter (h.hand e.tid) e.op e.res)
  jobs := h.jobs ++ (finishes (h.hand e.tid) e.op).toList

/-- The history of a run. -/
def historyOf (tr : List (ServerEvent n W)) : History n :=
  tr.foldl History.record ⟨fun _ => none, []⟩

/-- The requests finished in a run, each with the salt that was drawn for it and its reply. -/
def jobsOf (tr : List (ServerEvent n W)) : List Job := (historyOf tr).jobs

theorem historyOf_append (e : ServerEvent n W) :
    historyOf (tr ++ [e]) = (historyOf tr).record e := by
  simp [historyOf, List.foldl_append]

/-- An access to the accounts or to a lock is not seen in the history. -/
theorem historyOf_append_of_not_ext {e : ServerEvent n W} (he : ∀ op, e.op ≠ .ext op) :
    historyOf (tr ++ [e]) = historyOf tr := by
  rw [historyOf_append]
  obtain ⟨t, op, r, s⟩ := e
  cases op with
  | ext op => exact absurd rfl (he op)
  | _ =>
      change History.mk (Function.update _ _ _) (_ ++ []) = _
      rw [List.append_nil]
      change History.mk (Function.update _ t ((historyOf tr).hand t)) _ = _
      rw [Function.update_eq_self]

/-- The number of requests in a hand. -/
def inHands (hand : Option Bytes) : ℕ := if hand.isSome then 1 else 0

/-- Whether a thread has committed a job that is not finished. -/
def Tx.commits (job : Job) (x : Tx) : ℕ := if x.done = some job then 1 else 0

/-! ## The invariant -/

/-- The jobs committed so far, executed one after the other from the table `cells₀`, explain the table
and what the threads know of it; they are the finished jobs and those that some thread has committed
and not finished. -/
structure TxInv (setup : Setup) (hash : Bytes → Bytes → Bytes) (cells₀ : UInt32 → Slot)
    (tr : List (ServerEvent n W)) (s : ServerState n W) (g : Thread n → Hold UInt32 Slot × Tx) :
    Prop where
  serial : ∃ log abs, Serially (Job.Serial setup hash) log cells₀ abs ∧
    SerialInv loginSpec s (fun u => (g u).1) (fun u => (g u).2.snap) abs ∧
    ∀ job, log.count job = (jobsOf tr).count job + total (Tx.commits job) fun u => (g u).2
  hand : ∀ t, (g t).2.hand = (historyOf tr).hand t
  rest : ∀ t, (g t).2.hand = none → (g t).1.held = ∅ ∧ (g t).2.done = none
  count : (popped tr).length = (managed tr).length + total inHands (historyOf tr).hand

section Steps

variable {setup : Setup} {cells₀ : UInt32 → Slot} {g : Thread n → Hold UInt32 Slot × Tx}

/-- The invariant holds initially. -/
theorem TxInv.init (howner : ∀ i, s.owner i = none) :
    TxInv setup hash s.cells [] s fun _ => (Hold.empty s.cells, ⟨none, s.cells, none⟩) where
  serial := by
    refine ⟨[], s.cells, rfl, SerialInv.of_free howner, fun job => ?_⟩
    have hnone : total (Tx.commits job) (fun _ : Thread n => Tx.mk none s.cells none) = 0 :=
      total_eq_zero fun _ => rfl
    exact (congrArg (0 + ·) hnone).symm
  hand _ := rfl
  rest _ _ := ⟨rfl, rfl⟩
  count := by
    have hnone : total inHands (fun _ : Thread n => (none : Option Bytes)) = 0 :=
      total_eq_zero fun _ => rfl
    exact (congrArg (0 + ·) hnone).symm

/-- The invariant is about the accounts and the locks only. -/
theorem TxInv.congr (h : TxInv setup hash cells₀ tr s g) (hcells : s'.cells = s.cells)
    (howner : s'.owner = s.owner) : TxInv setup hash cells₀ tr s' g where
  serial := by
    obtain ⟨log, abs, hlog, hinv, hcount⟩ := h.serial
    exact ⟨log, abs, hlog, hinv.congr_rest hcells howner, hcount⟩
  hand := h.hand
  rest := h.rest
  count := h.count

/-- A thread that holds an account has a request in hand. -/
theorem TxInv.hand_ne_none (h : TxInv setup hash cells₀ tr s g) {i : UInt32}
    (hi : i ∈ (g t).1.held) : (g t).2.hand ≠ none := fun hx => by
  rw [(h.rest t hx).1] at hi
  simp at hi

/-- The ghost values after a step of one thread, taken apart. -/
theorem update_apart (g : Thread n → Hold UInt32 Slot × Tx) (t : Thread n) (b : Hold UInt32 Slot)
    (x : Tx) :
    (fun u => (Function.update g t (b, x) u).1) = Function.update (fun u => (g u).1) t b ∧
      (fun u => (Function.update g t (b, x) u).2) = Function.update (fun u => (g u).2) t x ∧
      (fun u => (Function.update g t (b, x) u).2.snap)
        = Function.update (fun u => (g u).2.snap) t x.snap :=
  ⟨funext fun u => Function.apply_update (fun _ => Prod.fst) g t (b, x) u,
    funext fun u => Function.apply_update (fun _ => Prod.snd) g t (b, x) u,
    funext fun u => Function.apply_update (fun _ y => y.2.snap) g t (b, x) u⟩

/-- A step on the accounts or on their locks, of a thread with a request in hand. -/
theorem TxInv.keep (h : TxInv setup hash cells₀ tr s g) {e : ServerEvent n W}
    (he : ∀ op, e.op ≠ .ext op) {b : Hold UInt32 Slot} {x : Tx} (hx : (g t).2.hand ≠ none)
    (hhand : x.hand = (g t).2.hand)
    (hserial : ∃ log abs, Serially (Job.Serial setup hash) log cells₀ abs ∧
      SerialInv loginSpec s' (Function.update (fun u => (g u).1) t b)
        (Function.update (fun u => (g u).2.snap) t x.snap) abs ∧
      ∀ job, log.count job = (jobsOf tr).count job
        + total (Tx.commits job) (Function.update (fun u => (g u).2) t x)) :
    TxInv setup hash cells₀ (tr ++ [e]) s' (Function.update g t (b, x)) := by
  obtain ⟨-, -, hpopped, hmanaged⟩ := append_of_not_ext tr he
  have hhist : historyOf (tr ++ [e]) = historyOf tr := historyOf_append_of_not_ext he
  obtain ⟨h₁, h₂, h₃⟩ := update_apart g t b x
  refine ⟨?_, fun u => ?_, fun u hu => ?_, ?_⟩
  · rw [h₁, h₂, h₃, jobsOf, hhist]
    exact hserial
  · rw [hhist]
    by_cases hut : u = t
    · subst hut
      rw [Function.update_self]
      exact hhand.trans (h.hand u)
    · rw [Function.update_of_ne hut]
      exact h.hand u
  · by_cases hut : u = t
    · subst hut
      rw [Function.update_self] at hu
      exact absurd (hhand.symm.trans hu) hx
    · rw [Function.update_of_ne hut] at hu ⊢
      exact h.rest u hu
  · rw [hpopped, hmanaged, hhist]
    exact h.count

/-- A commit is counted until its job is finished. -/
theorem commits_after {b : Hold UInt32 Slot} {x : Tx} {e : Ext} (r : e.Res)
    (hpre : (transactions setup hash).pre x b (.ext e)) (hrest : x.hand = none → x.done = none)
    (job : Job) : (finishes x.hand (.ext e)).toList.count job + (x.after e r).commits job
      = x.commits job := by
  cases e with
  | queuePop =>
      have hdone := hrest hpre
      change 0 + 0 = _
      rw [Tx.commits, hdone]
      rfl
  | mark m =>
      cases m with
      | managed request reply =>
          obtain ⟨-, salt, hhand, hdone⟩ := hpre
          change [Job.mk request (x.hand.getD []) _].count job + 0 = _
          rw [hhand, Tx.commits, hdone, Option.getD_some, List.count_singleton]
          simp
      | _ => exact Nat.zero_add _
  | _ => exact Nat.zero_add _

/-- A request is in a hand from its pop until it is managed. -/
theorem inHands_after {b : Hold UInt32 Slot} {x : Tx} {e : Ext} (r : e.Res)
    (hpre : (transactions setup hash).pre x b (.ext e)) :
    (e.pops r).toList.length + inHands x.hand
      = e.manages.toList.length + inHands (handAfter x.hand (.ext e) r) := by
  cases e with
  | queuePop =>
      rw [show x.hand = none from hpre]
      rfl
  | mark m =>
      cases m with
      | managed request reply =>
          obtain ⟨-, salt, hhand, -⟩ := hpre
          rw [hhand]
          rfl
      | _ => rfl
  | sys call =>
      cases call with
      | generateSalt => cases x.hand <;> rfl
      | _ => rfl
  | _ => rfl

/-- Without a request in hand nothing is held and nothing is committed. -/
theorem rest_after {b : Hold UInt32 Slot} {x : Tx} {e : Ext} {r : e.Res}
    (hpre : (transactions setup hash).pre x b (.ext e))
    (hrest : x.hand = none → b.held = ∅ ∧ x.done = none) (hx : (x.after e r).hand = none) :
    b.held = ∅ ∧ (x.after e r).done = none := by
  cases e with
  | queuePop => cases hx
  | mark m =>
      cases m with
      | managed request reply => exact ⟨hpre.1, rfl⟩
      | _ => exact hrest hx
  | sys call =>
      cases call with
      | generateSalt => exact hrest (Option.map_eq_none_iff.mp hx)
      | _ => exact hrest hx
  | _ => exact hrest hx

/-- An operation on everything but the accounts keeps the invariant. -/
theorem TxInv.ext (h : TxInv setup hash cells₀ tr s g) {e : Ext} (r : e.Res) (rest : Shared W)
    (hpre : (transactions setup hash).pre (g t).2 (g t).1 (.ext e)) :
    TxInv setup hash cells₀ (tr ++ [⟨t, .ext e, r, s⟩]) { s with rest := rest }
      (Function.update g t ((g t).1, (g t).2.after e r)) := by
  have hhand : ∀ u, (historyOf (tr ++ [⟨t, .ext e, r, s⟩])).hand u
      = Function.update (historyOf tr).hand t (handAfter ((g t).2.hand) (.ext e) r) u := by
    intro u
    rw [historyOf_append, h.hand t]
    rfl
  -- the accounts and the log stay; the hands, and with them the counts, change
  refine ⟨?_, fun u => ?_, fun u hu => ?_, ?_⟩
  · obtain ⟨log, abs, hlog, hinv, hcount⟩ := h.serial
    obtain ⟨h₁, h₂, h₃⟩ := update_apart g t (g t).1 ((g t).2.after e r)
    refine ⟨log, abs, hlog, ?_, fun job => ?_⟩
    · rw [h₁, h₃]
      change SerialInv _ _ (Function.update _ t ((fun u => (g u).1) t))
        (Function.update _ t ((fun u => (g u).2.snap) t)) _
      rw [Function.update_eq_self, Function.update_eq_self]
      exact hinv.congr_rest rfl rfl
    · have hjobs : jobsOf (tr ++ [⟨t, .ext e, r, s⟩])
          = jobsOf tr ++ (finishes (g t).2.hand (.ext e)).toList := by
        rw [jobsOf, historyOf_append, h.hand t]
        rfl
      have hafter := commits_after r hpre (fun hx => (h.rest t hx).2) job
      have htotal := total_update (Tx.commits job) (fun u => (g u).2) t ((g t).2.after e r)
      have := hcount job
      rw [h₂, hjobs, List.count_append]
      omega
  · rw [hhand]
    by_cases hut : u = t
    · subst hut
      rw [Function.update_self, Function.update_self]
      rfl
    · rw [Function.update_of_ne hut, Function.update_of_ne hut]
      exact h.hand u
  · by_cases hut : u = t
    · subst hut
      rw [Function.update_self] at hu ⊢
      exact rest_after hpre (h.rest u) hu
    · rw [Function.update_of_ne hut] at hu ⊢
      exact h.rest u hu
  · have hafter := inHands_after r hpre
    have htotal := total_update inHands (historyOf tr).hand t (handAfter (g t).2.hand (.ext e) r)
    have := h.count
    rw [← h.hand t] at htotal
    rw [funext hhand, popped_append, managed_append, List.length_append, List.length_append]
    change (popped tr).length + (e.pops r).toList.length
      = (managed tr).length + e.manages.toList.length + _
    omega

/-- What a thread may conclude from the result of an operation. -/
def OpTells (hash : Bytes → Bytes → Bytes) : (o : ServerOp) → ServerRes o → Prop
  | .ext e, r => e.Tells hash r
  | _, _ => True

/-- A thread that commits nothing and finishes nothing. -/
theorem count_keep {log : List Job} {x : Tx} (hdone : x.done = (g t).2.done)
    (hcount : ∀ job, log.count job
      = (jobsOf tr).count job + total (Tx.commits job) fun u => (g u).2) (job : Job) :
    log.count job = (jobsOf tr).count job
      + total (Tx.commits job) (Function.update (fun u => (g u).2) t x) := by
  have hsame : Tx.commits job x = Tx.commits job (g t).2 := by rw [Tx.commits, Tx.commits, hdone]
  have htotal := total_update (Tx.commits job) (fun u => (g u).2) t x
  have := hcount job
  omega

/-- **Every operation performed as its rule asks keeps the invariant.** -/
theorem TxInv.exec (h : TxInv setup hash cells₀ tr s g) {o : ServerOp} {r : ServerRes o}
    {Φ : ServerRes o → Hold UInt32 Slot × Tx → Prop} (htells : OpTells hash o r)
    (hrule : (transacts setup hash).rule (g t) o Φ)
    (hs : Locked.sem table (fun s => s.alive = true) Ext.Sem t o s r s') :
    ∃ g', Φ r g' ∧ TxInv setup hash cells₀ (tr ++ [⟨t, o, r, s⟩]) s' (Function.update g t g') := by
  obtain ⟨hpre, hrule⟩ := hrule
  obtain ⟨log, abs, hlog, hinv, hcount⟩ := h.serial
  cases o with
  | lock i =>
      obtain ⟨-, hf, rfl⟩ := hs
      refine ⟨_, hrule.2 (s.cells i) trivial fun _ _ => trivial,
        h.keep (fun _ he => by cases he) hpre rfl ⟨log, abs, hlog, ?_, count_keep rfl hcount⟩⟩
      simpa using hinv.lock (t := t) hf
  | unlock i =>
      obtain ⟨-, rfl⟩ := hs
      -- an unlocking comes after the commit of its job, or is the commit
      obtain ⟨hi, -, ⟨hsame, hΦ⟩ | ⟨hdone, job, ⟨hle, hjob⟩, hΦ⟩⟩ := hrule
      · refine ⟨_, hΦ, h.keep (fun _ he => by cases he) (h.hand_ne_none hi) rfl
          ⟨log, abs, hlog, ?_, count_keep rfl hcount⟩⟩
        rw [show Function.update (fun u => (g u).2.snap) t (g t).2.snap = fun u => (g u).2.snap from
          Function.update_eq_self ..]
        exact hinv.unlock hi hsame
      · -- the commit, and then the unlocking
        have hserial : job.Serial setup hash abs ((g t).1.over abs) :=
          hjob abs (fun i hi => hinv.held t i hi) fun i slot hs => hinv.seen t i slot hs
        refine ⟨_, hΦ, h.keep (fun _ he => by cases he) (h.hand_ne_none hi) rfl
          ⟨log ++ [job], (g t).1.over abs, hlog.append hserial, ?_, fun job' => ?_⟩⟩
        · exact (hinv.commit hle).unlock hi (by rw [Function.update_self])
        · have htotal := total_update (Tx.commits job') (fun u => (g u).2) t
            ⟨(g t).2.hand, (g t).1.cur, some job⟩
          have hnone : (g t).2.commits job' = 0 := by
            rw [Tx.commits, hdone]
            rfl
          have hone : [job].count job' = Tx.commits job' ⟨(g t).2.hand, (g t).1.cur, some job⟩ := by
            rw [List.count_singleton, Tx.commits]
            simp
          have := hcount job'
          rw [List.count_append]
          omega
  | access a =>
      obtain ⟨-, rfl, rfl⟩ := hs
      obtain ⟨hi, -, hΦ⟩ := hrule
      rw [show (g t).1.cur (table.loc a) = s.cells (table.loc a) from hinv.hold.cur t _ hi] at hΦ
      refine ⟨_, hΦ, h.keep (fun _ he => by cases he) (h.hand_ne_none hi) rfl
        ⟨log, abs, hlog, ?_, count_keep rfl hcount⟩⟩
      rw [show Function.update (fun u => (g u).2.snap) t (g t).2.snap = fun u => (g u).2.snap from
        Function.update_eq_self ..]
      exact hinv.write hi
  | ext e =>
      obtain ⟨-, rest, -, rfl⟩ := hs
      exact ⟨_, hrule r htells, h.ext r rest hpre⟩

end Steps

/-! ## Runs -/

/-- `generateHash` is the function `hash`, and succeeds. -/
def World.HashesBy (W : World (Thread n)) (hash : Bytes → Bytes → Bytes) : Prop :=
  ∀ t password salt w r w', W.call t (.generateHash password salt) w r w' →
    r = some (hash password salt)

/-- The type of every request is one of the four operations. -/
def KnownTypes (tr : List (ServerEvent n W)) : Prop :=
  ∀ request ∈ pushed tr, request.type ≠ .opMaxNumber

/-- All requests are about accounts of the arrays `accounts`, `usedAccounts` and `accountMutexes`, which have
`MAX_BANK_ACCOUNTS` entries. The table of the model has an entry for every number. -/
def KnownAccounts (tr : List (ServerEvent n W)) : Prop :=
  ∀ request ∈ pushed tr, ∀ id ∈ request.accountIds, id.toNat < maxBankAccounts

/-- What an operation shows the thread is true. -/
theorem opTells_of_run (hhash : W.HashesBy hash) {o : ServerOp} {r : ServerRes o}
    (hr : (server n W serverFifoFD shutdownFD).Run (tr ++ [⟨t, o, r, s⟩]) c)
    (htypes : KnownTypes (tr ++ [⟨t, o, r, s⟩]))
    (hs : Locked.sem table (fun s => s.alive = true) Ext.Sem t o s r s') : OpTells hash o r := by
  cases o with
  | ext e =>
      obtain ⟨-, rest, hsem, -⟩ := hs
      cases e with
      | add a b | sub a b => exact hsem.1
      | sys call =>
          obtain ⟨w, hw, -⟩ := hsem
          cases call with
          | generateHash password salt => exact hhash _ _ _ _ _ _ hw
          | _ => trivial
      | queuePop =>
          refine htypes r ((popped_isPrefix hr).subset ?_)
          rw [popped_append]
          exact List.mem_append_right _ (List.mem_singleton_self r)
      | _ => trivial
  | _ => trivial

/-- The certificate of serializability, of the server started in `s₀`. -/
def transactionCertificate (hhash : W.HashesBy hash) (serverFifoFD shutdownFD : Int)
    {s₀ : ServerState n W} (h₀ : ServerInit s₀) :
    Certificate ((server n W serverFifoFD shutdownFD).startingAt s₀)
      fun _ => transacts ⟨n, serverFifoFD, shutdownFD⟩ hash where
  assumes := KnownTypes
  assumes_append {tr tr'} h request hr := h request (by
    rw [pushed, List.filterMap_append]
    exact List.mem_append_left _ hr)
  inv tr c g := TxInv ⟨n, serverFifoFD, shutdownFD⟩ hash s₀.cells tr c.shared g
  post _ := unengaged
  init {c} h := by
    obtain ⟨hs, -⟩ := h
    rw [show c.shared = s₀ from hs]
    exact ⟨_, TxInv.init h₀.owner, fun _ => .inr ⟨rfl, rfl, rfl⟩⟩
  exec hr htypes h _ hrule hs :=
    h.exec (opTells_of_run hhash (hr.of_startingAt h₀) htypes hs) hrule hs
  loop {tr c g t x} h _ hpost := by
    refine ⟨g t, ?_, by rwa [Function.update_eq_self]⟩
    cases t with
    | main => exact wp_tx_mainBody hpost
    | office i => exact wp_tx_officeBody hpost
  divert {tr c g t o k x s' Φ} h _ _ hd := by
    refine ⟨g t, ?_, ?_⟩
    · cases o with
      | ext e => exact .inl hd.2.1
      | _ => exact hd.elim
    · rw [Function.update_eq_self]
      cases o with
      | ext e =>
          obtain ⟨-, -, ⟨rest, -, rfl⟩ | ⟨i, -, -, -, rfl⟩⟩ := hd <;> exact h.congr rfl rfl
      | _ => exact hd.elim
  env h he := by
    obtain ⟨w, -, rfl⟩ := he
    exact h.congr rfl rfl

/-- **Serializability.** Take any number of offices, any requests of the four types, and any run, from
any initial state, in which as many requests have been handled as have been handed to the offices.
Then, for some order of these requests, each with the salt that was drawn for it, running
`manageRequest` on them one at a time takes the initial accounts to those at the end of the run, with
the same replies (but for the number of active offices in the reply to a shutdown). -/
theorem requests_serializable (hhash : W.HashesBy hash)
    (h₀ : (server n W serverFifoFD shutdownFD).Initial c₀)
    (hp : (server n W serverFifoFD shutdownFD).Path c₀ tr c) (htypes : KnownTypes tr)
    (hdone : (managed tr).length = (popped tr).length) :
    ∃ order : List Job, order.Perm (jobsOf tr) ∧
      Serially (Job.Serial ⟨n, serverFifoFD, shutdownFD⟩ hash) order c₀.shared.cells
        c.shared.cells := by
  obtain ⟨g, hg⟩ := (transactionCertificate hhash serverFifoFD shutdownFD h₀.1).run
    (h₀.run_startingAt hp) htypes
  have hinv : TxInv ⟨n, serverFifoFD, shutdownFD⟩ hash c₀.shared.cells tr c.shared g := hg.1
  -- nobody has a request in hand
  have hzero : total inHands (historyOf tr).hand = 0 := by
    have := hinv.count
    omega
  have hhand : ∀ t, (g t).2.hand = none := by
    intro t
    have hle := le_total inHands (historyOf tr).hand t
    rw [hzero, ← hinv.hand t] at hle
    cases hx : (g t).2.hand with
    | none => rfl
    | some salt =>
        rw [hx] at hle
        exact absurd hle (Nat.not_succ_le_zero 0)
  obtain ⟨log, abs, hlog, hserial, hcount⟩ := hinv.serial
  refine ⟨log, List.perm_iff_count.mpr fun job => ?_, ?_⟩
  · have hnone : (total (Tx.commits job) fun u => (g u).2) = 0 := by
      refine total_eq_zero fun u => ?_
      rw [Tx.commits, (hinv.rest u (hhand u)).2]
      rfl
    have := hcount job
    omega
  · rw [hserial.eq_cells fun t => (hinv.rest t (hhand t)).1]
    exact hlog

/-! ## An example -/

/-- Two offices are to create the same account. -/
abbrev rivalReads : List (Option Bytes) :=
  readsOf (creationRequest 1 5) ++ readsOf (creationRequest 1 7)

/-- A run in which both logins are made before either operation. -/
theorem exists_path_rivals :
    ∃ tr c, (server 2 (servingScript _ rivalReads).world 3 4).Path
        (firstConfig (servingScript _ rivalReads) [9] [7] fun _ => 0) tr c ∧
      (decide (∀ request ∈ pushed tr, request.type ≠ .opMaxNumber) &&
        (managed tr).length == (popped tr).length && (jobsOf tr).length == 2) = true :=
  System.exists_path_of_play (serverPlayer _ 3 4)
    (List.replicate 18 (.run .main) ++ List.replicate 15 (.run (.office 0)) ++
      List.replicate 15 (.run (.office 1)) ++ List.replicate 18 (.run (.office 0)) ++
      List.replicate 11 (.run (.office 1)))
    (firstConfig (servingScript (Thread 2) rivalReads) [9] [7] fun _ => 0)
    (fun tr _ => decide (∀ request ∈ pushed tr, request.type ≠ .opMaxNumber) &&
      (managed tr).length == (popped tr).length && (jobsOf tr).length == 2) (by decide +kernel)

/-- The two requests might as well have been handled one after the other. -/
theorem requests_serializable_rivals :
    ∃ tr c, (server 2 (servingScript _ rivalReads).world 3 4).Path
        (firstConfig (servingScript _ rivalReads) [9] [7] fun _ => 0) tr c ∧
      ∃ order : List Job, order.length = 2 ∧ order.Perm (jobsOf tr) ∧
        Serially (Job.Serial ⟨2, 3, 4⟩ fun _ _ => [9]) order
          (firstConfig (servingScript (Thread 2) rivalReads) [9] [7] fun _ => 0).shared.cells
          c.shared.cells := by
  obtain ⟨tr, c, hp, hc⟩ := exists_path_rivals
  simp only [Bool.and_eq_true, decide_eq_true_eq, beq_iff_eq] at hc
  obtain ⟨⟨htypes, hdone⟩, htwo⟩ := hc
  have hhash : (servingScript (Thread 2) rivalReads).world.HashesBy fun _ _ => [9] := by
    intro t password salt w r w' h
    exact (Prod.mk.inj (Option.some.inj h)).1.symm
  obtain ⟨order, hperm, hserial⟩ := requests_serializable hhash
    (initial_firstConfig (servingScript (Thread 2) rivalReads) [9] [7] (fun _ => 0) 3 4) hp htypes
    hdone
  exact ⟨tr, c, hp, order, hperm.length_eq.trans htwo, hperm, hserial⟩

end Sope
