import Mathlib.Data.List.Permutation
import Sope.Bank.Answers
import Sope.Bank.Serializability
import Sope.Concurrency.Precedence

/-! # Real time

The order in which the requests might as well have been handled one at a time does not contradict real
time: a request that an office took from the queue when another one was being answered, or had been,
comes behind it (`requests_strictly_serializable`). So a user who has got the reply to a request finds
its effects in whatever it asks for afterwards.

* `Timeline` — when each request was taken and when it was answered, as a function of the run.
* `TxStep` — what the rules of transactions let an operation do to what a thread knows.
* `StrictLog` — the log of the commits, with their times. -/

namespace Sope

open Concurrency

variable {n : ℕ} {W : World (Thread n)} {hash : Bytes → Bytes → Bytes}
  {serverFifoFD shutdownFD : Int} {tr tr' : List (ServerEvent n W)} {s s' : ServerState n W}
  {c c₀ : Config (Thread n) ServerOp ServerRes (ServerState n W) Ctl} {t : Thread n}

/-! ## Reading the times off a run -/

/-- The operation takes a request from the queue. -/
def takes : ServerOp → Bool
  | .ext .queuePop => true
  | _ => false

/-- When the user was about to be told, after an operation: `sendReply` has opened the user's FIFO. -/
def answeredAfter (now : ℕ) (answered : Option ℕ) : ServerOp → Option ℕ
  | .ext (.sys (.openFifo _)) => some now
  | .ext (.mark (.managed ..)) => none
  | _ => answered

/-- A run, with the times at which each thread has taken its request and has begun to answer it, and the
jobs with their times. A time is a number of operations. -/
structure Timeline (n : ℕ) where
  now : ℕ
  since : Thread n → ℕ
  answered : Thread n → Option ℕ
  history : History n
  spans : List (Span Job)

/-- The timeline after one more operation. -/
def Timeline.record (l : Timeline n) (e : ServerEvent n W) : Timeline n where
  now := l.now + 1
  since := if takes e.op then Function.update l.since e.tid l.now else l.since
  answered := Function.update l.answered e.tid (answeredAfter l.now (l.answered e.tid) e.op)
  history := l.history.record e
  spans := l.spans ++ ((finishes (l.history.hand e.tid) e.op).map fun job =>
    ⟨l.since e.tid, (l.answered e.tid).getD l.now, job⟩).toList

/-- The timeline of a run. -/
def timelineOf (tr : List (ServerEvent n W)) : Timeline n :=
  tr.foldl Timeline.record ⟨0, fun _ => 0, fun _ => none, ⟨fun _ => none, []⟩, []⟩

/-- The requests finished in a run, each with the times at which it was taken and answered. -/
def spansOf (tr : List (ServerEvent n W)) : List (Span Job) := (timelineOf tr).spans

theorem timelineOf_append (e : ServerEvent n W) :
    timelineOf (tr ++ [e]) = (timelineOf tr).record e := by
  simp [timelineOf, List.foldl_append]

theorem timelineOf_history : (timelineOf tr).history = historyOf tr := by
  induction tr using List.reverseRecOn with
  | nil => rfl
  | append_singleton tr e ih => rw [timelineOf_append, historyOf_append, ← ih]; rfl

/-- The jobs are those of the history. -/
theorem spansOf_map_job : (spansOf tr).map Span.job = jobsOf tr := by
  induction tr using List.reverseRecOn with
  | nil => rfl
  | append_singleton tr e ih =>
      rw [spansOf, timelineOf_append, jobsOf, historyOf_append, ← timelineOf_history]
      show ((timelineOf tr).spans ++ _).map Span.job = (timelineOf tr).history.jobs ++ _
      rw [List.map_append, show (timelineOf tr).spans.map Span.job = (timelineOf tr).history.jobs from
        ih.trans (by rw [timelineOf_history]; rfl)]
      congr 1
      cases finishes ((timelineOf tr).history.hand e.tid) e.op <;> rfl

/-- Only taking a request brings one into an empty hand. -/
theorem handAfter_none {o : ServerOp} (ho : ¬ takes o = true) (r : ServerRes o) :
    handAfter none o r = none := by
  cases o with
  | ext e =>
      cases e with
      | queuePop => exact absurd rfl ho
      | sys call => cases call <;> rfl
      | mark m => cases m <;> rfl
      | _ => rfl
  | _ => rfl

/-- A request that is in hand has been taken before. -/
theorem since_lt (h : (historyOf tr).hand t ≠ none) : (timelineOf tr).since t < (timelineOf tr).now := by
  induction tr using List.reverseRecOn with
  | nil => exact absurd rfl h
  | append_singleton tr e ih =>
      rw [historyOf_append] at h
      rw [timelineOf_append]
      show (if takes e.op then Function.update (timelineOf tr).since e.tid (timelineOf tr).now
        else (timelineOf tr).since) t < (timelineOf tr).now + 1
      change Function.update (historyOf tr).hand e.tid _ t ≠ none at h
      obtain ⟨u, o, r, s⟩ := e
      by_cases hu : t = u
      · subst hu
        rw [Function.update_self] at h
        split
        · rw [Function.update_self]
          exact Nat.lt_succ_self _
        · next htakes =>
            apply Nat.lt_succ_of_lt
            apply ih
            intro hnone
            rw [hnone] at h
            exact h (handAfter_none htakes r)
      · rw [Function.update_of_ne hu] at h
        have hlt := ih h
        split
        · rw [Function.update_of_ne hu]
          exact Nat.lt_succ_of_lt hlt
        · exact Nat.lt_succ_of_lt hlt

/-- A thread has begun to answer when it has opened a FIFO for its reply. -/
theorem answered_isSome :
    ((timelineOf tr).answered t).isSome = !(answerOf t tr).opened.isEmpty := by
  induction tr using List.reverseRecOn with
  | nil => rfl
  | append_singleton tr e ih =>
      obtain ⟨u, o, r, s⟩ := e
      rw [timelineOf_append, answerOf]
      show (Function.update (timelineOf tr).answered u _ t).isSome = _
      by_cases hu : t = u
      · subst hu
        rw [Function.update_self, Monitor.after_append_self]
        show (answeredAfter _ _ o).isSome = !((answerOf t tr).next o r).opened.isEmpty
        cases o with
        | ext e =>
            cases e with
            | sys call =>
                cases call with
                | openFifo path => simp [answeredAfter, Answer.next, Answer.afterOpen]
                | write fd bytes =>
                    show ((timelineOf tr).answered t).isSome
                      = !((answerOf t tr).afterWrite bytes r).opened.isEmpty
                    rw [ih]
                    unfold Answer.afterWrite
                    split <;> rfl
                | _ => exact ih
            | mark m =>
                cases m with
                | managed => rfl
                | _ => exact ih
            | _ => exact ih
        | _ => exact ih
      · rw [Function.update_of_ne hu, Monitor.after_append_of_ne (Ne.symm hu)]
        exact ih

/-- Only an answer that begins now is new. -/
theorem answered_of_append {e : ServerEvent n W} {f : ℕ} (u : Thread n)
    (h : (timelineOf (tr ++ [e])).answered u = some f) :
    (timelineOf tr).answered u = some f ∨ f = (timelineOf tr).now := by
  rw [timelineOf_append] at h
  change Function.update (timelineOf tr).answered e.tid _ u = some f at h
  by_cases hu : u = e.tid
  · subst hu
    rw [Function.update_self] at h
    unfold answeredAfter at h
    split at h
    · exact .inr (Option.some.inj h).symm
    · cases h
    · exact .inl h
  · rw [Function.update_of_ne hu] at h
    exact .inl h

/-! ## The invariant -/

/-- What an operation that follows the rules of transactions does to what its thread knows. -/
def TxStep (setup : Setup) (hash : Bytes → Bytes → Bytes) (x x' : Hold UInt32 Slot × Tx) :
    (o : ServerOp) → ServerRes o → Prop
  | .lock i, _ => ∃ slot, x' = (x.1.lock i slot, { x.2 with snap := Function.update x.2.snap i slot })
  | .unlock i, _ => i ∈ x.1.held ∧ ((x.1.cur i = x.2.snap i ∧ x' = (x.1.unlock i, x.2)) ∨
      (x.2.done = none ∧ ∃ job, Commits setup hash x.1 x.2.snap job ∧
        x' = (x.1.unlock i, { x.2 with snap := x.1.cur, done := some job })))
  | .access a, _ => table.loc a ∈ x.1.held ∧
      x' = (x.1.write (table.loc a) (table.run a (x.1.cur (table.loc a))).2, x.2)
  | .ext e, r => (transactions setup hash).pre x.2 x.1 (.ext e) ∧ x' = (x.1, x.2.after e r)

/-- The rules say that it is so. -/
theorem rule_txStep {setup : Setup} {x : Hold UInt32 Slot × Tx} {o : ServerOp}
    {Φ : ServerRes o → Hold UInt32 Slot × Tx → Prop} (h : (transacts setup hash).rule x o Φ) :
    (transacts setup hash).rule x o fun r x' => Φ r x' ∧ TxStep setup hash x x' o r := by
  obtain ⟨hpre, hrule⟩ := h
  refine ⟨hpre, ?_⟩
  cases o with
  | lock i => exact ⟨hrule.1, fun slot hinv hseen => ⟨hrule.2 slot hinv hseen, slot, by simp⟩⟩
  | unlock i =>
      obtain ⟨hi, hinv, ⟨hsame, hΦ⟩ | ⟨hdone, job, hjob, hΦ⟩⟩ := hrule
      · exact ⟨hi, hinv, .inl ⟨hsame, hΦ, hi, .inl ⟨hsame, rfl⟩⟩⟩
      · exact ⟨hi, hinv, .inr ⟨hdone, job, hjob, hΦ, hi, .inr ⟨hdone, job, hjob, rfl⟩⟩⟩
  | access a => exact ⟨hrule.1, hrule.2.1, hrule.2.2, hrule.1, rfl⟩
  | ext e => exact fun r htells => ⟨hrule r htells, hpre, rfl⟩

/-- The jobs committed so far, with the times of their commits, executed one after the other from the
table `cells₀`: they explain the table and what the threads know of it, and each is finished or in the
hand of its thread. -/
structure StrictLog (setup : Setup) (hash : Bytes → Bytes → Bytes) (cells₀ : UInt32 → Slot)
    (l : Timeline n) (s : ServerState n W) (g : Thread n → Hold UInt32 Slot × Tx)
    (log : List (Entry (Thread n) Job)) (abs : UInt32 → Slot) : Prop where
  serial : Serially (Job.Serial setup hash) (log.map Entry.job) cells₀ abs
  inv : SerialInv loginSpec s (fun u => (g u).1) (fun u => (g u).2.snap) abs
  punctual : Punctual l.now log
  ended : (ended log).Perm l.spans
  opens : ∀ t, openOf t log = ((g t).2.done.map fun job => (l.since t, job)).toList
  answered : ∀ e ∈ log, ∀ u f, e.isOpen u = true → l.answered u = some f → e.moment < f

section Steps

variable {setup : Setup} {cells₀ abs abs' : UInt32 → Slot} {g : Thread n → Hold UInt32 Slot × Tx}
  {l l' : Timeline n} {log log' : List (Entry (Thread n) Job)} {x : Hold UInt32 Slot × Tx}

/-- It holds initially. -/
theorem StrictLog.init (howner : ∀ i, s.owner i = none) :
    StrictLog setup hash s.cells (timelineOf ([] : List (ServerEvent n W))) s
      (fun _ => (Hold.empty s.cells, ⟨none, s.cells, none⟩)) [] s.cells where
  serial := rfl
  inv := SerialInv.of_free howner
  punctual := .nil
  ended := .refl _
  opens _ := rfl
  answered := by simp

/-- It is about the accounts and the locks only. -/
theorem StrictLog.congr (h : StrictLog setup hash cells₀ l s g log abs) (hcells : s'.cells = s.cells)
    (howner : s'.owner = s.owner) : StrictLog setup hash cells₀ l s' g log abs :=
  { h with inv := h.inv.congr_rest hcells howner }

/-- A step of thread `t`: what there is to show of it. -/
theorem StrictLog.step (h : StrictLog setup hash cells₀ l s g log abs)
    (hserial : Serially (Job.Serial setup hash) (log'.map Entry.job) cells₀ abs')
    (hinv : SerialInv loginSpec s' (Function.update (fun u => (g u).1) t x.1)
      (Function.update (fun u => (g u).2.snap) t x.2.snap) abs')
    (hpunctual : Punctual l'.now log') (hended : (Concurrency.ended log').Perm l'.spans)
    (hsince : ∀ u, u ≠ t → l'.since u = l.since u) (hothers : ∀ u, u ≠ t → openOf u log' = openOf u log)
    (hopen : openOf t log' = (x.2.done.map fun job => (l'.since t, job)).toList)
    (hanswered : ∀ e ∈ log', ∀ u f, e.isOpen u = true → l'.answered u = some f → e.moment < f) :
    StrictLog setup hash cells₀ l' s' (Function.update g t x) log' abs' where
  serial := hserial
  inv := by
    obtain ⟨h₁, -, h₃⟩ := update_apart g t x.1 x.2
    rw [show x = (x.1, x.2) from rfl, h₁, h₃]
    exact hinv
  punctual := hpunctual
  ended := hended
  opens u := by
    by_cases hu : u = t
    · subst hu
      rw [Function.update_self]
      exact hopen
    · rw [Function.update_of_ne hu, hothers u hu, hsince u hu]
      exact h.opens u
  answered := hanswered

/-- What has been committed comes before an answer that begins only now. -/
theorem StrictLog.answered_of (h : StrictLog setup hash cells₀ l s g log abs)
    (hans : ∀ u f, l'.answered u = some f → l.answered u = some f ∨ f = l.now) :
    ∀ e ∈ log, ∀ u f, e.isOpen u = true → l'.answered u = some f → e.moment < f := by
  intro e he u f hopen hf
  rcases hans u f hf with hf | rfl
  · exact h.answered e he u f hopen hf
  · exact (h.punctual.inside e he).2.1

/-- A step that takes, commits and finishes nothing. -/
theorem StrictLog.keep (h : StrictLog setup hash cells₀ l s g log abs)
    (hinv : SerialInv loginSpec s' (Function.update (fun u => (g u).1) t x.1)
      (Function.update (fun u => (g u).2.snap) t x.2.snap) abs)
    (hnow : l'.now = l.now + 1) (hspans : l'.spans = l.spans) (hsince : l'.since = l.since)
    (hans : ∀ u f, l'.answered u = some f → l.answered u = some f ∨ f = l.now)
    (hdone : x.2.done = (g t).2.done) :
    StrictLog setup hash cells₀ l' s' (Function.update g t x) log abs := by
  apply h.step h.serial hinv
  · rw [hnow]
    exact h.punctual.tick
  · rw [hspans]
    exact h.ended
  · intro u _
    rw [hsince]
  · intro u _
    rfl
  · rw [hsince, hdone]
    exact h.opens t
  · exact h.answered_of hans

/-- The commit of a job. -/
theorem StrictLog.commit (h : StrictLog setup hash cells₀ l s g log abs) {job : Job} {i : UInt32}
    (hi : i ∈ (g t).1.held) (hdone : (g t).2.done = none)
    (hjob : Commits setup hash (g t).1 (g t).2.snap job) (hlt : l.since t < l.now)
    (hnow : l'.now = l.now + 1) (hspans : l'.spans = l.spans) (hsince : l'.since = l.since)
    (hans : l'.answered = l.answered) (hnone : l.answered t = none) :
    StrictLog setup hash cells₀ l' { s with owner := Function.update s.owner i none }
      (Function.update g t ((g t).1.unlock i, { (g t).2 with snap := (g t).1.cur, done := some job }))
      (log ++ [⟨t, l.since t, l.now, job, none⟩]) ((g t).1.over abs) := by
  obtain ⟨hle, hserial⟩ := hjob
  have hopen : openOf t log = [] := by rw [h.opens t, hdone]; rfl
  apply h.step
  · rw [List.map_append]
    exact h.serial.append
      (hserial abs (fun i hi => h.inv.held t i hi) fun i slot hs => h.inv.seen t i slot hs)
  · exact (h.inv.commit hle).unlock hi (by rw [Function.update_self])
  · rw [hnow]
    exact h.punctual.commit hlt
  · rw [ended_commit, hspans]
    exact h.ended
  · intro u _
    rw [hsince]
  · intro u hu
    rw [openOf_commit, if_neg (Ne.symm hu), List.append_nil]
  · rw [openOf_commit, if_pos rfl, hopen, hsince]
    rfl
  · intro e he u f hopen hf
    rw [hans] at hf
    rcases List.mem_append.mp he with he | he
    · exact h.answered e he u f hopen hf
    · obtain rfl := List.mem_singleton.mp he
      obtain rfl : t = u := (Entry.isOpen_iff.mp hopen).1
      rw [hnone] at hf
      cases hf

/-- A thread takes a request, having none. -/
theorem StrictLog.take (h : StrictLog setup hash cells₀ l s g log abs)
    (hinv : SerialInv loginSpec s' (Function.update (fun u => (g u).1) t x.1)
      (Function.update (fun u => (g u).2.snap) t x.2.snap) abs)
    (hnow : l'.now = l.now + 1) (hspans : l'.spans = l.spans)
    (hsince : l'.since = Function.update l.since t l.now)
    (hans : ∀ u f, l'.answered u = some f → l.answered u = some f ∨ f = l.now)
    (hdone : (g t).2.done = none) (hdone' : x.2.done = none) :
    StrictLog setup hash cells₀ l' s' (Function.update g t x) log abs := by
  apply h.step h.serial hinv
  · rw [hnow]
    exact h.punctual.tick
  · rw [hspans]
    exact h.ended
  · intro u hu
    rw [hsince, Function.update_of_ne hu]
  · intro u _
    rfl
  · rw [h.opens t, hdone, hdone']
    rfl
  · exact h.answered_of hans

/-- A thread finishes the request whose job it has committed. -/
theorem StrictLog.finish (h : StrictLog setup hash cells₀ l s g log abs) {job : Job} {f : ℕ}
    (hinv : SerialInv loginSpec s' (Function.update (fun u => (g u).1) t x.1)
      (Function.update (fun u => (g u).2.snap) t x.2.snap) abs)
    (hnow : l'.now = l.now + 1) (hspans : l'.spans = l.spans ++ [⟨l.since t, f, job⟩])
    (hsince : l'.since = l.since) (hans : ∀ u, u ≠ t → l'.answered u = l.answered u)
    (hf : l.answered t = some f) (hdone : (g t).2.done = some job) (hdone' : x.2.done = none) :
    StrictLog setup hash cells₀ l' s' (Function.update g t x) (log.map (Entry.close t f)) abs := by
  have hopen : openOf t log = [(l.since t, job)] := by rw [h.opens t, hdone]; rfl
  apply h.step _ hinv
  · rw [hnow]
    exact h.punctual.close fun e he hopen => h.answered e he t f hopen hf
  · rw [hspans]
    exact (ended_close hopen).trans (h.ended.append_right _)
  · intro u _
    rw [hsince]
  · intro u hu
    rw [openOf_close, if_neg hu]
  · rw [openOf_close, if_pos rfl, hdone']
    rfl
  · intro e' he' u f' hopen' hf'
    obtain ⟨e, he, rfl⟩ := List.mem_map.mp he'
    rw [Entry.isOpen_close, Bool.and_eq_true, decide_eq_true_eq] at hopen'
    rw [Entry.close_fields.2.2.1]
    rw [hans u hopen'.2] at hf'
    exact h.answered e he u f' hopen'.1 hf'
  · rw [jobs_close]
    exact h.serial

/-- An operation on everything but the accounts leaves the serial memory alone. -/
theorem StrictLog.inv_ext (h : StrictLog setup hash cells₀ l s g log abs) {e : Ext} (r : e.Res)
    (rest : Shared W) : SerialInv loginSpec { s with rest := rest }
      (Function.update (fun u => (g u).1) t (g t).1)
      (Function.update (fun u => (g u).2.snap) t ((g t).2.after e r).snap) abs := by
  change SerialInv _ _ (Function.update _ t ((fun u => (g u).1) t))
    (Function.update _ t ((fun u => (g u).2.snap) t)) _
  rw [Function.update_eq_self, Function.update_eq_self]
  exact h.inv.congr_rest rfl rfl

/-- An operation on everything but the accounts takes a request, finishes one, or does neither. -/
theorem StrictLog.ext (h : StrictLog setup hash cells₀ (timelineOf tr) s g log abs)
    (htx : TxInv setup hash cells₀ tr s g) {e : Ext} (r : e.Res) (rest : Shared W)
    (hpre : (transactions setup hash).pre (g t).2 (g t).1 (.ext e))
    (hanswered : ∀ {request reply}, e = .mark (.managed request reply) →
      ((timelineOf tr).answered t).isSome = true) :
    ∃ log', StrictLog setup hash cells₀ (timelineOf (tr ++ [⟨t, .ext e, r, s⟩])) { s with rest := rest }
      (Function.update g t ((g t).1, (g t).2.after e r)) log' abs := by
  have hhand : (timelineOf tr).history.hand t = (g t).2.hand := by
    rw [timelineOf_history, htx.hand]
  have hinv := h.inv_ext (t := t) r rest
  have hother : e.isBoundary = false → takes (.ext e) = false → finishes (g t).2.hand (.ext e) = none →
      ∃ log', StrictLog setup hash cells₀ (timelineOf (tr ++ [⟨t, .ext e, r, s⟩]))
        { s with rest := rest } (Function.update g t ((g t).1, (g t).2.after e r)) log' abs := by
    intro hboundary htakes hfinishes
    refine ⟨log, h.keep hinv ?_ ?_ ?_ (fun u f => answered_of_append u) ?_⟩
    · rw [timelineOf_append]
      rfl
    · rw [timelineOf_append]
      show (timelineOf tr).spans ++ _ = _
      rw [hhand, hfinishes]
      exact List.append_nil _
    · rw [timelineOf_append]
      show (if takes (.ext e) then _ else (timelineOf tr).since) = _
      rw [htakes]
      rfl
    · show (if e.isBoundary then none else (g t).2.done) = _
      rw [hboundary]
      rfl
  cases e with
  | queuePop =>
      refine ⟨log, h.take hinv ?_ ?_ ?_ (fun u f => answered_of_append u) (htx.rest t hpre).2 rfl⟩ <;>
        rw [timelineOf_append]
      · rfl
      · exact List.append_nil _
      · rfl
  | mark m =>
      cases m with
      | managed request reply =>
          obtain ⟨-, salt, hsalt, hdone⟩ := hpre
          obtain ⟨f, hf⟩ := Option.isSome_iff_exists.mp (hanswered rfl)
          refine ⟨_, h.finish hinv ?_ ?_ ?_ (fun u hu => ?_) hf hdone rfl⟩ <;> rw [timelineOf_append]
          · rfl
          · show (timelineOf tr).spans ++ _ = _
            rw [hhand, hsalt, hf]
            rfl
          · rfl
          · exact Function.update_of_ne hu ..
      | _ => exact hother rfl rfl rfl
  | _ => exact hother rfl rfl rfl

/-- **Every operation keeps the log.** -/
theorem StrictLog.exec (h : StrictLog setup hash cells₀ (timelineOf tr) s g log abs)
    (htx : TxInv setup hash cells₀ tr s g) {o : ServerOp} {r : ServerRes o}
    (htx' : TxInv setup hash cells₀ (tr ++ [⟨t, o, r, s⟩]) s' (Function.update g t x))
    (hstep : TxStep setup hash (g t) x o r)
    (hs : Locked.sem table (fun s => s.alive = true) Ext.Sem t o s r s')
    (hearly : (∀ e, o ≠ .ext e) → (timelineOf tr).answered t = none)
    (hanswered : ∀ {request reply}, o = .ext (.mark (.managed request reply)) →
      ((timelineOf tr).answered t).isSome = true) :
    ∃ log' abs', StrictLog setup hash cells₀ (timelineOf (tr ++ [⟨t, o, r, s⟩])) s'
      (Function.update g t x) log' abs' := by
  have hspans : (∀ op, o ≠ .ext op) →
      (timelineOf (tr ++ [⟨t, o, r, s⟩])).spans = (timelineOf tr).spans := by
    intro ho
    rw [timelineOf_append]
    show (timelineOf tr).spans ++ _ = _
    cases o with
    | ext op => exact absurd rfl (ho op)
    | _ => exact List.append_nil _
  have hnow : (timelineOf (tr ++ [⟨t, o, r, s⟩])).now = (timelineOf tr).now + 1 := by
    rw [timelineOf_append]
    rfl
  have hsince : (∀ op, o ≠ .ext op) →
      (timelineOf (tr ++ [⟨t, o, r, s⟩])).since = (timelineOf tr).since := by
    intro ho
    rw [timelineOf_append]
    cases o with
    | ext op => exact absurd rfl (ho op)
    | _ => rfl
  have hans : ∀ u f, (timelineOf (tr ++ [⟨t, o, r, s⟩])).answered u = some f →
      (timelineOf tr).answered u = some f ∨ f = (timelineOf tr).now := fun u f => answered_of_append u
  cases o with
  | lock i =>
      obtain ⟨-, hf, rfl⟩ := hs
      obtain ⟨slot, rfl⟩ := hstep
      -- the thread has found what is there
      have hslot : slot = s.cells i := by
        obtain ⟨_, _, -, hinv, -⟩ := htx'.serial
        have hcur := hinv.hold.cur t i (by simp)
        simpa using hcur
      subst hslot
      exact ⟨log, abs, h.keep (h.inv.lock hf) hnow (hspans (by simp)) (hsince (by simp)) hans rfl⟩
  | unlock i =>
      obtain ⟨-, rfl⟩ := hs
      obtain ⟨hi, ⟨hsame, rfl⟩ | ⟨hdone, job, hjob, rfl⟩⟩ := hstep
      · refine ⟨log, abs, h.keep ?_ hnow (hspans (by simp)) (hsince (by simp)) hans rfl⟩
        rw [show Function.update (fun u => (g u).2.snap) t (g t).2.snap = fun u => (g u).2.snap from
          Function.update_eq_self ..]
        exact h.inv.unlock hi hsame
      · have hlt : (timelineOf tr).since t < (timelineOf tr).now := by
          apply since_lt
          rw [← htx.hand]
          exact htx.hand_ne_none hi
        have hsame : (timelineOf (tr ++ [⟨t, .unlock i, r, s⟩])).answered = (timelineOf tr).answered := by
          rw [timelineOf_append]
          exact Function.update_eq_self ..
        exact ⟨_, _, h.commit hi hdone hjob hlt hnow (hspans (by simp)) (hsince (by simp)) hsame
          (hearly (by simp))⟩
  | access a =>
      obtain ⟨-, -, rfl⟩ := hs
      obtain ⟨hi, rfl⟩ := hstep
      refine ⟨log, abs, h.keep ?_ hnow (hspans (by simp)) (hsince (by simp)) hans rfl⟩
      rw [show Function.update (fun u => (g u).2.snap) t (g t).2.snap = fun u => (g u).2.snap from
        Function.update_eq_self .., show (g t).1.cur (table.loc a) = s.cells (table.loc a) from
        h.inv.hold.cur t _ hi]
      exact h.inv.write hi
  | ext e =>
      obtain ⟨-, rest, -, rfl⟩ := hs
      obtain ⟨hpre, rfl⟩ := hstep
      obtain ⟨log', h'⟩ := h.ext htx r rest hpre fun he => hanswered (congrArg _ he)
      exact ⟨log', abs, h'⟩

end Steps

/-! ## Runs -/

/-- What `generateHash` returned was the hash. -/
def hashesAs (hash : Bytes → Bytes → Bytes) : (o : ServerOp) → ServerRes o → Bool
  | .ext (.sys (.generateHash password salt)), (result : Option Bytes) => result = some (hash password salt)
  | _, _ => true

theorem hashesAs_generateHash {password salt : Bytes} {result : Option Bytes} :
    hashesAs hash (.ext (.sys (.generateHash password salt))) result = true ↔
      result = some (hash password salt) :=
  decide_eq_true_iff

/-- In the run, `generateHash` was the function `hash`, and succeeded. -/
def HashedBy (hash : Bytes → Bytes → Bytes) (tr : List (ServerEvent n W)) : Prop :=
  ∀ e ∈ tr, hashesAs hash e.op e.res = true

/-- So it is in every run in a world in which it always is. -/
theorem hashedBy_of_run (hhash : W.HashesBy hash) (hr : (server n W serverFifoFD shutdownFD).Run tr c) :
    HashedBy hash tr := by
  intro e he
  obtain ⟨tr₁, tr₂, rfl⟩ := List.append_of_mem he
  obtain ⟨c₁, k, s', -, -, -, hsem⟩ := hr.split
  obtain ⟨t, o, r, s⟩ := e
  cases o with
  | ext op =>
      cases op with
      | sys call =>
          cases call with
          | generateHash password salt =>
              obtain ⟨-, rest, ⟨w, hw, -⟩, -⟩ := hsem
              exact hashesAs_generateHash.mpr (hhash _ _ _ _ _ _ hw)
          | _ => rfl
      | _ => rfl
  | _ => rfl

/-- What the operations of a run show their threads is true. -/
def Told (hash : Bytes → Bytes → Bytes) (tr : List (ServerEvent n W)) : Prop :=
  ∀ e ∈ tr, OpTells hash e.op e.res

theorem told_of_run (hr : (server n W serverFifoFD shutdownFD).Run tr c) (htypes : KnownTypes tr)
    (hhashed : HashedBy hash tr) : Told hash tr := by
  intro e he
  obtain ⟨tr₁, tr₂, rfl⟩ := List.append_of_mem he
  obtain ⟨c₁, k, s', -, -, -, hsem⟩ := hr.split
  have hhashes := hhashed e he
  have hpopped : ∀ request, poppedBy e = some request → request.type ≠ .opMaxNumber := by
    intro request hrequest
    apply htypes request
    apply (popped_isPrefix hr).subset
    exact List.mem_filterMap.mpr ⟨e, he, hrequest⟩
  obtain ⟨t, o, r, s⟩ := e
  cases o with
  | ext op =>
      obtain ⟨-, rest, hsem, -⟩ := hsem
      cases op with
      | add a b | sub a b => exact hsem.1
      | sys call =>
          cases call with
          | generateHash password salt => exact hashesAs_generateHash.mp hhashes
          | _ => trivial
      | queuePop => exact hpopped r rfl
      | _ => trivial
  | _ => trivial

/-- The certificate of serializability, with the times of the commits. -/
def realTimeCertificate (hash : Bytes → Bytes → Bytes) (serverFifoFD shutdownFD : Int)
    {s₀ : ServerState n W} (h₀ : ServerInit s₀) :
    Certificate ((server n W serverFifoFD shutdownFD).startingAt s₀)
      fun _ => transacts ⟨n, serverFifoFD, shutdownFD⟩ hash where
  assumes := Told hash
  assumes_append h e he := h e (List.mem_append_left _ he)
  inv tr c g := TxInv ⟨n, serverFifoFD, shutdownFD⟩ hash s₀.cells tr c.shared g ∧
    ∃ log abs, StrictLog ⟨n, serverFifoFD, shutdownFD⟩ hash s₀.cells (timelineOf tr) c.shared g log abs
  post _ := unengaged
  init {c} h := by
    obtain ⟨hs, -⟩ := h
    rw [show c.shared = s₀ from hs]
    exact ⟨_, ⟨TxInv.init h₀.owner, _, _, StrictLog.init h₀.owner⟩, fun _ => .inr ⟨rfl, rfl, rfl⟩⟩
  exec {tr c g t o k r s' Φ} hr htold h hp hrule hs := by
    obtain ⟨htx, log, abs, hlog⟩ := h
    have htells : OpTells hash o r := htold _ (List.mem_append_right _ (.head _))
    obtain ⟨g', ⟨hΦ, hstep⟩, htx'⟩ := htx.exec htells (rule_txStep hrule) hs
    have hallows : answerMonitor.allows (answerOf t tr) o := (watched_server.always (hr.of_startingAt h₀)).last
    obtain ⟨hgives, -, hnothing⟩ := answer_of_allows hallows
    refine ⟨g', hΦ, htx', hlog.exec htx htx' hstep hs (fun ho => ?_) fun {request reply} ho => ?_⟩
    · have hnone : ((timelineOf tr).answered t).isSome = false := by
        rw [answered_isSome, hnothing (.inl ho)]
        rfl
      exact Option.isNone_iff_eq_none.mp (Option.isSome_eq_false_iff.mp hnone)
    · rw [answered_isSome]
      rcases hgives request reply ho with hx | hx <;> rw [hx] <;> rfl
  loop {tr c g t x} h _ hpost := by
    refine ⟨g t, ?_, by rwa [Function.update_eq_self]⟩
    cases t with
    | main => exact wp_tx_mainBody hpost
    | office i => exact wp_tx_officeBody hpost
  divert {tr c g t o k x s' Φ} h _ _ hd := by
    obtain ⟨htx, log, abs, hlog⟩ := h
    obtain ⟨rfl, hcells, howner, -⟩ := frame_of_divert hd
    refine ⟨g t, .inl rfl, ?_⟩
    rw [Function.update_eq_self]
    exact ⟨htx.congr hcells howner, log, abs, hlog.congr hcells howner⟩
  env {tr c g s'} h he := by
    obtain ⟨htx, log, abs, hlog⟩ := h
    obtain ⟨w, -, rfl⟩ := he
    exact ⟨htx.congr rfl rfl, log, abs, hlog.congr rfl rfl⟩

/-- When all requests that were taken have been handled, the log of the commits is their order. -/
theorem exists_strictOrder (h₀ : (server n W serverFifoFD shutdownFD).Initial c₀)
    (hp : (server n W serverFifoFD shutdownFD).Path c₀ tr c) (htypes : KnownTypes tr)
    (hhashed : HashedBy hash tr) (hdone : (managed tr).length = (popped tr).length) :
    ∃ order : List (Span Job), order.Perm (spansOf tr) ∧
      order.Pairwise (fun v w => v.start < w.finish) ∧
      Serially (Job.Serial ⟨n, serverFifoFD, shutdownFD⟩ hash) (order.map Span.job) c₀.shared.cells
        c.shared.cells := by
  obtain ⟨g, hg⟩ := (realTimeCertificate hash serverFifoFD shutdownFD h₀.1).run
    (h₀.run_startingAt hp) (told_of_run ⟨c₀, h₀, hp⟩ htypes hhashed)
  obtain ⟨htx, log, abs, hlog⟩ := hg.1
  -- nobody has a request in hand
  have hzero : total inHands (historyOf tr).hand = 0 := by
    have := htx.count
    omega
  have hhand : ∀ t, (g t).2.hand = none := by
    intro t
    have hle := le_total inHands (historyOf tr).hand t
    rw [hzero, ← htx.hand t] at hle
    cases hx : (g t).2.hand with
    | none => rfl
    | some salt =>
        rw [hx] at hle
        exact absurd hle (Nat.not_succ_le_zero 0)
  have hopen : ∀ t, openOf t log = [] := by
    intro t
    rw [hlog.opens t, (htx.rest t (hhand t)).2]
    rfl
  refine ⟨ended log, hlog.ended, hlog.punctual.realTime, ?_⟩
  rw [jobs_ended hopen, hlog.inv.eq_cells fun t => (htx.rest t (hhand t)).1]
  exact hlog.serial

/-- **Strict serializability.** Take any number of offices, any requests of the four types with account
numbers below `MAX_BANK_ACCOUNTS`, and any run, from any initial state, in which as many requests have been
handled as have been handed to the offices.
Then, for some order of these requests, each with the salt that was drawn for it, running
`manageRequest` on them one at a time takes the initial accounts to those at the end of the run, with
the same replies (but for the number of active offices in the reply to a shutdown); and in this order no
request stands before one that was already being answered when an office took it from the queue. -/
theorem requests_strictly_serializable (hhash : W.HashesBy hash)
    (h₀ : (server n W serverFifoFD shutdownFD).Initial c₀)
    (hp : (server n W serverFifoFD shutdownFD).Path c₀ tr c) (htypes : KnownTypes tr)
    (_haccounts : KnownAccounts tr) (hdone : (managed tr).length = (popped tr).length) :
    ∃ order : List (Span Job), order.Perm (spansOf tr) ∧
      order.Pairwise (fun v w => v.start < w.finish) ∧
      Serially (Job.Serial ⟨n, serverFifoFD, shutdownFD⟩ hash) (order.map Span.job) c₀.shared.cells
        c.shared.cells :=
  exists_strictOrder h₀ hp htypes (hashedBy_of_run hhash ⟨c₀, h₀, hp⟩) hdone

/-! ## An example -/

/-- A run in which one office has finished its request when the other one takes the next. -/
theorem exists_path_consecutive :
    ∃ tr c, (server 2 (servingScript _ rivalReads).world 3 4).Path
        (firstConfig (servingScript _ rivalReads) [9] [7] fun _ => 0) tr c ∧
      (decide (∀ request ∈ pushed tr, request.type ≠ .opMaxNumber) &&
        (pushed tr).all (fun request => request.accountIds.all fun id => id.toNat < maxBankAccounts) &&
        (managed tr).length == (popped tr).length && (spansOf tr).length == 2 &&
        decide ((spansOf tr).Pairwise fun v w => v.finish < w.start)) = true :=
  System.exists_path_of_play (serverPlayer _ 3 4)
    (List.replicate 18 (.run .main) ++ List.replicate 33 (.run (.office 0)) ++
      List.replicate 26 (.run (.office 1)))
    (firstConfig (servingScript (Thread 2) rivalReads) [9] [7] fun _ => 0)
    (fun tr _ => decide (∀ request ∈ pushed tr, request.type ≠ .opMaxNumber) &&
      (pushed tr).all (fun request => request.accountIds.all fun id => id.toNat < maxBankAccounts) &&
      (managed tr).length == (popped tr).length && (spansOf tr).length == 2 &&
      decide ((spansOf tr).Pairwise fun v w => v.finish < w.start)) (by decide +kernel)

/-- There the order is that of the run. -/
theorem requests_strictly_serializable_consecutive :
    ∃ tr c, (server 2 (servingScript _ rivalReads).world 3 4).Path
        (firstConfig (servingScript _ rivalReads) [9] [7] fun _ => 0) tr c ∧ (jobsOf tr).length = 2 ∧
      Serially (Job.Serial ⟨2, 3, 4⟩ fun _ _ => [9]) (jobsOf tr)
        (firstConfig (servingScript (Thread 2) rivalReads) [9] [7] fun _ => 0).shared.cells
        c.shared.cells := by
  obtain ⟨tr, c, hp, hc⟩ := exists_path_consecutive
  simp only [Bool.and_eq_true, decide_eq_true_eq, beq_iff_eq, List.all_eq_true] at hc
  obtain ⟨⟨⟨⟨htypes, haccounts⟩, hdone⟩, htwo⟩, hconsecutive⟩ := hc
  have hhash : (servingScript (Thread 2) rivalReads).world.HashesBy fun _ _ => [9] := by
    intro t password salt w r w' h
    exact (Prod.mk.inj (Option.some.inj h)).1.symm
  obtain ⟨order, hperm, hrealTime, hserial⟩ := requests_strictly_serializable hhash
    (initial_firstConfig (servingScript (Thread 2) rivalReads) [9] [7] (fun _ => 0) 3 4) hp htypes
    haccounts hdone
  obtain ⟨v, w, hspans⟩ := List.length_eq_two.mp htwo
  have horder : order = spansOf tr := by
    rw [hspans] at hperm hconsecutive ⊢
    have hvw : v.finish < w.start := by simpa using hconsecutive
    rcases List.perm_pair.mp hperm with h | h
    · exact h
    · rw [h] at hrealTime
      have hwv : w.start < v.finish := by simpa using hrealTime
      omega
  rw [horder, spansOf_map_job] at hserial
  refine ⟨tr, c, hp, ?_, hserial⟩
  rw [← spansOf_map_job, List.length_map, htwo]

end Sope
