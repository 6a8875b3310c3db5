import Mathlib.Data.List.Pairwise
import Mathlib.Data.List.Perm.Basic
import Mathlib.Tactic.Common

/-! # Commits and real time

Each of some jobs begins, is committed, and ends; jobs of different threads overlap. The order of the
commits does not contradict real time: no job comes after one that began only when it had ended.

* `Span` — a job with the times at which it began and ended.
* `Entry` — a job in the log of the commits, with the time of its commit. It has not ended yet.
* `Punctual` — the commits are in order, and each of them falls between the beginning and the end. -/

namespace Concurrency

variable {Tid J : Type}

/-- A job that has ended. -/
structure Span (J : Type) where
  /-- When it began. -/
  start : ℕ
  /-- When it ended. -/
  finish : ℕ
  /-- The job. -/
  job : J
  deriving DecidableEq

/-- A job that has been committed. -/
structure Entry (Tid J : Type) where
  /-- The thread whose job it is. -/
  tid : Tid
  /-- When it began. -/
  start : ℕ
  /-- When it was committed. -/
  moment : ℕ
  /-- The job. -/
  job : J
  /-- When it ended, if it has. -/
  finish : Option ℕ

/-- The job with its times, once it has ended. -/
def Entry.span (e : Entry Tid J) : Option (Span J) := e.finish.map fun f => ⟨e.start, f, e.job⟩

variable [DecidableEq Tid]

/-- The job is one of thread `t` that has not ended. -/
def Entry.isOpen (t : Tid) (e : Entry Tid J) : Bool := e.tid = t && e.finish.isNone

/-- The jobs of thread `t` have ended at the time `finish`. -/
def Entry.close (t : Tid) (finish : ℕ) (e : Entry Tid J) : Entry Tid J :=
  if e.isOpen t then { e with finish := some finish } else e

/-- What thread `t` has committed and not ended. -/
def openOf (t : Tid) (log : List (Entry Tid J)) : List (ℕ × J) :=
  (log.filter (Entry.isOpen t)).map fun e => (e.start, e.job)

/-- The jobs that have ended. -/
def ended (log : List (Entry Tid J)) : List (Span J) := log.filterMap Entry.span

/-- The commits are in order and in time. -/
structure Punctual (now : ℕ) (log : List (Entry Tid J)) : Prop where
  /-- The log is in the order of the commits. -/
  order : log.Pairwise fun e f => e.moment < f.moment
  /-- A commit comes after the beginning of its job, and before its end. -/
  inside : ∀ e ∈ log, e.start < e.moment ∧ e.moment < now ∧ ∀ f, e.finish = some f → e.moment < f

variable {t u : Tid} {e : Entry Tid J} {now start finish : ℕ} {job : J} {log : List (Entry Tid J)}

/-! ## One entry -/

theorem Entry.isOpen_iff : e.isOpen t = true ↔ e.tid = t ∧ e.finish = none := by
  simp [Entry.isOpen, Option.isNone_iff_eq_none]

theorem Entry.close_of_isOpen (h : e.isOpen t = true) : e.close t finish = { e with finish := some finish } :=
  if_pos h

theorem Entry.close_of_not_isOpen (h : ¬ e.isOpen t = true) : e.close t finish = e := if_neg h

/-- Ending the jobs of a thread changes no job, and neither when it began nor when it was committed. -/
theorem Entry.close_fields :
    (e.close t finish).tid = e.tid ∧ (e.close t finish).start = e.start ∧
      (e.close t finish).moment = e.moment ∧ (e.close t finish).job = e.job := by
  by_cases h : e.isOpen t = true
  · rw [close_of_isOpen h]
    exact ⟨rfl, rfl, rfl, rfl⟩
  · rw [close_of_not_isOpen h]
    exact ⟨rfl, rfl, rfl, rfl⟩

/-- Afterwards the other threads' jobs are as open as before, and those of the thread have ended. -/
theorem Entry.isOpen_close : (e.close t finish).isOpen u = (e.isOpen u && decide (u ≠ t)) := by
  by_cases h : e.isOpen t = true
  · rw [close_of_isOpen h]
    obtain ⟨rfl, hfinish⟩ := isOpen_iff.mp h
    by_cases hu : u = e.tid
    · subst hu
      simp [Entry.isOpen]
    · simp [Entry.isOpen, Ne.symm hu]
  · rw [close_of_not_isOpen h]
    by_cases hu : u = t
    · subst hu
      simpa using h
    · simp [hu]

/-! ## The log -/

@[simp] theorem openOf_nil : openOf t ([] : List (Entry Tid J)) = [] := rfl

omit [DecidableEq Tid] in
theorem ended_append {log' : List (Entry Tid J)} : ended (log ++ log') = ended log ++ ended log' :=
  List.filterMap_append ..

/-- Committing opens a job. -/
theorem openOf_commit : openOf u (log ++ [⟨t, start, now, job, none⟩])
    = openOf u log ++ if t = u then [(start, job)] else [] := by
  unfold openOf
  rw [List.filter_append, List.map_append]
  by_cases hu : t = u
  · simp [Entry.isOpen, hu]
  · simp [Entry.isOpen, hu]

omit [DecidableEq Tid] in
/-- It ends none. -/
theorem ended_commit : ended (log ++ [⟨t, start, now, job, none⟩]) = ended log := by
  rw [ended_append]
  exact List.append_nil _

/-- Ending the jobs of a thread leaves the others open. -/
theorem openOf_close : openOf u (log.map (Entry.close t finish)) = if u = t then [] else openOf u log := by
  induction log with
  | nil => simp
  | cons e log ih =>
      unfold openOf at ih ⊢
      rw [List.map_cons]
      by_cases hu : u = t
      · rw [List.filter_cons_of_neg (by simp [Entry.isOpen_close, hu]), ih]
        simp [hu]
      · by_cases he : e.isOpen u = true
        · rw [List.filter_cons_of_pos (by simp [Entry.isOpen_close, hu, he]), List.map_cons, ih,
            List.filter_cons_of_pos he, if_neg hu, if_neg hu, List.map_cons, Entry.close_fields.2.1,
            Entry.close_fields.2.2.2]
        · rw [List.filter_cons_of_neg (by simp [Entry.isOpen_close, he]), ih,
            List.filter_cons_of_neg he]

/-- The jobs in the log stay. -/
theorem jobs_close : (log.map (Entry.close t finish)).map Entry.job = log.map Entry.job := by
  rw [List.map_map]
  apply List.map_congr_left
  intro e _
  exact Entry.close_fields.2.2.2

/-- A thread whose jobs have all ended. -/
theorem ended_close_of_openOf_nil (h : openOf t log = []) :
    ended (log.map (Entry.close t finish)) = ended log := by
  have hsame : ∀ e ∈ log, e.close t finish = e := by
    intro e he
    apply Entry.close_of_not_isOpen
    intro hopen
    have hnil : log.filter (Entry.isOpen t) = [] := List.map_eq_nil_iff.mp h
    exact List.filter_eq_nil_iff.mp hnil e he hopen
  rw [List.map_congr_left hsame, List.map_id']

/-- The one open job of a thread ends. -/
theorem ended_close (h : openOf t log = [(start, job)]) :
    (ended (log.map (Entry.close t finish))).Perm (ended log ++ [⟨start, finish, job⟩]) := by
  induction log with
  | nil => cases h
  | cons e log ih =>
      have hcons : ∀ l : List (Entry Tid J), ended (e :: l) = e.span.toList ++ ended l := by
        intro l
        cases hspan : e.span with
        | none => exact List.filterMap_cons_none hspan
        | some v => exact List.filterMap_cons_some hspan
      by_cases he : e.isOpen t = true
      · -- it is this one, and the others have ended
        unfold openOf at h
        rw [List.filter_cons_of_pos he, List.map_cons] at h
        obtain ⟨hpair, hrest⟩ := List.cons.inj h
        obtain ⟨rfl, rfl⟩ := Prod.mk.inj hpair
        obtain ⟨-, hfinish⟩ := Entry.isOpen_iff.mp he
        have hnone : e.span = none := by rw [Entry.span, hfinish, Option.map_none]
        rw [hcons, hnone, List.map_cons, Entry.close_of_isOpen he]
        show (_ :: ended (log.map (Entry.close t finish))).Perm (ended log ++ _)
        rw [ended_close_of_openOf_nil hrest]
        exact (List.perm_append_singleton _ _).symm
      · have htail : openOf t log = [(start, job)] := by
          unfold openOf at h ⊢
          rwa [List.filter_cons_of_neg he] at h
        rw [List.map_cons, Entry.close_of_not_isOpen he, hcons, hcons, List.append_assoc]
        exact (ih htail).append_left _

/-- When all jobs have ended, the log consists of them. -/
theorem jobs_ended (h : ∀ t, openOf t log = []) : (ended log).map Span.job = log.map Entry.job := by
  have hclosed : ∀ e ∈ log, ∃ f, e.finish = some f := by
    intro e he
    by_contra hnot
    have hnone : e.finish = none := Option.eq_none_iff_forall_ne_some.mpr fun f hf => hnot ⟨f, hf⟩
    have hmem : (e.start, e.job) ∈ openOf e.tid log :=
      List.mem_map_of_mem (List.mem_filter.mpr ⟨he, Entry.isOpen_iff.mpr ⟨rfl, hnone⟩⟩)
    rw [h e.tid] at hmem
    cases hmem
  clear h
  induction log with
  | nil => rfl
  | cons e log ih =>
      obtain ⟨f, hf⟩ := hclosed e (List.mem_cons_self ..)
      have hspan : e.span = some ⟨e.start, f, e.job⟩ := by rw [Entry.span, hf, Option.map_some]
      rw [ended, List.filterMap_cons_some hspan, List.map_cons, List.map_cons]
      exact congrArg _ (ih fun e he => hclosed e (List.mem_cons_of_mem _ he))

/-! ## The order of the commits -/

namespace Punctual

omit [DecidableEq Tid] in
theorem nil : Punctual now ([] : List (Entry Tid J)) := ⟨.nil, by simp⟩

omit [DecidableEq Tid] in
/-- Time passes. -/
theorem tick (h : Punctual now log) : Punctual (now + 1) log := by
  refine ⟨h.order, fun e he => ?_⟩
  obtain ⟨hstart, hnow, hfinish⟩ := h.inside e he
  exact ⟨hstart, Nat.lt_succ_of_lt hnow, hfinish⟩

omit [DecidableEq Tid] in
/-- A thread commits a job that it has begun before. -/
theorem commit (h : Punctual now log) (hstart : start < now) :
    Punctual (now + 1) (log ++ [⟨t, start, now, job, none⟩]) := by
  constructor
  · rw [List.pairwise_append]
    refine ⟨h.order, List.pairwise_singleton .., fun e he f hf => ?_⟩
    rw [List.mem_singleton.mp hf]
    exact (h.inside e he).2.1
  · intro e he
    rcases List.mem_append.mp he with he | he
    · exact h.tick.inside e he
    · rw [List.mem_singleton.mp he]
      exact ⟨hstart, Nat.lt_succ_self now, by simp⟩

/-- A thread has ended its jobs, after it had committed them. -/
theorem close (h : Punctual now log) (hlt : ∀ e ∈ log, e.isOpen t = true → e.moment < finish) :
    Punctual (now + 1) (log.map (Entry.close t finish)) := by
  constructor
  · rw [List.pairwise_map]
    apply h.order.imp
    intro e f hef
    rwa [Entry.close_fields.2.2.1, Entry.close_fields.2.2.1]
  · intro e' he'
    obtain ⟨e, he, rfl⟩ := List.mem_map.mp he'
    obtain ⟨hstart, hnow, hfinish⟩ := h.inside e he
    rw [Entry.close_fields.2.1, Entry.close_fields.2.2.1]
    refine ⟨hstart, Nat.lt_succ_of_lt hnow, fun f hf => ?_⟩
    by_cases hopen : e.isOpen t = true
    · rw [Entry.close_of_isOpen hopen] at hf
      cases hf
      exact hlt e he hopen
    · rw [Entry.close_of_not_isOpen hopen] at hf
      exact hfinish f hf

omit [DecidableEq Tid] in
/-- **The order of the commits respects real time.** A job began before each job behind it ended. -/
theorem realTime (h : Punctual now log) : (ended log).Pairwise fun v w => v.start < w.finish := by
  rw [ended, List.pairwise_filterMap]
  refine h.order.imp_of_mem ?_
  intro e f he hf hef v hv w hw
  obtain ⟨x, -, rfl⟩ := Option.map_eq_some_iff.mp hv
  obtain ⟨y, hy, rfl⟩ := Option.map_eq_some_iff.mp hw
  have hstart := (h.inside e he).1
  have hfinish := (h.inside f hf).2.2 y hy
  show e.start < y
  omega

end Punctual

end Concurrency
