import Sope.Bank.Coordination

/-! # The transitions between phases

`Phase.Transition` lists the transitions that `Phase.next` makes, one constructor each. What they do
to the classifications of the phases follows by cases: no transition takes an office out of the
phases of an office, only a `sem_wait` takes it out of rest, and only setting the flag makes it one
with its flag set. -/

namespace Sope

open Concurrency

namespace Phase

/-- The transitions of a thread whose flag has index `self`, in a server with `n` offices. -/
inductive Transition (n self : ℕ) : (e : Ext) → e.Res → Phase → Phase → Prop
  | start : Transition n self (.writeActive self false) () .starting .idle
  | enter : Transition n self (.semWait .queueFullSem) () .idle .admitted
  | flag : Transition n self (.writeActive self true) () .admitted .flagged
  | lock : Transition n self .lockQueueMutex () .flagged .locked
  | pop (request : TlvRequest) : Transition n self .queuePop request .locked (.popped request)
  | unlock (request : TlvRequest) :
      Transition n self .unlockQueueMutex () (.popped request) (.released request)
  | manage (request : TlvRequest) :
      Transition n self (.semPost .queueEmptySem) () (.released request) (.managing request)
  | work {e : Ext} (r : e.Res) (request : TlvRequest) (local_e : e.isLocal = true) :
      Transition n self e r (.managing request) (.managing request)
  | finish (request : TlvRequest) (reply : TlvReply) :
      Transition n self (.mark (.managed request reply)) () (.managing request) .managed
  | clear : Transition n self (.writeActive self false) () .managed .idle
  | read {call : SysCall} (r : call.Res) : Transition n self (.sys call) r .reading .reading
  | permit : Transition n self (.semWait .queueEmptySem) () .reading .permitted
  | lockPush : Transition n self .lockQueueMutex () .permitted .pushing
  | push (request : TlvRequest) : Transition n self (.queuePush request) () .pushing .pushed
  | unlockPush : Transition n self .unlockQueueMutex () .pushed .pushReleased
  | post : Transition n self (.semPost .queueFullSem) () .pushReleased .reading
  | lockPoll : Transition n self .lockQueueMutex () .reading .polling
  | poll (empty : Bool) : Transition n self .queueEmpty empty .polling (.polled empty)
  | unlockPoll : Transition n self .unlockQueueMutex () (.polled false) .reading
  | drain : Transition n self .unlockQueueMutex () (.polled true) (.scanning 0 0)
  | scan (k sum active : ℕ) (unfinished : ¬ (k = n ∧ sum = 0)) :
      Transition n self (.readActive k) active (.scanning k sum) (.scanning (k + 1) (sum + active))
  | rescan (k sum active : ℕ) (unfinished : ¬ (k = n ∧ sum = 0)) :
      Transition n self (.readActive 0) active (.scanning k sum) (.scanning 1 active)
  | cancelFirst (i : ℕ) : Transition n self (.pthreadCancel i) () (.scanning n 0) .destroying
  | cancel (i : ℕ) : Transition n self (.pthreadCancel i) () .destroying .destroying
  | join (i : ℕ) : Transition n self (.pthreadJoin i) () .destroying .destroying

variable {n self : ℕ} {x x' : Phase} {e : Ext} {r : e.Res}

/-- `Phase.next` makes these transitions only. -/
theorem Transition.of_next (h : x.next n self e r = some x') : Transition n self e r x x' := by
  unfold next at h
  split at h
  all_goals try split_ifs at h
  all_goals cases h
  all_goals try subst_vars
  all_goals try (constructor <;> assumption)
  case neg empty _ he =>
    cases Bool.eq_false_of_not_eq_true he
    exact .unlockPoll
  case pos hk =>
    obtain ⟨rfl, rfl⟩ := hk
    exact .cancelFirst _

theorem Transition.isOffice (h : Transition n self e r x x') : x'.isOffice = x.isOffice := by
  cases h <;> rfl

/-- Only `sem_wait(&queueFullSem)` takes an office out of rest. -/
theorem Transition.isQuiet (h : Transition n self e r x x') (hx : x.isQuiet = true) :
    x'.isQuiet = true ∨ e = .semWait .queueFullSem := by
  cases h with
  | enter => exact .inr rfl
  | start => exact .inl rfl
  | _ => cases hx

/-- Only setting the flag makes an office one with its flag set. -/
theorem Transition.isFlagged (h : Transition n self e r x x') (hx : x'.isFlagged = true) :
    x.isFlagged = true ∨ e = .writeActive self true := by
  cases h with
  | flag => exact .inr rfl
  | _ => first | exact .inl rfl | cases hx

/-- What is popped is in hand, and what is managed no longer is. -/
theorem Transition.inHand (h : Transition n self e r x x') (request : TlvRequest) :
    x.inHand request + (e.pops r).toList.count request
      = x'.inHand request + e.manages.toList.count request := by
  cases h with
  | pop q => simp [Phase.inHand, Ext.pops, Ext.manages, List.count_singleton]
  | finish q reply => simp [Phase.inHand, Ext.pops, Ext.manages, List.count_singleton]
  | work r q he =>
      obtain ⟨-, hpops, hmanages⟩ := Ext.local_quiet he r
      rw [hpops, hmanages]
  | _ => rfl

/-- The main thread knows that the queue is empty once a test has said so. -/
theorem Transition.isDrained (h : Transition n self e r x x') (hx : x'.isDrained = true) :
    x.isDrained = true ∨ ∃ _ : e = .queueEmpty, r ≍ true := by
  cases h with
  | poll empty =>
      cases empty with
      | false => cases hx
      | true => exact .inr ⟨rfl, .rfl⟩
  | _ => first | exact .inl rfl | cases hx

/-- The main thread passes an office when it reads a cleared flag. -/
theorem Transition.quietBelow (h : Transition n self e r x x') :
    x'.quietBelow n ≤ x.quietBelow n ∨ ∃ k, ∃ _ : e = .readActive k, r ≍ (0 : ℕ) ∧
      x.isDrained = true ∧ k ≤ x.quietBelow n ∧ x'.quietBelow n = k + 1 := by
  cases h with
  | scan k sum active =>
      rw [quietBelow_scanning, quietBelow_scanning]
      by_cases h0 : sum + active = 0
      · obtain ⟨rfl, rfl⟩ := Nat.add_eq_zero_iff.mp h0
        exact .inr ⟨k, rfl, .rfl, rfl, by simp, by simp⟩
      · exact .inl (by rw [if_neg h0]; exact Nat.zero_le _)
  | rescan k sum active =>
      by_cases h0 : active = 0
      · subst h0
        exact .inr ⟨0, rfl, .rfl, rfl, Nat.zero_le _, rfl⟩
      · exact .inl (by rw [quietBelow_scanning n 1, if_neg h0]; exact Nat.zero_le _)
  | _ => exact .inl (by simp [Phase.quietBelow])

/-- A thread changes no other flag than its own. -/
theorem Transition.index_eq {i : ℕ} {active : Bool} {r} (h : Transition n self (.writeActive i active) r x x') :
    i = self ∧ (active = false → x' = .idle) := by
  cases h with
  | work r request he => cases he
  | _ => exact ⟨rfl, by simp⟩

theorem Transition.of_queuePop {r} (h : Transition n self .queuePop r x x') :
    x = .locked ∧ x' = .popped r := by
  cases h with
  | work r request he => cases he
  | pop request => exact ⟨rfl, rfl⟩

theorem Transition.of_queuePush {request : TlvRequest} {r}
    (h : Transition n self (.queuePush request) r x x') : x = .pushing ∧ x' = .pushed := by
  cases h with
  | work r request he => cases he
  | push request => exact ⟨rfl, rfl⟩

/-- The main thread cancels an office only after `waitForRequestFinish`. -/
theorem Transition.of_pthreadCancel {i : ℕ} {r} (h : Transition n self (.pthreadCancel i) r x x') :
    x.isFinished n = true ∧ x' = .destroying := by
  cases h with
  | work r request he => cases he
  | cancelFirst => exact ⟨by simp [isFinished], rfl⟩
  | cancel => exact ⟨rfl, rfl⟩

/-- After `waitForRequestFinish` the main thread only cancels offices. -/
theorem Transition.isFinished (h : Transition n self e r x x') (hx : x.isFinished n = true) :
    x' = .destroying := by
  cases h with
  | scan k sum active hk | rescan k sum active hk => exact absurd (by simpa [Phase.isFinished] using hx) hk
  | cancelFirst | cancel | join => rfl
  | _ => cases hx

end Phase

end Sope
