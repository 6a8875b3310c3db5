import Sope.Bank.Errands
import Sope.Bank.RealTime

/-! # What the times of a request say

The times at which a request was taken and answered are those at which an office took it from the queue and
opened a FIFO for the reply.

* `TakenAt` — an office took the request at that time.
* `Errand.told` — the office has opened the FIFO, or tried to.
* `span_of_told` — when all requests that were taken have been managed, every request whose FIFO was open
  has been finished, and its answer had begun before. -/

namespace Sope

open Concurrency

variable {n : ℕ} {W : World (Thread n)} {serverFifoFD shutdownFD : Int} {tr tr' : List (ServerEvent n W)}
  {c : Config (Thread n) ServerOp ServerRes (ServerState n W) Ctl} {t : Thread n} {q : TlvRequest} {k : ℕ}

/-! ## When a request was taken -/

/-- An office took the request from the queue at that time. -/
def TakenAt (tr : List (ServerEvent n W)) (k : ℕ) (q : TlvRequest) : Prop :=
  ∃ e, tr[k]? = some e ∧ poppedBy e = some q

/-- Later it is still so. -/
theorem TakenAt.append (h : TakenAt tr k q) (tr' : List (ServerEvent n W)) : TakenAt (tr ++ tr') k q := by
  obtain ⟨e, he, hq⟩ := h
  refine ⟨e, ?_, hq⟩
  rw [List.getElem?_append_left (List.getElem?_eq_some_iff.mp he).1, he]

/-- What was taken before a time is among what had been taken then. -/
theorem TakenAt.mem_popped (h : TakenAt (tr ++ tr') k q) (hk : k < tr.length) : q ∈ popped tr := by
  obtain ⟨e, he, hq⟩ := h
  rw [List.getElem?_append_left hk] at he
  exact List.mem_filterMap.mpr ⟨e, List.mem_of_getElem? he, hq⟩

theorem timelineOf_now : (timelineOf tr).now = tr.length := by
  induction tr using List.reverseRecOn with
  | nil => rfl
  | append_singleton tr e ih =>
      rw [timelineOf_append, List.length_append]
      exact congrArg (· + 1) ih

/-- Only taking a request sets that time. -/
theorem since_append {e : ServerEvent n W} (h : e.tid ≠ t ∨ ¬ takes e.op = true) :
    (timelineOf (tr ++ [e])).since t = (timelineOf tr).since t := by
  rw [timelineOf_append]
  show (if takes e.op then Function.update (timelineOf tr).since e.tid (timelineOf tr).now
    else (timelineOf tr).since) t = (timelineOf tr).since t
  split
  · next htakes =>
      have hne : e.tid ≠ t := h.resolve_right fun hnot => hnot htakes
      rw [Function.update_of_ne hne.symm]
  · rfl

/-- A request in hand was taken at the time that the timeline has for its office. -/
theorem takenAt_of_request (h : (server n W serverFifoFD shutdownFD).Run tr c)
    (hq : (errandOf ⟨n, serverFifoFD, shutdownFD⟩ t tr).request = some q) :
    TakenAt tr ((timelineOf tr).since t) q := by
  induction tr using List.reverseRecOn generalizing c with
  | nil => cases t <;> cases hq
  | append_singleton tr e ih =>
      obtain ⟨c₁, k, s', hr, -, hp, -⟩ := h.split
      have hstep := errandStep_next (allows_of_run hr hp) e.res
      obtain ⟨u, o, r, s⟩ := e
      by_cases hu : u = t
      · subst hu
        rw [errandOf, Monitor.after_append_self] at hq
        -- the office takes the request now, or it has it from before
        by_cases hpop : o = .ext .queuePop
        · subst hpop
          cases hq
          refine ⟨⟨u, .ext .queuePop, q, s⟩, ?_, rfl⟩
          rw [timelineOf_append]
          show (tr ++ _)[Function.update (timelineOf tr).since u (timelineOf tr).now u]? = _
          rw [Function.update_self, timelineOf_now, List.getElem?_concat_length]
        · by_cases hmark : ∃ q' reply, o = .ext (.mark (.managed q' reply))
          · obtain ⟨q', reply, rfl⟩ := hmark
            cases hq
          · have hsame := hstep.request_eq hpop fun q' reply ho => hmark ⟨q', reply, ho⟩
            rw [since_append (.inr fun htakes => hpop ?_)]
            · exact (ih hr (hsame.symm.trans hq)).append _
            · cases o with
              | ext op => cases op <;> first | rfl | cases htakes
              | _ => cases htakes
      · rw [errandOf, Monitor.after_append_of_ne hu] at hq
        rw [since_append (.inl hu)]
        exact (ih hr hq).append _

/-! ## When it was answered -/

/-- The request of an office that has opened a FIFO for its reply, or tried to. -/
def Errand.told : Errand → Option TlvRequest
  | .missed request | .holding request _ | .unwritten request _ | .written request _ _ | .sent request _
  | .dropped request => some request
  | _ => none

theorem Errand.request_of_told {x : Errand} (h : x.told = some q) : x.request = some q := by
  cases x with
  | missed | holding | unwritten | written | sent | dropped => exact h
  | _ => cases h

/-- So it stays until the request has been managed. -/
theorem ErrandStep.told_eq {setup : Setup} {x x' : Errand} {o : ServerOp} {r : ServerRes o}
    (h : ErrandStep setup x o r x') (hopen : ∀ path, o ≠ .ext (.sys (.openFifo path)))
    (hmark : ∀ q reply, o ≠ .ext (.mark (.managed q reply))) : x'.told = x.told := by
  cases h with
  | missed | holding => exact absurd rfl (hopen _)
  | done | lost => exact absurd rfl (hmark _ _)
  | failed hx => rcases hx with ⟨memory, rfl, -⟩ | ⟨memory, rfl, -⟩ <;> rfl
  | _ => rfl

/-- Only opening a FIFO and having managed a request change the time of the answer. -/
theorem answered_append {e : ServerEvent n W} (h : e.tid ≠ t ∨
      (∀ path, e.op ≠ .ext (.sys (.openFifo path))) ∧ ∀ q reply, e.op ≠ .ext (.mark (.managed q reply))) :
    (timelineOf (tr ++ [e])).answered t = (timelineOf tr).answered t := by
  rw [timelineOf_append]
  show Function.update (timelineOf tr).answered e.tid _ t = _
  by_cases hu : e.tid = t
  · obtain ⟨hopen, hmark⟩ := h.resolve_left fun hne => hne hu
    subst hu
    rw [Function.update_self]
    unfold answeredAfter
    split
    · next path ho => exact absurd ho (hopen path)
    · next q reply ho => exact absurd ho (hmark q reply)
    · rfl
  · rw [Function.update_of_ne (Ne.symm hu)]

/-- An office opens a FIFO, or has managed a request, or it has told its user as much as before. -/
theorem told_next {e : ServerEvent n W} (h : (server n W serverFifoFD shutdownFD).Run (tr ++ [e]) c)
    (t : Thread n) :
    (e.tid = t ∧ ∃ path, e.op = .ext (.sys (.openFifo path))) ∨
      (e.tid = t ∧ ∃ q reply, e.op = .ext (.mark (.managed q reply))) ∨
      (errandOf ⟨n, serverFifoFD, shutdownFD⟩ t (tr ++ [e])).told
          = (errandOf ⟨n, serverFifoFD, shutdownFD⟩ t tr).told ∧
        (timelineOf (tr ++ [e])).answered t = (timelineOf tr).answered t := by
  obtain ⟨c₁, k, s', hr, -, hp, -⟩ := h.split
  have hstep := errandStep_next (allows_of_run hr hp) e.res
  by_cases hu : e.tid = t
  · by_cases hopen : ∃ path, e.op = .ext (.sys (.openFifo path))
    · exact .inl ⟨hu, hopen⟩
    · by_cases hmark : ∃ q reply, e.op = .ext (.mark (.managed q reply))
      · exact .inr (.inl ⟨hu, hmark⟩)
      · have hopen : ∀ path, e.op ≠ .ext (.sys (.openFifo path)) := fun path ho => hopen ⟨path, ho⟩
        have hmark : ∀ q reply, e.op ≠ .ext (.mark (.managed q reply)) :=
          fun q reply ho => hmark ⟨q, reply, ho⟩
        refine .inr (.inr ⟨?_, answered_append (.inr ⟨hopen, hmark⟩)⟩)
        subst hu
        obtain ⟨u, o, r, s⟩ := e
        rw [errandOf, Monitor.after_append_self]
        exact hstep.told_eq hopen hmark
  · refine .inr (.inr ⟨?_, answered_append (.inl hu)⟩)
    rw [errandOf, Monitor.after_append_of_ne hu]
    rfl

/-- An office that has opened a FIFO has begun to answer. -/
theorem answered_of_told (h : (server n W serverFifoFD shutdownFD).Run tr c)
    (hq : (errandOf ⟨n, serverFifoFD, shutdownFD⟩ t tr).told = some q) :
    ∃ f, (timelineOf tr).answered t = some f ∧ f < tr.length := by
  induction tr using List.reverseRecOn generalizing c with
  | nil => cases t <;> cases hq
  | append_singleton tr e ih =>
      obtain ⟨c₁, k, s', hr, -⟩ := h.split
      rcases told_next h t with ⟨hu, path, ho⟩ | ⟨hu, q', reply, ho⟩ | ⟨htold, hanswered⟩
      · obtain ⟨u, o, r, s⟩ := e
        obtain rfl : u = t := hu
        obtain rfl : o = _ := ho
        refine ⟨tr.length, ?_, by simp⟩
        rw [timelineOf_append, ← timelineOf_now]
        exact Function.update_self ..
      · obtain ⟨u, o, r, s⟩ := e
        obtain rfl : u = t := hu
        obtain rfl : o = _ := ho
        rw [errandOf, Monitor.after_append_self] at hq
        cases hq
      · obtain ⟨f, hf, hlt⟩ := ih hr (htold.symm.trans hq)
        rw [List.length_append]
        exact ⟨f, hanswered.trans hf, Nat.lt_add_right _ hlt⟩

/-! ## Requests that have been finished -/

/-- A job is finished when its request has been managed. -/
theorem exists_of_finishes {hand : Option Bytes} {o : ServerOp} {job : Job} (h : finishes hand o = some job) :
    ∃ q reply, o = .ext (.mark (.managed q reply)) ∧ job = ⟨q, hand.getD [], reply.withoutActiveOffices⟩ := by
  cases o with
  | ext op =>
      cases op with
      | mark m =>
          cases m with
          | managed q reply => exact ⟨q, reply, rfl, (Option.some.inj h).symm⟩
          | _ => cases h
      | _ => cases h
  | _ => cases h

/-- What is finished stays finished. -/
theorem spansOf_append (e : ServerEvent n W) : spansOf tr ⊆ spansOf (tr ++ [e]) := by
  rw [spansOf, spansOf, timelineOf_append]
  exact List.subset_append_left _ _

/-- A request that has been managed is finished. -/
theorem span_of_managed {reply : TlvReply} {r : Unit} {s : ServerState n W} :
    ⟨(timelineOf tr).since t, ((timelineOf tr).answered t).getD tr.length,
        ⟨q, ((historyOf tr).hand t).getD [], reply.withoutActiveOffices⟩⟩
      ∈ spansOf (tr ++ [⟨t, .ext (.mark (.managed q reply)), r, s⟩]) := by
  rw [spansOf, timelineOf_append, ← timelineOf_now, ← timelineOf_history]
  exact List.mem_append_right _ (.head _)

/-- **Once a FIFO has been opened for a request, its answer has begun**, and it is finished, or it will be. -/
theorem span_of_told (h : (server n W serverFifoFD shutdownFD).Run (tr ++ tr') c)
    (hq : (errandOf ⟨n, serverFifoFD, shutdownFD⟩ t tr).told = some q) :
    (errandOf ⟨n, serverFifoFD, shutdownFD⟩ t (tr ++ tr')).request = some q ∨
      ∃ span ∈ spansOf (tr ++ tr'), span.job.request = q ∧ span.finish < tr.length := by
  -- while the office is at the request, the induction has to carry the time of the answer along
  suffices hall : (∃ f, (errandOf ⟨n, serverFifoFD, shutdownFD⟩ t (tr ++ tr')).told = some q ∧
      (timelineOf (tr ++ tr')).answered t = some f ∧ f < tr.length) ∨
      ∃ span ∈ spansOf (tr ++ tr'), span.job.request = q ∧ span.finish < tr.length from
    hall.imp_left fun ⟨_, htold, _⟩ => Errand.request_of_told htold
  induction tr' using List.reverseRecOn generalizing c with
  | nil =>
      rw [List.append_nil] at h ⊢
      obtain ⟨f, hf, hlt⟩ := answered_of_told h hq
      exact .inl ⟨f, hq, hf, hlt⟩
  | append_singleton tr' e ih =>
      rw [← List.append_assoc] at h ⊢
      obtain ⟨c₁, k, s', hr, -, hp, -⟩ := h.split
      have hstep := errandStep_next (allows_of_run hr hp) e.res
      rcases ih hr with ⟨f, htold, hf, hlt⟩ | ⟨span, hspan, hrequest⟩
      · rcases told_next h t with ⟨hu, path, ho⟩ | ⟨hu, q', reply, ho⟩ | ⟨hsame, hanswered⟩
        · obtain ⟨u, o, r, s⟩ := e
          obtain rfl : u = t := hu
          obtain rfl : o = _ := ho
          -- no FIFO is opened twice for a request
          obtain ⟨q', hx | hx, -⟩ := hstep.of_openFifo <;> rw [hx] at htold <;> cases htold
        · obtain ⟨u, o, r, s⟩ := e
          obtain rfl : u = t := hu
          obtain rfl : o = _ := ho
          obtain ⟨-, hx, -⟩ := hstep.of_managed
          have hsame : q' = q := by
            rcases hx with hx | hx <;> rw [hx] at htold <;> exact Option.some.inj htold
          subst hsame
          refine .inr ⟨_, span_of_managed, rfl, ?_⟩
          rwa [hf]
        · exact .inl ⟨f, hsame.trans htold, hanswered.trans hf, hlt⟩
      · exact .inr ⟨span, spansOf_append e hspan, hrequest⟩

/-- A finished request was taken at its beginning. -/
theorem takenAt_of_span (h : (server n W serverFifoFD shutdownFD).Run tr c) :
    ∀ span ∈ spansOf tr, TakenAt tr span.start span.job.request := by
  induction tr using List.reverseRecOn generalizing c with
  | nil =>
      intro span hspan
      cases hspan
  | append_singleton tr e ih =>
      intro span hspan
      obtain ⟨c₁, k, s', hr, -, hp, -⟩ := h.split
      have hstep := errandStep_next (allows_of_run hr hp) e.res
      rw [spansOf, timelineOf_append] at hspan
      rcases List.mem_append.mp hspan with hspan | hspan
      · exact (ih hr span hspan).append _
      · obtain ⟨t, o, r, s⟩ := e
        cases hjob : finishes ((timelineOf tr).history.hand t) o with
        | none =>
            rw [hjob] at hspan
            cases hspan
        | some job =>
            rw [hjob] at hspan
            obtain rfl := List.mem_singleton.mp hspan
            obtain ⟨q, reply, rfl, rfl⟩ := exists_of_finishes hjob
            obtain ⟨-, hx, -⟩ := hstep.of_managed
            have hrequest : (errandOf ⟨n, serverFifoFD, shutdownFD⟩ t tr).request = some q := by
              rcases hx with hx | hx <;> rw [hx] <;> rfl
            exact (takenAt_of_request hr hrequest).append _

/-- A finished job has the reply that the office had for its request. -/
theorem exists_managed_of_mem_jobsOf {job : Job} (h : job ∈ jobsOf tr) :
    ∃ e ∈ tr, ∃ reply, e.op = .ext (.mark (.managed job.request reply)) ∧
      job.reply = reply.withoutActiveOffices := by
  induction tr using List.reverseRecOn with
  | nil => cases h
  | append_singleton tr e ih =>
      rw [jobsOf, historyOf_append] at h
      rcases List.mem_append.mp h with h | h
      · obtain ⟨e', he', hmanaged⟩ := ih h
        exact ⟨e', List.mem_append_left _ he', hmanaged⟩
      · rw [Option.mem_toList] at h
        obtain ⟨q, reply, ho, rfl⟩ := exists_of_finishes h
        exact ⟨e, List.mem_append_right _ (.head _), reply, ho, rfl⟩

/-- The requests that are finished have been managed. -/
theorem map_request_jobsOf (tr : List (ServerEvent n W)) : (jobsOf tr).map Job.request = managed tr := by
  induction tr using List.reverseRecOn with
  | nil => rfl
  | append_singleton tr e ih =>
      have hjob : ∀ hand, (finishes hand e.op).toList.map Job.request = (managedBy e).toList := by
        intro hand
        obtain ⟨t, o, r, s⟩ := e
        cases o with
        | ext op =>
            cases op with
            | mark mark => cases mark <;> rfl
            | _ => rfl
        | _ => rfl
      rw [managed_append, ← ih, jobsOf, historyOf_append]
      show (((historyOf tr).jobs ++ _).map Job.request) = _
      rw [List.map_append, hjob]
      rfl

/-! ## When nothing is in hand -/

/-- The number of requests that an office has in hand. -/
def Errand.busy (x : Errand) : ℕ := if x.request.isSome then 1 else 0

/-- A request that was taken has been managed, or it is in the hand of an office. -/
theorem length_popped (h : (server n W serverFifoFD shutdownFD).Run tr c) :
    (popped tr).length = (managed tr).length
      + total Errand.busy fun t : Thread n => errandOf ⟨n, serverFifoFD, shutdownFD⟩ t tr := by
  induction tr using List.reverseRecOn generalizing c with
  | nil =>
      have hnone : (total Errand.busy fun t : Thread n =>
          errandOf ⟨n, serverFifoFD, shutdownFD⟩ t ([] : List (ServerEvent n W))) = 0 := by
        apply total_eq_zero
        intro t
        cases t <;> rfl
      exact (congrArg (0 + ·) hnone).symm
  | append_singleton tr e ih =>
      obtain ⟨c₁, k, s', hr, -, hp, -⟩ := h.split
      have ih := ih hr
      have hstep := errandStep_next (allows_of_run hr hp) e.res
      obtain ⟨t, o, r, s⟩ := e
      have herrands : (fun u => errandOf ⟨n, serverFifoFD, shutdownFD⟩ u (tr ++ [⟨t, o, r, s⟩]))
          = Function.update (fun u => errandOf ⟨n, serverFifoFD, shutdownFD⟩ u tr) t
            ((errandOf ⟨n, serverFifoFD, shutdownFD⟩ t tr).next o r) :=
        Monitor.after_append_eq_update (M := fun u : Thread n =>
          errands ⟨n, serverFifoFD, shutdownFD⟩ u.firstErrand)
      have htotal := total_update Errand.busy
        (fun t : Thread n => errandOf ⟨n, serverFifoFD, shutdownFD⟩ t tr) t
        ((errandOf ⟨n, serverFifoFD, shutdownFD⟩ t tr).next o r)
      rw [popped_append, managed_append, List.length_append, List.length_append, herrands]
      by_cases hpop : o = .ext .queuePop
      · subst hpop
        obtain ⟨hx, hx'⟩ := hstep.of_queuePop
        have hbefore : (errandOf ⟨n, serverFifoFD, shutdownFD⟩ t tr).busy = 0 := by
          rw [hx]
          rfl
        have hafter : ((errandOf ⟨n, serverFifoFD, shutdownFD⟩ t tr).next (.ext .queuePop) r).busy = 1 := by
          rw [hx']
          rfl
        rw [hbefore, hafter] at htotal
        show _ + 1 = _ + 0 + _
        omega
      · by_cases hmark : ∃ q reply, o = .ext (.mark (.managed q reply))
        · obtain ⟨q, reply, rfl⟩ := hmark
          obtain ⟨-, hx, hx'⟩ := hstep.of_managed
          have hbefore : (errandOf ⟨n, serverFifoFD, shutdownFD⟩ t tr).busy = 1 := by
            rcases hx with hx | hx <;> rw [hx] <;> rfl
          have hafter : ((errandOf ⟨n, serverFifoFD, shutdownFD⟩ t tr).next
              (.ext (.mark (.managed q reply))) r).busy = 0 := by
            rw [hx']
            rfl
          rw [hbefore, hafter] at htotal
          show _ + 0 = _ + 1 + _
          omega
        · have hsame := hstep.request_eq hpop fun q reply ho => hmark ⟨q, reply, ho⟩
          have hbusy : ((errandOf ⟨n, serverFifoFD, shutdownFD⟩ t tr).next o r).busy
              = (errandOf ⟨n, serverFifoFD, shutdownFD⟩ t tr).busy := by
            rw [Errand.busy, hsame, Errand.busy]
          rw [hbusy] at htotal
          have hnone : poppedBy (⟨t, o, r, s⟩ : ServerEvent n W) = none ∧
              managedBy (⟨t, o, r, s⟩ : ServerEvent n W) = none := by
            cases o with
            | ext op =>
                cases op with
                | queuePop => exact absurd rfl hpop
                | mark m =>
                    cases m with
                    | managed q reply => exact absurd ⟨q, reply, rfl⟩ hmark
                    | _ => exact ⟨rfl, rfl⟩
                | _ => exact ⟨rfl, rfl⟩
            | _ => exact ⟨rfl, rfl⟩
          rw [hnone.1, hnone.2]
          show _ + 0 = _ + 0 + _
          omega

/-- When as many requests have been managed as were taken, none is in hand. -/
theorem request_eq_none (h : (server n W serverFifoFD shutdownFD).Run tr c)
    (hdone : (managed tr).length = (popped tr).length) (t : Thread n) :
    (errandOf ⟨n, serverFifoFD, shutdownFD⟩ t tr).request = none := by
  have hle := le_total Errand.busy (fun t : Thread n => errandOf ⟨n, serverFifoFD, shutdownFD⟩ t tr) t
  have hcount := length_popped h
  cases hq : (errandOf ⟨n, serverFifoFD, shutdownFD⟩ t tr).request with
  | none => rfl
  | some q =>
      have hbusy : (errandOf ⟨n, serverFifoFD, shutdownFD⟩ t tr).busy = 1 := by
        rw [Errand.busy, hq]
        rfl
      omega

end Sope
