import Sope.Bank.Transitions

/-! # The invariants of the synchronisation

What the phases of all threads together say about the shared state.

* `QueueInv` — the semaphores count the requests in the queue and the free places in it, up to the
  threads that are between a semaphore operation and the push or pop that it stands for; the queue is
  what has been pushed and not yet popped.
* `DrainInv` — an office at work has its flag set, and the offices that the main thread has passed
  while it scans the flags of a drained server are at rest.
* `coordinationCertificate` — both hold in every run, with the ownership of the account locks. -/

namespace Sope

open Concurrency

variable {n : ℕ} {W : World (Thread n)}

/-! ## The request queue -/

/-- The invariant of the request queue, with the requests pushed and popped so far. -/
structure QueueInv (s : Shared W) (x : Thread n → Phase) (ins outs : List TlvRequest) : Prop where
  /-- The thread in the critical section of the queue holds `queueMutex`. -/
  mutex : ∀ t, s.queueMutex = some t ↔ (x t).holdsQueueMutex = true
  /-- `queueFullSem` counts the requests in the queue. -/
  full : s.queueFullSem + total Phase.awaitsPop x + total Phase.owesFull x = s.queue.size
  /-- `queueEmptySem` counts the free places. -/
  empty : s.queueEmptySem + s.queue.size + total Phase.owesEmpty x + total Phase.awaitsPush x
    = bufferSize
  /-- The array queue is well-formed. -/
  wf : s.queue.Wf
  /-- The array queue has never been resized. -/
  capacity : s.queue.capacity = bufferSize
  /-- The queue holds what has been pushed and not been popped, in order. -/
  fifo : ins = outs ++ s.queue.toList

namespace QueueInv

variable {s s' : Shared W} {x : Thread n → Phase} {ins outs : List TlvRequest} {t u : Thread n}
  {v : Phase}

/-- A thread that awaits a pop finds the queue not empty. -/
theorem size_pos (h : QueueInv s x ins outs) (ht : (x t).awaitsPop = 1) : 0 < s.queue.size := by
  have := le_total Phase.awaitsPop x t
  have := h.full
  omega

/-- A thread that awaits a push finds the queue not full. -/
theorem size_lt (h : QueueInv s x ins outs) (ht : (x t).awaitsPush = 1) :
    s.queue.size < s.queue.capacity := by
  have := le_total Phase.awaitsPush x t
  have := h.empty
  have := h.capacity
  omega

/-- A thread that holds `queueMutex` still does after a transition inside the critical section. -/
theorem mutex_keep (h : ∀ u, s.queueMutex = some u ↔ (x u).holdsQueueMutex = true)
    (hv : v.holdsQueueMutex = (x t).holdsQueueMutex) (u : Thread n) :
    s.queueMutex = some u ↔ (Function.update x t v u).holdsQueueMutex = true := by
  by_cases hu : u = t
  · subst hu
    rw [Function.update_self, hv]
    exact h u
  · rw [Function.update_of_ne hu]
    exact h u

/-- Taking `queueMutex`. -/
theorem mutex_lock (h : ∀ u, s.queueMutex = some u ↔ (x u).holdsQueueMutex = true)
    (hs : s.queueMutex = none) (hv : v.holdsQueueMutex = true) (u : Thread n) :
    some t = some u ↔ (Function.update x t v u).holdsQueueMutex = true := by
  by_cases hu : u = t
  · subst hu
    simp [hv]
  · have := (h u).not.mp (by simp [hs])
    simp [Function.update_of_ne hu, this, Ne.symm hu]

/-- Releasing `queueMutex`. -/
theorem mutex_unlock (h : ∀ u, s.queueMutex = some u ↔ (x u).holdsQueueMutex = true)
    (ht : (x t).holdsQueueMutex = true) (hv : v.holdsQueueMutex = false) (u : Thread n) :
    (none : Option (Thread n)) = some u ↔ (Function.update x t v u).holdsQueueMutex = true := by
  by_cases hu : u = t
  · subst hu
    simp [hv]
  · have hs := (h t).mpr ht
    have := (h u).not.mp (by simp [hs, Ne.symm hu])
    simp [Function.update_of_ne hu, this]

/-- The counts after a step of one thread, from the counts of that thread. -/
theorem update (h : QueueInv s x ins outs) {y : Phase} {ins' outs' : List TlvRequest} (hx : x t = y)
    (hmutex : ∀ u, s'.queueMutex = some u ↔ (Function.update x t v u).holdsQueueMutex = true)
    (hfull : s'.queueFullSem + v.awaitsPop + v.owesFull + s.queue.size
      = s.queueFullSem + y.awaitsPop + y.owesFull + s'.queue.size)
    (hempty : s'.queueEmptySem + s'.queue.size + v.owesEmpty + v.awaitsPush
      = s.queueEmptySem + s.queue.size + y.owesEmpty + y.awaitsPush)
    (hwf : s'.queue.Wf) (hcapacity : s'.queue.capacity = bufferSize)
    (hfifo : ins' = outs' ++ s'.queue.toList) :
    QueueInv s' (Function.update x t v) ins' outs' := by
  subst hx
  refine ⟨hmutex, ?_, ?_, hwf, hcapacity, hfifo⟩
  · have h₁ := total_update Phase.awaitsPop x t v
    have h₂ := total_update Phase.owesFull x t v
    have := h.full
    omega
  · have h₁ := total_update Phase.owesEmpty x t v
    have h₂ := total_update Phase.awaitsPush x t v
    have := h.empty
    omega

/-- **Every transition keeps the invariant of the queue.** -/
theorem step (h : QueueInv s x ins outs) {e : Ext} {r : e.Res}
    (ht : (x t).Transition n t.index e r v) (hs : e.Sem t s r s') :
    QueueInv s' (Function.update x t v) (ins ++ e.pushes.toList) (outs ++ (e.pops r).toList) := by
  -- the counts of the thread before and after its transition are numbers in each case
  generalize hx : x t = y at ht
  have hkeep : v.holdsQueueMutex = y.holdsQueueMutex →
      ∀ u, s.queueMutex = some u ↔ (Function.update x t v u).holdsQueueMutex = true :=
    fun hv => mutex_keep h.mutex (by rw [hv, hx])
  have hsame : ins ++ (none : Option TlvRequest).toList
      = (outs ++ (none : Option TlvRequest).toList) ++ s.queue.toList := by simpa using h.fifo
  cases ht with
  | enter =>
      obtain ⟨hpos, rfl⟩ := hs
      change 0 < s.queueFullSem at hpos
      refine h.update hx (hkeep rfl) ?_ rfl h.wf h.capacity hsame
      change s.queueFullSem - 1 + 1 + 0 + s.queue.size = s.queueFullSem + 0 + 0 + s.queue.size
      omega
  | permit =>
      obtain ⟨hpos, rfl⟩ := hs
      change 0 < s.queueEmptySem at hpos
      refine h.update hx (hkeep rfl) rfl ?_ h.wf h.capacity hsame
      change s.queueEmptySem - 1 + s.queue.size + 0 + 1 = s.queueEmptySem + s.queue.size + 0 + 0
      omega
  | manage request =>
      obtain rfl := hs
      refine h.update hx (hkeep rfl) rfl ?_ h.wf h.capacity hsame
      change s.queueEmptySem + 1 + s.queue.size + 0 + 0 = s.queueEmptySem + s.queue.size + 1 + 0
      omega
  | post =>
      obtain rfl := hs
      refine h.update hx (hkeep rfl) ?_ rfl h.wf h.capacity hsame
      change s.queueFullSem + 1 + 0 + 0 + s.queue.size = s.queueFullSem + 0 + 1 + s.queue.size
      omega
  | lock | lockPush | lockPoll =>
      obtain ⟨hfree, rfl⟩ := hs
      exact h.update hx (mutex_lock h.mutex hfree rfl) rfl rfl h.wf h.capacity hsame
  | unlock | unlockPush | unlockPoll | drain =>
      obtain rfl := hs
      exact h.update hx (mutex_unlock h.mutex (by rw [hx]; rfl) rfl) rfl rfl h.wf h.capacity hsame
  | push request =>
      obtain ⟨queue, hq, rfl⟩ := hs
      have hlt := h.size_lt (t := t) (by rw [hx]; rfl)
      rw [RequestQueue.push_of_not_full hlt] at hq
      obtain rfl := Option.some.inj hq
      refine h.update hx (hkeep rfl) ?_ ?_ (RequestQueue.wf_append h.wf hlt) h.capacity ?_
      · change s.queueFullSem + 0 + 1 + s.queue.size = s.queueFullSem + 0 + 0 + (s.queue.size + 1)
        omega
      · change s.queueEmptySem + (s.queue.size + 1) + 0 + 0 = s.queueEmptySem + s.queue.size + 0 + 1
        omega
      · change ins ++ [request] = (outs ++ []) ++ (queueAppend s.queue request).toList
        rw [RequestQueue.toList_append h.wf hlt, h.fifo]
        simp
  | pop request =>
      obtain ⟨rfl, rfl⟩ := hs
      have hpos := h.size_pos (t := t) (by rw [hx]; rfl)
      refine h.update hx (hkeep rfl) ?_ ?_ (RequestQueue.wf_pop h.wf hpos) h.capacity ?_
      · change s.queueFullSem + 0 + 0 + s.queue.size = s.queueFullSem + 1 + 0 + (s.queue.size - 1)
        omega
      · change s.queueEmptySem + (s.queue.size - 1) + 1 + 0 = s.queueEmptySem + s.queue.size + 0 + 0
        omega
      · change ins ++ [] = (outs ++ [queueFront s.queue]) ++ (queuePop s.queue).toList
        rw [h.fifo, RequestQueue.toList_pop h.wf hpos]
        simp
  | work r request he =>
      obtain ⟨hpushes, hpops, -⟩ := Ext.local_quiet he r
      obtain ⟨w, rfl⟩ := hs.of_local he
      rw [hpushes, hpops]
      exact h.update hx (hkeep rfl) rfl rfl h.wf h.capacity hsame
  | read r =>
      obtain ⟨w, -, rfl⟩ := hs
      exact h.update hx (hkeep rfl) rfl rfl h.wf h.capacity hsame
  | start | flag | clear | finish | cancelFirst | cancel =>
      obtain rfl := hs
      exact h.update hx (hkeep rfl) rfl rfl h.wf h.capacity hsame
  | poll | scan | rescan | join =>
      obtain ⟨-, rfl⟩ := hs
      exact h.update hx (hkeep rfl) rfl rfl h.wf h.capacity hsame

end QueueInv

/-! ## The shutdown -/

/-- The invariant of the flags and of the shutdown, with the requests popped and completely managed
so far. -/
structure DrainInv (s : Shared W) (x : Thread n → Phase) (outs done : List TlvRequest) : Prop where
  /-- The offices are in the phases of offices, the main thread in the others. -/
  role : ∀ t, (x t).isOffice = t.isOffice
  /-- What has been popped has been managed, or is in the hands of an office. -/
  inHand : ∀ request, outs.count request = done.count request + total (Phase.inHand request) x
  /-- An office at work has its flag set. -/
  flag : ∀ i : Fin n, (x (.office i)).isFlagged = true → s.activeOffices i ≠ 0
  /-- The queue stays empty once the main thread has found it so. -/
  drained : (x .main).isDrained = true → s.queue.size = 0
  /-- The offices seen with a cleared flag stay at rest. -/
  quiet : ∀ i : Fin n, i < (x .main).quietBelow n → (x (.office i)).isQuiet = true
  /-- An office is cancelled only after the wait for all offices. -/
  cancelled : ∀ i, s.cancelled i = true → x .main = .destroying

namespace DrainInv

variable {s s' : Shared W} {x : Thread n → Phase} {ins outs done : List TlvRequest} {t : Thread n}
  {v : Phase} {e : Ext} {r : e.Res}

/-- In a drained server, an office whose flag is cleared is at rest: it cannot be between its
`sem_wait` and the setting of the flag, as no request is left that it could have been admitted
for. -/
theorem isQuiet_of_flag (h : DrainInv s x outs done) (hq : QueueInv s x ins outs)
    (hd : (x .main).isDrained = true) {i : Fin n} (hi : s.activeOffices i = 0) :
    (x (.office i)).isQuiet = true := by
  have hrole : (x (.office i)).isOffice = true := h.role (.office i)
  have hflag : (x (.office i)).isFlagged = false :=
    Bool.eq_false_of_not_eq_true fun hf => h.flag i hf hi
  have hsize := h.drained hd
  have hadm : (x (.office i)).awaitsPop ≠ 1 := fun ha => by
    have := hq.size_pos ha
    omega
  revert hrole hflag hadm
  cases x (.office i) <;> simp [Phase.isOffice, Phase.isFlagged, Phase.awaitsPop, Phase.isQuiet]

/-- In a drained server, an office at rest stays there. -/
theorem isQuiet_step (h : DrainInv s x outs done) (hq : QueueInv s x ins outs)
    (hd : (x .main).isDrained = true) (ht : (x t).Transition n t.index e r v) (hs : e.Sem t s r s')
    (hx : (x t).isQuiet = true) : v.isQuiet = true := by
  refine (ht.isQuiet hx).resolve_right ?_
  rintro rfl
  have hpos : 0 < s.queueFullSem := hs.1
  have := h.drained hd
  have := hq.full
  omega

/-- A thread in a phase of the main thread is the main thread. -/
theorem eq_main (h : DrainInv s x outs done) (hx : (x t).isOffice = false) : t = .main := by
  cases t with
  | main => rfl
  | office i => exact absurd ((h.role (.office i)).symm.trans hx) (by simp [Thread.isOffice])

/-- The queue of a drained server stays empty. -/
theorem size_step (h : DrainInv s x outs done) (hq : QueueInv s x ins outs)
    (hd : (x .main).isDrained = true) (ht : (x t).Transition n t.index e r v)
    (hs : e.Sem t s r s') : s'.queue.size = 0 := by
  have hsize := h.drained hd
  obtain ⟨-, -, -, hqueue | rfl | ⟨request, rfl⟩⟩ := hs.frame
  · rw [hqueue]
    exact hsize
  · have hx := ht.of_queuePop.1
    have := hq.size_pos (t := t) (by rw [hx]; rfl)
    omega
  · have hx := ht.of_queuePush.1
    rw [← h.eq_main (t := t) (by rw [hx]; rfl), hx] at hd
    cases hd

/-- No office is cancelled before the wait for all offices is over. -/
theorem cancelled_step (h : DrainInv s x outs done) (ht : (x t).Transition n t.index e r v)
    (hs : e.Sem t s r s') {i : ℕ} (hi : s'.cancelled i = true) :
    Function.update x t v .main = .destroying := by
  obtain ⟨-, -, hcancelled | ⟨j, rfl⟩, -⟩ := hs.frame
  · rw [hcancelled] at hi
    have hd := h.cancelled i hi
    by_cases hu : t = .main
    · subst hu
      rw [hd] at ht
      rw [Function.update_self]
      exact ht.isFinished rfl
    · rw [Function.update_of_ne (Ne.symm hu), hd]
  · obtain ⟨hx, rfl⟩ := ht.of_pthreadCancel
    have hmain := h.eq_main (t := t)
      (by rcases Phase.isFinished_iff.mp hx with hx | hx <;> rw [hx] <;> rfl)
    rw [← hmain, Function.update_self]

/-- **Every transition keeps the invariant of the shutdown.** -/
theorem step (h : DrainInv s x outs done) (hq : QueueInv s x ins outs)
    (ht : (x t).Transition n t.index e r v) (hs : e.Sem t s r s') :
    DrainInv s' (Function.update x t v) (outs ++ (e.pops r).toList)
      (done ++ e.manages.toList) where
  role u := by
    by_cases hu : u = t
    · subst hu
      rw [Function.update_self, ht.isOffice, h.role]
    · rw [Function.update_of_ne hu, h.role]
  inHand request := by
    have h₁ := total_update (Phase.inHand request) x t v
    have h₂ := ht.inHand request
    have h₃ := h.inHand request
    rw [List.count_append, List.count_append]
    omega
  flag i hi := by
    by_cases hu : Thread.office i = t
    · subst hu
      rw [Function.update_self] at hi
      obtain ⟨-, hact | ⟨j, active, rfl⟩, -⟩ := hs.frame
      · rcases ht.isFlagged hi with hx | rfl
        · rw [hact]
          exact h.flag i hx
        · obtain rfl := hs
          simp [Thread.index]
      · obtain rfl := hs
        cases active with
        | true =>
            have hj : j = i := ht.index_eq.1
            simp [hj]
        | false =>
            rw [ht.index_eq.2 rfl] at hi
            cases hi
    · rw [Function.update_of_ne hu] at hi
      obtain ⟨-, hact | ⟨j, active, rfl⟩, -⟩ := hs.frame
      · rw [hact]
        exact h.flag i hi
      · have hne : (i : ℕ) ≠ j := fun hij => hu <| by
          have hindex := hij.trans ht.index_eq.1
          cases t with
          | main => exact absurd hindex (Nat.ne_of_lt i.isLt)
          | office k => rw [Fin.ext hindex]
        obtain rfl := hs
        simpa [Function.update_of_ne hne] using h.flag i hi
  drained hd := by
    by_cases hu : t = .main
    · subst hu
      rw [Function.update_self] at hd
      rcases ht.isDrained hd with hx | ⟨rfl, hr⟩
      · exact h.size_step hq hx ht hs
      · obtain ⟨hr', rfl⟩ := hs
        exact beq_iff_eq.mp (hr'.symm.trans (eq_of_heq hr))
    · rw [Function.update_of_ne (Ne.symm hu)] at hd
      exact h.size_step hq hd ht hs
  quiet i hi := by
    by_cases hu : t = .main
    · subst hu
      rw [Function.update_self] at hi
      rw [Function.update_of_ne (by simp)]
      rcases ht.quietBelow with hle | ⟨k, rfl, hr, hd, hk, hv⟩
      · exact h.quiet i (by omega)
      · obtain ⟨hr', rfl⟩ := hs
        by_cases hik : (i : ℕ) = k
        · refine h.isQuiet_of_flag hq hd ?_
          rw [hik]
          exact hr'.symm.trans (eq_of_heq hr)
        · exact h.quiet i (by omega)
    · rw [Function.update_of_ne (Ne.symm hu)] at hi
      have hx := h.quiet i hi
      by_cases hi' : Thread.office i = t
      · subst hi'
        rw [Function.update_self]
        exact h.isQuiet_step hq (Phase.isDrained_of_quietBelow (Nat.zero_lt_of_lt hi)) ht hs hx
      · rwa [Function.update_of_ne hi']
  cancelled i hi := h.cancelled_step ht hs hi

end DrainInv

/-! ## The certificate -/

/-- What the ghost values say about a running server. -/
structure Synchronised (tr : List (ServerEvent n W)) (s : ServerState n W)
    (g : Thread n → Hold UInt32 Slot × Phase) : Prop where
  /-- The threads hold the account locks they think they hold. -/
  hold : HoldInv .trivial s fun t => (g t).1
  /-- The ghost phases are those that the run shows. -/
  phase : ∀ t, (g t).2 = phaseOf tr t
  /-- Outside `manageRequest` no account is locked. -/
  unlocked : ∀ t, (phaseOf tr t).isManaging = false → (g t).1.held = ∅
  /-- The invariant of the queue. -/
  queue : QueueInv s.rest (phaseOf tr) (pushed tr) (popped tr)
  /-- The invariant of the shutdown. -/
  drain : DrainInv s.rest (phaseOf tr) (popped tr) (managed tr)

/-- The invariant of the server: what holds while the process runs, and what remains true of the run
when it has ended. -/
structure CoordInv (tr : List (ServerEvent n W)) (s : ServerState n W)
    (g : Thread n → Hold UInt32 Slot × Phase) : Prop where
  /-- What has been popped is a beginning of what has been pushed. -/
  fifo : popped tr <+: pushed tr
  /-- What holds while the process runs. -/
  running : s.rest.alive = true → Synchronised tr s g
  /-- After `waitForRequestFinish` nothing ends the process. -/
  finished : (g .main).2.isFinished n = true ∨ (phaseOf tr .main).isFinished n = true →
    s.rest.alive = true

section Steps

variable {tr : List (ServerEvent n W)} {s s' : ServerState n W}
  {g : Thread n → Hold UInt32 Slot × Phase} {t : Thread n}

/-- The invariant holds initially. -/
theorem CoordInv.init (h : ServerInit s) :
    CoordInv [] s fun t => (Hold.empty s.cells, t.firstPhase) where
  fifo := List.prefix_refl _
  running _ :=
    { hold := HoldInv.of_free (fun _ => trivial) h.owner
      phase := fun _ => rfl
      unlocked := fun _ _ => rfl
      queue :=
        { mutex := fun t => by cases t <;> simp [h.queueMutex, Thread.firstPhase, Phase.holdsQueueMutex]
          full := by
            rw [h.queueFullSem, h.queue, total_eq_zero fun t => by cases t <;> rfl,
              total_eq_zero fun t => by cases t <;> rfl]
            rfl
          empty := by
            rw [h.queueEmptySem, h.queue, total_eq_zero fun t => by cases t <;> rfl,
              total_eq_zero fun t => by cases t <;> rfl]
            rfl
          wf := by
            rw [h.queue]
            exact RequestQueue.wf_create (by decide)
          capacity := by
            rw [h.queue]
            rfl
          fifo := by
            rw [h.queue]
            rfl }
      drain :=
        { role := fun t => by cases t <;> rfl
          inHand := fun request => by
            rw [phaseOf_nil, total_eq_zero fun t => by cases t <;> rfl]
            rfl
          flag := fun i hi => by cases hi
          drained := fun hd => by cases hd
          quiet := fun i hi => absurd hi (Nat.not_lt_zero _)
          cancelled := fun i hi => by
            rw [h.cancelled i] at hi
            cases hi } }
  finished hf := by rcases hf with hf | hf <;> cases hf

/-- A change of the parts of the state that no invariant mentions. -/
theorem Synchronised.congr (h : Synchronised tr s g) {world : W.State} {terminated : ℕ → Bool} :
    Synchronised tr { s with rest := { s.rest with world, terminated } } g where
  hold := h.hold.congr_rest rfl rfl
  phase := h.phase
  unlocked := h.unlocked
  queue := ⟨h.queue.mutex, h.queue.full, h.queue.empty, h.queue.wf, h.queue.capacity, h.queue.fifo⟩
  drain := ⟨h.drain.role, h.drain.inHand, h.drain.flag, h.drain.drained, h.drain.quiet,
    h.drain.cancelled⟩

/-- When the main thread has finished waiting, every office is at rest. -/
theorem Synchronised.quiet_of_finished (h : Synchronised tr s g)
    (hf : (phaseOf tr .main).isFinished n = true) (i : Fin n) :
    (phaseOf tr (.office i)).isQuiet = true := by
  refine h.drain.quiet i ?_
  rcases Phase.isFinished_iff.mp hf with hx | hx <;> rw [hx] <;> exact i.isLt

/-- An access to the accounts or to a lock shows nothing of the queue in a run. -/
theorem append_of_not_ext (tr : List (ServerEvent n W)) {e : ServerEvent n W}
    (he : ∀ op, e.op ≠ .ext op) :
    phaseOf (tr ++ [e]) = phaseOf tr ∧ pushed (tr ++ [e]) = pushed tr ∧
      popped (tr ++ [e]) = popped tr ∧ managed (tr ++ [e]) = managed tr := by
  rw [phaseOf_append, pushed_append, popped_append, managed_append]
  obtain ⟨t, op, r, s⟩ := e
  cases op with
  | ext op => exact absurd rfl (he op)
  | _ => exact ⟨rfl, List.append_nil _, List.append_nil _, List.append_nil _⟩

/-- **An operation performed as its rule asks keeps the invariant.** -/
theorem CoordInv.exec (h : CoordInv tr s g) {o : ServerOp} {r : ServerRes o}
    {Φ : ServerRes o → Hold UInt32 Slot × Phase → Prop} (hr : (coord t).rule (g t) o Φ)
    (hs : Locked.sem table (fun s => s.alive = true) Ext.Sem t o s r s') :
    ∃ g', Φ r g' ∧ CoordInv (tr ++ [⟨t, o, r, s⟩]) s' (Function.update g t g') := by
  have hrun := h.running (Locked.sem_live hs)
  obtain ⟨b', hrule, hhold⟩ := hrun.hold.extra hr hs
  -- an operation on the queue moves the phase; an access to the accounts does not
  by_cases ho : ∃ e, o = .ext e
  · obtain ⟨e, rfl⟩ := ho
    obtain ⟨x', hnext, hunlocked, hΦ⟩ := hrule
    obtain ⟨halive, rest, hsem, rfl⟩ := hs
    rw [hrun.phase t] at hnext
    have htr := Phase.Transition.of_next hnext
    have hphase : phaseOf (tr ++ [⟨t, .ext e, r, s⟩]) = Function.update (phaseOf tr) t x' := by
      rw [phaseOf_append]
      change Function.update _ t (Option.getD _ _) = _
      rw [hnext, Option.getD_some]
    have hqueue := hrun.queue.step htr hsem
    have hdrain := hrun.drain.step hrun.queue htr hsem
    rw [← hphase] at hqueue hdrain
    refine ⟨(b', x'), hΦ, ?_, fun _ => ⟨hhold x', fun u => ?_, fun u hu => ?_, ?_, ?_⟩, fun _ => ?_⟩
    · rw [pushed_append, popped_append]
      exact ⟨_, hqueue.fifo.symm⟩
    · rw [hphase]
      by_cases hut : u = t
      · subst hut
        simp
      · simpa [Function.update_of_ne hut] using hrun.phase u
    · rw [hphase] at hu
      by_cases hut : u = t
      · subst hut
        rw [Function.update_self] at hu ⊢
        exact hunlocked hu
      · rw [Function.update_of_ne hut] at hu ⊢
        exact hrun.unlocked u hu
    · rw [pushed_append, popped_append]
      exact hqueue
    · rw [popped_append, managed_append]
      exact hdrain
    · exact hsem.frame.1.trans halive
  · obtain ⟨hphase, hpushed, hpopped, hmanaged⟩ :=
      append_of_not_ext tr (e := ⟨t, o, r, s⟩) fun e he => ho ⟨e, he⟩
    have hΦ : Φ r (b', (g t).2) := by
      cases o with
      | ext e => exact absurd ⟨e, rfl⟩ ho
      | _ => exact hrule
    -- accounts are touched only inside `manageRequest`
    have hmanaging : (phaseOf tr t).isManaging = true := by
      rw [← hrun.phase t]
      cases o with
      | ext e => exact absurd ⟨e, rfl⟩ ho
      | lock i => exact hr.1.1
      | _ => exact hr.1
    have hrest : s'.rest = s.rest := by
      cases o with
      | ext e => exact absurd ⟨e, rfl⟩ ho
      | access a =>
          obtain ⟨-, -, rfl⟩ := hs
          rfl
      | lock i =>
          obtain ⟨-, -, rfl⟩ := hs
          rfl
      | unlock i =>
          obtain ⟨-, rfl⟩ := hs
          rfl
    refine ⟨(b', (g t).2), hΦ, ?_, fun _ => ⟨hhold _, fun u => ?_, fun u hu => ?_, ?_, ?_⟩,
      fun _ => ?_⟩
    · rw [hpushed, hpopped]
      exact h.fifo
    · rw [hphase]
      by_cases hut : u = t
      · subst hut
        simpa using hrun.phase u
      · simpa [Function.update_of_ne hut] using hrun.phase u
    · rw [hphase] at hu
      by_cases hut : u = t
      · subst hut
        rw [hmanaging] at hu
        cases hu
      · rw [Function.update_of_ne hut]
        exact hrun.unlocked u hu
    · rw [hrest, hphase, hpushed, hpopped]
      exact hrun.queue
    · rw [hrest, hphase, hpopped, hmanaged]
      exact hrun.drain
    · rw [hrest]
      exact Locked.sem_live hs

/-- **The end of the process, and the end of an office, keep the invariant.** -/
theorem CoordInv.divert (h : CoordInv tr s g) {o : ServerOp} {x : Ctl}
    {Φ : ServerRes o → Hold UInt32 Slot × Phase → Prop} (hr : (coord t).rule (g t) o Φ)
    (hd : serverDivert t o s x s') :
    ∃ g', between t x g' ∧ CoordInv tr s' (Function.update g t g') := by
  cases o with
  | ext e =>
      obtain ⟨halive, rfl, ⟨rest, hends, rfl⟩ | ⟨i, rfl, hcancel, -, rfl⟩⟩ := hd
      · have hrun := h.running halive
        have hmay : (phaseOf tr t).mayEnd = true := by
          rw [← hrun.phase t]
          refine hr.1 ?_
          cases e <;> first | rfl | exact hends.elim
        refine ⟨(Hold.empty s.cells, .idle), ⟨rfl, ?_⟩, h.fifo, (by simp), fun hf => ?_⟩
        · cases t <;> rfl
        · -- after the wait every office is at rest, and the main thread calls the system no more
          exfalso
          have hfin : (phaseOf tr .main).isFinished n = true := by
            rcases hf with hf | hf
            · by_cases ht : t = .main
              · subst ht
                simp [Phase.isFinished] at hf
              · rwa [Function.update_of_ne (Ne.symm ht), hrun.phase] at hf
            · exact hf
          cases t with
          | main =>
              revert hmay hfin
              cases phaseOf tr .main <;> simp [Phase.mayEnd, Phase.isFinished]
          | office i =>
              have hquiet := hrun.quiet_of_finished hfin i
              revert hmay hquiet
              cases phaseOf tr (.office i) <;> simp [Phase.mayEnd, Phase.isQuiet]
      -- a cancelled office is at rest, so it holds neither a lock nor a request
      · have hrun := h.running halive
        have hmain := hrun.drain.cancelled i hcancel
        have hquiet := hrun.quiet_of_finished (by rw [hmain]; rfl) i
        have hmanaging : (phaseOf tr (.office i)).isManaging = false := by
          revert hquiet
          cases phaseOf tr (.office i) <;> simp [Phase.isQuiet, Phase.isManaging]
        refine ⟨g (.office i), ⟨hrun.unlocked _ hmanaging, ?_⟩, ?_⟩
        · change (g (.office i)).2.isManaging = false
          rw [hrun.phase]
          exact hmanaging
        · rw [Function.update_eq_self]
          exact ⟨h.fifo, fun _ => hrun.congr, fun _ => halive⟩
  | _ => exact hd.elim

end Steps

/-- The certificate of the synchronisation. -/
def coordinationCertificate (serverFifoFD shutdownFD : Int) :
    Certificate (server n W serverFifoFD shutdownFD) (coord (n := n)) where
  assumes _ := True
  assumes_append := id
  inv tr c g := CoordInv tr c.shared g
  post := between
  init h := by
    refine ⟨_, CoordInv.init h.1, fun t => ?_⟩
    cases t <;> exact ⟨rfl, rfl⟩
  exec _ _ h _ hr hs := h.exec hr hs
  loop {tr c g t x} h _ hpost := by
    refine ⟨g t, ?_, by rwa [Function.update_eq_self]⟩
    cases t with
    | main => exact wp_mainBody rfl hpost
    | office i => exact wp_officeBody hpost
  divert h _ hr hd := h.divert hr hd
  env h he := by
    obtain ⟨w, -, rfl⟩ := he
    exact ⟨h.fifo, fun halive => (h.running halive).congr, h.finished⟩

section Runs

variable {serverFifoFD shutdownFD : Int} {tr : List (ServerEvent n W)} {s : ServerState n W}
  {c : Config (Thread n) ServerOp ServerRes (ServerState n W) Ctl}
  {g : Thread n → Hold UInt32 Slot × Phase} {t : Thread n}

/-- In a state that a run reaches, the threads are synchronised, and each of them is about to perform
an operation that the rules allow, or between two programs. -/
theorem synchronised_of_run (h : (server n W serverFifoFD shutdownFD).Run tr c)
    (halive : c.shared.rest.alive = true) :
    ∃ g, Synchronised tr c.shared g ∧
      (∀ t o k, c.prog t = .op o k → (coord t).rule (g t) o fun _ _ => True) ∧
      ∀ t ctl, c.prog t = .ret ctl → between t ctl (g t) := by
  obtain ⟨g, hg⟩ := (coordinationCertificate serverFifoFD shutdownFD).run h ⟨⟩
  have hinv : CoordInv tr c.shared g := hg.1
  exact ⟨g, hinv.running halive, fun t o k hp =>
    (coord t).mono (fun _ _ _ => trivial) (hg.rule hp), fun t ctl hp => hg.ret hp⟩

/-- What has been popped in a run is a beginning of what has been pushed. -/
theorem popped_isPrefix (h : (server n W serverFifoFD shutdownFD).Run tr c) :
    popped tr <+: pushed tr := by
  obtain ⟨g, hg⟩ := (coordinationCertificate serverFifoFD shutdownFD).run h ⟨⟩
  have hinv : CoordInv tr c.shared g := hg.1
  exact hinv.fifo

/-- Every operation of a run was performed by synchronised threads, as the rules ask. -/
theorem synchronised_of_mem (h : (server n W serverFifoFD shutdownFD).Run tr c)
    {e : ServerEvent n W} (he : e ∈ tr) :
    ∃ tr₁ g, Synchronised tr₁ e.pre g ∧ (coord e.tid).rule (g e.tid) e.op fun _ _ => True := by
  obtain ⟨tr₁, c₁, k, s', hr, hpre, hp, hsem⟩ := h.mem he
  have hsem : Locked.sem table (fun s => s.alive = true) Ext.Sem e.tid e.op e.pre e.res s' := hsem
  have halive : c₁.shared.rest.alive = true := by
    rw [hpre]
    exact Locked.sem_live hsem
  obtain ⟨g, hg, hrule, -⟩ := synchronised_of_run hr halive
  exact ⟨tr₁, g, hpre ▸ hg, hrule _ _ _ hp⟩

/-- The transition of a thread that performs an operation as the rules ask. -/
theorem Synchronised.transition (h : Synchronised tr s g) {e : Ext}
    {Φ : e.Res → Hold UInt32 Slot × Phase → Prop} (hr : (coord t).rule (g t) (.ext e) Φ)
    (r : e.Res) :
    ∃ x', (phaseOf tr t).Transition n t.index e r x' ∧ (x'.isManaging = false → (g t).1.held = ∅) := by
  obtain ⟨x', hnext, hunlocked, -⟩ := hr.2 r
  rw [h.phase] at hnext
  exact ⟨x', .of_next hnext, hunlocked⟩

end Runs

end Sope
