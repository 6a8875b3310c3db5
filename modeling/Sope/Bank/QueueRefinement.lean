import Mathlib.Data.Int.ModEq
import Sope.Bank.Queue

/-! # The request queue is a list

`queue.c` with every access to the array checked against its capacity, and sequences of operations
on a queue (`runOps checkedOp`) and on a list (`runOps listOp`). From `queue_create` on, with any
capacity but 0, both have the same outcome: the same results, the same elements left, and no access
outside the array, no matter how often the queue wraps around or is resized on the way. -/

namespace Sope

variable {α : Type}

/-! ## The operations, with checks -/

/-- What can go wrong with an operation on a queue. -/
inductive QueueFault
  /-- `queue_pop` or `queue_front` of a queue of which `queue_empty` says that it is empty. -/
  | emptyQueue
  /-- An access outside the array. -/
  | outOfBounds
  /-- More nested calls of `queue_push` than are allowed. -/
  | tooDeep
  deriving DecidableEq

/-- `queue_front`, with a check of the access. -/
def checkedFront (queue : RequestQueue α) : Except QueueFault α :=
  if queue.front < queue.capacity then .ok (queueFront queue) else .error .outOfBounds

/-- `queue_pop`, with a check of the access: the element and the queue that is left. -/
def checkedPop (queue : RequestQueue α) : Except QueueFault (α × RequestQueue α) :=
  (checkedFront queue).map fun item => (item, queuePop queue)

/-- `queue_push` after its test for a full queue, with a check of the access. -/
def checkedAppend (queue : RequestQueue α) (item : α) : Except QueueFault (RequestQueue α) :=
  if (queueAppend queue item).rear < queue.capacity then .ok (queueAppend queue item)
  else .error .outOfBounds

/-- The loop of `queue_resize`, with checks. -/
def checkedMove (push : RequestQueue α → α → Except QueueFault (RequestQueue α)) :
    ℕ → RequestQueue α → RequestQueue α → Except QueueFault (RequestQueue α)
  | 0, _, new => .ok new
  | n + 1, old, new => do
      let (item, old) ← checkedPop old
      let new ← push new item
      checkedMove push n old new

/-- `queue_push`, with checks and at most `depth` nested calls of itself. -/
def checkedPush [Inhabited α] : ℕ → RequestQueue α → α → Except QueueFault (RequestQueue α)
  | 0, _, _ => .error .tooDeep
  | depth + 1, queue, item => do
      let queue ←
        if queueFull queue then
          checkedMove (checkedPush depth) queue.size queue (queueCreate (queue.capacity * 2))
        else .ok queue
      checkedAppend queue item

/-! ## Sequences of operations -/

/-- A call of one of the three operations. -/
inductive QueueOp (α : Type)
  | push (item : α)
  | pop
  | front

/-- A call on a queue: what it returns, if anything, and the queue that it leaves. -/
def checkedOp [Inhabited α] (depth : ℕ) :
    QueueOp α → RequestQueue α → Except QueueFault (List α × RequestQueue α)
  | .push item, queue => (checkedPush depth queue item).map fun queue => ([], queue)
  | .pop, queue =>
      if queueEmpty queue then .error .emptyQueue
      else (checkedPop queue).map fun (item, queue) => ([item], queue)
  | .front, queue =>
      if queueEmpty queue then .error .emptyQueue
      else (checkedFront queue).map fun item => ([item], queue)

/-- The call on a list: append at the back, take from the front. -/
def listOp : QueueOp α → List α → Except QueueFault (List α × List α)
  | .push item, items => .ok ([], items ++ [item])
  | .pop, [] => .error .emptyQueue
  | .pop, item :: items => .ok ([item], items)
  | .front, [] => .error .emptyQueue
  | .front, item :: items => .ok ([item], item :: items)

/-- A sequence of operations: all that they return, and the state that they leave. -/
def runOps {O R σ F : Type} (step : O → σ → Except F (List R × σ)) :
    List O → σ → Except F (List R × σ)
  | [], s => .ok ([], s)
  | op :: ops, s => do
      let (results, s) ← step op s
      let (results', s) ← runOps step ops s
      return (results ++ results', s)

/-- **Refinement of sequences.** If every operation keeps an invariant and has the outcome that the
abstract operation has on the abstract state, so has every sequence of operations. -/
theorem runOps_refines {O R σ τ F : Type} {step : O → σ → Except F (List R × σ)}
    {step' : O → τ → Except F (List R × τ)} {I : σ → Prop} {abs : σ → τ}
    (h : ∀ op s, I s → (step op s).map (Prod.map id abs) = step' op (abs s) ∧
      ∀ r s', step op s = .ok (r, s') → I s') (ops : List O) {s : σ} (hs : I s) :
    (runOps step ops s).map (Prod.map id abs) = runOps step' ops (abs s) ∧
      ∀ r s', runOps step ops s = .ok (r, s') → I s' := by
  induction ops generalizing s with
  | nil =>
      refine ⟨rfl, fun r s' he => ?_⟩
      cases he
      exact hs
  | cons op ops ih =>
      obtain ⟨hstep, hkeep⟩ := h op s hs
      rw [runOps, runOps, ← hstep]
      cases hr : step op s with
      | error f => exact ⟨rfl, fun r s' (he : Except.error f = Except.ok (r, s')) => nomatch he⟩
      | ok p =>
          obtain ⟨r, s₁⟩ := p
          obtain ⟨hrun, hkeep'⟩ := ih (hkeep r s₁ hr)
          change (runOps step ops s₁ >>= _ : Except F _).map _ = (runOps step' ops (abs s₁) >>= _) ∧
            ∀ r' s', (runOps step ops s₁ >>= _ : Except F _) = .ok (r', s') → I s'
          rw [← hrun]
          cases hr' : runOps step ops s₁ with
          | error f => exact ⟨rfl, fun r' s' (he : Except.error f = Except.ok (r', s')) => nomatch he⟩
          | ok p' =>
              refine ⟨rfl, fun r' s' he => ?_⟩
              cases he
              exact hkeep' _ _ hr'

/-! ## Correctness of each operation -/

namespace RequestQueue

variable {queue : RequestQueue α}

/-- The front of a well-formed queue is inside the array. -/
theorem Wf.checkedFront (h : queue.Wf) : checkedFront queue = .ok (queueFront queue) :=
  if_pos h.front_lt

/-- So is the element that a pop takes. -/
theorem Wf.checkedPop (h : queue.Wf) : checkedPop queue = .ok (queueFront queue, queuePop queue) := by
  rw [Sope.checkedPop, h.checkedFront]
  rfl

/-- So is the cell that a push onto a queue that is not full writes. -/
theorem Wf.checkedAppend (h : queue.Wf) (item : α) :
    checkedAppend queue item = .ok (queueAppend queue item) := by
  refine if_pos ?_
  rw [rear_append h item]
  exact Nat.mod_lt _ (Nat.zero_lt_of_lt h.front_lt)

/-- A push onto a queue that is not full. -/
theorem Wf.checkedPush_of_not_full [Inhabited α] (h : queue.Wf) (hs : queue.size < queue.capacity)
    (depth : ℕ) (item : α) : checkedPush (depth + 1) queue item = .ok (queueAppend queue item) := by
  have hfull : queueFull queue = false := by
    rw [queueFull, beq_eq_false_iff_ne]
    omega
  rw [checkedPush, hfull]
  exact h.checkedAppend item

/-- **The loop of `queue_resize`.** Emptying a queue into another one with enough room appends its
elements there, in their order; none of the pushes resizes again. -/
theorem Wf.checkedMove [Inhabited α] (depth n : ℕ) {old new : RequestQueue α} (hold : old.Wf)
    (hnew : new.Wf) (hsize : old.size = n) (hroom : new.size + n ≤ new.capacity) :
    ∃ moved, Sope.checkedMove (checkedPush (depth + 1)) n old new = .ok moved ∧
      queueMove (queuePush (depth + 1)) n old new = some moved ∧ moved.Wf ∧
      moved.capacity = new.capacity ∧ moved.toList = new.toList ++ old.toList := by
  induction n generalizing old new with
  | zero =>
      refine ⟨new, rfl, rfl, hnew, rfl, ?_⟩
      have : old.toList = [] := List.eq_nil_of_length_eq_zero (by rw [length_toList, hsize])
      rw [this, List.append_nil]
  | succ n ih =>
      have hpos : 0 < old.size := by omega
      have hlt : new.size < new.capacity := by omega
      have hroom' : (queueAppend new (queueFront old)).size + n
          ≤ (queueAppend new (queueFront old)).capacity := by
        change new.size + 1 + n ≤ new.capacity
        omega
      have hnew' : (queueAppend new (queueFront old)).Wf := wf_append hnew hlt
      obtain ⟨moved, hchecked, hmove, hwf, hcapacity, hlist⟩ :=
        ih (wf_pop hold hpos) hnew' (show old.size - 1 = n by omega) hroom'
      refine ⟨moved, ?_, ?_, hwf, hcapacity, ?_⟩
      · rw [Sope.checkedMove, hold.checkedPop]
        change (checkedPush (depth + 1) new (queueFront old) >>= _ : Except _ _) = _
        rw [hnew.checkedPush_of_not_full hlt]
        exact hchecked
      · rw [queueMove, push_of_not_full hlt]
        exact hmove
      · rw [hlist, toList_append hnew hlt, toList_pop hold hpos, List.append_assoc]
        rfl

/-- **`queue_push` appends**, whether it has to resize the queue or not, and no access is outside the
array. Two nested calls are enough. -/
theorem Wf.checkedPush [Inhabited α] (h : queue.Wf) (depth : ℕ) (item : α) :
    ∃ queue', Sope.checkedPush (depth + 2) queue item = .ok queue' ∧
      queuePush (depth + 2) queue item = some queue' ∧ queue'.Wf ∧
      queue'.toList = queue.toList ++ [item] := by
  by_cases hs : queue.size < queue.capacity
  · exact ⟨_, h.checkedPush_of_not_full hs _ item, push_of_not_full hs, wf_append h hs,
      toList_append h hs⟩
  · have hfull : queueFull queue = true := by
      have := h.size_le
      rw [queueFull, beq_iff_eq]
      omega
    have hpos : 0 < queue.capacity := Nat.zero_lt_of_lt h.front_lt
    have hle := h.size_le
    have hnew : (queueCreate (queue.capacity * 2) : RequestQueue α).Wf := wf_create (by omega)
    obtain ⟨moved, hchecked, hmove, hwf, hcapacity, hlist⟩ :=
      h.checkedMove depth queue.size hnew rfl (show 0 + queue.size ≤ queue.capacity * 2 by omega)
    have hroom : moved.size < moved.capacity := by
      rw [← length_toList, hlist, hcapacity, toList_create, List.nil_append, length_toList]
      change queue.size < queue.capacity * 2
      omega
    refine ⟨queueAppend moved item, ?_, ?_, wf_append hwf hroom, ?_⟩
    · rw [Sope.checkedPush, if_pos hfull, hchecked]
      exact hwf.checkedAppend item
    · rw [queuePush, if_pos hfull, hmove]
      rfl
    · rw [toList_append hwf hroom, hlist]
      rfl

/-- A well-formed queue of which `queue_empty` says that it is empty. -/
theorem toList_of_empty (h : queueEmpty queue = true) : queue.toList = [] := by
  refine List.eq_nil_of_length_eq_zero ?_
  rw [length_toList]
  exact beq_iff_eq.mp h

/-- **Every operation on a well-formed queue has the outcome that it has on the list of its elements**,
and leaves a well-formed queue. -/
theorem Wf.checkedOp [Inhabited α] (depth : ℕ) (op : QueueOp α) (queue : RequestQueue α)
    (h : queue.Wf) :
    (checkedOp (depth + 2) op queue).map (Prod.map id toList) = listOp op queue.toList ∧
      ∀ results queue', Sope.checkedOp (depth + 2) op queue = .ok (results, queue') → queue'.Wf := by
  cases op with
  | push item =>
      obtain ⟨queue', hpush, -, hwf, hlist⟩ := h.checkedPush depth item
      rw [Sope.checkedOp, hpush]
      refine ⟨?_, fun results queue'' he => ?_⟩
      · exact congrArg (fun items => Except.ok ([], items)) hlist
      · cases he
        exact hwf
  | pop =>
      -- on an empty queue the assertion fails, and so does the operation on the list
      cases he : queueEmpty queue with
      | true =>
          rw [Sope.checkedOp, he, toList_of_empty he]
          exact ⟨rfl, fun _ _ h' => nomatch h'⟩
      | false =>
          have hpos : 0 < queue.size := Nat.pos_of_ne_zero (beq_eq_false_iff_ne.mp he)
          rw [Sope.checkedOp, he, h.checkedPop, toList_pop h hpos]
          refine ⟨rfl, fun results queue' h' => ?_⟩
          cases h'
          exact wf_pop h hpos
  | front =>
      cases he : queueEmpty queue with
      | true =>
          rw [Sope.checkedOp, he, toList_of_empty he]
          exact ⟨rfl, fun _ _ h' => nomatch h'⟩
      | false =>
          have hpos : 0 < queue.size := Nat.pos_of_ne_zero (beq_eq_false_iff_ne.mp he)
          rw [Sope.checkedOp, he, h.checkedFront]
          refine ⟨?_, fun results queue' h' => ?_⟩
          · have hlist := toList_pop h hpos
            change Except.ok ([queueFront queue], queue.toList) = _
            rw [hlist]
            rfl
          · cases h'
            exact h

/-- The representation invariant as `queue.c` would state it, in the integers. -/
theorem Wf.rear_eq_emod (h : queue.Wf) :
    (queue.rear : ℤ) = ((queue.front : ℤ) + queue.size - 1) % queue.capacity := by
  have hlt := h.front_lt
  rw [h.rear_eq, Int.natCast_mod, Nat.cast_sub (by omega), Nat.cast_add, Nat.cast_add, Nat.cast_one,
    show (queue.front : ℤ) + queue.size + queue.capacity - 1
      = queue.front + queue.size - 1 + queue.capacity by omega, Int.add_emod_right]

end RequestQueue

/-! ## Any sequence of operations -/

/-- **The request queue is a FIFO list at every capacity.** From `queue_create` on, every sequence of
operations has the outcome that it has on a list: it fails where it pops from an empty queue and
nowhere else, so no access is outside the array and no push nests its calls more than twice; it
returns the same elements; and the queue that it leaves is well-formed and holds the same elements. -/
theorem queue_refines_list [Inhabited α] {capacity : ℕ} (hc : 1 ≤ capacity) (depth : ℕ)
    (ops : List (QueueOp α)) :
    (runOps (checkedOp (depth + 2)) ops (queueCreate capacity)).map
        (Prod.map id RequestQueue.toList) = runOps listOp ops [] ∧
      ∀ results queue,
        runOps (checkedOp (depth + 2)) ops (queueCreate capacity) = .ok (results, queue) →
        queue.front < queue.capacity ∧ queue.size ≤ queue.capacity ∧
          (queue.rear : ℤ) = ((queue.front : ℤ) + queue.size - 1) % queue.capacity := by
  obtain ⟨hrun, hkeep⟩ := runOps_refines (RequestQueue.Wf.checkedOp (α := α) depth) ops
    (RequestQueue.wf_create (α := α) hc)
  refine ⟨hrun, fun results queue he => ?_⟩
  have hwf := hkeep results queue he
  exact ⟨hwf.front_lt, hwf.size_le, hwf.rear_eq_emod⟩

/-- A queue of capacity 1 that wraps around and is resized twice. -/
theorem queue_refines_list_resized :
    1 ≤ 1 ∧ (runOps (checkedOp 2) [.push 1, .push 2, .pop, .push 3, .push 4, .front, .pop, .pop]
        (queueCreate 1 : RequestQueue ℕ)).map (Prod.map id RequestQueue.toList)
      = .ok ([1, 2, 2, 3], [4]) :=
  ⟨le_rfl, (queue_refines_list (α := ℕ) le_rfl 0
    [.push 1, .push 2, .pop, .push 3, .push 4, .front, .pop, .pop]).1⟩

end Sope
