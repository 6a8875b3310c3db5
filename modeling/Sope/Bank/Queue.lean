import Mathlib.Algebra.Order.Group.Nat
import Mathlib.Data.Nat.ModEq
import Mathlib.Logic.Function.Basic
import Mathlib.Tactic.Common

/-! # The request queue

The array queue of `queue.c`. The queue never looks at its elements, so their type is a parameter;
freshly allocated memory is taken to hold `default`. `queue_push` and `queue_resize` call each other,
and `queuePush` carries the number of nested calls that are still allowed.

A well-formed queue (`RequestQueue.Wf`) stands for the list of its elements
(`RequestQueue.toList`): pushing appends to it and popping takes its head. -/

namespace Sope

variable {α : Type}

/-- `RequestQueue`. -/
structure RequestQueue (α : Type) where
  /-- Where the oldest element is. -/
  front : ℕ
  /-- Where the newest element is. -/
  rear : ℕ
  /-- The number of cells of the array. -/
  capacity : ℕ
  /-- The number of elements. -/
  size : ℕ
  /-- The array. -/
  array : ℕ → α

/-- `queue_create`. -/
def queueCreate [Inhabited α] (capacity : ℕ) : RequestQueue α :=
  { front := 0, rear := capacity - 1, capacity := capacity, size := 0, array := fun _ => default }

/-- `queue_full`. -/
def queueFull (queue : RequestQueue α) : Bool := queue.size == queue.capacity

/-- `queue_empty`. -/
def queueEmpty (queue : RequestQueue α) : Bool := queue.size == 0

/-- `queue_front`, the element that `queue_pop` returns. -/
def queueFront (queue : RequestQueue α) : α := queue.array queue.front

/-- What `queue_pop` leaves. -/
def queuePop (queue : RequestQueue α) : RequestQueue α :=
  let front := queue.front + 1
  { queue with
    size := queue.size - 1
    front := if front = queue.capacity then 0 else front }

/-- `queue_push` after its test for a full queue. -/
def queueAppend (queue : RequestQueue α) (item : α) : RequestQueue α :=
  let rear := if queue.rear + 1 = queue.capacity then 0 else queue.rear + 1
  { queue with
    size := queue.size + 1
    rear := rear
    array := Function.update queue.array rear item }

/-- The loop of `queue_resize`: `push` onto `new` what is popped from `old`, `n` times. -/
def queueMove (push : RequestQueue α → α → Option (RequestQueue α)) :
    ℕ → RequestQueue α → RequestQueue α → Option (RequestQueue α)
  | 0, _, new => some new
  | n + 1, old, new => do
      let new ← push new (queueFront old)
      queueMove push n (queuePop old) new

/-- `queue_push`, with at most `depth` nested calls of itself through `queue_resize`. -/
def queuePush [Inhabited α] : ℕ → RequestQueue α → α → Option (RequestQueue α)
  | 0, _, _ => none
  | depth + 1, queue, item => do
      let queue ←
        if queueFull queue then
          queueMove (queuePush depth) queue.size queue (queueCreate (queue.capacity * 2))
        else some queue
      return queueAppend queue item

/-! ## The list of elements -/

namespace RequestQueue

/-- The elements of a queue, oldest first. -/
def toList (queue : RequestQueue α) : List α :=
  (List.range queue.size).map fun i => queue.array ((queue.front + i) % queue.capacity)

/-- The representation invariant of the queue. -/
structure Wf (queue : RequestQueue α) : Prop where
  /-- The front is a cell of the array, so the array is not empty. -/
  front_lt : queue.front < queue.capacity
  /-- There are no more elements than cells. -/
  size_le : queue.size ≤ queue.capacity
  /-- The rear is the last of `size` consecutive cells from the front. -/
  rear_eq : queue.rear = (queue.front + queue.size + queue.capacity - 1) % queue.capacity

variable {queue : RequestQueue α} {item : α}

@[simp] theorem length_toList : queue.toList.length = queue.size := by simp [toList]

/-- A new queue is well-formed. -/
theorem wf_create [Inhabited α] {capacity : ℕ} (h : 0 < capacity) :
    (queueCreate capacity : RequestQueue α).Wf where
  front_lt := h
  size_le := Nat.zero_le _
  rear_eq := by simp [queueCreate, Nat.mod_eq_of_lt (Nat.sub_lt h Nat.one_pos)]

/-- A new queue is empty. -/
@[simp] theorem toList_create [Inhabited α] (capacity : ℕ) :
    (queueCreate capacity : RequestQueue α).toList = [] := rfl

/-- Going one cell further in a circular array. -/
theorem next_cell {i capacity : ℕ} (h : i < capacity) :
    (if i + 1 = capacity then 0 else i + 1) = (i + 1) % capacity := by
  split
  · next he => rw [he, Nat.mod_self]
  · exact (Nat.mod_eq_of_lt (by omega)).symm

/-- The cell that a push writes is the one after the last element. -/
theorem rear_append (h : queue.Wf) (item : α) :
    (queueAppend queue item).rear = (queue.front + queue.size) % queue.capacity := by
  have hc : 0 < queue.capacity := Nat.zero_lt_of_lt h.front_lt
  have hr : queue.rear < queue.capacity := by
    rw [h.rear_eq]
    exact Nat.mod_lt _ hc
  change (if queue.rear + 1 = queue.capacity then 0 else queue.rear + 1) = _
  rw [next_cell hr, h.rear_eq, Nat.mod_add_mod,
    show queue.front + queue.size + queue.capacity - 1 + 1
      = queue.front + queue.size + queue.capacity by omega, Nat.add_mod_right]

/-- Pushing onto a queue that is not full keeps it well-formed. -/
theorem wf_append (h : queue.Wf) (hs : queue.size < queue.capacity) :
    (queueAppend queue item).Wf where
  front_lt := h.front_lt
  size_le := hs
  rear_eq := by
    rw [rear_append h item]
    change _ = (queue.front + (queue.size + 1) + queue.capacity - 1) % queue.capacity
    rw [show queue.front + (queue.size + 1) + queue.capacity - 1
      = queue.front + queue.size + queue.capacity by omega, Nat.add_mod_right]

/-- Two cells less than `capacity` steps from the front are different. -/
theorem cell_injOn {front capacity i j : ℕ} (hi : i < capacity) (hj : j < capacity)
    (h : (front + i) % capacity = (front + j) % capacity) : i = j := by
  have := Nat.ModEq.add_left_cancel' front h
  rwa [Nat.ModEq, Nat.mod_eq_of_lt hi, Nat.mod_eq_of_lt hj] at this

/-- Pushing appends to the list of elements. -/
theorem toList_append (h : queue.Wf) (hs : queue.size < queue.capacity) :
    (queueAppend queue item).toList = queue.toList ++ [item] := by
  have hsize : (queueAppend queue item).size = queue.size + 1 := rfl
  have hcell : ∀ i, (queueAppend queue item).array ((queue.front + i) % queue.capacity)
      = if (queue.front + i) % queue.capacity = (queue.front + queue.size) % queue.capacity
        then item else queue.array ((queue.front + i) % queue.capacity) := by
    intro i
    rw [← rear_append h item]
    change Function.update _ _ _ _ = _
    rw [Function.update_apply]
    rfl
  rw [toList, hsize, List.range_succ, List.map_append]
  change List.map (fun i => (queueAppend queue item).array ((queue.front + i) % queue.capacity)) _
    ++ List.map (fun i => (queueAppend queue item).array ((queue.front + i) % queue.capacity)) _ = _
  congr 1
  · refine List.map_congr_left fun i hi => ?_
    have hi := List.mem_range.mp hi
    have hne : (queue.front + i) % queue.capacity ≠ (queue.front + queue.size) % queue.capacity :=
      fun he => absurd (cell_injOn (by omega) hs he) (by omega)
    rw [hcell, if_neg hne]
  · simp [hcell]

/-- Popping from a queue that is not empty keeps it well-formed. -/
theorem wf_pop (h : queue.Wf) (hs : 0 < queue.size) : (queuePop queue).Wf := by
  have hf : (queuePop queue).front = (queue.front + 1) % queue.capacity := next_cell h.front_lt
  have hle := h.size_le
  refine ⟨?_, show queue.size - 1 ≤ queue.capacity by omega, ?_⟩
  · rw [hf]
    exact Nat.mod_lt _ (Nat.zero_lt_of_lt h.front_lt)
  · rw [hf]
    change queue.rear = ((queue.front + 1) % queue.capacity + (queue.size - 1) + queue.capacity - 1)
      % queue.capacity
    rw [Nat.add_sub_assoc (by omega), Nat.add_assoc, Nat.mod_add_mod, h.rear_eq]
    congr 1
    omega

/-- The element a pop returns is the head of the list, and popping leaves its tail. -/
theorem toList_pop (h : queue.Wf) (hs : 0 < queue.size) :
    queue.toList = queueFront queue :: (queuePop queue).toList := by
  have hf : (queuePop queue).front = (queue.front + 1) % queue.capacity := next_cell h.front_lt
  obtain ⟨n, hn⟩ : ∃ n, queue.size = n + 1 := ⟨queue.size - 1, by omega⟩
  have hsize : (queuePop queue).size = n := by
    change queue.size - 1 = n
    omega
  rw [toList, toList, hn, hsize, hf, List.range_succ_eq_map, List.map_cons, List.map_map]
  congr 1
  · rw [Nat.add_zero, Nat.mod_eq_of_lt h.front_lt]
    rfl
  · refine List.map_congr_left fun i _ => ?_
    change queue.array _ = queue.array _
    congr 1
    change _ = ((queue.front + 1) % queue.capacity + i) % queue.capacity
    rw [Nat.mod_add_mod]
    congr 1
    simp only [Nat.succ_eq_add_one]
    omega

/-- A push onto a queue that is not full does not resize it. -/
theorem push_of_not_full [Inhabited α] {depth : ℕ} (hs : queue.size < queue.capacity) :
    queuePush (depth + 1) queue item = some (queueAppend queue item) := by
  have : queueFull queue = false := by
    simp only [queueFull, beq_eq_false_iff_ne]
    omega
  simp [queuePush, this]

end RequestQueue

end Sope
