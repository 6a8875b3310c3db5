import Sope.Bank.Play
import Sope.Bank.Synchronised

/-! # Producer and consumers

The exactness of the request queue: whatever the interleaving, requests are popped in the order in
which they were pushed, each by one office, and the array queue neither underflows nor grows. -/

namespace Sope

open Concurrency

variable {n : ℕ} {W : World (Thread n)} {serverFifoFD shutdownFD : Int}
  {tr : List (ServerEvent n W)} {c : Config (Thread n) ServerOp ServerRes (ServerState n W) Ctl}

/-- A thread is at a push or at a pop. -/
def InsideQueue (p : Server Ctl) : Prop :=
  (∃ request k, p = .op (.ext (.queuePush request)) k) ∨ ∃ k, p = .op (.ext .queuePop) k

/-- A thread at a push or at a pop holds `queueMutex`. -/
theorem queueMutex_of_insideQueue (h : (server n W serverFifoFD shutdownFD).Run tr c)
    (halive : c.shared.rest.alive = true) {t : Thread n} (ht : InsideQueue (c.prog t)) :
    c.shared.rest.queueMutex = some t := by
  obtain ⟨g, hg, hrule, -⟩ := synchronised_of_run h halive
  refine (hg.queue.mutex t).mpr ?_
  rcases ht with ⟨request, k, hp⟩ | ⟨k, hp⟩
  · obtain ⟨x', htr, -⟩ := hg.transition (hrule _ _ _ hp) ()
    rw [htr.of_queuePush.1]
    rfl
  · obtain ⟨x', htr, -⟩ := hg.transition (hrule _ _ _ hp) (default : TlvRequest)
    rw [htr.of_queuePop.1]
    rfl

/-- No pop finds the queue empty. -/
theorem queueEmpty_of_pop (h : (server n W serverFifoFD shutdownFD).Run tr c)
    {e : ServerEvent n W} (he : e ∈ tr) (hop : e.op = .ext .queuePop) :
    queueEmpty e.pre.rest.queue = false := by
  obtain ⟨t, o, r, s⟩ := e
  obtain rfl : o = .ext .queuePop := hop
  obtain ⟨tr₁, g, hg, hrule⟩ := synchronised_of_mem h he
  obtain ⟨x', htr, -⟩ := hg.transition hrule r
  have := hg.queue.size_pos (t := t) (by rw [htr.of_queuePop.1]; rfl)
  exact beq_eq_false_iff_ne.mpr this.ne'

/-- No push finds the queue full. -/
theorem queueFull_of_push (h : (server n W serverFifoFD shutdownFD).Run tr c)
    {e : ServerEvent n W} (he : e ∈ tr) {request : TlvRequest}
    (hop : e.op = .ext (.queuePush request)) : queueFull e.pre.rest.queue = false := by
  obtain ⟨t, o, r, s⟩ := e
  obtain rfl : o = .ext (.queuePush request) := hop
  obtain ⟨tr₁, g, hg, hrule⟩ := synchronised_of_mem h he
  obtain ⟨x', htr, -⟩ := hg.transition hrule ()
  have := hg.queue.size_lt (t := t) (by rw [htr.of_queuePush.1]; rfl)
  exact beq_eq_false_iff_ne.mpr this.ne

/-- **Producer/consumer exactness.** In every run of the server, with any number of offices: no pop
finds the queue empty and no push finds it full, at most one thread is at a push or a pop, and the
requests popped, in the order of the pops over all offices, are a beginning of the requests
pushed. -/
theorem popped_prefix_pushed (h : (server n W serverFifoFD shutdownFD).Run tr c) :
    (∀ e ∈ tr, e.op = .ext .queuePop → queueEmpty e.pre.rest.queue = false) ∧
      (∀ e ∈ tr, ∀ request, e.op = .ext (.queuePush request) →
        queueFull e.pre.rest.queue = false) ∧
      (c.shared.rest.alive = true → ∀ t u, InsideQueue (c.prog t) → InsideQueue (c.prog u) →
        t = u) ∧
      popped tr <+: pushed tr := by
  refine ⟨fun e he => queueEmpty_of_pop h he, fun e he request => queueFull_of_push h he,
    fun halive t u ht hu => ?_, popped_isPrefix h⟩
  have ht' := queueMutex_of_insideQueue h halive ht
  have hu' := queueMutex_of_insideQueue h halive hu
  exact Option.some.inj (ht'.symm.trans hu')

/-- A balance request, from process 100 for account 0. -/
def balanceRequest : TlvRequest :=
  { type := .opBalance
    length := 33
    value := { header := ⟨100, 0, List.replicate 21 0, 0⟩, create := ⟨0, 0, List.replicate 21 0⟩ } }

/-- A run of a server with two offices in which the second office pops the one request pushed. -/
theorem exists_run_popped :
    ∃ tr c, (server 2 (servingScript _ (readsOf balanceRequest)).world 3 4).Run tr c ∧
      ((popped tr).length == 1) = true :=
  System.exists_run_of_play (serverPlayer _ 3 4)
    (List.replicate 9 (.run .main) ++ List.replicate 9 (.run (.office 1)))
    (initial_firstConfig (servingScript _ (readsOf balanceRequest)) [9] [7] (fun _ => 1) 3 4)
    (fun tr _ => (popped tr).length == 1) (by decide +kernel)

/-- The exactness of the queue is not empty: in a run with a pop the request popped is the first one
pushed. -/
theorem popped_prefix_pushed_one :
    ∃ tr c, (server 2 (servingScript _ (readsOf balanceRequest)).world 3 4).Run tr c ∧
      (popped tr).length = 1 ∧ popped tr <+: pushed tr := by
  obtain ⟨tr, c, h, hpop⟩ := exists_run_popped
  exact ⟨tr, c, h, beq_iff_eq.mp hpop, (popped_prefix_pushed h).2.2.2⟩

end Sope
