import Sope.Bank.ProducerConsumer

/-! # The account locks

No deadlock arises between the offices, whatever requests they manage: an office takes a second
account only above the one it holds, so among the offices inside `manageRequest` there is always one
whose next operation is possible. Locks are released by their owners only, and none is left behind.
-/

namespace Sope

open Concurrency

variable {n : ℕ} {W : World (Thread n)} {serverFifoFD shutdownFD : Int}
  {tr : List (ServerEvent n W)} {c : Config (Thread n) ServerOp ServerRes (ServerState n W) Ctl}
  {s : ServerState n W} {g : Thread n → Hold UInt32 Slot × Phase} {t : Thread n}

/-- Every call that an office makes returns, or ends the process. -/
def World.OfficesReturn (W : World (Thread n)) : Prop :=
  ∀ (i : Fin n) (call : SysCall) (w : W.State),
    (∃ r w', W.call (.office i) call w r w') ∨ ∃ w', W.kills (.office i) call w w'

/-- An owner of an account lock is inside `manageRequest`. -/
theorem Synchronised.isManaging_of_owner (h : Synchronised tr s g) {i : UInt32}
    (hi : s.owner i = some t) : (phaseOf tr t).isManaging = true := by
  by_contra hm
  have hheld := (h.hold.held t i).mpr hi
  rw [h.unlocked t (Bool.eq_false_of_not_eq_true hm)] at hheld
  simp at hheld

/-- A thread inside `manageRequest` is an office. -/
theorem Synchronised.exists_office (h : Synchronised tr s g)
    (ht : (phaseOf tr t).isManaging = true) : ∃ i, t = .office i := by
  cases t with
  | main =>
      have hrole := h.drain.role .main
      revert hrole ht
      cases phaseOf tr .main <;> simp [Phase.isOffice, Phase.isManaging, Thread.isOffice]
  | office i => exact ⟨i, rfl⟩

/-- Inside `manageRequest` an office is in the middle of a program. -/
theorem exists_op_of_managing (h : Synchronised tr s g) {p : Server Ctl}
    (hret : ∀ ctl, p = .ret ctl → between t ctl (g t)) (ht : (phaseOf tr t).isManaging = true) :
    ∃ o k, p = .op o k := by
  cases p with
  | op o k => exact ⟨o, k, rfl⟩
  | ret ctl =>
      have hx := (hret ctl rfl).2
      rw [h.phase] at hx
      obtain ⟨i, rfl⟩ := h.exists_office ht
      cases ctl <;> simp_all [Phase.isManaging]

/-- An office inside `manageRequest` has an enabled step, unless it waits for an account. -/
theorem enabled_of_managing (hW : W.OfficesReturn) (h : Synchronised tr c.shared g)
    (halive : c.shared.rest.alive = true) {i : Fin n} {o : ServerOp} {k : ServerRes o → Server Ctl}
    (hp : c.prog (.office i) = .op o k)
    (hrule : (coord (.office i)).rule (g (.office i)) o fun _ _ => True)
    (ht : (phaseOf tr (.office i)).isManaging = true)
    (hfree : ∀ id, o = .lock id → c.shared.owner id = none) :
    (server n W serverFifoFD shutdownFD).Enabled c (.office i) := by
  refine ⟨o, k, hp, ?_⟩
  cases o with
  | lock id => exact .inl ⟨(), _, halive, hfree id rfl, rfl⟩
  | unlock id => exact .inl ⟨(), _, halive, rfl⟩
  | access a => exact .inl ⟨_, _, halive, rfl, rfl⟩
  | ext e =>
      -- between the two marks an office leaves the queue alone
      have hlocal : ∀ r : e.Res, e.isLocal = true ∨ ∃ m, e = .mark m := fun r => by
        obtain ⟨x', htr, -⟩ := h.transition hrule r
        generalize phaseOf tr (.office i) = x at htr ht
        cases htr with
        | work r request he => exact .inl he
        | finish request reply => exact .inr ⟨_, rfl⟩
        | _ => cases ht
      cases e with
      | sys call =>
          rcases hW i call c.shared.rest.world with ⟨r, w, hw⟩ | ⟨w, hw⟩
          · exact .inl ⟨r, _, halive, _, ⟨w, hw, rfl⟩, rfl⟩
          · exact .inr ⟨.ended, _, halive, rfl, .inl ⟨_, ⟨w, hw, rfl⟩, rfl⟩⟩
      | segfault | exit => exact .inr ⟨.ended, _, halive, rfl, .inl ⟨_, rfl, rfl⟩⟩
      | readActive j => exact .inl ⟨c.shared.rest.activeOffices j, _, halive, _, ⟨rfl, rfl⟩, rfl⟩
      | add a b => exact .inl ⟨a + b, _, halive, _, ⟨rfl, rfl⟩, rfl⟩
      | sub a b => exact .inl ⟨a - b, _, halive, _, ⟨rfl, rfl⟩, rfl⟩
      | mark m => exact .inl ⟨(), _, halive, _, rfl, rfl⟩
      | queuePop => rcases hlocal (default : TlvRequest) with he | ⟨m, he⟩ <;> cases he
      | queueEmpty => rcases hlocal true with he | ⟨m, he⟩ <;> cases he
      | _ => rcases hlocal () with he | ⟨m, he⟩ <;> cases he

/-- **No deadlock on the account locks.** Whenever an office is inside `manageRequest`, some office
inside `manageRequest` has an enabled step. -/
theorem exists_enabled_of_managing (hW : W.OfficesReturn)
    (h : (server n W serverFifoFD shutdownFD).Run tr c) (halive : c.shared.rest.alive = true)
    {i : Fin n} (hi : (phaseOf tr (.office i)).isManaging = true) :
    ∃ j : Fin n, (phaseOf tr (.office j)).isManaging = true ∧
      (server n W serverFifoFD shutdownFD).Enabled c (.office j) := by
  obtain ⟨g, hg, hrule, hret⟩ := synchronised_of_run h halive
  let wants : Thread n → UInt32 → Prop := fun t id => ∃ k, c.prog t = .op (.lock id) k
  have hord : ∀ t id id', wants t id → c.shared.owner id' = some t → id'.toNat < id.toNat := by
    rintro t id id' ⟨k, hp⟩ hown
    exact (hrule t _ k hp).1.2 id' ((hg.hold.held t id').mpr hown)
  -- an office that wants no taken lock: an owner by the lock order, any office if there is no owner
  obtain ⟨t, ht, hfree⟩ : ∃ t, (phaseOf tr t).isManaging = true ∧
      ∀ id, wants t id → c.shared.owner id = none := by
    by_cases hown : ∃ id t, c.shared.owner id = some t
    · obtain ⟨id, t, hid⟩ := hown
      obtain ⟨u, id', hu, hfree⟩ :=
        exists_owner_not_blocked (fun id : UInt32 => id.toNat_lt) hord hid
      exact ⟨u, hg.isManaging_of_owner hu, hfree⟩
    · refine ⟨.office i, hi, fun id _ => ?_⟩
      by_contra hne
      obtain ⟨t, ht⟩ := Option.ne_none_iff_exists'.mp hne
      exact hown ⟨id, t, ht⟩
  obtain ⟨j, rfl⟩ := hg.exists_office ht
  obtain ⟨o, k, hp⟩ := exists_op_of_managing hg (hret (.office j)) ht
  refine ⟨j, ht, enabled_of_managing hW hg halive hp (hrule _ _ _ hp) ht ?_⟩
  rintro id rfl
  exact hfree id ⟨k, hp⟩

/-- Locks are released by their owners. -/
theorem owner_of_unlock (h : (server n W serverFifoFD shutdownFD).Run tr c) {e : ServerEvent n W}
    (he : e ∈ tr) {id : UInt32} (hop : e.op = .unlock id) : e.pre.owner id = some e.tid := by
  obtain ⟨t, o, r, s⟩ := e
  obtain rfl : o = .unlock id := hop
  obtain ⟨tr₁, g, hg, hrule⟩ := synchronised_of_mem h he
  exact (hg.hold.held t id).mp hrule.2.1

/-- The end of `manageRequest`, and the operations on semaphores. -/
def Ext.leavesAccounts : Ext → Bool
  | .mark (.managed ..) | .semWait _ | .semPost _ => true
  | _ => false

/-- At these operations a thread holds no account. -/
theorem Synchronised.owner_ne_of_leaves (h : Synchronised tr s g) {op : Ext}
    {Φ : op.Res → Hold UInt32 Slot × Phase → Prop} (hrule : (coord t).rule (g t) (.ext op) Φ)
    (hop : op.leavesAccounts = true) (id : UInt32) : s.owner id ≠ some t := by
  have hunit : ∃ r : op.Res, True := by
    cases op <;> first | exact ⟨(), ⟨⟩⟩ | cases hop
  obtain ⟨r, -⟩ := hunit
  obtain ⟨x', htr, hx'⟩ := h.transition hrule r
  have hheld : (g t).1.held = ∅ := by
    have hx := h.unlocked t
    generalize phaseOf tr t = x at htr hx
    cases htr with
    | work r request he =>
        cases op with
        | mark m =>
            cases m with
            | managed => cases he
            | _ => cases hop
        | semWait | semPost => cases he
        | _ => cases hop
    | finish => exact hx' rfl
    | enter | permit | manage | post => exact hx rfl
    | _ => cases hop
  intro hid
  have := (h.hold.held t id).mpr hid
  rw [hheld] at this
  simp at this

/-- **The account locks are deadlock free and always released.** Assume that the calls of the offices
return. In every state that a run reaches, if an office is inside `manageRequest`, then some office
inside `manageRequest` has an enabled step; an account is unlocked by the thread that holds it only;
and at the end of `manageRequest`, as at every semaphore, a thread holds no account. -/
theorem account_locks_safe (hW : W.OfficesReturn)
    (h : (server n W serverFifoFD shutdownFD).Run tr c) :
    (c.shared.rest.alive = true → ∀ i : Fin n, (phaseOf tr (.office i)).isManaging = true →
      ∃ j : Fin n, (phaseOf tr (.office j)).isManaging = true ∧
        (server n W serverFifoFD shutdownFD).Enabled c (.office j)) ∧
      (∀ e ∈ tr, ∀ id, e.op = .unlock id → e.pre.owner id = some e.tid) ∧
      (∀ e ∈ tr, ∀ op, e.op = .ext op → op.leavesAccounts = true →
        ∀ id, e.pre.owner id ≠ some e.tid) ∧
      (c.shared.rest.alive = true → ∀ t sem k, c.prog t = .op (.ext (.semWait sem)) k →
        ∀ id, c.shared.owner id ≠ some t) := by
  refine ⟨fun halive i hi => exists_enabled_of_managing hW h halive hi,
    fun e he id => owner_of_unlock h he, fun e he op hop hleaves => ?_,
    fun halive t sem k hp => ?_⟩
  · obtain ⟨t, o, r, s⟩ := e
    obtain rfl : o = .ext op := hop
    obtain ⟨tr₁, g, hg, hrule⟩ := synchronised_of_mem h he
    exact hg.owner_ne_of_leaves hrule hleaves
  · obtain ⟨g, hg, hrule, -⟩ := synchronised_of_run h halive
    exact hg.owner_ne_of_leaves (hrule t _ k hp) rfl

/-- In the playable worlds every call returns. -/
theorem servingScript_returns (reads : List (Option Bytes)) :
    (servingScript (Thread n) reads).world.OfficesReturn := by
  intro i call w
  refine .inl ?_
  cases call with
  | read fd n => cases w <;> exact ⟨_, _, rfl⟩
  | _ => exact ⟨_, _, rfl⟩

/-- A run after which one of two offices holds account 0 and the other waits for it. -/
theorem exists_run_contended :
    ∃ tr c, (server 2 (servingScript _ (readsOf balanceRequest ++ readsOf balanceRequest)).world
        3 4).Run tr c ∧
      (c.shared.rest.alive && (phaseOf tr (.office 0)).isManaging &&
        (c.shared.owner 0 == some (.office 1))) = true :=
  System.exists_run_of_play (serverPlayer _ 3 4)
    (List.replicate 18 (.run .main) ++ List.replicate 9 (.run (.office 1)) ++
      List.replicate 9 (.run (.office 0)) ++ [.run (.office 1)])
    (initial_firstConfig (servingScript _ (readsOf balanceRequest ++ readsOf balanceRequest)) [9] [7]
      (fun _ => 1) 3 4)
    (fun tr c => c.shared.rest.alive && (phaseOf tr (.office 0)).isManaging &&
      (c.shared.owner 0 == some (.office 1))) (by decide +kernel)

/-- When one office waits for the account that another one holds, one of them can go on. -/
theorem account_locks_safe_contended :
    ∃ tr c, (server 2 (servingScript _ (readsOf balanceRequest ++ readsOf balanceRequest)).world
        3 4).Run tr c ∧
      c.shared.owner 0 = some (.office 1) ∧
      ∃ j, (phaseOf tr (.office j)).isManaging = true ∧
        (server 2 (servingScript _ (readsOf balanceRequest ++ readsOf balanceRequest)).world
          3 4).Enabled c (.office j) := by
  obtain ⟨tr, c, h, hc⟩ := exists_run_contended
  simp only [Bool.and_eq_true, beq_iff_eq] at hc
  obtain ⟨⟨halive, h0⟩, hown⟩ := hc
  exact ⟨tr, c, h, hown, (account_locks_safe (servingScript_returns _) h).1 halive 0 h0⟩

end Sope
