import Sope.Bank.Bookkeeping
import Sope.Bank.Synchronised

/-! # The invariant of the books

What the rules of the books say about the server as a whole (`BooksInv`): the money in the table and
the money in flight are what the accounts were created with, and every account is sound, between any
two steps of any thread. It is stated for a lower limit `lo` of the balances and for the runs in which
the requests are as `Lawful lo` says. -/

namespace Sope

open Concurrency

variable {n : ℕ} {W : World (Thread n)} {lo : ℕ} {serverFifoFD shutdownFD : Int}
  {tr tr' : List (ServerEvent n W)} {s s' : ServerState n W}
  {c : Config (Thread n) ServerOp ServerRes (ServerState n W) Ctl}
  {g : Thread n → Hold UInt32 Slot × Activity} {t : Thread n}

/-! ## The initial table -/

/-- After `setupAccounts` at most the administrator's account is used, and it holds nothing. -/
theorem ServerInit.cells_eq (h : ServerInit s) : s.cells = clearAccounts ∨
    ∃ hash salt, s.cells = Function.update clearAccounts 0 ⟨true, ⟨0, hash, salt, 0⟩⟩ := by
  obtain ⟨ans, adminPassword, hs⟩ := h.cells
  obtain ⟨salt, -, hs⟩ := Option.bind_eq_some_iff.mp hs
  obtain ⟨hash, -, hs⟩ := Option.bind_eq_some_iff.mp hs
  cases hash with
  | none => exact .inl (Prod.mk.inj (Option.some.inj hs)).2.symm
  | some hash =>
      refine .inr ⟨hash, salt, (Prod.mk.inj (Option.some.inj hs)).2.symm.trans ?_⟩
      simp [table, adminAccountId, clearAccounts]

/-- Every initial account is sound, and there is no money. -/
theorem ServerInit.sound (h : ServerInit s) (lo : ℕ) :
    bankTotal s.cells = 0 ∧ ∀ id, (s.cells id).Sound lo id := by
  rcases h.cells_eq with hs | ⟨hash, salt, hs⟩
  · rw [hs]
    exact ⟨Finset.sum_eq_zero fun i _ => rfl, fun id => ⟨nofun, nofun, nofun⟩⟩
  · rw [hs]
    have hmoney : ∀ id, (Function.update clearAccounts 0 ⟨true, ⟨0, hash, salt, 0⟩⟩ id).money = 0 ∧
        (Function.update clearAccounts 0 ⟨true, ⟨0, hash, salt, 0⟩⟩ id).Sound lo id := by
      intro id
      by_cases hid : id = 0
      · subst hid
        rw [Function.update_self]
        exact ⟨rfl, fun _ => rfl, fun _ => Nat.zero_le _, fun _ hne => absurd rfl hne⟩
      · rw [Function.update_of_ne hid]
        exact ⟨rfl, nofun, nofun, nofun⟩
    exact ⟨Finset.sum_eq_zero fun i _ => (hmoney _).1, fun id => (hmoney id).2⟩

/-! ## The threads -/

/-- What a thread guarantees between two programs: it holds no account, and no transfer of it is half
done. -/
def settled (ctl : Ctl) (g : Hold UInt32 Slot × Activity) : Prop :=
  ctl = .ended ∨ (g.1.held = ∅ ∧ g.2.inFlight = 0)

/-- The main thread keeps the books. -/
theorem wp_books_mainBody {setup : Setup} {ctl : Ctl} {g : Hold UInt32 Slot × Activity}
    (h : settled ctl g) : (mainBody setup ctl).wp (books lo) settled g := by
  obtain ⟨b, x⟩ := g
  rcases h with rfl | h
  · exact .inl rfl
  · refine (plain_mainBody setup ctl).wp_read (fun a ha => ha.elim) (fun a ha => ha.elim)
      (fun e he => ⟨?_, fun r Φ hΦ _ => ?_⟩) fun _ => .inr h
    · cases e <;> trivial
    · cases e <;> first | exact hΦ | cases he

/-- An office keeps the books. -/
theorem wp_books_officeBody {setup : Setup} {office : ℕ} {ctl : Ctl}
    {g : Hold UInt32 Slot × Activity} (hlo : lo ≤ minBalance) (h : settled ctl g) :
    (officeBody setup office ctl).wp (books lo) settled g := by
  obtain ⟨b, x⟩ := g
  rcases h with rfl | ⟨hb, hx⟩
  · exact .inl rfl
  · cases ctl with
    | start => exact wp_books_ext trivial fun _ _ => .inr ⟨hb, hx⟩
    | serve => exact Prog.wp_seq (wp_books_bankOfficeRound hlo hb hx) fun _ _ hg => .inr hg
    | _ => exact .inl rfl

/-! ## The invariant -/

/-- What is assumed of the requests of a run: they are within the limits, and if the balances are to
have a lower limit, no transfer takes all that its source account holds. -/
structure Lawful (lo : ℕ) (tr : List (ServerEvent n W)) : Prop where
  limits : ∀ request ∈ pushed tr, request.Within lo
  spares : lo = 0 ∨ ∀ e ∈ tr, ∀ request, e.op = .ext (.mark (.handleTransfer request)) →
    ¬ request.Exhausts (e.pre.cells request.value.header.accountId)
      (e.pre.cells request.value.transfer.accountId)

/-- What is assumed of a run is assumed of its beginnings. -/
theorem Lawful.of_prefix (h : Lawful lo tr') (hp : tr <+: tr') : Lawful lo tr where
  limits request hr := by
    refine h.limits request ?_
    obtain ⟨rest, rfl⟩ := hp
    rw [pushed, List.filterMap_append]
    exact List.mem_append_left _ hr
  spares := h.spares.imp_right fun hs e he => hs e (hp.subset he)

/-- The books agree with the table. -/
structure BooksInv (lo : ℕ) (tr : List (ServerEvent n W)) (s : ServerState n W)
    (g : Thread n → Hold UInt32 Slot × Activity) : Prop where
  /-- The money in the table and the money in flight are what accounts were created with. -/
  balance : bankTotal s.cells + total Activity.inFlight (booksOf tr).activity = (booksOf tr).created
  /-- Every account is sound. -/
  sound : ∀ id, (s.cells id).Sound lo id
  /-- While the process runs, the threads know what they hold and what they are doing. -/
  running : s.rest.alive = true →
    HoldInv (bankSpec lo) s (fun t => (g t).1) ∧ ∀ t, (g t).2 = (booksOf tr).activity t

/-- The books are correct initially. -/
theorem BooksInv.init (h : ServerInit s) :
    BooksInv lo [] s fun _ => (Hold.empty s.cells, .idle) where
  balance := by
    have hidle : total Activity.inFlight (booksOf ([] : List (ServerEvent n W))).activity = 0 :=
      total_eq_zero fun _ => rfl
    rw [hidle, (h.sound lo).1]
    rfl
  sound := (h.sound lo).2
  running _ := ⟨HoldInv.of_free (h.sound lo).2 h.owner, fun _ => rfl⟩

/-- The books are about the accounts and the locks only, while the process runs. -/
theorem BooksInv.congr (h : BooksInv lo tr s g) (hcells : s'.cells = s.cells)
    (howner : s'.owner = s.owner) (halive : s'.rest.alive = true → s.rest.alive = true) :
    BooksInv lo tr s' g where
  balance := by
    rw [hcells]
    exact h.balance
  sound := by
    rw [hcells]
    exact h.sound
  running ha := ⟨(h.running (halive ha)).1.congr_rest hcells howner, (h.running (halive ha)).2⟩

/-- What an operation shows the thread is true. -/
theorem learns_of_run {o : ServerOp} {r : ServerRes o}
    (hr : (server n W serverFifoFD shutdownFD).Run (tr ++ [⟨t, o, r, s⟩]) c)
    (ha : Lawful lo (tr ++ [⟨t, o, r, s⟩])) (h : HoldInv (bankSpec lo) s fun t => (g t).1)
    (hkeep : Keeps lo (g t).2 (g t).1 o)
    (hs : Locked.sem table (fun s => s.alive = true) Ext.Sem t o s r s') :
    Learns lo (g t).1 o r := by
  cases o with
  | ext e =>
      obtain ⟨-, rest, hsem, -⟩ := hs
      cases e with
      | add a b => exact hsem.1
      | sub a b => exact hsem.1
      | queuePop =>
          refine ha.limits r ((popped_isPrefix hr).subset ?_)
          rw [popped_append]
          exact List.mem_append_right _ (List.mem_singleton_self r)
      | mark m =>
          cases m with
          | handleTransfer request =>
              refine ha.spares.imp_right fun hs => ?_
              have := hs _ (List.mem_append_right _ (List.mem_singleton_self _)) request rfl
              rwa [h.cur t _ hkeep.2.1, h.cur t _ hkeep.2.2]
          | _ => trivial
      | _ => trivial
  | _ => trivial

/-- An operation changes the activity of its thread as the books record it. -/
theorem next_eq {o : ServerOp} (h : HoldInv (bankSpec lo) s fun t => (g t).1)
    (hkeep : Keeps lo (g t).2 (g t).1 o) :
    (g t).2.next (g t).1.cur o = (g t).2.next s.cells o := by
  cases o with
  | ext e =>
      cases e with
      | mark m =>
          cases m with
          | handleTransfer request =>
              change Activity.transferring _ _ _ = Activity.transferring _ _ _
              rw [h.cur t _ hkeep.2.1, h.cur t _ hkeep.2.2]
          | _ => rfl
      | _ => rfl
  | access a => cases a <;> rfl
  | _ => rfl

/-- No account is opened but by setting its entry of `usedAccounts`. -/
theorem opens_eq_zero {x : Activity} {o : ServerOp} (ho : ∀ id, o ≠ .access (.writeUsed id true)) :
    x.opens o = 0 := by
  unfold Activity.opens
  split
  · next id => exact absurd rfl (ho id)
  · rfl

/-- An operation on everything but the accounts puts no money in flight, and takes none. -/
theorem inFlight_next_ext {x : Activity} {b : Hold UInt32 Slot} {cells : UInt32 → Slot} {e : Ext}
    (hkeep : Keeps lo x b (.ext e)) : (x.next cells (.ext e)).inFlight = x.inFlight := by
  cases e with
  | mark m =>
      cases m with
      | handleCreate request => exact hkeep.symm
      | handleTransfer request => exact hkeep.1.symm
      | handleBalance request | managed request reply => rfl
  | queuePop => exact hkeep.symm
  | _ => rfl

/-- **What an operation does to the money**: the change of the table is balanced by the change of the
activity of the thread, and the accounts are still sound. -/
theorem BooksInv.written (h : BooksInv lo tr s g) (hhold : HoldInv (bankSpec lo) s fun t => (g t).1)
    {o : ServerOp} {r : ServerRes o} {Φ : ServerRes o → Hold UInt32 Slot × Activity → Prop}
    (hrule : (books lo).rule (g t) o Φ)
    (hs : Locked.sem table (fun s => s.alive = true) Ext.Sem t o s r s') :
    bankTotal s'.cells + ((g t).2.next s.cells o).inFlight
        = bankTotal s.cells + (g t).2.inFlight + (g t).2.opens o ∧
      ∀ id, (s'.cells id).Sound lo id := by
  -- operations that leave the table, and what is in flight, as they are
  have hsame : s'.cells = s.cells → ((g t).2.next s.cells o).inFlight = (g t).2.inFlight →
      (∀ id, o ≠ .access (.writeUsed id true)) →
      bankTotal s'.cells + ((g t).2.next s.cells o).inFlight
          = bankTotal s.cells + (g t).2.inFlight + (g t).2.opens o ∧
        ∀ id, (s'.cells id).Sound lo id := by
    intro hcells hflight ho
    rw [hcells, hflight, opens_eq_zero ho]
    exact ⟨(Nat.add_zero _).symm, h.sound⟩
  obtain ⟨hkeep, hrule⟩ := hrule
  cases o with
  | lock i =>
      obtain ⟨-, -, rfl⟩ := hs
      exact hsame rfl rfl nofun
  | unlock i =>
      obtain ⟨-, rfl⟩ := hs
      exact hsame rfl rfl nofun
  | ext e =>
      obtain ⟨-, rest, -, rfl⟩ := hs
      exact hsame rfl (inFlight_next_ext hkeep) nofun
  | access a =>
      obtain ⟨-, -, rfl⟩ := hs
      have hcur : (g t).1.cur (table.loc a) = s.cells (table.loc a) := hhold.cur t _ hrule.1
      -- an access reads, or changes one account as its rule says
      rcases hkeep with hread | ⟨hlt, hsound, hbal⟩
      · refine hsame ?_ ?_ ?_
        · change Function.update s.cells _ _ = s.cells
          rw [TableOp.run_of_isRead hread, Function.update_eq_self]
        · cases a <;> first | rfl | cases hread
        · rintro id ho
          cases ho
          cases hread
      · rw [hcur] at hsound hbal
        refine ⟨?_, fun id => ?_⟩
        · have hnext : (g t).2.next (g t).1.cur (.access a) = (g t).2.next s.cells (.access a) := by
            cases a <;> rfl
          rw [hnext] at hbal
          have := bankTotal_update s.cells hlt (table.run a (s.cells (table.loc a))).2
          change bankTotal (Function.update _ _ _) + _ = _
          omega
        · change (Function.update s.cells _ _ id).Sound lo id
          by_cases hid : id = table.loc a
          · subst hid
            rw [Function.update_self]
            exact hsound
          · rw [Function.update_of_ne hid]
            exact h.sound id

/-- **Every operation performed as its rule asks keeps the books.** -/
theorem BooksInv.exec (h : BooksInv lo tr s g) {o : ServerOp} {r : ServerRes o}
    {Φ : ServerRes o → Hold UInt32 Slot × Activity → Prop}
    (hr : (server n W serverFifoFD shutdownFD).Run (tr ++ [⟨t, o, r, s⟩]) c)
    (ha : Lawful lo (tr ++ [⟨t, o, r, s⟩])) (hrule : (books lo).rule (g t) o Φ)
    (hs : Locked.sem table (fun s => s.alive = true) Ext.Sem t o s r s') :
    ∃ g', Φ r g' ∧ BooksInv lo (tr ++ [⟨t, o, r, s⟩]) s' (Function.update g t g') := by
  obtain ⟨hhold, hact⟩ := h.running (Locked.sem_live hs)
  have hkeep : Keeps lo (g t).2 (g t).1 o := hrule.1
  have hlearn := learns_of_run hr ha hhold hkeep hs
  obtain ⟨hmoney, hsound⟩ := h.written hhold hrule hs
  obtain ⟨b', hΦ, hhold'⟩ := hhold.extra hrule hs
  have hbooks : (booksOf (tr ++ [⟨t, o, r, s⟩])).activity
      = Function.update (booksOf tr).activity t ((g t).2.next s.cells o) := by
    rw [booksOf_append, hact]
    rfl
  have hcreated : (booksOf (tr ++ [⟨t, o, r, s⟩])).created
      = (booksOf tr).created + (g t).2.opens o := by
    rw [booksOf_append, hact]
    rfl
  -- the sum of the table and of what is in flight changes by what has been opened
  refine ⟨(b', (g t).2.next (g t).1.cur o), hΦ hlearn, ?_, hsound, fun _ => ⟨hhold' _, fun u => ?_⟩⟩
  · have hflight := total_update Activity.inFlight (booksOf tr).activity t
      ((g t).2.next s.cells o)
    have := h.balance
    rw [hact t] at hmoney hflight hcreated hbooks
    rw [hbooks, hcreated]
    omega
  · rw [hbooks]
    by_cases hu : u = t
    · subst hu
      rw [Function.update_self, Function.update_self]
      exact next_eq hhold hkeep
    · rw [Function.update_of_ne hu, Function.update_of_ne hu]
      exact hact u

/-- The certificate of the books. -/
def booksCertificate (lo : ℕ) (hlo : lo ≤ minBalance) (serverFifoFD shutdownFD : Int) :
    Certificate (server n W serverFifoFD shutdownFD) fun _ => books lo where
  assumes := Lawful lo
  assumes_append h := h.of_prefix (List.prefix_append _ _)
  inv tr c g := BooksInv lo tr c.shared g
  post _ := settled
  init h := ⟨_, BooksInv.init h.1, fun _ => .inr ⟨rfl, rfl⟩⟩
  exec hr ha h _ hrule hs := h.exec hr ha hrule hs
  loop {tr c g t x} h _ hpost := by
    refine ⟨g t, ?_, by rwa [Function.update_eq_self]⟩
    cases t with
    | main => exact wp_books_mainBody hpost
    | office i => exact wp_books_officeBody hlo hpost
  divert {tr c g t o k x s' Φ} h _ _ hd := by
    obtain ⟨hx, hcells, howner, halive⟩ := frame_of_divert hd
    refine ⟨g t, .inl hx, ?_⟩
    rw [Function.update_eq_self]
    exact h.congr hcells howner halive
  env h he := by
    obtain ⟨w, -, rfl⟩ := he
    exact h.congr rfl rfl id

end Sope
