import Sope.Bank.AuthorisedEffects
import Sope.Concurrency.Footprint

/-! # Independent requests

What `manageRequest` answers to a creation, an enquiry or a transfer, and what it does to the table, looks
at the accounts that the request names and writes at most those that the operation is about
(`hasFootprint_respond`). So two requests of which neither writes what the other one names may be managed
in either order (`independent_requests_commute`). -/

namespace Sope

open Concurrency

variable {hash : Bytes → Bytes → Bytes} {salt : Bytes} {request : TlvRequest} {m : UInt32 → Slot}
  {ans : (e : Ext) → Option e.Res}

/-- The request is a creation, an enquiry or a transfer. -/
def TlvRequest.IsOrdinary (request : TlvRequest) : Prop :=
  request.type = .opCreateAccount ∨ request.type = .opBalance ∨ request.type = .opTransfer

/-- The accounts that a request can write. -/
def TlvRequest.written (request : TlvRequest) : Finset UInt32 :=
  match request.type with
  | .opCreateAccount => {request.value.create.accountId}
  | .opTransfer => {request.value.header.accountId, request.value.transfer.accountId}
  | _ => ∅

/-- The accounts that a request names. -/
def TlvRequest.named (request : TlvRequest) : Finset UInt32 :=
  insert request.value.header.accountId request.written

/-- The reply of `manageRequest` and the table that it leaves. -/
def TlvRequest.respond (hash : Bytes → Bytes → Bytes) (salt : Bytes) (request : TlvRequest)
    (m : UInt32 → Slot) : TlvReply × (UInt32 → Slot) :=
  match checkLogin hash request (m request.value.header.accountId) with
  | some reply => (reply, m)
  | none =>
      match request.type with
      | .opCreateAccount => createOutcome hash salt request m
      | .opTransfer => transferOutcome request m
      | _ => (balanceOutcome request m, m)

/-! ## The footprint -/

/-- A creation looks at whether the number is used, and writes this account. -/
theorem hasFootprint_createOutcome (hash : Bytes → Bytes → Bytes) (salt : Bytes) (request : TlvRequest) :
    HasFootprint (createOutcome hash salt request) {request.value.create.accountId}
      {request.value.create.accountId} where
  subset := subset_rfl
  frame m i hi := by
    unfold createOutcome
    split_ifs
    · rfl
    · rfl
    · exact Function.update_of_ne (fun h => hi (Finset.mem_singleton.mpr h)) _ _
  result m m' h := by
    unfold createOutcome
    rw [h _ (Finset.mem_singleton_self _)]
    split_ifs <;> rfl
  writes m m' h i hi := by
    obtain rfl := Finset.mem_singleton.mp hi
    unfold createOutcome
    rw [h _ hi]
    split_ifs
    · exact h _ hi
    · exact h _ hi
    · simp

/-- A transfer looks at the two accounts, and writes them. -/
theorem hasFootprint_transferOutcome (request : TlvRequest) :
    HasFootprint (transferOutcome request)
      {request.value.header.accountId, request.value.transfer.accountId}
      {request.value.header.accountId, request.value.transfer.accountId} where
  subset := subset_rfl
  frame m i hi := by
    simp only [Finset.mem_insert, Finset.mem_singleton, not_or] at hi
    unfold transferOutcome
    dsimp only
    split_ifs
    -- only the last branch, where all tests have passed, changes the table
    case neg => simp [transferredTable, Function.update_of_ne hi.1, Function.update_of_ne hi.2]
    all_goals rfl
  result m m' h := by
    have hsrc := h request.value.header.accountId (by simp)
    have hdest := h request.value.transfer.accountId (by simp)
    unfold transferOutcome
    dsimp only
    rw [hsrc, hdest]
    split_ifs <;> rfl
  writes m m' h i hi := by
    have hsrc := h request.value.header.accountId (by simp)
    have hdest := h request.value.transfer.accountId (by simp)
    unfold transferOutcome
    dsimp only
    rw [hsrc, hdest]
    split_ifs
    case neg =>
      unfold transferredTable
      rw [hsrc, hdest]
      simp only [Function.update_apply]
      split_ifs
      · rfl
      · rfl
      · exact h i hi
    all_goals exact h i hi

/-- An enquiry looks at the account, and writes nothing. -/
theorem hasFootprint_balanceOutcome (request : TlvRequest) :
    HasFootprint (fun m => (balanceOutcome request m, m)) {request.value.header.accountId} ∅ where
  subset := Finset.empty_subset _
  frame _ _ _ := rfl
  result m m' h := by
    have hself := h _ (Finset.mem_singleton_self _)
    simp only [balanceOutcome, hself]
  writes _ _ _ i hi := absurd hi (Finset.notMem_empty i)

/-- The operation behind a login looks at the account of the header too. -/
theorem hasFootprint_login {f : (UInt32 → Slot) → TlvReply × (UInt32 → Slot)}
    {named written : Finset UInt32} (hf : HasFootprint f named written)
    (hnamed : named ⊆ insert request.value.header.accountId written) :
    HasFootprint (fun m => match checkLogin hash request (m request.value.header.accountId) with
      | some reply => (reply, m)
      | none => f m) (insert request.value.header.accountId written) written where
  subset := Finset.subset_insert _ _
  frame m i hi := by
    split
    · rfl
    · exact hf.frame m i hi
  result m m' h := by
    rw [h _ (Finset.mem_insert_self _ _)]
    split
    · rfl
    · exact hf.result m m' fun i hi => h i (hnamed hi)
  writes m m' h i hi := by
    rw [h _ (Finset.mem_insert_self _ _)]
    split
    · exact h i (Finset.mem_insert_of_mem hi)
    · exact hf.writes m m' (fun i hi => h i (hnamed hi)) i hi

/-- **The footprint of a request.** -/
theorem hasFootprint_respond (hash : Bytes → Bytes → Bytes) (salt : Bytes)
    (h : request.IsOrdinary) :
    HasFootprint (request.respond hash salt) request.named request.written := by
  unfold TlvRequest.respond TlvRequest.named TlvRequest.written
  rcases h with htype | htype | htype
  · rw [htype]
    exact hasFootprint_login (hasFootprint_createOutcome hash salt request) (Finset.subset_insert _ _)
  · rw [htype]
    exact hasFootprint_login (hasFootprint_balanceOutcome request) subset_rfl
  · rw [htype]
    exact hasFootprint_login (hasFootprint_transferOutcome request) (Finset.subset_insert _ _)

/-! ## `manageRequest` -/

/-- `manageRequest`, alone, on a table in which every used account holds its own number. -/
theorem solo_manageRequest_respond (setup : Setup) (h : Answers hash salt ans)
    (hm : ∀ id, (m id).Identified id) (hrequest : request.IsOrdinary) :
    (manageRequest setup request).solo table ans m = some (request.respond hash salt m) := by
  rw [solo_manageRequest h, TlvRequest.respond]
  cases hlogin : checkLogin hash request (m request.value.header.accountId) with
  | some reply => rfl
  | none =>
      have hused := used_of_checkLogin hlogin
      dsimp only
      rw [solo_performRequest h]
      rcases hrequest with htype | htype | htype
      · rw [htype]
        exact solo_handleCreate h
      · rw [htype]
        exact solo_handleBalance h hused
      · rw [htype]
        exact solo_handleTransfer h hused (hm _ hused)

/-- A request leaves the accounts with their own numbers. -/
theorem identified_respond (hash : Bytes → Bytes → Bytes) (salt : Bytes) (request : TlvRequest)
    (hm : ∀ id, (m id).Identified id) (id : UInt32) :
    ((request.respond hash salt m).2 id).Identified id := by
  unfold TlvRequest.respond
  split
  · exact hm id
  split
  -- a new account is put under its own number
  · unfold createOutcome
    split_ifs
    · exact hm id
    · exact hm id
    · dsimp only
      rw [Function.update_apply]
      split
      · next h => exact fun _ => h.symm
      · exact hm id
  · unfold transferOutcome
    dsimp only
    split_ifs
    case neg =>
      dsimp only [transferredTable]
      rw [Function.update_apply, Function.update_apply]
      split
      · next h =>
          subst h
          exact hm _
      split
      · next h =>
          subst h
          exact hm _
      · exact hm id
    all_goals exact hm id
  · exact hm id

section Runs

variable {n : ℕ} {W : World (Thread n)} {serverFifoFD shutdownFD : Int}
  {tr : List (ServerEvent n W)} {c : Config (Thread n) ServerOp ServerRes (ServerState n W) Ctl}

/-- **Independent requests commute.** Take the table of accounts in any state of any run in which
`generateHash` succeeds, and two requests, each to create an account with a given salt, to ask for a
balance or to make a transfer, of which neither writes an account that the other one names. Managed in
either order, they get the same two replies, and they leave the same table. -/
theorem independent_requests_commute (setup : Setup) (hhash : W.HashesBy hash)
    (h : (server n W serverFifoFD shutdownFD).Run tr c) {first second : TlvRequest}
    (hfirst : first.IsOrdinary) (hsecond : second.IsOrdinary)
    (hdisjoint : Disjoint first.written second.named) (hdisjoint' : Disjoint second.written first.named)
    {salt salt' : Bytes} {ans ans' : (e : Ext) → Option e.Res} (hans : Answers hash salt ans)
    (hans' : Answers hash salt' ans') :
    ∃ reply reply' m₁ m₂ m',
      ((manageRequest setup first).solo table ans c.shared.cells = some (reply, m₁) ∧
        (manageRequest setup second).solo table ans' m₁ = some (reply', m')) ∧
      (manageRequest setup second).solo table ans' c.shared.cells = some (reply', m₂) ∧
        (manageRequest setup first).solo table ans m₂ = some (reply, m') := by
  obtain ⟨g, hinv, -⟩ := identifies_of_run hhash h
  have hm := hinv.identified
  have halone := solo_manageRequest_respond setup hans hm hfirst
  have halone' := solo_manageRequest_respond setup hans' hm hsecond
  have hafter := solo_manageRequest_respond setup hans' (identified_respond hash salt first hm) hsecond
  have hafter' := solo_manageRequest_respond setup hans (identified_respond hash salt' second hm) hfirst
  -- the replies and the table of the second order are those of the first one
  obtain ⟨hreply', hreply, htable⟩ := (hasFootprint_respond hash salt hfirst).commute
    (hasFootprint_respond hash salt' hsecond) hdisjoint hdisjoint' c.shared.cells
  refine ⟨(first.respond hash salt c.shared.cells).1, (second.respond hash salt' c.shared.cells).1,
    (first.respond hash salt c.shared.cells).2, (second.respond hash salt' c.shared.cells).2,
    (second.respond hash salt' (first.respond hash salt c.shared.cells).2).2,
    ⟨halone, ?_⟩, halone', ?_⟩
  · rw [hafter, ← hreply']
  · rw [hafter', htable, ← hreply]

end Runs

/-- The administrator creates the accounts 1 and 2, in either order. -/
theorem independent_requests_commute_creations :
    ∃ reply reply' m₁ m₂ m',
      ((manageRequest ⟨1, 3, 4⟩ (creationRequest 1 5)).solo table (Ext.answer (fun _ _ => [9]) [7])
          startedTable = some (reply, m₁) ∧
        (manageRequest ⟨1, 3, 4⟩ (creationRequest 2 6)).solo table (Ext.answer (fun _ _ => [9]) [8])
          m₁ = some (reply', m')) ∧
      (manageRequest ⟨1, 3, 4⟩ (creationRequest 2 6)).solo table (Ext.answer (fun _ _ => [9]) [8])
          startedTable = some (reply', m₂) ∧
        (manageRequest ⟨1, 3, 4⟩ (creationRequest 1 5)).solo table (Ext.answer (fun _ _ => [9]) [7])
          m₂ = some (reply, m') := by
  have hrun := System.Initial.run
    (initial_firstConfig (servingScript (Thread 1) []) [9] [7] (fun _ => 0) 3 4)
  have hhash : (servingScript (Thread 1) []).world.HashesBy fun _ _ => [9] := by
    intro t password salt w r w' h
    exact (Prod.mk.inj (Option.some.inj h)).1.symm
  have hfirst : (creationRequest 1 5).IsOrdinary := .inl rfl
  have hsecond : (creationRequest 2 6).IsOrdinary := .inl rfl
  exact independent_requests_commute ⟨1, 3, 4⟩ hhash hrun hfirst hsecond (by decide) (by decide)
    (answers_answer _ [7]) (answers_answer _ [8])

end Sope
