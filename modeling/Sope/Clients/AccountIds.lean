import Sope.Bank.Sequential
import Sope.Bank.Footprints
import Sope.Clients.Arguments
import Sope.Concurrency.Usage

/-! # The account numbers of a request as indices

The user program refuses account numbers above `MAX_BANK_ACCOUNTS`, and the server uses the numbers of
a request as indices of `accountMutexes`, `accounts` and `usedAccounts`, arrays of
`MAX_BANK_ACCOUNTS` entries. So every index is within the arrays exactly for the arguments that do not
name the account `MAX_BANK_ACCOUNTS` itself (`indices_within_iff`). -/

namespace Sope

open Concurrency

/-- The account numbers in the arguments of a user program: the first argument and, for a creation or
a transfer, the first word of the last one. -/
def UserArgs.accountIds (args : UserArgs) : List Int32 :=
  args.id :: if args.opcode = 0 ∨ args.opcode = 2 then
    ((tokens args.args).head?.map atoi).toList else []

/-- Requests that agree are about the same accounts. -/
theorem TlvRequest.Same.accountIds {request request' : TlvRequest} (h : request.Same request') :
    request'.accountIds = request.accountIds := by
  unfold TlvRequest.accountIds
  rw [h.type, h.header]
  cases htype : request.type with
  | opCreateAccount => simp only [h.create htype]
  | opTransfer => simp only [h.transfer htype]
  | _ => rfl

/-! ## From the arguments to the request -/

section

variable {args : UserArgs} {pid : UInt32} {locals : Locals} {request : TlvRequest}

/-- A creation is about the account in the first word, which is not too large. -/
theorem makeCreateAccReq_accountId {create : ReqCreateAccount}
    (h : makeCreateAccReq args.args locals = some create) :
    [create.accountId] = ((tokens args.args).head?.map atoi).toList.map Int32.toUInt32 ∧
      create.accountId.toNat ≤ maxBankAccounts := by
  unfold makeCreateAccReq at h
  split at h
  · next accId balance password rest htokens =>
      dsimp only at h
      split_ifs at h with hid hbalance hpassword
      cases h
      rw [htokens]
      exact ⟨rfl, Nat.le_of_not_lt (not_or.mp hid).2⟩
  · cases h

/-- So is a transfer. -/
theorem makeTransferReq_accountId {transfer : ReqTransfer}
    (h : makeTransferReq args.args = some transfer) :
    [transfer.accountId] = ((tokens args.args).head?.map atoi).toList.map Int32.toUInt32 ∧
      transfer.accountId.toNat ≤ maxBankAccounts := by
  unfold makeTransferReq at h
  split at h
  · next accId amount rest htokens =>
      dsimp only at h
      split_ifs at h with hid hamount
      cases h
      rw [htokens]
      exact ⟨rfl, Nat.le_of_not_lt (not_or.mp hid).2⟩
  · cases h

/-- A number of the right size is converted to `uint32_t` and back without loss. -/
theorem toUInt32_eq_iff {a b : Int32} : a.toUInt32 = b.toUInt32 ↔ a = b :=
  ⟨fun h => by cases a; cases b; exact congrArg _ h, congrArg _⟩

/-- The code of an operation, from its number. -/
theorem ofWord_toUInt32_eq (opcode : Int32) :
    (OpType.ofWord opcode.toUInt32 = .opCreateAccount ↔ opcode = 0) ∧
      (OpType.ofWord opcode.toUInt32 = .opTransfer ↔ opcode = 2) := by
  have h0 : opcode.toUInt32 = 0 ↔ opcode = 0 := toUInt32_eq_iff
  have h2 : opcode.toUInt32 = 2 ↔ opcode = 2 := toUInt32_eq_iff
  rw [← h0, ← h2]
  unfold OpType.ofWord
  constructor
  · split_ifs <;> simp_all
  · split_ifs <;> simp_all

/-- **The accounts of a request are those that the arguments name**, and none is too large for the
user program. -/
theorem createRequest_accountIds (h : createRequest args pid locals = some request) :
    request.accountIds = args.accountIds.map Int32.toUInt32 ∧
      ∀ i ∈ request.accountIds, i.toNat ≤ maxBankAccounts := by
  unfold createRequest at h
  split at h
  · cases h
  obtain ⟨header, hheader, h⟩ := Option.bind_eq_some_iff.mp h
  obtain ⟨-, hid, hle, -⟩ := makeReqHeader_spec hheader
  obtain ⟨hcreate, htransfer⟩ := ofWord_toUInt32_eq args.opcode
  unfold UserArgs.accountIds
  -- the three kinds of requests: with a new account, with a destination, with neither
  split at h
  · next htype =>
      obtain ⟨create, hreq, h⟩ := Option.bind_eq_some_iff.mp h
      cases h
      obtain ⟨hids, hmax⟩ := makeCreateAccReq_accountId hreq
      rw [if_pos (.inl (hcreate.mp htype)), List.map_cons, ← hids, ← hid]
      exact ⟨rfl, List.forall_mem_cons.mpr ⟨hle, List.forall_mem_singleton.mpr hmax⟩⟩
  · next htype =>
      obtain ⟨transfer, hreq, h⟩ := Option.bind_eq_some_iff.mp h
      cases h
      obtain ⟨hids, hmax⟩ := makeTransferReq_accountId hreq
      rw [if_pos (.inr (htransfer.mp htype)), List.map_cons, ← hids, ← hid]
      exact ⟨rfl, List.forall_mem_cons.mpr ⟨hle, List.forall_mem_singleton.mpr hmax⟩⟩
  · next hne hne' =>
      cases h
      have hop : ¬ (args.opcode = 0 ∨ args.opcode = 2) := by
        rintro (hop | hop)
        · exact hne (hcreate.mpr hop)
        · exact hne' (htransfer.mpr hop)
      rw [if_neg hop, List.map_singleton, ← hid]
      have hids : TlvRequest.accountIds ⟨OpType.ofWord args.opcode.toUInt32,
          UInt32.ofNat sizeofReqHeader, ⟨header, locals.value⟩⟩ = [header.accountId] := by
        unfold TlvRequest.accountIds
        dsimp only
        split
        · next htype => exact absurd htype hne
        · next htype => exact absurd htype hne'
        · rfl
      rw [hids]
      exact ⟨rfl, List.forall_mem_singleton.mpr hle⟩

end

/-! ## From the request to the indices -/

section

variable {P : UInt32 → Prop} {α : Type} {setup : Setup} {request : TlvRequest}

/-- A critical section uses the account it locks and what is used inside it. -/
theorem only_locked {get put : Server Unit} {handler : Server TlvReply} (hget : get.Only table P)
    (hhandler : handler.Only table P) (hput : put.Only table P) :
    (do get
        let reply ← handler
        put
        return reply : Server TlvReply).Only table P :=
  hget.bind fun _ => hhandler.bind fun _ => hput.bind fun _ => trivial

theorem only_getDoubleAccountAccess {id1 id2 : UInt32} (delayMS : UInt32) (h1 : P id1)
    (h2 : P id2) :
    (getDoubleAccountAccess id1 id2 delayMS).Only table P ∧
      (unlockDoubleAccount id1 id2).Only table P := by
  have hmin : P (if id1 < id2 then id1 else id2) := by split <;> assumption
  have hmax : P (if id1 > id2 then id1 else id2) := by split <;> assumption
  unfold getDoubleAccountAccess unlockDoubleAccount
  split
  · exact ⟨⟨h1, fun _ => trivial⟩, h1, trivial⟩
  · exact ⟨⟨hmin, fun _ => ⟨hmax, fun _ => trivial⟩⟩, hmax, hmin, trivial⟩

/-- The operation of a request uses no account but those of the request. -/
theorem only_performRequest (hP : ∀ i ∈ request.accountIds, P i) :
    (performRequest setup request).Only table P := by
  have hheader : P request.value.header.accountId := hP _ (List.mem_cons_self ..)
  unfold performRequest
  unfold TlvRequest.accountIds at hP
  cases htype : request.type with
  | opCreateAccount =>
      rw [htype] at hP
      have hid : P request.value.create.accountId := hP _ (by simp)
      exact only_locked ⟨hid, fun _ => trivial⟩
        ((touches_handleCreateAccountRequest (H := P) hid).only fun _ ha => ha) ⟨hid, trivial⟩
  | opBalance =>
      exact only_locked ⟨hheader, fun _ => trivial⟩
        ((views_handleBalanceRequest (H := P) hheader).only fun _ ha => ha.1) ⟨hheader, trivial⟩
  | opTransfer =>
      rw [htype] at hP
      have hid : P request.value.transfer.accountId := hP _ (by simp)
      have hlocks := only_getDoubleAccountAccess request.value.header.opDelayMs hheader hid
      exact only_locked hlocks.1
        ((computes_handleTransferRequest (H := P) hheader hid).only fun _ ha => ha.1) hlocks.2
  | opShutdown =>
      exact (calls_handleShutdownRequest setup request).only fun _ ha => ha.elim
  | opMaxNumber => exact fun _ => trivial

/-- **`manageRequest` uses no account but those of the request**, whatever happens meanwhile. -/
theorem only_manageRequest (setup : Setup) (hP : ∀ i ∈ request.accountIds, P i) :
    (manageRequest setup request).Only table P := by
  have hheader : P request.value.header.accountId := hP _ (List.mem_cons_self ..)
  have hsend : ∀ reply path, (sendReply reply path).Only table P := fun reply path =>
    (calls_sendReply reply path).only fun _ ha => ha.elim
  refine ⟨hheader, ((views_validateAccount (H := P) hheader).only fun _ ha => ha.1).bind
    fun invalid => ⟨hheader, ?_⟩⟩
  cases invalid with
  | some reply => exact (hsend _ _).bind fun _ => trivial
  | none => exact (only_performRequest hP).bind fun _ => (hsend _ _).bind fun _ => trivial

/-- A table in which every login succeeds with the hash of nothing. -/
def openTable : UInt32 → Slot := fun id => ⟨true, ⟨id, [], [], 0⟩⟩

/-- Every account of a request is used, from a table in which the login succeeds. -/
theorem uses_manageRequest (setup : Setup) {i : UInt32} (hi : i ∈ request.accountIds) :
    (manageRequest setup request).Uses table i openTable := by
  rcases List.mem_cons.mp hi with rfl | hi
  · exact .inl rfl
  have hlogin : (validateAccount request).solo table (Ext.answer (fun _ _ => []) []) openTable
      = some (none, openTable) := solo_validateAccount (answers_answer _ _)
  refine .inr (Prog.Uses.after (p := validateAccount request) hlogin (.inr ?_))
  change (performRequest setup request >>= _ : Server TlvReply).Uses table i openTable
  unfold performRequest
  cases htype : request.type with
  | opCreateAccount =>
      rw [htype] at hi
      exact .inl (List.mem_singleton.mp hi)
  | opTransfer =>
      rw [htype] at hi
      obtain rfl := List.mem_singleton.mp hi
      by_cases hid : request.value.header.accountId = request.value.transfer.accountId
      · rw [getDoubleAccountAccess, if_pos hid]
        exact .inl hid.symm
      · obtain ⟨lo, hi, -, hids, hget, -⟩ :=
          getDoubleAccountAccess_of_ne hid request.value.header.opDelayMs
        rw [hget]
        rcases hids with ⟨-, hid⟩ | ⟨-, hid⟩
        · exact .inr ⟨(), .inl hid⟩
        · exact .inl hid
  | _ => rw [htype] at hi; cases hi

end

/-! ## From the arguments to the indices -/

/-- The largest number that the user program accepts is not an index. -/
theorem lt_maxBankAccounts_iff {id : Int32} (h : id.toUInt32.toNat ≤ maxBankAccounts) :
    id.toUInt32.toNat < maxBankAccounts ↔ id ≠ 4096 := by
  have hid : id.toUInt32.toNat = maxBankAccounts ↔ id = 4096 := by
    constructor
    · intro he
      exact toUInt32_eq_iff.mp (UInt32.toNat_inj.mp he)
    · rintro rfl
      rfl
  rw [Ne, ← hid]
  omega

/-- The request that a user program makes of its arguments. -/
def requestOfArgs (argv : List Bytes) (pid : UInt32) (locals : Locals) : Option TlvRequest := do
  let args ← processUserArgs argv
  createRequest args pid locals

/-- The account numbers in an argument vector. -/
def accountIdsOfArgs (argv : List Bytes) : List Int32 :=
  (processUserArgs argv).elim [] UserArgs.accountIds

/-- **Every index is within the arrays exactly if the arguments do not name the account 4096.** Here
`handled` is the request as the server decodes it, which agrees with the one that was sent. -/
theorem indices_within_iff (setup : Setup) {argv : List Bytes} {pid : UInt32} {locals : Locals}
    {request handled : TlvRequest} (hrequest : requestOfArgs argv pid locals = some request)
    (hsame : request.Same handled) :
    (∀ (m : UInt32 → Slot) (i : UInt32), (manageRequest setup handled).Uses table i m →
        i.toNat < maxBankAccounts) ↔
      ∀ id ∈ accountIdsOfArgs argv, id ≠ 4096 := by
  obtain ⟨args, hargs, hrequest⟩ := Option.bind_eq_some_iff.mp hrequest
  obtain ⟨hids, hmax⟩ := createRequest_accountIds hrequest
  rw [← hsame.accountIds] at hids hmax
  rw [accountIdsOfArgs, hargs, Option.elim_some]
  constructor
  · intro h id hid
    have hmem : id.toUInt32 ∈ handled.accountIds := hids ▸ List.mem_map_of_mem hid
    exact (lt_maxBankAccounts_iff (hmax _ hmem)).mp (h _ _ (uses_manageRequest setup hmem))
  · intro h m i hi
    have hmem := (only_manageRequest setup fun _ hj => hj).of_uses hi
    have hle := hmax i hmem
    rw [hids] at hmem
    obtain ⟨id, hid, rfl⟩ := List.mem_map.mp hmem
    exact (lt_maxBankAccounts_iff hle).mpr (h id hid)

/-- Memory full of zeros, as what the local variables hold before they are assigned. -/
def zeroLocals : Locals where
  header := List.replicate 33 0
  header_length := rfl
  value := ⟨0, 0, List.replicate 21 0⟩
  value_length := rfl
  password := List.replicate 21 0
  password_length := rfl

/-- `./user <id> "" 0 1 ""`, a request for the balance of an account; the number of the account is in
decimal digits. -/
def balanceArgs (id : Bytes) : List Bytes := [[46, 47, 117, 115, 101, 114], id, [], [48], [49], []]

/-- The account 4095 is within the arrays. -/
theorem indices_within_last : ∃ request,
    requestOfArgs (balanceArgs [52, 48, 57, 53]) 100 zeroLocals = some request ∧
      ∀ (m : UInt32 → Slot) (i : UInt32), (manageRequest ⟨1, 3, 4⟩ request).Uses table i m →
        i.toNat < maxBankAccounts := by
  obtain ⟨request, hrequest⟩ := Option.isSome_iff_exists.mp
    (by decide +kernel :
      (requestOfArgs (balanceArgs [52, 48, 57, 53]) 100 zeroLocals).isSome = true)
  have hids : (accountIdsOfArgs (balanceArgs [52, 48, 57, 53])).all (· ≠ 4096) = true := by decide +kernel
  refine ⟨request, hrequest, ?_⟩
  refine (indices_within_iff ⟨1, 3, 4⟩ hrequest ⟨rfl, rfl, rfl, fun _ => rfl, fun _ => rfl⟩).mpr ?_
  intro id hid
  exact of_decide_eq_true (List.all_eq_true.mp hids id hid)

/-- **The account 4096 is accepted by the user program and not within the arrays.** -/
theorem exists_index_outside : ∃ request,
    requestOfArgs (balanceArgs [52, 48, 57, 54]) 100 zeroLocals = some request ∧
      ∃ (m : UInt32 → Slot) (i : UInt32), (manageRequest ⟨1, 3, 4⟩ request).Uses table i m ∧
        ¬ i.toNat < maxBankAccounts := by
  obtain ⟨request, hrequest, hid⟩ : ∃ request,
      requestOfArgs (balanceArgs [52, 48, 57, 54]) 100 zeroLocals = some request ∧
        request.value.header.accountId = 4096 := by
    refine ⟨_, rfl, ?_⟩
    decide +kernel
  refine ⟨request, hrequest, openTable, 4096, ?_, by decide⟩
  rw [← hid]
  exact .inl rfl

end Sope
