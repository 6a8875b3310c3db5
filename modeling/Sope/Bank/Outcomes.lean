import Sope.Bank.AccountIdentity
import Sope.Bank.Conservation

/-! # What a request does to the table

The tables that the server can reach (`ReachableTable`), and what each handler does to such a table when
it runs alone: its reply and the table that it leaves, as a function of the request and of the table
before. -/

namespace Sope

open Concurrency

variable {hash : Bytes → Bytes → Bytes} {salt : Bytes} {request : TlvRequest}
  {m : UInt32 → Slot} {ans : (e : Ext) → Option e.Res} {setup : Setup}

/-! ## Reachable tables -/

/-- The table of accounts in some state of some run of a server in which `generateHash` is the function
`hash`, from the creation of the administrator's account on, and the requests are within the limits. -/
def ReachableTable (hash : Bytes → Bytes → Bytes) (m : UInt32 → Slot) : Prop :=
  ∃ (n : ℕ) (W : World (Thread n)) (serverFifoFD shutdownFD : Int)
    (c₀ c : Config (Thread n) ServerOp ServerRes (ServerState n W) Ctl) (tr : List (ServerEvent n W))
    (adminPassword salt : Bytes),
    W.HashesBy hash ∧
      (setupAccounts adminPassword).solo table (Ext.answer hash salt) clearAccounts
        = some ((), c₀.shared.cells) ∧
      (server n W serverFifoFD shutdownFD).Initial c₀ ∧
      (server n W serverFifoFD shutdownFD).Path c₀ tr c ∧
      (∀ request ∈ pushed tr, request.Within 0) ∧ c.shared.cells = m

/-- Every account of a reachable table is sound. -/
theorem ReachableTable.sound (h : ReachableTable hash m) (id : UInt32) : (m id).Sound 0 id := by
  obtain ⟨n, W, serverFifoFD, shutdownFD, c₀, c, tr, adminPassword, salt, -, -, h₀, hp, hlimits, rfl⟩ := h
  obtain ⟨g, hinv, -⟩ := books_of_run (Nat.zero_le _) ⟨c₀, h₀, hp⟩ ⟨hlimits, .inl rfl⟩
  exact hinv.sound id

/-- The administrator's account is always there. -/
theorem ReachableTable.admin_used (h : ReachableTable hash m) : (m adminAccountId).used = true := by
  obtain ⟨n, W, serverFifoFD, shutdownFD, c₀, c, tr, adminPassword, salt, hhash, hsetup, h₀, hp, -,
    rfl⟩ := h
  have hstart : (c₀.shared.cells adminAccountId).used = true := by
    rw [← (Prod.mk.inj (Option.some.inj hsetup)).2]
    rfl
  exact (stable_of_path hhash h₀.run hp adminAccountId hstart).1

/-! ## The operation between its locks -/

theorem solo_opDelay (h : Answers hash salt ans) (delayMS : UInt32) :
    (opDelay delayMS).solo table ans m = some ((), m) := (Prog.solo_ext (h.usleep _)).trans rfl

/-- The locks of a transfer do nothing but delay. -/
theorem solo_doubleAccess (h : Answers hash salt ans) (id1 id2 delayMS : UInt32) :
    (getDoubleAccountAccess id1 id2 delayMS).solo table ans m = some ((), m) ∧
      (unlockDoubleAccount id1 id2).solo table ans m = some ((), m) := by
  unfold getDoubleAccountAccess unlockDoubleAccount
  split
  · exact ⟨solo_opDelay h _, rfl⟩
  · refine ⟨?_, rfl⟩
    rw [solo_lock, Prog.solo_bind, solo_opDelay h]
    exact solo_opDelay h _

/-- The operation of a request is its handler. -/
theorem solo_performRequest (h : Answers hash salt ans) :
    (performRequest setup request).solo table ans m = match request.type with
      | .opCreateAccount => (handleCreateAccountRequest request).solo table ans m
      | .opBalance => (handleBalanceRequest request).solo table ans m
      | .opTransfer => (handleTransferRequest request).solo table ans m
      | .opShutdown => (handleShutdownRequest setup request).solo table ans m
      | .opMaxNumber => (sys .unassignedReply).solo table ans m := by
  have hsingle : ∀ id m, (getSingleAccountAccess id request.value.header.opDelayMs).solo table ans m
      = some ((), m) := fun id m => solo_opDelay h _
  unfold performRequest
  cases request.type with
  | opCreateAccount => exact solo_locked (hsingle _) fun _ => rfl
  | opBalance => exact solo_locked (hsingle _) fun _ => rfl
  | opTransfer =>
      exact solo_locked (fun _ => (solo_doubleAccess h _ _ _).1) fun _ => (solo_doubleAccess h _ _ 0).2
  | opShutdown => rfl
  | opMaxNumber => rfl

/-! ## The handlers -/

/-- The record of a new account. -/
def createdSlot (request : TlvRequest) (hash salt : Bytes) : Slot :=
  ⟨true, ⟨request.value.create.accountId, hash, salt, request.value.create.balance⟩⟩

/-- `createAccount`, alone, with whatever `generateHash` returns: without a hash nothing is written. -/
theorem solo_createAccount {id balance : UInt32} {password : Bytes} {result : Option Bytes}
    (hsalt : ans (.sys .generateSalt) = some salt)
    (hhash : ans (.sys (.generateHash password salt)) = some result) :
    (createAccount id balance password).solo table ans m = some ((), match result with
      | none => m
      | some hash => Function.update m id ⟨true, ⟨id, hash, salt, balance⟩⟩) := by
  refine (Prog.solo_ext hsalt).trans ((Prog.solo_ext hhash).trans ?_)
  cases result with
  | none => rfl
  | some hash =>
      change some ((), _) = some ((), _)
      simp [table]

/-- What `handleCreateAccountRequest` replies, and the table that it leaves. -/
def createOutcome (hash : Bytes → Bytes → Bytes) (salt : Bytes) (request : TlvRequest)
    (m : UInt32 → Slot) : TlvReply × (UInt32 → Slot) :=
  if request.value.header.accountId ≠ adminAccountId then (makeErrorReply .opNallow request, m)
  else if (m request.value.create.accountId).used then (makeErrorReply .idInUse request, m)
  else (makeCreateReply request.value.header.accountId,
    Function.update m request.value.create.accountId (createdSlot request
      (hash (cString request.value.create.password) salt) salt))

/-- `handleCreateAccountRequest`, alone. -/
theorem solo_handleCreate (h : Answers hash salt ans) :
    (handleCreateAccountRequest request).solo table ans m
      = some (createOutcome hash salt request m) := by
  refine (Prog.solo_ext (h.mark _)).trans ?_
  unfold createOutcome
  dsimp only
  split
  · rfl
  · refine solo_getAccount.trans ?_
    cases hused : (m request.value.create.accountId).used with
    | true => rfl
    | false =>
        change (createAccount _ _ _ >>= _ : Server TlvReply).solo _ _ _ = _
        rw [Prog.solo_bind, solo_createAccount h.generateSalt (h.generateHash _ _)]
        rfl

/-- What `handleBalanceRequest` replies. -/
def balanceOutcome (request : TlvRequest) (m : UInt32 → Slot) : TlvReply :=
  if request.value.header.accountId ≠ adminAccountId then
    makeBalanceReply (m request.value.header.accountId).account.accountId
      (m request.value.header.accountId).account.balance
  else makeErrorReply .opNallow request

/-- `handleBalanceRequest`, alone, for an account that is used. -/
theorem solo_handleBalance (h : Answers hash salt ans)
    (hused : (m request.value.header.accountId).used = true) :
    (handleBalanceRequest request).solo table ans m = some (balanceOutcome request m, m) := by
  refine (Prog.solo_ext (h.mark _)).trans ?_
  unfold balanceOutcome
  split
  · refine solo_getAccount.trans ?_
    rw [if_pos hused]
    refine (solo_read (a := .readAccountId request.value.header.accountId) rfl rfl).trans ?_
    exact solo_read (a := .readBalance request.value.header.accountId) rfl rfl
  · rfl

/-- The table after a transfer: exactly the amount moves from one account to the other. -/
def transferredTable (request : TlvRequest) (m : UInt32 → Slot) : UInt32 → Slot :=
  let src := m request.value.header.accountId
  let dest := m request.value.transfer.accountId
  Function.update (Function.update m request.value.header.accountId
      { src with account :=
        { src.account with balance := src.account.balance - request.value.transfer.amount } })
    request.value.transfer.accountId
    { dest with account :=
      { dest.account with balance := dest.account.balance + request.value.transfer.amount } }

/-- What `handleTransferRequest` replies, and the table that it leaves. -/
def transferOutcome (request : TlvRequest) (m : UInt32 → Slot) : TlvReply × (UInt32 → Slot) :=
  let src := (m request.value.header.accountId).account
  let dest := (m request.value.transfer.accountId).account
  let refused (retCode : RetCode) := (makeTransferReply src.accountId src.balance retCode, m)
  if src.accountId = adminAccountId then refused .opNallow
  else if (m request.value.transfer.accountId).used = false then refused .idNotFound
  else if dest.accountId = adminAccountId then refused .opNallow
  else if src.accountId = request.value.transfer.accountId then refused .sameId
  else if src.balance < request.value.transfer.amount then refused .noFunds
  else if (dest.balance + request.value.transfer.amount).toNat > maxBalance then refused .tooHigh
  else (makeTransferReply src.accountId (src.balance - request.value.transfer.amount) .ok,
    transferredTable request m)

/-- The reply of a transfer, alone. -/
theorem solo_transferReply {src : UInt32} {retCode : RetCode} :
    (transferReply src retCode).solo table ans m
      = some (makeTransferReply (m src).account.accountId (m src).account.balance retCode, m) :=
  (solo_read (a := .readAccountId src) rfl rfl).trans (solo_read (a := .readBalance src) rfl rfl)

/-- Debiting one account and crediting another one, alone. -/
theorem solo_moveAmount (h : Answers hash salt ans)
    (hne : request.value.header.accountId ≠ request.value.transfer.accountId) :
    (moveAmount request.value.header.accountId request.value.transfer.accountId
        request.value.transfer.amount).solo table ans m
      = some (makeTransferReply (m request.value.header.accountId).account.accountId
          ((m request.value.header.accountId).account.balance - request.value.transfer.amount) .ok,
        transferredTable request m) := by
  refine (solo_read (a := .readBalance request.value.header.accountId) rfl rfl).trans ?_
  refine (Prog.solo_ext (h.sub _ _)).trans ?_
  -- the debit
  let m₁ := Function.update m request.value.header.accountId
    { m request.value.header.accountId with account :=
      { (m request.value.header.accountId).account with balance :=
        (m request.value.header.accountId).account.balance - request.value.transfer.amount } }
  have hdest : m₁ request.value.transfer.accountId = m request.value.transfer.accountId :=
    Function.update_of_ne hne.symm _ _
  change (access (.readBalance request.value.transfer.accountId) >>= _ : Server TlvReply).solo _ _ m₁ = _
  refine (solo_read (a := .readBalance request.value.transfer.accountId) rfl rfl).trans ?_
  rw [show (table.run (.readBalance request.value.transfer.accountId)
    (m₁ (table.loc (.readBalance request.value.transfer.accountId)))).1
      = (m request.value.transfer.accountId).account.balance from
    congrArg (fun slot : Slot => slot.account.balance) hdest]
  refine (Prog.solo_ext (h.add _ _)).trans ?_
  -- the credit
  change (transferReply request.value.header.accountId .ok).solo table ans (Function.update m₁
    request.value.transfer.accountId { m₁ request.value.transfer.accountId with account :=
      { (m₁ request.value.transfer.accountId).account with balance :=
        (m request.value.transfer.accountId).account.balance + request.value.transfer.amount } }) = _
  have hsrc : m₁ request.value.header.accountId = { m request.value.header.accountId with account :=
      { (m request.value.header.accountId).account with balance :=
        (m request.value.header.accountId).account.balance - request.value.transfer.amount } } :=
    Function.update_self ..
  rw [hdest, solo_transferReply, Function.update_of_ne hne, hsrc]
  rfl

/-- `handleTransferRequest`, alone, for an account that is used and holds its own number. -/
theorem solo_handleTransfer (h : Answers hash salt ans)
    (hused : (m request.value.header.accountId).used = true)
    (hid : (m request.value.header.accountId).account.accountId = request.value.header.accountId) :
    (handleTransferRequest request).solo table ans m = some (transferOutcome request m) := by
  -- call by call, with the tests of the source in between
  refine (Prog.solo_ext (h.mark _)).trans ?_
  refine solo_getAccount.trans ?_
  rw [if_pos hused]
  refine solo_getAccount.trans ?_
  dsimp only
  refine (solo_read (a := .readAccountId request.value.header.accountId) rfl rfl).trans ?_
  unfold transferOutcome
  change (if (m request.value.header.accountId).account.accountId = adminAccountId then _ else _ :
    Server TlvReply).solo table ans m = _
  dsimp only
  split
  · exact solo_transferReply
  cases hdest : (m request.value.transfer.accountId).used with
  | false => exact solo_transferReply
  | true =>
      rw [if_pos rfl, if_neg (show ¬ true = false by decide)]
      refine (solo_read (a := .readAccountId request.value.transfer.accountId) rfl rfl).trans ?_
      change (if (m request.value.transfer.accountId).account.accountId = adminAccountId then _ else _ :
        Server TlvReply).solo table ans m = _
      split
      · exact solo_transferReply
      refine (solo_read (a := .readAccountId request.value.header.accountId) rfl rfl).trans ?_
      change (if (m request.value.header.accountId).account.accountId
        = request.value.transfer.accountId then _ else _ : Server TlvReply).solo table ans m = _
      split
      · exact solo_transferReply
      next hne =>
      rw [hid] at hne
      refine (solo_read (a := .readBalance request.value.header.accountId) rfl rfl).trans ?_
      change (if (m request.value.header.accountId).account.balance
        < request.value.transfer.amount then _ else _ : Server TlvReply).solo table ans m = _
      split
      · exact solo_transferReply
      refine (solo_read (a := .readBalance request.value.transfer.accountId) rfl rfl).trans ?_
      refine (Prog.solo_ext (h.add _ _)).trans ?_
      change (if ((m request.value.transfer.accountId).account.balance
        + request.value.transfer.amount).toNat > maxBalance then _ else _ :
          Server TlvReply).solo table ans m = _
      split
      · exact solo_transferReply
      · exact solo_moveAmount h hne

end Sope
