import Sope.Bank.Outcomes

/-! # Authorised effects

What `manageRequest` does to a reachable table when it runs alone: it changes the table in exactly two
cases, an authorised transfer and an authorised creation, and answers `OK` exactly in these two and for
an authorised enquiry or shutdown (`authorised_effects`).

A creation for which `generateHash` fails changes nothing, and is answered with `OK` all the same
(`created_iff_hash`). -/

namespace Sope

open Concurrency

variable {hash : Bytes → Bytes → Bytes} {salt : Bytes} {request : TlvRequest}
  {m m' : UInt32 → Slot} {ans : (e : Ext) → Option e.Res} {setup : Setup}

/-! ## What is authorised -/

/-- The header names a used account, whose hash matches the password. -/
def TlvRequest.Login (hash : Bytes → Bytes → Bytes) (request : TlvRequest) (m : UInt32 → Slot) :
    Prop :=
  (m request.value.header.accountId).used = true ∧
    hash (cString request.value.header.password) (m request.value.header.accountId).account.salt
      = (m request.value.header.accountId).account.hash

/-- The request is a transfer that may be made. -/
structure TlvRequest.MayTransfer (hash : Bytes → Bytes → Bytes) (request : TlvRequest)
    (m : UInt32 → Slot) : Prop where
  type : request.type = .opTransfer
  login : request.Login hash m
  src_ne : request.value.header.accountId ≠ adminAccountId
  dest_used : (m request.value.transfer.accountId).used = true
  dest_ne : request.value.transfer.accountId ≠ adminAccountId
  ne : request.value.transfer.accountId ≠ request.value.header.accountId
  funds : request.value.transfer.amount.toNat
    ≤ (m request.value.header.accountId).account.balance.toNat
  fits : (m request.value.transfer.accountId).account.balance.toNat
    + request.value.transfer.amount.toNat ≤ maxBalance

/-- The request is a creation that may be made. -/
structure TlvRequest.MayCreate (hash : Bytes → Bytes → Bytes) (request : TlvRequest)
    (m : UInt32 → Slot) : Prop where
  type : request.type = .opCreateAccount
  login : request.Login hash m
  admin : request.value.header.accountId = adminAccountId
  unused : (m request.value.create.accountId).used = false

/-- The request is an enquiry or a shutdown that may be made. -/
structure TlvRequest.MayAsk (hash : Bytes → Bytes → Bytes) (request : TlvRequest)
    (m : UInt32 → Slot) : Prop where
  login : request.Login hash m
  allowed : request.type = .opBalance ∧ request.value.header.accountId ≠ adminAccountId ∨
    request.type = .opShutdown ∧ request.value.header.accountId = adminAccountId

/-! ## Effects -/

/-- Exactly the amount moves from the source to the destination. -/
structure TlvRequest.MovesAmount (request : TlvRequest) (m m' : UInt32 → Slot) : Prop where
  debit : (m' request.value.header.accountId).account.balance.toNat
    + request.value.transfer.amount.toNat
      = (m request.value.header.accountId).account.balance.toNat
  credit : (m' request.value.transfer.accountId).account.balance.toNat
    = (m request.value.transfer.accountId).account.balance.toNat
      + request.value.transfer.amount.toNat
  kept : ∀ id, (m' id).used = (m id).used ∧ (m' id).account.accountId = (m id).account.accountId ∧
    (m' id).account.hash = (m id).account.hash ∧ (m' id).account.salt = (m id).account.salt
  frame : ∀ id, id ≠ request.value.header.accountId → id ≠ request.value.transfer.accountId →
    m' id = m id

/-- Exactly the requested account is added, with a hash that accepts the password. -/
structure TlvRequest.AddsAccount (accepts : Bytes → Bytes → Bytes → Prop) (request : TlvRequest)
    (m m' : UInt32 → Slot) : Prop where
  used : (m' request.value.create.accountId).used = true
  accountId : (m' request.value.create.accountId).account.accountId = request.value.create.accountId
  balance : (m' request.value.create.accountId).account.balance = request.value.create.balance
  accepts : accepts (cString request.value.create.password)
    (m' request.value.create.accountId).account.salt (m' request.value.create.accountId).account.hash
  frame : ∀ id, id ≠ request.value.create.accountId → m' id = m id

/-- A hash function accepts a password with the hash that it has. -/
def acceptedBy (hash : Bytes → Bytes → Bytes) (password salt stored : Bytes) : Prop :=
  hash password salt = stored

/-- A new account is what was requested. -/
theorem addsAccount_createdSlot (stored salt : Bytes) {accepts : Bytes → Bytes → Bytes → Prop}
    (h : accepts (cString request.value.create.password) salt stored) :
    request.AddsAccount accepts m
      (Function.update m request.value.create.accountId (createdSlot request stored salt)) := by
  have hself := Function.update_self request.value.create.accountId (createdSlot request stored salt) m
  refine ⟨?_, ?_, ?_, ?_, fun id hid => Function.update_of_ne hid _ _⟩
  · rw [hself]
    rfl
  · rw [hself]
    rfl
  · rw [hself]
    rfl
  · rw [hself]
    exact h

/-- A transfer between different accounts, with enough in the source and room in the destination. -/
theorem movesAmount_transferredTable
    (hne : request.value.transfer.accountId ≠ request.value.header.accountId)
    (hfunds : request.value.transfer.amount.toNat
      ≤ (m request.value.header.accountId).account.balance.toNat)
    (hfits : (m request.value.transfer.accountId).account.balance.toNat
      + request.value.transfer.amount.toNat ≤ maxBalance) :
    request.MovesAmount m (transferredTable request m) := by
  have hsrc : transferredTable request m request.value.header.accountId =
      { m request.value.header.accountId with account :=
        { (m request.value.header.accountId).account with balance :=
          (m request.value.header.accountId).account.balance - request.value.transfer.amount } } := by
    unfold transferredTable
    rw [Function.update_of_ne hne.symm, Function.update_self]
  have hdest : transferredTable request m request.value.transfer.accountId =
      { m request.value.transfer.accountId with account :=
        { (m request.value.transfer.accountId).account with balance :=
          (m request.value.transfer.accountId).account.balance + request.value.transfer.amount } } :=
    Function.update_self ..
  have hframe : ∀ id, id ≠ request.value.header.accountId → id ≠ request.value.transfer.accountId →
      transferredTable request m id = m id := by
    intro id hs hd
    unfold transferredTable
    rw [Function.update_of_ne hd, Function.update_of_ne hs]
  -- neither the subtraction nor the addition wraps
  refine ⟨?_, ?_, fun id => ?_, hframe⟩
  · rw [hsrc]
    dsimp only
    rw [UInt32.toNat_sub_of_le _ _ (UInt32.le_iff_toNat_le.mpr hfunds)]
    omega
  · rw [hdest]
    dsimp only
    rw [UInt32.toNat_add, Nat.mod_eq_of_lt]
    rw [maxBalance] at hfits
    omega
  · by_cases hs : id = request.value.header.accountId
    · subst hs
      rw [hsrc]
      exact ⟨rfl, rfl, rfl, rfl⟩
    by_cases hd : id = request.value.transfer.accountId
    · subst hd
      rw [hdest]
      exact ⟨rfl, rfl, rfl, rfl⟩
    rw [hframe id hs hd]
    exact ⟨rfl, rfl, rfl, rfl⟩

/-! ## The handlers -/

/-- An amount that is at most one balance, added to another one: the sum does not wrap. -/
theorem toNat_add_amount {src dest : Slot} {id id' amount : UInt32} (hsrc : src.Sound 0 id)
    (hdest : dest.Sound 0 id') (hused : src.used = true) (hused' : dest.used = true)
    (hle : amount.toNat ≤ src.account.balance.toNat) :
    (dest.account.balance + amount).toNat = dest.account.balance.toNat + amount.toNat := by
  have hmax := hsrc.le_max hused
  have hmax' := hdest.le_max hused'
  rw [UInt32.toNat_add, Nat.mod_eq_of_lt]
  rw [maxBalance] at hmax hmax'
  omega

/-- What a transfer of a logged-in user does, by the tests of `handleTransferRequest`: either all of
them allow it, or it is refused and changes nothing. -/
theorem transferOutcome_cases (hm : ∀ id, (m id).Sound 0 id) (htype : request.type = .opTransfer)
    (hlogin : request.Login hash m) :
    (request.MayTransfer hash m ∧ (transferOutcome request m).1.value.header.retCode = .ok ∧
        (transferOutcome request m).2 = transferredTable request m) ∨
      (¬ request.MayTransfer hash m ∧ (transferOutcome request m).1.value.header.retCode ≠ .ok ∧
        (transferOutcome request m).2 = m) := by
  have hsrc := (hm request.value.header.accountId).accountId hlogin.1
  -- one test after the other; each that fails contradicts one clause of `MayTransfer`
  unfold transferOutcome
  dsimp only
  rw [hsrc]
  split
  · next h => exact .inr ⟨fun ht => ht.src_ne h, nofun, rfl⟩
  next hs =>
  split
  · next h =>
      refine .inr ⟨fun ht => ?_, nofun, rfl⟩
      rw [ht.dest_used] at h
      cases h
  next hused =>
  have hused : (m request.value.transfer.accountId).used = true := by
    rwa [Bool.not_eq_false] at hused
  have hdest := (hm request.value.transfer.accountId).accountId hused
  rw [hdest]
  split
  · next h => exact .inr ⟨fun ht => ht.dest_ne h, nofun, rfl⟩
  next hd =>
  split
  · next h => exact .inr ⟨fun ht => ht.ne h.symm, nofun, rfl⟩
  next hne =>
  split
  · next h =>
      have := UInt32.lt_iff_toNat_lt.mp h
      refine .inr ⟨fun ht => ?_, nofun, rfl⟩
      have := ht.funds
      omega
  next hlt =>
  have hle : request.value.transfer.amount.toNat
      ≤ (m request.value.header.accountId).account.balance.toNat :=
    UInt32.le_iff_toNat_le.mp (UInt32.not_lt.mp hlt)
  -- the sum is tested as it is computed, in 32 bits
  rw [toNat_add_amount (hm _) (hm _) hlogin.1 hused hle]
  split
  · next h =>
      refine .inr ⟨fun ht => ?_, nofun, rfl⟩
      have := ht.fits
      omega
  · next h =>
      exact .inl ⟨⟨htype, hlogin, hs, hused, hd, fun he => hne he.symm, hle, Nat.le_of_not_lt h⟩,
        rfl, rfl⟩

/-- What a creation of a logged-in user does. -/
theorem createOutcome_cases (salt : Bytes) (htype : request.type = .opCreateAccount)
    (hlogin : request.Login hash m) :
    (request.MayCreate hash m ∧ (createOutcome hash salt request m).1.value.header.retCode = .ok ∧
        request.AddsAccount (acceptedBy hash) m (createOutcome hash salt request m).2) ∨
      (¬ request.MayCreate hash m ∧
        (createOutcome hash salt request m).1.value.header.retCode ≠ .ok ∧
        (createOutcome hash salt request m).2 = m) := by
  unfold createOutcome
  split
  · next h => exact .inr ⟨fun hc => h hc.admin, nofun, rfl⟩
  next hadmin =>
  have hadmin : request.value.header.accountId = adminAccountId := not_not.mp hadmin
  split
  · next h =>
      refine .inr ⟨fun hc => ?_, nofun, rfl⟩
      rw [hc.unused] at h
      cases h
  · next h =>
      exact .inl ⟨⟨htype, hlogin, hadmin, Bool.eq_false_iff.mpr h⟩, rfl,
        addsAccount_createdSlot _ _ rfl⟩

/-- A login is what `checkLogin` checks. -/
theorem login_iff : request.Login hash m ↔
    checkLogin hash request (m request.value.header.accountId) = none := by
  constructor
  · rintro ⟨hused, haccepts⟩
    rw [checkLogin, if_pos hused, if_neg (not_not.mpr haccepts)]
  · exact fun h => checkLogin_eq_none h

/-- A login that fails is not answered with `OK`. -/
theorem retCode_of_checkLogin {slot : Slot} {reply : TlvReply}
    (h : checkLogin hash request slot = some reply) :
    reply.value.header.retCode = if slot.used then .loginFail else .idNotFound := by
  unfold checkLogin at h
  split at h
  · next hused =>
      split at h
      · cases h
        rw [if_pos hused]
        rfl
      · cases h
  · next hused =>
      cases h
      rw [if_neg hused]
      rfl

/-! ## `manageRequest` -/

/-- The return code with which `manageRequest` answers, and the table that it leaves. -/
def manageOutcome (hash : Bytes → Bytes → Bytes) (salt : Bytes) (request : TlvRequest)
    (m : UInt32 → Slot) : RetCode × (UInt32 → Slot) :=
  match checkLogin hash request (m request.value.header.accountId) with
  | some reply => (reply.value.header.retCode, m)
  | none =>
      match request.type with
      | .opCreateAccount => ((createOutcome hash salt request m).1.value.header.retCode,
          (createOutcome hash salt request m).2)
      | .opBalance => ((balanceOutcome request m).value.header.retCode, m)
      | .opTransfer => ((transferOutcome request m).1.value.header.retCode,
          (transferOutcome request m).2)
      | .opShutdown => ((shutdownReply request).value.header.retCode, m)
      | .opMaxNumber => (.ok, m)

theorem retCode_withoutActiveOffices (reply : TlvReply) :
    reply.withoutActiveOffices.value.header.retCode = reply.value.header.retCode := by
  unfold TlvReply.withoutActiveOffices
  split <;> rfl

/-- `manageRequest`, alone, on a table of sound accounts. -/
theorem solo_manageRequest_outcome (setup : Setup) (h : Answers hash salt ans)
    (hm : ∀ id, (m id).Sound 0 id)
    (htype : request.type ≠ .opMaxNumber) :
    ∃ reply, (manageRequest setup request).solo table ans m
        = some (reply, (manageOutcome hash salt request m).2) ∧
      reply.value.header.retCode = (manageOutcome hash salt request m).1 := by
  rw [solo_manageRequest h, manageOutcome]
  cases hlogin : checkLogin hash request (m request.value.header.accountId) with
  | some reply => exact ⟨reply, rfl, rfl⟩
  | none =>
      dsimp only
      have hused := used_of_checkLogin hlogin
      rw [solo_performRequest h]
      cases htype' : request.type with
      | opCreateAccount => exact ⟨_, solo_handleCreate h, rfl⟩
      | opBalance => exact ⟨_, solo_handleBalance h hused, rfl⟩
      | opTransfer => exact ⟨_, solo_handleTransfer h hused ((hm _).accountId hused), rfl⟩
      | opShutdown =>
          obtain ⟨reply, hsolo, hreply⟩ := solo_handleShutdownRequest h setup request m
          refine ⟨reply, hsolo, ?_⟩
          rw [← retCode_withoutActiveOffices, hreply]
      | opMaxNumber => exact absurd htype' htype

/-- What `manageRequest` does, by the operation of the request: it makes a transfer, makes a creation,
answers a question, or refuses. -/
theorem manageOutcome_cases (hash : Bytes → Bytes → Bytes) (salt : Bytes)
    (hm : ∀ id, (m id).Sound 0 id)
    (htype : request.type ≠ .opMaxNumber) :
    (request.MayTransfer hash m ∧ (manageOutcome hash salt request m).1 = .ok ∧
        (manageOutcome hash salt request m).2 = transferredTable request m) ∨
      (request.MayCreate hash m ∧ (manageOutcome hash salt request m).1 = .ok ∧
        request.AddsAccount (acceptedBy hash) m (manageOutcome hash salt request m).2) ∨
      (request.MayAsk hash m ∧ (manageOutcome hash salt request m).1 = .ok ∧
        (manageOutcome hash salt request m).2 = m) ∨
      (¬ request.MayTransfer hash m ∧ ¬ request.MayCreate hash m ∧ ¬ request.MayAsk hash m ∧
        (manageOutcome hash salt request m).1 ≠ .ok ∧ (manageOutcome hash salt request m).2 = m) := by
  unfold manageOutcome
  cases hlogin : checkLogin hash request (m request.value.header.accountId) with
  | some reply =>
      -- the login fails, and nothing may be done
      have hno : ¬ request.Login hash m := by
        rw [login_iff, hlogin]
        exact Option.some_ne_none reply
      refine .inr (.inr (.inr ⟨fun h => hno h.login, fun h => hno h.login, fun h => hno h.login, ?_,
        rfl⟩))
      dsimp only
      rw [retCode_of_checkLogin hlogin]
      split <;> decide
  | none =>
      have hlogin := login_iff.mpr hlogin
      -- an operation may be done only under its own type
      have htransfer : request.type ≠ .opTransfer → ¬ request.MayTransfer hash m :=
        fun hne h => hne h.type
      have hcreate : request.type ≠ .opCreateAccount → ¬ request.MayCreate hash m :=
        fun hne h => hne h.type
      have hask : request.type ≠ .opBalance → request.type ≠ .opShutdown →
          ¬ request.MayAsk hash m := by
        rintro hne hne' ⟨-, h | h⟩
        · exact hne h.1
        · exact hne' h.1
      cases htype' : request.type with
      | opCreateAccount =>
          rw [htype'] at htransfer hask
          rcases createOutcome_cases salt htype' hlogin with ⟨hc, hok, hadds⟩ | ⟨hc, hok, hsame⟩
          · exact .inr (.inl ⟨hc, hok, hadds⟩)
          · exact .inr (.inr (.inr ⟨htransfer (by decide), hc, hask (by decide) (by decide), hok, hsame⟩))
      | opTransfer =>
          rw [htype'] at hcreate hask
          rcases transferOutcome_cases hm htype' hlogin with ⟨ht, hok, hmoves⟩ | ⟨ht, hok, hsame⟩
          · exact .inl ⟨ht, hok, hmoves⟩
          · exact .inr (.inr (.inr ⟨ht, hcreate (by decide), hask (by decide) (by decide), hok, hsame⟩))
      | opBalance =>
          rw [htype'] at htransfer hcreate
          by_cases hadmin : request.value.header.accountId = adminAccountId
          · refine .inr (.inr (.inr ⟨htransfer (by decide), hcreate (by decide), ?_, ?_, rfl⟩))
            · rintro ⟨-, h | h⟩
              · exact h.2 hadmin
              · rw [htype'] at h
                cases h.1
            · rw [balanceOutcome, if_neg (not_not.mpr hadmin)]
              show RetCode.opNallow ≠ RetCode.ok
              decide
          · refine .inr (.inr (.inl ⟨⟨hlogin, .inl ⟨htype', hadmin⟩⟩, ?_, rfl⟩))
            rw [balanceOutcome, if_pos hadmin]
            rfl
      | opShutdown =>
          rw [htype'] at htransfer hcreate
          by_cases hadmin : request.value.header.accountId = adminAccountId
          · refine .inr (.inr (.inl ⟨⟨hlogin, .inr ⟨htype', hadmin⟩⟩, ?_, rfl⟩))
            rw [shutdownReply, if_pos hadmin]
            rfl
          · refine .inr (.inr (.inr ⟨htransfer (by decide), hcreate (by decide), ?_, ?_, rfl⟩))
            · rintro ⟨-, h | h⟩
              · rw [htype'] at h
                cases h.1
              · exact hadmin h.2
            · rw [shutdownReply, if_neg hadmin, retCode_withoutActiveOffices]
              show RetCode.opNallow ≠ RetCode.ok
              decide
      | opMaxNumber => exact absurd htype' htype

/-- **Authorised effects, and nothing else.** On every reachable table, for every request of the four
types, `manageRequest` comes to its end; if the request is a transfer that may be made, exactly the
amount moves; if it is a creation that may be made, exactly the account is added, with a hash that
accepts the password; otherwise the table is left as it is. The reply is `OK` in these two cases and
for an enquiry or a shutdown that may be made, and in no other. -/
theorem authorised_effects (setup : Setup) (hm : ReachableTable hash m)
    (htype : request.type ≠ .opMaxNumber) (h : Answers hash salt ans) :
    ∃ reply m', (manageRequest setup request).solo table ans m = some (reply, m') ∧
      (request.MayTransfer hash m → request.MovesAmount m m') ∧
      (request.MayCreate hash m → request.AddsAccount (acceptedBy hash) m m') ∧
      (¬ request.MayTransfer hash m → ¬ request.MayCreate hash m → m' = m) ∧
      (reply.value.header.retCode = .ok ↔
        request.MayTransfer hash m ∨ request.MayCreate hash m ∨ request.MayAsk hash m) := by
  obtain ⟨reply, hsolo, hcode⟩ := solo_manageRequest_outcome setup h hm.sound htype
  refine ⟨reply, _, hsolo, ?_⟩
  rw [hcode]
  -- of the four outcomes, each excludes the others by the type of the request
  rcases manageOutcome_cases hash salt hm.sound htype with
    ⟨ht, hok, htable⟩ | ⟨hc, hok, htable⟩ | ⟨ha, hok, htable⟩ | ⟨ht, hc, ha, hok, htable⟩
  · have hnot : ¬ request.MayCreate hash m := fun hc => nomatch ht.type.symm.trans hc.type
    rw [htable]
    exact ⟨fun _ => movesAmount_transferredTable ht.ne ht.funds ht.fits, fun hc => absurd hc hnot,
      fun hn => absurd ht hn, fun _ => .inl ht, fun _ => hok⟩
  · have hnot : ¬ request.MayTransfer hash m := fun ht => nomatch ht.type.symm.trans hc.type
    exact ⟨fun ht => absurd ht hnot, fun _ => htable, fun _ hn => absurd hc hn,
      fun _ => .inr (.inl hc), fun _ => hok⟩
  · have htype' : request.type = .opBalance ∨ request.type = .opShutdown :=
      ha.allowed.imp And.left And.left
    have hnot : ¬ request.MayTransfer hash m := by
      intro ht
      rw [ht.type] at htype'
      rcases htype' with h | h <;> cases h
    have hnot' : ¬ request.MayCreate hash m := by
      intro hc
      rw [hc.type] at htype'
      rcases htype' with h | h <;> cases h
    exact ⟨fun ht => absurd ht hnot, fun hc => absurd hc hnot', fun _ _ => htable,
      fun _ => .inr (.inr ha), fun _ => hok⟩
  · refine ⟨fun h' => absurd h' ht, fun h' => absurd h' hc, fun _ _ => htable,
      fun h' => absurd h' hok, ?_⟩
    rintro (h' | h' | h')
    · exact absurd h' ht
    · exact absurd h' hc
    · exact absurd h' ha

/-- The table with which the main thread starts, for the salt `[7]` and the hash `[9]`. -/
def startedTable : UInt32 → Slot := Function.update clearAccounts 0 ⟨true, ⟨0, [9], [7], 0⟩⟩

/-- It is reachable. -/
theorem reachableTable_started : ReachableTable (fun _ _ => [9]) startedTable := by
  refine ⟨1, (servingScript (Thread 1) []).world, 3, 4, firstConfig (servingScript _ []) [9] [7] 0,
    firstConfig (servingScript _ []) [9] [7] 0, [], [], [7], ?_, solo_setupAccounts rfl rfl,
    initial_firstConfig .., .refl _, fun _ h => (nomatch h), rfl⟩
  intro t password salt w r w' h
  exact (Prod.mk.inj (Option.some.inj h)).1.symm

/-- The administrator creates account 1 with balance 5, in a server that has just been started. -/
theorem authorised_effects_creation :
    ∃ reply m', (manageRequest ⟨1, 3, 4⟩ (creationRequest 1 5)).solo table
        (Ext.answer (fun _ _ => [9]) [7]) startedTable = some (reply, m') ∧
      (m' 1).account.balance = 5 := by
  have htype : (creationRequest 1 5).type ≠ .opMaxNumber := nofun
  obtain ⟨reply, m', hsolo, -, hcreate, -⟩ :=
    authorised_effects ⟨1, 3, 4⟩ reachableTable_started htype (answers_answer _ [7])
  exact ⟨reply, m', hsolo, (hcreate ⟨rfl, ⟨rfl, rfl⟩, rfl, rfl⟩).balance⟩

/-! ## A hash that fails -/

/-- `getAccount` yields the account that was requested: with the requested balance, and with a hash that
accepts the requested password. -/
structure TlvRequest.Created (accepts : Bytes → Bytes → Bytes → Prop) (request : TlvRequest)
    (m' : UInt32 → Slot) : Prop where
  used : (m' request.value.create.accountId).used = true
  balance : (m' request.value.create.accountId).account.balance = request.value.create.balance
  accepts : accepts (cString request.value.create.password)
    (m' request.value.create.accountId).account.salt (m' request.value.create.accountId).account.hash

/-- `generateHash` returns the stored hash for the password. -/
def acceptedIn (ans : (e : Ext) → Option e.Res) (password salt stored : Bytes) : Prop :=
  ans (.sys (.generateHash password salt)) = some (some stored)

/-- `handleCreateAccountRequest` of the administrator, alone, for an unused number and with whatever
`generateHash` returns: the reply is the same. -/
theorem solo_handleCreate_admin {result : Option Bytes}
    (hmark : ans (.mark (.handleCreate request)) = some ())
    (hsalt : ans (.sys .generateSalt) = some salt)
    (hhash : ans (.sys (.generateHash (cString request.value.create.password) salt)) = some result)
    (hadmin : request.value.header.accountId = adminAccountId)
    (hunused : (m request.value.create.accountId).used = false) :
    (handleCreateAccountRequest request).solo table ans m
      = some (makeCreateReply request.value.header.accountId, match result with
        | none => m
        | some stored => Function.update m request.value.create.accountId
            (createdSlot request stored salt)) := by
  refine (Prog.solo_ext hmark).trans ?_
  dsimp only
  rw [if_neg (not_not.mpr hadmin)]
  refine solo_getAccount.trans ?_
  rw [hunused]
  change (createAccount _ _ _ >>= _ : Server TlvReply).solo _ _ _ = _
  rw [Prog.solo_bind, solo_createAccount hsalt hhash]
  cases result <;> rfl

/-- **A creation is answered `OK` only if the account exists, exactly when there is a hash.** For every
table, every request of the administrator's to create an account that is not used, and every salt and
result of `generateHash`: `OK` means that the account can be found afterwards, and anything else that
the table is unchanged, if and only if `generateHash` has not returned `NULL`. -/
theorem created_iff_hash {result : Option Bytes}
    (hmark : ans (.mark (.handleCreate request)) = some ())
    (hsalt : ans (.sys .generateSalt) = some salt)
    (hhash : ans (.sys (.generateHash (cString request.value.create.password) salt)) = some result)
    (hadmin : request.value.header.accountId = adminAccountId)
    (hunused : (m request.value.create.accountId).used = false) :
    (∃ reply m', (handleCreateAccountRequest request).solo table ans m = some (reply, m') ∧
        (reply.value.header.retCode = .ok ↔ request.Created (acceptedIn ans) m') ∧
        (¬ request.Created (acceptedIn ans) m' → reply.value.header.retCode ≠ .ok ∧ m' = m)) ↔
      result ≠ none := by
  rw [solo_handleCreate_admin hmark hsalt hhash hadmin hunused]
  constructor
  · rintro ⟨reply, m', hsolo, hok, -⟩ rfl
    cases hsolo
    -- the reply is `OK`, and the table is the one before
    have hused := (hok.mp rfl).used
    rw [hunused] at hused
    cases hused
  · intro hne
    obtain ⟨stored, rfl⟩ := Option.ne_none_iff_exists'.mp hne
    have hadds : request.AddsAccount (acceptedIn ans) m (Function.update m
        request.value.create.accountId (createdSlot request stored salt)) :=
      addsAccount_createdSlot stored salt hhash
    have hcreated : request.Created (acceptedIn ans) (Function.update m
        request.value.create.accountId (createdSlot request stored salt)) :=
      ⟨hadds.used, hadds.balance, hadds.accepts⟩
    exact ⟨_, _, rfl, ⟨fun _ => hcreated, fun _ => rfl⟩, fun h => absurd hcreated h⟩

/-- Everything succeeds, but `generateHash`. -/
def hashFails : (e : Ext) → Option e.Res
  | .sys (.generateHash ..) => some (none : Option Bytes)
  | e => Ext.answer (fun _ _ => [9]) [7] e

/-- With a hash, the account is there. -/
theorem created_iff_hash_succeeds :
    ∃ reply m', (handleCreateAccountRequest (creationRequest 1 5)).solo table
        (Ext.answer (fun _ _ => [9]) [7]) startedTable = some (reply, m') ∧
      (reply.value.header.retCode = .ok ↔
        (creationRequest 1 5).Created (acceptedIn (Ext.answer (fun _ _ => [9]) [7])) m') ∧
      (¬ (creationRequest 1 5).Created (acceptedIn (Ext.answer (fun _ _ => [9]) [7])) m' →
        reply.value.header.retCode ≠ .ok ∧ m' = startedTable) :=
  (created_iff_hash rfl rfl rfl rfl rfl).mpr nofun

/-- Without one, the administrator is told `OK`, and there is no account. -/
theorem exists_ok_without_account :
    ∃ m reply m', ReachableTable (fun _ _ => [9]) m ∧
      (creationRequest 1 5).MayCreate (fun _ _ => [9]) m ∧
      (handleCreateAccountRequest (creationRequest 1 5)).solo table hashFails m = some (reply, m') ∧
      reply.value.header.retCode = .ok ∧ ¬ (creationRequest 1 5).Created (acceptedIn hashFails) m' := by
  have hhash : hashFails (.sys (.generateHash (cString (creationRequest 1 5).value.create.password)
      [7])) = some none := rfl
  refine ⟨_, _, _, reachableTable_started, ⟨rfl, ⟨rfl, rfl⟩, rfl, rfl⟩,
    solo_handleCreate_admin rfl rfl hhash rfl rfl, rfl, fun h => ?_⟩
  exact nomatch h.used

end Sope
