import Sope.Bank.RequestUse
import Sope.Clients.Framing
import Sope.Clients.Processes

/-! # Reading from the FIFO

Anybody may write to the server's FIFO. What `readRequests` makes of it depends on what the two `read`s of each
round return and on what the variable `request` held before: nothing is checked between the first `read`, the
second one and `addRequestToQueue`.

* `Round`, `readRequests` — the rounds of the loop, computed from what the calls return.
* `Round.Safe` — what a round should do with the FIFO, and with the request that it hands on.
* `Round.Whole` — its reads return a whole message, as they do if the user program has written it
  (`Round.whole_of_requestBytes`).
* `intake_safe_iff` — the rounds are safe exactly if they are whole. -/

namespace Sope

open Concurrency

/-! ## Rounds -/

/-- `sizeof(req_value_t)`. -/
def sizeofReqValue : ℕ := sizeofReqHeader + sizeofReqCreateAccount

/-- What a round of `readRequests` meets. -/
structure Round where
  /-- What memory holds from the beginning of the new variable `request` on. -/
  memory : Bytes
  /-- What the first `read` returns: some bytes, perhaps fewer than 8, or `none` for -1. -/
  first : Option Bytes
  /-- What the second `read` returns. -/
  second : Option Bytes

/-- What has happened: an operation, with its result. -/
abbrev Performed : Type := (o : ServerOp) × ServerRes o

/-- The results of the calls in a round. The results that `read` has still to return are the state. -/
def Round.answer (round : Round) (reads : List (Option Bytes)) :
    (o : ServerOp) → Option (ServerRes o × List (Option Bytes))
  | .ext (.sys .newRequest) => some (round.memory, reads)
  | .ext (.sys (.read ..)) => reads.head?.map fun bytes => (bytes, reads.tail)
  | .ext (.semWait _) | .ext .lockQueueMutex | .ext (.queuePush _) | .ext .unlockQueueMutex
  | .ext (.semPost _) => some ((), reads)
  | _ => none

/-- A round: what is done in it, and whether the loop goes on. -/
def Round.run (setup : Setup) (round : Round) : List Performed × Option Bool :=
  (readRequestsRound setup).answered round.answer [round.first, round.second]

/-- `readRequests`: its rounds, as long as the loop goes on, with what is done in each. -/
def readRequests (setup : Setup) : List Round → List (Round × List Performed)
  | [] => []
  | round :: rounds =>
      (round, (round.run setup).1) ::
        if (round.run setup).2 = some true then readRequests setup rounds else []

/-- `read(serverFifoFD, _, n)`. -/
def readEvent (fd : Int) (n : ℕ) (bytes : Option Bytes) : Performed := ⟨.ext (.sys (.read fd n)), bytes⟩

/-- `queue_push(queue, request)`, in `addRequestToQueue`. -/
def pushEvent (request : TlvRequest) : Performed := ⟨.ext (.queuePush request), ()⟩

/-- The loop goes on behind the round: both `read`s have returned, the second one with some bytes. -/
def Round.more (round : Round) : Bool := round.first.isSome && round.second.any (!·.isEmpty)

/-- The rounds that are begun: up to the first one behind which the loop ends. -/
def begun : List Round → List Round
  | [] => []
  | round :: rounds => round :: if round.more then begun rounds else []

/-! ## What should happen -/

/-- The string at an offset of memory, up to the first NUL, wherever that is. -/
def stringAt (memory : Bytes) (offset : ℕ) : Bytes := cString (memory.drop offset)

/-- The request in memory as the functions of the server use it: they read the passwords as strings. -/
def requestAt (memory : Bytes) : TlvRequest :=
  let request := decodeRequest memory
  { request with
    value :=
      { header := { request.value.header with password := stringAt memory 16 }
        create := { request.value.create with password := stringAt memory 49 } } }

/-- What is in the variable `request`, and behind it, when the bytes that have been received are put into
memory. -/
def Round.received (round : Round) (memory : Bytes) : Bytes :=
  overlay (overlay memory 0 (round.first.getD [])) sizeofTypeLength (round.second.getD [])

/-- `manageRequest` reads no byte of the request that has not been received: it does the same, whatever memory
held in the place of the request and behind it. -/
def Round.ReadsReceived (setup : Setup) (round : Round) : Prop :=
  ∀ memory memory' : Bytes, sizeofTlvRequest ≤ memory.length → sizeofTlvRequest ≤ memory'.length →
    Prog.Alike IsMark (manageRequest setup (requestAt (round.received memory)))
      (manageRequest setup (requestAt (round.received memory')))

/-- `manageRequest` never sends a reply that has not been assigned. -/
def Round.SendsAssigned (setup : Setup) (round : Round) : Prop :=
  ∀ memory : Bytes, sizeofTlvRequest ≤ memory.length →
    (manageRequest setup (requestAt (round.received memory))).Makes Assigned

/-- What a round should do. -/
structure Round.Safe (setup : Setup) (round : Round) (tr : List Performed) : Prop where
  asks : ∀ fd n bytes, readEvent fd n bytes ∈ tr → n ≤ sizeofReqValue
  type : ∀ request, pushEvent request ∈ tr → request.type ≠ .opMaxNumber
  header : ∀ request, pushEvent request ∈ tr → ∃ bytes, round.first = some bytes ∧
    bytes.length = sizeofTypeLength
  value : ∀ request, pushEvent request ∈ tr → ∃ bytes, round.second = some bytes ∧
    bytes.length = request.type.valueLength
  reads : ∀ request, pushEvent request ∈ tr → round.ReadsReceived setup
  assigned : ∀ request, pushEvent request ∈ tr → round.SendsAssigned setup

/-! ## When it does -/

/-- The number of bytes that the second `read` asks for. -/
def Round.asked (round : Round) : ℕ := (decodeWord (overlay round.memory 0 (round.first.getD [])) 4).toNat

/-- The bytes are a whole message: the eight bytes of type and length, with the number of an operation, and the
bytes of the value that this operation uses. The passwords that are used end in it. -/
structure IsMessage (first second : Bytes) : Prop where
  header : first.length = sizeofTypeLength
  type : OpType.ofWord (decodeWord first 0) ≠ .opMaxNumber
  value : second.length = (OpType.ofWord (decodeWord first 0)).valueLength
  password : 0 ∈ second.drop 8
  createPassword : OpType.ofWord (decodeWord first 0) = .opCreateAccount →
    decodeWord second 4 = adminAccountId → 0 ∈ second.drop 41

/-- The second `read`, if it is made, asks for no more than a value; if it returns any bytes, then the two
reads have returned a whole message. -/
structure Round.Whole (round : Round) : Prop where
  asked : round.first ≠ none → round.asked ≤ sizeofReqValue
  message : ∀ first second, round.first = some first → round.second = some second → second ≠ [] →
    IsMessage first second

/-! ## What is done in a round -/

section Run

variable (setup : Setup) {round : Round} {first second : Bytes}

/-- The first `read` fails. -/
theorem Round.run_of_first_none (h : round.first = none) : round.run setup =
    ([⟨.ext (.sys .newRequest), round.memory⟩, readEvent setup.serverFifoFD sizeofTypeLength none],
      some false) := by
  obtain ⟨memory, first, second⟩ := round
  obtain rfl : first = none := h
  rfl

/-- The second `read` fails. -/
theorem Round.run_of_second_none (h : round.first = some first) (h' : round.second = none) :
    round.run setup =
      ([⟨.ext (.sys .newRequest), round.memory⟩,
        readEvent setup.serverFifoFD sizeofTypeLength (some first),
        readEvent setup.serverFifoFD round.asked none], some false) := by
  obtain ⟨memory, first', second'⟩ := round
  obtain rfl : first' = some first := h
  obtain rfl : second' = none := h'
  rfl

/-- The second `read` returns 0. -/
theorem Round.run_of_second_nil (h : round.first = some first) (h' : round.second = some []) :
    round.run setup =
      ([⟨.ext (.sys .newRequest), round.memory⟩,
        readEvent setup.serverFifoFD sizeofTypeLength (some first),
        readEvent setup.serverFifoFD round.asked (some [])], some false) := by
  obtain ⟨memory, first', second'⟩ := round
  obtain rfl : first' = some first := h
  obtain rfl : second' = some [] := h'
  rfl

/-- Both return something: there is a request, whatever it is. -/
theorem Round.run_of_some (h : round.first = some first) (h' : round.second = some second)
    (hne : second ≠ []) : round.run setup =
      ([⟨.ext (.sys .newRequest), round.memory⟩,
        readEvent setup.serverFifoFD sizeofTypeLength (some first),
        readEvent setup.serverFifoFD round.asked (some second),
        ⟨.ext (.semWait .queueEmptySem), ()⟩, ⟨.ext .lockQueueMutex, ()⟩,
        pushEvent (decodeRequest (round.received round.memory)),
        ⟨.ext .unlockQueueMutex, ()⟩, ⟨.ext (.semPost .queueFullSem), ()⟩], some true) := by
  obtain ⟨memory, first', second'⟩ := round
  obtain rfl : first' = some first := h
  obtain rfl : second' = some second := h'
  obtain ⟨b, second, rfl⟩ := List.exists_cons_of_ne_nil hne
  rfl

/-- How a round may go. -/
theorem Round.how (round : Round) : round.first = none ∨
    (∃ first, round.first = some first ∧ (round.second = none ∨ round.second = some [])) ∨
      ∃ first second, round.first = some first ∧ round.second = some second ∧ second ≠ [] := by
  obtain ⟨memory, first, second⟩ := round
  cases first with
  | none => exact .inl rfl
  | some first =>
      cases second with
      | none => exact .inr (.inl ⟨first, rfl, .inl rfl⟩)
      | some second =>
          by_cases h : second = []
          · exact .inr (.inl ⟨first, rfl, .inr (congrArg some h)⟩)
          · exact .inr (.inr ⟨first, second, rfl, rfl, h⟩)

/-- Whether the loop goes on. -/
theorem Round.more_iff (round : Round) : (round.run setup).2 = some true ↔ round.more = true := by
  rcases round.how with h | ⟨first, h, h' | h'⟩ | ⟨first, second, h, h', hne⟩
  · simp [Round.run_of_first_none setup h, Round.more, h]
  · simp [Round.run_of_second_none setup h h', Round.more, h']
  · simp [Round.run_of_second_nil setup h h', Round.more, h']
  · simp [Round.run_of_some setup h h' hne, Round.more, h, h', hne]

/-- An operation has been performed, with some result. -/
theorem exists_mem_iff {o : ServerOp} {tr : List Performed} :
    (∃ r, (⟨o, r⟩ : Performed) ∈ tr) ↔ o ∈ tr.map Sigma.fst := by
  constructor
  · rintro ⟨r, hr⟩
    exact List.mem_map.mpr ⟨_, hr, rfl⟩
  · intro h
    obtain ⟨⟨o', r⟩, hr, rfl⟩ := List.mem_map.mp h
    exact ⟨r, hr⟩

/-- A request is handed on exactly if both reads have returned something. -/
theorem Round.pushEvent_mem_iff {request : TlvRequest} : pushEvent request ∈ (round.run setup).1 ↔
    (∃ first second, round.first = some first ∧ round.second = some second ∧ second ≠ []) ∧
      request = decodeRequest (round.received round.memory) := by
  have hmem : pushEvent request ∈ (round.run setup).1 ↔
      MemOp.ext (.queuePush request) ∈ (round.run setup).1.map Sigma.fst := by
    rw [← exists_mem_iff]
    exact ⟨fun h => ⟨(), h⟩, fun ⟨(), h⟩ => h⟩
  rw [hmem]
  rcases round.how with h | ⟨first, h, h' | h'⟩ | ⟨first, second, h, h', hne⟩
  · simp [Round.run_of_first_none setup h, h, readEvent]
  · simp [Round.run_of_second_none setup h h', h', readEvent]
  · simp [Round.run_of_second_nil setup h h', h', readEvent]
  · simp [Round.run_of_some setup h h' hne, h, h', hne, pushEvent, readEvent]

/-- What is asked for: 8 bytes, and then what the word behind the type says. -/
theorem Round.readEvent_mem_iff {fd : Int} {n : ℕ} : (∃ bytes, readEvent fd n bytes ∈ (round.run setup).1) ↔
    fd = setup.serverFifoFD ∧ (n = sizeofTypeLength ∨ round.first ≠ none ∧ n = round.asked) := by
  have hmem : (∃ bytes, readEvent fd n bytes ∈ (round.run setup).1) ↔
      MemOp.ext (.sys (.read fd n)) ∈ (round.run setup).1.map Sigma.fst :=
    exists_mem_iff (o := .ext (.sys (.read fd n)))
  rw [hmem]
  rcases round.how with h | ⟨first, h, h' | h'⟩ | ⟨first, second, h, h', hne⟩
  · simp [Round.run_of_first_none setup h, h, readEvent]
  · simp [Round.run_of_second_none setup h h', h, readEvent, and_or_left]
  · simp [Round.run_of_second_nil setup h h', h, readEvent, and_or_left]
  · simp [Round.run_of_some setup h h' hne, h, readEvent, pushEvent, and_or_left]

end Run

/-- The rounds of the loop are the ones that are begun. -/
theorem readRequests_eq (setup : Setup) (rounds : List Round) :
    readRequests setup rounds = (begun rounds).map fun round => (round, (round.run setup).1) := by
  induction rounds with
  | nil => rfl
  | cons round rounds ih =>
      simp only [readRequests, begun, List.map_cons, Round.more_iff]
      split
      · rw [ih]
      · rfl

/-! ## What has been received

Both reads together leave their bytes in front of what memory held. -/

section Received

variable {bytes : Bytes} {k : ℕ}

/-- A word among the first bytes. -/
theorem decodeWord_append_of_le (h : k + 4 ≤ bytes.length) (rest : Bytes) :
    decodeWord (bytes ++ rest) k = decodeWord bytes k := by
  simp only [decodeWord]
  rw [List.getD_append _ _ _ _ (by omega), List.getD_append _ _ _ _ (by omega),
    List.getD_append _ _ _ _ (by omega), List.getD_append _ _ _ _ (by omega)]

theorem cString_stringAt (memory : Bytes) (k : ℕ) :
    cString (stringAt memory k) = stringAt memory k :=
  List.takeWhile_idem

/-- A string that ends among the first bytes. -/
theorem stringAt_append_of_mem (h : 0 ∈ bytes.drop k) (rest : Bytes) :
    stringAt (bytes ++ rest) k = stringAt bytes k := by
  have hk : k ≤ bytes.length := by
    by_contra hlt
    rw [List.drop_of_length_le (by omega)] at h
    cases h
  rw [stringAt, List.drop_append_of_le_length hk]
  exact cString_append_of_mem h rest

/-- One that does not, goes on behind them: with more ones there it is longer. -/
theorem stringAt_ne (h : 0 ∉ bytes.drop k) (hk : k ≤ bytes.length) {m n : ℕ} (hmn : m ≠ n) :
    stringAt (bytes ++ List.replicate m 1) k ≠ stringAt (bytes ++ List.replicate n 1) k := by
  have hstring : ∀ n, stringAt (bytes ++ List.replicate n 1) k = bytes.drop k ++ List.replicate n 1 := by
    intro n
    rw [stringAt, List.drop_append_of_le_length hk]
    refine cString_of_notMem fun h0 => ?_
    rcases List.mem_append.mp h0 with h0 | h0
    · exact h h0
    · cases List.eq_of_mem_replicate h0
  rw [hstring, hstring]
  intro heq
  have hlength := congrArg List.length heq
  simp only [List.length_append, List.length_replicate] at hlength
  omega

/-- Type and length are complete, so the value is put behind them. -/
theorem Round.received_eq {round : Round} {first second : Bytes} (h : round.first = some first)
    (h' : round.second = some second) (hlength : first.length = sizeofTypeLength) (memory : Bytes) :
    round.received memory = first ++ second ++ memory.drop (sizeofTypeLength + second.length) := by
  rw [Round.received, h, h', Option.getD_some, Option.getD_some, ← hlength, overlay_overlay, overlay_zero,
    List.length_append]

end Received

/-! ## Whole messages -/

/-- The header is part of every value. -/
theorem sizeofReqHeader_le_valueLength (type : OpType) :
    sizeofReqHeader ≤ type.valueLength ∧ type.valueLength ≤ sizeofReqValue := by
  cases type <;> decide

section Message

variable {setup : Setup} {round : Round} {first second : Bytes}

/-- The password of the header begins 8 bytes behind the beginning of the value. -/
theorem drop_append_first (hlength : first.length = sizeofTypeLength) (k : ℕ) :
    (first ++ second).drop (8 + k) = second.drop k := by
  rw [show 8 + k = first.length + k by rw [hlength]; rfl, List.drop_append, Nat.add_sub_cancel_left,
    List.drop_of_length_le (by omega), List.nil_append]

theorem decodeWord_append_first (hlength : first.length = sizeofTypeLength) (k : ℕ) :
    decodeWord (first ++ second) (8 + k) = decodeWord second k := by
  have hdrop : (first ++ second).drop 8 = second := drop_append_first hlength 0
  rw [← decodeWord_drop, hdrop]

/-- The type is among the bytes of the first read. -/
theorem type_append_first (hlength : first.length = sizeofTypeLength) (rest : Bytes) :
    OpType.ofWord (decodeWord (first ++ second ++ rest) 0) = OpType.ofWord (decodeWord first 0) := by
  rw [List.append_assoc, decodeWord_append_of_le (by rw [hlength]; decide)]

/-- A word that has been received. -/
theorem decodeWord_received (hlength : first.length = sizeofTypeLength) {k : ℕ}
    (hk : k + 4 ≤ 8 + second.length) (rest : Bytes) :
    decodeWord (first ++ second ++ rest) k = decodeWord (first ++ second) k :=
  decodeWord_append_of_le (by rw [List.length_append, hlength]; exact hk) rest

/-- What follows a whole message is not used. -/
theorem IsMessage.agrees (h : IsMessage first second) (rest rest' : Bytes) :
    (requestAt (first ++ second ++ rest)).Agrees (requestAt (first ++ second ++ rest')) := by
  have hfirst := h.header
  have hvalue := h.value
  have hle := (sizeofReqHeader_le_valueLength (OpType.ofWord (decodeWord first 0))).1
  rw [← hvalue, sizeofReqHeader] at hle
  have htype : ∀ rest : Bytes,
      (requestAt (first ++ second ++ rest)).type = OpType.ofWord (decodeWord first 0) :=
    type_append_first hfirst
  -- a text that ends in the second read does not depend on what follows
  have hstring : ∀ k, 0 ∈ second.drop k → ∀ rest : Bytes,
      stringAt (first ++ second ++ rest) (8 + k) = stringAt (first ++ second) (8 + k) :=
    fun k hk rest => stringAt_append_of_mem (by rwa [drop_append_first hfirst]) rest
  have hsame : ∀ k, k + 4 ≤ 8 + second.length → decodeWord (first ++ second ++ rest') k
      = decodeWord (first ++ second ++ rest) k := fun k hk => by
    rw [decodeWord_received hfirst hk, decodeWord_received hfirst hk]
  refine ⟨?_, hsame 8 (by omega), hsame 12 (by omega), ?_, hsame 37 (by omega), ?_, ?_, ?_⟩
  · rw [htype, htype]
  · change cString (stringAt _ 16) = cString (stringAt _ 16)
    rw [hstring 8 h.password, hstring 8 h.password]
  · -- the account of a new account
    intro hcreate
    rw [htype] at hcreate
    rw [hcreate] at hvalue
    exact hsame 41 (by simp [hvalue, OpType.valueLength, sizeofReqHeader, sizeofReqCreateAccount])
  · -- its balance and its password, if it may be created
    intro hcreate hadmin
    rw [htype] at hcreate
    rw [hcreate] at hvalue
    have hadmin : decodeWord second 4 = adminAccountId := by
      rw [← hadmin, ← decodeWord_append_first hfirst]
      exact (decodeWord_received hfirst (by omega) rest).symm
    refine ⟨hsame 45 (by simp [hvalue, OpType.valueLength, sizeofReqHeader, sizeofReqCreateAccount]), ?_⟩
    change cString (stringAt _ 49) = cString (stringAt _ 49)
    rw [hstring 41 (h.createPassword hcreate hadmin), hstring 41 (h.createPassword hcreate hadmin)]
  · intro htransfer
    rw [htype] at htransfer
    rw [htransfer] at hvalue
    have hfits : 49 ≤ 8 + second.length := by
      simp [hvalue, OpType.valueLength, sizeofReqHeader, sizeofReqTransfer]
    exact congrArg₂ ReqTransfer.mk (hsame 41 (by omega)) (hsame 45 (by omega))

/-- Of a whole message no byte is read that has not been received. -/
theorem IsMessage.readsReceived (h : IsMessage first second) (hfirst : round.first = some first)
    (hsecond : round.second = some second) : round.ReadsReceived setup := by
  intro memory memory' _ _
  rw [Round.received_eq hfirst hsecond h.header, Round.received_eq hfirst hsecond h.header]
  exact alike_manageRequest (h.agrees _ _) setup

/-- If no byte is read that has not been received, then `manageRequest` cannot tell whether the memory behind
the message is longer or shorter. -/
theorem alike_of_readsReceived (h : round.ReadsReceived setup) (hfirst : round.first = some first)
    (hsecond : round.second = some second) (hlength : first.length = sizeofTypeLength)
    (hvalue : second.length ≤ sizeofReqValue) : ∃ m n, m ≠ n ∧
      Prog.Alike IsMark (manageRequest setup (requestAt (first ++ second ++ List.replicate m 1)))
        (manageRequest setup (requestAt (first ++ second ++ List.replicate n 1))) := by
  have halike := h (List.replicate 70 1) (List.replicate 71 1) (by simp [sizeofTlvRequest])
    (by simp [sizeofTlvRequest])
  simp only [Round.received_eq hfirst hsecond hlength, List.drop_replicate] at halike
  refine ⟨_, _, ?_, halike⟩
  simp only [sizeofReqValue, sizeofReqHeader, sizeofReqCreateAccount] at hvalue
  simp only [sizeofTypeLength]
  omega

/-- A string on which both agree ends in what has been received. -/
theorem mem_of_cString_eq {m n k : ℕ} (hmn : m ≠ n) (hlength : first.length = sizeofTypeLength)
    (hk : k ≤ second.length)
    (h : cString (stringAt (first ++ second ++ List.replicate m 1) (8 + k))
      = cString (stringAt (first ++ second ++ List.replicate n 1) (8 + k))) : 0 ∈ second.drop k := by
  by_contra hzero
  rw [cString_stringAt, cString_stringAt] at h
  refine stringAt_ne ?_ ?_ hmn h
  · rwa [drop_append_first hlength]
  · rw [List.length_append, hlength]
    exact Nat.add_le_add_left hk 8

/-- Conversely, if no byte is read that has not been received, then the message is whole, given its length. -/
theorem isMessage_of_readsReceived (h : round.ReadsReceived setup) (hfirst : round.first = some first)
    (hsecond : round.second = some second) (hlength : first.length = sizeofTypeLength)
    (htype : OpType.ofWord (decodeWord first 0) ≠ .opMaxNumber)
    (hvalue : second.length = (OpType.ofWord (decodeWord first 0)).valueLength) :
    IsMessage first second := by
  obtain ⟨hheader, hfits⟩ := sizeofReqHeader_le_valueLength (OpType.ofWord (decodeWord first 0))
  rw [← hvalue] at hheader hfits
  obtain ⟨m, n, hmn, halike⟩ := alike_of_readsReceived h hfirst hsecond hlength hfits
  rw [sizeofReqHeader] at hheader
  have hid : ∀ rest, (requestAt (first ++ second ++ rest)).value.header.accountId = decodeWord second 4 :=
    fun rest => (decodeWord_received hlength (by omega) rest).trans (decodeWord_append_first hlength 4)
  refine ⟨hlength, htype, hvalue, ?_, fun hcreate hadmin => ?_⟩
  · have hpassword := password_of_alike halike (by rw [hid, hid])
    exact mem_of_cString_eq hmn hlength (by omega) hpassword.symm
  · rw [hcreate] at hvalue
    have hcreated : ∀ rest, (requestAt (first ++ second ++ rest)).type = .opCreateAccount :=
      fun rest => (type_append_first hlength rest).trans hcreate
    have hword : ∀ k, k + 4 ≤ 8 + second.length →
        decodeWord (first ++ second ++ List.replicate n 1) k
          = decodeWord (first ++ second ++ List.replicate m 1) k := fun k hk => by
      rw [decodeWord_received hlength hk, decodeWord_received hlength hk]
    have hlength' : second.length = 62 := hvalue
    have hpassword := createPassword_of_alike halike (hcreated _) (hcreated _) ((hid _).trans hadmin)
      ((hid _).trans hadmin) (hword 41 (by omega)) (hword 37 (by omega))
    exact mem_of_cString_eq hmn hlength (by omega) hpassword.symm

/-- The type of the request that is handed on. -/
theorem type_received (hfirst : round.first = some first) (hsecond : round.second = some second)
    (hlength : first.length = sizeofTypeLength) (memory : Bytes) :
    (decodeRequest (round.received memory)).type = OpType.ofWord (decodeWord first 0) := by
  rw [Round.received_eq hfirst hsecond hlength]
  exact type_append_first hlength _

/-- `manageRequest` assigns the reply to a request with the type of an operation. -/
theorem Round.sendsAssigned (hfirst : round.first = some first) (hsecond : round.second = some second)
    (hlength : first.length = sizeofTypeLength) (htype : OpType.ofWord (decodeWord first 0) ≠ .opMaxNumber) :
    round.SendsAssigned setup := by
  intro memory _
  refine makes_manageRequest setup ?_
  change (decodeRequest (round.received memory)).type ≠ _
  rwa [type_received hfirst hsecond hlength]

/-- A round is safe exactly if it is whole. -/
theorem Round.safe_iff : round.Safe setup (round.run setup).1 ↔ round.Whole := by
  constructor
  · intro h
    refine ⟨fun hfirst => ?_, fun first second hfirst hsecond hne => ?_⟩
    · obtain ⟨bytes, hread⟩ := (Round.readEvent_mem_iff setup).mpr ⟨rfl, .inr ⟨hfirst, rfl⟩⟩
      exact h.asks _ _ bytes hread
    · have hpush := (Round.pushEvent_mem_iff setup).mpr ⟨⟨first, second, hfirst, hsecond, hne⟩, rfl⟩
      have htype := h.type _ hpush
      obtain ⟨first', hfirst', hlength⟩ := h.header _ hpush
      obtain rfl : first' = first := Option.some.inj (hfirst'.symm.trans hfirst)
      obtain ⟨second', hsecond', hvalue⟩ := h.value _ hpush
      obtain rfl : second' = second := Option.some.inj (hsecond'.symm.trans hsecond)
      rw [type_received hfirst hsecond hlength] at htype hvalue
      exact isMessage_of_readsReceived (h.reads _ hpush) hfirst hsecond hlength htype hvalue
  · intro h
    -- what is handed on comes from a whole message
    have hmessage : ∀ request, pushEvent request ∈ (round.run setup).1 →
        request = decodeRequest (round.received round.memory) ∧ ∃ first second,
          round.first = some first ∧ round.second = some second ∧ IsMessage first second := by
      intro request hpush
      obtain ⟨⟨first, second, hfirst, hsecond, hne⟩, hrequest⟩ := (Round.pushEvent_mem_iff setup).mp hpush
      exact ⟨hrequest, first, second, hfirst, hsecond, h.message first second hfirst hsecond hne⟩
    refine ⟨fun fd n bytes hread => ?_, ?_, ?_, ?_, ?_, ?_⟩
    · rcases ((Round.readEvent_mem_iff setup).mp ⟨bytes, hread⟩).2 with hn | ⟨hfirst, hn⟩
      · rw [hn]
        decide
      · rw [hn]
        exact h.asked hfirst
    all_goals
      intro request hpush
      obtain ⟨rfl, first, second, hfirst, hsecond, hm⟩ := hmessage request hpush
    · rw [type_received hfirst hsecond hm.header]
      exact hm.type
    · exact ⟨first, hfirst, hm.header⟩
    · rw [type_received hfirst hsecond hm.header]
      exact ⟨second, hsecond, hm.value⟩
    · exact hm.readsReceived hfirst hsecond
    · exact Round.sendsAssigned hfirst hsecond hm.header hm.type

end Message

/-! ## The requests of the user program -/

/-- The bytes that the user program writes are a whole message: its passwords end in their arrays. -/
theorem isMessage_requestBytes {request : TlvRequest} (h : request.WellFormed)
    (hpassword : 0 ∈ request.value.header.password) (hcreate : 0 ∈ request.value.create.password) :
    IsMessage ((requestBytes request).take sizeofTypeLength)
      ((requestBytes request).drop sizeofTypeLength) := by
  have hlength := length_requestBytes h
  have hbytes := requestBytes_eq h
  have hheader : ((requestBytes request).take sizeofTypeLength).length = sizeofTypeLength := by
    rw [List.length_take, hlength]
    omega
  have htake : (requestBytes request).take sizeofTypeLength
      = encodeWord request.type.toWord ++ encodeWord request.length := by
    rw [hbytes, headBytes, List.append_assoc]
    rfl
  have htype : OpType.ofWord (decodeWord ((requestBytes request).take sizeofTypeLength) 0) = request.type := by
    have hword : decodeWord (encodeWord request.type.toWord ++ encodeWord request.length) 0
        = request.type.toWord := decodeWord_eq [] _ rfl rfl
    rw [htake, hword, OpType.ofWord_toWord]
  refine ⟨hheader, ?_, ?_, ?_, fun htypeCreate _ => ?_⟩
  · rw [htype]
    exact h.type
  · rw [htype, List.length_drop, hlength, h.length]
    omega
  -- the password of the header ends within what is sent
  · have hdrop : ((requestBytes request).drop sizeofTypeLength).drop 8 = request.value.header.password ++
        (encodeWord request.value.header.opDelayMs ++
          (unionBytes request).take (request.type.valueLength - sizeofReqHeader)) := by
      rw [hbytes, headBytes]
      simp only [List.append_assoc]
      rfl
    rw [hdrop]
    exact List.mem_append_left _ hpassword
  · rw [htype] at htypeCreate
    have hunion : (unionBytes request).take (request.type.valueLength - sizeofReqHeader)
        = unionBytes request := by
      rw [htypeCreate]
      exact List.take_of_length_le (length_unionBytes h).le
    have hhead : (headBytes request).length = 41 := length_headBytes h
    have hdrop : ((requestBytes request).drop sizeofTypeLength).drop 41
        = request.value.create.password := by
      rw [hbytes, hunion, List.drop_drop, sizeofTypeLength,
        show 8 + 41 = (headBytes request).length + 8 by rw [hhead], List.drop_append,
        List.drop_of_length_le (by omega), List.nil_append, Nat.add_sub_cancel_left]
      rfl
    rwa [hdrop]

/-- A round that reads such a request is whole, whatever the variable held before. -/
theorem Round.whole_of_requestBytes {request : TlvRequest} (h : request.WellFormed)
    (hpassword : 0 ∈ request.value.header.password) (hcreate : 0 ∈ request.value.create.password)
    (memory : Bytes) :
    Round.Whole ⟨memory, some ((requestBytes request).take sizeofTypeLength),
      some ((requestBytes request).drop sizeofTypeLength)⟩ := by
  refine ⟨fun _ => ?_, fun first second hfirst hsecond _ => ?_⟩
  · change (decodeWord (overlay memory 0 ((requestBytes request).take sizeofTypeLength)) 4).toNat ≤ _
    rw [decodeWord_length h memory, h.length]
    exact (sizeofReqHeader_le_valueLength _).2
  · obtain rfl := Option.some.inj hfirst
    obtain rfl := Option.some.inj hsecond
    exact isMessage_requestBytes h hpassword hcreate

/-! ## All rounds -/

/-- **What may come out of the FIFO.** Nothing goes wrong exactly as long as every `read` behind a first one is
for no more bytes than a value has, and every request that arrives is a whole message. -/
theorem intake_safe_iff (setup : Setup) (rounds : List Round) :
    (∀ p ∈ readRequests setup rounds, p.1.Safe setup p.2) ↔ ∀ round ∈ begun rounds, round.Whole := by
  rw [readRequests_eq, List.forall_mem_map]
  exact forall₂_congr fun round _ => Round.safe_iff

/-- Eight bytes that announce a value of 255 bytes, and one more. -/
def longMessage : Round := ⟨List.replicate 70 0, some [1, 0, 0, 0, 255, 0, 0, 0], some [0]⟩

/-- The length in the FIFO is not checked: 255 bytes are asked for. -/
theorem exists_intake_unsafe :
    ¬ ∀ (setup : Setup) (rounds : List Round), ∀ p ∈ readRequests setup rounds, p.1.Safe setup p.2 := by
  intro h
  have hsafe := h ⟨1, 3, 4⟩ [longMessage] _ List.mem_cons_self
  have hread : ∃ bytes, readEvent 3 255 bytes ∈ (longMessage.run ⟨1, 3, 4⟩).1 :=
    (Round.readEvent_mem_iff _).mpr ⟨rfl, .inr ⟨by simp [longMessage], by decide⟩⟩
  obtain ⟨bytes, hread⟩ := hread
  exact absurd (hsafe.asks 3 255 bytes hread) (by decide)

end Sope
