import Mathlib.Data.List.GetD
import Mathlib.Data.Nat.Bitwise
import Sope.Bank.Wire

/-! # Requests in the channel

What is left of a request when its first `8 + length` bytes have been read in two parts, first the 8
bytes of type and length and then `length` bytes, into memory that held anything before. The request
that is found there is the original one in everything that its operation uses
(`decodeRequest_overlay`). -/

namespace Sope

/-! ## Words -/

/-- Four bytes make up a word again. -/
theorem reassemble (n : ℕ) (h : n < 2 ^ 32) :
    n % 2 ^ 8 ||| (n / 2 ^ 8 % 2 ^ 8) <<< 8 ||| (n / 2 ^ 16 % 2 ^ 8) <<< 16 |||
      (n / 2 ^ 24 % 2 ^ 8) <<< 24 = n := by
  have hor : ∀ i a b : ℕ, b < 2 ^ i → b ||| a <<< i = a * 2 ^ i + b := by
    intro i a b hb
    rw [Nat.lor_comm, ← Nat.shiftLeft_add_eq_or_of_lt hb, Nat.shiftLeft_eq]
  rw [hor 8 _ _ (Nat.mod_lt _ (by decide)), hor 16 _ _ (by omega), hor 24 _ _ (by omega)]
  omega

/-- A word is read where it has been written. -/
theorem decodeWord_append (before after : Bytes) (w : UInt32) :
    decodeWord (before ++ (encodeWord w ++ after)) before.length = w := by
  have hget : ∀ i < 4, (before ++ (encodeWord w ++ after)).getD (before.length + i) 0
      = (encodeWord w).getD i 0 := by
    intro i hi
    rw [List.getD_append_right _ _ _ _ (by omega), Nat.add_sub_cancel_left,
      List.getD_append _ _ _ _ hi]
  have h0 := hget 0 (by decide)
  rw [Nat.add_zero] at h0
  rw [decodeWord, h0, hget 1 (by decide), hget 2 (by decide), hget 3 (by decide)]
  apply UInt32.toNat_inj.mp
  have hw := w.toNat_lt
  rw [← reassemble w.toNat hw]
  simp only [encodeWord, List.getD_cons_zero, List.getD_cons_succ, UInt32.toNat_or,
    UInt32.toNat_shiftLeft, UInt8.toNat_toUInt32, UInt32.toNat_toUInt8, UInt32.toNat_shiftRight,
    Nat.shiftRight_eq_div_pow, Nat.shiftLeft_eq, UInt32.reduceToNat, Nat.reduceMod, Nat.reducePow]
  -- no byte is shifted out of the word
  rw [Nat.mod_eq_of_lt (a := _ * 256) (by omega), Nat.mod_eq_of_lt (a := _ * 65536) (by omega),
    Nat.mod_eq_of_lt (a := _ * 16777216) (by omega)]

/-- Reading a word behind other bytes. -/
theorem decodeWord_drop (bytes : Bytes) (offset k : ℕ) :
    decodeWord (bytes.drop offset) k = decodeWord bytes (offset + k) := by
  simp only [decodeWord, List.getD_eq_getElem?_getD, List.getElem?_drop, Nat.add_assoc]

@[simp] theorem length_encodeWord (w : UInt32) : (encodeWord w).length = 4 := rfl

/-- The number of an operation is the operation's. -/
@[simp] theorem OpType.ofWord_toWord (type : OpType) : OpType.ofWord type.toWord = type := by
  cases type <;> rfl

/-! ## Memory -/

/-- Reading into the beginning of memory. -/
theorem overlay_zero (memory bytes : Bytes) :
    overlay memory 0 bytes = bytes ++ memory.drop bytes.length := by
  simp [overlay]

/-- Two reads, one behind the other, are one read. -/
theorem overlay_overlay (memory bytes bytes' : Bytes) :
    overlay (overlay memory 0 bytes) bytes.length bytes' = overlay memory 0 (bytes ++ bytes') := by
  simp [overlay, List.drop_append]

/-! ## Requests -/

/-- The number of bytes that an operation's request has after type and length. -/
def OpType.valueLength : OpType → ℕ
  | .opCreateAccount => sizeofReqHeader + sizeofReqCreateAccount
  | .opTransfer => sizeofReqHeader + sizeofReqTransfer
  | _ => sizeofReqHeader

/-- A request as the user program makes them: of one of the four operations, with the length of this
operation. The arrays of its passwords are complete. -/
structure TlvRequest.WellFormed (request : TlvRequest) : Prop where
  type : request.type ≠ .opMaxNumber
  length : request.length.toNat = request.type.valueLength
  password : request.value.header.password.length = maxPasswordLen + 1
  createPassword : request.value.create.password.length = maxPasswordLen + 1

/-- The two requests agree in type, length and header, and in the part of the value that their
operation uses. -/
structure TlvRequest.Same (request request' : TlvRequest) : Prop where
  type : request'.type = request.type
  length : request'.length = request.length
  header : request'.value.header = request.value.header
  create : request.type = .opCreateAccount → request'.value.create = request.value.create
  transfer : request.type = .opTransfer → request'.value.transfer = request.value.transfer

/-- The bytes of type, length and header. -/
def headBytes (request : TlvRequest) : Bytes :=
  encodeWord request.type.toWord ++ encodeWord request.length ++
    (encodeWord request.value.header.pid ++ encodeWord request.value.header.accountId ++
      request.value.header.password ++ encodeWord request.value.header.opDelayMs)

/-- The bytes of the union. -/
def unionBytes (request : TlvRequest) : Bytes :=
  encodeWord request.value.create.accountId ++ encodeWord request.value.create.balance ++
    request.value.create.password

section Requests

variable {request : TlvRequest}

theorem length_headBytes (h : request.WellFormed) :
    (headBytes request).length = sizeofTypeLength + sizeofReqHeader := by
  simp [headBytes, h.password, maxPasswordLen, sizeofTypeLength, sizeofReqHeader]

theorem length_unionBytes (h : request.WellFormed) :
    (unionBytes request).length = sizeofReqCreateAccount := by
  simp [unionBytes, h.createPassword, maxPasswordLen, sizeofReqCreateAccount]

/-- What is written of a request: all of the head, and of the union what the operation uses. -/
theorem requestBytes_eq (h : request.WellFormed) : requestBytes request =
    headBytes request ++ (unionBytes request).take (request.type.valueLength - sizeofReqHeader) := by
  have hall : encodeRequest request = headBytes request ++ unionBytes request := rfl
  have hle : sizeofReqHeader ≤ request.type.valueLength := by
    cases request.type <;> decide
  rw [requestBytes, hall, List.take_append, length_headBytes h, h.length, List.take_of_length_le]
  · congr 2
    omega
  · rw [length_headBytes h]
    omega

/-- The first bytes are type and length: the length is found in memory that they have been read into. -/
theorem decodeWord_length (h : request.WellFormed) (memory : Bytes) :
    decodeWord (overlay memory 0 ((requestBytes request).take sizeofTypeLength)) 4
      = request.length := by
  have htake : (requestBytes request).take sizeofTypeLength
      = encodeWord request.type.toWord ++ encodeWord request.length := by
    rw [requestBytes_eq h, headBytes, List.append_assoc]
    rfl
  rw [htake, overlay_zero, List.append_assoc, ← (show (encodeWord request.type.toWord).length = 4 from rfl)]
  exact decodeWord_append _ _ _

/-- The bytes of a request are as many as its length says. -/
theorem length_requestBytes (h : request.WellFormed) :
    (requestBytes request).length = sizeofTypeLength + request.length.toNat := by
  have hle : sizeofReqHeader ≤ request.type.valueLength ∧
      request.type.valueLength ≤ sizeofReqHeader + sizeofReqCreateAccount := by
    cases request.type <;> decide
  rw [requestBytes_eq h, List.length_append, List.length_take, length_headBytes h,
    length_unionBytes h, h.length]
  omega

/-- The word behind `k` bytes of a byte string. -/
theorem decodeWord_eq {bytes : Bytes} (before after : Bytes) {k : ℕ} {w : UInt32}
    (h : bytes = before ++ (encodeWord w ++ after)) (hk : before.length = k) :
    decodeWord bytes k = w := by
  rw [h, ← hk]
  exact decodeWord_append before after w

/-- Type, length and header are found in memory that begins with their bytes. -/
theorem decodeRequest_head (h : request.WellFormed) (rest : Bytes) :
    (decodeRequest (headBytes request ++ rest)).type = request.type ∧
      (decodeRequest (headBytes request ++ rest)).length = request.length ∧
      (decodeRequest (headBytes request ++ rest)).value.header = request.value.header := by
  have hp := h.password
  obtain ⟨type, length, ⟨pid, accountId, password, opDelayMs⟩, create⟩ := request
  generalize hb : headBytes _ ++ rest = bytes
  have hbytes : bytes = encodeWord type.toWord ++ (encodeWord length ++ (encodeWord pid ++
      (encodeWord accountId ++ (password ++ (encodeWord opDelayMs ++ rest))))) := by
    rw [← hb]
    simp only [headBytes, List.append_assoc]
  refine ⟨?_, ?_, ?_⟩
  · have htype : decodeWord bytes 0 = type.toWord := decodeWord_eq [] _ hbytes rfl
    rw [decodeRequest, htype, OpType.ofWord_toWord]
  · exact decodeWord_eq (encodeWord type.toWord) _ hbytes rfl
  · have hpid : decodeWord bytes 8 = pid :=
      decodeWord_eq (encodeWord type.toWord ++ encodeWord length) _
        (by rw [hbytes, List.append_assoc]) rfl
    have hid : decodeWord bytes 12 = accountId :=
      decodeWord_eq (encodeWord type.toWord ++ encodeWord length ++ encodeWord pid) _
        (by rw [hbytes, List.append_assoc, List.append_assoc]) rfl
    have hdelay : decodeWord bytes 37 = opDelayMs :=
      decodeWord_eq (encodeWord type.toWord ++ encodeWord length ++ encodeWord pid ++
        encodeWord accountId ++ password) rest (by simp [hbytes])
        (by simp [maxPasswordLen] at hp ⊢; omega)
    have hpassword : (bytes.drop 16).take (maxPasswordLen + 1) = password := by
      have hdrop : bytes.drop 16 = password ++ (encodeWord opDelayMs ++ rest) := by
        rw [hbytes]
        rfl
      rw [hdrop, ← hp]
      exact List.take_left
    simp only [decodeRequest, hpid, hid, hdelay, hpassword]

/-- The union is found behind the head. -/
theorem decodeRequest_union (h : request.WellFormed) (rest : Bytes) :
    ((decodeRequest (headBytes request ++ rest)).value.create =
      { accountId := decodeWord rest 0
        balance := decodeWord rest 4
        password := (rest.drop 8).take (maxPasswordLen + 1) }) := by
  have hlength : (headBytes request).length = 41 := length_headBytes h
  have hword : ∀ k, decodeWord (headBytes request ++ rest) (41 + k) = decodeWord rest k := by
    intro k
    rw [← decodeWord_drop, ← hlength, List.drop_left]
  have hdrop : (headBytes request ++ rest).drop 49 = rest.drop 8 := by
    rw [show 49 = (headBytes request).length + 8 by rw [hlength], List.drop_append,
      List.drop_of_length_le (by omega), List.nil_append, Nat.add_sub_cancel_left]
  simp only [decodeRequest, hdrop, ← hword, Nat.reduceAdd]

/-- **A request survives the channel.** Read in two parts into any memory, it is the same request. -/
theorem decodeRequest_overlay (h : request.WellFormed) (memory : Bytes) :
    request.Same (decodeRequest (overlay (overlay memory 0 ((requestBytes request).take sizeofTypeLength))
      sizeofTypeLength ((requestBytes request).drop sizeofTypeLength))) := by
  have hlength : ((requestBytes request).take sizeofTypeLength).length = sizeofTypeLength := by
    rw [List.length_take, length_requestBytes h]
    omega
  -- the two reads put the bytes back together, one after the other
  have hover := overlay_overlay memory ((requestBytes request).take sizeofTypeLength)
    ((requestBytes request).drop sizeofTypeLength)
  rw [hlength, List.take_append_drop] at hover
  rw [hover, overlay_zero, requestBytes_eq h, List.append_assoc]
  generalize memory.drop _ = garbage
  obtain ⟨htype, hlen, hheader⟩ := decodeRequest_head h
    ((unionBytes request).take (request.type.valueLength - sizeofReqHeader) ++ garbage)
  refine ⟨htype, hlen, hheader, fun hcreate => ?_, fun htransfer => ?_⟩
  · have hall : (unionBytes request).take (request.type.valueLength - sizeofReqHeader)
        = unionBytes request := by
      rw [hcreate]
      exact List.take_of_length_le (length_unionBytes h).le
    have hrest : unionBytes request ++ garbage = encodeWord request.value.create.accountId ++
        (encodeWord request.value.create.balance ++ (request.value.create.password ++ garbage)) := by
      simp [unionBytes]
    have hid : decodeWord (unionBytes request ++ garbage) 0 = request.value.create.accountId :=
      decodeWord_eq [] _ hrest rfl
    have hbalance : decodeWord (unionBytes request ++ garbage) 4 = request.value.create.balance :=
      decodeWord_eq (encodeWord request.value.create.accountId) _ hrest rfl
    have hpassword : ((unionBytes request ++ garbage).drop 8).take (maxPasswordLen + 1)
        = request.value.create.password := by
      have hdrop : (unionBytes request ++ garbage).drop 8
          = request.value.create.password ++ garbage := by
        rw [hrest]
        rfl
      rw [hdrop, ← h.createPassword]
      exact List.take_left
    rw [decodeRequest_union h, hall, hid, hbalance, hpassword]
  -- a transfer: the union is cut short, and its two words are what is sent of it
  · have hwords : (unionBytes request).take (request.type.valueLength - sizeofReqHeader) ++ garbage
        = encodeWord request.value.create.accountId ++
          (encodeWord request.value.create.balance ++ garbage) := by
      rw [htransfer]
      rfl
    have hid := decodeWord_eq (k := 0) [] _ hwords rfl
    have hamount := decodeWord_eq (k := 4) (encodeWord request.value.create.accountId) _ hwords rfl
    rw [ReqValue.transfer, decodeRequest_union h, hid, hamount]
    rfl

end Requests

end Sope
