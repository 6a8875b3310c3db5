import Sope.Clients.AccountIds
import Sope.Clients.TypedNumbers

/-! # The header that the user typed

`makeReqHeader` fills in the number of the process, the account and the delay, and copies the password over
whatever lies behind it. The office converts the delay to `int` and multiplies it by 1000.

* `decodeWord_strcpy` — what a long password leaves of the delay.
* `header_as_typed` — when the header is the typed one.
* `delay_as_typed` — when an office delays for the typed time. -/

namespace Sope

/-! ## Words in memory -/

/-- The value of a word, by its four bytes. -/
theorem toNat_decodeWord (a b c d : UInt8) (rest : Bytes) :
    (decodeWord (a :: b :: c :: d :: rest) 0).toNat
      = a.toNat + 2 ^ 8 * b.toNat + 2 ^ 16 * c.toNat + 2 ^ 24 * d.toNat := by
  have ha := a.toNat_lt
  have hb := b.toNat_lt
  have hc := c.toNat_lt
  have hd := d.toNat_lt
  have hor : ∀ i x y : ℕ, x < 2 ^ i → x ||| y * 2 ^ i = 2 ^ i * y + x := by
    intro i x y hx
    rw [Nat.lor_comm, ← Nat.shiftLeft_eq, ← Nat.shiftLeft_add_eq_or_of_lt hx, Nat.shiftLeft_eq,
      Nat.mul_comm]
  simp only [decodeWord, List.getD_cons_zero, List.getD_cons_succ, UInt32.toNat_or,
    UInt32.toNat_shiftLeft, UInt8.toNat_toUInt32, Nat.shiftLeft_eq, UInt32.reduceToNat, Nat.reduceMod]
  rw [Nat.mod_eq_of_lt (a := b.toNat * 2 ^ 8) (by omega),
    Nat.mod_eq_of_lt (a := c.toNat * 2 ^ 16) (by omega),
    Nat.mod_eq_of_lt (a := d.toNat * 2 ^ 24) (by omega), hor 8 _ _ (by omega), hor 16 _ _ (by omega),
    hor 24 _ _ (by omega)]
  omega

/-- A word is found exactly where its bytes are. -/
theorem decodeWord_eq_iff {bytes : Bytes} (hlength : 4 ≤ bytes.length) (w : UInt32) :
    decodeWord bytes 0 = w ↔ bytes.take 4 = encodeWord w := by
  have hencode : decodeWord (encodeWord w) 0 = w := decodeWord_append [] [] w
  match bytes, hlength with
  | a :: b :: c :: d :: rest, _ =>
      constructor
      · intro h
        have hbytes := toNat_decodeWord a b c d rest
        have hword := toNat_decodeWord w.toUInt8 (w >>> 8).toUInt8 (w >>> 16).toUInt8 (w >>> 24).toUInt8 []
        change (decodeWord (encodeWord w) 0).toNat = _ at hword
        rw [hencode] at hword
        rw [h, hword] at hbytes
        have ha := a.toNat_lt
        have hb := b.toNat_lt
        have hc := c.toNat_lt
        have hd := d.toNat_lt
        have ha' := w.toUInt8.toNat_lt
        have hb' := (w >>> 8).toUInt8.toNat_lt
        have hc' := (w >>> 16).toUInt8.toNat_lt
        have hd' := (w >>> 24).toUInt8.toNat_lt
        change [a, b, c, d] = [w.toUInt8, (w >>> 8).toUInt8, (w >>> 16).toUInt8, (w >>> 24).toUInt8]
        rw [UInt8.toNat_inj.mp (show a.toNat = w.toUInt8.toNat by omega),
          UInt8.toNat_inj.mp (show b.toNat = (w >>> 8).toUInt8.toNat by omega),
          UInt8.toNat_inj.mp (show c.toNat = (w >>> 16).toUInt8.toNat by omega),
          UInt8.toNat_inj.mp (show d.toNat = (w >>> 24).toUInt8.toNat by omega)]
      · intro h
        change [a, b, c, d] = encodeWord w at h
        have hsplit : a :: b :: c :: d :: rest = encodeWord w ++ rest := by
          rw [← h]
          rfl
        rw [hsplit]
        exact decodeWord_append [] rest w

/-- Overwriting the beginning of a list leaves it as it is if what is written is a beginning of it. -/
theorem take_overwrite_eq_iff (new old : Bytes) :
    (new ++ old.drop new.length).take old.length = old ↔ new.take old.length <+: old := by
  have hold : old.take new.length ++ old.drop new.length = old := List.take_append_drop _ _
  have hrest : (old.drop new.length).take (old.length - new.length) = old.drop new.length :=
    List.take_of_length_le (by rw [List.length_drop])
  have htake : old.take (new.take old.length).length = old.take new.length := by
    rw [List.length_take]
    rcases Nat.le_total old.length new.length with h | h
    · rw [Nat.min_eq_left h, List.take_length, List.take_of_length_le h]
    · rw [Nat.min_eq_right h]
  rw [List.prefix_iff_eq_take, htake, List.take_append, hrest]
  constructor
  · intro h
    exact List.append_cancel_right (h.trans hold.symm)
  · intro h
    rw [h, hold]

/-! ## The header in memory -/

/-- Where the password begins in the header. -/
def passwordOffset : ℕ := 8

section

variable {args : UserArgs} {pid : UInt32} {locals : Locals}

/-- A header is what the password has left of memory that ends with the delay. -/
theorem makeReqHeader_eq {header : ReqHeader} (h : makeReqHeader args pid locals = some header) :
    ∃ memory : Bytes, memory.length = sizeofReqHeader ∧ memory.drop 29 = encodeWord args.delayMS.toUInt32 ∧
      header = decodeReqHeader (strcpy memory passwordOffset args.password) := by
  have hlength := locals.header_length
  simp only [sizeofReqHeader] at hlength
  unfold makeReqHeader at h
  split at h
  · cases h
  cases h
  set memory := overlay (overlay locals.header 0 (encodeWord pid)) 4 (encodeWord args.id.toUInt32)
    with hmemory
  have hmem : memory.length = 33 := by
    have hfirst : (overlay locals.header 0 (encodeWord pid)).length = 33 := by
      rw [length_overlay _ _ (Nat.zero_le _), hlength]
      rfl
    rw [hmemory, length_overlay _ _ (by omega), hfirst]
    rfl
  refine ⟨overlay memory 29 (encodeWord args.delayMS.toUInt32), ?_, ?_, rfl⟩
  · rw [length_overlay _ _ (by omega), hmem]
    rfl
  · rw [overlay, length_encodeWord, List.drop_of_length_le (l := memory) (by omega), List.append_nil]
    exact List.drop_left' (by rw [List.length_take, hmem]; rfl)

/-- What `strcpy` leaves behind the beginning of the password. -/
theorem drop_strcpy {memory : Bytes} (hmem : memory.length = sizeofReqHeader) (password : Bytes) :
    (strcpy memory passwordOffset password).drop passwordOffset
      = (password ++ [0]) ++ memory.drop (passwordOffset + (password ++ [0]).length) := by
  rw [strcpy, overlay, List.append_assoc]
  refine List.drop_left' ?_
  rw [List.length_take, hmem]
  rfl

/-- The field of the password holds it with its end exactly if it is not too long. -/
theorem password_strcpy {memory : Bytes} (hmem : memory.length = sizeofReqHeader) (password : Bytes) :
    password ++ [0] <+: (decodeReqHeader (strcpy memory passwordOffset password)).password ↔
      password.length ≤ maxPasswordLen := by
  have hfield : (decodeReqHeader (strcpy memory passwordOffset password)).password
      = ((strcpy memory passwordOffset password).drop passwordOffset).take (maxPasswordLen + 1) := rfl
  rw [hfield, drop_strcpy hmem]
  constructor
  · intro h
    have hle := h.length_le
    rw [List.length_take, List.length_append, List.length_singleton] at hle
    omega
  · intro h
    have hle : (password ++ [0]).length ≤ maxPasswordLen + 1 := by
      rw [List.length_append, List.length_singleton]
      omega
    rw [List.take_append, List.take_of_length_le hle]
    exact List.prefix_append _ _

/-- The delay is left as it is exactly if the part of the password that is written over it begins like
it. -/
theorem decodeWord_strcpy {memory : Bytes} (hmem : memory.length = sizeofReqHeader) {delay : UInt32}
    (hdelay : memory.drop 29 = encodeWord delay) (password : Bytes) :
    (decodeReqHeader (strcpy memory passwordOffset password)).opDelayMs = delay ↔
      ((password ++ [0]).drop (maxPasswordLen + 1)).take 4 <+: encodeWord delay := by
  set surplus := (password ++ [0]).drop (maxPasswordLen + 1) with hover
  have hafter : (strcpy memory passwordOffset password).drop 29
      = surplus ++ (encodeWord delay).drop surplus.length := by
    have hsplit : (29 : ℕ) = passwordOffset + (maxPasswordLen + 1) := rfl
    rw [hsplit, ← List.drop_drop, drop_strcpy hmem, List.drop_append, List.drop_drop, ← hover, ← hdelay,
      List.drop_drop, hover, List.length_drop]
    congr 2
    simp only [passwordOffset, maxPasswordLen]
    omega
  have hfield : (decodeReqHeader (strcpy memory passwordOffset password)).opDelayMs
      = decodeWord ((strcpy memory passwordOffset password).drop 29) 0 := (decodeWord_drop _ 29 0).symm
  have hlength : 4 ≤ (surplus ++ (encodeWord delay).drop surplus.length).length := by
    simp only [List.length_append, List.length_drop, length_encodeWord]
    omega
  rw [hfield, hafter, decodeWord_eq_iff hlength]
  exact take_overwrite_eq_iff surplus (encodeWord delay)

end

/-! ## The header of a request -/

/-- The argument with index `i`. -/
def argument (argv : List Bytes) (i : ℕ) : Bytes := argv.getD i []

/-- What a request has in its header is the number of the process, and the account, the password and the
delay that the user typed; the password is complete, with its terminator. -/
structure HeaderAsTyped (argv : List Bytes) (pid : UInt32) (header : ReqHeader) : Prop where
  pid : header.pid = pid
  accountId : (header.accountId.toNat : ℤ) = typedNumber (argument argv 1)
  password : argument argv 2 ++ [0] <+: header.password
  opDelayMs : (header.opDelayMs.toNat : ℤ) = typedNumber (argument argv 3)

section

variable {argv : List Bytes} {pid : UInt32} {locals : Locals} {request : TlvRequest}

/-- The header of a request, and the arguments that it comes from. -/
theorem header_of_requestOfArgs (h : requestOfArgs argv pid locals = some request) :
    ∃ args : UserArgs, args.id = atoi (argument argv 1) ∧ args.password = argument argv 2 ∧
      args.delayMS = atoi (argument argv 3) ∧
      createRequest args pid locals = some request ∧
      makeReqHeader args pid locals = some request.value.header := by
  obtain ⟨args, hargs, hrequest⟩ := Option.bind_eq_some_iff.mp h
  refine ⟨args, ?_, ?_, ?_, hrequest, ?_⟩
  iterate 3
    unfold processUserArgs at hargs
    split at hargs
    · cases hargs
      rfl
    · cases hargs
  unfold createRequest at hrequest
  split at hrequest
  · cases hrequest
  obtain ⟨header, hheader, hrequest⟩ := Option.bind_eq_some_iff.mp hrequest
  rw [hheader]
  split at hrequest
  · obtain ⟨create, -, hrequest⟩ := Option.bind_eq_some_iff.mp hrequest
    cases hrequest
    rfl
  · obtain ⟨transfer, -, hrequest⟩ := Option.bind_eq_some_iff.mp hrequest
    cases hrequest
    rfl
  · cases hrequest
    rfl

/-- **The header is the typed one, exactly when the password fits.** For every argument vector that the
user program does not refuse, the header of its request holds the number of the process and what the user
typed, if and only if the password has at most `MAX_PASSWORD_LEN` characters, and the two numbers are ones
that an unsigned word can hold. -/
theorem header_as_typed (h : requestOfArgs argv pid locals = some request) :
    HeaderAsTyped argv pid request.value.header ↔
      (argument argv 2).length ≤ maxPasswordLen ∧
        (0 ≤ typedNumber (argument argv 1) ∧ typedNumber (argument argv 1) < 2 ^ 32) ∧
        0 ≤ typedNumber (argument argv 3) ∧ typedNumber (argument argv 3) < 2 ^ 32 := by
  obtain ⟨args, hid, hpassword, hdelay, -, hheader⟩ := header_of_requestOfArgs h
  obtain ⟨hpid, haccount, -, -⟩ := makeReqHeader_spec hheader
  obtain ⟨memory, hmem, hdrop, heq⟩ := makeReqHeader_eq hheader
  have hfits := password_strcpy hmem args.password
  have hkept := decodeWord_strcpy hmem hdrop args.password
  rw [← heq] at hfits hkept
  rw [hpassword] at hfits hkept
  rw [hid] at haccount
  rw [hdelay] at hkept
  have hid' := toNat_atoi_eq_iff (argument argv 1)
  have hdelay' := toNat_atoi_eq_iff (argument argv 3)
  -- a password that fits is not written over the delay
  have hshort : (argument argv 2).length ≤ maxPasswordLen →
      request.value.header.opDelayMs = (atoi (argument argv 3)).toUInt32 := by
    intro hle
    have hnone : (argument argv 2 ++ [0]).drop (maxPasswordLen + 1) = [] := by
      refine List.drop_of_length_le ?_
      rw [List.length_append, List.length_singleton]
      omega
    refine hkept.mpr ?_
    rw [hnone]
    exact List.nil_prefix
  constructor
  · intro ht
    have hle := hfits.mp ht.password
    refine ⟨hle, hid'.mp ?_, hdelay'.mp ?_⟩
    · rw [← haccount]
      exact ht.accountId
    · rw [← hshort hle]
      exact ht.opDelayMs
  · rintro ⟨hle, hidrange, hdelayrange⟩
    refine ⟨hpid, ?_, hfits.mpr hle, ?_⟩
    · rw [haccount]
      exact hid'.mpr hidrange
    · rw [hshort hle]
      exact hdelay'.mpr hdelayrange

/-- `./user 1 <password> <delay> 1 ""`, a request for the balance of account 1. -/
def headerArgs (password delay : Bytes) : List Bytes :=
  [[46, 47, 117, 115, 101, 114], [49], password, delay, [49], []]

/-- The password `aaaaaaaa` and the delay 100. -/
theorem header_as_typed_short : ∃ request,
    requestOfArgs (headerArgs (List.replicate 8 97) [49, 48, 48]) 100 zeroLocals = some request ∧
      HeaderAsTyped (headerArgs (List.replicate 8 97) [49, 48, 48]) 100 request.value.header := by
  refine ⟨_, rfl, ?_⟩
  exact (header_as_typed rfl).mpr (by decide +kernel)

/-- With a password of 21 characters, the delay 100 becomes 0. -/
theorem exists_overwritten_delay : ∃ request,
    requestOfArgs (headerArgs (List.replicate 21 97) [49, 48, 48]) 100 zeroLocals = some request ∧
      request.value.header.opDelayMs = 0 ∧
      ¬ HeaderAsTyped (headerArgs (List.replicate 21 97) [49, 48, 48]) 100 request.value.header := by
  refine ⟨_, rfl, by decide +kernel, fun h => ?_⟩
  exact absurd h.opDelayMs (by decide +kernel)

/-! ## The delay of an office -/

/-- `INT_MAX / 1000`. -/
def maxDelay : ℕ := 2147483

/-- The delay of a request is the typed one, which is not negative, and an office that manages the request
as `handled` delays for it: the number of microseconds fits into an `int`, and it is what `usleep` gets. -/
structure DelayAsTyped (argv : List Bytes) (request handled : TlvRequest) : Prop where
  stored : (request.value.header.opDelayMs.toNat : ℤ) = typedNumber (argument argv 3)
  nonneg : 0 ≤ typedNumber (argument argv 3)
  noOverflow : -2 ^ 31 ≤ handled.value.header.opDelayMs.toInt32.toInt * 1000 ∧
    handled.value.header.opDelayMs.toInt32.toInt * 1000 < 2 ^ 31
  usleep : ((delayMicroseconds handled.value.header.opDelayMs).toNat : ℤ)
    = 1000 * typedNumber (argument argv 3)

/-- A word as an `int`. -/
theorem toInt_toInt32 (w : UInt32) :
    w.toInt32.toInt = if w.toNat < 2 ^ 31 then (w.toNat : ℤ) else w.toNat - 2 ^ 32 := by
  rw [← Int32.toInt_toBitVec, UInt32.toBitVec_toInt32, BitVec.toInt_eq_toNat_cond,
    UInt32.toNat_toBitVec]
  split <;> split <;> omega

/-- The argument of `usleep`. -/
theorem toNat_delayMicroseconds (w : UInt32) :
    (delayMicroseconds w).toNat = w.toNat * 1000 % 2 ^ 32 := by
  have hmul : delayMicroseconds w = w * 1000 := by
    rw [delayMicroseconds]
    apply UInt32.toBitVec_inj.mp
    simp
  rw [hmul, UInt32.toNat_mul]
  rfl

/-- **The office delays for the typed time, exactly up to `INT_MAX / 1000` milliseconds.** For every
argument vector that the user program does not refuse, the delay of the request is the typed one, and an
office that manages the request delays for it without an overflow, if and only if the typed number is from
0 to `INT_MAX / 1000`, and what a password that is too long writes over the delay is what was there. Here
`handled` is the request as the server decodes it, which agrees with the one that was sent. -/
theorem delay_as_typed {handled : TlvRequest} (h : requestOfArgs argv pid locals = some request)
    (hsame : request.Same handled) :
    DelayAsTyped argv request handled ↔
      (0 ≤ typedNumber (argument argv 3) ∧ typedNumber (argument argv 3) ≤ maxDelay) ∧
        ((argument argv 2 ++ [0]).drop (maxPasswordLen + 1)).take 4
          <+: encodeWord (atoi (argument argv 3)).toUInt32 := by
  obtain ⟨args, -, hpassword, hdelay, -, hheader⟩ := header_of_requestOfArgs h
  obtain ⟨memory, hmem, hdrop, heq⟩ := makeReqHeader_eq hheader
  have hkept := decodeWord_strcpy hmem hdrop args.password
  rw [← heq, hpassword, hdelay] at hkept
  have hrange := toNat_atoi_eq_iff (argument argv 3)
  -- the largest delay whose microseconds fit an `int`
  have hmax : (maxDelay : ℤ) = 2147483 := rfl
  rw [← hkept, hmax]
  constructor
  · intro ht
    have hstored := ht.stored
    have hoverflow := ht.noOverflow
    have husleep := ht.usleep
    rw [hsame.header, toInt_toInt32] at hoverflow
    rw [hsame.header, toNat_delayMicroseconds] at husleep
    have hlt := request.value.header.opDelayMs.toNat_lt
    refine ⟨⟨ht.nonneg, ?_⟩, ?_⟩
    · omega
    · apply UInt32.toNat_inj.mp
      have hword := hrange.mpr ⟨ht.nonneg, by omega⟩
      omega
  · rintro ⟨⟨hnonneg, hle⟩, hstored⟩
    have hword := hrange.mpr ⟨hnonneg, by omega⟩
    rw [← hstored] at hword
    refine ⟨hword, hnonneg, ?_, ?_⟩
    · rw [hsame.header, toInt_toInt32]
      omega
    · rw [hsame.header, toNat_delayMicroseconds]
      omega

/-- The delay 100 is kept. -/
theorem delay_as_typed_short : ∃ request,
    requestOfArgs (headerArgs (List.replicate 8 97) [49, 48, 48]) 100 zeroLocals = some request ∧
      DelayAsTyped (headerArgs (List.replicate 8 97) [49, 48, 48]) request request := by
  refine ⟨_, rfl, ?_⟩
  exact (delay_as_typed rfl ⟨rfl, rfl, rfl, fun _ => rfl, fun _ => rfl⟩).mpr (by decide +kernel)

/-- The delay -1 is not refused. -/
theorem exists_negative_delay : ∃ request,
    requestOfArgs (headerArgs (List.replicate 8 97) [45, 49]) 100 zeroLocals = some request ∧
      request.value.header.opDelayMs = 0xFFFFFFFF ∧
      ∀ handled, ¬ DelayAsTyped (headerArgs (List.replicate 8 97) [45, 49]) request handled := by
  refine ⟨_, rfl, by decide +kernel, fun handled h => ?_⟩
  exact absurd h.nonneg (by decide +kernel)

end

end Sope
