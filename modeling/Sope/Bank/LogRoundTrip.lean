import Sope.Bank.LogReading

/-! # The log is read back

Every line of the log is read back as what it is to tell, and so is the whole file, line by line
(`readLog_logFile`): it tells which calls the processes made, in the order of their writes, and with which
arguments.

A password may contain quotes and newlines. It cannot feign a line, nor hide one: with at most
`MAX_PASSWORD_LEN` bytes it does not reach beyond the first nineteen bytes of the next line, and among these
there are no quotes (`quiet_format`). -/

namespace Sope.Log

open TextReader

variable {α : Type} {next : Bytes → Prop} {b : α}

/-! ## Reading part by part -/

section

variable {parts : List Part}

theorem takes_chars {text : Bytes} {f : Unit → Reader UInt8 α} (h : Takes (f ()) (format parts) b next) :
    Takes (literal text >>= f) (format (.chars text :: parts)) b next :=
  (takes_literal text).bind h fun _ _ => trivial

/-- A text stops a reader that does not take its first byte. -/
theorem stops_chars {p : UInt8 → Bool} {text : Bytes} (htext : text.head?.map p = some false) (rest : Bytes) :
    Stops p (format (.chars text :: parts) ++ rest) := by
  cases text with
  | nil => cases htext
  | cons c text => exact stops_cons.mpr (Option.some.inj htext)

/-- What is read as long as it goes on, before a text. -/
theorem takes_before {β : Type} {a : β} {bytes text : Bytes} {p : UInt8 → Bool} {r : Reader UInt8 β}
    {f : β → Reader UInt8 α} (hr : Takes r bytes a (Stops p)) (htext : text.head?.map p = some false)
    (h : Takes (f a) (format (.chars text :: parts)) b next) :
    Takes (r >>= f) (bytes ++ format (.chars text :: parts)) b next :=
  hr.bind h fun rest _ => stops_chars htext rest

section

variable {text : Bytes} (htext : text.head?.map isDigit = some false)
include htext

theorem takes_d0 {width : ℕ} {n : UInt32} {f : UInt32 → Reader UInt8 α}
    (h : Takes (f n) (format (.chars text :: parts)) b next) :
    Takes (readD0 >>= f) (format (.d0 width n :: .chars text :: parts)) b next :=
  takes_before (takes_readD0 width n) htext h

theorem takes_d {width : ℕ} {n : UInt32} {f : UInt32 → Reader UInt8 α}
    (h : Takes (f n) (format (.chars text :: parts)) b next) :
    Takes (readD >>= f) (format (.d width n :: .chars text :: parts)) b next :=
  takes_before (takes_readD width n) htext h

theorem takes_u {width : ℕ} {n : UInt32} {f : UInt32 → Reader UInt8 α}
    (h : Takes (f n) (format (.chars text :: parts)) b next) :
    Takes (readU >>= f) (format (.u width n :: .chars text :: parts)) b next :=
  takes_before (takes_readU width n) htext h

theorem takes_lu {n : UInt64} {f : UInt64 → Reader UInt8 α}
    (h : Takes (f n) (format (.chars text :: parts)) b next) :
    Takes (readLu >>= f) (format (.lu n :: .chars text :: parts)) b next :=
  takes_before (takes_readLu n) htext h

end

theorem takes_c {byte : UInt8} {f : Bytes → Reader UInt8 α} (h : Takes (f [byte]) (format parts) b next) :
    Takes (block 1 >>= f) (format (.c byte :: parts)) b next :=
  (takes_block rfl).bind h fun _ _ => trivial

/-- A part of a known width. -/
theorem takes_width {part : Part} {width : ℕ} {f : Bytes → Reader UInt8 α} (hwidth : part.bytes.length = width)
    (h : Takes (f part.bytes) (format parts) b next) :
    Takes (block width >>= f) (format (part :: parts)) b next :=
  (takes_block hwidth).bind h fun _ _ => trivial

/-- One of several values, by the text that is written for it. -/
theorem takes_value {values : List α} {write : α → Bytes} {a : α} {β : Type} {c : β} {f : α → Reader UInt8 β}
    (hinj : Function.Injective write) (ha : a ∈ values) (h : Takes (f a) (format parts) c next) :
    Takes (among values write (write a) >>= f) (format parts) c next :=
  (takes_among hinj ha).bind h fun _ _ => trivial

end

/-- The first bytes of a line tell who has logged it, and what kind of line it is. -/
theorem takes_readEntry {kind : UInt8} {id : UInt32} {parts : List Part} {entry : Entry}
    (h : Takes (readKind kind id) (format parts) entry next) :
    Takes readEntry (format (.c kind :: .chars (utf8 " - ") :: .d0 widthId id :: .chars (utf8 " - ") :: parts))
      entry next := by
  apply takes_c
  apply takes_chars
  refine takes_d0 rfl ?_
  apply takes_chars
  exact h

/-! ## Delays and synchronization -/

theorem takes_delay (id delayMs : UInt32) :
    Takes readEntry (format [.c 65, .chars (utf8 " - "), .d0 widthId id, .chars (utf8 " - "), .chars (utf8 "["),
      .u widthDelay delayMs, .chars (utf8 " ms]\n")]) (.delay id delayMs) next := by
  apply takes_readEntry
  apply Takes.peek (fun _ _ => rfl)
  apply takes_chars
  refine takes_u rfl ?_
  apply takes_chars
  apply Takes.pure

theorem takes_syncDelay (id sid delayMs : UInt32) :
    Takes readEntry (format [.c 65, .chars (utf8 " - "), .d0 widthId id, .chars (utf8 " - "),
      .c (syncRoleLetter .account), .d0 widthId sid, .chars (utf8 " ["), .u widthDelay delayMs,
      .chars (utf8 " ms]\n")]) (.syncDelay id sid delayMs) next := by
  apply takes_readEntry
  apply Takes.peek (fun _ _ => rfl)
  -- the letter of the role is the text that the reader expects
  show Takes _ (format (.chars (utf8 "A") :: _)) _ _
  apply takes_chars
  refine takes_d0 rfl ?_
  apply takes_chars
  refine takes_u rfl ?_
  apply takes_chars
  apply Takes.pure

/-- The letters of the roles are different. -/
theorem syncRoleLetter_injective : Function.Injective fun role => [syncRoleLetter role] := by
  intro role role' h
  cases role <;> cases role' <;> first | rfl | exact absurd h (by decide)

theorem syncMechStr_injective : Function.Injective syncMechStr := by
  intro smo smo' h
  cases smo <;> cases smo' <;> first | rfl | exact absurd h (by decide)

/-- A name ends where a blank or the line's end follows. -/
theorem takes_syncMechStr {smo : SyncMechOp} {f : Bytes → Reader UInt8 α} {text : Bytes} {parts : List Part}
    (htext : text.head?.map (fun b => decide (b ≠ 32 ∧ b ≠ 10)) = some false)
    (h : Takes (f (syncMechStr smo)) (format (.chars text :: parts)) b next) :
    Takes ((spanning fun b => b ≠ 32 ∧ b ≠ 10) >>= f)
      (format (.s 0 (syncMechStr smo) :: .chars text :: parts)) b next := by
  have hbytes : (Part.s 0 (syncMechStr smo)).bytes = syncMechStr smo := by cases smo <;> decide
  have hname : (syncMechStr smo).all fun c => decide (c ≠ 32 ∧ c ≠ 10) := by cases smo <;> rfl
  rw [format_cons, hbytes]
  exact takes_before (takes_spanning (List.all_eq_true.mp hname)) htext h

theorem takes_syncMech (id : UInt32) (smo : SyncMechOp) (role : SyncRole) (sid : UInt32) :
    Takes readEntry (format [.c 83, .chars (utf8 " - "), .d0 widthId id, .chars (utf8 " - "),
      .c (syncRoleLetter role), .d0 widthId sid, .chars (utf8 " "), .s 0 (syncMechStr smo),
      .chars (utf8 "\n")]) (.syncMech id smo role sid none) next := by
  apply takes_readEntry
  apply takes_c
  refine takes_value (a := role) syncRoleLetter_injective (by cases role <;> decide) ?_
  refine takes_d0 rfl ?_
  apply takes_chars
  refine takes_syncMechStr rfl ?_
  refine takes_value syncMechStr_injective (by cases smo <;> decide) ?_
  apply Takes.peek (fun _ _ => rfl)
  apply takes_chars
  apply Takes.pure

theorem takes_syncMechSem (id : UInt32) (smo : SyncMechOp) (role : SyncRole) (sid val : UInt32) :
    Takes readEntry (format [.c 83, .chars (utf8 " - "), .d0 widthId id, .chars (utf8 " - "),
      .c (syncRoleLetter role), .d0 widthId sid, .chars (utf8 " "), .s 0 (syncMechStr smo),
      .chars (utf8 " [val="), .d 0 val, .chars (utf8 "]\n")]) (.syncMech id smo role sid (some val)) next := by
  apply takes_readEntry
  apply takes_c
  refine takes_value (a := role) syncRoleLetter_injective (by cases role <;> decide) ?_
  refine takes_d0 rfl ?_
  apply takes_chars
  refine takes_syncMechStr rfl ?_
  refine takes_value syncMechStr_injective (by cases smo <;> decide) ?_
  apply Takes.peek (fun _ _ => rfl)
  apply takes_chars
  refine takes_d rfl ?_
  apply takes_chars
  apply Takes.pure

/-! ## Offices and accounts -/

theorem takes_bankOffice (id : UInt32) (tid : UInt64) (opened : Bool) :
    Takes readEntry (format [.c 73, .chars (utf8 " - "), .d0 widthId id, .chars (utf8 " - "),
      .s (-widthStartend) (if opened then utf8 "OPEN" else utf8 "CLOSE"), .chars (utf8 " "), .lu tid,
      .chars (utf8 "\n")]) (.bankOffice id opened tid) next := by
  apply takes_readEntry
  cases opened with
  | true =>
      apply Takes.peek (fun _ _ => rfl)
      show Takes _ (format [.chars (utf8 "OPEN  "), .lu tid, .chars (utf8 "\n")]) _ _
      apply takes_chars
      refine takes_lu rfl ?_
      apply takes_chars
      apply Takes.pure
  | false =>
      apply Takes.peek (fun _ _ => rfl)
      show Takes _ (format [.chars (utf8 "CLOSE "), .lu tid, .chars (utf8 "\n")]) _ _
      apply takes_chars
      refine takes_lu rfl ?_
      apply takes_chars
      apply Takes.pure

/-- What fills its width is printed as it stands. -/
theorem bytes_s_of_length {width : ℕ} {text : Bytes} (hlen : text.length = width) (hzero : 0 ∉ text) :
    (Part.s width text).bytes = text := by
  rw [Part.bytes, if_pos (by omega), cString_of_notMem hzero, Int.toNat_natCast, padStart, ← hlen,
    Nat.sub_self]
  rfl

/-- A number begins with a digit or a sign. -/
theorem exists_head_formatD0 (width : ℕ) (n : UInt32) :
    ∃ c text, formatD0 width n = c :: text ∧ (isDigit c ∨ c = 45) := by
  unfold formatD0
  split
  · obtain ⟨c, text, htext⟩ := List.exists_cons_of_ne_nil (zeroPadded_ne_nil width n.toNat)
    exact ⟨c, text, htext, .inl (isDigit_of_mem_zeroPadded (htext ▸ List.mem_cons_self))⟩
  · exact ⟨_, _, rfl, .inr rfl⟩

theorem takes_accountCreation (id accountId : UInt32) {salt hashEnd : Bytes} (hsalt : salt.length = saltLen)
    (hsaltZero : 0 ∉ salt) (hhash : hashEnd.length = widthHash) (hhashZero : 0 ∉ hashEnd) :
    Takes readEntry (format [.c 73, .chars (utf8 " - "), .d0 widthId id, .chars (utf8 " - "),
      .d0 widthAccount accountId, .chars (utf8 " "), .s saltLen salt, .chars (utf8 " ..."),
      .s widthHash hashEnd, .chars (utf8 "\n")]) (.accountCreation id accountId salt hashEnd) next := by
  apply takes_readEntry
  obtain ⟨c, text, htext, hc⟩ := exists_head_formatD0 widthAccount accountId
  have hOpen : some c ≠ some 79 := by
    rintro ⟨⟩
    rcases hc with hc | hc <;> exact absurd hc (by decide)
  have hClose : some c ≠ some 67 := by
    rintro ⟨⟩
    rcases hc with hc | hc <;> exact absurd hc (by decide)
  refine Takes.peek (c := c) ?_ ?_
  · intro rest _
    rw [format_cons, Part.bytes, htext]
    rfl
  · rw [if_neg hOpen, if_neg hClose]
    have hsaltBytes := bytes_s_of_length hsalt hsaltZero
    have hhashBytes := bytes_s_of_length hhash hhashZero
    refine takes_d0 rfl ?_
    apply takes_chars
    refine takes_width (by rw [hsaltBytes, hsalt]) ?_
    apply takes_chars
    refine takes_width (by rw [hhashBytes, hhash]) ?_
    apply takes_chars
    rw [hsaltBytes, hhashBytes]
    apply Takes.pure

/-! ## Requests -/

theorem readKind_directionLetter (received : Bool) (id : UInt32) :
    readKind (directionLetter received) id = readMessage received id := by
  cases received <;> rfl

/-- The blanks behind a password fill the field up, so that the password ends where the last quote and
bracket are. -/
theorem takes_readPassword {password : Bytes} (hlen : (cString password).length ≤ maxPasswordLen) :
    Takes readPassword (format [.s 0 password, .chars (utf8 "\")"),
      .s ((maxPasswordLen : ℤ) - (cString password).length) []]) (cString password) fun _ => True := by
  generalize hpad : maxPasswordLen - (cString password).length = pad
  have hint : (maxPasswordLen : ℤ) - (cString password).length = pad := by omega
  have hfield : format [.s 0 password, .chars (utf8 "\")"), .s (pad : ℤ) []]
      = cString password ++ [34, 41] ++ List.replicate pad 32 := by
    simp [Part.bytes, padStart, cString]
    rfl
  rw [hint, hfield]
  have hblock : Takes (block (maxPasswordLen + 2)) (cString password ++ [34, 41] ++ List.replicate pad 32) _
      fun _ => True := takes_block (by simp; omega)
  have hread := hblock.map (f := fun field => (field.rdropWhile (· = 32)).dropLast.dropLast)
  have hend : ((cString password ++ [34, 41] ++ List.replicate pad 32).rdropWhile
      (· = 32)).dropLast.dropLast = cString password := by
    rw [List.rdropWhile, List.reverse_append, List.dropWhile_append_of_pos (by simp)]
    simp
  rwa [hend] at hread

theorem takes_passwordField {password : Bytes} {f : Bytes → Reader UInt8 α} {parts : List Part}
    (hlen : (cString password).length ≤ maxPasswordLen)
    (h : Takes (f (cString password)) (format parts) b next) :
    Takes (readPassword >>= f) (format (.s 0 password :: .chars (utf8 "\")") ::
      .s ((maxPasswordLen : ℤ) - (cString password).length) [] :: parts)) b next := by
  have hread := (takes_readPassword hlen).bind h fun _ _ => trivial
  rwa [← format_append] at hread

/-- There is no quote at the front, as far as a password can reach. -/
def Quiet (rest : Bytes) : Prop := 34 ∉ rest.take (maxPasswordLen - 1)

/-- The quote and the newline that end the line of a new account are the last ones within reach: its
password may contain both. -/
theorem takes_readLastPassword {password : Bytes} (hlen : (cString password).length ≤ maxPasswordLen) :
    Takes readLastPassword (format [.s 0 password, .chars (utf8 "\"\n")]) (cString password) Quiet := by
  have htext : format [.s 0 password, .chars (utf8 "\"\n")] = cString password ++ utf8 "\"\n" := by
    simp [Part.bytes, padStart]
  rw [htext]
  have hmark : Takes (literal (utf8 "\"\n")) (utf8 "\"\n") () Quiet :=
    (takes_literal _).mono fun _ _ => trivial
  apply takes_longest hmark hlen
  intro rest hrest k hk hle
  apply literal_eq_none
  intro hprefix
  obtain ⟨after, hafter⟩ := hprefix
  cases k with
  | zero => omega
  | succ k =>
      cases k with
      | zero =>
          -- a newline is not a quote
          have hhead : some (34 : UInt8) = some 10 := congrArg List.head? hafter
          exact absurd hhead (by decide)
      | succ k =>
          -- what follows has no quote so near its front
          have hdrop : (utf8 "\"\n" ++ rest).drop (k + 2) = rest.drop k := rfl
          rw [hdrop] at hafter
          have hk' : k < maxPasswordLen - 1 := by
            have : maxPasswordLen = 20 := rfl
            omega
          have hquote : rest[k]? = some 34 := by
            have hhead : (rest.drop k).head? = some 34 := by
              rw [← hafter]
              rfl
            rwa [List.head?_drop] at hhead
          apply hrest
          rw [List.mem_iff_getElem?]
          refine ⟨k, ?_⟩
          rw [List.getElem?_take_of_lt hk']
          exact hquote

/-- What the line of a request says behind its head. -/
def requestTail (request : TlvRequest) : List Part :=
  match request.type with
  | .opCreateAccount =>
      [.chars (utf8 " "), .d0 widthAccount request.value.create.accountId, .chars (utf8 " "),
        .u widthBalance request.value.create.balance, .chars (utf8 "€ \""),
        .s 0 request.value.create.password, .chars (utf8 "\"\n")]
  | .opTransfer =>
      [.chars (utf8 " "), .d0 widthAccount request.value.transfer.accountId, .chars (utf8 " "),
        .u widthBalance request.value.transfer.amount, .chars (utf8 "€\n")]
  | .opBalance | .opShutdown | .opMaxNumber => [.chars (utf8 "\n")]

theorem padEnd_opTypeStr_injective : Function.Injective fun type => padEnd widthOp (opTypeStr type) := by
  intro type type' h
  cases type <;> cases type' <;> first | rfl | exact absurd h (by decide)

/-- The head of a request, with its operation; how the rest is read depends on that. -/
theorem takes_baseRequestParts (getpid id : UInt32) (request : TlvRequest) {args : RequestArgs}
    {tail : List Part} (hlen : (cString request.value.header.password).length ≤ maxPasswordLen)
    (htype : request.type ∈ operations)
    (hargs : Takes (readRequestArgs request.type) (format tail) args next) :
    Takes readEntry (format (baseRequestParts getpid id request ++ tail))
      (.request ⟨id ≠ getpid, id, request.length, request.value.header.pid, request.value.header.accountId,
        cString request.value.header.password, request.value.header.opDelayMs⟩ args) next := by
  apply takes_readEntry
  rw [readKind_directionLetter]
  apply takes_chars
  refine takes_d rfl ?_
  apply takes_chars
  refine takes_d0 rfl ?_
  apply takes_chars
  apply Takes.peek (fun _ _ => rfl)
  apply takes_chars
  refine takes_d0 rfl ?_
  apply takes_chars
  apply takes_passwordField hlen
  apply takes_chars
  refine takes_u rfl ?_
  apply takes_chars
  have hop : (Part.s (-widthOp) (opTypeStr request.type)).bytes
      = padEnd widthOp (opTypeStr request.type) := by
    cases request.type <;> rfl
  have hwidth : (padEnd widthOp (opTypeStr request.type)).length = widthOp := by
    cases request.type <;> rfl
  refine takes_width (by rw [hop, hwidth]) ?_
  rw [hop]
  refine takes_value (a := request.type) padEnd_opTypeStr_injective htype ?_
  exact hargs.bind_pure

/-- Every request whose password ends within its array is read back. -/
theorem takes_request (getpid id : UInt32) (request : TlvRequest) {entry : Entry}
    (hlen : (cString request.value.header.password).length ≤ maxPasswordLen)
    (hcreate : request.type = .opCreateAccount →
      (cString request.value.create.password).length ≤ maxPasswordLen)
    (hentry : requestEntry getpid id request = some entry) :
    Takes readEntry (format (baseRequestParts getpid id request ++ requestTail request)) entry Quiet := by
  unfold requestEntry at hentry
  have hread := @takes_baseRequestParts Quiet getpid id request
  unfold requestTail
  cases htype : request.type with
  | opCreateAccount =>
      rw [htype] at hentry hread
      cases hentry
      apply hread hlen (by decide)
      apply takes_chars
      refine takes_d0 rfl ?_
      apply takes_chars
      refine takes_u rfl ?_
      apply takes_chars
      exact (takes_readLastPassword (hcreate htype)).bind_pure
  | opBalance =>
      rw [htype] at hentry hread
      cases hentry
      apply hread hlen (by decide)
      apply takes_chars
      apply Takes.pure
  | opTransfer =>
      rw [htype] at hentry hread
      cases hentry
      apply hread hlen (by decide)
      apply takes_chars
      refine takes_d0 rfl ?_
      apply takes_chars
      refine takes_u rfl ?_
      apply takes_chars
      apply Takes.pure
  | opShutdown =>
      rw [htype] at hentry hread
      cases hentry
      apply hread hlen (by decide)
      apply takes_chars
      apply Takes.pure
  | opMaxNumber =>
      rw [htype] at hentry
      cases hentry

/-! ## Replies -/

/-- What the line of a reply says behind its head. -/
def replyTail (stale : UInt32) (reply : TlvReply) : List Part :=
  match reply.type with
  | .opBalance | .opTransfer =>
      [.chars (utf8 " "), .d widthBalance (reply.value.info.getD stale), .chars (utf8 "€\n")]
  | .opShutdown => [.chars (utf8 " "), .d 0 (reply.value.info.getD stale), .chars (utf8 "\n")]
  | .opCreateAccount | .opMaxNumber => [.chars (utf8 "\n")]

theorem padStart_opTypeStr_injective : Function.Injective fun type => padStart widthOp (opTypeStr type) := by
  intro type type' h
  cases type <;> cases type' <;> first | rfl | exact absurd h (by decide)

theorem padStart_rcStr_injective : Function.Injective fun retCode => padStart widthRc (rcStr retCode) := by
  intro retCode retCode' h
  cases retCode <;> cases retCode' <;> first | rfl | exact absurd h (by decide)

/-- The head of a reply; how the rest is read depends on its operation. -/
theorem takes_baseReplyParts (getpid id : UInt32) (reply : TlvReply) {info : ReplyInfo} {tail : List Part}
    (htype : reply.type ∈ operations) (hinfo : Takes (readReplyInfo reply.type) (format tail) info next) :
    Takes readEntry (format (baseReplyParts getpid id reply ++ tail))
      (.reply ⟨id = getpid, id, reply.length, reply.value.header.accountId, reply.value.header.retCode⟩ info)
      next := by
  have hop : (Part.s widthOp (opTypeStr reply.type)).bytes = padStart widthOp (opTypeStr reply.type) := by
    cases reply.type <;> rfl
  have hopWidth : (padStart widthOp (opTypeStr reply.type)).length = widthOp := by
    cases reply.type <;> rfl
  obtain ⟨c, text, htext, hc⟩ : ∃ c text, padStart widthOp (opTypeStr reply.type) = c :: text ∧
      some c ≠ some 40 := by
    cases reply.type <;> exact ⟨_, _, rfl, by decide⟩
  have hrc : (Part.s widthRc (rcStr reply.value.header.retCode)).bytes
      = padStart widthRc (rcStr reply.value.header.retCode) := by
    cases reply.value.header.retCode <;> rfl
  have hrcWidth : (padStart widthRc (rcStr reply.value.header.retCode)).length = widthRc := by
    cases reply.value.header.retCode <;> rfl
  apply takes_readEntry
  rw [readKind_directionLetter]
  apply takes_chars
  refine takes_d rfl ?_
  apply takes_chars
  refine takes_d0 rfl ?_
  apply takes_chars
  refine Takes.peek (c := c) ?_ ?_
  · intro rest _
    show (((Part.s widthOp (opTypeStr reply.type)).bytes ++ _) ++ rest).head? = some c
    rw [hop, htext]
    rfl
  · rw [if_neg hc]
    refine takes_width (by rw [hop, hopWidth]) ?_
    rw [hop]
    refine takes_value (a := reply.type) padStart_opTypeStr_injective htype ?_
    apply takes_chars
    refine takes_width (by rw [hrc, hrcWidth]) ?_
    rw [hrc]
    refine takes_value (a := reply.value.header.retCode) padStart_rcStr_injective ?_ ?_
    · cases reply.value.header.retCode <;> decide
    · exact hinfo.bind_pure

theorem takes_reply (getpid stale id : UInt32) (reply : TlvReply) {entry : Entry}
    (hentry : replyEntry getpid stale id reply = some entry) :
    Takes readEntry (format (baseReplyParts getpid id reply ++ replyTail stale reply)) entry next := by
  unfold replyEntry at hentry
  have hread := @takes_baseReplyParts next getpid id reply
  unfold replyTail
  cases htype : reply.type with
  | opCreateAccount =>
      rw [htype] at hentry hread
      cases hentry
      apply hread (by decide)
      apply takes_chars
      apply Takes.pure
  | opBalance =>
      rw [htype] at hentry hread
      cases hentry
      apply hread (by decide)
      apply takes_chars
      refine takes_d rfl ?_
      apply takes_chars
      apply Takes.pure
  | opTransfer =>
      rw [htype] at hentry hread
      cases hentry
      apply hread (by decide)
      apply takes_chars
      refine takes_d rfl ?_
      apply takes_chars
      apply Takes.pure
  | opShutdown =>
      rw [htype] at hentry hread
      cases hentry
      apply hread (by decide)
      apply takes_chars
      refine takes_d rfl ?_
      apply takes_chars
      apply Takes.pure
  | opMaxNumber =>
      rw [htype] at hentry
      cases hentry

/-! ## Whole lines -/

/-- A short part without a NUL. -/
def Plain (part : Part) : Prop := part.room ≤ 64 ∧ part.Lacks 0

/-- A NUL is not printed by a number. -/
theorem rare_zero : Rare 0 := by decide

/-- A quote is not printed by a number. -/
theorem rare_quote : Rare 34 := by decide

theorem length_format_lt {parts : List Part} (h : ∀ part ∈ parts, Plain part) (hlen : parts.length < 64) :
    (format parts).length < pipeBuf := by
  have hle := length_format_le fun part hpart => (h part hpart).1
  show _ < 4096
  omega

theorem zero_notMem_format {parts : List Part} (h : ∀ part ∈ parts, Plain part) : 0 ∉ format parts :=
  rare_zero.notMem_format fun part hpart => (h part hpart).2

/-- What is short enough is written as it is. -/
theorem atomicPrintf_eq {parts : List Part} (h : ∀ part ∈ parts, Plain part) (hlen : parts.length < 64) :
    atomicPrintf parts = (((format parts).length : ℤ), format parts) := by
  rw [atomicPrintf, vsnprintf_of_length_lt (length_format_lt h hlen)]
  show (_, cString (format parts)) = _
  rw [cString_of_notMem (zero_notMem_format h)]

/-- A line whose head has been printed before. -/
theorem atomicPrintf_head {parts tail : List Part} (h : ∀ part ∈ parts ++ tail, Plain part)
    (hlen : (parts ++ tail).length < 64) :
    atomicPrintf (.s 0 (vsnprintf pipeBuf parts).1 :: tail)
      = (((format (parts ++ tail)).length : ℤ), format (parts ++ tail)) := by
  have hparts : ∀ part ∈ parts, Plain part := fun part hpart => h part (List.mem_append_left _ hpart)
  have hhead : (Part.s 0 (vsnprintf pipeBuf parts).1).bytes = format parts := by
    rw [List.length_append] at hlen
    rw [vsnprintf_of_length_lt (length_format_lt hparts (by omega))]
    show padStart 0 (cString (format parts)) = format parts
    rw [cString_of_notMem (zero_notMem_format hparts), padStart, Nat.zero_sub]
    rfl
  have hformat : format (.s 0 (vsnprintf pipeBuf parts).1 :: tail) = format (parts ++ tail) := by
    rw [format_cons, hhead, format_append]
  have hwhole := atomicPrintf_eq h hlen
  rw [atomicPrintf, vsnprintf] at hwhole ⊢
  rw [hformat]
  exact hwhole

/-- There is no quote at the front of a line, as far as a password can reach. -/
theorem quiet_format {parts : List Part} (k : ℕ) (hleast : 19 ≤ ((parts.take k).map Part.least).sum)
    (hlacks : ∀ part ∈ parts.take k, part.Lacks 34) (rest : Bytes) : Quiet (format parts ++ rest) := by
  have hlen := least_le_length_format (parts.take k)
  intro hmem
  rw [← List.take_append_drop k parts, format_append, List.append_assoc,
    List.take_append_of_le_length (by show 20 - 1 ≤ _; omega)] at hmem
  exact rare_quote.notMem_format hlacks (List.mem_of_mem_take hmem)

theorem directionLetter_ne_zero (received : Bool) : directionLetter received ≠ 0 := by
  cases received <;> decide

theorem directionLetter_ne_quote (received : Bool) : directionLetter received ≠ 34 := by
  cases received <;> decide

theorem plain_baseRequestParts (getpid id : UInt32) {request : TlvRequest}
    (hlen : (cString request.value.header.password).length ≤ maxPasswordLen) :
    ∀ part ∈ baseRequestParts getpid id request, Plain part := by
  have hop : (cString (opTypeStr request.type)).length ≤ 64 := by cases request.type <;> decide
  have hpass : (cString request.value.header.password).length ≤ 64 := hlen.trans (by decide)
  have hpad : ((maxPasswordLen : ℤ) - (cString request.value.header.password).length).natAbs ≤ 64 := by
    have : maxPasswordLen = 20 := rfl
    omega
  simp +decide [baseRequestParts, Plain, Part.room, Part.Lacks, directionLetter_ne_zero, hop, hpad, hpass,
    zero_notMem_cString]

theorem plain_requestTail {request : TlvRequest} (hcreate : request.type = .opCreateAccount →
    (cString request.value.create.password).length ≤ maxPasswordLen) :
    ∀ part ∈ requestTail request, Plain part := by
  unfold requestTail
  split
  · next htype =>
      have hpass : (cString request.value.create.password).length ≤ 64 := (hcreate htype).trans (by decide)
      simp +decide [Plain, Part.room, Part.Lacks, hpass, zero_notMem_cString]
  · simp +decide [Plain, Part.room, Part.Lacks]
  · simp +decide [Plain, Part.room, Part.Lacks]
  · simp +decide [Plain, Part.room, Part.Lacks]
  · simp +decide [Plain, Part.room, Part.Lacks]

theorem plain_baseReplyParts (getpid id : UInt32) (reply : TlvReply) :
    ∀ part ∈ baseReplyParts getpid id reply, Plain part := by
  have hop : (cString (opTypeStr reply.type)).length ≤ 64 := by cases reply.type <;> decide
  have hrc : (cString (rcStr reply.value.header.retCode)).length ≤ 64 := by
    cases reply.value.header.retCode <;> decide
  simp +decide [baseReplyParts, Plain, Part.room, Part.Lacks, directionLetter_ne_zero, hop, hrc,
    zero_notMem_cString]

theorem plain_replyTail (stale : UInt32) (reply : TlvReply) :
    ∀ part ∈ replyTail stale reply, Plain part := by
  unfold replyTail
  split <;> simp +decide [Plain, Part.room, Part.Lacks]

/-- The call writes a line, whole and with one `write`, and the line tells the entry. -/
structure Line (getpid : UInt32) (call : LogCall) (entry : Entry) (line : Bytes) : Prop where
  /-- What is to be told. -/
  tells : call.entry getpid = some entry
  /-- What is returned, and what is written. -/
  run : call.run getpid = ((line.length : ℤ), line)
  /-- It is written at once. -/
  short : line.length < pipeBuf
  /-- It is not empty. -/
  long : 19 ≤ line.length
  /-- It is read back. -/
  reads : Takes readEntry line entry Quiet
  /-- It may follow any line. -/
  quiet : ∀ rest, Quiet (line ++ rest)

theorem line_of_parts {getpid : UInt32} {call : LogCall} {entry : Entry} {parts : List Part} (k : ℕ)
    (hentry : call.entry getpid = some entry)
    (hrun : call.run getpid = (((format parts).length : ℤ), format parts))
    (hplain : ∀ part ∈ parts, Plain part) (hlen : parts.length < 64)
    (htakes : Takes readEntry (format parts) entry Quiet)
    (hleast : 19 ≤ ((parts.take k).map Part.least).sum) (hlacks : ∀ part ∈ parts.take k, part.Lacks 34) :
    Line getpid call entry (format parts) where
  tells := hentry
  run := hrun
  short := length_format_lt hplain hlen
  long := by
    have hfront := least_le_length_format (parts.take k)
    have happend := congrArg (fun parts => (format parts).length) (List.take_append_drop k parts)
    simp only [format_append, List.length_append] at happend
    omega
  reads := htakes
  quiet := quiet_format k hleast hlacks

/-- A line that one call of `atomicPrintf` prints part by part. -/
theorem line_of_atomicPrintf {getpid : UInt32} {call : LogCall} {entry : Entry} {parts : List Part} (k : ℕ)
    (hentry : call.entry getpid = some entry) (hrun : call.run getpid = atomicPrintf parts)
    (hplain : ∀ part ∈ parts, Plain part) (htakes : Takes readEntry (format parts) entry Quiet)
    (hlen : parts.length < 64 ∧ 19 ≤ ((parts.take k).map Part.least).sum)
    (hlacks : ∀ part ∈ parts.take k, part.Lacks 34) : ∃ entry line, Line getpid call entry line := by
  obtain ⟨hlen, hleast⟩ := hlen
  rw [atomicPrintf_eq hplain hlen] at hrun
  exact ⟨_, _, line_of_parts k hentry hrun hplain hlen htakes hleast hlacks⟩

/-- `%x`, of a number below 16. -/
def hexDigit (n : ℕ) : UInt8 := UInt8.ofNat (if n < 10 then 48 + n else 87 + n)

/-- `generateSalt`, with the numbers that `rand` gives. -/
def generateSalt (rand : ℕ → ℕ) : Bytes := (List.range saltLen).map fun i => hexDigit (rand i % 16)

/-- A digit of `%x`. -/
def HexDigit (c : UInt8) : Prop := isDigit c ∨ 97 ≤ c ∧ c ≤ 102

/-- The strings of the call fit into their arrays, and the salt is one of hexadecimal digits. -/
def LogCall.Fits : LogCall → Prop
  | .request _ message =>
      (cString message.value.header.password).length ≤ maxPasswordLen ∧
        (message.type = .opCreateAccount →
          (cString message.value.create.password).length ≤ maxPasswordLen)
  | .accountCreation _ account =>
      (account.salt.length = saltLen ∧ ∀ c ∈ account.salt, HexDigit c) ∧
        account.hash.length = hashLen ∧ 0 ∉ account.hash
  | _ => True

theorem hexDigit_hexDigit {n : ℕ} (h : n < 16) : HexDigit (hexDigit n) := by
  unfold HexDigit hexDigit
  interval_cases n <;> decide

/-- What `createAccount` logs fits, whatever the numbers of the salt are. -/
theorem fits_generateSalt {id accountId balance : UInt32} {rand : ℕ → ℕ} {hash : Bytes}
    (hlen : hash.length = hashLen) (hzero : 0 ∉ hash) :
    (LogCall.accountCreation id ⟨accountId, hash, generateSalt rand, balance⟩).Fits := by
  refine ⟨⟨by simp [generateSalt], ?_⟩, hlen, hzero⟩
  intro c hc
  obtain ⟨i, -, rfl⟩ := List.mem_map.mp hc
  exact hexDigit_hexDigit (Nat.mod_lt _ (by decide))

variable {getpid : UInt32}

theorem logRequest_eq {id : UInt32} {request : TlvRequest} (htype : request.type ≠ .opMaxNumber) :
    logRequest getpid id request
      = atomicPrintf (.s 0 (vsnprintf pipeBuf (baseRequestParts getpid id request)).1 ::
          requestTail request) := by
  unfold logRequest requestTail logBaseRequestInfo
  cases h : request.type <;> first | rfl | exact absurd h htype

theorem logReply_eq {stale id : UInt32} {reply : TlvReply} (htype : reply.type ≠ .opMaxNumber) :
    logReply getpid stale id reply
      = atomicPrintf (.s 0 (vsnprintf pipeBuf (baseReplyParts getpid id reply)).1 ::
          replyTail stale reply) := by
  unfold logReply replyTail logBaseReplyInfo
  cases h : reply.type <;> first | rfl | exact absurd h htype

theorem line_request {id : UInt32} {message : TlvRequest} (h : (LogCall.request id message).Fits)
    (htype : message.type ≠ .opMaxNumber) :
    ∃ entry line, Line getpid (.request id message) entry line := by
  obtain ⟨hlen, hcreate⟩ := h
  obtain ⟨entry, hentry⟩ : ∃ entry, requestEntry getpid id message = some entry := by
    unfold requestEntry
    cases hm : message.type <;> first | exact ⟨_, rfl⟩ | exact absurd hm htype
  have hplain : ∀ part ∈ baseRequestParts getpid id message ++ requestTail message, Plain part := by
    intro part hpart
    rcases List.mem_append.mp hpart with hpart | hpart
    · exact plain_baseRequestParts getpid id hlen part hpart
    · exact plain_requestTail hcreate part hpart
  have hcount : (baseRequestParts getpid id message ++ requestTail message).length < 64 := by
    unfold requestTail
    cases message.type <;> simp [baseRequestParts]
  refine ⟨entry, _, line_of_parts 7 hentry ?_ hplain hcount (takes_request getpid id message hlen hcreate hentry)
    (Nat.le_of_ble_eq_true rfl) ?_⟩
  · exact (logRequest_eq htype).trans (atomicPrintf_head hplain hcount)
  · simp +decide [baseRequestParts, Part.Lacks, directionLetter_ne_quote]

theorem line_reply {stale id : UInt32} {message : TlvReply} (htype : message.type ≠ .opMaxNumber) :
    ∃ entry line, Line getpid (.reply stale id message) entry line := by
  obtain ⟨entry, hentry⟩ : ∃ entry, replyEntry getpid stale id message = some entry := by
    unfold replyEntry
    cases hm : message.type <;> first | exact ⟨_, rfl⟩ | exact absurd hm htype
  have hplain : ∀ part ∈ baseReplyParts getpid id message ++ replyTail stale message, Plain part := by
    intro part hpart
    rcases List.mem_append.mp hpart with hpart | hpart
    · exact plain_baseReplyParts getpid id message part hpart
    · exact plain_replyTail stale message part hpart
  have hcount : (baseReplyParts getpid id message ++ replyTail stale message).length < 64 := by
    unfold replyTail
    cases message.type <;> simp [baseReplyParts]
  refine ⟨entry, _, line_of_parts 7 hentry ?_ hplain hcount (takes_reply getpid stale id message hentry)
    (Nat.le_of_ble_eq_true rfl) ?_⟩
  · exact (logReply_eq htype).trans (atomicPrintf_head hplain hcount)
  · simp +decide [baseReplyParts, Part.Lacks, directionLetter_ne_quote]

theorem line_bankOffice {call : LogCall} {id : UInt32} {tid : UInt64} {opened : Bool}
    (hentry : call.entry getpid = some (.bankOffice id opened tid))
    (hrun : call.run getpid = logBankOfficeInfo id tid opened) :
    ∃ entry line, Line getpid call entry line := by
  have hname : (cString (if opened then utf8 "OPEN" else utf8 "CLOSE")).length ≤ 64 := by
    cases opened <;> decide
  have hquote : 34 ∉ cString (if opened then utf8 "OPEN" else utf8 "CLOSE") := by cases opened <;> decide
  have hplain : ∀ part ∈ [Part.c 73, .chars (utf8 " - "), .d0 widthId id, .chars (utf8 " - "),
      .s (-widthStartend) (if opened then utf8 "OPEN" else utf8 "CLOSE"), .chars (utf8 " "), .lu tid,
      .chars (utf8 "\n")], Plain part := by
    simp +decide [Plain, Part.room, Part.Lacks, hname, zero_notMem_cString]
  exact line_of_atomicPrintf 8 hentry hrun hplain (takes_bankOffice id tid opened)
    ⟨Nat.le_of_ble_eq_true rfl, Nat.le_of_ble_eq_true rfl⟩ (by simp +decide [Part.Lacks, hquote])

theorem HexDigit.ne_zero {c : UInt8} (h : HexDigit c) : c ≠ 0 := by
  rintro rfl
  exact absurd h (by unfold HexDigit; decide)

theorem HexDigit.ne_quote {c : UInt8} (h : HexDigit c) : c ≠ 34 := by
  rintro rfl
  exact absurd h (by unfold HexDigit; decide)

theorem line_accountCreation {id : UInt32} {account : BankAccount}
    (h : (LogCall.accountCreation id account).Fits) :
    ∃ entry line, Line getpid (.accountCreation id account) entry line := by
  obtain ⟨⟨hsalt, hhex⟩, hhash, hhashZero⟩ := h
  have hsaltZero : 0 ∉ account.salt := fun h => (hhex 0 h).ne_zero rfl
  have hsaltQuote : 34 ∉ cString account.salt := by
    rw [cString_of_notMem hsaltZero]
    exact fun h => (hhex 34 h).ne_quote rfl
  have hendZero : 0 ∉ account.hash.drop (hashLen - widthHash) := fun h => hhashZero (List.mem_of_mem_drop h)
  have hendLen : (account.hash.drop (hashLen - widthHash)).length = widthHash := by
    rw [List.length_drop, hhash]
    rfl
  have hsaltLe : (cString account.salt).length ≤ 64 := by
    rw [cString_of_notMem hsaltZero, hsalt]
    decide
  have hendLe : (cString (account.hash.drop (hashLen - widthHash))).length ≤ 64 := by
    rw [cString_of_notMem hendZero, hendLen]
    decide
  have hplain : ∀ part ∈ [Part.c 73, .chars (utf8 " - "), .d0 widthId id, .chars (utf8 " - "),
      .d0 widthAccount account.accountId, .chars (utf8 " "), .s saltLen account.salt, .chars (utf8 " ..."),
      .s widthHash (account.hash.drop (hashLen - widthHash)), .chars (utf8 "\n")], Plain part := by
    simp +decide [Plain, Part.room, Part.Lacks, hsaltLe, hendLe, zero_notMem_cString]
  exact line_of_atomicPrintf 7 rfl rfl hplain (takes_accountCreation id _ hsalt hsaltZero hendLen hendZero)
    ⟨Nat.le_of_ble_eq_true rfl, Nat.le_of_ble_eq_true rfl⟩ (by simp +decide [Part.Lacks, hsaltQuote])

theorem syncRoleLetter_ne_zero (role : SyncRole) : syncRoleLetter role ≠ 0 := by
  cases role <;> decide

theorem syncRoleLetter_ne_quote (role : SyncRole) : syncRoleLetter role ≠ 34 := by
  cases role <;> decide

theorem line_syncMech (id : UInt32) (smo : SyncMechOp) (role : SyncRole) (sid : UInt32) :
    ∃ entry line, Line getpid (.syncMech id smo role sid) entry line := by
  have hname : (cString (syncMechStr smo)).length ≤ 64 := by cases smo <;> decide
  have hplain : ∀ part ∈ [Part.c 83, .chars (utf8 " - "), .d0 widthId id, .chars (utf8 " - "),
      .c (syncRoleLetter role), .d0 widthId sid, .chars (utf8 " "), .s 0 (syncMechStr smo),
      .chars (utf8 "\n")], Plain part := by
    simp +decide [Plain, Part.room, Part.Lacks, syncRoleLetter_ne_zero, hname, zero_notMem_cString]
  exact line_of_atomicPrintf 7 rfl rfl hplain (takes_syncMech id smo role sid)
    ⟨Nat.le_of_ble_eq_true rfl, Nat.le_of_ble_eq_true rfl⟩ (by simp +decide [Part.Lacks, syncRoleLetter_ne_quote])

theorem line_syncMechSem (id : UInt32) (smo : SyncMechOp) (role : SyncRole) (sid val : UInt32) :
    ∃ entry line, Line getpid (.syncMechSem id smo role sid val) entry line := by
  have hname : (cString (syncMechStr smo)).length ≤ 64 := by cases smo <;> decide
  have hplain : ∀ part ∈ [Part.c 83, .chars (utf8 " - "), .d0 widthId id, .chars (utf8 " - "),
      .c (syncRoleLetter role), .d0 widthId sid, .chars (utf8 " "), .s 0 (syncMechStr smo),
      .chars (utf8 " [val="), .d 0 val, .chars (utf8 "]\n")], Plain part := by
    simp +decide [Plain, Part.room, Part.Lacks, syncRoleLetter_ne_zero, hname, zero_notMem_cString]
  exact line_of_atomicPrintf 7 rfl rfl hplain (takes_syncMechSem id smo role sid val)
    ⟨Nat.le_of_ble_eq_true rfl, Nat.le_of_ble_eq_true rfl⟩ (by simp +decide [Part.Lacks, syncRoleLetter_ne_quote])

theorem line_delay (id delayMs : UInt32) : ∃ entry line, Line getpid (.delay id delayMs) entry line := by
  have hplain : ∀ part ∈ [Part.c 65, .chars (utf8 " - "), .d0 widthId id, .chars (utf8 " - "),
      .chars (utf8 "["), .u widthDelay delayMs, .chars (utf8 " ms]\n")], Plain part := by
    simp +decide [Plain, Part.room, Part.Lacks]
  exact line_of_atomicPrintf 7 rfl rfl hplain (takes_delay id delayMs)
    ⟨Nat.le_of_ble_eq_true rfl, Nat.le_of_ble_eq_true rfl⟩ (by simp +decide [Part.Lacks])

theorem line_syncDelay (id sid delayMs : UInt32) :
    ∃ entry line, Line getpid (.syncDelay id sid delayMs) entry line := by
  have hplain : ∀ part ∈ [Part.c 65, .chars (utf8 " - "), .d0 widthId id, .chars (utf8 " - "),
      .c (syncRoleLetter .account), .d0 widthId sid, .chars (utf8 " ["), .u widthDelay delayMs,
      .chars (utf8 " ms]\n")], Plain part := by
    simp +decide [Plain, Part.room, Part.Lacks]
  exact line_of_atomicPrintf 8 rfl rfl hplain (takes_syncDelay id sid delayMs)
    ⟨Nat.le_of_ble_eq_true rfl, Nat.le_of_ble_eq_true rfl⟩ (by simp +decide [Part.Lacks])

/-- A call writes nothing, for want of a type, or it writes a line. -/
theorem LogCall.Fits.line (getpid : UInt32) {call : LogCall} (h : call.Fits) :
    call.entry getpid = none ∧ call.run getpid = (-2, []) ∨ ∃ entry line, Line getpid call entry line := by
  cases call with
  | request id message =>
      by_cases htype : message.type = .opMaxNumber
      · exact .inl ⟨by rw [entry, requestEntry, htype], by rw [run, logRequest, htype]⟩
      · exact .inr (line_request h htype)
  | reply stale id message =>
      by_cases htype : message.type = .opMaxNumber
      · exact .inl ⟨by rw [entry, replyEntry, htype], by rw [run, logReply, htype]⟩
      · exact .inr (line_reply htype)
  | bankOfficeOpen id tid => exact .inr (line_bankOffice rfl rfl)
  | bankOfficeClose id tid => exact .inr (line_bankOffice rfl rfl)
  | accountCreation id account => exact .inr (line_accountCreation h)
  | syncMech id smo role sid => exact .inr (line_syncMech id smo role sid)
  | syncMechSem id smo role sid val => exact .inr (line_syncMechSem id smo role sid val)
  | delay id delayMs => exact .inr (line_delay id delayMs)
  | syncDelay id sid delayMs => exact .inr (line_syncDelay id sid delayMs)

/-! ## The log -/

/-- A log is made of lines. -/
theorem exists_lines {calls : List (UInt32 × LogCall)} (h : ∀ call ∈ calls, call.2.Fits) :
    ∃ lines : List (Bytes × Entry), logFile calls = lines.flatMap Prod.fst ∧
      logEntries calls = lines.map Prod.snd ∧
      ∀ line ∈ lines, ∃ getpid call, Line getpid call line.2 line.1 := by
  induction calls with
  | nil => exact ⟨[], rfl, rfl, by simp⟩
  | cons call calls ih =>
      obtain ⟨lines, hfile, hentries, hlines⟩ := ih fun call' hcall => h call' (.tail _ hcall)
      have hfile' : logFile (call :: calls) = (call.2.run call.1).2 ++ lines.flatMap Prod.fst := by
        rw [← hfile]
        rfl
      rcases (h call (.head _)).line call.1 with ⟨hnone, hrun⟩ | ⟨entry, line, hline⟩
      · refine ⟨lines, ?_, ?_, hlines⟩
        · rw [hfile', hrun, List.nil_append]
        · rw [← hentries]
          exact List.filterMap_cons_none hnone
      · refine ⟨(line, entry) :: lines, ?_, ?_, ?_⟩
        · rw [hfile', hline.run]
          rfl
        · rw [List.map_cons, ← hentries]
          exact List.filterMap_cons_some hline.tells
        · intro line' hline'
          rcases List.mem_cons.mp hline' with rfl | hline'
          · exact ⟨call.1, call.2, hline⟩
          · exact hlines line' hline'

/-- **The log tells exactly what was logged.** Take the calls of any processes, with passwords of at most
`MAX_PASSWORD_LEN` bytes, with salts of `SALT_LEN` hexadecimal digits and hashes of `HASH_LEN` bytes that are
not zero. In whatever order they reach the file, and whatever the passwords contain, the whole file is read
back as the entries of the calls, in this order. Every call writes its line whole, with one `write` of less
than `PIPE_BUF` bytes, and returns its length; a message of no type writes nothing. -/
theorem readLog_logFile (calls : List (UInt32 × LogCall)) (h : ∀ call ∈ calls, call.2.Fits) :
    readLog (logFile calls) = some (logEntries calls) ∧
      ∀ getpid call, (getpid, call) ∈ calls → (call.run getpid).2.length < pipeBuf ∧
        call.run getpid = if (call.entry getpid).isSome
          then (((call.run getpid).2.length : ℤ), (call.run getpid).2) else (-2, []) := by
  constructor
  · obtain ⟨lines, hfile, hentries, hlines⟩ := exists_lines h
    rw [hfile, hentries]
    apply readAll_of_takes
    · intro line hline
      obtain ⟨getpid, call, hline⟩ := hlines line hline
      exact hline.reads
    · intro line hline hnil
      obtain ⟨getpid, call, hline⟩ := hlines line hline
      have := hline.long
      rw [hnil] at this
      exact absurd this (by decide)
    · exact List.not_mem_nil
    · intro line hline rest
      obtain ⟨getpid, call, hline⟩ := hlines line hline
      exact hline.quiet rest
  · intro getpid call hcall
    rcases (h _ hcall).line getpid with ⟨hnone, hrun⟩ | ⟨entry, line, hline⟩
    · rw [hnone, hrun]
      exact ⟨by decide, rfl⟩
    · rw [hline.tells, hline.run]
      exact ⟨hline.short, rfl⟩

/-- Two users log their requests, the first one for an account whose password tries to end its line early. -/
theorem readLog_logFile_quote :
    readLog (logFile [(12345, .request 12345 ⟨.opCreateAccount, 86,
        ⟨⟨12345, 0, utf8 "ad\")  \nmin" ++ [0], 12⟩, ⟨7, 1000, utf8 "pass\"\nI - 0\"\n" ++ [0]⟩⟩⟩),
        (12346, .request 12346 ⟨.opBalance, 33, ⟨⟨12346, 7, utf8 "secret" ++ [0], 0⟩, ⟨0, 0, []⟩⟩⟩)]) =
      some [.request ⟨false, 12345, 86, 12345, 0, utf8 "ad\")  \nmin", 12⟩
          (.create 7 1000 (utf8 "pass\"\nI - 0\"\n")),
        .request ⟨false, 12346, 33, 12346, 7, utf8 "secret", 0⟩ .balance] := by
  have hfits : ∀ call ∈ [((12345 : UInt32), LogCall.request 12345 ⟨.opCreateAccount, 86,
        ⟨⟨12345, 0, utf8 "ad\")  \nmin" ++ [0], 12⟩, ⟨7, 1000, utf8 "pass\"\nI - 0\"\n" ++ [0]⟩⟩⟩),
      (12346, .request 12346 ⟨.opBalance, 33, ⟨⟨12346, 7, utf8 "secret" ++ [0], 0⟩, ⟨0, 0, []⟩⟩⟩)],
      call.2.Fits := by
    intro call hcall
    rcases List.mem_cons.mp hcall with rfl | hcall
    · exact ⟨by decide, fun _ => by decide⟩
    · obtain rfl := List.mem_singleton.mp hcall
      exact ⟨by decide, nofun⟩
  exact (readLog_logFile _ hfits).1.trans rfl

end Sope.Log
