import Sope.Bank.Play
import Sope.Clients.Processes

/-! # Replies in a user's FIFO

A reply that the server makes, as the user sees it: the first `8 + length` bytes of it, read in two parts
into a reply that `newReply` has initialised.

* `MadeByServer` — the replies that the server makes, with the constructors of `replymaker.c`.
* `displayReply`, `replyLogLine` — what the user program shows of a reply, and what goes into its log.
* `reply_received` — the user's reply is the server's, in all that is looked at. -/

namespace Sope

open Concurrency

/-! ## Bytes -/

/-- The bytes of a reply: type and length, and as many more as the length says. -/
theorem length_replyBytes {reply : TlvReply} (h : reply.length.toNat ≤ 12) :
    (replyBytes reply).length = sizeofTypeLength + reply.length.toNat := by
  rw [replyBytes, List.length_take, encodeReply]
  simp only [List.length_append, length_encodeWord, sizeofTypeLength]
  omega

/-- A user that has read type and length of a reply finds the length. -/
theorem decodeWord_replyLength (reply : TlvReply) :
    decodeWord (overlay newReply 0 ((replyBytes reply).take sizeofTypeLength)) 4 = reply.length := by
  have htake : (replyBytes reply).take sizeofTypeLength
      = encodeWord reply.type.toWord ++ encodeWord reply.length := by
    rw [replyBytes, List.take_take, Nat.min_eq_left (Nat.le_add_right _ _)]
    rfl
  rw [htake, overlay_zero, List.append_assoc]
  exact decodeWord_append (encodeWord reply.type.toWord) _ _

/-- The return code with a given number. No reply holds another number. -/
def RetCode.ofWord (w : UInt32) : RetCode :=
  [.ok, .srvDown, .srvTimeout, .usrDown, .loginFail, .opNallow, .idInUse, .idNotFound, .sameId,
    .noFunds, .tooHigh, .other].getD w.toNat .other

@[simp] theorem RetCode.ofWord_toWord (retCode : RetCode) : RetCode.ofWord retCode.toWord = retCode := by
  cases retCode <;> rfl

/-- The reply in 20 bytes of memory. -/
def decodeReply (bytes : Bytes) : TlvReply where
  type := OpType.ofWord (decodeWord bytes 0)
  length := decodeWord bytes 4
  value :=
    { header := ⟨decodeWord bytes 8, RetCode.ofWord (decodeWord bytes 12)⟩
      info := some (decodeWord bytes 16) }

/-- In memory a reply has a union that holds something. -/
theorem decodeReply_encodeReply (reply : TlvReply) :
    decodeReply (encodeReply reply)
      = { reply with value := { reply.value with info := some (reply.value.info.getD 0) } } := by
  obtain ⟨type, length, ⟨accountId, retCode⟩, info⟩ := reply
  generalize hbytes : encodeReply _ = bytes
  have hsplit : bytes = encodeWord type.toWord ++ (encodeWord length ++ (encodeWord accountId ++
      (encodeWord retCode.toWord ++ encodeWord (info.getD 0)))) := by
    rw [← hbytes]
    simp only [encodeReply, List.append_assoc]
  have htype : decodeWord bytes 0 = type.toWord := decodeWord_eq [] _ hsplit rfl
  have hlength : decodeWord bytes 4 = length := decodeWord_eq (encodeWord type.toWord) _ hsplit rfl
  have haccount : decodeWord bytes 8 = accountId :=
    decodeWord_eq (encodeWord type.toWord ++ encodeWord length) _ (by rw [hsplit, List.append_assoc]) rfl
  have hcode : decodeWord bytes 12 = retCode.toWord :=
    decodeWord_eq (encodeWord type.toWord ++ encodeWord length ++ encodeWord accountId) _
      (by rw [hsplit, List.append_assoc, List.append_assoc]) rfl
  have hinfo : decodeWord bytes 16 = info.getD 0 :=
    decodeWord_eq (encodeWord type.toWord ++ encodeWord length ++ encodeWord accountId ++
      encodeWord retCode.toWord) [] (by simp [hsplit]) rfl
  simp only [decodeReply, htype, hlength, haccount, hcode, hinfo, OpType.ofWord_toWord,
    RetCode.ofWord_toWord]

/-! ## Reading from the FIFO -/

/-- What a user program returns when its calls succeed and its FIFO holds the bytes `content`. -/
def User.reading {α : Type} (content : Bytes) : User α → Option α
  | .ret a => some a
  | .op c k => match c, k with
    | .read n, k => User.reading (content.drop n) (k (some (content.take n)))
    | .exit _, _ => none
    | .mkfifo _, k => User.reading content (k (0 : Int))
    | .openServerFifo, k => User.reading content (k (3 : Int))
    | .writeRequest request, k => User.reading content (k ((requestBytes request).length : Int))
    | .openUserFifo _, k => User.reading content (k (3 : Int))
    | .closeServerFifo, k => User.reading content (k ())
    | .alarm _, k => User.reading content (k ())
    | .userFifoOpened, k => User.reading content (k ())
    | .closeUserFifo, k => User.reading content (k ())
    | .unlink _, k => User.reading content (k ())

/-- A reply is read completely if its length covers it, or if only its union is missing, which holds
0. -/
theorem reading_awaitReply (request : TlvRequest) (path : Bytes) {reply : TlvReply}
    (h : reply.length.toNat = 12 ∨ reply.length.toNat = 8 ∧ reply.value.info.getD 0 = 0) :
    (awaitReply request path).reading (replyBytes reply) = some (encodeReply reply) := by
  have hlen : (replyBytes reply).length = sizeofTypeLength + reply.length.toNat :=
    length_replyBytes (by omega)
  have hreads : (awaitReply request path).reading (replyBytes reply)
      = some (overlay (overlay newReply 0 ((replyBytes reply).take sizeofTypeLength)) sizeofTypeLength
          (((replyBytes reply).drop sizeofTypeLength).take (decodeWord (overlay newReply 0
            ((replyBytes reply).take sizeofTypeLength)) 4).toNat)) := rfl
  rw [hreads, decodeWord_replyLength]
  -- both reads together get everything
  have hall : ((replyBytes reply).drop sizeofTypeLength).take reply.length.toNat
      = (replyBytes reply).drop sizeofTypeLength :=
    List.take_of_length_le (by rw [List.length_drop, hlen]; omega)
  have hfirst : ((replyBytes reply).take sizeofTypeLength).length = sizeofTypeLength := by
    rw [List.length_take, hlen]
    omega
  have hover := overlay_overlay newReply ((replyBytes reply).take sizeofTypeLength)
    ((replyBytes reply).drop sizeofTypeLength)
  rw [hfirst, List.take_append_drop] at hover
  rw [hall, hover, overlay_zero, hlen, replyBytes]
  congr 1
  rcases h with h | ⟨h, hinfo⟩
  · rw [h]
    exact List.append_nil _
  · have hrest : encodeWord 0 = (encodeReply reply).drop 16 := by
      rw [← hinfo]
      rfl
    rw [h]
    change (encodeReply reply).take 16 ++ encodeWord 0 = _
    rw [hrest, List.take_append_drop]

/-! ## Replies of the server -/

/-- The replies that the server makes. -/
inductive MadeByServer : TlvReply → Prop
  | error (retCode : RetCode) (request : TlvRequest) : MadeByServer (makeErrorReply retCode request)
  | shutdown (accountId activeOffices : UInt32) : MadeByServer (makeShutdownReply accountId activeOffices)
  | balance (accountId balance : UInt32) : MadeByServer (makeBalanceReply accountId balance)
  | transfer (accountId balance : UInt32) (retCode : RetCode) :
      MadeByServer (makeTransferReply accountId balance retCode)
  | create (accountId : UInt32) : MadeByServer (makeCreateReply accountId)

/-- Their lengths. -/
theorem MadeByServer.length {reply : TlvReply} (h : MadeByServer reply) :
    reply.length.toNat = 12 ∨ reply.length.toNat = 8 ∧ reply.value.info.getD 0 = 0 := by
  cases h with
  | error | create => exact .inr ⟨rfl, rfl⟩
  | shutdown | balance | transfer => exact .inl rfl

/-- The union of a reply that can have one has been assigned. -/
theorem MadeByServer.info {reply : TlvReply} (h : MadeByServer reply)
    (htype : reply.type ≠ .opCreateAccount) : some (reply.value.info.getD 0) = reply.value.info := by
  cases h with
  | create => exact absurd rfl htype
  | _ => rfl

/-! ## What is looked at -/

/-- A line that `displayReply` prints. -/
inductive DisplayLine
  | messageLength (length : UInt32)
  | accountId (accountId : UInt32)
  | status (retCode : RetCode)
  | type (type : OpType)
  | balance (balance : Option UInt32)
  | activeOffices (activeOffices : Option UInt32)
  deriving DecidableEq

/-- `displayReply` of `user.c`; the number of the account is that of the request. -/
def displayReply (request : TlvRequest) (reply : TlvReply) : List DisplayLine :=
  [.messageLength reply.length, .accountId request.value.header.accountId,
    .status reply.value.header.retCode] ++
  if reply.value.header.retCode ≠ .ok then []
  else
    match reply.type with
    | .opCreateAccount => [.type .opCreateAccount]
    | .opBalance => [.type .opBalance, .balance reply.value.info]
    | .opTransfer => [.type .opTransfer, .balance reply.value.info]
    | .opShutdown => [.type .opShutdown, .activeOffices reply.value.info]
    | .opMaxNumber => []

/-- What a line of `logReply` is made of: the values of `logBaseReplyInfo`, and the word of the union if
there is one in the line. -/
structure ReplyLogLine where
  length : UInt32
  accountId : UInt32
  type : OpType
  retCode : RetCode
  info : List (Option UInt32)
  deriving DecidableEq

/-- `logReply` of `log.c`, which writes nothing for a type that is no operation. -/
def replyLogLine (reply : TlvReply) : Option ReplyLogLine :=
  let base := ReplyLogLine.mk reply.length reply.value.header.accountId reply.type
    reply.value.header.retCode
  match reply.type with
  | .opCreateAccount => some (base [])
  | .opBalance | .opTransfer | .opShutdown => some (base [reply.value.info])
  | .opMaxNumber => none

/-- **Server and user see the same reply.** For every reply that the server makes, the user reads from its
bytes a reply with the same type, length, account, and return code, and the same balance or number of
active offices if the type has one, also if these have not been sent; what it displays and what it logs is
what the server's reply would make it display, and what the server logs. -/
theorem reply_received {reply : TlvReply} (h : MadeByServer reply) (request : TlvRequest) (path : Bytes) :
    ∃ memory, (awaitReply request path).reading (replyBytes reply) = some memory ∧
      (decodeReply memory).type = reply.type ∧
      (decodeReply memory).length = reply.length ∧
      (decodeReply memory).value.header = reply.value.header ∧
      (reply.type ≠ .opCreateAccount → (decodeReply memory).value.info = reply.value.info) ∧
      displayReply request (decodeReply memory) = displayReply request reply ∧
      replyLogLine (decodeReply memory) = replyLogLine reply := by
  refine ⟨encodeReply reply, reading_awaitReply request path h.length, ?_⟩
  have hinfo := h.info
  rw [decodeReply_encodeReply]
  refine ⟨rfl, rfl, rfl, hinfo, ?_, ?_⟩
  · unfold displayReply
    cases htype : reply.type with
    | opCreateAccount | opMaxNumber => rfl
    | _ =>
        dsimp only
        rw [hinfo (by rw [htype]; nofun)]
  · unfold replyLogLine
    cases htype : reply.type with
    | opCreateAccount | opMaxNumber => rfl
    | _ =>
        dsimp only
        rw [hinfo (by rw [htype]; nofun)]

/-- A refused enquiry of the administrator's: its balance of 0 has not been sent. -/
theorem reply_received_refused :
    ∃ memory, ∃ request : TlvRequest, request.type = .opBalance ∧
      (replyBytes (makeErrorReply .opNallow request)).length = sizeofTypeLength + sizeofRepHeader.toNat ∧
      (awaitReply request []).reading (replyBytes (makeErrorReply .opNallow request)) = some memory ∧
      (decodeReply memory).value.header = ⟨0, .opNallow⟩ ∧ (decodeReply memory).value.info = some 0 := by
  let request : TlvRequest := { creationRequest 1 5 with type := .opBalance }
  obtain ⟨memory, hread, -, -, hheader, hinfo, -⟩ := reply_received (.error .opNallow request) request []
  exact ⟨memory, request, rfl, rfl, hread, hheader, hinfo nofun⟩

end Sope
