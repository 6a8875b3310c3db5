import Sope.Bank.Types

/-! # The bytes of requests and replies

The packed structures of `types.h` as they lie in memory on a little-endian machine: a request is 70
bytes (4 of type, 4 of length, 33 of header, and the 29 of the union's larger member), a reply 20.
A pipe carries the first `8 + length` bytes of a structure. -/

namespace Sope

/-- `sizeof(op_type_t) + sizeof(uint32_t)`. -/
def sizeofTypeLength : ℕ := 8

/-- `sizeof(req_header_t)`. -/
def sizeofReqHeader : ℕ := 33

/-- `sizeof(req_create_account_t)`. -/
def sizeofReqCreateAccount : ℕ := 29

/-- `sizeof(req_transfer_t)`. -/
def sizeofReqTransfer : ℕ := 8

/-- The four bytes of a word, least significant first. -/
def encodeWord (w : UInt32) : Bytes :=
  [w.toUInt8, (w >>> 8).toUInt8, (w >>> 16).toUInt8, (w >>> 24).toUInt8]

/-- The word at an offset of a byte string. -/
def decodeWord (bytes : Bytes) (offset : ℕ) : UInt32 :=
  (bytes.getD offset 0).toUInt32 ||| (bytes.getD (offset + 1) 0).toUInt32 <<< 8 |||
    (bytes.getD (offset + 2) 0).toUInt32 <<< 16 ||| (bytes.getD (offset + 3) 0).toUInt32 <<< 24

/-- The number of an operation. -/
def OpType.toWord : OpType → UInt32
  | .opCreateAccount => 0
  | .opBalance => 1
  | .opTransfer => 2
  | .opShutdown => 3
  | .opMaxNumber => 4

/-- The operation with a given number. -/
def OpType.ofWord (w : UInt32) : OpType :=
  if w = 0 then .opCreateAccount
  else if w = 1 then .opBalance
  else if w = 2 then .opTransfer
  else if w = 3 then .opShutdown
  else .opMaxNumber

/-- The number of a return code. -/
def RetCode.toWord (retCode : RetCode) : UInt32 := UInt32.ofNat retCode.ctorIdx

/-- The bytes of a request, all 70 of them. -/
def encodeRequest (request : TlvRequest) : Bytes :=
  encodeWord request.type.toWord ++ encodeWord request.length ++
    (encodeWord request.value.header.pid ++ encodeWord request.value.header.accountId ++
      request.value.header.password ++ encodeWord request.value.header.opDelayMs) ++
    (encodeWord request.value.create.accountId ++ encodeWord request.value.create.balance ++
      request.value.create.password)

/-- The request in 70 bytes of memory. -/
def decodeRequest (bytes : Bytes) : TlvRequest :=
  { type := OpType.ofWord (decodeWord bytes 0)
    length := decodeWord bytes 4
    value :=
      { header :=
          { pid := decodeWord bytes 8
            accountId := decodeWord bytes 12
            password := (bytes.drop 16).take (maxPasswordLen + 1)
            opDelayMs := decodeWord bytes 37 }
        create :=
          { accountId := decodeWord bytes 41
            balance := decodeWord bytes 45
            password := (bytes.drop 49).take (maxPasswordLen + 1) } } }

/-- Memory after `read` has put `bytes` at an offset of it. -/
def overlay (memory : Bytes) (offset : ℕ) (bytes : Bytes) : Bytes :=
  memory.take offset ++ bytes ++ memory.drop (offset + bytes.length)

/-- The first `8 + length` bytes of a request, what `sendRequest` writes. -/
def requestBytes (request : TlvRequest) : Bytes :=
  (encodeRequest request).take (sizeofTypeLength + request.length.toNat)

/-- The bytes of a reply, all 20 of them; a union that was not assigned may hold anything. -/
def encodeReply (reply : TlvReply) : Bytes :=
  encodeWord reply.type.toWord ++ encodeWord reply.length ++
    encodeWord reply.value.header.accountId ++ encodeWord reply.value.header.retCode.toWord ++
    encodeWord (reply.value.info.getD 0)

/-- The first `8 + length` bytes of a reply, what `sendReply` writes. -/
def replyBytes (reply : TlvReply) : Bytes :=
  (encodeReply reply).take (sizeofTypeLength + reply.length.toNat)

end Sope
