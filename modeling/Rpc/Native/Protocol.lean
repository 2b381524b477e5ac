import Rpc.ForStd.BigEndian

/-!
# The RPC wire protocol

Model of `protocol/rpc_protocol.{h,cpp}`: the 20-byte frame header, the request
and response bodies, and their serializers and parsers.

The writers fill a zeroed buffer at hand-managed offsets, as the source does.
The parsers read the body through `readU16`, `readU32` and `assign`, which
fault with `Fault.outOfBounds` when a byte outside of the buffer is touched, so
that "no read leaves the buffer" is a statement about the result.  Offsets are
`size_t`, 64 bits wide: a buffer has fewer than `2 ^ 63` bytes and every length
field is below `2 ^ 32`, so no sum of the two wraps, and `Nat` stands for them.
-/

namespace Rpc

/-- Why a call did not return normally. -/
inductive Fault where
  /-- `std::runtime_error` with this text -/
  | runtimeError (what : Bytes)
  /-- an exception that is not a `std::runtime_error` -/
  | otherException
  /-- a read outside of the buffer (undefined behaviour, no exception) -/
  | outOfBounds
  deriving DecidableEq, Repr

/-- `if (cond) throw std::runtime_error(what);`. -/
def throwIf (cond : Prop) [Decidable cond] (what : String) : Except Fault Unit :=
  if cond then .error (.runtimeError (Bytes.ofString what)) else .ok ()

/-! ## Words in a buffer -/

/-- `write_u32(&buf[pos], val)`. -/
def writeU32 (buf : Bytes) (pos : Nat) (val : UInt32) : Bytes :=
  buf.blit pos [((val >>> 24) &&& 0xFF).toUInt8, ((val >>> 16) &&& 0xFF).toUInt8,
    ((val >>> 8) &&& 0xFF).toUInt8, (val &&& 0xFF).toUInt8]

/-- `write_u16(&buf[pos], val)`. -/
def writeU16 (buf : Bytes) (pos : Nat) (val : UInt16) : Bytes :=
  buf.blit pos [((val >>> 8) &&& 0xFF).toUInt8, (val &&& 0xFF).toUInt8]

/-- `data[pos] = static_cast<char>(val)`. -/
def writeU8 (buf : Bytes) (pos : Nat) (val : UInt8) : Bytes := buf.blit pos [val]

/-- `data[pos]`. -/
def readU8 (data : Bytes) (pos : Nat) : Except Fault UInt8 :=
  match data[pos]? with
  | some b => .ok b
  | none => .error .outOfBounds

/-- `read_u32(&data[pos])`. -/
def readU32 (data : Bytes) (pos : Nat) : Except Fault UInt32 := do
  let b₀ ← readU8 data pos
  let b₁ ← readU8 data (pos + 1)
  let b₂ ← readU8 data (pos + 2)
  let b₃ ← readU8 data (pos + 3)
  return (b₀.toUInt32 <<< 24) ||| (b₁.toUInt32 <<< 16) ||| (b₂.toUInt32 <<< 8) ||| b₃.toUInt32

/-- `read_u16(&data[pos])`. -/
def readU16 (data : Bytes) (pos : Nat) : Except Fault UInt16 := do
  let b₀ ← readU8 data pos
  let b₁ ← readU8 data (pos + 1)
  return (b₀.toUInt16 <<< 8) ||| b₁.toUInt16

/-- `str.assign(&data[pos], len)`: copies `len` bytes. -/
def assign (data : Bytes) (pos len : Nat) : Except Fault Bytes :=
  if pos + len ≤ data.length then .ok ((data.drop pos).take len) else .error .outOfBounds

/-! ## Frame header -/

/-- Message kinds. -/
inductive MsgType where
  | request | response | rpcError | heartbeat
  deriving DecidableEq, Repr

/-- The byte of the header. -/
def MsgType.toUInt8 : MsgType → UInt8
  | .request => 0x01
  | .response => 0x02
  | .rpcError => 0x03
  | .heartbeat => 0x04

/-- Serializer identifiers. -/
inductive SerType where
  | protobuf | json
  deriving DecidableEq, Repr

/-- The byte of the header. -/
def SerType.toUInt8 : SerType → UInt8
  | .protobuf => 0
  | .json => 1

/-- `FLAG_NONE`. -/
def flagNone : UInt8 := 0x00

/-- The frame header, in host order. -/
structure RpcHeader where
  magic : UInt32
  version : UInt8
  msgType : UInt8
  serializer : UInt8
  flags : UInt8
  seqId : UInt32
  bodySize : UInt32
  checksum : UInt32
  deriving DecidableEq, Repr

/-- `RpcHeader::MAGIC`, `"RPC\x01"`. -/
def RpcHeader.MAGIC : UInt32 := 0x52504301

/-- `RpcHeader::VERSION`. -/
def RpcHeader.VERSION : UInt8 := 1

/-- `serialize_header`. -/
def serializeHeader (header : RpcHeader) : Bytes :=
  let data : Bytes := List.replicate 20 0
  let data := writeU32 data 0 header.magic
  let data := writeU8 data 4 header.version
  let data := writeU8 data 5 header.msgType
  let data := writeU8 data 6 header.serializer
  let data := writeU8 data 7 header.flags
  let data := writeU32 data 8 header.seqId
  let data := writeU32 data 12 header.bodySize
  writeU32 data 16 header.checksum

/-- `deserialize_header`. -/
def deserializeHeader (data : Bytes) : Except Fault RpcHeader := do
  throwIf (data.length < 20) "protocol: header too short"
  let magic ← readU32 data 0
  let version ← readU8 data 4
  let msgType ← readU8 data 5
  let serializer ← readU8 data 6
  let flags ← readU8 data 7
  let seqId ← readU32 data 8
  let bodySize ← readU32 data 12
  let checksum ← readU32 data 16
  return { magic, version, msgType, serializer, flags, seqId, bodySize, checksum }

/-! ## Request body -/

/-- `RpcRequest`. -/
structure RpcRequest where
  serviceName : Bytes
  methodName : Bytes
  timeoutMs : UInt32
  params : Bytes
  deriving DecidableEq, Repr

/-- `RpcRequest::serialize`. Lengths are cast to 16 and 32 bits, the bytes are
    copied in full. -/
def RpcRequest.serialize (r : RpcRequest) : Bytes :=
  let total := 2 + r.serviceName.length + 2 + r.methodName.length + 4 + 4 + r.params.length
  let data : Bytes := List.replicate total 0
  let pos := 0
  let data := writeU16 data pos (UInt16.ofNat r.serviceName.length)
  let pos := pos + 2
  let data := data.blit pos r.serviceName
  let pos := pos + r.serviceName.length
  let data := writeU16 data pos (UInt16.ofNat r.methodName.length)
  let pos := pos + 2
  let data := data.blit pos r.methodName
  let pos := pos + r.methodName.length
  let data := writeU32 data pos r.timeoutMs
  let pos := pos + 4
  let data := writeU32 data pos (UInt32.ofNat r.params.length)
  let pos := pos + 4
  data.blit pos r.params

/-- `RpcRequest::deserialize`. -/
def RpcRequest.deserialize (data : Bytes) : Except Fault RpcRequest := do
  -- covers the first length only; every later field has a check of its own
  throwIf (data.length < 4) "protocol: invalid request"
  let pos := 0
  let srvLen ← readU16 data pos
  let pos := pos + 2
  throwIf (pos + srvLen.toNat > data.length) "protocol: request truncated (service_name)"
  let serviceName ← assign data pos srvLen.toNat
  let pos := pos + srvLen.toNat
  throwIf (pos + 2 > data.length) "protocol: request truncated (method_name)"
  let methodLen ← readU16 data pos
  let pos := pos + 2
  throwIf (pos + methodLen.toNat > data.length) "protocol: request truncated (method_name)"
  let methodName ← assign data pos methodLen.toNat
  let pos := pos + methodLen.toNat
  throwIf (pos + 4 > data.length) "protocol: request truncated (timeout)"
  let timeoutMs ← readU32 data pos
  let pos := pos + 4
  throwIf (pos + 4 > data.length) "protocol: request truncated (params_len)"
  let paramsLen ← readU32 data pos
  let pos := pos + 4
  throwIf (pos + paramsLen.toNat > data.length) "protocol: request truncated (params)"
  let params ← assign data pos paramsLen.toNat
  return { serviceName, methodName, timeoutMs, params }

/-- The frame header `RpcClient::call` builds for a request body. -/
def requestHeader (seqId : UInt32) (bodySize : UInt32) : RpcHeader :=
  { magic := RpcHeader.MAGIC
    version := RpcHeader.VERSION
    msgType := MsgType.request.toUInt8
    serializer := SerType.protobuf.toUInt8
    flags := flagNone
    seqId
    bodySize
    checksum := 0 }

/-! ## Response body -/

/-- `RpcResponse`. -/
structure RpcResponse where
  errorCode : Int32
  errorMsg : Bytes
  result : Bytes
  deriving DecidableEq, Repr

/-- `RpcResponse::serialize`. -/
def RpcResponse.serialize (r : RpcResponse) : Bytes :=
  let total := 4 + 2 + r.errorMsg.length + 4 + r.result.length
  let data : Bytes := List.replicate total 0
  let pos := 0
  let data := writeU32 data pos r.errorCode.toUInt32
  let pos := pos + 4
  -- the cast drops the high bits; `blit` copies the message in full
  let data := writeU16 data pos (UInt16.ofNat r.errorMsg.length)
  let pos := pos + 2
  let data := data.blit pos r.errorMsg
  let pos := pos + r.errorMsg.length
  let data := writeU32 data pos (UInt32.ofNat r.result.length)
  let pos := pos + 4
  data.blit pos r.result

/-- `RpcResponse::deserialize`. -/
def RpcResponse.deserialize (data : Bytes) : Except Fault RpcResponse := do
  throwIf (data.length < 6) "protocol: invalid response"
  let pos := 0
  let errorCode ← readU32 data pos
  let pos := pos + 4
  let errmsgLen ← readU16 data pos
  let pos := pos + 2
  throwIf (pos + errmsgLen.toNat > data.length) "protocol: response truncated (error_msg)"
  let errorMsg ← assign data pos errmsgLen.toNat
  let pos := pos + errmsgLen.toNat
  throwIf (pos + 4 > data.length) "protocol: response truncated (result_len)"
  let resultLen ← readU32 data pos
  let pos := pos + 4
  throwIf (pos + resultLen.toNat > data.length) "protocol: response truncated (result)"
  let result ← assign data pos resultLen.toNat
  return { errorCode := errorCode.toInt32, errorMsg, result }

end Rpc
