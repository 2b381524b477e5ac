import Rpc.Native.Protocol

/-!
# ZooKeeper wire primitives

Model of the primitives, requests and responses of `zk_client/zk_proto.hpp`.  A
reader takes the bytes from the pointer to the end of its buffer and returns the
value together with the advanced pointer; past the end it faults.
-/

namespace Rpc.Zk

open BigEndian

/-- `write_int32`. -/
def writeInt32 (buf : Bytes) (v : Int32) : Bytes := buf ++ be32 v.toUInt32

/-- `write_int64`. -/
def writeInt64 (buf : Bytes) (v : Int64) : Bytes :=
  buf ++ be32 (v.toUInt64 >>> 32).toUInt32 ++ be32 v.toUInt64.toUInt32

/-- `read_int32`. -/
def readInt32 : Bytes → Except Fault (Int32 × Bytes)
  | b₀ :: b₁ :: b₂ :: b₃ :: p => .ok ((ofBe32 b₀ b₁ b₂ b₃).toInt32, p)
  | _ => .error .outOfBounds

/-- `read_int64`. -/
def readInt64 : Bytes → Except Fault (Int64 × Bytes)
  | b₀ :: b₁ :: b₂ :: b₃ :: b₄ :: b₅ :: b₆ :: b₇ :: p =>
    .ok (((ofBe32 b₀ b₁ b₂ b₃).toUInt64 <<< 32 ||| (ofBe32 b₄ b₅ b₆ b₇).toUInt64).toInt64, p)
  | _ => .error .outOfBounds

/-- `write_bool`. -/
def writeBool (buf : Bytes) (v : Bool) : Bytes := buf ++ [if v then 1 else 0]

/-- `write_string` and `write_buffer`. -/
def writeString (buf s : Bytes) : Bytes := writeInt32 buf (Int32.ofNat s.length) ++ s

/-- `read_bool`. -/
def readBool : Bytes → Except Fault (Bool × Bytes)
  | b :: p => .ok (b ≠ 0, p)
  | [] => .error .outOfBounds

/-- `read_string` and `read_buffer`: with a negative length the constructor of the
    string, or of the vector, throws `std::length_error`. -/
def readString (p : Bytes) : Except Fault (Bytes × Bytes) := do
  let (len, p) ← readInt32 p
  if len < 0 then throw .otherException
  else if len.toInt.toNat ≤ p.length then
    return (p.take len.toInt.toNat, p.drop len.toInt.toNat)
  else throw .outOfBounds

/-- The loop of `get_children_response::deserialize`. -/
def readStrings : Nat → Bytes → Except Fault (List Bytes × Bytes)
  | 0, p => .ok ([], p)
  | n + 1, p => do
    let (s, p) ← readString p
    let (ss, p) ← readStrings n p
    return (s :: ss, p)

/-- The operations a client sends. -/
inductive OpCode where
  | create | remove | exists | getData | getChildren
  deriving DecidableEq, Repr

/-- The number of an operation on the wire. -/
def OpCode.toInt32 : OpCode → Int32
  | .create => 1
  | .remove => 2
  | .exists => 3
  | .getData => 4
  | .getChildren => 8

/-- `request_header::serialize`, into an empty buffer. -/
def serializeRequestHeader (xid : Int32) (op : OpCode) : Bytes :=
  writeInt32 (writeInt32 [] xid) op.toInt32

/-- `make_zpayload`. -/
def makeZpayload (body : Bytes) : Bytes := writeInt32 [] (Int32.ofNat body.length) ++ body

/-- `reply_header`. -/
structure ReplyHeader where
  xid : Int32
  zxid : Int64
  err : Int32
  deriving DecidableEq, Repr

/-- `reply_header::deserialize`. -/
def ReplyHeader.deserialize (p : Bytes) : Except Fault (ReplyHeader × Bytes) := do
  let (xid, p) ← readInt32 p
  let (zxid, p) ← readInt64 p
  let (err, p) ← readInt32 p
  return ({ xid, zxid, err }, p)

/-! ## Requests -/

/-- `zk_acl`. -/
structure ZkAcl where
  perms : Int32
  scheme : Bytes
  id : Bytes
  deriving DecidableEq, Repr

/-- `zk_acl::serialize`. -/
def ZkAcl.serialize (buf : Bytes) (acl : ZkAcl) : Bytes :=
  writeString (writeString (writeInt32 buf acl.perms) acl.scheme) acl.id

/-- `acl_open_unsafe`. -/
def aclOpenUnsafe : List ZkAcl :=
  [{ perms := 0b11111, scheme := Bytes.ofString "world", id := Bytes.ofString "anyone" }]

/-- The requests of a client, with the fields of their `*_request` structures. -/
inductive Operation where
  | create (path data : Bytes) (acls : List ZkAcl) (flags : Int32)
  | getChildren (path : Bytes) (watch : Bool)
  | getData (path : Bytes) (watch : Bool)
  | exists (path : Bytes) (watch : Bool)
  | remove (path : Bytes) (version : Int32)
  deriving DecidableEq, Repr

/-- The operation of a request. -/
def Operation.opCode : Operation → OpCode
  | .create .. => .create
  | .getChildren .. => .getChildren
  | .getData .. => .getData
  | .exists .. => .exists
  | .remove .. => .remove

/-- `serialize_body` of each request. -/
def Operation.serializeBody : Operation → Bytes
  | .create path data acls flags =>
    let buf := writeString (writeString [] path) data
    writeInt32 (acls.foldl ZkAcl.serialize (writeInt32 buf (Int32.ofNat acls.length))) flags
  | .getChildren path watch | .getData path watch | .exists path watch =>
    writeBool (writeString [] path) watch
  | .remove path version => writeInt32 (writeString [] path) version

/-! ## Responses -/

/-- `zk_stat`. -/
structure ZkStat where
  czxid : Int64
  mzxid : Int64
  ctime : Int64
  mtime : Int64
  version : Int32
  cversion : Int32
  aversion : Int32
  ephemeralOwner : Int64
  dataLength : Int32
  numChildren : Int32
  pzxid : Int64
  deriving DecidableEq, Repr

/-- `zk_stat::deserialize`. -/
def ZkStat.deserialize (p : Bytes) : Except Fault (ZkStat × Bytes) := do
  let (czxid, p) ← readInt64 p
  let (mzxid, p) ← readInt64 p
  let (ctime, p) ← readInt64 p
  let (mtime, p) ← readInt64 p
  let (version, p) ← readInt32 p
  let (cversion, p) ← readInt32 p
  let (aversion, p) ← readInt32 p
  let (ephemeralOwner, p) ← readInt64 p
  let (dataLength, p) ← readInt32 p
  let (numChildren, p) ← readInt32 p
  let (pzxid, p) ← readInt64 p
  return ({ czxid, mzxid, ctime, mtime, version, cversion, aversion, ephemeralOwner, dataLength,
            numChildren, pzxid }, p)

/-- `connect_response`. -/
structure ConnectResponse where
  protocolVersion : Int32
  timeoutMs : Int32
  sessionId : Int64
  passwd : Bytes
  readOnly : Bool
  deriving DecidableEq, Repr

/-- `connect_response::deserialize`. -/
def ConnectResponse.deserialize (p : Bytes) : Except Fault (ConnectResponse × Bytes) := do
  let (protocolVersion, p) ← readInt32 p
  let (timeoutMs, p) ← readInt32 p
  let (sessionId, p) ← readInt64 p
  let (passwd, p) ← readString p
  let (readOnly, p) ← readBool p
  return ({ protocolVersion, timeoutMs, sessionId, passwd, readOnly }, p)

/-- `create_response`. -/
structure CreateResponse where
  path : Bytes
  deriving DecidableEq, Repr

/-- `create_response::deserialize`. -/
def CreateResponse.deserialize (p : Bytes) : Except Fault (CreateResponse × Bytes) := do
  let (path, p) ← readString p
  return ({ path }, p)

/-- `get_children_response`. -/
structure GetChildrenResponse where
  children : List Bytes
  deriving DecidableEq, Repr

/-- `get_children_response::deserialize`: a negative count is an empty loop. -/
def GetChildrenResponse.deserialize (p : Bytes) : Except Fault (GetChildrenResponse × Bytes) := do
  let (count, p) ← readInt32 p
  let (children, p) ← readStrings count.toInt.toNat p
  return ({ children }, p)

/-- `get_data_response`. -/
structure GetDataResponse where
  data : Bytes
  stat : ZkStat
  deriving DecidableEq, Repr

/-- `get_data_response::deserialize`. -/
def GetDataResponse.deserialize (p : Bytes) : Except Fault (GetDataResponse × Bytes) := do
  let (data, p) ← readString p
  let (stat, p) ← ZkStat.deserialize p
  return ({ data, stat }, p)

/-- `exists_response`. -/
structure ExistsResponse where
  stat : ZkStat
  deriving DecidableEq, Repr

/-- `exists_response::deserialize`. -/
def ExistsResponse.deserialize (p : Bytes) : Except Fault (ExistsResponse × Bytes) := do
  let (stat, p) ← ZkStat.deserialize p
  return ({ stat }, p)

/-! ## Error codes -/

/-- The cases of `zk_error_str`. -/
def zkErrorTable : List (Int32 × String) :=
  [(0, "ok"), (-1, "system error"), (-2, "runtime inconsistency"), (-3, "data inconsistency"),
   (-4, "connection loss"), (-5, "marshalling error"), (-6, "unimplemented"),
   (-7, "operation timeout"), (-8, "bad arguments"), (-100, "api error"), (-101, "no node"),
   (-102, "no auth"), (-103, "bad version"), (-108, "no children for ephemerals"),
   (-110, "node exists"), (-111, "not empty")]

/-- `zk_error_str`. -/
def zkErrorStr (err : Int32) : Bytes :=
  Bytes.ofString ((zkErrorTable.lookup err).getD "unknown error")

end Rpc.Zk
