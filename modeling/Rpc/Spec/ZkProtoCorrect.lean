import Rpc.ForStd.Codec
import Rpc.Native.ZkClient

/-!
# The ZooKeeper wire format

The fields of the requests and responses as byte strings (`int32Bytes`,
`stringBytes`, ...): what the `write_*` primitives append, and what the `read_*`
primitives take off again.

`encode` writes the fields of a response in ZooKeeper's order, as a server does;
`responses_roundtrip` says that the `deserialize` of every response type undoes it.
The requests have no decoder here, but their encodings are self-delimiting too
(`wire_unambiguous`).
-/

namespace Rpc.Zk

open BigEndian Codec

/-! ## Fields -/

/-- An `int32_t`, big-endian. -/
def int32Bytes (v : Int32) : Bytes := be32 v.toUInt32

/-- An `int64_t`: the high word first. -/
def int64Bytes (v : Int64) : Bytes :=
  be32 (v.toUInt64 >>> 32).toUInt32 ++ be32 v.toUInt64.toUInt32

/-- A `bool` takes a byte. -/
def boolBytes (v : Bool) : Bytes := [if v then 1 else 0]

/-- A string: its length as an `int32_t`, and its bytes. -/
def stringBytes (s : Bytes) : Bytes := int32Bytes (Int32.ofNat s.length) ++ s

/-- `write_int32` appends four bytes. -/
theorem writeInt32_eq (buf : Bytes) (v : Int32) : writeInt32 buf v = buf ++ int32Bytes v := rfl

/-- `write_int64` appends the two words. -/
theorem writeInt64_eq (buf : Bytes) (v : Int64) : writeInt64 buf v = buf ++ int64Bytes v :=
  List.append_assoc _ _ _

/-- `write_bool` appends one byte. -/
theorem writeBool_eq (buf : Bytes) (v : Bool) : writeBool buf v = buf ++ boolBytes v := rfl

/-- `write_string` appends the length and the bytes. -/
theorem writeString_eq (buf s : Bytes) : writeString buf s = buf ++ stringBytes s :=
  List.append_assoc _ _ _

/-- An `int32_t` takes four bytes. -/
@[simp] theorem int32Bytes_length (v : Int32) : (int32Bytes v).length = 4 := rfl

/-- An `int64_t` takes eight bytes. -/
@[simp] theorem int64Bytes_length (v : Int64) : (int64Bytes v).length = 8 := rfl

/-- A string takes four bytes more than it has. -/
@[simp] theorem stringBytes_length (s : Bytes) : (stringBytes s).length = 4 + s.length := by
  simp [stringBytes]

/-- The two halves of a word. -/
private theorem uint64_halves (u : UInt64) :
    (u >>> 32).toUInt32.toUInt64 <<< 32 ||| u.toUInt32.toUInt64 = u := by
  apply UInt64.toNat_inj.mp
  have hu := u.toNat_lt
  -- the halves share no bit, so `|||` adds them
  have hor := Nat.two_pow_add_eq_or_of_lt (i := 32) (b := u.toNat % 2 ^ 32)
    (Nat.mod_lt _ (by decide)) (u.toNat / 2 ^ 32)
  simp only [UInt64.toNat_or, UInt64.toNat_shiftLeft, UInt64.toNat_shiftRight,
    UInt32.toNat_toUInt64, UInt64.toNat_toUInt32, UInt64.reduceToNat, Nat.shiftLeft_eq,
    Nat.shiftRight_eq_div_pow, Nat.reduceMod, Nat.reducePow] at hor ⊢
  -- in the word shifted by 32 nothing is lost
  have hhigh : u.toNat / 4294967296 % 4294967296 * 4294967296 % 18446744073709551616 =
      4294967296 * (u.toNat / 4294967296) := by omega
  rw [hhigh, ← hor]
  omega

/-- `read_int32` undoes `write_int32`. -/
theorem readInt32_inverts : Inverts readInt32 int32Bytes fun _ => True := by
  intro v p _
  simp only [int32Bytes, be32, List.cons_append, List.nil_append, readInt32, ofBe32_be32,
    Int32.toInt32_toUInt32]

/-- `read_int64` puts the two words together again. -/
theorem readInt64_inverts : Inverts readInt64 int64Bytes fun _ => True := by
  intro v p _
  simp only [int64Bytes, be32, List.cons_append, List.nil_append, readInt64, ofBe32_be32,
    uint64_halves, Int64.toInt64_toUInt64]

/-- `read_bool` undoes `write_bool`. -/
theorem readBool_inverts : Inverts readBool boolBytes fun _ => True := by
  intro v p _
  cases v <;> rfl

/-- `read_string` undoes `write_string`, as long as the length fits its prefix. -/
theorem readString_inverts : Inverts readString stringBytes fun s => s.length < 2 ^ 31 := by
  intro s p hs
  have hint := Int32.toInt_ofNat_of_lt hs
  -- the length is not taken for a negative one
  have hpos : ¬Int32.ofNat s.length < 0 := by
    rw [Int32.lt_iff_toInt_lt, hint]
    show ¬(s.length : Int) < 0
    omega
  have hread := readInt32_inverts (Int32.ofNat s.length) (s ++ p) trivial
  rw [stringBytes, List.append_assoc, readString, hread]
  simp [bind, Except.bind, pure, Except.pure, hpos, hint]

/-! ## Responses -/

/-- The fields of a `zk_stat`, as ZooKeeper writes them. -/
def ZkStat.encode (buf : Bytes) (st : ZkStat) : Bytes :=
  let buf := writeInt64 buf st.czxid
  let buf := writeInt64 buf st.mzxid
  let buf := writeInt64 buf st.ctime
  let buf := writeInt64 buf st.mtime
  let buf := writeInt32 buf st.version
  let buf := writeInt32 buf st.cversion
  let buf := writeInt32 buf st.aversion
  let buf := writeInt64 buf st.ephemeralOwner
  let buf := writeInt32 buf st.dataLength
  let buf := writeInt32 buf st.numChildren
  writeInt64 buf st.pzxid

/-- The fields of a `connect_response`. -/
def ConnectResponse.encode (buf : Bytes) (r : ConnectResponse) : Bytes :=
  let buf := writeInt32 buf r.protocolVersion
  let buf := writeInt32 buf r.timeoutMs
  let buf := writeInt64 buf r.sessionId
  let buf := writeString buf r.passwd
  writeBool buf r.readOnly

/-- The field of a `create_response`. -/
def CreateResponse.encode (buf : Bytes) (r : CreateResponse) : Bytes := writeString buf r.path

/-- The fields of a `get_children_response`: the count comes before the names. -/
def GetChildrenResponse.encode (buf : Bytes) (r : GetChildrenResponse) : Bytes :=
  r.children.foldl writeString (writeInt32 buf (Int32.ofNat r.children.length))

/-- The fields of a `get_data_response`: the `zk_stat` comes last. -/
def GetDataResponse.encode (buf : Bytes) (r : GetDataResponse) : Bytes :=
  r.stat.encode (writeString buf r.data)

/-- The field of an `exists_response`. -/
def ExistsResponse.encode (buf : Bytes) (r : ExistsResponse) : Bytes := r.stat.encode buf

/-- The names of the children stand one after the other. -/
theorem foldl_writeString_eq (ss : List Bytes) (buf : Bytes) :
    ss.foldl writeString buf = buf ++ ss.flatMap stringBytes := by
  induction ss generalizing buf with
  | nil => simp
  | cons s ss ih => rw [List.foldl_cons, ih, writeString_eq, List.append_assoc, List.flatMap_cons]

/-- The `zk_stat` is appended to the buffer. -/
theorem ZkStat.encode_append (st : ZkStat) (buf t : Bytes) :
    st.encode buf ++ t = buf ++ (st.encode [] ++ t) := by
  simp only [ZkStat.encode, writeInt64_eq, writeInt32_eq, List.append_assoc, List.nil_append]

/-- The eleven numbers of a `zk_stat` are read back in the order in which they are written. -/
theorem ZkStat.deserialize_inverts :
    Inverts ZkStat.deserialize (ZkStat.encode []) fun _ => True := by
  intro st t _
  simp only [ZkStat.encode, writeInt64_eq, writeInt32_eq, List.append_assoc, List.nil_append,
    ZkStat.deserialize, readInt64_inverts _ _ trivial, readInt32_inverts _ _ trivial, bind,
    Except.bind, pure, Except.pure]

/-- A `connect_response` is read back if its password is not too long. -/
theorem ConnectResponse.deserialize_inverts :
    Inverts ConnectResponse.deserialize (ConnectResponse.encode [])
      fun r => r.passwd.length < 2 ^ 31 := by
  intro r t hr
  simp only [ConnectResponse.encode, writeInt64_eq, writeInt32_eq, writeString_eq, writeBool_eq,
    List.append_assoc, List.nil_append, ConnectResponse.deserialize,
    readInt64_inverts _ _ trivial, readInt32_inverts _ _ trivial, readString_inverts _ _ hr,
    readBool_inverts _ _ trivial, bind, Except.bind, pure, Except.pure]

/-- A `create_response` is read back if its path is not too long. -/
theorem CreateResponse.deserialize_inverts :
    Inverts CreateResponse.deserialize (CreateResponse.encode [])
      fun r => r.path.length < 2 ^ 31 := by
  intro r t hr
  simp only [CreateResponse.encode, writeString_eq, List.nil_append, CreateResponse.deserialize,
    readString_inverts _ _ hr, bind, Except.bind, pure, Except.pure]

/-- The loop over the children reads as many strings as were written. -/
theorem readStrings_flatMap (ss : List Bytes) (t : Bytes) (h : ∀ s ∈ ss, s.length < 2 ^ 31) :
    readStrings ss.length (ss.flatMap stringBytes ++ t) = .ok (ss, t) := by
  induction ss with
  | nil => rfl
  | cons s ss ih =>
    rw [List.forall_mem_cons] at h
    simp only [List.flatMap_cons, List.append_assoc, List.length_cons, readStrings,
      readString_inverts _ _ h.1, ih h.2, bind, Except.bind, pure, Except.pure]

/-- A `get_children_response` is read back if its names are not too long nor too many. -/
theorem GetChildrenResponse.deserialize_inverts :
    Inverts GetChildrenResponse.deserialize (GetChildrenResponse.encode [])
      fun r => r.children.length < 2 ^ 31 ∧ ∀ c ∈ r.children, c.length < 2 ^ 31 := by
  intro r t hr
  -- the loop runs as often as there are names
  have hcount : (Int32.ofNat r.children.length).toInt.toNat = r.children.length := by
    rw [Int32.toInt_ofNat_of_lt hr.1]
    rfl
  simp only [GetChildrenResponse.encode, foldl_writeString_eq, writeInt32_eq, List.nil_append,
    List.append_assoc, GetChildrenResponse.deserialize, readInt32_inverts _ _ trivial, hcount,
    readStrings_flatMap _ _ hr.2, bind, Except.bind, pure, Except.pure]

/-- A `get_data_response` is read back if the data are not too long. -/
theorem GetDataResponse.deserialize_inverts :
    Inverts GetDataResponse.deserialize (GetDataResponse.encode [])
      fun r => r.data.length < 2 ^ 31 := by
  intro r t hr
  rw [GetDataResponse.encode, ZkStat.encode_append, writeString_eq, List.nil_append]
  simp only [GetDataResponse.deserialize, readString_inverts _ _ hr,
    ZkStat.deserialize_inverts _ _ trivial, bind, Except.bind, pure, Except.pure]

/-- Every `exists_response` is read back. -/
theorem ExistsResponse.deserialize_inverts :
    Inverts ExistsResponse.deserialize (ExistsResponse.encode []) fun _ => True := by
  intro r t _
  simp only [ExistsResponse.encode, ExistsResponse.deserialize,
    ZkStat.deserialize_inverts _ _ trivial, bind, Except.bind, pure, Except.pure]

/-- Decoding a response gives back the value that was encoded, and stops at what follows. -/
theorem responses_roundtrip (t : Bytes) :
    (∀ r : CreateResponse, r.path.length < 2 ^ 31 →
      CreateResponse.deserialize (r.encode [] ++ t) = .ok (r, t)) ∧
    (∀ r : GetChildrenResponse, r.children.length < 2 ^ 31 →
      (∀ c ∈ r.children, c.length < 2 ^ 31) →
      GetChildrenResponse.deserialize (r.encode [] ++ t) = .ok (r, t)) ∧
    (∀ r : GetDataResponse, r.data.length < 2 ^ 31 →
      GetDataResponse.deserialize (r.encode [] ++ t) = .ok (r, t)) ∧
    (∀ r : ExistsResponse, ExistsResponse.deserialize (r.encode [] ++ t) = .ok (r, t)) ∧
    (∀ r : ConnectResponse, r.passwd.length < 2 ^ 31 →
      ConnectResponse.deserialize (r.encode [] ++ t) = .ok (r, t)) ∧
    (∀ v : Int32, readInt32 (writeInt32 [] v ++ t) = .ok (v, t)) ∧
    (∀ v : Int64, readInt64 (writeInt64 [] v ++ t) = .ok (v, t)) :=
  ⟨fun r hr => CreateResponse.deserialize_inverts r t hr,
    fun r hcount hr => GetChildrenResponse.deserialize_inverts r t ⟨hcount, hr⟩,
    fun r hr => GetDataResponse.deserialize_inverts r t hr,
    fun r => ExistsResponse.deserialize_inverts r t trivial,
    fun r hr => ConnectResponse.deserialize_inverts r t hr,
    fun v => readInt32_inverts v t trivial,
    fun v => readInt64_inverts v t trivial⟩

/-- Two children are read, and the byte after them is not. -/
theorem responses_roundtrip_children :
    GetChildrenResponse.deserialize
      (GetChildrenResponse.encode [] { children := [[97], [98, 99]] } ++ [7]) =
        .ok ({ children := [[97], [98, 99]] }, [7]) :=
  (responses_roundtrip [7]).2.1 _ (by decide) (by decide)

/-! ## Requests -/

/-- What `send_request` hands to `do_send` for an operation. -/
def Operation.request (op : Operation) (xid : Int32) : Request :=
  { op := op.opCode, body := op.serializeBody, xid, phase := .registered }

/-- What follows the length prefix. -/
def Request.payload (r : Request) : Bytes := serializeRequestHeader r.xid r.op ++ r.body

/-- An entry of an access control list. -/
def aclBytes (acl : ZkAcl) : Bytes :=
  int32Bytes acl.perms ++ (stringBytes acl.scheme ++ stringBytes acl.id)

/-- `zk_acl::serialize` appends to the buffer. -/
theorem ZkAcl.serialize_eq (buf : Bytes) (acl : ZkAcl) :
    acl.serialize buf = buf ++ aclBytes acl := by
  simp only [ZkAcl.serialize, writeString_eq, writeInt32_eq, aclBytes, List.append_assoc]

/-- The entries of the list stand one after the other. -/
theorem foldl_serialize_eq (acls : List ZkAcl) (buf : Bytes) :
    acls.foldl ZkAcl.serialize buf = buf ++ acls.flatMap aclBytes := by
  induction acls generalizing buf with
  | nil => simp
  | cons acl acls ih =>
    rw [List.foldl_cons, ih, ZkAcl.serialize_eq, List.append_assoc, List.flatMap_cons]

/-- The body of a creation, field by field. -/
theorem Operation.serializeBody_create (path data : Bytes) (acls : List ZkAcl) (flags : Int32) :
    (Operation.create path data acls flags).serializeBody =
      stringBytes path ++ (stringBytes data ++ (int32Bytes (Int32.ofNat acls.length) ++
        (acls.flatMap aclBytes ++ int32Bytes flags))) := by
  simp only [Operation.serializeBody, foldl_serialize_eq, writeString_eq, writeInt32_eq,
    List.append_assoc, List.nil_append]

/-- An ACL takes at least twelve bytes. -/
theorem length_le_flatMap_aclBytes (acls : List ZkAcl) :
    12 * acls.length ≤ (acls.flatMap aclBytes).length := by
  induction acls with
  | nil => simp
  | cons acl acls ih =>
    simp only [List.flatMap_cons, List.length_append, aclBytes, int32Bytes_length,
      stringBytes_length, List.length_cons]
    omega

/-- An entry is not longer than the list. -/
theorem aclBytes_length_le {acl : ZkAcl} {acls : List ZkAcl} (h : acl ∈ acls) :
    (aclBytes acl).length ≤ (acls.flatMap aclBytes).length := by
  induction acls with
  | nil => simp at h
  | cons a acls ih =>
    rw [List.flatMap_cons, List.length_append]
    cases h with
    | head => omega
    | tail _ h =>
      have := ih h
      omega

/-- Equal bytes that begin with a number begin with the same number. -/
theorem int32Bytes_delimited : Delimited int32Bytes fun _ => True := readInt32_inverts.delimited

/-- Equal bytes that begin with a string begin with the same string. -/
theorem stringBytes_delimited : Delimited stringBytes fun s => s.length < 2 ^ 31 :=
  readString_inverts.delimited

/-- Equal bytes that begin with a `bool` begin with the same one. -/
theorem boolBytes_delimited : Delimited boolBytes fun _ => True := readBool_inverts.delimited

/-- Equal bytes that begin with an entry of a list begin with the same entry. -/
theorem aclBytes_delimited : Delimited aclBytes fun acl => (aclBytes acl).length < 2 ^ 31 := by
  intro a b s t ha hb h
  simp only [aclBytes, List.length_append, stringBytes_length, int32Bytes_length] at ha hb
  simp only [aclBytes, List.append_assoc] at h
  -- the fields are told apart one after the other
  obtain ⟨hperms, h⟩ := int32Bytes_delimited _ _ _ _ trivial trivial h
  obtain ⟨hscheme, h⟩ := stringBytes_delimited _ _ _ _ (by omega) (by omega) h
  obtain ⟨hid, h⟩ := stringBytes_delimited _ _ _ _ (by omega) (by omega) h
  refine ⟨?_, h⟩
  cases a
  cases b
  simp only at hperms hscheme hid
  rw [hperms, hscheme, hid]

/-- Numbers of elements below `2 ^ 31` are told apart by their 32 bits. -/
theorem int32_ofNat_inj {n m : Nat} (hn : n < 2 ^ 31) (hm : m < 2 ^ 31)
    (h : Int32.ofNat n = Int32.ofNat m) : n = m := by
  have hint := congrArg Int32.toInt h
  rw [Int32.toInt_ofNat_of_lt hn, Int32.toInt_ofNat_of_lt hm] at hint
  exact Int.ofNat.inj hint

/-- A body that is a path and a flag. -/
theorem pathWatch_inj {path path' : Bytes} {watch watch' : Bool}
    (hlen : (writeBool (writeString [] path) watch).length < 2 ^ 31)
    (hlen' : (writeBool (writeString [] path') watch').length < 2 ^ 31)
    (h : writeBool (writeString [] path) watch = writeBool (writeString [] path') watch') :
    path = path' ∧ watch = watch' := by
  simp only [writeBool_eq, writeString_eq, List.nil_append, List.length_append,
    stringBytes_length] at hlen hlen' h
  obtain ⟨hpath, h⟩ := stringBytes_delimited _ _ _ _ (by omega) (by omega) h
  rw [← List.append_nil (boolBytes watch), ← List.append_nil (boolBytes watch')] at h
  exact ⟨hpath, (boolBytes_delimited _ _ _ _ trivial trivial h).1⟩

/-- A body that is a path and a version. -/
theorem remove_inj {path path' : Bytes} {version version' : Int32}
    (hlen : (Operation.remove path version).serializeBody.length < 2 ^ 31)
    (hlen' : (Operation.remove path' version').serializeBody.length < 2 ^ 31)
    (h : (Operation.remove path version).serializeBody =
      (Operation.remove path' version').serializeBody) :
    path = path' ∧ version = version' := by
  simp only [Operation.serializeBody, writeInt32_eq, writeString_eq, List.nil_append,
    List.length_append, stringBytes_length] at hlen hlen' h
  -- the path tells where the version starts
  obtain ⟨hpath, h⟩ := stringBytes_delimited _ _ _ _ (by omega) (by omega) h
  rw [← List.append_nil (int32Bytes version), ← List.append_nil (int32Bytes version')] at h
  exact ⟨hpath, (int32Bytes_delimited _ _ _ _ trivial trivial h).1⟩

/-- The body of a creation: the list of entries starts with its count. -/
theorem create_inj {path path' data data' : Bytes} {acls acls' : List ZkAcl} {flags flags' : Int32}
    (hlen : (Operation.create path data acls flags).serializeBody.length < 2 ^ 31)
    (hlen' : (Operation.create path' data' acls' flags').serializeBody.length < 2 ^ 31)
    (h : (Operation.create path data acls flags).serializeBody =
      (Operation.create path' data' acls' flags').serializeBody) :
    path = path' ∧ data = data' ∧ acls = acls' ∧ flags = flags' := by
  -- the count of the entries is a number of bytes at least
  have hcount := length_le_flatMap_aclBytes acls
  have hcount' := length_le_flatMap_aclBytes acls'
  simp only [Operation.serializeBody_create, List.length_append, stringBytes_length,
    int32Bytes_length] at hlen hlen' h
  obtain ⟨hpath, h⟩ := stringBytes_delimited _ _ _ _ (by omega) (by omega) h
  obtain ⟨hdata, h⟩ := stringBytes_delimited _ _ _ _ (by omega) (by omega) h
  obtain ⟨hnum, h⟩ := int32Bytes_delimited _ _ _ _ trivial trivial h
  -- an ACL is shorter than the list it is in, and the list shorter than the body
  have hvalid : ∀ acl ∈ acls, (aclBytes acl).length < 2 ^ 31 := by
    intro acl hmem
    have := aclBytes_length_le hmem
    omega
  have hvalid' : ∀ acl ∈ acls', (aclBytes acl).length < 2 ^ 31 := by
    intro acl hmem
    have := aclBytes_length_le hmem
    omega
  obtain ⟨hacls, h⟩ := aclBytes_delimited.flatMap_append
    (int32_ofNat_inj (by omega) (by omega) hnum) hvalid hvalid' h
  rw [← List.append_nil (int32Bytes flags), ← List.append_nil (int32Bytes flags')] at h
  exact ⟨hpath, hdata, hacls, (int32Bytes_delimited _ _ _ _ trivial trivial h).1⟩

/-- The body of a request of a known kind determines its fields. -/
theorem Operation.serializeBody_inj {p q : Operation} (hop : p.opCode = q.opCode)
    (hp : p.serializeBody.length < 2 ^ 31) (hq : q.serializeBody.length < 2 ^ 31)
    (h : p.serializeBody = q.serializeBody) : p = q := by
  -- the kinds are the same; for each, its fields
  cases p with
  | create path data acls flags =>
    cases q with
    | create path' data' acls' flags' =>
      obtain ⟨rfl, rfl, rfl, rfl⟩ := create_inj hp hq h
      rfl
    | _ => cases hop
  | remove path version =>
    cases q with
    | remove path' version' =>
      obtain ⟨rfl, rfl⟩ := remove_inj hp hq h
      rfl
    | _ => cases hop
  | getChildren path watch =>
    cases q with
    | getChildren path' watch' =>
      obtain ⟨rfl, rfl⟩ := pathWatch_inj hp hq h
      rfl
    | _ => cases hop
  | getData path watch =>
    cases q with
    | getData path' watch' =>
      obtain ⟨rfl, rfl⟩ := pathWatch_inj hp hq h
      rfl
    | _ => cases hop
  | «exists» path watch =>
    cases q with
    | «exists» path' watch' =>
      obtain ⟨rfl, rfl⟩ := pathWatch_inj hp hq h
      rfl
    | _ => cases hop

/-- The numbers of the kinds are different. -/
theorem OpCode.toInt32_injective : Function.Injective OpCode.toInt32 := by
  intro a b h
  cases a <;> cases b <;> first | rfl | exact absurd h (by decide)

/-- The payload starts with the xid and the kind. -/
theorem Request.payload_eq (r : Request) :
    r.payload = int32Bytes r.xid ++ (int32Bytes r.op.toInt32 ++ r.body) := by
  simp only [Request.payload, serializeRequestHeader, writeInt32_eq, List.nil_append,
    List.append_assoc]

/-- The frame starts with the length of the payload. -/
theorem Request.wire_eq (r : Request) :
    r.wire = int32Bytes (Int32.ofNat r.payload.length) ++ r.payload := rfl

/-- The header of the payload determines the xid and the kind. -/
theorem Operation.payload_inj {p q : Operation} {x y : Int32}
    (hp : (p.request x).payload.length < 2 ^ 31) (hq : (q.request y).payload.length < 2 ^ 31)
    (h : (p.request x).payload = (q.request y).payload) : p = q ∧ x = y := by
  simp only [Request.payload_eq, List.length_append, int32Bytes_length, Operation.request]
    at hp hq h
  obtain ⟨hxid, h⟩ := int32Bytes_delimited _ _ _ _ trivial trivial h
  obtain ⟨hop, h⟩ := int32Bytes_delimited _ _ _ _ trivial trivial h
  -- the bodies are compared as bodies of one kind
  have hkind := OpCode.toInt32_injective hop
  exact ⟨Operation.serializeBody_inj hkind (by omega) (by omega) h, hxid⟩

/-- No frame is a proper prefix of another: the length prefix says where it ends. -/
theorem Request.payload_eq_of_prefix {r r' : Request} (hr : r.payload.length < 2 ^ 31)
    (hr' : r'.payload.length < 2 ^ 31) (h : r.wire <+: r'.wire) : r.payload = r'.payload := by
  obtain ⟨t, ht⟩ := h
  rw [Request.wire_eq, Request.wire_eq, List.append_assoc] at ht
  obtain ⟨hlen, ht⟩ := int32Bytes_delimited _ _ _ _ trivial trivial ht
  -- as many bytes of either frame are its payload
  exact (List.append_inj (ht.trans (List.append_nil _).symm) (int32_ofNat_inj hr hr' hlen)).1

/-- The frames of two requests are equal, or one a prefix of the other, only when the requests
    are the same; and the length prefix counts the bytes after it. -/
theorem wire_unambiguous (p q : Operation) (x y : Int32)
    (hp : (p.request x).payload.length < 2 ^ 31) (hq : (q.request y).payload.length < 2 ^ 31) :
    ((p.request x).wire = (q.request y).wire ∨ (p.request x).wire <+: (q.request y).wire ∨
      (q.request y).wire <+: (p.request x).wire → p = q ∧ x = y) ∧
    ∃ n rest, readInt32 (p.request x).wire = .ok (n, rest) ∧ n.toInt = rest.length := by
  refine ⟨?_, ?_⟩
  · intro h
    apply Operation.payload_inj hp hq
    -- in all three cases the payloads are the same
    obtain h | h | h := h
    · exact Request.payload_eq_of_prefix hp hq (h ▸ List.prefix_rfl)
    · exact Request.payload_eq_of_prefix hp hq h
    · exact (Request.payload_eq_of_prefix hq hp h).symm
  -- the length prefix is the first number of the frame
  · exact ⟨_, _, readInt32_inverts _ (p.request x).payload trivial, Int32.toInt_ofNat_of_lt hp⟩

/-- Reading a node and asking whether it exists differ in the kind only, and are told apart. -/
theorem wire_unambiguous_kinds :
    ((Operation.getData [47, 97] false).request 3).payload.length < 2 ^ 31 ∧
    ((Operation.exists [47, 97] false).request 3).payload.length < 2 ^ 31 ∧
    ¬((Operation.getData [47, 97] false).request 3).wire <+:
      ((Operation.exists [47, 97] false).request 3).wire := by
  refine ⟨by decide, by decide, ?_⟩
  intro h
  have := (wire_unambiguous (.getData [47, 97] false) (.exists [47, 97] false) 3 3 (by decide)
    (by decide)).1 (.inr (.inl h))
  exact absurd this.1 (by decide)

end Rpc.Zk
