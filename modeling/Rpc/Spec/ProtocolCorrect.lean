import Rpc.Native.Protocol

/-!
# Protocol correctness

The serializers produce the documented wire format (`serializeHeader_eq`,
`RpcRequest.serialize_eq`, `RpcResponse.serialize_eq`), and the parsers accept
exactly the strings that start with it.
-/

namespace Rpc

open BigEndian

/-! ## Writers -/

/-- `write_u32` writes the four bytes of the number, the high one first. -/
theorem writeU32_eq (buf : Bytes) (pos : Nat) (val : UInt32) :
    writeU32 buf pos val = buf.blit pos (be32 val) := by
  simp [writeU32, be32]

/-- `write_u16` writes the two bytes of the number, the high one first. -/
theorem writeU16_eq (buf : Bytes) (pos : Nat) (val : UInt16) :
    writeU16 buf pos val = buf.blit pos (be16 val) := by
  simp [writeU16, be16]

/-- The header on the wire: 20 bytes, every field in big-endian order. -/
theorem serializeHeader_eq (h : RpcHeader) :
    serializeHeader h = be32 h.magic ++ [h.version, h.msgType, h.serializer, h.flags] ++
      be32 h.seqId ++ be32 h.bodySize ++ be32 h.checksum := by
  simp [serializeHeader, writeU32_eq, writeU8, List.blit, be32, List.replicate]

/-- A header takes 20 bytes on the wire. -/
@[simp] theorem serializeHeader_length (h : RpcHeader) : (serializeHeader h).length = 20 := by
  simp [serializeHeader_eq]

/-- The request body on the wire. -/
theorem RpcRequest.serialize_eq (r : RpcRequest) :
    r.serialize = be16 (UInt16.ofNat r.serviceName.length) ++ r.serviceName ++
      be16 (UInt16.ofNat r.methodName.length) ++ r.methodName ++
      be32 r.timeoutMs ++ be32 (UInt32.ofNat r.params.length) ++ r.params := by
  simp only [RpcRequest.serialize, writeU16_eq, writeU32_eq]
  -- the buffer is zeroed and filled from the left: each write meets zeros only
  rw [← List.nil_append (List.replicate _ 0)]
  rw [List.blit_zeros [] _ 0 _
        (r.serviceName.length + 2 + r.methodName.length + 8 + r.params.length) rfl
        (by simp; omega),
    List.blit_zeros _ _ _ _ (2 + r.methodName.length + 8 + r.params.length)
        (by simp) (by omega),
    List.blit_zeros _ _ _ _ (r.methodName.length + 8 + r.params.length)
        (by simp) (by simp; omega),
    List.blit_zeros _ _ _ _ (8 + r.params.length) (by simp; omega) (by omega),
    List.blit_zeros _ _ _ _ (4 + r.params.length) (by simp; omega) (by simp; omega),
    List.blit_zeros _ _ _ _ r.params.length (by simp; omega) (by simp),
    List.blit_zeros _ _ _ _ 0 (by simp; omega) (by simp)]
  simp

/-- The response body on the wire. -/
theorem RpcResponse.serialize_eq (r : RpcResponse) :
    r.serialize = be32 r.errorCode.toUInt32 ++ be16 (UInt16.ofNat r.errorMsg.length) ++
      r.errorMsg ++ be32 (UInt32.ofNat r.result.length) ++ r.result := by
  simp only [RpcResponse.serialize, writeU16_eq, writeU32_eq]
  -- as for the request: behind what is written there are zeros
  rw [← List.nil_append (List.replicate _ 0)]
  rw [List.blit_zeros [] _ 0 _ (2 + r.errorMsg.length + 4 + r.result.length) rfl
        (by simp; omega),
    List.blit_zeros _ _ _ _ (r.errorMsg.length + 4 + r.result.length)
        (by simp) (by simp; omega),
    List.blit_zeros _ _ _ _ (4 + r.result.length) (by simp) (by omega),
    List.blit_zeros _ _ _ _ r.result.length (by simp; omega) (by simp),
    List.blit_zeros _ _ _ _ 0 (by simp; omega) (by simp)]
  simp

/-- Four lengths and the timeout take 12 bytes of a request. -/
theorem RpcRequest.serialize_length (r : RpcRequest) :
    r.serialize.length = 12 + r.serviceName.length + r.methodName.length + r.params.length := by
  rw [RpcRequest.serialize_eq]
  simp only [List.length_append, be16_length, be32_length]
  omega

/-- The code and two lengths take 10 bytes of a response. -/
theorem RpcResponse.serialize_length (r : RpcResponse) :
    r.serialize.length = 10 + r.errorMsg.length + r.result.length := by
  rw [RpcResponse.serialize_eq]
  simp only [List.length_append, be16_length, be32_length]
  omega

/-! ## Readers

In bounds, a reader returns and the unread input starts with what it read. -/

/-- `read_u8` inside of the buffer returns the byte there. -/
private theorem readU8_of_lt (data : Bytes) (pos : Nat) (h : pos < data.length) :
    readU8 data pos = .ok data[pos] := by
  simp [readU8, h]

/-- `readU16` inside of the buffer. -/
theorem readU16_ok (data : Bytes) (pos : Nat) (h : pos + 2 ≤ data.length) :
    ∃ v, readU16 data pos = .ok v ∧ data.drop pos = be16 v ++ data.drop (pos + 2) := by
  refine ⟨ofBe16 data[pos] data[pos + 1], ?_, ?_⟩
  · simp only [readU16, readU8_of_lt data pos (by omega), readU8_of_lt data (pos + 1) (by omega)]
    rfl
  -- the two bytes at the offset are what the number is put together from
  · rw [be16_ofBe16, List.drop_eq_getElem_cons (by omega : pos < data.length),
      List.drop_eq_getElem_cons (by omega : pos + 1 < data.length)]
    rfl

/-- `readU32` inside of the buffer. -/
theorem readU32_ok (data : Bytes) (pos : Nat) (h : pos + 4 ≤ data.length) :
    ∃ v, readU32 data pos = .ok v ∧ data.drop pos = be32 v ++ data.drop (pos + 4) := by
  refine ⟨ofBe32 data[pos] data[pos + 1] data[pos + 2] data[pos + 3], ?_, ?_⟩
  · simp only [readU32, readU8_of_lt data pos (by omega), readU8_of_lt data (pos + 1) (by omega),
      readU8_of_lt data (pos + 2) (by omega), readU8_of_lt data (pos + 3) (by omega)]
    rfl
  -- as for two bytes, with four
  · rw [be32_ofBe32, List.drop_eq_getElem_cons (by omega : pos < data.length),
      List.drop_eq_getElem_cons (by omega : pos + 1 < data.length),
      List.drop_eq_getElem_cons (by omega : pos + 2 < data.length),
      List.drop_eq_getElem_cons (by omega : pos + 3 < data.length)]
    rfl

/-- `assign` inside of the buffer. -/
theorem assign_ok (data : Bytes) (pos len : Nat) (h : pos + len ≤ data.length) :
    ∃ s, assign data pos len = .ok s ∧ s.length = len ∧
      data.drop pos = s ++ data.drop (pos + len) := by
  refine ⟨(data.drop pos).take len, by simp only [assign, if_pos h], ?_, ?_⟩
  · rw [List.length_take, List.length_drop]
    omega
  · rw [← List.drop_drop, List.take_append_drop]

/-- Two byte strings of one length in front of the same input are the same bytes. -/
private theorem be16_of_drop (data : Bytes) (pos : Nat) (v : UInt16) (rest : Bytes)
    (h : data.drop pos = be16 v ++ rest) :
    readU16 data pos = .ok v ∧ pos + 2 ≤ data.length ∧ data.drop (pos + 2) = rest := by
  have hlen : pos + 2 ≤ data.length := by
    have := congrArg List.length h
    simp only [List.length_drop, List.length_append, be16_length] at this
    omega
  obtain ⟨w, hw, hdrop⟩ := readU16_ok data pos hlen
  -- both start the same input and have the same length
  have heq : be16 w = be16 v ∧ data.drop (pos + 2) = rest :=
    List.append_inj (hdrop.symm.trans h) rfl
  refine ⟨?_, hlen, heq.2⟩
  rw [hw, be16_injective heq.1]

/-- Where the input has a 32-bit number, `read_u32` finds it. -/
private theorem be32_of_drop (data : Bytes) (pos : Nat) (v : UInt32) (rest : Bytes)
    (h : data.drop pos = be32 v ++ rest) :
    readU32 data pos = .ok v ∧ pos + 4 ≤ data.length ∧ data.drop (pos + 4) = rest := by
  have hlen : pos + 4 ≤ data.length := by
    have := congrArg List.length h
    simp only [List.length_drop, List.length_append, be32_length] at this
    omega
  -- what the reader returns is in front of the same input, and as long
  obtain ⟨w, hw, hdrop⟩ := readU32_ok data pos hlen
  have heq : be32 w = be32 v ∧ data.drop (pos + 4) = rest :=
    List.append_inj (hdrop.symm.trans h) rfl
  refine ⟨?_, hlen, heq.2⟩
  rw [hw, be32_injective heq.1]

/-- Where the input has a string, `assign` with its length finds it. -/
private theorem assign_of_drop (data : Bytes) (pos : Nat) (s rest : Bytes)
    (hpos : pos ≤ data.length) (h : data.drop pos = s ++ rest) :
    assign data pos s.length = .ok s ∧ pos + s.length ≤ data.length ∧
      data.drop (pos + s.length) = rest := by
  have hlen : pos + s.length ≤ data.length := by
    have := congrArg List.length h
    simp only [List.length_drop, List.length_append] at this
    omega
  -- what the reader returns is in front of the same input, and as long
  obtain ⟨s', hs', hl, hdrop⟩ := assign_ok data pos s.length hlen
  have heq := List.append_inj (hdrop.symm.trans h) hl
  exact ⟨by rw [hs', heq.1], hlen, heq.2⟩

/-! ## Exact parsers -/

/-- `x` throws a `std::runtime_error`, or returns a value with `Q`; in
    particular it does not read out of bounds. -/
def ThrowsOr {α : Type} (x : Except Fault α) (Q : α → Prop) : Prop :=
  (∃ what, x = .error (.runtimeError what)) ∨ ∃ a, x = .ok a ∧ Q a

/-- A body of statements throws or returns, when each statement does. -/
theorem ThrowsOr.bind {α β : Type} {x : Except Fault α} {f : α → Except Fault β}
    {P : α → Prop} {Q : β → Prop} (hx : ThrowsOr x P) (hf : ∀ a, P a → ThrowsOr (f a) Q) :
    ThrowsOr (x >>= f) Q := by
  obtain ⟨what, rfl⟩ | ⟨a, rfl, ha⟩ := hx
  · exact .inl ⟨what, rfl⟩
  · exact hf a ha

/-- A statement that returns. -/
theorem ThrowsOr.of_ok {α : Type} {x : Except Fault α} {Q : α → Prop}
    (h : ∃ a, x = .ok a ∧ Q a) : ThrowsOr x Q := .inr h

/-- Behind a check its condition does not hold. -/
theorem throwIf_throwsOr (cond : Prop) [Decidable cond] (what : String) :
    ThrowsOr (throwIf cond what) (fun _ => ¬cond) := by
  by_cases h : cond
  · exact .inl ⟨_, if_pos h⟩
  · exact .inr ⟨(), if_neg h, h⟩

/-- A parser that accepts exactly the inputs that start with a serialized value
    within the field limits, whatever follows. -/
structure ExactParser {α : Type} (parse : Bytes → Except Fault α) (serialize : α → Bytes)
    (fits : α → Prop) : Prop where
  /-- it returns `r` exactly on the inputs that start with `r` -/
  accepts : ∀ data r, parse data = .ok r ↔ (∃ t, data = serialize r ++ t) ∧ fits r
  /-- no input starts with two values -/
  unique : ∀ r r' t t', fits r → fits r' → serialize r ++ t = serialize r' ++ t' → r = r'
  /-- it throws on all other inputs -/
  rejects : ∀ data, (¬∃ r t, data = serialize r ++ t ∧ fits r) →
    ∃ what, parse data = .error (.runtimeError what)
  /-- it reads inside of the input only -/
  inBounds : ∀ data, parse data ≠ .error .outOfBounds
  /-- decoding undoes encoding -/
  roundTrip : ∀ r, fits r → parse (serialize r) = .ok r

/-- A parser is exact when what it returns is in front of the input, and when
    it finds what is in front of the input. -/
theorem ExactParser.of_sound_complete {α : Type} {parse : Bytes → Except Fault α}
    {serialize : α → Bytes} {fits : α → Prop}
    (hsound : ∀ data, ThrowsOr (parse data) fun r => (∃ t, data = serialize r ++ t) ∧ fits r)
    (hcomplete : ∀ r t, fits r → parse (serialize r ++ t) = .ok r) :
    ExactParser parse serialize fits where
  accepts data r := by
    constructor
    · intro h
      obtain ⟨what, hw⟩ | ⟨r', hr', hspec⟩ := hsound data
      · rw [hw] at h; cases h
      · rw [hr'] at h
        obtain rfl := Except.ok.inj h
        exact hspec
    · rintro ⟨⟨t, rfl⟩, hfits⟩
      exact hcomplete r t hfits
  unique r r' t t' hr hr' h := by
    -- one input is parsed to both values
    have h₁ := hcomplete r t hr
    rw [h, hcomplete r' t' hr'] at h₁
    exact (Except.ok.inj h₁).symm
  rejects data h := by
    obtain hw | ⟨r, _, ⟨t, ht⟩, hfits⟩ := hsound data
    · exact hw
    · exact absurd ⟨r, t, ht, hfits⟩ h
  inBounds data h := by
    obtain ⟨what, hw⟩ | ⟨r, hr, _⟩ := hsound data
    · rw [hw] at h; cases h
    · rw [hr] at h; cases h
  roundTrip r hfits := by
    have h := hcomplete r [] hfits
    rwa [List.append_nil] at h

/-- A check that does not throw. -/
theorem throwIf_false {cond : Prop} [Decidable cond] (what : String) (h : ¬cond) :
    throwIf cond what = .ok () := if_neg h

/-! ## Frame header -/

/-- `read_u8` inside of the buffer. -/
private theorem readU8_ok (data : Bytes) (pos : Nat) (h : pos + 1 ≤ data.length) :
    ∃ b, readU8 data pos = .ok b ∧ data.drop pos = [b] ++ data.drop (pos + 1) :=
  ⟨data[pos], readU8_of_lt data pos h, List.drop_eq_getElem_cons h⟩

/-- Every 20 bytes are a header: `deserialize_header` does not throw on them,
    and they are the serialization of what it returns. -/
theorem deserializeHeader_ok (data : Bytes) (h : data.length = 20) :
    ∃ hdr, deserializeHeader data = .ok hdr ∧ data = serializeHeader hdr := by
  obtain ⟨magic, hr₁, hd₁⟩ := readU32_ok data 0 (by omega)
  obtain ⟨version, hr₂, hd₂⟩ := readU8_ok data 4 (by omega)
  obtain ⟨msgType, hr₃, hd₃⟩ := readU8_ok data 5 (by omega)
  obtain ⟨serializer, hr₄, hd₄⟩ := readU8_ok data 6 (by omega)
  obtain ⟨flags, hr₅, hd₅⟩ := readU8_ok data 7 (by omega)
  obtain ⟨seqId, hr₆, hd₆⟩ := readU32_ok data 8 (by omega)
  obtain ⟨bodySize, hr₇, hd₇⟩ := readU32_ok data 12 (by omega)
  obtain ⟨checksum, hr₈, hd₈⟩ := readU32_ok data 16 (by omega)
  refine ⟨{ magic, version, msgType, serializer, flags, seqId, bodySize, checksum }, ?_, ?_⟩
  -- the check of the length passes, and every reader returns its field
  · simp only [deserializeHeader, bind, Except.bind, pure, Except.pure]
    simp (disch := omega) only [throwIf_false, hr₁, hr₂, hr₃, hr₄, hr₅, hr₆, hr₇, hr₈]
  · have hend : data.drop (16 + 4) = [] := List.drop_eq_nil_of_le (by omega)
    rw [serializeHeader_eq]
    -- from the last field to the first
    rw [hd₈, hend] at hd₇
    rw [hd₇] at hd₆
    rw [hd₆] at hd₅
    rw [hd₅] at hd₄
    rw [hd₄] at hd₃
    rw [hd₃] at hd₂
    rw [hd₂] at hd₁
    simpa using hd₁

/-- `deserialize_header` undoes `serialize_header`. -/
@[simp] theorem deserializeHeader_serializeHeader (h : RpcHeader) :
    deserializeHeader (serializeHeader h) = .ok h := by
  obtain ⟨h', hok, heq⟩ := deserializeHeader_ok (serializeHeader h) (serializeHeader_length h)
  rw [hok]
  -- the parsed header serializes to the same bytes, hence it is the same header
  obtain ⟨m, v, t, s, f, q, b, c⟩ := h
  obtain ⟨m', v', t', s', f', q', b', c'⟩ := h'
  simp only [serializeHeader_eq, List.append_assoc] at heq
  -- cut the equation at the fixed offsets
  obtain ⟨hm, heq⟩ := List.append_inj heq rfl
  obtain ⟨hb, heq⟩ := List.append_inj heq rfl
  obtain ⟨hq, heq⟩ := List.append_inj heq rfl
  obtain ⟨hs, hc⟩ := List.append_inj heq rfl
  obtain ⟨rfl, rfl, rfl, rfl⟩ : v = v' ∧ t = t' ∧ s = s' ∧ f = f' := by simpa using hb
  obtain rfl := be32_injective hm
  obtain rfl := be32_injective hq
  obtain rfl := be32_injective hs
  obtain rfl := be32_injective hc
  rfl

/-! ## Request body -/

/-- The field limits of the request format: 16-bit name lengths, 32-bit parameter length. -/
def RpcRequest.Fits (r : RpcRequest) : Prop :=
  r.serviceName.length ≤ 65535 ∧ r.methodName.length ≤ 65535 ∧ r.params.length < 2 ^ 32

/-- What `RpcRequest::deserialize` can do: throw, or return a request whose
    serialization the input starts with. -/
theorem RpcRequest.deserialize_throwsOr (data : Bytes) :
    ThrowsOr (RpcRequest.deserialize data)
      (fun r => (∃ t, data = r.serialize ++ t) ∧ r.Fits) := by
  unfold RpcRequest.deserialize
  -- statement by statement; each check licenses the read that follows it
  refine (throwIf_throwsOr _ _).bind fun _ hc₁ => ?_
  refine (ThrowsOr.of_ok (readU16_ok data 0 (by omega))).bind fun srvLen hd₁ => ?_
  refine (throwIf_throwsOr _ _).bind fun _ hc₂ => ?_
  refine (ThrowsOr.of_ok (assign_ok data _ _ (by omega))).bind fun serviceName hd₂ => ?_
  refine (throwIf_throwsOr _ _).bind fun _ hc₃ => ?_
  refine (ThrowsOr.of_ok (readU16_ok data _ (by omega))).bind fun methodLen hd₃ => ?_
  refine (throwIf_throwsOr _ _).bind fun _ hc₄ => ?_
  refine (ThrowsOr.of_ok (assign_ok data _ _ (by omega))).bind fun methodName hd₄ => ?_
  refine (throwIf_throwsOr _ _).bind fun _ hc₅ => ?_
  refine (ThrowsOr.of_ok (readU32_ok data _ (by omega))).bind fun timeoutMs hd₅ => ?_
  refine (throwIf_throwsOr _ _).bind fun _ hc₆ => ?_
  refine (ThrowsOr.of_ok (readU32_ok data _ (by omega))).bind fun paramsLen hd₆ => ?_
  refine (throwIf_throwsOr _ _).bind fun _ hc₇ => ?_
  refine (ThrowsOr.of_ok (assign_ok data _ _ (by omega))).bind fun params hd₇ => ?_
  refine .inr ⟨_, rfl, ⟨data.drop (0 + 2 + srvLen.toNat + 2 + methodLen.toNat + 4 + 4 +
    paramsLen.toNat), ?_⟩, ?_, ?_, ?_⟩
  · -- the parsed part is the concatenation of the pieces read
    rw [RpcRequest.serialize_eq]
    simp only [hd₂.1, hd₄.1, hd₇.1, UInt16.ofNat_toNat, UInt32.ofNat_toNat, List.append_assoc]
    rw [← hd₇.2, ← hd₆, ← hd₅, ← hd₄.2, ← hd₃, ← hd₂.2]
    exact hd₁
  -- the lengths were read as numbers of their width
  · exact hd₂.1 ▸ Nat.le_of_lt_succ srvLen.toNat_lt
  · exact hd₄.1 ▸ Nat.le_of_lt_succ methodLen.toNat_lt
  · exact hd₇.1 ▸ paramsLen.toNat_lt

/-- Parsing undoes serialization, whatever follows. -/
theorem RpcRequest.deserialize_append (r : RpcRequest) (t : Bytes) (hfits : r.Fits) :
    RpcRequest.deserialize (r.serialize ++ t) = .ok r := by
  obtain ⟨hs, hm, hp⟩ := hfits
  have hsn : (UInt16.ofNat r.serviceName.length).toNat = r.serviceName.length :=
    UInt16.toNat_ofNat_of_lt' (Nat.lt_succ_of_le hs)
  have hmn : (UInt16.ofNat r.methodName.length).toNat = r.methodName.length :=
    UInt16.toNat_ofNat_of_lt' (Nat.lt_succ_of_le hm)
  have hpn : (UInt32.ofNat r.params.length).toNat = r.params.length :=
    UInt32.toNat_ofNat_of_lt' hp
  -- walk the fields: each reader meets its own encoding at its offset
  generalize hdata : r.serialize ++ t = data
  have hd₀ : data.drop 0 = r.serialize ++ t := hdata.symm
  rw [RpcRequest.serialize_eq] at hd₀
  simp only [List.append_assoc] at hd₀
  obtain ⟨hr₁, hl₁, hd₁⟩ := be16_of_drop data 0 _ _ hd₀
  obtain ⟨hr₂, hl₂, hd₂⟩ := assign_of_drop data (0 + 2) _ _ hl₁ hd₁
  obtain ⟨hr₃, hl₃, hd₃⟩ := be16_of_drop data _ _ _ hd₂
  obtain ⟨hr₄, hl₄, hd₄⟩ := assign_of_drop data _ _ _ hl₃ hd₃
  obtain ⟨hr₅, hl₅, hd₅⟩ := be32_of_drop data _ _ _ hd₄
  obtain ⟨hr₆, hl₆, hd₆⟩ := be32_of_drop data _ _ _ hd₅
  obtain ⟨hr₇, hl₇, hd₇⟩ := assign_of_drop data _ _ _ hl₆ hd₆
  -- no check throws, since every piece is inside of the input
  simp only [RpcRequest.deserialize, bind, Except.bind, pure, Except.pure]
  simp (disch := omega) only [throwIf_false, hr₁, hsn, hr₂, hr₃, hmn, hr₄, hr₅, hr₆, hpn, hr₇]

/-! ## Response body -/

/-- The field limits of the response format: 16-bit message length, 32-bit result length. -/
def RpcResponse.Fits (r : RpcResponse) : Prop :=
  r.errorMsg.length ≤ 65535 ∧ r.result.length < 2 ^ 32

/-- What `RpcResponse::deserialize` can do: throw, or return a response whose
    serialization the input starts with. -/
theorem RpcResponse.deserialize_throwsOr (data : Bytes) :
    ThrowsOr (RpcResponse.deserialize data)
      (fun r => (∃ t, data = r.serialize ++ t) ∧ r.Fits) := by
  unfold RpcResponse.deserialize
  -- the first check licenses the code and the length of the message
  refine (throwIf_throwsOr _ _).bind fun _ hc₁ => ?_
  refine (ThrowsOr.of_ok (readU32_ok data 0 (by omega))).bind fun errorCode hd₁ => ?_
  refine (ThrowsOr.of_ok (readU16_ok data _ (by omega))).bind fun errmsgLen hd₂ => ?_
  refine (throwIf_throwsOr _ _).bind fun _ hc₂ => ?_
  refine (ThrowsOr.of_ok (assign_ok data _ _ (by omega))).bind fun errorMsg hd₃ => ?_
  refine (throwIf_throwsOr _ _).bind fun _ hc₃ => ?_
  refine (ThrowsOr.of_ok (readU32_ok data _ (by omega))).bind fun resultLen hd₄ => ?_
  refine (throwIf_throwsOr _ _).bind fun _ hc₄ => ?_
  refine (ThrowsOr.of_ok (assign_ok data _ _ (by omega))).bind fun result hd₅ => ?_
  refine .inr ⟨_, rfl, ⟨data.drop (0 + 4 + 2 + errmsgLen.toNat + 4 + resultLen.toNat), ?_⟩,
    ?_, ?_⟩
  -- the code is read as unsigned and comes back as signed
  · rw [RpcResponse.serialize_eq]
    simp only [hd₃.1, hd₅.1, UInt16.ofNat_toNat, UInt32.ofNat_toNat, UInt32.toUInt32_toInt32,
      List.append_assoc]
    rw [← hd₅.2, ← hd₄, ← hd₃.2, ← hd₂]
    exact hd₁
  · exact hd₃.1 ▸ Nat.le_of_lt_succ errmsgLen.toNat_lt
  · exact hd₅.1 ▸ resultLen.toNat_lt

/-- Parsing undoes serialization, whatever follows. -/
theorem RpcResponse.deserialize_append (r : RpcResponse) (t : Bytes) (hfits : r.Fits) :
    RpcResponse.deserialize (r.serialize ++ t) = .ok r := by
  obtain ⟨hm, hr⟩ := hfits
  have hmn : (UInt16.ofNat r.errorMsg.length).toNat = r.errorMsg.length :=
    UInt16.toNat_ofNat_of_lt' (Nat.lt_succ_of_le hm)
  have hrn : (UInt32.ofNat r.result.length).toNat = r.result.length :=
    UInt32.toNat_ofNat_of_lt' hr
  generalize hdata : r.serialize ++ t = data
  have hd₀ : data.drop 0 = r.serialize ++ t := hdata.symm
  rw [RpcResponse.serialize_eq] at hd₀
  simp only [List.append_assoc] at hd₀
  -- field by field, as for the request
  obtain ⟨hr₁, hl₁, hd₁⟩ := be32_of_drop data 0 _ _ hd₀
  obtain ⟨hr₂, hl₂, hd₂⟩ := be16_of_drop data _ _ _ hd₁
  obtain ⟨hr₃, hl₃, hd₃⟩ := assign_of_drop data _ _ _ hl₂ hd₂
  obtain ⟨hr₄, hl₄, hd₄⟩ := be32_of_drop data _ _ _ hd₃
  obtain ⟨hr₅, hl₅, hd₅⟩ := assign_of_drop data _ _ _ hl₄ hd₄
  simp only [RpcResponse.deserialize, bind, Except.bind, pure, Except.pure]
  simp (disch := omega) only [throwIf_false, hr₁, hr₂, hmn, hr₃, hr₄, hrn, hr₅,
    Int32.toInt32_toUInt32]

/-! ## Both parsers -/

/-- `RpcRequest::deserialize` accepts exactly the requests on the wire. -/
theorem RpcRequest.exactParser :
    ExactParser RpcRequest.deserialize RpcRequest.serialize RpcRequest.Fits :=
  .of_sound_complete RpcRequest.deserialize_throwsOr RpcRequest.deserialize_append

/-- `RpcResponse::deserialize` accepts exactly the responses on the wire. -/
theorem RpcResponse.exactParser :
    ExactParser RpcResponse.deserialize RpcResponse.serialize RpcResponse.Fits :=
  .of_sound_complete RpcResponse.deserialize_throwsOr RpcResponse.deserialize_append

/-- Both body parsers accept exactly their grammar: 16-bit name and message
    lengths, 32-bit parameter and result lengths, every `int32` error code. -/
theorem bodyParsers_exact :
    ExactParser RpcRequest.deserialize RpcRequest.serialize (fun r =>
      r.serviceName.length ≤ 65535 ∧ r.methodName.length ≤ 65535 ∧ r.params.length < 2 ^ 32) ∧
    ExactParser RpcResponse.deserialize RpcResponse.serialize (fun r =>
      r.errorMsg.length ≤ 65535 ∧ r.result.length < 2 ^ 32) :=
  ⟨RpcRequest.exactParser, RpcResponse.exactParser⟩

end Rpc
