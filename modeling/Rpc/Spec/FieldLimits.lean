import Rpc.Spec.ProtocolCorrect

/-!
# Fields that are too long

The serializers cast the length of a field to 16 or 32 bits and copy the field in
full.  When it does not fit, the parser takes the rest of the field for the fields
that follow it.  `Complete` says on which bytes a parser returns at all, in terms of
the numbers it finds; `Refused` says the same of a message with a field that is too
long, in terms of the bytes of the field.

A message is never turned into another one exactly when it fits or is refused
(`never_misread_iff`).
-/

namespace Rpc

open BigEndian

/-! ## The lengths on the wire -/

/-- The first number of a request is the length of the service name modulo 65536. -/
theorem RpcRequest.u16At_serviceName (r : RpcRequest) (t : Bytes) :
    u16At (r.serialize ++ t) 0 = r.serviceName.length % 65536 := by
  rw [RpcRequest.serialize_eq]
  simp only [List.append_assoc]
  rw [u16At_of_drop (List.drop_zero)]
  exact UInt16.toNat_ofNat

/-- The body from the length of the method name on. -/
theorem RpcRequest.drop_serviceName (r : RpcRequest) (t : Bytes) :
    (r.serialize ++ t).drop (2 + r.serviceName.length) =
      be16 (UInt16.ofNat r.methodName.length) ++ (r.methodName ++ (be32 r.timeoutMs ++
        (be32 (UInt32.ofNat r.params.length) ++ (r.params ++ t)))) := by
  rw [RpcRequest.serialize_eq]
  simp only [List.append_assoc]
  rw [← List.drop_drop, List.drop_left' (be16_length _), List.drop_left]

/-- Behind the service name there is the length of the method name modulo 65536. -/
theorem RpcRequest.u16At_methodName (r : RpcRequest) (t : Bytes) :
    u16At (r.serialize ++ t) (2 + r.serviceName.length) = r.methodName.length % 65536 := by
  rw [u16At_of_drop (r.drop_serviceName t)]
  exact UInt16.toNat_ofNat

/-- Behind the timeout there is the length of the parameters modulo 2³². -/
theorem RpcRequest.u32At_params (r : RpcRequest) (t : Bytes) :
    u32At (r.serialize ++ t) (2 + r.serviceName.length + 2 + r.methodName.length + 4) =
      r.params.length % 2 ^ 32 := by
  have hdrop : (r.serialize ++ t).drop (2 + r.serviceName.length + 2 + r.methodName.length + 4) =
      be32 (UInt32.ofNat r.params.length) ++ (r.params ++ t) := by
    rw [← List.drop_drop, ← List.drop_drop, ← List.drop_drop, r.drop_serviceName t,
      List.drop_left' (be16_length _), List.drop_left, List.drop_left' (be32_length _)]
  rw [u32At_of_drop hdrop]
  exact UInt32.toNat_ofNat

/-- The body from the length of the message on. -/
theorem RpcResponse.drop_errorCode (r : RpcResponse) (t : Bytes) :
    (r.serialize ++ t).drop 4 = be16 (UInt16.ofNat r.errorMsg.length) ++ (r.errorMsg ++
      (be32 (UInt32.ofNat r.result.length) ++ (r.result ++ t))) := by
  rw [RpcResponse.serialize_eq]
  simp only [List.append_assoc]
  rw [List.drop_left' (be32_length _)]

/-- Behind the code there is the length of the message modulo 65536. -/
theorem RpcResponse.u16At_errorMsg (r : RpcResponse) (t : Bytes) :
    u16At (r.serialize ++ t) 4 = r.errorMsg.length % 65536 := by
  rw [u16At_of_drop (r.drop_errorCode t)]
  exact UInt16.toNat_ofNat

/-- Behind the message there is the length of the result modulo 2³². -/
theorem RpcResponse.u32At_result (r : RpcResponse) (t : Bytes) :
    u32At (r.serialize ++ t) (6 + r.errorMsg.length) = r.result.length % 2 ^ 32 := by
  have hdrop : (r.serialize ++ t).drop (4 + 2 + r.errorMsg.length) =
      be32 (UInt32.ofNat r.result.length) ++ (r.result ++ t) := by
    rw [← List.drop_drop, ← List.drop_drop, r.drop_errorCode t, List.drop_left' (be16_length _),
      List.drop_left]
  rw [u32At_of_drop hdrop]
  exact UInt32.toNat_ofNat

/-! ## What the parsers accept -/

/-- A request body is complete: the three lengths it states lie inside of it. -/
def RpcRequest.Complete (data : Bytes) : Prop :=
  let n := u16At data 0
  let k := u16At data (2 + n)
  2 + n + 2 + k + 8 + u32At data (2 + n + 2 + k + 4) ≤ data.length

/-- A response body is complete: the two lengths it states lie inside of it. -/
def RpcResponse.Complete (data : Bytes) : Prop :=
  let n := u16At data 4
  6 + n + 4 + u32At data (6 + n) ≤ data.length

/-- `RpcRequest::deserialize` returns exactly on complete bodies. -/
theorem RpcRequest.deserialize_ok_iff (data : Bytes) :
    (∃ r, RpcRequest.deserialize data = .ok r) ↔ RpcRequest.Complete data := by
  constructor
  · rintro ⟨r, hr⟩
    obtain ⟨⟨t, ht⟩, hs, hm, hp⟩ := (RpcRequest.exactParser.accepts data r).mp hr
    have hlen := congrArg List.length ht
    rw [List.length_append, RpcRequest.serialize_length] at hlen
    -- the three lengths are those of the fields
    have hn := r.u16At_serviceName t
    have hk := r.u16At_methodName t
    have hu := r.u32At_params t
    rw [← ht, Nat.mod_eq_of_lt (Nat.lt_succ_of_le hs)] at hn
    rw [← ht, Nat.mod_eq_of_lt (Nat.lt_succ_of_le hm)] at hk
    rw [← ht, Nat.mod_eq_of_lt hp] at hu
    simp only [Complete, hn, hk, hu]
    omega
  -- each length that is read lies inside of the body, and licenses the next read
  · intro h
    simp only [Complete] at h
    obtain ⟨srvLen, hr₁, hd₁⟩ := readU16_ok data 0 (by omega)
    rw [u16At_of_drop hd₁] at h
    obtain ⟨serviceName, hr₂, -⟩ := assign_ok data (0 + 2) srvLen.toNat (by omega)
    obtain ⟨methodLen, hr₃, hd₃⟩ := readU16_ok data (0 + 2 + srvLen.toNat) (by omega)
    rw [Nat.zero_add] at hd₃
    rw [u16At_of_drop hd₃] at h
    obtain ⟨methodName, hr₄, -⟩ :=
      assign_ok data (0 + 2 + srvLen.toNat + 2) methodLen.toNat (by omega)
    obtain ⟨timeoutMs, hr₅, -⟩ :=
      readU32_ok data (0 + 2 + srvLen.toNat + 2 + methodLen.toNat) (by omega)
    obtain ⟨paramsLen, hr₆, hd₆⟩ :=
      readU32_ok data (0 + 2 + srvLen.toNat + 2 + methodLen.toNat + 4) (by omega)
    rw [Nat.zero_add] at hd₆
    rw [u32At_of_drop hd₆] at h
    obtain ⟨params, hr₇, -⟩ := assign_ok data
      (0 + 2 + srvLen.toNat + 2 + methodLen.toNat + 4 + 4) paramsLen.toNat (by omega)
    refine ⟨{ serviceName, methodName, timeoutMs, params }, ?_⟩
    -- no check throws
    simp only [RpcRequest.deserialize, bind, Except.bind, pure, Except.pure]
    simp (disch := omega) only [throwIf_false, hr₁, hr₂, hr₃, hr₄, hr₅, hr₆, hr₇]

/-- `RpcResponse::deserialize` returns exactly on complete bodies. -/
theorem RpcResponse.deserialize_ok_iff (data : Bytes) :
    (∃ r, RpcResponse.deserialize data = .ok r) ↔ RpcResponse.Complete data := by
  constructor
  · rintro ⟨r, hr⟩
    obtain ⟨⟨t, ht⟩, hm, hres⟩ := (RpcResponse.exactParser.accepts data r).mp hr
    have hlen := congrArg List.length ht
    rw [List.length_append, RpcResponse.serialize_length] at hlen
    -- the two lengths are those of the fields
    have hn := r.u16At_errorMsg t
    have hu := r.u32At_result t
    rw [← ht, Nat.mod_eq_of_lt (Nat.lt_succ_of_le hm)] at hn
    rw [← ht, Nat.mod_eq_of_lt hres] at hu
    simp only [Complete, hn, hu]
    omega
  -- each length that is read lies inside of the body, and licenses the next read
  · intro h
    simp only [Complete] at h
    obtain ⟨errorCode, hr₁, -⟩ := readU32_ok data 0 (by omega)
    obtain ⟨errmsgLen, hr₂, hd₂⟩ := readU16_ok data (0 + 4) (by omega)
    rw [Nat.zero_add] at hd₂
    rw [u16At_of_drop hd₂] at h
    obtain ⟨errorMsg, hr₃, -⟩ := assign_ok data (0 + 4 + 2) errmsgLen.toNat (by omega)
    obtain ⟨resultLen, hr₄, hd₄⟩ := readU32_ok data (0 + 4 + 2 + errmsgLen.toNat) (by omega)
    rw [Nat.zero_add] at hd₄
    rw [u32At_of_drop hd₄] at h
    obtain ⟨result, hr₅, -⟩ :=
      assign_ok data (0 + 4 + 2 + errmsgLen.toNat + 4) resultLen.toNat (by omega)
    refine ⟨{ errorCode := errorCode.toInt32, errorMsg, result }, ?_⟩
    simp only [RpcResponse.deserialize, bind, Except.bind, pure, Except.pure]
    simp (disch := omega) only [throwIf_false, hr₁, hr₂, hr₃, hr₄, hr₅]

/-- What an exact parser makes of a serialized message: nothing else exactly when the
    message fits or the parser throws. -/
theorem ExactParser.never_misread {α : Type} {parse : Bytes → Except Fault α}
    {serialize : α → Bytes} {fits : α → Prop} (h : ExactParser parse serialize fits) (r : α) :
    (∀ r', parse (serialize r) = .ok r' → r' = r) ↔
      fits r ∨ ¬∃ r', parse (serialize r) = .ok r' := by
  constructor
  · intro hsame
    by_cases hok : ∃ r', parse (serialize r) = .ok r'
    · obtain ⟨r', hr'⟩ := hok
      -- what is returned fits, so that a message returned as itself does
      have hfits := ((h.accepts _ _).mp hr').2
      rw [hsame r' hr'] at hfits
      exact .inl hfits
    · exact .inr hok
  -- what fits is returned as itself, and what is refused not at all
  · rintro (hfits | hnone) r' hr'
    · rw [h.roundTrip r hfits] at hr'
      exact (Except.ok.inj hr').symm
    · exact absurd ⟨r', hr'⟩ hnone

/-! ## Messages that do not fit -/

/-- The bytes that follow the part of the service name which its 16-bit length covers. -/
def RpcRequest.afterName (r : RpcRequest) : Bytes :=
  r.serviceName.drop (r.serviceName.length % 65536) ++
    (be16 (UInt16.ofNat r.methodName.length) ++ (r.methodName ++ (be32 r.timeoutMs ++
      (be32 (UInt32.ofNat r.params.length) ++ r.params))))

/-- A field is too long, and the bytes in the place of the parameter length state more
    than there is. -/
def RpcRequest.Refused (r : RpcRequest) : Prop :=
  if 65535 < r.serviceName.length then
    -- the two bytes after the name are taken for the length of the method name
    let k := u16At r.afterName 0
    r.afterName.length < 2 + k + 8 + u32At r.afterName (2 + k + 4)
  else if 65535 < r.methodName.length then
    -- the next eight bytes of the method name, for the timeout and the parameter length
    let n := r.methodName.length % 65536
    r.methodName.length + r.params.length < n + u32At r.methodName (n + 4)
  else False

/-- The message is too long, and the bytes in the place of the result length state more
    than there is. -/
def RpcResponse.Refused (r : RpcResponse) : Prop :=
  65535 < r.errorMsg.length ∧
    let n := r.errorMsg.length % 65536
    r.errorMsg.length + r.result.length < n + u32At r.errorMsg n

/-- The request behind what its first length covers. -/
theorem RpcRequest.drop_afterName (r : RpcRequest) :
    r.serialize.drop (2 + r.serviceName.length % 65536) = r.afterName := by
  have hle := Nat.mod_le r.serviceName.length 65536
  rw [RpcRequest.serialize_eq]
  simp only [List.append_assoc]
  rw [← List.drop_drop, List.drop_left' (be16_length _), List.drop_append_of_le_length hle]
  rfl

/-- What follows the part of the name that its length covers has to be complete. -/
theorem RpcRequest.complete_iff_afterName (r : RpcRequest) :
    RpcRequest.Complete r.serialize ↔
      2 + u16At r.afterName 0 + 8 + u32At r.afterName (2 + u16At r.afterName 0 + 4) ≤
        r.afterName.length := by
  have hn := r.u16At_serviceName []
  rw [List.append_nil] at hn
  have hdrop := r.drop_afterName
  have hk : u16At r.serialize (2 + r.serviceName.length % 65536) = u16At r.afterName 0 := by
    rw [← hdrop, u16At_drop, Nat.add_zero]
  have hu : ∀ pos, u32At r.serialize (2 + r.serviceName.length % 65536 + pos) =
      u32At r.afterName pos := by
    intro pos
    rw [← hdrop, u32At_drop]
  have hlen : r.afterName.length = r.serialize.length - (2 + r.serviceName.length % 65536) := by
    rw [← hdrop, List.length_drop]
  have htotal := r.serialize_length
  have hu' := hu (2 + u16At r.afterName 0 + 4)
  -- the same position, counted from the start of the body
  have hpos : 2 + r.serviceName.length % 65536 + (2 + u16At r.afterName 0 + 4) =
      2 + r.serviceName.length % 65536 + 2 + u16At r.afterName 0 + 4 := by omega
  rw [hpos] at hu'
  simp only [Complete, hn, hk, hu', hlen]
  omega

/-- The parser takes the bytes of the method name for the timeout and the parameter
    length. -/
theorem RpcRequest.complete_of_longMethod (r : RpcRequest) (hs : r.serviceName.length ≤ 65535)
    (h : 65535 < r.methodName.length) :
    RpcRequest.Complete r.serialize ↔
      r.methodName.length % 65536 + u32At r.methodName (r.methodName.length % 65536 + 4) ≤
        r.methodName.length + r.params.length := by
  have hn := r.u16At_serviceName []
  have hk := r.u16At_methodName []
  have hdrop := r.drop_serviceName []
  rw [List.append_nil] at hn hk hdrop
  rw [Nat.mod_eq_of_lt (Nat.lt_succ_of_le hs)] at hn
  -- the timeout and the parameter length are read out of the method name
  have hu : u32At r.serialize
      (2 + r.serviceName.length + 2 + r.methodName.length % 65536 + 4) =
      u32At r.methodName (r.methodName.length % 65536 + 4) := by
    have hpos : 2 + r.serviceName.length + 2 + r.methodName.length % 65536 + 4 =
        2 + r.serviceName.length + (2 + (r.methodName.length % 65536 + 4)) := by omega
    rw [hpos, ← u32At_drop, hdrop, ← u32At_drop, List.drop_left' (be16_length _),
      u32At_append (by omega)]
  have htotal := r.serialize_length
  simp only [Complete, hn, hk, hu, htotal]
  omega

/-- Parameters that are too long are cut off, and never refused. -/
theorem RpcRequest.complete_of_longParams (r : RpcRequest) (hs : r.serviceName.length ≤ 65535)
    (hm : r.methodName.length ≤ 65535) : RpcRequest.Complete r.serialize := by
  have hn := r.u16At_serviceName []
  have hk := r.u16At_methodName []
  have hu := r.u32At_params []
  rw [List.append_nil] at hn hk hu
  rw [Nat.mod_eq_of_lt (Nat.lt_succ_of_le hs)] at hn
  rw [Nat.mod_eq_of_lt (Nat.lt_succ_of_le hm)] at hk
  -- the length on the wire is at most that of the parameters
  have hle := Nat.mod_le r.params.length (2 ^ 32)
  have htotal := r.serialize_length
  simp only [Complete, hn, hk, hu, htotal]
  omega

/-- The parser throws on a serialized request exactly when it is `Refused`. -/
theorem RpcRequest.refused_iff (r : RpcRequest) :
    r.Refused ↔ ¬RpcRequest.Complete r.serialize := by
  unfold RpcRequest.Refused
  -- the first of the fields that is too long decides
  split
  · rw [r.complete_iff_afterName]
    exact Nat.not_le.symm
  · rename_i hs
    split
    · rename_i hm
      rw [r.complete_of_longMethod (Nat.le_of_not_lt hs) hm]
      exact Nat.not_le.symm
    · rename_i hm
      have hc := r.complete_of_longParams (Nat.le_of_not_lt hs) (Nat.le_of_not_lt hm)
      simp [hc]

/-- The parser takes the bytes of the message for the length of the result. -/
theorem RpcResponse.complete_of_longMsg (r : RpcResponse) (h : 65535 < r.errorMsg.length) :
    RpcResponse.Complete r.serialize ↔
      r.errorMsg.length % 65536 + u32At r.errorMsg (r.errorMsg.length % 65536) ≤
        r.errorMsg.length + r.result.length := by
  have hn := r.u16At_errorMsg []
  have hdrop := r.drop_errorCode []
  rw [List.append_nil] at hn hdrop
  have hu : u32At r.serialize (6 + r.errorMsg.length % 65536) =
      u32At r.errorMsg (r.errorMsg.length % 65536) := by
    -- the result length is read out of the message
    have hpos : 6 + r.errorMsg.length % 65536 = 4 + (2 + r.errorMsg.length % 65536) := by omega
    rw [hpos, ← u32At_drop, hdrop, ← u32At_drop, List.drop_left' (be16_length _),
      u32At_append (by omega)]
  have htotal := r.serialize_length
  simp only [Complete, hn, hu, htotal]
  omega

/-- A result that is too long is cut off, and never refused. -/
theorem RpcResponse.complete_of_longResult (r : RpcResponse) (hm : r.errorMsg.length ≤ 65535) :
    RpcResponse.Complete r.serialize := by
  have hn := r.u16At_errorMsg []
  have hu := r.u32At_result []
  rw [List.append_nil] at hn hu
  rw [Nat.mod_eq_of_lt (Nat.lt_succ_of_le hm)] at hn
  have hle := Nat.mod_le r.result.length (2 ^ 32)
  have htotal := r.serialize_length
  simp only [Complete, hn, hu, htotal]
  omega

/-- The same for a response. -/
theorem RpcResponse.refused_iff (r : RpcResponse) :
    r.Refused ↔ ¬RpcResponse.Complete r.serialize := by
  unfold RpcResponse.Refused
  by_cases hm : 65535 < r.errorMsg.length
  · rw [r.complete_of_longMsg hm]
    simp only [hm, true_and]
    exact Nat.not_le.symm
  · have hc := r.complete_of_longResult (Nat.le_of_not_lt hm)
    simp [hm, hc]

/-- A body is never decoded as another message exactly when the message is within the
    limits of its format, or is too long and refused. -/
theorem never_misread_iff (req : RpcRequest) (resp : RpcResponse) :
    ((∀ req', RpcRequest.deserialize req.serialize = .ok req' → req' = req) ↔
      req.Fits ∨ req.Refused) ∧
    ((∀ resp', RpcResponse.deserialize resp.serialize = .ok resp' → resp' = resp) ↔
      resp.Fits ∨ resp.Refused) := by
  constructor
  · rw [RpcRequest.exactParser.never_misread req, RpcRequest.deserialize_ok_iff, req.refused_iff]
  · rw [RpcResponse.exactParser.never_misread resp, RpcResponse.deserialize_ok_iff,
      resp.refused_iff]

/-- A name whose length is a multiple of 65536: its first ten bytes stand for the fields
    after it. -/
private theorem zeroName_misread (tail : Bytes) (h : (10 + tail.length) % 65536 = 0) :
    RpcRequest.deserialize (RpcRequest.serialize ⟨List.replicate 10 0 ++ tail, [], 0, []⟩) =
      .ok ⟨[], [], 0, []⟩ := by
  refine (RpcRequest.exactParser.accepts _ _).mpr
    ⟨⟨tail ++ (be16 0 ++ (be32 0 ++ be32 0)), ?_⟩, Nat.zero_le _, Nat.zero_le _, Nat.two_pow_pos 32⟩
  -- the length on the wire is 0
  have hlen : UInt16.ofNat (List.replicate 10 0 ++ tail).length = 0 := by
    apply UInt16.toNat_inj.mp
    rw [List.length_append, List.length_replicate, UInt16.toNat_ofNat]
    exact h
  rw [RpcRequest.serialize_eq, RpcRequest.serialize_eq, hlen]
  simp [be16, be32, List.replicate]

/-- A message whose length is a multiple of 65536: its first four bytes stand for the length of the
    result. -/
private theorem zeroMsg_misread (tail : Bytes) (h : (4 + tail.length) % 65536 = 0) :
    RpcResponse.deserialize (RpcResponse.serialize ⟨0, List.replicate 4 0 ++ tail, []⟩) =
      .ok ⟨0, [], []⟩ := by
  refine (RpcResponse.exactParser.accepts _ _).mpr
    ⟨⟨tail ++ be32 0, ?_⟩, Nat.zero_le _, Nat.two_pow_pos 32⟩
  -- the length on the wire is 0
  have hlen : UInt16.ofNat (List.replicate 4 0 ++ tail).length = 0 := by
    apply UInt16.toNat_inj.mp
    rw [List.length_append, List.length_replicate, UInt16.toNat_ofNat]
    exact h
  rw [RpcResponse.serialize_eq, RpcResponse.serialize_eq, hlen]
  simp [be16, be32, List.replicate]

/-- A service name and a message of 65536 zero bytes: the request is decoded as one for
    a service without a name, the response as one without a message. -/
theorem longZeros_misread :
    (RpcRequest.deserialize
        (RpcRequest.serialize ⟨List.replicate 65536 0, [], 0, []⟩) = .ok ⟨[], [], 0, []⟩ ∧
      (⟨[], [], 0, []⟩ : RpcRequest) ≠ ⟨List.replicate 65536 0, [], 0, []⟩) ∧
    RpcResponse.deserialize
        (RpcResponse.serialize ⟨0, List.replicate 65536 0, []⟩) = .ok ⟨0, [], []⟩ ∧
      (⟨0, [], []⟩ : RpcResponse) ≠ ⟨0, List.replicate 65536 0, []⟩ := by
  -- the name begins with ten zeros, and the message with four
  have hsplit : ∀ a b, a + b = 65536 →
      (List.replicate 65536 0 : Bytes) = List.replicate a 0 ++ List.replicate b 0 := by
    intro a b hab
    rw [List.replicate_append_replicate, hab]
  have hne : ([] : Bytes) ≠ List.replicate 65536 0 := by
    intro h
    have hlen := congrArg List.length h
    rw [List.length_replicate] at hlen
    exact absurd hlen (by decide)
  refine ⟨⟨?_, fun h => hne (congrArg RpcRequest.serviceName h)⟩, ?_,
    fun h => hne (congrArg RpcResponse.errorMsg h)⟩
  · rw [hsplit 10 65526 rfl]
    exact zeroName_misread _ (by rw [List.length_replicate])
  · rw [hsplit 4 65532 rfl]
    exact zeroMsg_misread _ (by rw [List.length_replicate])

end Rpc
