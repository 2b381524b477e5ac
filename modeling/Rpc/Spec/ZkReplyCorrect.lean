import Rpc.Spec.RegistryCorrect

/-!
# Which replies a client survives

The decoders of `zk_proto.hpp` are given a pointer and no end.  Each of them stays inside of
the body exactly when the body begins with a word of the language of its fields
(`stringFields`, `statFields`, ...), and nothing checks that it does.

`replies_handled_iff` says which replies are handled, over every length prefix and every
body: the future is completed and no byte outside of the body is read if and only if the prefix is
not negative, and the body it announces has the reply header of the request and, with
err = 0, all fields of the response.
-/

namespace Rpc

open BigEndian Codec Transition

namespace Zk

/-! ## The languages of the fields -/

/-- The words of `n` bytes. -/
def fixed (n : Nat) : Language UInt8 := {w | w.length = n}

/-- A length that is not negative, and as many bytes. -/
def stringFields : Language UInt8 := {w | ∃ s : Bytes, s.length < 2 ^ 31 ∧ w = stringBytes s}

/-- A count, and as many strings; none when the count is negative. -/
def stringsFields : Language UInt8 :=
  {w | ∃ count : Int32, ∃ ss ∈ stringFields ^ count.toInt.toNat, w = int32Bytes count ++ ss}

/-- The eleven fields of a `zk_stat`. -/
def statFields : Language UInt8 :=
  fixed 8 * (fixed 8 * (fixed 8 * (fixed 8 * (fixed 4 * (fixed 4 * (fixed 4 * (fixed 8 *
    (fixed 4 * (fixed 4 * fixed 8)))))))))

/-- The fields of a `connect_response`. -/
def connectFields : Language UInt8 :=
  fixed 4 * (fixed 4 * (fixed 8 * (stringFields * fixed 1)))

/-- The fields of the response to an operation. -/
def OpCode.fields : OpCode → Language UInt8
  | .create => stringFields
  | .getChildren => stringsFields
  | .getData => stringFields * statFields
  | .exists => statFields
  | .remove => 1

/-! ## What the decoders accept -/

/-- What `read_int32` accepts is what `write_int32` writes. -/
theorem readInt32_canonical {p q : Bytes} {v : Int32} (h : readInt32 p = .ok (v, q)) :
    p = int32Bytes v ++ q := by
  unfold readInt32 at h
  split at h
  · rename_i b₀ b₁ b₂ b₃ q'
    obtain ⟨rfl, rfl⟩ := Prod.mk.inj (Except.ok.inj h)
    rw [int32Bytes, UInt32.toUInt32_toInt32, be32_ofBe32]
    rfl
  · cases h

/-- The halves of a word that was put together. -/
private theorem uint64_ofHalves (hi lo : UInt32) :
    ((hi.toUInt64 <<< 32 ||| lo.toUInt64) >>> 32).toUInt32 = hi ∧
      (hi.toUInt64 <<< 32 ||| lo.toUInt64).toUInt32 = lo := by
  have hhi := hi.toNat_lt
  have hlo := lo.toNat_lt
  -- the halves share no bit, so `|||` adds them
  have hor := Nat.two_pow_add_eq_or_of_lt (i := 32) (b := lo.toNat) hlo hi.toNat
  have hword : (hi.toUInt64 <<< 32 ||| lo.toUInt64).toNat = 2 ^ 32 * hi.toNat + lo.toNat := by
    rw [hor, UInt64.toNat_or, UInt64.toNat_shiftLeft, UInt32.toNat_toUInt64,
      UInt32.toNat_toUInt64, Nat.shiftLeft_eq, Nat.mul_comm (2 ^ 32)]
    congr 1
    exact Nat.mod_eq_of_lt (by simp; omega)
  refine ⟨?_, ?_⟩
  -- the high half is what is left after the shift
  · apply UInt32.toNat_inj.mp
    rw [UInt64.toNat_toUInt32, UInt64.toNat_shiftRight, hword, Nat.shiftRight_eq_div_pow]
    simp only [UInt64.reduceToNat, Nat.reduceMod]
    omega
  -- the low half is the remainder
  · apply UInt32.toNat_inj.mp
    rw [UInt64.toNat_toUInt32, hword]
    omega

/-- What `read_int64` accepts is what `write_int64` writes. -/
theorem readInt64_canonical {p q : Bytes} {v : Int64} (h : readInt64 p = .ok (v, q)) :
    p = int64Bytes v ++ q := by
  unfold readInt64 at h
  split at h
  · rename_i b₀ b₁ b₂ b₃ b₄ b₅ b₆ b₇ q'
    obtain ⟨rfl, rfl⟩ := Prod.mk.inj (Except.ok.inj h)
    obtain ⟨hhi, hlo⟩ := uint64_ofHalves (ofBe32 b₀ b₁ b₂ b₃) (ofBe32 b₄ b₅ b₆ b₇)
    rw [int64Bytes, UInt64.toUInt64_toInt64, hhi, hlo, be32_ofBe32, be32_ofBe32]
    rfl
  · cases h

/-- `read_int32` takes four bytes, whatever they are. -/
theorem readInt32_accepts : Accepts readInt32 (fixed 4) := by
  intro p q
  constructor
  · rintro ⟨v, h⟩
    exact ⟨int32Bytes v, rfl, readInt32_canonical h⟩
  · rintro ⟨w, hw, rfl⟩
    obtain ⟨b₀, b₁, b₂, b₃, rfl⟩ := List.length_eq_four.mp hw
    exact ⟨_, rfl⟩

/-- `read_int64` takes eight bytes, whatever they are. -/
theorem readInt64_accepts : Accepts readInt64 (fixed 8) := by
  intro p q
  constructor
  · rintro ⟨v, h⟩
    exact ⟨int64Bytes v, rfl, readInt64_canonical h⟩
  · rintro ⟨w, hw, rfl⟩
    -- the two words
    have hlow : (w.take 4).length = 4 := by rw [List.length_take, hw]; rfl
    have hhigh : (w.drop 4).length = 4 := by rw [List.length_drop, hw]
    obtain ⟨b₀, b₁, b₂, b₃, h₀⟩ := List.length_eq_four.mp hlow
    obtain ⟨b₄, b₅, b₆, b₇, h₄⟩ := List.length_eq_four.mp hhigh
    rw [← List.take_append_drop 4 w, h₀, h₄]
    exact ⟨_, rfl⟩

/-- `read_bool` takes one byte. -/
theorem readBool_accepts : Accepts readBool (fixed 1) := by
  intro p q
  constructor
  · rintro ⟨v, h⟩
    cases p with
    | nil => cases h
    | cons b p =>
      obtain ⟨-, rfl⟩ := Prod.mk.inj (Except.ok.inj h)
      exact ⟨[b], rfl, rfl⟩
  · rintro ⟨w, hw, rfl⟩
    obtain ⟨b, rfl⟩ := List.length_eq_one_iff.mp hw
    exact ⟨_, rfl⟩

/-- What `read_string` accepts is what `write_string` writes for a string that is not too long. -/
theorem readString_canonical {p q s : Bytes} (h : readString p = .ok (s, q)) :
    s.length < 2 ^ 31 ∧ p = stringBytes s ++ q := by
  obtain ⟨⟨len, p'⟩, hlen, h⟩ := bind_eq_ok h
  simp only at h
  split at h
  -- the length is negative
  · cases h
  · rename_i hpos
    split at h
    · rename_i hle
      obtain ⟨rfl, rfl⟩ := Prod.mk.inj (Except.ok.inj h)
      rw [Int32.lt_iff_toInt_lt] at hpos
      have hzero : (0 : Int32).toInt = 0 := rfl
      have hlt := len.toInt_lt
      -- there are as many bytes as the length says
      have hlength : (p'.take len.toInt.toNat).length = len.toInt.toNat := by
        rw [List.length_take]
        omega
      -- and the length is that of the string again
      have hfield : Int32.ofNat len.toInt.toNat = len := by
        apply Int32.toInt_inj.mp
        rw [Int32.toInt_ofNat_of_lt (by omega)]
        omega
      refine ⟨by omega, ?_⟩
      rw [stringBytes, hlength, hfield, List.append_assoc, List.take_append_drop]
      exact readInt32_canonical hlen
    -- the body ends before the string does
    · cases h

/-- `read_string` stays inside of the body exactly when it begins with a length and a string. -/
theorem readString_accepts : Accepts readString stringFields := by
  intro p q
  constructor
  · rintro ⟨s, h⟩
    obtain ⟨hs, hp⟩ := readString_canonical h
    exact ⟨stringBytes s, ⟨s, hs, rfl⟩, hp⟩
  · rintro ⟨w, ⟨s, hs, rfl⟩, rfl⟩
    exact ⟨s, readString_inverts s q hs⟩

/-- The loop over the children takes one string after the other. -/
theorem readStrings_accepts (n : Nat) : Accepts (readStrings n) (stringFields ^ n) := by
  induction n with
  | zero =>
    intro p
    rw [pow_zero]
    exact AcceptsAt.pure p []
  | succ n ih =>
    intro p
    rw [pow_succ']
    exact (readString_accepts p).bind fun s p' => (ih p').bind_pure fun _ _ => ⟨_, rfl⟩

/-- A `zk_stat` is read exactly when its sixty-eight bytes are there. -/
theorem ZkStat.deserialize_accepts : Accepts ZkStat.deserialize statFields := by
  intro p
  refine (readInt64_accepts p).bind fun czxid p => ?_
  refine (readInt64_accepts p).bind fun mzxid p => ?_
  refine (readInt64_accepts p).bind fun ctime p => ?_
  refine (readInt64_accepts p).bind fun mtime p => ?_
  refine (readInt32_accepts p).bind fun version p => ?_
  refine (readInt32_accepts p).bind fun cversion p => ?_
  refine (readInt32_accepts p).bind fun aversion p => ?_
  refine (readInt64_accepts p).bind fun ephemeralOwner p => ?_
  refine (readInt32_accepts p).bind fun dataLength p => ?_
  refine (readInt32_accepts p).bind fun numChildren p => ?_
  exact (readInt64_accepts p).bind_pure fun _ _ => ⟨_, rfl⟩

/-- A `connect_response` is read exactly when all its fields are there. -/
theorem ConnectResponse.deserialize_accepts :
    Accepts ConnectResponse.deserialize connectFields := by
  intro p
  refine (readInt32_accepts p).bind fun protocolVersion p => ?_
  refine (readInt32_accepts p).bind fun timeoutMs p => ?_
  refine (readInt64_accepts p).bind fun sessionId p => ?_
  refine (readString_accepts p).bind fun passwd p => ?_
  exact (readBool_accepts p).bind_pure fun _ _ => ⟨_, rfl⟩

/-- A `create_response` is read exactly when its path is there. -/
theorem CreateResponse.deserialize_accepts : Accepts CreateResponse.deserialize stringFields :=
  fun p => (readString_accepts p).bind_pure fun _ _ => ⟨_, rfl⟩

/-- A `get_data_response` is read exactly when the data and the `zk_stat` are there. -/
theorem GetDataResponse.deserialize_accepts :
    Accepts GetDataResponse.deserialize (stringFields * statFields) := by
  intro p
  refine (readString_accepts p).bind fun data p => ?_
  exact (ZkStat.deserialize_accepts p).bind_pure fun _ _ => ⟨_, rfl⟩

/-- An `exists_response` is read exactly when the `zk_stat` is there. -/
theorem ExistsResponse.deserialize_accepts : Accepts ExistsResponse.deserialize statFields :=
  fun p => (ZkStat.deserialize_accepts p).bind_pure fun _ _ => ⟨_, rfl⟩

/-- The number of strings is the number in front of them. -/
theorem GetChildrenResponse.deserialize_accepts :
    Accepts GetChildrenResponse.deserialize stringsFields := by
  intro p q
  constructor
  -- the count was read, and then as many strings
  · rintro ⟨resp, h⟩
    obtain ⟨⟨count, p'⟩, hcount, h⟩ := bind_eq_ok h
    obtain ⟨⟨children, q'⟩, hchildren, h⟩ := bind_eq_ok h
    obtain ⟨-, rfl⟩ := Prod.mk.inj (Except.ok.inj h)
    obtain ⟨ss, hss, rfl⟩ := (readStrings_accepts _ p' q').mp ⟨children, hchildren⟩
    refine ⟨int32Bytes count ++ ss, ⟨count, ss, hss, rfl⟩, ?_⟩
    rw [readInt32_canonical hcount, List.append_assoc]
  -- the count in front says how many strings to read
  · rintro ⟨w, ⟨count, ss, hss, rfl⟩, rfl⟩
    obtain ⟨children, hchildren⟩ := (readStrings_accepts _ (ss ++ q) q).mpr ⟨ss, hss, rfl⟩
    refine ⟨{ children }, ?_⟩
    rw [List.append_assoc]
    simp only [GetChildrenResponse.deserialize, readInt32_inverts _ _ trivial, hchildren, bind,
      Except.bind, pure, Except.pure]

/-- The reply header, as it stands in front of the payload. -/
theorem ReplyHeader.deserialize_eq_ok_iff {body payload : Bytes} {rh : ReplyHeader} :
    ReplyHeader.deserialize body = .ok (rh, payload) ↔
      body = int32Bytes rh.xid ++ (int64Bytes rh.zxid ++ (int32Bytes rh.err ++ payload)) := by
  constructor
  · intro h
    obtain ⟨⟨xid, p₁⟩, hxid, h⟩ := bind_eq_ok h
    obtain ⟨⟨zxid, p₂⟩, hzxid, h⟩ := bind_eq_ok h
    obtain ⟨⟨err, p₃⟩, herr, h⟩ := bind_eq_ok h
    obtain ⟨rfl, rfl⟩ := Prod.mk.inj (Except.ok.inj h)
    -- each field is the bytes in front of the next one
    rw [readInt32_canonical hxid, readInt64_canonical hzxid, readInt32_canonical herr]
  · rintro rfl
    simp only [ReplyHeader.deserialize, readInt32_inverts _ _ trivial,
      readInt64_inverts _ _ trivial, bind, Except.bind, pure, Except.pure]

/-! ## The value of the future -/

/-- What the future of an operation is satisfied with: a value or an error. -/
def Outcome.future (op : OpCode) (o : Outcome) : Except Fault Bool :=
  match op with
  | .create => (o.result CreateResponse.deserialize).map Result.isOk
  | .getChildren => (o.result GetChildrenResponse.deserialize).map Result.isOk
  | .getData => (o.result GetDataResponse.deserialize).map Result.isOk
  | .exists => (o.result ExistsResponse.deserialize).map Result.isOk
  | .remove => .ok o.resultVoid.isOk

/-- A promise is satisfied without a fault when the response can be read. -/
theorem result_map_isOk_iff {α : Type} {read : Bytes → Except Fault (α × Bytes)}
    {lang : Language UInt8} (h : Accepts read lang) (err : Int32) (data : Bytes) :
    (∃ b, ((Outcome.reply err data).result read).map Result.isOk = .ok b) ↔
      (err = 0 → ∃ w ∈ lang, w <+: data) := by
  rw [← h.exists_ok_iff data]
  -- with another err the body is not read
  by_cases herr : err = 0
  · cases hread : read data with
    | error e => simp [Outcome.result, herr, hread, bind, Except.bind, Except.map]
    | ok x => simp [Outcome.result, herr, hread, bind, Except.bind, Except.map, pure, Except.pure]
  · simp [Outcome.result, herr, Except.map]

/-- The future of an operation is completed without a fault when the response can be read. -/
theorem future_reply_iff (op : OpCode) (err : Int32) (data : Bytes) :
    (∃ b, (Outcome.reply err data).future op = .ok b) ↔
      (err = 0 → ∃ w ∈ op.fields, w <+: data) := by
  cases op with
  | create => exact result_map_isOk_iff CreateResponse.deserialize_accepts err data
  | getChildren => exact result_map_isOk_iff GetChildrenResponse.deserialize_accepts err data
  | getData => exact result_map_isOk_iff GetDataResponse.deserialize_accepts err data
  | «exists» => exact result_map_isOk_iff ExistsResponse.deserialize_accepts err data
  | remove =>
    -- nothing is read from the body
    constructor
    · intro _ _
      exact ⟨[], Language.nil_mem_one, List.nil_prefix⟩
    · intro _
      exact ⟨_, rfl⟩

/-! ## Handling a reply -/

/-- As many bytes follow as the length prefix `n` announces. -/
def announced (n : Int32) (body : Bytes) : Bool := n.toInt.toNat ≤ body.length

/-- The completions of the two reads for a reply: after a body that is shorter than announced the
    connection ends with `msg`. -/
def replyActs (n : Int32) (body msg : Bytes) : List ZkClient.Act :=
  if n < 0 then [.readDone]
  else if announced n body then [.readDone, .readDone]
  else [.readDone, .readError msg]

/-- The handshake that gets this reply. -/
def replyHandshake (n : Int32) (body msg : Bytes) : Handshake :=
  if n < 0 then .lengthNegative
  else if announced n body then .replied (body.take n.toInt.toNat)
  else .bodyFailed msg

/-- The announced body is there, and begins with the fields of a `connect_response`. -/
def HandshakeFits (n : Int32) (body : Bytes) : Prop :=
  ¬n < 0 ∧ (announced n body = true → ∃ w ∈ connectFields, w <+: body.take n.toInt.toNat)

/-- The announced body is there, and has the reply header of the request and, with err = 0, the
    fields of the response. -/
def ReplyFits (op : OpCode) (xid n : Int32) (body : Bytes) : Prop :=
  ¬n < 0 ∧ (announced n body = true → ∃ zxid err payload,
    body.take n.toInt.toNat =
      int32Bytes xid ++ (int64Bytes zxid ++ (int32Bytes err ++ payload)) ∧
    (err = 0 → ∃ w ∈ op.fields, w <+: payload))

/-- `connect` gets past the reply exactly when all fields of the response are there. -/
theorem connect_replied_iff (s : ZkSession) (timeoutMs : Int32) (body : Bytes) :
    (∃ res, (s.connect timeoutMs (.replied body)).2 = .ok res) ↔
      ∃ w ∈ connectFields, w <+: body := by
  rw [← ConnectResponse.deserialize_accepts.exists_ok_iff]
  cases hread : ConnectResponse.deserialize body with
  | error e => simp [ZkSession.connect, hread]
  | ok x => simp [ZkSession.connect, hread]

/-- The future of `connect` gets a value or an error. -/
theorem connect_replyHandshake_iff (s : ZkSession) (timeoutMs n : Int32) (body msg : Bytes) :
    (∃ res, (s.connect timeoutMs (replyHandshake n body msg)).2 = .ok res) ↔
      HandshakeFits n body := by
  unfold replyHandshake HandshakeFits
  by_cases hneg : n < 0
  -- a negative length ends the handshake with an error
  · simp [hneg, ZkSession.connect]
  · cases announced n body with
    | false => simp [hneg, ZkSession.connect]
    -- the body is shorter than announced: the read fails, which is an error
    | true =>
      rw [if_neg hneg, if_pos rfl, connect_replied_iff]
      simp only [hneg, not_false_eq_true, true_and, true_imp_iff]

end Zk

namespace ZkClient

open Zk

/-- Request `r` has been written, and its reply is the next thing that is read. -/
structure Awaiting (s : ZkClient) (r : Nat) (xid : Int32) : Prop where
  crashed : s.crashed = false
  broken : s.broken = false
  reads : s.reads = [.length xid]
  pending : s.pending.lookup xid = some r
  own : ∀ n, s.pending.lookup n = some r → n = xid
  unsettled : ∀ o, (r, o) ∉ s.outcomes

/-- The client after the reply with length prefix `n` and this body. -/
def receive (s : ZkClient) (n : Int32) (body msg : Bytes) : Option ZkClient :=
  run step { s with inbox := int32Bytes n ++ body } (replyActs n body msg)

/-- No handler has read outside of its buffer or constructed anything with a negative length, and
    the future of request `r` has got a value or an error. -/
def Completed (op : OpCode) (r : Nat) (s : ZkClient) : Prop :=
  s.crashed = false ∧ ∃ o b, (r, o) ∈ s.outcomes ∧ o.future op = .ok b

/-- The client after the length has been read. -/
def prefixRead (s : ZkClient) (xid n : Int32) (body : Bytes) : ZkClient :=
  { s with
    inbox := body
    reads := if n < 0 then [] else [.body xid n.toInt.toNat]
    crashed := decide (n < 0)
    consumed := s.consumed ++ [.length (int32Bytes n)] }

/-- The first read of a reply takes the four bytes of its length. -/
theorem step_prefixRead {s : ZkClient} {r : Nat} {xid : Int32} (h : s.Awaiting r xid) (n : Int32)
    (body : Bytes) :
    { s with inbox := int32Bytes n ++ body }.step .readDone = some (s.prefixRead xid n body) := by
  have hlen : (int32Bytes n).length = 4 := rfl
  have hle : 4 ≤ (int32Bytes n ++ body).length := by
    rw [List.length_append, hlen]
    omega
  -- the length is the number that was sent
  have hread : readInt32 (int32Bytes n) = .ok (n, []) := by
    have := readInt32_inverts n [] trivial
    rwa [List.append_nil] at this
  have htake : (int32Bytes n ++ body).take 4 = int32Bytes n := List.take_left' hlen
  have hdrop : (int32Bytes n ++ body).drop 4 = body := List.drop_left' hlen
  simp only [step, h.crashed, h.broken, Bool.false_eq_true, or_self, if_false, h.reads, hle,
    if_true, htake, hdrop, onReadLength, hread, prefixRead]
  -- the construction of the body throws if it is negative
  by_cases hneg : n < 0
  · simp only [hneg, if_true, decide_true]
  · simp only [hneg, if_false, decide_false, List.nil_append]

/-- The future is completed by the reply when the reply is for it, and can be read. -/
theorem completed_onReadBody_iff {s t : ZkClient} {r : Nat} {xid : Int32} (h : s.Awaiting r xid)
    (hcrashed : t.crashed = false) (hpending : t.pending = s.pending)
    (houtcomes : t.outcomes = s.outcomes) (op : OpCode) (b : Bytes) :
    Completed op r (t.onReadBody b) ↔ ∃ zxid err payload,
      b = int32Bytes xid ++ (int64Bytes zxid ++ (int32Bytes err ++ payload)) ∧
      (err = 0 → ∃ w ∈ op.fields, w <+: payload) := by
  constructor
  · intro hdone
    cases hread : ReplyHeader.deserialize b with
    | error e =>
      -- the header is not there
      have hcrash : (t.onReadBody b).crashed = true := by simp only [onReadBody, hread]
      rw [hdone.1] at hcrash
      cases hcrash
    | ok x =>
      obtain ⟨rh, payload⟩ := x
      obtain ⟨-, o, v, hmem, hfuture⟩ := hdone
      simp only [onReadBody, hread, resolvePending, settlePending, hpending, houtcomes,
        List.mem_append, List.mem_map, Option.mem_toList] at hmem
      obtain hold | ⟨r', hr', heq⟩ := hmem
      -- the promise was not satisfied before
      · exact absurd hold (h.unsettled o)
      -- so it is by this reply, whose xid is the one of the request
      · obtain ⟨rfl, rfl⟩ := Prod.mk.inj heq
        have hxid := h.own rh.xid hr'
        have hbody := ReplyHeader.deserialize_eq_ok_iff.mp hread
        rw [hxid] at hbody
        have hpayload := (future_reply_iff op rh.err payload).mp ⟨v, hfuture⟩
        exact ⟨rh.zxid, rh.err, payload, hbody, hpayload⟩
  · rintro ⟨zxid, err, payload, hb, hfields⟩
    have hread : ReplyHeader.deserialize b = .ok ({ xid, zxid, err }, payload) :=
      ReplyHeader.deserialize_eq_ok_iff.mpr hb
    obtain ⟨v, hv⟩ := (future_reply_iff op err payload).mpr hfields
    -- the header is read, and its xid leads to the promise
    have hstate : t.onReadBody b = t.resolvePending xid err payload := by
      simp only [onReadBody, hread]
    rw [hstate]
    refine ⟨hcrashed, .reply err payload, v, ?_, hv⟩
    simp only [resolvePending, settlePending, hpending, h.pending, List.mem_append, List.mem_map,
      Option.mem_toList]
    exact .inr ⟨r, rfl, rfl⟩

/-- The read of the body that was announced. -/
theorem step_announcedRead {s : ZkClient} {r : Nat} {xid n : Int32} {body : Bytes}
    (h : s.Awaiting r xid) (hneg : ¬n < 0) (hann : announced n body = true) :
    (s.prefixRead xid n body).step .readDone =
      some (onReadBody { s.prefixRead xid n body with
        reads := []
        inbox := body.drop n.toInt.toNat
        consumed := s.consumed ++ [.length (int32Bytes n)] ++
          [.body (body.take n.toInt.toNat)] } (body.take n.toInt.toNat)) := by
  have hle : n.toInt.toNat ≤ body.length := of_decide_eq_true hann
  simp only [step, prefixRead, hneg, decide_false, h.broken, Bool.false_eq_true, or_self, if_false,
    hle, if_true]

/-- The read of a body that ends too early. -/
theorem step_endedRead {s : ZkClient} {r : Nat} {xid n : Int32} (h : s.Awaiting r xid)
    (hneg : ¬n < 0) (body msg : Bytes) :
    ∃ s', (s.prefixRead xid n body).step (.readError msg) = some s' ∧ s'.crashed = false ∧
      (r, .rejected msg) ∈ s'.outcomes := by
  simp only [step, prefixRead, hneg, decide_false, Bool.false_eq_true, if_false]
  refine ⟨_, rfl, rfl, ?_⟩
  simp only [rejectPending, settlePending, h.pending, List.mem_append, List.mem_map,
    Option.mem_toList]
  exact .inr ⟨r, rfl, rfl⟩

/-- A transport error completes the future. -/
theorem future_rejected (op : OpCode) (msg : Bytes) :
    ∃ b, (Outcome.rejected msg).future op = .ok b := by
  cases op <;> exact ⟨_, rfl⟩

/-- A reply to a request. -/
theorem completed_receive_iff {s : ZkClient} {r : Nat} {xid : Int32} (h : s.Awaiting r xid)
    (op : OpCode) (n : Int32) (body msg : Bytes) :
    (∃ s', s.receive n body msg = some s' ∧ Completed op r s') ↔ ReplyFits op xid n body := by
  unfold receive replyActs ReplyFits
  by_cases hneg : n < 0
  · -- the construction of the body throws
    simp only [hneg, if_true, run, step_prefixRead h, Option.some.injEq, not_true, false_and,
      iff_false]
    rintro ⟨s', rfl, hdone⟩
    have hcrash : (s.prefixRead xid n body).crashed = true := decide_eq_true hneg
    rw [hdone.1] at hcrash
    cases hcrash
  · cases hann : announced n body with
    | false =>
      -- the body ends too early, and the promise is rejected
      obtain ⟨s', hstep, hcrashed, hmem⟩ := step_endedRead h hneg body msg
      obtain ⟨b, hb⟩ := future_rejected op msg
      simp only [hneg, if_false, Bool.false_eq_true, run, step_prefixRead h, hstep,
        not_false_eq_true, true_and, false_imp_iff, iff_true, Option.some.injEq]
      exact ⟨s', rfl, hcrashed, _, b, hmem, hb⟩
    | true =>
      -- the announced body is handed to `on_read_body`
      have hcrashed : (s.prefixRead xid n body).crashed = false := decide_eq_false hneg
      simp only [hneg, if_false, if_true, run, step_prefixRead h, step_announcedRead h hneg hann,
        not_false_eq_true, true_and, true_imp_iff, Option.some.injEq, exists_eq_left']
      apply completed_onReadBody_iff h
      · exact hcrashed
      · rfl
      · rfl

/-- A request of an idle client awaits its reply when it has been written. -/
theorem awaiting_written {c : ZkClient} (h : c.Idle) (hopen : c.broken = false) (op : Operation) :
    (c.written op).Awaiting c.requests.length c.xid where
  crashed := h.crashed
  broken := hopen
  reads := rfl
  pending := AList.lookup_insert _
  own n hn := by
    obtain ⟨rfl, -⟩ | ⟨-, hold⟩ := AList.lookup_insert_eq_some.mp hn
    · rfl
    · rw [h.pending n] at hold
      cases hold
  unsettled o ho := by
    have := h.settled _ ho
    simp at this

/-- A reply of any length and content is handled without a read outside of its body, and completes
    the future that waits for it, if and only if it fits.  First for the handshake, then for
    every request that awaits a reply. -/
theorem replies_handled_iff (n : Int32) (body msg : Bytes) :
    (∀ (s : ZkSession) (timeoutMs : Int32),
      (∃ res, (s.connect timeoutMs (replyHandshake n body msg)).2 = .ok res) ↔
        HandshakeFits n body) ∧
    ∀ (s : ZkClient) (r : Nat) (xid : Int32) (op : OpCode), s.Awaiting r xid →
      ((∃ s', s.receive n body msg = some s' ∧ Completed op r s') ↔ ReplyFits op xid n body) :=
  ⟨fun s timeoutMs => connect_replyHandshake_iff s timeoutMs n body msg,
    fun _ _ _ op h => completed_receive_iff h op n body msg⟩

/-- A client that has written its first `get_data`. -/
def awaitingData : ZkClient := init.written (.getData [47, 97] false)

/-- The reply that there is no such node completes its future. -/
theorem replies_handled_noNode :
    ∃ s', awaitingData.receive 16 (writeInt32 (writeInt64 (writeInt32 [] 1) 7) (-101)) [] =
      some s' ∧ Completed .getData 0 s' := by
  have hidle : init.Idle := ⟨rfl, fun _ => rfl, rfl, rfl, fun _ => rfl, nofun⟩
  apply ((replies_handled_iff 16 _ []).2 awaitingData 0 1 .getData
    (awaiting_written hidle rfl _)).mpr
  refine ⟨by decide, fun _ => ⟨7, -101, [], rfl, ?_⟩⟩
  intro herr
  exact absurd herr (by decide)

/-- A reply to it with err = 0 whose data are the null buffer, of length -1. -/
def nullDataReply : Bytes :=
  writeInt32 (writeInt32 (writeInt64 (writeInt32 [] 1) 7) 0) (-1) ++ List.replicate 68 0

/-- The null buffer, a body that is shorter than the reply header, and a negative prefix. -/
theorem replies_not_handled :
    awaitingData.Awaiting 0 1 ∧
    (¬∃ s', awaitingData.receive 88 nullDataReply [] = some s' ∧ Completed .getData 0 s') ∧
    (¬∃ s', awaitingData.receive 3 [0, 0, 0] [] = some s' ∧ Completed .getData 0 s') ∧
    ¬∃ s', awaitingData.receive (-1) [] [] = some s' ∧ Completed .getData 0 s' := by
  have hidle : init.Idle := ⟨rfl, fun _ => rfl, rfl, rfl, fun _ => rfl, nofun⟩
  -- the null buffer throws while its data are read
  have hnull : (awaitingData.receive 88 nullDataReply []).map
      (fun s => s.outcomes.map fun p => (p.1, p.2.future .getData)) =
        some [(0, .error .otherException)] := by decide
  -- the reply header is read beyond the end of the body
  have hshort : (awaitingData.receive 3 [0, 0, 0] []).map (·.crashed) = some true := by decide
  -- a buffer of this length cannot be constructed
  have hneg : (awaitingData.receive (-1) [] []).map (·.crashed) = some true := by decide
  refine ⟨awaiting_written hidle rfl _, ?_, ?_, ?_⟩
  · rintro ⟨s', hs', -, o, b, hmem, hfuture⟩
    rw [hs', Option.map_some, Option.some.injEq] at hnull
    have hmem' := List.mem_map_of_mem (f := fun p => (p.1, p.2.future .getData)) hmem
    rw [hnull, hfuture] at hmem'
    simp at hmem'
  · rintro ⟨s', hs', hcrashed, -⟩
    rw [hs', Option.map_some, hcrashed] at hshort
    cases hshort
  · rintro ⟨s', hs', hcrashed, -⟩
    rw [hs', Option.map_some, hcrashed] at hneg
    cases hneg

end ZkClient

end Rpc
