import Rpc.Native.Client
import Rpc.Spec.ProtocolCorrect

/-!
# Stream framing

A frame on the wire is its 20-byte header followed by its body.  A byte stream
has a unique maximal leading run of complete frames with the right magic
(`LeadingRun`, `leadingRun_exists`, `LeadingRun.unique`), and both read loops
find exactly that run: `Connection.readLoop_leadingRun` and
`RpcClient.readLoop_leadingRun`.  The client stops in addition at the first body
it cannot decode.  Run alone, a loop makes only steps of its connection or client
(`Connection.readLoop_reachable`, `RpcClient.readLoop_reachable`).
-/

namespace Rpc

/-- A frame: header and body. -/
abbrev Frame := RpcHeader × Bytes

namespace Frame

/-- A frame on the wire. -/
def encode (f : Frame) : Bytes := serializeHeader f.1 ++ f.2

/-- The magic is right and the header announces the body's length. -/
def WellFormed (f : Frame) : Prop :=
  f.1.magic = RpcHeader.MAGIC ∧ f.1.bodySize.toNat = f.2.length

instance (f : Frame) : Decidable f.WellFormed :=
  inferInstanceAs (Decidable (_ ∧ _))

/-- A frame is 20 bytes longer than its body. -/
theorem encode_length (f : Frame) : f.encode.length = 20 + f.2.length := by
  rw [encode, List.length_append, serializeHeader_length]

/-- Behind a frame the stream is shorter. -/
theorem length_lt_encode_append (f : Frame) (rest : Bytes) :
    rest.length < (f.encode ++ rest).length := by
  rw [List.length_append, encode_length]
  omega

/-- The header in front of a stream determines it. -/
theorem header_inj {h h' : RpcHeader} {t t' : Bytes}
    (heq : serializeHeader h ++ t = serializeHeader h' ++ t') : h = h' ∧ t = t' := by
  obtain ⟨hh, ht⟩ := List.append_inj heq (by simp)
  have hdec := deserializeHeader_serializeHeader h
  rw [hh, deserializeHeader_serializeHeader] at hdec
  exact ⟨(Except.ok.inj hdec).symm, ht⟩

/-- Well-formed frames are prefix-free: a stream starts with at most one. -/
theorem encode_inj {f f' : Frame} {t t' : Bytes} (hf : f.WellFormed) (hf' : f'.WellFormed)
    (heq : f.encode ++ t = f'.encode ++ t') : f = f' ∧ t = t' := by
  obtain ⟨h, b⟩ := f
  obtain ⟨h', b'⟩ := f'
  simp only [encode, List.append_assoc] at heq
  obtain ⟨rfl, hrest⟩ := header_inj heq
  have hlen : b.length = b'.length := hf.2.symm.trans hf'.2
  obtain ⟨rfl, rfl⟩ := List.append_inj hrest hlen
  exact ⟨rfl, rfl⟩

end Frame

/-- The stream starts with a complete frame with the right magic. -/
def StartsWithFrame (stream : Bytes) : Prop :=
  ∃ (f : Frame) (rest : Bytes), f.WellFormed ∧ f.encode ++ rest = stream

/-- `fs` is the maximal leading run of complete frames with the right magic in
    `stream`, and `tail` is what follows it. -/
structure LeadingRun (stream : Bytes) (fs : List Frame) (tail : Bytes) : Prop where
  split : stream = (fs.map Frame.encode).flatten ++ tail
  wellFormed : ∀ f ∈ fs, f.WellFormed
  maximal : ¬StartsWithFrame tail

/-- Where no complete frame starts, the leading run is empty. -/
theorem LeadingRun.nil {stream : Bytes} (h : ¬StartsWithFrame stream) :
    LeadingRun stream [] stream :=
  ⟨rfl, by simp, h⟩

/-- A well-formed frame before a stream goes first in its leading run. -/
theorem LeadingRun.cons {stream : Bytes} {fs : List Frame} {tail : Bytes} {f : Frame}
    (hf : f.WellFormed) (h : LeadingRun stream fs tail) :
    LeadingRun (f.encode ++ stream) (f :: fs) tail := by
  refine ⟨?_, ?_, h.maximal⟩
  · rw [List.map_cons, List.flatten_cons, List.append_assoc, ← h.split]
  · intro g hg
    obtain rfl | hg := List.mem_cons.mp hg
    · exact hf
    · exact h.wellFormed g hg

/-- The run of a stream that starts with a frame starts with that frame. -/
theorem LeadingRun.uncons {stream : Bytes} {fs : List Frame} {tail : Bytes} {f : Frame}
    (h : LeadingRun stream (f :: fs) tail) :
    f.WellFormed ∧ ∃ rest, f.encode ++ rest = stream ∧ LeadingRun rest fs tail := by
  refine ⟨h.wellFormed f (by simp), (fs.map Frame.encode).flatten ++ tail, ?_, rfl, ?_, h.maximal⟩
  · rw [h.split, List.map_cons, List.flatten_cons, List.append_assoc]
  · exact fun g hg => h.wellFormed g (List.mem_cons_of_mem f hg)

/-- A stream has one leading run. -/
theorem LeadingRun.unique {stream : Bytes} {fs fs' : List Frame} {tail tail' : Bytes}
    (h : LeadingRun stream fs tail) (h' : LeadingRun stream fs' tail') :
    fs = fs' ∧ tail = tail' := by
  induction fs generalizing stream fs' with
  | nil =>
    have htail : stream = tail := by simpa using h.split
    cases fs' with
    | nil => exact ⟨rfl, by rw [← htail]; simpa using h'.split⟩
    | cons f' fs' =>
      -- the second run finds a frame where the first says there is none
      obtain ⟨hf', rest', hs', _⟩ := h'.uncons
      exact absurd ⟨f', rest', hf', hs'.trans htail⟩ h.maximal
  | cons f fs ih =>
    obtain ⟨hf, rest, hs, hrest⟩ := h.uncons
    cases fs' with
    | nil =>
      have htail : stream = tail' := by simpa using h'.split
      exact absurd ⟨f, rest, hf, hs.trans htail⟩ h'.maximal
    | cons f' fs' =>
      obtain ⟨hf', rest', hs', hrest'⟩ := h'.uncons
      obtain ⟨rfl, rfl⟩ := Frame.encode_inj hf hf' (hs.trans hs'.symm)
      obtain ⟨rfl, rfl⟩ := ih hrest hrest'
      exact ⟨rfl, rfl⟩

/-- Every stream has a leading run (possibly empty). -/
theorem leadingRun_exists (stream : Bytes) : ∃ fs tail, LeadingRun stream fs tail := by
  -- strong induction on the length: a frame takes at least 20 bytes
  induction hn : stream.length using Nat.strong_induction_on generalizing stream with
  | _ n ih =>
    by_cases hstart : StartsWithFrame stream
    · obtain ⟨f, rest, hf, heq⟩ := hstart
      subst heq
      obtain ⟨fs, tail, hrun⟩ := ih rest.length (hn ▸ Frame.length_lt_encode_append f rest) rest rfl
      exact ⟨f :: fs, tail, hrun.cons hf⟩
    · exact ⟨[], stream, .nil hstart⟩

/-- Each frame of the run takes at least 20 bytes of the stream. -/
theorem LeadingRun.length_le {stream : Bytes} {fs : List Frame} {tail : Bytes}
    (h : LeadingRun stream fs tail) : 20 * fs.length ≤ stream.length := by
  induction fs generalizing stream with
  | nil => simp
  | cons f fs ih =>
    obtain ⟨_, rest, hs, hrest⟩ := h.uncons
    subst hs
    have := ih hrest
    rw [List.length_append, Frame.encode_length, List.length_cons]
    omega

/-- Frames followed by a proper prefix of another frame: the run is the frames. -/
theorem leadingRun_of_frames (fs : List Frame) (last : Frame) (p q : Bytes)
    (hfs : ∀ f ∈ fs, f.WellFormed) (hlast : last.WellFormed) (hcut : last.encode = p ++ q)
    (hq : q ≠ []) : LeadingRun ((fs.map Frame.encode).flatten ++ p) fs p := by
  refine ⟨rfl, hfs, ?_⟩
  rintro ⟨f, rest, hf, hp⟩
  subst hp
  -- `f` would be the cut frame itself, with nothing cut off
  have heq : f.encode ++ (rest ++ q) = last.encode ++ [] := by
    rw [← List.append_assoc, ← hcut, List.append_nil]
  obtain ⟨_, hnil⟩ := Frame.encode_inj hf hlast heq
  exact hq (List.append_eq_nil_iff.mp hnil).2

/-! ## What a read meets -/

/-- The 20 bytes in front of a stream are a header. -/
theorem header_of_stream (stream : Bytes) (h : 20 ≤ stream.length) :
    ∃ hdr, deserializeHeader (stream.take 20) = .ok hdr ∧
      stream = serializeHeader hdr ++ stream.drop 20 := by
  have hlen : (stream.take 20).length = 20 := by rw [List.length_take]; omega
  obtain ⟨hdr, hok, heq⟩ := deserializeHeader_ok _ hlen
  exact ⟨hdr, hok, by rw [← heq, List.take_append_drop]⟩

/-- Where no complete frame starts: too few bytes for a header, a bad magic, or
    too few bytes for the body. -/
theorem not_startsWithFrame_cases (stream : Bytes) (h : ¬StartsWithFrame stream) :
    stream.length < 20 ∨
      20 ≤ stream.length ∧ ∃ hdr, deserializeHeader (stream.take 20) = .ok hdr ∧
        (hdr.magic ≠ RpcHeader.MAGIC ∨ (stream.drop 20).length < hdr.bodySize.toNat) := by
  by_cases hlen : stream.length < 20
  · exact .inl hlen
  obtain ⟨hdr, hok, heq⟩ := header_of_stream stream (by omega)
  refine .inr ⟨by omega, hdr, hok, ?_⟩
  by_cases hmagic : hdr.magic = RpcHeader.MAGIC
  · right
    by_contra hbody
    -- otherwise the header and its body are a complete frame
    let body := (stream.drop 20).take hdr.bodySize.toNat
    have hb : body.length = hdr.bodySize.toNat := by
      rw [List.length_take]; omega
    refine h ⟨(hdr, body), (stream.drop 20).drop hdr.bodySize.toNat, ⟨hmagic, hb.symm⟩, ?_⟩
    simp only [Frame.encode, List.append_assoc, body, List.take_append_drop]
    exact heq.symm
  · exact .inl hmagic

/-! ## The server's read loop -/

namespace Connection

/-- A loop that has ended stays as it is. -/
theorem readLoop_ended (fuel : Nat) (c : Connection) (stream : Bytes)
    (h : c.reading = .ended) : readLoop fuel c stream = c := by
  cases fuel with
  | zero => rfl
  | succ fuel => simp only [readLoop, readStep, h]

/-- One completion, and then the rest of the loop. -/
theorem readLoop_succ {fuel : Nat} {c : Connection} {stream : Bytes} (c' : Connection)
    (rest : Bytes) (h : c.readStep stream = some (c', rest)) :
    readLoop (fuel + 1) c stream = readLoop fuel c' rest := by
  simp only [readLoop, h]

/-- Closing looks at the flag only, not at the read loop. -/
theorem closeOnce_with_reading (c : Connection) (r : Reading) :
    closeOnce { c with reading := r } = { c.closeOnce with reading := r } := by
  unfold closeOnce
  split <;> rfl

/-- A header with the right magic is read in one completion. -/
theorem readStep_header {c : Connection} {h : RpcHeader} (rest : Bytes)
    (hc : c.reading = .header) (hmagic : h.magic = RpcHeader.MAGIC) :
    c.readStep (serializeHeader h ++ rest) = some ({ c with reading := .body h }, rest) := by
  have hlen : 20 ≤ (serializeHeader h ++ rest).length := by
    rw [List.length_append, serializeHeader_length]; omega
  have htake : (serializeHeader h ++ rest).take 20 = serializeHeader h :=
    List.take_left' (serializeHeader_length h)
  have hdrop : (serializeHeader h ++ rest).drop 20 = rest :=
    List.drop_left' (serializeHeader_length h)
  simp only [readStep, hc, hlen, if_true, htake, hdrop, onReadHeader,
    deserializeHeader_serializeHeader, hmagic, ne_eq, not_true_eq_false, if_false]

/-- A complete body is read in one completion, which calls `on_message_`. -/
theorem readStep_body {c : Connection} {h : RpcHeader} {b : Bytes} (rest : Bytes)
    (hc : c.reading = .body h) (hsize : h.bodySize.toNat = b.length) :
    c.readStep (b ++ rest) = some ({ c with
      reading := .handling h b
      delivered := c.delivered ++ [(h, b)] }, rest) := by
  have hlen : b.length ≤ (b ++ rest).length := by
    rw [List.length_append]; exact Nat.le_add_right _ _
  simp only [readStep, hc, hsize, hlen, if_true, onReadBody, List.take_left', List.drop_left']

/-- A complete frame takes three completions and is delivered. -/
theorem readLoop_frame (fuel : Nat) (c : Connection) (f : Frame) (rest : Bytes)
    (hc : c.reading = .header) (hf : f.WellFormed) :
    readLoop (fuel + 3) c (f.encode ++ rest) =
      readLoop fuel { c with reading := .header, delivered := c.delivered ++ [f] } rest := by
  obtain ⟨h, b⟩ := f
  rw [Frame.encode, List.append_assoc]
  rw [readLoop_succ _ _ (readStep_header (b ++ rest) hc hf.1)]
  rw [readLoop_succ _ _ (readStep_body rest rfl hf.2)]
  -- `on_message_` returns
  exact readLoop_succ _ _ rfl

/-- Where no complete frame starts, the loop ends and the connection closes. -/
theorem readLoop_stop (fuel : Nat) (c : Connection) (stream : Bytes)
    (hc : c.reading = .header) (hstop : ¬StartsWithFrame stream) :
    readLoop (fuel + 2) c stream = { c.closeOnce with reading := .ended } := by
  obtain hshort | ⟨hlen, hdr, hok, hbad⟩ := not_startsWithFrame_cases stream hstop
  · -- the header is cut
    have hstep : c.readStep stream = some ({ c.closeOnce with reading := .ended }, stream) := by
      simp only [readStep, hc, Nat.not_le.mpr hshort, if_false, onReadHeader]
    rw [readLoop_succ _ _ hstep, readLoop_ended _ _ _ rfl]
  · by_cases hmagic : hdr.magic = RpcHeader.MAGIC
    · -- the header is good, the body is cut
      have hcut : ¬hdr.bodySize.toNat ≤ (stream.drop 20).length :=
        Nat.not_le.mpr (hbad.resolve_left fun h => h hmagic)
      have hstep : c.readStep stream = some ({ c with reading := .body hdr }, stream.drop 20) := by
        simp only [readStep, hc, hlen, if_true, onReadHeader, hok, hmagic, ne_eq,
          not_true_eq_false, if_false]
      have hstep' : readStep { c with reading := .body hdr } (stream.drop 20) =
          some ({ c.closeOnce with reading := .ended }, stream.drop 20) := by
        simp only [readStep, hcut, if_false, onReadBody, closeOnce_with_reading]
      rw [readLoop_succ _ _ hstep, readLoop_succ _ _ hstep', readLoop_ended _ _ _ rfl]
    · -- the magic is bad
      have hstep : c.readStep stream =
          some ({ c.closeOnce with reading := .ended }, stream.drop 20) := by
        simp only [readStep, hc, hlen, if_true, onReadHeader, hok, hmagic, ne_eq,
          not_false_eq_true]
      rw [readLoop_succ _ _ hstep, readLoop_ended _ _ _ rfl]

/-- The read loop delivers the leading run of the stream, then closes. -/
theorem readLoop_leadingRun (fuel : Nat) (c : Connection) {stream : Bytes} {fs : List Frame}
    {tail : Bytes} (hc : c.reading = .header) (hrun : LeadingRun stream fs tail)
    (hfuel : 3 * fs.length + 2 ≤ fuel) :
    readLoop fuel c stream =
      { c.closeOnce with reading := .ended, delivered := c.delivered ++ fs } := by
  induction fs generalizing c stream fuel with
  | nil =>
    have htail : stream = tail := by simpa using hrun.split
    obtain ⟨k, rfl⟩ : ∃ k, fuel = k + 2 := ⟨fuel - 2, by simp at hfuel; omega⟩
    rw [readLoop_stop k c stream hc (htail ▸ hrun.maximal), List.append_nil]
    unfold closeOnce
    split <;> rfl
  | cons f fs ih =>
    obtain ⟨hf, rest, hsplit, hrest⟩ := hrun.uncons
    subst hsplit
    rw [List.length_cons] at hfuel
    obtain ⟨k, rfl⟩ : ∃ k, fuel = k + 3 := ⟨fuel - 3, by omega⟩
    rw [readLoop_frame k c f rest hc hf, ih k _ rfl hrest (by omega)]
    unfold closeOnce
    split <;> simp

/-- Every completion of the read loop is a step of the connection. -/
theorem readStep_step {c c' : Connection} {stream rest : Bytes}
    (h : c.readStep stream = some (c', rest)) : ∃ a, c.step a = some c' := by
  simp only [readStep] at h
  split at h
  case h_1 hc =>
    split at h
    · rename_i hlen
      obtain ⟨rfl, _⟩ := Prod.mk.inj (Option.some.inj h)
      exact ⟨.readHeader (stream.take 20), by simp [step, hc, hlen]⟩
    · obtain ⟨rfl, _⟩ := Prod.mk.inj (Option.some.inj h)
      exact ⟨.readError, by simp [step, hc]⟩
  case h_2 header hc =>
    split at h
    · rename_i hlen
      obtain ⟨rfl, _⟩ := Prod.mk.inj (Option.some.inj h)
      exact ⟨.readBody (stream.take header.bodySize.toNat), by simp [step, hc, hlen]⟩
    · obtain ⟨rfl, _⟩ := Prod.mk.inj (Option.some.inj h)
      exact ⟨.readError, by simp [step, hc]⟩
  -- `on_message_` returns, without a byte of the stream
  case h_3 hc =>
    obtain ⟨rfl, _⟩ := Prod.mk.inj (Option.some.inj h)
    exact ⟨.messageHandled, by simp [step, hc]⟩
  all_goals cases h

/-- The read loop on its own is a run of the connection. -/
theorem readLoop_reachable (fuel : Nat) (c : Connection) (stream : Bytes) :
    Transition.Reachable step c (readLoop fuel c stream) := by
  induction fuel generalizing c stream with
  | zero => exact .refl
  | succ fuel ih =>
    unfold readLoop
    split
    · rename_i c' rest hread
      obtain ⟨a, ha⟩ := readStep_step hread
      exact (Transition.Reaches.refl.tail a trivial ha).trans (ih c' rest)
    · exact .refl

end Connection

/-! ## The client's read loop -/

/-- The client can decode the frame's body. -/
def Frame.decodable (f : Frame) : Bool := (RpcResponse.deserialize f.2).isOk

namespace RpcClient

/-- A loop that has ended stays as it is. -/
theorem readLoop_ended (fuel : Nat) (s : RpcClient) (stream : Bytes)
    (h : s.reading = .ended) : readLoop fuel s stream = s := by
  cases fuel with
  | zero => rfl
  | succ fuel => simp only [readLoop, readStep, h]

/-- One completion, and then the rest of the loop. -/
theorem readLoop_succ {fuel : Nat} {s : RpcClient} {stream : Bytes} (s' : RpcClient)
    (rest : Bytes) (h : s.readStep stream = some (s', rest)) :
    readLoop (fuel + 1) s stream = readLoop fuel s' rest := by
  simp only [readLoop, h]

/-- A header with the right magic is read in one completion. -/
theorem readStep_header {s : RpcClient} {h : RpcHeader} (rest : Bytes)
    (hs : s.reading = .header) (hmagic : h.magic = RpcHeader.MAGIC) :
    s.readStep (serializeHeader h ++ rest) = some ({ s with reading := .body h }, rest) := by
  have hlen : 20 ≤ (serializeHeader h ++ rest).length := by
    rw [List.length_append, serializeHeader_length]; omega
  have htake : (serializeHeader h ++ rest).take 20 = serializeHeader h :=
    List.take_left' (serializeHeader_length h)
  have hdrop : (serializeHeader h ++ rest).drop 20 = rest :=
    List.drop_left' (serializeHeader_length h)
  simp only [readStep, hs, hlen, if_true, htake, hdrop, onReadHeader,
    deserializeHeader_serializeHeader, hmagic, ne_eq, not_true_eq_false, if_false]

/-- A complete body is read in one completion. -/
theorem readStep_body {s : RpcClient} {h : RpcHeader} {b : Bytes} (rest : Bytes)
    (hs : s.reading = .body h) (hsize : h.bodySize.toNat = b.length) :
    s.readStep (b ++ rest) = some (s.onReadBody h (.ok b), rest) := by
  have hlen : b.length ≤ (b ++ rest).length := by
    rw [List.length_append]; exact Nat.le_add_right _ _
  simp only [readStep, hs, hsize, hlen, if_true, List.take_left', List.drop_left']

/-- A complete frame with a decodable body takes three completions. -/
theorem readLoop_frame (s : RpcClient) (f : Frame) (rest : Bytes)
    (hs : s.reading = .header) (hf : f.WellFormed) (hdec : f.decodable = true) :
    ∃ s' : RpcClient, s'.reading = .header ∧ s'.received = s.received ++ [f] ∧
      ∀ fuel, readLoop (fuel + 3) s (f.encode ++ rest) = readLoop fuel s' rest := by
  obtain ⟨h, b⟩ := f
  cases hd : RpcResponse.deserialize b with
  | error _ => simp [Frame.decodable, hd, Except.isOk, Except.toBool] at hdec
  | ok resp =>
    refine ⟨onMatched (onReadBody { s with reading := .body h } h (.ok b)) h b resp
      (s.pending.lookup h.seqId), rfl, ?_, fun fuel => ?_⟩
    · simp only [onMatched, onReadBody, hd]
    · rw [Frame.encode, List.append_assoc]
      rw [readLoop_succ _ _ (readStep_header (b ++ rest) hs hf.1)]
      rw [readLoop_succ _ _ (readStep_body rest rfl hf.2)]
      -- `set_value`
      refine readLoop_succ _ _ ?_
      simp only [readStep, onReadBody, hd]

/-- At a complete frame with an undecodable body the loop ends. -/
theorem readLoop_undecodable (fuel : Nat) (s : RpcClient) (f : Frame) (rest : Bytes)
    (hs : s.reading = .header) (hf : f.WellFormed) (hdec : f.decodable = false) :
    readLoop (fuel + 2) s (f.encode ++ rest) =
      { s.rejectAllPending (Bytes.ofString "bad response") with reading := .ended } := by
  obtain ⟨h, b⟩ := f
  cases hd : RpcResponse.deserialize b with
  | ok _ => simp [Frame.decodable, hd, Except.isOk, Except.toBool] at hdec
  | error _ =>
    rw [Frame.encode, List.append_assoc]
    rw [readLoop_succ _ _ (readStep_header (b ++ rest) hs hf.1)]
    rw [readLoop_succ _ _ (readStep_body rest rfl hf.2)]
    simp only [onReadBody, hd]
    exact readLoop_ended _ _ _ rfl

/-- Where no complete frame starts, the loop ends. -/
theorem readLoop_stop (fuel : Nat) (s : RpcClient) (stream : Bytes)
    (hs : s.reading = .header) (hstop : ¬StartsWithFrame stream) :
    ∃ reason, readLoop (fuel + 2) s stream =
      { s.rejectAllPending reason with reading := .ended } := by
  obtain hshort | ⟨hlen, hdr, hok, hbad⟩ := not_startsWithFrame_cases stream hstop
  · -- the header is cut
    have hstep : s.readStep stream =
        some (s.onReadHeader (.error (Bytes.ofString "End of file")), stream) := by
      simp only [readStep, hs, Nat.not_le.mpr hshort, if_false]
    exact ⟨_, by rw [readLoop_succ _ _ hstep, onReadHeader, readLoop_ended _ _ _ rfl]⟩
  · by_cases hmagic : hdr.magic = RpcHeader.MAGIC
    · -- the header is good, the body is cut
      have hcut : ¬hdr.bodySize.toNat ≤ (stream.drop 20).length :=
        Nat.not_le.mpr (hbad.resolve_left fun h => h hmagic)
      have hstep : s.readStep stream = some ({ s with reading := .body hdr }, stream.drop 20) := by
        simp only [readStep, hs, hlen, if_true, onReadHeader, hok, hmagic, ne_eq,
          not_true_eq_false, if_false]
      have hstep' : readStep { s with reading := .body hdr } (stream.drop 20) =
          some ({ s.rejectAllPending (Bytes.ofString "End of file") with reading := .ended },
            stream.drop 20) := by
        simp only [readStep, hcut, if_false, onReadBody, rejectAllPending]
      exact ⟨_, by rw [readLoop_succ _ _ hstep, readLoop_succ _ _ hstep', readLoop_ended _ _ _ rfl]⟩
    · -- the magic is bad
      have hstep : s.readStep stream =
          some ({ s.rejectAllPending (Bytes.ofString "bad magic") with reading := .ended },
            stream.drop 20) := by
        simp only [readStep, hs, hlen, if_true, onReadHeader, hok, hmagic, ne_eq,
          not_false_eq_true]
      exact ⟨_, by rw [readLoop_succ _ _ hstep, readLoop_ended _ _ _ rfl]⟩

/-- The read loop receives the decodable part of the leading run, then ends. -/
theorem readLoop_leadingRun (fuel : Nat) (s : RpcClient) {stream : Bytes} {fs : List Frame}
    {tail : Bytes} (hs : s.reading = .header) (hrun : LeadingRun stream fs tail)
    (hfuel : 3 * fs.length + 2 ≤ fuel) :
    (readLoop fuel s stream).received = s.received ++ fs.takeWhile Frame.decodable ∧
      (readLoop fuel s stream).reading = .ended ∧ (readLoop fuel s stream).pending = ∅ := by
  induction fs generalizing s stream fuel with
  | nil =>
    have htail : stream = tail := by simpa using hrun.split
    obtain ⟨k, rfl⟩ : ∃ k, fuel = k + 2 := ⟨fuel - 2, by simp at hfuel; omega⟩
    obtain ⟨reason, heq⟩ := readLoop_stop k s stream hs (htail ▸ hrun.maximal)
    rw [heq]
    simp [rejectAllPending]
  | cons f fs ih =>
    obtain ⟨hf, rest, hsplit, hrest⟩ := hrun.uncons
    subst hsplit
    rw [List.length_cons] at hfuel
    cases hdec : f.decodable with
    | true =>
      obtain ⟨k, rfl⟩ : ∃ k, fuel = k + 3 := ⟨fuel - 3, by omega⟩
      obtain ⟨s', hs', hrec, heq⟩ := readLoop_frame s f rest hs hf hdec
      rw [heq k, List.takeWhile_cons_of_pos hdec]
      obtain ⟨hrec', hend⟩ := ih k s' hs' hrest (by omega)
      refine ⟨?_, hend⟩
      rw [hrec', hrec, List.append_assoc, List.singleton_append]
    | false =>
      obtain ⟨k, rfl⟩ : ∃ k, fuel = k + 2 := ⟨fuel - 2, by omega⟩
      rw [readLoop_undecodable k s f rest hs hf hdec]
      simp [rejectAllPending, hdec]

/-- The handler of a header does not stop the io context. -/
theorem onReadHeader_ioStopped (s : RpcClient) (r : Except Bytes Bytes) :
    (s.onReadHeader r).ioStopped = s.ioStopped := by
  unfold onReadHeader
  repeat' split
  all_goals rfl

/-- The handler of a body does not stop the io context. -/
theorem onReadBody_ioStopped (s : RpcClient) (header : RpcHeader) (r : Except Bytes Bytes) :
    (s.onReadBody header r).ioStopped = s.ioStopped := by
  unfold onReadBody
  repeat' split
  all_goals rfl

/-- Every completion of the read loop is a step of the client, and leaves its io
    context running. -/
theorem readStep_step {s s' : RpcClient} {stream rest : Bytes} (hio : s.ioStopped = false)
    (h : s.readStep stream = some (s', rest)) :
    s'.ioStopped = false ∧ ∃ a, s.step a = some s' := by
  simp only [readStep] at h
  split at h
  case h_1 hs =>
    split at h
    · rename_i hlen
      obtain ⟨rfl, _⟩ := Prod.mk.inj (Option.some.inj h)
      exact ⟨by rw [onReadHeader_ioStopped, hio],
        .readHeader (stream.take 20), by simp [step, hs, hio, hlen]⟩
    · obtain ⟨rfl, _⟩ := Prod.mk.inj (Option.some.inj h)
      exact ⟨by rw [onReadHeader_ioStopped, hio],
        .readError (Bytes.ofString "End of file"), by simp [step, hs, hio]⟩
  case h_2 header hs =>
    split at h
    · rename_i hlen
      obtain ⟨rfl, _⟩ := Prod.mk.inj (Option.some.inj h)
      exact ⟨by rw [onReadBody_ioStopped, hio],
        .readBody (stream.take header.bodySize.toNat), by simp [step, hs, hio, hlen]⟩
    · obtain ⟨rfl, _⟩ := Prod.mk.inj (Option.some.inj h)
      exact ⟨by rw [onReadBody_ioStopped, hio],
        .readError (Bytes.ofString "End of file"), by simp [step, hs, hio]⟩
  case h_3 header body resp call hs =>
    obtain ⟨rfl, _⟩ := Prod.mk.inj (Option.some.inj h)
    exact ⟨hio, .setValue, by simp [step, hs]⟩
  all_goals cases h

/-- The read loop on its own is a run of the client. -/
theorem readLoop_reachable (fuel : Nat) (s : RpcClient) (stream : Bytes)
    (hio : s.ioStopped = false) : Transition.Reachable step s (readLoop fuel s stream) := by
  induction fuel generalizing s stream with
  | zero => exact .refl
  | succ fuel ih =>
    unfold readLoop
    split
    · rename_i s' rest hread
      obtain ⟨hio', a, ha⟩ := readStep_step hio hread
      exact (Transition.Reaches.refl.tail a trivial ha).trans (ih s' rest hio')
    · exact .refl

end RpcClient

/-! ## Both loops -/

/-- The server's loop on frames and a cut frame delivers the frames; on an
    arbitrary stream it delivers the leading run, which is unique; and the
    client's loop receives the same messages up to the first body it cannot
    decode. -/
theorem readLoops_framing :
    (∀ (c : Connection) (fs : List Frame) (last : Frame) (p q : Bytes) (fuel : Nat),
      c.reading = .header → c.closed = false → (∀ f ∈ fs, f.WellFormed) → last.WellFormed →
      last.encode = p ++ q → q ≠ [] → 3 * fs.length + 2 ≤ fuel →
      c.readLoop fuel ((fs.map Frame.encode).flatten ++ p) =
        { c with
          reading := .ended, closed := true, onCloseCalls := c.onCloseCalls + 1,
          delivered := c.delivered ++ fs }) ∧
    (∀ (stream : Bytes), ∃ fs tail, LeadingRun stream fs tail ∧
      (∀ fs' tail', LeadingRun stream fs' tail' → fs' = fs ∧ tail' = tail) ∧
      (∀ (c : Connection) (fuel : Nat), c.reading = .header → c.closed = false →
        stream.length + 2 ≤ fuel →
        c.readLoop fuel stream =
          { c with
            reading := .ended, closed := true, onCloseCalls := c.onCloseCalls + 1,
            delivered := c.delivered ++ fs }) ∧
      ∀ (s : RpcClient) (fuel : Nat), s.reading = .header → stream.length + 2 ≤ fuel →
        (s.readLoop fuel stream).received.map (fun f => (f.1.seqId, f.2)) =
          (s.received ++ fs.takeWhile Frame.decodable).map (fun f => (f.1.seqId, f.2)) ∧
        (s.readLoop fuel stream).reading = .ended) := by
  refine ⟨?_, fun stream => ?_⟩
  · intro c fs last p q fuel hc hopen hfs hlast hcut hq hfuel
    have hrun := leadingRun_of_frames fs last p q hfs hlast hcut hq
    rw [Connection.readLoop_leadingRun fuel c hc hrun hfuel]
    simp [Connection.closeOnce, hopen]
  · obtain ⟨fs, tail, hrun⟩ := leadingRun_exists stream
    have hlen := hrun.length_le
    refine ⟨fs, tail, hrun, fun fs' tail' h' => h'.unique hrun, ?_, ?_⟩
    · intro c fuel hc hopen hfuel
      rw [Connection.readLoop_leadingRun fuel c hc hrun (by omega)]
      simp [Connection.closeOnce, hopen]
    · intro s fuel hs hfuel
      obtain ⟨hrec, hend, _⟩ := RpcClient.readLoop_leadingRun fuel s hs hrun (by omega)
      exact ⟨by rw [hrec], hend⟩

/-- Two frames and the first three bytes of a header, read by both loops. -/
theorem readLoops_framing_cutHeader :
    let fs : List Frame := [(requestHeader 7 2, [1, 2]), (requestHeader 8 0, [])]
    let stream := (fs.map Frame.encode).flatten ++ [0x52, 0x50, 0x43]
    let c : Connection := { Connection.init with reading := .header }
    let s : RpcClient := { RpcClient.init with reading := .header }
    (c.readLoop 8 stream).delivered = fs ∧ (c.readLoop 50 stream).closed = true ∧
      (s.readLoop 50 stream).reading = .ended := by
  intro fs stream c s
  have hfst := readLoops_framing.1 c fs (requestHeader 9 0, []) [0x52, 0x50, 0x43]
    ((Frame.encode (requestHeader 9 0, [])).drop 3) 8 rfl rfl (by decide) (by decide) (by decide)
    (by decide) (by decide)
  obtain ⟨_, _, _, _, hserver, hclient⟩ := readLoops_framing.2 stream
  refine ⟨?_, ?_, (hclient s 50 rfl (by decide)).2⟩
  · rw [hfst]; rfl
  · rw [hserver c 50 rfl rfl (by decide)]

end Rpc
