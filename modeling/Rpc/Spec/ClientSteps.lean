import Rpc.Native.Client

/-!
# What a step of the client can do

`RpcClient.Steps` lists the outcomes of `RpcClient.step` with their guards, and
`RpcClient.steps_of_step` says that there are no others.  The three ways in
which the read loop ends (a read error, a bad magic, an undecodable body) are
one case, as all of them run `reject_all_pending`.  Every invariant of the
client is proved by cases on this relation.
-/

namespace Rpc.RpcClient

/-- The outcomes of a step. -/
inductive Steps (s : RpcClient) : Act → RpcClient → Prop where
  /-- `call` takes the next id -/
  | call (service method params : Bytes) (timeoutMs : UInt32) :
      Steps s (.call service method params timeoutMs)
        { s with
          nextSeqId := s.nextSeqId + 1
          calls := s.calls ++
            [{ service, method, params, timeoutMs, seqId := s.nextSeqId, phase := .allocated }] }
  /-- the promise is put into `pending_`, where it may take the place of another -/
  | register (c : Nat) (call : Call) (hcall : s.calls[c]? = some call)
      (hphase : call.phase = .allocated) :
      Steps s (.register c)
        { s with
          calls := s.setPhase c call .registered
          pending := s.pending.insert call.seqId c
          dropped := s.dropped ++ (s.pending.lookup call.seqId).toList }
  /-- the frame is put into the write queue -/
  | enqueue (c : Nat) (call : Call) (hcall : s.calls[c]? = some call)
      (hphase : call.phase = .registered) :
      Steps s (.enqueue c)
        { s with
          calls := s.setPhase c call .enqueued
          writes := s.writes.push (some c) { frame := call.frame, seqId := call.seqId, call := c } }
  /-- the connection is there, and the read loop starts -/
  | connected (hreading : s.reading = .notStarted) (hio : s.ioStopped = false) :
      Steps s .connected { s with reading := .header }
  /-- a good header is followed by its body -/
  | headerRead (hdrData : Bytes) (header : RpcHeader) (hreading : s.reading = .header)
      (hio : s.ioStopped = false) (hlen : hdrData.length = 20)
      (hok : deserializeHeader hdrData = .ok header) (hmagic : header.magic = RpcHeader.MAGIC) :
      Steps s (.readHeader hdrData) { s with reading := .body header }
  /-- a response takes its promise out of `pending_` -/
  | bodyRead (header : RpcHeader) (body : Bytes) (resp : RpcResponse)
      (hreading : s.reading = .body header) (hio : s.ioStopped = false)
      (hlen : body.length = header.bodySize.toNat)
      (hok : RpcResponse.deserialize body = .ok resp) :
      Steps s (.readBody body)
        { s with
          reading := .matched header body resp (s.pending.lookup header.seqId)
          pending := s.pending.erase header.seqId
          received := s.received ++ [(header, body)] }
  /-- the read loop ends, and everything that is pending with it -/
  | readEnded (a : Act) (reason : Bytes) (hio : s.ioStopped = false)
      (hread : (∃ d, a = .readHeader d) ∨ (∃ b, a = .readBody b) ∨ ∃ r, a = .readError r)
      (hreading : ∀ h b r c, s.reading ≠ .matched h b r c) :
      Steps s a { s.rejectAllPending reason with reading := .ended }
  /-- the promise that was found gets its value -/
  | setValue (header : RpcHeader) (body : Bytes) (resp : RpcResponse) (call : Option Nat)
      (hreading : s.reading = .matched header body resp call) :
      Steps s .setValue (s.onMatched header body resp call)
  /-- thread `t` looks for the next frame to write -/
  | pop (t : ThreadId) (w : WriteChain ThreadId WriteItem) (hw : s.writes.pop t = some w) :
      Steps s (.pop t) { s with writes := w }
  /-- it hands this frame to the socket -/
  | startWrite (t : ThreadId) (item : WriteItem) (w : WriteChain ThreadId WriteItem)
      (hw : s.writes.start t item = some w) : Steps s (.startWrite t item) { s with writes := w }
  /-- the frame has been written -/
  | writeDone (item : WriteItem) (w : WriteChain ThreadId WriteItem) (hio : s.ioStopped = false)
      (hw : s.writes.complete none item = some w) :
      Steps s (.writeDone item) { s with writes := w }
  /-- the write has failed, and with it the call of its frame -/
  | writeError (item : WriteItem) (reason : Bytes) (w : WriteChain ThreadId WriteItem)
      (hio : s.ioStopped = false) (hw : s.writes.complete none item = some w) :
      Steps s (.writeError item reason) { s.onWriteError item reason with writes := w }
  /-- `disconnect` stops the io_context -/
  | stopIo : Steps s .stopIo { s with ioStopped := true }
  /-- `disconnect` has joined the io thread -/
  | joinIo (hio : s.ioStopped = true) (hreading : ∀ h b r c, s.reading ≠ .matched h b r c) :
      Steps s .joinIo { s with joined := true }

/-- The handler of a header read goes on to the body or ends the loop. -/
private theorem steps_readHeader {s s' : RpcClient} {hdrData : Bytes}
    (h : s.step (.readHeader hdrData) = some s') : Steps s (.readHeader hdrData) s' := by
  simp only [step] at h
  split at h
  · rename_i hguard
    obtain ⟨hreading, hio, hlen⟩ := hguard
    -- no promise is about to get its value
    have hnm : ∀ h b r c, s.reading ≠ .matched h b r c := by simp [hreading]
    obtain rfl := Option.some.inj h
    simp only [onReadHeader]
    cases hok : deserializeHeader hdrData with
    | error _ => exact .readEnded _ _ hio (.inl ⟨hdrData, rfl⟩) hnm
    | ok header =>
      by_cases hmagic : header.magic = RpcHeader.MAGIC
      · simp only [hmagic, ne_eq, not_true_eq_false, if_false]
        exact .headerRead hdrData header hreading hio hlen hok hmagic
      -- a header with another magic ends the loop too
      · simp only [hmagic, ne_eq, not_false_eq_true, if_true]
        exact .readEnded _ _ hio (.inl ⟨hdrData, rfl⟩) hnm
  · cases h

/-- The handler of a body read matches the response or ends the loop. -/
private theorem steps_readBody {s s' : RpcClient} {body : Bytes}
    (h : s.step (.readBody body) = some s') : Steps s (.readBody body) s' := by
  simp only [step] at h
  split at h
  · rename_i header hreading
    have hnm : ∀ h b r c, s.reading ≠ .matched h b r c := by simp [hreading]
    split at h
    · rename_i hguard
      obtain ⟨hio, hlen⟩ := hguard
      obtain rfl := Option.some.inj h
      simp only [onReadBody]
      cases hok : RpcResponse.deserialize body with
      | error _ => exact .readEnded _ _ hio (.inr (.inl ⟨body, rfl⟩)) hnm
      | ok resp => exact .bodyRead header body resp hreading hio hlen hok
    · cases h
  · cases h

/-- A failed read ends the loop. -/
private theorem steps_readError {s s' : RpcClient} {reason : Bytes}
    (h : s.step (.readError reason) = some s') : Steps s (.readError reason) s' := by
  simp only [step] at h
  split at h
  · cases h
  · rename_i hio
    have hio : s.ioStopped = false := by simpa using hio
    -- the loop may wait for a header or for a body
    split at h
    · rename_i hreading
      obtain rfl := Option.some.inj h
      exact .readEnded _ _ hio (.inr (.inr ⟨reason, rfl⟩)) (by simp [hreading])
    · rename_i header hreading
      obtain rfl := Option.some.inj h
      exact .readEnded _ _ hio (.inr (.inr ⟨reason, rfl⟩)) (by simp [hreading])
    · cases h

/-- A step has one of the outcomes of `Steps`. -/
theorem steps_of_step {s s' : RpcClient} {a : Act} (h : s.step a = some s') : Steps s a s' := by
  cases a with
  | call service method params timeoutMs =>
    obtain rfl := Option.some.inj h
    exact .call service method params timeoutMs
  | register c =>
    simp only [step] at h
    split at h
    · rename_i call hcall
      split at h
      · rename_i hphase
        obtain rfl := Option.some.inj h
        exact .register c call hcall hphase
      · cases h
    · cases h
  | enqueue c =>
    simp only [step] at h
    split at h
    · rename_i call hcall
      split at h
      · rename_i hphase
        obtain rfl := Option.some.inj h
        exact .enqueue c call hcall hphase
      · cases h
    · cases h
  | connected =>
    simp only [step] at h
    split at h
    · rename_i hguard
      obtain rfl := Option.some.inj h
      exact .connected hguard.1 hguard.2
    · cases h
  | readHeader hdrData => exact steps_readHeader h
  | readBody body => exact steps_readBody h
  | readError reason => exact steps_readError h
  | setValue =>
    simp only [step] at h
    split at h
    · rename_i header body resp call hreading
      obtain rfl := Option.some.inj h
      exact .setValue header body resp call hreading
    · cases h
  | pop t =>
    obtain ⟨w, hw, rfl⟩ := Option.map_eq_some_iff.mp h
    exact .pop t w hw
  | startWrite t item =>
    obtain ⟨w, hw, rfl⟩ := Option.map_eq_some_iff.mp h
    exact .startWrite t item w hw
  | writeDone item =>
    simp only [step] at h
    split at h
    · cases h
    · rename_i hio
      obtain ⟨w, hw, rfl⟩ := Option.map_eq_some_iff.mp h
      exact .writeDone item w (by simpa using hio) hw
  | writeError item reason =>
    simp only [step] at h
    split at h
    · cases h
    · rename_i hio
      obtain ⟨w, hw, rfl⟩ := Option.map_eq_some_iff.mp h
      exact .writeError item reason w (by simpa using hio) hw
  | stopIo =>
    obtain rfl := Option.some.inj h
    exact .stopIo
  | joinIo =>
    simp only [step] at h
    split at h
    · cases h
    · rename_i hnm
      split at h
      · rename_i hguard
        obtain rfl := Option.some.inj h
        exact .joinIo hguard.1 hnm
      · cases h

/-- A step leaves the write chain alone or moves it on. -/
theorem Steps.writes {s s' : RpcClient} {a : Act} (h : Steps s a s') :
    s'.writes = s.writes ∨ s.writes.Continues s'.writes := by
  cases h with
  | enqueue c call => exact .inr (.push (some c) _ rfl)
  | pop t w hw => exact .inr (.pop t hw)
  | startWrite t item w hw => exact .inr (.start t item hw)
  | writeDone item w hio hw => exact .inr (.complete none item hw)
  | writeError item reason w hio hw => exact .inr (.complete none item hw)
  | _ => exact .inl rfl

end Rpc.RpcClient
