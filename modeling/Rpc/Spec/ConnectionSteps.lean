import Rpc.Native.Connection

/-!
# What a step of a connection can do

`Connection.Steps` lists the outcomes of `Connection.step` with their guards, and
`Connection.steps_of_step` says that there are no others.  The three ways in
which the read loop ends are one case, as all of them close.
-/

namespace Rpc.Connection

open Transition

/-- The outcomes of a step. -/
inductive Steps (c : Connection) : Act → Connection → Prop where
  | startRead (hreading : c.reading = .idle) : Steps c .startRead { c with reading := .header }
  | headerRead (hdrData : Bytes) (header : RpcHeader) (hreading : c.reading = .header)
      (hlen : hdrData.length = 20) (hok : deserializeHeader hdrData = .ok header)
      (hmagic : header.magic = RpcHeader.MAGIC) :
      Steps c (.readHeader hdrData) { c with reading := .body header }
  | bodyRead (header : RpcHeader) (body : Bytes) (hreading : c.reading = .body header)
      (hlen : body.length = header.bodySize.toNat) :
      Steps c (.readBody body)
        { c with
          reading := .handling header body
          delivered := c.delivered ++ [(header, body)] }
  | readEnded (a : Act)
      (hread : (∃ d, a = .readHeader d) ∨ a = .readError) :
      Steps c a { c.closeOnce with reading := .ended }
  | handled (header : RpcHeader) (body : Bytes) (hreading : c.reading = .handling header body) :
      Steps c .messageHandled { c with reading := .header }
  | threw (header : RpcHeader) (body : Bytes) (hreading : c.reading = .handling header body) :
      Steps c .messageThrew { c with reading := .ended }
  | sendClosed (t : ThreadId) (header : RpcHeader) (body : Bytes) (hclosed : c.closed = true) :
      Steps c (.send t header body) c
  | send (t : ThreadId) (header : RpcHeader) (body : Bytes) (hclosed : c.closed = false) :
      Steps c (.send t header body)
        { c with sending := (t, frame header body) :: c.sending }
  | push (t : ThreadId) (data : Bytes) (hmem : (t, data) ∈ c.sending) :
      Steps c (.push t data)
        { c with sending := c.sending.erase (t, data), writes := c.writes.push t data }
  | pop (t : ThreadId) (w : WriteChain ThreadId Bytes) (hw : c.writes.pop t = some w) :
      Steps c (.pop t) { c with writes := w }
  | startWrite (t : ThreadId) (data : Bytes) (w : WriteChain ThreadId Bytes)
      (hw : c.writes.start t data = some w) : Steps c (.startWrite t data) { c with writes := w }
  | writeDone (data : Bytes) (w : WriteChain ThreadId Bytes)
      (hw : c.writes.complete none data = some w) :
      Steps c (.writeDone data) { c with writes := w }
  | writeError (data : Bytes) (w : WriteChain ThreadId Bytes)
      (hw : c.writes.abort data = some w) :
      Steps c (.writeError data) { c.closeOnce with writes := w }
  | close : Steps c .close { c with closed := true }

/-- The handler of a header read goes on to the body or ends the loop. -/
private theorem steps_connReadHeader {c c' : Connection} {hdrData : Bytes}
    (h : c.step (.readHeader hdrData) = some c') : Steps c (.readHeader hdrData) c' := by
  simp only [step] at h
  split at h
  · rename_i hreading
    split at h
    · rename_i hlen
      obtain rfl := Option.some.inj h
      simp only [onReadHeader]
      cases hok : deserializeHeader hdrData with
      -- a header that does not decode, or has another magic, ends the loop
      | error _ => exact .readEnded _ (.inl ⟨hdrData, rfl⟩)
      | ok header =>
        by_cases hmagic : header.magic = RpcHeader.MAGIC
        · simp only [hmagic, ne_eq, not_true_eq_false, if_false]
          exact .headerRead hdrData header hreading hlen hok hmagic
        · simp only [hmagic, ne_eq, not_false_eq_true, if_true]
          exact .readEnded _ (.inl ⟨hdrData, rfl⟩)
    · cases h
  · cases h

/-- A step has one of the outcomes of `Steps`. -/
theorem steps_of_step {c c' : Connection} {a : Act} (h : c.step a = some c') : Steps c a c' := by
  cases a with
  | startRead =>
    simp only [step] at h
    split at h
    · rename_i hreading
      obtain rfl := Option.some.inj h
      exact .startRead hreading
    · cases h
  | readHeader hdrData => exact steps_connReadHeader h
  | readBody body =>
    simp only [step] at h
    split at h
    · rename_i header hreading
      split at h
      · rename_i hlen
        obtain rfl := Option.some.inj h
        exact .bodyRead header body hreading hlen
      · cases h
    · cases h
  -- in either read, an error ends the loop
  | readError =>
    simp only [step] at h
    split at h
    · obtain rfl := Option.some.inj h
      exact .readEnded _ (.inr rfl)
    · obtain rfl := Option.some.inj h
      exact .readEnded _ (.inr rfl)
    · cases h
  | messageHandled =>
    simp only [step] at h
    split at h
    · rename_i header body hreading
      obtain rfl := Option.some.inj h
      exact .handled header body hreading
    · cases h
  | messageThrew =>
    simp only [step] at h
    split at h
    · rename_i header body hreading
      obtain rfl := Option.some.inj h
      exact .threw header body hreading
    · cases h
  | send t header body =>
    simp only [step] at h
    split at h
    · rename_i hclosed
      obtain rfl := Option.some.inj h
      exact .sendClosed t header body hclosed
    · rename_i hclosed
      obtain rfl := Option.some.inj h
      exact .send t header body (by simpa using hclosed)
  | push t data =>
    simp only [step] at h
    split at h
    · rename_i hmem
      obtain rfl := Option.some.inj h
      exact .push t data hmem
    · cases h
  | pop t =>
    -- the steps of the write queue are those of `WriteChain`
    obtain ⟨w, hw, rfl⟩ := Option.map_eq_some_iff.mp h
    exact .pop t w hw
  | startWrite t data =>
    obtain ⟨w, hw, rfl⟩ := Option.map_eq_some_iff.mp h
    exact .startWrite t data w hw
  | writeDone data =>
    obtain ⟨w, hw, rfl⟩ := Option.map_eq_some_iff.mp h
    exact .writeDone data w hw
  | writeError data =>
    obtain ⟨w, hw, rfl⟩ := Option.map_eq_some_iff.mp h
    exact .writeError data w hw
  | close =>
    obtain rfl := Option.some.inj h
    exact .close

/-! ## Closing -/

/-- Closing touches the flag and the callback only. -/
theorem closeOnce_eq (c : Connection) :
    c.closeOnce = { c with closed := true, onCloseCalls := c.closeOnce.onCloseCalls } := by
  unfold closeOnce
  split
  · rename_i hclosed
    cases c
    cases hclosed
    rfl
  · rfl

/-- Closing leaves the write queue alone. -/
@[simp] theorem closeOnce_writes (c : Connection) : c.closeOnce.writes = c.writes := by
  rw [closeOnce_eq]

/-- Closing leaves the messages delivered on record. -/
@[simp] theorem closeOnce_delivered (c : Connection) : c.closeOnce.delivered = c.delivered := by
  rw [closeOnce_eq]

/-- Closing does not reach a thread inside of `send`. -/
@[simp] theorem closeOnce_sending (c : Connection) : c.closeOnce.sending = c.sending := by
  rw [closeOnce_eq]

/-- Closing does not change where the read loop is. -/
@[simp] theorem closeOnce_reading (c : Connection) : c.closeOnce.reading = c.reading := by
  rw [closeOnce_eq]

/-- Closing sets `closed_`. -/
@[simp] theorem closeOnce_closed (c : Connection) : c.closeOnce.closed = true := by
  rw [closeOnce_eq]

/-- A closed connection stays closed. -/
theorem Steps.closed {c c' : Connection} {a : Act} (h : Steps c a c') (hc : c.closed = true) :
    c'.closed = true := by
  cases h with
  | readEnded a hread => exact closeOnce_closed c
  | writeError data w hw => exact closeOnce_closed c
  | close => rfl
  | _ => exact hc

/-! ## Frames -/

/-- The frames that threads inside of `send` hold, and those that were pushed. -/
def frames (c : Connection) : List Bytes := c.sending.map Prod.snd ++ c.writes.pushed

/-- A frame is held by a thread inside of `send`, or has been pushed. -/
theorem mem_frames {c : Connection} {data : Bytes} :
    data ∈ c.frames ↔ (∃ t, (t, data) ∈ c.sending) ∨ data ∈ c.writes.pushed := by
  simp [frames]

/-- Only `send` makes a frame. -/
theorem Steps.frames {c c' : Connection} {a : Act} (h : Steps c a c') {data : Bytes}
    (hmem : data ∈ c'.frames) :
    data ∈ c.frames ∨ ∃ t header body, a = .send t header body ∧ data = frame header body := by
  -- a step that leaves `send` alone and pushes nothing
  have hsame : c'.sending = c.sending → c'.writes.pushed = c.writes.pushed → data ∈ c.frames := by
    intro hsending hpushed
    rw [Connection.frames, hsending, hpushed] at hmem
    exact hmem
  cases h with
  | send t header body hclosed =>
    obtain ⟨t', hmem⟩ | hmem := mem_frames.mp hmem
    -- the frame that was made now, or one that was held before
    · obtain heq | hmem := List.mem_cons.mp hmem
      · exact .inr ⟨t, header, body, rfl, (Prod.mk.inj heq).2⟩
      · exact .inl (mem_frames.mpr (.inl ⟨t', hmem⟩))
    · exact .inl (mem_frames.mpr (.inr hmem))
  | push t data' hsending =>
    -- the frame moves from the thread to the queue
    left
    obtain ⟨t', hmem⟩ | hmem := mem_frames.mp hmem
    · exact mem_frames.mpr (.inl ⟨t', List.mem_of_mem_erase hmem⟩)
    · obtain hmem | hmem := List.mem_append.mp hmem
      · exact mem_frames.mpr (.inr hmem)
      · obtain rfl := List.mem_singleton.mp hmem
        exact mem_frames.mpr (.inl ⟨t, hsending⟩)
  | pop t w hw => exact .inl (hsame rfl (WriteChain.pop_history hw).2.1)
  | startWrite t data' w hw => exact .inl (hsame rfl (WriteChain.start_history hw).2.1)
  | writeDone data' w hw => exact .inl (hsame rfl (WriteChain.complete_history hw).2.1)
  | writeError data' w hw =>
    exact .inl (hsame (closeOnce_sending c) (WriteChain.abort_pushed hw))
  | readEnded a hread =>
    exact .inl (hsame (closeOnce_sending c) (congrArg WriteChain.pushed (closeOnce_writes c)))
  | _ => exact .inl (hsame rfl rfl)

/-! ## Delivered messages -/

/-- What has been delivered stays on record. -/
theorem Steps.delivered {c c' : Connection} {a : Act} (h : Steps c a c') :
    c.delivered <+: c'.delivered := by
  cases h with
  | bodyRead header body => exact List.prefix_append _ _
  | readEnded a hread => exact closeOnce_delivered c ▸ List.prefix_rfl
  | writeError data w hw => exact closeOnce_delivered c ▸ List.prefix_rfl
  | _ => exact List.prefix_rfl

/-- The message being handled is the last one delivered. -/
def HandlingInv (c : Connection) : Prop :=
  ∀ header body, c.reading = .handling header body →
    c.delivered[c.delivered.length - 1]? = some (header, body)

/-- Every step keeps it: a message is handled as soon as it is delivered, and before the next one.
    -/
theorem Steps.handlingInv {c c' : Connection} {a : Act} (h : Steps c a c')
    (hinv : HandlingInv c) : HandlingInv c' := by
  cases h with
  | bodyRead header body hreading =>
    intro header' body' hr
    obtain ⟨rfl, rfl⟩ : header = header' ∧ body = body' := by simpa using hr
    simp
  | writeError data w hw =>
    -- the io thread may fail to write while a message is handled
    intro header body hr
    rw [closeOnce_delivered]
    rw [closeOnce_reading] at hr
    exact hinv header body hr
  -- after these the read loop is elsewhere
  | startRead | headerRead | readEnded | handled | threw =>
    intro header body hr
    cases hr
  | _ => exact hinv

/-- In every state the message being handled is the last one delivered. -/
theorem handlingInv_of_reachable {c : Connection} (h : Reachable step init c) : HandlingInv c :=
  h.invariant nofun fun _ _ _ hinv _ hs => (steps_of_step hs).handlingInv hinv

end Rpc.Connection
