import Mathlib.Data.List.Infix
import Rpc.Native.System
import Rpc.Spec.ClientSteps
import Rpc.Spec.ConnectionSteps
import Rpc.Spec.Framing
import Rpc.Spec.ServerJobs
import Rpc.Spec.WriteQueueCorrect

/-!
# The two streams

What either read loop has taken off its stream is the encoding of the frames it
has delivered, followed by the header it is at (`Consumed`).  What it has taken
off is a prefix of the frames the other party has pushed (`StreamInv`), and
well-formed frames are prefix-free.  So the frames delivered are the first frames
pushed: `StreamInv.prefix_delivered` and `StreamInv.prefix_received`.
-/

namespace Rpc

open Transition

/-! ## Frames taken off a stream -/

/-- A stream of well-formed frames determines them. -/
theorem prefix_of_encode {fs : List Frame} {ls : List Bytes} (hfs : ∀ f ∈ fs, f.WellFormed)
    (hls : ∀ l ∈ ls, ∃ g : Frame, g.WellFormed ∧ g.encode = l)
    (h : (fs.map Frame.encode).flatten <+: ls.flatten) : fs.map Frame.encode <+: ls := by
  induction fs generalizing ls with
  | nil => exact List.nil_prefix
  | cons f fs ih =>
    obtain ⟨rest, hrest⟩ := h
    rw [List.map_cons, List.flatten_cons, List.append_assoc] at hrest
    cases ls with
    | nil =>
      -- a frame has at least 20 bytes
      have hlen := congrArg List.length hrest
      rw [List.length_append, Frame.encode_length, List.flatten_nil, List.length_nil] at hlen
      omega
    | cons l ls =>
      -- two frames in front of one stream are the same frame
      obtain ⟨g, hg, rfl⟩ := hls l List.mem_cons_self
      rw [List.flatten_cons] at hrest
      obtain ⟨rfl, htail⟩ := Frame.encode_inj (hfs f List.mem_cons_self) hg hrest
      have hprefix := ih (fun f hf => hfs f (List.mem_cons_of_mem _ hf))
        (fun l hl => hls l (List.mem_cons_of_mem _ hl)) ⟨rest, htail⟩
      rw [List.map_cons]
      exact List.cons_prefix_cons.mpr ⟨rfl, hprefix⟩

/-- `read` is the encoding of `frames`, followed by `rest`; if `rest` is `none`,
    by anything. -/
structure Consumed (read : Bytes) (frames : List Frame) (rest : Option Bytes) : Prop where
  wellFormed : ∀ f ∈ frames, f.WellFormed
  split : ∃ tail, read = (frames.map Frame.encode).flatten ++ tail ∧ ∀ r ∈ rest, tail = r

/-- The frames delivered are the front of what has been read. -/
theorem Consumed.prefix_read {read : Bytes} {frames : List Frame} {rest : Option Bytes}
    (h : Consumed read frames rest) : (frames.map Frame.encode).flatten <+: read := by
  obtain ⟨tail, hsplit, -⟩ := h.split
  exact ⟨tail, hsplit.symm⟩

/-- The loop stops. -/
theorem Consumed.stop {read : Bytes} {frames : List Frame} {rest : Option Bytes}
    (h : Consumed read frames rest) (data : Bytes) : Consumed (read ++ data) frames none := by
  obtain ⟨tail, hsplit, -⟩ := h.split
  -- what comes after the last frame is not looked at any more
  refine ⟨h.wellFormed, tail ++ data, ?_, nofun⟩
  rw [hsplit, List.append_assoc]

/-- The loop reads a header. -/
theorem Consumed.header {read : Bytes} {frames : List Frame}
    (h : Consumed read frames (some [])) {hdrData : Bytes} {header : RpcHeader}
    (hlen : hdrData.length = 20) (hok : deserializeHeader hdrData = .ok header) :
    Consumed (read ++ hdrData) frames (some (serializeHeader header)) := by
  obtain ⟨tail, hsplit, htail⟩ := h.split
  obtain ⟨header', hok', heq⟩ := deserializeHeader_ok hdrData hlen
  -- 20 bytes are the serialization of the header they parse to
  obtain rfl : header' = header := Except.ok.inj (hok'.symm.trans hok)
  refine ⟨h.wellFormed, hdrData, ?_, ?_⟩
  · rw [hsplit, htail [] rfl, List.append_nil]
  · intro r hr
    rw [heq]
    exact Option.some.inj hr

/-- The loop reads the body that the header announces. -/
theorem Consumed.body {read : Bytes} {frames : List Frame} {header : RpcHeader}
    (h : Consumed read frames (some (serializeHeader header)))
    (hmagic : header.magic = RpcHeader.MAGIC) {body : Bytes}
    (hlen : body.length = header.bodySize.toNat) :
    Consumed (read ++ body) (frames ++ [(header, body)]) (some []) := by
  obtain ⟨tail, hsplit, htail⟩ := h.split
  constructor
  · intro f hf
    obtain hf | hf := List.mem_append.mp hf
    · exact h.wellFormed f hf
    · obtain rfl := List.mem_singleton.mp hf
      exact ⟨hmagic, hlen.symm⟩
  -- the header is still in front of the body, and together they are a frame
  · refine ⟨[], ?_, fun r hr => Option.some.inj hr⟩
    rw [hsplit, htail _ rfl]
    simp [Frame.encode]

/-! ## The server's end -/

namespace Connection

/-- The part of a frame that the read loop has taken off; `none` when it has ended. -/
def Reading.rest : Reading → Option Bytes
  | .idle | .header | .handling .. => some []
  | .body hdr => some (serializeHeader hdr)
  | .ended => none

/-- The bytes a step takes off. -/
def Act.bytes : Act → Bytes
  | .readHeader data | .readBody data => data
  | _ => []

/-- What the read loop has taken off the stream. -/
structure ReadInv (c : Connection) (read : Bytes) : Prop where
  consumed : Consumed read c.delivered c.reading.rest
  magic : ∀ header, c.reading = .body header → header.magic = RpcHeader.MAGIC

/-- A read loop that has not started has taken nothing off. -/
theorem readInv_init : ReadInv init [] :=
  ⟨⟨nofun, [], rfl, fun _ hr => Option.some.inj hr⟩, nofun⟩

/-- A step that takes nothing off and leaves the read loop between the same bytes. -/
theorem ReadInv.of_eq {c c' : Connection} {a : Act} {read : Bytes} (hinv : ReadInv c read)
    (hdel : c'.delivered = c.delivered) (hrest : c'.reading.rest = c.reading.rest)
    (hbody : ∀ hdr, c'.reading = .body hdr → c.reading = .body hdr) (hbytes : a.bytes = []) :
    ReadInv c' (read ++ a.bytes) := by
  rw [hbytes, List.append_nil]
  constructor
  · rw [hdel, hrest]
    exact hinv.consumed
  · exact fun hdr h => hinv.magic hdr (hbody hdr h)

/-- The read loop of a connection takes whole frames off its stream. -/
theorem Steps.readInv {c c' : Connection} {a : Act} {read : Bytes} (h : Steps c a c')
    (hinv : ReadInv c read) : ReadInv c' (read ++ a.bytes) := by
  have hconsumed := hinv.consumed
  cases h with
  | headerRead hdrData header hreading hlen hok hmagic =>
    rw [hreading] at hconsumed
    refine ⟨hconsumed.header hlen hok, ?_⟩
    intro header' heq
    obtain rfl : header = header' := by simpa using heq
    exact hmagic
  | bodyRead header body hreading hlen =>
    rw [hreading] at hconsumed
    exact ⟨hconsumed.body (hinv.magic header hreading) hlen, nofun⟩
  | readEnded a hread =>
    refine ⟨?_, nofun⟩
    show Consumed _ c.closeOnce.delivered none
    rw [closeOnce_delivered]
    exact hconsumed.stop _
  | threw header body hreading => exact ⟨hconsumed.stop _, nofun⟩
  | startRead hreading => exact hinv.of_eq rfl (by rw [hreading]; rfl) nofun rfl
  | handled header body hreading => exact hinv.of_eq rfl (by rw [hreading]; rfl) nofun rfl
  -- a failed write closes the connection, and leaves the read loop
  | writeError data w hw =>
    refine hinv.of_eq ?_ ?_ ?_ rfl
    · exact closeOnce_delivered c
    · show c.closeOnce.reading.rest = _
      rw [closeOnce_reading]
    · intro hdr h
      rw [← h]
      exact (closeOnce_reading c).symm
  | _ => exact hinv.of_eq rfl rfl (fun _ h => h) rfl

end Connection

/-! ## The client's end -/

namespace RpcClient

/-- The part of a frame that the read loop has taken off; `none` when it has ended. -/
def Reading.rest : Reading → Option Bytes
  | .notStarted | .header | .matched .. => some []
  | .body hdr => some (serializeHeader hdr)
  | .ended => none

/-- The bytes a step takes off. -/
def Act.bytes : Act → Bytes
  | .readHeader data | .readBody data => data
  | _ => []

/-- What the read loop has taken off the stream. -/
structure ReadInv (s : RpcClient) (read : Bytes) : Prop where
  consumed : Consumed read s.received s.reading.rest
  magic : ∀ header, s.reading = .body header → header.magic = RpcHeader.MAGIC

/-- A client that has not started has taken nothing off. -/
theorem readInv_init : ReadInv init [] :=
  ⟨⟨nofun, [], rfl, fun _ hr => Option.some.inj hr⟩, nofun⟩

/-- A step that takes nothing off and leaves the read loop between the same bytes. -/
theorem ReadInv.of_eq {s s' : RpcClient} {a : Act} {read : Bytes} (hinv : ReadInv s read)
    (hrec : s'.received = s.received) (hrest : s'.reading.rest = s.reading.rest)
    (hbody : ∀ hdr, s'.reading = .body hdr → s.reading = .body hdr) (hbytes : a.bytes = []) :
    ReadInv s' (read ++ a.bytes) := by
  rw [hbytes, List.append_nil]
  constructor
  · rw [hrec, hrest]
    exact hinv.consumed
  · exact fun hdr h => hinv.magic hdr (hbody hdr h)

/-- The read loop of the client takes whole frames off its stream. -/
theorem Steps.readInv {s s' : RpcClient} {a : Act} {read : Bytes} (h : Steps s a s')
    (hinv : ReadInv s read) : ReadInv s' (read ++ a.bytes) := by
  have hconsumed := hinv.consumed
  cases h with
  | headerRead hdrData header hreading hio hlen hok hmagic =>
    rw [hreading] at hconsumed
    refine ⟨hconsumed.header hlen hok, ?_⟩
    intro header' heq
    obtain rfl : header = header' := by simpa using heq
    exact hmagic
  | bodyRead header body resp hreading hio hlen hok =>
    rw [hreading] at hconsumed
    exact ⟨hconsumed.body (hinv.magic header hreading) hlen, nofun⟩
  | readEnded a reason hio hread hreading => exact ⟨hconsumed.stop _, nofun⟩
  -- what the loop waits for changes, but the stream does not
  | connected hreading hio => exact hinv.of_eq rfl (by rw [hreading]; rfl) nofun rfl
  | setValue header body resp call hreading =>
    exact hinv.of_eq rfl (by rw [hreading]; rfl) nofun rfl
  | _ => exact hinv.of_eq rfl rfl (fun _ h => h) rfl

end RpcClient

/-! ## The streams between them -/

/-- What has been read, and what can be read after a failed write, is a prefix of
    what has been pushed. -/
structure WireInv (w : Wire) (pushed : Bytes) : Prop where
  read : w.read <+: pushed
  cut : ∀ b ∈ w.cut, b <+: pushed

/-- More frames may be pushed. -/
theorem WireInv.mono {w : Wire} {pushed pushed' : Bytes} (h : WireInv w pushed)
    (hpre : pushed <+: pushed') : WireInv w pushed' :=
  ⟨h.read.trans hpre, fun b hb => (h.cut b hb).trans hpre⟩

/-- All that can be read has been pushed. -/
theorem WireInv.available {w : Wire} {pushed written : Bytes} (h : WireInv w pushed)
    (hpre : written <+: pushed) : w.available written <+: pushed := by
  unfold Wire.available
  cases hcut : w.cut with
  | none => exact hpre
  | some b => exact h.cut b hcut

namespace System

/-- The bytes a party takes off its stream. -/
def Traffic.bytes : Traffic → Bytes
  | .read data => data
  | _ => []

/-- What a step of the client reads is what it takes off. -/
theorem clientTraffic_bytes (a : RpcClient.Act) : (clientTraffic a).bytes = a.bytes := by
  cases a <;> rfl

/-- What a step of the connection reads is what it takes off. -/
theorem connTraffic_bytes (a : Connection.Act) : (connTraffic a).bytes = a.bytes := by
  cases a <;> rfl

/-- A step of one party keeps both streams in order. -/
theorem exchange_wireInv {inn out inn' out' : Wire} {theirs ours pushedIn pushedOut : Bytes}
    {traffic : Traffic} (h : exchange inn out theirs ours traffic = some (inn', out'))
    (hin : WireInv inn pushedIn) (hout : WireInv out pushedOut) (htheirs : theirs <+: pushedIn)
    (hours : ours <+: pushedOut) :
    WireInv inn' pushedIn ∧ WireInv out' pushedOut ∧ inn'.read = inn.read ++ traffic.bytes ∧
      out'.read = out.read := by
  cases traffic with
  | quiet =>
    obtain ⟨rfl, rfl⟩ := Prod.mk.inj (Option.some.inj h)
    exact ⟨hin, hout, (List.append_nil _).symm, rfl⟩
  | read data =>
    obtain ⟨w, hw, heq⟩ := Option.map_eq_some_iff.mp h
    obtain ⟨rfl, rfl⟩ := Prod.mk.inj heq
    -- the data are the next bytes of the stream
    simp only [Wire.take] at hw
    split at hw
    · rename_i hpre
      obtain rfl := Option.some.inj hw
      exact ⟨⟨hpre.trans (hin.available htheirs), hin.cut⟩, hout, rfl, rfl⟩
    · cases hw
  | writeDone =>
    simp only [exchange] at h
    split at h
    · obtain ⟨rfl, rfl⟩ := Prod.mk.inj (Option.some.inj h)
      exact ⟨hin, hout, (List.append_nil _).symm, rfl⟩
    · cases h
  | writeError =>
    obtain ⟨rfl, rfl⟩ := Prod.mk.inj (Option.some.inj h)
    refine ⟨hin, ⟨hout.read, ?_⟩, (List.append_nil _).symm, rfl⟩
    intro b hb
    -- the cut is made at what had been written by now
    obtain rfl : out.available ours = b := Option.some.inj hb
    exact hout.available hours

/-- The outcomes of a step of the system. -/
inductive Steps (s : System) : Act → System → Prop where
  | client (a : RpcClient.Act) (client : RpcClient) (up down : Wire)
      (hex : exchange s.down s.up s.downBytes s.upBytes (clientTraffic a) = some (down, up))
      (hc : s.client.step a = some client) : Steps s (.client a) { s with client, up, down }
  | server (a : Server.Act) (server : Server) (up down : Wire)
      (hex : exchange s.up s.down s.upBytes s.downBytes (serverTraffic a) = some (up, down))
      (hs : s.server.step a = some server) : Steps s (.server a) { s with server, up, down }

/-- Every step is one of the client or one of the server. -/
theorem steps_of_step {s s' : System} {a : Act} (h : s.step a = some s') : Steps s a s' := by
  cases a with
  | client a =>
    obtain ⟨⟨down, up⟩, hex, h⟩ := Option.bind_eq_some_iff.mp h
    obtain ⟨client, hc, h⟩ := Option.bind_eq_some_iff.mp h
    obtain rfl := Option.some.inj h
    exact .client a client up down hex hc
  | server a =>
    obtain ⟨⟨up, down⟩, hex, h⟩ := Option.bind_eq_some_iff.mp h
    obtain ⟨server, hs, h⟩ := Option.bind_eq_some_iff.mp h
    obtain rfl := Option.some.inj h
    exact .server a server up down hex hs

section

variable {services : ServiceManager} {threads : Option (UInt64 × UInt32)}
  {ok : System → Act → Prop} {s : System}

/-- The client is that of a run of its own. -/
theorem client_reachable (h : Reaches step ok (init services threads) s) :
    Reachable RpcClient.step RpcClient.init s.client := by
  apply h.project System.client
  intro s a s' _ hs
  cases steps_of_step hs with
  | client a client up down hex hc => exact .inr ⟨a, trivial, hc⟩
  | server => exact .inl rfl

/-- The server is that of a run of its own. -/
theorem server_reachable (h : Reaches step ok (init services threads) s) :
    Reachable Server.step (Server.init services threads) s.server := by
  apply h.project System.server
  intro s a s' _ hs
  cases steps_of_step hs with
  | client => exact .inl rfl
  | server a server up down hex hc => exact .inr ⟨a, trivial, hc⟩

end

/-- The frames the client has pushed. -/
def pushedUp (s : System) : List Bytes := s.client.writes.pushed.map WriteItem.frame

/-- The frames the server has pushed for the client. -/
def pushedDown (s : System) : List Bytes := (s.server.conns 0).writes.pushed

/-- What each party has read is what the other has pushed, from the start. -/
structure StreamInv (s : System) : Prop where
  up : WireInv s.up s.pushedUp.flatten
  down : WireInv s.down s.pushedDown.flatten
  delivered : Connection.ReadInv (s.server.conns 0) s.up.read
  received : RpcClient.ReadInv s.client s.down.read

/-- A step of the server is a step of connection 0 that takes off the same bytes,
    or leaves that connection alone. -/
theorem conn_bytes {s s' : Server} {a : Server.Act} (h : Server.Steps s a s') :
    (s'.conns 0 = s.conns 0 ∧ (serverTraffic a).bytes = []) ∨
      ∃ b, (s.conns 0).step b = some (s'.conns 0) ∧ b.bytes = (serverTraffic a).bytes := by
  -- a step of connection `k` that takes nothing off
  have hset : ∀ (k : Nat) (b : Connection.Act) (c : Connection), (s.conns k).step b = some c →
      s'.conns = Function.update s.conns k c → b.bytes = [] → (serverTraffic a).bytes = [] →
      (s'.conns 0 = s.conns 0 ∧ (serverTraffic a).bytes = []) ∨
        ∃ b, (s.conns 0).step b = some (s'.conns 0) ∧ b.bytes = (serverTraffic a).bytes := by
    intro k b c hc hconns hbytes htraffic
    by_cases hk : k = 0
    · subst hk
      right
      refine ⟨b, ?_, hbytes.trans htraffic.symm⟩
      rw [hconns, Function.update_self, hc]
    · left
      refine ⟨?_, htraffic⟩
      rw [hconns, Function.update_of_ne (Ne.symm hk)]
  cases h with
  | conn k b c hown hidle hc =>
    cases k with
    | zero =>
      right
      refine ⟨b, ?_, (connTraffic_bytes b).symm⟩
      show _ = some (Function.update s.conns 0 c 0)
      rw [Function.update_self, hc]
    | succ k =>
      left
      refine ⟨?_, rfl⟩
      show Function.update s.conns (k + 1) c 0 = s.conns 0
      rw [Function.update_of_ne (by omega)]
  -- these steps close the connection, or put a frame into its queue
  | refuse k job pool c hcur hnew hpool hstop hc => exact hset _ _ c hc rfl rfl rfl
  | leave k job c hcur hhandled hc => exact hset _ _ c hc rfl rfl rfl
  | escapeInline n inv fault c hn hp hthread hfault hc => exact hset _ _ c hc rfl rfl rfl
  | send n inv services resp c hn hp hc => exact hset _ _ c hc rfl rfl rfl
  | services a services ha =>
    obtain ⟨service, rfl⟩ | ⟨name, rfl⟩ := ha <;> exact .inl ⟨rfl, rfl⟩
  | submit | inline | pool | activate | finish | respond | escapeTask | done =>
    exact .inl ⟨rfl, rfl⟩

/-- Every step keeps the streams in order. -/
theorem Steps.streamInv {s s' : System} {a : Act} (h : Steps s a s')
    (hclient : RpcClient.WritesInv s.client) (hserver : Connection.WritesInv (s.server.conns 0))
    (hinv : StreamInv s) : StreamInv s' := by
  -- what is on the wire has been pushed, in that order
  have hup : s.upBytes <+: s.pushedUp.flatten :=
    List.IsPrefix.flatten (hclient.chain.prefix_started.map _)
  have hdown : s.downBytes <+: s.pushedDown.flatten :=
    List.IsPrefix.flatten hserver.chain.prefix_started
  cases h with
  | client a client up down hex hc =>
    have hstep := RpcClient.steps_of_step hc
    obtain ⟨hdownInv, hupInv, hread, hkeep⟩ := exchange_wireInv hex hinv.down hinv.up hdown hup
    constructor
    -- the client may have pushed another frame
    · exact hupInv.mono (List.IsPrefix.flatten (hstep.prefix_pushed.map _))
    · exact hdownInv
    · show Connection.ReadInv (s.server.conns 0) up.read
      rw [hkeep]
      exact hinv.delivered
    · show RpcClient.ReadInv client down.read
      rw [hread, clientTraffic_bytes]
      exact hstep.readInv hinv.received
  | server a server up down hex hs =>
    obtain ⟨hupInv, hdownInv, hread, hkeep⟩ := exchange_wireInv hex hinv.up hinv.down hup hdown
    constructor
    · exact hupInv
    -- the server may have pushed another frame for the client
    · apply hdownInv.mono
      obtain ⟨heq, -⟩ | ⟨b, hb, -⟩ := conn_bytes (Server.steps_of_step hs)
      · show _ <+: (server.conns 0).writes.pushed.flatten
        rw [heq]
        exact List.prefix_rfl
      · exact List.IsPrefix.flatten (Connection.steps_of_step hb).prefix_pushed
    · show Connection.ReadInv (server.conns 0) up.read
      rw [hread]
      obtain ⟨heq, hbytes⟩ | ⟨b, hb, hbytes⟩ := conn_bytes (Server.steps_of_step hs)
      · rw [heq, hbytes, List.append_nil]
        exact hinv.delivered
      · rw [← hbytes]
        exact (Connection.steps_of_step hb).readInv hinv.delivered
    · show RpcClient.ReadInv s.client down.read
      rw [hkeep]
      exact hinv.received

/-- The streams are in order in every state of a run. -/
theorem streamInv_of_reaches {services : ServiceManager} {threads : Option (UInt64 × UInt32)}
    {ok : System → Act → Prop} {s : System} (h : Reaches step ok (init services threads) s) :
    StreamInv s := by
  apply h.invariant_with
    (I := fun s => RpcClient.WritesInv s.client ∧ Connection.WritesInv (s.server.conns 0))
  · intro s hs
    exact ⟨RpcClient.writesInv_of_reachable (client_reachable hs),
      Connection.writesInv_of_reachable (Server.conn_reachable (server_reachable hs) 0)⟩
  · exact ⟨⟨List.nil_prefix, nofun⟩, ⟨List.nil_prefix, nofun⟩, Connection.readInv_init,
      RpcClient.readInv_init⟩
  · rintro s a s' ⟨hclient, hserver⟩ hinv _ hs
    exact (steps_of_step hs).streamInv hclient hserver hinv

/-- The messages delivered to the server are the first frames of the client. -/
theorem StreamInv.prefix_delivered {s : System} (hinv : StreamInv s)
    (hframes : ∀ l ∈ s.pushedUp, ∃ g : Frame, g.WellFormed ∧ g.encode = l) :
    (s.server.conns 0).delivered.map Frame.encode <+: s.pushedUp :=
  prefix_of_encode hinv.delivered.consumed.wellFormed hframes
    (hinv.delivered.consumed.prefix_read.trans hinv.up.read)

/-- The frames the client has received are the first ones of the server. -/
theorem StreamInv.prefix_received {s : System} (hinv : StreamInv s)
    (hframes : ∀ l ∈ s.pushedDown, ∃ g : Frame, g.WellFormed ∧ g.encode = l) :
    s.client.received.map Frame.encode <+: s.pushedDown :=
  prefix_of_encode hinv.received.consumed.wellFormed hframes
    (hinv.received.consumed.prefix_read.trans hinv.down.read)

end System

end Rpc
