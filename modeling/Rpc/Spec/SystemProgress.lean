import Rpc.Spec.CalmRuns

/-!
# Every call is answered

In a calm run, the steps that take a message further (`moves`) do not stop before
every call has its response: in a state in which none of them is left (`Quiet`),
both write queues are empty, both streams are read, the server is settled, and
the responses have found their calls.
-/

namespace Rpc

open Transition

/-! ## What is left on a stream -/

/-- A read loop that has not had all frames finds the next part of one. -/
theorem Consumed.next {read : Bytes} {frames : List Frame} {rest : Option Bytes}
    {ls : List Bytes} (h : Consumed read frames rest)
    (hls : ∀ l ∈ ls, ∃ g : Frame, g.WellFormed ∧ g.encode = l) (hread : read <+: ls.flatten)
    (hmore : frames.map Frame.encode ≠ ls) :
    (rest = some [] → ∃ header, read ++ serializeHeader header <+: ls.flatten) ∧
      ∀ header, rest = some (serializeHeader header) →
        ∃ body, body.length = header.bodySize.toNat ∧ read ++ body <+: ls.flatten := by
  obtain ⟨tail, rfl, htail⟩ := h.split
  obtain ⟨ls', rfl⟩ := prefix_of_encode h.wellFormed hls ((List.prefix_append _ _).trans hread)
  cases ls' with
  | nil => exact absurd (List.append_nil _).symm hmore
  | cons l ls' =>
    obtain ⟨g, hg, rfl⟩ := hls l (List.mem_append_right _ List.mem_cons_self)
    rw [List.flatten_append, List.flatten_cons, Frame.encode] at hread ⊢
    constructor
    · intro hrest
      rw [htail [] hrest, List.append_nil]
      refine ⟨g.1, (List.prefix_append_right_inj _).mpr ?_⟩
      rw [List.append_assoc]
      exact List.prefix_append _ _
    · intro header hrest
      rw [htail _ hrest] at hread ⊢
      -- the header read is that of the next frame
      obtain ⟨more, heq⟩ := (List.prefix_append_right_inj _).mp hread
      rw [List.append_assoc] at heq
      obtain ⟨rfl, -⟩ := Frame.header_inj heq
      refine ⟨g.2, hg.2.symm, ?_⟩
      rw [List.append_assoc]
      exact (List.prefix_append_right_inj _).mpr (List.prefix_append _ _)

namespace System

/-- The steps that take a message further.  A new call, a failure and a shutdown
    do not, and neither do the networks of other clients. -/
def moves : Act → Bool
  | .client (.call ..) => false
  | .client a => RpcClient.calm a
  | .server (.conn 0 a) =>
    match a with
    | .startRead | .readHeader _ | .readBody _ | .writeDone _ => true
    | .push .. | .pop _ | .startWrite .. => true
    | _ => false
  | .server a => Server.driven a

/-- No step is left that takes a message further. -/
def Quiet (s : System) : Prop := ∀ a, moves a = true → s.step a = none

/-- A step of the client that does not touch the streams. -/
theorem step_client {s : System} {a : RpcClient.Act} (hquiet : clientTraffic a = .quiet) :
    s.step (.client a) = (s.client.step a).map fun client => { s with client } := by
  simp only [step, hquiet, exchange, Option.bind_eq_bind, Option.bind_some]
  cases s.client.step a <;> rfl

/-- A step that reads and writes nothing is a step of the server alone. -/
theorem step_server {s : System} {a : Server.Act} (hquiet : serverTraffic a = .quiet) :
    s.step (.server a) = (s.server.step a).map fun server => { s with server } := by
  simp only [step, hquiet, exchange, Option.bind_eq_bind, Option.bind_some]
  cases s.server.step a <;> rfl

/-- What the client could do without the network is not left. -/
theorem Quiet.client {s : System} (h : Quiet s) {a : RpcClient.Act}
    (hmoves : moves (.client a) = true) (hquiet : clientTraffic a = .quiet) :
    s.client.step a = none := by
  have hstep := h _ hmoves
  rw [step_client hquiet] at hstep
  exact Option.map_eq_none_iff.mp hstep

/-- The server has no step of its own left. -/
theorem Quiet.settled {s : System} (h : Quiet s) : Server.Settled s.server := by
  intro a hdriven
  have hmoves : moves (.server a) = true ∧ serverTraffic a = .quiet := by
    cases a with
    | conn k b =>
      cases k with
      | zero => cases b <;> first | exact ⟨rfl, rfl⟩ | cases hdriven
      | succ k => exact ⟨hdriven, rfl⟩
    | _ => exact ⟨hdriven, rfl⟩
  have hstep := h _ hmoves.1
  rw [step_server hmoves.2] at hstep
  exact Option.map_eq_none_iff.mp hstep

section

variable {services : ServiceManager} {threads : Option (UInt64 × UInt32)} {s : System}

/-- The io thread of the server is not inside of `on_message_`. -/
theorem Quiet.ioIdle (hq : Quiet s) (h : Reaches step Calm (init services threads) s) :
    s.server.ioIdle = true := by
  have hcalm := (calmInv_of_reaches h).server
  have hadmitted : ∀ id, (id, true) ∉ s.server.entered := by
    intro id hid
    cases hcalm.accepted _ hid
  have hnone := hq.settled.inMessage (server_reachable h) hadmitted hcalm.threw
  simp [Server.ioIdle, hcalm.alive, hnone]

/-- The client's connection has no step left that its streams allow. -/
theorem Quiet.conn (hq : Quiet s) (hidle : s.server.ioIdle = true) {b : Connection.Act}
    {up down : Wire} (hmoves : moves (.server (.conn 0 b)) = true)
    (hex : exchange s.up s.down s.upBytes s.downBytes (connTraffic b) = some (up, down)) :
    (s.server.conns 0).step b = none := by
  have hown : Server.ownAct b = true := by
    cases b <;> first | rfl | cases hmoves
  have hstep := hq _ hmoves
  cases hc : (s.server.conns 0).step b with
  | none => rfl
  | some c => simp [step, serverTraffic, hex, Server.step, hown, hidle, hc] at hstep

/-- At the end of a calm run the client has written all its frames. -/
theorem Quiet.written_up (hq : Quiet s) (h : Reaches step Calm (init services threads) s) :
    s.client.writes.started = s.client.writes.pushed := by
  have hcalm := calmInv_of_reaches h
  have hwrites := RpcClient.writesInv_of_reachable (client_reachable h)
  apply hwrites.chain.started_eq hwrites.whole
  -- every thread in the write path could go on
  · apply WriteChain.threads_eq_nil
    · exact fun t => Option.map_eq_none_iff.mp (hq.client (a := .pop t) rfl rfl)
    · exact fun t f => Option.map_eq_none_iff.mp (hq.client (a := .startWrite t f) rfl rfl)
  -- a write in flight could complete
  · apply List.eq_nil_iff_forall_not_mem.mpr
    intro item hitem
    obtain ⟨w, hw, -⟩ := WriteChain.complete_of_mem none hitem
    have hstep := hq (.client (.writeDone item)) rfl
    simp [step, clientTraffic, exchange, hcalm.up, RpcClient.step, hcalm.client.ioStopped, hw]
      at hstep

/-- At the end of a calm run the server has written all the frames for the client. -/
theorem Quiet.written_down (hq : Quiet s) (h : Reaches step Calm (init services threads) s) :
    (s.server.conns 0).writes.started = s.pushedDown := by
  have hcalm := calmInv_of_reaches h
  have hwrites :=
    Connection.writesInv_of_reachable (Server.conn_reachable (server_reachable h) 0)
  apply hwrites.chain.started_eq (hwrites.whole hcalm.server.opened)
  -- every thread in the write path could go on
  · apply WriteChain.threads_eq_nil
    · exact fun t => Option.map_eq_none_iff.mp (hq.settled.conn 0 (.pop t) rfl)
    · exact fun t f => Option.map_eq_none_iff.mp (hq.settled.conn 0 (.startWrite t f) rfl)
  -- a write in flight could complete
  · apply List.eq_nil_iff_forall_not_mem.mpr
    intro data hdata
    obtain ⟨w, hw, -⟩ := WriteChain.complete_of_mem none hdata
    have hex : exchange s.up s.down s.upBytes s.downBytes .writeDone = some (s.up, s.down) := by
      rw [exchange, if_pos hcalm.down]
    have hnone := hq.conn (hq.ioIdle h) (b := .writeDone data) rfl hex
    simp [Connection.step, hw] at hnone

/-- What can be read next is read. -/
theorem exchange_read {inn out : Wire} {theirs ours data : Bytes} (hcut : inn.cut = none)
    (hpre : inn.read ++ data <+: theirs) :
    exchange inn out theirs ours (.read data) =
      some ({ inn with read := inn.read ++ data }, out) := by
  have hpre : inn.read ++ data <+: inn.available theirs := by
    rw [Wire.available, hcut]
    exact hpre
  simp only [exchange, Wire.take, if_pos hpre, Option.map_some]

/-- At the end of a calm run the server has read all requests. -/
theorem Quiet.delivered (hq : Quiet s) (h : Reaches step Calm (init services threads) s) :
    (s.server.conns 0).delivered.map Frame.encode = s.pushedUp := by
  have hcalm := calmInv_of_reaches h
  have hidle := hq.ioIdle h
  have hstream := streamInv_of_reaches h
  have hbytes : s.upBytes = s.pushedUp.flatten := by
    rw [upBytes, hq.written_up h, pushedUp]
  -- otherwise there is more in the stream, and the read loop could take it
  by_contra hmore
  obtain ⟨hheader, hbody⟩ := hstream.delivered.consumed.next
    (pushedUp_wellFormed (withinLimits_of_calm h)) hstream.up.read hmore
  cases hreading : (s.server.conns 0).reading with
  | idle =>
    have hnone := hq.conn hidle (b := .startRead) rfl rfl
    simp [Connection.step, hreading] at hnone
  | header =>
    obtain ⟨header, hpre⟩ := hheader (by rw [hreading]; rfl)
    rw [← hbytes] at hpre
    have hnone := hq.conn hidle (b := .readHeader (serializeHeader header)) rfl
      (exchange_read hcalm.up hpre)
    simp [Connection.step, hreading] at hnone
  | body header =>
    obtain ⟨body, hlen, hpre⟩ := hbody header (by rw [hreading]; rfl)
    rw [← hbytes] at hpre
    have hnone := hq.conn hidle (b := .readBody body) rfl (exchange_read hcalm.up hpre)
    simp [Connection.step, hreading, hlen] at hnone
  | handling header body =>
    -- the io thread would be inside of `on_message_`
    have hcur := (Server.flowInv_of_reachable (server_reachable h)).1.current_of_ioIdle hidle 0
    simp [Server.current, hreading] at hcur
  | ended => exact hcalm.server.loop hreading

/-- At the end of a calm run the client has read all responses. -/
theorem Quiet.received (hq : Quiet s) (h : Reaches step Calm (init services threads) s) :
    s.client.received.map Frame.encode = s.pushedDown := by
  have hcalm := calmInv_of_reaches h
  have hstream := streamInv_of_reaches h
  have hbytes : s.downBytes = s.pushedDown.flatten := by
    rw [downBytes, hq.written_down h]
  -- otherwise there is more in the stream, and the read loop could take it
  by_contra hmore
  obtain ⟨hheader, hbody⟩ := hstream.received.consumed.next
    (pushedDown_wellFormed (withinLimits_of_calm h)) hstream.down.read hmore
  cases hreading : s.client.reading with
  | notStarted =>
    have hnone := hq.client (a := .connected) rfl rfl
    simp [RpcClient.step, hreading, hcalm.client.ioStopped] at hnone
  | header =>
    obtain ⟨header, hpre⟩ := hheader (by rw [hreading]; rfl)
    rw [← hbytes] at hpre
    have hstep := hq (.client (.readHeader (serializeHeader header))) rfl
    simp [step, clientTraffic, exchange_read hcalm.down hpre, RpcClient.step, hreading,
      hcalm.client.ioStopped] at hstep
  | body header =>
    obtain ⟨body, hlen, hpre⟩ := hbody header (by rw [hreading]; rfl)
    rw [← hbytes] at hpre
    have hstep := hq (.client (.readBody body)) rfl
    simp [step, clientTraffic, exchange_read hcalm.down hpre, RpcClient.step, hreading,
      hcalm.client.ioStopped, hlen] at hstep
  | matched header body resp call =>
    have hnone := hq.client (a := .setValue) rfl rfl
    simp [RpcClient.step, hreading] at hnone
  | ended => exact hcalm.client.loop hreading

/-- Every call has put its frame into the write queue. -/
theorem Quiet.enqueued (hq : Quiet s) {c : Nat} {call : Call}
    (hcall : s.client.calls[c]? = some call) : call.phase = .enqueued := by
  cases hphase : call.phase with
  | allocated =>
    have hnone := hq.client (a := .register c) rfl rfl
    simp [RpcClient.step, hcall, hphase] at hnone
  | registered =>
    have hnone := hq.client (a := .enqueue c) rfl rfl
    simp [RpcClient.step, hcall, hphase] at hnone
  | enqueued => rfl

/-- The server has sent a response for every message of the client. -/
theorem Quiet.sent (hq : Quiet s) (h : Reaches step Calm (init services threads) s) {j : Nat}
    {header : RpcHeader} {body : Bytes}
    (hm : (s.server.conns 0).delivered[j]? = some (header, body)) :
    ∃ x ∈ s.server.sends, x.conn = 0 ∧ x.header.seqId = header.seqId := by
  have hcalm := (calmInv_of_reaches h).server
  have hreach := server_reachable h
  obtain ⟨hflow, hinvoke⟩ := Server.flowInv_of_reachable hreach
  have hstopped : ((0, j), true) ∉ s.server.entered := fun hmem => by
    cases hcalm.accepted _ hmem
  -- an invocation that is over has returned
  have hreturned : ∀ inv ∈ s.server.invocations, inv.progress.isReturned = true := by
    intro inv hmem
    have hover := hq.settled.invocations hflow hinvoke (Server.jobInv_of_reachable hreach) hmem
    cases hp : inv.progress with
    | returned services resp => rfl
    | escaped services => exact absurd ⟨services, hp⟩ (hcalm.escaped inv hmem)
    | processing | responding services resp | sending services resp =>
      rw [hp] at hover
      cases hover
  have hanswered := Server.answered_of_answerable hreach hq.settled hm
    (Server.answerable_of_returned hreach hm hstopped hreturned)
  obtain ⟨⟨x, hx, hconn, hseq⟩, -⟩ := hanswered
  have hmem : x ∈ s.server.sends.filter fun x => x.id = (0, j) := hx ▸ List.mem_singleton.mpr rfl
  exact ⟨x, (List.mem_filter.mp hmem).1, hconn, hseq⟩

/-- What the server has sent to the client, the client has received. -/
theorem Quiet.arrived (hq : Quiet s) (h : Reaches step Calm (init services threads) s)
    {x : Server.Send} (hx : x ∈ s.server.sends) (hconn : x.conn = 0) :
    ∃ f ∈ s.client.received, f.1.seqId = x.header.seqId := by
  -- nobody is inside of `send` any more
  have hpushed : Connection.frame x.header x.body ∈ s.pushedDown := by
    obtain ⟨t, hmem⟩ | hmem :=
      Connection.mem_frames.mp ((calmInv_of_reaches h).server.sent x hx hconn)
    · have hout := hq.settled.outsideSend 0 t
      simp only [Server.outsideSend, Bool.and_eq_true, List.all_eq_true] at hout
      exact absurd rfl (of_decide_eq_true (hout.1 _ hmem))
    · exact hmem
  rw [← hq.received h] at hpushed
  obtain ⟨f, hf, heq⟩ := List.mem_map.mp hpushed
  obtain ⟨hheader, -⟩ := Frame.header_inj heq
  exact ⟨f, hf, congrArg RpcHeader.seqId hheader⟩

/-- A call whose response has been received is completed. -/
theorem Quiet.completed (hq : Quiet s) (h : Reaches step Calm (init services threads) s) {c : Nat}
    {call : Call} (hcall : s.client.calls[c]? = some call) {f : Frame}
    (hf : f ∈ s.client.received) (hseq : f.1.seqId = call.seqId) :
    ∃ k ∈ s.client.completions, k.call = c := by
  have hcalm := (calmInv_of_reaches h).client
  have hphase : call.phase ≠ .allocated := by simp [hq.enqueued hcall]
  obtain hpending | ⟨header, body, resp, hreading⟩ | hdone | hdropped :=
    (RpcClient.accountInv_of_reachable (client_reachable h)).accounted call.seqId c
      ⟨call, hcall, rfl, hphase⟩
  · -- its place in `pending_` is free
    rw [← hseq, hcalm.cleared f hf] at hpending
    cases hpending
  · have hnone := hq.client (a := .setValue) rfl rfl
    simp [RpcClient.step, hreading] at hnone
  · exact List.mem_map.mp hdone
  · rw [hcalm.dropped] at hdropped
    cases hdropped

/-- Every call has been completed with the response to its own request. -/
theorem Quiet.answered (hq : Quiet s) (h : Reaches step Calm (init services threads) s) {c : Nat}
    {call : Call} (hcall : s.client.calls[c]? = some call) :
    ∃ k ∈ s.client.completions, k.call = c ∧ ∃ inv ∈ s.server.invocations,
      Serves inv call ∧ Outcome inv k.resp := by
  have hlimits := withinLimits_of_calm h
  have hcalm := (calmInv_of_reaches h).client
  -- the request has been delivered ...
  obtain ⟨item, hitem, rfl⟩ := List.mem_map.mp (hcalm.pushed c call hcall (hq.enqueued hcall))
  obtain ⟨call', hcall', -, hframe⟩ :=
    (RpcClient.callInv_of_reachable (client_reachable h)).pushed item hitem
  obtain rfl : call = call' := Option.some.inj (hcall.symm.trans hcall')
  have hup : item.frame ∈ s.pushedUp := List.mem_map_of_mem hitem
  rw [← hq.delivered h, hframe] at hup
  obtain ⟨⟨header, body⟩, hdel, heq⟩ := List.mem_map.mp hup
  obtain ⟨rfl, -⟩ := Frame.header_inj heq
  obtain ⟨j, hj⟩ := List.mem_iff_getElem?.mp hdel
  -- ... and answered, and the response has found its call
  obtain ⟨x, hx, hconn, hxseq⟩ := hq.sent h hj
  obtain ⟨f, hf, hfseq⟩ := hq.arrived h hx hconn
  obtain ⟨k, hk, hkcall⟩ := hq.completed h hcall hf (hfseq.trans hxseq)
  have horigin : ∃ header body, k.origin = .frame header body := by
    cases ho : k.origin with
    | frame header body => exact ⟨header, body, rfl⟩
    | writeFailed | rejected => exact absurd (by rw [Completion.answer, ho]) (hcalm.answered k hk)
  obtain ⟨header, body, horigin⟩ := horigin
  obtain ⟨call', hcall', inv, hmem, hserves, houtcome, -⟩ :=
    completion_response hlimits hk horigin
  rw [hkcall, hcall] at hcall'
  obtain rfl := Option.some.inj hcall'
  exact ⟨k, hk, hkcall, inv, hmem, hserves, houtcome⟩

end

end System

end Rpc
