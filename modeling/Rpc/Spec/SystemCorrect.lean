import Rpc.Spec.CallCorrect
import Rpc.Spec.PromiseCorrect
import Rpc.Spec.ServerCorrect
import Rpc.Spec.StreamCorrect

/-!
# Every response is the call's own

A response travels through five stages: the client's write queue, the stream to
the server, the invocation of `on_message`, the stream back, and `pending_`.  At
each of them the invariants of the stage say where it came from; put together,
the response in the future of a call is what `process_request` made of that call's
request (`response_matches_call`).

The limits of the wire format are assumed of every step (`WithinLimits`): fewer
than `2 ^ 32` calls, names and error messages of at most 65535 bytes, bodies of
fewer than `2 ^ 32` bytes.
-/

namespace Rpc

open Transition

/-! ## The limits -/

/-- The error message fits a 16-bit length, the body a 32-bit length. -/
def RpcResponse.Small (r : RpcResponse) : Prop :=
  r.errorMsg.length ≤ 65535 ∧ r.serialize.length < 2 ^ 32

instance (r : RpcResponse) : Decidable r.Small := inferInstanceAs (Decidable (_ ∧ _))

/-- A small response decodes to itself. -/
theorem RpcResponse.Small.decodes {r : RpcResponse} (h : r.Small) :
    RpcResponse.deserialize r.serialize = .ok r := by
  obtain ⟨hmsg, hbody⟩ := h
  rw [RpcResponse.serialize_length] at hbody
  exact RpcResponse.exactParser.roundTrip r ⟨hmsg, by omega⟩

/-- What the server sends for a small response is a well-formed frame. -/
theorem sendResponse_wellFormed {resp : RpcResponse} (reqHeader : RpcHeader) (h : resp.Small) :
    Frame.WellFormed (sendResponse reqHeader resp) :=
  ⟨rfl, UInt32.toNat_ofNat_of_lt' h.2⟩

namespace Server

/-- The response an invocation's `process_request` returned. -/
def Progress.resp : Progress → Option RpcResponse
  | .responding _ resp | .sending _ resp | .returned _ resp => some resp
  | .processing | .escaped _ => none

/-- The response to the client, if there is one, is within the limits. -/
def Invocation.Small (inv : Invocation) : Prop :=
  inv.job.conn = 0 → ∀ resp ∈ inv.progress.resp, resp.Small

end Server

namespace System

/-- The step stays within the limits of the wire format. -/
def WithinLimits (s : System) : Act → Prop
  | .client (.call service method params timeoutMs) =>
    s.client.calls.length + 1 < 2 ^ 32 ∧
      RpcRequest.Small { serviceName := service, methodName := method, timeoutMs, params }
  | .server (.process n) =>
    ∀ inv ∈ s.server.invocations[n]?, inv.job.conn = 0 →
      ∀ resp ∈ (processRequest s.server.services inv.job.header inv.job.body).toOption, resp.Small
  | _ => True

instance (s : System) : (a : Act) → Decidable (WithinLimits s a)
  | .client (.call ..) => inferInstanceAs (Decidable (_ ∧ _))
  | .server (.process n) => inferInstanceAs (Decidable (∀ inv ∈ s.server.invocations[n]?,
      inv.job.conn = 0 → ∀ resp ∈ (processRequest s.server.services inv.job.header
        inv.job.body).toOption, resp.Small))
  | .client (.register _) | .client (.enqueue _) | .client .connected | .client (.readHeader _)
  | .client (.readBody _) | .client (.readError _) | .client .setValue | .client (.pop _)
  | .client (.startWrite ..) | .client (.writeDone _) | .client (.writeError ..)
  | .client .stopIo | .client .joinIo | .server (.conn ..) | .server (.enter _)
  | .server (.leave _) | .server (.pool _) | .server (.activate _) | .server (.finish _)
  | .server (.send _) | .server (.done _) | .server (.register _) | .server (.unregister _) =>
    isTrue trivial

/-- Everything is within the limits. -/
structure LimitInv (s : System) : Prop where
  calls : s.client.calls.length < 2 ^ 32
  requests : ∀ call ∈ s.client.calls, call.request.Small
  responses : ∀ inv ∈ s.server.invocations, inv.Small

/-- A call that moves on keeps its request. -/
theorem small_setPhase {c : RpcClient} {n : Nat} {call : Call} {phase : CallPhase}
    (hcall : c.calls[n]? = some call) (h : ∀ call ∈ c.calls, call.request.Small) :
    ∀ call' ∈ c.setPhase n call phase, call'.request.Small := by
  intro call' hmem
  obtain hmem | rfl := List.mem_or_eq_of_mem_set hmem
  · exact h call' hmem
  · exact h call (List.mem_of_getElem? hcall)

/-- An invocation that moves on. -/
theorem small_setProgress {s : Server} {n : Nat} {inv : Server.Invocation}
    {progress : Server.Progress} (h : ∀ inv ∈ s.invocations, inv.Small)
    (hnew : inv.job.conn = 0 → ∀ resp ∈ progress.resp, resp.Small) :
    ∀ inv' ∈ s.setProgress n inv progress, inv'.Small := by
  intro inv' hmem
  obtain hmem | rfl := List.mem_or_eq_of_mem_set hmem
  · exact h inv' hmem
  · exact hnew

/-- A step of the client within the limits keeps them. -/
theorem limitInv_client {s : System} {a : RpcClient.Act} {client : RpcClient} {up down : Wire}
    (hinv : LimitInv s) (hok : WithinLimits s (.client a)) (hc : s.client.step a = some client) :
    LimitInv { s with client, up, down } := by
  -- moving a call on makes no new one
  have hlen : ∀ (n : Nat) (call : Call) (phase : CallPhase),
      (s.client.setPhase n call phase).length < 2 ^ 32 := by
    intro n call phase
    rw [RpcClient.setPhase, List.length_set]
    exact hinv.calls
  cases RpcClient.steps_of_step hc with
  | call service method params timeoutMs =>
    obtain ⟨hlen, hsmall⟩ := hok
    refine ⟨?_, ?_, hinv.responses⟩
    · show (s.client.calls ++ [_]).length < 2 ^ 32
      rw [List.length_append, List.length_singleton]
      exact hlen
    · intro call hmem
      obtain hmem | hmem := List.mem_append.mp hmem
      · exact hinv.requests call hmem
      · obtain rfl := List.mem_singleton.mp hmem
        exact hsmall
  | register c call hcall hphase =>
    exact ⟨hlen c call _, small_setPhase hcall hinv.requests, hinv.responses⟩
  | enqueue c call hcall hphase =>
    exact ⟨hlen c call _, small_setPhase hcall hinv.requests, hinv.responses⟩
  | _ => exact ⟨hinv.calls, hinv.requests, hinv.responses⟩

/-- A step of the server within the limits keeps them. -/
theorem limitInv_server {s : System} {a : Server.Act} {server : Server} {up down : Wire}
    (hinv : LimitInv s) (hok : WithinLimits s (.server a)) (hs : s.server.step a = some server) :
    LimitInv { s with server, up, down } := by
  refine ⟨hinv.calls, hinv.requests, ?_⟩
  -- a new invocation has no response yet
  have hstart : ∀ (thread : ThreadId) (job : Job), ∀ inv ∈ s.server.invocations ++
      [{ thread, job, progress := .processing }], inv.Small := by
    intro thread job inv hmem
    obtain hmem | hmem := List.mem_append.mp hmem
    · exact hinv.responses inv hmem
    · obtain rfl := List.mem_singleton.mp hmem
      exact fun _ => nofun
  cases Server.steps_of_step hs with
  | inline k job hcur hnew hpool => exact hstart none job
  | activate i pool pool' task hpool hw hstep => exact hstart (some i) task.job
  | respond n inv resp hn hp hresp =>
    apply small_setProgress hinv.responses
    intro hconn resp' hresp'
    obtain rfl : resp = resp' := Option.some.inj hresp'
    -- the limit is checked on the response `process_request` has just computed
    exact hok inv hn hconn resp (by rw [hresp]; rfl)
  | escapeTask n inv fault hn hp hthread hfault =>
    exact small_setProgress hinv.responses fun _ => nofun
  | escapeInline n inv fault c hn hp hthread hfault hc =>
    exact small_setProgress hinv.responses fun _ => nofun
  | send n inv services resp c hn hp hc =>
    have hold := hinv.responses inv (List.mem_of_getElem? hn)
    rw [Server.Invocation.Small, hp] at hold
    exact small_setProgress hinv.responses hold
  | done n inv services resp hn hp hout =>
    have hold := hinv.responses inv (List.mem_of_getElem? hn)
    rw [Server.Invocation.Small, hp] at hold
    exact small_setProgress hinv.responses hold
  | _ => exact hinv.responses

/-- In a run within the limits, all calls and responses are. -/
theorem limitInv_of_reaches {services : ServiceManager} {threads : Option (UInt64 × UInt32)}
    {s : System} (h : Reaches step WithinLimits (init services threads) s) : LimitInv s := by
  apply h.invariant
  · exact ⟨Nat.two_pow_pos 32, nofun, nofun⟩
  · intro s a s' hinv hok hs
    cases steps_of_step hs with
    | client a client up down hex hc => exact limitInv_client hinv hok hc
    | server a server up down hex hserver => exact limitInv_server hinv hok hserver

/-! ## Requests -/

/-- The invocation was given the request of `call`, and it decodes to what the
    caller asked for. -/
structure Serves (inv : Server.Invocation) (call : Call) : Prop where
  conn : inv.job.conn = 0
  header : inv.job.header = call.header
  body : inv.job.body = call.request.serialize
  decodes : RpcRequest.deserialize inv.job.body = .ok call.request

/-- `process_request` returned `resp` for the invocation's message, with the
    services registered at that time. -/
def Outcome (inv : Server.Invocation) (resp : RpcResponse) : Prop :=
  ∃ services, inv.progress.services = some services ∧
    processRequest services inv.job.header inv.job.body = .ok resp

section

variable {services : ServiceManager} {threads : Option (UInt64 × UInt32)} {s : System}

/-- Message `j` of the client's connection is the `j`-th frame the client pushed. -/
theorem delivered_call (h : Reaches step WithinLimits (init services threads) s) {j : Nat}
    {header : RpcHeader} {body : Bytes}
    (hm : (s.server.conns 0).delivered[j]? = some (header, body)) :
    ∃ item call, s.client.writes.pushed[j]? = some item ∧
      s.client.calls[item.call]? = some call ∧ header = call.header ∧
      body = call.request.serialize := by
  have hlimits := limitInv_of_reaches h
  have hcalls := RpcClient.callInv_of_reachable (client_reachable h)
  have hstream := streamInv_of_reaches h
  -- every entry of the queue is the well-formed frame of a call
  have hframe : ∀ item ∈ s.client.writes.pushed, ∃ call,
      s.client.calls[item.call]? = some call ∧ call.wireFrame.WellFormed ∧
      call.wireFrame.encode = item.frame := by
    intro item hitem
    obtain ⟨call, hcall, -, heq⟩ := hcalls.pushed item hitem
    have hsmall := hlimits.requests call (List.mem_of_getElem? hcall)
    exact ⟨call, hcall, Call.wireFrame_wellFormed hsmall, call.wireFrame_encode.trans heq.symm⟩
  have hfirst := hstream.prefix_delivered (by
    intro l hl
    obtain ⟨item, hitem, rfl⟩ := List.mem_map.mp hl
    obtain ⟨call, -, hwf, heq⟩ := hframe item hitem
    exact ⟨call.wireFrame, hwf, heq⟩)
  -- the frames at position `j`
  obtain ⟨rest, hrest⟩ := hfirst
  have hj : s.pushedUp[j]? = some (Frame.encode (header, body)) := by
    rw [← hrest, List.getElem?_append_left (by
      rw [List.length_map]
      exact (List.getElem?_eq_some_iff.mp hm).1), List.getElem?_map, hm]
    rfl
  rw [pushedUp, List.getElem?_map] at hj
  obtain ⟨item, hitem, hframeEq⟩ := Option.map_eq_some_iff.mp hj
  obtain ⟨call, hcall, hwf, heq⟩ := hframe item (List.mem_of_getElem? hitem)
  have hwf' := hstream.delivered.consumed.wellFormed _ (List.mem_of_getElem? hm)
  have henc : call.wireFrame.encode ++ [] = Frame.encode (header, body) ++ [] := by
    rw [heq, hframeEq]
  obtain ⟨hsame, -⟩ := Frame.encode_inj hwf hwf' henc
  obtain ⟨hheader, hbody⟩ := Prod.mk.inj hsame
  exact ⟨item, call, hitem, hcall, hheader.symm, hbody.symm⟩

/-- Every invocation for the client serves a call of the client, the one whose
    frame it was given. -/
theorem serves_call (h : Reaches step WithinLimits (init services threads) s)
    {inv : Server.Invocation} (hmem : inv ∈ s.server.invocations) (hconn : inv.job.conn = 0) :
    ∃ item call, s.client.writes.pushed[inv.job.index]? = some item ∧
      s.client.calls[item.call]? = some call ∧ Serves inv call := by
  have hjobs := Server.jobInv_of_reachable (server_reachable h)
  -- its job is a message delivered on connection 0, and that is a frame pushed
  have hdel := hjobs.delivered inv.job (Server.mem_jobs_of_mem_invocations hmem)
  rw [hconn] at hdel
  obtain ⟨item, call, hitem, hcall, hheader, hbody⟩ := delivered_call h hdel
  have hsmall := (limitInv_of_reaches h).requests call (List.mem_of_getElem? hcall)
  exact ⟨item, call, hitem, hcall, hconn, hheader, hbody, hbody ▸ hsmall.decodes⟩

/-- Two calls served by one invocation are the same. -/
theorem Serves.call_eq (h : Reaches step WithinLimits (init services threads) s)
    {inv : Server.Invocation} {c c' : Nat} {call call' : Call}
    (hcall : s.client.calls[c]? = some call) (hcall' : s.client.calls[c']? = some call')
    (hs : Serves inv call) (hs' : Serves inv call') : c = c' := by
  have hcalls := RpcClient.callInv_of_reachable (client_reachable h)
  have hseq : call.header.seqId = call'.header.seqId := by rw [← hs.header, hs'.header]
  exact hcalls.seqId_inj (limitInv_of_reaches h).calls hcall hcall' hseq

/-- No request is processed twice. -/
theorem processed_once (h : Reaches step WithinLimits (init services threads) s) :
    ((s.server.invocations.filter fun inv => inv.job.conn = 0).map
      fun inv => inv.job.header.seqId).Nodup := by
  have hjobs := Server.jobInv_of_reachable (server_reachable h)
  have hcalls := RpcClient.callInv_of_reachable (client_reachable h)
  apply List.Nodup.map_on _ (hjobs.nodup_invocations.of_map.filter _)
  intro inv hinv inv' hinv' hseq
  obtain ⟨hmem, hconn⟩ := List.mem_filter.mp hinv
  obtain ⟨hmem', hconn'⟩ := List.mem_filter.mp hinv'
  have hconn := of_decide_eq_true hconn
  have hconn' := of_decide_eq_true hconn'
  obtain ⟨item, call, hitem, hcall, hserves⟩ := serves_call h hmem hconn
  obtain ⟨item', call', hitem', hcall', hserves'⟩ := serves_call h hmem' hconn'
  -- the same sequence number is the same call, and that has pushed one frame
  have hseq' : call.seqId = call'.seqId := by
    rw [hserves.header, hserves'.header] at hseq
    exact hseq
  have hsame := hcalls.seqId_inj (limitInv_of_reaches h).calls hcall hcall' hseq'
  have hindex : inv.job.index = inv'.job.index := by
    have hget : (s.client.writes.pushed.map WriteItem.call)[inv.job.index]? =
        (s.client.writes.pushed.map WriteItem.call)[inv'.job.index]? := by
      rw [List.getElem?_map, List.getElem?_map, hitem, hitem', Option.map_some, Option.map_some,
        hsame]
    have hlt : inv.job.index < (s.client.writes.pushed.map WriteItem.call).length := by
      rw [List.length_map]
      exact (List.getElem?_eq_some_iff.mp hitem).1
    exact (List.getElem?_inj hlt hcalls.once).mp hget
  exact hjobs.unique hmem hmem' (Prod.ext (hconn.trans hconn'.symm) hindex)

/-! ## Responses -/

/-- What an invocation has sent is the outcome of its `process_request`. -/
theorem outcome_of_sent {inv : Server.Invocation} {x : Server.Send} (hproper : inv.Proper)
    (hsent : inv.sent = some x) :
    ∃ resp, inv.progress.resp = some resp ∧ Outcome inv resp ∧
      sendResponse inv.job.header resp = (x.header, x.body) := by
  unfold Server.Invocation.Proper at hproper
  unfold Server.Invocation.sent at hsent
  cases hp : inv.progress with
  | processing => simp [hp] at hsent
  | responding => simp [hp] at hsent
  | escaped => simp [hp] at hsent
  | sending services resp | returned services resp =>
    rw [hp] at hproper hsent
    obtain rfl := Option.some.inj hsent
    exact ⟨resp, rfl, ⟨services, by rw [hp]; rfl, hproper⟩, rfl⟩

/-- Every frame the server pushes for the client is the response to one of its
    messages. -/
theorem pushedDown_response (h : Reaches step WithinLimits (init services threads) s)
    {data : Bytes} (hdata : data ∈ s.pushedDown) :
    ∃ inv ∈ s.server.invocations, inv.job.conn = 0 ∧ ∃ resp, Outcome inv resp ∧ resp.Small ∧
      Frame.encode (sendResponse inv.job.header resp) = data := by
  have hsends := Server.sendInv_of_reachable (server_reachable h)
  obtain ⟨x, hx, hconn, hframe⟩ := Server.frameInv_of_reachable (server_reachable h) 0 data
    (Connection.mem_frames.mpr (.inr hdata))
  obtain ⟨inv, hmem, hsent⟩ := List.mem_filterMap.mp (hsends.sends.mem_iff.mp hx)
  obtain ⟨resp, hresp, houtcome, heq⟩ := outcome_of_sent (hsends.proper inv hmem) hsent
  have hinvConn : inv.job.conn = 0 := (Server.Invocation.sent_eq hsent).2.1.symm.trans hconn
  have hsmall := (limitInv_of_reaches h).responses inv hmem hinvConn resp hresp
  refine ⟨inv, hmem, hinvConn, resp, houtcome, hsmall, ?_⟩
  rw [heq, hframe]
  rfl

/-- Every frame the client receives is the response to one of its messages. -/
theorem received_response (h : Reaches step WithinLimits (init services threads) s)
    {f : Frame} (hf : f ∈ s.client.received) :
    ∃ inv ∈ s.server.invocations, inv.job.conn = 0 ∧ ∃ resp, Outcome inv resp ∧ resp.Small ∧
      sendResponse inv.job.header resp = f := by
  have hstream := streamInv_of_reaches h
  have hfirst := hstream.prefix_received (by
    intro l hl
    obtain ⟨inv, -, -, resp, -, hsmall, heq⟩ := pushedDown_response h hl
    exact ⟨_, sendResponse_wellFormed inv.job.header hsmall, heq⟩)
  obtain ⟨inv, hmem, hconn, resp, houtcome, hsmall, heq⟩ :=
    pushedDown_response h (hfirst.subset (List.mem_map_of_mem hf))
  have hwf := hstream.received.consumed.wellFormed f hf
  -- both are well formed, so that equal bytes are equal frames
  have henc : Frame.encode (sendResponse inv.job.header resp) ++ [] = f.encode ++ [] := by
    rw [heq]
  obtain ⟨hsame, -⟩ := Frame.encode_inj (sendResponse_wellFormed inv.job.header hsmall) hwf henc
  exact ⟨inv, hmem, hconn, resp, houtcome, hsmall, hsame⟩

/-- A response in the future of a call is the outcome of `process_request` on that
    call's request, and came from an invocation that served this call and no other. -/
theorem completion_response (h : Reaches step WithinLimits (init services threads) s)
    {k : Completion} (hk : k ∈ s.client.completions) {header : RpcHeader} {body : Bytes}
    (horigin : k.origin = .frame header body) :
    ∃ call, s.client.calls[k.call]? = some call ∧ ∃ inv ∈ s.server.invocations,
      Serves inv call ∧ Outcome inv k.resp ∧
      sendResponse inv.job.header k.resp = (header, body) := by
  have hpromise := RpcClient.promiseInv_of_reachable (client_reachable h)
  have hcalls := RpcClient.callInv_of_reachable (client_reachable h)
  obtain ⟨n, ⟨call, hcall, hcallSeq, -⟩, hframe⟩ := hpromise.proper k hk
  obtain ⟨hseq, hdecode, hreceived⟩ := hframe header body horigin
  obtain ⟨inv, hmem, hconn, resp, houtcome, hsmall, heq⟩ := received_response h hreceived
  obtain ⟨item, call', -, hcall', hserves⟩ := serves_call h hmem hconn
  -- the frame's sequence number is that of the call served and that of the call completed
  have hheader : inv.job.header.seqId = header.seqId :=
    congrArg (fun f : Frame => f.1.seqId) heq
  have hsame : call'.seqId = call.seqId := by
    rw [hcallSeq, ← hseq, ← hheader, hserves.header]
    rfl
  have hc := hcalls.seqId_inj (limitInv_of_reaches h).calls hcall' hcall hsame
  rw [hc] at hcall'
  obtain rfl : call = call' := Option.some.inj (hcall.symm.trans hcall')
  -- the body decodes to what was sent
  have hbody : resp.serialize = body := congrArg (fun f : Frame => f.2) heq
  have hresp : resp = k.resp := by
    rw [← hbody, hsmall.decodes] at hdecode
    exact Except.ok.inj hdecode
  subst hresp
  exact ⟨call, hcall, inv, hmem, hserves, houtcome, heq⟩

end

/-- In every run within the limits: a call completed with a response of the server
    was completed with the outcome of `process_request` on that call's own request,
    by the response of an invocation that served this call and no other; every
    message of the client that the server processes is the request of a call, and
    none is processed twice; and no call is completed twice. -/
theorem response_matches_call (services : ServiceManager) (threads : Option (UInt64 × UInt32))
    (s : System) (h : Reaches step WithinLimits (init services threads) s) :
    (∀ k ∈ s.client.completions, ∀ header body, k.origin = .frame header body →
      ∃ call, s.client.calls[k.call]? = some call ∧ ∃ inv ∈ s.server.invocations,
        Serves inv call ∧ Outcome inv k.resp ∧
        sendResponse inv.job.header k.resp = (header, body) ∧
        ∀ (c : Nat) (call' : Call), s.client.calls[c]? = some call' → Serves inv call' →
          c = k.call) ∧
    (∀ inv ∈ s.server.invocations, inv.job.conn = 0 →
      ∃ (c : Nat) (call : Call), s.client.calls[c]? = some call ∧ Serves inv call) ∧
    ((s.server.invocations.filter fun inv => inv.job.conn = 0).map
      fun inv => inv.job.header.seqId).Nodup ∧
    (s.client.completions.map fun k => k.call).Nodup := by
  refine ⟨?_, ?_, processed_once h,
    (RpcClient.promiseInv_of_reachable (client_reachable h)).nodup⟩
  · intro k hk header body horigin
    obtain ⟨call, hcall, inv, hmem, hserves, houtcome, heq⟩ := completion_response h hk horigin
    refine ⟨call, hcall, inv, hmem, hserves, houtcome, heq, ?_⟩
    intro c call' hcall' hserves'
    exact Serves.call_eq h hcall' hcall hserves' hserves
  · intro inv hmem hconn
    obtain ⟨item, call, -, hcall, hserves⟩ := serves_call h hmem hconn
    exact ⟨item.call, call, hcall, hserves⟩

/-- The calls of a run with two callers: method `m` of service `s`, each with a
    parameter of its own. -/
def sampleCall (c : Nat) : Call :=
  { service := [115], method := [109], params := [UInt8.ofNat c], timeoutMs := 5000,
    seqId := UInt32.ofNat (c + 1), phase := .enqueued }

/-- The entry of such a call in the write queue. -/
def sampleItem (c : Nat) : WriteItem :=
  { frame := (sampleCall c).frame, seqId := (sampleCall c).seqId, call := c }

/-- The service returns the parameter it is given. -/
def echoServices : ServiceManager :=
  ServiceManager.registerService ∅
    (some { name := [115], methods := [[109]], handle := fun _ params => .returned params })

/-- The response to such a call. -/
def sampleResponse (c : Nat) : Frame :=
  sendResponse (sampleCall c).header { errorCode := 0, errorMsg := [], result := [UInt8.ofNat c] }

/-- Two calls, two workers; the second request is answered first, and the first
    request reaches the server before the handler of its write has run. -/
def twoCalls : List Act :=
  [.client .connected, .client (.call [115] [109] [0] 5000), .client (.call [115] [109] [1] 5000),
    .client (.register 1), .client (.register 0), .client (.enqueue 0), .client (.enqueue 1),
    .client (.pop (some 0)), .client (.startWrite (some 0) (sampleItem 0)),
    .server (.conn 0 .startRead),
    .server (.conn 0 (.readHeader (serializeHeader (sampleCall 0).header))),
    .server (.conn 0 (.readBody (sampleCall 0).request.serialize)), .server (.enter 0),
    .client (.writeDone (sampleItem 0)), .client (.pop none),
    .client (.startWrite none (sampleItem 1)), .server (.pool (.notifyOne 0 none)),
    .server (.leave 0), .server (.conn 0 (.readHeader (serializeHeader (sampleCall 1).header))),
    .server (.conn 0 (.readBody (sampleCall 1).request.serialize)), .server (.enter 0),
    .server (.pool (.notifyOne 1 none)), .server (.leave 0), .server (.pool (.check 0)),
    .server (.pool (.check 1)), .server (.activate 0), .server (.activate 1),
    .server (.process 1), .server (.send 1),
    .server (.conn 0 (.push (some 1) (sampleResponse 1).encode)), .server (.conn 0 (.pop (some 1))),
    .server (.conn 0 (.startWrite (some 1) (sampleResponse 1).encode)), .server (.process 0),
    .server (.send 0), .server (.conn 0 (.push (some 0) (sampleResponse 0).encode)),
    .client (.readHeader (serializeHeader (sampleResponse 1).1)),
    .client (.readBody (sampleResponse 1).2), .client .setValue,
    .server (.conn 0 (.writeDone (sampleResponse 1).encode)), .server (.conn 0 (.pop none)),
    .server (.conn 0 (.startWrite none (sampleResponse 0).encode)),
    .client (.readHeader (serializeHeader (sampleResponse 0).1)),
    .client (.readBody (sampleResponse 0).2), .client .setValue]

/-- Both callers get the answer to their own request. -/
theorem response_matches_call_twoCalls :
    ∃ s, Reaches step WithinLimits (init echoServices (some (2, 2))) s ∧
      s.client.completions.map (fun k => (k.call, k.resp.result)) = [(1, [1]), (0, [0])] ∧
      ∀ k ∈ s.client.completions, ∃ call, s.client.calls[k.call]? = some call ∧
        ∃ inv ∈ s.server.invocations, Serves inv call ∧ Outcome inv k.resp := by
  have hrun : ∃ s, Reaches step WithinLimits (init echoServices (some (2, 2))) s ∧
      s.client.completions.map (fun k => (k.call, k.resp.result)) = [(1, [1]), (0, [0])] ∧
      ∀ k ∈ s.client.completions, k.origin ≠ .writeFailed ∧ k.origin ≠ .rejected :=
    exists_reaches_of_run twoCalls (by decide +kernel)
  obtain ⟨s, hs, hresults, horigins⟩ := hrun
  refine ⟨s, hs, hresults, fun k hk => ?_⟩
  obtain ⟨hwrite, hreject⟩ := horigins k hk
  cases horigin : k.origin with
  | writeFailed => exact absurd horigin hwrite
  | rejected => exact absurd horigin hreject
  | frame header body =>
    obtain ⟨call, hcall, inv, hmem, hserves, houtcome, -⟩ :=
      (response_matches_call _ _ s hs).1 k hk header body horigin
    exact ⟨call, hcall, inv, hmem, hserves, houtcome⟩

end System

end Rpc
