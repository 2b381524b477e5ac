import Rpc.Spec.SerialServer
import Rpc.Spec.SystemCorrect

/-!
# Answers in the order of the requests

If the server runs one invocation at a time, nothing on the way from a caller and
back overtakes: both write queues and both streams keep the order of their
frames, the server answers each connection in the order of its messages, and the
client completes promises in the order in which it receives responses
(`answers_in_order`).
-/

namespace Rpc

open Transition

/-! ## The client -/

/-- The sequence number of the response that completed a promise, if one did. -/
def Completion.answer (k : Completion) : Option UInt32 :=
  match k.origin with
  | .frame header _ => some header.seqId
  | .writeFailed | .rejected => none

namespace RpcClient

/-- The sequence number of the response whose promise is about to be completed. -/
def Reading.inHand : Reading → List UInt32
  | .matched hdr _ _ _ => [hdr.seqId]
  | _ => []

/-- The sequence numbers of the responses received, in order. -/
def receivedSeqIds (s : RpcClient) : List UInt32 := s.received.map fun f => f.1.seqId

/-- The responses complete their promises in the order in which they are received. -/
def AnswerOrder (s : RpcClient) : Prop :=
  (s.completions.filterMap Completion.answer ++ s.reading.inHand).Sublist s.receivedSeqIds

/-- A step that hands no response on; it may complete promises without one. -/
theorem AnswerOrder.of_failed {s s' : RpcClient} (hinv : AnswerOrder s) (ks : List Completion)
    (hks : ∀ k ∈ ks, k.answer = none) (hcomp : s'.completions = s.completions ++ ks)
    (hreading : s'.reading.inHand = s.reading.inHand) (hrec : s'.received = s.received) :
    AnswerOrder s' := by
  have hnil : ks.filterMap Completion.answer = [] := List.filterMap_eq_nil_iff.mpr hks
  rw [AnswerOrder, hcomp, List.filterMap_append, hnil, List.append_nil, hreading, receivedSeqIds,
    hrec]
  exact hinv

/-- Every step keeps the order. -/
theorem Steps.answerOrder {s s' : RpcClient} {a : Act} (h : Steps s a s')
    (hinv : AnswerOrder s) : AnswerOrder s' := by
  -- a read loop that is not at a response
  have hidle : (∀ h b r c, s.reading ≠ .matched h b r c) → s.reading.inHand = [] := by
    intro hne
    cases hr : s.reading with
    | matched header body resp call => exact absurd hr (hne header body resp call)
    | _ => rfl
  cases h with
  | bodyRead header body resp hreading hio hlen hok =>
    -- the response in hand becomes the last one received
    have hold : (s.completions.filterMap Completion.answer).Sublist s.receivedSeqIds := by
      have hsub := hinv
      rw [AnswerOrder, hidle (by simp [hreading]), List.append_nil] at hsub
      exact hsub
    show (_ ++ [header.seqId]).Sublist ((s.received ++ [(header, body)]).map _)
    rw [List.map_append]
    exact hold.append (.refl _)
  | setValue header body resp call hreading =>
    have hold := hinv
    rw [AnswerOrder, hreading] at hold
    -- it leaves the hand and completes its promise, if a call is waiting for it
    have hanswer : ((call.toList.map fun c =>
        ({ call := c, resp, origin := .frame header body } : Completion)).filterMap
          Completion.answer).Sublist [header.seqId] := by
      cases call with
      | none => exact List.nil_sublist _
      | some c => exact .refl _
    show ((s.completions ++ _).filterMap _ ++ []).Sublist s.receivedSeqIds
    rw [List.append_nil, List.filterMap_append]
    exact (hanswer.append_left _).trans hold
  | readEnded a reason hio hread hreading =>
    -- promises that fail with the connection carry no response
    refine hinv.of_failed _ ?_ rfl (hidle hreading).symm rfl
    intro k hk
    obtain ⟨e, -, rfl⟩ := List.mem_map.mp hk
    rfl
  | writeError item reason w hio hw =>
    refine hinv.of_failed _ ?_ rfl rfl rfl
    intro k hk
    obtain ⟨c, -, rfl⟩ := List.mem_map.mp hk
    rfl
  -- nothing is completed
  | connected hreading | headerRead hdrData header hreading =>
    exact hinv.of_failed [] nofun (List.append_nil _).symm (by rw [hreading]; rfl) rfl
  | _ => exact hinv.of_failed [] nofun (List.append_nil _).symm rfl rfl

/-- Whatever the server sends, the order holds. -/
theorem answerOrder_of_reachable {s : RpcClient} (h : Reachable step init s) : AnswerOrder s :=
  h.invariant (.refl _) fun _ _ _ hinv _ hs => (steps_of_step hs).answerOrder hinv

end RpcClient

namespace System

section

variable {services : ServiceManager} {threads : Option (UInt64 × UInt32)} {s : System}

/-- The call that has a sequence number, as long as none has been given twice. -/
def callOf (seqId : UInt32) : Nat := seqId.toNat - 1

/-- Sequence numbers are given from 1 on. -/
theorem callOf_seqId (h : Reaches step WithinLimits (init services threads) s) {c : Nat}
    {call : Call} (hcall : s.client.calls[c]? = some call) : callOf call.seqId = c := by
  have hlimit := (limitInv_of_reaches h).calls
  have hlt := (List.getElem?_eq_some_iff.mp hcall).1
  rw [callOf, (RpcClient.callInv_of_reachable (client_reachable h)).seqId c call hcall,
    UInt32.toNat_ofNat_of_lt' (show c + 1 < 2 ^ 32 by omega)]
  exact Nat.add_sub_cancel c 1

/-- The frames pushed are those of the calls, in this order. -/
theorem callOf_pushed (h : Reaches step WithinLimits (init services threads) s) :
    (s.pushedUp.map frameSeqId).map callOf = s.client.writes.pushed.map WriteItem.call := by
  rw [pushedUp, List.map_map, List.map_map]
  apply List.map_congr_left
  intro item hitem
  obtain ⟨call, hcall, -, hframe⟩ :=
    (RpcClient.callInv_of_reachable (client_reachable h)).pushed item hitem
  -- a frame carries the number of its call
  have hseq : frameSeqId item.frame = call.seqId := by
    rw [hframe]
    exact frameSeqId_frame call.header call.request.serialize
  rw [Function.comp_apply, Function.comp_apply, hseq, callOf_seqId h hcall]

/-- The promises completed by responses are those of the calls, in this order. -/
theorem callOf_answers (h : Reaches step WithinLimits (init services threads) s) :
    (s.client.completions.filterMap Completion.answer).map callOf =
      (s.client.completions.filter fun k => k.answer.isSome).map Completion.call := by
  have hpromise := RpcClient.promiseInv_of_reachable (client_reachable h)
  have hproper : ∀ k ∈ s.client.completions, ∀ seqId, k.answer = some seqId →
      callOf seqId = k.call := by
    intro k hk seqId hanswer
    obtain ⟨n, ⟨call, hcall, hcallSeq, -⟩, hframe⟩ := hpromise.proper k hk
    unfold Completion.answer at hanswer
    split at hanswer
    · rename_i header body horigin
      obtain rfl := Option.some.inj hanswer
      rw [(hframe header body horigin).1, ← hcallSeq]
      exact callOf_seqId h hcall
    · cases hanswer
    · cases hanswer
  -- both lists are filtered from the completions, one by one
  generalize s.client.completions = ks at hproper ⊢
  induction ks with
  | nil => rfl
  | cons k ks ih =>
    have ih := ih fun k' hk' => hproper k' (List.mem_cons_of_mem k hk')
    cases hanswer : k.answer with
    | none =>
      rw [List.filterMap_cons, hanswer, List.filter_cons_of_neg (by simp [hanswer])]
      exact ih
    | some seqId =>
      rw [List.filterMap_cons, hanswer, List.filter_cons_of_pos (by simp [hanswer]),
        List.map_cons, List.map_cons, ih, hproper k List.mem_cons_self seqId hanswer]

/-- A frame carries the number of its header. -/
theorem seqIds_encode (fs : List Frame) :
    (fs.map Frame.encode).map frameSeqId = fs.map fun f => f.1.seqId := by
  rw [List.map_map]
  apply List.map_congr_left
  intro f _
  have hframe : f.encode = Connection.frame f.1 f.2 := rfl
  rw [Function.comp_apply, hframe, frameSeqId_frame]

/-- The frames the client pushes are well formed. -/
theorem pushedUp_wellFormed (h : Reaches step WithinLimits (init services threads) s) :
    ∀ l ∈ s.pushedUp, ∃ g : Frame, g.WellFormed ∧ g.encode = l := by
  intro l hl
  obtain ⟨item, hitem, rfl⟩ := List.mem_map.mp hl
  obtain ⟨call, hcall, -, heq⟩ :=
    (RpcClient.callInv_of_reachable (client_reachable h)).pushed item hitem
  have hsmall := (limitInv_of_reaches h).requests call (List.mem_of_getElem? hcall)
  exact ⟨call.wireFrame, Call.wireFrame_wellFormed hsmall, call.wireFrame_encode.trans heq.symm⟩

/-- The frames the server pushes for the client are well formed. -/
theorem pushedDown_wellFormed (h : Reaches step WithinLimits (init services threads) s) :
    ∀ l ∈ s.pushedDown, ∃ g : Frame, g.WellFormed ∧ g.encode = l := by
  intro l hl
  obtain ⟨inv, -, -, resp, -, hsmall, heq⟩ := pushedDown_response h hl
  exact ⟨_, sendResponse_wellFormed inv.job.header hsmall, heq⟩

/-- What the server has been given are the first requests of the client. -/
theorem delivered_sublist (h : Reaches step WithinLimits (init services threads) s) :
    ((s.server.conns 0).delivered.map fun m => m.1.seqId).Sublist
      (s.pushedUp.map frameSeqId) := by
  have hfirst := (streamInv_of_reaches h).prefix_delivered (pushedUp_wellFormed h)
  rw [← seqIds_encode]
  exact hfirst.sublist.map frameSeqId

/-- What the client has received are the first frames the server pushed for it. -/
theorem received_sublist (h : Reaches step WithinLimits (init services threads) s) :
    s.client.receivedSeqIds.Sublist (s.pushedDown.map frameSeqId) := by
  have hfirst := (streamInv_of_reaches h).prefix_received (pushedDown_wellFormed h)
  rw [RpcClient.receivedSeqIds, ← seqIds_encode]
  exact hfirst.sublist.map frameSeqId

end

/-- If the server has no pool, or a pool of one worker: on every connection the
    responses are pushed in the order of the messages that they answer, each the
    response to its own message and none to a message answered before; and within
    the limits of the wire, callers get their responses in the order in which their
    requests were put into the write queue. -/
theorem answers_in_order (services : ServiceManager) (threads : Option (UInt64 × UInt32))
    (hserial : Server.Serial threads) (s : System)
    (h : Reachable step (init services threads) s) :
    (∀ k, ∃ replies, s.server.InOrder k replies) ∧
    (Reaches step WithinLimits (init services threads) s →
      ((s.client.completions.filter fun k => k.answer.isSome).map Completion.call).Sublist
        (s.client.writes.pushed.map WriteItem.call)) := by
  have hserver := Server.exists_inOrder hserial (server_reachable h)
  refine ⟨hserver, fun h => ?_⟩
  obtain ⟨replies, hinOrder⟩ := hserver 0
  -- along the way back of the responses, then along that of the requests
  have hanswers := (List.sublist_append_left _ _).trans
    (RpcClient.answerOrder_of_reachable (client_reachable h))
  have hround := ((hanswers.trans (received_sublist h)).trans hinOrder.seqIds).trans
    (delivered_sublist h)
  rw [← callOf_answers h, ← callOf_pushed h]
  exact hround.map callOf

/-- Two calls and one worker; the second call puts its request first into the write
    queue, and the second request waits in the pool for the first to be answered. -/
def oneWorker : List Act :=
  [.client .connected, .client (.call [115] [109] [0] 5000), .client (.call [115] [109] [1] 5000),
    .client (.register 1), .client (.register 0), .client (.enqueue 1), .client (.enqueue 0),
    .client (.pop (some 1)), .client (.startWrite (some 1) (sampleItem 1)),
    .client (.writeDone (sampleItem 1)), .client (.pop none),
    .client (.startWrite none (sampleItem 0)), .server (.conn 0 .startRead),
    .server (.conn 0 (.readHeader (serializeHeader (sampleCall 1).header))),
    .server (.conn 0 (.readBody (sampleCall 1).request.serialize)), .server (.enter 0),
    .server (.pool (.notifyOne 0 none)), .server (.leave 0),
    .server (.conn 0 (.readHeader (serializeHeader (sampleCall 0).header))),
    .server (.conn 0 (.readBody (sampleCall 0).request.serialize)), .server (.enter 0),
    .server (.pool (.notifyOne 1 none)), .server (.leave 0), .server (.pool (.check 0)),
    .server (.activate 0), .server (.process 0), .server (.send 0),
    .server (.conn 0 (.push (some 0) (sampleResponse 1).encode)), .server (.conn 0 (.pop (some 0))),
    .server (.conn 0 (.startWrite (some 0) (sampleResponse 1).encode)), .server (.done 0),
    .server (.finish 0), .server (.pool (.deactivate 0)), .server (.pool (.count 0)),
    .server (.pool (.settle 0)), .server (.pool (.notifyDrain 0 none)), .server (.pool (.check 0)),
    .server (.activate 0), .server (.process 1), .server (.send 1),
    .server (.conn 0 (.push (some 0) (sampleResponse 0).encode)),
    .client (.readHeader (serializeHeader (sampleResponse 1).1)),
    .client (.readBody (sampleResponse 1).2), .client .setValue,
    .server (.conn 0 (.writeDone (sampleResponse 1).encode)), .server (.conn 0 (.pop none)),
    .server (.conn 0 (.startWrite none (sampleResponse 0).encode)),
    .client (.readHeader (serializeHeader (sampleResponse 0).1)),
    .client (.readBody (sampleResponse 0).2), .client .setValue]

/-- The calls are answered in the order of their frames, not of their numbers. -/
theorem answers_in_order_oneWorker :
    ∃ s, Reaches step WithinLimits (init echoServices (some (1, 1))) s ∧
      s.client.completions.map (fun k => (k.call, k.resp.result)) = [(1, [1]), (0, [0])] ∧
      (∀ k, ∃ replies, s.server.InOrder k replies) ∧
      ((s.client.completions.filter fun k => k.answer.isSome).map Completion.call).Sublist
        (s.client.writes.pushed.map WriteItem.call) := by
  have hrun : ∃ s, Reaches step WithinLimits (init echoServices (some (1, 1))) s ∧
      s.client.completions.map (fun k => (k.call, k.resp.result)) = [(1, [1]), (0, [0])] :=
    exists_reaches_of_run oneWorker (by decide +kernel)
  obtain ⟨s, hs, hresults⟩ := hrun
  obtain ⟨hserver, hcallers⟩ := answers_in_order _ _ (by decide) s hs.reachable
  exact ⟨s, hs, hresults, hserver, hcallers hs⟩

end System

end Rpc
