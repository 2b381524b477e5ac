import Rpc.Spec.ServerProgress

/-!
# One response per message

`response_sent_iff`: a message delivered to `on_message` gets its one response
unless an exception leaves `process_request`, or the pool is stopped when the
message arrives.
-/

namespace Rpc.Server

open Transition

/-! ## The responses -/

/-- The services an invocation's `process_request` saw. -/
def Progress.services : Progress → Option ServiceManager
  | .processing => none
  | .responding services _ | .sending services _ | .returned services _ | .escaped services =>
    some services

/-- One response was sent for message `j` of connection `k`, there and with the
    sequence number of its header, and the read loop has gone on. -/
def Answered (s : Server) (k j : Nat) (header : RpcHeader) : Prop :=
  (∃ x, s.sends.filter (fun x => x.id = (k, j)) = [x] ∧ x.conn = k ∧
    x.header.seqId = header.seqId) ∧ (k, j) ∈ s.left

/-- The pool was not stopped when `on_message` was entered with the message, and
    the services that `process_request` saw for it do not lead to a handler that
    throws anything but a `std::runtime_error`. -/
def Answerable (s : Server) (k j : Nat) (header : RpcHeader) (body : Bytes) : Prop :=
  ((k, j), true) ∉ s.entered ∧ ∀ inv ∈ s.invocations, inv.job.id = (k, j) →
    ∀ services, inv.progress.services = some services → ¬HandlerThrows services header body

/-- What an invocation sends carries its message's identity, connection and
    sequence number. -/
theorem Invocation.sent_eq {inv : Invocation} {x : Send} (h : inv.sent = some x) :
    x.id = inv.job.id ∧ x.conn = inv.job.conn ∧ x.header.seqId = inv.job.header.seqId := by
  unfold sent at h
  split at h
  · obtain rfl := Option.some.inj h
    exact ⟨rfl, rfl, rfl⟩
  · obtain rfl := Option.some.inj h
    exact ⟨rfl, rfl, rfl⟩
  · cases h

/-- The sends for an invocation's message are its own. -/
theorem sends_of_invocation {s : Server} (hjobs : JobInv s) (hsends : SendInv s)
    {inv : Invocation} (hmem : inv ∈ s.invocations) :
    s.sends.filter (fun x => x.id = inv.job.id) = inv.sent.toList := by
  -- an invocation sends for its own message only
  have hown : ∀ inv' : Invocation, Option.filter (fun x => decide (x.id = inv.job.id)) inv'.sent =
      if decide (inv'.job.id = inv.job.id) then inv'.sent else none := by
    intro inv'
    cases hsent : inv'.sent with
    | none => simp
    | some x => simp [Option.filter, (Invocation.sent_eq hsent).1]
  -- among the invocations, only this one has the identity of its message
  have hperm := hsends.sends.filter fun x => x.id = inv.job.id
  rw [List.filter_filterMap, List.filterMap_congr fun inv' _ => hown inv', ← List.filterMap_filter,
    List.filter_key_eq_singleton (fun inv : Invocation => inv.job.id) hjobs.nodup_invocations
      hmem] at hperm
  cases hsent : inv.sent with
  | none =>
    simp only [List.filterMap_cons, hsent, List.filterMap_nil] at hperm
    exact hperm.eq_nil
  | some x =>
    simp only [List.filterMap_cons, hsent, List.filterMap_nil] at hperm
    exact List.perm_singleton.mp hperm

/-- An invocation for message `j` of connection `k` was given that message. -/
theorem JobInv.message {s : Server} (hjobs : JobInv s) {inv : Invocation}
    (hmem : inv ∈ s.invocations) {k j : Nat} (hid : inv.job.id = (k, j)) {header : RpcHeader}
    {body : Bytes} (hm : (s.conns k).delivered[j]? = some (header, body)) :
    inv.job.conn = k ∧ inv.job.header = header ∧ inv.job.body = body := by
  have hdel := hjobs.delivered inv.job (mem_jobs_of_mem_invocations hmem)
  obtain ⟨hk, hj⟩ : inv.job.conn = k ∧ inv.job.index = j := Prod.mk.inj hid
  rw [hk, hj, hm] at hdel
  obtain ⟨hheader, hbody⟩ := Prod.mk.inj (Option.some.inj hdel)
  exact ⟨hk, hheader.symm, hbody.symm⟩

/-- A message is not both refused and accepted. -/
theorem JobInv.not_stopped {s : Server} (hjobs : JobInv s) {id : Nat × Nat}
    (haccepted : (id, false) ∈ s.entered) : (id, true) ∉ s.entered := by
  intro hstopped
  have heq := List.inj_on_of_nodup_map hjobs.once haccepted hstopped rfl
  cases (Prod.mk.inj heq).2

/-- An invocation that has sent saw services that do not throw. -/
theorem Invocation.Proper.not_handlerThrows {inv : Invocation} (h : inv.Proper) {x : Send}
    (hsent : inv.sent = some x) {services : ServiceManager}
    (hservices : inv.progress.services = some services) :
    ¬HandlerThrows services inv.job.header inv.job.body := by
  have hok : ∃ resp, processRequest services inv.job.header inv.job.body = .ok resp := by
    unfold Proper at h
    unfold sent at hsent
    cases hp : inv.progress with
    | processing => simp [hp] at hsent
    | responding => simp [hp] at hsent
    | escaped => simp [hp] at hsent
    | sending services' resp | returned services' resp =>
      rw [hp] at h hservices
      obtain rfl := Option.some.inj hservices
      exact ⟨resp, h⟩
  intro hthrows
  obtain ⟨fault, herror⟩ := (processRequest_error_iff _ _ _).mpr hthrows
  obtain ⟨resp, hresp⟩ := hok
  rw [herror] at hresp
  cases hresp

section

variable {services : ServiceManager} {threads : Option (UInt64 × UInt32)} {s : Server}
  {k j : Nat} {header : RpcHeader} {body : Bytes}

/-- Only an answerable message is answered. -/
theorem answerable_of_answered (hs : Reachable step (init services threads) s)
    (hm : (s.conns k).delivered[j]? = some (header, body)) (h : Answered s k j header) :
    Answerable s k j header body := by
  have hjobs := jobInv_of_reachable hs
  have hsends := sendInv_of_reachable hs
  obtain ⟨⟨x, hx, -, -⟩, -⟩ := h
  -- the send is that of an invocation for this message
  have hxmem : x ∈ s.sends.filter (fun x => x.id = (k, j)) := hx ▸ List.mem_singleton.mpr rfl
  obtain ⟨hxsends, hxid⟩ := List.mem_filter.mp hxmem
  obtain ⟨inv, hmem, hsent⟩ := List.mem_filterMap.mp (hsends.sends.mem_iff.mp hxsends)
  have hid : inv.job.id = (k, j) := (Invocation.sent_eq hsent).1.symm.trans (of_decide_eq_true hxid)
  obtain ⟨-, rfl, rfl⟩ := hjobs.message hmem hid hm
  constructor
  · rw [← hid]
    exact hjobs.not_stopped (hjobs.accepted (mem_jobs_of_mem_invocations hmem))
  · intro inv' hmem' hid' services' hservices
    obtain rfl := hjobs.unique hmem' hmem (hid'.trans hid.symm)
    exact (hsends.proper inv' hmem).not_handlerThrows hsent hservices

/-- An answerable message is answered by the time the server has nothing left to do. -/
theorem answered_of_answerable (hs : Reachable step (init services threads) s)
    (hset : Settled s) (hm : (s.conns k).delivered[j]? = some (header, body))
    (h : Answerable s k j header body) : Answered s k j header := by
  have hjobs := jobInv_of_reachable hs
  have hsends := sendInv_of_reachable hs
  obtain ⟨hflow, hinvoke⟩ := flowInv_of_reachable hs
  have hover := hset.over hs (List.getElem?_eq_some_iff.mp hm).1
  -- the message was entered, and accepted
  obtain ⟨⟨id, stopped⟩, hentered, hfst⟩ := List.mem_map.mp (hflow.entered _ hover)
  obtain rfl : id = (k, j) := hfst
  have haccepted : ((k, j), false) ∈ s.entered := by
    cases stopped with
    | true => exact absurd hentered h.1
    | false => exact hentered
  obtain ⟨inv, hmem, hid, hinvOver⟩ := hset.jobs hs haccepted
  obtain ⟨rfl, rfl, rfl⟩ := hjobs.message hmem hid hm
  have hproper := hsends.proper inv hmem
  have hfilter := sends_of_invocation hjobs hsends hmem
  rw [hid] at hfilter
  cases hp : inv.progress with
  | returned services' resp =>
    constructor
    · refine ⟨_, hfilter.trans (by rw [Invocation.sent, hp]; rfl), rfl, rfl⟩
    · obtain hleft | hthrew := hover
      · exact hleft
      · -- nothing has thrown for this message
        obtain hstopped | ⟨inv', hmem', hid', hesc⟩ := hsends.threw _ hthrew
        · exact absurd hstopped h.1
        · obtain rfl := hjobs.unique hmem' hmem (hid'.trans hid.symm)
          obtain ⟨services', hesc⟩ := hesc
          cases hp.symm.trans hesc
  | escaped services' =>
    rw [Invocation.Proper, hp] at hproper
    exact absurd ((processRequest_error_iff _ _ _).mp hproper)
      (h.2 inv hmem hid services' (by rw [hp]; rfl))
  | processing | responding services' resp | sending services' resp =>
    rw [hp] at hinvOver
    cases hinvOver

end

/-- In every reachable state, at most one response has been sent for a delivered
    message, on its connection and with its sequence number.  The server's threads
    run out of steps of their own, and when they have, one response has been sent
    and the read loop has gone on exactly if the message is answerable. -/
theorem response_sent_iff (services : ServiceManager) (threads : Option (UInt64 × UInt32))
    (s : Server) (hs : Reachable step (init services threads) s) (k j : Nat) (header : RpcHeader)
    (body : Bytes) (hm : (s.conns k).delivered[j]? = some (header, body)) :
    (s.sends.filter (fun x => x.id = (k, j))).length ≤ 1 ∧
      (∀ x ∈ s.sends, x.id = (k, j) → x.conn = k ∧ x.header.seqId = header.seqId) ∧
      (∃ bound, ∀ acts t, (∀ a ∈ acts, driven a = true) → run step s acts = some t →
        acts.length ≤ bound) ∧
      (Settled s → (Answered s k j header ↔ Answerable s k j header body)) := by
  have hjobs := jobInv_of_reachable hs
  have hsends := sendInv_of_reachable hs
  have hown : ∀ x ∈ s.sends, x.id = (k, j) →
      ∃ inv ∈ s.invocations, inv.sent = some x ∧ inv.job.id = (k, j) := by
    intro x hx hid
    obtain ⟨inv, hmem, hsent⟩ := List.mem_filterMap.mp (hsends.sends.mem_iff.mp hx)
    exact ⟨inv, hmem, hsent, (Invocation.sent_eq hsent).1.symm.trans hid⟩
  refine ⟨?_, ?_, driven_run_bounded hs, ?_⟩
  -- a send for the message is that of its only invocation
  · cases hfilter : s.sends.filter (fun x => x.id = (k, j)) with
    | nil => exact Nat.zero_le 1
    | cons x rest =>
      have hx : x ∈ s.sends.filter (fun x => x.id = (k, j)) := hfilter ▸ List.mem_cons_self
      obtain ⟨hx, hxid⟩ := List.mem_filter.mp hx
      obtain ⟨inv, hmem, -, hid⟩ := hown x hx (of_decide_eq_true hxid)
      rw [← hfilter, ← hid, sends_of_invocation hjobs hsends hmem]
      exact Option.length_toList_le
  · intro x hx hxid
    obtain ⟨inv, hmem, hsent, hid⟩ := hown x hx hxid
    obtain ⟨hconn, hheader, -⟩ := hjobs.message hmem hid hm
    obtain ⟨-, hxconn, hseq⟩ := Invocation.sent_eq hsent
    exact ⟨hxconn.trans hconn, hseq.trans (by rw [hheader])⟩
  · intro hset
    exact ⟨answerable_of_answered hs hm, answered_of_answerable hs hset hm⟩

/-- A message is answerable once its invocation has returned. -/
theorem answerable_of_returned {services : ServiceManager} {threads : Option (UInt64 × UInt32)}
    {s : Server} (hs : Reachable step (init services threads) s) {k j : Nat} {header : RpcHeader}
    {body : Bytes} (hm : (s.conns k).delivered[j]? = some (header, body))
    (hstopped : ((k, j), true) ∉ s.entered)
    (hreturned : ∀ inv ∈ s.invocations, inv.progress.isReturned = true) :
    Answerable s k j header body := by
  refine ⟨hstopped, fun inv hmem hid services' hservices => ?_⟩
  obtain ⟨-, rfl, rfl⟩ := (jobInv_of_reachable hs).message hmem hid hm
  have hret := hreturned inv hmem
  cases hp : inv.progress with
  | returned services'' resp =>
    have hsent : inv.sent ≠ none := by simp [Invocation.sent, hp]
    obtain ⟨x, hx⟩ := Option.ne_none_iff_exists'.mp hsent
    exact ((sendInv_of_reachable hs).proper inv hmem).not_handlerThrows hx hservices
  | processing | responding services'' resp | sending services'' resp | escaped services'' =>
    rw [hp] at hret
    cases hret

/-- A request for method `m` of service `s`. -/
def sampleRequest : RpcRequest :=
  { serviceName := [115], methodName := [109], timeoutMs := 5000, params := [] }

/-- The header of this request. -/
def sampleHeader : RpcHeader := requestHeader 7 (UInt32.ofNat sampleRequest.serialize.length)

/-- A server with one service, whose method `m` always does the same. -/
def sampleServices (outcome : HandleOutcome) : ServiceManager :=
  ServiceManager.registerService ∅
    (some { name := [115], methods := [[109]], handle := fun _ _ => outcome })

/-- The io thread reads the request from connection 0 and enters `on_message`. -/
def readSample : List Act :=
  [.conn 0 .startRead, .conn 0 (.readHeader (serializeHeader sampleHeader)),
    .conn 0 (.readBody sampleRequest.serialize), .enter 0]

/-- The io thread answers the request itself. -/
def answerInline : List Act :=
  let (header, body) := sendResponse sampleHeader { errorCode := 0, errorMsg := [], result := [] }
  let frame := Connection.frame header body
  readSample ++ [.process 0, .send 0, .conn 0 (.push none frame), .conn 0 (.pop none),
    .conn 0 (.startWrite none frame), .done 0, .leave 0]

/-- A server without a pool answers a request whose handler returns. -/
theorem response_sent_returned :
    ∃ s : Server, Reachable step (init (sampleServices (.returned [])) none) s ∧ Settled s ∧
      (s.conns 0).delivered[0]? = some (sampleHeader, sampleRequest.serialize) ∧
      Answered s 0 0 sampleHeader := by
  obtain ⟨s, hrun, hquiet, hm, hstopped, hreturned⟩ :
      ∃ s ∈ run step (init (sampleServices (.returned [])) none) answerInline, Quiet 1 s ∧
        (s.conns 0).delivered[0]? = some (sampleHeader, sampleRequest.serialize) ∧
        ((0, 0), true) ∉ s.entered ∧
        ∀ inv ∈ s.invocations, inv.progress.isReturned = true := by
    decide
  have hs := reachable_of_run _ hrun
  have hset := settled_of_quiet (untouched_of_run _ (by decide) hrun) hquiet
  exact ⟨s, hs, hset, hm, ((response_sent_iff _ none s hs 0 0 _ _ hm).2.2.2 hset).mpr
    (answerable_of_returned hs hm hstopped hreturned)⟩

/-- The only worker of a pool runs the request while the io thread goes on. -/
def runPooled : List Act :=
  readSample ++ [.pool (.notifyOne 0 none), .leave 0, .pool (.check 0), .activate 0, .process 0,
    .finish 0, .pool (.deactivate 0), .pool (.count 0), .pool (.settle 0),
    .pool (.notifyDrain 0 none), .pool (.check 0)]

/-- A handler that throws something else than a `std::runtime_error` leaves its
    request without a response: with a pool the exception is lost in the future of
    the task, without one it ends the event loop. -/
theorem otherException_unanswered :
    (∃ s : Server, Reachable step (init (sampleServices .otherException) (some (1, 1))) s ∧
      Settled s ∧ (s.conns 0).delivered[0]? = some (sampleHeader, sampleRequest.serialize) ∧
      s.loopDead = false ∧ ¬Answered s 0 0 sampleHeader) ∧
    ∃ s : Server, Reachable step (init (sampleServices .otherException) none) s ∧
      Settled s ∧ (s.conns 0).delivered[0]? = some (sampleHeader, sampleRequest.serialize) ∧
      s.loopDead = true ∧ ¬Answered s 0 0 sampleHeader := by
  -- without a send there is no answer
  have hnone : ∀ s : Server, s.sends = [] → ¬Answered s 0 0 sampleHeader := by
    rintro s hsends ⟨⟨x, hx, -⟩, -⟩
    rw [hsends] at hx
    cases hx
  constructor
  · obtain ⟨s, hrun, hquiet, hm, halive, hsends⟩ :
        ∃ s ∈ run step (init (sampleServices .otherException) (some (1, 1))) runPooled,
          Quiet 1 s ∧
          (s.conns 0).delivered[0]? = some (sampleHeader, sampleRequest.serialize) ∧
          s.loopDead = false ∧ s.sends = [] := by
      decide
    exact ⟨s, reachable_of_run _ hrun,
      settled_of_quiet (untouched_of_run _ (by decide) hrun) hquiet, hm, halive, hnone s hsends⟩
  · obtain ⟨s, hrun, hquiet, hm, hdead, hsends⟩ :
        ∃ s ∈ run step (init (sampleServices .otherException) none) (readSample ++ [.process 0]),
          Quiet 1 s ∧
          (s.conns 0).delivered[0]? = some (sampleHeader, sampleRequest.serialize) ∧
          s.loopDead = true ∧ s.sends = [] := by
      decide
    exact ⟨s, reachable_of_run _ hrun,
      settled_of_quiet (untouched_of_run _ (by decide) hrun) hquiet, hm, hdead, hnone s hsends⟩

end Rpc.Server
