import Rpc.Native.Service
import Rpc.Spec.ProtocolCorrect

/-!
# Responses on the wire

When can a client decode the response body the server sends to the response
the server computed?  `sendResponse_decodes_iff` says: exactly when the error
message fits its 16-bit length field.  Which messages arise is the business of
`process_request`; `dispatchRequest_decodes_iff` turns the condition into one
on the request and on what the handler throws.
-/

namespace Rpc

/-- The body `send_response` puts on the wire decodes to `resp`, and its header
    announces its length. -/
def Decodes (reqHeader : RpcHeader) (resp : RpcResponse) : Prop :=
  RpcResponse.deserialize (sendResponse reqHeader resp).2 = .ok resp ∧
    (sendResponse reqHeader resp).1.bodySize.toNat = (sendResponse reqHeader resp).2.length

/-- A response that `process_request` builds has a message or a result, not both. -/
theorem sendResponse_decodes_iff (reqHeader : RpcHeader) (resp : RpcResponse)
    (hresult : resp.result.length < 2 ^ 32 - 10)
    (hone : resp.errorMsg = [] ∨ resp.result = []) :
    Decodes reqHeader resp ↔ resp.errorMsg.length ≤ 65535 := by
  constructor
  · intro ⟨hdecode, _⟩
    -- what the parser returns fits its length fields
    exact ((RpcResponse.exactParser.accepts _ _).mp hdecode).2.1
  · intro hmsg
    refine ⟨RpcResponse.exactParser.roundTrip resp ⟨hmsg, by omega⟩, ?_⟩
    simp only [sendResponse]
    apply UInt32.toNat_ofNat_of_lt'
    rw [RpcResponse.serialize_length]
    -- 10 bytes of fields, and only one of the two texts
    rcases hone with h | h <;> simp only [h, List.length_nil, UInt32.size] at * <;> omega

/-! ## Texts of exceptions -/

/-- The literals in front of a name hold no NUL, so `what()` starts with them. -/
theorem cStr_append {lit : Bytes} (hlit : (0 : UInt8) ∉ lit) (s : Bytes) :
    Bytes.cStr (lit ++ s) = lit ++ s.cStr := by
  induction lit with
  | nil => rfl
  | cons b lit ih =>
    simp only [List.mem_cons, not_or] at hlit
    have hb : b ≠ 0 := fun h => hlit.1 h.symm
    have ih := ih hlit.2
    simp only [Bytes.cStr, List.cons_append] at ih ⊢
    rw [List.takeWhile_cons_of_pos (by simpa using hb), ih]

/-- A text without a NUL is not cut. -/
private theorem cStr_replicate (n : Nat) :
    Bytes.cStr (List.replicate n 97) = List.replicate n 97 := by
  simp [Bytes.cStr]

/-- The length of the text for an unknown service. -/
theorem serviceNotFound_cStr_length (name : Bytes) :
    (Bytes.cStr (Bytes.ofString "service not found: " ++ name)).length = 19 + name.cStr.length := by
  rw [cStr_append (by decide), List.length_append]
  rfl

/-- The length of the text for an unknown method. -/
theorem methodNotFound_cStr_length (name method : Bytes) :
    (Bytes.cStr (Bytes.ofString "method not found: " ++ name ++ Bytes.ofString "." ++
      method)).length = 18 + (Bytes.cStr (name ++ Bytes.ofString "." ++ method)).length := by
  rw [List.append_assoc, List.append_assoc, cStr_append (by decide), List.length_append,
    List.append_assoc]
  rfl

/-! ## Which requests are answered decodably -/

/-- The outcomes of a request that `process_request` turns into a response: the
    handler, when one is reached, returns fewer than `2 ^ 32 - 10` bytes or
    throws a `std::runtime_error`. -/
def Caught (mgr : ServiceManager) (req : RpcRequest) : Prop :=
  ∀ svc, mgr.getService req.serviceName = some svc → req.methodName ∈ svc.methods →
    match svc.handle req.methodName req.params with
    | .returned result => result.length < 2 ^ 32 - 10
    | .runtimeError _ => True
    | .otherException => False

/-- The texts thrown for this request fit a 16-bit length: the name of an
    unknown service, the qualified name of an unknown method, the message of a
    handler's exception. -/
def ErrorTextFits (mgr : ServiceManager) (req : RpcRequest) : Prop :=
  match mgr.getService req.serviceName with
  | none => req.serviceName.cStr.length ≤ 65516
  | some svc =>
    (req.methodName ∉ svc.methods →
      (Bytes.cStr (req.serviceName ++ Bytes.ofString "." ++ req.methodName)).length ≤ 65517) ∧
    (req.methodName ∈ svc.methods → ∀ what,
      svc.handle req.methodName req.params = .runtimeError what → what.cStr.length ≤ 65535)

/-- A caught request is answered, and the answer decodes exactly when the text
    thrown for it fits. -/
theorem dispatchRequest_decodes_iff (mgr : ServiceManager) (header : RpcHeader)
    (req : RpcRequest) (hcaught : Caught mgr req) :
    ∃ resp, dispatchRequest mgr req = .ok resp ∧
      (Decodes header resp ↔ ErrorTextFits mgr req) := by
  simp only [dispatchRequest, ServiceManager.dispatch, ErrorTextFits]
  cases hsvc : mgr.getService req.serviceName with
  -- the text is 19 bytes longer than the name
  | none =>
    refine ⟨_, rfl, ?_⟩
    rw [sendResponse_decodes_iff header _ (by simp) (.inr rfl)]
    simp only [serviceNotFound_cStr_length]
    omega
  | some svc =>
    by_cases hm : req.methodName ∈ svc.methods
    · have houtcome := hcaught svc hsvc hm
      simp only [hm, not_true_eq_false, if_false]
      cases hh : svc.handle req.methodName req.params with
      | returned result =>
        simp only [hh] at houtcome
        refine ⟨_, rfl, ?_⟩
        rw [sendResponse_decodes_iff header _ houtcome (.inl rfl)]
        simp
      | runtimeError what =>
        refine ⟨_, rfl, ?_⟩
        rw [sendResponse_decodes_iff header _ (by simp) (.inr rfl)]
        simp
      -- this would leave `process_request`
      | otherException => simp [hh] at houtcome
    · simp only [hm, not_false_eq_true, if_true]
      refine ⟨_, rfl, ?_⟩
      rw [sendResponse_decodes_iff header _ (by simp) (.inr rfl)]
      simp only [methodNotFound_cStr_length, true_imp_iff, false_imp_iff, and_true]
      omega

/-- The request reaches a handler that throws something else than a
    `std::runtime_error`. -/
def HandlerThrows (mgr : ServiceManager) (header : RpcHeader) (body : Bytes) : Prop :=
  header.msgType = MsgType.request.toUInt8 ∧
    ∃ req svc, RpcRequest.deserialize body = .ok req ∧ mgr.getService req.serviceName = some svc ∧
      req.methodName ∈ svc.methods ∧ svc.handle req.methodName req.params = .otherException

/-- An exception leaves `process_request` exactly when the handler throws one
    that is not a `std::runtime_error`. -/
theorem processRequest_error_iff (mgr : ServiceManager) (header : RpcHeader) (body : Bytes) :
    (∃ fault, processRequest mgr header body = .error fault) ↔ HandlerThrows mgr header body := by
  unfold processRequest HandlerThrows
  by_cases htype : header.msgType = MsgType.request.toUInt8
  · simp only [htype, ne_eq, not_true_eq_false, if_false, true_and]
    obtain ⟨what, hwhat⟩ | ⟨req, hreq, _⟩ := RpcRequest.deserialize_throwsOr body
    -- the body does not decode: `catch (const std::exception&)`
    · simp [hwhat]
    · simp only [hreq, Except.ok.injEq, dispatchRequest, ServiceManager.dispatch]
      cases hsvc : mgr.getService req.serviceName with
      | none => simp [hsvc]
      | some svc =>
        by_cases hm : req.methodName ∈ svc.methods
        · cases hh : svc.handle req.methodName req.params <;>
            simp [hsvc, hm, hh, HandleOutcome.toExcept]
        · simp [hsvc, hm]
  · simp [htype]

/-- Every request body the server accepts is answered, and the body of the
    answer decodes to the response the server computed exactly when the frame is
    not a request or the text thrown for it fits a 16-bit length. -/
theorem response_decodes_iff (mgr : ServiceManager) (header : RpcHeader) (body : Bytes)
    (req : RpcRequest) (hreq : RpcRequest.deserialize body = .ok req)
    (hcaught : Caught mgr req) :
    (∃ resp, processRequest mgr header body = .ok resp ∧ Decodes header resp) ↔
      (header.msgType = MsgType.request.toUInt8 → ErrorTextFits mgr req) := by
  by_cases htype : header.msgType = MsgType.request.toUInt8
  -- a request is dispatched, and its response is the only one
  · obtain ⟨resp, hresp, hiff⟩ := dispatchRequest_decodes_iff mgr header req hcaught
    have hproc : processRequest mgr header body = .ok resp := by
      simp only [processRequest, htype, ne_eq, not_true_eq_false, if_false, hreq, hresp]
    constructor
    · rintro ⟨resp', hresp', hdec⟩ _
      rw [hproc] at hresp'
      obtain rfl := Except.ok.inj hresp'
      exact hiff.mp hdec
    · intro hfits
      exact ⟨resp, hproc, hiff.mpr (hfits htype)⟩
  · simp only [processRequest, ne_eq, htype, not_false_eq_true, if_true, false_implies, iff_true]
    -- not a request: the answer has a fixed text
    refine ⟨_, rfl, ?_⟩
    exact (sendResponse_decodes_iff header _ (by decide) (.inr rfl)).mpr (by decide)

/-- A server with a service `a`, whose method `b` throws a `std::runtime_error`
    with its parameters for a text. -/
def raising : ServiceManager :=
  ServiceManager.registerService ∅
    (some { name := [97], methods := [[98]], handle := fun _ params => .runtimeError params })

/-- The exception of this handler is caught, and its text arrives at the client. -/
theorem response_decodes_thrown :
    let req : RpcRequest := { serviceName := [97], methodName := [98], timeoutMs := 5000,
                              params := [110, 111] }
    (∃ svc, raising.getService req.serviceName = some svc ∧
      svc.handle req.methodName req.params = .runtimeError [110, 111]) ∧
    ∃ resp, processRequest raising (requestHeader 1 16) req.serialize = .ok resp ∧
      Decodes (requestHeader 1 16) resp := by
  intro req
  have hservice : ∀ svc, raising.getService req.serviceName = some svc →
      svc.handle req.methodName req.params = .runtimeError [110, 111] := by
    intro svc hsvc
    obtain rfl := Option.some.inj hsvc
    rfl
  have hcaught : Caught raising req := by
    intro svc hsvc _
    rw [hservice svc hsvc]
    trivial
  have hfits : ErrorTextFits raising req := by
    refine ⟨fun hnot => absurd (List.mem_singleton_self _) hnot, fun _ what hwhat => ?_⟩
    obtain rfl := HandleOutcome.runtimeError.inj hwhat
    decide
  exact ⟨⟨_, rfl, hservice _ rfl⟩,
    (response_decodes_iff raising (requestHeader 1 16) req.serialize req (by decide)
      hcaught).mpr fun _ => hfits⟩

/-- A service name of 65535 bytes, which the request format allows, makes the
    error text longer than its length field can say: the answer of a server
    without that service does not decode to what the server meant. -/
theorem longServiceName_undecodable :
    let req : RpcRequest := { serviceName := List.replicate 65535 97, methodName := [],
                              timeoutMs := 5000, params := [] }
    RpcRequest.deserialize req.serialize = .ok req ∧ Caught ∅ req ∧
      ¬∃ resp, processRequest ∅ (requestHeader 1 65547) req.serialize = .ok resp ∧
        Decodes (requestHeader 1 65547) resp := by
  intro req
  have hreq : RpcRequest.deserialize req.serialize = .ok req :=
    RpcRequest.exactParser.roundTrip req
      ⟨List.length_replicate.le, Nat.zero_le _, Nat.two_pow_pos 32⟩
  have hcaught : Caught ∅ req := fun svc h => nomatch h
  refine ⟨hreq, hcaught, ?_⟩
  rintro ⟨resp, hresp, hdec⟩
  obtain ⟨resp', hresp', hiff⟩ :=
    dispatchRequest_decodes_iff ∅ (requestHeader 1 65547) req hcaught
  have hproc : processRequest ∅ (requestHeader 1 65547) req.serialize = .ok resp' := by
    simp only [processRequest, requestHeader, ne_eq, not_true_eq_false, if_false, hreq, hresp']
  rw [hproc] at hresp
  obtain rfl := Except.ok.inj hresp
  -- 19 bytes too long for 16 bits
  have hlen : (Bytes.cStr (List.replicate 65535 97)).length ≤ 65516 := hiff.mp hdec
  rw [cStr_replicate, List.length_replicate] at hlen
  omega

end Rpc
