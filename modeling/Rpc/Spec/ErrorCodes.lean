import Mathlib.Data.List.Induction
import Rpc.ForStd.List
import Rpc.Spec.ResponseCorrect

/-!
# What the error code of a response says

`process_request` recovers the error code from the text of the exception it caught:
the text names what happened only as long as the names and messages in it do not
contain the words the search looks for.  `error_codes_iff` says exactly when the code
tells what happened, for every history of registrations.

`Registered` is what a history of calls means, without the map; `getService_history`
says that the map keeps it.
-/

namespace Rpc

/-! ## Histories of registrations -/

/-- A call of `register_service` or `unregister_service`. -/
inductive ServiceOp where
  | register (service : Option Service)
  | unregister (name : Bytes)

/-- The call replaces or removes the service of this name. -/
def ServiceOp.changes (name : Bytes) : ServiceOp → Prop
  | .register (some service) => service.name = name
  | .register none => False
  | .unregister n => n = name

namespace ServiceManager

/-- What the call does to `services_`. -/
def apply (mgr : ServiceManager) : ServiceOp → ServiceManager
  | .register service => mgr.registerService service
  | .unregister name => mgr.unregisterService name

/-- The services after these calls, in order. -/
def history (ops : List ServiceOp) : ServiceManager := ops.foldl apply ∅

end ServiceManager

/-- `svc` is the service most recently registered as `name` and not unregistered since. -/
def Registered (ops : List ServiceOp) (name : Bytes) (svc : Service) : Prop :=
  ∃ before after, ops = before ++ .register (some svc) :: after ∧ svc.name = name ∧
    ∀ op ∈ after, ¬op.changes name

/-- A later call that has to do with another service changes nothing. -/
theorem registered_append_iff {ops : List ServiceOp} {op : ServiceOp} {name : Bytes}
    {svc : Service} (hop : ¬op.changes name) :
    Registered (ops ++ [op]) name svc ↔ Registered ops name svc := by
  constructor
  · rintro ⟨before, after, heq, hname, hlater⟩
    -- the last call is not the registration, so it comes after it
    induction after using List.reverseRecOn with
    | nil =>
      obtain ⟨-, hlast⟩ := List.append_inj' heq rfl
      obtain rfl := List.singleton_inj.mp hlast
      exact absurd hname hop
    | append_singleton after last _ =>
      have heq' : ops ++ [op] = (before ++ .register (some svc) :: after) ++ [last] := by
        rw [heq, List.append_assoc, List.cons_append]
      obtain ⟨rfl, -⟩ := List.append_inj' heq' rfl
      exact ⟨before, after, rfl, hname, fun o ho => hlater o (List.mem_append_left _ ho)⟩
  · rintro ⟨before, after, rfl, hname, hlater⟩
    refine ⟨before, after ++ [op], by rw [List.append_assoc, List.cons_append], hname, ?_⟩
    intro o ho
    obtain ho | ho := List.mem_append.mp ho
    · exact hlater o ho
    · rw [List.mem_singleton.mp ho]
      exact hop

/-- The last call decides about the service it names. -/
theorem registered_append_changes {ops : List ServiceOp} {op : ServiceOp} {name : Bytes}
    {svc : Service} (hop : op.changes name) :
    Registered (ops ++ [op]) name svc ↔ op = .register (some svc) := by
  constructor
  · rintro ⟨before, after, heq, hname, hlater⟩
    -- nothing about this service comes after its registration
    induction after using List.reverseRecOn with
    | nil =>
      obtain ⟨-, hlast⟩ := List.append_inj' heq rfl
      exact List.singleton_inj.mp hlast
    | append_singleton after last _ =>
      have heq' : ops ++ [op] = (before ++ .register (some svc) :: after) ++ [last] := by
        rw [heq, List.append_assoc, List.cons_append]
      obtain ⟨-, hlast⟩ := List.append_inj' heq' rfl
      obtain rfl := List.singleton_inj.mp hlast
      exact absurd hop (hlater op (List.mem_append_right _ (List.mem_singleton.mpr rfl)))
  · rintro rfl
    exact ⟨ops, [], rfl, hop, nofun⟩

/-- `services_` holds under each name what the history says. -/
theorem getService_history (ops : List ServiceOp) (name : Bytes) (svc : Service) :
    (ServiceManager.history ops).getService name = some svc ↔ Registered ops name svc := by
  induction ops using List.reverseRecOn with
  | nil =>
    constructor
    · intro h
      cases h
    · rintro ⟨before, after, heq, -⟩
      exact absurd heq.symm (by simp)
  | append_singleton ops op ih =>
    have hlast : ServiceManager.history (ops ++ [op]) = (ServiceManager.history ops).apply op := by
      simp only [ServiceManager.history, List.foldl_append, List.foldl_cons, List.foldl_nil]
    rw [hlast]
    by_cases hop : op.changes name
    · rw [registered_append_changes hop]
      cases op with
      | register service =>
        cases service with
        | none => exact absurd hop id
        | some service =>
          -- registered under this name: the map has it there
          obtain rfl : service.name = name := hop
          simp [ServiceManager.apply, ServiceManager.registerService, ServiceManager.getService]
      | unregister n =>
        -- unregistered: the map has nothing there
        obtain rfl : n = name := hop
        simp [ServiceManager.apply, ServiceManager.unregisterService, ServiceManager.getService]
    · rw [registered_append_iff hop, ← ih]
      cases op with
      | register service =>
        cases service with
        | none => rfl
        | some service =>
          have hne : name ≠ service.name := fun h => hop h.symm
          simp only [ServiceManager.apply, ServiceManager.registerService,
            ServiceManager.getService, AList.lookup_insert_ne hne]
      | unregister n =>
        have hne : name ≠ n := fun h => hop h.symm
        simp only [ServiceManager.apply, ServiceManager.unregisterService,
          ServiceManager.getService, AList.lookup_erase_ne hne]

/-! ## The search in the text -/

/-- The words for an unknown service are found in the text thrown for one. -/
theorem errorCodeOfText_service (name : Bytes) :
    errorCodeOfText (Bytes.cStr (Bytes.ofString "service not found: " ++ name)) =
      .serviceNotFound := by
  have hfound : Bytes.ofString "service not found" <:+:
      Bytes.cStr (Bytes.ofString "service not found: " ++ name) := by
    -- the words in front have no NUL, so that they stay when the text is cut
    rw [cStr_append (by decide)]
    exact ⟨[], Bytes.ofString ": " ++ name.cStr, rfl⟩
  exact if_pos hfound

/-- In the text thrown for an unknown method they can only come from the names: no
    letter of the words in front of these is an `s`. -/
theorem errorCodeOfText_method (name method : Bytes) :
    errorCodeOfText (Bytes.cStr (Bytes.ofString "method not found: " ++ name ++
      Bytes.ofString "." ++ method)) =
      if Bytes.ofString "service not found" <:+:
          Bytes.cStr (name ++ Bytes.ofString "." ++ method) then .serviceNotFound
      else .methodNotFound := by
  have htext : Bytes.cStr (Bytes.ofString "method not found: " ++ name ++ Bytes.ofString "." ++
      method) = Bytes.ofString "method not found: " ++
      Bytes.cStr (name ++ Bytes.ofString "." ++ method) := by
    rw [List.append_assoc, List.append_assoc, cStr_append (by decide), List.append_assoc]
  have hservice : ∀ text : Bytes,
      (Bytes.ofString "service not found" <:+: Bytes.ofString "method not found: " ++ text) ↔
        Bytes.ofString "service not found" <:+: text := by
    intro text
    exact List.infix_append_iff_of_not_mem (c := 115) text (by decide)
  have hmethod : ∀ text : Bytes,
      Bytes.ofString "method not found" <:+: Bytes.ofString "method not found: " ++ text :=
    fun text => ⟨[], Bytes.ofString ": " ++ text, rfl⟩
  rw [htext, errorCodeOfText]
  simp only [hservice, hmethod, if_true]

/-- The code for a text is the one for an internal error exactly when the search finds
    neither of the two. -/
theorem errorCodeOfText_internal_iff (err : Bytes) :
    errorCodeOfText err = .internalError ↔
      ¬Bytes.ofString "service not found" <:+: err ∧
        ¬Bytes.ofString "method not found" <:+: err := by
  unfold errorCodeOfText
  split
  · simp_all
  · split <;> simp_all

/-- The codes have different numbers. -/
theorem ErrorCode.toInt32_inj {a b : ErrorCode} : a.toInt32 = b.toInt32 ↔ a = b := by
  constructor
  · intro h
    cases a <;> cases b <;> first | rfl | exact absurd h (by decide)
  · intro h
    rw [h]

/-! ## What the codes tell -/

/-- `process_request` answers with this code. -/
def Answers (mgr : ServiceManager) (header : RpcHeader) (body : Bytes) (code : ErrorCode) : Prop :=
  ∃ resp, processRequest mgr header body = .ok resp ∧ resp.errorCode = code.toInt32

/-- The code of the answer to this request tells what happened. -/
structure CodesTell (ops : List ServiceOp) (header : RpcHeader) (body : Bytes)
    (req : RpcRequest) : Prop where
  service : Answers (.history ops) header body .serviceNotFound ↔
    ¬∃ svc, Registered ops req.serviceName svc
  method : Answers (.history ops) header body .methodNotFound ↔
    ∃ svc, Registered ops req.serviceName svc ∧ req.methodName ∉ svc.methods
  internal : Answers (.history ops) header body .internalError ↔
    ∃ svc, Registered ops req.serviceName svc ∧ req.methodName ∈ svc.methods ∧
      ∃ what, svc.handle req.methodName req.params = .runtimeError what
  ok : ∀ result,
    (∃ resp, processRequest (.history ops) header body = .ok resp ∧
      resp.errorCode = ErrorCode.ok.toInt32 ∧ resp.result = result) ↔
    ∃ svc, Registered ops req.serviceName svc ∧ req.methodName ∈ svc.methods ∧
      svc.handle req.methodName req.params = .returned result

/-- The names of an unknown method, and the message of a handler's exception, are free
    of the words the search looks for. -/
def TextsClear (ops : List ServiceOp) (req : RpcRequest) : Prop :=
  ∀ svc, Registered ops req.serviceName svc →
    (req.methodName ∉ svc.methods →
      ¬Bytes.ofString "service not found" <:+:
        Bytes.cStr (req.serviceName ++ Bytes.ofString "." ++ req.methodName)) ∧
    (req.methodName ∈ svc.methods →
      ∀ what, svc.handle req.methodName req.params = .runtimeError what →
        ¬Bytes.ofString "service not found" <:+: what.cStr ∧
          ¬Bytes.ofString "method not found" <:+: what.cStr)

section

variable {ops : List ServiceOp} {header : RpcHeader} {body : Bytes} {req : RpcRequest}

/-- A request that decodes is dispatched. -/
theorem processRequest_of_decoded (mgr : ServiceManager)
    (htype : header.msgType = MsgType.request.toUInt8)
    (hreq : RpcRequest.deserialize body = .ok req) :
    processRequest mgr header body = dispatchRequest mgr req := by
  simp only [processRequest, htype, ne_eq, not_true_eq_false, if_false, hreq]

/-- The answer is the one with this code when an exception with this text is caught. -/
theorem answers_iff_of_text {mgr : ServiceManager} {err : Bytes}
    (h : processRequest mgr header body =
      .ok { errorCode := (errorCodeOfText err).toInt32, errorMsg := err, result := [] })
    (code : ErrorCode) : Answers mgr header body code ↔ errorCodeOfText err = code := by
  constructor
  · rintro ⟨resp, hresp, hcode⟩
    rw [h] at hresp
    obtain rfl := Except.ok.inj hresp
    exact ErrorCode.toInt32_inj.mp hcode
  · rintro rfl
    exact ⟨_, h, rfl⟩

/-- The answer to a request for a service nobody has registered. -/
theorem codesTell_unknownService (htype : header.msgType = MsgType.request.toUInt8)
    (hreq : RpcRequest.deserialize body = .ok req)
    (hnone : ∀ svc, ¬Registered ops req.serviceName svc) : CodesTell ops header body req := by
  -- the map holds what the history says
  have hget : (ServiceManager.history ops).getService req.serviceName = none := by
    cases h : (ServiceManager.history ops).getService req.serviceName with
    | none => rfl
    | some svc => exact absurd ((getService_history ops _ svc).mp h) (hnone svc)
  have hproc := processRequest_of_decoded (.history ops) htype hreq
  simp only [dispatchRequest, ServiceManager.dispatch, hget] at hproc
  have hans := answers_iff_of_text hproc
  rw [errorCodeOfText_service] at hproc
  simp only [errorCodeOfText_service] at hans
  constructor
  · simp [hans, hnone]
  · simp [hans, hnone]
  · simp [hans, hnone]
  · intro result
    simp [hproc, hnone, ErrorCode.toInt32]

/-- A registered service is the only one under its name. -/
theorem Registered.only {name : Bytes} {svc : Service} (hsvc : Registered ops name svc)
    (svc' : Service) : Registered ops name svc' ↔ svc' = svc := by
  have hget := (getService_history ops _ svc).mpr hsvc
  rw [← getService_history, hget, Option.some.injEq, eq_comm]

/-- `dispatch` of a registered service. -/
theorem dispatch_of_registered {name : Bytes} {svc : Service} (hsvc : Registered ops name svc)
    (method params : Bytes) : (ServiceManager.history ops).dispatch name method params =
      if method ∉ svc.methods then
        .error (.runtimeError (Bytes.ofString "method not found: " ++ name ++
          Bytes.ofString "." ++ method))
      else (svc.handle method params).toExcept := by
  have hget := (getService_history ops _ svc).mpr hsvc
  simp only [ServiceManager.dispatch, hget]

section

variable (htype : header.msgType = MsgType.request.toUInt8)
  (hreq : RpcRequest.deserialize body = .ok req) {svc : Service}
  (hsvc : Registered ops req.serviceName svc)

include htype hreq hsvc

/-- The answers to a request for a method the service does not have. -/
theorem codesTell_iff_unknownMethod (hm : req.methodName ∉ svc.methods) :
    CodesTell ops header body req ↔ TextsClear ops req := by
  have honly := hsvc.only
  have hproc := processRequest_of_decoded (.history ops) htype hreq
  simp only [dispatchRequest, dispatch_of_registered hsvc, hm, not_false_eq_true, if_true] at hproc
  have hans := answers_iff_of_text hproc
  -- of the texts only that of the unknown method is looked into
  have hclear : TextsClear ops req ↔ ¬Bytes.ofString "service not found" <:+:
      Bytes.cStr (req.serviceName ++ Bytes.ofString "." ++ req.methodName) := by
    simp [TextsClear, honly, hm]
  rw [hclear]
  simp only [errorCodeOfText_method] at hans hproc
  constructor
  · intro htell hfound
    -- the search answers for an unknown service, but this one is registered
    have hcode := htell.service.mp ((hans .serviceNotFound).mpr (if_pos hfound))
    exact hcode ⟨svc, hsvc⟩
  · intro hfree
    simp only [hfree, if_false] at hans hproc
    constructor
    · simp [hans, honly]
    · simp [hans, honly, hm]
    · simp [hans, honly, hm]
    · intro result
      simp [hproc, honly, hm, ErrorCode.toInt32]

/-- The answers to a request whose handler throws a `std::exception`. -/
theorem codesTell_iff_runtimeError (hm : req.methodName ∈ svc.methods) {what : Bytes}
    (hh : svc.handle req.methodName req.params = .runtimeError what) :
    CodesTell ops header body req ↔ TextsClear ops req := by
  have honly := hsvc.only
  have hproc := processRequest_of_decoded (.history ops) htype hreq
  simp only [dispatchRequest, dispatch_of_registered hsvc, hm, not_true_eq_false, if_false, hh,
    HandleOutcome.toExcept] at hproc
  have hans := answers_iff_of_text hproc
  -- of the texts only that of the exception is looked into
  have hclear : TextsClear ops req ↔ errorCodeOfText what.cStr = .internalError := by
    rw [errorCodeOfText_internal_iff]
    simp [TextsClear, honly, hm, hh]
  rw [hclear]
  constructor
  · intro htell
    -- the handler threw, so that the code has to be the one for internal errors
    exact (hans .internalError).mp (htell.internal.mpr ⟨svc, hsvc, hm, what, hh⟩)
  · intro hinternal
    simp only [hinternal] at hans hproc
    constructor
    · simp [hans, honly]
    · simp [hans, honly, hm]
    · simp [hans, honly, hm, hh]
    · intro result
      simp [hproc, honly, hm, hh, ErrorCode.toInt32]

/-- The answers to a request whose handler throws none. -/
theorem codesTell_of_noError (hm : req.methodName ∈ svc.methods)
    (hh : ∀ what, svc.handle req.methodName req.params ≠ .runtimeError what) :
    CodesTell ops header body req := by
  have honly := hsvc.only
  have hproc := processRequest_of_decoded (.history ops) htype hreq
  simp only [dispatchRequest, dispatch_of_registered hsvc, hm, not_true_eq_false,
    if_false] at hproc
  cases hout : svc.handle req.methodName req.params with
  -- a value is answered with the code 0
  | returned result =>
    simp only [hout, HandleOutcome.toExcept] at hproc
    constructor
    · simp [Answers, hproc, honly, ErrorCode.toInt32]
    · simp [Answers, hproc, honly, hm, ErrorCode.toInt32]
    · simp [Answers, hproc, honly, hm, hout, ErrorCode.toInt32]
    · intro result'
      simp [hproc, honly, hm, hout, ErrorCode.toInt32]
  -- anything else leaves `process_request`: there is no answer
  | otherException =>
    simp only [hout, HandleOutcome.toExcept] at hproc
    constructor
    · simp [Answers, hproc, honly]
    · simp [Answers, hproc, honly, hm]
    · simp [Answers, hproc, honly, hm, hout]
    · intro result
      simp [hproc, honly, hm, hout]
  | runtimeError what => exact absurd hout (hh what)

/-- The answers of a registered service, by what became of the call. -/
theorem codesTell_iff_registered : CodesTell ops header body req ↔ TextsClear ops req := by
  by_cases hm : req.methodName ∈ svc.methods
  · by_cases hh : ∃ what, svc.handle req.methodName req.params = .runtimeError what
    · obtain ⟨what, hh⟩ := hh
      exact codesTell_iff_runtimeError htype hreq hsvc hm hh
    · have hnone : ∀ what, svc.handle req.methodName req.params ≠ .runtimeError what :=
        fun what h => hh ⟨what, h⟩
      have hclear : TextsClear ops req := by
        simp [TextsClear, hsvc.only, hm, hnone]
      exact ⟨fun _ => hclear, fun _ => codesTell_of_noError htype hreq hsvc hm hnone⟩
  · exact codesTell_iff_unknownMethod htype hreq hsvc hm

end

end

/-- The error code of the answer to a request tells what happened to it exactly when
    the texts the search looks into are free of its words.  A body that does not
    decode is answered as such. -/
theorem error_codes_iff (ops : List ServiceOp) (header : RpcHeader) (body : Bytes)
    (htype : header.msgType = MsgType.request.toUInt8) :
    (∀ req, RpcRequest.deserialize body = .ok req →
      (CodesTell ops header body req ↔ TextsClear ops req)) ∧
    ((¬∃ req, RpcRequest.deserialize body = .ok req) →
      Answers (.history ops) header body .deserializeError) := by
  constructor
  · intro req hreq
    by_cases hsvc : ∃ svc, Registered ops req.serviceName svc
    · obtain ⟨svc, hsvc⟩ := hsvc
      exact codesTell_iff_registered htype hreq hsvc
    · have hnone : ∀ svc, ¬Registered ops req.serviceName svc :=
        fun svc h => hsvc ⟨svc, h⟩
      exact ⟨fun _ svc h => absurd h (hnone svc),
        fun _ => codesTell_unknownService htype hreq hnone⟩
  · intro hbad
    -- a body that does not decode throws
    obtain ⟨what, hwhat⟩ | ⟨req, hreq, _⟩ := RpcRequest.deserialize_throwsOr body
    · simp [Answers, processRequest, htype, hwhat]
    · exact absurd ⟨req, hreq⟩ hbad

/-- Service `a` with method `b`, whose handler does the same on every call. -/
private def oneMethod (outcome : HandleOutcome) : Service :=
  { name := [97], methods := [[98]], handle := fun _ _ => outcome }

/-- A service that has been replaced and whose handler throws `"b"`: its callers learn
    that something went wrong inside. -/
theorem error_codes_handlerThrows :
    let ops : List ServiceOp := [.register (some (oneMethod (.returned []))), .register none,
      .unregister [99], .register (some (oneMethod (.runtimeError [98])))]
    let req : RpcRequest := ⟨[97], [98], 5000, []⟩
    RpcRequest.deserialize req.serialize = .ok req ∧
      CodesTell ops (requestHeader 1 14) req.serialize req ∧
      Answers (.history ops) (requestHeader 1 14) req.serialize .internalError := by
  intro ops req
  have hreq : RpcRequest.deserialize req.serialize = .ok req := by decide
  -- the text of the exception has neither of the words in it
  have hclear : TextsClear ops req := by
    intro svc hsvc
    have hget := (getService_history ops [97] svc).mpr hsvc
    obtain rfl : oneMethod (.runtimeError [98]) = svc := Option.some.inj hget
    refine ⟨fun h => absurd (by decide) h, fun _ what hwhat => ?_⟩
    obtain rfl : [98] = what := HandleOutcome.runtimeError.inj hwhat
    exact ⟨by decide, by decide⟩
  have htell := ((error_codes_iff ops (requestHeader 1 14) req.serialize rfl).1 req hreq).mpr hclear
  refine ⟨hreq, htell, htell.internal.mpr ⟨oneMethod (.runtimeError [98]), ?_, ?_, [98], rfl⟩⟩
  · exact ⟨[.register (some (oneMethod (.returned []))), .register none, .unregister [99]], [],
      rfl, rfl, nofun⟩
  · exact List.mem_singleton.mpr rfl

/-- A registered service is reported as not found when its handler throws an error that
    speaks of another service not found, and when a caller asks it for a method of
    that name. -/
theorem error_codes_misreport :
    (let ops : List ServiceOp :=
      [.register (some (oneMethod (.runtimeError (Bytes.ofString "db: service not found"))))]
     let req : RpcRequest := ⟨[97], [98], 5000, []⟩
     RpcRequest.deserialize req.serialize = .ok req ∧
       Answers (.history ops) (requestHeader 1 14) req.serialize .serviceNotFound ∧
       ¬CodesTell ops (requestHeader 1 14) req.serialize req) ∧
    let ops : List ServiceOp := [.register (some (oneMethod (.returned [])))]
    let req : RpcRequest := ⟨[97], Bytes.ofString "service not found", 5000, []⟩
    RpcRequest.deserialize req.serialize = .ok req ∧
      Answers (.history ops) (requestHeader 1 30) req.serialize .serviceNotFound ∧
      ¬CodesTell ops (requestHeader 1 30) req.serialize req := by
  constructor
  · intro ops req
    -- the words are in the text of the handler
    have hproc : processRequest (.history ops) (requestHeader 1 14) req.serialize =
        .ok ⟨-1, Bytes.ofString "db: service not found", []⟩ := by decide
    refine ⟨by decide, ⟨_, hproc, rfl⟩, fun htell => ?_⟩
    exact htell.service.mp ⟨_, hproc, rfl⟩ ⟨_, [], [], rfl, rfl, nofun⟩
  · intro ops req
    -- the words are in the name of the method
    have hproc : processRequest (.history ops) (requestHeader 1 30) req.serialize =
        .ok ⟨-1, Bytes.ofString "method not found: a.service not found", []⟩ := by decide
    refine ⟨by decide, ⟨_, hproc, rfl⟩, fun htell => ?_⟩
    exact htell.service.mp ⟨_, hproc, rfl⟩ ⟨_, [], [], rfl, rfl, nofun⟩

end Rpc
