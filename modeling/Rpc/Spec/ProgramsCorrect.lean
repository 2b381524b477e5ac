import Rpc.Spec.CallerCorrect

/-!
# What the client prints

The server of `server_main.cpp` knows one service, and the client of
`client_main.cpp` makes three kinds of calls (`ClientQuery`).  Their requests and
responses are small and the service throws nothing, so that a run in which nothing
fails or is shut down is calm (`calm_of_steady`); and each kind has its response
(`Replies`), whatever the threads of the server do.
-/

namespace Rpc

open Transition

/-- A number below `10 ^ k` has at most `k` digits. -/
theorem length_toDecimal_le {n k : Nat} (hpos : 0 < k) (h : n < 10 ^ k) :
    (toDecimal n).length ≤ k := by
  rw [toDecimal, List.length_map]
  exact (Nat.length_toDigits_le_iff (by omega) hpos).mpr h

/-! ## The calls of the client -/

/-- The calls the client makes. -/
inductive ClientQuery : Query → Prop where
  | ping (params : Bytes) (hlen : params.length ≤ 100) : ClientQuery (pingQuery params)
  | stats : ClientQuery statsQuery
  | missing : ClientQuery missingQuery

/-- What the service answers to `Ping`. -/
def pongResponse : RpcResponse :=
  { errorCode := 0, errorMsg := [], result := Bytes.ofString "pong" }

/-- The text `Stats` returns for a number of connections. -/
def statsText (connections : UInt64) : Bytes :=
  Bytes.ofString "\x7b\"status\":\"running\",\"connections\":" ++ toDecimal connections.toNat ++
    Bytes.ofString "\x7d"

/-- What the service answers to `Stats`. -/
def statsResponse (connections : UInt64) : RpcResponse :=
  { errorCode := 0, errorMsg := [], result := statsText connections }

/-- What the server answers to a call of the service it does not have. -/
def missingResponse : RpcResponse :=
  { errorCode := ErrorCode.serviceNotFound.toInt32
    errorMsg := Bytes.ofString "service not found: NonExistentService", result := [] }

/-- What the server answers to the calls of the client. -/
inductive Replies : Query → RpcResponse → Prop where
  | ping (params : Bytes) : Replies (pingQuery params) pongResponse
  | stats (connections : UInt64) : Replies statsQuery (statsResponse connections)
  | missing : Replies missingQuery missingResponse

/-- The server answers `pong` to every `Ping`, whatever its parameters. -/
theorem dispatchRequest_ping (connections : UInt64) (params : Bytes) :
    dispatchRequest (pingServices connections) (pingQuery params).request =
      .ok pongResponse := by
  rfl

/-- The server answers its number of connections to `Stats`. -/
theorem dispatchRequest_stats (connections : UInt64) :
    dispatchRequest (pingServices connections) statsQuery.request =
      .ok (statsResponse connections) := by
  rfl

/-- The server does not find the service of the third call. -/
theorem dispatchRequest_missing (connections : UInt64) :
    dispatchRequest (pingServices connections) missingQuery.request = .ok missingResponse := by
  rfl

/-- Whatever the server answers to a call of the client is its response. -/
theorem ClientQuery.answers {q : Query} (hq : ClientQuery q) {connections : UInt64}
    {resp : RpcResponse} (h : dispatchRequest (pingServices connections) q.request = .ok resp) :
    Replies q resp := by
  cases hq with
  | ping params =>
    rw [dispatchRequest_ping] at h
    obtain rfl := Except.ok.inj h
    exact .ping params
  | stats =>
    rw [dispatchRequest_stats] at h
    obtain rfl := Except.ok.inj h
    exact .stats connections
  | missing =>
    rw [dispatchRequest_missing] at h
    obtain rfl := Except.ok.inj h
    exact .missing

/-- The requests of the client are small. -/
theorem ClientQuery.small {q : Query} (hq : ClientQuery q) : q.request.Small := by
  -- the names are fixed, and the parameters of `Ping` have at most 100 bytes
  have hping : (Bytes.ofString "PingService").length = 11 := by decide
  have hmissing : (Bytes.ofString "NonExistentService").length = 18 := by decide
  have hmethod : (Bytes.ofString "Ping").length = 4 ∧ (Bytes.ofString "Stats").length = 5 ∧
      (Bytes.ofString "Foo").length = 3 := by decide
  cases hq with
  | ping params hlen =>
    simp only [RpcRequest.Small, RpcRequest.serialize_length, Query.request, pingQuery]
    omega
  | stats =>
    simp only [RpcRequest.Small, RpcRequest.serialize_length, Query.request, statsQuery,
      List.length_nil]
    omega
  | missing =>
    simp only [RpcRequest.Small, RpcRequest.serialize_length, Query.request, missingQuery,
      List.length_nil]
    omega

/-- The responses to the client are small. -/
theorem Replies.small {q : Query} {resp : RpcResponse} (h : Replies q resp) : resp.Small := by
  cases h with
  | ping params => decide
  | stats connections =>
    have hfirst : (Bytes.ofString "\x7b\"status\":\"running\",\"connections\":").length ≤ 40 := by
      decide
    have hlast : (Bytes.ofString "\x7d").length = 1 := by decide
    -- the number of connections has 64 bits
    have hdigits : (toDecimal connections.toNat).length ≤ 20 :=
      length_toDecimal_le (by omega) (by have := connections.toNat_lt; omega)
    simp only [RpcResponse.Small, RpcResponse.serialize_length, statsResponse, statsText,
      List.length_append, List.length_nil]
    omega
  | missing => decide

/-- The service throws nothing but a `std::runtime_error`. -/
theorem not_handlerThrows_ping (connections : UInt64) (header : RpcHeader) (body : Bytes) :
    ¬HandlerThrows (pingServices connections) header body := by
  rintro ⟨-, req, svc, -, hsvc, -, hthrows⟩
  -- there is no service under another name
  have hself : svc = pingService connections := by
    by_cases hname : req.serviceName = (pingService connections).name
    · rw [hname, ServiceManager.getService, pingServices, ServiceManager.registerService,
        AList.lookup_insert] at hsvc
      exact (Option.some.inj hsvc).symm
    · rw [ServiceManager.getService, pingServices, ServiceManager.registerService,
        AList.lookup_insert_ne hname] at hsvc
      cases hsvc
  rw [hself] at hthrows
  simp only [pingService] at hthrows
  -- `Ping`, `Stats`, or the `runtime_error` for a method there is not
  split at hthrows
  · cases hthrows
  · split at hthrows <;> cases hthrows

/-! ## The server -/

namespace Server

/-- The services are those of `main`. -/
structure PingInv (s : Server) : Prop where
  services : ∃ connections, s.services = pingServices connections
  seen : ∀ inv ∈ s.invocations, ∀ services, inv.progress.services = some services →
    ∃ connections, services = pingServices connections

/-- Nothing is shut down, and the only service is the one `main` registers. -/
def steady : Act → Prop
  | .register service => ∃ connections, service = some (pingService connections)
  | .unregister _ => False
  | a => calm a = true

/-- An invocation that moves on has seen such a service, or none. -/
theorem PingInv.setProgress {s : Server} (hinv : PingInv s) {n : Nat} {inv : Invocation}
    {progress : Progress} (hnew : ∀ services, progress.services = some services →
      ∃ connections, services = pingServices connections) :
    ∀ inv' ∈ s.setProgress n inv progress, ∀ services, inv'.progress.services = some services →
      ∃ connections, services = pingServices connections := by
  intro inv' hmem
  obtain hmem | rfl := List.mem_or_eq_of_mem_set hmem
  · exact hinv.seen inv' hmem
  · exact hnew

/-- A later registration takes the place of the first. -/
theorem registerService_ping (connections connections' : UInt64) :
    (pingServices connections).registerService (some (pingService connections')) =
      pingServices connections' :=
  AList.insert_insert ∅

/-- A steady step keeps the services those of `main`. -/
theorem PingInv.step {s s' : Server} {a : Act} (h : s.step a = some s') (hsteady : steady a)
    (hinv : PingInv s) : PingInv s' := by
  -- a new invocation has not looked for its service yet
  have hstart : ∀ (thread : ThreadId) (job : Job),
      ∀ inv ∈ s.invocations ++ [{ thread, job, progress := .processing }],
        ∀ services, inv.progress.services = some services →
          ∃ connections, services = pingServices connections := by
    intro thread job inv hmem services hservices
    obtain hmem | hmem := List.mem_append.mp hmem
    · exact hinv.seen inv hmem services hservices
    · obtain rfl := List.mem_singleton.mp hmem
      cases hservices
  -- an invocation sees the services there are when it is processed
  have hseen : ∀ services, some s.services = some services →
      ∃ connections, services = pingServices connections := by
    intro services hservices
    obtain rfl := Option.some.inj hservices
    exact hinv.services
  -- one that moves on keeps what it has seen
  have hkept : ∀ {n : Nat} {inv : Invocation} {progress : Progress},
      s.invocations[n]? = some inv → progress.services = inv.progress.services →
      ∀ services, progress.services = some services →
        ∃ connections, services = pingServices connections := by
    intro n inv progress hn heq services hservices
    exact hinv.seen inv (List.mem_of_getElem? hn) services (heq.symm.trans hservices)
  cases steps_of_step h with
  | inline k job => exact ⟨hinv.services, hstart none job⟩
  | activate i pool pool' task => exact ⟨hinv.services, hstart (some i) task.job⟩
  | respond | escapeTask | escapeInline => exact ⟨hinv.services, hinv.setProgress hseen⟩
  | send n inv services resp c hn hp hc =>
    exact ⟨hinv.services, hinv.setProgress (hkept hn (by rw [hp]; rfl))⟩
  | done n inv services resp hn hp hout =>
    exact ⟨hinv.services, hinv.setProgress (hkept hn (by rw [hp]; rfl))⟩
  | services a services ha =>
    -- registered again under the same name, with another number; never unregistered
    obtain ⟨service, rfl⟩ | ⟨name, rfl⟩ := ha
    · obtain ⟨connections', rfl⟩ := hsteady
      obtain ⟨connections, hold⟩ := hinv.services
      have hnew := congrArg Server.services (Option.some.inj h)
      refine ⟨⟨connections', ?_⟩, hinv.seen⟩
      rw [← hnew, ← registerService_ping connections, ← hold]
    · exact absurd hsteady id
  | _ => exact ⟨hinv.services, hinv.seen⟩

end Server

namespace Caller

/-- Nothing fails or is shut down, and the only service is the one `main` registers. -/
def steady : Act → Prop
  | .system (.client a) => RpcClient.calm a = true
  | .system (.server a) => Server.steady a
  | .connected | .call | .get => True

section

variable {connections : UInt64} {threads : Option (UInt64 × UInt32)} {queries : List Query}
  {s : Caller}

/-- A request of the client is decoded and dispatched. -/
theorem processRequest_of_serves {inv : Server.Invocation} {call : Call}
    (h : System.Serves inv call) (services : ServiceManager) :
    processRequest services inv.job.header inv.job.body =
      dispatchRequest services call.request := by
  -- the client sends its calls as requests, so that no other type is refused
  have htype : inv.job.header.msgType = MsgType.request.toUInt8 := by rw [h.header]; rfl
  simp only [processRequest, htype, ne_eq, not_true_eq_false, if_false, h.decodes]

/-- A response of the server to the client is that to one of its calls. -/
theorem answers_of_invocation (hqueries : ∀ q ∈ queries, ClientQuery q)
    (h : Reaches step Calm (init (pingServices connections) threads queries) s)
    {inv : Server.Invocation} (hmem : inv ∈ s.system.server.invocations)
    (hconn : inv.job.conn = 0) {connections' : UInt64} {resp : RpcResponse}
    (hresp : processRequest (pingServices connections') inv.job.header inv.job.body = .ok resp) :
    ∃ q, Replies q resp := by
  -- on the connection of the client every invocation serves one of its calls
  obtain ⟨item, call, -, hcall, hserves⟩ :=
    System.serves_call (System.withinLimits_of_calm (system_reaches h)) hmem hconn
  obtain ⟨q, hq, hrequest⟩ := (turnInv_of_reaches h).query hcall
  rw [processRequest_of_serves hserves, hrequest] at hresp
  exact ⟨q, (hqueries q (List.mem_of_getElem? hq)).answers hresp⟩

/-- A steady step is calm. -/
theorem calm_step (hqueries : ∀ q ∈ queries, ClientQuery q) (hlen : queries.length < 2 ^ 31)
    (h : Reaches step Calm (init (pingServices connections) threads queries) s)
    (hping : Server.PingInv s.system.server) {a : Act} {s' : Caller} (hsteady : steady a)
    (hstep : s.step a = some s') : Calm s a := by
  have hturn := turnInv_of_reaches h
  obtain ⟨connections', hservices⟩ := hping.services
  cases steps_of_step hstep with
  | system a system hcall hs =>
    cases a with
    | client a =>
      refine ⟨?_, hsteady⟩
      cases a with
      -- the client of the test does not call by itself
      | call => cases hcall
      | _ => trivial
    | server a =>
      -- the service throws nothing a handler should not throw
      have hthrows : ∀ inv ∈ s.system.server.processes a,
          ¬HandlerThrows s.system.server.services inv.job.header inv.job.body := by
        intro inv hinv
        rw [hservices]
        exact not_handlerThrows_ping _ _ _
      have hcalm : Server.calm a = true := by
        cases a with
        | register service => rfl
        | unregister name => rfl
        | _ => exact hsteady
      refine ⟨?_, hcalm, hthrows⟩
      cases a with
      | process n =>
        intro inv hinv hconn resp hresp
        rw [hservices] at hresp
        -- a response that is processed is the one of `dispatch_request`
        have hok : processRequest (pingServices connections') inv.job.header inv.job.body =
            .ok resp := by
          cases hp : processRequest (pingServices connections') inv.job.header inv.job.body with
          | ok resp' =>
            rw [hp] at hresp
            exact congrArg Except.ok (Option.some.inj hresp)
          | error fault =>
            rw [hp] at hresp
            cases hresp
        obtain ⟨q, hanswers⟩ :=
          answers_of_invocation hqueries h (List.mem_of_getElem? hinv) hconn hok
        exact hanswers.small
      | _ => trivial
  | connected | get => trivial
  | call q todo system htodo hwaiting hs =>
    intro q' hq'
    rw [htodo] at hq'
    obtain rfl := Option.some.inj hq'
    -- the calls made and the calls to be made are those of the program
    have htotal := congrArg List.length hturn.requests
    rw [htodo] at htotal
    simp only [List.length_append, List.length_map, List.length_cons] at htotal
    -- the call made is one of the program, and its request is small
    have hmem : q.request ∈ queries.map Query.request := by
      rw [← hturn.requests, htodo]
      simp
    obtain ⟨q', hq', heq⟩ := List.mem_map.mp hmem
    have hsmall := (hqueries q' hq').small
    rw [heq] at hsmall
    exact ⟨⟨by omega, hsmall⟩, rfl⟩

/-- A steady run is calm, and the server has its one service in it. -/
theorem calm_of_steady (hqueries : ∀ q ∈ queries, ClientQuery q)
    (hlen : queries.length < 2 ^ 31)
    (h : Reaches step (fun _ a => steady a) (init (pingServices connections) threads queries) s) :
    Reaches step Calm (init (pingServices connections) threads queries) s ∧
      Server.PingInv s.system.server := by
  apply h.invariant
  -- at the start there is the one service, and no invocation
  · refine ⟨.refl, ⟨connections, rfl⟩, ?_⟩
    simp [init, System.init, Server.init]
  · rintro s a s' ⟨hs, hping⟩ hsteady hstep
    -- the step is calm since the run up to it is
    refine ⟨hs.tail a (calm_step hqueries hlen hs hping hsteady hstep) hstep, ?_⟩
    cases steps_of_step hstep with
    | system a system hcall hsystem =>
      cases System.steps_of_step hsystem with
      | client a client up down hex hc => exact hping
      | server a server up down hex hserver => exact hping.step hserver hsteady
    | call q todo system htodo hwaiting hsystem =>
      cases System.steps_of_step hsystem with
      | client a client up down hex hc => exact hping
    | connected | get => exact hping

/-- The responses the client has got are those to its calls, in their order. -/
theorem answers_of_steady (hqueries : ∀ q ∈ queries, ClientQuery q)
    (hlen : queries.length < 2 ^ 31)
    (h : Reaches step (fun _ a => steady a) (init (pingServices connections) threads queries) s) :
    List.Forall₂ Replies (queries.take s.responses.length) s.responses := by
  obtain ⟨hcalm, hping⟩ := calm_of_steady hqueries hlen h
  -- the response to a call was computed by an invocation that serves it
  have hanswer : ∀ (c : Nat) (resp : RpcResponse), s.responses[c]? = some resp →
      ∃ q, queries[c]? = some q ∧ Replies q resp := by
    intro c resp hresp
    obtain ⟨q, hq, call, -, hrequest, inv, hmem, hserves, services, hseen, hok⟩ :=
      outcome_of_response hcalm hresp
    obtain ⟨connections', rfl⟩ := hping.seen inv hmem services hseen
    rw [processRequest_of_serves hserves, hrequest] at hok
    exact ⟨q, hq, (hqueries q (List.mem_of_getElem? hq)).answers hok⟩
  apply List.forall₂_of_length_eq_of_get
  · -- there is a request for the last response
    rw [List.length_take, Nat.min_eq_left]
    by_contra hlt
    obtain ⟨q, hq, -⟩ := hanswer queries.length _ (List.getElem?_eq_getElem (by omega))
    simp at hq
  · intro c hc hc'
    obtain ⟨q, hq, hanswers⟩ := hanswer c _ (List.getElem?_eq_getElem hc')
    obtain ⟨hlt, rfl⟩ := List.getElem?_eq_some_iff.mp hq
    simpa using hanswers

/-- What brings the thread closer to its end is steady. -/
theorem steady_of_moves {a : Act} (h : moves a = true) : steady a := by
  cases a with
  | system a =>
    cases a with
    | client a =>
      cases a with
      | call => cases h
      | _ => exact h
    | server a =>
      cases a with
      | conn k b =>
        cases k with
        | zero => cases b <;> first | rfl | cases h
        | succ k => rfl
      | pool b => cases b <;> first | rfl | cases h
      | register service => cases h
      | unregister name => cases h
      | _ => rfl
  | connected | call | get => trivial

/-- The calls of the client come to their end, whatever the order of the steps. -/
theorem calls_end (hqueries : ∀ q ∈ queries, ClientQuery q) (hlen : queries.length < 2 ^ 31)
    (h : Reaches step (fun _ a => steady a) (init (pingServices connections) threads queries) s) :
    (∃ bound, ∀ acts t, (∀ a ∈ acts, moves a = true) → run step s acts = some t →
      acts.length ≤ bound) ∧
    ∃ t, Reaches step (fun _ a => steady a) (init (pingServices connections) threads queries) t ∧
      Quiet t := by
  have hcalm := (calm_of_steady hqueries hlen h).1
  -- beyond `N` no connection has been used
  obtain ⟨N, hN⟩ := Server.exists_untouched (System.server_reachable (system_reaches hcalm))
  let P : Caller → Prop := fun s =>
    Reaches step (fun _ a => steady a) (init (pingServices connections) threads queries) s ∧
      Server.Untouched (N + 1) s.system.server
  have hP : P s := ⟨h, fun k hk => hN k (Nat.le_of_succ_le hk)⟩
  -- every step that moves takes some of the load away
  have hstep : ∀ s a s', P s → moves a = true → s.step a = some s' →
      P s' ∧ load (N + 1) s' < load (N + 1) s := by
    rintro s a s' ⟨hs, hN⟩ hmoves hstep
    have hsteady := steady_of_moves hmoves
    obtain ⟨hcalm, hping⟩ := calm_of_steady hqueries hlen hs
    obtain ⟨hlt, hN'⟩ := load_lt hcalm (Nat.succ_pos N) hN hmoves
      (calm_step hqueries hlen hcalm hping hsteady hstep) hstep
    exact ⟨⟨hs.tail a hsteady hstep, hN'⟩, hlt⟩
  refine ⟨⟨load (N + 1) s, fun acts t hacts hrun => length_le_of_run hstep acts hacts hP hrun⟩, ?_⟩
  -- a run of such steps that cannot be continued has reached the end
  obtain ⟨acts, t, -, -, ⟨ht, -⟩, hquiet⟩ := exists_run_stuck hstep hP
  exact ⟨t, ht, hquiet⟩

/-- At the end there is a response to every call. -/
theorem Quiet.answers (hq : Quiet s) (hqueries : ∀ q ∈ queries, ClientQuery q)
    (hlen : queries.length < 2 ^ 31)
    (h : Reaches step (fun _ a => steady a) (init (pingServices connections) threads queries) s) :
    List.Forall₂ Replies queries s.responses := by
  have hcalm := (calm_of_steady hqueries hlen h).1
  have hturn := turnInv_of_reaches hcalm
  -- nothing is left to call, and no call waits
  have hall := congrArg List.length hturn.requests
  rw [hq.todo hcalm, List.map_nil, List.append_nil, List.length_map, List.length_map] at hall
  have hanswers := answers_of_steady hqueries hlen h
  rwa [hturn.idle (hq.waiting hcalm), hall, List.take_length] at hanswers

end

end Caller

/-! ## What is counted -/

/-- A response to `Ping` is counted as a success. -/
theorem Replies.pong {q : Query} {resp : RpcResponse} (h : Replies q resp)
    (hmethod : q.method = Bytes.ofString "Ping") :
    resp.errorCode = 0 ∧ resp.result = Bytes.ofString "pong" := by
  cases h with
  | ping params => exact ⟨rfl, rfl⟩
  | stats connections => exact absurd hmethod (by decide)
  | missing => exact absurd hmethod (by decide)

/-- A response to `Stats` carries a number of connections. -/
theorem Replies.stats_response {q : Query} {resp : RpcResponse} (h : Replies q resp)
    (hmethod : q.method = Bytes.ofString "Stats") :
    ∃ connections, resp = statsResponse connections := by
  cases h with
  | stats connections => exact ⟨connections, rfl⟩
  | ping params => exact absurd hmethod (by simp only [pingQuery]; decide)
  | missing => exact absurd hmethod (by decide)

/-- A response to the third call is the error. -/
theorem Replies.missing_response {q : Query} {resp : RpcResponse} (h : Replies q resp)
    (hmethod : q.method = Bytes.ofString "Foo") : resp = missingResponse := by
  cases h with
  | missing => rfl
  | ping params => exact absurd hmethod (by simp only [pingQuery]; decide)
  | stats connections => exact absurd hmethod (by decide)

/-- Successes are counted one by one. -/
theorem foldl_add_pongs {resps : List RpcResponse}
    (h : ∀ resp ∈ resps, resp.errorCode = 0 ∧ resp.result = Bytes.ofString "pong") (t : Tally) :
    resps.foldl Tally.add t = { t with success := t.success + resps.length } := by
  induction resps generalizing t with
  | nil => rfl
  | cons resp resps ih =>
    rw [List.foldl_cons, Tally.add, if_pos (h resp List.mem_cons_self),
      ih fun resp' hresp' => h resp' (List.mem_cons_of_mem resp hresp')]
    simp only [List.length_cons, Tally.mk.injEq, and_true]
    omega

/-- A loop of `Ping` calls counts successes only. -/
theorem tally_pongs {queries : List Query} {resps : List RpcResponse}
    (h : List.Forall₂ Replies queries resps)
    (hmethods : ∀ q ∈ queries, q.method = Bytes.ofString "Ping") :
    tally resps = ⟨resps.length, 0⟩ := by
  have hpongs : ∀ resp ∈ resps, resp.errorCode = 0 ∧ resp.result = Bytes.ofString "pong" := by
    induction h with
    | nil => simp
    | cons hanswers hrest ih =>
      intro resp hresp
      obtain rfl | hresp := List.mem_cons.mp hresp
      · exact hanswers.pong (hmethods _ List.mem_cons_self)
      · exact ih (fun q hq => hmethods q (List.mem_cons_of_mem _ hq)) resp hresp
  rw [tally, foldl_add_pongs hpongs, Nat.zero_add]

/-- The calls of the stress test are calls of the client. -/
theorem stressQueries_client {count : Nat} (hcount : count < 2 ^ 31) :
    ∀ q ∈ stressQueries count, ClientQuery q := by
  intro q hq
  obtain ⟨i, hi, rfl⟩ := List.mem_map.mp hq
  apply ClientQuery.ping
  have hprefix : (Bytes.ofString "stress_").length = 7 := by decide
  -- `i` is an `int`, hence has at most ten digits
  have hdigits : (toDecimal i).length ≤ 10 :=
    length_toDecimal_le (by omega) (by have := List.mem_range.mp hi; omega)
  rw [List.length_append]
  omega

/-- The calls of `main` are calls of the client. -/
theorem mainQueries_client : ∀ q ∈ mainQueries, ClientQuery q := by
  have hprefix : (Bytes.ofString "msg").length = 3 := by decide
  intro q hq
  -- the three single calls, then those of the loop
  obtain rfl | hq := List.mem_cons.mp hq
  · exact .ping [] (Nat.zero_le _)
  obtain rfl | hq := List.mem_cons.mp hq
  · exact .stats
  obtain rfl | hq := List.mem_cons.mp hq
  · exact .missing
  obtain ⟨i, hi, rfl⟩ := List.mem_map.mp hq
  apply ClientQuery.ping
  have hdigits : (toDecimal i).length ≤ 10 :=
    length_toDecimal_le (by omega) (by have := List.mem_range.mp hi; omega)
  rw [List.length_append]
  omega

namespace Caller

/-- The stress test against the server of this repository, in a run in which nothing
    fails or is shut down: it never counts a failure, and with every schedule of the
    threads it comes to its end and reports `count` successes. -/
theorem stress_reports (connections : UInt64) (threads : Option (UInt64 × UInt32)) (count : Nat)
    (hcount : count < 2 ^ 31) (s : Caller)
    (h : Reaches step (fun _ a => steady a)
      (init (pingServices connections) threads (stressQueries count)) s) :
    tally s.responses = ⟨s.responses.length, 0⟩ ∧ s.responses.length ≤ count ∧
    (∃ bound, ∀ acts t, (∀ a ∈ acts, moves a = true) → run step s acts = some t →
      acts.length ≤ bound) ∧
    (Quiet s → tally s.responses = ⟨count, 0⟩) := by
  have hqueries := stressQueries_client hcount
  have hcard : (stressQueries count).length = count := by
    rw [stressQueries, List.length_map, List.length_range]
  have hlen : (stressQueries count).length < 2 ^ 31 := hcard.symm ▸ hcount
  have hmethods : ∀ q ∈ stressQueries count, q.method = Bytes.ofString "Ping" := by
    intro q hq
    obtain ⟨i, -, rfl⟩ := List.mem_map.mp hq
    rfl
  -- what has come back so far are answers to `Ping`
  have hanswers := answers_of_steady hqueries hlen h
  have htally := tally_pongs hanswers fun q hq => hmethods q (List.mem_of_mem_take hq)
  refine ⟨htally, ?_, (calls_end hqueries hlen h).1, fun hquiet => ?_⟩
  · have hle := hanswers.length_eq
    rw [List.length_take, hcard] at hle
    omega
  · rw [htally, ← (hquiet.answers hqueries hlen h).length_eq, hcard]

/-- A test of two calls. -/
theorem stress_reports_two :
    ∃ s, Reaches step (fun _ a => steady a)
        (init (pingServices 1) (some (2, 2)) (stressQueries 2)) s ∧
      tally s.responses = ⟨2, 0⟩ := by
  have hend : ∃ s, Reaches step (fun _ a => steady a)
      (init (pingServices 1) (some (2, 2)) (stressQueries 2)) s ∧ Quiet s :=
    (calls_end (@stressQueries_client 2 (by decide)) (by decide) .refl).2
  obtain ⟨s, hs, hquiet⟩ := hend
  exact ⟨s, hs, (stress_reports 1 (some (2, 2)) 2 (by decide) s hs).2.2.2 hquiet⟩

/-- The client without the stress test: it comes to its end, and prints what the
    service returned, the error for the service that does not exist, and a hundred
    successes. -/
theorem main_reports (connections : UInt64) (threads : Option (UInt64 × UInt32)) (s : Caller)
    (h : Reaches step (fun _ a => steady a)
      (init (pingServices connections) threads mainQueries) s) :
    (∃ bound, ∀ acts t, (∀ a ∈ acts, moves a = true) → run step s acts = some t →
      acts.length ≤ bound) ∧
    (Quiet s → ∃ connections', mainReport s.responses =
      some ([Bytes.ofString "  Result: pong", Bytes.ofString "  Result: " ++ statsText connections',
        Bytes.ofString "  Error: [-1] service not found: NonExistentService"], ⟨100, 0⟩)) := by
  have hlen : mainQueries.length < 2 ^ 31 := by decide
  refine ⟨(calls_end mainQueries_client hlen h).1, fun hquiet => ?_⟩
  have hanswers := hquiet.answers mainQueries_client hlen h
  -- a response for each of the first three calls, and those of the loop
  obtain ⟨ping, afterPing, hping, hafterPing, hresps⟩ := List.forall₂_cons_left_iff.mp hanswers
  obtain ⟨stats, afterStats, hstats, hafterStats, rfl⟩ :=
    List.forall₂_cons_left_iff.mp hafterPing
  obtain ⟨missing, rest, hmissing, hrest, rfl⟩ := List.forall₂_cons_left_iff.mp hafterStats
  obtain ⟨hcode, hresult⟩ := hping.pong rfl
  obtain ⟨connections', rfl⟩ := hstats.stats_response rfl
  obtain rfl := hmissing.missing_response rfl
  -- the loop calls `Ping` a hundred times
  have htally : tally rest = ⟨100, 0⟩ := by
    have hcount := hrest.length_eq
    rw [List.length_map, List.length_range] at hcount
    rw [hcount]
    apply tally_pongs hrest
    intro q hq
    obtain ⟨i, -, rfl⟩ := List.mem_map.mp hq
    rfl
  refine ⟨connections', ?_⟩
  rw [hresps, mainReport, htally]
  have hpong : resultLine ping = Bytes.ofString "  Result: pong" := by
    rw [resultLine, if_pos hcode, hresult]
    rfl
  rw [hpong]
  rfl

/-- It has such an end. -/
theorem main_reports_end :
    ∃ s, Reaches step (fun _ a => steady a) (init (pingServices 1) none mainQueries) s ∧
      ∃ connections', mainReport s.responses =
        some ([Bytes.ofString "  Result: pong",
          Bytes.ofString "  Result: " ++ statsText connections',
          Bytes.ofString "  Error: [-1] service not found: NonExistentService"], ⟨100, 0⟩) := by
  have hend : ∃ s, Reaches step (fun _ a => steady a)
      (init (pingServices 1) none mainQueries) s ∧ Quiet s :=
    (calls_end mainQueries_client (by decide) .refl).2
  obtain ⟨s, hs, hquiet⟩ := hend
  exact ⟨s, hs, (main_reports 1 none s hs).2 hquiet⟩

end Caller

end Rpc
