import Rpc.Native.Programs
import Rpc.Spec.AnswerCorrect

/-!
# A thread that makes its calls in turn

The responses such a thread gets are those to its own requests, in the order of its
calls, whatever else happens in the system (`TurnInv`), and in a calm run it gets all
of them (`responses_in_turn`): a response is missing only as long as a step is left
that takes a message further, and these steps run out.
-/

namespace Rpc

open Transition

namespace RpcClient

/-- Only `call` makes a request. -/
theorem Steps.requests {s s' : RpcClient} {a : Act} (h : Steps s a s')
    (hcall : ∀ service method params timeoutMs, a ≠ .call service method params timeoutMs) :
    s'.calls.map Call.request = s.calls.map Call.request := by
  have hset : ∀ (c : Nat) (call : Call) (phase : CallPhase), s.calls[c]? = some call →
      (s.setPhase c call phase).map Call.request = s.calls.map Call.request :=
    fun c call phase hget => List.map_set_of_eq Call.request hget rfl
  cases h with
  | call service method params timeoutMs => exact absurd rfl (hcall service method params timeoutMs)
  | register c call hget hphase => exact hset c call .registered hget
  | enqueue c call hget hphase => exact hset c call .enqueued hget
  | _ => rfl

/-- What has been completed stays so. -/
theorem Steps.mem_completions {s s' : RpcClient} {a : Act} (h : Steps s a s') {k : Completion}
    (hk : k ∈ s.completions) : k ∈ s'.completions := by
  cases h with
  | readEnded | setValue | writeError => exact List.mem_append_left _ hk
  | _ => exact hk

end RpcClient

namespace Caller

/-- The outcomes of a step. -/
inductive Steps (s : Caller) : Act → Caller → Prop where
  | system (a : System.Act) (system : System) (hcall : begins a = false)
      (hs : s.system.step a = some system) : Steps s (.system a) { s with system }
  | connected (hstarted : s.system.client.reading ≠ .notStarted) (hnot : s.connected = false) :
      Steps s .connected { s with connected := true }
  | call (q : Query) (todo : List Query) (system : System) (htodo : s.todo = q :: todo)
      (hwaiting : s.waiting = none)
      (hs : s.system.step (.client (.call q.service q.method q.params 5000)) = some system) :
      Steps s .call { s with system, todo, waiting := some s.system.client.calls.length }
  | get (c : Nat) (k : Completion) (hwaiting : s.waiting = some c)
      (hk : k ∈ s.system.client.completions) (hcall : k.call = c) :
      Steps s .get { s with waiting := none, responses := s.responses ++ [k.resp] }

/-- Every step has one of these outcomes. -/
theorem steps_of_step {s s' : Caller} {a : Act} (h : s.step a = some s') : Steps s a s' := by
  cases a with
  | system a =>
    simp only [step] at h
    split at h
    · cases h
    · rename_i hcall
      obtain ⟨system, hs, rfl⟩ := Option.map_eq_some_iff.mp h
      exact .system a system (by simpa using hcall) hs
  | connected =>
    simp only [step] at h
    split at h
    · rename_i hguard
      obtain rfl := Option.some.inj h
      exact .connected hguard.1 hguard.2
    · cases h
  | call =>
    simp only [step] at h
    split at h
    · rename_i q todo htodo hwaiting
      split at h
      · obtain ⟨system, hs, rfl⟩ := Option.map_eq_some_iff.mp h
        exact .call q todo system htodo hwaiting hs
      · cases h
    · cases h
  | get =>
    simp only [step] at h
    split at h
    · rename_i c hwaiting
      obtain ⟨k, hk, rfl⟩ := Option.map_eq_some_iff.mp h
      -- the completion found is that of the call waited for
      have hcall := List.find?_some hk
      exact .get c k hwaiting (List.mem_of_find?_eq_some hk) (of_decide_eq_true hcall)
    · cases h

/-- The step is calm in the system. -/
def Calm (s : Caller) : Act → Prop
  | .system a => System.Calm s.system a
  | .call => ∀ q ∈ s.todo.head?,
      System.Calm s.system (.client (.call q.service q.method q.params 5000))
  | .connected | .get => True

instance (s : Caller) : (a : Act) → Decidable (Calm s a)
  | .system a => inferInstanceAs (Decidable (System.Calm s.system a))
  | .call => inferInstanceAs (Decidable (∀ q ∈ s.todo.head?, _))
  | .connected | .get => inferInstanceAs (Decidable True)

/-- The thread is at its last call, or between two calls. -/
structure TurnInv (queries : List Query) (s : Caller) : Prop where
  requests : s.system.client.calls.map Call.request ++ s.todo.map Query.request =
    queries.map Query.request
  waiting : ∀ c, s.waiting = some c →
    s.responses.length = c ∧ s.system.client.calls.length = c + 1
  idle : s.waiting = none → s.responses.length = s.system.client.calls.length
  completed : ∀ (c : Nat) (resp : RpcResponse), s.responses[c]? = some resp →
    ∃ k ∈ s.system.client.completions, k.call = c ∧ k.resp = resp

/-- At the beginning no call has been made. -/
theorem turnInv_init (services : ServiceManager) (threads : Option (UInt64 × UInt32))
    (queries : List Query) : TurnInv queries (init services threads queries) := by
  constructor
  · rfl
  · simp [init]
  · simp [init, System.init, RpcClient.init]
  · simp [init]

/-- A call is that of the query in its place. -/
theorem TurnInv.query {queries : List Query} {s : Caller} (hinv : TurnInv queries s) {c : Nat}
    {call : Call} (hcall : s.system.client.calls[c]? = some call) :
    ∃ q, queries[c]? = some q ∧ call.request = q.request := by
  have hrequest : (queries.map Query.request)[c]? = some call.request := by
    rw [← hinv.requests, List.getElem?_append_left, List.getElem?_map, hcall]
    · rfl
    · rw [List.length_map]
      exact (List.getElem?_eq_some_iff.mp hcall).1
  rw [List.getElem?_map] at hrequest
  obtain ⟨q, hq, heq⟩ := Option.map_eq_some_iff.mp hrequest
  exact ⟨q, hq, heq.symm⟩

/-- A step of the system makes no request by itself. -/
theorem requests_of_step {s s' : System} {a : System.Act} (h : s.step a = some s')
    (hcall : begins a = false) :
    s'.client.calls.map Call.request = s.client.calls.map Call.request := by
  cases System.steps_of_step h with
  | client a client up down hex hc =>
    apply (RpcClient.steps_of_step hc).requests
    rintro service method params timeoutMs rfl
    cases hcall
  | server a server up down hex hs => rfl

/-- A step of the system forgets no completion. -/
theorem mem_completions_of_step {s s' : System} {a : System.Act} (h : s.step a = some s')
    {k : Completion} (hk : k ∈ s.client.completions) : k ∈ s'.client.completions := by
  cases System.steps_of_step h with
  | client a client up down hex hc => exact (RpcClient.steps_of_step hc).mem_completions hk
  | server a server up down hex hs => exact hk

/-- The calls after a `call`. -/
theorem calls_of_call {s s' : System} {q : Query}
    (h : s.step (.client (.call q.service q.method q.params 5000)) = some s') :
    ∃ call, s'.client.calls = s.client.calls ++ [call] ∧ call.request = q.request := by
  cases System.steps_of_step h with
  | client a client up down hex hc =>
    cases RpcClient.steps_of_step hc with
    | call service method params timeoutMs => exact ⟨_, rfl, rfl⟩
    | readEnded a reason hio hread => simp at hread

/-- Every step keeps the calls in turn. -/
theorem Steps.turnInv {queries : List Query} {s s' : Caller} {a : Act} (h : Steps s a s')
    (hinv : TurnInv queries s) : TurnInv queries s' := by
  cases h with
  | system a system hcall hs =>
    have hrequests := requests_of_step hs hcall
    have hlen : system.client.calls.length = s.system.client.calls.length := by
      simpa using congrArg List.length hrequests
    constructor
    · exact (congrArg (· ++ s.todo.map Query.request) hrequests).trans hinv.requests
    · intro c hwaiting
      show s.responses.length = c ∧ system.client.calls.length = c + 1
      rw [hlen]
      exact hinv.waiting c hwaiting
    · intro hwaiting
      show s.responses.length = system.client.calls.length
      rw [hlen]
      exact hinv.idle hwaiting
    · intro c resp hresp
      obtain ⟨k, hk, hkey⟩ := hinv.completed c resp hresp
      exact ⟨k, mem_completions_of_step hs hk, hkey⟩
  | connected => exact ⟨hinv.requests, hinv.waiting, hinv.idle, hinv.completed⟩
  | call q todo system htodo hwaiting hs =>
    obtain ⟨call, hcalls, hrequest⟩ := calls_of_call hs
    constructor
    · -- the request moves from one list to the other
      show system.client.calls.map Call.request ++ todo.map Query.request = _
      rw [← hinv.requests, htodo, hcalls, List.map_append, List.append_assoc]
      simp [hrequest]
    -- the new call is the one after all others
    · intro c hc
      obtain rfl := Option.some.inj hc
      show s.responses.length = _ ∧ system.client.calls.length = _
      rw [hcalls, List.length_append, List.length_singleton]
      exact ⟨hinv.idle hwaiting, rfl⟩
    · intro hnone
      cases hnone
    · intro c resp hresp
      obtain ⟨k, hk, hkey⟩ := hinv.completed c resp hresp
      exact ⟨k, mem_completions_of_step hs hk, hkey⟩
  | get c k hwaiting hk hcall =>
    obtain ⟨hlen, hcalls⟩ := hinv.waiting c hwaiting
    constructor
    · exact hinv.requests
    · intro c hc
      cases hc
    -- between two calls there are as many responses as calls
    · intro _
      show (s.responses ++ [k.resp]).length = s.system.client.calls.length
      rw [List.length_append, List.length_singleton, hlen, hcalls]
    · intro c' resp hresp
      by_cases hc : c' < s.responses.length
      · rw [List.getElem?_append_left hc] at hresp
        exact hinv.completed c' resp hresp
      · -- the response to the call it waited for
        rw [List.getElem?_append_right (Nat.not_lt.mp hc), List.getElem?_singleton] at hresp
        split at hresp
        · obtain rfl := Option.some.inj hresp
          exact ⟨k, hk, by omega, rfl⟩
        · cases hresp

section

variable {services : ServiceManager} {threads : Option (UInt64 × UInt32)} {queries : List Query}
  {s : Caller} {ok : Caller → Act → Prop}

/-- The calls are in turn in every state of a run. -/
theorem turnInv_of_reaches (h : Reaches step ok (init services threads queries) s) :
    TurnInv queries s :=
  h.invariant (turnInv_init services threads queries) fun _ _ _ hinv _ hs =>
    (steps_of_step hs).turnInv hinv

/-- The system of a calm caller is calm. -/
theorem system_reaches (h : Reaches step Calm (init services threads queries) s) :
    Reaches System.step System.Calm (System.init services threads) s.system := by
  apply h.project Caller.system
  intro s a s' hok hs
  cases steps_of_step hs with
  | system a system hcall hsystem => exact .inr ⟨a, hok, hsystem⟩
  | call q todo system htodo hwaiting hsystem =>
    exact .inr ⟨_, hok q (by rw [htodo]; rfl), hsystem⟩
  -- these two touch the thread only
  | connected | get => exact .inl rfl

/-- A response is the outcome of the request it is for. -/
theorem outcome_of_response (h : Reaches step Calm (init services threads queries) s) {c : Nat}
    {resp : RpcResponse} (hresp : s.responses[c]? = some resp) :
    ∃ q, queries[c]? = some q ∧ ∃ call, s.system.client.calls[c]? = some call ∧
      call.request = q.request ∧ ∃ inv ∈ s.system.server.invocations,
        System.Serves inv call ∧ System.Outcome inv resp := by
  have hturn := turnInv_of_reaches h
  have hsystem := system_reaches h
  obtain ⟨k, hk, rfl, rfl⟩ := hturn.completed c resp hresp
  -- the promise was completed with a response
  have horigin : ∃ header body, k.origin = .frame header body := by
    have hanswer := (System.calmInv_of_reaches hsystem).client.answered k hk
    cases ho : k.origin with
    | frame header body => exact ⟨header, body, rfl⟩
    | writeFailed | rejected => exact absurd (by rw [Completion.answer, ho]) hanswer
  obtain ⟨header, body, horigin⟩ := horigin
  obtain ⟨call, hcall, inv, hmem, hserves, houtcome, -⟩ :=
    System.completion_response (System.withinLimits_of_calm hsystem) hk horigin
  obtain ⟨q, hq, heq⟩ := hturn.query hcall
  exact ⟨q, hq, call, hcall, heq, inv, hmem, hserves, houtcome⟩

end

/-! ## The end of the calls -/

/-- The steps that bring the thread closer to its end. -/
def moves : Act → Bool
  | .system a => System.moves a
  | .connected | .call | .get => true

/-- Neither the thread nor the system has a step left that does. -/
def Quiet (s : Caller) : Prop := ∀ a, moves a = true → s.step a = none

/-- A step of the system that takes a message further makes no call. -/
theorem begins_of_moves {a : System.Act} (h : System.moves a = true) : begins a = false := by
  cases a with
  | client a =>
    cases a with
    | call => cases h
    | _ => rfl
  | server a => rfl

/-- At the end the system has come to its end. -/
theorem Quiet.system {s : Caller} (h : Quiet s) : System.Quiet s.system := by
  intro a hmoves
  have hstep := h (.system a) hmoves
  simp only [step, begins_of_moves hmoves, Bool.false_eq_true, if_false] at hstep
  exact Option.map_eq_none_iff.mp hstep

section

variable {services : ServiceManager} {threads : Option (UInt64 × UInt32)} {queries : List Query}
  {s : Caller}

/-- `conn_fut.get()` returns. -/
theorem Quiet.connected (hq : Quiet s) (h : Reaches step Calm (init services threads queries) s) :
    s.connected = true := by
  have hcalm := (System.calmInv_of_reaches (system_reaches h)).client
  -- the read loop of the client has been started
  have hstarted : s.system.client.reading ≠ .notStarted := by
    intro hnot
    have hnone := hq.system.client (a := .connected) rfl rfl
    simp [RpcClient.step, hnot, hcalm.ioStopped] at hnone
  by_contra hnot
  have hnone := hq .connected rfl
  simp [step, hstarted, hnot] at hnone

/-- `fut.get()` returns. -/
theorem Quiet.waiting (hq : Quiet s) (h : Reaches step Calm (init services threads queries) s) :
    s.waiting = none := by
  cases hw : s.waiting with
  | none => rfl
  | some c =>
    exfalso
    obtain ⟨-, hlen⟩ := (turnInv_of_reaches h).waiting c hw
    have hc : c < s.system.client.calls.length := by omega
    -- in a quiet system the call has been completed, so that `get` can be made
    obtain ⟨k, hk, hcall, -⟩ :=
      hq.system.answered (system_reaches h) (List.getElem?_eq_getElem hc)
    have hsome : (s.system.client.completions.find? fun k => k.call = c).isSome = true :=
      List.find?_isSome.mpr ⟨k, hk, decide_eq_true hcall⟩
    have hnone := hq .get rfl
    simp only [step, hw, Option.map_eq_none_iff] at hnone
    rw [hnone] at hsome
    cases hsome

/-- All calls have been made. -/
theorem Quiet.todo (hq : Quiet s) (h : Reaches step Calm (init services threads queries) s) :
    s.todo = [] := by
  cases htodo : s.todo with
  | nil => rfl
  | cons q todo =>
    have hnone := hq .call rfl
    -- between two calls the next one can be made
    simp [step, htodo, hq.waiting h, hq.connected h, System.step, System.clientTraffic,
      System.exchange, RpcClient.step] at hnone

/-- A bound on the steps to come. -/
def load (N : Nat) (s : Caller) : Nat :=
  s.system.load N + 91 * s.todo.length + (if s.waiting.isSome then 1 else 0) +
    if s.connected then 0 else 1

/-- A call that begins has 89 steps before it. -/
theorem load_call {s s' : System} {q : Query} (N : Nat)
    (h : s.step (.client (.call q.service q.method q.params 5000)) = some s') :
    s'.load N = s.load N + 89 := by
  cases System.steps_of_step h with
  | client a client up down hex hc =>
    cases RpcClient.steps_of_step hc with
    | call service method params timeoutMs =>
      simp only [System.load, RpcClient.load, List.map_append, List.sum_append, List.map_cons,
        List.map_nil, List.sum_cons, List.sum_nil, RpcClient.phaseLoad]
      omega
    | readEnded a reason hio hread => simp at hread

/-- Every step that brings the thread closer to its end lowers the load. -/
theorem load_lt (h : Reaches step Calm (init services threads queries) s) {N : Nat}
    (hpos : 0 < N) (hN : Server.Untouched N s.system.server) {a : Act} {s' : Caller}
    (hmoves : moves a = true) (hcalm : Calm s a) (hstep : s.step a = some s') :
    load N s' < load N s ∧ Server.Untouched N s'.system.server := by
  have hsystem := system_reaches h
  cases steps_of_step hstep with
  | system a system hcall hs =>
    have hlt := System.load_lt hsystem hpos hN hmoves hcalm hs
    refine ⟨?_, System.untouched_of_moves hsystem hpos hN hmoves hs⟩
    simp only [load]
    omega
  | connected hstarted hnot =>
    refine ⟨?_, hN⟩
    simp [load, hnot]
  -- the call takes 89 of the 91 that were counted for it
  | call q todo system htodo hwaiting hs =>
    have hload := load_call N hs
    have hserver : system.server = s.system.server := by
      cases System.steps_of_step hs with
      | client a client up down hex hc => rfl
    refine ⟨?_, by rw [hserver]; exact hN⟩
    simp only [load, htodo, hwaiting, hload, List.length_cons, Option.isSome_some,
      Option.isSome_none, if_true, Bool.false_eq_true, if_false]
    omega
  | get c k hwaiting hk hcall =>
    refine ⟨?_, hN⟩
    simp only [load, hwaiting, Option.isSome_some, Option.isSome_none, if_true,
      Bool.false_eq_true, if_false]
    omega

/-- The steps that bring the thread closer to its end run out. -/
theorem moves_run_bounded (h : Reaches step Calm (init services threads queries) s) :
    ∃ bound, ∀ acts t, (∀ a ∈ acts, moves a = true) →
      run (guarded step Calm) s acts = some t → acts.length ≤ bound := by
  have hserver := System.server_reachable (system_reaches h)
  obtain ⟨N, hN⟩ := Server.exists_untouched hserver
  have hroom : Server.Untouched (N + 1) s.system.server := fun k hk => hN k (Nat.le_of_succ_le hk)
  refine ⟨load (N + 1) s, fun acts t hacts hrun => ?_⟩
  -- a run of these steps is no longer than the load at its start
  apply length_le_of_run (G := fun a => moves a = true)
    (P := fun s => Reaches step Calm (init services threads queries) s ∧
      Server.Untouched (N + 1) s.system.server) ?_ acts hacts ⟨h, hroom⟩ hrun
  rintro s a s' ⟨hs, hN⟩ hmoves hguarded
  simp only [guarded] at hguarded
  split at hguarded
  · rename_i hcalm
    obtain ⟨hlt, hN'⟩ := load_lt hs (Nat.succ_pos N) hN hmoves hcalm hguarded
    exact ⟨⟨hs.tail a hcalm hguarded, hN'⟩, hlt⟩
  · cases hguarded

end

/-- The thread has nothing to do, and nothing is on the way. -/
def Still (s : Caller) : Prop :=
  s.connected = true ∧ s.todo = [] ∧ s.waiting = none ∧ System.Still s.system

instance (s : Caller) : Decidable (Still s) := inferInstanceAs (Decidable (_ ∧ _ ∧ _ ∧ _))

/-- A thread that has nothing to do, with nothing on the way, has come to its end. -/
theorem quiet_of_still {s : Caller} (hN : Server.Untouched 1 s.system.server) (h : Still s) :
    Quiet s := by
  obtain ⟨hconnected, htodo, hwaiting, hstill⟩ := h
  intro a hmoves
  cases a with
  | system a =>
    have hnone := System.quiet_of_still hN hstill a hmoves
    simp only [step, begins_of_moves hmoves, Bool.false_eq_true, if_false, hnone, Option.map_none]
  | connected => simp [step, hconnected]
  | call => simp [step, htodo]
  | get => simp [step, hwaiting]

/-- No other client connects in this step. -/
def alone : Act → Bool
  | .system a => System.alone a
  | .connected | .call | .get => true

/-- Without another client all other connections are unused. -/
theorem untouched_of_alone {services : ServiceManager} {threads : Option (UInt64 × UInt32)}
    {queries : List Query} {s : Caller}
    (h : Reaches step (fun s a => Calm s a ∧ alone a = true) (init services threads queries) s) :
    Server.Untouched 1 s.system.server := by
  have hsystem : Reaches System.step (fun _ a => True ∧ System.alone a = true)
      (System.init services threads) s.system := by
    apply h.project Caller.system
    intro s a s' hok hs
    cases steps_of_step hs with
    | system a system hcall hsystem => exact .inr ⟨a, ⟨trivial, hok.2⟩, hsystem⟩
    | call q todo system htodo hwaiting hsystem => exact .inr ⟨_, ⟨trivial, rfl⟩, hsystem⟩
    | connected | get => exact .inl rfl
  exact System.untouched_of_alone hsystem

/-- A thread that makes its calls in turn, in a calm run.  The responses it has got are
    those to its own requests, each in its place.  The steps that bring it closer to its
    end run out, whatever their order, and when none is left it has got a response to
    every request. -/
theorem responses_in_turn (services : ServiceManager) (threads : Option (UInt64 × UInt32))
    (queries : List Query) (s : Caller)
    (h : Reaches step Calm (init services threads queries) s) :
    (∀ (c : Nat) (resp : RpcResponse), s.responses[c]? = some resp →
      ∃ q, queries[c]? = some q ∧ ∃ call, s.system.client.calls[c]? = some call ∧
        call.request = q.request ∧ ∃ inv ∈ s.system.server.invocations,
          System.Serves inv call ∧ System.Outcome inv resp) ∧
    (∃ bound, ∀ acts t, (∀ a ∈ acts, moves a = true) →
      run (guarded step Calm) s acts = some t → acts.length ≤ bound) ∧
    (Quiet s → s.responses.length = queries.length) := by
  refine ⟨fun c resp => outcome_of_response h, moves_run_bounded h, fun hquiet => ?_⟩
  have hturn := turnInv_of_reaches h
  -- at the end no call is left to be made, and none is waited for
  have hlen := congrArg List.length hturn.requests
  rw [hquiet.todo h, List.map_nil, List.append_nil, List.length_map, List.length_map] at hlen
  exact (hturn.idle (hquiet.waiting h)).trans hlen

/-- Two calls to a server without a pool, to the end of the second. -/
def inTurn : List Act :=
  [.system (.client .connected), .connected, .call, .system (.client (.register 0)),
    .system (.client (.enqueue 0)), .system (.client (.pop (some 0))),
    .system (.client (.startWrite (some 0) (System.sampleItem 0))),
    .system (.server (.conn 0 .startRead)),
    .system (.server (.conn 0 (.readHeader (serializeHeader (System.sampleCall 0).header)))),
    .system (.server (.conn 0 (.readBody (System.sampleCall 0).request.serialize))),
    .system (.server (.enter 0)), .system (.server (.process 0)), .system (.server (.send 0)),
    .system (.server (.conn 0 (.push none (System.sampleResponse 0).encode))),
    .system (.server (.conn 0 (.pop none))),
    .system (.server (.conn 0 (.startWrite none (System.sampleResponse 0).encode))),
    .system (.client (.readHeader (serializeHeader (System.sampleResponse 0).1))),
    .system (.client (.readBody (System.sampleResponse 0).2)), .system (.client .setValue), .get,
    .system (.server (.done 0)), .system (.server (.leave 0)), .call,
    .system (.client (.register 1)), .system (.client (.enqueue 1)),
    .system (.client (.writeDone (System.sampleItem 0))), .system (.client (.pop none)),
    .system (.client (.startWrite none (System.sampleItem 1))),
    .system (.server (.conn 0 (.writeDone (System.sampleResponse 0).encode))),
    .system (.server (.conn 0 (.pop none))), .system (.client (.writeDone (System.sampleItem 1))),
    .system (.client (.pop none)),
    .system (.server (.conn 0 (.readHeader (serializeHeader (System.sampleCall 1).header)))),
    .system (.server (.conn 0 (.readBody (System.sampleCall 1).request.serialize))),
    .system (.server (.enter 0)), .system (.server (.process 1)), .system (.server (.send 1)),
    .system (.server (.conn 0 (.push none (System.sampleResponse 1).encode))),
    .system (.server (.conn 0 (.pop none))),
    .system (.server (.conn 0 (.startWrite none (System.sampleResponse 1).encode))),
    .system (.server (.done 1)), .system (.server (.leave 0)),
    .system (.server (.conn 0 (.writeDone (System.sampleResponse 1).encode))),
    .system (.server (.conn 0 (.pop none))),
    .system (.client (.readHeader (serializeHeader (System.sampleResponse 1).1))),
    .system (.client (.readBody (System.sampleResponse 1).2)), .system (.client .setValue), .get]

/-- The two requests of `inTurn`. -/
def sampleQueries : List Query := [⟨[115], [109], [0]⟩, ⟨[115], [109], [1]⟩]

/-- Both responses have come, and each is that to its request. -/
theorem responses_in_turn_twoCalls :
    ∃ s, Reaches step Calm (init System.echoServices none sampleQueries) s ∧ Quiet s ∧
      s.responses.map RpcResponse.result = [[0], [1]] ∧
      s.responses.length = sampleQueries.length := by
  have hrun : ∃ s, Reaches step (fun s a => Calm s a ∧ alone a = true)
      (init System.echoServices none sampleQueries) s ∧ Still s ∧
      s.responses.map RpcResponse.result = [[0], [1]] :=
    exists_reaches_of_run inTurn (by decide +kernel)
  obtain ⟨s, hs, hstill, hresults⟩ := hrun
  have hcalm : Reaches step Calm (init System.echoServices none sampleQueries) s :=
    hs.mono fun _ _ hok => hok.1
  have hquiet := quiet_of_still (untouched_of_alone hs) hstill
  exact ⟨s, hcalm, hquiet, hresults, (responses_in_turn _ _ _ s hcalm).2.2 hquiet⟩

end Caller

end Rpc
