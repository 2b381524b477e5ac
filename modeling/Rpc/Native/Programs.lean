import Rpc.Native.System

/-!
# The programs

Model of the service built into `server_main.cpp` and of the calls that
`client_main.cpp` makes: a thread that connects and then calls, one request after
the other, waiting for the response to each (`Caller`).  The two modes of the
client differ in their requests and in what they count and print.

The latencies that `run_stress` also measures are left out, and so are `disconnect`
and everything after it.
-/

namespace Rpc

/-- `std::to_string`. -/
def toDecimal (n : Nat) : Bytes := (Nat.toDigits 10 n).map fun c => UInt8.ofNat c.toNat

/-! ## The server -/

/-- `PingService`; `connections` is what `get_conn_count_()` returns. -/
def pingService (connections : UInt64) : Service :=
  { name := Bytes.ofString "PingService"
    methods := [Bytes.ofString "Ping", Bytes.ofString "Stats"]
    handle := fun method _ =>
      if method = Bytes.ofString "Ping" then .returned (Bytes.ofString "pong")
      else if method = Bytes.ofString "Stats" then
        .returned (Bytes.ofString "\x7b\"status\":\"running\",\"connections\":" ++
          toDecimal connections.toNat ++ Bytes.ofString "\x7d")
      else .runtimeError (Bytes.ofString "unknown method: " ++ method) }

/-- The services `main` registers. -/
def pingServices (connections : UInt64) : ServiceManager :=
  ServiceManager.registerService ∅ (some (pingService connections))

/-! ## A thread that calls -/

/-- The arguments of a `client.call`. -/
structure Query where
  service : Bytes
  method : Bytes
  params : Bytes
  deriving DecidableEq, Repr

/-- The request `call` makes of them; the timeout is the default one. -/
def Query.request (q : Query) : RpcRequest :=
  { serviceName := q.service, methodName := q.method, timeoutMs := 5000, params := q.params }

/-- A thread that makes its calls in turn, and the system it makes them in. -/
structure Caller where
  system : System
  /-- `conn_fut.get()` has returned -/
  connected : Bool
  /-- the calls still to be made -/
  todo : List Query
  /-- the call on whose future the thread waits -/
  waiting : Option Nat
  /-- what `fut.get()` has returned so far -/
  responses : List RpcResponse

namespace Caller

/-- The thread has made no call. -/
def init (services : ServiceManager) (threads : Option (UInt64 × UInt32)) (queries : List Query) :
    Caller :=
  { system := .init services threads, connected := false, todo := queries, waiting := none
    responses := [] }

/-- The steps of the thread and of the rest of the system. -/
inductive Act where
  /-- a step other than the begin of a `call` -/
  | system (a : System.Act)
  /-- `conn_fut.get()` returns -/
  | connected
  /-- the next `call` begins -/
  | call
  /-- `fut.get()` returns -/
  | get

/-- The step of the system is the begin of a `call`. -/
def begins : System.Act → Bool
  | .client (.call ..) => true
  | _ => false

/-- One step. -/
def step (s : Caller) : Act → Option Caller
  | .system a =>
    if begins a then none else (s.system.step a).map fun system => { s with system }
  | .connected =>
    -- the handler of `async_connect` has started the read loop
    if s.system.client.reading ≠ .notStarted ∧ s.connected = false then
      some { s with connected := true }
    else none
  | .call =>
    match s.todo, s.waiting with
    | q :: todo, none =>
      if s.connected then
        (s.system.step (.client (.call q.service q.method q.params 5000))).map fun system =>
          { s with system, todo, waiting := some s.system.client.calls.length }
      else none
    | _, _ => none
  | .get =>
    match s.waiting with
    | some c =>
      -- blocks until the promise has been satisfied
      (s.system.client.completions.find? fun k => k.call = c).map fun k =>
        { s with waiting := none, responses := s.responses ++ [k.resp] }
    | none => none

end Caller

/-! ## The client -/

/-- The counters of a loop of `Ping` calls. -/
structure Tally where
  success : Nat
  fail : Nat
  deriving DecidableEq, Repr

/-- One round of the loop. -/
def Tally.add (t : Tally) (resp : RpcResponse) : Tally :=
  if resp.errorCode = 0 ∧ resp.result = Bytes.ofString "pong" then
    { t with success := t.success + 1 }
  else { t with fail := t.fail + 1 }

/-- The counters of `run_stress` after these responses. -/
def tally (responses : List RpcResponse) : Tally := responses.foldl Tally.add ⟨0, 0⟩

/-- A call of `PingService.Ping`. -/
def pingQuery (params : Bytes) : Query :=
  { service := Bytes.ofString "PingService", method := Bytes.ofString "Ping", params }

/-- The calls of `run_stress`. -/
def stressQueries (count : Nat) : List Query :=
  (List.range count).map fun i => pingQuery (Bytes.ofString "stress_" ++ toDecimal i)

/-- The call of `PingService.Stats`. -/
def statsQuery : Query :=
  { service := Bytes.ofString "PingService", method := Bytes.ofString "Stats", params := [] }

/-- The call of a service that is not registered. -/
def missingQuery : Query :=
  { service := Bytes.ofString "NonExistentService", method := Bytes.ofString "Foo", params := [] }

/-- The calls of `main`, when it does not run the stress test. -/
def mainQueries : List Query :=
  pingQuery [] :: statsQuery :: missingQuery ::
    (List.range 100).map fun i => pingQuery (Bytes.ofString "msg" ++ toDecimal i)

/-- The line `main` prints for an error. -/
def errorLine (resp : RpcResponse) : Bytes :=
  Bytes.ofString "  Error: [" ++
    (if resp.errorCode < 0 then Bytes.ofString "-" else []) ++
    toDecimal resp.errorCode.toInt.natAbs ++ Bytes.ofString "] " ++ resp.errorMsg

/-- The line `main` prints for a response. -/
def resultLine (resp : RpcResponse) : Bytes :=
  if resp.errorCode = 0 then Bytes.ofString "  Result: " ++ resp.result else errorLine resp

/-- What `main` prints for the responses to its calls: a line for each of the first three,
    and the counters of the loop. -/
def mainReport : List RpcResponse → Option (List Bytes × Tally)
  | ping :: stats :: missing :: rest =>
    some ([resultLine ping, resultLine stats, errorLine missing], tally rest)
  | _ => none

end Rpc
