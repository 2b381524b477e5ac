import Rpc.ForStd.IoContext

/-!
# The life of a client

Model of what `connect()`, `call()` and `disconnect()` of `core/rpc_client.cpp` do to the
`io_context`, the work guard, the io thread and the socket of a client, as a transition
system: the calls come one after the other, and between any two of their steps the io thread
may run handlers.  What the frames hold is left to `Rpc.Native.Client`.

Of the standard library and of asio this is assumed, as documented: assigning to a joinable
`std::thread` terminates the process, and `run()` on a stopped context returns at once.
-/

namespace Rpc

namespace ClientLife

/-- The handlers of a client; those of `connect()` with the number of its invocation. -/
inductive Handler where
  | resolve (attempt : Nat)
  | connect (attempt : Nat)
  | read
  | write
  deriving DecidableEq, Repr

/-- One invocation of `connect()`. -/
structure Attempt where
  /-- its thread was started while the context was stopped -/
  onStopped : Bool
  /-- its resolve handler has run -/
  resolved : Bool
  /-- whether its promise was satisfied with a value or with an exception -/
  result : Option Bool
  /-- `disconnect()` was called after it -/
  abandoned : Bool
  deriving DecidableEq, Repr

/-- `io_thread_`. -/
inductive IoThread where
  /-- not joinable -/
  | empty
  /-- it has not come to `ios_.run()` -/
  | starting
  /-- it is in `ios_.run()` -/
  | running
  /-- `ios_.run()` has returned -/
  | returned
  deriving DecidableEq, Repr

/-- `io_thread_.joinable()`. -/
def IoThread.joinable (t : IoThread) : Bool := t ≠ .empty

/-- What `disconnect()` does next. -/
inductive Leaving where
  | closeSocket | resetGuard | stop | join
  deriving DecidableEq, Repr

end ClientLife

open ClientLife

/-- A client. -/
structure ClientLife where
  ios : IoContext Handler
  /-- `work_guard_.owns_work()` -/
  workGuard : Bool
  ioThread : IoThread
  socketOpen : Bool
  connected : Bool
  /-- `write_queue_.size()` -/
  writeQueue : Nat
  writing : Bool
  /-- the invocations of `connect()` -/
  attempts : List Attempt
  /-- the invocation of `disconnect()` under way -/
  leaving : Option Leaving
  /-- `std::terminate` was called -/
  terminated : Bool
  deriving DecidableEq, Repr

namespace ClientLife

/-- A client as constructed. -/
def init : ClientLife :=
  { ios := { IoContext.init with guards := 1 }, workGuard := true, ioThread := .empty,
    socketOpen := false, connected := false, writeQueue := 0, writing := false, attempts := [],
    leaving := none, terminated := false }

/-- `connect`. -/
def connect (s : ClientLife) : ClientLife :=
  let attempt : Attempt :=
    { onStopped := s.ios.stopped, resolved := false, result := none, abandoned := false }
  { s with
    ios := s.ios.start (.resolve s.attempts.length)
    attempts := s.attempts ++ [attempt]
    -- `io_thread_ = std::thread([this] { ios_.run(); })`
    terminated := s.ioThread.joinable
    ioThread := if s.ioThread.joinable then s.ioThread else .starting }

/-- `do_write`. -/
def doWrite (s : ClientLife) : ClientLife :=
  if s.writeQueue = 0 then { s with writing := false }
  else { s with writeQueue := s.writeQueue - 1, ios := s.ios.start .write }

/-- `call`, of which only `enqueue_write` touches the context. -/
def call (s : ClientLife) : ClientLife :=
  if s.writing then { s with writeQueue := s.writeQueue + 1 }
  else doWrite { s with writeQueue := s.writeQueue + 1, writing := true }

/-- A handler is called, with an error (`ok` is false) or without. -/
def onHandler (s : ClientLife) (h : Handler) (ok : Bool) : ClientLife :=
  match h with
  | .resolve a =>
    if ok then
      -- `async_connect` opens the socket
      { s with
        attempts := s.attempts.modify a fun t => { t with resolved := true }
        ios := s.ios.start (.connect a)
        socketOpen := true }
    else
      { s with
        attempts := s.attempts.modify a fun t => { t with resolved := true, result := some false } }
  | .connect a =>
    if ok then
      { s with
        connected := true
        ios := s.ios.start .read
        attempts := s.attempts.modify a fun t => { t with result := some true } }
    else { s with attempts := s.attempts.modify a fun t => { t with result := some false } }
  -- the read loop ends with an error or with a message it cannot read
  | .read => if ok then { s with ios := s.ios.start .read } else s
  -- `do_write` goes on with the next frame in both cases
  | .write => s.doWrite

/-- `ios_.run()` calls a handler it has taken out of the context, which is `ios` now. -/
def runHandler (s : ClientLife) (ios : IoContext Handler) (h : Handler) (ok : Bool) : ClientLife :=
  let s' := onHandler { s with ios } h ok
  { s' with ios := s'.ios.finish }

/-- `disconnect`, up to the closing of the socket. -/
def disconnect (s : ClientLife) : ClientLife :=
  { s with
    connected := false
    attempts := s.attempts.map fun t => { t with abandoned := true }
    leaving := some .closeSocket }

/-- The next step of `disconnect`. -/
def leave (s : ClientLife) : Leaving → Option ClientLife
  -- the operations on the socket then complete with an error, as they may at any time
  | .closeSocket => some { s with socketOpen := false, leaving := some .resetGuard }
  | .resetGuard =>
    some { s with
      ios := if s.workGuard then s.ios.release else s.ios
      workGuard := false
      leaving := some .stop }
  | .stop => some { s with ios := s.ios.stop, leaving := some .join }
  | .join =>
    match s.ioThread with
    | .empty => some { s with leaving := none }
    | .returned => some { s with ioThread := .empty, leaving := none }
    | .starting | .running => none

/-- The steps of a client, its io thread and its socket. -/
inductive Act where
  | connect
  | call
  | disconnect
  /-- one more step of the `disconnect()` under way -/
  | leave
  /-- the io thread comes to `ios_.run()` -/
  | enterRun
  /-- `ios_.run()` returns -/
  | leaveRun
  /-- an asynchronous operation completes -/
  | complete (h : Handler)
  /-- the io thread runs the next handler, which may get an error -/
  | run (ok : Bool)
  deriving DecidableEq, Repr

/-- The steps that are not taken by the user of the client. -/
def Act.isIo : Act → Bool
  | .connect | .call | .disconnect | .leave => false
  | .enterRun | .leaveRun | .complete _ | .run _ => true

/-- One step of a process that has not been terminated. -/
def stepAlive (s : ClientLife) : Act → Option ClientLife
  | .connect => if s.leaving = none then some s.connect else none
  | .call => if s.leaving = none then some s.call else none
  | .disconnect => if s.leaving = none then some s.disconnect else none
  | .leave => s.leaving.bind s.leave
  | .enterRun =>
    if s.ioThread = .starting then
      some { s with ioThread := if s.ios.stopped then .returned else .running }
    else none
  | .leaveRun =>
    if s.ioThread = .running ∧ s.ios.stopped then some { s with ioThread := .returned } else none
  | .complete h => (s.ios.complete h).map fun ios => { s with ios }
  | .run ok =>
    if s.ioThread = .running then
      s.ios.next.map fun (h, ios) => s.runHandler ios h ok
    else none

/-- One step. -/
def step (s : ClientLife) (a : Act) : Option ClientLife :=
  if s.terminated then none else s.stepAlive a

end ClientLife

end Rpc
