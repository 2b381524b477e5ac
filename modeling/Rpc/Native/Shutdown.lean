import Rpc.Native.Server

/-!
# The end of the server program

Model of `main` in `server_main.cpp`, from the call of `server.start(port)` on, as a
transition system: the main thread, which waits for `g_running` to become false, the
thread that runs the event loop, and the workers of the pool.

The pool is declared before the server and destroyed after it: when `~ThreadPool` joins
the workers, the server is gone.  What a task calls on the server after that is kept in
`dangling`.

`stop()` is called by `main` and once more by `~RpcServer`; the third call, by
`~MessageCycle`, finds nothing left to do.  Accepting a connection is one step here.  The
`signal_set` of `MessageCycle::run`, which is compiled outside of Windows only, is left out,
and so is the output.
-/

namespace Rpc

namespace ServerMain

/-- Where `main` stands. -/
inductive Stage where
  /-- `while (g_running)` -/
  | waiting
  /-- `server.stop()`: `close_all()` has these connections left to close -/
  | stopping (conns : List Nat)
  /-- `ios_.stop()` has been called: `server_thread.join()` -/
  | joining
  /-- `~RpcServer` calls `stop()` -/
  | destroying (conns : List Nat)
  /-- the server is destroyed: `~ThreadPool` -/
  | unwinding
  | returned
  deriving DecidableEq, Repr

/-- The members of the server that a task calls.  A handler may call the server in turn: `Stats`
    asks for `connection_count()`.  This happens inside of `process_request`, and is not another
    entry of `dangling`. -/
inductive Member where
  | processRequest
  | sendResponse
  deriving DecidableEq, Repr

end ServerMain

/-- The program, with its history. -/
structure ServerMain where
  server : Server
  stage : ServerMain.Stage
  /-- the number of connections accepted: they are numbered from 0 on -/
  accepted : Nat
  /-- `server_thread` has left `server.start(port)` -/
  threadEnded : Bool
  /-- the server when it was destroyed -/
  destroyed : Option Server
  /-- the calls of its members since -/
  dangling : List (ServerMain.Member × Job)

namespace ServerMain

/-- The program when the event loop runs, with a pool constructed for so many threads on
    such hardware. -/
def init (services : ServiceManager) (threads : UInt64 × UInt32) : ServerMain :=
  { server := .init services (some threads), stage := .waiting, accepted := 0,
    threadEnded := false, destroyed := none, dangling := [] }

/-- `ios_.stop()` has been called. -/
def loopStopped (s : ServerMain) : Bool :=
  match s.stage with
  | .waiting | .stopping _ => false
  | _ => true

/-- The steps that the threads may take. -/
def permits (s : ServerMain) : Server.Act → Bool
  | .conn k a =>
    match a with
    -- only `stop()` calls `close()`
    | .close => false
    | .startRead => k == s.accepted && !s.loopStopped
    | .push t _ | .pop t | .startWrite t _ => t.isSome || !s.threadEnded
    -- a stopped `io_context` starts no handler
    | _ => !s.loopStopped
  | .enter _ | .leave _ => !s.threadEnded
  | .pool a =>
    match a with
    | .setStop | .notifyAll => s.stage == .unwinding
    -- nobody calls `drain()`
    | .join | .drain | .drainCheck _ | .drainBlock _ | .wakeDrainer _ => false
    | _ => true
  | _ => true

/-- The step that accepts a connection. -/
def accepts : Server.Act → Bool
  | .conn _ .startRead => true
  | _ => false

/-- The members of the server that a step calls, and for which message. -/
def memberCalls (s : Server) : Server.Act → List (Member × Job)
  | .process n => (s.invocations[n]?).toList.map fun inv => (.processRequest, inv.job)
  | .send n => (s.invocations[n]?).toList.map fun inv => (.sendResponse, inv.job)
  | _ => []

/-- `server_thread` is outside of the handlers. -/
def loopIdle (s : ServerMain) : Bool :=
  s.server.ioIdle &&
    (List.range s.accepted).all fun k => Server.outsideSend (s.server.conns k) none

/-- The steps of the program. -/
inductive Act where
  /-- a step of `server_thread`, of a worker or of `~ThreadPool` -/
  | server (a : Server.Act)
  /-- `g_running` is false: `close_all()` takes its snapshot -/
  | signal
  /-- `close_all()` closes a connection -/
  | close
  /-- `ios_.stop()` -/
  | iosStop
  /-- `ios_.run()` returns, and `server_thread` ends -/
  | threadEnd
  /-- `server_thread.join()` returns, and `main` leaves its block -/
  | join
  /-- the members of the server are destroyed -/
  | destroy
  /-- `~ThreadPool` has joined the workers -/
  | finish

/-- One step.  An exception that leaves `server_thread` terminates the program. -/
def step (s : ServerMain) (a : Act) : Option ServerMain :=
  if s.server.loopDead then none
  else
    match a with
    | .server a =>
      if s.permits a then
        (s.server.step a).map fun server =>
          { s with
            server
            accepted := if accepts a then s.accepted + 1 else s.accepted
            dangling :=
              if s.destroyed.isSome then s.dangling ++ memberCalls s.server a else s.dangling }
      else none
    | .signal =>
      match s.stage with
      | .waiting => some { s with stage := .stopping (List.range s.accepted) }
      | _ => none
    | .close =>
      match s.stage with
      | .stopping (k :: ks) =>
        (s.server.step (.conn k .close)).map fun server => { s with server, stage := .stopping ks }
      | .destroying (k :: ks) =>
        (s.server.step (.conn k .close)).map fun server =>
          { s with server, stage := .destroying ks }
      | _ => none
    | .iosStop =>
      match s.stage with
      | .stopping [] => some { s with stage := .joining }
      | _ => none
    | .threadEnd =>
      if s.loopStopped ∧ s.threadEnded = false ∧ s.loopIdle then some { s with threadEnded := true }
      else none
    | .join =>
      if s.stage = .joining ∧ s.threadEnded then
        some { s with stage := .destroying (List.range s.accepted) }
      else none
    | .destroy =>
      match s.stage with
      | .destroying [] => some { s with stage := .unwinding, destroyed := some s.server }
      | _ => none
    | .finish =>
      match s.stage with
      | .unwinding =>
        (s.server.step (.pool .join)).map fun server => { s with server, stage := .returned }
      | _ => none

end ServerMain

end Rpc
