import Rpc.ForStd.IoContext
import Rpc.Native.Registry

/-!
# The wait loops of the registry

Model of the loops of `registry/service_registry.cpp` that wait for a future, and of
the handlers of `zk_client.hpp` they drive.  Every operation of the registry is a sequence
of `client_->connect(...)` or of requests, each followed by

    while (future.wait_for(10ms) == std::future_status::timeout) { ios_.poll_one(); }

so it is enough to look at these.  A handler is named by the number of its operation and the
stage the operation has come to.  The server answers every request; what it answers does not
matter here, and every operation on the socket may complete with an error as well.
-/

namespace Rpc

open Zk

namespace WaitLoop

/-- What the next handler of an operation is the completion of. -/
inductive Stage where
  /-- `async_connect` -/
  | connecting
  /-- the write of `do_handshake` -/
  | handshakeWrite
  /-- the two reads of `read_handshake_response` -/
  | handshakeLength | handshakeBody
  /-- the handler posted by `do_send` -/
  | posted
  /-- the write it starts -/
  | requestWrite
  /-- the two reads of `do_read_response` -/
  | replyLength | replyBody
  deriving DecidableEq, Repr

/-- What a handler starts when it is called without an error. -/
def Stage.next : Stage → Option Stage
  | .connecting => some .handshakeWrite
  | .handshakeWrite => some .handshakeLength
  | .handshakeLength => some .handshakeBody
  | .handshakeBody => none
  | .posted => some .requestWrite
  | .requestWrite => some .replyLength
  | .replyLength => some .replyBody
  | .replyBody => none

/-- A handler, with the number of its operation. -/
structure Handler where
  op : Nat
  stage : Stage
  deriving DecidableEq, Repr

/-- The future that is waited for. -/
structure Wait where
  op : Nat
  /-- it is the future of `connect` -/
  isConnect : Bool
  /-- what the promise has been satisfied with; of a request only whether it was -/
  result : Option ResultVoid
  deriving DecidableEq, Repr

end WaitLoop

open WaitLoop

/-- A registry, its client and their `io_context`. -/
structure WaitLoop where
  ios : IoContext Handler
  connected : Bool
  /-- the operation under way -/
  wait : Option Wait
  /-- the operations that have started asynchronous work -/
  started : Nat

namespace WaitLoop

/-- A registry that has not been connected. -/
def init : WaitLoop := { ios := .init, connected := false, wait := none, started := 0 }

/-- Satisfy the promise of an operation. -/
def satisfy (s : WaitLoop) (op : Nat) (result : ResultVoid) : WaitLoop :=
  { s with
    wait := s.wait.map fun w => if w.op = op then { w with result := some result } else w }

/-- The handler `h` is called, with an error or without. -/
def onHandler (s : WaitLoop) (h : Handler) (error : Option Bytes) : WaitLoop :=
  -- the handler that `do_send` posts gets no error
  match if h.stage = .posted then none else error with
  | some msg => s.satisfy h.op (.makeError msg)
  | none =>
    match h.stage.next with
    | some stage => { s with ios := s.ios.start { h with stage } }
    | none => s.satisfy h.op .makeOk

/-- `ios_.poll_one()`. -/
def pollOne (s : WaitLoop) (error : Option Bytes) : WaitLoop :=
  match s.ios.next with
  | some (h, ios) =>
    let s := onHandler { s with ios } h error
    { s with ios := s.ios.finish }
  | none => s

/-- The steps of a registry and of its socket. -/
inductive Act where
  /-- `connect`; the host name may be unknown -/
  | connect (resolveError : Option Bytes)
  /-- an operation of `client_` -/
  | request
  /-- an operation on the socket completes -/
  | complete (h : Handler)
  /-- one turn of the loop; the handler it runs may get an error -/
  | poll (error : Option Bytes)
  /-- the future is ready, and the operation returns -/
  | ret
  deriving DecidableEq, Repr

/-- One step. -/
def step (s : WaitLoop) : Act → Option WaitLoop
  | .connect resolveError =>
    match s.wait with
    | none =>
      match resolveError with
      | none =>
        some { s with
          ios := s.ios.start { op := s.started, stage := .connecting }
          wait := some { op := s.started, isConnect := true, result := none }
          started := s.started + 1 }
      -- the promise is satisfied before the loop is entered
      | some msg =>
        some { s with
          wait := some { op := s.started, isConnect := true, result := some (.makeError msg) } }
    | some _ => none
  | .request =>
    match s.wait with
    | none =>
      if s.connected then
        some { s with
          ios := s.ios.post { op := s.started, stage := .posted }
          wait := some { op := s.started, isConnect := false, result := none }
          started := s.started + 1 }
      -- `if (!connected_) return ...`
      else some s
    | some _ => none
  | .complete h => (s.ios.complete h).map fun ios => { s with ios }
  | .poll error =>
    match s.wait with
    | some { result := none, .. } => some (s.pollOne error)
    | _ => none
  | .ret =>
    match s.wait with
    | some { isConnect, result := some result, .. } =>
      some { s with
        wait := none
        connected := if isConnect then result.isOk else s.connected }
    | _ => none

end WaitLoop

end Rpc
