import Mathlib.Logic.Function.Basic
import Rpc.Native.Connection
import Rpc.Native.Service
import Rpc.Native.ThreadPool

/-!
# RPC server

Model of the concurrent part of `core/rpc_service.cpp` as a transition system:
the io thread with any number of connections, the thread pool if one is set, and
the invocations of the body of `on_message` (`process_request`, then
`send_response`), each on a worker or, without a pool, on the io thread.

A delivered message is identified by its connection and its position among the
messages delivered there (`Job.id`).  An exception that leaves `process_request`
ends in the future of its `packaged_task` when a worker runs it; on the io
thread, and when `enqueue()` throws, it leaves `on_message_`, the read handler
and the event loop (`loopDead`).

Services may be registered and unregistered at any time, so that a handler need
not do the same on every invocation.
-/

namespace Rpc

/-- What `on_message` captures: the message, and where it came from. -/
structure Job where
  conn : Nat
  index : Nat
  header : RpcHeader
  body : Bytes
  deriving DecidableEq, Repr

/-- The message a job is for. -/
def Job.id (job : Job) : Nat × Nat := (job.conn, job.index)

namespace Server

/-- How far an invocation has come; it keeps the services `process_request` saw. -/
inductive Progress where
  /-- before or inside of `process_request` -/
  | processing
  /-- `process_request` has returned -/
  | responding (services : ServiceManager) (resp : RpcResponse)
  /-- `Connection::send` has been called -/
  | sending (services : ServiceManager) (resp : RpcResponse)
  | returned (services : ServiceManager) (resp : RpcResponse)
  /-- an exception has left `process_request` -/
  | escaped (services : ServiceManager)

/-- One invocation of the body of `on_message`. -/
structure Invocation where
  thread : ThreadId
  job : Job
  progress : Progress

/-- The body has returned. -/
def Progress.isReturned : Progress → Bool
  | .returned .. => true
  | _ => false

/-- The body has returned, or an exception has left it. -/
def Progress.isOver : Progress → Bool
  | .returned .. | .escaped _ => true
  | _ => false

/-- One call of `Connection::send`. -/
structure Send where
  id : Nat × Nat
  conn : Nat
  header : RpcHeader
  body : Bytes
  deriving DecidableEq, Repr

end Server

/-- A server, with its history. -/
structure Server where
  services : ServiceManager
  /-- `thread_pool_`, unless null -/
  pool : Option (ThreadPool Job)
  /-- the connections; one that has not been accepted is idle -/
  conns : Nat → Connection
  /-- the invocations of the body of `on_message`, in the order of their start -/
  invocations : List Server.Invocation
  /-- the connection whose read handler is inside of `on_message_`, if one is -/
  inMessage : Option Nat
  /-- an exception has left `ios_.run()` -/
  loopDead : Bool
  /-- the messages `on_message` was entered with, and whether the pool was stopped -/
  entered : List ((Nat × Nat) × Bool)
  /-- the messages whose `on_message_` returned to the read handler -/
  left : List (Nat × Nat)
  /-- the messages whose `on_message_` threw into the read handler -/
  threw : List (Nat × Nat)
  sends : List Server.Send

namespace Server

/-- A server as started, without a pool or with one constructed for so many
    threads on such hardware. -/
def init (services : ServiceManager) (threads : Option (UInt64 × UInt32)) : Server :=
  { services, pool := threads.map fun p => ThreadPool.init p.1 p.2, conns := fun _ => .init,
    invocations := [], inMessage := none, loopDead := false, entered := [], left := [],
    threw := [], sends := [] }

/-- Replace connection `k`. -/
def setConn (s : Server) (k : Nat) (c : Connection) : Server :=
  { s with conns := Function.update s.conns k c }

/-- The io thread is running and not inside of `on_message_`. -/
def ioIdle (s : Server) : Bool := !s.loopDead && s.inMessage.isNone

/-- The message connection `k` has handed to `on_message_`, if it has not returned. -/
def current (s : Server) (k : Nat) : Option Job :=
  match (s.conns k).reading with
  | .handling header body =>
    some { conn := k, index := (s.conns k).delivered.length - 1, header, body }
  | _ => none

/-- An exception leaves `on_message_` on the io thread. -/
def throwOut (s : Server) (job : Job) (c : Connection) : Server :=
  { s.setConn job.conn c with
    inMessage := none, loopDead := true, threw := s.threw ++ [job.id] }

/-- `on_message`, up to the end of `enqueue()`'s critical section or the call of
    `process_request`. -/
def onMessage (s : Server) (job : Job) : Option Server :=
  match s.pool with
  | some pool =>
    -- `enqueue()` waits for `mux_`
    if pool.locked then none
    else
      match pool.enqueue job with
      | .ok pool' =>
        some { s with pool := some pool', entered := s.entered ++ [(job.id, false)] }
      | .error _ =>
        -- `enqueue()` throws in the read handler
        ((s.conns job.conn).step .messageThrew).map fun c =>
          { s.throwOut job c with entered := s.entered ++ [(job.id, true)] }
  | none =>
    some { s with
      invocations := s.invocations ++ [{ thread := none, job, progress := .processing }]
      entered := s.entered ++ [(job.id, false)] }

/-- `on_message` is done with the message: `enqueue()` has returned, or the
    invocation on the io thread has. -/
def handled (s : Server) (job : Job) : Bool :=
  match s.pool with
  | some pool => pool.accepted.any fun task => task.job.id = job.id ∧ task.id ∈ pool.returned
  | none => s.invocations.any fun inv => inv.job.id = job.id ∧ inv.progress.isReturned

/-- Thread `t` is outside of `send` on this connection. -/
def outsideSend (c : Connection) (t : ThreadId) : Bool :=
  c.sending.all (fun p => p.1 ≠ t) && c.writes.threads.all (fun p => p.1 ≠ t)

/-- The steps of a server. -/
inductive Act where
  /-- a step of connection `k` that the server does not drive -/
  | conn (k : Nat) (a : Connection.Act)
  /-- `on_message` is entered with the message of connection `k` -/
  | enter (k : Nat)
  /-- it returns to the read handler -/
  | leave (k : Nat)
  /-- a step of the pool that runs no task -/
  | pool (a : ThreadPool.Act Job)
  /-- worker `i` starts its task -/
  | activate (i : Nat)
  /-- worker `i`'s task returns -/
  | finish (i : Nat)
  /-- invocation `n` runs `process_request` -/
  | process (n : Nat)
  /-- invocation `n` calls `Connection::send` -/
  | send (n : Nat)
  /-- invocation `n` returns -/
  | done (n : Nat)
  | register (service : Option Service)
  | unregister (name : Bytes)

/-- The steps of a connection that its handlers and `send` take by themselves. -/
def ownAct : Connection.Act → Bool
  | .send .. | .messageHandled | .messageThrew => false
  | _ => true

/-- The steps of a connection that start a handler on the io thread. -/
def startsHandler : Connection.Act → Bool
  | .startRead | .readHeader _ | .readBody _ | .readError | .writeDone _ | .writeError _ => true
  | _ => false

/-- The step of a connection whose handler calls `on_message_`. -/
def callsOnMessage : Connection.Act → Bool
  | .readBody _ => true
  | _ => false

/-- The steps of a pool that neither submit nor run a task. -/
def poolAct : ThreadPool.Act Job → Bool
  | .enqueue _ | .activate _ | .finish _ => false
  | _ => true

/-- Move an invocation on. -/
def setProgress (s : Server) (n : Nat) (inv : Invocation) (progress : Progress) :
    List Invocation :=
  s.invocations.set n { inv with progress }

/-- One step of a server. -/
def step (s : Server) : Act → Option Server
  | .conn k a =>
    if ownAct a ∧ (startsHandler a → s.ioIdle) then
      ((s.conns k).step a).map fun c =>
        { s.setConn k c with inMessage := if callsOnMessage a then some k else s.inMessage }
    else none
  | .enter k =>
    match s.current k with
    | some job =>
      if s.loopDead = false ∧ job.id ∉ s.entered.map Prod.fst then s.onMessage job else none
    | none => none
  | .leave k =>
    match s.current k with
    | some job =>
      if s.loopDead = false ∧ s.handled job then
        ((s.conns k).step .messageHandled).map fun c =>
          { s.setConn k c with inMessage := none, left := s.left ++ [job.id] }
      else none
    | none => none
  | .pool a =>
    match s.pool with
    | some pool =>
      if poolAct a then (pool.step a).map fun pool => { s with pool := some pool } else none
    | none => none
  | .activate i =>
    match s.pool with
    | some pool =>
      match pool.workers[i]? with
      | some (.popped task) =>
        (pool.step (.activate i)).map fun pool =>
          { s with
            pool := some pool
            invocations := s.invocations ++
              [{ thread := some i, job := task.job, progress := .processing }] }
      | _ => none
    | none => none
  | .finish i =>
    match s.pool with
    | some pool =>
      -- `task()` returns once the body of `on_message` has returned or thrown
      if s.invocations.all (fun inv => inv.thread ≠ some i || inv.progress.isOver) then
        (pool.step (.finish i)).map fun pool => { s with pool := some pool }
      else none
    | none => none
  | .process n =>
    match s.invocations[n]? with
    | some inv =>
      match inv.progress with
      | .processing =>
        match processRequest s.services inv.job.header inv.job.body with
        | .ok resp =>
          some { s with invocations := s.setProgress n inv (.responding s.services resp) }
        | .error _ =>
          let s' := { s with invocations := s.setProgress n inv (.escaped s.services) }
          match inv.thread with
          -- on a worker the exception ends in the future of the `packaged_task`
          | some _ => some s'
          | none => ((s.conns inv.job.conn).step .messageThrew).map fun c => s'.throwOut inv.job c
      | _ => none
    | none => none
  | .send n =>
    match s.invocations[n]? with
    | some inv =>
      match inv.progress with
      | .responding services resp =>
        -- `send` reads `closed_` in this step; what follows are steps of the connection
        let (respHeader, respBody) := sendResponse inv.job.header resp
        ((s.conns inv.job.conn).step (.send inv.thread respHeader respBody)).map fun c =>
          { s.setConn inv.job.conn c with
            invocations := s.setProgress n inv (.sending services resp)
            sends := s.sends ++
              [{ id := inv.job.id, conn := inv.job.conn, header := respHeader, body := respBody }] }
      | _ => none
    | none => none
  | .done n =>
    match s.invocations[n]? with
    | some inv =>
      match inv.progress with
      | .sending services resp =>
        if outsideSend (s.conns inv.job.conn) inv.thread then
          some { s with invocations := s.setProgress n inv (.returned services resp) }
        else none
      | _ => none
    | none => none
  | .register service => some { s with services := s.services.registerService service }
  | .unregister name => some { s with services := s.services.unregisterService name }

end Server

end Rpc
