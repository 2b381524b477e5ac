import Mathlib.Data.List.AList
import Mathlib.Logic.Function.Basic
import Rpc.Native.Connection

/-!
# Message cycle

Model of `network/message_cycle.cpp` and `network/connection_manager.cpp` as a transition
system: the io thread that accepts connections and runs the handlers of their reads and
writes, any number of threads that call `send()`, `close()` and `close_all()`, and one that
calls `stop()`.

A connection is identified with the position in which it was accepted.  A handler that
calls `on_close_` or `on_message_` is more than one step, as other threads may act before
the callback has run.

Of asio this is assumed: handlers run one at a time on the thread inside of `run()`, and none
begins after `ios_.stop()`.  A read completes with exactly the bytes asked for or fails, and
fails once the socket is closed; but a handler that is waiting to run then runs with the
result it has.  The same holds for accepts and the acceptor.
-/

namespace Rpc

namespace MessageCycle

/-- Where the io thread is. -/
inductive Io where
  /-- `run()` has not been called -/
  | notStarted
  /-- between two handlers -/
  | idle
  /-- in the accept handler: the connection is constructed -/
  | accepted (k : Nat)
  /-- `conn_mgr_.add` has returned -/
  | added (k : Nat)
  /-- `start_read` has returned -/
  | readStarted
  /-- in `on_close_` -/
  | closing (k : Nat)
  /-- in `on_message_` -/
  | message (k : Nat)
  /-- `ios_.run()` has returned, or an exception has left it -/
  | ended
  deriving DecidableEq, Repr

/-- How far `stop()` has come. -/
inductive Stop where
  | notCalled
  /-- `running_` is cleared -/
  | cleared
  | acceptorClosed
  /-- `close_all` has emptied `conns_`, and has these connections left to close -/
  | closing (rest : List Nat)
  /-- `ios_.stop()` has been called -/
  | iosStopped
  | returned
  deriving DecidableEq, Repr

/-- The socket of a connection. -/
inductive Socket where
  | open
  /-- `close()` has set `closed_` and is about to close the socket -/
  | closing
  | closed
  deriving DecidableEq, Repr

/-- A connection with its socket. -/
structure Peer where
  conn : Connection
  /-- `conn_id_` -/
  connId : UInt64
  socket : Socket
  /-- the read has completed and its handler waits to run; `some none` is an error -/
  completion : Option (Option Bytes)
  deriving DecidableEq, Repr

namespace Peer

/-- A connection as constructed. -/
def init : Peer := { conn := .init, connId := 0, socket := .open, completion := none }

/-- The number of bytes the outstanding `async_read` asks for. -/
def expected (p : Peer) : Option Nat :=
  match p.conn.reading with
  | .header => some 20
  | .body header => some header.bodySize.toNat
  | _ => none

/-- `Connection::close`, up to the call of `socket_.close`. -/
def close (p : Peer) : Peer :=
  if p.conn.closed then p
  else { p with conn := { p.conn with closed := true }, socket := .closing }

/-- The handler of the read that has completed. -/
def readHandler (p : Peer) : Option Connection :=
  match p.completion with
  | some none => p.conn.step .readError
  | some (some data) =>
    match p.conn.reading with
    | .header => p.conn.step (.readHeader data)
    | .body _ => p.conn.step (.readBody data)
    | _ => none
  | none => none

end Peer

end MessageCycle

open MessageCycle

/-- A message cycle, with its history. -/
structure MessageCycle where
  running : Bool
  acceptorOpen : Bool
  /-- an `async_accept` is outstanding -/
  armed : Bool
  /-- it has completed with a socket, and its handler waits to run -/
  incoming : Bool
  iosStopped : Bool
  /-- `conns_` of the connection manager -/
  conns : AList (fun _ : UInt64 => Nat)
  /-- `next_id_` -/
  nextId : UInt64
  /-- how many connections have been constructed -/
  accepted : Nat
  peers : Nat → Peer
  io : Io
  /-- what calls of `close_all()`, other than the one of `stop()`, have left to close -/
  toClose : List Nat
  stop : Stop
  /-- started with `run_async()`: `stop()` joins the io thread -/
  async : Bool
  /-- the calls of `on_message_`: the connection, and its `closed_` at the time -/
  messages : List (Nat × Bool)

namespace MessageCycle

/-- A cycle after `start_listen`. -/
def init (async : Bool) : MessageCycle :=
  { running := false, acceptorOpen := true, armed := true, incoming := false, iosStopped := false,
    conns := ∅, nextId := 1, accepted := 0, peers := fun _ => .init, io := .notStarted,
    toClose := [], stop := .notCalled, async, messages := [] }

/-- Replace connection `k`. -/
def setPeer (s : MessageCycle) (k : Nat) (p : Peer) : MessageCycle :=
  { s with peers := Function.update s.peers k p }

/-- How many connections have been added to the manager. -/
def added (s : MessageCycle) : Nat :=
  match s.io with
  | .accepted k => k
  | _ => s.accepted

/-- A connection that was added. -/
def known (s : MessageCycle) (k : Nat) : Bool := k < s.added

/-- A handler may begin. -/
def ready (s : MessageCycle) : Bool := s.io = .idle && !s.iosStopped

/-- Where a handler of connection `k` that changed it from `c` to `c'` has come to. -/
def afterHandler (k : Nat) (c c' : Connection) : Io :=
  if c'.onCloseCalls ≠ c.onCloseCalls then .closing k
  else
    match c'.reading with
    | .handling .. => .message k
    | _ => .idle

/-- The calls of `on_message_` made by such a handler. -/
def messagesOf (k : Nat) (c c' : Connection) : List (Nat × Bool) :=
  match c'.reading with
  | .handling .. => [(k, c.closed)]
  | _ => []

/-- The connections in `conns_`. -/
def snapshot (s : MessageCycle) : List Nat := s.conns.entries.map fun e => e.2

/-- The steps of a cycle. -/
inductive Act where
  /-- `run()` sets `running_` and enters `ios_.run()` -/
  | run
  /-- a client connects -/
  | connects
  /-- the accept handler begins, with a socket -/
  | accept
  /-- it runs with an error -/
  | acceptError
  | add
  | startRead
  /-- the accept handler ends -/
  | rearm
  /-- the outstanding read of connection `k` completes -/
  | readCompletes (k : Nat) (data : Option Bytes)
  /-- its handler runs, up to the callback -/
  | readHandler (k : Nat)
  /-- `on_close_` removes its connection -/
  | remove
  | messageReturns
  | messageThrows
  /-- a step of `send()` or `do_write()` -/
  | write (k : Nat) (a : Connection.Act)
  | writeDone (k : Nat) (data : Bytes)
  | writeError (k : Nat) (data : Bytes)
  /-- `close()` on a connection got from `get()` or `all_connections()` -/
  | close (k : Nat)
  /-- a `close()` closes the socket -/
  | socketClose (k : Nat)
  /-- `close_all()` empties `conns_` -/
  | closeAll
  /-- such a call closes a connection of its snapshot -/
  | closeNext (k : Nat)
  /-- `stop()` clears `running_` -/
  | stop
  | stopAcceptor
  | stopSnapshot
  | stopClose
  | stopIos
  | stopReturn
  /-- `ios_.run()` returns -/
  | loopEnds
  deriving DecidableEq, Repr

/-- The steps that any thread takes inside of `send()` and `do_write()`. -/
def isWriteStep : Connection.Act → Bool
  | .send .. | .push .. | .pop _ | .startWrite .. => true
  | _ => false

/-- One step. -/
def step (s : MessageCycle) : Act → Option MessageCycle
  | .run => if s.io = .notStarted then some { s with running := true, io := .idle } else none
  | .connects =>
    if s.armed ∧ s.acceptorOpen ∧ ¬s.incoming then some { s with incoming := true } else none
  | .accept =>
    if s.ready ∧ s.armed ∧ s.incoming then
      some { s with armed := false, incoming := false, accepted := s.accepted + 1
                    io := .accepted s.accepted }
    else none
  | .acceptError =>
    if s.ready ∧ s.armed ∧ ¬s.incoming then some { s with armed := s.running } else none
  | .add =>
    match s.io with
    | .accepted k =>
      some { s.setPeer k { s.peers k with connId := s.nextId } with
        nextId := s.nextId + 1
        conns := s.conns.insert s.nextId k
        io := .added k }
    | _ => none
  | .startRead =>
    match s.io with
    | .added k => ((s.peers k).conn.step .startRead).map fun conn =>
        { s.setPeer k { s.peers k with conn } with io := .readStarted }
    | _ => none
  | .rearm =>
    match s.io with
    | .readStarted => some { s with armed := s.running, io := .idle }
    | _ => none
  | .readCompletes k data =>
    match (s.peers k).completion, (s.peers k).expected, data with
    | none, some n, some data =>
      if s.known k ∧ data.length = n ∧ (s.peers k).socket ≠ .closed then
        some (s.setPeer k { s.peers k with completion := some (some data) })
      else none
    | none, some _, none =>
      if s.known k then some (s.setPeer k { s.peers k with completion := some none }) else none
    | _, _, _ => none
  | .readHandler k =>
    if s.ready ∧ s.known k then
      (s.peers k).readHandler.map fun conn =>
        { s.setPeer k { s.peers k with conn, completion := none } with
          io := afterHandler k (s.peers k).conn conn
          messages := s.messages ++ messagesOf k (s.peers k).conn conn }
    else none
  | .remove =>
    match s.io with
    | .closing k => some { s with conns := s.conns.erase (s.peers k).connId, io := .idle }
    | _ => none
  | .messageReturns =>
    match s.io with
    | .message k => ((s.peers k).conn.step .messageHandled).map fun conn =>
        { s.setPeer k { s.peers k with conn } with io := .idle }
    | _ => none
  | .messageThrows =>
    match s.io with
    | .message k => ((s.peers k).conn.step .messageThrew).map fun conn =>
        { s.setPeer k { s.peers k with conn } with io := .ended }
    | _ => none
  | .write k a =>
    if s.known k ∧ isWriteStep a then
      ((s.peers k).conn.step a).map fun conn => s.setPeer k { s.peers k with conn }
    else none
  | .writeDone k data =>
    if s.ready ∧ s.known k then
      ((s.peers k).conn.step (.writeDone data)).map fun conn => s.setPeer k { s.peers k with conn }
    else none
  | .writeError k data =>
    if s.ready ∧ s.known k then
      ((s.peers k).conn.step (.writeError data)).map fun conn =>
        { s.setPeer k { s.peers k with conn } with
          io := if conn.onCloseCalls ≠ (s.peers k).conn.onCloseCalls then .closing k else .idle }
    else none
  | .close k =>
    -- a connection can be got once it has been in `conns_`
    if s.known k then some (s.setPeer k (s.peers k).close) else none
  | .socketClose k =>
    match (s.peers k).socket with
    | .closing => some (s.setPeer k { s.peers k with socket := .closed })
    | _ => none
  | .closeAll => some { s with conns := ∅, toClose := s.toClose ++ s.snapshot }
  | .closeNext k =>
    if k ∈ s.toClose then
      some { s.setPeer k (s.peers k).close with toClose := s.toClose.erase k }
    else none
  | .stop =>
    match s.stop with
    | .notCalled => some { s with running := false, stop := .cleared }
    | _ => none
  | .stopAcceptor =>
    match s.stop with
    | .cleared => some { s with acceptorOpen := false, stop := .acceptorClosed }
    | _ => none
  | .stopSnapshot =>
    match s.stop with
    | .acceptorClosed => some { s with conns := ∅, stop := .closing s.snapshot }
    | _ => none
  | .stopClose =>
    match s.stop with
    | .closing (k :: rest) =>
      some { s.setPeer k (s.peers k).close with stop := .closing rest }
    | _ => none
  | .stopIos =>
    match s.stop with
    | .closing [] => some { s with iosStopped := true, stop := .iosStopped }
    | _ => none
  | .stopReturn =>
    match s.stop with
    | .iosStopped =>
      if s.async ∧ s.io ≠ .ended then none else some { s with stop := .returned }
    | _ => none
  | .loopEnds =>
    if s.io = .idle ∧ s.iosStopped then some { s with io := .ended } else none

end MessageCycle

end Rpc
