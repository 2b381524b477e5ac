import Rpc.Native.Client
import Rpc.Native.Server

/-!
# Client and server

One `RpcClient` and one `RpcServer`, whose connection 0 is the client's, joined by
two byte streams.  A stream is reliable and in order: what has been read from it
is a prefix of what has been written to it.  A frame may reach the reader in part
while its `async_write` is outstanding, and as a whole before the handler of that
write has run.  A failed write cuts the stream: nothing follows what had been
written by then.

The other connections of the server are free: their peers may send anything.
-/

namespace Rpc

/-- One direction of a TCP connection. -/
structure Wire where
  /-- the bytes read so far -/
  read : Bytes
  /-- what had been written when a write failed -/
  cut : Option Bytes
  deriving DecidableEq, Repr

namespace Wire

/-- Nothing has been read. -/
def init : Wire := { read := [], cut := none }

/-- The bytes that can be read in the end, if `written` have been written. -/
def available (w : Wire) (written : Bytes) : Bytes := w.cut.getD written

/-- `data` is read next. -/
def take (w : Wire) (written data : Bytes) : Option Wire :=
  if w.read ++ data <+: w.available written then some { w with read := w.read ++ data } else none

/-- A write fails. -/
def fail (w : Wire) (written : Bytes) : Wire := { w with cut := some (w.available written) }

end Wire

namespace System

/-- What a step of one party does on its streams. -/
inductive Traffic where
  | quiet
  | read (data : Bytes)
  | writeDone
  | writeError

/-- What a step of the client does on its streams. -/
def clientTraffic : RpcClient.Act → Traffic
  | .readHeader data | .readBody data => .read data
  | .writeDone _ => .writeDone
  | .writeError .. => .writeError
  | _ => .quiet

/-- What a step of a connection does on its streams. -/
def connTraffic : Connection.Act → Traffic
  | .readHeader data | .readBody data => .read data
  | .writeDone _ => .writeDone
  | .writeError _ => .writeError
  | _ => .quiet

/-- What a step of the server does on the streams of the client: those of connection 0. -/
def serverTraffic : Server.Act → Traffic
  | .conn 0 a => connTraffic a
  | _ => .quiet

/-- The streams after a step of a party that reads from `inn`, to which the other
    has written `theirs`, and writes to `out`, to which it has written `ours`. -/
def exchange (inn out : Wire) (theirs ours : Bytes) : Traffic → Option (Wire × Wire)
  | .quiet => some (inn, out)
  | .read data => (inn.take theirs data).map fun inn => (inn, out)
  -- after a failed write the socket accepts no other
  | .writeDone => if out.cut = none then some (inn, out) else none
  | .writeError => some (inn, out.fail ours)

end System

/-- A client, a server, and the two streams between them. -/
structure System where
  client : RpcClient
  server : Server
  /-- from the client to the server -/
  up : Wire
  /-- from the server to the client -/
  down : Wire

namespace System

/-- Nothing has been called. -/
def init (services : ServiceManager) (threads : Option (UInt64 × UInt32)) : System :=
  { client := .init, server := .init services threads, up := .init, down := .init }

/-- What the client has written. -/
def upBytes (s : System) : Bytes := (s.client.writes.started.map WriteItem.frame).flatten

/-- What the server has written to the client. -/
def downBytes (s : System) : Bytes := (s.server.conns 0).writes.started.flatten

/-- The steps of the system: one of either party. -/
inductive Act where
  | client (a : RpcClient.Act)
  | server (a : Server.Act)

/-- One step of the system. -/
def step (s : System) : Act → Option System
  | .client a => do
    let (down, up) ← exchange s.down s.up s.downBytes s.upBytes (clientTraffic a)
    let client ← s.client.step a
    return { s with client, up, down }
  | .server a => do
    let (up, down) ← exchange s.up s.down s.upBytes s.downBytes (serverTraffic a)
    let server ← s.server.step a
    return { s with server, up, down }

end System

end Rpc
