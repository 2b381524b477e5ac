import Rpc.ForStd.Transition
import Rpc.ForStd.WriteChain
import Rpc.Native.Protocol

/-!
# Server-side connection

Model of `network/connection.cpp` as a transition system.  The io thread runs
the read loop and the completion handlers; any other thread may call `send`.

Each action is one step that other threads can observe: the completion of an
`async_read` or `async_write`, a critical section under `write_mux_`, or a
compare-exchange on `closed_`.  Of asio only this is assumed: an `async_read`
completes with exactly the bytes asked for, or with an error.
-/

namespace Rpc

/-- The threads that touch a connection: `none` is the io thread. -/
abbrev ThreadId := Option Nat

namespace Connection

/-- What the read loop is waiting for. -/
inductive Reading where
  /-- `start_read` has not been called -/
  | idle
  /-- the 20 bytes of a header -/
  | header
  /-- the body announced by this header -/
  | body (header : RpcHeader)
  /-- `on_message_`, called with this message, to return -/
  | handling (header : RpcHeader) (body : Bytes)
  /-- nothing any more -/
  | ended
  deriving DecidableEq, Repr

end Connection

/-- A connection, with the history of its callbacks. -/
structure Connection where
  reading : Connection.Reading
  closed : Bool
  /-- threads inside of `send`, past the check of `closed_`, with their frame -/
  sending : List (ThreadId × Bytes)
  /-- `write_queue_`, `writing_` and the writes in progress -/
  writes : WriteChain ThreadId Bytes
  /-- the calls of `on_message_`, in order -/
  delivered : List (RpcHeader × Bytes)
  /-- how often `on_close_` has been called -/
  onCloseCalls : Nat
  deriving DecidableEq, Repr

namespace Connection

/-- A connection as constructed. -/
def init : Connection :=
  { reading := .idle, closed := false, sending := [], writes := .empty,
    delivered := [], onCloseCalls := 0 }

/-- The compare-exchange of `closed_` and the call of `on_close_` it guards. -/
def closeOnce (c : Connection) : Connection :=
  if c.closed then c else { c with closed := true, onCloseCalls := c.onCloseCalls + 1 }

/-- The handler of `do_read_header`'s `async_read`; `none` is an error. -/
def onReadHeader (c : Connection) : Option Bytes → Connection
  | none => { c.closeOnce with reading := .ended }
  | some hdrData =>
    match deserializeHeader hdrData with
    | .error _ => { c.closeOnce with reading := .ended }
    | .ok header =>
      if header.magic ≠ RpcHeader.MAGIC then { c.closeOnce with reading := .ended }
      else { c with reading := .body header }

/-- The handler of `do_read_body`'s `async_read`, up to the call of `on_message_`. -/
def onReadBody (c : Connection) (header : RpcHeader) : Option Bytes → Connection
  | none => { c.closeOnce with reading := .ended }
  | some body =>
    { c with reading := .handling header body, delivered := c.delivered ++ [(header, body)] }

/-- The frame `send` builds. -/
def frame (header : RpcHeader) (body : Bytes) : Bytes := serializeHeader header ++ body

/-- The steps of a connection. -/
inductive Act where
  | startRead
  | readHeader (hdrData : Bytes)
  | readBody (body : Bytes)
  | readError
  /-- `on_message_` returns to the read handler -/
  | messageHandled
  /-- an exception leaves `on_message_` and the read handler -/
  | messageThrew
  /-- thread `t` calls `send` and reads `closed_` -/
  | send (t : ThreadId) (header : RpcHeader) (body : Bytes)
  /-- thread `t` enters `send`'s critical section -/
  | push (t : ThreadId) (data : Bytes)
  | pop (t : ThreadId)
  | startWrite (t : ThreadId) (data : Bytes)
  | writeDone (data : Bytes)
  | writeError (data : Bytes)
  | close
  deriving DecidableEq, Repr

/-- One step of a connection. -/
def step (c : Connection) : Act → Option Connection
  | .startRead =>
    match c.reading with
    | .idle => some { c with reading := .header }
    | _ => none
  | .readHeader hdrData =>
    match c.reading with
    | .header => if hdrData.length = 20 then some (c.onReadHeader (some hdrData)) else none
    | _ => none
  | .readBody body =>
    match c.reading with
    | .body header =>
      if body.length = header.bodySize.toNat then some (c.onReadBody header (some body)) else none
    | _ => none
  | .readError =>
    match c.reading with
    | .header => some (c.onReadHeader none)
    | .body header => some (c.onReadBody header none)
    | _ => none
  | .messageHandled =>
    match c.reading with
    | .handling _ _ => some { c with reading := .header }
    | _ => none
  | .messageThrew =>
    match c.reading with
    | .handling _ _ => some { c with reading := .ended }
    | _ => none
  | .send t header body =>
    if c.closed then some c
    else some { c with sending := (t, frame header body) :: c.sending }
  | .push t data =>
    if (t, data) ∈ c.sending then
      some { c with sending := c.sending.erase (t, data), writes := c.writes.push t data }
    else none
  | .pop t => (c.writes.pop t).map fun writes => { c with writes }
  | .startWrite t data => (c.writes.start t data).map fun writes => { c with writes }
  | .writeDone data => (c.writes.complete none data).map fun writes => { c with writes }
  -- the handler of a failed write returns without another `do_write`
  | .writeError data => (c.writes.abort data).map fun writes => { c.closeOnce with writes }
  | .close => some { c with closed := true }

/-! ## The read loop on its own -/

/-- The next completion of the read loop when the peer has sent `stream` and
    closed: the bytes asked for if they are there, else an error. `on_message_`
    returns at once. -/
def readStep (c : Connection) (stream : Bytes) : Option (Connection × Bytes) :=
  match c.reading with
  | .header =>
    if 20 ≤ stream.length then some (c.onReadHeader (some (stream.take 20)), stream.drop 20)
    else some (c.onReadHeader none, stream)
  | .body header =>
    let n := header.bodySize.toNat
    if n ≤ stream.length then some (c.onReadBody header (some (stream.take n)), stream.drop n)
    else some (c.onReadBody header none, stream)
  | .handling _ _ => some ({ c with reading := .header }, stream)
  | .idle | .ended => none

/-- At most `fuel` completions of the read loop. -/
def readLoop : Nat → Connection → Bytes → Connection
  | 0, c, _ => c
  | fuel + 1, c, stream =>
    match c.readStep stream with
    | some (c', rest) => readLoop fuel c' rest
    | none => c

end Connection

end Rpc
