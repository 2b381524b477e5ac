import Mathlib.Data.List.AList
import Rpc.Native.Connection
import Rpc.Native.Service

/-!
# RPC client

Model of `core/rpc_client.cpp` as a transition system: any number of threads
inside of `call()`, the io thread with its read loop and write completions, and
`disconnect()`.

A `PendingRequest` is identified with the call that made it (an index into
`calls`), a promise with the log of the `set_value` calls made on it
(`completions`).  The steps of one `call()` are `call` (take a sequence number),
`register` (insert into `pending_`), `enqueue` (push the frame), and, when the
caller found no writer, the `pop` and `startWrite` of `do_write`.  A response is
matched in two steps: the entry leaves `pending_` under the lock, and
`set_value` runs after the lock is released.

`disconnect()` closes the socket (from then on completions come with an error,
which the model always allows), stops the io context (no further handler is
dispatched, the one that runs goes on) and joins the io thread.
-/

namespace Rpc

/-- `RpcClient::WriteItem`; `call` names the call it belongs to. -/
structure WriteItem where
  frame : Bytes
  seqId : UInt32
  call : Nat
  deriving DecidableEq, Repr

/-- How far an invocation of `call()` has come. -/
inductive CallPhase where
  | allocated | registered | enqueued
  deriving DecidableEq, Repr

/-- One invocation of `call()`. -/
structure Call where
  service : Bytes
  method : Bytes
  params : Bytes
  timeoutMs : UInt32
  seqId : UInt32
  phase : CallPhase
  deriving DecidableEq, Repr

/-- The request body object of a call. -/
def Call.request (c : Call) : RpcRequest :=
  { serviceName := c.service, methodName := c.method, timeoutMs := c.timeoutMs,
    params := c.params }

/-- The frame header of a call. -/
def Call.header (c : Call) : RpcHeader :=
  requestHeader c.seqId (UInt32.ofNat c.request.serialize.length)

/-- The frame a call enqueues. -/
def Call.frame (c : Call) : Bytes := serializeHeader c.header ++ c.request.serialize

/-- Which of its three sites completed a promise. -/
inductive Origin where
  /-- `do_read_body`, for this frame of the server -/
  | frame (header : RpcHeader) (body : Bytes)
  /-- the error path of `do_write` -/
  | writeFailed
  /-- `reject_all_pending` -/
  | rejected
  deriving DecidableEq, Repr

/-- One `set_value`, on the promise of `call`. -/
structure Completion where
  call : Nat
  resp : RpcResponse
  origin : Origin
  deriving DecidableEq, Repr

namespace RpcClient

/-- What the client's read loop is waiting for. -/
inductive Reading where
  /-- the connection -/
  | notStarted
  /-- the 20 bytes of a header -/
  | header
  /-- the body announced by this header -/
  | body (header : RpcHeader)
  /-- its own `set_value`: the handler has taken `call` out of `pending_` -/
  | matched (header : RpcHeader) (body : Bytes) (resp : RpcResponse) (call : Option Nat)
  /-- nothing any more -/
  | ended
  deriving DecidableEq, Repr

end RpcClient

/-- A client, with its history. -/
structure RpcClient where
  nextSeqId : UInt32
  pending : AList (fun _ : UInt32 => Nat)
  writes : WriteChain ThreadId WriteItem
  reading : RpcClient.Reading
  /-- `ios_.stop()` has been called -/
  ioStopped : Bool
  /-- the io thread has been joined -/
  joined : Bool
  /-- the invocations of `call()`, in the order of their sequence numbers -/
  calls : List Call
  /-- the `set_value` calls, in order -/
  completions : List Completion
  /-- the calls whose promise was overwritten in `pending_` -/
  dropped : List Nat
  /-- the frames received and decoded, in order -/
  received : List (RpcHeader × Bytes)
  /-- whether some write has failed -/
  writeFailed : Bool

namespace RpcClient

/-- A client as constructed. -/
def init : RpcClient :=
  { nextSeqId := 1, pending := ∅, writes := .empty, reading := .notStarted,
    ioStopped := false, joined := false, calls := [], completions := [], dropped := [],
    received := [], writeFailed := false }

/-- The response of the client's own failure paths. -/
def closedResponse (reason : Bytes) : RpcResponse :=
  { errorCode := ErrorCode.connectionClosed.toInt32, errorMsg := reason, result := [] }

/-- `reject_all_pending`. -/
def rejectAllPending (s : RpcClient) (reason : Bytes) : RpcClient :=
  { s with
    pending := ∅
    completions := s.completions ++ s.pending.entries.map fun e =>
      { call := e.2, resp := closedResponse reason, origin := .rejected } }

/-- The handler of `do_read_header`'s `async_read`; an error carries its message. -/
def onReadHeader (s : RpcClient) : Except Bytes Bytes → RpcClient
  | .error reason => { s.rejectAllPending reason with reading := .ended }
  | .ok hdrData =>
    match deserializeHeader hdrData with
    | .error _ => { s.rejectAllPending (Bytes.ofString "bad header") with reading := .ended }
    | .ok header =>
      if header.magic ≠ RpcHeader.MAGIC then
        { s.rejectAllPending (Bytes.ofString "bad magic") with reading := .ended }
      else { s with reading := .body header }

/-- The handler of `do_read_body`'s `async_read`, up to the release of `pending_mux_`. -/
def onReadBody (s : RpcClient) (header : RpcHeader) : Except Bytes Bytes → RpcClient
  | .error reason => { s.rejectAllPending reason with reading := .ended }
  | .ok body =>
    match RpcResponse.deserialize body with
    | .error _ => { s.rejectAllPending (Bytes.ofString "bad response") with reading := .ended }
    | .ok resp =>
      { s with
        reading := .matched header body resp (s.pending.lookup header.seqId)
        pending := s.pending.erase header.seqId
        received := s.received ++ [(header, body)] }

/-- `set_value` on the promise taken out of `pending_`, then `do_read_header`. -/
def onMatched (s : RpcClient) (header : RpcHeader) (body : Bytes) (resp : RpcResponse)
    (call : Option Nat) : RpcClient :=
  { s with
    reading := .header
    completions := s.completions ++ call.toList.map fun c =>
      { call := c, resp, origin := .frame header body } }

/-- The handler of a failed write: the request it belongs to is taken out of
    `pending_` and completed. -/
def onWriteError (s : RpcClient) (item : WriteItem) (reason : Bytes) : RpcClient :=
  { s with
    writeFailed := true
    pending := s.pending.erase item.seqId
    completions := s.completions ++ (s.pending.lookup item.seqId).toList.map fun c =>
      { call := c, resp := closedResponse reason, origin := .writeFailed } }

/-- The steps of a client. -/
inductive Act where
  /-- `call()` takes a sequence number -/
  | call (service method params : Bytes) (timeoutMs : UInt32)
  /-- `call()` inserts its promise into `pending_` -/
  | register (call : Nat)
  /-- `call()` enters `enqueue_write`'s critical section -/
  | enqueue (call : Nat)
  /-- `async_connect` succeeds and `start_read_loop` runs -/
  | connected
  | readHeader (hdrData : Bytes)
  | readBody (body : Bytes)
  | readError (reason : Bytes)
  | setValue
  | pop (t : ThreadId)
  | startWrite (t : ThreadId) (item : WriteItem)
  | writeDone (item : WriteItem)
  | writeError (item : WriteItem) (reason : Bytes)
  | stopIo
  | joinIo
  deriving DecidableEq, Repr

/-- Move an invocation of `call()` on. -/
def setPhase (s : RpcClient) (c : Nat) (call : Call) (phase : CallPhase) : List Call :=
  s.calls.set c { call with phase }

/-- One step of a client. -/
def step (s : RpcClient) : Act → Option RpcClient
  | .call service method params timeoutMs =>
    some { s with
      nextSeqId := s.nextSeqId + 1
      calls := s.calls ++
        [{ service, method, params, timeoutMs, seqId := s.nextSeqId, phase := .allocated }] }
  | .register c =>
    match s.calls[c]? with
    | some call =>
      if call.phase = .allocated then
        some { s with
          calls := s.setPhase c call .registered
          pending := s.pending.insert call.seqId c
          dropped := s.dropped ++ (s.pending.lookup call.seqId).toList }
      else none
    | none => none
  | .enqueue c =>
    match s.calls[c]? with
    | some call =>
      if call.phase = .registered then
        some { s with
          calls := s.setPhase c call .enqueued
          writes := s.writes.push (some c) { frame := call.frame, seqId := call.seqId, call := c } }
      else none
    | none => none
  | .connected =>
    if s.reading = .notStarted ∧ s.ioStopped = false then some { s with reading := .header }
    else none
  | .readHeader hdrData =>
    if s.reading = .header ∧ s.ioStopped = false ∧ hdrData.length = 20 then
      some (s.onReadHeader (.ok hdrData))
    else none
  | .readBody body =>
    match s.reading with
    | .body header =>
      if s.ioStopped = false ∧ body.length = header.bodySize.toNat then
        some (s.onReadBody header (.ok body))
      else none
    | _ => none
  | .readError reason =>
    if s.ioStopped then none
    else
      match s.reading with
      | .header => some (s.onReadHeader (.error reason))
      | .body header => some (s.onReadBody header (.error reason))
      | _ => none
  | .setValue =>
    match s.reading with
    | .matched header body resp call => some (s.onMatched header body resp call)
    | _ => none
  | .pop t => (s.writes.pop t).map fun writes => { s with writes }
  | .startWrite t item => (s.writes.start t item).map fun writes => { s with writes }
  | .writeDone item =>
    if s.ioStopped then none
    else (s.writes.complete none item).map fun writes => { s with writes }
  -- the handler of a failed write goes on with `do_write`, like that of a completed one
  | .writeError item reason =>
    if s.ioStopped then none
    else (s.writes.complete none item).map fun writes =>
      { s.onWriteError item reason with writes }
  | .stopIo => some { s with ioStopped := true }
  | .joinIo =>
    -- the handler that was running has returned: nothing is matched, and the
    -- io thread is not inside of `do_write`
    match s.reading with
    | .matched .. => none
    | _ =>
      if s.ioStopped ∧ ∀ p ∈ s.writes.threads, p.1 ≠ none then some { s with joined := true }
      else none

/-! ## The read loop on its own -/

/-- The next completion of the read loop when the server has sent `stream` and
    closed. -/
def readStep (s : RpcClient) (stream : Bytes) : Option (RpcClient × Bytes) :=
  let eof := Bytes.ofString "End of file"
  match s.reading with
  | .header =>
    if 20 ≤ stream.length then some (s.onReadHeader (.ok (stream.take 20)), stream.drop 20)
    else some (s.onReadHeader (.error eof), stream)
  | .body header =>
    let n := header.bodySize.toNat
    if n ≤ stream.length then some (s.onReadBody header (.ok (stream.take n)), stream.drop n)
    else some (s.onReadBody header (.error eof), stream)
  | .matched header body resp call => some (s.onMatched header body resp call, stream)
  | .notStarted | .ended => none

/-- At most `fuel` completions of the read loop. -/
def readLoop : Nat → RpcClient → Bytes → RpcClient
  | 0, s, _ => s
  | fuel + 1, s, stream =>
    match s.readStep stream with
    | some (s', rest) => readLoop fuel s' rest
    | none => s

end RpcClient

end Rpc
