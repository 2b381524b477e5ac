import Mathlib.Data.List.AList
import Rpc.ForStd.Transition
import Rpc.Native.ZkProto

/-!
# ZooKeeper client

Model of the request path of `zk_client/zk_client.hpp` after the handshake, as a
transition system: any number of requests, their writes, the reads each
completed write starts, and a server that sends frames.

There is no read loop.  The completion of a write starts an `async_read` of four
bytes, whose completion starts one of the body; so the outstanding reads are a
queue (`reads`).  Of asio this is assumed: an `async_read` takes exactly the
bytes it asks for, or fails, and the reads on the socket are served in the order
in which they were started.  After a failed read the socket delivers nothing any
more.

A promise is identified with the index of its request, and what is done to it
with the log `outcomes`.
-/

namespace Rpc.Zk

/-- A well-formed frame of the server: the reply header and the payload. -/
structure ReplyFrame where
  xid : Int32
  zxid : Int64
  err : Int32
  payload : Bytes
  fits : 16 + payload.length < 2 ^ 31
  deriving DecidableEq, Repr

/-- What follows the length prefix. -/
def ReplyFrame.body (f : ReplyFrame) : Bytes :=
  writeInt32 (writeInt64 (writeInt32 [] f.xid) f.zxid) f.err ++ f.payload

/-- The bytes the server sends. -/
def ReplyFrame.wire (f : ReplyFrame) : Bytes := makeZpayload f.body

/-- How far a request has come. -/
inductive Phase where
  /-- `xid_++` -/
  | allocated
  /-- in `pending_` -/
  | registered
  /-- `do_send` has posted its write -/
  | posted
  /-- the write has completed -/
  | written
  /-- the write has failed -/
  | failed
  deriving DecidableEq, Repr

/-- One call of `send_request` or `send_request_void`. -/
structure Request where
  op : OpCode
  body : Bytes
  xid : Int32
  phase : Phase
  deriving DecidableEq, Repr

/-- The bytes `do_send` writes. -/
def Request.wire (r : Request) : Bytes := makeZpayload (serializeRequestHeader r.xid r.op ++ r.body)

/-- An outstanding `async_read` of `do_read_response(xid)`. -/
inductive Read where
  | length (xid : Int32)
  | body (xid : Int32) (len : Nat)
  deriving DecidableEq, Repr

/-- What a completed read took off the stream. -/
inductive Chunk where
  | length (data : Bytes)
  | body (data : Bytes)
  deriving DecidableEq, Repr

/-- The bytes of a chunk. -/
def Chunk.data : Chunk → Bytes
  | .length data | .body data => data

/-- How a promise is satisfied. -/
inductive Outcome where
  /-- `resolve(promise, err, data)` -/
  | reply (err : Int32) (data : Bytes)
  /-- `reject(promise, msg)` -/
  | rejected (msg : Bytes)
  deriving DecidableEq, Repr

end Rpc.Zk

namespace Rpc

open Zk

/-- A client with its socket, and the history of both. -/
structure ZkClient where
  xid : Int32
  pending : AList (fun _ : Int32 => Nat)
  reads : List Read
  /-- the bytes that have arrived and not been read -/
  inbox : Bytes
  /-- the bytes sent by the server that have not arrived -/
  transit : Bytes
  /-- a read has failed -/
  broken : Bool
  /-- a handler has thrown or read outside of its buffer -/
  crashed : Bool
  /-- the requests, in the order of their xids -/
  requests : List Request
  /-- the frames the server has sent, each with the request pending under its xid then -/
  sent : List (ReplyFrame × Option Nat)
  /-- the completed reads, in order -/
  consumed : List Chunk
  /-- the promises satisfied, in order -/
  outcomes : List (Nat × Outcome)

namespace ZkClient

/-- A client after its handshake. -/
def init : ZkClient :=
  { xid := 1, pending := ∅, reads := [], inbox := [], transit := [], broken := false,
    crashed := false, requests := [], sent := [], consumed := [], outcomes := [] }

/-- `reject_pending` and `resolve_pending`: the entry leaves `pending_` and its
    promise is satisfied. -/
def settlePending (s : ZkClient) (xid : Int32) (outcome : Outcome) : ZkClient :=
  { s with
    pending := s.pending.erase xid
    outcomes := s.outcomes ++ (s.pending.lookup xid).toList.map fun r => (r, outcome) }

/-- `reject_pending`. -/
def rejectPending (s : ZkClient) (xid : Int32) (msg : Bytes) : ZkClient :=
  s.settlePending xid (.rejected msg)

/-- `resolve_pending`. -/
def resolvePending (s : ZkClient) (rxid : Int32) (err : Int32) (data : Bytes) : ZkClient :=
  s.settlePending rxid (.reply err data)

/-- The handler of the read of a length: a negative one makes the construction of
    the body throw. -/
def onReadLength (s : ZkClient) (xid : Int32) (data : Bytes) : ZkClient :=
  match readInt32 data with
  | .ok (bodyLen, _) =>
    if bodyLen < 0 then { s with crashed := true }
    else { s with reads := s.reads ++ [.body xid bodyLen.toInt.toNat] }
  | .error _ => { s with crashed := true }

/-- The handler of the read of a body. -/
def onReadBody (s : ZkClient) (body : Bytes) : ZkClient :=
  match ReplyHeader.deserialize body with
  | .ok (rh, p) => s.resolvePending rh.xid rh.err p
  | .error _ => { s with crashed := true }

/-- The steps of a client, its socket and the server. -/
inductive Act where
  /-- `send_request` takes an xid -/
  | alloc (op : OpCode) (body : Bytes)
  /-- it inserts its promise into `pending_` -/
  | register (r : Nat)
  /-- `do_send` posts the write -/
  | post (r : Nat)
  | writeDone (r : Nat)
  | writeError (r : Nat) (msg : Bytes)
  /-- the oldest outstanding read completes -/
  | readDone
  | readError (msg : Bytes)
  /-- the server sends a frame -/
  | serve (f : ReplyFrame)
  /-- `n` bytes arrive -/
  | arrive (n : Nat)
  deriving DecidableEq, Repr

/-- Move a request on. -/
def setPhase (s : ZkClient) (r : Nat) (req : Request) (phase : Phase) : List Request :=
  s.requests.set r { req with phase }

/-- One step. -/
def step (s : ZkClient) : Act → Option ZkClient
  | .alloc op body =>
    some { s with
      xid := s.xid + 1
      requests := s.requests ++ [{ op, body, xid := s.xid, phase := .allocated }] }
  | .register r =>
    match s.requests[r]? with
    | some req =>
      if req.phase = .allocated then
        some { s with
          requests := s.setPhase r req .registered
          pending := s.pending.insert req.xid r }
      else none
    | none => none
  | .post r =>
    match s.requests[r]? with
    | some req =>
      if req.phase = .registered then some { s with requests := s.setPhase r req .posted }
      else none
    | none => none
  | .writeDone r =>
    match s.requests[r]? with
    | some req =>
      if req.phase = .posted ∧ s.crashed = false then
        some { s with
          requests := s.setPhase r req .written
          -- `do_read_response(xid)`, behind whatever read is outstanding
          reads := s.reads ++ [.length req.xid] }
      else none
    | none => none
  | .writeError r msg =>
    match s.requests[r]? with
    | some req =>
      if req.phase = .posted ∧ s.crashed = false then
        some { s.rejectPending req.xid msg with requests := s.setPhase r req .failed }
      else none
    | none => none
  | .readDone =>
    if s.crashed ∨ s.broken then none
    else
      match s.reads with
      | .length xid :: reads =>
        if 4 ≤ s.inbox.length then
          some (onReadLength
            { s with
              reads
              inbox := s.inbox.drop 4
              consumed := s.consumed ++ [.length (s.inbox.take 4)] }
            xid (s.inbox.take 4))
        else none
      | .body _ len :: reads =>
        if len ≤ s.inbox.length then
          some (onReadBody
            { s with
              reads
              inbox := s.inbox.drop len
              consumed := s.consumed ++ [.body (s.inbox.take len)] }
            (s.inbox.take len))
        else none
      | [] => none
  | .readError msg =>
    if s.crashed then none
    else
      match s.reads with
      -- the request is found by the xid the read was started for, not by the reply's
      | .length xid :: reads | .body xid _ :: reads =>
        some { s.rejectPending xid msg with reads, inbox := [], broken := true }
      | [] => none
  | .serve f =>
    some { s with
      -- a frame may carry any xid
      sent := s.sent ++ [(f, s.pending.lookup f.xid)]
      transit := s.transit ++ f.wire }
  | .arrive n =>
    if s.broken then none
    else some { s with inbox := s.inbox ++ s.transit.take n, transit := s.transit.drop n }

end ZkClient

end Rpc
