import Rpc.Native.Client

/-!
# A client and the server it talks to

An `RpcClient` whose peer answers the requests it has got, in any order, each at
most once, and may leave some unanswered for as long as it likes.  Each response
carries the sequence number of the request it answers, and the session remembers
which call that was and whose promise the client took out of `pending_` for it.

A request whose write failed has not reached the server as a whole, and is not
answered.
-/

namespace Rpc

/-- A response that reached the client. -/
structure Answer where
  /-- the call whose request the server answered -/
  call : Nat
  header : RpcHeader
  body : Bytes
  /-- the call whose promise the read handler took out of `pending_` -/
  taken : Option Nat
  deriving DecidableEq, Repr

/-- A client and the answers it has got, in order. -/
structure Session where
  client : RpcClient
  answers : List Answer

namespace Session

/-- A client that has made no call. -/
def init : Session := { client := .init, answers := [] }

/-- The calls that have been answered. -/
def answered (s : Session) : List Nat := s.answers.map fun a => a.call

/-- The server has got the request of this call: its write has begun and has not failed. -/
def reached (s : Session) (c : Nat) : Bool :=
  s.client.writes.started.any (fun item => item.call = c) &&
    s.client.completions.all (fun k => k.call ≠ c || k.origin ≠ .writeFailed)

/-- The promise the read handler holds. -/
def taken (client : RpcClient) : Option Nat :=
  match client.reading with
  | .matched _ _ _ call => call
  | _ => none

/-- The steps of a session. -/
inductive Act where
  /-- a step of the client, other than the one that takes a response in -/
  | client (a : RpcClient.Act)
  /-- the body of the server's answer to call `c` arrives -/
  | answer (c : Nat) (body : Bytes)
  deriving DecidableEq, Repr

/-- One step of a session. -/
def step (s : Session) : Act → Option Session
  | .client a =>
    match a with
    | .readBody _ => none
    | a => (s.client.step a).map fun client => { s with client }
  | .answer c body =>
    match s.client.calls[c]?, s.client.reading with
    | some call, .body header =>
      if header.seqId = call.seqId ∧ s.reached c ∧ c ∉ s.answered then
        (s.client.step (.readBody body)).map fun client =>
          { client, answers := s.answers ++ [{ call := c, header, body, taken := taken client }] }
      else none
    | _, _ => none

end Session

end Rpc
