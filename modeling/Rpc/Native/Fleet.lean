import Rpc.ForStd.Journal
import Rpc.Native.NodeManager

/-!
# Managers that share a ZooKeeper

Any number of node managers, each with its own connection to one ZooKeeper, and the other
clients of that ZooKeeper.  The requests are executed one after the other in an order that
nobody controls; a request may be executed although its reply is lost.

The history is a journal of what the requests did to the tree, and for each manager the
operations it has ended.  A time is a length of the journal.
-/

namespace Rpc

open Zk

/-- What a request does to the tree when it is executed. -/
def ZkServer.effect {Tree : Type} (server : ZkServer Tree) (tree : Tree) (op : Operation) :
    Option (Change Bytes Bytes) :=
  if (server.answer tree op).2.1 = 0 then
    match op with
    | .create path data _ _ => some (.put path data)
    | .remove path _ => some (.drop path)
    | .getChildren .. | .getData .. | .exists .. => none
  else none

/-- A node that is created can be read by everyone, and ZooKeeper does not choose its name. -/
def Zk.Operation.isPlain : Operation → Bool
  | .create _ _ acls flags => acls = aclOpenUnsafe ∧ (flags = 0 ∨ flags = 1)
  | _ => true

/-- A change of the tree, and the operation of a manager that made it, if one did. -/
structure Entry where
  change : Change Bytes Bytes
  /-- the manager, and how many operations it had ended before -/
  author : Option (Nat × Nat)
  deriving DecidableEq, Repr

/-- A request of an operation, what became of it, and when. -/
structure Sent where
  op : Operation
  exchange : Exchange
  time : Nat

/-- An operation of a manager. -/
structure Episode where
  call : NodeManager.Call
  /-- the manager as the operation found it -/
  mgr : NodeManager
  connected : Bool
  began : Nat
  requests : List Sent

/-- An operation that has returned. -/
structure Ended where
  episode : Episode
  /-- the manager as the operation left it -/
  mgr : NodeManager
  value : Except Fault NodeManager.Value
  time : Nat

/-- Managers, the ZooKeeper they share, and the history. -/
structure Fleet (Tree : Type) where
  tree : Tree
  /-- each manager sees the tree its last step has left -/
  managers : Nat → Discovery Tree
  journal : List Entry
  /-- the operation that each manager is in, or was in last -/
  episodes : Nat → Episode
  ended : Nat → List Ended

namespace Fleet

variable {Tree : Type}

/-- Nobody has connected. -/
def init (tree : Tree) : Fleet Tree :=
  { tree
    managers := fun _ => .init tree
    journal := []
    episodes := fun _ =>
      { call := .listNodeNames, mgr := .init, connected := false, began := 0, requests := [] }
    ended := fun _ => [] }

/-- The steps of the managers, of ZooKeeper and of its other clients. -/
inductive Act where
  | connect (i : Nat) (timeoutMs : Int32) (hs : Handshake)
  | setBalancerStrategy (i : Nat) (name : Bytes)
  | setServicesPath (i : Nat) (path : Bytes)
  | call (i : Nat) (c : NodeManager.Call)
  /-- the request that manager `i` waits for is executed and answered -/
  | answer (i : Nat) (zxid : Int64)
  /-- its exchange fails, and it is not executed -/
  | fail (i : Nat) (ex : Exchange)
  /-- it is executed, and its exchange fails -/
  | lose (i : Nat) (ex : Exchange)
  | ret (i : Nat)
  /-- another client makes a request, or a session ends and one of its nodes is removed -/
  | other (op : Operation)
  deriving Repr

/-- The time. -/
def now (s : Fleet Tree) : Nat := s.journal.length

/-- A manager and the tree as it is now. -/
def seen (s : Fleet Tree) (i : Nat) : Discovery Tree := { s.managers i with tree := s.tree }

/-- A step of manager `i` alone. -/
def manage (server : ZkServer Tree) (s : Fleet Tree) (i : Nat) (a : Discovery.Act Tree) :
    Option (Fleet Tree) :=
  ((s.seen i).step server a).map fun d =>
    { s with managers := Function.update s.managers i d }

/-- The request is executed, in the operation `author` if it is of a manager. -/
def execute (server : ZkServer Tree) (s : Fleet Tree) (op : Operation)
    (author : Option (Nat × Nat)) : Fleet Tree :=
  { s with
    tree := (server.answer s.tree op).1
    journal := s.journal ++
      (server.effect s.tree op).toList.map fun change => { change, author } }

/-- The operation manager `i` is in. -/
def author (s : Fleet Tree) (i : Nat) : Nat × Nat := (i, (s.ended i).length)

/-- The request of manager `i` has come to an end. -/
def note (s : Fleet Tree) (i : Nat) (sent : Sent) : Fleet Tree :=
  { s with
    episodes := Function.update s.episodes i
      { s.episodes i with requests := (s.episodes i).requests ++ [sent] } }

/-- One step. -/
def step (server : ZkServer Tree) (s : Fleet Tree) : Act → Option (Fleet Tree)
  | .connect i timeoutMs hs => s.manage server i (.connect timeoutMs hs)
  | .setBalancerStrategy i name => s.manage server i (.setBalancerStrategy name)
  | .setServicesPath i path => s.manage server i (.setServicesPath path)
  | .call i c =>
    (s.manage server i (.call c)).map fun s' =>
      { s' with
        episodes := Function.update s.episodes i
          { call := c, mgr := (s.managers i).mgr, connected := (s.managers i).registry.connected
            began := s.now, requests := [] } }
  | .answer i zxid =>
    match (s.managers i).asked with
    | some op =>
      (s.manage server i (.answer zxid)).map fun s' =>
        (s'.execute server op (some (s.author i))).note i
          { op, exchange := server.reply s.tree op zxid, time := s.now }
    | none => none
  | .fail i ex =>
    match (s.managers i).asked with
    | some op =>
      (s.manage server i (.fail ex)).map fun s' =>
        s'.note i { op, exchange := ex, time := s.now }
    | none => none
  | .lose i ex =>
    match (s.managers i).asked with
    | some op =>
      (s.manage server i (.fail ex)).map fun s' =>
        (s'.execute server op (some (s.author i))).note i
          { op, exchange := ex, time := s.now }
    | none => none
  | .ret i =>
    match (s.managers i).running with
    | some r =>
      match r.program with
      | .done (mgr, value) =>
        (s.manage server i .ret).map fun s' =>
          { s' with
            ended := Function.update s.ended i
              (s.ended i ++ [{ episode := s.episodes i, mgr, value, time := s.now }]) }
      | .ask .. => none
    | none => none
  | .other op => if op.isPlain then some (s.execute server op none) else none

end Fleet

end Rpc
