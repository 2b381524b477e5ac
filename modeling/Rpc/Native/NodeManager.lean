import Rpc.Native.Balancer
import Rpc.Native.Registry

/-!
# Node manager

Model of `registry/node_manager.{h,cpp}`: the registry and the balancer together.  An
operation that waits for ZooKeeper is a program that asks, and returns the manager it
leaves behind, also when it throws.

`Discovery` is a manager and the ZooKeeper it talks to.  What ZooKeeper does is given by a
`ZkServer`; between any two steps of the manager other clients may change the tree.
-/

namespace Rpc

open Zk

/-- `NodeManager`, without its registry. -/
structure NodeManager where
  servicesPath : Bytes
  balancer : LoadBalancer Empty
  nodes : List Endpoint
  deriving DecidableEq, Repr

namespace NodeManager

/-- A new manager. -/
def init : NodeManager :=
  { servicesPath := Bytes.ofString "/rpc/services", balancer := .init, nodes := [] }

/-- What an operation returns. -/
inductive Value where
  | unit
  | bool (b : Bool)
  | data (d : Bytes)
  | names (ns : List Bytes)
  | endpoint (ep : Endpoint)
  | endpoints (eps : List Endpoint)
  deriving DecidableEq, Repr

/-- An operation that waits for ZooKeeper. -/
abbrev Program := Dialogue Operation Outcome (NodeManager × Except Fault Value)

/-- An operation of the registry that leaves the manager as it is. -/
def ofRegistry {α : Type} (m : NodeManager) (p : ServiceRegistry.Program α) (f : α → Value) :
    Program := do
  let ret ← p.run
  return (m, ret.map f)

/-- `init_zk_paths`. -/
def initZkPaths (connected : Bool) (m : NodeManager) (servicesPath : Bytes) : Program :=
  let m := { m with servicesPath }
  -- the length of the root is the position of the last `/`
  let root := servicesPath.take (servicesPath.length - 1 -
    (ServiceRegistry.lastComponent servicesPath).length)
  if 47 ∈ servicesPath ∧ root ≠ [] then
    m.ofRegistry (do
      let _ ← ServiceRegistry.createPersistentNode connected root
      ServiceRegistry.createPersistentNode connected servicesPath) fun _ => .unit
  else
    m.ofRegistry (ServiceRegistry.createPersistentNode connected servicesPath) fun _ => .unit

/-- The endpoint for a service. -/
def endpointOf (svc : ServiceInstance) : Endpoint :=
  { name := svc.name, address := svc.address, weight := 1 }

/-- `refresh_nodes`. -/
def refreshNodes (connected : Bool) (m : NodeManager) : Program := do
  let m := { m with nodes := [] }
  match ← (ServiceRegistry.listServices connected m.servicesPath).run with
  | .ok services =>
    let nodes := services.map endpointOf
    return ({ m with nodes, balancer := m.balancer.setNodes nodes }, .ok (.endpoints nodes))
  | .error fault => return (m, .error fault)

/-- The second half of `select_node`. -/
def select (m : NodeManager) (roll : Nat) : NodeManager × Except Fault Value :=
  match m.balancer.select roll with
  | (.ok ep, balancer) => ({ m with balancer }, .ok (.endpoint ep))
  | (.error fault, balancer) => ({ m with balancer }, .error fault)

/-- `select_node`. -/
def selectNode (connected : Bool) (m : NodeManager) (roll : Nat) : Program :=
  if m.nodes = [] then do
    match ← refreshNodes connected m with
    | (m, .ok _) => return m.select roll
    | (m, .error fault) => return (m, .error fault)
  else return m.select roll

/-- What successive calls of `select_node` return. -/
def selections (connected : Bool) (m : NodeManager) :
    List Nat → Dialogue Operation Outcome (List (Except Fault Value))
  | [] => return []
  | roll :: rolls => do
    let (m, value) ← selectNode connected m roll
    let values ← selections connected m rolls
    return value :: values

/-- `set_balancer_strategy`. -/
def setBalancerStrategy (m : NodeManager) (name : Bytes) : NodeManager :=
  { m with balancer := (m.balancer.setStrategy (some (createStrategy name))).setNodes m.nodes }

/-- The operations that wait for ZooKeeper. -/
inductive Call where
  | initZkPaths (servicesPath : Bytes)
  | refreshNodes
  | selectNode (roll : Nat)
  | registerNode (nodeName address : Bytes) (weight : Int32)
  | unregisterNode (nodeName : Bytes)
  | nodeExists (nodePath : Bytes)
  | listNodeNames
  | getNodeData (path : Bytes)
  deriving DecidableEq, Repr

/-- What a call of a manager runs. -/
def Call.program (connected : Bool) (m : NodeManager) : Call → Program
  | .initZkPaths servicesPath => NodeManager.initZkPaths connected m servicesPath
  | .refreshNodes => NodeManager.refreshNodes connected m
  | .selectNode roll => NodeManager.selectNode connected m roll
  -- the weight is not used
  | .registerNode nodeName address _ =>
    m.ofRegistry (ServiceRegistry.registerService connected m.servicesPath nodeName address) .bool
  | .unregisterNode nodeName =>
    m.ofRegistry (ServiceRegistry.unregisterService connected
      (ServiceRegistry.childPath m.servicesPath nodeName)) .bool
  | .nodeExists nodePath => m.ofRegistry (ServiceRegistry.nodeExists connected nodePath) .bool
  | .listNodeNames => m.ofRegistry (ServiceRegistry.getChildren connected m.servicesPath) .names
  | .getNodeData path => m.ofRegistry (ServiceRegistry.getNodeData connected path) .data

/-- The operation calls `refresh_nodes`. -/
def Call.refreshes (m : NodeManager) : Call → Bool
  | .refreshNodes => true
  | .selectNode _ => m.nodes = []
  | _ => false

end NodeManager

/-! ## With a ZooKeeper -/

/-- What a ZooKeeper answers: the tree afterwards, the err and the body of the reply. -/
structure ZkServer (Tree : Type) where
  answer : Tree → Operation → Tree × Int32 × Bytes
  /-- replies have a limited size -/
  fits : ∀ tree op, 16 + (answer tree op).2.2.length < 2 ^ 31
  /-- the names of children contain no `/` -/
  names : ∀ tree path watch, (answer tree (.getChildren path watch)).2.1 = 0 →
    ∀ resp p, GetChildrenResponse.deserialize (answer tree (.getChildren path watch)).2.2 =
      .ok (resp, p) → ∀ name ∈ resp.children, 47 ∉ name

/-- The exchange in which the server gives its answer. -/
def ZkServer.reply {Tree : Type} (server : ZkServer Tree) (tree : Tree) (op : Operation)
    (zxid : Int64) : Exchange :=
  .replied zxid (server.answer tree op).2.1 (server.answer tree op).2.2 (server.fits tree op)

/-- Run a program while the server gives its answers and nothing else happens. -/
def ZkServer.play {Tree α : Type} (server : ZkServer Tree) (tree : Tree)
    (p : Dialogue Operation Outcome α) : Tree × α :=
  p.play (fun tree op =>
    ((server.answer tree op).1, .reply (server.answer tree op).2.1 (server.answer tree op).2.2))
    tree

/-- An operation under way. -/
structure Running where
  call : NodeManager.Call
  program : NodeManager.Program
  /-- the requests made so far, and what happened to them -/
  exchanges : List (Operation × Exchange)

/-- A refresh: the path it listed, and its requests. -/
structure Refresh where
  path : Bytes
  exchanges : List (Operation × Exchange)

/-- A node manager, the ZooKeeper, and the history. -/
structure Discovery (Tree : Type) where
  tree : Tree
  registry : ServiceRegistry
  mgr : NodeManager
  running : Option Running
  /-- the last refresh -/
  refreshed : Refresh
  /-- the endpoints `select_node` has returned, each with the refresh before it -/
  selected : List (Endpoint × Refresh)

namespace Discovery

variable {Tree : Type}

/-- A manager that has done nothing, and ZooKeeper with this tree. -/
def init (tree : Tree) : Discovery Tree :=
  { tree, registry := .init, mgr := .init, running := none
    refreshed := { path := [], exchanges := [] }, selected := [] }

/-- The steps of a manager, of ZooKeeper and of its other clients. -/
inductive Act (Tree : Type) where
  /-- other clients create and delete nodes -/
  | others (tree : Tree)
  | connect (timeoutMs : Int32) (hs : Handshake)
  | setBalancerStrategy (name : Bytes)
  | setServicesPath (path : Bytes)
  | call (c : NodeManager.Call)
  /-- the request that is waited for is answered -/
  | answer (zxid : Int64)
  /-- its exchange fails -/
  | fail (ex : Exchange)
  /-- the operation returns -/
  | ret

/-- The request that is waited for is exchanged as `ex` says. -/
def exchange (s : Discovery Tree) (ex : Exchange) : Option (Discovery Tree) :=
  match s.running with
  | some r =>
    match r.program with
    | .ask op k =>
      match sendRequest s.registry.client op ex with
      | some (client, outcome) =>
        some { s with
          registry := { s.registry with client }
          running := some { r with
            program := k outcome
            exchanges := r.exchanges ++ [(op, ex)] } }
      | none => none
    | .done _ => none
  | none => none

/-- The request that is waited for. -/
def asked (s : Discovery Tree) : Option Operation :=
  match s.running with
  | some r =>
    match r.program with
    | .ask op _ => some op
    | .done _ => none
  | none => none

/-- The refresh an operation made, or the one before it. -/
def refreshAfter (s : Discovery Tree) (r : Running) : Refresh :=
  if r.call.refreshes s.mgr then { path := s.mgr.servicesPath, exchanges := r.exchanges }
  else s.refreshed

/-- One step. -/
def step (server : ZkServer Tree) (s : Discovery Tree) : Act Tree → Option (Discovery Tree)
  | .others tree => some { s with tree }
  | .connect timeoutMs hs =>
    match s.running with
    | none => some { s with registry := (s.registry.connect timeoutMs hs).1 }
    | some _ => none
  | .setBalancerStrategy name =>
    match s.running with
    | none => some { s with mgr := s.mgr.setBalancerStrategy name }
    | some _ => none
  | .setServicesPath path =>
    match s.running with
    | none => some { s with mgr := { s.mgr with servicesPath := path } }
    | some _ => none
  | .call c =>
    match s.running with
    | none =>
      some { s with
        running := some { call := c, program := c.program s.registry.connected s.mgr
                          exchanges := [] } }
    | some _ => none
  | .answer zxid =>
    match s.asked with
    | some op =>
      (s.exchange (server.reply s.tree op zxid)).map fun s' =>
        { s' with tree := (server.answer s.tree op).1 }
    | none => none
  | .fail ex => if ex.isFailure then s.exchange ex else none
  | .ret =>
    match s.running with
    | some r =>
      match r.program with
      | .done (mgr, value) =>
        some { s with
          mgr
          running := none
          refreshed := s.refreshAfter r
          selected := s.selected ++
            match r.call, value with
            | .selectNode _, .ok (.endpoint ep) => [(ep, s.refreshAfter r)]
            | _, _ => [] }
      | .ask .. => none
    | none => none

end Discovery

end Rpc
