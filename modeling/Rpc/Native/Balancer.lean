import Rpc.Native.Protocol

/-!
# Load balancer

Model of `conn_balancer/conn_balancer.{h,cpp}`.  Random draws are an argument: `roll` stands
for the state of the generator, and `uniform n roll` for a draw of
`uniform_int_distribution(0, n - 1)`.

`U` is the type of the strategies that users of the balancer write themselves.
-/

namespace Rpc

/-- A node as the balancer returns it. -/
structure Endpoint where
  name : Bytes
  address : Bytes
  weight : Int32
  deriving DecidableEq, Repr

/-- The interface `BalancerStrategy`.  A `select` that throws may have changed the object. -/
class BalancerStrategy (U : Type) where
  name : U → Bytes
  select : U → List Endpoint → Nat → Except Fault Endpoint × U

instance : BalancerStrategy Empty where
  name := nofun
  select := nofun

/-- A draw from `0, ..., n - 1`. -/
def uniform (n roll : Nat) : Nat := roll % n

/-- The strategies. -/
inductive Strategy (U : Type) where
  | roundRobin (counter : UInt64)
  | random
  | weighted
  | user (u : U)
  deriving DecidableEq, Repr

/-- `nodes[idx]`. -/
def nodeAt (nodes : List Endpoint) (idx : Nat) : Except Fault Endpoint :=
  match nodes[idx]? with
  | some n => .ok n
  | none => .error .outOfBounds

/-- The loop of `WeightedStrategy::select` that walks to the node of draw `r`. -/
def weightedLoop (r : Int32) : Int32 → List Endpoint → Option Endpoint
  | _, [] => none
  | accum, n :: nodes =>
    let accum := accum + n.weight
    if r < accum then some n else weightedLoop r accum nodes

/-- `WeightedStrategy::select` after the draw. -/
def weightedPick (nodes : List Endpoint) (r : Int32) : Except Fault Endpoint :=
  match weightedLoop r 0 nodes with
  | some n => .ok n
  | none => nodeAt nodes (nodes.length - 1)

namespace Strategy

variable {U : Type} [BalancerStrategy U]

/-- `name()`. -/
def name : Strategy U → Bytes
  | .roundRobin _ => Bytes.ofString "round_robin"
  | .random => Bytes.ofString "random"
  | .weighted => Bytes.ofString "weighted"
  | .user u => BalancerStrategy.name u

/-- `select(nodes)`. -/
def select (s : Strategy U) (nodes : List Endpoint) (roll : Nat) :
    Except Fault Endpoint × Strategy U :=
  match s with
  | .roundRobin counter =>
    if nodes = [] then
      (.error (.runtimeError (Bytes.ofString "RoundRobin: no nodes available")),
        .roundRobin counter)
    else (nodeAt nodes (counter.toNat % nodes.length), .roundRobin (counter + 1))
  | .random =>
    (do
      throwIf (nodes = []) "Random: no nodes available"
      nodeAt nodes (uniform nodes.length roll), .random)
  | .weighted =>
    (do
      throwIf (nodes = []) "Weighted: no nodes available"
      let total := nodes.foldl (fun total n => total + n.weight) 0
      throwIf (total ≤ 0) "Weighted: total weight <= 0"
      weightedPick nodes (Int32.ofNat (uniform total.toInt.toNat roll)), .weighted)
  | .user u =>
    let (n, u) := BalancerStrategy.select u nodes roll
    (n, .user u)

end Strategy

/-- `create_strategy`. -/
def createStrategy {U : Type} (name : Bytes) : Strategy U :=
  if name = Bytes.ofString "random" then .random
  else if name = Bytes.ofString "weighted" then .weighted
  else .roundRobin 0

/-- The load balancer. -/
structure LoadBalancer (U : Type) where
  strategy : Strategy U
  nodes : List Endpoint
  deriving DecidableEq, Repr

namespace LoadBalancer

variable {U : Type} [BalancerStrategy U]

/-- A new balancer. -/
def init : LoadBalancer U := { strategy := .roundRobin 0, nodes := [] }

/-- `set_strategy`: a null pointer changes nothing. -/
def setStrategy (b : LoadBalancer U) (s : Option (Strategy U)) : LoadBalancer U :=
  match s with
  | some strategy => { b with strategy }
  | none => b

/-- `strategy_name`. -/
def strategyName (b : LoadBalancer U) : Bytes := b.strategy.name

/-- `reset`: the strategy is created again from its name. -/
def reset (b : LoadBalancer U) : LoadBalancer U :=
  b.setStrategy (some (createStrategy b.strategyName))

/-- `set_nodes` and `sync_nodes`. -/
def setNodes (b : LoadBalancer U) (nodes : List Endpoint) : LoadBalancer U :=
  reset { b with nodes }

/-- `select`. -/
def select (b : LoadBalancer U) (roll : Nat) : Except Fault Endpoint × LoadBalancer U :=
  let (n, strategy) := b.strategy.select b.nodes roll
  (n, { b with strategy })

/-- `find`. -/
def find (b : LoadBalancer U) (name : Bytes) : Option Endpoint :=
  b.nodes.find? fun n => n.name = name

/-- `add_node`. -/
def addNode (b : LoadBalancer U) (ep : Endpoint) : LoadBalancer U :=
  { b with nodes := b.nodes ++ [ep] }

/-- `remove_node`: the first node with this name. -/
def removeNode (b : LoadBalancer U) (name : Bytes) : LoadBalancer U × Bool :=
  ({ b with nodes := b.nodes.eraseP fun n => n.name = name },
   b.nodes.any fun n => n.name = name)

/-- The operations of a balancer. -/
inductive Op (U : Type) where
  | setStrategy (s : Option (Strategy U))
  | setNodes (nodes : List Endpoint)
  | syncNodes (nodes : List Endpoint)
  | addNode (ep : Endpoint)
  | removeNode (name : Bytes)
  | reset
  | select (roll : Nat)
  deriving DecidableEq, Repr

/-- The balancer after an operation. -/
def apply (b : LoadBalancer U) : Op U → LoadBalancer U
  | .setStrategy s => b.setStrategy s
  | .setNodes nodes | .syncNodes nodes => b.setNodes nodes
  | .addNode ep => b.addNode ep
  | .removeNode name => (b.removeNode name).1
  | .reset => b.reset
  | .select roll => (b.select roll).2

/-- The balancer after some operations. -/
def applyAll (b : LoadBalancer U) (ops : List (Op U)) : LoadBalancer U := ops.foldl apply b

/-- What successive calls of `select` return. -/
def selects (b : LoadBalancer U) : List Nat → List (Except Fault Endpoint)
  | [] => []
  | roll :: rolls => (b.select roll).1 :: selects (b.select roll).2 rolls

end LoadBalancer

end Rpc
