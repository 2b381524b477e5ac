import Rpc.Spec.DiscoveryCorrect

/-!
# A refresh that fails

`refresh_nodes` clears the nodes before it asks for the children, and `get_children` returns
the empty list for every failure.  So after a listing that failed the manager and its balancer
have no nodes (`runs_refreshNodes_fails`), as if there were no service.  A manager that had
nodes has lost them; one that had none goes on as before, since its next `select_node`
refreshes again (`refresh_keeps_iff`).
-/

namespace Rpc

open Zk

/-! ## Created strategies -/

section

variable {U : Type} [BalancerStrategy U]

/-- The name of a created strategy creates it again. -/
theorem createStrategy_name (name : Bytes) :
    createStrategy (createStrategy name : Strategy U).name =
      (createStrategy name : Strategy U) := by
  by_cases hrandom : name = Bytes.ofString "random"
  · rw [hrandom]
    exact Strategy.createStrategy_random
  · by_cases hweighted : name = Bytes.ofString "weighted"
    · rw [hweighted]
      exact Strategy.createStrategy_weighted
    · -- every other name is round robin
      have h : (createStrategy name : Strategy U) = .roundRobin 0 := by
        rw [createStrategy, if_neg hrandom, if_neg hweighted]
      rw [h]
      exact Strategy.createStrategy_roundRobin 0

/-- Of two lists that are set, the second counts. -/
theorem LoadBalancer.setNodes_setNodes (b : LoadBalancer U) (nodes nodes' : List Endpoint) :
    (b.setNodes nodes).setNodes nodes' = b.setNodes nodes' := by
  show ({ strategy := createStrategy (createStrategy b.strategyName : Strategy U).name
          nodes := nodes' } : LoadBalancer U) = _
  rw [createStrategy_name]
  rfl

end

/-- No children are received. -/
def Zk.Outcome.isFailure : Outcome → Bool
  | .reply err _ => err ≠ 0
  | .rejected _ => true

namespace NodeManager

open ServiceRegistry

/-- `get_children` fails in a refresh with the requests `t`. -/
def ListingFails (connected : Bool) (t : Trace) : Prop :=
  connected = false ∨ ∃ path o rest, t = (.getChildren path false, o) :: rest ∧ o.isFailure = true

/-- The routing state of `m` is kept. -/
structure KeepsRoutes (m m' : NodeManager) : Prop where
  nodes : m'.nodes = m.nodes
  balancer : m'.balancer.nodes = m.balancer.nodes
  /-- whatever the connection and ZooKeeper do from here -/
  selections : ∀ connected rolls, m'.selections connected rolls = m.selections connected rolls

/-! ## What a failed listing leaves behind -/

/-- A failure and an empty directory give the same list. -/
theorem childrenOf_fails {o : Outcome} (h : o.isFailure = true) :
    (o.result GetChildrenResponse.deserialize).map childrenOf = .ok [] := by
  cases o with
  | rejected msg => rfl
  | reply err payload =>
    have herr : err ≠ 0 := of_decide_eq_true h
    rw [Outcome.result, if_pos herr]
    rfl

/-- A listing that fails lists nothing. -/
theorem runs_listServices_fails {connected : Bool} {servicesPath : Bytes} {t t' : Trace}
    {ret : Except Fault (List ServiceInstance)} (hfail : ListingFails connected (t ++ t'))
    (h : (listServices connected servicesPath).run.Runs t ret) : ret = .ok [] := by
  cases connected with
  | false =>
    -- no request is sent
    exact (Dialogue.runs_done h).2.symm
  | true =>
    obtain hconn | ⟨path, o, rest, ht, ho⟩ := hfail
    · cases hconn
    rw [listServices, ExceptT.run_bind, run_getChildren] at h
    cases h with
    | ask h =>
      rename_i o' t
      -- the request for the children is the first one
      obtain ⟨hreq, -⟩ := List.cons.inj ht
      obtain ⟨-, rfl⟩ := Prod.mk.inj hreq
      have hchildren := childrenOf_fails ho
      obtain ⟨t₁, t₂, children, rfl, hchild, hrest⟩ := Dialogue.runs_bind h
      obtain ⟨-, hret⟩ := Dialogue.runs_done hchild
      rw [hchildren] at hret
      subst hret
      exact (Dialogue.runs_done hrest).2.symm

/-- After a listing that failed there are no nodes. -/
theorem runs_refreshNodes_fails {connected : Bool} {m m' : NodeManager} {t : Trace}
    {value : Except Fault Value} (h : (refreshNodes connected m).Runs t (m', value))
    (hfail : ListingFails connected t) :
    m' = { m with nodes := [], balancer := m.balancer.setNodes [] } := by
  obtain ⟨t₁, t₂, ret, rfl, hlist, hrest⟩ := Dialogue.runs_bind h
  obtain rfl := runs_listServices_fails hfail hlist
  obtain ⟨-, hret⟩ := Dialogue.runs_done hrest
  exact (Prod.mk.inj hret).1.symm

/-! ## Managers without nodes -/

/-- Two managers without nodes that list the same path, and whose balancers become the same
    with the next list. -/
structure Blank (m m' : NodeManager) : Prop where
  servicesPath : m'.servicesPath = m.servicesPath
  left : m.nodes = []
  right : m'.nodes = []
  balancer : ∀ nodes, m'.balancer.setNodes nodes = m.balancer.setNodes nodes

/-- They select the same: each begins with a refresh, after which they are equal, or which
    throws and leaves them without nodes. -/
theorem selections_blank {connected : Bool} {m m' : NodeManager} (h : Blank m m')
    (rolls : List Nat) : m'.selections connected rolls = m.selections connected rolls := by
  induction rolls generalizing m m' with
  | nil => rfl
  | cons roll rolls ih =>
    simp only [selections, selectNode, refreshNodes, h.left, h.right, h.servicesPath, if_true,
      bind_assoc]
    congr 1
    funext ret
    cases ret with
    | ok services =>
      show Dialogue.bind (.done _) _ = Dialogue.bind (.done _) _
      rw [h.balancer]
    | error fault =>
      -- the balancers have kept their nodes, and differ as before
      have hsame : Blank { m with nodes := [] } { m with balancer := m'.balancer, nodes := [] } :=
        ⟨rfl, rfl, rfl, h.balancer⟩
      exact congrArg (fun p => p >>= fun values => pure (.error fault :: values)) (ih hsame)

/-- A refresh in which `get_children` fails keeps the nodes and what is selected next if and
    only if there are no nodes to lose. -/
theorem refresh_keeps_iff {connected : Bool} {m m' : NodeManager} {t : Trace}
    {value : Except Fault Value} (h : (refreshNodes connected m).Runs t (m', value))
    (hfail : ListingFails connected t) :
    KeepsRoutes m m' ↔ m.nodes = [] ∧ m.balancer.nodes = [] := by
  obtain rfl := runs_refreshNodes_fails h hfail
  constructor
  · intro hkeeps
    exact ⟨hkeeps.nodes.symm, hkeeps.balancer.symm⟩
  · rintro ⟨hnodes, hbalancer⟩
    have hblank : Blank m { m with nodes := [], balancer := m.balancer.setNodes [] } :=
      ⟨rfl, hnodes, rfl, m.balancer.setNodes_setNodes []⟩
    exact ⟨hnodes.symm, hbalancer.symm, fun _ => selections_blank hblank⟩

/-- A new manager lists a path that does not exist. -/
theorem refresh_keeps_init :
    ∃ m', (refreshNodes true init).Runs
        [(.getChildren init.servicesPath false, .reply (-101) [])] (m', .ok (.endpoints [])) ∧
      KeepsRoutes init m' := by
  have hrun : (refreshNodes true init).Runs
      [(.getChildren init.servicesPath false, .reply (-101) [])]
      ({ init with nodes := [], balancer := init.balancer.setNodes [] }, .ok (.endpoints [])) :=
    .ask (.refl _)
  exact ⟨_, hrun, (refresh_keeps_iff hrun (.inr ⟨_, _, _, rfl, rfl⟩)).mpr ⟨rfl, rfl⟩⟩

/-- The only node of the manager below. -/
def cachedNode : Endpoint := { name := [97], address := [49], weight := 1 }

/-- A manager with a node. -/
def cached : NodeManager :=
  { init with nodes := [cachedNode], balancer := LoadBalancer.init.setNodes [cachedNode] }

/-- One I/O error takes the node that would have been selected, and `select_node` lists again. -/
theorem refresh_loses :
    ∃ m' value, (refreshNodes true cached).Runs
        [(.getChildren cached.servicesPath false, .rejected (Bytes.ofString "timeout"))]
        (m', value) ∧
      m'.nodes = [] ∧ m'.balancer.nodes = [] ∧ ¬KeepsRoutes cached m' ∧
      (∀ connected roll, ∃ m₁, cached.selectNode connected roll =
        .done (m₁, .ok (.endpoint cachedNode))) ∧
      ∀ roll, ∃ m₁, m'.selectNode false roll =
        .done (m₁, .error (.runtimeError (Bytes.ofString "RoundRobin: no nodes available"))) := by
  refine ⟨_, _, .ask (.refl _), rfl, rfl, ?_, fun _ _ => ⟨_, rfl⟩, fun _ => ⟨_, rfl⟩⟩
  intro h
  cases h.nodes

end NodeManager

end Rpc
