import Rpc.ForStd.Codec
import Rpc.ForStd.List
import Rpc.Spec.BalancerCorrect

/-!
# The names of the nodes

`find` and `remove_node` take the first node with a name, so they are about *the* node with
this name only while no name occurs twice.  Lists that come from ZooKeeper have this property,
and removing a node keeps it.  `add_node` does not look at the names there are
(`names_identify_iff`): after it a name can occur twice, and `remove_node` leaves the second
node behind (`removed_selected`).
-/

namespace Rpc

variable {U : Type} [BalancerStrategy U]

/-! ## Selection -/

/-- A position of the list gives a node of the list. -/
theorem mem_of_nodeAt {nodes : List Endpoint} {idx : Nat} {ep : Endpoint}
    (h : nodeAt nodes idx = .ok ep) : ep ∈ nodes := by
  unfold nodeAt at h
  split at h
  · rename_i n hn
    obtain rfl := Except.ok.inj h
    exact List.mem_of_getElem? hn
  · cases h

/-- The loop over the weights stops at a node of the list. -/
theorem mem_of_weightedLoop {nodes : List Endpoint} {r accum : Int32} {ep : Endpoint}
    (h : weightedLoop r accum nodes = some ep) : ep ∈ nodes := by
  induction nodes generalizing accum with
  | nil => cases h
  | cons n nodes ih =>
    simp only [weightedLoop] at h
    split at h
    · obtain rfl := Option.some.inj h
      exact List.mem_cons_self
    · exact List.mem_cons_of_mem n (ih h)

/-- So does `select` with the weights, which falls back to the last node. -/
theorem mem_of_weightedPick {nodes : List Endpoint} {r : Int32} {ep : Endpoint}
    (h : weightedPick nodes r = .ok ep) : ep ∈ nodes := by
  unfold weightedPick at h
  split at h
  · rename_i n hn
    obtain rfl := Except.ok.inj h
    exact mem_of_weightedLoop hn
  · exact mem_of_nodeAt h

/-- The strategies that users write select from the list they are given. -/
def SelectsMembers (U : Type) [BalancerStrategy U] : Prop :=
  ∀ (u : U) (nodes : List Endpoint) (roll : Nat) (ep : Endpoint),
    (BalancerStrategy.select u nodes roll).1 = .ok ep → ep ∈ nodes

/-- There is no such strategy. -/
theorem selectsMembers_empty : SelectsMembers Empty := by
  intro u
  cases u

/-- Every strategy selects a node of the list it is given. -/
theorem Strategy.mem_of_select (hU : SelectsMembers U) {s : Strategy U} {nodes : List Endpoint}
    {roll : Nat} {ep : Endpoint} (h : (s.select nodes roll).1 = .ok ep) : ep ∈ nodes := by
  cases s with
  | user u => exact hU u nodes roll ep h
  | roundRobin counter =>
    simp only [Strategy.select] at h
    split at h
    · cases h
    · exact mem_of_nodeAt h
  | random =>
    -- behind the check for an empty list
    obtain ⟨-, -, h⟩ := Codec.bind_eq_ok h
    exact mem_of_nodeAt h
  | weighted =>
    -- behind the checks for an empty list and for the total
    obtain ⟨-, -, h⟩ := Codec.bind_eq_ok h
    obtain ⟨-, -, h⟩ := Codec.bind_eq_ok h
    exact mem_of_weightedPick h

namespace LoadBalancer

/-- The balancer selects one of its nodes. -/
theorem mem_of_select (hU : SelectsMembers U) {b : LoadBalancer U} {roll : Nat} {ep : Endpoint}
    (h : (b.select roll).1 = .ok ep) : ep ∈ b.nodes :=
  Strategy.mem_of_select hU h

/-! ## The names in a list -/

/-- The names in `nodes()`. -/
def names (b : LoadBalancer U) : List Bytes := b.nodes.map fun n => n.name

omit [BalancerStrategy U] in
/-- `find` fails for the names that are not in the list. -/
theorem find_eq_none_iff (b : LoadBalancer U) (name : Bytes) :
    b.find name = none ↔ name ∉ b.names := by
  simp [find, names]

/-- The names that an operation brings into the list. -/
def Op.brings : Op U → List Bytes
  | .setNodes nodes | .syncNodes nodes => nodes.map fun n => n.name
  | .addNode ep => [ep.name]
  | _ => []

/-- The lists an operation is given have pairwise distinct names. -/
def Op.Distinct (op : Op U) : Prop := op.brings.Nodup

instance (op : Op U) : Decidable op.Distinct := inferInstanceAs (Decidable (List.Nodup _))

/-- `add_node` appends its name, whatever names there are. -/
theorem names_addNode (b : LoadBalancer U) (ep : Endpoint) :
    (b.apply (.addNode ep)).names = b.names ++ [ep.name] := by
  simp [apply, addNode, names]

/-- A name that an operation does not bring in stays away. -/
theorem not_mem_names_apply {b : LoadBalancer U} {op : Op U} {name : Bytes} (h : name ∉ b.names)
    (hop : name ∉ op.brings) : name ∉ (b.apply op).names := by
  cases op with
  | setStrategy s => cases s <;> exact h
  | setNodes nodes => exact hop
  | syncNodes nodes => exact hop
  | reset => exact h
  | select roll => exact h
  | addNode ep =>
    rw [names_addNode, List.mem_append]
    exact not_or.mpr ⟨h, hop⟩
  | removeNode name' =>
    -- what is left is a part of the list
    have hsub : (b.apply (.removeNode name')).names.Sublist b.names :=
      List.eraseP_sublist.map _
    exact fun hmem => h (hsub.subset hmem)

/-- An operation keeps the names distinct; `add_node` when its name is new. -/
theorem nodup_names_apply {b : LoadBalancer U} {op : Op U} (h : b.names.Nodup)
    (hop : op.Distinct) (hfresh : ∀ ep, op = .addNode ep → b.find ep.name = none) :
    (b.apply op).names.Nodup := by
  cases op with
  | setStrategy s => cases s <;> exact h
  | setNodes nodes => exact hop
  | syncNodes nodes => exact hop
  | reset => exact h
  | select roll => exact h
  | addNode ep =>
    -- `find` has said that the name is new
    have hnew := (find_eq_none_iff b ep.name).mp (hfresh ep rfl)
    rw [names_addNode, ← List.concat_eq_append, List.nodup_concat]
    exact ⟨hnew, h⟩
  | removeNode name => exact h.sublist (List.eraseP_sublist.map _)

/-- When no name occurs twice, `remove_node` leaves no node with the name. -/
theorem not_mem_names_removeNode {b : LoadBalancer U} (h : b.names.Nodup) (name : Bytes) :
    name ∉ (b.apply (.removeNode name)).names :=
  List.not_mem_map_eraseP h

/-- A node that is added under a new name is the one that is found. -/
theorem find_addNode {b : LoadBalancer U} {ep : Endpoint} (h : b.find ep.name = none) :
    (b.apply (.addNode ep)).find ep.name = some ep := by
  rw [find] at h
  simp [apply, addNode, find, List.find?_append, h]

/-! ## Over a history -/

/-- Every `add_node` adds a name that `find` does not know. -/
def AddsNew (ops : List (Op U)) : Prop :=
  ∀ pre ep, pre ++ [.addNode ep] <+: ops → (init.applyAll pre).find ep.name = none

/-- Names identify nodes. -/
structure NamesIdentify (ops : List (Op U)) : Prop where
  distinct : ∀ pre, pre <+: ops → (init.applyAll pre).names.Nodup
  /-- a name is gone after `remove_node`, until it is added or set again -/
  removed : ∀ pre name mid, pre ++ .removeNode name :: mid <+: ops →
    (∀ op ∈ mid, name ∉ op.brings) →
      (init.applyAll (pre ++ .removeNode name :: mid)).find name = none ∧
      ∀ roll ep, ((init.applyAll (pre ++ .removeNode name :: mid)).select roll).1 = .ok ep →
        ep.name ≠ name
  /-- `find` knows the node that was added last -/
  added : ∀ pre ep, pre ++ [.addNode ep] <+: ops →
    ∃ n, (init.applyAll (pre ++ [.addNode ep])).find ep.name = some n ∧ n.address = ep.address

/-- In a history that adds new names only, no name occurs twice. -/
theorem nodup_names_applyAll {ops : List (Op U)} (hops : ∀ op ∈ ops, op.Distinct)
    (hnew : AddsNew ops) (pre : List (Op U)) (hpre : pre <+: ops) :
    (init.applyAll pre).names.Nodup := by
  -- along the history, from the empty list
  induction pre using List.reverseRecOn with
  | nil => exact List.nodup_nil
  | append_singleton pre op ih =>
    rw [applyAll_concat]
    apply nodup_names_apply
    · exact ih ((List.prefix_append pre [op]).trans hpre)
    · exact hops op (hpre.subset (by simp))
    · intro ep hep
      subst hep
      exact hnew pre ep hpre

/-- Operations that do not bring the name in. -/
theorem not_mem_names_applyAll {b : LoadBalancer U} {name : Bytes} (h : name ∉ b.names)
    {mid : List (Op U)} (hmid : ∀ op ∈ mid, name ∉ op.brings) :
    name ∉ (b.applyAll mid).names := by
  induction mid generalizing b with
  | nil => exact h
  | cons op mid ih =>
    apply ih (not_mem_names_apply h (hmid op List.mem_cons_self))
    intro op' hop'
    exact hmid op' (List.mem_cons_of_mem op hop')

/-- For every history in which the lists that are set have distinct names: names identify nodes
    if and only if every name that is added is new. -/
theorem names_identify_iff (hU : SelectsMembers U) (ops : List (Op U))
    (hops : ∀ op ∈ ops, op.Distinct) : NamesIdentify ops ↔ AddsNew ops := by
  constructor
  · intro h pre ep hpre
    -- after `add_node` the names are distinct only if its name was new
    have hnodup := h.distinct _ hpre
    rw [applyAll_concat, names_addNode, ← List.concat_eq_append, List.nodup_concat] at hnodup
    exact (find_eq_none_iff _ _).mpr hnodup.1
  · intro hnew
    have hnodup := nodup_names_applyAll hops hnew
    constructor
    · exact hnodup
    · intro pre name mid hpre hmid
      -- after `remove_node` the name is gone, and stays away
      have hgone : name ∉ (init.applyAll (pre ++ .removeNode name :: mid)).names := by
        have hbefore := hnodup pre ((List.prefix_append pre _).trans hpre)
        rw [applyAll, List.foldl_append]
        exact not_mem_names_applyAll (not_mem_names_removeNode hbefore name) hmid
      refine ⟨(find_eq_none_iff _ _).mpr hgone, ?_⟩
      rintro roll ep hsel rfl
      exact hgone (List.mem_map_of_mem (mem_of_select hU hsel))
    · intro pre ep hpre
      -- a new name is found where it was added
      rw [applyAll_concat]
      exact ⟨ep, find_addNode (hnew pre ep hpre), rfl⟩

/-- A node of weight one. -/
def node (name address : Bytes) : Endpoint := { name, address, weight := 1 }

/-- Two nodes are set, a third is added, and the first is removed. -/
theorem names_identify_replaced :
    NamesIdentify (U := Empty) [.setNodes [node [97] [1], node [98] [2]], .addNode (node [99] [3]),
      .removeNode [97]] := by
  apply (names_identify_iff selectsMembers_empty _ (by decide)).mpr
  intro pre ep hpre
  -- only the second operation adds a node
  obtain _ | ⟨a, _ | ⟨b, _ | ⟨c, pre⟩⟩⟩ := pre
  · simp at hpre
  · simp only [List.cons_append, List.nil_append, List.cons_prefix_cons, Op.addNode.injEq] at hpre
    obtain ⟨rfl, rfl, -⟩ := hpre
    decide
  · simp at hpre
  · simp at hpre

/-- A name is added twice and removed once: the second node is found and selected. -/
theorem removed_selected :
    ∃ ops : List (Op Empty), (∀ op ∈ ops, op.Distinct) ∧ ¬NamesIdentify ops ∧
      ops.getLast? = some (.removeNode [97]) ∧
      (init.applyAll ops).find [97] = some (node [97] [2]) ∧
      ((init.applyAll ops).select 0).1 = .ok (node [97] [2]) := by
  refine ⟨[.addNode (node [97] [1]), .addNode (node [97] [2]), .removeNode [97]], by decide, ?_,
    rfl, by decide, by decide⟩
  intro h
  -- after the second `add_node` the name occurs twice
  exact absurd (h.distinct [.addNode (node [97] [1]), .addNode (node [97] [2])] (by decide))
    (by decide)

end LoadBalancer

end Rpc
