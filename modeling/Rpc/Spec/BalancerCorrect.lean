import Mathlib.Logic.Relation
import Rpc.ForStd.Cumulative
import Rpc.Native.Balancer

/-!
# What the balancer selects

`roundRobin_fair` is about the round robin: after every history the next selections go
through the positions of the list in order, from wherever the counter stands.
`weighted_proportional` is about the draws of the weighted strategy.

`strategy_kept_iff` says when a list change leaves the strategy alone.  `reset`
builds a new strategy from the name of the old one, through a table that knows the
built-in names only, so a strategy that a user of the balancer wrote is replaced by the
round robin.
-/

namespace Rpc

variable {U : Type} [BalancerStrategy U]

namespace Strategy

/-- The strategy is not one of the built-in ones. -/
def isUser : Strategy U → Bool
  | .user _ => true
  | _ => false

/-- `v` is the object `u` after one of its `select` calls. -/
def Calls (u v : U) : Prop := ∃ nodes roll, v = (BalancerStrategy.select u nodes roll).2

/-- A later state of the same strategy: counters may have been reset, and an object of a user
    has been changed by its own `select` only. -/
inductive Continues : Strategy U → Strategy U → Prop where
  | roundRobin (c c' : UInt64) : Continues (.roundRobin c) (.roundRobin c')
  | random : Continues .random .random
  | weighted : Continues .weighted .weighted
  | user {u v : U} (h : Relation.ReflTransGen Calls u v) : Continues (.user u) (.user v)

/-- A strategy is a later state of itself. -/
theorem Continues.refl (s : Strategy U) : s.Continues s := by
  cases s with
  | roundRobin c => exact .roundRobin c c
  | random => exact .random
  | weighted => exact .weighted
  | user u => exact .user Relation.ReflTransGen.refl

/-- A strategy of a user stays one, and a built-in one too. -/
theorem Continues.isUser_eq {s t : Strategy U} (h : s.Continues t) : t.isUser = s.isUser := by
  cases h <;> rfl

/-- One more `select`. -/
theorem Continues.select {s t : Strategy U} (h : s.Continues t) (nodes : List Endpoint)
    (roll : Nat) : s.Continues (t.select nodes roll).2 := by
  cases h with
  | roundRobin c c' =>
    simp only [Strategy.select]
    split
    -- without nodes `select` throws before it counts
    · exact .roundRobin c c'
    · exact .roundRobin c (c' + 1)
  | random => exact .random
  | weighted => exact .weighted
  | user h => exact .user (h.tail ⟨nodes, roll, rfl⟩)

/-- The name of the round robin leads to a new round robin. -/
theorem createStrategy_roundRobin (c : UInt64) :
    createStrategy (Strategy.roundRobin c : Strategy U).name = (.roundRobin 0 : Strategy U) := by
  unfold createStrategy
  rw [if_neg (by simp only [Strategy.name]; decide), if_neg (by simp only [Strategy.name]; decide)]

/-- The name of the random strategy leads to it. -/
theorem createStrategy_random :
    createStrategy (Strategy.random : Strategy U).name = (.random : Strategy U) :=
  if_pos rfl

/-- The name of the weighted strategy leads to it. -/
theorem createStrategy_weighted :
    createStrategy (Strategy.weighted : Strategy U).name = (.weighted : Strategy U) := by
  unfold createStrategy
  rw [if_neg (by simp only [Strategy.name]; decide)]
  exact if_pos rfl

omit [BalancerStrategy U] in
/-- No name leads to a strategy of a user. -/
theorem createStrategy_isUser (name : Bytes) :
    (createStrategy name : Strategy U).isUser = false := by
  unfold createStrategy
  split
  · rfl
  · split <;> rfl

/-- The table of `create_strategy` has the built-in strategies under their names. -/
theorem Continues.createStrategy {s t : Strategy U} (h : s.Continues t) (hs : s.isUser = false) :
    s.Continues (Rpc.createStrategy t.name) := by
  cases h with
  | roundRobin c c' =>
    rw [createStrategy_roundRobin]
    exact .roundRobin c 0
  | random =>
    rw [createStrategy_random]
    exact .random
  | weighted =>
    rw [createStrategy_weighted]
    exact .weighted
  | user h => cases hs

end Strategy

/-! ## The strategy over a history -/

namespace LoadBalancer

/-- The last strategy that was passed to `set_strategy` and is not null. -/
def lastSet (ops : List (Op U)) : Strategy U :=
  ops.foldl (fun last op =>
    match op with
    | .setStrategy (some s) => s
    | _ => last) (.roundRobin 0)

/-- The operation builds the strategy again from its name. -/
def Op.rebuilds : Op U → Bool
  | .setNodes _ | .syncNodes _ | .reset => true
  | _ => false

/-- `select()` consults a later state of `last`, and `strategy_name()` returns its name. -/
def Consults (last : Strategy U) (b : LoadBalancer U) : Prop :=
  ∃ s, last.Continues s ∧ b.strategy = s ∧ b.strategyName = s.name

/-- The balancer consults the strategy that it has. -/
theorem consults_iff {last : Strategy U} {b : LoadBalancer U} :
    Consults last b ↔ last.Continues b.strategy :=
  ⟨fun ⟨_, h, hb, _⟩ => hb ▸ h, fun h => ⟨_, h, rfl, rfl⟩⟩

omit [BalancerStrategy U] in
/-- One operation more: it may be the last that sets a strategy. -/
theorem lastSet_concat (ops : List (Op U)) (op : Op U) :
    lastSet (ops ++ [op]) = match op with
      | .setStrategy (some s) => s
      | _ => lastSet ops := by
  rw [lastSet, List.foldl_append]
  rfl

/-- One operation more is applied last. -/
theorem applyAll_concat (b : LoadBalancer U) (ops : List (Op U)) (op : Op U) :
    b.applyAll (ops ++ [op]) = (b.applyAll ops).apply op := by
  rw [applyAll, List.foldl_append]
  rfl

/-- One operation, in a balancer that consults the last strategy. -/
theorem consults_apply {last : Strategy U} {b : LoadBalancer U} {op : Op U} (ops : List (Op U))
    (hlast : lastSet ops = last) (h : Consults last b)
    (hop : op.rebuilds = true → last.isUser = false) :
    Consults (lastSet (ops ++ [op])) (b.apply op) := by
  rw [consults_iff] at h ⊢
  rw [lastSet_concat, hlast]
  cases op with
  | setStrategy s =>
    -- a null pointer leaves the strategy as it is
    cases s with
    | none => exact h
    | some s => exact Strategy.Continues.refl s
  -- these three build the strategy again; it is a built-in one
  | setNodes nodes => exact h.createStrategy (hop rfl)
  | syncNodes nodes => exact h.createStrategy (hop rfl)
  | reset => exact h.createStrategy (hop rfl)
  | addNode ep => exact h
  | removeNode name => exact h
  | select roll => exact h.select b.nodes roll

/-- In every state of a history the strategy that is consulted is the last one that was set, if
    and only if no operation that rebuilds the strategy comes while that one is a user's own. -/
theorem strategy_kept_iff (ops : List (Op U)) :
    (∀ pre, pre <+: ops → Consults (lastSet pre) (init.applyAll pre)) ↔
      ∀ pre op, pre ++ [op] <+: ops → op.rebuilds = true → (lastSet pre).isUser = false := by
  constructor
  · intro h pre op hpre hop
    by_contra huser
    -- the strategy built from a name is a built-in one
    -- the operation sets no strategy, so the last one set stays the last
    have hbefore : lastSet (pre ++ [op]) = lastSet pre := by
      rw [lastSet_concat]
      cases op <;> first | rfl | cases hop
    have hafter : ((init.applyAll pre).apply op).strategy.isUser = false := by
      cases op <;> first | exact Strategy.createStrategy_isUser _ | cases hop
    have hkept := consults_iff.mp (h (pre ++ [op]) hpre)
    rw [hbefore, applyAll_concat] at hkept
    rw [hkept.isUser_eq] at hafter
    exact huser hafter
  · intro h pre
    -- along the history, from a balancer with the round robin
    induction pre using List.reverseRecOn with
    | nil =>
      intro _
      exact consults_iff.mpr (.roundRobin 0 0)
    | append_singleton pre op ih =>
      intro hpre
      rw [applyAll_concat]
      have hprefix : pre <+: ops := (List.prefix_append pre [op]).trans hpre
      exact consults_apply pre rfl (ih hprefix) (h pre op hpre)

/-- A strategy of a user: always the first node. -/
structure FirstNode where
  deriving DecidableEq, Repr

/-- Its name is in no table. -/
instance instFirstNode : BalancerStrategy FirstNode where
  name _ := Bytes.ofString "first_node"
  select u nodes _ := (nodeAt nodes 0, u)

/-- The nodes are set after the strategy. -/
def replacedOps : List (Op FirstNode) :=
  [.setStrategy (some (.user {})), .setNodes [{ name := [97], address := [], weight := 1 },
    { name := [98], address := [], weight := 1 }]]

/-- The strategy of the user is gone: the balancer says `round_robin`, and its second selection
    is the second node. -/
theorem replacedOps_not_consults :
    ¬Consults (lastSet replacedOps) (init.applyAll replacedOps) ∧
      (init.applyAll replacedOps).strategyName = Bytes.ofString "round_robin" ∧
      (init.applyAll replacedOps).selects [0, 0] =
        [.ok { name := [97], address := [], weight := 1 },
          .ok { name := [98], address := [], weight := 1 }] := by
  refine ⟨?_, by decide, by decide⟩
  intro h
  have huser := (consults_iff.mp h).isUser_eq
  exact absurd huser (by decide)

/-! ## Round robin -/

/-- The operation changes the nodes or selects, and leaves the strategy to the balancer. -/
def Op.setsStrategy : Op U → Bool
  | .setStrategy _ => true
  | _ => false

/-- `select` changes the strategy only by its own `select`. -/
theorem select_strategy (b : LoadBalancer U) (roll : Nat) :
    (b.select roll).2.strategy = (b.strategy.select b.nodes roll).2 := rfl

/-- The round robin stays one, and its counter starts again where the list is replaced. -/
theorem apply_roundRobin {b : LoadBalancer U} {op : Op U} {c : UInt64}
    (hb : b.strategy = .roundRobin c) (hop : op.setsStrategy = false) :
    ∃ c', (b.apply op).strategy = .roundRobin c' ∧ (op.rebuilds = true → c' = 0) := by
  have hreset : createStrategy b.strategy.name = (.roundRobin 0 : Strategy U) := by
    rw [hb, Strategy.createStrategy_roundRobin]
  cases op with
  | setStrategy s => cases hop
  | setNodes nodes => exact ⟨0, hreset, fun _ => rfl⟩
  | syncNodes nodes => exact ⟨0, hreset, fun _ => rfl⟩
  | reset => exact ⟨0, hreset, fun _ => rfl⟩
  | addNode ep => exact ⟨c, hb, nofun⟩
  | removeNode name => exact ⟨c, hb, nofun⟩
  | select roll =>
    show ∃ c', (b.select roll).2.strategy = .roundRobin c' ∧ _
    rw [select_strategy, hb]
    -- without nodes `select` throws, and the counter stays
    by_cases hnil : b.nodes = []
    · exact ⟨c, by simp only [Strategy.select, hnil, if_true], nofun⟩
    · exact ⟨c + 1, by simp only [Strategy.select, hnil, if_false], nofun⟩

/-- The round robin over a history. -/
theorem applyAll_roundRobin {b : LoadBalancer U} {c : UInt64} (hb : b.strategy = .roundRobin c)
    (ops : List (Op U)) (hops : ∀ op ∈ ops, op.setsStrategy = false) :
    ∃ c', (b.applyAll ops).strategy = .roundRobin c' ∧
      ∀ op, ops.getLast? = some op → op.rebuilds = true → c' = 0 := by
  induction ops using List.reverseRecOn with
  | nil => exact ⟨c, hb, nofun⟩
  | append_singleton ops op ih =>
    rw [List.forall_mem_append] at hops
    obtain ⟨c', hc', -⟩ := ih hops.1
    -- only the last operation decides whether the counter is zero
    obtain ⟨c'', hstrategy, hzero⟩ := apply_roundRobin hc' (hops.2 op (List.mem_singleton.mpr rfl))
    refine ⟨c'', by rw [applyAll_concat, hstrategy], ?_⟩
    intro op' hlast
    rw [List.getLast?_concat, Option.some.injEq] at hlast
    rw [← hlast]
    exact hzero

/-- Selections without a list change: the counter goes up by one each time. -/
theorem selects_roundRobin (nodes : List Endpoint) (hne : nodes ≠ []) (rolls : List Nat)
    (c : UInt64) (hc : c.toNat + rolls.length ≤ 2 ^ 64) :
    ({ strategy := .roundRobin c, nodes } : LoadBalancer U).selects rolls =
      (List.range rolls.length).map fun i => nodeAt nodes ((c.toNat + i) % nodes.length) := by
  induction rolls generalizing c with
  | nil => rfl
  | cons roll rolls ih =>
    rw [List.length_cons] at hc
    rw [selects, List.length_cons, List.range_succ_eq_map, List.map_cons, List.map_map]
    -- the first selection is the node at the counter, and counts
    have hsel : ({ strategy := .roundRobin c, nodes } : LoadBalancer U).select roll =
        (nodeAt nodes (c.toNat % nodes.length), { strategy := .roundRobin (c + 1), nodes }) := by
      simp only [select, Strategy.select, hne, if_false]
    rw [hsel]
    congr 1
    cases rolls with
    | nil => rfl
    | cons roll' rolls =>
      -- another selection follows, so the counter does not wrap
      rw [List.length_cons] at hc
      have hnext : (c + 1).toNat = c.toNat + 1 := by
        rw [UInt64.toNat_add]
        exact Nat.mod_eq_of_lt (by simp; omega)
      rw [ih (c + 1) (by rw [hnext, List.length_cons]; omega)]
      apply List.map_congr_left
      intro i _
      simp only [Function.comp_apply, hnext]
      congr 2
      omega

/-- A position of the list. -/
theorem nodeAt_of_lt {nodes : List Endpoint} {idx : Nat} (h : idx < nodes.length) :
    nodeAt nodes idx = .ok (nodes.get ⟨idx, h⟩) := by
  simp only [nodeAt, List.getElem?_eq_getElem h, List.get_eq_getElem]

/-- The next selections, as long as the counter does not wrap, return the nodes at the positions
    from `c` on, round the list, and so each position the same number of times, up to one. -/
def GoesRound (b : LoadBalancer U) (c : Nat) : Prop :=
  ∀ rolls : List Nat, c + rolls.length ≤ 2 ^ 64 →
    (∀ i < rolls.length, ∃ ep, b.nodes[(c + i) % b.nodes.length]? = some ep ∧
      (b.selects rolls)[i]? = some (.ok ep)) ∧
    ∀ j < b.nodes.length,
      Nat.count (fun i => (c + i) % b.nodes.length = j) rolls.length =
        rolls.length / b.nodes.length ∨
      Nat.count (fun i => (c + i) % b.nodes.length = j) rolls.length =
        (rolls.length + b.nodes.length - 1) / b.nodes.length

/-- The selections of the round robin go round the list, and each position has its share of them. -/
theorem goesRound_roundRobin {nodes : List Endpoint} (hne : nodes ≠ []) (c : UInt64) :
    GoesRound ({ strategy := .roundRobin c, nodes } : LoadBalancer U) c.toNat := by
  intro rolls hrolls
  have hlen : 0 < nodes.length := List.length_pos_iff.mpr hne
  refine ⟨?_, ?_⟩
  · intro i hi
    have hlt : (c.toNat + i) % nodes.length < nodes.length := Nat.mod_lt _ hlen
    refine ⟨nodes.get ⟨_, hlt⟩, List.getElem?_eq_getElem hlt, ?_⟩
    rw [selects_roundRobin nodes hne rolls c hrolls, List.getElem?_map, List.getElem?_range hi,
      Option.map_some, nodeAt_of_lt hlt]
  · intro j hj
    exact Cumulative.count_add_mod c.toNat rolls.length hj

/-- After every history of a balancer with the round robin, the selections go round the list from
    the counter on.  The counter is zero after the list has been replaced. -/
theorem roundRobin_fair (b : LoadBalancer U) (c₀ : UInt64) (hb : b.strategy = .roundRobin c₀)
    (ops : List (Op U)) (hops : ∀ op ∈ ops, op.setsStrategy = false)
    (hne : (b.applyAll ops).nodes ≠ []) :
    ∃ c : UInt64, (b.applyAll ops).strategy = .roundRobin c ∧
      GoesRound (b.applyAll ops) c.toNat ∧
      ∀ op, ops.getLast? = some op → op.rebuilds = true → c = 0 := by
  obtain ⟨c, hc, hzero⟩ := applyAll_roundRobin hb ops hops
  refine ⟨c, hc, ?_, hzero⟩
  -- what the history was does not matter any more
  generalize b.applyAll ops = b' at hne hc ⊢
  obtain ⟨strategy, nodes⟩ := b'
  obtain rfl : strategy = .roundRobin c := hc
  exact goesRound_roundRobin hne c

/-- Two nodes, one of them selected before the third comes. -/
theorem roundRobin_fair_grown :
    let ops : List (Op Empty) := [.setNodes [⟨[97], [], 1⟩, ⟨[98], [], 1⟩], .select 0,
      .addNode ⟨[99], [], 1⟩]
    ∃ c : UInt64, (init.applyAll ops).strategy = .roundRobin c ∧
      ∀ i < 3, ∃ ep, (init.applyAll ops).nodes[(c.toNat + i) % 3]? = some ep ∧
        ((init.applyAll ops).selects [0, 0, 0])[i]? = some (.ok ep) := by
  intro ops
  obtain ⟨c, hc, hround, -⟩ := roundRobin_fair init 0 rfl ops (by decide) (by decide)
  -- the selection before has counted
  have hone : c = 1 := by
    have : (init.applyAll ops).strategy = .roundRobin 1 := by decide
    rw [this] at hc
    exact (Strategy.roundRobin.inj hc).symm
  exact ⟨c, hc, (hround [0, 0, 0] (by rw [hone]; decide)).1⟩

end LoadBalancer

/-! ## Weighted selection -/

/-- The position of the node that `weightedLoop` returns. -/
def weightedIndex (r : Int32) : Int32 → List Endpoint → Option Nat
  | _, [] => none
  | accum, n :: nodes =>
    if r < accum + n.weight then some 0 else (weightedIndex r (accum + n.weight) nodes).map (· + 1)

/-- The loop returns the node at that position. -/
theorem weightedLoop_eq (r accum : Int32) (nodes : List Endpoint) :
    weightedLoop r accum nodes = (weightedIndex r accum nodes).bind (nodes[·]?) := by
  induction nodes generalizing accum with
  | nil => rfl
  | cons n nodes ih =>
    simp only [weightedLoop, weightedIndex]
    split
    · rfl
    -- the position is counted from the next node on
    · rw [ih]
      cases weightedIndex r (accum + n.weight) nodes <;> rfl

/-- The weights, as integers. -/
def weights (nodes : List Endpoint) : List Int := nodes.map fun n => n.weight.toInt

/-- No partial sum of the weights leaves the range of an `int`. -/
def NoOverflow (accum : Int) (ws : List Int) : Prop :=
  ∀ k ≤ ws.length, -2 ^ 31 ≤ accum + (ws.take k).sum ∧ accum + (ws.take k).sum < 2 ^ 31

/-- The partial sums from the next weight on. -/
theorem NoOverflow.tail {accum w : Int} {ws : List Int} (h : NoOverflow accum (w :: ws)) :
    NoOverflow (accum + w) ws := by
  intro k hk
  have := h (k + 1) (by rw [List.length_cons]; omega)
  rw [List.take_succ_cons, List.sum_cons] at this
  omega

/-- Adding a weight without overflow. -/
theorem NoOverflow.toInt_add {accum w : Int32} {ws : List Int}
    (h : NoOverflow accum.toInt (w.toInt :: ws)) : (accum + w).toInt = accum.toInt + w.toInt := by
  -- the first partial sum
  have := h 1 (by rw [List.length_cons]; omega)
  simp only [List.take_succ_cons, List.take_zero, List.sum_cons, List.sum_nil] at this
  rw [Int32.toInt_add]
  apply Int.bmod_eq_of_le <;> omega

/-- The sum of the weights, as the code computes it. -/
theorem foldl_weight_toInt (nodes : List Endpoint) (accum : Int32)
    (h : NoOverflow accum.toInt (weights nodes)) :
    (nodes.foldl (fun total n => total + n.weight) accum).toInt =
      accum.toInt + (weights nodes).sum := by
  induction nodes generalizing accum with
  | nil => simp [weights]
  | cons n nodes ih =>
    have hadd : (accum + n.weight).toInt = accum.toInt + n.weight.toInt := NoOverflow.toInt_add h
    -- the sum so far is exact, so the rest does not overflow either
    have htail : NoOverflow (accum + n.weight).toInt (weights nodes) := by
      rw [hadd]
      exact NoOverflow.tail h
    rw [List.foldl_cons, ih _ htail, hadd, weights, weights, List.map_cons, List.sum_cons]
    omega

/-- Without overflow the loop looks for the first partial sum above the draw. -/
theorem weightedIndex_eq (r accum : Int32) (nodes : List Endpoint)
    (h : NoOverflow accum.toInt (weights nodes)) :
    weightedIndex r accum nodes = Cumulative.firstAbove r.toInt accum.toInt (weights nodes) := by
  induction nodes generalizing accum with
  | nil => rfl
  | cons n nodes ih =>
    have hadd : (accum + n.weight).toInt = accum.toInt + n.weight.toInt := NoOverflow.toInt_add h
    have htail : NoOverflow (accum + n.weight).toInt (weights nodes) := by
      rw [hadd]
      exact NoOverflow.tail h
    simp only [weightedIndex, ih _ htail, Int32.lt_iff_toInt_lt, hadd, weights, List.map_cons,
      Cumulative.firstAbove]

/-- Weights that are not negative and whose sum is an `int` never overflow. -/
theorem noOverflow_of_nonneg {ws : List Int} (hnn : ∀ w ∈ ws, 0 ≤ w) (hsum : ws.sum < 2 ^ 31) :
    NoOverflow 0 ws := by
  intro k hk
  -- every partial sum lies between zero and the total
  have hstart : ([] : List Int).sum ≤ (ws.take k).sum :=
    Cumulative.sum_take_mono hnn (Nat.zero_le k)
  have hend : (ws.take k).sum ≤ (ws.take ws.length).sum := Cumulative.sum_take_mono hnn hk
  rw [List.take_length] at hend
  rw [List.sum_nil] at hstart
  omega

/-- The total is one of the partial sums. -/
theorem NoOverflow.sum_lt {ws : List Int} (h : NoOverflow 0 ws) : ws.sum < 2 ^ 31 := by
  have := (h ws.length (Nat.le_refl _)).2
  rw [List.take_length] at this
  omega

/-- A draw below the total, as an `int`. -/
theorem weightedIndex_draw {nodes : List Endpoint} (hover : NoOverflow 0 (weights nodes)) {r : Nat}
    (hr : r < (weights nodes).sum.toNat) :
    weightedIndex (Int32.ofNat r) 0 nodes = Cumulative.firstAbove r 0 (weights nodes) := by
  have hlt := hover.sum_lt
  rw [weightedIndex_eq _ 0 _ hover, Int32.toInt_ofNat_of_lt (by omega)]
  rfl

/-- On draw `r` the loop of `WeightedStrategy::select` stops at position `i`, and the node there is
    returned. -/
structure Draws (nodes : List Endpoint) (r i : Nat) (ep : Endpoint) : Prop where
  index : weightedIndex (Int32.ofNat r) 0 nodes = some i
  node : nodes[i]? = some ep
  loop : weightedLoop (Int32.ofNat r) 0 nodes = some ep
  select : ((.weighted : Strategy U).select nodes r).1 = .ok ep

/-- `WeightedStrategy::select` with a positive total. -/
theorem select_weighted {nodes : List Endpoint} {total : Int32} (hne : nodes ≠ [])
    (htotal : nodes.foldl (fun total n => total + n.weight) 0 = total) (hpos : 0 < total.toInt)
    (roll : Nat) :
    ((.weighted : Strategy U).select nodes roll).1 =
      weightedPick nodes (Int32.ofNat (uniform total.toInt.toNat roll)) := by
  -- the total is not taken for a missing one
  have hle : ¬total ≤ 0 := by
    rw [Int32.le_iff_toInt_le]
    show ¬total.toInt ≤ 0
    omega
  simp only [Strategy.select, htotal, throwIf, hne, hle, if_false, bind, Except.bind]

/-- A draw below the total stops the loop at a positive weight. -/
theorem exists_draws {nodes : List Endpoint} (hover : NoOverflow 0 (weights nodes))
    (hpos : 0 < (weights nodes).sum) {r : Nat} (hr : r < (weights nodes).sum.toNat) :
    ∃ i ep, Draws (U := U) nodes r i ep ∧ 0 < ep.weight.toInt := by
  have hzero : (0 : Int) ≤ r := by omega
  have hbelow : (r : Int) < 0 + (weights nodes).sum := by omega
  -- the draw lies below the total, so some partial sum is above it
  obtain ⟨i, hi⟩ := Cumulative.exists_firstAbove hzero hbelow
  obtain ⟨hle, hgt, hlen⟩ := Cumulative.firstAbove_spec (by omega) hi
  -- the sum before it is not above the draw, so its weight is positive
  rw [List.sum_take_succ _ _ hlen] at hgt
  rw [weights, List.length_map] at hlen
  have hindex := (weightedIndex_draw hover hr).trans hi
  have hnode : nodes[i]? = some (nodes.get ⟨i, hlen⟩) := List.getElem?_eq_getElem hlen
  have hloop : weightedLoop (Int32.ofNat r) 0 nodes = some (nodes.get ⟨i, hlen⟩) := by
    rw [weightedLoop_eq, hindex]
    exact hnode
  -- there is a node, so `select` does not throw
  have hne : nodes ≠ [] := by
    intro hnil
    rw [hnil] at hlen
    simp at hlen
  -- the total of the code is the sum
  have htotal : (nodes.foldl (fun total n => total + n.weight) (0 : Int32)).toInt =
      (weights nodes).sum := by
    rw [foldl_weight_toInt nodes 0 hover]
    exact Int.zero_add _
  refine ⟨i, nodes.get ⟨i, hlen⟩, ⟨hindex, hnode, hloop, ?_⟩, ?_⟩
  · rw [select_weighted hne rfl (by omega), htotal, uniform, Nat.mod_eq_of_lt hr, weightedPick,
      hloop]
  · simp only [weights, List.getElem_map] at hgt hle
    show 0 < nodes[i].weight.toInt
    omega

/-- The number of draws for a position. -/
theorem count_weightedIndex {nodes : List Endpoint} (hnn : ∀ w ∈ weights nodes, 0 ≤ w)
    (hover : NoOverflow 0 (weights nodes)) {i : Nat} {ep : Endpoint} (hep : nodes[i]? = some ep) :
    Nat.count (fun r => weightedIndex (Int32.ofNat r) 0 nodes = some i) (weights nodes).sum.toNat =
      ep.weight.toInt.toNat := by
  obtain ⟨hi, rfl⟩ := List.getElem?_eq_some_iff.mp hep
  have hlen : i < (weights nodes).length := by rwa [weights, List.length_map]
  -- the draws for a position lie between two partial sums
  have hcount := Cumulative.count_firstAbove hnn hlen
  have hweight : (weights nodes).get ⟨i, hlen⟩ = nodes[i].weight.toInt := by simp [weights]
  rw [hweight, Nat.count_eq_card_filter_range] at hcount
  rw [Nat.count_eq_card_filter_range, ← hcount]
  congr 1
  apply Finset.filter_congr
  intro r hr
  rw [weightedIndex_draw hover (Finset.mem_range.mp hr)]

/-- With a positive total of weights that are not negative, exactly `weight` of the draws return
    the node at a position.  With any weights whose partial sums do not overflow, the loop finds a
    node on every draw, and its weight is positive. -/
theorem weighted_proportional (nodes : List Endpoint) (hpos : 0 < (weights nodes).sum) :
    ((∀ w ∈ weights nodes, 0 ≤ w) → (weights nodes).sum ≤ 2 ^ 31 - 1 →
      (∀ r < (weights nodes).sum.toNat, ∃ i ep, Draws (U := U) nodes r i ep) ∧
      ∀ i ep, nodes[i]? = some ep →
        Nat.count (fun r => weightedIndex (Int32.ofNat r) 0 nodes = some i)
          (weights nodes).sum.toNat = ep.weight.toInt.toNat) ∧
    (NoOverflow 0 (weights nodes) → ∀ r < (weights nodes).sum.toNat,
      ∃ i ep, Draws (U := U) nodes r i ep ∧ 0 < ep.weight.toInt) := by
  refine ⟨?_, ?_⟩
  · intro hnn hsum
    -- weights that are not negative do not overflow
    have hover := noOverflow_of_nonneg hnn (by omega)
    refine ⟨?_, ?_⟩
    · intro r hr
      obtain ⟨i, ep, hdraws, -⟩ := exists_draws (U := U) hover hpos hr
      exact ⟨i, ep, hdraws⟩
    · intro i ep hep
      exact count_weightedIndex hnn hover hep
  · intro hover r hr
    exact exists_draws hover hpos hr

/-- A zero weight and a negative one among others. -/
theorem weighted_proportional_mixed :
    (∃ i ep, Draws (U := Empty) [⟨[97], [], 2⟩, ⟨[98], [], 0⟩, ⟨[99], [], 3⟩] 4 i ep) ∧
    Nat.count (fun r => weightedIndex (Int32.ofNat r) 0
      [⟨[97], [], 2⟩, ⟨[98], [], 0⟩, ⟨[99], [], 3⟩] = some 2) 5 = 3 ∧
    ∃ i ep, Draws (U := Empty) [⟨[97], [], 2⟩, ⟨[98], [], -1⟩, ⟨[99], [], 3⟩] 3 i ep ∧
      0 < ep.weight.toInt := by
  have hnn := (weighted_proportional (U := Empty)
    [⟨[97], [], 2⟩, ⟨[98], [], 0⟩, ⟨[99], [], 3⟩] (by decide)).1 (by decide) (by decide)
  have hmixed := (weighted_proportional (U := Empty)
    [⟨[97], [], 2⟩, ⟨[98], [], -1⟩, ⟨[99], [], 3⟩] (by decide)).2
  refine ⟨hnn.1 4 (by decide), hnn.2 2 _ rfl, hmixed ?_ 3 (by decide)⟩
  unfold NoOverflow
  decide

end Rpc
