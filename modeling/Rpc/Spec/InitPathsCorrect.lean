import Rpc.ForStd.NameTree
import Rpc.Spec.PlayCorrect

/-!
# The services path

`init_zk_paths` creates the parent of the path and then the path, and looks at neither
result.  ZooKeeper creates a node only below one that exists, so the path is there afterwards
exactly when the node two levels above it was (`initZkPaths_iff`): always for `/rpc/services`,
but not for a path of three components on an empty tree (`initZkPaths_deep`).
-/

namespace Rpc

open Zk

/-! ## Paths -/

/-- A component of a path. -/
def IsComponent (c : Bytes) : Prop := c ≠ [] ∧ 47 ∉ c

instance instDecidableIsComponent (c : Bytes) : Decidable (IsComponent c) :=
  inferInstanceAs (Decidable (_ ∧ _))

/-- `"/c1/.../cm"`. -/
def pathOf (cs : List Bytes) : Bytes := cs.flatMap fun c => 47 :: c

/-- A longer path is that of a child. -/
theorem pathOf_concat (cs : List Bytes) (c : Bytes) :
    pathOf (cs ++ [c]) = ServiceRegistry.childPath (pathOf cs) c := by
  simp [pathOf, ServiceRegistry.childPath]

/-- Only the path of the root is empty. -/
theorem pathOf_eq_nil_iff {cs : List Bytes} : pathOf cs = [] ↔ cs = [] := by
  cases cs <;> simp [pathOf]

/-! ## A ZooKeeper that creates nodes -/

/-- The err of the reply to a create. -/
def creationErr : Creation → Int32
  | .created => 0
  | .noParent => -101
  | .nodeExists => -110

/-- The server creates a node exactly when its parent exists and it does not exist yet.  The
    registry only creates nodes that are open to everyone: persistent ones (`flags = 0`), and
    the ephemeral ones of the services (`flags = 1`). -/
structure CreatesNodes (server : ZkServer (NameTree Bytes)) : Prop where
  /-- a persistent node is there afterwards if it could be created -/
  persistent : ∀ (tree : NameTree Bytes) (cs : List Bytes) data, cs ≠ [] →
    (∀ c ∈ cs, IsComponent c) →
      (server.answer tree (.create (pathOf cs) data aclOpenUnsafe 0)).1 = (tree.create cs).1
  /-- the reply says whether the node could be created -/
  err : ∀ (tree : NameTree Bytes) (cs : List Bytes) data flags, cs ≠ [] →
    (∀ c ∈ cs, IsComponent c) → flags = 0 ∨ flags = 1 →
      (server.answer tree (.create (pathOf cs) data aclOpenUnsafe flags)).2.1 =
        creationErr (tree.create cs).2
  /-- the body of a reply with err = 0 is a response -/
  readable : ∀ (tree : NameTree Bytes) (cs : List Bytes) data flags, cs ≠ [] →
    (∀ c ∈ cs, IsComponent c) → flags = 0 ∨ flags = 1 →
      (server.answer tree (.create (pathOf cs) data aclOpenUnsafe flags)).2.1 = 0 →
        ∃ resp, CreateResponse.deserialize
          (server.answer tree (.create (pathOf cs) data aclOpenUnsafe flags)).2.2 = .ok resp

namespace CreatesNodes

variable {server : ZkServer (NameTree Bytes)} (hserver : CreatesNodes server)

include hserver

/-- A response to a create can be read. -/
theorem result_eq_ok (tree : NameTree Bytes) {cs : List Bytes} (hne : cs ≠ [])
    (hcs : ∀ c ∈ cs, IsComponent c) (data : Bytes) {flags : Int32}
    (hflags : flags = 0 ∨ flags = 1) :
    ∃ r, (Outcome.reply (server.answer tree (.create (pathOf cs) data aclOpenUnsafe flags)).2.1
        (server.answer tree (.create (pathOf cs) data aclOpenUnsafe flags)).2.2).result
          CreateResponse.deserialize = .ok r ∧
      (r.isErr = false ↔ (tree.create cs).2 = .created) := by
  have herr := hserver.err tree cs data flags hne hcs hflags
  have hread := hserver.readable tree cs data flags hne hcs hflags
  rw [herr] at hread ⊢
  cases hc : (tree.create cs).2 with
  | created =>
    -- only this body is read
    rw [hc] at hread
    obtain ⟨resp, hresp⟩ := hread rfl
    refine ⟨.makeOk resp.1, ?_, by simp [Result.makeOk, Result.isErr, Result.isOk]⟩
    simp only [Outcome.result, creationErr, ne_eq, not_true_eq_false, if_false, hresp]
    rfl
  | noParent => exact ⟨_, rfl, by simp [Result.makeError, Result.isErr, Result.isOk]⟩
  | nodeExists => exact ⟨_, rfl, by simp [Result.makeError, Result.isErr, Result.isOk]⟩

/-- `create_persistent_node` creates the node if it can, and returns. -/
theorem play_createPersistentNode (tree : NameTree Bytes) {cs : List Bytes} (hne : cs ≠ [])
    (hcs : ∀ c ∈ cs, IsComponent c) :
    ∃ b, server.play tree (ServiceRegistry.createPersistentNode true (pathOf cs)).run =
      ((tree.create cs).1, .ok b) := by
  have htree := hserver.persistent tree cs [] hne hcs
  obtain ⟨r, hr, -⟩ := hserver.result_eq_ok tree hne hcs [] (.inl rfl)
  -- it is `true` also for a node that was there already
  refine ⟨ServiceRegistry.created r, ?_⟩
  have hplay := server.play_op tree (.createPersistentNode (pathOf cs))
  simp only [ServiceRegistry.Op.request, ServiceRegistry.Op.returns, htree, hr] at hplay
  exact hplay

/-- `register_service` reports whether the node is created. -/
theorem play_registerService (tree : NameTree Bytes) {cs : List Bytes} {name : Bytes}
    (hcs : ∀ c ∈ cs ++ [name], IsComponent c) (address : Bytes) :
    ∃ b, (server.play tree
        (ServiceRegistry.registerService true (pathOf cs) name address).run).2 = .ok b ∧
      (b = true ↔ (tree.create (cs ++ [name])).2 = .created) := by
  have hne : cs ++ [name] ≠ [] := by simp
  obtain ⟨r, hr, hcreated⟩ := hserver.result_eq_ok tree hne hcs address (.inr rfl)
  refine ⟨!r.isErr, ?_, by simpa using hcreated⟩
  -- one create, with the address as data
  have hplay := server.play_op tree (.registerService (pathOf cs) name address)
  simp only [ServiceRegistry.Op.request, ServiceRegistry.Op.returns, ← pathOf_concat,
    hr] at hplay
  exact congrArg Prod.snd hplay

end CreatesNodes

/-! ## The services path -/

namespace NodeManager

open ServiceRegistry

/-- `init_zk_paths` with the two parts of the path. -/
theorem initZkPaths_concat (m : NodeManager) (cs : List Bytes) {c : Bytes} (hc : 47 ∉ c) :
    m.initZkPaths true (pathOf (cs ++ [c])) =
      if cs = [] then
        { m with servicesPath := pathOf (cs ++ [c]) }.ofRegistry
          (createPersistentNode true (pathOf (cs ++ [c]))) fun _ => .unit
      else
        { m with servicesPath := pathOf (cs ++ [c]) }.ofRegistry (do
          let _ ← createPersistentNode true (pathOf cs)
          createPersistentNode true (pathOf (cs ++ [c]))) fun _ => .unit := by
  have hlast : lastComponent (pathOf (cs ++ [c])) = c := by
    rw [pathOf_concat, lastComponent_childPath hc]
  have hlen : (pathOf (cs ++ [c])).length = (pathOf cs).length + (c.length + 1) := by
    simp [pathOf_concat, childPath]
  -- what `init_zk_paths` cuts off is the last component with its slash
  have hroot : (pathOf (cs ++ [c])).take ((pathOf (cs ++ [c])).length - 1 - c.length) =
      pathOf cs := by
    rw [pathOf_concat, childPath]
    exact List.take_left' (by rw [← childPath, ← pathOf_concat, hlen]; omega)
  have hmem : 47 ∈ pathOf (cs ++ [c]) := by simp [pathOf]
  rw [initZkPaths, hlast, hroot]
  by_cases hcs : cs = []
  · rw [if_pos hcs, if_neg fun h => h.2 (pathOf_eq_nil_iff.mpr hcs)]
  · rw [if_neg hcs, if_pos ⟨hmem, fun h => hcs (pathOf_eq_nil_iff.mp h)⟩]

/-- After `init_zk_paths` the path exists if and only if the node two levels above it did. -/
theorem play_initZkPaths {server : ZkServer (NameTree Bytes)} (hserver : CreatesNodes server)
    (m : NodeManager) (tree : NameTree Bytes) {cs : List Bytes} (hne : cs ≠ [])
    (hcs : ∀ c ∈ cs, IsComponent c) :
    ∃ tree', server.play tree (m.initZkPaths true (pathOf cs)) =
        (tree', { m with servicesPath := pathOf cs }, .ok .unit) ∧
      (cs ∈ tree'.nodes ↔ cs.dropLast.dropLast ∈ tree.nodes) := by
  obtain ⟨parent, c, rfl⟩ : ∃ parent c, cs = parent ++ [c] :=
    ⟨_, _, (List.dropLast_append_getLast hne).symm⟩
  have hparent : ∀ c ∈ parent, IsComponent c := fun c hc => hcs c (List.mem_append_left _ hc)
  have hslash : 47 ∉ c := (hcs c (by simp)).2
  rw [initZkPaths_concat m parent hslash, List.dropLast_concat]
  by_cases hroot : parent = []
  · -- one create, below the root
    subst hroot
    obtain ⟨b, hplay⟩ := hserver.play_createPersistentNode tree hne hcs
    refine ⟨(tree.create [c]).1, ?_, ?_⟩
    · rw [if_pos rfl, ZkServer.play_ofRegistry]
      simp only [List.nil_append] at hplay ⊢
      rw [hplay]
      rfl
    · rw [List.nil_append, NameTree.mem_create_self]
      simp
  · -- the parent, whose own parent must exist, and then the path
    obtain ⟨b, hplay⟩ := hserver.play_createPersistentNode tree hroot hparent
    obtain ⟨b', hplay'⟩ := hserver.play_createPersistentNode (tree.create parent).1 hne hcs
    refine ⟨((tree.create parent).1.create (parent ++ [c])).1, ?_, ?_⟩
    · rw [if_neg hroot, ZkServer.play_ofRegistry, ExceptT.run_bind, ZkServer.play_bind, hplay]
      simp only [hplay']
      rfl
    · rw [NameTree.mem_create_self, List.dropLast_concat, NameTree.mem_create_self]

/-- The services path is there: every node on it exists, and new nodes can be registered
    below it. -/
structure PathReady (server : ZkServer (NameTree Bytes)) (tree : NameTree Bytes) (m : NodeManager)
    (cs : List Bytes) : Prop where
  nodes : ∀ k, cs.take k ∈ tree.nodes
  register : ∀ name address weight, IsComponent name → cs ++ [name] ∉ tree.nodes →
    (server.play tree (Call.program true m (.registerNode name address weight))).2.2 =
      .ok (.bool true)

/-- With a ZooKeeper that creates a node exactly when its parent exists and it does not exist
    yet, `init_zk_paths` returns for every path and tree; and the services path is there
    afterwards if and only if the node two levels above it existed before. -/
theorem initZkPaths_iff {server : ZkServer (NameTree Bytes)} (hserver : CreatesNodes server)
    (m : NodeManager) (tree : NameTree Bytes) (cs : List Bytes) (hne : cs ≠ [])
    (hcs : ∀ c ∈ cs, IsComponent c) :
    ∃ tree' m', server.play tree (Call.program true m (.initZkPaths (pathOf cs))) =
        (tree', m', .ok .unit) ∧
      (PathReady server tree' m' cs ↔ cs.dropLast.dropLast ∈ tree.nodes) := by
  obtain ⟨tree', hplay, hiff⟩ := play_initZkPaths hserver m tree hne hcs
  refine ⟨tree', _, hplay, ?_⟩
  rw [← hiff]
  constructor
  · intro hready
    have hall := hready.nodes cs.length
    rwa [List.take_length] at hall
  · intro hmem
    refine ⟨tree'.mem_take hmem, ?_⟩
    intro name address weight hname hnew
    have hcs' : ∀ c ∈ cs ++ [name], IsComponent c := by
      intro c hc
      obtain hc | hc := List.mem_append.mp hc
      · exact hcs c hc
      · exact List.mem_singleton.mp hc ▸ hname
    obtain ⟨b, hreg, hb⟩ := hserver.play_registerService tree' hcs' address
    have hcreated : (tree'.create (cs ++ [name])).2 = .created := by
      rw [NameTree.create_eq_created, List.dropLast_concat]
      exact ⟨hnew, hmem⟩
    rw [Call.program, ZkServer.play_ofRegistry, hreg, hb.mpr hcreated]
    rfl

/-- The same in the system: a manager that can exchange requests calls `init_zk_paths`, and
    nothing interferes. -/
theorem exists_run_initZkPaths {server : ZkServer (NameTree Bytes)} (hserver : CreatesNodes server)
    {s : Discovery (NameTree Bytes)} (hready : s.Ready) (hidle : s.running = none)
    (hconn : s.registry.connected = true) {cs : List Bytes} (hne : cs ≠ [])
    (hcs : ∀ c ∈ cs, IsComponent c) :
    ∃ acts s', Transition.run (Discovery.step server) s
        (.call (.initZkPaths (pathOf cs)) :: acts ++ [.ret]) = some s' ∧
      s'.mgr.servicesPath = pathOf cs ∧
      (cs ∈ s'.tree.nodes ↔ cs.dropLast.dropLast ∈ s.tree.nodes) := by
  obtain ⟨acts, s', hrun, -, -, -, htree, hmgr⟩ :=
    Discovery.exists_run_call server hready hidle (.initZkPaths (pathOf cs))
  obtain ⟨tree', hplay, hiff⟩ := play_initZkPaths hserver s.mgr s.tree hne hcs
  have hprogram : server.play s.tree
      (Call.program s.registry.connected s.mgr (.initZkPaths (pathOf cs))) =
        (tree', { s.mgr with servicesPath := pathOf cs }, .ok .unit) := by
    rw [hconn]
    exact hplay
  rw [hprogram] at htree hmgr
  refine ⟨acts, s', hrun, ?_, ?_⟩
  · rw [hmgr]
  · rw [htree]
    exact hiff

/-- The components of a path: what stands between the `/`. -/
def components (path : Bytes) : List Bytes := (path.splitOn 47).tail

/-- What stands between the `/` of a path, with anything in front. -/
theorem splitOn_pathOf {first : Bytes} {cs : List Bytes} (hfirst : 47 ∉ first)
    (hcs : ∀ c ∈ cs, IsComponent c) : (first ++ pathOf cs).splitOn 47 = first :: cs := by
  induction cs generalizing first with
  | nil => simpa [pathOf] using List.splitOn_eq_singleton hfirst
  | cons c cs ih =>
    have hc := (hcs c List.mem_cons_self).2
    have hrest := ih hc fun c hc => hcs c (List.mem_cons_of_mem _ hc)
    show (first ++ 47 :: (c ++ pathOf cs)).splitOn 47 = _
    rw [List.splitOn_append_cons_self_of_not_mem hfirst, hrest]

/-- The components of a path are those it was made of. -/
theorem components_pathOf {cs : List Bytes} (hcs : ∀ c ∈ cs, IsComponent c) :
    components (pathOf cs) = cs := by
  have hsplit := splitOn_pathOf (List.not_mem_nil (a := 47)) hcs
  rw [List.nil_append] at hsplit
  rw [components, hsplit, List.tail_cons]

/-- The reply to a create: the path of the node. -/
def createReply (path : Bytes) : Creation → Int32 × Bytes
  | .created => (0, writeString [] (path.take (2 ^ 20)))
  | c => (creationErr c, [])

/-- A ZooKeeper that only creates nodes. -/
def creating (tree : NameTree Bytes) : Operation → NameTree Bytes × Int32 × Bytes
  | .create path _ _ _ =>
    ((tree.create (components path)).1, createReply path (tree.create (components path)).2)
  | _ => (tree, -6, [])

/-- Its replies are short enough for a frame. -/
theorem createReply_fits (path : Bytes) (c : Creation) :
    16 + (createReply path c).2.length < 2 ^ 31 := by
  cases c with
  | created =>
    have hlen : (path.take (2 ^ 20)).length ≤ 2 ^ 20 := List.length_take_le _ _
    simp [createReply, writeString_eq, stringBytes] at hlen ⊢
    omega
  | noParent => exact (show 16 + 0 < 2 ^ 31 by decide)
  | nodeExists => exact (show 16 + 0 < 2 ^ 31 by decide)

/-- A ZooKeeper that answers so. -/
def creator : ZkServer (NameTree Bytes) where
  answer := creating
  fits tree op := by
    have hnil : 16 + 0 < 2 ^ 31 := by decide
    cases op with
    | create path data acls flags => exact createReply_fits path _
    | _ => exact hnil
  names tree path watch herr := absurd (show (-6 : Int32) = 0 from herr) (by decide)

/-- It creates a node exactly when it can. -/
theorem createsNodes_creator : CreatesNodes creator where
  persistent tree cs data _ hcs := by
    show (tree.create (components (pathOf cs))).1 = _
    rw [components_pathOf hcs]
  err tree cs data flags _ hcs _ := by
    show (createReply (pathOf cs) (tree.create (components (pathOf cs))).2).1 = _
    rw [components_pathOf hcs]
    cases (tree.create cs).2 <;> rfl
  readable tree cs data flags _ _ _ herr := by
    -- only a reply with err = 0 has a body
    have hread : ∀ c, (createReply (pathOf cs) c).1 = 0 →
        ∃ resp, CreateResponse.deserialize (createReply (pathOf cs) c).2 = .ok resp := by
      intro c herr
      cases c with
      | noParent => exact absurd (show (-101 : Int32) = 0 from herr) (by decide)
      | nodeExists => exact absurd (show (-110 : Int32) = 0 from herr) (by decide)
      | created =>
        have hlen := List.length_take_le (2 ^ 20) (pathOf cs)
        have hinv := CreateResponse.deserialize_inverts { path := (pathOf cs).take (2 ^ 20) } []
          (by dsimp only; omega)
        rw [List.append_nil] at hinv
        exact ⟨_, hinv⟩
    exact hread _ herr

/-- The default path on an empty tree. -/
theorem initZkPaths_default :
    ∃ tree' m', creator.play .empty (Call.program true init
        (.initZkPaths (pathOf [Bytes.ofString "rpc", Bytes.ofString "services"]))) =
        (tree', m', .ok .unit) ∧
      PathReady creator tree' m' [Bytes.ofString "rpc", Bytes.ofString "services"] := by
  obtain ⟨tree', m', hplay, hiff⟩ := initZkPaths_iff createsNodes_creator init .empty
    [Bytes.ofString "rpc", Bytes.ofString "services"] (by decide) (by decide)
  exact ⟨tree', m', hplay, hiff.mpr (by decide)⟩

/-- A path of three components on an empty tree: nothing is created, and no node can be
    registered. -/
theorem initZkPaths_deep :
    ∃ cs tree' m', cs ≠ [] ∧ (∀ c ∈ cs, IsComponent c) ∧
      creator.play .empty (Call.program true init (.initZkPaths (pathOf cs))) =
        (tree', m', .ok .unit) ∧
      tree'.nodes = [[]] ∧ ¬PathReady creator tree' m' cs ∧
      (creator.play tree' (Call.program true m' (.registerNode [100] [49] 1))).2.2 =
        .ok (.bool false) := by
  refine ⟨[[97], [98], [99]], .empty, { init with servicesPath := pathOf [[97], [98], [99]] },
    by decide, by decide, rfl, rfl, ?_, rfl⟩
  intro h
  exact absurd (h.nodes 3) (by decide)

end NodeManager

end Rpc
