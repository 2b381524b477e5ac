import Rpc.Spec.FleetSteps

/-!
# Registering, finding and selecting services

Any number of managers register, unregister and refresh against one ZooKeeper, which other
clients use too, and replies may be lost.

* Two registrations of a node that returned `true` have a removal of it between them
  (`registrations_exclusive`).
* A refresh is a listing and a read for each child, and not atomic.  It finds every service
  that is registered all the time, and nothing that was not registered (`refresh_regular`).
* A service whose registration returned `true`, and that nobody has removed, is selected by
  one of the first selections after a refresh (`registered_selected`).
-/

namespace Rpc

open Transition Zk

namespace Fleet

open ServiceRegistry

variable {Tree : Type} {server : ZkServer Tree} {data : Tree → Bytes → Option Bytes}
  {s : Fleet Tree} {data₀ : Bytes → Option Bytes} {journal : List Entry} {author : Nat × Nat}

/-! ## A ZooKeeper with one node -/

/-- The services path, and the only node below it. -/
def onePath : Bytes := Bytes.ofString "/s"

/-- The path of the node that may be created. -/
def oneChild : Bytes := Bytes.ofString "/s/a"

/-- The data of the two nodes; the second is there or not. -/
def oneData (tree : Bool) (path : Bytes) : Option Bytes :=
  if path = onePath then some []
  else if tree = true ∧ path = oneChild then some (Bytes.ofString "h:1")
  else none

/-- The replies: only this node may be created, and only with this data. -/
def oneAnswer (tree : Bool) : Operation → Bool × Int32 × Bytes
  | .create path data _ _ =>
    if tree = false ∧ path = oneChild ∧ data = Bytes.ofString "h:1" then
      (true, 0, writeString [] oneChild)
    else (tree, -102, [])
  | .remove path _ =>
    if tree = true ∧ path = oneChild then (false, 0, []) else (tree, -101, [])
  | .getData path _ =>
    match oneData tree path with
    | some data => (tree, 0, writeString [] data ++ List.replicate 68 0)
    | none => (tree, -101, [])
  | .getChildren path _ =>
    match oneData tree path with
    | some _ =>
      (tree, 0,
        if tree = true ∧ path = onePath then writeString (writeInt32 [] 1) [97]
        else writeInt32 [] 0)
    | none => (tree, -101, [])
  | .exists path _ =>
    match oneData tree path with
    | some _ => (tree, 0, List.replicate 68 0)
    | none => (tree, -101, [])

/-- There is data at two paths only. -/
theorem oneData_cases {tree : Bool} {path data : Bytes} (h : oneData tree path = some data) :
    path = onePath ∧ data = [] ∨ tree = true ∧ path = oneChild ∧ data = Bytes.ofString "h:1" := by
  unfold oneData at h
  split at h
  · rename_i hpath
    exact .inl ⟨hpath, (Option.some.inj h).symm⟩
  · split at h
    · rename_i hchild
      exact .inr ⟨hchild.1, hchild.2, (Option.some.inj h).symm⟩
    · cases h

/-- Its replies are short enough for a frame. -/
theorem oneAnswer_fits (tree : Bool) (op : Operation) :
    16 + (oneAnswer tree op).2.2.length < 2 ^ 31 := by
  have hnil : 16 + ([] : Bytes).length < 2 ^ 31 := by decide
  cases op with
  | create path data acls flags =>
    simp only [oneAnswer]
    split
    · decide
    · exact hnil
  | remove path version =>
    simp only [oneAnswer]
    split <;> exact hnil
  | getData path watch =>
    simp only [oneAnswer]
    cases hdata : oneData tree path with
    | none => exact hnil
    | some data =>
      dsimp only
      -- the data is empty, or that of the node
      obtain ⟨-, rfl⟩ | ⟨-, -, rfl⟩ := oneData_cases hdata <;> decide
  | getChildren path watch =>
    simp only [oneAnswer]
    cases oneData tree path with
    | none => exact hnil
    | some data =>
      dsimp only
      split <;> decide
  | «exists» path watch =>
    simp only [oneAnswer]
    cases oneData tree path with
    | none => exact hnil
    | some data =>
      dsimp only
      decide

/-- The listing of the services path. -/
theorem oneChildren (tree : Bool) (path : Bytes) :
    GetChildrenResponse.deserialize
        (if tree = true ∧ path = onePath then writeString (writeInt32 [] 1) [97]
          else writeInt32 [] 0) =
      .ok ({ children := if tree = true ∧ path = onePath then [[97]] else [] }, []) := by
  split <;> decide

/-- The ZooKeeper. -/
def oneServer : ZkServer Bool where
  answer := oneAnswer
  fits := oneAnswer_fits
  names tree path watch herr resp p hread := by
    simp only [oneAnswer] at herr hread
    cases hdata : oneData tree path with
    | none =>
      rw [hdata] at herr
      exact absurd (show (-101 : Int32) = 0 from herr) (by decide)
    | some data =>
      rw [hdata] at hread
      obtain ⟨rfl, -⟩ := Prod.mk.inj (Except.ok.inj ((oneChildren tree path).symm.trans hread))
      dsimp only
      split <;> decide

/-- Only the node `a` below the services path has this path. -/
theorem childPath_eq_oneChild {path name : Bytes} (hname : 47 ∉ name) :
    childPath path name = oneChild ↔ path = onePath ∧ name = [97] := by
  constructor
  · intro h
    -- the last component of a path is the name of its node
    have hlast := congrArg lastComponent h
    rw [lastComponent_childPath hname, show lastComponent oneChild = [97] by decide] at hlast
    subst hlast
    exact ⟨List.append_cancel_right (show path ++ [47, 97] = onePath ++ [47, 97] from h), rfl⟩
  · rintro ⟨rfl, rfl⟩
    rfl

/-- The services path is not below another. -/
theorem childPath_ne_onePath {path name : Bytes} (hpath : path ≠ []) (hname : 47 ∉ name) :
    childPath path name ≠ onePath := by
  intro h
  have hlast := congrArg lastComponent h
  rw [lastComponent_childPath hname, show lastComponent onePath = Bytes.ofString "s" by decide]
    at hlast
  subst hlast
  have hnil : path ++ Bytes.ofString "/s" = [] ++ Bytes.ofString "/s" := h
  exact hpath (List.append_cancel_right hnil)

/-- Where there is data. -/
theorem oneData_ne_none (tree : Bool) (path : Bytes) :
    oneData tree path ≠ none ↔ path = onePath ∨ tree = true ∧ path = oneChild := by
  unfold oneData
  split
  · simp [*]
  · split <;> simp [*]

/-- Its replies keep the data. -/
theorem keepsData_oneServer : KeepsData oneServer oneData where
  effect tree op c hplain heffect := by
    unfold ZkServer.effect at heffect
    split at heffect
    · rename_i herr
      cases op with
      | create path data acls flags =>
        obtain rfl := Option.some.inj heffect
        simp only [oneServer, oneAnswer] at herr ⊢
        split at herr
        · rename_i hcond
          obtain ⟨rfl, rfl, rfl⟩ := hcond
          -- the node was not there, and now it is
          refine ⟨show oneData false oneChild = none by decide, ?_⟩
          funext q
          by_cases hq : q = oneChild
          · subst hq
            decide
          · simp [Change.apply, oneData, hq]
        · exact absurd (show (-102 : Int32) = 0 from herr) (by decide)
      | remove path version =>
        obtain rfl := Option.some.inj heffect
        simp only [oneServer, oneAnswer] at herr ⊢
        split at herr
        · rename_i hcond
          obtain ⟨rfl, rfl⟩ := hcond
          -- the node was there, and now it is not
          refine ⟨show oneData true oneChild ≠ none by decide, ?_⟩
          funext q
          by_cases hq : q = oneChild
          · subst hq
            decide
          · simp [Change.apply, oneData, hq]
        · exact absurd (show (-101 : Int32) = 0 from herr) (by decide)
      | getChildren path watch => cases heffect
      | getData path watch => cases heffect
      | «exists» path watch => cases heffect
    · cases heffect
  noEffect tree op hplain heffect := by
    unfold ZkServer.effect at heffect
    simp only [oneServer] at heffect ⊢
    cases op with
    | create path data acls flags =>
      by_cases hcond : tree = false ∧ path = oneChild ∧ data = Bytes.ofString "h:1"
      · simp only [oneAnswer, if_pos hcond] at heffect
        cases heffect
      · simp only [oneAnswer, if_neg hcond]
    | remove path version =>
      by_cases hcond : tree = true ∧ path = oneChild
      · simp only [oneAnswer, if_pos hcond] at heffect
        cases heffect
      · simp only [oneAnswer, if_neg hcond]
    | getChildren path watch | getData path watch | «exists» path watch =>
      simp only [oneAnswer]
      cases oneData tree path <;> rfl
  getData tree path watch := by
    simp only [oneServer, oneAnswer]
    cases oneData tree path with
    | none => simp
    | some data => simp
  getDataBody tree path watch hthere := by
    simp only [oneServer, oneAnswer]
    cases hdata : oneData tree path with
    | none => exact absurd hdata hthere
    | some data =>
      dsimp only
      obtain ⟨-, rfl⟩ | ⟨-, -, rfl⟩ := oneData_cases hdata
      · exact ⟨_, _, rfl, rfl⟩
      · exact ⟨_, _, rfl, rfl⟩
  getChildren tree path watch := by
    simp only [oneServer, oneAnswer]
    cases oneData tree path with
    | none => simp
    | some data => simp
  getChildrenBody tree path watch hpath hthere := by
    simp only [oneServer, oneAnswer]
    cases hdata : oneData tree path with
    | none => exact absurd hdata hthere
    | some data =>
      refine ⟨_, _, oneChildren tree path, by dsimp only; split <;> decide, fun name => ?_⟩
      dsimp only
      rw [oneData_ne_none]
      constructor
      · intro hmem
        split at hmem
        · rename_i hone
          obtain rfl := List.mem_singleton.mp hmem
          exact ⟨by decide, .inr ⟨hone.1, by rw [hone.2]; rfl⟩⟩
        · cases hmem
      -- a child of the services path is the node `a`
      · rintro ⟨hslash, hchild | ⟨htree, hchild⟩⟩
        · have hne : path ≠ [] := by
            rintro rfl
            exact hthere (by cases tree <;> decide)
          exact absurd hchild (childPath_ne_onePath hne hslash)
        · obtain ⟨hone, rfl⟩ := (childPath_eq_oneChild hslash).mp hchild
          rw [if_pos ⟨htree, hone⟩]
          exact List.mem_singleton_self _
  parent tree path name hpath hname hthere := by
    rw [oneData_ne_none] at hthere
    obtain hthere | ⟨-, hthere⟩ := hthere
    · exact absurd hthere (childPath_ne_onePath hpath hname)
    · rw [childPath_eq_oneChild hname] at hthere
      rw [oneData_ne_none]
      exact .inl hthere.1

/-- Manager `i` registers the node. -/
def registering (i : Nat) : List Act :=
  [.call i (.registerNode [97] (Bytes.ofString "h:1") 1), .answer i 1, .ret i]

/-- Two managers connect to the services path. -/
def joining : List Act :=
  [.connect 0 4000 (.replied handshakeReply), .connect 1 4000 (.replied handshakeReply),
   .setServicesPath 0 onePath, .setServicesPath 1 onePath]

/-! ## Registrations -/

/-- The operation was `register_node`, for this path, and it returned `true`. -/
def Registers (f : Ended) (path address : Bytes) : Prop :=
  ∃ name weight, f.episode.call = .registerNode name address weight ∧
    path = childPath f.episode.mgr.servicesPath name ∧ f.value = .ok (.bool true)

/-- A registration that returned `true` was answered with err = 0. -/
theorem runs_registerNode {connected : Bool} {m m' : NodeManager} {name address : Bytes}
    {weight : Int32} {t : Trace}
    (h : (NodeManager.Call.program connected m (.registerNode name address weight)).Runs t
      (m', .ok (.bool true))) :
    ∃ payload, t = [(.create (childPath m.servicesPath name) address aclOpenUnsafe 1,
      .reply 0 payload)] := by
  obtain ⟨t₁, t₂, ret, rfl, hreg, hrest⟩ := Dialogue.runs_bind h
  obtain ⟨rfl, hret⟩ := Dialogue.runs_done hrest
  obtain ⟨-, hvalue⟩ := Prod.mk.inj hret
  -- without a connection nothing is asked, and `false` is returned
  obtain ⟨-, rfl⟩ | ⟨o, rfl, rfl⟩ :=
    Op.runs_program (.registerService m.servicesPath name address) hreg
  · cases hvalue
  · rw [List.append_nil]
    cases hr : o.result CreateResponse.deserialize with
    | error fault =>
      simp only [Op.returns, hr] at hvalue
      cases hvalue
    | ok r =>
      simp only [Op.returns, hr] at hvalue
      -- `true` is returned for a result without an error only
      have hok : r.isErr = false := by
        cases herr : r.isErr with
        | false => rfl
        | true =>
          simp only [Except.map, herr] at hvalue
          cases hvalue
      obtain ⟨val, hval⟩ : ∃ val, r.ok = some val :=
        Option.isSome_iff_exists.mp (by simpa [Result.isErr, Result.isOk] using hok)
      obtain ⟨payload, p, rfl, -⟩ := result_ok hr hval
      exact ⟨payload, rfl⟩

/-- Where the journal has it. -/
theorem EndedOk.exists_put {f : Ended} (h : EndedOk server data data₀ journal author f)
    {path address : Bytes} (hreg : Registers f path address) :
    ∃ k, f.episode.began ≤ k ∧ k < f.time ∧
      journal[k]? = some { change := .put path address, author := some author } := by
  obtain ⟨name, weight, hcall, rfl, hvalue⟩ := hreg
  have hruns := h.runs
  rw [hcall, hvalue] at hruns
  obtain ⟨payload, htrace⟩ := runs_registerNode hruns
  -- its only request
  obtain ⟨sent, hsent, hone⟩ : ∃ sent, f.episode.requests = [sent] ∧
      (sent.op, sent.exchange.outcome) =
        (.create (childPath f.episode.mgr.servicesPath name) address aclOpenUnsafe 1,
          .reply 0 payload) := by
    obtain ⟨sent, rest, hreqs, hone, hrest⟩ := List.map_eq_cons_iff.mp htrace
    obtain rfl := List.map_eq_nil_iff.mp hrest
    exact ⟨sent, hreqs, hone⟩
  have hmem : sent ∈ f.episode.requests := by
    rw [hsent]
    exact List.mem_singleton_self sent
  obtain ⟨hop, hout⟩ := Prod.mk.inj hone
  -- an exchange that failed has no reply, so the request was executed
  obtain hfail | ⟨tree, zxid, -, hex, heffect⟩ := h.ok.sound sent hmem
  · cases hexchange : sent.exchange with
    | writeFailed msg | lengthFailed msg | bodyFailed frame msg =>
      rw [hexchange] at hout
      cases hout
    | replied zxid err payload' fits =>
      rw [hexchange] at hfail
      cases hfail
  · rw [hop] at hex heffect
    rw [hex] at hout
    obtain ⟨herr, -⟩ := Outcome.reply.inj hout
    have hput := heffect (.put (childPath f.episode.mgr.servicesPath name) address) (by
      unfold ZkServer.effect
      rw [if_pos herr])
    obtain ⟨hlt, -⟩ := List.getElem?_eq_some_iff.mp hput
    rw [List.length_take] at hlt
    rw [List.getElem?_take_of_lt (by omega)] at hput
    exact ⟨sent.time, h.ok.began sent hmem, by omega, hput⟩

/-- An entry of the journal is one of the changes. -/
theorem getElem?_changes {journal : List Entry} {k : Nat} {entry : Entry}
    (h : journal[k]? = some entry) : (changes journal)[k]? = some entry.change := by
  rw [changes, List.getElem?_map, h]
  rfl

/-- For any number of managers, other clients and lost replies, in any order of steps: when two
    calls of `register_node` for the same path have both returned `true`, each of them has
    created the node, and between the two creations the node was removed. -/
theorem registrations_exclusive (hdata : KeepsData server data) {tree : Tree}
    (h : Reachable (step server) (init tree) s) {i j m n : Nat} {f g : Ended}
    (hf : (s.ended i)[m]? = some f) (hg : (s.ended j)[n]? = some g) (hne : (i, m) ≠ (j, n))
    {path address address' : Bytes} (hregf : Registers f path address)
    (hregg : Registers g path address') :
    ∃ k l, s.journal[k]? = some { change := .put path address, author := some (i, m) } ∧
      s.journal[l]? = some { change := .put path address', author := some (j, n) } ∧
      f.episode.began ≤ k ∧ k < f.time ∧ g.episode.began ≤ l ∧ l < g.time ∧
      ∃ d, (k < d ∧ d < l ∨ l < d ∧ d < k) ∧
        (s.journal[d]?.map fun e => e.change) = some (.drop path) := by
  have hinv := fleetInv_of_reachable hdata h
  obtain ⟨k, hk, hk', hput⟩ := (hinv.ended i m f hf).exists_put hregf
  obtain ⟨l, hl, hl', hput'⟩ := (hinv.ended j n g hg).exists_put hregg
  refine ⟨k, l, hput, hput', hk, hk', hl, hl', ?_⟩
  simp only [← List.getElem?_map]
  -- one of them came first, as an entry of the journal has one author
  obtain hlt | heq | hgt := Nat.lt_trichotomy k l
  · obtain ⟨d, hkd, hdl, hdrop⟩ :=
      hinv.strict.exists_drop_between (getElem?_changes hput) (getElem?_changes hput') hlt
    exact ⟨d, .inl ⟨hkd, hdl⟩, hdrop⟩
  · -- an entry has one author
    rw [heq, hput'] at hput
    have hauthor := congrArg Entry.author (Option.some.inj hput)
    exact absurd (Option.some.inj hauthor).symm hne
  · obtain ⟨d, hld, hdk, hdrop⟩ :=
      hinv.strict.exists_drop_between (getElem?_changes hput') (getElem?_changes hput) hgt
    exact ⟨d, .inr ⟨hld, hdk⟩, hdrop⟩

/-- The operation registered the node. -/
def registersOne (f : Ended) : Bool :=
  f.episode.call = .registerNode [97] (Bytes.ofString "h:1") 1 ∧
    f.episode.mgr.servicesPath = onePath ∧ f.value = .ok (.bool true)

/-- Such an operation has registered the node. -/
theorem registers_of_registersOne {f : Ended} (h : registersOne f = true) :
    Registers f oneChild (Bytes.ofString "h:1") := by
  obtain ⟨hcall, hpath, hvalue⟩ := of_decide_eq_true h
  exact ⟨[97], 1, hcall, by rw [hpath]; rfl, hvalue⟩

/-- The second manager is refused, tries again after the first has removed the node, whose
    reply is lost, and is not refused. -/
theorem registrations_exclusive_contest :
    ∃ s f g, Reachable (step oneServer) (init false) s ∧
      (s.ended 0)[0]? = some f ∧ (s.ended 1)[1]? = some g ∧
      Registers f oneChild (Bytes.ofString "h:1") ∧ Registers g oneChild (Bytes.ofString "h:1") ∧
      ∃ d : Nat, (s.journal[d]?.map fun e => e.change) = some (.drop oneChild) := by
  obtain ⟨s, hs, f, hf, g, hg, hregf, hregg⟩ : ∃ s, Reachable (step oneServer) (init false) s ∧
      ∃ f ∈ (s.ended 0)[0]?, ∃ g ∈ (s.ended 1)[1]?,
        registersOne f = true ∧ registersOne g = true :=
    exists_reachable_of_run (joining ++ registering 0 ++ registering 1 ++
      [.call 0 (.unregisterNode [97]), .lose 0 (.lengthFailed []), .ret 0] ++ registering 1)
      (by decide)
  obtain ⟨k, l, -, -, -, -, -, -, d, -, hd⟩ :=
    registrations_exclusive keepsData_oneServer hs hf hg (by decide)
      (registers_of_registersOne hregf) (registers_of_registersOne hregg)
  exact ⟨s, f, g, hs, hf, hg, registers_of_registersOne hregf, registers_of_registersOne hregg, d,
    hd⟩

/-! ## Refreshes -/

/-- What the read of a node returns: the data it had at that time, or nothing. -/
theorem Sound.getData (hdata : KeepsData server data) {sent : Sent} {path : Bytes}
    (h : Sound server data data₀ journal author sent) (hanswered : sent.exchange.isFailure = false)
    (hop : sent.op = .getData path false) :
    ∃ r, sent.exchange.outcome.result GetDataResponse.deserialize = .ok r ∧
      (serviceOf path r).address = (dataAt data₀ journal sent.time path).getD [] := by
  obtain hfail | ⟨tree, zxid, htree, hex, -⟩ := h
  · rw [hfail] at hanswered
    cases hanswered
  · rw [hop] at hex
    rw [hex, ← htree]
    show ∃ r, (Outcome.reply _ _).result _ = _ ∧ _
    by_cases hthere : data tree path = none
    -- the node is gone, so the read returns an error, and the address is empty
    · have herr : (server.answer tree (.getData path false)).2.1 ≠ 0 :=
        fun herr => (hdata.getData tree path false).mp herr hthere
      refine ⟨_, if_pos herr, ?_⟩
      rw [hthere]
      rfl
    · obtain ⟨resp, p, hread, hsome⟩ := hdata.getDataBody tree path false hthere
      refine ⟨.makeOk resp, ?_, ?_⟩
      · rw [Outcome.result, if_neg (not_not_intro ((hdata.getData tree path false).mpr hthere)),
          hread]
        rfl
      · rw [hsome]
        rfl

/-- A vector of strings has as many as were read. -/
theorem length_readStrings {n : Nat} {b p : Bytes} {ss : List Bytes}
    (h : readStrings n b = .ok (ss, p)) : ss.length = n := by
  induction n generalizing b p ss with
  | zero =>
    obtain ⟨rfl, -⟩ := Prod.mk.inj (Except.ok.inj h)
    rfl
  | succ n ih =>
    obtain ⟨⟨first, p₁⟩, -, hrest⟩ := Codec.bind_eq_ok h
    obtain ⟨⟨rest, p₂⟩, hloop, hdone⟩ := Codec.bind_eq_ok hrest
    obtain ⟨rfl, -⟩ := Prod.mk.inj (Except.ok.inj hdone)
    rw [List.length_cons, ih hloop]

/-- A listing has fewer names than there are positive `int32_t`. -/
theorem length_children_lt {b p : Bytes} {resp : GetChildrenResponse}
    (h : GetChildrenResponse.deserialize b = .ok (resp, p)) : resp.children.length < 2 ^ 31 := by
  obtain ⟨⟨count, p₁⟩, -, hrest⟩ := Codec.bind_eq_ok h
  obtain ⟨⟨children, p₂⟩, hloop, hdone⟩ := Codec.bind_eq_ok hrest
  obtain ⟨rfl, -⟩ := Prod.mk.inj (Except.ok.inj hdone)
  have hcount := count.toInt_lt
  rw [length_readStrings hloop]
  omega

/-- What a listing returns: the children at that time. -/
theorem Sound.getChildren (hdata : KeepsData server data) {sent : Sent} {path : Bytes}
    (hpath : path ≠ [] ∧ path ≠ [47]) (h : Sound server data data₀ journal author sent)
    (hanswered : sent.exchange.isFailure = false) (hop : sent.op = .getChildren path false) :
    ∃ r, sent.exchange.outcome.result GetChildrenResponse.deserialize = .ok r ∧
      (childrenOf r).Nodup ∧ (childrenOf r).length < 2 ^ 31 ∧ ∀ name, name ∈ childrenOf r ↔
        47 ∉ name ∧ dataAt data₀ journal sent.time (childPath path name) ≠ none := by
  obtain hfail | ⟨tree, zxid, htree, hex, -⟩ := h
  · rw [hfail] at hanswered
    cases hanswered
  · rw [hop] at hex
    rw [hex, ← htree]
    show ∃ r, (Outcome.reply _ _).result _ = _ ∧ _
    by_cases hthere : data tree path = none
    · -- a node that does not exist has no children
      have herr : (server.answer tree (.getChildren path false)).2.1 ≠ 0 :=
        fun herr => (hdata.getChildren tree path false).mp herr hthere
      refine ⟨_, if_pos herr, .nil, (show 0 < 2 ^ 31 by decide), fun name => ?_⟩
      constructor
      · intro hmem
        cases hmem
      · intro hchild
        exact absurd hthere (hdata.parent tree path name hpath.1 hchild.1 hchild.2)
    · obtain ⟨resp, p, hread, hnodup, hmem⟩ :=
        hdata.getChildrenBody tree path false hpath.2 hthere
      refine ⟨.makeOk resp, ?_, hnodup, length_children_lt hread, hmem⟩
      rw [Outcome.result, if_neg (not_not_intro ((hdata.getChildren tree path false).mpr hthere)),
        hread]
      rfl

/-- The requests are those of an operation none of whose exchanges has failed. -/
structure Answered (server : ZkServer Tree) (data : Tree → Bytes → Option Bytes)
    (data₀ : Bytes → Option Bytes) (journal : List Entry) (author : Nat × Nat)
    (requests : List Sent) : Prop where
  sound : ∀ sent ∈ requests, Sound server data data₀ journal author sent
  answered : ∀ sent ∈ requests, sent.exchange.isFailure = false

/-- The first requests of an operation that was answered. -/
theorem Answered.left {requests rest : List Sent}
    (h : Answered server data data₀ journal author (requests ++ rest)) :
    Answered server data data₀ journal author requests :=
  ⟨fun sent hs => h.sound sent (List.mem_append_left rest hs),
    fun sent hs => h.answered sent (List.mem_append_left rest hs)⟩

/-- The other requests of an operation that was answered. -/
theorem Answered.right {requests rest : List Sent}
    (h : Answered server data data₀ journal author (requests ++ rest)) :
    Answered server data data₀ journal author rest :=
  ⟨fun sent hs => h.sound sent (List.mem_append_right requests hs),
    fun sent hs => h.answered sent (List.mem_append_right requests hs)⟩

/-- What a program has seen of some requests. -/
def seenOf (requests : List Sent) : Trace :=
  requests.map fun sent => (sent.op, sent.exchange.outcome)

/-- A run of one request. -/
theorem exists_sent {α : Type} {op : Operation} {g : Outcome → α} {requests : List Sent} {a : α}
    (h : (Dialogue.ask op fun o => .done (g o)).Runs (seenOf requests) a) :
    ∃ sent, requests = [sent] ∧ sent.op = op ∧ a = g sent.exchange.outcome := by
  obtain ⟨o, hseen, rfl⟩ := runs_ask_done h
  obtain ⟨sent, rest, rfl, hone, hrest⟩ := List.map_eq_cons_iff.mp hseen
  obtain rfl := List.map_eq_nil_iff.mp hrest
  obtain ⟨hop, rfl⟩ := Prod.mk.inj hone
  exact ⟨sent, rfl, hop, rfl⟩

/-- The loop of `list_services`, by induction on the names: each address was read in one of
    the requests. -/
theorem runs_getServices_sound (hdata : KeepsData server data) {path : Bytes}
    {names : List Bytes} (hnames : ∀ name ∈ names, 47 ∉ name) {requests : List Sent}
    (hreqs : Answered server data data₀ journal author requests)
    {ret : Except Fault (List ServiceInstance)}
    (h : (getServices true path names).run.Runs (seenOf requests) ret) :
    ∃ services, ret = .ok services ∧ services.map (fun si => si.name) = names ∧
      ∀ si ∈ services, ∃ sent ∈ requests,
        si.address = (dataAt data₀ journal sent.time (childPath path si.name)).getD [] := by
  induction names generalizing requests ret with
  | nil =>
    obtain ⟨-, rfl⟩ := Dialogue.runs_done h
    exact ⟨[], rfl, rfl, nofun⟩
  | cons name names ih =>
    have hname := hnames name List.mem_cons_self
    -- the read of the first child
    have hfirst {requests : List Sent} {ret : Except Fault ServiceInstance}
        (hreqs : Answered server data data₀ journal author requests)
        (h : (getService true (childPath path name)).run.Runs (seenOf requests) ret) :
        ∃ si, ret = .ok si ∧ si.name = name ∧ ∃ sent ∈ requests,
          si.address = (dataAt data₀ journal sent.time (childPath path si.name)).getD [] := by
      rw [run_getService] at h
      obtain ⟨sent, rfl, hop, rfl⟩ := exists_sent h
      have hmem : sent ∈ [sent] := List.mem_singleton_self sent
      obtain ⟨r, hr, haddr⟩ :=
        (hreqs.sound sent hmem).getData hdata (hreqs.answered sent hmem) hop
      have hsi : (serviceOf (childPath path name) r).name = name := by
        unfold serviceOf
        cases r.ok <;> exact lastComponent_childPath hname
      rw [hr]
      exact ⟨_, rfl, hsi, sent, hmem, by rw [haddr, hsi]⟩
    -- an answered read throws nothing
    obtain ⟨e, herr, rfl⟩ | ⟨t₁, t₂, si, hseen, hsi, hrest⟩ := Dialogue.runs_bind_except h
    · obtain ⟨si, hret, -⟩ := hfirst hreqs herr
      cases hret
    obtain ⟨reqs₁, reqs₂, rfl, rfl, rfl⟩ := List.map_eq_append_iff.mp hseen
    obtain ⟨si', hret, hname', sent, hsent, haddr⟩ := hfirst hreqs.left hsi
    obtain rfl := Except.ok.inj hret
    -- the reads of the other children
    have hothers {requests : List Sent} {ret : Except Fault (List ServiceInstance)}
        (hreqs : Answered server data data₀ journal author requests)
        (h : (getServices true path names).run.Runs (seenOf requests) ret) :=
      ih (fun n hn => hnames n (List.mem_cons_of_mem name hn)) hreqs h
    obtain ⟨e, herr, rfl⟩ | ⟨t₃, t₄, rest, hseen', hloop, hdone⟩ :=
      Dialogue.runs_bind_except hrest
    · obtain ⟨services, hret, -⟩ := hothers hreqs.right herr
      cases hret
    obtain ⟨reqs₃, reqs₄, rfl, rfl, rfl⟩ := List.map_eq_append_iff.mp hseen'
    obtain ⟨services, hret', hmap, hreads⟩ := hothers hreqs.right.left hloop
    obtain rfl := Except.ok.inj hret'
    obtain ⟨-, rfl⟩ := Dialogue.runs_done hdone
    -- the first service, then those of the other children
    refine ⟨si :: rest, rfl, by rw [List.map_cons, hname', hmap], ?_⟩
    intro si' hmem
    obtain rfl | hmem := List.mem_cons.mp hmem
    · exact ⟨sent, List.mem_append_left _ hsent, haddr⟩
    · obtain ⟨sent', hsent', haddr'⟩ := hreads si' hmem
      exact ⟨sent', List.mem_append_right _ (List.mem_append_left _ hsent'), haddr'⟩

/-- What a refresh between two times may find below a path, when `D t path` is the data of the
    node `path` at time `t`. -/
structure Regular (D : Nat → Bytes → Option Bytes) (path : Bytes) (began ended : Nat)
    (nodes : List Endpoint) : Prop where
  nodup : (nodes.map fun ep => ep.name).Nodup
  /-- the count of a listing is an `int32_t` -/
  bounded : nodes.length < 2 ^ 31
  /-- a service that is registered all the time is found, with an address it had -/
  complete : ∀ name, 47 ∉ name →
    (∀ t, began ≤ t → t ≤ ended → D t (childPath path name) ≠ none) →
    ∃ ep ∈ nodes, ep.name = name ∧
      ∃ t, began ≤ t ∧ t ≤ ended ∧ D t (childPath path name) = some ep.address
  /-- what is found was registered when it was listed, and its address is the one it had later,
      or empty if it was gone by then -/
  sound : ∀ ep ∈ nodes, 47 ∉ ep.name ∧ ep.weight = 1 ∧ ∃ t t', began ≤ t ∧ t ≤ t' ∧ t' ≤ ended ∧
    D t (childPath path ep.name) ≠ none ∧
      ep.address = (D t' (childPath path ep.name)).getD []

/-- The requests follow one another between two times. -/
structure Within (began ended : Nat) (requests : List Sent) : Prop where
  began : ∀ sent ∈ requests, began ≤ sent.time
  ended : ∀ sent ∈ requests, sent.time ≤ ended
  ordered : (requests.map fun sent => sent.time).Pairwise (· ≤ ·)

/-- The first requests of an operation. -/
theorem Within.left {began ended : Nat} {requests rest : List Sent}
    (h : Within began ended (requests ++ rest)) : Within began ended requests := by
  have hordered := h.ordered
  rw [List.map_append, List.pairwise_append] at hordered
  exact ⟨fun sent hs => h.began sent (List.mem_append_left _ hs),
    fun sent hs => h.ended sent (List.mem_append_left _ hs), hordered.1⟩

/-- A listing and the reads after it find what is registered. -/
theorem runs_listServices_regular (hdata : KeepsData server data) {path : Bytes}
    (hpath : path ≠ [] ∧ path ≠ [47]) {began ended : Nat} {requests : List Sent}
    (hreqs : Answered server data data₀ journal author requests)
    (hwithin : Within began ended requests) {ret : Except Fault (List ServiceInstance)}
    (h : (listServices true path).run.Runs (seenOf requests) ret) :
    ∃ services, ret = .ok services ∧
      Regular (dataAt data₀ journal) path began ended (services.map NodeManager.endpointOf) := by
  -- the listing is one request, and has the names of that moment
  have hlisting {requests : List Sent} {ret : Except Fault (List Bytes)}
      (hreqs : Answered server data data₀ journal author requests)
      (h : (getChildren true path).run.Runs (seenOf requests) ret) :
      ∃ sent names, requests = [sent] ∧ ret = .ok names ∧ names.Nodup ∧ names.length < 2 ^ 31 ∧
        ∀ name, name ∈ names ↔
          47 ∉ name ∧ dataAt data₀ journal sent.time (childPath path name) ≠ none := by
    rw [run_getChildren] at h
    obtain ⟨sent, rfl, hop, rfl⟩ := exists_sent h
    have hmem : sent ∈ [sent] := List.mem_singleton_self sent
    obtain ⟨r, hr, hnodup, hlen, hnames⟩ :=
      (hreqs.sound sent hmem).getChildren hdata hpath (hreqs.answered sent hmem) hop
    rw [hr]
    exact ⟨sent, _, rfl, rfl, hnodup, hlen, hnames⟩
  obtain ⟨e, herr, rfl⟩ | ⟨t₁, t₂, names, hseen, hchildren, hloop⟩ := Dialogue.runs_bind_except h
  · obtain ⟨sent, names, -, hret, -⟩ := hlisting hreqs herr
    cases hret
  obtain ⟨reqs₁, reqs, rfl, rfl, rfl⟩ := List.map_eq_append_iff.mp hseen
  obtain ⟨listing, names', rfl, hret, hnodup, hlen, hnames⟩ := hlisting hreqs.left hchildren
  obtain rfl := Except.ok.inj hret
  obtain ⟨services, rfl, hmap, hreads⟩ :=
    runs_getServices_sound hdata (fun name hn => ((hnames name).mp hn).1) hreqs.right hloop
  -- the reads come after the listing
  have hlist := List.mem_append_left reqs (List.mem_singleton_self listing)
  have hafter : ∀ sent ∈ reqs, listing.time ≤ sent.time := by
    intro sent hsent
    have hordered := hwithin.ordered
    rw [List.map_append, List.pairwise_append] at hordered
    exact hordered.2.2 _ (List.mem_singleton_self _) _ (List.mem_map_of_mem hsent)
  have hname : (services.map NodeManager.endpointOf).map (fun ep => ep.name) = names := by
    rw [List.map_map, ← hmap]
    rfl
  refine ⟨services, rfl, by rw [hname]; exact hnodup, ?_, ?_, ?_⟩
  · rw [List.length_map, ← List.length_map (fun si => si.name), hmap]
    exact hlen
  -- what is there all the time is listed, and still there when it is read
  · intro name hslash hthere
    have hlisted : name ∈ names :=
      (hnames name).mpr ⟨hslash, hthere _ (hwithin.began _ hlist) (hwithin.ended _ hlist)⟩
    rw [← hmap] at hlisted
    obtain ⟨si, hsi, rfl⟩ := List.mem_map.mp hlisted
    obtain ⟨sent, hsent, haddr⟩ := hreads si hsi
    have hmem := List.mem_append_right [listing] hsent
    refine ⟨_, List.mem_map_of_mem hsi, rfl, sent.time, hwithin.began sent hmem,
      hwithin.ended sent hmem, ?_⟩
    obtain ⟨address, hsome⟩ := Option.ne_none_iff_exists'.mp
      (hthere sent.time (hwithin.began sent hmem) (hwithin.ended sent hmem))
    rw [hsome, Option.getD_some] at haddr
    rw [hsome, ← haddr]
    rfl
  -- what is found was listed, and read later
  · intro ep hep
    obtain ⟨si, hsi, rfl⟩ := List.mem_map.mp hep
    have hlisted : si.name ∈ names := by
      rw [← hmap]
      exact List.mem_map_of_mem hsi
    obtain ⟨hslash, hthere⟩ := (hnames si.name).mp hlisted
    obtain ⟨sent, hsent, haddr⟩ := hreads si hsi
    exact ⟨hslash, rfl, listing.time, sent.time, hwithin.began _ hlist, hafter sent hsent,
      hwithin.ended _ (List.mem_append_right [listing] hsent), hthere, haddr⟩

/-- A refresh takes over what its listing has found. -/
theorem runs_refreshNodes_regular (hdata : KeepsData server data) {m m' : NodeManager}
    (hpath : m.servicesPath ≠ [] ∧ m.servicesPath ≠ [47]) {began ended : Nat}
    {requests : List Sent} (hreqs : Answered server data data₀ journal author requests)
    (hwithin : Within began ended requests) {value : Except Fault NodeManager.Value}
    (h : (NodeManager.refreshNodes true m).Runs (seenOf requests) (m', value)) :
    Regular (dataAt data₀ journal) m.servicesPath began ended m'.nodes ∧
      m' = { m with nodes := m'.nodes, balancer := m.balancer.setNodes m'.nodes } ∧
      value = .ok (.endpoints m'.nodes) := by
  obtain ⟨t₁, t₂, ret, hseen, hlist, hrest⟩ := Dialogue.runs_bind h
  obtain ⟨reqs₁, reqs₂, rfl, rfl, rfl⟩ := List.map_eq_append_iff.mp hseen
  obtain ⟨services, rfl, hregular⟩ :=
    runs_listServices_regular hdata hpath hreqs.left hwithin.left hlist
  obtain ⟨-, hret⟩ := Dialogue.runs_done hrest
  obtain ⟨rfl, rfl⟩ := Prod.mk.inj hret
  exact ⟨hregular, rfl, rfl⟩

/-- The requests of an operation lie between its beginning and its end. -/
theorem EndedOk.within {f : Ended} (h : EndedOk server data data₀ journal author f) :
    Within f.episode.began f.time f.episode.requests :=
  ⟨h.ok.began, h.past, h.ok.ordered⟩

/-- The operation is a refresh by a connected manager of a path that has children, and no
    exchange of it has failed. -/
structure Refreshes (f : Ended) : Prop where
  refreshes : f.episode.call.refreshes f.episode.mgr = true
  connected : f.episode.connected = true
  path : f.episode.mgr.servicesPath ≠ [] ∧ f.episode.mgr.servicesPath ≠ [47]
  answered : ∀ sent ∈ f.episode.requests, sent.exchange.isFailure = false

/-- The strategy that a manager creates again at every refresh is the round robin. -/
def GoesRobin (m : NodeManager) : Prop :=
  (createStrategy m.balancer.strategyName : Strategy Empty) = .roundRobin 0

/-- The round robin starts again at the first node. -/
theorem GoesRobin.setNodes {m : NodeManager} (h : GoesRobin m) (nodes : List Endpoint) :
    m.balancer.setNodes nodes = { strategy := .roundRobin 0, nodes } := by
  show ({ strategy := createStrategy m.balancer.strategyName, nodes } : LoadBalancer Empty) = _
  rw [show createStrategy _ = _ from h]

/-- A selection is the balancer's. -/
theorem select_eq (m : NodeManager) (roll : Nat) :
    m.select roll = ({ m with balancer := (m.balancer.select roll).2 },
      (m.balancer.select roll).1.map NodeManager.Value.endpoint) := by
  unfold NodeManager.select
  generalize m.balancer.select roll = p
  obtain ⟨r, balancer⟩ := p
  cases r <;> rfl

/-- The selections that an operation makes itself. -/
def selected : NodeManager.Call → Nat
  | .selectNode _ => 1
  | .refreshNodes | .initZkPaths .. | .registerNode .. | .unregisterNode .. | .nodeExists ..
  | .listNodeNames | .getNodeData .. => 0

/-- What a refresh leaves in the manager: the nodes that it found, in the balancer too, and the
    round robin, if it is that, where the selection of `select_node` has brought it. -/
theorem EndedOk.refreshed (hdata : KeepsData server data) {f : Ended}
    (h : EndedOk server data data₀ journal author f) (hrefresh : Refreshes f) :
    Regular (dataAt data₀ journal) f.episode.mgr.servicesPath f.episode.began f.time
        f.mgr.nodes ∧
      f.mgr.balancer.nodes = f.mgr.nodes ∧
      (GoesRobin f.episode.mgr → f.mgr.nodes ≠ [] → ∃ c : UInt64,
        c.toNat = selected f.episode.call ∧ f.mgr.balancer.strategy = .roundRobin c) := by
  have hreqs : Answered server data data₀ journal author f.episode.requests :=
    ⟨h.episodeOk.sound, hrefresh.answered⟩
  have hruns := h.runs
  have hrefreshes := hrefresh.refreshes
  rw [hrefresh.connected] at hruns
  generalize f.episode.call = c at hruns hrefreshes
  cases c with
  | refreshNodes =>
    obtain ⟨hregular, hmgr, -⟩ :=
      runs_refreshNodes_regular hdata hrefresh.path hreqs h.within hruns
    refine ⟨hregular, ?_, fun hrobin _ => ⟨0, rfl, ?_⟩⟩
    · rw [hmgr]
      rfl
    -- the round robin begins at the first node
    · rw [hmgr, hrobin.setNodes]
  | selectNode roll =>
    have hempty : f.episode.mgr.nodes = [] := of_decide_eq_true hrefreshes
    simp only [NodeManager.Call.program, NodeManager.selectNode, hempty, if_true] at hruns
    obtain ⟨t₁, t₂, ⟨m₁, value⟩, hseen, hfirst, hrest⟩ := Dialogue.runs_bind hruns
    obtain ⟨reqs₁, reqs₂, hsplit, rfl, rfl⟩ := List.map_eq_append_iff.mp hseen
    have hwithin := h.within
    rw [hsplit] at hreqs hwithin
    obtain ⟨hregular, hmgr, rfl⟩ :=
      runs_refreshNodes_regular hdata hrefresh.path hreqs.left hwithin.left hfirst
    -- the selection keeps the nodes, and counts
    obtain ⟨-, hsel⟩ := Dialogue.runs_done hrest
    obtain ⟨hnodes, hbalancer, -⟩ := NodeManager.select_spec hsel
    rw [hnodes, hbalancer]
    refine ⟨hregular, ?_, fun hrobin hne => ⟨1, rfl, ?_⟩⟩
    · rw [hmgr]
      rfl
    · rw [select_eq] at hsel
      obtain ⟨hafter, -⟩ := Prod.mk.inj hsel
      -- between the refresh and the selection the counter is 0
      have hbefore : m₁.balancer = { strategy := .roundRobin 0, nodes := m₁.nodes } := by
        rw [hmgr, hrobin.setNodes]
      rw [← hafter, hbefore]
      simp [LoadBalancer.select, Strategy.select, hne]
  | initZkPaths | registerNode | unregisterNode | nodeExists | listNodeNames | getNodeData =>
    cases hrefreshes

end Fleet

end Rpc
