import Rpc.Native.NodeManager
import Rpc.Spec.BalancerNames
import Rpc.Spec.RegistryCorrect

/-!
# Where the addresses come from

A refresh is one listing and one read for each child, and between them other clients create
and delete nodes.  When a read fails, `get_service` returns an instance without an address,
`list_services` does not look, and the balancer gets an endpoint with the empty address
(`vanished_selected`).  When every read of the refreshes is answered with err = 0
(`ReadsAnswered`), the address of every endpoint was read (`addresses_read`).
-/

namespace Rpc

open Transition Zk

/-! ## Listing the services -/

namespace ServiceRegistry

/-- The name of a child is what stands after the last `/` of its path. -/
theorem lastComponent_childPath {servicesPath name : Bytes} (h : 47 ∉ name) :
    lastComponent (childPath servicesPath name) = name := by
  have hall : ∀ b ∈ name.reverse, decide (b ≠ 47) = true := by
    intro b hb
    simp only [List.mem_reverse] at hb
    simp only [decide_eq_true_eq]
    rintro rfl
    exact h hb
  unfold lastComponent childPath
  rw [List.reverse_append, List.reverse_cons, List.append_assoc,
    List.takeWhile_append_of_pos hall]
  simp

/-- A request of a run and how its promise was satisfied. -/
abbrev Trace := List (Operation × Outcome)

/-- Every read of a node is answered with err = 0. -/
def Answered (t : Trace) : Prop :=
  ∀ path watch o, (.getData path watch, o) ∈ t → ∃ payload, o = .reply 0 payload

/-- No name in a listing contains a `/`. -/
def Slashless (t : Trace) : Prop :=
  ∀ path watch payload resp p, (.getChildren path watch, .reply 0 payload) ∈ t →
    GetChildrenResponse.deserialize payload = .ok (resp, p) → ∀ name ∈ resp.children, 47 ∉ name

/-- The address of this node was read. -/
def ReadIn (t : Trace) (servicesPath name address : Bytes) : Prop :=
  ∃ payload resp p, (.getData (childPath servicesPath name) false, .reply 0 payload) ∈ t ∧
    GetDataResponse.deserialize payload = .ok (resp, p) ∧ address = resp.data

/-- A read stays in a longer trace. -/
theorem ReadIn.mono {t t' : Trace} {servicesPath name address : Bytes}
    (h : ReadIn t servicesPath name address) (hsub : t ⊆ t') :
    ReadIn t' servicesPath name address := by
  obtain ⟨payload, resp, p, hmem, hread⟩ := h
  exact ⟨payload, resp, p, hsub hmem, hread⟩

/-- The result of a reply with err = 0 is the body of the reply. -/
theorem result_reply_zero {α : Type} {deserialize : Bytes → Except Fault (α × Bytes)}
    {payload : Bytes} {r : Result α} (h : (Outcome.reply 0 payload).result deserialize = .ok r) :
    ∃ val p, deserialize payload = .ok (val, p) ∧ r = .makeOk val := by
  cases hread : deserialize payload with
  | error fault =>
    simp only [Outcome.result, hread] at h
    cases h
  | ok resp =>
    simp only [Outcome.result, hread] at h
    exact ⟨resp.1, resp.2, rfl, (Except.ok.inj h).symm⟩

/-- A result with a value comes from a reply with err = 0. -/
theorem result_ok {α : Type} {deserialize : Bytes → Except Fault (α × Bytes)} {o : Outcome}
    {r : Result α} {val : α} (h : o.result deserialize = .ok r) (hval : r.ok = some val) :
    ∃ payload p, o = .reply 0 payload ∧ deserialize payload = .ok (val, p) := by
  cases o with
  | rejected msg =>
    obtain rfl := Except.ok.inj h
    cases hval
  | reply err payload =>
    by_cases herr : err = 0
    · subst herr
      obtain ⟨val', p, hread, rfl⟩ := result_reply_zero h
      obtain rfl := Option.some.inj hval
      exact ⟨payload, p, rfl, hread⟩
    · simp only [Outcome.result, ne_eq, herr, not_false_eq_true, if_true] at h
      obtain rfl := Except.ok.inj h
      cases hval

/-- A run of one request. -/
theorem runs_ask_done {α : Type} {op : Operation} {g : Outcome → α} {t : Trace} {a : α}
    (h : (Dialogue.ask op fun o => .done (g o)).Runs t a) : ∃ o, t = [(op, o)] ∧ a = g o := by
  cases h with
  | ask h =>
    rename_i o t
    obtain ⟨rfl, rfl⟩ := Dialogue.runs_done h
    exact ⟨o, rfl, rfl⟩

/-- What `get_service` makes of its result. -/
def serviceOf (nodePath : Bytes) (r : Result GetDataResponse) : ServiceInstance :=
  match r.ok with
  | some resp =>
    { name := lastComponent nodePath, address := resp.data, ctime := resp.stat.ctime,
      mtime := resp.stat.mtime, version := resp.stat.version, dataLength := resp.stat.dataLength }
  | none =>
    { name := lastComponent nodePath, address := [], ctime := 0, mtime := 0, version := 0,
      dataLength := 0 }

/-- `get_service` is one read, and takes its result. -/
theorem run_getService (nodePath : Bytes) :
    (getService true nodePath).run = .ask (.getData nodePath false) fun o =>
      .done ((o.result GetDataResponse.deserialize).map (serviceOf nodePath)) := by
  refine run_request (serviceOf nodePath) fun r => ?_
  unfold serviceOf
  cases r.ok <;> rfl

/-- What `get_service` returns for a child whose read is answered. -/
theorem runs_getService {servicesPath name : Bytes} (hname : 47 ∉ name) {t : Trace}
    {si : ServiceInstance} (hanswered : Answered t)
    (h : (getService true (childPath servicesPath name)).run.Runs t (.ok si)) :
    ReadIn t servicesPath si.name si.address := by
  rw [run_getService] at h
  obtain ⟨o, rfl, hret⟩ := runs_ask_done h
  -- the read is answered with err = 0, so the data are those of its reply
  obtain ⟨payload, rfl⟩ := hanswered _ _ o (List.mem_singleton.mpr rfl)
  cases hr : (Outcome.reply 0 payload).result GetDataResponse.deserialize with
  | error fault =>
    rw [hr] at hret
    cases hret
  | ok r =>
    rw [hr] at hret
    obtain ⟨resp, p, hread, rfl⟩ := result_reply_zero hr
    obtain rfl := Except.ok.inj hret
    have hsi : (serviceOf (childPath servicesPath name) (.makeOk resp)).name = name :=
      lastComponent_childPath hname
    refine ⟨payload, resp, p, ?_, hread, rfl⟩
    rw [hsi]
    exact List.mem_singleton.mpr rfl

/-- The first part of an answered trace. -/
theorem Answered.left {t₁ t₂ : Trace} (h : Answered (t₁ ++ t₂)) : Answered t₁ :=
  fun path watch o hmem => h path watch o (List.mem_append_left t₂ hmem)

/-- The second part of an answered trace. -/
theorem Answered.right {t₁ t₂ : Trace} (h : Answered (t₁ ++ t₂)) : Answered t₂ :=
  fun path watch o hmem => h path watch o (List.mem_append_right t₁ hmem)

/-- The loop of `list_services`, by induction on the names. -/
theorem runs_getServices {servicesPath : Bytes} {names : List Bytes}
    (hnames : ∀ name ∈ names, 47 ∉ name) {t : Trace} {services : List ServiceInstance}
    (hanswered : Answered t)
    (h : (getServices true servicesPath names).run.Runs t (.ok services)) :
    ∀ si ∈ services, ReadIn t servicesPath si.name si.address := by
  induction names generalizing t services with
  | nil =>
    obtain ⟨-, hret⟩ := Dialogue.runs_done h
    obtain rfl := Except.ok.inj hret
    exact nofun
  | cons name names ih =>
    -- the loop returns, so neither the first read nor the others throw
    obtain ⟨e, -, hret⟩ | ⟨t₁, t₂, si, rfl, hsi, hrest⟩ := Dialogue.runs_bind_except h
    · cases hret
    obtain ⟨e, -, hret⟩ | ⟨t₃, t₄, rest, rfl, hloop, hdone⟩ := Dialogue.runs_bind_except hrest
    · cases hret
    obtain ⟨rfl, hret⟩ := Dialogue.runs_done hdone
    obtain rfl := Except.ok.inj hret
    rw [List.append_nil] at hanswered ⊢
    have hfirst := runs_getService (hnames name List.mem_cons_self) hanswered.left hsi
    have hothers := ih (fun n hn => hnames n (List.mem_cons_of_mem name hn)) hanswered.right hloop
    intro si' hmem
    obtain rfl | hmem := List.mem_cons.mp hmem
    · exact hfirst.mono (List.subset_append_left t₁ t₃)
    · exact (hothers si' hmem).mono (List.subset_append_right t₁ t₃)

/-- What `get_children` makes of its result. -/
def childrenOf (r : Result GetChildrenResponse) : List Bytes :=
  match r.ok with
  | some resp => resp.children
  | none => []

/-- `get_children` is one listing, and takes its result. -/
theorem run_getChildren (path : Bytes) :
    (getChildren true path).run = .ask (.getChildren path false) fun o =>
      .done ((o.result GetChildrenResponse.deserialize).map childrenOf) := by
  refine run_request childrenOf fun r => ?_
  unfold childrenOf
  cases r.ok <;> rfl

/-- The names `get_children` returns are those of a reply. -/
theorem runs_getChildren {path : Bytes} {t : Trace} {names : List Bytes} (hslash : Slashless t)
    (h : (getChildren true path).run.Runs t (.ok names)) : ∀ name ∈ names, 47 ∉ name := by
  rw [run_getChildren] at h
  obtain ⟨o, rfl, hret⟩ := runs_ask_done h
  cases hr : o.result GetChildrenResponse.deserialize with
  | error fault =>
    rw [hr] at hret
    cases hret
  | ok r =>
    rw [hr] at hret
    obtain rfl := Except.ok.inj hret
    -- no list without a reply that has one
    cases hok : r.ok with
    | none =>
      rw [childrenOf, hok]
      exact nofun
    | some resp =>
      obtain ⟨payload, p, rfl, hread⟩ := result_ok hr hok
      rw [childrenOf, hok]
      exact hslash path false payload resp p (List.mem_singleton.mpr rfl) hread

/-- The address of every service that is listed was read. -/
theorem runs_listServices {connected : Bool} {servicesPath : Bytes} {t : Trace}
    {services : List ServiceInstance} (hslash : Slashless t) (hanswered : Answered t)
    (h : (listServices connected servicesPath).run.Runs t (.ok services)) :
    ∀ si ∈ services, ReadIn t servicesPath si.name si.address := by
  obtain ⟨e, -, hret⟩ | ⟨t₁, t₂, names, rfl, hchildren, hloop⟩ := Dialogue.runs_bind_except h
  · cases hret
  cases connected with
  | false =>
    -- nothing is listed
    obtain ⟨rfl, hret⟩ := Dialogue.runs_done hchildren
    obtain rfl := Except.ok.inj hret
    obtain ⟨-, hret⟩ := Dialogue.runs_done hloop
    obtain rfl := Except.ok.inj hret
    exact nofun
  | true =>
    -- the names are those of the listing, which contain no `/`
    have hslash₁ : Slashless t₁ := fun path watch payload resp p hmem =>
      hslash path watch payload resp p (List.mem_append_left t₂ hmem)
    have hnames := runs_getChildren hslash₁ hchildren
    intro si hsi
    exact (runs_getServices hnames hanswered.right hloop si hsi).mono
      (List.subset_append_right t₁ t₂)

end ServiceRegistry

/-! ## The operations of the manager -/

namespace NodeManager

open ServiceRegistry

/-- The balancer has the nodes of the manager. -/
def Balanced (m : NodeManager) : Prop := m.nodes ≠ [] → m.balancer.nodes = m.nodes

/-- `refresh_nodes`, whether it returns or throws. -/
theorem runs_refreshNodes {connected : Bool} {m m' : NodeManager} {t : Trace}
    {value : Except Fault Value} (h : (refreshNodes connected m).Runs t (m', value)) :
    (Slashless t → Answered t → ∀ ep ∈ m'.nodes, ReadIn t m.servicesPath ep.name ep.address) ∧
    m'.Balanced ∧
      ∀ v, value = .ok v → m'.balancer.nodes = m'.nodes ∧ v = .endpoints m'.nodes := by
  obtain ⟨t₁, t₂, ret, rfl, hlist, hrest⟩ := Dialogue.runs_bind h
  cases ret with
  | error fault =>
    obtain ⟨rfl, hret⟩ := Dialogue.runs_done hrest
    obtain ⟨rfl, rfl⟩ := Prod.mk.inj hret
    exact ⟨fun _ _ => nofun, fun hne => absurd rfl hne, nofun⟩
  | ok services =>
    obtain ⟨rfl, hret⟩ := Dialogue.runs_done hrest
    obtain ⟨rfl, rfl⟩ := Prod.mk.inj hret
    rw [List.append_nil]
    refine ⟨fun hslash hanswered ep hep => ?_, fun _ => rfl, fun v hv => ?_⟩
    -- the endpoints are the services of the listing
    · obtain ⟨si, hsi, rfl⟩ := List.mem_map.mp hep
      exact runs_listServices hslash hanswered hlist si hsi
    · exact ⟨rfl, (Except.ok.inj hv).symm⟩

/-- The second half of `select_node`, when the balancer has the nodes. -/
theorem select_spec {m m' : NodeManager} {roll : Nat} {value : Except Fault Value}
    (h : m.select roll = (m', value)) :
    m'.nodes = m.nodes ∧ m'.balancer.nodes = m.balancer.nodes ∧
      ∀ ep, value = .ok (.endpoint ep) → ep ∈ m.balancer.nodes := by
  have hnodes : (m.balancer.select roll).2.nodes = m.balancer.nodes := rfl
  unfold select at h
  split at h
  · rename_i ep balancer hsel
    obtain ⟨rfl, rfl⟩ := Prod.mk.inj h
    rw [hsel] at hnodes
    refine ⟨rfl, hnodes, fun ep' hep => ?_⟩
    obtain rfl : ep = ep' := by simpa using hep
    exact LoadBalancer.mem_of_select selectsMembers_empty (congrArg Prod.fst hsel)
  · rename_i fault balancer hsel
    obtain ⟨rfl, rfl⟩ := Prod.mk.inj h
    rw [hsel] at hnodes
    exact ⟨rfl, hnodes, nofun⟩

/-- An operation of the registry. -/
theorem runs_ofRegistry {α : Type} {m m' : NodeManager} {p : ServiceRegistry.Program α}
    {f : α → Value} {t : Trace} {value : Except Fault Value}
    (hf : ∀ a ep, f a ≠ .endpoint ep) (h : (m.ofRegistry p f).Runs t (m', value)) :
    m' = m ∧ ∀ ep, value ≠ .ok (.endpoint ep) := by
  obtain ⟨t₁, t₂, ret, rfl, -, hrest⟩ := Dialogue.runs_bind h
  obtain ⟨-, hret⟩ := Dialogue.runs_done hrest
  obtain ⟨rfl, rfl⟩ := Prod.mk.inj hret
  refine ⟨rfl, ?_⟩
  cases ret with
  | error fault => exact nofun
  | ok a => exact fun ep hv => hf a ep (Except.ok.inj hv)

/-- An operation that refreshes. -/
theorem Call.runs_refreshes {connected : Bool} {m m' : NodeManager} {c : Call} {t : Trace}
    {value : Except Fault Value} (hc : c.refreshes m = true)
    (h : (c.program connected m).Runs t (m', value)) :
    (Slashless t → Answered t → ∀ ep ∈ m'.nodes, ReadIn t m.servicesPath ep.name ep.address) ∧
    m'.Balanced ∧ ∀ ep, value = .ok (.endpoint ep) → ep ∈ m'.nodes := by
  cases c with
  | refreshNodes =>
    obtain ⟨hread, hbal, hvalue⟩ := runs_refreshNodes h
    refine ⟨hread, hbal, fun ep hep => ?_⟩
    cases (hvalue _ hep).2
  | selectNode roll =>
    have hempty : m.nodes = [] := of_decide_eq_true hc
    simp only [Call.program, NodeManager.selectNode, hempty, if_true] at h
    obtain ⟨t₁, t₂, ⟨m₁, ret⟩, rfl, hrefresh, hrest⟩ := Dialogue.runs_bind h
    obtain ⟨hread, hbal, hvalue⟩ := runs_refreshNodes hrefresh
    cases ret with
    | error fault =>
      obtain ⟨rfl, hret⟩ := Dialogue.runs_done hrest
      obtain ⟨rfl, rfl⟩ := Prod.mk.inj hret
      rw [List.append_nil]
      exact ⟨hread, hbal, nofun⟩
    | ok v =>
      obtain ⟨rfl, hsel⟩ := Dialogue.runs_done hrest
      -- the selection after the refresh keeps the nodes, and returns one
      obtain ⟨hnodes, hbalancer, hmem⟩ := select_spec hsel
      obtain ⟨hsame, -⟩ := hvalue v rfl
      rw [List.append_nil]
      refine ⟨?_, fun _ => ?_, fun ep hep => ?_⟩
      · rw [hnodes]
        exact hread
      · rw [hbalancer, hsame, hnodes]
      · rw [hnodes, ← hsame]
        exact hmem ep hep
  | initZkPaths | registerNode | unregisterNode | nodeExists | listNodeNames | getNodeData =>
    cases hc

/-- An operation that does not refresh keeps the nodes. -/
theorem Call.runs_keeps {connected : Bool} {m m' : NodeManager} {c : Call} {t : Trace}
    {value : Except Fault Value} (hc : c.refreshes m = false) (hm : m.Balanced)
    (h : (c.program connected m).Runs t (m', value)) :
    m'.nodes = m.nodes ∧ m'.Balanced ∧ ∀ ep, value = .ok (.endpoint ep) → ep ∈ m'.nodes := by
  -- the operations of the registry return no endpoint and leave the manager alone
  have hregistry {α : Type} {m₁ : NodeManager} {p : ServiceRegistry.Program α} {f : α → Value}
      (h : (m₁.ofRegistry p f).Runs t (m', value)) (hf : ∀ a ep, f a ≠ .endpoint ep)
      (hnodes : m₁.nodes = m.nodes) (hbalancer : m₁.balancer = m.balancer) :
      m'.nodes = m.nodes ∧ m'.Balanced ∧
        ∀ ep, value = .ok (.endpoint ep) → ep ∈ m'.nodes := by
    obtain ⟨rfl, hvalue⟩ := runs_ofRegistry hf h
    refine ⟨hnodes, ?_, fun ep hep => absurd hep (hvalue ep)⟩
    unfold Balanced
    rw [hnodes, hbalancer]
    exact hm
  cases c with
  | refreshNodes => cases hc
  | selectNode roll =>
    -- with nodes in the manager nothing is refreshed
    have hne : m.nodes ≠ [] := of_decide_eq_false hc
    simp only [Call.program, NodeManager.selectNode, hne, if_false] at h
    obtain ⟨-, hsel⟩ := Dialogue.runs_done h
    obtain ⟨hnodes, hbalancer, hmem⟩ := select_spec hsel
    refine ⟨hnodes, fun _ => ?_, fun ep hep => ?_⟩
    · rw [hbalancer, hm hne, hnodes]
    · rw [hnodes, ← hm hne]
      exact hmem ep hep
  | initZkPaths servicesPath =>
    simp only [Call.program, NodeManager.initZkPaths] at h
    split at h
    · exact hregistry h nofun rfl rfl
    · exact hregistry h nofun rfl rfl
  | registerNode nodeName address weight => exact hregistry h nofun rfl rfl
  | unregisterNode nodeName => exact hregistry h nofun rfl rfl
  | nodeExists nodePath => exact hregistry h nofun rfl rfl
  | listNodeNames => exact hregistry h nofun rfl rfl
  | getNodeData path => exact hregistry h nofun rfl rfl

end NodeManager

/-! ## Runs of a manager -/

namespace Discovery

open ServiceRegistry

variable {Tree : Type} {server : ZkServer Tree} {s s' : Discovery Tree}

/-- The trace of the requests of an operation. -/
def trace (exchanges : List (Operation × Exchange)) : Trace :=
  exchanges.map fun p => (p.1, p.2.outcome)

/-- The outcomes of a step. -/
inductive Steps (server : ZkServer Tree) (s : Discovery Tree) : Act Tree → Discovery Tree → Prop
    where
  | others (tree : Tree) : Steps server s (.others tree) { s with tree }
  | connect (timeoutMs : Int32) (hs : Handshake) (hidle : s.running = none) :
      Steps server s (.connect timeoutMs hs)
        { s with registry := (s.registry.connect timeoutMs hs).1 }
  | setBalancerStrategy (name : Bytes) (hidle : s.running = none) :
      Steps server s (.setBalancerStrategy name) { s with mgr := s.mgr.setBalancerStrategy name }
  | setServicesPath (path : Bytes) (hidle : s.running = none) :
      Steps server s (.setServicesPath path) { s with mgr := { s.mgr with servicesPath := path } }
  | call (c : NodeManager.Call) (hidle : s.running = none) :
      Steps server s (.call c) { s with
        running := some { call := c, program := c.program s.registry.connected s.mgr
                          exchanges := [] } }
  | answer (zxid : Int64) (r : Running) (op : Operation)
      (k : Outcome → NodeManager.Program) (client : ZkClient) (outcome : Outcome)
      (hrun : s.running = some r) (hprog : r.program = .ask op k)
      (hsend : sendRequest s.registry.client op (server.reply s.tree op zxid) =
        some (client, outcome)) :
      Steps server s (.answer zxid) { s with
        tree := (server.answer s.tree op).1
        registry := { s.registry with client }
        running := some { r with
          program := k outcome
          exchanges := r.exchanges ++ [(op, server.reply s.tree op zxid)] } }
  | fail (ex : Exchange) (r : Running) (op : Operation) (k : Outcome → NodeManager.Program)
      (client : ZkClient) (outcome : Outcome) (hfail : ex.isFailure = true)
      (hrun : s.running = some r) (hprog : r.program = .ask op k)
      (hsend : sendRequest s.registry.client op ex = some (client, outcome)) :
      Steps server s (.fail ex) { s with
        registry := { s.registry with client }
        running := some { r with
          program := k outcome
          exchanges := r.exchanges ++ [(op, ex)] } }
  | ret (r : Running) (mgr : NodeManager) (value : Except Fault NodeManager.Value)
      (new : List (Endpoint × Refresh)) (hrun : s.running = some r)
      (hprog : r.program = .done (mgr, value))
      (hnew : ∀ p ∈ new, value = .ok (.endpoint p.1) ∧ p.2 = s.refreshAfter r) :
      Steps server s .ret { s with
        mgr
        running := none
        refreshed := s.refreshAfter r
        selected := s.selected ++ new }

/-- An exchange of the request that the program waits for. -/
theorem exchange_cases {ex : Exchange} (h : s.exchange ex = some s') :
    ∃ r op k client outcome, s.running = some r ∧ r.program = .ask op k ∧
      sendRequest s.registry.client op ex = some (client, outcome) ∧
      s' = { s with
        registry := { s.registry with client }
        running := some { r with
          program := k outcome
          exchanges := r.exchanges ++ [(op, ex)] } } := by
  unfold exchange at h
  split at h
  · rename_i r hrun
    split at h
    · rename_i op k hprog
      split at h
      · rename_i client outcome hsend
        exact ⟨r, op, k, client, outcome, hrun, hprog, hsend, (Option.some.inj h).symm⟩
      · cases h
    · cases h
  · cases h

/-- The request that is asked is that of the program. -/
theorem asked_eq {r : Running} {op : Operation} {k : Outcome → NodeManager.Program}
    (hrun : s.running = some r) (hprog : r.program = .ask op k) : s.asked = some op := by
  simp only [asked, hrun, hprog]

/-- Every step has one of these outcomes. -/
theorem steps_of_step {a : Act Tree} (h : s.step server a = some s') : Steps server s a s' := by
  cases a with
  | others tree =>
    obtain rfl := Option.some.inj h
    exact .others tree
  | connect timeoutMs hs =>
    simp only [step] at h
    split at h
    · rename_i hidle
      obtain rfl := Option.some.inj h
      exact .connect timeoutMs hs hidle
    · cases h
  | setBalancerStrategy name =>
    simp only [step] at h
    split at h
    · rename_i hidle
      obtain rfl := Option.some.inj h
      exact .setBalancerStrategy name hidle
    · cases h
  | setServicesPath path =>
    simp only [step] at h
    split at h
    · rename_i hidle
      obtain rfl := Option.some.inj h
      exact .setServicesPath path hidle
    · cases h
  | call c =>
    simp only [step] at h
    split at h
    · rename_i hidle
      obtain rfl := Option.some.inj h
      exact .call c hidle
    · cases h
  | answer zxid =>
    simp only [step] at h
    split at h
    · rename_i op hasked
      obtain ⟨s₁, hex, rfl⟩ := Option.map_eq_some_iff.mp h
      obtain ⟨r, op', k, client, outcome, hrun, hprog, hsend, rfl⟩ := exchange_cases hex
      -- the request answered is the one asked
      obtain rfl : op' = op := Option.some.inj ((asked_eq hrun hprog).symm.trans hasked)
      exact .answer zxid r op' k client outcome hrun hprog hsend
    · cases h
  | fail ex =>
    simp only [step] at h
    split at h
    · rename_i hfail
      obtain ⟨r, op, k, client, outcome, hrun, hprog, hsend, rfl⟩ := exchange_cases h
      exact .fail ex r op k client outcome hfail hrun hprog hsend
    · cases h
  | ret =>
    simp only [step] at h
    split at h
    · rename_i r hrun
      split at h
      · rename_i mgr value hprog
        obtain rfl := Option.some.inj h
        refine .ret r mgr value _ hrun hprog fun p hp => ?_
        split at hp
        · obtain rfl := List.mem_singleton.mp hp
          exact ⟨rfl, rfl⟩
        · cases hp
      · cases h
    · cases h

/-! ## Where the addresses come from -/

/-- The operation under way refreshes. -/
def refreshing (s : Discovery Tree) : Bool := s.running.any fun r => r.call.refreshes s.mgr

/-- While a refresh waits for the data of a node, the exchange does not fail and the node is
    still there. -/
def ReadsAnswered (server : ZkServer Tree) (s : Discovery Tree) (a : Act Tree) : Prop :=
  s.refreshing = true → ∀ op ∈ s.asked, op.opCode = .getData →
    match a with
    | .answer _ => (server.answer s.tree op).2.1 = 0
    | .fail _ => False
    | _ => True

instance (server : ZkServer Tree) (s : Discovery Tree) (a : Act Tree) :
    Decidable (ReadsAnswered server s a) :=
  match a with
  | .answer _ => inferInstanceAs (Decidable (_ → ∀ op ∈ s.asked, _ → _ = _))
  | .fail _ => inferInstanceAs (Decidable (_ → ∀ op ∈ s.asked, _ → False))
  | .others _ | .connect .. | .setBalancerStrategy _ | .setServicesPath _ | .call _ | .ret =>
    inferInstanceAs (Decidable (_ → ∀ op ∈ s.asked, _ → True))

/-- The node of this endpoint was read in a refresh: the request was answered with err = 0,
    and the address is the data of the reply. -/
def Read (rf : Refresh) (ep : Endpoint) : Prop :=
  ∃ zxid payload fits resp p,
    (.getData (childPath rf.path ep.name) false, .replied zxid 0 payload fits) ∈ rf.exchanges ∧
    GetDataResponse.deserialize payload = .ok (resp, p) ∧ ep.address = resp.data

/-- What holds of an operation under way. -/
structure RunningInv (s : Discovery Tree) (r : Running) : Prop where
  goes : (r.call.program s.registry.connected s.mgr).Goes (trace r.exchanges) r.program
  slashless : Slashless (trace r.exchanges)
  answered : r.call.refreshes s.mgr = true → Answered (trace r.exchanges)

/-- What holds in every state of a run. -/
structure DiscoveryInv (s : Discovery Tree) : Prop where
  idle : s.registry.client.Idle
  running : ∀ r, s.running = some r → RunningInv s r
  balanced : s.mgr.Balanced
  nodes : ∀ ep ∈ s.mgr.nodes, Read s.refreshed ep
  selected : ∀ p ∈ s.selected, Read p.2 p.1

/-- Such an operation is under way. -/
theorem refreshing_eq {r : Running} (hrun : s.running = some r)
    (h : r.call.refreshes s.mgr = true) : s.refreshing = true := by
  simp only [refreshing, hrun, Option.any_some, h]

/-- A read of the trace is one of the requests. -/
theorem read_of_readIn {path : Bytes} {exchanges : List (Operation × Exchange)} {ep : Endpoint}
    (h : ReadIn (trace exchanges) path ep.name ep.address) :
    Read { path, exchanges } ep := by
  obtain ⟨payload, resp, p, hmem, hread, haddr⟩ := h
  obtain ⟨⟨op, ex⟩, hex, heq⟩ := List.mem_map.mp hmem
  obtain ⟨rfl, hout⟩ := Prod.mk.inj heq
  cases ex with
  | writeFailed msg | lengthFailed msg | bodyFailed frame msg => cases hout
  | replied zxid err payload' fits =>
    obtain ⟨rfl, rfl⟩ := Outcome.reply.inj hout
    exact ⟨zxid, payload', fits, resp, p, hex, hread, haddr⟩

/-- One more exchange. -/
theorem RunningInv.snoc {r : Running} (h : RunningInv s r) {op : Operation}
    {k : Outcome → NodeManager.Program} (hprog : r.program = .ask op k) {ex : Exchange}
    (hslash : ∀ path watch payload resp p, op = .getChildren path watch →
      ex.outcome = .reply 0 payload → GetChildrenResponse.deserialize payload = .ok (resp, p) →
      ∀ name ∈ resp.children, 47 ∉ name)
    (hanswered : r.call.refreshes s.mgr = true → ∀ path watch, op = .getData path watch →
      ∃ payload, ex.outcome = .reply 0 payload)
    (hconn : s'.registry.connected = s.registry.connected) (hmgr : s'.mgr = s.mgr) :
    RunningInv s' { r with program := k ex.outcome, exchanges := r.exchanges ++ [(op, ex)] } := by
  have htrace : trace (r.exchanges ++ [(op, ex)]) = trace r.exchanges ++ [(op, ex.outcome)] :=
    List.map_append
  constructor
  · show Dialogue.Goes _ (trace (r.exchanges ++ _)) _
    rw [htrace, hconn, hmgr]
    have hgoes := h.goes
    rw [hprog] at hgoes
    exact hgoes.snoc ex.outcome
  · show Slashless (trace (r.exchanges ++ _))
    rw [htrace]
    intro path watch payload resp p hmem
    obtain hmem | hmem := List.mem_append.mp hmem
    · exact h.slashless path watch payload resp p hmem
    -- the new exchange: a listing whose names the server vouches for
    · obtain ⟨hop, hout⟩ := Prod.mk.inj (List.mem_singleton.mp hmem)
      exact hslash path watch payload resp p hop.symm hout.symm
  · intro hrefreshes
    rw [hmgr] at hrefreshes
    show Answered (trace (r.exchanges ++ _))
    rw [htrace]
    intro path watch o hmem
    obtain hmem | hmem := List.mem_append.mp hmem
    · exact h.answered hrefreshes path watch o hmem
    -- the new exchange: a read that the condition has answered
    · obtain ⟨hop, rfl⟩ := Prod.mk.inj (List.mem_singleton.mp hmem)
      exact hanswered hrefreshes path watch hop.symm

/-- An operation that returns. -/
theorem DiscoveryInv.ret (h : DiscoveryInv s) {r : Running} {mgr : NodeManager}
    {value : Except Fault NodeManager.Value} {new : List (Endpoint × Refresh)}
    (hrun : s.running = some r) (hprog : r.program = .done (mgr, value))
    (hnew : ∀ p ∈ new, value = .ok (.endpoint p.1) ∧ p.2 = s.refreshAfter r) :
    DiscoveryInv { s with
      mgr
      running := none
      refreshed := s.refreshAfter r
      selected := s.selected ++ new } := by
  have hr := h.running r hrun
  -- the program has run from its beginning to this end
  have hruns : (r.call.program s.registry.connected s.mgr).Runs (trace r.exchanges)
      (mgr, value) := by
    have hgoes := hr.goes
    rwa [hprog] at hgoes
  -- the refresh is the one of this operation, or the nodes are those there were
  have hnodes : (∀ ep ∈ mgr.nodes, Read (s.refreshAfter r) ep) ∧ mgr.Balanced ∧
      ∀ ep, value = .ok (.endpoint ep) → ep ∈ mgr.nodes := by
    cases hrefreshes : r.call.refreshes s.mgr with
    | true =>
      obtain ⟨hread, hbal, hvalue⟩ := NodeManager.Call.runs_refreshes hrefreshes hruns
      refine ⟨fun ep hep => ?_, hbal, hvalue⟩
      rw [refreshAfter, if_pos hrefreshes]
      exact read_of_readIn (hread hr.slashless (hr.answered hrefreshes) ep hep)
    | false =>
      obtain ⟨hsame, hbal, hvalue⟩ := NodeManager.Call.runs_keeps hrefreshes h.balanced hruns
      refine ⟨fun ep hep => ?_, hbal, hvalue⟩
      rw [refreshAfter, if_neg (by rw [hrefreshes]; exact Bool.false_ne_true)]
      exact h.nodes ep (hsame ▸ hep)
  obtain ⟨hread, hbal, hvalue⟩ := hnodes
  refine ⟨h.idle, nofun, hbal, hread, fun p hp => ?_⟩
  obtain hp | hp := List.mem_append.mp hp
  · exact h.selected p hp
  · obtain ⟨hep, hrf⟩ := hnew p hp
    rw [hrf]
    exact hread p.1 (hvalue p.1 hep)

/-- A step under the condition keeps the invariant. -/
theorem Steps.discoveryInv {a : Act Tree} (hs : Steps server s a s')
    (hok : ReadsAnswered server s a) (h : DiscoveryInv s) : DiscoveryInv s' := by
  cases hs with
  | others tree =>
    refine ⟨h.idle, fun r hr => ?_, h.balanced, h.nodes, h.selected⟩
    obtain ⟨hgoes, hslash, hanswered⟩ := h.running r hr
    exact ⟨hgoes, hslash, hanswered⟩
  | connect timeoutMs hs hidle =>
    refine ⟨?_, fun r hr => ?_, h.balanced, h.nodes, h.selected⟩
    · rw [client_connect]
      exact idle_socket h.idle hs
    · rw [hidle] at hr
      cases hr
  -- the new strategy gets the nodes of the manager
  | setBalancerStrategy name hidle =>
    refine ⟨h.idle, fun r hr => ?_, fun _ => rfl, h.nodes, h.selected⟩
    rw [hidle] at hr
    cases hr
  | setServicesPath path hidle =>
    refine ⟨h.idle, fun r hr => ?_, h.balanced, h.nodes, h.selected⟩
    rw [hidle] at hr
    cases hr
  | call c hidle =>
    -- no request has been made yet
    refine ⟨h.idle, fun r hr => ?_, h.balanced, h.nodes, h.selected⟩
    obtain rfl := Option.some.inj hr
    exact ⟨.refl _, nofun, fun _ => nofun⟩
  | answer zxid r op k client outcome hrun hprog hsend =>
    obtain ⟨hidle, rfl⟩ := sendRequest_spec h.idle hsend
    refine ⟨hidle, fun r' hr' => ?_, h.balanced, h.nodes, h.selected⟩
    obtain rfl := Option.some.inj hr'
    refine (h.running r hrun).snoc hprog ?_ ?_ rfl rfl
    · rintro path watch payload resp p rfl hout hread
      obtain ⟨herr, rfl⟩ := Outcome.reply.inj hout
      exact server.names s.tree path watch herr resp p hread
    · rintro hrefreshes path watch rfl
      have herr := hok (refreshing_eq hrun hrefreshes) _ (asked_eq hrun hprog) rfl
      exact ⟨_, congrArg (Outcome.reply · _) herr⟩
  | fail ex r op k client outcome hfail hrun hprog hsend =>
    obtain ⟨hidle, rfl⟩ := sendRequest_spec h.idle hsend
    refine ⟨hidle, fun r' hr' => ?_, h.balanced, h.nodes, h.selected⟩
    obtain rfl := Option.some.inj hr'
    refine (h.running r hrun).snoc hprog ?_ ?_ rfl rfl
    · intro path watch payload resp p _ hout
      cases ex with
      | writeFailed msg | lengthFailed msg | bodyFailed frame msg => cases hout
      | replied zxid err payload' fits => cases hfail
    · -- the condition rules out that a read of a refresh fails
      rintro hrefreshes path watch rfl
      exact (hok (refreshing_eq hrun hrefreshes) _ (asked_eq hrun hprog) rfl).elim
  | ret r mgr value new hrun hprog hnew => exact h.ret hrun hprog hnew

/-- The invariant holds in every state of such a run. -/
theorem discoveryInv_of_reaches {tree : Tree}
    (h : Reaches (step server) (ReadsAnswered server) (init tree) s) : DiscoveryInv s := by
  apply h.invariant (P := DiscoveryInv)
  · have hidle : (init tree).registry.client.Idle := idle_of_reachable .refl
    exact ⟨hidle, nofun, fun hne => absurd rfl hne, nofun, nofun⟩
  · intro s a s' hinv hok hs
    exact (steps_of_step hs).discoveryInv hok hinv

/-- In a run in which every read of a refresh is answered with err = 0, whatever other clients
    do, the address of every endpoint in `nodes()` was read in the last refresh, and the
    address of every endpoint that `select_node()` has returned in the refresh before it. -/
theorem addresses_read (server : ZkServer Tree) (tree : Tree) (s : Discovery Tree)
    (h : Reaches (step server) (ReadsAnswered server) (init tree) s) :
    (∀ ep ∈ s.mgr.nodes, Read s.refreshed ep) ∧ ∀ p ∈ s.selected, Read p.2 p.1 := by
  have hinv := discoveryInv_of_reaches h
  exact ⟨hinv.nodes, hinv.selected⟩

/-- The replies of a ZooKeeper with one node below `/rpc/services`, which is there or not. -/
def oneNodeReply (tree : Bool) : Operation → Int32 × Bytes
  | .getChildren path _ =>
    if path = Bytes.ofString "/rpc/services" then
      (0, if tree then writeString (writeInt32 [] 1) [97] else writeInt32 [] 0)
    else (-101, [])
  | .getData path _ =>
    if tree ∧ path = Bytes.ofString "/rpc/services/a" then
      (0, writeString [] (Bytes.ofString "h:1") ++ List.replicate 68 0)
    else (-101, [])
  | _ => (-6, [])

/-- Its replies are short enough for a frame. -/
theorem oneNodeReply_fits (tree : Bool) (op : Operation) :
    16 + (oneNodeReply tree op).2.length < 2 ^ 31 := by
  unfold oneNodeReply
  split
  · split
    · cases tree <;> decide
    · decide
  · split
    · decide
    · decide
  · decide

/-- Its listings contain no `/`. -/
theorem oneNodeReply_names (tree : Bool) (path : Bytes) (watch : Bool)
    (herr : (oneNodeReply tree (.getChildren path watch)).1 = 0) (resp : GetChildrenResponse)
    (p : Bytes) (hread : GetChildrenResponse.deserialize
      (oneNodeReply tree (.getChildren path watch)).2 = .ok (resp, p)) :
    ∀ name ∈ resp.children, 47 ∉ name := by
  simp only [oneNodeReply] at herr hread
  split at herr
  · rename_i hpath
    rw [if_pos hpath] at hread
    cases tree with
    | true =>
      have hresp : GetChildrenResponse.deserialize (writeString (writeInt32 [] 1) [97]) =
          .ok ({ children := [[97]] }, []) := by decide
      obtain ⟨rfl, -⟩ := Prod.mk.inj (Except.ok.inj (hresp.symm.trans hread))
      decide
    | false =>
      have hresp : GetChildrenResponse.deserialize (writeInt32 [] 0) =
          .ok ({ children := [] }, []) := by decide
      obtain ⟨rfl, -⟩ := Prod.mk.inj (Except.ok.inj (hresp.symm.trans hread))
      exact nofun
  · exact absurd herr (by decide)

/-- The ZooKeeper. -/
def oneNode : ZkServer Bool where
  answer tree op := (tree, oneNodeReply tree op)
  fits := oneNodeReply_fits
  names := oneNodeReply_names

/-- A refresh, and then a selection. -/
def refreshAndSelect (between : List (Act Bool)) : List (Act Bool) :=
  [.connect 4000 (.replied handshakeReply), .call .refreshNodes, .answer 1] ++ between ++
    [.answer 2, .ret, .call (.selectNode 0), .ret]

/-- The node is there when it is read. -/
theorem addresses_read_oneNode :
    ∃ s, Reaches (step oneNode) (ReadsAnswered oneNode) (init true) s ∧
      s.selected.map (fun p => (p.1.name, p.1.address)) = [([97], Bytes.ofString "h:1")] ∧
      ∀ p ∈ s.selected, Read p.2 p.1 := by
  obtain ⟨s, hs, hsel⟩ : ∃ s, Reaches (step oneNode) (ReadsAnswered oneNode) (init true) s ∧
      s.selected.map (fun p => (p.1.name, p.1.address)) = [([97], Bytes.ofString "h:1")] :=
    exists_reaches_of_run (refreshAndSelect []) (by decide)
  exact ⟨s, hs, hsel, (addresses_read oneNode true s hs).2⟩

/-- The node is deleted between the listing and the read, and selected: its address is the empty
    string, which no read has returned. -/
theorem vanished_selected :
    ∃ s, Reachable (step oneNode) (init true) s ∧
      s.selected.map (fun p => (p.1.name, p.1.address)) = [([97], [])] ∧
      ∀ p ∈ s.selected, ¬Read p.2 p.1 := by
  obtain ⟨s, hs, hsel, hnone⟩ : ∃ s, Reachable (step oneNode) (init true) s ∧
      s.selected.map (fun p => (p.1.name, p.1.address)) = [([97], [])] ∧
      ∀ p ∈ s.selected, ∀ e ∈ p.2.exchanges, e.1.opCode = .getData → e.2.replyErr ≠ some 0 :=
    exists_reachable_of_run (refreshAndSelect [.others false]) (by decide)
  refine ⟨s, hs, hsel, ?_⟩
  rintro p hp ⟨zxid, payload, fits, resp, rest, hmem, -⟩
  exact hnone p hp _ hmem rfl rfl

end Discovery

end Rpc
