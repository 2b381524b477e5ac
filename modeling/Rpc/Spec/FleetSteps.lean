import Rpc.Native.Fleet
import Rpc.Spec.DiscoveryCorrect

/-!
# What managers and their ZooKeeper can do

The outcomes of the steps of a fleet, and what holds in every state of a run
(`fleetInv_of_reachable`).  The tree is the tree of the beginning and the journal; a request
that has come to an end was executed at its time, on the tree as it was then, or its exchange
has failed; and what an operation returned is what its program makes of its requests.
-/

namespace Rpc

open Transition Zk

/-! ## What ZooKeeper keeps -/

/-- What the replies of a ZooKeeper say about the data of its nodes: `data tree path` is the
    data of the node `path`, if there is one.  Everyone may read the nodes, since they were
    created so (`isPlain`). -/
structure KeepsData {Tree : Type} (server : ZkServer Tree)
    (data : Tree → Bytes → Option Bytes) : Prop where
  /-- a node is created where there is none, and removed where there is one -/
  effect : ∀ tree (op : Operation) c, op.isPlain = true → server.effect tree op = some c →
    c.Fits (data tree) ∧ data (server.answer tree op).1 = c.apply (data tree)
  /-- reads, and requests that are refused, change nothing -/
  noEffect : ∀ tree (op : Operation), op.isPlain = true → server.effect tree op = none →
    data (server.answer tree op).1 = data tree
  getData : ∀ tree path watch,
    (server.answer tree (.getData path watch)).2.1 = 0 ↔ data tree path ≠ none
  getDataBody : ∀ tree path watch, data tree path ≠ none →
    ∃ resp p, GetDataResponse.deserialize (server.answer tree (.getData path watch)).2.2 =
      .ok (resp, p) ∧ data tree path = some resp.data
  getChildren : ∀ tree path watch,
    (server.answer tree (.getChildren path watch)).2.1 = 0 ↔ data tree path ≠ none
  /-- the children of a node; those of the root have other paths -/
  getChildrenBody : ∀ tree path watch, path ≠ [47] → data tree path ≠ none →
    ∃ resp p, GetChildrenResponse.deserialize (server.answer tree (.getChildren path watch)).2.2 =
      .ok (resp, p) ∧ resp.children.Nodup ∧ ∀ name, name ∈ resp.children ↔
        47 ∉ name ∧ data tree (ServiceRegistry.childPath path name) ≠ none
  /-- a node below another exists with it -/
  parent : ∀ tree path name, path ≠ [] → 47 ∉ name →
    data tree (ServiceRegistry.childPath path name) ≠ none → data tree path ≠ none

/-! ## The requests of a manager -/

/-- The nodes that the program creates are open, and no sequence nodes. -/
def AsksPlain {α : Type} (p : Dialogue Operation Outcome α) : Prop :=
  p.Asks fun op => op.isPlain = true

namespace ServiceRegistry

/-- An operation that reports success. -/
theorem Op.asksPlain (op : Op) (connected : Bool) : AsksPlain (op.program connected).run := by
  cases connected with
  | false =>
    rw [op.run_program_disconnected]
    exact .done _
  | true =>
    -- the flags of a creation are 0 or 1, and its list is `acl_open_unsafe`
    have hplain : op.request.isPlain = true := by
      cases op <;> simp [Op.request, Operation.isPlain]
    rw [op.run_program]
    exact .ask hplain fun _ => .done _

/-- A listing reads only. -/
theorem asksPlain_getChildren (connected : Bool) (path : Bytes) :
    AsksPlain (getChildren connected path).run := by
  cases connected with
  | false => exact .done _
  | true =>
    rw [run_getChildren]
    exact .ask rfl fun _ => .done _

/-- A node is read only. -/
theorem asksPlain_getNodeData (connected : Bool) (path : Bytes) :
    AsksPlain (getNodeData connected path).run := by
  cases connected with
  | false => exact .done _
  | true =>
    refine Dialogue.Asks.bind_except (.ask rfl fun _ => .done _) fun r => ?_
    cases r.ok with
    | some resp => exact .done _
    | none => exact .done _

/-- The services of a list are read only. -/
theorem asksPlain_getServices (connected : Bool) (servicesPath : Bytes) (names : List Bytes) :
    AsksPlain (getServices connected servicesPath names).run := by
  induction names with
  | nil => exact .done _
  | cons name names ih =>
    -- one node is read, then the others
    have hservice : AsksPlain (getService connected (childPath servicesPath name)).run := by
      cases connected with
      | false => exact .done _
      | true =>
        rw [run_getService]
        exact .ask rfl fun _ => .done _
    exact hservice.bind_except fun si => Dialogue.Asks.bind_except ih fun services => .done _

end ServiceRegistry

namespace NodeManager

open ServiceRegistry

/-- An operation of the registry. -/
theorem asksPlain_ofRegistry {α : Type} {p : ServiceRegistry.Program α} (h : AsksPlain p.run)
    (m : NodeManager) (f : α → Value) : AsksPlain (m.ofRegistry p f) :=
  h.bind fun _ => .done _

/-- A refresh lists the services, and reads them. -/
theorem asksPlain_refreshNodes (connected : Bool) (m : NodeManager) :
    AsksPlain (refreshNodes connected m) := by
  have hlist : AsksPlain (listServices connected m.servicesPath).run :=
    (asksPlain_getChildren connected _).bind_except
      (asksPlain_getServices connected m.servicesPath)
  refine hlist.bind fun r => ?_
  cases r with
  | ok services => exact .done _
  | error fault => exact .done _

/-- No call of a manager asks for anything else. -/
theorem Call.asksPlain (connected : Bool) (m : NodeManager) (c : Call) :
    AsksPlain (c.program connected m) := by
  cases c with
  | initZkPaths servicesPath =>
    simp only [Call.program, NodeManager.initZkPaths]
    -- the parent of the path is created, then the path, unless there is no parent
    split
    · exact asksPlain_ofRegistry
        ((Op.asksPlain (.createPersistentNode _) connected).bind_except fun _ =>
          Op.asksPlain (.createPersistentNode servicesPath) connected) _ _
    · exact asksPlain_ofRegistry (Op.asksPlain (.createPersistentNode _) connected) _ _
  | refreshNodes => exact asksPlain_refreshNodes connected m
  | selectNode roll =>
    simp only [Call.program, NodeManager.selectNode]
    -- a refresh, if nothing is known; the selection itself asks nothing
    split
    · refine (asksPlain_refreshNodes connected m).bind fun r => ?_
      obtain ⟨m', ret⟩ := r
      cases ret with
      | ok v => exact .done _
      | error fault => exact .done _
    · exact .done _
  | registerNode nodeName address weight =>
    exact asksPlain_ofRegistry
      (Op.asksPlain (.registerService m.servicesPath nodeName address) connected) _ _
  | unregisterNode nodeName =>
    exact asksPlain_ofRegistry (Op.asksPlain (.unregisterService _) connected) _ _
  | nodeExists nodePath =>
    exact asksPlain_ofRegistry (Op.asksPlain (.nodeExists nodePath) connected) _ _
  | listNodeNames => exact asksPlain_ofRegistry (asksPlain_getChildren connected _) _ _
  | getNodeData path => exact asksPlain_ofRegistry (asksPlain_getNodeData connected path) _ _

end NodeManager

namespace Fleet

variable {Tree : Type} {server : ZkServer Tree} {data : Tree → Bytes → Option Bytes}
  {s s' : Fleet Tree}

/-! ## Steps -/

/-- A manager after an exchange in its operation `r`, which goes on with `k`. -/
structure Exchanged (r : Running) (op : Operation) (k : Outcome → NodeManager.Program)
    (ex : Exchange) (d : Discovery Tree) : Prop where
  idle : d.registry.client.Idle
  running : d.running = some { r with
    program := k ex.outcome
    exchanges := r.exchanges ++ [(op, ex)] }

/-- A request of manager `i` has come to an end. -/
def noted (s : Fleet Tree) (i : Nat) (d : Discovery Tree) (sent : Sent) : Fleet Tree :=
  { s.note i sent with managers := Function.update s.managers i d }

/-- The outcomes of a step. -/
inductive Steps (server : ZkServer Tree) (s : Fleet Tree) : Act → Fleet Tree → Prop where
  /-- manager `i` is in no operation and begins none -/
  | idle {a : Act} (i : Nat) (d : Discovery Tree) (hidle : d.registry.client.Idle)
      (hrun : d.running = none) :
      Steps server s a { s with managers := Function.update s.managers i d }
  | call (i : Nat) (c : NodeManager.Call) (d : Discovery Tree)
      (hidle : d.registry.client.Idle) (hmgr : d.mgr = (s.managers i).mgr)
      (hconn : d.registry.connected = (s.managers i).registry.connected)
      (hrun : d.running = some
        { call := c, program := c.program d.registry.connected d.mgr, exchanges := [] }) :
      Steps server s (.call i c) { s with
        managers := Function.update s.managers i d
        episodes := Function.update s.episodes i
          { call := c, mgr := (s.managers i).mgr, connected := (s.managers i).registry.connected
            began := s.now, requests := [] } }
  | answer (i : Nat) (zxid : Int64) (r : Running) (op : Operation)
      (k : Outcome → NodeManager.Program) (d : Discovery Tree)
      (hrun : (s.managers i).running = some r) (hprog : r.program = .ask op k)
      (hd : Exchanged r op k (server.reply s.tree op zxid) d) :
      Steps server s (.answer i zxid) ((s.execute server op (some (s.author i))).noted i d
        { op, exchange := server.reply s.tree op zxid, time := s.now })
  | fail (i : Nat) (ex : Exchange) (r : Running) (op : Operation)
      (k : Outcome → NodeManager.Program) (d : Discovery Tree) (hfail : ex.isFailure = true)
      (hrun : (s.managers i).running = some r) (hprog : r.program = .ask op k)
      (hd : Exchanged r op k ex d) :
      Steps server s (.fail i ex) (s.noted i d { op, exchange := ex, time := s.now })
  | lose (i : Nat) (ex : Exchange) (r : Running) (op : Operation)
      (k : Outcome → NodeManager.Program) (d : Discovery Tree) (hfail : ex.isFailure = true)
      (hrun : (s.managers i).running = some r) (hprog : r.program = .ask op k)
      (hd : Exchanged r op k ex d) :
      Steps server s (.lose i ex) ((s.execute server op (some (s.author i))).noted i d
        { op, exchange := ex, time := s.now })
  | ret (i : Nat) (r : Running) (mgr : NodeManager) (value : Except Fault NodeManager.Value)
      (d : Discovery Tree) (hrun : (s.managers i).running = some r)
      (hprog : r.program = .done (mgr, value)) (hidle : d.registry.client.Idle)
      (hret : d.running = none) :
      Steps server s (.ret i) { s with
        managers := Function.update s.managers i d
        ended := Function.update s.ended i
          (s.ended i ++ [{ episode := s.episodes i, mgr, value, time := s.now }]) }
  | other (op : Operation) (hplain : op.isPlain = true) :
      Steps server s (.other op) (s.execute server op none)

/-- The request that manager `i` waits for is answered. -/
theorem exists_answered {i : Nat} {zxid : Int64} {op : Operation} {d : Discovery Tree}
    (hclient : (s.managers i).registry.client.Idle) (hasked : (s.managers i).asked = some op)
    (hstep : (s.seen i).step server (.answer zxid) = some d) :
    ∃ r k, (s.managers i).running = some r ∧ r.program = .ask op k ∧
      Exchanged r op k (server.reply s.tree op zxid) d := by
  cases Discovery.steps_of_step hstep with
  | answer _ r op' k client outcome hrun hprog hsend =>
    obtain rfl := Option.some.inj ((Discovery.asked_eq hrun hprog).symm.trans hasked)
    obtain ⟨hidle, rfl⟩ := sendRequest_spec hclient hsend
    exact ⟨r, k, hrun, hprog, hidle, rfl⟩

/-- Its exchange fails. -/
theorem exists_failed {i : Nat} {ex : Exchange} {op : Operation} {d : Discovery Tree}
    (hclient : (s.managers i).registry.client.Idle) (hasked : (s.managers i).asked = some op)
    (hstep : (s.seen i).step server (.fail ex) = some d) :
    ∃ r k, (s.managers i).running = some r ∧ r.program = .ask op k ∧ ex.isFailure = true ∧
      Exchanged r op k ex d := by
  cases Discovery.steps_of_step hstep with
  | fail _ r op' k client outcome hfail hrun hprog hsend =>
    obtain rfl := Option.some.inj ((Discovery.asked_eq hrun hprog).symm.trans hasked)
    obtain ⟨hidle, rfl⟩ := sendRequest_spec hclient hsend
    exact ⟨r, k, hrun, hprog, hfail, hidle, rfl⟩

/-- Every step has one of these outcomes. -/
theorem steps_of_step (hclient : ∀ i, (s.managers i).registry.client.Idle) {a : Act}
    (h : s.step server a = some s') : Steps server s a s' := by
  cases a with
  | connect i timeoutMs hs =>
    obtain ⟨d, hd, rfl⟩ := Option.map_eq_some_iff.mp h
    cases Discovery.steps_of_step hd with
    | connect _ _ hrun =>
      refine .idle i _ ?_ hrun
      show ZkClient.Idle _
      rw [ServiceRegistry.client_connect]
      exact ServiceRegistry.idle_socket (hclient i) hs
  -- settings change the manager, and begin no operation
  | setBalancerStrategy i name =>
    obtain ⟨d, hd, rfl⟩ := Option.map_eq_some_iff.mp h
    cases Discovery.steps_of_step hd with
    | setBalancerStrategy _ hrun => exact .idle i _ (hclient i) hrun
  | setServicesPath i path =>
    obtain ⟨d, hd, rfl⟩ := Option.map_eq_some_iff.mp h
    cases Discovery.steps_of_step hd with
    | setServicesPath _ hrun => exact .idle i _ (hclient i) hrun
  | call i c =>
    obtain ⟨s₁, hs₁, rfl⟩ := Option.map_eq_some_iff.mp h
    obtain ⟨d, hd, rfl⟩ := Option.map_eq_some_iff.mp hs₁
    cases Discovery.steps_of_step hd with
    | call _ hrun => exact .call i c _ (hclient i) rfl rfl rfl
  | answer i zxid =>
    simp only [step] at h
    split at h
    · rename_i op hasked
      obtain ⟨s₁, hs₁, rfl⟩ := Option.map_eq_some_iff.mp h
      obtain ⟨d, hd, rfl⟩ := Option.map_eq_some_iff.mp hs₁
      -- the request that is answered is the one the program waits for
      obtain ⟨r, k, hrun, hprog, hex⟩ := exists_answered (hclient i) hasked hd
      exact .answer i zxid r op k d hrun hprog hex
    · cases h
  | fail i ex =>
    simp only [step] at h
    split at h
    · rename_i op hasked
      obtain ⟨s₁, hs₁, rfl⟩ := Option.map_eq_some_iff.mp h
      obtain ⟨d, hd, rfl⟩ := Option.map_eq_some_iff.mp hs₁
      obtain ⟨r, k, hrun, hprog, hfail, hex⟩ := exists_failed (hclient i) hasked hd
      exact .fail i ex r op k d hfail hrun hprog hex
    · cases h
  -- the request was executed, but its answer has not come
  | lose i ex =>
    simp only [step] at h
    split at h
    · rename_i op hasked
      obtain ⟨s₁, hs₁, rfl⟩ := Option.map_eq_some_iff.mp h
      obtain ⟨d, hd, rfl⟩ := Option.map_eq_some_iff.mp hs₁
      obtain ⟨r, k, hrun, hprog, hfail, hex⟩ := exists_failed (hclient i) hasked hd
      exact .lose i ex r op k d hfail hrun hprog hex
    · cases h
  | ret i =>
    simp only [step] at h
    split at h
    · rename_i r hrun
      split at h
      · rename_i mgr value hprog
        obtain ⟨s₁, hs₁, rfl⟩ := Option.map_eq_some_iff.mp h
        obtain ⟨d, hd, rfl⟩ := Option.map_eq_some_iff.mp hs₁
        cases Discovery.steps_of_step hd with
        | ret r' mgr' value' new hrun' hprog' hnew =>
          exact .ret i r mgr value _ hrun hprog (hclient i) rfl
      · cases h
    · cases h
  | other op =>
    simp only [step] at h
    split at h
    · rename_i hplain
      obtain rfl := Option.some.inj h
      exact .other op hplain
    · cases h

/-! ## What holds in every state -/

/-- What the requests did to the tree. -/
def changes (journal : List Entry) : List (Change Bytes Bytes) := journal.map fun e => e.change

/-- The data of the nodes at a time. -/
def dataAt (data₀ : Bytes → Option Bytes) (journal : List Entry) (time : Nat) :
    Bytes → Option Bytes :=
  Journal.replay data₀ ((changes journal).take time)

/-- Now is after the whole journal. -/
theorem dataAt_length (data₀ : Bytes → Option Bytes) (journal : List Entry) :
    dataAt data₀ journal journal.length = Journal.replay data₀ (changes journal) := by
  rw [dataAt, List.take_of_length_le (by simp [changes])]

/-- The past does not change. -/
theorem dataAt_past (data₀ : Bytes → Option Bytes) {journal journal' : List Entry}
    (h : journal <+: journal') {time : Nat} (htime : time ≤ journal.length) :
    dataAt data₀ journal' time = dataAt data₀ journal time := by
  obtain ⟨rest, rfl⟩ := h
  rw [dataAt, dataAt, changes, List.map_append,
    List.take_append_of_le_length (by rwa [List.length_map])]
  rfl

/-- The exchange of the request has failed; or it was executed at its time, in the operation
    `author`, on the tree as it was then. -/
def Sound (server : ZkServer Tree) (data : Tree → Bytes → Option Bytes)
    (data₀ : Bytes → Option Bytes) (journal : List Entry) (author : Nat × Nat)
    (sent : Sent) : Prop :=
  sent.exchange.isFailure = true ∨
    ∃ tree zxid, data tree = dataAt data₀ journal sent.time ∧
      sent.exchange = server.reply tree sent.op zxid ∧
      ∀ c, server.effect tree sent.op = some c →
        journal[sent.time]? = some { change := c, author := some author }

/-- The requests of an operation: they follow one another, and are sound. -/
structure EpisodeOk (server : ZkServer Tree) (data : Tree → Bytes → Option Bytes)
    (data₀ : Bytes → Option Bytes) (journal : List Entry) (author : Nat × Nat)
    (e : Episode) : Prop where
  bound : e.began ≤ journal.length
  began : ∀ sent ∈ e.requests, e.began ≤ sent.time
  past : ∀ sent ∈ e.requests, sent.time ≤ journal.length
  ordered : (e.requests.map fun sent => sent.time).Pairwise (· ≤ ·)
  sound : ∀ sent ∈ e.requests, Sound server data data₀ journal author sent

/-- What the program of an operation has seen. -/
def Episode.trace (e : Episode) : ServiceRegistry.Trace :=
  e.requests.map fun sent => (sent.op, sent.exchange.outcome)

/-- The operation under way has come to where its program is. -/
def UnderWay (e : Episode) (r : Running) : Prop :=
  (e.call.program e.connected e.mgr).Goes (Episode.trace e) r.program

/-- An operation that has ended did what its program says. -/
structure EndedOk (server : ZkServer Tree) (data : Tree → Bytes → Option Bytes)
    (data₀ : Bytes → Option Bytes) (journal : List Entry) (author : Nat × Nat)
    (f : Ended) : Prop where
  bound : f.time ≤ journal.length
  /-- in the journal as it was then -/
  ok : EpisodeOk server data data₀ (journal.take f.time) author f.episode
  runs : (f.episode.call.program f.episode.connected f.episode.mgr).Runs
    (Episode.trace f.episode) (f.mgr, f.value)

/-- What holds in every state of a run. -/
structure FleetInv (server : ZkServer Tree) (data : Tree → Bytes → Option Bytes)
    (data₀ : Bytes → Option Bytes) (s : Fleet Tree) : Prop where
  idle : ∀ i, (s.managers i).registry.client.Idle
  tree : data s.tree = Journal.replay data₀ (changes s.journal)
  strict : Journal.Strict data₀ (changes s.journal)
  running : ∀ i r, (s.managers i).running = some r →
    EpisodeOk server data data₀ s.journal (s.author i) (s.episodes i) ∧
      UnderWay (s.episodes i) r
  ended : ∀ i m f, (s.ended i)[m]? = some f → EndedOk server data data₀ s.journal (i, m) f

section

variable {data₀ : Bytes → Option Bytes} {journal journal' : List Entry} {author : Nat × Nat}

/-- What was sound stays so. -/
theorem EpisodeOk.mono {e : Episode} (h : EpisodeOk server data data₀ journal author e)
    (hpre : journal <+: journal') : EpisodeOk server data data₀ journal' author e := by
  have hlen := hpre.length_le
  refine ⟨Nat.le_trans h.bound hlen, h.began, fun sent hs => Nat.le_trans (h.past sent hs) hlen,
    h.ordered, fun sent hs => ?_⟩
  obtain hfail | ⟨tree, zxid, htree, hex, heffect⟩ := h.sound sent hs
  · exact .inl hfail
  · refine .inr ⟨tree, zxid, ?_, hex, fun c hc => ?_⟩
    -- the tree at that time is the same in the longer journal
    · rw [htree, dataAt_past data₀ hpre (h.past sent hs)]
    · have hentry := heffect c hc
      obtain ⟨hlt, -⟩ := List.getElem?_eq_some_iff.mp hentry
      obtain ⟨rest, rfl⟩ := hpre
      rwa [List.getElem?_append_left hlt]

/-- What an operation did stays in the journal. -/
theorem EndedOk.mono {f : Ended} (h : EndedOk server data data₀ journal author f)
    (hpre : journal <+: journal') : EndedOk server data data₀ journal' author f := by
  refine ⟨Nat.le_trans h.bound hpre.length_le, ?_, h.runs⟩
  obtain ⟨rest, rfl⟩ := hpre
  rw [List.take_append_of_le_length h.bound]
  exact h.ok

/-- The same in the journal as it is now. -/
theorem EndedOk.episodeOk {f : Ended} (h : EndedOk server data data₀ journal author f) :
    EpisodeOk server data data₀ journal author f.episode :=
  h.ok.mono (List.take_prefix _ _)

/-- Its requests ended before it did. -/
theorem EndedOk.past {f : Ended} (h : EndedOk server data data₀ journal author f) (sent : Sent)
    (hsent : sent ∈ f.episode.requests) : sent.time ≤ f.time :=
  Nat.le_trans (h.ok.past sent hsent) (List.length_take_le _ _)

/-- One more request. -/
theorem EpisodeOk.snoc {e : Episode} (h : EpisodeOk server data data₀ journal author e)
    {sent : Sent} (hbegan : e.began ≤ sent.time) (hpast : sent.time ≤ journal.length)
    (hlast : ∀ sent' ∈ e.requests, sent'.time ≤ sent.time)
    (hsound : Sound server data data₀ journal author sent) :
    EpisodeOk server data data₀ journal author { e with requests := e.requests ++ [sent] } := by
  have hall {P : Sent → Prop} (hold : ∀ x ∈ e.requests, P x) (hnew : P sent) :
      ∀ x ∈ e.requests ++ [sent], P x := by
    intro x hx
    obtain hx | hx := List.mem_append.mp hx
    · exact hold x hx
    · exact List.mem_singleton.mp hx ▸ hnew
  refine ⟨h.bound, hall h.began hbegan, hall h.past hpast, ?_, hall h.sound hsound⟩
  show ((e.requests ++ [sent]).map _).Pairwise _
  -- the new request is behind all the others
  rw [List.map_append, List.pairwise_append]
  refine ⟨h.ordered, List.pairwise_singleton _ _, ?_⟩
  intro t ht t' ht'
  obtain ⟨sent', hsent', rfl⟩ := List.mem_map.mp ht
  obtain rfl := List.mem_singleton.mp ht'
  exact hlast sent' hsent'

/-- One more answer for the program. -/
theorem UnderWay.snoc {e : Episode} {r : Running} (h : UnderWay e r) {op : Operation}
    {k : Outcome → NodeManager.Program} (hprog : r.program = .ask op k) (ex : Exchange)
    (time : Nat) :
    UnderWay { e with requests := e.requests ++ [{ op, exchange := ex, time }] }
      { r with program := k ex.outcome, exchanges := r.exchanges ++ [(op, ex)] } := by
  unfold UnderWay at h ⊢
  rw [hprog] at h
  show Dialogue.Goes _ (List.map _ (e.requests ++ _)) _
  rw [List.map_append]
  exact h.snoc ex.outcome

end

variable {data₀ : Bytes → Option Bytes}

/-- What the execution of a request adds to the journal. -/
theorem journal_execute (server : ZkServer Tree) (s : Fleet Tree) (op : Operation)
    (author : Option (Nat × Nat)) : s.journal <+: (s.execute server op author).journal :=
  List.prefix_append _ _

/-- A request is executed on the tree of the ZooKeeper. -/
theorem FleetInv.execute (hdata : KeepsData server data) (h : FleetInv server data data₀ s)
    {op : Operation} (hplain : op.isPlain = true) (author : Option (Nat × Nat)) :
    FleetInv server data data₀ (s.execute server op author) := by
  have hpre := journal_execute server s op author
  have hchanges : changes (s.execute server op author).journal =
      changes s.journal ++ (server.effect s.tree op).toList := by
    cases hc : server.effect s.tree op <;> simp [changes, Fleet.execute, hc]
  refine ⟨h.idle, ?_, ?_, fun i r hr => ?_, fun i m f hf => (h.ended i m f hf).mono hpre⟩
  -- the tree follows the journal, since the replies keep the data
  · rw [hchanges, Journal.replay_append, ← h.tree]
    cases hc : server.effect s.tree op with
    | none => exact hdata.noEffect s.tree op hplain hc
    | some c => exact (hdata.effect s.tree op c hplain hc).2
  · rw [hchanges]
    -- a node was created where there was none, or removed where there was one
    cases hc : server.effect s.tree op with
    | none =>
      rw [Option.toList_none, List.append_nil]
      exact h.strict
    | some c =>
      refine h.strict.concat ?_
      rw [← h.tree]
      exact (hdata.effect s.tree op c hplain hc).1
  · obtain ⟨hok, hway⟩ := h.running i r hr
    exact ⟨hok.mono hpre, hway⟩

/-- The request of manager `i` has ended. -/
theorem FleetInv.noted (h : FleetInv server data data₀ s) {i : Nat} {r : Running} {op : Operation}
    {k : Outcome → NodeManager.Program} {ex : Exchange} {d : Discovery Tree} {time : Nat}
    (hrun : (s.managers i).running = some r) (hprog : r.program = .ask op k)
    (hd : Exchanged r op k ex d) (hpast : time ≤ s.journal.length)
    (hbegan : (s.episodes i).began ≤ time)
    (hlast : ∀ sent ∈ (s.episodes i).requests, sent.time ≤ time)
    (hsound : Sound server data data₀ s.journal (s.author i) { op, exchange := ex, time }) :
    FleetInv server data data₀ (s.noted i d { op, exchange := ex, time }) := by
  refine ⟨fun j => ?_, h.tree, h.strict, fun j r' hr' => ?_, h.ended⟩
  · show ((Function.update s.managers i d) j).registry.client.Idle
    by_cases hj : j = i
    · rw [hj, Function.update_self]
      exact hd.idle
    · rw [Function.update_of_ne hj]
      exact h.idle j
  · change ((Function.update s.managers i d) j).running = some r' at hr'
    show EpisodeOk server data data₀ s.journal (s.author j) (Function.update s.episodes i _ j) ∧
      UnderWay (Function.update s.episodes i _ j) r'
    -- of the operations under way only that of manager `i` has changed
    by_cases hj : j = i
    · subst hj
      rw [Function.update_self, hd.running] at hr'
      obtain rfl := Option.some.inj hr'
      obtain ⟨hok, hway⟩ := h.running j r hrun
      rw [Function.update_self]
      exact ⟨hok.snoc hbegan hpast hlast hsound, hway.snoc hprog ex time⟩
    · rw [Function.update_of_ne hj] at hr' ⊢
      exact h.running j r' hr'

/-- The request that a manager waits for creates no sequence node. -/
theorem FleetInv.isPlain (h : FleetInv server data data₀ s) {i : Nat} {r : Running}
    {op : Operation} {k : Outcome → NodeManager.Program}
    (hrun : (s.managers i).running = some r) (hprog : r.program = .ask op k) :
    op.isPlain = true := by
  have hasks := (h.running i r hrun).2.asks (NodeManager.Call.asksPlain _ _ _)
  rw [hprog] at hasks
  cases hasks with
  | ask hq hk => exact hq

/-- A request that is executed is sound, if its exchange fails or is the answer. -/
theorem sound_execute (h : FleetInv server data data₀ s)
    (author : Nat × Nat) {op : Operation} {ex : Exchange}
    (hex : ex.isFailure = true ∨ ∃ zxid, ex = server.reply s.tree op zxid) :
    Sound server data data₀ (s.execute server op (some author)).journal author
      { op, exchange := ex, time := s.now } := by
  obtain hfail | ⟨zxid, rfl⟩ := hex
  · exact .inl hfail
  · refine .inr ⟨s.tree, zxid, ?_, rfl, fun c hc => ?_⟩
    -- before its execution the tree was that of the whole journal
    · show data s.tree = dataAt data₀ _ s.journal.length
      rw [dataAt_past data₀ (journal_execute server s op _) (Nat.le_refl _)]
      exact h.tree.trans (dataAt_length data₀ s.journal).symm
    -- and its change is the next entry
    · show (s.journal ++ _)[s.journal.length]? = _
      rw [hc, List.getElem?_append_right (Nat.le_refl _), Nat.sub_self]
      rfl

/-- A step keeps the invariant. -/
theorem Steps.fleetInv (hdata : KeepsData server data) {a : Act} (hs : Steps server s a s')
    (h : FleetInv server data data₀ s) : FleetInv server data data₀ s' := by
  -- only manager `i` changes
  have hidle {i : Nat} {d : Discovery Tree} (hd : d.registry.client.Idle) (j : Nat) :
      ((Function.update s.managers i d) j).registry.client.Idle := by
    by_cases hj : j = i
    · rw [hj, Function.update_self]
      exact hd
    · rw [Function.update_of_ne hj]
      exact h.idle j
  -- what was sent before now was executed before now
  have hpast {i : Nat} {r : Running} (hr : (s.managers i).running = some r) :
      (s.episodes i).began ≤ s.now ∧ ∀ sent ∈ (s.episodes i).requests, sent.time ≤ s.now :=
    have hok := (h.running i r hr).1
    ⟨hok.bound, hok.past⟩
  cases hs with
  | idle i d hd hrun =>
    refine ⟨hidle hd, h.tree, h.strict, fun j r hr => ?_, h.ended⟩
    by_cases hj : j = i
    · rw [hj] at hr
      change ((Function.update s.managers i d) i).running = some r at hr
      rw [Function.update_self, hrun] at hr
      cases hr
    · change ((Function.update s.managers i d) j).running = some r at hr
      rw [Function.update_of_ne hj] at hr
      exact h.running j r hr
  | call i c d hd hmgr hconn hrun =>
    refine ⟨hidle hd, h.tree, h.strict, fun j r hr => ?_, h.ended⟩
    change ((Function.update s.managers i d) j).running = some r at hr
    show EpisodeOk server data data₀ s.journal (s.author j) (Function.update s.episodes i _ j) ∧
      UnderWay (Function.update s.episodes i _ j) r
    by_cases hj : j = i
    · subst hj
      rw [Function.update_self, hrun] at hr
      obtain rfl := Option.some.inj hr
      rw [Function.update_self]
      -- an operation that has just begun has sent nothing
      refine ⟨⟨Nat.le_refl _, nofun, nofun, .nil, nofun⟩, ?_⟩
      show Dialogue.Goes _ _ _
      rw [← hmgr, ← hconn]
      exact .refl _
    · rw [Function.update_of_ne hj] at hr ⊢
      exact h.running j r hr
  | answer i zxid r op k d hrun hprog hd =>
    obtain ⟨hbegan, hlast⟩ := hpast hrun
    have hexec := h.execute hdata (h.isPlain hrun hprog) (some (s.author i))
    exact hexec.noted hrun hprog hd (journal_execute server s op _).length_le hbegan hlast
      (sound_execute h _ (.inr ⟨zxid, rfl⟩))
  | fail i ex r op k d hfail hrun hprog hd =>
    obtain ⟨hbegan, hlast⟩ := hpast hrun
    exact h.noted hrun hprog hd (Nat.le_refl _) hbegan hlast (.inl hfail)
  | lose i ex r op k d hfail hrun hprog hd =>
    obtain ⟨hbegan, hlast⟩ := hpast hrun
    have hexec := h.execute hdata (h.isPlain hrun hprog) (some (s.author i))
    exact hexec.noted hrun hprog hd (journal_execute server s op _).length_le hbegan hlast
      (sound_execute h _ (.inl hfail))
  | ret i r mgr value d hrun hprog hd hret =>
    obtain ⟨hok, hway⟩ := h.running i r hrun
    refine ⟨hidle hd, h.tree, h.strict, fun j r' hr' => ?_, fun j m f hf => ?_⟩
    · change ((Function.update s.managers i d) j).running = some r' at hr'
      by_cases hj : j = i
      · rw [hj, Function.update_self, hret] at hr'
        cases hr'
      · rw [Function.update_of_ne hj] at hr'
        show EpisodeOk server data data₀ s.journal (j, (Function.update s.ended i _ j).length) _ ∧ _
        rw [Function.update_of_ne hj]
        exact h.running j r' hr'
    · change (Function.update s.ended i _ j)[m]? = some f at hf
      by_cases hj : j = i
      · subst hj
        rw [Function.update_self] at hf
        -- an operation that ended before, or the one that has ended now
        by_cases hm : m < (s.ended j).length
        · rw [List.getElem?_append_left hm] at hf
          exact h.ended j m f hf
        · rw [List.getElem?_append_right (by omega), List.getElem?_singleton] at hf
          split at hf
          · obtain rfl := Option.some.inj hf
            obtain rfl : m = (s.ended j).length := by omega
            unfold UnderWay at hway
            rw [hprog] at hway
            refine ⟨Nat.le_refl _, ?_, hway⟩
            show EpisodeOk server data data₀ (s.journal.take s.journal.length) _ _
            rw [List.take_length]
            exact hok
          · cases hf
      · rw [Function.update_of_ne hj] at hf
        exact h.ended j m f hf
  | other op hplain => exact h.execute hdata hplain none

/-- The invariant holds in every state of a run. -/
theorem fleetInv_of_reachable (hdata : KeepsData server data) {tree : Tree}
    (h : Reachable (step server) (init tree) s) : FleetInv server data (data tree) s := by
  apply h.invariant (P := FleetInv server data (data tree))
  · have hidle : ServiceRegistry.init.client.Idle := ServiceRegistry.idle_of_reachable .refl
    constructor
    · exact fun _ => hidle
    · rfl
    · exact Journal.strict_nil _
    · intro i r hr
      cases hr
    · intro i m f hf
      cases hf
  · intro s a s' hinv _ hs
    exact (steps_of_step hinv.idle hs).fleetInv hdata hinv

end Fleet

end Rpc
