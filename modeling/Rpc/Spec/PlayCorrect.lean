import Rpc.Spec.DiscoveryCorrect

/-!
# Operations without interference

`ZkServer.play` runs a program of the manager against the answers of ZooKeeper alone.  In the
system the same program is a call, whose requests go through the client and the socket while
other clients may change the tree.  When they do not, and every request is answered, the
system does what `play` says (`exists_run_call`).
-/

namespace Rpc

open Transition Zk

namespace ZkServer

variable {Tree α β : Type} (server : ZkServer Tree) (tree : Tree)

/-- A program that goes on with another one: the other one finds the tree that the first leaves. -/
theorem play_bind (p : Dialogue Operation Outcome α) (f : α → Dialogue Operation Outcome β) :
    server.play tree (p >>= f) = server.play (server.play tree p).1 (f (server.play tree p).2) :=
  Dialogue.play_bind _ tree p f

/-- An operation of a connected registry is answered once. -/
theorem play_op (op : ServiceRegistry.Op) :
    server.play tree (op.program true).run = ((server.answer tree op.request).1,
      op.returns (.reply (server.answer tree op.request).2.1
        (server.answer tree op.request).2.2)) := by
  rw [op.run_program]
  rfl

/-- An operation of the registry leaves the manager alone. -/
theorem play_ofRegistry (m : NodeManager) (p : ServiceRegistry.Program α)
    (f : α → NodeManager.Value) :
    server.play tree (m.ofRegistry p f) =
      ((server.play tree p.run).1, m, (server.play tree p.run).2.map f) := by
  rw [NodeManager.ofRegistry, play_bind]
  rfl

end ZkServer

namespace Discovery

variable {Tree : Type} (server : ZkServer Tree) {s : Discovery Tree}

/-- The client can exchange requests. -/
structure Ready (s : Discovery Tree) : Prop where
  idle : s.registry.client.Idle
  opened : s.registry.client.broken = false

/-- Between the beginning and the end of an operation, only the tree and the client change. -/
structure Keeps (s s' : Discovery Tree) : Prop where
  ready : s'.Ready
  mgr : s'.mgr = s.mgr
  connected : s'.registry.connected = s.registry.connected

/-- The request that is waited for is answered. -/
theorem exists_step_answer {r : Running} {op : Operation} {k : Outcome → NodeManager.Program}
    (hready : s.Ready) (hrun : s.running = some r) (hprog : r.program = .ask op k) :
    ∃ s' r', s.step server (.answer 1) = some s' ∧ s.Keeps s' ∧
      s'.tree = (server.answer s.tree op).1 ∧ s'.running = some r' ∧
      r'.program = k (.reply (server.answer s.tree op).2.1 (server.answer s.tree op).2.2) := by
  -- the client sends the request and settles it with the reply
  obtain ⟨client, hsteps, hsettles, hopen⟩ := ZkClient.exists_settles_replied hready.idle
    hready.opened op 1 (server.answer s.tree op).2.1 (server.answer s.tree op).2.2
    (server.fits s.tree op)
  have hsend : sendRequest s.registry.client op (server.reply s.tree op 1) = some (client, _) :=
    sendRequest_of_settles hready.idle hsteps hsettles
  simp only [step, asked_eq hrun hprog, exchange, hrun, hprog, hsend, Option.map_some]
  exact ⟨_, _, rfl, ⟨⟨hsettles.idle, hopen⟩, rfl, rfl⟩, rfl, rfl, rfl⟩

/-- The rest of an operation, by induction on its program. -/
theorem exists_run_play {r : Running} (hready : s.Ready) (hrun : s.running = some r) :
    ∃ acts s' r', run (step server) s acts = some s' ∧ s.Keeps s' ∧
      s'.tree = (server.play s.tree r.program).1 ∧ s'.running = some r' ∧
      r'.program = .done (server.play s.tree r.program).2 := by
  -- the tree changes with each answer, so the induction is over all states
  generalize hprog : r.program = p
  induction p generalizing s r with
  | done a => exact ⟨[], s, r, rfl, ⟨hready, rfl, rfl⟩, rfl, hrun, hprog⟩
  | ask op k ih =>
    obtain ⟨s₁, r₁, hstep, hkeeps, htree, hrun₁, hprog₁⟩ :=
      exists_step_answer server hready hrun hprog
    obtain ⟨acts, s', r', hacts, hrest, htree', hrun', hprog'⟩ := ih _ hkeeps.ready hrun₁ hprog₁
    -- the rest starts with the tree that the answer leaves
    rw [htree] at htree' hprog'
    refine ⟨.answer 1 :: acts, s', r', ?_, ?_, htree', hrun', hprog'⟩
    · simp only [run, hstep, hacts]
    · exact ⟨hrest.ready, hrest.mgr.trans hkeeps.mgr, hrest.connected.trans hkeeps.connected⟩

/-- An operation that has ended returns. -/
theorem exists_step_ret {r : Running} {ret : NodeManager × Except Fault NodeManager.Value}
    (hrun : s.running = some r) (hprog : r.program = .done ret) :
    ∃ s', s.step server .ret = some s' ∧ s'.tree = s.tree ∧ s'.registry = s.registry ∧
      s'.mgr = ret.1 ∧ s'.running = none := by
  simp only [step, hrun, hprog]
  exact ⟨_, rfl, rfl, rfl, rfl, rfl⟩

/-- An operation that is called while none is under way: when nothing interferes, the system
    ends with the tree and the manager of `play`. -/
theorem exists_run_call (hready : s.Ready) (hidle : s.running = none) (c : NodeManager.Call) :
    ∃ acts s', run (step server) s (.call c :: acts ++ [.ret]) = some s' ∧ s'.Ready ∧
      s'.running = none ∧ s'.registry.connected = s.registry.connected ∧
      s'.tree = (server.play s.tree (c.program s.registry.connected s.mgr)).1 ∧
      s'.mgr = (server.play s.tree (c.program s.registry.connected s.mgr)).2.1 := by
  -- the operation as it starts, with nothing exchanged
  let r : Running :=
    { call := c, program := c.program s.registry.connected s.mgr, exchanges := [] }
  have hcall : s.step server (.call c) = some { s with running := some r } := by
    simp only [step, hidle]
    rfl
  have hready' : ({ s with running := some r } : Discovery Tree).Ready :=
    ⟨hready.idle, hready.opened⟩
  obtain ⟨acts, s₁, r₁, hacts, hkeeps, htree, hrun₁, hprog₁⟩ :=
    exists_run_play server hready' rfl
  obtain ⟨s', hret, htree', hregistry, hmgr, hrunning⟩ :=
    exists_step_ret server hrun₁ hprog₁
  -- the call, its exchanges and the return
  refine ⟨acts, s', ?_, ?_, hrunning, ?_, htree'.trans htree, hmgr⟩
  · simp only [List.cons_append, run, hcall, run_append, hacts, Option.bind_some, hret]
  · constructor
    · rw [hregistry]
      exact hkeeps.ready.idle
    · rw [hregistry]
      exact hkeeps.ready.opened
  · rw [hregistry, hkeeps.connected]

end Discovery

end Rpc
