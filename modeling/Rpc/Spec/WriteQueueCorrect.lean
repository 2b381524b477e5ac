import Rpc.Spec.ClientSteps
import Rpc.Spec.ConnectionSteps

/-!
# The write queues

`Connection` and `RpcClient` serialise their writes by the same protocol, the
one of `WriteChain`: every step of either leaves its chain alone or is a step of
the chain, so the chain's invariant holds in every reachable state.  They differ
in what a failed write does: the connection's handler breaks the chain (and
closes), the client's goes on.
-/

namespace Rpc

open Transition

/-! ## The server's connection -/

namespace Connection

/-- A step leaves the chain alone, moves it on, or breaks it and closes. -/
theorem Steps.writes {c c' : Connection} {a : Act} (h : Steps c a c') :
    c'.writes = c.writes ∨ c.writes.Continues c'.writes ∨
      (∃ data, c.writes.abort data = some c'.writes) ∧ c'.closed = true := by
  cases h with
  | push t data hmem => exact .inr (.inl (.push t data rfl))
  | pop t w hw => exact .inr (.inl (.pop t hw))
  | startWrite t data w hw => exact .inr (.inl (.start t data hw))
  | writeDone data w hw => exact .inr (.inl (.complete none data hw))
  | writeError data w hw => exact .inr (.inr ⟨⟨data, hw⟩, closeOnce_closed c⟩)
  | readEnded a hread => exact .inl (closeOnce_writes c)
  | _ => exact .inl rfl

/-- No frame is forgotten. -/
theorem Steps.prefix_pushed {c c' : Connection} {a : Act} (h : Steps c a c') :
    c.writes.pushed <+: c'.writes.pushed := by
  obtain heq | hcont | ⟨⟨data, habort⟩, -⟩ := h.writes
  · exact heq ▸ List.prefix_rfl
  · exact hcont.prefix_pushed
  · exact WriteChain.abort_pushed habort ▸ List.prefix_rfl

/-- The chain has one of its shapes, and is whole while the connection is open. -/
structure WritesInv (c : Connection) : Prop where
  chain : c.writes.Inv
  whole : c.closed = false → c.writes.lost = []

/-- Every step keeps the chain in shape. -/
theorem Steps.writesInv {c c' : Connection} {a : Act} (h : Steps c a c') (hinv : WritesInv c) :
    WritesInv c' := by
  -- a closed connection stays closed
  have hopen : c'.closed = false → c.closed = false := by
    intro hc'
    by_contra hc
    rw [h.closed (by simpa using hc)] at hc'
    cases hc'
  obtain heq | hcont | ⟨⟨data, habort⟩, hclosed⟩ := h.writes
  · exact ⟨heq ▸ hinv.chain, fun hc => heq ▸ hinv.whole (hopen hc)⟩
  · exact ⟨hinv.chain.continues hcont, fun hc => hcont.lost_eq.trans (hinv.whole (hopen hc))⟩
  · -- a broken chain belongs to a closed connection
    exact ⟨hinv.chain.abort habort, fun hc => by rw [hclosed] at hc; cases hc⟩

/-- A connection has it in every state of a run. -/
theorem writesInv_of_reachable {c : Connection} (h : Reachable step init c) : WritesInv c :=
  h.invariant ⟨WriteChain.inv_empty, fun _ => rfl⟩ fun _ _ _ hinv _ hs =>
    (steps_of_step hs).writesInv hinv

end Connection

/-! ## The client -/

namespace RpcClient

/-- No frame is forgotten. -/
theorem Steps.prefix_pushed {s s' : RpcClient} {a : Act} (h : Steps s a s') :
    s.writes.pushed <+: s'.writes.pushed := by
  obtain heq | hcont := h.writes
  · exact heq ▸ List.prefix_rfl
  · exact hcont.prefix_pushed

/-- The client's chain is never broken: a failed write goes on with the next. -/
structure WritesInv (s : RpcClient) : Prop where
  chain : s.writes.Inv
  whole : s.writes.lost = []

/-- Every step keeps the chain whole. -/
theorem Steps.writesInv {s s' : RpcClient} {a : Act} (h : Steps s a s') (hinv : WritesInv s) :
    WritesInv s' := by
  obtain heq | hcont := h.writes
  · exact ⟨heq ▸ hinv.chain, heq ▸ hinv.whole⟩
  · exact ⟨hinv.chain.continues hcont, hcont.lost_eq.trans hinv.whole⟩

/-- A client has it in every state of a run. -/
theorem writesInv_of_reachable {s : RpcClient} (h : Reachable step init s) : WritesInv s :=
  h.invariant ⟨WriteChain.inv_empty, rfl⟩ fun _ _ _ hinv _ hs => (steps_of_step hs).writesInv hinv

end RpcClient

/-! ## Both -/

/-- As long as no write has failed and the connection is open, the writes of a
    connection and of a client are serialised, and the completion of an
    outstanding write commits the io thread to the next pop. -/
theorem writeQueues_serialised :
    (∀ c, Reachable Connection.step Connection.init c → c.closed = false →
      c.writes.Serialised ∧ ∀ data ∈ c.writes.inflight, ∃ c',
        c.step (.writeDone data) = some c' ∧ (none, .committed) ∈ c'.writes.threads) ∧
    (∀ s, Reachable RpcClient.step RpcClient.init s → s.writeFailed = false →
      s.ioStopped = false →
      s.writes.Serialised ∧ ∀ item ∈ s.writes.inflight, ∃ s',
        s.step (.writeDone item) = some s' ∧ (none, .committed) ∈ s'.writes.threads) := by
  constructor
  · intro c h hopen
    have hinv := Connection.writesInv_of_reachable h
    refine ⟨hinv.chain.serialised (hinv.whole hopen), ?_⟩
    intro data hdata
    -- the write in flight can be completed, by the io thread
    obtain ⟨w, hw, hmem⟩ := WriteChain.complete_of_mem none hdata
    exact ⟨{ c with writes := w }, by simp only [Connection.step, hw, Option.map_some], hmem⟩
  · intro s h _ hio
    have hinv := RpcClient.writesInv_of_reachable h
    refine ⟨hinv.chain.serialised hinv.whole, ?_⟩
    intro item hitem
    -- the same of the client, whose io thread runs
    obtain ⟨w, hw, hmem⟩ := WriteChain.complete_of_mem none hitem
    refine ⟨{ s with writes := w }, ?_, hmem⟩
    simp only [RpcClient.step, hio, hw, Option.map_some, Bool.false_eq_true, if_false]

/-- Two threads in `send` on one connection, two in `call()` on one client: the
    second frame of each is queued while the first is in flight. -/
theorem writeQueues_serialised_twoSenders :
    (∃ c, Reachable Connection.step Connection.init c ∧ c.writes.inflight.length = 1 ∧
      c.writes.queue.length = 1 ∧ c.writes.Serialised) ∧
    ∃ s, Reachable RpcClient.step RpcClient.init s ∧ s.writes.inflight.length = 1 ∧
      s.writes.queue.length = 1 ∧ s.writes.Serialised := by
  constructor
  · have hrun : ∃ c, Reachable Connection.step Connection.init c ∧ c.closed = false ∧
        c.writes.inflight.length = 1 ∧ c.writes.queue.length = 1 := exists_reachable_of_run
      [.send (some 0) (requestHeader 1 0) [], .send (some 1) (requestHeader 2 0) [],
       .push (some 0) (Connection.frame (requestHeader 1 0) []),
       .push (some 1) (Connection.frame (requestHeader 2 0) []),
       .pop (some 0), .startWrite (some 0) (Connection.frame (requestHeader 1 0) [])] (by decide)
    obtain ⟨c, hc, hopen, hinflight, hqueue⟩ := hrun
    exact ⟨c, hc, hinflight, hqueue, (writeQueues_serialised.1 c hc hopen).1⟩
  · let call : Call := { service := [97], method := [98], params := [], timeoutMs := 5000,
                         seqId := 1, phase := .enqueued }
    have hrun : ∃ s, Reachable RpcClient.step RpcClient.init s ∧ s.writeFailed = false ∧
        s.ioStopped = false ∧ s.writes.inflight.length = 1 ∧ s.writes.queue.length = 1 :=
      exists_reachable_of_run
      [.call [97] [98] [] 5000, .call [97] [98] [] 5000, .register 1, .register 0, .enqueue 0,
       .enqueue 1, .pop (some 0),
       .startWrite (some 0) { frame := call.frame, seqId := 1, call := 0 }] (by decide)
    obtain ⟨s, hs, hwrite, hio, hinflight, hqueue⟩ := hrun
    exact ⟨s, hs, hinflight, hqueue, (writeQueues_serialised.2 s hs hwrite hio).1⟩

end Rpc
