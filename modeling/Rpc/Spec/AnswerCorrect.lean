import Rpc.Spec.SystemProgress

/-!
# Every call gets its answer

The steps that take a message further use up a load that only a new call can raise
(`System.load`): a frame that has been pushed pays for being written, read, handled
and answered, a message that has been delivered for the response on its way back.
So a calm run makes finitely many of them, and when it has made the last one, every
call has been completed with the response to its own request
(`every_call_answered`).
-/

namespace Rpc

open Transition

/-! ## At most one response for each message -/

/-- Only `send` makes a frame, and makes one. -/
theorem Connection.Steps.frames_length {c c' : Connection} {a : Connection.Act}
    (h : Connection.Steps c a c') : c'.frames.length ≤ c.frames.length + 1 ∧
      ((∀ t header body, a ≠ .send t header body) → c'.frames.length = c.frames.length) := by
  -- what has been sent and what has been pushed stay as they are
  have hsame : c'.sending = c.sending → c'.writes.pushed = c.writes.pushed →
      c'.frames.length ≤ c.frames.length + 1 ∧
        ((∀ t header body, a ≠ .send t header body) → c'.frames.length = c.frames.length) := by
    intro hsending hpushed
    rw [Connection.frames, Connection.frames, hsending, hpushed]
    exact ⟨Nat.le_succ _, fun _ => rfl⟩
  cases h with
  | send t header body hclosed =>
    refine ⟨?_, fun hne => absurd rfl (hne t header body)⟩
    show ((_ :: c.sending).map Prod.snd ++ c.writes.pushed).length ≤ _
    simp only [Connection.frames, List.map_cons, List.cons_append, List.length_cons]
    omega
  -- a frame moves from those sent to those pushed
  | push t data hmem =>
    have hlen := List.length_erase_of_mem hmem
    have hpos := List.length_pos_of_mem hmem
    have heq : ((c.sending.erase (t, data)).map Prod.snd ++ (c.writes.pushed ++ [data])).length =
        c.frames.length := by
      simp only [Connection.frames, List.length_append, List.length_map, hlen,
        List.length_singleton]
      omega
    exact ⟨heq.le.trans (Nat.le_succ _), fun _ => heq⟩
  | pop t w hw => exact hsame rfl (WriteChain.pop_history hw).2.1
  | startWrite t data w hw => exact hsame rfl (WriteChain.start_history hw).2.1
  | writeDone data w hw => exact hsame rfl (WriteChain.complete_history hw).2.1
  | writeError data w hw =>
    exact hsame (Connection.closeOnce_sending c) (WriteChain.abort_pushed hw)
  | readEnded a hread =>
    exact hsame (Connection.closeOnce_sending c)
      (congrArg WriteChain.pushed (Connection.closeOnce_writes c))
  | _ => exact hsame rfl rfl

namespace Server

/-- A connection has no more frames than were sent on it. -/
def FrameCount (s : Server) : Prop := ∀ k, (s.conns k).frames.length ≤ (s.sentTo k).length

/-- A step of connection `j` other than `send`. -/
theorem FrameCount.of_conn {s s' : Server} (hinv : FrameCount s) {j : Nat} {b : Connection.Act}
    {c : Connection} (hc : (s.conns j).step b = some c)
    (hsend : ∀ t header body, b ≠ .send t header body)
    (hconns : s'.conns = Function.update s.conns j c) (hsends : s'.sends = s.sends) :
    FrameCount s' := by
  intro k
  rw [sentTo, hsends, hconns]
  by_cases hk : k = j
  · subst hk
    rw [Function.update_self, (Connection.steps_of_step hc).frames_length.2 hsend]
    exact hinv k
  · rw [Function.update_of_ne hk]
    exact hinv k

/-- A step of the server makes a frame by `send` only. -/
theorem Steps.frameCount {s s' : Server} {a : Act} (h : Steps s a s') (hinv : FrameCount s) :
    FrameCount s' := by
  cases h with
  | conn k b c hown hidle hc =>
    refine hinv.of_conn hc ?_ rfl rfl
    rintro t header body rfl
    cases hown
  | refuse k job pool c hcur hnew hpool hstop hc => exact hinv.of_conn hc (by simp) rfl rfl
  | leave k job c hcur hhandled hc => exact hinv.of_conn hc (by simp) rfl rfl
  | escapeInline n inv fault c hn hp hthread hfault hc => exact hinv.of_conn hc (by simp) rfl rfl
  -- on its connection there is one more send, and at most one more frame
  | send n inv services resp c hn hp hc =>
    intro k
    show (Function.update s.conns inv.job.conn c k).frames.length ≤
      ((s.sends ++ [_]).filter fun x : Send => x.conn = k).length
    rw [List.filter_append, List.length_append]
    by_cases hk : k = inv.job.conn
    · subst hk
      rw [Function.update_self, List.filter_cons_of_pos (by simp)]
      exact (Connection.steps_of_step hc).frames_length.1.trans (Nat.succ_le_succ (hinv _))
    · rw [Function.update_of_ne hk]
      exact (hinv k).trans (Nat.le_add_right _ _)
  | submit | inline | pool | activate | finish | respond | escapeTask | done | services =>
    exact hinv

section

variable {services : ServiceManager} {threads : Option (UInt64 × UInt32)} {s : Server}

/-- In every state there are no more frames than were sent. -/
theorem frameCount_of_reachable (h : Reachable step (init services threads) s) : FrameCount s :=
  h.invariant (fun _ => Nat.le_refl 0) fun _ _ _ hinv _ hs => (steps_of_step hs).frameCount hinv

/-- A connection has no more invocations than messages. -/
theorem length_invocations_le (hjobs : JobInv s) (k : Nat) :
    (s.invocations.filter fun inv => inv.job.conn = k).length ≤ (s.conns k).delivered.length := by
  let invs := s.invocations.filter fun inv => inv.job.conn = k
  have hconn : ∀ inv ∈ invs, inv ∈ s.invocations ∧ inv.job.conn = k := by
    intro inv hmem
    obtain ⟨hmem, hconn⟩ := List.mem_filter.mp hmem
    exact ⟨hmem, of_decide_eq_true hconn⟩
  -- each has a place of its own among the messages
  have hnodup : (invs.map fun inv => inv.job.index).Nodup := by
    apply List.Nodup.map_on _ (hjobs.nodup_invocations.of_map.filter _)
    intro inv hmem inv' hmem' hindex
    obtain ⟨hmem, hk⟩ := hconn inv hmem
    obtain ⟨hmem', hk'⟩ := hconn inv' hmem'
    exact hjobs.unique hmem hmem' (Prod.ext (hk.trans hk'.symm) hindex)
  -- its place is that of a message delivered
  have hsub : (invs.map fun inv => inv.job.index) ⊆ List.range (s.conns k).delivered.length := by
    intro j hj
    obtain ⟨inv, hmem, rfl⟩ := List.mem_map.mp hj
    obtain ⟨hmem, hk⟩ := hconn inv hmem
    have hdel := hjobs.delivered inv.job (mem_jobs_of_mem_invocations hmem)
    rw [hk] at hdel
    exact List.mem_range.mpr (List.getElem?_eq_some_iff.mp hdel).1
  have hle := (List.subperm_of_subset hnodup hsub).length_le
  rw [List.length_map, List.length_range] at hle
  exact hle

/-- A connection pushes no more frames than it has delivered messages. -/
theorem pushed_le_delivered (h : Reachable step (init services threads) s) (k : Nat) :
    (s.conns k).writes.pushed.length ≤ (s.conns k).delivered.length := by
  have hframes : (s.conns k).writes.pushed.length ≤ (s.conns k).frames.length := by
    rw [Connection.frames, List.length_append]
    exact Nat.le_add_left _ _
  -- each send is that of another invocation
  have hsends : (s.sentTo k).length ≤
      (s.invocations.filter fun inv => inv.job.conn = k).length := by
    have hperm := ((sendInv_of_reachable h).sends.filter fun x => x.conn = k).length_eq
    rw [filter_sent] at hperm
    exact hperm.le.trans (List.length_filterMap_le _ _)
  exact hframes.trans ((frameCount_of_reachable h k).trans
    (hsends.trans (length_invocations_le (jobInv_of_reachable h) k)))

end

end Server

/-! ## The load -/

/-- A completed write commits the io thread to the next pop. -/
theorem load_complete {T F : Type} [DecidableEq F] {w w' : WriteChain T F} {t : T} {f : F}
    (h : w.complete t f = some w') : w'.load = w.load + 2 := by
  simp only [WriteChain.complete] at h
  split at h
  · obtain rfl := Option.some.inj h
    simp only [WriteChain.load, List.map_cons, List.sum_cons, WriteStage.load]
    omega
  · cases h

namespace Connection

/-- What the read loop has to do for the frame it is at. -/
def Reading.weight : Reading → Nat
  | .idle => 3
  | .header => 2
  | .body _ => 1
  | .handling .. | .ended => 0

/-- The read loop has at most three steps to its next message. -/
theorem Reading.weight_le (r : Reading) : r.weight ≤ 3 := by
  cases r <;> simp [weight]

/-- Only a body read delivers, and only a completed write finishes a frame. -/
theorem Steps.keeps {c c' : Connection} {a : Act} (h : Steps c a c')
    (hbody : ∀ body, a ≠ .readBody body) (hdone : ∀ data, a ≠ .writeDone data) :
    c'.delivered = c.delivered ∧ c'.writes.finished = c.writes.finished := by
  cases h with
  | bodyRead header body => exact absurd rfl (hbody body)
  | writeDone data w hw => exact absurd rfl (hdone data)
  -- a write that begins or fails is not a completed one
  | pop t w hw => exact ⟨rfl, (WriteChain.pop_history hw).1⟩
  | startWrite t data w hw => exact ⟨rfl, (WriteChain.start_history hw).1⟩
  | writeError data w hw =>
    refine ⟨closeOnce_delivered c, ?_⟩
    simp only [WriteChain.abort] at hw
    split at hw
    · obtain rfl := Option.some.inj hw
      rfl
    · cases hw
  | readEnded a hread =>
    exact ⟨closeOnce_delivered c, congrArg WriteChain.finished (closeOnce_writes c)⟩
  | _ => exact ⟨rfl, rfl⟩

end Connection

namespace Server

/-- The io thread has at most this to do for one message. -/
theorem ioLoad_le (s : Server) : s.ioLoad ≤ 17 := by
  unfold ioLoad
  split
  · split <;> omega
  · omega

/-- A driven step delivers nothing, and finishes no frame. -/
theorem Steps.keeps {s s' : Server} {a : Act} (h : Steps s a s') (hdriven : driven a = true)
    (k : Nat) : (s'.conns k).delivered = (s.conns k).delivered ∧
      (s'.conns k).writes.finished = (s.conns k).writes.finished := by
  -- a step of one connection that is no read of a body and no completed write
  have hset : ∀ (j : Nat) (b : Connection.Act) (c : Connection), (s.conns j).step b = some c →
      (∀ body, b ≠ .readBody body) → (∀ data, b ≠ .writeDone data) →
      (Function.update s.conns j c k).delivered = (s.conns k).delivered ∧
        (Function.update s.conns j c k).writes.finished = (s.conns k).writes.finished := by
    intro j b c hc hbody hdone
    by_cases hk : k = j
    · subst hk
      rw [Function.update_self]
      exact (Connection.steps_of_step hc).keeps hbody hdone
    · rw [Function.update_of_ne hk]
      exact ⟨rfl, rfl⟩
  cases h with
  | conn j b c hown hidle hc =>
    refine hset j b c hc ?_ ?_
    · rintro body rfl
      cases hdriven
    · rintro data rfl
      cases hdriven
  | refuse j job pool c hcur hnew hpool hstop hc => exact hset _ _ c hc (by simp) (by simp)
  | leave j job c hcur hhandled hc => exact hset _ _ c hc (by simp) (by simp)
  | escapeInline n inv fault c hn hp hthread hfault hc => exact hset _ _ c hc (by simp) (by simp)
  | send n inv services resp c hn hp hc => exact hset _ _ c hc (by simp) (by simp)
  | _ => exact ⟨rfl, rfl⟩

/-- A step of connection 0 changes the load by what it does to the connection and
    to the read handler. -/
theorem load_setConn (s : Server) {N : Nat} (hN : 0 < N) (c : Connection) (inMessage : Option Nat) :
    load N { s.setConn 0 c with inMessage } + connLoad (s.conns 0) + s.ioLoad =
      load N s + connLoad c + ioLoad { s.setConn 0 c with inMessage } := by
  have hsum := sum_connLoad_update s.conns hN c
  simp only [load, setConn]
  omega

end Server

namespace RpcClient

/-- What the read loop has to do for the frame it is at. -/
def Reading.weight : Reading → Nat
  | .notStarted | .matched .. => 3
  | .header => 2
  | .body _ => 1
  | .ended => 0

/-- The steps a call has to take until its frame is in the queue, and those of the frame. -/
def phaseLoad : CallPhase → Nat
  | .allocated => 89
  | .registered => 88
  | .enqueued => 0

/-- What the callers, the threads inside of the write path and the read loop have to do. -/
def load (s : RpcClient) : Nat :=
  (s.calls.map fun call => phaseLoad call.phase).sum + s.writes.load + s.reading.weight

/-- A call goes on to its next phase. -/
theorem load_setPhase {s : RpcClient} {c : Nat} {call : Call} (phase : CallPhase)
    (hcall : s.calls[c]? = some call) :
    ((s.setPhase c call phase).map fun call => phaseLoad call.phase).sum + phaseLoad call.phase =
      (s.calls.map fun call => phaseLoad call.phase).sum + phaseLoad phase :=
  List.sum_map_set (fun call : Call => phaseLoad call.phase) { call with phase } hcall

/-- A step that moves a frame on costs the client a part of its load.  A frame that is
    pushed brings 85 with it, of which 3 are for its write; a response costs 4. -/
theorem Steps.load_lt {s s' : RpcClient} {a : Act} (h : Steps s a s') (hcalm : calm a = true)
    (hcall : ∀ service method params timeoutMs, a ≠ .call service method params timeoutMs)
    (hloop : s'.reading ≠ .ended) :
    s'.load + 85 * s'.writes.pushed.length + 3 * s.writes.finished.length +
        4 * s.received.length <
      s.load + 85 * s.writes.pushed.length + 3 * s'.writes.finished.length +
        4 * s'.received.length := by
  cases h with
  | call service method params timeoutMs => exact absurd rfl (hcall service method params timeoutMs)
  | register c call hget hphase =>
    have hsum := load_setPhase .registered hget
    rw [hphase] at hsum
    simp only [load, phaseLoad] at hsum ⊢
    omega
  -- the frame brings 85 for its way, and the call has no steps of its own left
  | enqueue c call hget hphase =>
    have hsum := load_setPhase .enqueued hget
    have hpush := s.writes.load_push_le (some c)
      { frame := call.frame, seqId := call.seqId, call := c }
    rw [hphase] at hsum
    simp only [load, phaseLoad] at hsum ⊢
    simp only [WriteChain.push, List.length_append, List.length_singleton] at hpush ⊢
    omega
  | connected hreading =>
    simp only [load, hreading, Reading.weight]
    omega
  | headerRead hdrData header hreading =>
    simp only [load, hreading, Reading.weight]
    omega
  | bodyRead header body resp hreading =>
    simp only [load, hreading, Reading.weight, List.length_append, List.length_singleton]
    omega
  | setValue header body resp call hreading =>
    simp only [load, onMatched, hreading, Reading.weight]
    omega
  | pop t w hw =>
    obtain ⟨hfinished, hpushed, -⟩ := WriteChain.pop_history hw
    have hlt := WriteChain.load_pop_lt hw
    simp only [load, hfinished, hpushed]
    omega
  | startWrite t item w hw =>
    obtain ⟨hfinished, hpushed, -⟩ := WriteChain.start_history hw
    have hlt := WriteChain.load_start_lt hw
    simp only [load, hfinished, hpushed]
    omega
  -- the thread has to look for the next frame, for which the write pays
  | writeDone item w hio hw =>
    obtain ⟨hfinished, hpushed, -⟩ := WriteChain.complete_history hw
    have hload := load_complete hw
    simp only [load, hfinished, hpushed, hload, List.length_append, List.length_singleton]
    omega
  | readEnded a reason => exact absurd rfl hloop
  | writeError | stopIo | joinIo => cases hcalm

end RpcClient

namespace Server

/-- What the server still has to do on the client's connection, and for it. -/
def streamLoad (N : Nat) (s : Server) : Nat :=
  4 * load N s + (s.conns 0).reading.weight

/-- A step of the network on connection 0 costs the server a part of its load.  A
    message that is delivered brings 69 with it, of which 68 are for its job, and a
    frame whose write is completed pays 9. -/
theorem streamLoad_conn {s s' : Server} {N : Nat} (hN : 0 < N) {b : Connection.Act}
    (h : Steps s (.conn 0 b) s') (hstarts : startsHandler b = true)
    (hcalm : Connection.calm b = true) (hloop : (s'.conns 0).reading ≠ .ended) :
    s'.streamLoad N + 69 * (s.conns 0).delivered.length +
        9 * (s.conns 0).writes.finished.length <
      s.streamLoad N + 69 * (s'.conns 0).delivered.length +
        9 * (s'.conns 0).writes.finished.length := by
  cases h with
  | conn k b c hown hidle hc =>
    have hin : s.inMessage = none := by
      have hidle := hidle hstarts
      simp only [ioIdle, Bool.and_eq_true, Option.isNone_iff_eq_none] at hidle
      exact hidle.2
    have hset := s.load_setConn hN c (if callsOnMessage b then some 0 else s.inMessage)
    have hle := ioLoad_le
      { s.setConn 0 c with inMessage := if callsOnMessage b then some 0 else s.inMessage }
    -- outside of `on_message_` the io thread has nothing to do
    have hzero : callsOnMessage b = false →
        ioLoad { s.setConn 0 c with
          inMessage := if callsOnMessage b then some 0 else s.inMessage } = 0 := by
      intro hno
      simp only [ioLoad, hno, hin, Bool.false_eq_true, if_false, Option.bind_none]
    have hself : (Function.update s.conns 0 c) 0 = c := Function.update_self ..
    simp only [setConn] at hset hle hzero
    simp only [streamLoad, setConn, hself] at hloop ⊢
    cases Connection.steps_of_step hc with
    | startRead hreading =>
      have hzero := hzero rfl
      simp only [connLoad, hreading, Connection.Reading.weight] at hset ⊢
      omega
    | headerRead hdrData header hreading =>
      have hzero := hzero rfl
      simp only [connLoad, hreading, Connection.Reading.weight] at hset ⊢
      omega
    -- the message brings 69, for its handler and for the next read
    | bodyRead header body hreading =>
      simp only [connLoad, hreading, Connection.Reading.weight, List.length_append,
        List.length_singleton] at hset ⊢
      omega
    -- the io thread has to look for the next frame, for which the write pays
    | writeDone data w hw =>
      have hzero := hzero rfl
      have hload := load_complete hw
      simp only [connLoad, hload, (WriteChain.complete_history hw).1, List.length_append,
        List.length_singleton] at hset ⊢
      omega
    | readEnded a hread => exact absurd rfl hloop
    | writeError data w hw => cases hcalm
    | _ => cases hstarts
  | services a services ha =>
    obtain ⟨service, ha⟩ | ⟨name, ha⟩ := ha <;> cases ha

/-- A driven step costs the server a part of its load. -/
theorem streamLoad_driven {s s' : Server} {a : Act} {N : Nat} (h : Steps s a s')
    (hdriven : driven a = true) (hjobs : JobInv s) (hflow : FlowInv s) (hN : Untouched N s) :
    s'.streamLoad N + 69 * (s.conns 0).delivered.length +
        9 * (s.conns 0).writes.finished.length <
      s.streamLoad N + 69 * (s'.conns 0).delivered.length +
        9 * (s'.conns 0).writes.finished.length := by
  obtain ⟨hdel, hfinished⟩ := h.keeps hdriven 0
  -- the read loop goes on at most once for each of them
  have hlt := h.load_lt hdriven hjobs hflow hN
  have hweight := (s'.conns 0).reading.weight_le
  rw [hdel, hfinished]
  simp only [streamLoad]
  omega

end Server

namespace System

/-- A bound on the steps to come that take a message further, when the connections
    of the server from `N` on have not been used. -/
def load (N : Nat) (s : System) : Nat :=
  s.client.load + s.server.streamLoad N +
    3 * (s.client.writes.pushed.length - s.client.writes.finished.length) +
    82 * (s.client.writes.pushed.length - (s.server.conns 0).delivered.length) +
    4 * ((s.server.conns 0).delivered.length - s.client.received.length) +
    9 * ((s.server.conns 0).delivered.length - (s.server.conns 0).writes.finished.length)

/-- Nothing overtakes what it waits for. -/
structure CountInv (s : System) : Prop where
  written : s.client.writes.finished.length ≤ s.client.writes.pushed.length
  delivered : (s.server.conns 0).delivered.length ≤ s.client.writes.pushed.length
  received : s.client.received.length ≤ (s.server.conns 0).delivered.length
  answered : (s.server.conns 0).writes.finished.length ≤ (s.server.conns 0).delivered.length

section

variable {services : ServiceManager} {threads : Option (UInt64 × UInt32)} {s : System}

/-- The counts keep their order in every run within limits. -/
theorem countInv_of_reaches (h : Reaches step WithinLimits (init services threads) s) :
    CountInv s := by
  have hstream := streamInv_of_reaches h
  have hclient := (RpcClient.writesInv_of_reachable (client_reachable h)).chain
  have hserver := (Connection.writesInv_of_reachable
    (Server.conn_reachable (server_reachable h) 0)).chain
  have hpushed := Server.pushed_le_delivered (server_reachable h) 0
  constructor
  · exact hclient.prefix_finished.length_le
  -- what is delivered has been pushed by the client
  · have hle := (hstream.prefix_delivered (pushedUp_wellFormed h)).length_le
    rw [pushedUp, List.length_map, List.length_map] at hle
    exact hle
  -- what is received has been pushed by the server, for a message delivered
  · have hle := (hstream.prefix_received (pushedDown_wellFormed h)).length_le
    rw [List.length_map] at hle
    exact hle.trans hpushed
  · exact hserver.prefix_finished.length_le.trans hpushed

/-- Every step that takes a message further lowers the load. -/
theorem load_lt (h : Reaches step Calm (init services threads) s) {N : Nat} (hpos : 0 < N)
    (hN : Server.Untouched N s.server) {a : Act} {s' : System} (hmoves : moves a = true)
    (hcalm : Calm s a) (hstep : s.step a = some s') : load N s' < load N s := by
  have hcount := countInv_of_reaches (withinLimits_of_calm h)
  have hafter := h.tail a hcalm hstep
  have hcount' := countInv_of_reaches (withinLimits_of_calm hafter)
  have hinv' := calmInv_of_reaches hafter
  -- the differences in the load are differences of these counts
  obtain ⟨hw, hd, hr, ha⟩ := hcount
  obtain ⟨hw', hd', hr', ha'⟩ := hcount'
  cases steps_of_step hstep with
  | client a client up down hex hc =>
    have hlt := (RpcClient.steps_of_step hc).load_lt hcalm.2
      (by rintro service method params timeoutMs rfl; cases hmoves) hinv'.client.loop
    simp only [load] at hlt hw' hd' hr' ⊢
    omega
  | server a server up down hex hs =>
    have hsteps := Server.steps_of_step hs
    have hlt : server.streamLoad N + 69 * (s.server.conns 0).delivered.length +
        9 * (s.server.conns 0).writes.finished.length <
      s.server.streamLoad N + 69 * (server.conns 0).delivered.length +
        9 * (server.conns 0).writes.finished.length := by
      -- a step of the threads of the server, or of the network
      by_cases hdriven : Server.driven a = true
      · exact Server.streamLoad_driven hsteps hdriven
          (Server.jobInv_of_reachable (server_reachable h))
          (Server.flowInv_of_reachable (server_reachable h)).1 hN
      · -- the network of the client's connection
        obtain ⟨b, rfl, hstarts⟩ : ∃ b, a = .conn 0 b ∧ Server.startsHandler b = true := by
          cases a with
          | conn k b =>
            cases k with
            | zero =>
              cases b <;> first | exact ⟨_, rfl, rfl⟩ | exact absurd rfl hdriven | cases hmoves
            | succ k => exact absurd hmoves hdriven
          | _ => exact absurd hmoves hdriven
        exact Server.streamLoad_conn hpos hsteps hstarts hcalm.2.1 hinv'.server.loop
    simp only [load] at hd' hr' ha' ⊢
    omega

/-- The steps that take a message further use no new connection. -/
theorem untouched_of_moves (h : Reaches step Calm (init services threads) s) {N : Nat}
    (hpos : 0 < N) (hN : Server.Untouched N s.server) {a : Act} {s' : System}
    (hmoves : moves a = true) (hstep : s.step a = some s') : Server.Untouched N s'.server := by
  cases steps_of_step hstep with
  | client a client up down hex hc => exact hN
  | server a server up down hex hs =>
    apply (Server.steps_of_step hs).untouched (Server.jobInv_of_reachable (server_reachable h)) hN
    -- a step on another connection is one of a connection in use
    rintro k b rfl
    cases k with
    | zero => exact .inr hpos
    | succ k => exact .inl hmoves

/-- The steps that take a message further run out. -/
theorem moves_run_bounded (h : Reaches step Calm (init services threads) s) :
    ∃ bound, ∀ acts t, (∀ a ∈ acts, moves a = true) →
      run (guarded step Calm) s acts = some t → acts.length ≤ bound := by
  obtain ⟨N, hN⟩ := Server.exists_untouched (server_reachable h)
  have hroom : Server.Untouched (N + 1) s.server := fun k hk => hN k (Nat.le_of_succ_le hk)
  refine ⟨load (N + 1) s, fun acts t hacts hrun => ?_⟩
  -- a run of these steps is no longer than the load at its start
  apply length_le_of_run (G := fun a => moves a = true)
    (P := fun s => Reaches step Calm (init services threads) s ∧
      Server.Untouched (N + 1) s.server) ?_ acts hacts ⟨h, hroom⟩ hrun
  rintro s a s' ⟨hs, hN⟩ hmoves hguarded
  simp only [guarded] at hguarded
  split at hguarded
  · rename_i hcalm
    exact ⟨⟨hs.tail a hcalm hguarded, untouched_of_moves hs (Nat.succ_pos N) hN hmoves hguarded⟩,
      load_lt hs (Nat.succ_pos N) hN hmoves hcalm hguarded⟩
  · cases hguarded

end

/-! ## A quiet state -/

/-- Everything pushed has been read, and nobody is on the way. -/
def Still (s : System) : Prop :=
  (∀ call ∈ s.client.calls, call.phase = .enqueued) ∧ s.client.writes.threads = [] ∧
    s.client.writes.inflight = [] ∧ s.client.reading = .header ∧
    s.down = ⟨s.downBytes, none⟩ ∧ s.up = ⟨s.upBytes, none⟩ ∧
    (s.server.conns 0).writes.inflight = [] ∧ (s.server.conns 0).reading = .header ∧
    Server.Quiet 1 s.server

instance (s : System) : Decidable (Still s) := inferInstanceAs (Decidable (_ ∧ _))

/-- There is nothing to read on a stream that has been read. -/
theorem exchange_of_read {inn out : Wire} {theirs ours data : Bytes}
    (hread : inn = ⟨theirs, none⟩) (hlen : data.length = 20) :
    exchange inn out theirs ours (.read data) = none := by
  have hnot : ¬(⟨theirs, none⟩ : Wire).read ++ data <+: Wire.available ⟨theirs, none⟩ theirs := by
    intro hpre
    have hle : (theirs ++ data).length ≤ theirs.length := List.IsPrefix.length_le hpre
    rw [List.length_append] at hle
    omega
  rw [hread, exchange, Wire.take, if_neg hnot, Option.map_none]

/-- When nothing is on the way no step takes a message further. -/
theorem quiet_of_still {s : System} (hN : Server.Untouched 1 s.server) (h : Still s) :
    Quiet s := by
  obtain ⟨hphases, hthreads, hinflight, hreading, hdown, hup, hsinflight, hsreading, hserver⟩ := h
  intro a hmoves
  by_contra hsome
  obtain ⟨s', hstep⟩ := Option.ne_none_iff_exists'.mp hsome
  cases steps_of_step hstep with
  | client a client up down hex hc =>
    -- the stream of the client has been read to its end
    have hheader : ∀ data, a ≠ .readHeader data := by
      rintro data rfl
      have hlen : data.length = 20 := by
        simp only [RpcClient.step] at hc
        split at hc
        · rename_i hguard
          exact hguard.2.2
        · cases hc
      rw [clientTraffic, exchange_of_read hdown hlen] at hex
      cases hex
    cases RpcClient.steps_of_step hc with
    | call service method params timeoutMs => cases hmoves
    | register c call hcall hphase =>
      rw [hphases call (List.mem_of_getElem? hcall)] at hphase
      cases hphase
    | enqueue c call hcall hphase =>
      rw [hphases call (List.mem_of_getElem? hcall)] at hphase
      cases hphase
    | headerRead hdrData header => exact hheader hdrData rfl
    | readEnded a reason hio hread =>
      obtain ⟨data, rfl⟩ | ⟨body, rfl⟩ | ⟨r, rfl⟩ := hread
      · exact hheader data rfl
      · simp [RpcClient.step, hreading] at hc
      · cases hmoves
    | connected hother | bodyRead header body resp hother | setValue header body resp call hother =>
      rw [hreading] at hother
      cases hother
    | pop t w hw => simp [WriteChain.pop, hthreads] at hw
    | startWrite t item w hw => simp [WriteChain.start, hthreads] at hw
    | writeDone item w hio hw => simp [WriteChain.complete, hinflight] at hw
    | writeError | stopIo | joinIo => cases hmoves
  | server a server up down hex hs =>
    have hsettled := Server.settled_of_quiet hN hserver
    -- the threads of the server have come to rest
    have hdriven : Server.driven a = false := by
      by_contra hdriven
      rw [hsettled a (by simpa using hdriven)] at hs
      cases hs
    cases a with
    | conn k b =>
      cases k with
      | succ k => exact absurd (hmoves.symm.trans hdriven) (by simp)
      | zero =>
        -- what is left is the network of connection 0
        have hc : ∃ c, (s.server.conns 0).step b = some c := by
          cases Server.steps_of_step hs with
          | conn k b c hown hidle hc => exact ⟨c, hc⟩
          | services a services ha => obtain ⟨service, ha⟩ | ⟨name, ha⟩ := ha <;> cases ha
        obtain ⟨c, hc⟩ := hc
        cases b with
        | startRead => simp [Connection.step, hsreading] at hc
        | readHeader data =>
          have hlen : data.length = 20 := by
            simp only [Connection.step, hsreading] at hc
            split at hc
            · assumption
            · cases hc
          rw [serverTraffic, connTraffic, exchange_of_read hup hlen] at hex
          cases hex
        | readBody body => simp [Connection.step, hsreading] at hc
        | writeDone data => simp [Connection.step, WriteChain.complete, hsinflight] at hc
        | push | pop | startWrite => cases hdriven
        | _ => cases hmoves
    | _ => exact absurd (hmoves.symm.trans hdriven) (by simp)

/-- No other client connects in this step. -/
def alone : Act → Bool
  | .client _ => true
  | .server a => a.below 1

/-- Without another client all other connections are unused. -/
theorem untouched_of_alone {services : ServiceManager} {threads : Option (UInt64 × UInt32)}
    {ok : System → Act → Prop} {s : System}
    (h : Reaches step (fun s a => ok s a ∧ alone a = true) (init services threads) s) :
    Server.Untouched 1 s.server := by
  apply h.invariant_with (I := fun s => Server.JobInv s.server)
  · exact fun s hs => Server.jobInv_of_reachable (server_reachable hs)
  · exact fun _ _ => rfl
  · intro s a s' hjobs hN hok hs
    cases steps_of_step hs with
    | client a client up down hex hc => exact hN
    | server a server up down hex hc =>
      refine (Server.steps_of_step hc).untouched hjobs hN ?_
      rintro k b rfl
      exact .inr (of_decide_eq_true hok.2)

/-! ## The result -/

/-- The calls of a calm run are answered.  The steps that take a message further
    run out, whatever their order, and when none of them is left, every call has been
    completed, once, and with what its own request came to. -/
theorem every_call_answered (services : ServiceManager) (threads : Option (UInt64 × UInt32))
    (s : System) (h : Reaches step Calm (init services threads) s) :
    (∃ bound, ∀ acts t, (∀ a ∈ acts, moves a = true) →
      run (guarded step Calm) s acts = some t → acts.length ≤ bound) ∧
    (Quiet s → ∀ (c : Nat) (call : Call), s.client.calls[c]? = some call →
      ∃ k, s.client.completions.filter (fun k => k.call = c) = [k] ∧
        ∃ inv ∈ s.server.invocations, Serves inv call ∧ Outcome inv k.resp) := by
  refine ⟨moves_run_bounded h, fun hquiet c call hcall => ?_⟩
  obtain ⟨k, hk, rfl, hanswer⟩ := hquiet.answered h hcall
  -- a call is completed at most once
  have hnodup := (RpcClient.promiseInv_of_reachable
    (client_reachable (withinLimits_of_calm h))).nodup
  exact ⟨k, List.filter_key_eq_singleton Completion.call hnodup hk, hanswer⟩

/-- Two calls and one worker; in the end nothing is on the way. -/
def quietCalls : List Act :=
  [.client .connected, .client (.call [115] [109] [0] 5000), .client (.call [115] [109] [1] 5000),
    .client (.register 1), .client (.register 0), .client (.enqueue 1), .client (.enqueue 0),
    .client (.pop (some 1)), .client (.startWrite (some 1) (sampleItem 1)),
    .client (.writeDone (sampleItem 1)), .client (.pop none),
    .client (.startWrite none (sampleItem 0)), .client (.writeDone (sampleItem 0)),
    .client (.pop none), .server (.conn 0 .startRead),
    .server (.conn 0 (.readHeader (serializeHeader (sampleCall 1).header))),
    .server (.conn 0 (.readBody (sampleCall 1).request.serialize)), .server (.enter 0),
    .server (.pool (.notifyOne 0 none)), .server (.leave 0),
    .server (.conn 0 (.readHeader (serializeHeader (sampleCall 0).header))),
    .server (.conn 0 (.readBody (sampleCall 0).request.serialize)), .server (.enter 0),
    .server (.pool (.notifyOne 1 none)), .server (.leave 0), .server (.pool (.check 0)),
    .server (.activate 0), .server (.process 0), .server (.send 0),
    .server (.conn 0 (.push (some 0) (sampleResponse 1).encode)), .server (.conn 0 (.pop (some 0))),
    .server (.conn 0 (.startWrite (some 0) (sampleResponse 1).encode)), .server (.done 0),
    .server (.finish 0), .server (.pool (.deactivate 0)), .server (.pool (.count 0)),
    .server (.pool (.settle 0)), .server (.pool (.notifyDrain 0 none)), .server (.pool (.check 0)),
    .server (.activate 0), .server (.process 1), .server (.send 1),
    .server (.conn 0 (.push (some 0) (sampleResponse 0).encode)), .server (.done 1),
    .client (.readHeader (serializeHeader (sampleResponse 1).1)),
    .client (.readBody (sampleResponse 1).2), .client .setValue,
    .server (.conn 0 (.writeDone (sampleResponse 1).encode)), .server (.conn 0 (.pop none)),
    .server (.conn 0 (.startWrite none (sampleResponse 0).encode)),
    .server (.conn 0 (.writeDone (sampleResponse 0).encode)), .server (.conn 0 (.pop none)),
    .server (.finish 0), .server (.pool (.deactivate 0)), .server (.pool (.count 0)),
    .server (.pool (.settle 0)), .server (.pool (.notifyDrain 0 none)), .server (.pool (.check 0)),
    .client (.readHeader (serializeHeader (sampleResponse 0).1)),
    .client (.readBody (sampleResponse 0).2), .client .setValue]

/-- Both calls are answered, each once. -/
theorem every_call_answered_quietCalls :
    ∃ s, Reaches step Calm (init echoServices (some (1, 1))) s ∧ Quiet s ∧
      s.client.calls.length = 2 ∧
      ∀ (c : Nat) (call : Call), s.client.calls[c]? = some call →
        ∃ k, s.client.completions.filter (fun k => k.call = c) = [k] ∧
          ∃ inv ∈ s.server.invocations, Serves inv call ∧ Outcome inv k.resp := by
  have hrun : ∃ s, Reaches step (fun s a => Calm s a ∧ alone a = true)
      (init echoServices (some (1, 1))) s ∧ Still s ∧ s.client.calls.length = 2 :=
    exists_reaches_of_run quietCalls (by decide +kernel)
  obtain ⟨s, hs, hstill, hlen⟩ := hrun
  have hcalm : Reaches step Calm (init echoServices (some (1, 1))) s :=
    hs.mono fun _ _ hok => hok.1
  have hquiet := quiet_of_still (untouched_of_alone hs) hstill
  exact ⟨s, hcalm, hquiet, hlen, (every_call_answered _ _ s hcalm).2 hquiet⟩

end System

end Rpc
