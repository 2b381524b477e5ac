import Rpc.ForStd.AList
import Rpc.Native.MessageCycle
import Rpc.Spec.ConnectionSteps

/-!
# What a step of a message cycle can do

`MessageCycle.Steps` lists the outcomes of `MessageCycle.step`, grouped by what they do to the
flags `closed_`, to the map of connections and to the io thread, and
`MessageCycle.steps_of_step` says that there are no others.
-/

namespace Rpc.MessageCycle

open Transition

/-! ## Connections -/

/-- The outstanding read is that of the body of a message. -/
def Peer.readsBody (p : Peer) : Bool :=
  match p.conn.reading with
  | .body _ => true
  | _ => false

/-- A whole message is waiting for the handler that calls `on_message_`. -/
def Peer.bodyWaiting (p : Peer) : Bool :=
  match p.conn.reading, p.completion with
  | .body _, some (some _) => true
  | _, _ => false

/-- A message that waits was read by the read of a body. -/
theorem Peer.readsBody_of_bodyWaiting {p : Peer} (h : p.bodyWaiting = true) :
    p.readsBody = true := by
  unfold Peer.bodyWaiting at h
  unfold Peer.readsBody
  split at h
  · rename_i header data hbody hdata
    rw [hbody]
  · cases h

/-- The flag, the callbacks made and the id of a connection are unchanged. -/
structure Peer.Keeps (p p' : Peer) : Prop where
  closed : p'.conn.closed = p.conn.closed
  calls : p'.conn.onCloseCalls = p.conn.onCloseCalls
  connId : p'.connId = p.connId

/-- The steps of a connection that neither read nor close. -/
def isCalm : Connection.Act → Bool
  | .startRead | .messageHandled | .messageThrew | .writeDone _ => true
  | a => isWriteStep a

/-- Such a step leaves the flag alone and starts no read of a body. -/
theorem step_of_isCalm {c c' : Connection} {a : Connection.Act} (ha : isCalm a = true)
    (h : c.step a = some c') :
    c'.closed = c.closed ∧ c'.onCloseCalls = c.onCloseCalls ∧
      ∀ header, c'.reading = .body header → c.reading = .body header := by
  cases Connection.steps_of_step h with
  | startRead | handled | threw => exact ⟨rfl, rfl, nofun⟩
  -- these read or close
  | headerRead | bodyRead | writeError | close => cases ha
  | readEnded a hread =>
    obtain ⟨d, rfl⟩ | rfl := hread <;> cases ha
  | _ => exact ⟨rfl, rfl, fun _ hr => hr⟩

/-- What the handler of a read does. -/
theorem Peer.readHandler_cases {p : Peer} {c : Connection} (h : p.readHandler = some c) :
    c = { p.conn.closeOnce with reading := .ended } ∨
    (∃ header, c = { p.conn with reading := .body header }) ∨
    ∃ header body, p.bodyWaiting = true ∧
      c = { p.conn with
        reading := .handling header body
        delivered := p.conn.delivered ++ [(header, body)] } := by
  unfold Peer.readHandler at h
  -- the read failed, or it completed with data
  split at h
  · cases Connection.steps_of_step h with
    | readEnded a hread => exact .inl rfl
  · rename_i data hdata
    -- a header, a body, or no read at all
    split at h
    · cases Connection.steps_of_step h with
      | readEnded a hread => exact .inl rfl
      | headerRead hdrData header => exact .inr (.inl ⟨header, rfl⟩)
    · rename_i header hreading
      cases Connection.steps_of_step h with
      | readEnded a hread => exact .inl rfl
      | bodyRead header' body =>
        refine .inr (.inr ⟨header', data, ?_, rfl⟩)
        simp only [Peer.bodyWaiting, hreading, hdata]
    · cases h
  · cases h

/-! ## The io thread and `stop()` -/

/-- The io thread is neither between the construction of a connection and `add`, nor between
    setting `closed_` and `remove`. -/
def Io.isCalm : Io → Bool
  | .accepted _ | .closing _ => false
  | _ => true

/-- What the `close_all` of `stop()` has left to close. -/
def Stop.rest : Stop → List Nat
  | .closing rest => rest
  | _ => []

/-- The `close_all` of `stop()` has emptied `conns_`. -/
def Stop.emptied : Stop → Bool
  | .closing _ | .iosStopped | .returned => true
  | _ => false

/-- The outcomes of a step. -/
inductive Steps (s : MessageCycle) : Act → MessageCycle → Prop where
  /-- only the flags of the cycle change, the phase of `stop()` and that of the io thread -/
  | flags (a : Act) (running acceptorOpen armed incoming iosStopped : Bool) (io : Io) (stop : Stop)
      (hio : io = s.io ∨ (s.io.isCalm = true ∧ io.isCalm = true))
      (hrest : stop.rest = s.stop.rest) (hemptied : stop.emptied = s.stop.emptied) :
      Steps s a { s with running, acceptorOpen, armed, incoming, iosStopped, io, stop }
  /-- a connection goes on, and its flag stays as it is -/
  | keeps (a : Act) (k : Nat) (p : Peer) (io : Io) (hkeeps : (s.peers k).Keeps p)
      (hwaiting : p.bodyWaiting = true → (s.peers k).bodyWaiting = true ∨
        (s.peers k).readsBody = true ∧ ∃ data, a = .readCompletes k (some data))
      (hio : io = s.io ∨ (s.io.isCalm = true ∧ io.isCalm = true)) :
      Steps s a { s.setPeer k p with io }
  /-- `on_message_` is called -/
  | message (k : Nat) (p : Peer) (hidle : s.io = .idle) (hkeeps : (s.peers k).Keeps p)
      (hbefore : (s.peers k).bodyWaiting = true) (hafter : p.bodyWaiting = false) :
      Steps s (.readHandler k)
        { s.setPeer k p with
          io := .message k
          messages := s.messages ++ [(k, (s.peers k).conn.closed)] }
  /-- a handler closes its connection and calls `on_close_` -/
  | closes (a : Act) (k : Nat) (p : Peer) (hidle : s.io = .idle) (hknown : s.known k = true)
      (hopen : (s.peers k).conn.closed = false) (hclosed : p.conn.closed = true)
      (hcalls : p.conn.onCloseCalls = (s.peers k).conn.onCloseCalls + 1)
      (hid : p.connId = (s.peers k).connId)
      (hwaiting : p.bodyWaiting = true →
        (s.peers k).bodyWaiting = true ∧ ∃ data, a = .writeError k data) :
      Steps s a { s.setPeer k p with io := .closing k }
  | accept (hidle : s.io = .idle) :
      Steps s .accept
        { s with
          armed := false
          incoming := false
          accepted := s.accepted + 1
          io := .accepted s.accepted }
  | add (k : Nat) (hio : s.io = .accepted k) :
      Steps s .add
        { s.setPeer k { s.peers k with connId := s.nextId } with
          nextId := s.nextId + 1
          conns := s.conns.insert s.nextId k
          io := .added k }
  | remove (k : Nat) (hio : s.io = .closing k) :
      Steps s .remove { s with conns := s.conns.erase (s.peers k).connId, io := .idle }
  | close (k : Nat) (hknown : s.known k = true) :
      Steps s (.close k) (s.setPeer k (s.peers k).close)
  | closeAll : Steps s .closeAll { s with conns := ∅, toClose := s.toClose ++ s.snapshot }
  | closeNext (k : Nat) (hmem : k ∈ s.toClose) :
      Steps s (.closeNext k) { s.setPeer k (s.peers k).close with toClose := s.toClose.erase k }
  | stopSnapshot (hstop : s.stop = .acceptorClosed) :
      Steps s .stopSnapshot { s with conns := ∅, stop := .closing s.snapshot }
  | stopClose (k : Nat) (rest : List Nat) (hstop : s.stop = .closing (k :: rest)) :
      Steps s .stopClose { s.setPeer k (s.peers k).close with stop := .closing rest }

/-- A step of a connection that neither reads nor closes. -/
theorem Steps.of_isCalm {s : MessageCycle} (a : Act) (k : Nat) (io : Io) {conn : Connection}
    {ca : Connection.Act} (hca : isCalm ca = true) (hstep : (s.peers k).conn.step ca = some conn)
    (hio : io = s.io ∨ (s.io.isCalm = true ∧ io.isCalm = true)) :
    Steps s a { s.setPeer k { s.peers k with conn } with io } := by
  obtain ⟨hclosed, hcalls, hreading⟩ := step_of_isCalm hca hstep
  refine .keeps a k _ io ⟨hclosed, hcalls, rfl⟩ (fun hwaiting => .inl ?_) hio
  -- what waits now was read before
  unfold Peer.bodyWaiting at hwaiting ⊢
  split at hwaiting
  · rename_i header data hbody hdata
    rw [hreading header hbody, hdata]
  · cases hwaiting

/-- A handler is run by an idle io thread. -/
theorem ready_eq {s : MessageCycle} (h : s.ready = true) : s.io = .idle := by
  simp only [ready, Bool.and_eq_true, decide_eq_true_eq] at h
  exact h.1

/-- The handler of a read. -/
theorem Steps.of_readHandler {s : MessageCycle} {k : Nat} {conn : Connection} (hidle : s.io = .idle)
    (hknown : s.known k = true) (h : (s.peers k).readHandler = some conn) :
    Steps s (.readHandler k)
      { s.setPeer k { s.peers k with conn, completion := none } with
        io := afterHandler k (s.peers k).conn conn
        messages := s.messages ++ messagesOf k (s.peers k).conn conn } := by
  have hcalm : s.io.isCalm = true ∧ Io.idle.isCalm = true := ⟨by rw [hidle]; rfl, rfl⟩
  obtain rfl | ⟨header, rfl⟩ | ⟨header, body, hwaiting, rfl⟩ := Peer.readHandler_cases h
  -- the loop ends: the flag was set already, or is set here and `on_close_` is called
  · cases hclosed : (s.peers k).conn.closed with
    | true =>
      have hsame : (s.peers k).conn.closeOnce = (s.peers k).conn := by
        simp [Connection.closeOnce, hclosed]
      simp only [hsame, afterHandler, messagesOf, ne_eq, not_true_eq_false, if_false,
        List.append_nil]
      exact .keeps _ k _ .idle ⟨rfl, rfl, rfl⟩ nofun (.inr hcalm)
    | false =>
      have hflip : (s.peers k).conn.closeOnce =
          { (s.peers k).conn with
            closed := true, onCloseCalls := (s.peers k).conn.onCloseCalls + 1 } := by
        simp [Connection.closeOnce, hclosed]
      simp only [hflip, afterHandler, messagesOf, List.append_nil]
      rw [if_pos (by omega)]
      exact .closes _ k _ hidle hknown hclosed rfl rfl rfl nofun
  -- a good header: the read of its body begins
  · simp only [afterHandler, messagesOf, ne_eq, not_true_eq_false, if_false, List.append_nil]
    exact .keeps _ k _ .idle ⟨rfl, rfl, rfl⟩ nofun (.inr hcalm)
  -- a body: `on_message_` is called
  · simp only [afterHandler, messagesOf, ne_eq, not_true_eq_false, if_false]
    exact .message k _ hidle ⟨rfl, rfl, rfl⟩ hwaiting rfl

/-- The handler of a write that failed. -/
theorem Steps.of_writeError {s : MessageCycle} {k : Nat} {data : Bytes} {conn : Connection}
    (hidle : s.io = .idle) (hknown : s.known k = true)
    (h : (s.peers k).conn.step (.writeError data) = some conn) :
    Steps s (.writeError k data)
      { s.setPeer k { s.peers k with conn } with
        io := if conn.onCloseCalls ≠ (s.peers k).conn.onCloseCalls then .closing k
          else .idle } := by
  have hcalm : s.io.isCalm = true ∧ Io.idle.isCalm = true := ⟨by rw [hidle]; rfl, rfl⟩
  cases Connection.steps_of_step h with
  | readEnded a hread =>
    obtain ⟨d, hd⟩ | hd := hread <;> cases hd
  | writeError _ w hw =>
    have hreading : (s.peers k).conn.closeOnce.reading = (s.peers k).conn.reading :=
      Connection.closeOnce_reading _
    -- as for a read that failed, except that the read loop goes on
    cases hclosed : (s.peers k).conn.closed with
    | true =>
      have hsame : (s.peers k).conn.closeOnce = (s.peers k).conn := by
        simp [Connection.closeOnce, hclosed]
      simp only [hsame, ne_eq, not_true_eq_false, if_false]
      exact .keeps _ k _ .idle ⟨rfl, rfl, rfl⟩ (fun hwaiting => .inl hwaiting) (.inr hcalm)
    | false =>
      have hflip : (s.peers k).conn.closeOnce =
          { (s.peers k).conn with
            closed := true, onCloseCalls := (s.peers k).conn.onCloseCalls + 1 } := by
        simp [Connection.closeOnce, hclosed]
      simp only [hflip]
      rw [if_pos (by omega)]
      exact .closes _ k _ hidle hknown hclosed rfl rfl rfl fun hwaiting => ⟨hwaiting, data, rfl⟩

/-- The completion of a read makes a message wait only if it is that of a body, with data. -/
theorem Steps.of_readCompletes {s s' : MessageCycle} {k : Nat} {data : Option Bytes}
    (h : s.step (.readCompletes k data) = some s') : Steps s (.readCompletes k data) s' := by
  simp only [step] at h
  split at h
  · rename_i n data hcompletion hexpected
    split at h
    · obtain rfl := Option.some.inj h
      refine .keeps _ k _ s.io ⟨rfl, rfl, rfl⟩ (fun hwaiting => .inr ⟨?_, data, rfl⟩) (.inl rfl)
      exact (Peer.readsBody_of_bodyWaiting hwaiting :)
    · cases h
  -- the read fails: no data wait
  · split at h
    · obtain rfl := Option.some.inj h
      refine .keeps _ k _ s.io ⟨rfl, rfl, rfl⟩ (fun hwaiting => ?_) (.inl rfl)
      simp only [Peer.bodyWaiting] at hwaiting
      split at hwaiting
      · rename_i hdata
        cases hdata
      · cases hwaiting
    · cases h
  · cases h

/-- The steps of the io thread between its handlers, and of `stop()` outside of `close_all`. -/
def isFlagStep : Act → Bool
  | .run | .connects | .acceptError | .rearm | .stop | .stopAcceptor | .stopIos | .stopReturn
  | .loopEnds => true
  | _ => false

/-- These steps change flags and phases only. -/
theorem Steps.of_isFlagStep {s s' : MessageCycle} {a : Act} (ha : isFlagStep a = true)
    (h : s.step a = some s') : Steps s a s' := by
  cases a with
  | run | rearm =>
    -- the io thread becomes idle
    simp only [step] at h
    split at h
    · rename_i hio
      obtain rfl := Option.some.inj h
      exact .flags _ _ _ _ _ _ .idle _ (.inr ⟨by rw [hio]; rfl, rfl⟩) rfl rfl
    · cases h
  | connects | acceptError =>
    simp only [step] at h
    split at h
    · obtain rfl := Option.some.inj h
      exact .flags _ _ _ _ _ _ s.io _ (.inl rfl) rfl rfl
    · cases h
  | stop | stopAcceptor | stopIos =>
    -- `stop()` goes on without touching the connections
    simp only [step] at h
    split at h
    · rename_i hstop
      obtain rfl := Option.some.inj h
      exact .flags _ _ _ _ _ _ s.io _ (.inl rfl) (by rw [hstop]; rfl) (by rw [hstop]; rfl)
    · cases h
  | stopReturn =>
    simp only [step] at h
    split at h
    · rename_i hstop
      split at h
      · cases h
      · obtain rfl := Option.some.inj h
        exact .flags _ _ _ _ _ _ s.io _ (.inl rfl) (by rw [hstop]; rfl) (by rw [hstop]; rfl)
    · cases h
  -- the io thread, idle until now, leaves its loop
  | loopEnds =>
    simp only [step] at h
    split at h
    · rename_i hguard
      obtain rfl := Option.some.inj h
      exact .flags _ _ _ _ _ _ .ended _ (.inr ⟨by rw [hguard.1]; rfl, rfl⟩) rfl rfl
    · cases h
  | _ => cases ha

/-- A step has one of the outcomes of `Steps`. -/
theorem steps_of_step {s s' : MessageCycle} {a : Act} (h : s.step a = some s') : Steps s a s' := by
  cases a with
  | run | connects | acceptError | rearm | stop | stopAcceptor | stopIos | stopReturn
  | loopEnds => exact .of_isFlagStep rfl h
  | readCompletes k data => exact .of_readCompletes h
  | accept =>
    simp only [step] at h
    split at h
    · rename_i hguard
      obtain rfl := Option.some.inj h
      exact .accept (ready_eq hguard.1)
    · cases h
  | add =>
    simp only [step] at h
    split at h
    · rename_i k hio
      obtain rfl := Option.some.inj h
      exact .add k hio
    · cases h
  | startRead =>
    simp only [step] at h
    split at h
    · rename_i k hio
      obtain ⟨conn, hstep, rfl⟩ := Option.map_eq_some_iff.mp h
      exact .of_isCalm _ k _ rfl hstep (.inr ⟨by rw [hio]; rfl, rfl⟩)
    · cases h
  | readHandler k =>
    simp only [step] at h
    split at h
    · rename_i hguard
      obtain ⟨conn, hstep, rfl⟩ := Option.map_eq_some_iff.mp h
      exact .of_readHandler (ready_eq hguard.1) hguard.2 hstep
    · cases h
  | remove =>
    simp only [step] at h
    split at h
    · rename_i k hio
      obtain rfl := Option.some.inj h
      exact .remove k hio
    · cases h
  | messageReturns | messageThrows =>
    simp only [step] at h
    split at h
    · rename_i k hio
      obtain ⟨conn, hstep, rfl⟩ := Option.map_eq_some_iff.mp h
      exact .of_isCalm _ k _ rfl hstep (.inr ⟨by rw [hio]; rfl, rfl⟩)
    · cases h
  -- a step of the write queue neither reads nor closes
  | write k a =>
    simp only [step] at h
    split at h
    · rename_i hguard
      obtain ⟨conn, hstep, rfl⟩ := Option.map_eq_some_iff.mp h
      have hcalm : isCalm a = true := by
        cases a <;> first | exact hguard.2 | cases hguard.2
      exact .of_isCalm _ k s.io hcalm hstep (.inl rfl)
    · cases h
  | writeDone k data =>
    simp only [step] at h
    split at h
    · obtain ⟨conn, hstep, rfl⟩ := Option.map_eq_some_iff.mp h
      exact .of_isCalm _ k s.io rfl hstep (.inl rfl)
    · cases h
  | writeError k data =>
    simp only [step] at h
    split at h
    · rename_i hguard
      obtain ⟨conn, hstep, rfl⟩ := Option.map_eq_some_iff.mp h
      exact .of_writeError (ready_eq hguard.1) hguard.2 hstep
    · cases h
  | close k =>
    simp only [step] at h
    split at h
    · rename_i hknown
      obtain rfl := Option.some.inj h
      exact .close k hknown
    · cases h
  -- closing the socket leaves the flag alone
  | socketClose k =>
    simp only [step] at h
    split at h
    · obtain rfl := Option.some.inj h
      exact .keeps _ k _ s.io ⟨rfl, rfl, rfl⟩ (fun hwaiting => .inl hwaiting) (.inl rfl)
    · cases h
  | closeAll =>
    obtain rfl := Option.some.inj h
    exact .closeAll
  | closeNext k =>
    simp only [step] at h
    split at h
    · rename_i hmem
      obtain rfl := Option.some.inj h
      exact .closeNext k hmem
    · cases h
  | stopSnapshot =>
    simp only [step] at h
    split at h
    · rename_i hstop
      obtain rfl := Option.some.inj h
      exact .stopSnapshot hstop
    · cases h
  | stopClose =>
    simp only [step] at h
    split at h
    · rename_i k rest hstop
      obtain rfl := Option.some.inj h
      exact .stopClose k rest hstop
    · cases h

end Rpc.MessageCycle
