import Rpc.Native.Registry
import Rpc.Spec.ZkClientCorrect

/-!
# What the registry reports

The operations of a `ServiceRegistry` are made one after the other, so between two of them
the client has no request under way (`idle_of_reachable`) and every exchange satisfies the
promise of its request as it says (`sendRequest_spec`).  What is left is the way from the
promise to the `bool`.

`result<void>::make_error` does not set `has_err_`.  `connect` and `unregister_service` use
`result<void>`, and take every failure for success; `reports_success_iff` says which
operations report which exchanges.
-/

namespace Rpc

open Transition Zk

namespace Zk

/-- How the promise of a request is satisfied. -/
def Exchange.outcome : Exchange → Outcome
  | .writeFailed msg | .lengthFailed msg | .bodyFailed _ msg => .rejected msg
  | .replied _ err payload _ => .reply err payload

/-- The err of the reply. -/
def Exchange.replyErr : Exchange → Option Int32
  | .replied _ err _ _ => some err
  | _ => none

/-- The text of the transport error. -/
def Exchange.failure : Exchange → Option Bytes
  | .writeFailed msg | .lengthFailed msg | .bodyFailed _ msg => some msg
  | .replied .. => none

/-- Nothing can be read from a socket after a failed read. -/
def Exchange.Possible (broken : Bool) : Exchange → Prop
  | .bodyFailed .. | .replied .. => broken = false
  | _ => True

/-- The body of a reply with err = 0 has the fields of the response. -/
def Exchange.Readable {α : Type} (deserialize : Bytes → Except Fault (α × Bytes)) :
    Exchange → Prop
  | .replied _ err payload _ => err = 0 → ∃ resp, deserialize payload = .ok resp
  | _ => True

end Zk

namespace ZkClient

/-- No request is under way. -/
structure Idle (c : ZkClient) : Prop where
  crashed : c.crashed = false
  pending : ∀ x, c.pending.lookup x = none
  reads : c.reads = []
  inbox : c.inbox = []
  transit : c.broken = false → c.transit = []
  settled : ∀ p ∈ c.outcomes, p.1 < c.requests.length

/-- The request of an operation. -/
def newRequest (c : ZkClient) (op : Operation) (phase : Phase) : Zk.Request :=
  { op := op.opCode, body := op.serializeBody, xid := c.xid, phase }

/-- The client after the write of an operation was posted. -/
def posted (c : ZkClient) (op : Operation) : ZkClient :=
  { c with
    xid := c.xid + 1
    requests := c.requests ++ [c.newRequest op .posted]
    pending := c.pending.insert c.xid c.requests.length }

/-- The three steps of `send_request` up to the call of `post`. -/
theorem run_posted (c : ZkClient) (op : Operation) :
    run step c [.alloc op.opCode op.serializeBody, .register c.requests.length,
      .post c.requests.length] = some (c.posted op) := by
  simp [run, step, setPhase, posted, newRequest]

/-- The request of the operation is the last one. -/
theorem requests_posted (c : ZkClient) (op : Operation) :
    (c.posted op).requests[c.requests.length]? = some (c.newRequest op .posted) := by
  simp [posted]

/-- The client after this write has completed. -/
def written (c : ZkClient) (op : Operation) : ZkClient :=
  { c.posted op with
    requests := c.requests ++ [c.newRequest op .written]
    reads := [.length c.xid] }

/-- The completion of the write posts the read of the length. -/
theorem step_writeDone {c : ZkClient} (h : c.Idle) (op : Operation) :
    (c.posted op).step (.writeDone c.requests.length) = some (c.written op) := by
  have hcrash : (c.posted op).crashed = false := h.crashed
  simp only [step, requests_posted, hcrash, newRequest, setPhase, and_self, if_true]
  simp [posted, written, newRequest, h.reads, h.crashed]

/-- The read of the length of a frame. -/
theorem step_lengthRead {s : ZkClient} {xid : Int32} (frame : ReplyFrame) (rest : Bytes)
    (hcrash : s.crashed = false) (hopen : s.broken = false) (hreads : s.reads = [.length xid])
    (hinbox : s.inbox = frame.lengthField ++ rest) :
    s.step .readDone = some { s with
      reads := [.body xid frame.body.length]
      inbox := rest
      consumed := s.consumed ++ [.length frame.lengthField] } := by
  -- the length is positive and announces the body
  obtain ⟨n, hread, hpos, hn⟩ := frame.readInt32_lengthField
  have hlen : frame.lengthField.length = 4 := rfl
  -- the buffer holds the length and the rest
  have htake : s.inbox.take 4 = frame.lengthField := by
    rw [hinbox]
    exact List.take_left' hlen
  have hdrop : s.inbox.drop 4 = rest := by
    rw [hinbox]
    exact List.drop_left' hlen
  have hle : 4 ≤ s.inbox.length := by
    rw [hinbox, List.length_append, hlen]
    omega
  simp only [step, hcrash, hopen, Bool.false_eq_true, or_self, if_false, hreads, hle, if_true,
    htake, hdrop, onReadLength, hread, hpos, hn, List.nil_append]

/-- The read of the body of a frame. -/
theorem step_bodyRead {s : ZkClient} {xid : Int32} (frame : ReplyFrame)
    (hcrash : s.crashed = false) (hopen : s.broken = false)
    (hreads : s.reads = [.body xid frame.body.length]) (hinbox : s.inbox = frame.body) :
    s.step .readDone = some (resolvePending
      { s with reads := [], inbox := [], consumed := s.consumed ++ [.body frame.body] }
      frame.xid frame.err frame.payload) := by
  have hdec := frame.deserialize_body
  simp only [step, hcrash, hopen, Bool.false_eq_true, or_self, if_false, hreads, hinbox,
    Nat.le_refl, if_true, List.take_length, List.drop_length, onReadBody, hdec]

/-- Both reads of a frame that has arrived. -/
theorem run_frameRead {s : ZkClient} {xid : Int32} (frame : ReplyFrame) (hcrash : s.crashed = false)
    (hopen : s.broken = false) (hreads : s.reads = [.length xid]) (hinbox : s.inbox = frame.wire) :
    run step s [.readDone, .readDone] = some (resolvePending
      { s with
        reads := []
        inbox := []
        consumed := s.consumed ++ [.length frame.lengthField] ++ [.body frame.body] }
      frame.xid frame.err frame.payload) := by
  -- the length first, and then the body that it announces
  rw [frame.wire_eq] at hinbox
  have hlength := step_lengthRead frame frame.body hcrash hopen hreads hinbox
  simp only [run, hlength]
  rw [step_bodyRead frame]
  · exact hcrash
  · exact hopen
  · rfl
  · rfl

/-- The client while a frame arrives: the bytes `inbox` of it are there. -/
def arriving (c : ZkClient) (op : Operation) (frame : ReplyFrame) (inbox transit : Bytes) :
    ZkClient :=
  { c.written op with
    sent := c.sent ++ [(frame, (c.written op).pending.lookup frame.xid)]
    inbox
    transit
    broken := false }

/-- The server sends a frame, and the first `n` bytes of it arrive. -/
theorem run_arriving {c : ZkClient} (h : c.Idle) (hopen : c.broken = false) (op : Operation)
    (frame : ReplyFrame) (n : Nat) (acts : List Act) :
    run step (c.posted op) (.writeDone c.requests.length :: .serve frame :: .arrive n :: acts) =
      run step (c.arriving op frame (frame.wire.take n) (frame.wire.drop n)) acts := by
  -- an idle client has read everything that was sent to it
  have hb : (c.written op).broken = false := hopen
  have hinbox : (c.written op).inbox = [] := h.inbox
  have htransit : (c.written op).transit = [] := h.transit hopen
  simp only [run, step_writeDone h]
  simp only [step, hb, hinbox, htransit, List.nil_append, Bool.false_eq_true, if_false]
  rfl

/-- A request is done with: its promise is satisfied with `o`, and nothing is left of it. -/
structure Settles (c : ZkClient) (o : Outcome) (c' : ZkClient) : Prop where
  idle : c'.Idle
  outcomes : c'.outcomes = c.outcomes ++ [(c.requests.length, o)]

/-- Satisfying the promise of the last request leaves the client idle. -/
theorem Settles.of_settlePending {c : ZkClient} (h : c.Idle) (op : Operation) {o : Outcome}
    {c' : ZkClient} (hcrash : c'.crashed = false)
    (hpending : c'.pending = (c.posted op).pending.erase c.xid) (hreads : c'.reads = [])
    (hinbox : c'.inbox = []) (htransit : c'.broken = false → c'.transit = [])
    (hlen : c'.requests.length = c.requests.length + 1)
    (hout : c'.outcomes = ((c.posted op).settlePending c.xid o).outcomes) : Settles c o c' := by
  -- the xid leads to the last request, so one promise is satisfied
  have hout' : c'.outcomes = c.outcomes ++ [(c.requests.length, o)] := by
    rw [hout]
    show c.outcomes ++ ((c.pending.insert c.xid c.requests.length).lookup c.xid).toList.map _ = _
    rw [AList.lookup_insert]
    rfl
  refine ⟨⟨hcrash, ?_, hreads, hinbox, htransit, ?_⟩, hout'⟩
  -- the entry that `send_request` made is gone, and there was no other
  · intro x
    rw [hpending]
    show ((c.pending.insert c.xid _).erase c.xid).lookup x = none
    by_cases hx : x = c.xid
    · rw [hx, AList.lookup_erase]
    · rw [AList.lookup_erase_ne hx, AList.lookup_insert_ne hx]
      exact h.pending x
  -- all promises satisfied are those of requests made
  · intro p hp
    rw [hout', List.mem_append, List.mem_singleton] at hp
    obtain hp | rfl := hp
    · have := h.settled p hp
      omega
    · omega

/-- A reply settles the request, and the socket stays open. -/
theorem exists_settles_replied {c : ZkClient} (h : c.Idle) (hopen : c.broken = false)
    (op : Operation) (zxid : Int64) (err : Int32) (payload : Bytes)
    (fits : 16 + payload.length < 2 ^ 31) :
    ∃ c', run step (c.posted op)
        ((Exchange.replied zxid err payload fits).acts c.requests.length c.xid) = some c' ∧
      Settles c (.reply err payload) c' ∧ c'.broken = false := by
  let frame : ReplyFrame := { xid := c.xid, zxid, err, payload, fits }
  -- the whole frame arrives
  rw [Exchange.acts, run_arriving h hopen, List.take_length, List.drop_length]
  -- and is read in two steps
  have hread := run_frameRead (s := c.arriving op frame frame.wire []) frame h.crashed rfl rfl rfl
  have hlen : (c.requests ++ [c.newRequest op .written]).length = c.requests.length + 1 :=
    List.length_append
  exact ⟨_, hread, .of_settlePending h op h.crashed rfl rfl rfl (fun _ => rfl) hlen rfl, rfl⟩

/-- Every possible exchange takes place, and settles the request as it says. -/
theorem exists_settles {c : ZkClient} (h : c.Idle) (op : Operation) {ex : Exchange}
    (hpossible : ex.Possible c.broken) :
    ∃ c', run step (c.posted op) (ex.acts c.requests.length c.xid) = some c' ∧
      Settles c ex.outcome c' := by
  have hcrash : (c.posted op).crashed = false := h.crashed
  have hwcrash : (c.written op).crashed = false := h.crashed
  have hlen (phase : Phase) : (c.requests ++ [c.newRequest op phase]).length =
      c.requests.length + 1 := List.length_append
  cases ex with
  | writeFailed msg =>
    -- the handler of the write rejects the promise; nothing was posted after it
    simp only [Exchange.acts, run, step, requests_posted, hcrash, newRequest, and_self, if_true]
    refine ⟨_, rfl, .of_settlePending h op h.crashed rfl h.reads h.inbox h.transit ?_ rfl⟩
    simp [setPhase, posted, newRequest]
  | lengthFailed msg =>
    -- the request was written, and the first read fails
    simp only [Exchange.acts, run, step_writeDone h]
    simp only [step, hwcrash]
    refine ⟨_, rfl, .of_settlePending h op h.crashed rfl rfl rfl ?_ (hlen _) rfl⟩
    intro hbroken
    cases hbroken
  | bodyFailed frame msg =>
    -- the length of a frame arrives, and the second read fails
    rw [Exchange.acts, run_arriving h hpossible]
    have hinbox : frame.wire.take 4 = frame.lengthField ++ [] := by
      rw [List.append_nil, frame.wire_eq]
      exact List.take_left' rfl
    have hread := step_lengthRead (s := c.arriving op frame (frame.wire.take 4)
      (frame.wire.drop 4)) frame [] h.crashed rfl rfl hinbox
    have hc : (c.arriving op frame (frame.wire.take 4) (frame.wire.drop 4)).crashed = false :=
      h.crashed
    simp only [run, hread]
    simp only [step, hc]
    refine ⟨_, rfl, .of_settlePending h op rfl rfl rfl rfl ?_ (hlen _) rfl⟩
    intro hbroken
    cases hbroken
  | replied zxid err payload fits =>
    -- both reads succeed
    obtain ⟨c', hrun, hsettles, -⟩ := exists_settles_replied h hpossible op zxid err payload fits
    exact ⟨c', hrun, hsettles⟩

/-- Only possible exchanges take place. -/
theorem possible_of_run {c c' : ZkClient} (h : c.Idle) (op : Operation) {ex : Exchange}
    (hrun : run step (c.posted op) (ex.acts c.requests.length c.xid) = some c') :
    ex.Possible c.broken := by
  -- a server whose socket is broken sends nothing
  have harrive (frame : ReplyFrame) (n : Nat) (acts : List Act)
      (hrun : run step (c.posted op)
        (.writeDone c.requests.length :: .serve frame :: .arrive n :: acts) = some c') :
      c.broken = false := by
    cases hbroken : c.broken with
    | false => rfl
    | true =>
      have hb : (c.written op).broken = true := hbroken
      simp only [run, step_writeDone h] at hrun
      simp [step, hb] at hrun
  cases ex with
  | writeFailed msg => trivial
  -- no read takes place in the cases above, and a frame arrives in those below
  | lengthFailed msg => trivial
  | bodyFailed frame msg => exact harrive _ _ _ hrun
  | replied zxid err payload fits => exact harrive _ _ _ hrun

end ZkClient

open ZkClient

/-- What `sendRequest` returns when the request is settled. -/
theorem sendRequest_of_settles {c c' : ZkClient} {op : Operation} {ex : Exchange} (h : c.Idle)
    (hrun : run step (c.posted op) (ex.acts c.requests.length c.xid) = some c')
    (hsettles : Settles c ex.outcome c') : sendRequest c op ex = some (c', ex.outcome) := by
  -- no earlier request has this number
  have hnone : c.outcomes.lookup c.requests.length = none := by
    rw [List.lookup_eq_none_iff]
    intro p hp
    have := h.settled p hp
    simp only [bne_iff_ne, ne_eq]
    omega
  -- so the outcome found for it is the one it was settled with
  simp only [sendRequest, run_append, run_posted, Option.bind_some, hrun, hsettles.outcomes,
    List.lookup_append, hnone]
  simp

/-- Every possible exchange satisfies the promise as it says. -/
theorem sendRequest_possible {c : ZkClient} (op : Operation) {ex : Exchange} (h : c.Idle)
    (hpossible : ex.Possible c.broken) :
    ∃ c', sendRequest c op ex = some (c', ex.outcome) ∧ c'.Idle := by
  obtain ⟨c', hrun, hsettles⟩ := exists_settles h op hpossible
  exact ⟨c', sendRequest_of_settles h hrun hsettles, hsettles.idle⟩

/-- An exchange that takes place satisfies the promise as it says, and leaves no request under way.
    -/
theorem sendRequest_spec {c c' : ZkClient} {op : Operation} {ex : Exchange} {o : Outcome}
    (h : c.Idle) (hsend : sendRequest c op ex = some (c', o)) : c'.Idle ∧ o = ex.outcome := by
  have hpossible : ex.Possible c.broken := by
    simp only [sendRequest] at hsend
    split at hsend
    · rename_i hrun
      rw [run_append, run_posted] at hrun
      exact possible_of_run h op hrun
    · cases hsend
  -- the client is a function of the exchange
  obtain ⟨c₁, hsend₁, hidle⟩ := sendRequest_possible op h hpossible
  obtain ⟨rfl, rfl⟩ := Prod.mk.inj (Option.some.inj (hsend₁.symm.trans hsend))
  exact ⟨hidle, rfl⟩

namespace ServiceRegistry

/-- A program that is run goes as the outcomes of its exchanges say, and leaves no request
    under way. -/
theorem runs_of_exec {α : Type} {c c' : ZkClient} (p : Dialogue Operation Outcome α)
    {exs : List Exchange} {a : α} (h : c.Idle)
    (hexec : Dialogue.exec sendRequest c p exs = some (c', a)) :
    c'.Idle ∧ ∃ t, p.Runs t a ∧ t.map Prod.snd = exs.map Exchange.outcome := by
  induction p generalizing c exs with
  | done b =>
    -- nothing is asked, so no exchange takes place
    cases exs with
    | nil =>
      obtain ⟨rfl, rfl⟩ := Prod.mk.inj (Option.some.inj hexec)
      exact ⟨h, [], .refl _, rfl⟩
    | cons ex exs => cases hexec
  | ask op k ih =>
    -- the first exchange answers the question, and the rest of them the rest of the program
    cases exs with
    | nil => cases hexec
    | cons ex exs =>
      simp only [Dialogue.exec] at hexec
      split at hexec
      · rename_i c₁ o hsend
        obtain ⟨hidle, rfl⟩ := sendRequest_spec h hsend
        obtain ⟨hidle', t, ht, hmap⟩ := ih _ hidle hexec
        refine ⟨hidle', _, .ask ht, ?_⟩
        rw [List.map_cons, List.map_cons, hmap]
      · cases hexec

/-- An operation of a registry goes as the outcomes of its exchanges say. -/
theorem exec_spec {α : Type} {s s' : ServiceRegistry} {p : Program α} {exs : List Exchange}
    {ret : Except Fault α} (h : s.client.Idle) (hexec : s.exec p exs = some (s', ret)) :
    s'.client.Idle ∧ ∃ t, p.run.Runs t ret ∧ t.map Prod.snd = exs.map Exchange.outcome := by
  obtain ⟨⟨c, r⟩, hrun, heq⟩ := Option.map_eq_some_iff.mp hexec
  obtain ⟨rfl, rfl⟩ := Prod.mk.inj heq
  exact runs_of_exec _ h hrun

/-! ## Between two operations -/

/-- The handshake leaves no request under way. -/
theorem idle_socket {c : ZkClient} (h : c.Idle) (hs : Handshake) : (hs.socket c).Idle := by
  -- the old stream and what was left on it are gone with the old socket
  have hnew (broken : Bool) : Idle { c with inbox := [], transit := [], broken } :=
    ⟨h.crashed, h.pending, h.reads, rfl, fun _ => rfl, h.settled⟩
  cases hs with
  | resolveFailed msg => exact h
  | connectFailed msg => exact hnew true
  | writeFailed msg => exact hnew false
  | lengthFailed msg => exact hnew true
  | lengthNegative => exact hnew true
  | bodyFailed msg => exact hnew true
  | replied body => exact hnew false

/-- `connect` changes the client as its handshake does. -/
theorem client_connect (s : ServiceRegistry) (timeoutMs : Int32) (hs : Handshake) :
    (s.connect timeoutMs hs).1.client = hs.socket s.client := by
  unfold connect
  dsimp only
  split <;> rfl

/-- Every operation leaves no request under way. -/
theorem idle_step {s s' : ServiceRegistry} {a : Act} (h : s.client.Idle)
    (hstep : s.step a = some s') : s'.client.Idle := by
  -- all operations but `connect` are programs
  have hexec {α : Type} {p : Program α} {exs : List Exchange}
      (hp : (s.exec p exs).map Prod.fst = some s') : s'.client.Idle := by
    obtain ⟨⟨s₁, ret⟩, hrun, rfl⟩ := Option.map_eq_some_iff.mp hp
    exact (exec_spec h hrun).1
  cases a with
  | connect timeoutMs hs =>
    obtain rfl := Option.some.inj hstep
    rw [client_connect]
    exact idle_socket h hs
  | op op exs => exact hexec hstep
  | getChildren path exs => exact hexec hstep
  | getNodeData path exs => exact hexec hstep
  | getService nodePath exs => exact hexec hstep
  | listServices servicesPath exs => exact hexec hstep

/-- Between two operations no request is under way. -/
theorem idle_of_reachable {s : ServiceRegistry} (h : Reachable step init s) : s.client.Idle := by
  apply h.invariant (P := fun s => s.client.Idle)
  · exact ⟨rfl, fun _ => rfl, rfl, rfl, nofun, nofun⟩
  · intro s a s' hidle _ hstep
    exact idle_step hidle hstep

/-! ## What an operation returns -/

/-- What `create_persistent_node` makes of its result. -/
def created (r : Result CreateResponse) : Bool :=
  !decide (r.isErr ∧ ¬Bytes.ofString "node exists" <:+: r.err)

/-- An error counts as success if its text says that the node exists. -/
theorem created_makeError (msg : Bytes) :
    created (.makeError msg) = true ↔ Bytes.ofString "node exists" <:+: msg := by
  simp [created, Result.makeError, Result.isErr, Result.isOk]

/-- What an operation of a connected registry returns. -/
def Op.returns : Op → Outcome → Except Fault Bool
  | .nodeExists _, o => (o.result ExistsResponse.deserialize).map fun r => r.isOk
  | .registerService .., o => (o.result CreateResponse.deserialize).map fun r => !r.isErr
  | .unregisterService _, o => .ok !o.resultVoid.isErr
  | .createPersistentNode _, o => (o.result CreateResponse.deserialize).map created

/-- A request and what is made of its result. -/
theorem run_request {α β : Type} {op : Operation}
    {deserialize : Bytes → Except Fault (α × Bytes)} {f : Result α → Program β}
    (g : Result α → β) (hf : ∀ r, (f r).run = .done (.ok (g r))) :
    (request op deserialize >>= f).run =
      .ask op fun o => .done ((o.result deserialize).map g) := by
  show Dialogue.ask op _ = _
  congr 1
  funext o
  -- either the response throws while it is read, or its result is handed on
  cases hr : o.result deserialize with
  | error e =>
    show Dialogue.bind (.done (o.result deserialize)) _ = _
    rw [hr]
    rfl
  | ok r =>
    show Dialogue.bind (.done (o.result deserialize)) _ = _
    rw [hr]
    exact hf r

/-- The request of an operation. -/
def Op.request : Op → Operation
  | .nodeExists path => .exists path false
  | .registerService servicesPath nodeName address =>
    .create (childPath servicesPath nodeName) address aclOpenUnsafe 1
  | .unregisterService nodePath => .remove nodePath (-1)
  | .createPersistentNode path => .create path [] aclOpenUnsafe 0

/-- An operation of a connected registry is one request. -/
theorem Op.run_program (op : Op) :
    (op.program true).run = .ask op.request fun o => .done (op.returns o) := by
  cases op with
  | nodeExists path => exact run_request (fun r => r.isOk) fun r => rfl
  | registerService servicesPath nodeName address =>
    refine run_request (fun r => !r.isErr) fun r => ?_
    cases r.isErr <;> rfl
  | unregisterService nodePath =>
    -- it has a `result<void>`
    show Dialogue.ask _ _ = _
    congr 1
    funext o
    show (if o.resultVoid.isErr then pure false else pure true : Program Bool).run =
      .done (.ok !o.resultVoid.isErr)
    cases o.resultVoid.isErr <;> rfl
  | createPersistentNode path =>
    -- it looks into the text of the error
    refine run_request created fun r => ?_
    unfold created
    by_cases hr : r.isErr ∧ ¬Bytes.ofString "node exists" <:+: r.err
    · simp only [hr]
      rfl
    · simp only [hr, if_false]
      rfl

/-- One that is not connected sends nothing and returns `false`. -/
theorem Op.run_program_disconnected (op : Op) :
    (op.program false).run = .done (.ok false) := by
  cases op <;> rfl

/-- An operation makes one exchange or none. -/
theorem Op.runs_program {connected : Bool} (op : Op) {t : List (Operation × Outcome)}
    {ret : Except Fault Bool} (h : (op.program connected).run.Runs t ret) :
    (t = [] ∧ ret = .ok false) ∨ ∃ o, t = [(op.request, o)] ∧ ret = op.returns o := by
  cases connected with
  | false =>
    -- the check at the beginning of every operation
    rw [op.run_program_disconnected] at h
    obtain ⟨rfl, rfl⟩ := Dialogue.runs_done h
    exact .inl ⟨rfl, rfl⟩
  | true =>
    rw [op.run_program] at h
    cases h with
    | ask h =>
      rename_i o t
      obtain ⟨rfl, rfl⟩ := Dialogue.runs_done h
      exact .inr ⟨o, rfl, rfl⟩

/-! ## When an operation reports what happened -/

/-- The text that `create_persistent_node` looks for is that of one error. -/
theorem nodeExists_infix_zkErrorStr (err : Int32) :
    Bytes.ofString "node exists" <:+: zkErrorStr err ↔ err = -110 := by
  unfold zkErrorStr
  cases hlookup : zkErrorTable.lookup err with
  | none =>
    -- an err outside of the table
    have htext : ¬Bytes.ofString "node exists" <:+: Bytes.ofString "unknown error" := by decide
    have hne : err ≠ -110 := by
      rintro rfl
      exact absurd hlookup (by decide)
    exact iff_of_false htext hne
  | some text =>
    -- in the table only one text contains it
    have htable : ∀ p ∈ zkErrorTable,
        Bytes.ofString "node exists" <:+: Bytes.ofString p.2 ↔ p.1 = -110 := by decide
    obtain ⟨l₁, l₂, heq, -⟩ := List.lookup_eq_some_iff.mp hlookup
    have hmem : (err, text) ∈ zkErrorTable := by simp [heq]
    exact htable _ hmem

/-- The errors that count as success. -/
def Op.Accepts : Op → Int32 → Prop
  | .createPersistentNode _, err => err = 0 ∨ err = -110
  | _, err => err = 0

/-- An operation returns `true` exactly when a reply was received that counts as success. -/
def Op.Reports (op : Op) (exs : List Exchange) (ret : Except Fault Bool) : Prop :=
  ret = .ok true ↔ ∃ ex ∈ exs, ∃ err, ex.replyErr = some err ∧ op.Accepts err

/-- The exchanges whose outcome an operation reports. -/
def Op.Faithful : Op → Exchange → Prop
  | .nodeExists _, ex => ex.Readable ExistsResponse.deserialize
  | .registerService .., ex => ex.Readable CreateResponse.deserialize
  | .unregisterService _, ex => ex.replyErr = some 0
  | .createPersistentNode _, ex => ex.Readable CreateResponse.deserialize ∧
    ∀ msg, ex.failure = some msg → ¬Bytes.ofString "node exists" <:+: msg

/-- A failure, by the text of its error. -/
theorem result_failed {α : Type} {deserialize : Bytes → Except Fault (α × Bytes)}
    {g : Result α → Bool} (msg : Bytes) :
    ((Outcome.rejected msg).result deserialize).map g = .ok true ↔
      g (.makeError msg) = true := by
  simp [Outcome.result, Except.map]

/-- A reply, by its err and whether its body can be read. -/
theorem result_replied {α : Type} {deserialize : Bytes → Except Fault (α × Bytes)}
    {g : Result α → Bool} (hok : ∀ v, g (.makeOk v) = true) (err : Int32) (payload : Bytes) :
    ((Outcome.reply err payload).result deserialize).map g = .ok true ↔
      (err = 0 ∧ ∃ resp, deserialize payload = .ok resp) ∨
        (err ≠ 0 ∧ g (.makeError (zkErrorStr err)) = true) := by
  -- with err = 0 the body is read, and otherwise the text of the err is the error
  by_cases herr : err = 0
  · cases hread : deserialize payload with
    | ok resp => simp [Outcome.result, Except.map, herr, hread, bind, Except.bind, pure,
        Except.pure, hok]
    | error fault => simp [Outcome.result, Except.map, herr, hread, bind, Except.bind]
  · simp [Outcome.result, Except.map, herr]

/-- An operation that takes a reply with err = 0 for success, and nothing else. -/
theorem Op.reports_iff_of_plain {α : Type} (op : Op)
    {deserialize : Bytes → Except Fault (α × Bytes)} {g : Result α → Bool}
    (hok : ∀ v, g (.makeOk v) = true) (herror : ∀ msg, g (.makeError msg) = false)
    (hreturns : ∀ o, op.returns o = (o.result deserialize).map g)
    (haccepts : ∀ err, op.Accepts err ↔ err = 0) (ex : Exchange) :
    op.Reports [ex] (op.returns ex.outcome) ↔ ex.Readable deserialize := by
  rw [hreturns]
  -- an exchange without a reply rejects the promise, and nothing is reported
  cases ex with
  | writeFailed msg | lengthFailed msg | bodyFailed frame msg =>
    simp [Op.Reports, Exchange.outcome, Exchange.replyErr, Exchange.Readable, result_failed, herror]
  | replied zxid err payload fits =>
    simp only [Op.Reports, Exchange.outcome, Exchange.replyErr, Exchange.Readable,
      result_replied hok, haccepts, herror]
    by_cases herr : err = 0 <;> simp [herr]

/-- `unregister_service` returns `true` whatever happened: `is_err()` is false. -/
theorem returns_unregisterService (nodePath : Bytes) (o : Outcome) :
    (Op.unregisterService nodePath).returns o = .ok true := by
  cases o with
  | rejected msg => rfl
  | reply err data =>
    simp only [Op.returns, Outcome.resultVoid]
    split <;> rfl

/-- `create_persistent_node` takes an error for success whose text contains "node exists", be it
    that of a transport error. -/
theorem reports_createPersistentNode_iff (path : Bytes) (ex : Exchange) :
    (Op.createPersistentNode path).Reports [ex]
        ((Op.createPersistentNode path).returns ex.outcome) ↔
      (Op.createPersistentNode path).Faithful ex := by
  cases ex with
  | writeFailed msg | lengthFailed msg | bodyFailed frame msg =>
    simp [Op.Reports, Op.returns, Op.Faithful, Exchange.outcome, Exchange.replyErr,
      Exchange.Readable, Exchange.failure, result_failed, created_makeError]
  | replied zxid err payload fits =>
    have hok (v : CreateResponse) : created (.makeOk v) = true := rfl
    simp only [Op.Reports, Op.returns, Exchange.outcome, result_replied hok, created_makeError,
      nodeExists_infix_zkErrorStr]
    by_cases herr : err = 0
    · simp [Op.Faithful, Op.Accepts, Exchange.replyErr, Exchange.Readable, Exchange.failure, herr]
    · simp [Op.Faithful, Op.Accepts, Exchange.replyErr, Exchange.Readable, Exchange.failure, herr]

/-- The operations report exactly these exchanges. -/
theorem Op.reports_iff (op : Op) (ex : Exchange) :
    op.Reports [ex] (op.returns ex.outcome) ↔ op.Faithful ex := by
  cases op with
  | nodeExists path =>
    exact Op.reports_iff_of_plain _ (g := fun r => r.isOk) (fun _ => rfl) (fun _ => rfl)
      (fun _ => rfl) (fun _ => Iff.rfl) ex
  | registerService servicesPath nodeName address =>
    exact Op.reports_iff_of_plain _ (g := fun r => !r.isErr) (fun _ => rfl) (fun _ => rfl)
      (fun _ => rfl) (fun _ => Iff.rfl) ex
  | unregisterService nodePath =>
    rw [returns_unregisterService]
    simp [Op.Reports, Op.Faithful, Op.Accepts]
  | createPersistentNode path => exact reports_createPersistentNode_iff path ex

end ServiceRegistry

namespace Zk

/-- The handshake reply was received. -/
def Handshake.Received : Handshake → Prop
  | .replied _ => True
  | _ => False

/-- The handshakes whose outcome `connect` reports. -/
def Handshake.Faithful : Handshake → Prop
  | .replied body => ∃ resp, ConnectResponse.deserialize body = .ok resp
  | .lengthNegative => True
  | _ => False

end Zk

namespace ServiceRegistry

/-- `connect` reports a handshake faithfully only if its reply was read or its length was negative.
    -/
theorem connect_reports_iff (s : ServiceRegistry) (timeoutMs : Int32) (hs : Handshake) :
    ((s.connect timeoutMs hs).2 = .ok true ∧ (s.connect timeoutMs hs).1.connected = true ↔
      hs.Received) ↔ hs.Faithful := by
  cases hs with
  | replied body =>
    -- success, unless the body does not hold the response
    cases hread : ConnectResponse.deserialize body with
    | ok resp =>
      simp [connect, ZkSession.connect, hread, Handshake.Received, Handshake.Faithful,
        ResultVoid.isOk, ResultVoid.makeOk]
    | error fault =>
      simp [connect, ZkSession.connect, hread, Handshake.Received, Handshake.Faithful]
  | lengthNegative => simp [connect, ZkSession.connect, Handshake.Received, Handshake.Faithful]
  -- `make_error` leaves `has_err_` false, and so `connect` returns true
  | resolveFailed msg | connectFailed msg | writeFailed msg | lengthFailed msg | bodyFailed msg =>
    simp [connect, ZkSession.connect, Handshake.Received, Handshake.Faithful, ResultVoid.isOk,
      ResultVoid.makeError, ResultVoid.makeOk]

/-- A registry that is not connected returns at once. -/
theorem exec_disconnected {s : ServiceRegistry} (h : s.connected = false) (op : Op) :
    s.exec (op.program s.connected) [] = some (s, .ok false) := by
  rw [h, exec, op.run_program_disconnected]
  rfl

/-- A connected registry returns after every exchange that can take place. -/
theorem exists_exec {s : ServiceRegistry} (hidle : s.client.Idle) (h : s.connected = true) (op : Op)
    {ex : Exchange} (hpossible : ex.Possible s.client.broken) :
    ∃ s', s.exec (op.program s.connected) [ex] = some (s', op.returns ex.outcome) := by
  obtain ⟨c', hsend, -⟩ := sendRequest_possible op.request hidle hpossible
  -- the program asks once, and the exchange answers
  refine ⟨{ s with client := c' }, ?_⟩
  have hrun : (op.program s.connected).run = .ask op.request fun o => .done (op.returns o) := by
    rw [h, op.run_program]
  simp only [exec, hrun, Dialogue.exec, hsend, Option.map_some]

/-- In every state that any operations lead to, every operation returns, and `connect()` and
    the operations that return a `bool` report what happened exactly when the handshake, and
    the exchange of the request if there is one, are among those they report. -/
theorem reports_success_iff (s : ServiceRegistry) (h : Reachable step init s) :
    (∀ timeoutMs hs,
      (((s.connect timeoutMs hs).2 = .ok true ∧ (s.connect timeoutMs hs).1.connected = true ↔
        hs.Received) ↔ hs.Faithful)) ∧
    ∀ op : Op,
      (s.connected = false → ∃ s' ret, s.exec (op.program s.connected) [] = some (s', ret)) ∧
      (∀ ex, s.connected = true → ex.Possible s.client.broken →
        ∃ s' ret, s.exec (op.program s.connected) [ex] = some (s', ret)) ∧
      ∀ exs s' ret, s.exec (op.program s.connected) exs = some (s', ret) →
        (op.Reports exs ret ↔ ∀ ex ∈ exs, op.Faithful ex) := by
  refine ⟨fun timeoutMs hs => connect_reports_iff s timeoutMs hs, fun op => ⟨?_, ?_, ?_⟩⟩
  · intro hconn
    exact ⟨_, _, exec_disconnected hconn op⟩
  · intro ex hconn hpossible
    obtain ⟨s', hexec⟩ := exists_exec (idle_of_reachable h) hconn op hpossible
    exact ⟨s', _, hexec⟩
  intro exs s' ret hexec
  -- no request is under way, so the operation goes as its exchanges say
  obtain ⟨-, t, hruns, hmap⟩ := exec_spec (idle_of_reachable h) hexec
  obtain ⟨rfl, rfl⟩ | ⟨o, rfl, rfl⟩ := op.runs_program hruns
  · -- no request was sent
    obtain rfl : exs = [] := List.map_eq_nil_iff.mp hmap.symm
    simp [Op.Reports]
  -- one request was sent
  · obtain ⟨ex, rfl, rfl⟩ : ∃ ex, exs = [ex] ∧ o = ex.outcome := by
      cases exs with
      | nil => cases hmap
      | cons ex exs =>
        cases exs with
        | nil => exact ⟨ex, rfl, by simpa using hmap⟩
        | cons ex' exs => cases hmap
    rw [op.reports_iff]
    simp

/-- A handshake reply, with a session and a password. -/
def handshakeReply : Bytes :=
  writeBool (writeString (writeInt64 (writeInt32 (writeInt32 [] 0) 4000) 7) [1, 2]) false

/-- A registry that has got this reply. -/
def connectedRegistry : ServiceRegistry := (init.connect 4000 (.replied handshakeReply)).1

/-- An operation that returns has a last state. -/
theorem exists_exec_of_ret {α : Type} {s : ServiceRegistry} {p : Program α} {exs : List Exchange}
    {ret : Except Fault α} (h : (s.exec p exs).map Prod.snd = some ret) :
    ∃ s', s.exec p exs = some (s', ret) := by
  obtain ⟨⟨s', ret'⟩, hexec, rfl⟩ := Option.map_eq_some_iff.mp h
  exact ⟨s', hexec⟩

/-- A registry that is connected and registers a service. -/
theorem reports_success_registered :
    ∃ s s', Reachable step init s ∧
      s.exec ((Op.registerService [115] [97] [49]).program s.connected)
        [.replied 5 0 (writeString [] [115, 47, 97]) (by decide)] = some (s', .ok true) ∧
      (Op.registerService [115] [97] [49]).Reports
        [.replied 5 0 (writeString [] [115, 47, 97]) (by decide)] (.ok true) := by
  have hs : Reachable step init connectedRegistry :=
    Reaches.refl.tail (.connect 4000 (.replied handshakeReply)) trivial rfl
  have hret : (connectedRegistry.exec
      ((Op.registerService [115] [97] [49]).program connectedRegistry.connected)
      [.replied 5 0 (writeString [] [115, 47, 97]) (by decide)]).map Prod.snd =
        some (.ok true) := by decide
  obtain ⟨s', hexec⟩ := exists_exec_of_ret hret
  refine ⟨connectedRegistry, s', hs, hexec, ?_⟩
  rw [((reports_success_iff _ hs).2 _).2.2 _ s' _ hexec]
  simp only [List.mem_singleton, forall_eq, Op.Faithful]
  intro _
  exact ⟨_, rfl⟩

/-- The host name does not resolve. -/
def hostNotFound : Handshake := .resolveFailed (Bytes.ofString "Host not found")

/-- The host name does not resolve, and `connect()` returns `true`; the node is not there, and
    `unregister_service()` returns `true`. -/
theorem failures_reported_as_success :
    ((init.connect 4000 hostNotFound).2 = .ok true ∧
      (init.connect 4000 hostNotFound).1.connected = true ∧ ¬hostNotFound.Received) ∧
    ∃ s s', Reachable step init s ∧
      s.exec ((Op.unregisterService [115, 47, 97]).program s.connected)
        [.replied 5 (-101) [] (by decide)] = some (s', .ok true) ∧
      ¬(Op.unregisterService [115, 47, 97]).Reports [.replied 5 (-101) [] (by decide)]
        (.ok true) := by
  have hs : Reachable step init connectedRegistry :=
    Reaches.refl.tail (.connect 4000 (.replied handshakeReply)) trivial rfl
  -- the reply says that there is no such node
  have hret : (connectedRegistry.exec
      ((Op.unregisterService [115, 47, 97]).program connectedRegistry.connected)
      [.replied 5 (-101) [] (by decide)]).map Prod.snd = some (.ok true) := by decide
  obtain ⟨s', hexec⟩ := exists_exec_of_ret hret
  refine ⟨⟨rfl, rfl, nofun⟩, connectedRegistry, s', hs, hexec, ?_⟩
  simp [Op.Reports, Op.Accepts, Exchange.replyErr]

end ServiceRegistry

end Rpc
