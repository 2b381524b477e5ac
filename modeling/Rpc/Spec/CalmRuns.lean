import Rpc.Spec.PendingCorrect
import Rpc.Spec.SerialCorrect

/-!
# Calm runs

A run is calm if it stays within the limits of the wire format and nothing in it
fails or is shut down: no read or write comes with an error, nobody closes the
client's connection, disconnects or destroys the pool, and no handler throws
anything but a `std::runtime_error` (`Calm`).  Then neither read loop ends, no
promise is completed without a response, and nothing that was handed on is lost:
`RpcClient.CalmInv`, `Server.CalmInv`.  That the frames the read loops are given
are good ones is in the streams: what has been read is a prefix of the frames
pushed (`next_header`, `next_frame`).
-/

namespace Rpc

open Transition

/-! ## The client's connection on the server -/

namespace Connection

/-- The step does not fail, and does not close. -/
def calm : Act → Bool
  | .readError | .writeError _ | .close | .messageThrew => false
  | _ => true

/-- The bytes are a header with the right magic. -/
def GoodHeader (data : Bytes) : Prop :=
  ∃ header, deserializeHeader data = .ok header ∧ header.magic = RpcHeader.MAGIC

/-- A good header is followed by its body. -/
theorem step_goodHeader {c c' : Connection} {data : Bytes} (hgood : GoodHeader data)
    (h : c.step (.readHeader data) = some c') :
    ∃ header, c' = { c with reading := .body header } := by
  obtain ⟨header, hok, hmagic⟩ := hgood
  simp only [step] at h
  split at h
  · split at h
    · obtain rfl := Option.some.inj h
      refine ⟨header, ?_⟩
      -- the branch of a valid magic
      simp only [onReadHeader, hok, hmagic, ne_eq, not_true_eq_false, if_false]
    · cases h
  · cases h

/-- Frames are not forgotten. -/
theorem Steps.mem_frames {c c' : Connection} {a : Act} (h : Steps c a c') {data : Bytes}
    (hmem : data ∈ c.frames) : data ∈ c'.frames := by
  have hsame : c'.sending = c.sending → c'.writes.pushed = c.writes.pushed →
      data ∈ c'.frames := by
    intro hsending hpushed
    rw [Connection.frames, hsending, hpushed]
    exact hmem
  cases h with
  | send t header body hclosed =>
    obtain ⟨t', hmem⟩ | hmem := Connection.mem_frames.mp hmem
    · exact Connection.mem_frames.mpr (.inl ⟨t', List.mem_cons_of_mem _ hmem⟩)
    · exact Connection.mem_frames.mpr (.inr hmem)
  | push t data' hsending =>
    -- from the thread to the end of the queue
    obtain ⟨t', hmem⟩ | hmem := Connection.mem_frames.mp hmem
    · by_cases heq : (t', data) = (t, data')
      · obtain ⟨rfl, rfl⟩ := Prod.mk.inj heq
        exact Connection.mem_frames.mpr
          (.inr (List.mem_append_right _ (List.mem_singleton.mpr rfl)))
      · exact Connection.mem_frames.mpr (.inl ⟨t', (List.mem_erase_of_ne heq).mpr hmem⟩)
    · exact Connection.mem_frames.mpr (.inr (List.mem_append_left _ hmem))
  | pop t w hw => exact hsame rfl (WriteChain.pop_history hw).2.1
  | startWrite t data' w hw => exact hsame rfl (WriteChain.start_history hw).2.1
  | writeDone data' w hw => exact hsame rfl (WriteChain.complete_history hw).2.1
  | writeError data' w hw => exact hsame (closeOnce_sending c) (WriteChain.abort_pushed hw)
  | readEnded a hread =>
    exact hsame (closeOnce_sending c) (congrArg WriteChain.pushed (closeOnce_writes c))
  | _ => exact hsame rfl rfl

/-- A calm step leaves an open connection open, and its read loop running. -/
theorem calm_step {c c' : Connection} {a : Act} (h : c.step a = some c') (hcalm : calm a = true)
    (hgood : ∀ data, a = .readHeader data → GoodHeader data) (hopen : c.closed = false)
    (hloop : c.reading ≠ .ended) : c'.closed = false ∧ c'.reading ≠ .ended := by
  cases steps_of_step h with
  | readEnded a hread =>
    obtain ⟨data, rfl⟩ | rfl := hread
    · -- a good header does not end the loop
      obtain ⟨header, heq⟩ := step_goodHeader (hgood data rfl) h
      rw [heq]
      exact ⟨hopen, by simp⟩
    · cases hcalm
  | startRead | headerRead | bodyRead | handled => exact ⟨hopen, by simp⟩
  | threw | writeError | close => cases hcalm
  | _ => exact ⟨hopen, hloop⟩

end Connection

/-! ## The client -/

namespace RpcClient

/-- The step neither fails nor disconnects. -/
def calm : Act → Bool
  | .readError _ | .writeError .. | .stopIo | .joinIo => false
  | _ => true

/-- Every call that has enqueued its frame waits for a response or has got one. -/
structure CalmInv (s : RpcClient) : Prop where
  ioStopped : s.ioStopped = false
  loop : s.reading ≠ .ended
  answered : ∀ k ∈ s.completions, k.answer ≠ none
  dropped : s.dropped = []
  pushed : ∀ c call, s.calls[c]? = some call → call.phase = .enqueued →
    c ∈ s.writes.pushed.map WriteItem.call
  cleared : ∀ f ∈ s.received, s.pending.lookup f.1.seqId = none

/-- At the beginning no call has been made. -/
theorem calmInv_init : CalmInv init := by
  constructor
  · rfl
  · simp [init]
  · simp [init]
  · rfl
  · simp [init]
  · simp [init]

/-- A step that makes no call, and moves none on. -/
theorem CalmInv.of_eq {s s' : RpcClient} (hinv : CalmInv s) (hio : s'.ioStopped = s.ioStopped)
    (hloop : s'.reading ≠ .ended) (hcomp : s'.completions = s.completions)
    (hdrop : s'.dropped = s.dropped) (hcalls : s'.calls = s.calls)
    (hpushed : s'.writes.pushed = s.writes.pushed) (hrec : s'.received = s.received)
    (hpending : s'.pending = s.pending) : CalmInv s' := by
  constructor
  · rw [hio]
    exact hinv.ioStopped
  · exact hloop
  · rw [hcomp]
    exact hinv.answered
  · rw [hdrop]
    exact hinv.dropped
  · rw [hcalls, hpushed]
    exact hinv.pushed
  · rw [hrec, hpending]
    exact hinv.cleared

/-- A call whose frame has been pushed, and then another one moves on. -/
theorem CalmInv.pushed_setPhase {s : RpcClient} (hinv : CalmInv s) {c : Nat} {call : Call}
    {phase : CallPhase} (hcall : s.calls[c]? = some call) {c' : Nat} {call' : Call}
    (h : (s.setPhase c call phase)[c']? = some call') (hphase : call'.phase = .enqueued) :
    c' = c ∧ phase = .enqueued ∨ c' ∈ s.writes.pushed.map WriteItem.call := by
  obtain ⟨rfl, rfl⟩ | ⟨-, hold⟩ := getElem?_setPhase hcall h
  · exact .inl ⟨rfl, hphase⟩
  · exact .inr (hinv.pushed c' call' hold hphase)

/-- The call that takes its place in `pending_` finds it free. -/
theorem lookup_of_allocated {s : RpcClient} (hcalls : CallInv s) (hprom : PromiseInv s)
    (hlen : s.calls.length < 2 ^ 32) {c : Nat} {call : Call} (hcall : s.calls[c]? = some call)
    (hphase : call.phase = .allocated) : s.pending.lookup call.seqId = none := by
  cases hp : s.pending.lookup call.seqId with
  | none => rfl
  | some c' =>
    -- what is registered under its number would be the call itself
    obtain ⟨call', hcall', hseq, hphase'⟩ := (hprom.pending _ c' hp).1
    obtain rfl := hcalls.seqId_inj hlen hcall' hcall hseq
    rw [hcall] at hcall'
    obtain rfl := Option.some.inj hcall'
    exact absurd hphase hphase'

/-- A call that takes its place in `pending_` replaces none. -/
theorem CalmInv.register {s : RpcClient} (hinv : CalmInv s) (hcalls : CallInv s)
    (hprom : PromiseInv s) (hlen : s.calls.length < 2 ^ 32)
    (hrec : ∀ f ∈ s.received, ∃ (c : Nat) (call : Call), s.calls[c]? = some call ∧
      call.phase = .enqueued ∧ call.seqId = f.1.seqId) {c : Nat} {call : Call}
    (hcall : s.calls[c]? = some call) (hphase : call.phase = .allocated) :
    CalmInv { s with
      calls := s.setPhase c call .registered
      pending := s.pending.insert call.seqId c
      dropped := s.dropped ++ (s.pending.lookup call.seqId).toList } := by
  constructor
  · exact hinv.ioStopped
  · exact hinv.loop
  · exact hinv.answered
  · show s.dropped ++ (s.pending.lookup call.seqId).toList = []
    rw [hinv.dropped, lookup_of_allocated hcalls hprom hlen hcall hphase]
    rfl
  · intro c' call' hcall' hphase'
    -- the call itself has not pushed its frame
    obtain ⟨-, hne⟩ | hmem := hinv.pushed_setPhase hcall hcall' hphase'
    · cases hne
    · exact hmem
  · intro f hf
    obtain ⟨c', call', hcall', hphase', hseq⟩ := hrec f hf
    -- a response has come to an enqueued call only
    have hne : f.1.seqId ≠ call.seqId := by
      intro heq
      obtain rfl := hcalls.seqId_inj hlen hcall' hcall (hseq.trans heq)
      rw [hcall] at hcall'
      obtain rfl := Option.some.inj hcall'
      rw [hphase] at hphase'
      cases hphase'
    exact (AList.lookup_insert_ne hne).trans (hinv.cleared f hf)

/-- A good header does not end the read loop. -/
theorem reading_of_goodHeader {s s' : RpcClient} {data : Bytes}
    (hgood : Connection.GoodHeader data) (h : s.step (.readHeader data) = some s') :
    s'.reading ≠ .ended := by
  obtain ⟨header, hok, hmagic⟩ := hgood
  simp only [step] at h
  split at h
  · obtain rfl := Option.some.inj h
    simp [onReadHeader, hok, hmagic]
  · cases h

/-- A decodable body does not end the read loop. -/
theorem reading_of_goodBody {s s' : RpcClient} {body : Bytes}
    (hgood : ∃ resp, RpcResponse.deserialize body = .ok resp)
    (h : s.step (.readBody body) = some s') : s'.reading ≠ .ended := by
  obtain ⟨resp, hok⟩ := hgood
  simp only [step] at h
  split at h
  · split at h
    · obtain rfl := Option.some.inj h
      simp [onReadBody, hok]
    · cases h
  · cases h

/-- Every calm step keeps the invariant, if what is read are good headers and
    decodable bodies. -/
theorem CalmInv.step {s s' : RpcClient} {a : Act} (h : s.step a = some s')
    (hcalm : calm a = true) (hcalls : CallInv s) (hprom : PromiseInv s)
    (hlen : s.calls.length < 2 ^ 32)
    (hheader : ∀ data, a = .readHeader data → Connection.GoodHeader data)
    (hbody : ∀ body, a = .readBody body → ∃ resp, RpcResponse.deserialize body = .ok resp)
    (hrec : ∀ f ∈ s.received, ∃ (c : Nat) (call : Call), s.calls[c]? = some call ∧
      call.phase = .enqueued ∧ call.seqId = f.1.seqId) (hinv : CalmInv s) : CalmInv s' := by
  cases steps_of_step h with
  | call service method params timeoutMs =>
    refine ⟨hinv.ioStopped, hinv.loop, hinv.answered, hinv.dropped, ?_, hinv.cleared⟩
    intro c call hcall hphase
    by_cases hc : c < s.calls.length
    · rw [List.getElem?_append_left hc] at hcall
      exact hinv.pushed c call hcall hphase
    · -- the new call has not enqueued its frame
      rw [List.getElem?_append_right (Nat.not_lt.mp hc)] at hcall
      obtain rfl := List.mem_singleton.mp (List.mem_of_getElem? hcall)
      cases hphase
  | register c call hcall hphase => exact hinv.register hcalls hprom hlen hrec hcall hphase
  | enqueue c call hcall hphase =>
    refine ⟨hinv.ioStopped, hinv.loop, hinv.answered, hinv.dropped, ?_, hinv.cleared⟩
    intro c' call' hcall' hphase'
    -- its frame is the last one pushed
    show c' ∈ (s.writes.pushed ++ [_]).map WriteItem.call
    rw [List.map_append]
    obtain ⟨rfl, -⟩ | hmem := hinv.pushed_setPhase hcall hcall' hphase'
    · exact List.mem_append_right _ (List.mem_singleton.mpr rfl)
    · exact List.mem_append_left _ hmem
  | bodyRead header body resp hreading hio hbodyLen hok =>
    refine ⟨hinv.ioStopped, by simp, hinv.answered, hinv.dropped, hinv.pushed, ?_⟩
    intro f hf
    -- the response takes its call out of `pending_`
    show (s.pending.erase header.seqId).lookup f.1.seqId = none
    by_cases heq : f.1.seqId = header.seqId
    · rw [heq]
      exact AList.lookup_erase _ _
    · rw [AList.lookup_erase_ne heq]
      obtain hf | hf := List.mem_append.mp hf
      · exact hinv.cleared f hf
      · obtain rfl := List.mem_singleton.mp hf
        exact absurd rfl heq
  | setValue header body resp call hreading =>
    refine ⟨hinv.ioStopped, by simp [onMatched], ?_, hinv.dropped, hinv.pushed, hinv.cleared⟩
    intro k hk
    obtain hk | hk := List.mem_append.mp hk
    · exact hinv.answered k hk
    · obtain ⟨c, -, rfl⟩ := List.mem_map.mp hk
      simp [Completion.answer]
  | readEnded a reason hio hread hreading =>
    -- the read loop does not end on what is read here
    exfalso
    obtain ⟨data, rfl⟩ | ⟨body, rfl⟩ | ⟨r, rfl⟩ := hread
    · exact reading_of_goodHeader (hheader data rfl) h rfl
    · exact reading_of_goodBody (hbody body rfl) h rfl
    · cases hcalm
  | connected hreading hio => exact hinv.of_eq rfl (by simp) rfl rfl rfl rfl rfl rfl
  | headerRead hdrData header hreading => exact hinv.of_eq rfl (by simp) rfl rfl rfl rfl rfl rfl
  | pop t w hw =>
    exact hinv.of_eq rfl hinv.loop rfl rfl rfl (WriteChain.pop_history hw).2.1 rfl rfl
  | startWrite t item w hw =>
    exact hinv.of_eq rfl hinv.loop rfl rfl rfl (WriteChain.start_history hw).2.1 rfl rfl
  | writeDone item w hio hw =>
    exact hinv.of_eq rfl hinv.loop rfl rfl rfl (WriteChain.complete_history hw).2.1 rfl rfl
  | writeError | stopIo | joinIo => cases hcalm

end RpcClient

/-! ## The server -/

namespace Server

instance decidableHandlerThrows (mgr : ServiceManager) (header : RpcHeader) (body : Bytes) :
    Decidable (HandlerThrows mgr header body) :=
  decidable_of_iff ((processRequest mgr header body).toOption = none) (by
    rw [← processRequest_error_iff]
    cases processRequest mgr header body <;> simp [Except.toOption])

/-- The invocation that runs `process_request` in this step. -/
def processes (s : Server) : Act → Option Invocation
  | .process n => s.invocations[n]?
  | _ => none

/-- The step does not fail on the client's connection, and destroys no pool. -/
def calm : Act → Bool
  | .conn 0 a => Connection.calm a
  | .pool .setStop => false
  | _ => true

/-- The step is calm, and no handler throws anything but a `std::runtime_error` in it. -/
def Calm (s : Server) (a : Act) : Prop :=
  calm a = true ∧ ∀ inv ∈ s.processes a, ¬HandlerThrows s.services inv.job.header inv.job.body

instance (s : Server) (a : Act) : Decidable (Calm s a) := inferInstanceAs (Decidable (_ ∧ _))

/-- Nothing that reaches the server on the client's connection is lost. -/
structure CalmInv (s : Server) : Prop where
  opened : (s.conns 0).closed = false
  loop : (s.conns 0).reading ≠ .ended
  alive : s.loopDead = false
  threw : s.threw = []
  accepted : ∀ e ∈ s.entered, e.2 = false
  running : ∀ pool, s.pool = some pool → pool.stop = false
  escaped : ∀ inv ∈ s.invocations, ¬inv.Escaped
  sent : ∀ x ∈ s.sends, x.conn = 0 →
    Connection.frame x.header x.body ∈ (s.conns 0).frames

/-- At the beginning nothing has reached the server. -/
theorem calmInv_init (services : ServiceManager) (threads : Option (UInt64 × UInt32)) :
    CalmInv (init services threads) := by
  constructor
  · rfl
  · simp [init, Connection.init]
  · rfl
  · rfl
  · simp [init]
  · intro pool hpool
    obtain ⟨p, -, rfl⟩ := Option.map_eq_some_iff.mp hpool
    rfl
  · simp [init]
  · simp [init]

/-- A calm step of a connection does the client's no harm. -/
theorem CalmInv.conns {s : Server} (hinv : CalmInv s) {j : Nat} {b : Connection.Act}
    {c : Connection} (hc : (s.conns j).step b = some c)
    (hcalm : j = 0 → Connection.calm b = true)
    (hgood : j = 0 → ∀ data, b = .readHeader data → Connection.GoodHeader data) :
    ((s.setConn j c).conns 0).closed = false ∧ ((s.setConn j c).conns 0).reading ≠ .ended ∧
      ∀ data ∈ (s.conns 0).frames, data ∈ ((s.setConn j c).conns 0).frames := by
  have hconns : (s.setConn j c).conns = Function.update s.conns j c := rfl
  rw [hconns]
  -- the other connections may fail and close
  by_cases hj : j = 0
  · subst hj
    obtain ⟨hopen, hloop⟩ :=
      Connection.calm_step hc (hcalm rfl) (hgood rfl) hinv.opened hinv.loop
    rw [Function.update_self]
    exact ⟨hopen, hloop, fun data => (Connection.steps_of_step hc).mem_frames⟩
  · rw [Function.update_of_ne (Ne.symm hj)]
    exact ⟨hinv.opened, hinv.loop, fun data hdata => hdata⟩

/-- A step that leaves the connections alone, and what is done with their messages. -/
theorem CalmInv.of_eq {s s' : Server} (hinv : CalmInv s) (hconns : s'.conns = s.conns)
    (halive : s'.loopDead = s.loopDead) (hthrew : s'.threw = s.threw) (hsends : s'.sends = s.sends)
    (haccepted : ∀ e ∈ s'.entered, e.2 = false)
    (hrunning : ∀ pool, s'.pool = some pool → pool.stop = false)
    (hescaped : ∀ inv ∈ s'.invocations, ¬inv.Escaped) : CalmInv s' := by
  constructor
  · rw [hconns]
    exact hinv.opened
  · rw [hconns]
    exact hinv.loop
  · rw [halive]
    exact hinv.alive
  · rw [hthrew]
    exact hinv.threw
  · exact haccepted
  · exact hrunning
  · exact hescaped
  · rw [hconns, hsends]
    exact hinv.sent

/-- Only `stop_` stops a pool. -/
theorem stop_of_step {pool pool' : ThreadPool Job} {a : ThreadPool.Act Job}
    (h : pool.step a = some pool') (ha : a ≠ .setStop) : pool'.stop = pool.stop := by
  cases ThreadPool.steps_of_step h with
  | setStop => exact absurd rfl ha
  | _ => rfl

/-- An invocation that moves on without an exception. -/
theorem CalmInv.setProgress {s : Server} (hinv : CalmInv s) {n : Nat} {inv : Invocation}
    {progress : Progress} (hnew : ¬Invocation.Escaped { inv with progress }) :
    ∀ inv' ∈ s.setProgress n inv progress, ¬inv'.Escaped := by
  intro inv' hmem
  obtain hmem | rfl := List.mem_or_eq_of_mem_set hmem
  · exact hinv.escaped inv' hmem
  · exact hnew

/-- The read loop of a connection goes on to the next message, or is at one. -/
theorem CalmInv.conn {s : Server} (hinv : CalmInv s) {k : Nat} {b : Connection.Act}
    {c : Connection} (hc : (s.conns k).step b = some c)
    (hcalm : k = 0 → Connection.calm b = true)
    (hgood : k = 0 → ∀ data, b = .readHeader data → Connection.GoodHeader data) :
    CalmInv { s.setConn k c with
      inMessage := if callsOnMessage b then some k else s.inMessage } := by
  obtain ⟨hopen, hloop, hframes⟩ := hinv.conns hc hcalm hgood
  exact ⟨hopen, hloop, hinv.alive, hinv.threw, hinv.accepted, hinv.running, hinv.escaped,
    fun x hx hconn => hframes _ (hinv.sent x hx hconn)⟩

/-- What is sent on the client's connection is on its way. -/
theorem CalmInv.send {s : Server} (hinv : CalmInv s) {n : Nat} {inv : Invocation}
    {services : ServiceManager} {resp : RpcResponse} {c : Connection}
    (hc : (s.conns inv.job.conn).step (.send inv.thread (sendResponse inv.job.header resp).1
      (sendResponse inv.job.header resp).2) = some c) :
    CalmInv { s.setConn inv.job.conn c with
      invocations := s.setProgress n inv (.sending services resp)
      sends := s.sends ++
        [{ id := inv.job.id, conn := inv.job.conn,
           header := (sendResponse inv.job.header resp).1,
           body := (sendResponse inv.job.header resp).2 }] } := by
  obtain ⟨hopen, hloop, hframes⟩ :=
    hinv.conns hc (fun _ => rfl) (by simp)
  refine ⟨hopen, hloop, hinv.alive, hinv.threw, hinv.accepted, hinv.running,
    hinv.setProgress (by simp [Invocation.Escaped]), ?_⟩
  intro x hx hconn
  obtain hx | hx := List.mem_append.mp hx
  · exact hframes _ (hinv.sent x hx hconn)
  · obtain rfl := List.mem_singleton.mp hx
    -- the connection is open, so that the frame is built
    have hconn : inv.job.conn = 0 := hconn
    rw [hconn] at hc
    have hsend := hc
    simp only [Connection.step, hinv.opened, Bool.false_eq_true, if_false] at hsend
    obtain rfl := Option.some.inj hsend
    show Connection.frame _ _ ∈ (Function.update s.conns inv.job.conn _ 0).frames
    rw [hconn, Function.update_self]
    exact Connection.mem_frames.mpr (.inl ⟨inv.thread, List.mem_cons_self⟩)

/-- Every calm step keeps the invariant, if the headers read are good ones. -/
theorem CalmInv.step {s s' : Server} {a : Act} (h : s.step a = some s') (hcalm : s.Calm a)
    (hgood : ∀ data, a = .conn 0 (.readHeader data) → Connection.GoodHeader data)
    (hinv : CalmInv s) : CalmInv s' := by
  have hentered : ∀ (id : Nat × Nat), ∀ e ∈ s.entered ++ [(id, false)], e.2 = false := by
    intro id e he
    obtain he | he := List.mem_append.mp he
    · exact hinv.accepted e he
    · obtain rfl := List.mem_singleton.mp he
      rfl
  -- an invocation that starts has not escaped
  have hstart : ∀ (thread : ThreadId) (job : Job),
      ∀ inv ∈ s.invocations ++ [{ thread, job, progress := .processing }], ¬inv.Escaped := by
    intro thread job inv hmem
    obtain hmem | hmem := List.mem_append.mp hmem
    · exact hinv.escaped inv hmem
    · obtain rfl := List.mem_singleton.mp hmem
      simp [Invocation.Escaped]
  -- only the destructor stops the pool
  have hpool : ∀ {b : ThreadPool.Act Job} {pool pool' : ThreadPool Job}, s.pool = some pool →
      pool.step b = some pool' → b ≠ .setStop →
      ∀ p, some pool' = some p → p.stop = false := by
    intro b pool pool' hp hb hne p heq
    obtain rfl := Option.some.inj heq
    rw [stop_of_step hb hne]
    exact hinv.running pool hp
  cases steps_of_step h with
  | conn k b c hown hidle hc =>
    refine hinv.conn hc ?_ ?_
    · rintro rfl
      exact hcalm.1
    · rintro rfl data rfl
      exact hgood data rfl
  | submit k job pool pool' hcur hnew hp henq hfree =>
    exact hinv.of_eq rfl rfl rfl rfl (hentered job.id)
      (hpool hp (ThreadPool.step_enqueue henq hfree) (by simp)) hinv.escaped
  | refuse k job pool c hcur hnew hp hstop hc hfree =>
    -- the pool has not been stopped
    rw [hinv.running pool hp] at hstop
    cases hstop
  | inline k job hcur hnew hp =>
    exact hinv.of_eq rfl rfl rfl rfl (hentered job.id) hinv.running (hstart none job)
  | leave k job c hcur hhandled hc =>
    obtain ⟨hopen, hloop, hframes⟩ := hinv.conns hc (fun _ => rfl) (by simp)
    exact ⟨hopen, hloop, hinv.alive, hinv.threw, hinv.accepted, hinv.running, hinv.escaped,
      fun x hx hconn => hframes _ (hinv.sent x hx hconn)⟩
  | pool b pool pool' hown hp hb =>
    refine hinv.of_eq rfl rfl rfl rfl hinv.accepted (hpool hp hb ?_) hinv.escaped
    rintro rfl
    cases hcalm.1
  | activate i pool pool' task hp hw hb =>
    exact hinv.of_eq rfl rfl rfl rfl hinv.accepted (hpool hp hb (by simp))
      (hstart (some i) task.job)
  | finish i pool pool' hp hb =>
    exact hinv.of_eq rfl rfl rfl rfl hinv.accepted (hpool hp hb (by simp)) hinv.escaped
  | respond n inv resp hn hprog hresp =>
    exact hinv.of_eq rfl rfl rfl rfl hinv.accepted hinv.running
      (hinv.setProgress (by simp [Invocation.Escaped]))
  | escapeTask n inv fault hn hprog hthread hfault =>
    -- no handler throws so in a calm step
    exact absurd ((processRequest_error_iff _ _ _).mp ⟨fault, hfault⟩) (hcalm.2 inv hn)
  | escapeInline n inv fault c hn hprog hthread hfault hc =>
    exact absurd ((processRequest_error_iff _ _ _).mp ⟨fault, hfault⟩) (hcalm.2 inv hn)
  | send n inv services resp c hn hprog hc => exact hinv.send hc
  | done n inv services resp hn hprog hout =>
    exact hinv.of_eq rfl rfl rfl rfl hinv.accepted hinv.running
      (hinv.setProgress (by simp [Invocation.Escaped]))
  | services a services ha =>
    exact hinv.of_eq rfl rfl rfl rfl hinv.accepted hinv.running hinv.escaped

end Server

/-! ## What the read loops are given -/

/-- After whole frames, a stream of good frames goes on with a good header. -/
theorem goodHeader_of_read {ls : List Bytes} {frames : List Frame} {read data : Bytes}
    (hls : ∀ l ∈ ls, ∃ g : Frame, g.WellFormed ∧ g.encode = l)
    (hconsumed : Consumed read frames (some [])) (hlen : data.length = 20)
    (hpre : read ++ data <+: ls.flatten) : Connection.GoodHeader data := by
  obtain ⟨tail, hread, htail⟩ := hconsumed.split
  rw [htail [] rfl, List.append_nil] at hread
  subst hread
  -- the frames read are the first ones, and the header is that of the next
  obtain ⟨ls', rfl⟩ := prefix_of_encode hconsumed.wellFormed hls
    ((List.prefix_append _ _).trans hpre)
  rw [List.flatten_append] at hpre
  obtain ⟨rest, hrest⟩ := (List.prefix_append_right_inj _).mp hpre
  cases ls' with
  | nil =>
    have hzero := congrArg List.length hrest
    rw [List.length_append, hlen, List.flatten_nil, List.length_nil] at hzero
    omega
  | cons l ls' =>
    obtain ⟨g, hg, rfl⟩ := hls l (List.mem_append_right _ List.mem_cons_self)
    rw [List.flatten_cons, Frame.encode, List.append_assoc] at hrest
    obtain ⟨rfl, -⟩ := List.append_inj hrest (by rw [hlen, serializeHeader_length])
    exact ⟨g.1, deserializeHeader_serializeHeader g.1, hg.1⟩

/-- After a header, a stream of good frames goes on with the body of its frame. -/
theorem frame_of_read {ls : List Bytes} {frames : List Frame} {read body : Bytes}
    {header : RpcHeader} (hls : ∀ l ∈ ls, ∃ g : Frame, g.WellFormed ∧ g.encode = l)
    (hconsumed : Consumed read frames (some (serializeHeader header)))
    (hmagic : header.magic = RpcHeader.MAGIC) (hlen : body.length = header.bodySize.toNat)
    (hpre : read ++ body <+: ls.flatten) : Frame.encode (header, body) ∈ ls := by
  have hafter := hconsumed.body hmagic hlen
  have hfirst := prefix_of_encode hafter.wellFormed hls (hafter.prefix_read.trans hpre)
  rw [List.map_append] at hfirst
  exact hfirst.subset (List.mem_append_right _ (List.mem_singleton.mpr rfl))

namespace System

/-- What a party reads next has been pushed by the other. -/
theorem read_prefix {inn out inn' out' : Wire} {theirs ours data pushed : Bytes}
    (h : exchange inn out theirs ours (.read data) = some (inn', out'))
    (hinv : WireInv inn pushed) (htheirs : theirs <+: pushed) : inn.read ++ data <+: pushed := by
  obtain ⟨w, hw, -⟩ := Option.map_eq_some_iff.mp h
  simp only [Wire.take] at hw
  split at hw
  · rename_i hpre
    exact hpre.trans (hinv.available htheirs)
  · cases hw

/-- A stream is cut by a failed write only. -/
theorem exchange_cut {inn out inn' out' : Wire} {theirs ours : Bytes} {traffic : Traffic}
    (h : exchange inn out theirs ours traffic = some (inn', out'))
    (hne : traffic ≠ .writeError) : inn'.cut = inn.cut ∧ out'.cut = out.cut := by
  cases traffic with
  | quiet =>
    obtain ⟨rfl, rfl⟩ := Prod.mk.inj (Option.some.inj h)
    exact ⟨rfl, rfl⟩
  | read data =>
    obtain ⟨w, hw, heq⟩ := Option.map_eq_some_iff.mp h
    obtain ⟨rfl, rfl⟩ := Prod.mk.inj heq
    simp only [Wire.take] at hw
    split at hw
    · obtain rfl := Option.some.inj hw
      exact ⟨rfl, rfl⟩
    · cases hw
  | writeDone =>
    -- a write that succeeds adds to the stream
    simp only [exchange] at h
    split at h
    · obtain ⟨rfl, rfl⟩ := Prod.mk.inj (Option.some.inj h)
      exact ⟨rfl, rfl⟩
    · cases h
  | writeError => exact absurd rfl hne

/-- Nothing fails or is shut down. -/
def Undisturbed (s : System) : Act → Prop
  | .client a => RpcClient.calm a = true
  | .server a => s.server.Calm a

instance (s : System) : (a : Act) → Decidable (Undisturbed s a)
  | .client a => inferInstanceAs (Decidable (RpcClient.calm a = true))
  | .server a => inferInstanceAs (Decidable (s.server.Calm a))

/-- The step stays within the limits, and nothing fails or is shut down. -/
def Calm (s : System) (a : Act) : Prop := WithinLimits s a ∧ Undisturbed s a

instance (s : System) (a : Act) : Decidable (Calm s a) := inferInstanceAs (Decidable (_ ∧ _))

/-- No write of the client fails. -/
theorem clientTraffic_of_calm {a : RpcClient.Act} (h : RpcClient.calm a = true) :
    clientTraffic a ≠ .writeError := by
  cases a with
  | writeError item reason => cases h
  | _ => simp [clientTraffic]

/-- No write to the client fails. -/
theorem serverTraffic_of_calm {s : Server} {a : Server.Act} (h : s.Calm a) :
    serverTraffic a ≠ .writeError := by
  cases a with
  | conn k b =>
    cases k with
    | zero =>
      cases b with
      | writeError data => cases h.1
      | _ => simp [serverTraffic, connTraffic]
    | succ k => simp [serverTraffic]
  | _ => simp [serverTraffic]

/-- Nothing is lost on the way. -/
structure CalmInv (s : System) : Prop where
  up : s.up.cut = none
  down : s.down.cut = none
  client : s.client.CalmInv
  server : s.server.CalmInv

section

variable {services : ServiceManager} {threads : Option (UInt64 × UInt32)} {s : System}

/-- A calm run stays within the limits. -/
theorem withinLimits_of_calm (h : Reaches step Calm (init services threads) s) :
    Reaches step WithinLimits (init services threads) s :=
  h.mono fun _ _ hok => hok.1

/-- A response has come for an enqueued call. -/
theorem received_call (h : Reaches step WithinLimits (init services threads) s) :
    ∀ f ∈ s.client.received, ∃ (c : Nat) (call : Call), s.client.calls[c]? = some call ∧
      call.phase = .enqueued ∧ call.seqId = f.1.seqId := by
  intro f hf
  -- the response was sent for an invocation, which serves a call
  obtain ⟨inv, hmem, hconn, resp, -, -, rfl⟩ := received_response h hf
  obtain ⟨item, call, hitem, hcall, hserves⟩ := serves_call h hmem hconn
  obtain ⟨call', hcall', hphase, -⟩ := (RpcClient.callInv_of_reachable (client_reachable h)).pushed
    item (List.mem_of_getElem? hitem)
  obtain rfl : call = call' := Option.some.inj (hcall.symm.trans hcall')
  refine ⟨item.call, call, hcall, hphase, ?_⟩
  show call.seqId = inv.job.header.seqId
  rw [hserves.header]
  rfl

/-- What the client reads are good headers and decodable bodies. -/
theorem client_reads (h : Reaches step WithinLimits (init services threads) s)
    {a : RpcClient.Act} {client : RpcClient} {up down : Wire}
    (hex : exchange s.down s.up s.downBytes s.upBytes (clientTraffic a) = some (down, up))
    (hc : s.client.step a = some client) :
    (∀ data, a = .readHeader data → Connection.GoodHeader data) ∧
      ∀ body, a = .readBody body → ∃ resp, RpcResponse.deserialize body = .ok resp := by
  have hstream := streamInv_of_reaches h
  have hwell := pushedDown_wellFormed h
  have hwritten : s.downBytes <+: s.pushedDown.flatten :=
    List.IsPrefix.flatten (Connection.writesInv_of_reachable
      (Server.conn_reachable (server_reachable h) 0)).chain.prefix_started
  constructor
  · rintro data rfl
    have hpre := read_prefix hex hstream.down hwritten
    simp only [RpcClient.step] at hc
    split at hc
    · rename_i hguard
      have hconsumed := hstream.received.consumed
      rw [hguard.1] at hconsumed
      exact goodHeader_of_read hwell hconsumed hguard.2.2 hpre
    · cases hc
  · rintro body rfl
    have hpre := read_prefix hex hstream.down hwritten
    simp only [RpcClient.step] at hc
    split at hc
    · rename_i header hreading
      split at hc
      · rename_i hguard
        have hconsumed := hstream.received.consumed
        rw [hreading] at hconsumed
        -- the frame is a response, and small
        have hmagic := hstream.received.magic header hreading
        have hmem := frame_of_read hwell hconsumed hmagic hguard.2 hpre
        obtain ⟨inv, -, -, resp, -, hsmall, heq⟩ := pushedDown_response h hmem
        have henc : Frame.encode (sendResponse inv.job.header resp) ++ [] =
            Frame.encode (header, body) ++ [] := by rw [heq]
        obtain ⟨hsame, -⟩ := Frame.encode_inj (sendResponse_wellFormed inv.job.header hsmall)
          ⟨hmagic, hguard.2.symm⟩ henc
        have hbody : resp.serialize = body := congrArg Prod.snd hsame
        exact ⟨resp, hbody ▸ hsmall.decodes⟩
      · cases hc
    · cases hc

/-- What the server reads on the client's connection are good headers. -/
theorem server_reads (h : Reaches step WithinLimits (init services threads) s)
    {a : Server.Act} {server : Server} {up down : Wire}
    (hex : exchange s.up s.down s.upBytes s.downBytes (serverTraffic a) = some (up, down))
    (hs : s.server.step a = some server) :
    ∀ data, a = .conn 0 (.readHeader data) → Connection.GoodHeader data := by
  rintro data rfl
  have hstream := streamInv_of_reaches h
  have hwritten : s.upBytes <+: s.pushedUp.flatten :=
    List.IsPrefix.flatten ((RpcClient.writesInv_of_reachable
      (client_reachable h)).chain.prefix_started.map _)
  have hpre := read_prefix hex hstream.up hwritten
  cases Server.steps_of_step hs with
  | conn k b c hown hidle hc =>
    simp only [Connection.step] at hc
    split at hc
    · rename_i hreading
      split at hc
      · rename_i hlen
        have hconsumed := hstream.delivered.consumed
        rw [hreading] at hconsumed
        exact goodHeader_of_read (pushedUp_wellFormed h) hconsumed hlen hpre
      · cases hc
    · cases hc
  | services a services ha =>
    obtain ⟨service, ha⟩ | ⟨name, ha⟩ := ha <;> cases ha

/-- In a calm run nothing is lost. -/
theorem calmInv_of_reaches (h : Reaches step Calm (init services threads) s) : CalmInv s := by
  -- with the run itself, for what the streams carry
  apply h.invariant_with (I := fun s => Reaches step Calm (init services threads) s)
  · exact fun s hs => hs
  · exact ⟨rfl, rfl, RpcClient.calmInv_init, Server.calmInv_init services threads⟩
  · intro s a s' hs hinv hok hstep
    have hlimits := withinLimits_of_calm hs
    cases steps_of_step hstep with
    | client a client up down hex hc =>
      obtain ⟨hdown, hup⟩ := exchange_cut hex (clientTraffic_of_calm hok.2)
      obtain ⟨hheader, hbody⟩ := client_reads hlimits hex hc
      exact ⟨hup.trans hinv.up, hdown.trans hinv.down,
        hinv.client.step hc hok.2 (RpcClient.callInv_of_reachable (client_reachable hlimits))
          (RpcClient.promiseInv_of_reachable (client_reachable hlimits))
          (limitInv_of_reaches hlimits).calls hheader hbody (received_call hlimits), hinv.server⟩
    | server a server up down hex hserver =>
      obtain ⟨hup, hdown⟩ := exchange_cut hex (serverTraffic_of_calm hok.2)
      exact ⟨hup.trans hinv.up, hdown.trans hinv.down, hinv.client,
        hinv.server.step hserver hok.2 (server_reads hlimits hex hserver)⟩

end

end System

end Rpc
