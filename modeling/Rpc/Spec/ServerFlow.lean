import Rpc.Spec.ServerJobs
import Rpc.Spec.ThreadPoolProgress

/-!
# The way of a message through the server

Every message delivered to `on_message` is with the read handler, has left it, or
has thrown into it (`FlowInv`).  An invocation runs where the server's mode puts
it, and on the io thread the read handler waits for it (`InvokeInv`).  Neither
can be shown without the other: that an exception finds its read handler waiting
is in `InvokeInv`, that a message is entered only once is in `FlowInv`.
-/

namespace Rpc.Server

open Transition

/-! ## The pool -/

/-- The pool of the server is a pool. -/
theorem pool_reachable {services : ServiceManager} {threads : Option (UInt64 × UInt32)}
    {s : Server} (h : Reachable step (init services threads) s) :
    ∀ pool, s.pool = some pool →
      ∃ n hw, Reachable ThreadPool.step (ThreadPool.init n hw) pool := by
  apply h.invariant
  · intro pool hpool
    obtain ⟨p, _, rfl⟩ := Option.map_eq_some_iff.mp hpool
    exact ⟨p.1, p.2, .refl⟩
  · intro s a s' ih _ hs
    have hstep : ∀ (b : ThreadPool.Act Job) (pool pool' : ThreadPool Job), s.pool = some pool →
        pool.step b = some pool' → s'.pool = some pool' →
        ∀ p, s'.pool = some p → ∃ n hw, Reachable ThreadPool.step (ThreadPool.init n hw) p := by
      intro b pool pool' hpool hb hpool' p hp
      obtain rfl : pool' = p := Option.some.inj (hpool'.symm.trans hp)
      obtain ⟨n, hw, hreach⟩ := ih pool hpool
      exact ⟨n, hw, hreach.tail b trivial hb⟩
    cases steps_of_step hs with
    | submit k job pool pool' hcur hnew hpool henq hfree =>
      refine hstep (.enqueue job) pool pool' hpool ?_ rfl
      simp [ThreadPool.step, henq, hfree]
    | pool b pool pool' hown hpool hb => exact hstep b pool pool' hpool hb rfl
    | activate i pool pool' task hpool hw hb => exact hstep _ pool pool' hpool hb rfl
    | finish i pool pool' hpool hb => exact hstep _ pool pool' hpool hb rfl
    | _ => exact ih

/-! ## The read handlers -/

/-- What a step of its own does to a connection's read loop. -/
theorem connStep_cases {c c' : Connection} {a : Connection.Act} (hown : ownAct a = true)
    (h : c.step a = some c') :
    (callsOnMessage a = false ∧ c'.reading = c.reading ∧ c'.delivered = c.delivered) ∨
      (startsHandler a = true ∧ callsOnMessage a = false ∧ c'.delivered = c.delivered ∧
        ∀ header body, c'.reading ≠ .handling header body) ∨
      (startsHandler a = true ∧ callsOnMessage a = true ∧
        ∃ header body, c'.reading = .handling header body ∧
          c'.delivered = c.delivered ++ [(header, body)]) := by
  cases Connection.steps_of_step h with
  | startRead => exact .inr (.inl ⟨rfl, rfl, rfl, nofun⟩)
  | headerRead => exact .inr (.inl ⟨rfl, rfl, rfl, nofun⟩)
  | bodyRead header body => exact .inr (.inr ⟨rfl, rfl, header, body, rfl, rfl⟩)
  | readEnded a hread =>
    obtain ⟨d, rfl⟩ | rfl := hread
    · exact .inr (.inl ⟨rfl, rfl, Connection.closeOnce_delivered c, nofun⟩)
    · exact .inr (.inl ⟨rfl, rfl, Connection.closeOnce_delivered c, nofun⟩)
  | writeError data w hw =>
    exact .inl ⟨rfl, Connection.closeOnce_reading c, Connection.closeOnce_delivered c⟩
  | handled | threw | sendClosed | send => cases hown
  | _ => exact .inl ⟨rfl, rfl, rfl⟩

/-- `send` does not touch the read loop. -/
theorem readLoop_send {c c' : Connection} {t : ThreadId} {header : RpcHeader} {body : Bytes}
    (h : c.step (.send t header body) = some c') :
    c'.reading = c.reading ∧ c'.delivered = c.delivered := by
  cases Connection.steps_of_step h with
  | sendClosed => exact ⟨rfl, rfl⟩
  | send => exact ⟨rfl, rfl⟩
  | readEnded a hread => simp at hread

/-- Every message delivered is with its read handler, has left it, or has thrown
    into it; the io thread is inside of one handler at most. -/
structure FlowInv (s : Server) : Prop where
  inMessage : ∀ k job, s.current k = some job → s.inMessage = some k
  alive : s.inMessage ≠ none → s.loopDead = false
  placed : ∀ k j, j < (s.conns k).delivered.length →
    (k, j) ∈ s.left ∨ (k, j) ∈ s.threw ∨ ∃ job, s.current k = some job ∧ job.id = (k, j)
  entered : ∀ id, id ∈ s.left ∨ id ∈ s.threw → id ∈ s.entered.map Prod.fst
  stopped : ∀ id, (id, true) ∈ s.entered → id ∈ s.threw

/-- An invocation runs on the io thread exactly when there is no pool.  There, the
    read handler waits for it: its message has not left while it runs, and has
    thrown when an exception has left it. -/
structure InvokeInv (s : Server) : Prop where
  thread : ∀ inv ∈ s.invocations, inv.thread = none ↔ s.pool = none
  accepted : ∀ pool, s.pool = some pool → pool.accepted.map (fun t => t.job.id) = s.acceptedIds
  running : ∀ inv ∈ s.invocations, inv.thread = none → inv.progress.isOver = false →
    inv.job.id ∉ s.left ∧ inv.job.id ∉ s.threw
  escaped : ∀ inv ∈ s.invocations, inv.thread = none → inv.Escaped → inv.job.id ∈ s.threw

/-- The message of a read handler is in its read loop. -/
theorem current_congr {s s' : Server} {k : Nat}
    (hreading : (s'.conns k).reading = (s.conns k).reading)
    (hdel : (s'.conns k).delivered = (s.conns k).delivered) : s'.current k = s.current k := by
  simp only [current, hreading, hdel]

/-- Replacing a connection by one with the same read loop changes no read loop. -/
theorem readLoop_update {conns : Nat → Connection} {k : Nat} {c : Connection}
    (hreading : c.reading = (conns k).reading) (hdel : c.delivered = (conns k).delivered)
    (k' : Nat) : (Function.update conns k c k').reading = (conns k').reading ∧
      (Function.update conns k c k').delivered = (conns k').delivered := by
  by_cases hne : k' = k
  · rw [hne, Function.update_self]
    exact ⟨hreading, hdel⟩
  · rw [Function.update_of_ne hne]
    exact ⟨rfl, rfl⟩

/-- A read loop that is not at a message has none. -/
theorem current_eq_none {s : Server} {k : Nat}
    (h : ∀ header body, (s.conns k).reading ≠ .handling header body) : s.current k = none := by
  unfold current
  split
  · rename_i header body hreading
    exact absurd hreading (h header body)
  · rfl

/-- The message of a read handler is the last one delivered. -/
theorem current_conn {s : Server} {k : Nat} {job : Job} (h : s.current k = some job) :
    job.id = (k, (s.conns k).delivered.length - 1) := by
  unfold current at h
  split at h
  · obtain rfl := Option.some.inj h
    rfl
  · cases h

/-- A step that touches neither the read loops nor the lists of messages. -/
theorem FlowInv.of_eq {s s' : Server} (hinv : FlowInv s)
    (hcur : ∀ k, s'.current k = s.current k)
    (hdel : ∀ k, (s'.conns k).delivered = (s.conns k).delivered)
    (hin : s'.inMessage = s.inMessage) (hdead : s'.loopDead = s.loopDead)
    (hleft : s'.left = s.left) (hthrew : s'.threw = s.threw)
    (hentered : ∀ e ∈ s.entered, e ∈ s'.entered)
    (hstopped : ∀ id, (id, true) ∈ s'.entered → (id, true) ∈ s.entered) : FlowInv s' := by
  constructor
  · intro k job h
    rw [hin]
    exact hinv.inMessage k job (hcur k ▸ h)
  · rw [hin, hdead]
    exact hinv.alive
  · intro k j hj
    rw [hleft, hthrew, hcur]
    exact hinv.placed k j (hdel k ▸ hj)
  · intro id hid
    rw [hleft, hthrew] at hid
    obtain ⟨e, he, rfl⟩ := List.mem_map.mp (hinv.entered id hid)
    exact List.mem_map_of_mem (hentered e he)
  · intro id hid
    rw [hthrew]
    exact hinv.stopped id (hstopped id hid)

/-- Connection `k`'s read handler is done with its message. -/
theorem FlowInv.of_end {s s' : Server} (hinv : FlowInv s) {k : Nat} {job : Job} {c : Connection}
    (hcur : s.current k = some job) (hconns : s'.conns = Function.update s.conns k c)
    (hdel : c.delivered = (s.conns k).delivered)
    (hreading : ∀ header body, c.reading ≠ .handling header body) (hin : s'.inMessage = none)
    (hleft : ∀ id ∈ s.left, id ∈ s'.left) (hthrew : ∀ id ∈ s.threw, id ∈ s'.threw)
    (hjob : job.id ∈ s'.left ∨ job.id ∈ s'.threw)
    (hentered : ∀ id, id ∈ s'.left ∨ id ∈ s'.threw → id ∈ s'.entered.map Prod.fst)
    (hstopped : ∀ id, (id, true) ∈ s'.entered → id ∈ s'.threw) : FlowInv s' := by
  have hk : s'.current k = none := by
    apply current_eq_none
    rw [hconns, Function.update_self]
    exact hreading
  have hother : ∀ k', k' ≠ k → s'.current k' = s.current k' := by
    intro k' hne
    have hsame : s'.conns k' = s.conns k' := by rw [hconns, Function.update_of_ne hne]
    exact current_congr (by rw [hsame]) (by rw [hsame])
  have hdel' : ∀ k', (s'.conns k').delivered = (s.conns k').delivered := by
    intro k'
    by_cases hne : k' = k
    · rw [hne, hconns, Function.update_self, hdel]
    · rw [hconns, Function.update_of_ne hne]
  constructor
  · intro k' job' hcur'
    -- the io thread was in this handler, so that it was in no other
    by_cases hne : k' = k
    · rw [hne, hk] at hcur'
      cases hcur'
    · rw [hother k' hne] at hcur'
      have heq := (hinv.inMessage k' job' hcur').symm.trans (hinv.inMessage k job hcur)
      exact absurd (Option.some.inj heq) hne
  -- the io thread is in no handler any more
  · exact fun hne => absurd hin hne
  · intro k' j hj
    obtain h | h | ⟨job', hcur', hid⟩ := hinv.placed k' j (hdel' k' ▸ hj)
    · exact .inl (hleft _ h)
    · exact .inr (.inl (hthrew _ h))
    · by_cases hne : k' = k
      · subst hne
        obtain rfl : job' = job := Option.some.inj (hcur'.symm.trans hcur)
        rw [← hid]
        exact hjob.imp_right .inl
      · exact .inr (.inr ⟨job', (hother k' hne).trans hcur', hid⟩)
  · exact hentered
  · exact hstopped

/-- While the io thread is outside of `on_message_`, no connection is in it. -/
theorem FlowInv.current_of_ioIdle {s : Server} (hinv : FlowInv s) (hidle : s.ioIdle = true)
    (k : Nat) : s.current k = none := by
  have hnone : s.inMessage = none := by
    simp only [ioIdle, Bool.and_eq_true, Option.isNone_iff_eq_none] at hidle
    exact hidle.2
  cases hcur : s.current k with
  | none => rfl
  | some job =>
    rw [hinv.inMessage k job hcur] at hnone
    cases hnone

/-- A step of a connection's own. -/
theorem FlowInv.conn {s : Server} (hinv : FlowInv s) {k : Nat} {a : Connection.Act}
    {c : Connection} (hown : ownAct a = true) (hidle : startsHandler a = true → s.ioIdle = true)
    (hc : (s.conns k).step a = some c) :
    FlowInv { s.setConn k c with
      inMessage := if callsOnMessage a then some k else s.inMessage } := by
  obtain ⟨hcalls, hreading, hdel⟩ | ⟨hstarts, hcalls, hdel, hreading⟩ |
    ⟨hstarts, hcalls, header, body, hreading, hdel⟩ := connStep_cases hown hc
  · -- the read loop is where it was
    have hsame := readLoop_update hreading hdel
    simp only [hcalls, Bool.false_eq_true, if_false]
    exact hinv.of_eq (fun k' => current_congr (hsame k').1 (hsame k').2)
      (fun k' => (hsame k').2) rfl rfl rfl rfl (fun e he => he) fun id hid => hid
  · -- a handler that does not call `on_message_`
    have hdel' : ∀ k', (Function.update s.conns k c k').delivered = (s.conns k').delivered := by
      intro k'
      by_cases hne : k' = k
      · rw [hne, Function.update_self, hdel]
      · rw [Function.update_of_ne hne]
    have hcur : ∀ (s' : Server) k', s'.conns = Function.update s.conns k c →
        s'.current k' = s.current k' := by
      intro s' k' hconns
      by_cases hne : k' = k
      · rw [hne, hinv.current_of_ioIdle (hidle hstarts) k]
        apply current_eq_none
        rw [hconns, Function.update_self]
        exact hreading
      · apply current_congr <;> rw [hconns, Function.update_of_ne hne]
    simp only [hcalls, Bool.false_eq_true, if_false]
    exact hinv.of_eq (fun k' => hcur _ k' rfl) hdel' rfl rfl rfl rfl (fun e he => he)
      fun id hid => hid
  · -- the handler calls `on_message_` with the message just read
    have hnone := hinv.current_of_ioIdle (hidle hstarts)
    have hdead : s.loopDead = false := by
      have hidle := hidle hstarts
      simp only [ioIdle, Bool.and_eq_true, Bool.not_eq_true'] at hidle
      exact hidle.1
    have hother : ∀ (s' : Server) k', s'.conns = Function.update s.conns k c → k' ≠ k →
        s'.current k' = none := by
      intro s' k' hconns hne
      rw [← hnone k']
      apply current_congr <;> rw [hconns, Function.update_of_ne hne]
    simp only [hcalls, if_true]
    constructor
    · intro k' job hcur
      by_cases hne : k' = k
      · rw [hne]
      · rw [hother _ k' rfl hne] at hcur
        cases hcur
    · exact fun _ => hdead
    · intro k' j hj
      -- the messages delivered before are no longer with a handler
      have hold : j < (s.conns k').delivered.length → (k', j) ∈ s.left ∨ (k', j) ∈ s.threw := by
        intro hlt
        obtain h | h | ⟨job, hcur, _⟩ := hinv.placed k' j hlt
        · exact .inl h
        · exact .inr h
        · rw [hnone k'] at hcur
          cases hcur
      by_cases hne : k' = k
      · subst hne
        simp only [setConn, Function.update_self, hdel, List.length_append,
          List.length_singleton] at hj
        by_cases hlt : j < (s.conns k').delivered.length
        · exact (hold hlt).imp_right .inl
        · refine .inr (.inr ⟨⟨k', j, header, body⟩, ?_, rfl⟩)
          simp only [current, setConn, Function.update_self, hreading, hdel, List.length_append,
            List.length_singleton]
          rw [show (s.conns k').delivered.length + 1 - 1 = j by omega]
      · simp only [setConn, Function.update_of_ne hne] at hj
        exact (hold hj).imp_right .inl
    · exact hinv.entered
    · exact hinv.stopped

/-- A message `on_message` is done with was accepted. -/
theorem handled_accepted {s : Server} (hinvoke : InvokeInv s) (hjobs : JobInv s) {job : Job}
    (h : s.handled job = true) : (job.id, false) ∈ s.entered := by
  unfold handled at h
  split at h
  · rename_i pool hpool
    obtain ⟨task, hmem, htask⟩ := List.any_eq_true.mp h
    have hid := (of_decide_eq_true htask).1
    apply mem_acceptedIds.mp
    rw [← hinvoke.accepted pool hpool, ← hid]
    exact List.mem_map_of_mem hmem
  · obtain ⟨inv, hmem, hinv⟩ := List.any_eq_true.mp h
    have hid := (of_decide_eq_true hinv).1
    rw [← hid]
    exact hjobs.accepted (mem_jobs_of_mem_invocations hmem)

/-- The read handler waits for an invocation on the io thread. -/
theorem current_of_running {s : Server} (hflow : FlowInv s) (hinvoke : InvokeInv s)
    (hjobs : JobInv s) {inv : Invocation} (hmem : inv ∈ s.invocations) (hthread : inv.thread = none)
    (hrun : inv.progress.isOver = false) :
    ∃ job, s.current inv.job.conn = some job ∧ job.id = inv.job.id := by
  have hdel := hjobs.delivered inv.job (mem_jobs_of_mem_invocations hmem)
  have hlt := (List.getElem?_eq_some_iff.mp hdel).1
  -- the message has been delivered, and neither left nor thrown
  obtain ⟨hleft, hthrew⟩ := hinvoke.running inv hmem hthread hrun
  obtain h | h | h := hflow.placed inv.job.conn inv.job.index hlt
  · exact absurd h hleft
  · exact absurd h hthrew
  · exact h

/-- Every step keeps the messages accounted for. -/
theorem Steps.flowInv {s s' : Server} {a : Act} (h : Steps s a s') (hjobs : JobInv s)
    (hinvoke : InvokeInv s) (hinv : FlowInv s) : FlowInv s' := by
  -- a message that enters without being refused
  have haccept : ∀ (job : Job) (id : Nat × Nat), (id, true) ∈ s.entered ++ [(job.id, false)] →
      (id, true) ∈ s.entered := by
    intro job id hmem
    obtain hmem | hmem := List.mem_append.mp hmem
    · exact hmem
    · simp at hmem
  cases h with
  | conn k b c hown hidle hc => exact hinv.conn hown hidle hc
  | submit k job pool pool' hcur hnew hpool henq =>
    exact hinv.of_eq (fun k => rfl) (fun k => rfl) rfl rfl rfl rfl
      (fun e he => List.mem_append_left _ he) (haccept job)
  | inline k job hcur hnew hpool =>
    exact hinv.of_eq (fun k => rfl) (fun k => rfl) rfl rfl rfl rfl
      (fun e he => List.mem_append_left _ he) (haccept job)
  | refuse k job pool c hcur hnew hpool hstop hc =>
    have hk : job.conn = k := congrArg Prod.fst (current_conn hcur)
    rw [← hk] at hcur
    cases Connection.steps_of_step hc with
    | threw header body hreading =>
      refine hinv.of_end hcur rfl rfl nofun rfl (fun id hid => hid)
        (fun id hid => List.mem_append_left _ hid)
        (.inr (List.mem_append_right _ (List.mem_singleton.mpr rfl))) ?_ ?_
      · intro id hid
        show id ∈ (s.entered ++ [(job.id, true)]).map Prod.fst
        rw [List.map_append]
        obtain hid | hid := hid
        · exact List.mem_append_left _ (hinv.entered id (.inl hid))
        · obtain hid | hid := List.mem_append.mp hid
          · exact List.mem_append_left _ (hinv.entered id (.inr hid))
          · exact List.mem_append_right _ hid
      · intro id hid
        obtain hid | hid := List.mem_append.mp hid
        · exact List.mem_append_left _ (hinv.stopped id hid)
        · obtain ⟨rfl, _⟩ := Prod.mk.inj (List.mem_singleton.mp hid)
          exact List.mem_append_right _ (List.mem_singleton.mpr rfl)
    | readEnded a hread => simp at hread
  | leave k job c hcur hhandled hc =>
    -- a handled message was accepted, so that it has been entered
    have haccepted := handled_accepted hinvoke hjobs hhandled
    cases Connection.steps_of_step hc with
    | handled header body hreading =>
      refine hinv.of_end hcur rfl rfl nofun rfl (fun id hid => List.mem_append_left _ hid)
        (fun id hid => hid) (.inl (List.mem_append_right _ (List.mem_singleton.mpr rfl))) ?_
        hinv.stopped
      intro id hid
      obtain hid | hid := hid
      · obtain hid | hid := List.mem_append.mp hid
        · exact hinv.entered id (.inl hid)
        · obtain rfl := List.mem_singleton.mp hid
          exact List.mem_map_of_mem haccepted
      · exact hinv.entered id (.inr hid)
    | readEnded a hread => simp at hread
  | escapeInline n inv fault c hn hp hthread hfault hc =>
    have hmem := List.mem_of_getElem? hn
    -- the read handler that called it is the one the exception reaches
    obtain ⟨job, hcur, hid⟩ := current_of_running hinv hinvoke hjobs hmem hthread (by rw [hp]; rfl)
    cases Connection.steps_of_step hc with
    | threw header body hreading =>
      refine hinv.of_end hcur rfl rfl nofun rfl (fun id hid => hid)
        (fun id hid => List.mem_append_left _ hid)
        (.inr (List.mem_append_right _ (List.mem_singleton.mpr hid))) ?_
        fun id hid => List.mem_append_left _ (hinv.stopped id hid)
      intro id hid'
      obtain hid' | hid' := hid'
      · exact hinv.entered id (.inl hid')
      · obtain hid' | hid' := List.mem_append.mp hid'
        · exact hinv.entered id (.inr hid')
        · obtain rfl := List.mem_singleton.mp hid'
          exact List.mem_map_of_mem (hjobs.accepted (mem_jobs_of_mem_invocations hmem))
    | readEnded a hread => simp at hread
  | send n inv services resp c hn hp hc =>
    obtain ⟨hreading, hdel⟩ := readLoop_send hc
    have hsame := readLoop_update hreading hdel
    exact hinv.of_eq (fun k => current_congr (hsame k).1 (hsame k).2) (fun k => (hsame k).2)
      rfl rfl rfl rfl (fun e he => he) fun id hid => hid
  | pool | activate | finish | respond | escapeTask | done | services =>
    exact hinv.of_eq (fun k => rfl) (fun k => rfl) rfl rfl rfl rfl (fun e he => he)
      fun id hid => hid

/-! ## The invocations -/

/-- A step that leaves the invocations alone. -/
theorem InvokeInv.of_eq {s s' : Server} (hinv : InvokeInv s)
    (hinvs : s'.invocations = s.invocations) (hpool : s'.pool = s.pool)
    (hentered : s'.entered = s.entered) (hleft : s'.left = s.left)
    (hthrew : s'.threw = s.threw) : InvokeInv s' := by
  constructor
  · rw [hinvs, hpool]
    exact hinv.thread
  · rw [hpool, acceptedIds, hentered]
    exact hinv.accepted
  · rw [hinvs, hleft, hthrew]
    exact hinv.running
  · rw [hinvs, hthrew]
    exact hinv.escaped

/-- A step of the pool; `jobs` are those submitted. -/
theorem InvokeInv.of_pool {s s' : Server} (hinv : InvokeInv s) {pool pool' : ThreadPool Job}
    (jobs : List Job) (hpool : s.pool = some pool) (hpool' : s'.pool = some pool')
    (hacc : pool'.accepted.map (fun t => t.job.id) =
      pool.accepted.map (fun t => t.job.id) ++ jobs.map Job.id)
    (haccepted : s'.acceptedIds = s.acceptedIds ++ jobs.map Job.id)
    (hinvs : ∀ inv ∈ s'.invocations, inv ∈ s.invocations ∨ inv.thread ≠ none) :
    InvokeInv s' := by
  -- with a pool, no invocation is on the io thread
  have hthread : ∀ inv ∈ s'.invocations, inv.thread ≠ none := by
    intro inv hmem hnone
    obtain hmem | hne := hinvs inv hmem
    · have hpoolNone := (hinv.thread inv hmem).mp hnone
      rw [hpool] at hpoolNone
      cases hpoolNone
    · exact hne hnone
  constructor
  · intro inv hmem
    rw [hpool']
    exact ⟨fun h => absurd h (hthread inv hmem), nofun⟩
  · intro p hp
    obtain rfl : pool' = p := Option.some.inj (hpool'.symm.trans hp)
    rw [hacc, haccepted, hinv.accepted pool hpool]
  · exact fun inv hmem h => absurd h (hthread inv hmem)
  · exact fun inv hmem h => absurd h (hthread inv hmem)

/-- A step that moves an invocation on without an exception on the io thread. -/
theorem InvokeInv.of_progress {s s' : Server} (hinv : InvokeInv s) {n : Nat} {inv : Invocation}
    {progress : Progress} (hn : s.invocations[n]? = some inv)
    (hold : inv.progress.isOver = false) (hinvs : s'.invocations = s.setProgress n inv progress)
    (hpool : s'.pool = s.pool) (hentered : s'.entered = s.entered) (hleft : s'.left = s.left)
    (hthrew : s'.threw = s.threw)
    (hesc : inv.thread = none → ¬Invocation.Escaped { inv with progress }) : InvokeInv s' := by
  have hmem := List.mem_of_getElem? hn
  constructor
  · rw [hinvs, hpool]
    intro inv' hmem'
    obtain hmem' | rfl := List.mem_or_eq_of_mem_set hmem'
    · exact hinv.thread inv' hmem'
    · exact hinv.thread inv hmem
  · rw [hpool, acceptedIds, hentered]
    exact hinv.accepted
  · rw [hinvs, hleft, hthrew]
    intro inv' hmem' hthread hrun
    obtain hmem' | rfl := List.mem_or_eq_of_mem_set hmem'
    · exact hinv.running inv' hmem' hthread hrun
    · exact hinv.running inv hmem hthread hold
  · rw [hinvs, hthrew]
    intro inv' hmem' hthread hescaped
    obtain hmem' | rfl := List.mem_or_eq_of_mem_set hmem'
    · exact hinv.escaped inv' hmem' hthread hescaped
    · exact absurd hescaped (hesc hthread)

/-- `on_message` runs on the io thread for a message not seen before. -/
theorem InvokeInv.inline {s : Server} (hinv : InvokeInv s) (hflow : FlowInv s) {job : Job}
    (hnew : job.id ∉ s.entered.map Prod.fst) (hpool : s.pool = none) :
    InvokeInv { s with
      invocations := s.invocations ++ [{ thread := none, job, progress := .processing }]
      entered := s.entered ++ [(job.id, false)] } := by
  constructor
  · intro inv hmem
    obtain hmem | hmem := List.mem_append.mp hmem
    · exact hinv.thread inv hmem
    · obtain rfl := List.mem_singleton.mp hmem
      exact ⟨fun _ => hpool, fun _ => rfl⟩
  · intro p hp
    cases hpool.symm.trans hp
  · intro inv hmem hthread hrun
    obtain hmem | hmem := List.mem_append.mp hmem
    · exact hinv.running inv hmem hthread hrun
    · obtain rfl := List.mem_singleton.mp hmem
      -- a message that has left or thrown was entered before
      exact ⟨fun h => hnew (hflow.entered job.id (.inl h)),
        fun h => hnew (hflow.entered job.id (.inr h))⟩
  · intro inv hmem hthread hesc
    obtain hmem | hmem := List.mem_append.mp hmem
    · exact hinv.escaped inv hmem hthread hesc
    · obtain rfl := List.mem_singleton.mp hmem
      obtain ⟨services, h⟩ := hesc
      cases h

/-- A message leaves its read handler. -/
theorem InvokeInv.leave {s s' : Server} (hinv : InvokeInv s) (hjobs : JobInv s) {job : Job}
    (hhandled : s.handled job = true) (hinvs : s'.invocations = s.invocations)
    (hpool : s'.pool = s.pool) (hentered : s'.entered = s.entered)
    (hleft : s'.left = s.left ++ [job.id]) (hthrew : s'.threw = s.threw) : InvokeInv s' := by
  constructor
  · rw [hinvs, hpool]
    exact hinv.thread
  · rw [hpool, acceptedIds, hentered]
    exact hinv.accepted
  · rw [hinvs, hleft, hthrew]
    intro inv hmem hthread hrun
    obtain ⟨hl, ht⟩ := hinv.running inv hmem hthread hrun
    refine ⟨?_, ht⟩
    intro hid
    obtain hid | hid := List.mem_append.mp hid
    · exact hl hid
    · -- without a pool, the read handler has waited for this invocation
      have hid := List.mem_singleton.mp hid
      simp only [handled, (hinv.thread inv hmem).mp hthread] at hhandled
      obtain ⟨inv', hmem', hret⟩ := List.any_eq_true.mp hhandled
      obtain ⟨hid', hret⟩ := of_decide_eq_true hret
      obtain rfl := hjobs.unique hmem' hmem (hid'.trans hid.symm)
      -- it has returned, so that it is not running
      cases hprog : inv'.progress <;>
        simp [hprog, Progress.isReturned, Progress.isOver] at hret hrun
  · rw [hinvs, hthrew]
    exact hinv.escaped

/-- An exception leaves an invocation on the io thread. -/
theorem InvokeInv.escapeInline {s s' : Server} (hinv : InvokeInv s) (hjobs' : JobInv s') {n : Nat}
    {inv : Invocation} {services : ServiceManager} (hn : s.invocations[n]? = some inv)
    (hinvs : s'.invocations = s.setProgress n inv (.escaped services))
    (hpool : s'.pool = s.pool) (hentered : s'.entered = s.entered) (hleft : s'.left = s.left)
    (hthrew : s'.threw = s.threw ++ [inv.job.id]) : InvokeInv s' := by
  have hmem := List.mem_of_getElem? hn
  have hnew : { inv with progress := .escaped services } ∈ s'.invocations := by
    rw [hinvs]
    exact List.mem_set (List.getElem?_eq_some_iff.mp hn).1 _
  -- an invocation is this one or was there before
  have hcases : ∀ inv' ∈ s'.invocations, inv' ∈ s.invocations ∨
      inv' = { inv with progress := .escaped services } := by
    rw [hinvs]
    exact fun inv' hmem' => List.mem_or_eq_of_mem_set hmem'
  constructor
  · rw [hpool]
    intro inv' hmem'
    obtain hmem' | rfl := hcases inv' hmem'
    · exact hinv.thread inv' hmem'
    · exact hinv.thread inv hmem
  · rw [hpool, acceptedIds, hentered]
    exact hinv.accepted
  · rw [hleft, hthrew]
    intro inv' hmem' hthread hrun
    -- no second invocation of the message is running
    have hne : inv'.job.id ≠ inv.job.id := by
      intro hid
      obtain rfl := hjobs'.unique hmem' hnew hid
      cases hrun
    obtain hold | rfl := hcases inv' hmem'
    · obtain ⟨hl, ht⟩ := hinv.running inv' hold hthread hrun
      refine ⟨hl, ?_⟩
      intro hid
      obtain hid | hid := List.mem_append.mp hid
      · exact ht hid
      · exact hne (List.mem_singleton.mp hid)
    · exact absurd rfl hne
  · rw [hthrew]
    intro inv' hmem' hthread hesc
    obtain hmem' | rfl := hcases inv' hmem'
    · exact List.mem_append_left _ (hinv.escaped inv' hmem' hthread hesc)
    · exact List.mem_append_right _ (List.mem_singleton.mpr rfl)

/-- `enqueue()` accepts the job. -/
theorem accepted_enqueue {pool pool' : ThreadPool Job} {job : Job}
    (h : pool.enqueue job = .ok pool') :
    pool'.accepted.map (fun t => t.job.id) =
      pool.accepted.map (fun t => t.job.id) ++ [job].map Job.id := by
  simp only [ThreadPool.enqueue] at h
  split at h
  · cases h
  · obtain rfl := Except.ok.inj h
    exact List.map_append

/-- Every step keeps the invocations where the mode puts them. -/
theorem Steps.invokeInv {s s' : Server} {a : Act} (h : Steps s a s') (hjobs : JobInv s)
    (hjobs' : JobInv s') (hflow : FlowInv s) (hinv : InvokeInv s) : InvokeInv s' := by
  -- a step of the pool that submits nothing
  have hpoolStep : ∀ (b : ThreadPool.Act Job) (pool pool' : ThreadPool Job),
      s.pool = some pool → s'.pool = some pool' → pool.step b = some pool' →
      (∀ job, b ≠ .enqueue job) → s'.entered = s.entered →
      (∀ inv ∈ s'.invocations, inv ∈ s.invocations ∨ inv.thread ≠ none) → InvokeInv s' := by
    intro b pool pool' hpool hpool' hstep henq hentered hinvs
    refine hinv.of_pool [] hpool hpool' ?_ ?_ hinvs
    · rw [(ThreadPool.steps_of_step hstep).accepted henq]
      exact (List.append_nil _).symm
    · rw [acceptedIds, acceptedIds, hentered]
      exact (List.append_nil _).symm
  cases h with
  | conn k b c hown hidle hc => exact hinv.of_eq rfl rfl rfl rfl rfl
  | submit k job pool pool' hcur hnew hpool henq =>
    exact hinv.of_pool [job] hpool rfl (accepted_enqueue henq) (acceptedIds_append_false rfl)
      fun inv hmem => .inl hmem
  | refuse k job pool c hcur hnew hpool hstop hc =>
    exact hinv.of_pool [] hpool hpool (List.append_nil _).symm
      ((acceptedIds_append_true rfl).trans (List.append_nil _).symm) fun inv hmem => .inl hmem
  | inline k job hcur hnew hpool => exact hinv.inline hflow hnew hpool
  | leave k job c hcur hhandled hc => exact hinv.leave hjobs hhandled rfl rfl rfl rfl rfl
  | pool b pool pool' hown hpool hstep =>
    exact hpoolStep b pool pool' hpool rfl hstep (by rintro job rfl; cases hown) rfl
      fun inv hmem => .inl hmem
  | activate i pool pool' task hpool hw hstep =>
    refine hpoolStep _ pool pool' hpool rfl hstep (fun _ h => by cases h) rfl ?_
    intro inv hmem
    obtain hmem | hmem := List.mem_append.mp hmem
    · exact .inl hmem
    · obtain rfl := List.mem_singleton.mp hmem
      exact .inr fun h => by cases h
  | finish i pool pool' hpool hstep =>
    exact hpoolStep _ pool pool' hpool rfl hstep (fun _ h => by cases h) rfl
      fun inv hmem => .inl hmem
  | respond n inv resp hn hp hresp =>
    exact hinv.of_progress hn (by rw [hp]; rfl) rfl rfl rfl rfl rfl (by simp [Invocation.Escaped])
  | escapeTask n inv fault hn hp hthread hfault =>
    exact hinv.of_progress hn (by rw [hp]; rfl) rfl rfl rfl rfl rfl fun h => absurd h hthread
  | escapeInline n inv fault c hn hp hthread hfault hc =>
    exact hinv.escapeInline hjobs' hn rfl rfl rfl rfl rfl
  | send n inv services resp c hn hp hc =>
    exact hinv.of_progress hn (by rw [hp]; rfl) rfl rfl rfl rfl rfl (by simp [Invocation.Escaped])
  | done n inv services resp hn hp hout =>
    exact hinv.of_progress hn (by rw [hp]; rfl) rfl rfl rfl rfl rfl (by simp [Invocation.Escaped])
  | services a services ha => exact hinv.of_eq rfl rfl rfl rfl rfl

/-- In every state all messages and invocations are accounted for. -/
theorem flowInv_of_reachable {services : ServiceManager} {threads : Option (UInt64 × UInt32)}
    {s : Server} (h : Reachable step (init services threads) s) : FlowInv s ∧ InvokeInv s := by
  apply h.invariant_with (I := fun s => (∀ k, Connection.HandlingInv (s.conns k)) ∧ JobInv s)
  · intro s hs
    exact ⟨fun k => Connection.handlingInv_of_reachable (conn_reachable hs k),
      jobInv_of_reachable hs⟩
  · constructor
    · exact ⟨nofun, nofun, nofun, nofun, nofun⟩
    -- a new pool has accepted nothing
    · refine ⟨nofun, ?_, nofun, nofun⟩
      intro pool hpool
      obtain ⟨p, _, rfl⟩ := Option.map_eq_some_iff.mp hpool
      rfl
  · rintro s a s' ⟨hconns, hjobs⟩ ⟨hflow, hinvoke⟩ _ hs
    have h := steps_of_step hs
    exact ⟨h.flowInv hjobs hinvoke hflow,
      h.invokeInv hjobs (h.jobInv hconns hjobs) hflow hinvoke⟩

end Rpc.Server
