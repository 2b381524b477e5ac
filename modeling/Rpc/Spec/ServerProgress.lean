import Mathlib.Algebra.BigOperators.Group.Finset.Basic
import Rpc.Spec.ServerFlow

/-!
# The server does not get stuck

Between a message and its response the server needs nothing from outside: its
threads have steps of their own to take (`driven`) until every message is done
with.  A server without such a step is `Settled`, and `Settled.over` says that it
has handled every message; `driven_run_bounded` says that it gets there, since
the driven steps use up a load that only the network can raise.
-/

namespace Rpc.Server

open Transition

/-! ## Settled servers -/

/-- The steps of a pool that its workers and the calls of `enqueue()` take by
    themselves, and the one a `drain()` takes to release `mux_`. -/
def drivenPool : ThreadPool.Act Job → Bool
  | .notifyOne .. | .check _ | .deactivate _ | .count _ | .settle _ | .notifyDrain ..
  | .drainBlock _ => true
  | _ => false

/-- The steps that the server's threads take by themselves: neither the network
    nor another thread of the program has to do anything for them. -/
def driven : Act → Bool
  | .conn _ a =>
    match a with
    | .push .. | .pop _ | .startWrite .. => true
    | _ => false
  | .pool a => drivenPool a
  | .enter _ | .leave _ | .activate _ | .finish _ | .process _ | .send _ | .done _ => true
  | .register _ | .unregister _ => false

/-- No thread of the server has a step of its own to take. -/
def Settled (s : Server) : Prop := ∀ a, driven a = true → s.step a = none

/-- The steps of a thread inside of `send` are open to the server. -/
theorem Settled.conn {s : Server} (h : Settled s) (k : Nat) (a : Connection.Act)
    (hdriven : driven (.conn k a) = true) : (s.conns k).step a = none := by
  have hstep := h (.conn k a) hdriven
  have hguard : ownAct a = true ∧ (startsHandler a = true → s.ioIdle = true) := by
    cases a <;> simp [driven, ownAct, startsHandler] at hdriven ⊢
  simp only [step] at hstep
  rw [if_pos hguard] at hstep
  exact Option.map_eq_none_iff.mp hstep

/-- No thread is inside of `send`. -/
theorem Settled.outsideSend {s : Server} (h : Settled s) (k : Nat) (t : ThreadId) :
    outsideSend (s.conns k) t = true := by
  simp only [Server.outsideSend, Bool.and_eq_true, List.all_eq_true, decide_eq_true_eq]
  constructor
  -- a frame that is built could be pushed
  · rintro ⟨t', data⟩ hmem rfl
    have hpush := h.conn k (.push t' data) rfl
    simp only [Connection.step, hmem, if_true] at hpush
    cases hpush
  -- the writer could pop the next frame, or start its write
  · rintro ⟨t', stage⟩ hmem rfl
    cases stage with
    | committed =>
      have hpop := h.conn k (.pop t') rfl
      simp only [Connection.step, WriteChain.pop, hmem, if_true] at hpop
      split at hpop <;> cases hpop
    | popped data =>
      have hstart := h.conn k (.startWrite t' data) rfl
      simp only [Connection.step, WriteChain.start, hmem, if_true] at hstart
      cases hstart

/-- Every invocation is over. -/
theorem Settled.invocations {s : Server} (h : Settled s) (hflow : FlowInv s)
    (hinvoke : InvokeInv s) (hjobs : JobInv s) {inv : Invocation} (hmem : inv ∈ s.invocations) :
    inv.progress.isOver = true := by
  obtain ⟨n, hn⟩ := List.getElem?_of_mem hmem
  cases hp : inv.progress with
  | returned services resp => rfl
  | escaped services => rfl
  | processing =>
    have hstep := h (.process n) rfl
    simp only [step, hn, hp] at hstep
    split at hstep
    · cases hstep
    · split at hstep
      · cases hstep
      · rename_i hthread
        -- its read handler is there to throw into
        obtain ⟨job, hcur, _⟩ :=
          current_of_running hflow hinvoke hjobs hmem hthread (by rw [hp]; rfl)
        simp only [current] at hcur
        split at hcur
        · rename_i header body hreading
          simp [Connection.step, hreading] at hstep
        · cases hcur
  | responding services resp =>
    -- `send` can be called at any time
    have hstep := h (.send n) rfl
    simp only [step, hn, hp, Connection.step] at hstep
    split at hstep <;> cases hstep
  | sending services resp =>
    have hstep := h (.done n) rfl
    simp [step, hn, hp, h.outsideSend] at hstep

/-- The pool has no step of its own to take. -/
theorem Settled.rests {s : Server} (h : Settled s) {pool : ThreadPool Job}
    (hpool : s.pool = some pool) (hover : ∀ inv ∈ s.invocations, inv.progress.isOver = true) :
    pool.Rests := by
  have hstep : ∀ b, drivenPool b = true → pool.step b = none := by
    intro b hb
    have hs := h (.pool b) hb
    have hown : poolAct b = true := by
      cases b <;> first | rfl | cases hb
    simp only [step, hpool, hown, if_true] at hs
    exact Option.map_eq_none_iff.mp hs
  intro b hown
  -- a task that was popped could be started, and one that is over could be counted
  cases b with
  | activate i =>
    cases hstep : pool.step (.activate i) with
    | none => rfl
    | some pool' =>
      cases ThreadPool.steps_of_step hstep with
      | activate i task hi =>
        have hs := h (.activate i) rfl
        simp [step, hpool, hi, ThreadPool.step] at hs
  | finish i =>
    have hs := h (.finish i) rfl
    have hall : s.invocations.all
        (fun inv => inv.thread ≠ some i || inv.progress.isOver) = true := by
      rw [List.all_eq_true]
      intro inv hinv
      rw [hover inv hinv, Bool.or_true]
    simp only [step, hpool, hall, if_true] at hs
    exact Option.map_eq_none_iff.mp hs
  | notifyOne | check | deactivate | count | settle | notifyDrain | drainBlock =>
    exact hstep _ rfl
  | enqueue | drain | drainCheck | setStop | notifyAll | join | wakeWorker | wakeDrainer =>
    cases hown

/-- No `enqueue()` is under way, and no worker is awake. -/
theorem Settled.pool {s : Server} (h : Settled s) {pool : ThreadPool Job}
    (hpool : s.pool = some pool) (hover : ∀ inv ∈ s.invocations, inv.progress.isOver = true) :
    pool.enqueuing = [] ∧ ∀ w ∈ pool.workers, w.isAwake = false :=
  ⟨(h.rests hpool hover).enqueuing, (h.rests hpool hover).asleep⟩

/-- The read handler is ready for `on_message_` to return or to throw. -/
theorem step_of_current {s : Server} {k : Nat} {job : Job} (h : s.current k = some job) :
    (∃ c, (s.conns k).step .messageHandled = some c) ∧
      ∃ c, (s.conns k).step .messageThrew = some c := by
  unfold current at h
  split at h
  · rename_i header body hreading
    exact ⟨⟨_, by rw [Connection.step, hreading]⟩, ⟨_, by rw [Connection.step, hreading]⟩⟩
  · cases h

/-- A message that is with its read handler can be entered. -/
theorem enter_enabled {s : Server} (hflow : FlowInv s) {k : Nat} {job : Job}
    (hcur : s.current k = some job) (hnew : job.id ∉ s.entered.map Prod.fst)
    (hfree : ∀ pool, s.pool = some pool → pool.locked = false) : s.step (.enter k) ≠ none := by
  -- nothing has left `ios.run()` while a message is with its handler
  have halive : s.loopDead = false :=
    hflow.alive (by rw [hflow.inMessage k job hcur]; exact Option.some_ne_none k)
  have hconn : job.conn = k := congrArg Prod.fst (current_conn hcur)
  obtain ⟨-, c, hc⟩ := step_of_current hcur
  simp only [step, hcur]
  rw [if_pos ⟨halive, hnew⟩]
  unfold onMessage
  split
  · rename_i pool hpool
    rw [if_neg (by simp [hfree pool hpool])]
    split
    · exact Option.some_ne_none _
    · rw [hconn, hc]
      exact Option.some_ne_none _
  · exact Option.some_ne_none _

/-- A message that is handled can leave. -/
theorem leave_enabled {s : Server} (hflow : FlowInv s) {k : Nat} {job : Job}
    (hcur : s.current k = some job) (hhandled : s.handled job = true) :
    s.step (.leave k) ≠ none := by
  have halive : s.loopDead = false :=
    hflow.alive (by rw [hflow.inMessage k job hcur]; exact Option.some_ne_none k)
  obtain ⟨⟨c, hc⟩, -⟩ := step_of_current hcur
  simp only [step, hcur]
  rw [if_pos ⟨halive, hhandled⟩, hc]
  exact Option.some_ne_none _

section

variable {services : ServiceManager} {threads : Option (UInt64 × UInt32)} {s : Server}

/-- Every job has been invoked, and is over. -/
theorem Settled.jobs (h : Settled s) (hs : Reachable step (init services threads) s)
    {id : Nat × Nat} (hid : (id, false) ∈ s.entered) :
    ∃ inv ∈ s.invocations, inv.job.id = id ∧ inv.progress.isOver = true := by
  obtain ⟨hflow, hinvoke⟩ := flowInv_of_reachable hs
  have hjobs := jobInv_of_reachable hs
  have hover : ∀ inv ∈ s.invocations, inv.progress.isOver = true :=
    fun inv hmem => h.invocations hflow hinvoke hjobs hmem
  -- a pool at rest has started all its tasks
  have hwaiting : s.waiting = [] := by
    unfold waiting
    split
    · rename_i pool hpool
      obtain ⟨n, hw, hpoolReach⟩ := pool_reachable hs pool hpool
      obtain ⟨henq, hworkers⟩ := h.pool hpool hover
      rw [ThreadPool.unstarted_eq_nil (ThreadPool.wakeInv_of_reachable hpoolReach) hworkers henq]
      rfl
    · rfl
  -- every accepted message is a job, and no job waits in the pool
  obtain ⟨job, hjob, rfl⟩ := List.mem_map.mp (hjobs.jobs.mem_iff.mpr (mem_acceptedIds.mpr hid))
  rw [Server.jobs, hwaiting, List.nil_append] at hjob
  obtain ⟨inv, hmem, rfl⟩ := List.mem_map.mp hjob
  exact ⟨inv, hmem, rfl, hover inv hmem⟩

/-- `on_message_` is done with every message that was accepted. -/
theorem Settled.handled (h : Settled s) (hs : Reachable step (init services threads) s)
    {job : Job} (hid : (job.id, false) ∈ s.entered) :
    s.handled job = true ∨ job.id ∈ s.threw := by
  obtain ⟨hflow, hinvoke⟩ := flowInv_of_reachable hs
  have hjobs := jobInv_of_reachable hs
  have hover : ∀ inv ∈ s.invocations, inv.progress.isOver = true :=
    fun inv hmem => h.invocations hflow hinvoke hjobs hmem
  cases hpool : s.pool with
  | some pool =>
    -- its `enqueue()` has returned
    left
    obtain ⟨n, hw, hpoolReach⟩ := pool_reachable hs pool hpool
    obtain ⟨henq, -⟩ := h.pool hpool hover
    have hacc := mem_acceptedIds.mpr hid
    rw [← hinvoke.accepted pool hpool] at hacc
    obtain ⟨task, hmem, htask⟩ := List.mem_map.mp hacc
    have hreturned : task.id ∈ pool.returned := by
      obtain h | h := ThreadPool.callsInv_of_reachable hpoolReach task hmem
      · rw [henq] at h
        cases h
      · exact h
    simp only [Server.handled, hpool]
    exact List.any_eq_true.mpr ⟨task, hmem, decide_eq_true ⟨htask, hreturned⟩⟩
  | none =>
    -- its invocation has returned, or an exception has left it
    obtain ⟨inv, hmem, hinvId, hinvOver⟩ := h.jobs hs hid
    have hthread := (hinvoke.thread inv hmem).mpr hpool
    cases hp : inv.progress with
    | returned services resp =>
      left
      simp only [Server.handled, hpool]
      exact List.any_eq_true.mpr
        ⟨inv, hmem, decide_eq_true ⟨hinvId, by rw [hp]; rfl⟩⟩
    | escaped services =>
      right
      rw [← hinvId]
      exact hinvoke.escaped inv hmem hthread ⟨services, hp⟩
    -- not over, so that one of its own steps would be enabled
    | processing | responding services resp | sending services resp =>
      rw [hp] at hinvOver
      cases hinvOver

/-- Every message delivered has left its read handler or has thrown into it. -/
theorem Settled.over (h : Settled s) (hs : Reachable step (init services threads) s) {k j : Nat}
    (hj : j < (s.conns k).delivered.length) : (k, j) ∈ s.left ∨ (k, j) ∈ s.threw := by
  obtain ⟨hflow, hinvoke⟩ := flowInv_of_reachable hs
  obtain hleft | hthrew | ⟨job, hcur, hid⟩ := hflow.placed k j hj
  · exact .inl hleft
  · exact .inr hthrew
  · by_cases hnew : job.id ∈ s.entered.map Prod.fst
    · obtain ⟨⟨id, stopped⟩, hmem, hfst⟩ := List.mem_map.mp hnew
      obtain rfl : id = job.id := hfst
      cases stopped with
      | true => exact .inr (hid ▸ hflow.stopped _ hmem)
      | false =>
        obtain hhandled | hthrew := h.handled hs hmem
        · exact absurd (h (.leave k) rfl) (leave_enabled hflow hcur hhandled)
        · exact .inr (hid ▸ hthrew)
    · -- nobody holds `mux_` against its `enqueue()`
      have hover : ∀ inv ∈ s.invocations, inv.progress.isOver = true :=
        fun inv hmem => h.invocations hflow hinvoke (jobInv_of_reachable hs) hmem
      have hfree : ∀ pool, s.pool = some pool → pool.locked = false :=
        fun pool hpool => (h.rests hpool hover).unlocked
      exact absurd (h (.enter k) rfl) (enter_enabled hflow hcur hnew hfree)

/-- The connection whose read handler is inside of `on_message_` has the message. -/
theorem exists_current (h : Reachable step (init services threads) s) :
    ∀ k, s.inMessage = some k → ∃ job, s.current k = some job := by
  apply h.invariant
  · simp [init]
  · intro s a s' hinv _ hs k hk
    cases steps_of_step hs with
    | conn j b c hown hidle hc =>
      have hk : (if callsOnMessage b then some j else s.inMessage) = some k := hk
      obtain ⟨hno, hreading, hdel⟩ | ⟨hstarts, hno, -⟩ |
        ⟨-, hcalls, header, body, hreading, -⟩ := connStep_cases hown hc
      · -- the read loops are where they were
        rw [hno, if_neg Bool.false_ne_true] at hk
        have hsame := @readLoop_update s.conns j c hreading hdel k
        obtain ⟨job, hcur⟩ := hinv k hk
        exact ⟨job, (current_congr hsame.1 hsame.2).trans hcur⟩
      · -- a handler starts only when no other is in `on_message_`
        rw [hno, if_neg Bool.false_ne_true] at hk
        have hnone := hidle hstarts
        simp [ioIdle, hk] at hnone
      · rw [hcalls, if_pos rfl] at hk
        -- the handler that calls `on_message_` has its message with it
        obtain rfl := Option.some.inj hk
        simp [Server.current, setConn, hreading]
    | refuse | leave | escapeInline => cases hk
    | send n inv services resp c hn hp hc =>
      obtain ⟨hreading, hdel⟩ := readLoop_send hc
      have hsame := @readLoop_update s.conns inv.job.conn c hreading hdel k
      obtain ⟨job, hcur⟩ := hinv k hk
      exact ⟨job, (current_congr hsame.1 hsame.2).trans hcur⟩
    | _ => exact hinv k hk

/-- In a settled server no message waits inside of `on_message_`, unless an exception has
    been thrown into its read handler. -/
theorem Settled.inMessage (h : Settled s) (hs : Reachable step (init services threads) s)
    (hadmitted : ∀ id, (id, true) ∉ s.entered) (hthrew : s.threw = []) : s.inMessage = none := by
  obtain ⟨hflow, hinvoke⟩ := flowInv_of_reachable hs
  by_contra hsome
  obtain ⟨k, hin⟩ := Option.ne_none_iff_exists'.mp hsome
  obtain ⟨job, hcur⟩ := exists_current hs k hin
  by_cases hentered : job.id ∈ s.entered.map Prod.fst
  · -- it would leave
    obtain ⟨⟨id, stopped⟩, hmem, hfst⟩ := List.mem_map.mp hentered
    obtain rfl : id = job.id := hfst
    cases stopped with
    | true => exact hadmitted _ hmem
    | false =>
      obtain hhandled | hthrown := h.handled hs hmem
      · exact leave_enabled hflow hcur hhandled (h (.leave k) rfl)
      · rw [hthrew] at hthrown
        cases hthrown
  · -- it would enter
    have hover : ∀ inv ∈ s.invocations, inv.progress.isOver = true :=
      fun inv hmem => h.invocations hflow hinvoke (jobInv_of_reachable hs) hmem
    exact enter_enabled hflow hcur hentered
      (fun pool hpool => (h.rests hpool hover).unlocked) (h (.enter k) rfl)

end

/-! ## The connections in use -/

/-- No connection from `N` on has been used. -/
def Untouched (N : Nat) (s : Server) : Prop := ∀ k, N ≤ k → s.conns k = .init

/-- The jobs are messages of connections in use. -/
theorem Untouched.lt_of_job {s : Server} {N : Nat} (h : Untouched N s) (hjobs : JobInv s)
    {job : Job} (hjob : job ∈ s.jobs) : job.conn < N := by
  by_contra hge
  -- a connection that was never used has delivered nothing
  have hdel := hjobs.delivered job hjob
  rw [h job.conn (by omega)] at hdel
  cases hdel

/-- A handler inside of `on_message_` is that of a connection in use. -/
theorem Untouched.lt_of_current {s : Server} {N : Nat} (h : Untouched N s) {k : Nat} {job : Job}
    (hcur : s.current k = some job) : k < N := by
  by_contra hge
  rw [current, h k (by omega)] at hcur
  cases hcur

/-- A connection in which a thread is inside of `send` is in use. -/
theorem Untouched.lt_of_driven {s : Server} {N : Nat} (h : Untouched N s) {k : Nat}
    {a : Connection.Act} {c : Connection} (hdriven : driven (.conn k a) = true)
    (hc : (s.conns k).step a = some c) : k < N := by
  by_contra hge
  rw [h k (by omega)] at hc
  cases a with
  | push t data => cases hc
  | pop t => cases hc
  | startWrite t data => cases hc
  | _ => cases hdriven

/-- A connection in use changes. -/
theorem Untouched.update {s s' : Server} {N : Nat} (h : Untouched N s) {k : Nat} {c : Connection}
    (hk : k < N) (hconns : s'.conns = Function.update s.conns k c) : Untouched N s' := by
  intro k' hk'
  rw [hconns, Function.update_of_ne (by omega)]
  exact h k' hk'

/-- The server uses a new connection only when the network does. -/
theorem Steps.untouched {s s' : Server} {a : Act} {N : Nat} (h : Steps s a s')
    (hjobs : JobInv s) (hN : Untouched N s)
    (hconn : ∀ k b, a = .conn k b → driven a = true ∨ k < N) : Untouched N s' := by
  cases h with
  | conn k b c hown hidle hc =>
    have hk : k < N := by
      obtain hdriven | hlt := hconn k b rfl
      · exact hN.lt_of_driven hdriven hc
      · exact hlt
    exact hN.update hk rfl
  | refuse k job pool c hcur hnew hpool hstop hc =>
    have hk : job.conn = k := congrArg Prod.fst (current_conn hcur)
    exact hN.update (hk ▸ hN.lt_of_current hcur) rfl
  | leave k job c hcur hhandled hc => exact hN.update (hN.lt_of_current hcur) rfl
  | escapeInline n inv fault c hn hp hthread hfault hc =>
    have hmem := mem_jobs_of_mem_invocations (List.mem_of_getElem? hn)
    exact hN.update (hN.lt_of_job hjobs hmem) rfl
  | send n inv services resp c hn hp hc =>
    have hmem := mem_jobs_of_mem_invocations (List.mem_of_getElem? hn)
    exact hN.update (hN.lt_of_job hjobs hmem) rfl
  | _ => exact hN

/-- Room for the connection of a step. -/
def Act.room (N : Nat) : Act → Nat
  | .conn k _ => max N (k + 1)
  | _ => N

/-- The room of a step is no smaller than what there was. -/
theorem Act.le_room (N : Nat) (a : Act) : N ≤ a.room N := by
  cases a with
  | conn k b => exact Nat.le_max_left _ _
  | _ => exact Nat.le_refl _

/-- A server has used finitely many connections. -/
theorem exists_untouched {services : ServiceManager} {threads : Option (UInt64 × UInt32)}
    {s : Server} (h : Reachable step (init services threads) s) : ∃ N, Untouched N s := by
  apply h.invariant_with (I := JobInv) (fun _ => jobInv_of_reachable)
  · exact ⟨0, fun _ _ => rfl⟩
  · rintro s a s' hjobs ⟨N, hN⟩ _ hs
    have hroom : Untouched (a.room N) s := fun k hk => hN k (Nat.le_trans (a.le_room N) hk)
    refine ⟨a.room N, (steps_of_step hs).untouched hjobs hroom ?_⟩
    rintro k b rfl
    right
    show k < max N (k + 1)
    omega

/-- The step is not one of the network on a connection from `N` on. -/
def Act.below (N : Nat) : Act → Bool
  | .conn k _ => k < N
  | _ => true

/-- A run whose steps are below `N` uses no connection from `N` on. -/
theorem untouched_of_run {services : ServiceManager} {threads : Option (UInt64 × UInt32)}
    {s : Server} {N : Nat} (acts : List Act) (hacts : acts.all (Act.below N) = true)
    (h : run step (init services threads) acts = some s) : Untouched N s := by
  apply (reaches_mem_of_run acts h).invariant_with (I := JobInv)
  · exact fun s hs => jobInv_of_reachable hs.reachable
  · exact fun _ _ => rfl
  · intro s a s' hjobs hN hmem hs
    refine (steps_of_step hs).untouched hjobs hN ?_
    rintro k b rfl
    exact .inr (of_decide_eq_true (List.all_eq_true.mp hacts _ hmem))

/-- Nobody is inside of `send` or of `on_message_` on the connections in use, of an
    invocation, or of the pool. -/
def Quiet (N : Nat) (s : Server) : Prop :=
  (∀ k < N, (s.conns k).sending = [] ∧ (s.conns k).writes.threads = [] ∧ s.current k = none) ∧
    (∀ inv ∈ s.invocations, inv.progress.isOver = true) ∧
    ∀ pool ∈ s.pool, pool.enqueuing = [] ∧ (∀ w ∈ pool.workers, w.isAwake = false) ∧
      pool.locked = false

instance (N : Nat) (s : Server) : Decidable (Quiet N s) := inferInstanceAs (Decidable (_ ∧ _ ∧ _))

/-- A quiet server is settled. -/
theorem settled_of_quiet {s : Server} {N : Nat} (hN : Untouched N s) (hquiet : Quiet N s) :
    Settled s := by
  obtain ⟨hconns, hover, hpool⟩ := hquiet
  have hidle : ∀ k, (s.conns k).sending = [] ∧ (s.conns k).writes.threads = [] ∧
      s.current k = none := by
    intro k
    by_cases hk : k < N
    · exact hconns k hk
    · have hinit := hN k (by omega)
      rw [hinit]
      exact ⟨rfl, rfl, current_eq_none (by rw [hinit]; exact nofun)⟩
  have hsend := fun k => And.intro (hidle k).1 (hidle k).2.1
  have hcur := fun k => (hidle k).2.2
  -- a worker at index `i` sleeps
  have hworker : ∀ (pool : ThreadPool Job) (i : Nat) (w : ThreadPool.Worker Job),
      s.pool = some pool → pool.workers[i]? = some w → w.isAwake = false :=
    fun pool i w hp hi => (hpool pool hp).2.1 w (List.mem_of_getElem? hi)
  intro a hdriven
  cases hstep : s.step a with
  | none => rfl
  | some s' =>
    exfalso
    cases steps_of_step hstep with
    | conn k b c hown hidle hc =>
      cases Connection.steps_of_step hc with
      | push t data hmem => simp [(hsend k).1] at hmem
      | pop t w hw => simp [WriteChain.pop, (hsend k).2] at hw
      | startWrite t data w hw => simp [WriteChain.start, (hsend k).2] at hw
      | readEnded b hread => obtain ⟨d, rfl⟩ | rfl := hread <;> cases hdriven
      | _ => cases hdriven
    | submit k job pool pool' h => cases (hcur k).symm.trans h
    | refuse k job pool c h => cases (hcur k).symm.trans h
    | inline k job h => cases (hcur k).symm.trans h
    | leave k job c h => cases (hcur k).symm.trans h
    | pool b pool pool' hown hp hb =>
      cases ThreadPool.steps_of_step hb with
      | notifyOne id wakes workers hid hw => simp [(hpool pool hp).1] at hid
      | pop i task tasks hi ht => cases hworker pool i _ hp hi
      | exit i hi => cases hworker pool i _ hp hi
      | sleep i hi => cases hworker pool i _ hp hi
      | activate i task hi => cases hworker pool i _ hp hi
      | finish i task hi => cases hworker pool i _ hp hi
      | deactivate i task hi => cases hworker pool i _ hp hi
      | count i task hi => cases hworker pool i _ hp hi
      | settle i task hi => cases hworker pool i _ hp hi
      | notifyDrain i wakes drainers hi => cases hworker pool i _ hp hi
      | drainSleep d drainer hd hphase =>
        have hfree := List.any_eq_false.mp (hpool pool hp).2.2 drainer (List.mem_of_getElem? hd)
        simp [ThreadPool.Drainer.isBlocking, hphase] at hfree
      | _ => cases hdriven
    | activate i pool pool' task hp hw => cases hworker pool i _ hp hw
    | finish i pool pool' hp hb =>
      cases ThreadPool.steps_of_step hb with
      | finish i task hi => cases hworker pool i _ hp hi
    | respond n inv resp hn hp =>
      cases hp ▸ hover inv (List.mem_of_getElem? hn)
    | escapeTask n inv fault hn hp => cases hp ▸ hover inv (List.mem_of_getElem? hn)
    | escapeInline n inv fault c hn hp => cases hp ▸ hover inv (List.mem_of_getElem? hn)
    | send n inv services resp c hn hp => cases hp ▸ hover inv (List.mem_of_getElem? hn)
    | done n inv services resp hn hp => cases hp ▸ hover inv (List.mem_of_getElem? hn)
    | services a services ha =>
      obtain ⟨service, rfl⟩ | ⟨name, rfl⟩ := ha <;> cases hdriven

/-! ## The load -/

/-- The steps the threads inside of `send` have to take. -/
def connLoad (c : Connection) : Nat :=
  3 * c.sending.length + c.writes.load

/-- The steps an invocation has to take, those inside of `send` included. -/
def Progress.load : Progress → Nat
  | .processing => 6
  | .responding .. => 5
  | .sending .. => 1
  | .returned .. | .escaped _ => 0

/-- The steps a worker has to take until it blocks or exits, those of the
    invocation it is about to start included. -/
def workerLoad : ThreadPool.Worker Job → Nat
  | .popped _ => 13
  | .running _ => 6
  | .ran _ => 5
  | .retired _ => 4
  | .counted _ => 3
  | .notifying => 2
  | .checking => 1
  | .blocked | .exited => 0

/-- The steps the pool's threads have to take, and those of the tasks they will start. -/
def poolLoad (pool : ThreadPool Job) : Nat :=
  13 * pool.tasks.length + 2 * pool.enqueuing.length + (pool.workers.map workerLoad).sum +
    pool.drainers.countP ThreadPool.Drainer.isBlocking

/-- The steps the read handler inside of `on_message_` has to take, those of the
    job it is about to submit included. -/
def ioLoad (s : Server) : Nat :=
  match s.inMessage.bind s.current with
  | some job => if (s.entered.map Prod.fst).contains job.id then 1 else 17
  | none => 0

/-- A bound on the driven steps to come, when the connections from `N` on have not
    been used. -/
def load (N : Nat) (s : Server) : Nat :=
  s.ioLoad + (s.pool.map poolLoad).getD 0 +
    (s.invocations.map fun inv => inv.progress.load).sum +
    ∑ k ∈ Finset.range N, connLoad (s.conns k)

/-- A connection that changes changes the sum by its own difference. -/
theorem sum_connLoad_update (conns : Nat → Connection) {N k : Nat} (hk : k < N) (c : Connection) :
    ∑ i ∈ Finset.range N, connLoad (Function.update conns k c i) + connLoad (conns k) =
      ∑ i ∈ Finset.range N, connLoad (conns i) + connLoad c := by
  have hmem : k ∈ Finset.range N := Finset.mem_range.mpr hk
  have hother : ∑ i ∈ (Finset.range N).erase k, connLoad (Function.update conns k c i) =
      ∑ i ∈ (Finset.range N).erase k, connLoad (conns i) := by
    apply Finset.sum_congr rfl
    intro i hi
    rw [Function.update_of_ne (Finset.ne_of_mem_erase hi)]
  -- the term of the connection, and the rest
  rw [← Finset.add_sum_erase _ _ hmem, ← Finset.add_sum_erase _ (fun i => connLoad (conns i)) hmem,
    hother, Function.update_self]
  omega

/-- A thread inside of `send` works off its part of the load. -/
theorem connLoad_lt {c c' : Connection} {k : Nat} {a : Connection.Act}
    (hdriven : driven (.conn k a) = true) (hc : c.step a = some c') :
    connLoad c' < connLoad c := by
  cases Connection.steps_of_step hc with
  | push t data hmem =>
    have hlen := List.length_erase_of_mem hmem
    have hpos := List.length_pos_of_mem hmem
    -- three steps less in `sending`, and two more in the write path at most
    have hpush := c.writes.load_push_le t data
    simp only [connLoad, hlen]
    omega
  | pop t w hw =>
    have hpop := WriteChain.load_pop_lt hw
    simp only [connLoad]
    omega
  | startWrite t data w hw =>
    have hstart := WriteChain.load_start_lt hw
    simp only [connLoad]
    omega
  | readEnded b hread => obtain ⟨d, rfl⟩ | rfl := hread <;> cases hdriven
  | _ => cases hdriven

/-- `send` adds three steps at most. -/
theorem connLoad_send {c c' : Connection} {t : ThreadId} {header : RpcHeader} {body : Bytes}
    (hc : c.step (.send t header body) = some c') : connLoad c' ≤ connLoad c + 3 := by
  -- a closed connection sends nothing
  simp only [Connection.step] at hc
  split at hc
  · obtain rfl := Option.some.inj hc
    omega
  · obtain rfl := Option.some.inj hc
    simp only [connLoad, List.length_cons]
    omega

/-- The load of the pool, with the 6 steps of the invocation for each start of a task. -/
theorem poolLoad_eq (pool : ThreadPool Job) : poolLoad pool = pool.load 6 := by
  have hworker : workerLoad = ThreadPool.Worker.load 6 := by
    funext w
    cases w <;> rfl
  rw [poolLoad, ThreadPool.load, hworker]

/-- A worker, or a call of `enqueue()`, works off its part of the load. -/
theorem poolLoad_lt {pool pool' : ThreadPool Job} {a : ThreadPool.Act Job}
    (hdriven : drivenPool a = true ∨ ∃ i, a = .finish i) (h : pool.step a = some pool') :
    poolLoad pool' < poolLoad pool := by
  have hown : ThreadPool.own a = true := by
    obtain hdriven | ⟨i, rfl⟩ := hdriven
    · cases a <;> first | rfl | cases hdriven
    · rfl
  rw [poolLoad_eq, poolLoad_eq]
  exact ThreadPool.load_lt hown h

/-- A task that is submitted adds the steps of its worker and its two of `enqueue()`. -/
theorem poolLoad_enqueue {pool pool' : ThreadPool Job} {job : Job}
    (h : pool.enqueue job = .ok pool') : poolLoad pool' = poolLoad pool + 15 := by
  rw [poolLoad_eq, poolLoad_eq]
  exact ThreadPool.load_enqueue h

/-- A worker that starts its task hands the rest of its load to the invocation. -/
theorem poolLoad_activate {pool pool' : ThreadPool Job} {i : Nat} {task : Task Job}
    (hi : pool.workers[i]? = some (.popped task)) (h : pool.step (.activate i) = some pool') :
    poolLoad pool' + 7 = poolLoad pool := by
  rw [poolLoad_eq, poolLoad_eq]
  have hload := ThreadPool.load_activate (c := 6) hi h
  omega

/-- The read handler inside of `on_message_` has its message with it. -/
theorem ioLoad_of_current {s : Server} (hflow : FlowInv s) {k : Nat} {job : Job}
    (hcur : s.current k = some job) :
    s.ioLoad = if job.id ∈ s.entered.map Prod.fst then 1 else 17 := by
  simp only [ioLoad, hflow.inMessage k job hcur, Option.bind_some, hcur, List.contains_iff_mem]

/-- A message that has been entered has only to leave. -/
theorem ioLoad_entered {s s' : Server} (hflow : FlowInv s) {k : Nat} {job : Job}
    (hcur : s.current k = some job) (hin : s'.inMessage = s.inMessage)
    (hconns : s'.conns = s.conns) (hentered : s'.entered = s.entered ++ [(job.id, false)]) :
    s'.ioLoad = 1 := by
  have hcur' : s'.current k = some job := by
    have hsame : s'.current k = s.current k :=
      current_congr (by rw [hconns]) (by rw [hconns])
    exact hsame.trans hcur
  simp only [ioLoad, hin, hflow.inMessage k job hcur, Option.bind_some, hcur', hentered]
  exact if_pos (by simp)

/-- The load of the read handler depends on its message only. -/
theorem ioLoad_congr {s s' : Server} (hin : s'.inMessage = s.inMessage)
    (hcur : ∀ k, s'.current k = s.current k) (hentered : s'.entered = s.entered) :
    s'.ioLoad = s.ioLoad := by
  rw [ioLoad, ioLoad, hin, hentered, funext hcur]

/-- Moving an invocation on changes the load by its own difference. -/
theorem sum_load_setProgress {s : Server} {n : Nat} {inv : Invocation} {progress : Progress}
    (old new : Nat) (hn : s.invocations[n]? = some inv) (hold : inv.progress.load = old)
    (hnew : progress.load = new) :
    ((s.setProgress n inv progress).map fun inv => inv.progress.load).sum + old =
      (s.invocations.map fun inv => inv.progress.load).sum + new := by
  rw [← hold, ← hnew]
  exact List.sum_map_set (fun inv : Invocation => inv.progress.load) { inv with progress } hn

/-- An invocation that moves on outside of `send` lowers the load. -/
theorem load_setProgress_lt {s s' : Server} {N n : Nat} {inv : Invocation} {progress : Progress}
    (hn : s.invocations[n]? = some inv) (hlt : progress.load < inv.progress.load)
    (hinvs : s'.invocations = s.setProgress n inv progress) (hio : s'.ioLoad = s.ioLoad)
    (hpool : s'.pool = s.pool) (hconns : s'.conns = s.conns) : load N s' < load N s := by
  have hsum := sum_load_setProgress _ _ hn rfl (rfl : progress.load = _)
  simp only [load, hinvs, hio, hpool, hconns]
  omega

/-- A read handler that ends does not change who is inside of `send`. -/
theorem connLoad_end {c c' : Connection} {a : Connection.Act}
    (ha : a = .messageHandled ∨ a = .messageThrew) (hc : c.step a = some c') :
    connLoad c' = connLoad c := by
  cases Connection.steps_of_step hc with
  | handled => rfl
  | threw => rfl
  | readEnded b hread => obtain rfl | rfl := ha <;> simp at hread
  | _ => simp at ha

/-- A thread inside of `send` does not touch the read loop. -/
theorem ioLoad_conn {s : Server} {k : Nat} {a : Connection.Act} {c : Connection}
    (hdriven : driven (.conn k a) = true) (hown : ownAct a = true)
    (hc : (s.conns k).step a = some c) :
    ioLoad { s.setConn k c with inMessage := if callsOnMessage a then some k else s.inMessage } =
      s.ioLoad := by
  have hcalls : startsHandler a = false := by
    cases a <;> simp [driven, startsHandler] at hdriven ⊢
  -- the other two cases are those of a handler that starts
  obtain ⟨hno, hreading, hdel⟩ | ⟨hstarts, _⟩ | ⟨hstarts, _⟩ := connStep_cases hown hc
  · apply ioLoad_congr
    · simp only [hno, Bool.false_eq_true, if_false]
    · intro k'
      have hsame := readLoop_update hreading hdel k'
      exact current_congr hsame.1 hsame.2
    · rfl
  · cases hcalls.symm.trans hstarts
  · cases hcalls.symm.trans hstarts

/-- Every driven step lowers the load. -/
theorem Steps.load_lt {s s' : Server} {a : Act} {N : Nat} (h : Steps s a s')
    (hdriven : driven a = true) (hjobs : JobInv s) (hflow : FlowInv s)
    (hN : Untouched N s) : load N s' < load N s := by
  cases h with
  | conn k b c hown hidle hc =>
    have hio := ioLoad_conn hdriven hown hc
    have hlt := connLoad_lt hdriven hc
    have hsum := sum_connLoad_update s.conns (hN.lt_of_driven hdriven hc) c
    simp only [load, setConn] at hio ⊢
    omega
  | submit k job pool pool' hcur hnew hpool henq =>
    have hio := ioLoad_of_current hflow hcur
    rw [if_neg hnew] at hio
    have hio' : ioLoad { s with
        pool := some pool', entered := s.entered ++ [(job.id, false)] } = 1 :=
      ioLoad_entered hflow hcur rfl rfl rfl
    -- the 16 steps the handler gives up cover the 15 of the task
    have hpool' := poolLoad_enqueue henq
    simp only [load, hpool, Option.map_some, Option.getD_some] at hio' ⊢
    omega
  | inline k job hcur hnew hpool =>
    have hio := ioLoad_of_current hflow hcur
    rw [if_neg hnew] at hio
    have hio' : ioLoad { s with
        invocations := s.invocations ++ [{ thread := none, job, progress := .processing }]
        entered := s.entered ++ [(job.id, false)] } = 1 :=
      ioLoad_entered hflow hcur rfl rfl rfl
    simp only [load, List.map_append, List.sum_append, List.map_cons, List.map_nil, List.sum_cons,
      List.sum_nil, Progress.load] at hio' ⊢
    omega
  | refuse k job pool c hcur hnew hpool hstop hc =>
    have hio := ioLoad_of_current hflow hcur
    rw [if_neg hnew] at hio
    have hk : job.conn = k := congrArg Prod.fst (current_conn hcur)
    have hend := connLoad_end (.inr rfl) hc
    have hsum := sum_connLoad_update s.conns (hk ▸ hN.lt_of_current hcur) c
    have hio' : ioLoad { s.throwOut job c with entered := s.entered ++ [(job.id, true)] } = 0 := rfl
    simp only [load, throwOut, setConn] at hio' ⊢
    omega
  | leave k job c hcur hhandled hc =>
    have hend := connLoad_end (.inl rfl) hc
    have hsum := sum_connLoad_update s.conns (hN.lt_of_current hcur) c
    -- entered or not, the handler had at least to leave
    have hio : 1 ≤ s.ioLoad := by
      rw [ioLoad_of_current hflow hcur]
      split <;> omega
    have hio' : ioLoad { s.setConn k c with inMessage := none, left := s.left ++ [job.id] } = 0 :=
      rfl
    simp only [load, setConn] at hio' ⊢
    omega
  | pool b pool pool' hown hpool hb =>
    have hlt := poolLoad_lt (.inl hdriven) hb
    have hio : ioLoad { s with pool := some pool' } = s.ioLoad := rfl
    simp only [load, hpool, Option.map_some, Option.getD_some]
    omega
  | activate i pool pool' task hpool hw hb =>
    -- the worker gives up seven steps, and the invocation starts with six
    have hpool' := poolLoad_activate hw hb
    have hio : ioLoad { s with
        pool := some pool'
        invocations := s.invocations ++
          [{ thread := some i, job := task.job, progress := .processing }] } = s.ioLoad := rfl
    simp only [load, hpool, Option.map_some, Option.getD_some, List.map_append, List.sum_append,
      List.map_cons, List.map_nil, List.sum_cons, List.sum_nil, Progress.load]
    omega
  | finish i pool pool' hpool hb =>
    have hlt := poolLoad_lt (.inr ⟨i, rfl⟩) hb
    have hio : ioLoad { s with pool := some pool' } = s.ioLoad := rfl
    simp only [load, hpool, Option.map_some, Option.getD_some]
    omega
  | respond n inv resp hn hp hresp =>
    exact load_setProgress_lt hn (by rw [hp]; exact Nat.lt_add_one 5) rfl rfl rfl rfl
  | escapeTask n inv fault hn hp hthread hfault =>
    exact load_setProgress_lt hn (by rw [hp]; exact Nat.succ_pos 5) rfl rfl rfl rfl
  | escapeInline n inv fault c hn hp hthread hfault hc =>
    -- the handler ends with the invocation that threw
    have hold : inv.progress.load = 6 := by rw [hp]; rfl
    have hsum := sum_load_setProgress 6 0 hn hold (rfl : Progress.load (.escaped s.services) = _)
    have hk := hN.lt_of_job hjobs (mem_jobs_of_mem_invocations (List.mem_of_getElem? hn))
    have hend := connLoad_end (.inr rfl) hc
    have hconns := sum_connLoad_update s.conns hk c
    have hio : ioLoad (throwOut { s with
        invocations := s.setProgress n inv (.escaped s.services) } inv.job c) = 0 := rfl
    simp only [load, throwOut, setConn] at hio ⊢
    omega
  | send n inv services resp c hn hp hc =>
    have hold : inv.progress.load = 5 := by rw [hp]; rfl
    have hsum := sum_load_setProgress 5 1 hn hold (rfl : Progress.load (.sending services resp) = _)
    have hk := hN.lt_of_job hjobs (mem_jobs_of_mem_invocations (List.mem_of_getElem? hn))
    -- what the invocation gives up covers the three steps inside of `send`
    have hle := connLoad_send hc
    have hconns := sum_connLoad_update s.conns hk c
    obtain ⟨hreading, hdel⟩ := readLoop_send hc
    have hsame := readLoop_update hreading hdel
    have hio : ioLoad { s.setConn inv.job.conn c with
        invocations := s.setProgress n inv (.sending services resp)
        sends := s.sends ++
          [{ id := inv.job.id, conn := inv.job.conn,
             header := (sendResponse inv.job.header resp).1,
             body := (sendResponse inv.job.header resp).2 }] } = s.ioLoad :=
      ioLoad_congr rfl (fun k => current_congr (hsame k).1 (hsame k).2) rfl
    simp only [load, setConn] at hio ⊢
    omega
  | done n inv services resp hn hp hout =>
    exact load_setProgress_lt hn (by rw [hp]; exact Nat.one_pos) rfl rfl rfl rfl
  | services a services ha =>
    obtain ⟨service, rfl⟩ | ⟨name, rfl⟩ := ha <;> cases hdriven

/-- The server's threads run out of steps of their own. -/
theorem driven_run_bounded {services : ServiceManager} {threads : Option (UInt64 × UInt32)}
    {s : Server} (h : Reachable step (init services threads) s) :
    ∃ bound, ∀ acts t, (∀ a ∈ acts, driven a = true) → run step s acts = some t →
      acts.length ≤ bound := by
  -- the sum over the connections is finite: the others have never been used
  obtain ⟨N, hN⟩ := exists_untouched h
  refine ⟨load N s, fun acts t hacts hrun => ?_⟩
  apply length_le_of_run (G := fun a => driven a = true)
    (P := fun s => Reachable step (init services threads) s ∧ Untouched N s) ?_ acts hacts
    ⟨h, hN⟩ hrun
  -- each step lowers the load, and uses no new connection
  rintro s a s' ⟨hs, hN⟩ hdriven hstep
  have hjobs := jobInv_of_reachable hs
  have hsteps := steps_of_step hstep
  exact ⟨⟨hs.tail a trivial hstep, hsteps.untouched hjobs hN fun _ _ _ => .inl hdriven⟩,
    hsteps.load_lt hdriven hjobs (flowInv_of_reachable hs).1 hN⟩

end Rpc.Server
