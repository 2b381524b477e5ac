import Rpc.Spec.ConnectionSteps
import Rpc.Spec.ResponseCorrect
import Rpc.Spec.ServerSteps
import Rpc.Spec.ThreadPoolCorrect

/-!
# Jobs and sends of the server

A delivered message becomes a job once, and the job is invoked once, on a worker
or on the io thread: by `JobInv` the jobs waiting in the pool and the invocations
are those of the messages accepted, each of which was entered once.  Each
invocation calls `Connection::send` once, when and only when its
`process_request` returned (`SendInv`), and a connection writes what was sent on
it and nothing else (`FrameInv`).
-/

namespace Rpc.Server

open Transition

/-! ## The connections -/

/-- Each connection of a server takes steps of its own only. -/
theorem Steps.conns {s s' : Server} {a : Act} (h : Steps s a s') (k : Nat) :
    s'.conns k = s.conns k ∨ ∃ b, (s.conns k).step b = some (s'.conns k) := by
  -- a step that replaces connection `j`
  have hset : ∀ (j : Nat) (b : Connection.Act) (c : Connection), (s.conns j).step b = some c →
      Function.update s.conns j c k = s.conns k ∨
        ∃ b, (s.conns k).step b = some (Function.update s.conns j c k) := by
    intro j b c hc
    by_cases hk : k = j
    · subst hk
      exact .inr ⟨b, by rw [Function.update_self]; exact hc⟩
    · exact .inl (Function.update_of_ne hk c s.conns)
  cases h with
  | conn j b c hown hidle hc => exact hset j b c hc
  | refuse j job pool c hcur hnew hpool hstop hc => exact hset _ _ c hc
  | leave j job c hcur hhandled hc => exact hset _ _ c hc
  | escapeInline n inv fault c hinv hprog hthread hfault hc => exact hset _ _ c hc
  | send n inv services resp c hinv hprog hc => exact hset _ _ c hc
  | _ => exact .inl rfl

/-- A connection of a server is in a state of a run of its own. -/
theorem conn_reachable {services : ServiceManager} {threads : Option (UInt64 × UInt32)}
    {s : Server} (h : Reachable step (init services threads) s) (k : Nat) :
    Reachable Connection.step Connection.init (s.conns k) := by
  apply h.project (fun s => s.conns k)
  intro s a s' _ hs
  obtain heq | ⟨b, hb⟩ := (steps_of_step hs).conns k
  · exact .inl heq
  · exact .inr ⟨b, trivial, hb⟩

/-- What a connection has delivered stays on record. -/
theorem Steps.delivered {s s' : Server} {a : Act} (h : Steps s a s') {k j : Nat}
    {m : RpcHeader × Bytes} (hm : (s.conns k).delivered[j]? = some m) :
    (s'.conns k).delivered[j]? = some m := by
  obtain heq | ⟨b, hb⟩ := h.conns k
  · rw [heq]
    exact hm
  · obtain ⟨rest, hrest⟩ := (Connection.steps_of_step hb).delivered
    rw [← hrest, List.getElem?_append_left (List.getElem?_eq_some_iff.mp hm).1]
    exact hm

/-! ## The jobs -/

/-- The jobs submitted to the pool and not yet started. -/
def waiting (s : Server) : List Job :=
  match s.pool with
  | some pool => pool.unstarted.map Task.job
  | none => []

/-- The jobs waiting and those started. -/
def jobs (s : Server) : List Job := s.waiting ++ s.invocations.map Invocation.job

/-- The messages `on_message` accepted: the pool was not stopped. -/
def acceptedIds (s : Server) : List (Nat × Nat) :=
  (s.entered.filter fun e => !e.2).map Prod.fst

/-- There is one job for every message accepted, delivered as the job says. -/
structure JobInv (s : Server) : Prop where
  once : (s.entered.map Prod.fst).Nodup
  jobs : (s.jobs.map Job.id).Perm s.acceptedIds
  delivered : ∀ job ∈ s.jobs,
    (s.conns job.conn).delivered[job.index]? = some (job.header, job.body)

/-- A message is accepted when it was entered and not refused. -/
theorem mem_acceptedIds {s : Server} {id : Nat × Nat} :
    id ∈ s.acceptedIds ↔ (id, false) ∈ s.entered := by
  simp [acceptedIds]

/-- A message that is accepted is the last of them. -/
theorem acceptedIds_append_false {s s' : Server} {id : Nat × Nat}
    (h : s'.entered = s.entered ++ [(id, false)]) : s'.acceptedIds = s.acceptedIds ++ [id] := by
  simp [acceptedIds, h]

/-- A message that is refused is none of them. -/
theorem acceptedIds_append_true {s s' : Server} {id : Nat × Nat}
    (h : s'.entered = s.entered ++ [(id, true)]) : s'.acceptedIds = s.acceptedIds := by
  simp [acceptedIds, h]

/-- No message has two jobs. -/
theorem JobInv.nodup {s : Server} (hinv : JobInv s) : (s.jobs.map Job.id).Nodup :=
  hinv.jobs.nodup_iff.mpr (hinv.once.sublist (List.filter_sublist.map Prod.fst))

/-- No message is invoked twice. -/
theorem JobInv.nodup_invocations {s : Server} (hinv : JobInv s) :
    (s.invocations.map fun inv => inv.job.id).Nodup := by
  have hnodup := hinv.nodup
  rw [Server.jobs, List.map_append, List.nodup_append, List.map_map] at hnodup
  exact hnodup.2.1

/-- An invocation is known by its message. -/
theorem JobInv.unique {s : Server} (hinv : JobInv s) {inv inv' : Invocation}
    (hmem : inv ∈ s.invocations) (hmem' : inv' ∈ s.invocations)
    (hid : inv.job.id = inv'.job.id) : inv = inv' :=
  List.inj_on_of_nodup_map hinv.nodup_invocations hmem hmem' hid

/-- The message of a job was accepted. -/
theorem JobInv.accepted {s : Server} (hinv : JobInv s) {job : Job} (hjob : job ∈ s.jobs) :
    (job.id, false) ∈ s.entered :=
  mem_acceptedIds.mp (hinv.jobs.mem_iff.mp (List.mem_map_of_mem hjob))

/-- The job of an invocation is one of the jobs. -/
theorem mem_jobs_of_mem_invocations {s : Server} {inv : Invocation} (h : inv ∈ s.invocations) :
    inv.job ∈ s.jobs :=
  List.mem_append_right _ (List.mem_map_of_mem h)

/-- The message `on_message` is entered with is the one delivered last. -/
theorem current_delivered {s : Server} {k : Nat} {job : Job}
    (hconn : Connection.HandlingInv (s.conns k)) (hcur : s.current k = some job) :
    job.conn = k ∧ (s.conns job.conn).delivered[job.index]? = some (job.header, job.body) := by
  simp only [current] at hcur
  split at hcur
  · rename_i header body hreading
    obtain rfl := Option.some.inj hcur
    exact ⟨rfl, hconn header body hreading⟩
  · cases hcur

/-- Moving an invocation on does not change its job. -/
theorem map_job_setProgress {s : Server} {n : Nat} {inv : Invocation} (progress : Progress)
    (hinv : s.invocations[n]? = some inv) :
    (s.setProgress n inv progress).map Invocation.job = s.invocations.map Invocation.job :=
  List.map_set_of_eq Invocation.job hinv rfl

/-- A step enters no message, or one not seen before, which gets its job unless
    the pool is stopped. -/
theorem Steps.jobs {s s' : Server} {a : Act} (h : Steps s a s') :
    (s'.entered = s.entered ∧ s'.jobs.Perm s.jobs) ∨
      ∃ k job, s.current k = some job ∧ job.id ∉ s.entered.map Prod.fst ∧
        ((s'.entered = s.entered ++ [(job.id, false)] ∧ s'.jobs.Perm (job :: s.jobs)) ∨
          (s'.entered = s.entered ++ [(job.id, true)] ∧ s'.jobs.Perm s.jobs)) := by
  -- a step that only moves an invocation on
  have hprog : ∀ (n : Nat) (inv : Invocation) (progress : Progress),
      s.invocations[n]? = some inv → s'.invocations = s.setProgress n inv progress →
      s'.pool = s.pool → s'.jobs.Perm s.jobs := by
    intro n inv progress hn hset hpool
    rw [Server.jobs, Server.jobs, waiting, waiting, hpool, hset, map_job_setProgress progress hn]
  -- a step of the pool that starts no task
  have hpoolStep : ∀ (b : ThreadPool.Act Job) (pool pool' : ThreadPool Job),
      s.pool = some pool → pool.step b = some pool' → (∀ job, b ≠ .enqueue job) →
      (∀ i, b ≠ .activate i) → s'.pool = some pool' → s'.invocations = s.invocations →
      s'.jobs.Perm s.jobs := by
    intro b pool pool' hpool hstep henq hact hpool' hinvs
    have hperm := (ThreadPool.steps_of_step hstep).unstarted_perm henq hact
    rw [Server.jobs, Server.jobs, waiting, waiting, hpool, hpool', hinvs]
    exact (hperm.map Task.job).append_right _
  cases h with
  | submit k job pool pool' hcur hnew hpool henq =>
    refine .inr ⟨k, job, hcur, hnew, .inl ⟨rfl, ?_⟩⟩
    show (pool'.unstarted.map Task.job ++ _).Perm _
    rw [ThreadPool.unstarted_enqueue henq, List.map_append, Server.jobs, waiting, hpool,
      List.append_assoc]
    exact List.perm_middle
  -- without a pool the job is an invocation at once
  | inline k job hcur hnew hpool =>
    refine .inr ⟨k, job, hcur, hnew, .inl ⟨rfl, ?_⟩⟩
    show (s.waiting ++ (s.invocations ++ [_]).map Invocation.job).Perm _
    rw [List.map_append, ← List.append_assoc]
    exact List.perm_append_singleton _ _
  | refuse k job pool c hcur hnew hpool hstop hc =>
    exact .inr ⟨k, job, hcur, hnew, .inr ⟨rfl, .refl _⟩⟩
  | pool b pool pool' hown hpool hstep =>
    exact .inl ⟨rfl, hpoolStep b pool pool' hpool hstep (by rintro job rfl; cases hown)
      (by rintro i rfl; cases hown) rfl rfl⟩
  | finish i pool pool' hpool hstep =>
    exact .inl ⟨rfl, hpoolStep _ pool pool' hpool hstep nofun nofun rfl rfl⟩
  | activate i pool pool' task hpool hw hstep =>
    refine .inl ⟨rfl, ?_⟩
    -- the task moves from the waiting ones to the invocations
    have hperm := (ThreadPool.unstarted_activate hw hstep).map Task.job
    show (pool'.unstarted.map Task.job ++ (s.invocations ++ [_]).map Invocation.job).Perm _
    rw [Server.jobs, waiting, hpool, List.map_append, ← List.append_assoc]
    exact (List.perm_append_singleton _ _).trans (hperm.append_right _)
  | respond n inv resp hn hp hresp => exact .inl ⟨rfl, hprog n inv _ hn rfl rfl⟩
  | escapeTask n inv fault hn hp hthread hfault => exact .inl ⟨rfl, hprog n inv _ hn rfl rfl⟩
  | escapeInline n inv fault c hn hp hthread hfault hc =>
    exact .inl ⟨rfl, hprog n inv _ hn rfl rfl⟩
  | send n inv services resp c hn hp hc => exact .inl ⟨rfl, hprog n inv _ hn rfl rfl⟩
  | done n inv services resp hn hp hout => exact .inl ⟨rfl, hprog n inv _ hn rfl rfl⟩
  | conn | leave | services => exact .inl ⟨rfl, .refl _⟩

/-- Every step keeps the jobs apart. -/
theorem Steps.jobInv {s s' : Server} {a : Act} (h : Steps s a s')
    (hconns : ∀ k, Connection.HandlingInv (s.conns k)) (hinv : JobInv s) : JobInv s' := by
  have hold : ∀ job ∈ s.jobs,
      (s'.conns job.conn).delivered[job.index]? = some (job.header, job.body) :=
    fun job hjob => h.delivered (hinv.delivered job hjob)
  -- a message not seen before is appended to those entered
  have honce : ∀ (job : Job) (stopped : Bool), job.id ∉ s.entered.map Prod.fst →
      s'.entered = s.entered ++ [(job.id, stopped)] → (s'.entered.map Prod.fst).Nodup := by
    intro job stopped hnew hentered
    rw [hentered, List.map_append]
    exact (List.nodup_append_comm.mp (List.nodup_cons.mpr ⟨hnew, hinv.once⟩))
  -- no message, one that is accepted, or one that is refused
  obtain ⟨hentered, hperm⟩ |
    ⟨k, job, hcur, hnew, ⟨hentered, hperm⟩ | ⟨hentered, hperm⟩⟩ := h.jobs
  · constructor
    · rw [hentered]
      exact hinv.once
    · rw [acceptedIds, hentered]
      exact (hperm.map Job.id).trans hinv.jobs
    · intro job' hjob'
      exact hold job' (hperm.mem_iff.mp hjob')
  · constructor
    · exact honce job false hnew hentered
    · rw [acceptedIds_append_false hentered]
      exact (hperm.map Job.id).trans
        ((hinv.jobs.cons job.id).trans (List.perm_append_singleton _ _).symm)
    · intro job' hjob'
      obtain rfl | hjob' := List.mem_cons.mp (hperm.mem_iff.mp hjob')
      · exact h.delivered (current_delivered (hconns k) hcur).2
      · exact hold job' hjob'
  · constructor
    · exact honce job true hnew hentered
    · rw [acceptedIds_append_true hentered]
      exact (hperm.map Job.id).trans hinv.jobs
    · intro job' hjob'
      exact hold job' (hperm.mem_iff.mp hjob')

/-- The jobs are kept apart in every state of a run. -/
theorem jobInv_of_reachable {services : ServiceManager} {threads : Option (UInt64 × UInt32)}
    {s : Server} (h : Reachable step (init services threads) s) : JobInv s := by
  apply h.invariant_with (I := fun s => ∀ k, Connection.HandlingInv (s.conns k))
  · intro s hs k
    exact Connection.handlingInv_of_reachable (conn_reachable hs k)
  -- at the beginning nothing waits, with a pool or without
  · have hjobs : (init services threads).jobs = [] := by
      cases threads with
      | none => rfl
      | some p => simp [init, jobs, waiting, ThreadPool.init, ThreadPool.unstarted,
          ThreadPool.Worker.fetched]
    constructor
    · exact List.nodup_nil
    · rw [hjobs]
      exact .refl _
    · rw [hjobs]
      intro job hjob
      cases hjob
  · intro s a s' hI hinv _ hs
    exact (steps_of_step hs).jobInv hI hinv

/-! ## The sends -/

/-- The call of `Connection::send` an invocation has made. -/
def Invocation.sent (inv : Invocation) : Option Send :=
  match inv.progress with
  | .sending _ resp | .returned _ resp =>
    some { id := inv.job.id, conn := inv.job.conn,
           header := (sendResponse inv.job.header resp).1,
           body := (sendResponse inv.job.header resp).2 }
  | _ => none

/-- The invocation is where `process_request` has taken it. -/
def Invocation.Proper (inv : Invocation) : Prop :=
  match inv.progress with
  | .processing => True
  | .responding services resp | .sending services resp | .returned services resp =>
    processRequest services inv.job.header inv.job.body = .ok resp
  | .escaped services => ∃ fault, processRequest services inv.job.header inv.job.body = .error fault

/-- An exception has left the invocation. -/
def Invocation.Escaped (inv : Invocation) : Prop := ∃ services, inv.progress = .escaped services

/-- The sends are those of the invocations, and an exception reaches the read
    handler only from a stopped pool or from an invocation. -/
structure SendInv (s : Server) : Prop where
  sends : s.sends.Perm (s.invocations.filterMap Invocation.sent)
  proper : ∀ inv ∈ s.invocations, inv.Proper
  threw : ∀ id ∈ s.threw, (id, true) ∈ s.entered ∨
    ∃ inv ∈ s.invocations, inv.job.id = id ∧ inv.Escaped

/-- A step that leaves the invocations alone. -/
theorem SendInv.of_eq {s s' : Server} (hinv : SendInv s) (hsends : s'.sends = s.sends)
    (hinvs : s'.invocations = s.invocations) (hthrew : s'.threw = s.threw)
    (hentered : ∀ e ∈ s.entered, e ∈ s'.entered) : SendInv s' := by
  constructor
  · rw [hsends, hinvs]
    exact hinv.sends
  · rw [hinvs]
    exact hinv.proper
  · rw [hthrew, hinvs]
    intro id hid
    obtain hstop | hesc := hinv.threw id hid
    · exact .inl (hentered _ hstop)
    · exact .inr hesc

/-- A step that starts an invocation. -/
theorem SendInv.of_start {s s' : Server} (hinv : SendInv s) {thread : ThreadId} {job : Job}
    (hsends : s'.sends = s.sends)
    (hinvs : s'.invocations = s.invocations ++ [{ thread, job, progress := .processing }])
    (hthrew : s'.threw = s.threw) (hentered : ∀ e ∈ s.entered, e ∈ s'.entered) : SendInv s' := by
  constructor
  -- the new invocation has sent nothing
  · rw [hsends, hinvs, List.filterMap_append]
    exact (List.append_nil _).symm ▸ hinv.sends
  · rw [hinvs]
    intro inv hmem
    obtain hmem | hmem := List.mem_append.mp hmem
    · exact hinv.proper inv hmem
    · obtain rfl := List.mem_singleton.mp hmem
      trivial
  · rw [hthrew, hinvs]
    intro id hid
    obtain hstop | ⟨inv, hmem, hesc⟩ := hinv.threw id hid
    · exact .inl (hentered _ hstop)
    · exact .inr ⟨inv, List.mem_append_left _ hmem, hesc⟩

/-- A step that moves an invocation on; `sent` is what it sends. -/
theorem SendInv.of_progress {s s' : Server} (hinv : SendInv s) {n : Nat} {inv : Invocation}
    {progress : Progress} {sent : List Send} (hn : s.invocations[n]? = some inv)
    (hold : ¬inv.Escaped) (hinvs : s'.invocations = s.setProgress n inv progress)
    (hsends : s'.sends = s.sends ++ sent) (hproper : Invocation.Proper { inv with progress })
    (hsent : inv.sent.toList ++ sent = (Invocation.sent { inv with progress }).toList)
    (hentered : s'.entered = s.entered)
    (hthrew : ∀ id ∈ s'.threw, id ∈ s.threw ∨
      id = inv.job.id ∧ Invocation.Escaped { inv with progress }) :
    SendInv s' := by
  constructor
  · have hset := List.filterMap_set_perm Invocation.sent { inv with progress } hn
    rw [← hsent, List.append_assoc] at hset
    -- what the invocation had sent before stands on both sides
    have hcancel := (List.perm_append_left_iff _).mp hset
    rw [hsends, hinvs]
    exact (hinv.sends.append_right sent).trans
      (List.perm_append_comm.trans hcancel.symm)
  · rw [hinvs]
    intro inv' hmem
    obtain hmem | rfl := List.mem_or_eq_of_mem_set hmem
    · exact hinv.proper inv' hmem
    · exact hproper
  · rw [hinvs, hentered]
    intro id hid
    have hlt := (List.getElem?_eq_some_iff.mp hn).1
    obtain hid | ⟨rfl, hesc⟩ := hthrew id hid
    · obtain hstop | ⟨inv', hmem, hid', hesc⟩ := hinv.threw id hid
      · exact .inl hstop
      · -- an invocation that has thrown is not the one that moves on
        refine .inr ⟨inv', List.mem_set_of_ne _ hmem hn ?_, hid', hesc⟩
        rintro rfl
        exact hold hesc
    · exact .inr ⟨{ inv with progress }, List.mem_set hlt _, rfl, hesc⟩

/-- Every step keeps sends and invocations together. -/
theorem Steps.sendInv {s s' : Server} {a : Act} (h : Steps s a s') (hinv : SendInv s) :
    SendInv s' := by
  cases h with
  | respond n inv resp hn hp hresp =>
    exact hinv.of_progress hn (by simp [Invocation.Escaped, hp]) rfl
      (List.append_nil _).symm hresp (by simp [Invocation.sent, hp]) rfl fun id hid => .inl hid
  | escapeTask n inv fault hn hp hthread hfault =>
    exact hinv.of_progress hn (by simp [Invocation.Escaped, hp]) rfl
      (List.append_nil _).symm ⟨fault, hfault⟩ (by simp [Invocation.sent, hp]) rfl
      fun id hid => .inl hid
  | escapeInline n inv fault c hn hp hthread hfault hc =>
    refine hinv.of_progress hn (by simp [Invocation.Escaped, hp]) rfl
      (List.append_nil _).symm ⟨fault, hfault⟩ (by simp [Invocation.sent, hp]) rfl ?_
    intro id hid
    obtain hid | hid := List.mem_append.mp hid
    · exact .inl hid
    · exact .inr ⟨List.mem_singleton.mp hid, ⟨s.services, rfl⟩⟩
  -- the response sent is the one that was processed
  | send n inv services resp c hn hp hc =>
    have hproper := hinv.proper inv (List.mem_of_getElem? hn)
    rw [Invocation.Proper, hp] at hproper
    exact hinv.of_progress hn (by simp [Invocation.Escaped, hp]) rfl rfl hproper
      (by simp [Invocation.sent, hp]) rfl fun id hid => .inl hid
  | done n inv services resp hn hp hout =>
    have hproper := hinv.proper inv (List.mem_of_getElem? hn)
    rw [Invocation.Proper, hp] at hproper
    exact hinv.of_progress hn (by simp [Invocation.Escaped, hp]) rfl
      (List.append_nil _).symm hproper (by simp [Invocation.sent, hp]) rfl fun id hid => .inl hid
  | inline k job hcur hnew hpool =>
    exact hinv.of_start rfl rfl rfl fun e he => List.mem_append_left _ he
  | activate i pool pool' task hpool hw hstep => exact hinv.of_start rfl rfl rfl fun e he => he
  | submit k job pool pool' hcur hnew hpool henq =>
    exact hinv.of_eq rfl rfl rfl fun e he => List.mem_append_left _ he
  | refuse k job pool c hcur hnew hpool hstop hc =>
    -- the handler throws because the pool is stopped, and there is no invocation
    refine ⟨hinv.sends, hinv.proper, ?_⟩
    intro id hid
    obtain hid | hid := List.mem_append.mp hid
    · obtain hstop | hesc := hinv.threw id hid
      · exact .inl (List.mem_append_left _ hstop)
      · exact .inr hesc
    · obtain rfl := List.mem_singleton.mp hid
      exact .inl (List.mem_append_right _ (List.mem_singleton.mpr rfl))
  | conn | leave | pool | finish | services => exact hinv.of_eq rfl rfl rfl fun e he => he

/-- Sends and invocations belong together in every state of a run. -/
theorem sendInv_of_reachable {services : ServiceManager} {threads : Option (UInt64 × UInt32)}
    {s : Server} (h : Reachable step (init services threads) s) : SendInv s :=
  h.invariant ⟨.refl _, nofun, nofun⟩ fun _ _ _ hinv _ hs => (steps_of_step hs).sendInv hinv

/-! ## What the connections write -/

/-- Every frame of a connection is that of a `send` on it. -/
def FrameInv (s : Server) : Prop :=
  ∀ k, ∀ data ∈ (s.conns k).frames, ∃ x ∈ s.sends, x.conn = k ∧
    data = Connection.frame x.header x.body

/-- A connection takes a step, and what it sends is logged. -/
theorem FrameInv.of_step {s s' : Server} (hinv : FrameInv s) {j : Nat} {b : Connection.Act}
    {c : Connection} (hc : (s.conns j).step b = some c)
    (hconns : s'.conns = Function.update s.conns j c) (hsends : ∀ x ∈ s.sends, x ∈ s'.sends)
    (hnew : ∀ t header body, b = .send t header body → ∃ x ∈ s'.sends, x.conn = j ∧
      x.header = header ∧ x.body = body) : FrameInv s' := by
  intro k data hdata
  rw [hconns] at hdata
  have hold : data ∈ (s.conns k).frames → ∃ x ∈ s'.sends, x.conn = k ∧
      data = Connection.frame x.header x.body := by
    intro hmem
    obtain ⟨x, hx, hrest⟩ := hinv k data hmem
    exact ⟨x, hsends x hx, hrest⟩
  by_cases hk : k = j
  · subst hk
    rw [Function.update_self] at hdata
    -- a frame of this connection is old, or that of the `send` in this step
    obtain hmem | ⟨t, header, body, hb, hframe⟩ := (Connection.steps_of_step hc).frames hdata
    · exact hold hmem
    · obtain ⟨x, hx, hconn, rfl, rfl⟩ := hnew t header body hb
      exact ⟨x, hx, hconn, hframe⟩
  · rw [Function.update_of_ne hk] at hdata
    exact hold hdata

/-- Every step keeps the frames those of sends. -/
theorem Steps.frameInv {s s' : Server} {a : Act} (h : Steps s a s') (hinv : FrameInv s) :
    FrameInv s' := by
  cases h with
  | conn k b c hown hidle hc =>
    refine hinv.of_step hc rfl (fun x hx => hx) ?_
    rintro t header body rfl
    cases hown
  | refuse k job pool c hcur hnew hpool hstop hc =>
    exact hinv.of_step hc rfl (fun x hx => hx) nofun
  | leave k job c hcur hhandled hc => exact hinv.of_step hc rfl (fun x hx => hx) nofun
  | escapeInline n inv fault c hn hp hthread hfault hc =>
    exact hinv.of_step hc rfl (fun x hx => hx) nofun
  -- the frame is that of the send which is logged
  | send n inv services resp c hn hp hc =>
    refine hinv.of_step hc rfl (fun x hx => List.mem_append_left _ hx) ?_
    intro t header body heq
    obtain ⟨rfl, rfl, rfl⟩ := Connection.Act.send.inj heq
    exact ⟨_, List.mem_append_right _ (List.mem_singleton.mpr rfl), rfl, rfl, rfl⟩
  | submit | inline | pool | activate | finish | respond | escapeTask | done | services =>
    exact hinv

/-- The frames are those of sends in every state of a run. -/
theorem frameInv_of_reachable {services : ServiceManager} {threads : Option (UInt64 × UInt32)}
    {s : Server} (h : Reachable step (init services threads) s) : FrameInv s :=
  h.invariant nofun fun _ _ _ hinv _ hs => (steps_of_step hs).frameInv hinv

end Rpc.Server
