import Rpc.Spec.ServerCorrect

/-!
# One invocation at a time

Without a pool the io thread runs `process_request` itself, and a pool of one
worker runs the jobs in the order in which they were submitted.  In either case
(`Serial`) an invocation starts only when the one before it is over
(`SerialInv`), and `send` is entered by one thread at a time (`FrameOrder`).  So
the frames pushed on a connection answer its messages in the order in which they
arrived, whatever its peer and those of the other connections do:
`exists_inOrder`.
-/

namespace Rpc

open Transition

/-! ## A pool of one worker -/

namespace ThreadPool

variable {τ : Type}

/-- A step of a pool whose only worker is `w`: a task that runs is left only by
    `finish`, and a step that neither submits nor starts a task leaves the tasks
    not started alone. -/
def SingleStep (s : ThreadPool τ) (a : Act τ) (s' : ThreadPool τ) (w : Worker τ) : Prop :=
  ∃ w', s'.workers = [w'] ∧
    ((∀ i, a ≠ .finish i) → ∀ task, w = .running task → w' = .running task) ∧
    ((∀ job, a ≠ .enqueue job) → (∀ i, a ≠ .activate i) → s'.unstarted = s.unstarted)

/-- What a step does to a pool of one worker. -/
theorem Steps.single {s s' : ThreadPool τ} {a : Act τ} (h : Steps s a s') {w : Worker τ}
    (hw : s.workers = [w]) : SingleStep s a s' w := by
  -- a step of a worker is one of the only worker
  have hset : ∀ (i : Nat) (w₁ w₂ : Worker τ), s.workers[i]? = some w₁ →
      w₁ = w ∧ s.workers.set i w₂ = [w₂] := by
    intro i w₁ w₂ hi
    rw [hw] at hi
    cases i with
    | zero => exact ⟨(Option.some.inj hi).symm, by rw [hw]; rfl⟩
    | succ i => simp at hi
  -- a worker that holds no task before and after
  have hkeep : ∀ (i : Nat) (w₁ w₂ : Worker τ), s.workers[i]? = some w₁ →
      w₁.fetched = none → w₂.fetched = none → (∀ task, w₁ ≠ .running task) →
      s'.workers = s.workers.set i w₂ → s'.tasks = s.tasks → SingleStep s a s' w := by
    intro i w₁ w₂ hi hnone hnone' hrun hworkers htasks
    obtain ⟨rfl, hsingle⟩ := hset i w₁ w₂ hi
    refine ⟨w₂, hworkers.trans hsingle, fun _ task heq => absurd heq (hrun task), fun _ _ => ?_⟩
    rw [unstarted, unstarted, hworkers, hsingle, hw, htasks]
    simp [hnone, hnone']
  -- no worker moves
  have hsame : s'.workers = s.workers → s'.tasks = s.tasks → SingleStep s a s' w := by
    intro hworkers htasks
    refine ⟨w, hworkers.trans hw, fun _ task heq => heq, fun _ _ => ?_⟩
    rw [unstarted, unstarted, hworkers, htasks]
  have hwake : ∀ wakes, notifyWorker s.workers wakes = some s'.workers →
      s'.tasks = s.tasks → SingleStep s a s' w := by
    intro wakes hn htasks
    obtain ⟨-, heq⟩ | ⟨i, hi, heq⟩ := notifyWorker_cases hn
    · exact hsame heq htasks
    · exact hkeep i _ _ hi rfl rfl (fun _ => by simp) heq htasks
  cases h with
  | accept job hstop => exact ⟨w, hw, fun _ task heq => heq, fun hjob _ => absurd rfl (hjob job)⟩
  | pop i task tasks hi ht =>
    -- the task goes from the head of the queue into the worker's hand
    obtain ⟨rfl, hsingle⟩ := hset i _ (.popped task) hi
    refine ⟨_, hsingle, fun _ task heq => absurd heq (by simp), fun _ _ => ?_⟩
    show (s.workers.set i (.popped task)).filterMap Worker.fetched ++ tasks =
      s.workers.filterMap Worker.fetched ++ s.tasks
    rw [hsingle, hw, ht]
    rfl
  | activate i task hi =>
    obtain ⟨rfl, hsingle⟩ := hset i _ (.running task) hi
    exact ⟨_, hsingle, fun _ task heq => absurd heq (by simp),
      fun _ hact => absurd rfl (hact i)⟩
  | finish i task hi =>
    obtain ⟨rfl, hsingle⟩ := hset i _ (.ran task) hi
    refine ⟨_, hsingle, fun hfin => absurd rfl (hfin i), fun _ _ => ?_⟩
    show (s.workers.set i (.ran task)).filterMap Worker.fetched ++ s.tasks = _
    rw [unstarted, hsingle, hw]
    rfl
  | notifyAll hdes =>
    refine ⟨if w.isBlocked then .checking else w, by simp [hw], ?_, fun _ _ => ?_⟩
    · rintro - task rfl
      rfl
    · rw [unstarted, unstarted, hw]
      cases w <;> rfl
  | notifyOne id wakes workers hid hn => exact hwake wakes hn rfl
  | wakeWorker i workers hn => exact hwake (some i) hn rfl
  | exit i hi | sleep i hi | deactivate i task hi | count i task hi | settle i task hi
  | notifyDrain i wakes drainers hi =>
    exact hkeep i _ _ hi rfl rfl (fun _ => by simp) rfl rfl
  | reject | drain | drainReturn | drainStay | drainSleep | setStop | join | wakeDrainer =>
    exact hsame rfl rfl

/-- The only worker starts the first of the tasks not started. -/
theorem unstarted_activate_single {s s' : ThreadPool τ} {i : Nat} {task : Task τ} {w : Worker τ}
    (hw : s.workers = [w]) (hi : s.workers[i]? = some (.popped task))
    (h : s.step (.activate i) = some s') :
    i = 0 ∧ s'.workers = [.running task] ∧ s.unstarted = task :: s'.unstarted := by
  simp only [step, hi] at h
  obtain rfl := Option.some.inj h
  rw [hw] at hi
  cases i with
  | zero =>
    obtain rfl := Option.some.inj hi
    refine ⟨rfl, by rw [hw]; rfl, ?_⟩
    show s.workers.filterMap Worker.fetched ++ s.tasks =
      task :: ((s.workers.set 0 (.running task)).filterMap Worker.fetched ++ s.tasks)
    rw [hw]
    rfl
  | succ i => simp at hi

end ThreadPool

/-! ## The invocations -/

namespace Server

/-- There is no pool, or it has one worker. -/
def Serial (threads : Option (UInt64 × UInt32)) : Prop :=
  ∀ p ∈ threads, ThreadPool.numThreads p.1 p.2 = 1

instance : (threads : Option (UInt64 × UInt32)) → Decidable (Serial threads)
  | none => .isTrue nofun
  | some p => decidable_of_iff (ThreadPool.numThreads p.1 p.2 = 1)
      ⟨fun h _ hp => Option.some.inj hp ▸ h, fun h => h p rfl⟩

/-- Invocations run one after the other, in the order in which the messages were
    accepted, and each sends before the next one starts. -/
structure SerialInv (s : Server) : Prop where
  single : ∀ pool, s.pool = some pool → ∃ w, pool.workers = [w] ∧
    ∀ inv ∈ s.invocations, inv.progress.isOver = false → ∃ task, w = .running task
  thread : ∀ inv ∈ s.invocations, ∀ i, inv.thread = some i → i = 0
  last : s.invocations.Pairwise fun inv _ => inv.progress.isOver = true
  order : s.invocations.map (fun inv => inv.job.id) ++ s.waiting.map Job.id = s.acceptedIds
  sends : s.sends = s.invocations.filterMap Invocation.sent

/-- An invocation that is not over is the last one. -/
theorem SerialInv.split {s : Server} (hinv : SerialInv s) {n : Nat} {inv : Invocation}
    (hn : s.invocations[n]? = some inv) (hrun : inv.progress.isOver = false) :
    s.invocations = s.invocations.take n ++ [inv] ∧
      ∀ progress, s.setProgress n inv progress =
        s.invocations.take n ++ [{ inv with progress }] := by
  obtain ⟨hlt, hget⟩ := List.getElem?_eq_some_iff.mp hn
  have hcut : s.invocations = s.invocations.take n ++ inv :: s.invocations.drop (n + 1) := by
    rw [← hget, List.getElem_cons_drop, List.take_append_drop]
  have hlast := hinv.last
  rw [hcut] at hlast
  -- those after it would find it over
  have hafter := (List.pairwise_cons.mp (List.pairwise_append.mp hlast).2.1).1
  have hnil : s.invocations.drop (n + 1) = [] := by
    apply List.eq_nil_iff_forall_not_mem.mpr
    intro inv' hmem
    rw [hafter inv' hmem] at hrun
    cases hrun
  rw [hnil] at hcut
  refine ⟨hcut, fun progress => ?_⟩
  rw [setProgress, List.set_eq_take_append_cons_drop, if_pos hlt, hnil]

/-- The body of a task has returned when the task has. -/
theorem over_of_finish {s s' : Server} {i : Nat} (h : s.step (.finish i) = some s') :
    ∀ inv ∈ s.invocations, inv.thread = some i → inv.progress.isOver = true := by
  simp only [step] at h
  split at h
  · split at h
    · rename_i hall
      intro inv hmem hthread
      have hguard := List.all_eq_true.mp hall inv hmem
      simpa [hthread] using hguard
    · cases h
  · cases h

/-- A step that leaves the pool and the invocations alone. -/
theorem SerialInv.of_eq {s s' : Server} (hinv : SerialInv s)
    (hinvs : s'.invocations = s.invocations) (hpool : s'.pool = s.pool)
    (haccepted : s'.acceptedIds = s.acceptedIds) (hsends : s'.sends = s.sends) :
    SerialInv s' := by
  constructor
  · rw [hpool, hinvs]
    exact hinv.single
  · rw [hinvs]
    exact hinv.thread
  · rw [hinvs]
    exact hinv.last
  · rw [waiting, hpool, hinvs, haccepted]
    exact hinv.order
  · rw [hsends, hinvs]
    exact hinv.sends

/-- A step of the pool that starts no task; `jobs` are submitted. -/
theorem SerialInv.of_pool {s s' : Server} (hinv : SerialInv s) {pool' : ThreadPool Job}
    {w : ThreadPool.Worker Job} (jobs : List Job) (hpool' : s'.pool = some pool')
    (hw : pool'.workers = [w])
    (hrun : ∀ inv ∈ s.invocations, inv.progress.isOver = false → ∃ task, w = .running task)
    (hwaiting : s'.waiting = s.waiting ++ jobs)
    (haccepted : s'.acceptedIds = s.acceptedIds ++ jobs.map Job.id)
    (hinvs : s'.invocations = s.invocations) (hsends : s'.sends = s.sends) : SerialInv s' := by
  constructor
  · intro pool hpool
    obtain rfl : pool' = pool := Option.some.inj (hpool'.symm.trans hpool)
    rw [hinvs]
    exact ⟨w, hw, hrun⟩
  · rw [hinvs]
    exact hinv.thread
  · rw [hinvs]
    exact hinv.last
  · rw [hinvs, hwaiting, haccepted, List.map_append, ← List.append_assoc, hinv.order]
  · rw [hsends, hinvs]
    exact hinv.sends

/-- An invocation starts when all others are over. -/
theorem SerialInv.of_start {s s' : Server} (hinv : SerialInv s) {thread : ThreadId} {job : Job}
    (hover : ∀ inv ∈ s.invocations, inv.progress.isOver = true)
    (hinvs : s'.invocations = s.invocations ++ [{ thread, job, progress := .processing }])
    (hthread : ∀ i, thread = some i → i = 0)
    (hpool : ∀ pool, s'.pool = some pool → ∃ task, pool.workers = [.running task])
    (horder : s.invocations.map (fun inv => inv.job.id) ++ job.id :: s'.waiting.map Job.id =
      s'.acceptedIds)
    (hsends : s'.sends = s.sends) : SerialInv s' := by
  constructor
  · intro pool hpool'
    obtain ⟨task, hw⟩ := hpool pool hpool'
    exact ⟨_, hw, fun _ _ _ => ⟨task, rfl⟩⟩
  · rw [hinvs]
    intro inv hmem i hi
    obtain hmem | hmem := List.mem_append.mp hmem
    · exact hinv.thread inv hmem i hi
    · obtain rfl := List.mem_singleton.mp hmem
      exact hthread i hi
  · rw [hinvs]
    -- the new one is behind those that are over
    exact List.pairwise_append.mpr
      ⟨hinv.last, List.pairwise_singleton _ _, fun inv hmem _ _ => hover inv hmem⟩
  · rw [hinvs, List.map_append, List.append_assoc]
    exact horder
  · rw [hsends, hinvs, hinv.sends, List.filterMap_append]
    exact (List.append_nil _).symm

/-- The invocation in progress moves on; `sent` is what it sends. -/
theorem SerialInv.of_progress {s s' : Server} (hinv : SerialInv s) {n : Nat} {inv : Invocation}
    {progress : Progress} {sent : List Send} (hn : s.invocations[n]? = some inv)
    (hrun : inv.progress.isOver = false) (hinvs : s'.invocations = s.setProgress n inv progress)
    (hpool : s'.pool = s.pool) (hentered : s'.entered = s.entered)
    (hsends : s'.sends = s.sends ++ sent)
    (hsent : inv.sent.toList ++ sent = (Invocation.sent { inv with progress }).toList) :
    SerialInv s' := by
  have hmem := List.mem_of_getElem? hn
  obtain ⟨hsplit, hset⟩ := hinv.split hn hrun
  have hlast := hinv.last
  have horder := hinv.order
  have hold := hinv.sends
  rw [hsplit] at hlast horder hold
  constructor
  · intro pool hp
    obtain ⟨w, hw, hrunning⟩ := hinv.single pool (hpool ▸ hp)
    exact ⟨w, hw, fun _ _ _ => hrunning inv hmem hrun⟩
  · rw [hinvs]
    intro inv' hmem' i hi
    obtain hmem' | rfl := List.mem_or_eq_of_mem_set hmem'
    · exact hinv.thread inv' hmem' i hi
    · exact hinv.thread inv hmem i hi
  · rw [hinvs, hset]
    obtain ⟨hbefore, -, hover⟩ := List.pairwise_append.mp hlast
    exact List.pairwise_append.mpr ⟨hbefore, List.pairwise_singleton _ _,
      fun inv' hmem' _ _ => hover inv' hmem' inv (List.mem_singleton.mpr rfl)⟩
  · rw [hinvs, hset, waiting, hpool, acceptedIds, hentered]
    rw [List.map_append] at horder ⊢
    exact horder
  · -- only the last of the invocations has sent something new
    have hone : ∀ inv : Invocation, [inv].filterMap Invocation.sent = inv.sent.toList := by
      intro inv
      cases h : inv.sent <;> simp [h]
    rw [List.filterMap_append, hone] at hold
    rw [hinvs, hset, hsends, hold, List.filterMap_append, hone, List.append_assoc, hsent]

/-- On the io thread, a message is entered when all invocations are over. -/
theorem over_of_enter {s : Server} {k : Nat} {job : Job} (hflow : FlowInv s)
    (hinvoke : InvokeInv s) (hjobs : JobInv s) (hcur : s.current k = some job)
    (hnew : job.id ∉ s.entered.map Prod.fst) (hpool : s.pool = none) :
    ∀ inv ∈ s.invocations, inv.progress.isOver = true := by
  intro inv hmem
  cases hrun : inv.progress.isOver with
  | true => rfl
  | false =>
    -- its own message would be the one that the read handler is at
    have hthread := (hinvoke.thread inv hmem).mpr hpool
    obtain ⟨job', hcur', hid⟩ := current_of_running hflow hinvoke hjobs hmem hthread hrun
    have hin := (hflow.inMessage k job hcur).symm.trans (hflow.inMessage _ job' hcur')
    rw [← Option.some.inj hin, hcur] at hcur'
    obtain rfl := Option.some.inj hcur'
    have hentered := hjobs.accepted (mem_jobs_of_mem_invocations hmem)
    exact absurd (hid ▸ List.mem_map_of_mem hentered) hnew

/-- Every step keeps the invocations apart. -/
theorem SerialInv.step {s s' : Server} {a : Act} (h : s.step a = some s') (hflow : FlowInv s)
    (hinvoke : InvokeInv s) (hjobs : JobInv s) (hinv : SerialInv s) : SerialInv s' := by
  cases steps_of_step h with
  | conn | leave | services => exact hinv.of_eq rfl rfl rfl rfl
  | refuse k job pool c hcur hnew hpool hstop hc =>
    exact hinv.of_eq rfl rfl (acceptedIds_append_true rfl) rfl
  | submit k job pool pool' hcur hnew hpool henq hfree =>
    obtain ⟨w, hw, hrun⟩ := hinv.single pool hpool
    have hstep := ThreadPool.step_enqueue henq hfree
    obtain ⟨w', hw', hkeep, -⟩ := (ThreadPool.steps_of_step hstep).single hw
    refine hinv.of_pool [job] rfl hw' ?_ ?_ (acceptedIds_append_false rfl) rfl rfl
    · intro inv hmem hnot
      obtain ⟨task, htask⟩ := hrun inv hmem hnot
      exact ⟨task, hkeep (by simp) task htask⟩
    · show pool'.unstarted.map Task.job = _
      rw [ThreadPool.unstarted_enqueue henq, List.map_append, waiting, hpool]
      rfl
  | inline k job hcur hnew hpool =>
    refine hinv.of_start (over_of_enter hflow hinvoke hjobs hcur hnew hpool) rfl (by simp) ?_ ?_
      rfl
    · intro pool hp
      rw [hpool] at hp
      cases hp
    · -- nothing waits without a pool
      have hnone : s.waiting = [] := by rw [waiting, hpool]
      have horder := hinv.order
      rw [hnone, List.map_nil, List.append_nil] at horder
      rw [acceptedIds_append_false rfl, ← horder]
      show _ ++ job.id :: s.waiting.map Job.id = _
      rw [hnone]
      rfl
  | pool b pool pool' hown hpool hstep =>
    obtain ⟨w, hw, hrun⟩ := hinv.single pool hpool
    obtain ⟨w', hw', hkeep, hsame⟩ := (ThreadPool.steps_of_step hstep).single hw
    have hfin : ∀ i, b ≠ .finish i := by
      rintro i rfl
      cases hown
    refine hinv.of_pool [] rfl hw' ?_ ?_ (List.append_nil _).symm rfl rfl
    · intro inv hmem hnot
      obtain ⟨task, htask⟩ := hrun inv hmem hnot
      exact ⟨task, hkeep hfin task htask⟩
    · show pool'.unstarted.map Task.job = _
      rw [hsame (by rintro job rfl; cases hown) (by rintro i rfl; cases hown), waiting, hpool,
        List.append_nil]
  | activate i pool pool' task hpool hwi hstep =>
    obtain ⟨w, hw, hrun⟩ := hinv.single pool hpool
    obtain ⟨rfl, hw', hunstarted⟩ := ThreadPool.unstarted_activate_single hw hwi hstep
    -- the worker has popped its task, and so does not run one
    have hover : ∀ inv ∈ s.invocations, inv.progress.isOver = true := by
      intro inv hmem
      cases hnot : inv.progress.isOver with
      | true => rfl
      | false =>
        obtain ⟨task', rfl⟩ := hrun inv hmem hnot
        rw [hw] at hwi
        cases hwi
    refine hinv.of_start hover rfl (fun i hi => (Option.some.inj hi).symm) ?_ ?_ rfl
    · intro p hp
      obtain rfl : pool' = p := Option.some.inj hp
      exact ⟨task, hw'⟩
    · have hwaiting : s.waiting = task.job :: pool'.unstarted.map Task.job := by
        rw [waiting, hpool]
        exact congrArg (List.map Task.job) hunstarted
      have horder := hinv.order
      rw [hwaiting] at horder
      exact horder
  | finish i pool pool' hpool hstep =>
    obtain ⟨w, hw, hrun⟩ := hinv.single pool hpool
    obtain ⟨w', hw', -, hsame⟩ := (ThreadPool.steps_of_step hstep).single hw
    refine hinv.of_pool [] rfl hw' ?_ ?_ (List.append_nil _).symm rfl rfl
    · -- all invocations are those of the worker that finishes
      intro inv hmem hnot
      have hi : i = 0 := by
        cases ThreadPool.steps_of_step hstep with
        | finish i task' hi =>
          have hlt := (List.getElem?_eq_some_iff.mp hi).1
          rw [hw, List.length_singleton] at hlt
          omega
      cases hthread : inv.thread with
      | none =>
        have hnone := (hinvoke.thread inv hmem).mp hthread
        rw [hpool] at hnone
        cases hnone
      | some j =>
        obtain rfl := hinv.thread inv hmem j hthread
        rw [over_of_finish h inv hmem (hi ▸ hthread)] at hnot
        cases hnot
    · show pool'.unstarted.map Task.job = _
      rw [hsame (by simp) (by simp), waiting, hpool, List.append_nil]
  | respond n inv resp hn hp hresp =>
    exact hinv.of_progress hn (by rw [hp]; rfl) rfl rfl rfl (List.append_nil _).symm
      (by simp [Invocation.sent, hp])
  | escapeTask n inv fault hn hp hthread hfault =>
    exact hinv.of_progress hn (by rw [hp]; rfl) rfl rfl rfl (List.append_nil _).symm
      (by simp [Invocation.sent, hp])
  | escapeInline n inv fault c hn hp hthread hfault hc =>
    exact hinv.of_progress hn (by rw [hp]; rfl) rfl rfl rfl (List.append_nil _).symm
      (by simp [Invocation.sent, hp])
  | send n inv services resp c hn hp hc =>
    exact hinv.of_progress hn (by rw [hp]; rfl) rfl rfl rfl rfl (by simp [Invocation.sent, hp])
  | done n inv services resp hn hp hout =>
    exact hinv.of_progress hn (by rw [hp]; rfl) rfl rfl rfl (List.append_nil _).symm
      (by simp [Invocation.sent, hp])

/-- Without a pool, or with one worker, invocations do not overlap. -/
theorem serialInv_of_reachable {services : ServiceManager} {threads : Option (UInt64 × UInt32)}
    {s : Server} (hserial : Serial threads) (h : Reachable step (init services threads) s) :
    SerialInv s := by
  apply h.invariant_with (I := fun s => (FlowInv s ∧ InvokeInv s) ∧ JobInv s)
  · intro s hs
    exact ⟨flowInv_of_reachable hs, jobInv_of_reachable hs⟩
  -- at the start the only worker has no task
  · constructor
    · intro pool hpool
      obtain ⟨p, hp, rfl⟩ := Option.map_eq_some_iff.mp hpool
      refine ⟨.checking, ?_, nofun⟩
      show List.replicate (ThreadPool.numThreads p.1 p.2).toNat _ = _
      rw [hserial p hp]
      rfl
    · nofun
    · exact .nil
    · cases threads with
      | none => rfl
      | some p => simp [init, waiting, acceptedIds, ThreadPool.init, ThreadPool.unstarted,
          ThreadPool.Worker.fetched]
    · rfl
  · intro s a s' hI hinv _ hs
    exact hinv.step hs hI.1.1 hI.1.2 hI.2

/-! ## The frames of a connection -/

/-- What was sent on connection `k`, in order. -/
def sentTo (s : Server) (k : Nat) : List Send := s.sends.filter fun x => x.conn = k

/-- An invocation on thread `t` is inside of `send` on connection `k`. -/
def InSend (s : Server) (k : Nat) (t : ThreadId) : Prop :=
  ∃ inv ∈ s.invocations, inv.job.conn = k ∧ inv.thread = t ∧
    ∃ services resp, inv.progress = .sending services resp

/-- The frames of a connection are in the order of the sends, except for those of
    threads that found it closed; one thread at a time is inside of `send`. -/
structure FrameOrder (s : Server) : Prop where
  frames : ∀ k, ((s.conns k).writes.pushed ++ (s.conns k).sending.map Prod.snd).Sublist
    ((s.sentTo k).map fun x => Connection.frame x.header x.body)
  inside : ∀ k, ∀ p ∈ (s.conns k).sending, s.InSend k p.1
  one : ∀ k, (s.conns k).sending.length ≤ 1

end Server

/-- A step other than `send` keeps the frames of a connection in order. -/
theorem Connection.Steps.order {c c' : Connection} {a : Connection.Act}
    (h : Connection.Steps c a c') (hone : c.sending.length ≤ 1)
    (hsend : ∀ t header body, a ≠ .send t header body) :
    c'.writes.pushed ++ c'.sending.map Prod.snd = c.writes.pushed ++ c.sending.map Prod.snd ∧
      c'.sending.Sublist c.sending := by
  have hsame : c'.sending = c.sending → c'.writes.pushed = c.writes.pushed →
      c'.writes.pushed ++ c'.sending.map Prod.snd = c.writes.pushed ++ c.sending.map Prod.snd ∧
        c'.sending.Sublist c.sending := by
    intro hsending hpushed
    rw [hsending, hpushed]
    exact ⟨rfl, .refl _⟩
  cases h with
  | sendClosed t header body => exact absurd rfl (hsend t header body)
  | send t header body => exact absurd rfl (hsend t header body)
  | push t data hmem =>
    -- the only frame inside of `send` becomes the last one pushed
    obtain ⟨p, hp⟩ := List.length_eq_one_iff.mp
      (Nat.le_antisymm hone (List.length_pos_of_mem hmem))
    rw [hp] at hmem
    obtain rfl := List.mem_singleton.mp hmem
    constructor
    · show (c.writes.pushed ++ [data]) ++ (c.sending.erase (t, data)).map Prod.snd = _
      rw [hp, List.erase_cons_head]
      exact List.append_nil _
    · exact List.erase_sublist
  | pop t w hw => exact hsame rfl (WriteChain.pop_history hw).2.1
  | startWrite t data w hw => exact hsame rfl (WriteChain.start_history hw).2.1
  | writeDone data w hw => exact hsame rfl (WriteChain.complete_history hw).2.1
  | writeError data w hw =>
    exact hsame (Connection.closeOnce_sending c) (WriteChain.abort_pushed hw)
  | readEnded a hread =>
    exact hsame (Connection.closeOnce_sending c)
      (congrArg WriteChain.pushed (Connection.closeOnce_writes c))
  | _ => exact hsame rfl rfl

namespace Server

/-- An invocation that moves on without leaving `send` on this connection. -/
theorem InSend.setProgress {s s' : Server} {k : Nat} {t : ThreadId} (h : s.InSend k t) {n : Nat}
    {inv : Invocation} {progress : Progress} (hn : s.invocations[n]? = some inv)
    (hout : inv.job.conn = k → inv.thread = t →
      ∀ services resp, inv.progress ≠ .sending services resp)
    (hinvs : s'.invocations = s.setProgress n inv progress) : s'.InSend k t := by
  obtain ⟨inv', hmem, hconn, hthread, services, resp, hprog⟩ := h
  refine ⟨inv', hinvs ▸ List.mem_set_of_ne _ hmem hn ?_, hconn, hthread, services, resp, hprog⟩
  rintro rfl
  exact hout hconn hthread services resp hprog

/-- A step of connection `j` other than `send`. -/
theorem FrameOrder.of_conn {s s' : Server} (hinv : FrameOrder s) {j : Nat} {b : Connection.Act}
    {c : Connection} (hc : (s.conns j).step b = some c)
    (hsend : ∀ t header body, b ≠ .send t header body)
    (hconns : s'.conns = Function.update s.conns j c) (hsends : s'.sends = s.sends)
    (hinside : ∀ k, ∀ p ∈ (s.conns k).sending, s'.InSend k p.1) : FrameOrder s' := by
  have horder := (Connection.steps_of_step hc).order (hinv.one j) hsend
  have hall : ∀ k, (s'.conns k).writes.pushed ++ (s'.conns k).sending.map Prod.snd =
      (s.conns k).writes.pushed ++ (s.conns k).sending.map Prod.snd ∧
        (s'.conns k).sending.Sublist (s.conns k).sending := by
    intro k
    rw [hconns]
    by_cases hk : k = j
    · subst hk
      rw [Function.update_self]
      exact horder
    · rw [Function.update_of_ne hk]
      exact ⟨rfl, .refl _⟩
  constructor
  · intro k
    rw [(hall k).1, sentTo, hsends]
    exact hinv.frames k
  · intro k p hp
    exact hinside k p ((hall k).2.subset hp)
  · intro k
    exact (hall k).2.length_le.trans (hinv.one k)

/-- A step that leaves the connections and the sends alone. -/
theorem FrameOrder.of_eq {s s' : Server} (hinv : FrameOrder s) (hconns : s'.conns = s.conns)
    (hsends : s'.sends = s.sends)
    (hinside : ∀ k, ∀ p ∈ (s.conns k).sending, s'.InSend k p.1) : FrameOrder s' := by
  constructor
  · rw [hconns]
    intro k
    rw [sentTo, hsends]
    exact hinv.frames k
  · rw [hconns]
    exact hinside
  · rw [hconns]
    exact hinv.one

/-- The invocation in progress calls `send` on a connection that no thread is inside of. -/
theorem FrameOrder.send {s : Server} (hserial : SerialInv s) (hinv : FrameOrder s) {n : Nat}
    {inv : Invocation} {services : ServiceManager} {resp : RpcResponse} {c : Connection}
    (hn : s.invocations[n]? = some inv) (hprog : inv.progress = .responding services resp)
    (hc : (s.conns inv.job.conn).step (.send inv.thread (sendResponse inv.job.header resp).1
      (sendResponse inv.job.header resp).2) = some c) :
    FrameOrder { s.setConn inv.job.conn c with
      invocations := s.setProgress n inv (.sending services resp)
      sends := s.sends ++
        [{ id := inv.job.id, conn := inv.job.conn,
           header := (sendResponse inv.job.header resp).1,
           body := (sendResponse inv.job.header resp).2 }] } := by
  -- another thread inside of `send` would be another invocation in progress
  have hempty : ∀ k, (s.conns k).sending = [] := by
    intro k
    apply List.eq_nil_iff_forall_not_mem.mpr
    intro p hp
    obtain ⟨inv', hmem, -, -, services', resp', hprog'⟩ := hinv.inside k p hp
    obtain ⟨n', hn'⟩ := List.mem_iff_getElem?.mp hmem
    have hsplit := (hserial.split hn (by rw [hprog]; rfl)).1
    have hsplit' := (hserial.split hn' (by rw [hprog']; rfl)).1
    have heq : s.invocations.getLast? = some inv := by rw [hsplit, List.getLast?_concat]
    have heq' : s.invocations.getLast? = some inv' := by rw [hsplit', List.getLast?_concat]
    obtain rfl := Option.some.inj (heq.symm.trans heq')
    rw [hprog] at hprog'
    cases hprog'
  have hlt := (List.getElem?_eq_some_iff.mp hn).1
  have hpushed : ∀ k, (s.conns k).writes.pushed.Sublist
      ((s.sentTo k).map fun x => Connection.frame x.header x.body) := by
    intro k
    have hframes := hinv.frames k
    rw [hempty k, List.map_nil, List.append_nil] at hframes
    exact hframes
  -- what the connection holds after the step: the new frame, unless it is closed
  have hnew : c.writes = (s.conns inv.job.conn).writes ∧ (c.sending = [] ∨
      c.sending = [(inv.thread, Connection.frame (sendResponse inv.job.header resp).1
        (sendResponse inv.job.header resp).2)]) := by
    cases Connection.steps_of_step hc with
    | sendClosed => exact ⟨rfl, .inl (hempty _)⟩
    | send t header body hclosed => exact ⟨rfl, .inr (by rw [hempty])⟩
    | readEnded a hread => simp at hread
  constructor
  · intro k
    show ((Function.update s.conns inv.job.conn c k).writes.pushed ++
      (Function.update s.conns inv.job.conn c k).sending.map Prod.snd).Sublist
      (((s.sends ++ [_]).filter fun x : Send => x.conn = k).map _)
    rw [List.filter_append, List.map_append]
    by_cases hk : k = inv.job.conn
    · subst hk
      rw [Function.update_self, hnew.1, List.filter_cons_of_pos (by simp)]
      obtain hsending | hsending := hnew.2
      · rw [hsending, List.map_nil, List.append_nil]
        exact (hpushed _).trans (List.sublist_append_left _ _)
      · rw [hsending]
        exact (hpushed _).append (.refl _)
    · rw [Function.update_of_ne hk, hempty k, List.map_nil, List.append_nil]
      exact (hpushed k).trans (List.sublist_append_left _ _)
  · intro k p hp
    by_cases hk : k = inv.job.conn
    · subst hk
      have hp : p ∈ (Function.update s.conns inv.job.conn c inv.job.conn).sending := hp
      rw [Function.update_self] at hp
      obtain hsending | hsending := hnew.2
      · rw [hsending] at hp
        cases hp
      · rw [hsending] at hp
        obtain rfl := List.mem_singleton.mp hp
        exact ⟨_, List.mem_set hlt _, rfl, rfl, services, resp, rfl⟩
    · have hp : p ∈ (Function.update s.conns inv.job.conn c k).sending := hp
      rw [Function.update_of_ne hk, hempty k] at hp
      cases hp
  · intro k
    show (Function.update s.conns inv.job.conn c k).sending.length ≤ 1
    by_cases hk : k = inv.job.conn
    · subst hk
      rw [Function.update_self]
      obtain hsending | hsending := hnew.2 <;> simp [hsending]
    · rw [Function.update_of_ne hk, hempty k]
      exact Nat.zero_le 1

/-- Every step keeps the frames in order. -/
theorem Steps.frameOrder {s s' : Server} {a : Act} (h : Steps s a s') (hserial : SerialInv s)
    (hinv : FrameOrder s) : FrameOrder s' := by
  -- a new invocation takes nobody out of `send`
  have happend : ∀ (new : Invocation), s'.invocations = s.invocations ++ [new] →
      ∀ k, ∀ p ∈ (s.conns k).sending, s'.InSend k p.1 := by
    intro new hinvs k p hp
    obtain ⟨inv, hmem, hrest⟩ := hinv.inside k p hp
    exact ⟨inv, hinvs ▸ List.mem_append_left _ hmem, hrest⟩
  have hprog : ∀ {n : Nat} {inv : Invocation} {progress : Progress},
      s.invocations[n]? = some inv → (∀ services resp, inv.progress ≠ .sending services resp) →
      s'.invocations = s.setProgress n inv progress →
      ∀ k, ∀ p ∈ (s.conns k).sending, s'.InSend k p.1 := by
    intro n inv progress hn hout hinvs k p hp
    exact (hinv.inside k p hp).setProgress hn (fun _ _ => hout) hinvs
  cases h with
  | conn k b c hown hidle hc =>
    refine hinv.of_conn hc ?_ rfl rfl hinv.inside
    rintro t header body rfl
    cases hown
  | refuse k job pool c hcur hnew hpool hstop hc =>
    exact hinv.of_conn hc (by simp) rfl rfl hinv.inside
  | leave k job c hcur hhandled hc => exact hinv.of_conn hc (by simp) rfl rfl hinv.inside
  | escapeInline n inv fault c hn hp hthread hfault hc =>
    exact hinv.of_conn hc (by simp) rfl rfl (hprog hn (by simp [hp]) rfl)
  | send n inv services resp c hn hp hc => exact hinv.send hserial hn hp hc
  | done n inv services resp hn hp hout =>
    refine hinv.of_eq rfl rfl ?_
    intro k p hmem
    -- a thread that is inside of `send` does not return
    refine (hinv.inside k p hmem).setProgress hn ?_ rfl
    rintro rfl hthread
    simp only [outsideSend, Bool.and_eq_true, List.all_eq_true] at hout
    have hne := hout.1 p hmem
    exact absurd hthread.symm (of_decide_eq_true hne)
  | inline k job hcur hnew hpool => exact hinv.of_eq rfl rfl (happend _ rfl)
  | activate i pool pool' task hpool hw hstep => exact hinv.of_eq rfl rfl (happend _ rfl)
  | respond n inv resp hn hp hresp => exact hinv.of_eq rfl rfl (hprog hn (by simp [hp]) rfl)
  | escapeTask n inv fault hn hp hthread hfault =>
    exact hinv.of_eq rfl rfl (hprog hn (by simp [hp]) rfl)
  | submit | pool | finish | services => exact hinv.of_eq rfl rfl hinv.inside

/-- Without a pool, or with one worker, frames are in the order of the sends. -/
theorem frameOrder_of_reachable {services : ServiceManager}
    {threads : Option (UInt64 × UInt32)} {s : Server} (hserial : Serial threads)
    (h : Reachable step (init services threads) s) : FrameOrder s := by
  apply h.invariant_with (I := SerialInv)
  · exact fun s hs => serialInv_of_reachable hserial hs
  · exact ⟨fun k => .refl _, nofun, fun k => Nat.zero_le 1⟩
  · exact fun s a s' hserial hinv _ hs => (steps_of_step hs).frameOrder hserial hinv

/-! ## The order of the messages -/

/-- The messages of a connection are entered in the order of their arrival. -/
structure EnteredInv (s : Server) : Prop where
  delivered : ∀ e ∈ s.entered, e.1.2 < (s.conns e.1.1).delivered.length
  increasing : s.entered.Pairwise fun e e' => e.1.1 = e'.1.1 → e.1.2 < e'.1.2

/-- What has been delivered on a connection does not become less. -/
theorem Steps.delivered_length {s s' : Server} {a : Act} (h : Steps s a s') (k : Nat) :
    (s.conns k).delivered.length ≤ (s'.conns k).delivered.length := by
  obtain heq | ⟨b, hb⟩ := h.conns k
  · rw [heq]
  · exact (Connection.steps_of_step hb).delivered.length_le

/-- Every step keeps the order of arrival. -/
theorem Steps.enteredInv {s s' : Server} {a : Act} (h : Steps s a s')
    (hconns : ∀ k, Connection.HandlingInv (s.conns k)) (hinv : EnteredInv s) : EnteredInv s' := by
  have hold : ∀ e ∈ s.entered, e.1.2 < (s'.conns e.1.1).delivered.length := by
    intro e he
    exact (hinv.delivered e he).trans_le (h.delivered_length _)
  have hsame : s'.entered = s.entered → EnteredInv s' := by
    intro hentered
    exact ⟨hentered ▸ hold, hentered ▸ hinv.increasing⟩
  -- a new message is the last one delivered on its connection
  have hnew : ∀ (k : Nat) (job : Job) (stopped : Bool), s.current k = some job →
      job.id ∉ s.entered.map Prod.fst → s'.entered = s.entered ++ [(job.id, stopped)] →
      EnteredInv s' := by
    intro k job stopped hcur hnew hentered
    obtain ⟨hconn, hdel⟩ := current_delivered (hconns k) hcur
    have hlt := (List.getElem?_eq_some_iff.mp hdel).1
    have hlast : job.index = (s.conns k).delivered.length - 1 :=
      congrArg Prod.snd (current_conn hcur)
    constructor
    · rw [hentered]
      intro e he
      obtain he | he := List.mem_append.mp he
      · exact hold e he
      · obtain rfl := List.mem_singleton.mp he
        exact hlt.trans_le (h.delivered_length _)
    · rw [hentered]
      refine List.pairwise_append.mpr ⟨hinv.increasing, List.pairwise_singleton _ _, ?_⟩
      intro e he e' he' hk
      obtain rfl := List.mem_singleton.mp he'
      have hbound := hinv.delivered e he
      have hne : e.1.2 ≠ job.index := by
        intro heq
        exact hnew (List.mem_map.mpr ⟨e, he, Prod.ext hk heq⟩)
      have hk : e.1.1 = job.conn := hk
      rw [hk, hconn] at hbound
      show e.1.2 < job.index
      omega
  cases h with
  | submit k job pool pool' hcur hnotIn hpool henq => exact hnew k job false hcur hnotIn rfl
  | refuse k job pool c hcur hnotIn hpool hstop hc => exact hnew k job true hcur hnotIn rfl
  | inline k job hcur hnotIn hpool => exact hnew k job false hcur hnotIn rfl
  | _ => exact hsame rfl

/-- In every state messages have been entered in the order of their arrival. -/
theorem enteredInv_of_reachable {services : ServiceManager}
    {threads : Option (UInt64 × UInt32)} {s : Server}
    (h : Reachable step (init services threads) s) : EnteredInv s := by
  apply h.invariant_with (I := fun s => ∀ k, Connection.HandlingInv (s.conns k))
  · exact fun s hs k => Connection.handlingInv_of_reachable (conn_reachable hs k)
  · exact ⟨nofun, .nil⟩
  · exact fun s a s' hconns hinv _ hs => (steps_of_step hs).enteredInv hconns hinv

end Server

/-- The sequence number in the header of a frame. -/
def frameSeqId (data : Bytes) : UInt32 :=
  match deserializeHeader (data.take 20) with
  | .ok header => header.seqId
  | .error _ => 0

/-- It is the one of the header that the frame was made with. -/
theorem frameSeqId_frame (header : RpcHeader) (body : Bytes) :
    frameSeqId (Connection.frame header body) = header.seqId := by
  have htake : (serializeHeader header ++ body).take 20 = serializeHeader header :=
    List.take_left' (serializeHeader_length header)
  rw [frameSeqId, Connection.frame, htake, deserializeHeader_serializeHeader]

namespace Server

/-- What the invocations have sent on a connection was sent by those for its messages. -/
theorem filter_sent (k : Nat) (invs : List Invocation) :
    ((invs.filterMap Invocation.sent).filter fun x => x.conn = k) =
      (invs.filter fun inv => inv.job.conn = k).filterMap Invocation.sent := by
  rw [List.filter_filterMap, List.filterMap_filter]
  apply List.filterMap_congr
  intro inv _
  cases hsent : inv.sent with
  | none => simp
  | some x =>
    obtain ⟨-, hconn, -⟩ := Invocation.sent_eq hsent
    simp [Option.filter, hconn]

/-- A message, and a response to it. -/
structure Reply where
  job : Job
  resp : RpcResponse

/-- Its frame. -/
def Reply.frame (a : Reply) : Bytes :=
  Connection.frame (sendResponse a.job.header a.resp).1 (sendResponse a.job.header a.resp).2

/-- The reply that an invocation has sent. -/
def Invocation.reply (inv : Invocation) : Option Reply :=
  match inv.progress with
  | .sending _ resp | .returned _ resp => some { job := inv.job, resp }
  | .processing | .responding .. | .escaped _ => none

/-- What an invocation sends is the frame of its reply. -/
theorem Invocation.sent_frame (inv : Invocation) :
    (inv.sent.map fun x => Connection.frame x.header x.body) = inv.reply.map Reply.frame := by
  unfold sent reply
  cases inv.progress <;> rfl

/-- The reply is to the message of the invocation, and is what `process_request` has returned
    for it. -/
theorem Invocation.Proper.reply {inv : Invocation} (hproper : inv.Proper) {a : Reply}
    (ha : inv.reply = some a) : inv.job = a.job ∧ ∃ services,
      inv.progress.services = some services ∧
        processRequest services a.job.header a.job.body = .ok a.resp := by
  unfold Invocation.Proper at hproper
  unfold Invocation.reply at ha
  cases hp : inv.progress with
  | processing | responding | escaped =>
    rw [hp] at ha
    cases ha
  | sending services resp | returned services resp =>
    rw [hp] at ha hproper
    obtain rfl := Option.some.inj ha
    exact ⟨rfl, services, rfl, hproper⟩

/-- The frames pushed on connection `k` are those of some replies, in this order: each is what
    `process_request` has returned for a message delivered there, and is to a later message than
    the replies before it. -/
structure InOrder (s : Server) (k : Nat) (replies : List Reply) : Prop where
  frames : (s.conns k).writes.pushed = replies.map Reply.frame
  messages : ∀ a ∈ replies, a.job.conn = k ∧
    (s.conns k).delivered[a.job.index]? = some (a.job.header, a.job.body)
  /-- with the services that were registered then -/
  outcomes : ∀ a ∈ replies, ∃ inv ∈ s.invocations, inv.job = a.job ∧ ∃ services,
    inv.progress.services = some services ∧
      processRequest services a.job.header a.job.body = .ok a.resp
  increasing : replies.Pairwise fun a b => a.job.index < b.job.index

/-- The frames carry the sequence numbers of the messages, in their order and each at most
    once. -/
theorem InOrder.seqIds {s : Server} {k : Nat} {replies : List Reply} (h : s.InOrder k replies) :
    ((s.conns k).writes.pushed.map frameSeqId).Sublist
      ((s.conns k).delivered.map fun m => m.1.seqId) := by
  have hseq : (replies.map Reply.frame).map frameSeqId =
      replies.map fun a => a.job.header.seqId := by
    rw [List.map_map]
    apply List.map_congr_left
    intro a _
    rw [Function.comp_apply, Reply.frame, frameSeqId_frame]
    rfl
  rw [h.frames, hseq]
  apply List.map_sublist_of_increasing (fun a : Reply => a.job.index)
    (fun a => a.job.header.seqId)
  · intro a hmem
    rw [List.getElem?_map, (h.messages a hmem).2, Option.map_some]
  · exact h.increasing

section

variable {services : ServiceManager} {threads : Option (UInt64 × UInt32)} {s : Server}

/-- The invocations for a connection are in the order of its messages. -/
theorem invocations_increasing (hserial : Serial threads)
    (h : Reachable step (init services threads) s) (k : Nat) :
    (s.invocations.filter fun inv => inv.job.conn = k).Pairwise
      fun inv inv' => inv.job.index < inv'.job.index := by
  -- they were accepted in that order
  have haccepted : s.acceptedIds.Pairwise fun id id' => id.1 = id'.1 → id.2 < id'.2 :=
    List.pairwise_map.mpr ((enteredInv_of_reachable h).increasing.filter _)
  have hids : (s.invocations.map fun inv => inv.job.id).Pairwise
      fun id id' => id.1 = id'.1 → id.2 < id'.2 := by
    rw [← (serialInv_of_reachable hserial h).order] at haccepted
    exact (List.pairwise_append.mp haccepted).1
  refine ((List.pairwise_map.mp hids).filter _).imp_of_mem ?_
  intro inv inv' hmem hmem' hlt
  have hconn := of_decide_eq_true (List.mem_filter.mp hmem).2
  have hconn' := of_decide_eq_true (List.mem_filter.mp hmem').2
  exact hlt (hconn.trans hconn'.symm)

/-- The frames pushed on a connection answer its messages in the order of their arrival. -/
theorem exists_inOrder (hserial : Serial threads) (h : Reachable step (init services threads) s)
    (k : Nat) : ∃ replies, s.InOrder k replies := by
  let invs := s.invocations.filter fun inv => inv.job.conn = k
  -- the frames are those of sends, and the sends those of the invocations
  have hpushed := (List.sublist_append_left _ _).trans
    ((frameOrder_of_reachable hserial h).frames k)
  have hframes : ((s.sentTo k).map fun x => Connection.frame x.header x.body) =
      (invs.filterMap Invocation.reply).map Reply.frame := by
    rw [sentTo, (serialInv_of_reachable hserial h).sends, filter_sent, List.map_filterMap,
      List.map_filterMap]
    simp only [Invocation.sent_frame, invs]
  rw [hframes] at hpushed
  obtain ⟨replies, hsub, hpushed⟩ := List.sublist_map_iff.mp hpushed
  -- what the reply of an invocation is
  have hreply : ∀ inv ∈ invs, ∀ a, inv.reply = some a →
      inv ∈ s.invocations ∧ inv.job.conn = k ∧ inv.job = a.job ∧ ∃ services,
        inv.progress.services = some services ∧
          processRequest services a.job.header a.job.body = .ok a.resp := by
    intro inv hinv a ha
    obtain ⟨hmem, hconn⟩ := List.mem_filter.mp hinv
    exact ⟨hmem, of_decide_eq_true hconn,
      ((sendInv_of_reachable h).proper inv hmem).reply ha⟩
  refine ⟨replies, hpushed, ?_, ?_, ?_⟩
  · intro a ha
    obtain ⟨inv, hinv, hsome⟩ := List.mem_filterMap.mp (hsub.subset ha)
    obtain ⟨hmem, hconn, hjob, -⟩ := hreply inv hinv a hsome
    have hdel := (jobInv_of_reachable h).delivered inv.job (mem_jobs_of_mem_invocations hmem)
    rw [hconn, hjob] at hdel
    exact ⟨hjob ▸ hconn, hdel⟩
  · intro a ha
    obtain ⟨inv, hinv, hsome⟩ := List.mem_filterMap.mp (hsub.subset ha)
    obtain ⟨hmem, -, houtcome⟩ := hreply inv hinv a hsome
    exact ⟨inv, hmem, houtcome⟩
  · -- the invocations are in the order of the messages, so their replies are
    refine List.Pairwise.sublist hsub (List.pairwise_filterMap.mpr ?_)
    refine (invocations_increasing hserial h k).imp_of_mem ?_
    intro inv inv' hinv hinv' hlt a ha b hb
    obtain ⟨-, -, hjob, -⟩ := hreply inv hinv a ha
    obtain ⟨-, -, hjob', -⟩ := hreply inv' hinv' b hb
    rw [← hjob, ← hjob']
    exact hlt

end

end Server

end Rpc
