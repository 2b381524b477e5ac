import Rpc.Spec.ServerCorrect
import Rpc.Spec.ShutdownSteps

/-!
# The server is destroyed before its tasks are done

When `~RpcServer` returns, the pool may have tasks in its queue and in the hands of its
workers, and `~ThreadPool` waits for all of them.  `owed` are the messages for which a
member of the server has still to be called.  `DanglingInv` follows them from there on:
each is called for on a server that is gone, and sends nothing, since every connection is
closed (`tasks_outlive_server`).
-/

namespace Rpc

open Transition

/-! ## Invocations on workers -/

namespace ThreadPool

variable {τ : Type}

/-- A worker inside of `task()` stays there until the task returns. -/
theorem Steps.keeps_running {s s' : ThreadPool τ} {a : Act τ} (h : Steps s a s') {i : Nat}
    {task : Task τ} (hi : s.workers[i]? = some (.running task)) (ha : a ≠ .finish i) :
    s'.workers[i]? = some (.running task) := by
  -- another worker moves on
  have hset : ∀ (j : Nat) (w w' : Worker τ), s.workers[j]? = some w → w ≠ .running task →
      (s.workers.set j w')[i]? = some (.running task) := by
    intro j w w' hj hne
    have hji : j ≠ i := by
      rintro rfl
      exact hne (Option.some.inj (hj.symm.trans hi))
    rw [List.getElem?_set_ne hji]
    exact hi
  -- a worker that is notified was asleep
  have hwake : ∀ wakes workers, notifyWorker s.workers wakes = some workers →
      workers[i]? = some (.running task) := by
    intro wakes workers hw
    obtain ⟨-, rfl⟩ | ⟨j, hj, rfl⟩ := notifyWorker_cases hw
    · exact hi
    · exact hset j _ _ hj (by simp)
  cases h with
  | notifyOne id wakes workers hid hw => exact hwake _ _ hw
  | wakeWorker j workers hw => exact hwake _ _ hw
  | pop j task' tasks hj => exact hset j _ _ hj (by simp)
  | exit j hj => exact hset j _ _ hj (by simp)
  | sleep j hj => exact hset j _ _ hj (by simp)
  | activate j task' hj => exact hset j _ _ hj (by simp)
  | finish j task' hj =>
    have hji : j ≠ i := by
      rintro rfl
      exact ha rfl
    show (s.workers.set j _)[i]? = _
    rw [List.getElem?_set_ne hji]
    exact hi
  | deactivate j task' hj => exact hset j _ _ hj (by simp)
  | count j task' hj => exact hset j _ _ hj (by simp)
  | settle j task' hj => exact hset j _ _ hj (by simp)
  | notifyDrain j wakes drainers hj hd => exact hset j _ _ hj (by simp)
  | notifyAll hdes =>
    show (s.workers.map _)[i]? = _
    rw [List.getElem?_map, hi]
    rfl
  | _ => exact hi

end ThreadPool

namespace Server

/-- An invocation on a worker that is not over is inside of that worker's task. -/
def OnWorkerInv (s : Server) : Prop :=
  ∀ inv ∈ s.invocations, ∀ i, inv.thread = some i → inv.progress.isOver = false →
    ∃ pool task, s.pool = some pool ∧ pool.workers[i]? = some (.running task)

/-- Moving an invocation on leaves it where it runs. -/
theorem OnWorkerInv.of_progress {s s' : Server} (hinv : OnWorkerInv s) {n : Nat} {inv : Invocation}
    {progress : Progress} (hn : s.invocations[n]? = some inv) (hold : inv.progress.isOver = false)
    (hset : s'.invocations = s.setProgress n inv progress) (hpool : s'.pool = s.pool) :
    OnWorkerInv s' := by
  intro inv' hmem i hthread hover
  rw [hset] at hmem
  rw [hpool]
  obtain hmem | rfl := List.mem_or_eq_of_mem_set hmem
  · exact hinv inv' hmem i hthread hover
  · exact hinv inv (List.mem_of_getElem? hn) i hthread hold

/-- Every step of the server keeps its invocations inside of tasks. -/
theorem OnWorkerInv.step {s s' : Server} {a : Act} (hinv : OnWorkerInv s)
    (h : s.step a = some s') : OnWorkerInv s' := by
  -- a step of the pool that ends no task
  have hpoolStep : ∀ (b : ThreadPool.Act Job) (pool pool' : ThreadPool Job),
      s.pool = some pool → ThreadPool.Steps pool b pool' → (∀ i, b ≠ .finish i) →
      ∀ inv ∈ s.invocations, ∀ i, inv.thread = some i → inv.progress.isOver = false →
        ∃ p task, some pool' = some p ∧ p.workers[i]? = some (.running task) := by
    intro b pool pool' hpool hb hfinish inv hmem i hthread hover
    obtain ⟨p, task, hp, hi⟩ := hinv inv hmem i hthread hover
    obtain rfl : pool = p := Option.some.inj (hpool.symm.trans hp)
    exact ⟨pool', task, rfl, hb.keeps_running hi (hfinish i)⟩
  cases steps_of_step h with
  | submit k job pool pool' hcur hnew hpool henq hfree =>
    have henqueue := ThreadPool.step_enqueue henq hfree
    exact hpoolStep _ pool pool' hpool (ThreadPool.steps_of_step henqueue) (by simp)
  | pool b pool pool' hown hpool hb =>
    exact hpoolStep b pool pool' hpool (ThreadPool.steps_of_step hb)
      (by rintro i rfl; cases hown)
  -- an invocation on the io thread is on no worker
  | inline k job hcur hnew hpool =>
    intro inv hmem i hthread hover
    obtain hmem | hmem := List.mem_append.mp hmem
    · exact hinv inv hmem i hthread hover
    · obtain rfl := List.mem_singleton.mp hmem
      cases hthread
  | activate j pool pool' task hpool hw hb =>
    intro inv hmem i hthread hover
    obtain hmem | hmem := List.mem_append.mp hmem
    · exact hpoolStep _ pool pool' hpool (ThreadPool.steps_of_step hb) (by simp) inv hmem i hthread
        hover
    · obtain rfl := List.mem_singleton.mp hmem
      -- the worker that has begun with the task
      obtain rfl : j = i := Option.some.inj hthread
      simp only [ThreadPool.step, hw] at hb
      obtain rfl := Option.some.inj hb
      obtain ⟨hlt, -⟩ := List.getElem?_eq_some_iff.mp hw
      exact ⟨_, task, rfl, List.getElem?_set_self hlt⟩
  | finish j pool pool' hpool hb =>
    intro inv hmem i hthread hover
    -- the task returns after its invocation
    have hall : s.invocations.all
        (fun inv => inv.thread ≠ some j || inv.progress.isOver) = true := by
      simp only [Server.step, hpool] at h
      split at h
      · assumption
      · cases h
    have hji : j ≠ i := by
      rintro rfl
      have hend := List.all_eq_true.mp hall inv hmem
      simp [hthread, hover] at hend
    obtain ⟨p, task, hp, hi⟩ := hinv inv hmem i hthread hover
    obtain rfl : pool = p := Option.some.inj (hpool.symm.trans hp)
    exact ⟨pool', task, rfl,
      (ThreadPool.steps_of_step hb).keeps_running hi (by simpa using hji)⟩
  | respond n inv resp hn hp => exact hinv.of_progress hn (by rw [hp]; rfl) rfl rfl
  | escapeTask n inv fault hn hp => exact hinv.of_progress hn (by rw [hp]; rfl) rfl rfl
  | escapeInline n inv fault c hn hp => exact hinv.of_progress hn (by rw [hp]; rfl) rfl rfl
  | send n inv services resp c hn hp => exact hinv.of_progress hn (by rw [hp]; rfl) rfl rfl
  | done n inv services resp hn hp => exact hinv.of_progress hn (by rw [hp]; rfl) rfl rfl
  | _ => exact hinv

/-- Invocations are inside of tasks in every state of a run. -/
theorem onWorkerInv_of_reachable {services : ServiceManager}
    {threads : Option (UInt64 × UInt32)} {s : Server}
    (h : Reachable step (init services threads) s) : OnWorkerInv s :=
  h.invariant (by simp [OnWorkerInv, init]) fun _ _ _ hinv _ hs => hinv.step hs

/-! ## The calls to come -/

/-- A task at this place has a member of the server to call. -/
def Progress.owes : Progress → Bool
  | .processing | .responding .. => true
  | _ => false

/-- The messages for which a member of the server has to be called. -/
def owed (s : Server) : List Job :=
  s.waiting ++ (s.invocations.filter fun inv => inv.progress.owes).map Invocation.job

/-- A call to come is one for a task that waits, or for an invocation before it. -/
theorem mem_owed {s : Server} {job : Job} :
    job ∈ s.owed ↔ job ∈ s.waiting ∨
      ∃ inv ∈ s.invocations, inv.progress.owes = true ∧ inv.job = job := by
  simp only [owed, List.mem_append, List.mem_map, List.mem_filter, and_assoc]

/-- An invocation that moves on: no call is added, and only its own can be taken away. -/
theorem owed_setProgress {s s' : Server} {n : Nat} {inv : Invocation} {progress : Progress}
    (hn : s.invocations[n]? = some inv) (hset : s'.invocations = s.setProgress n inv progress)
    (hpool : s'.pool = s.pool) (howes : progress.owes = true → inv.progress.owes = true) :
    (∀ job ∈ s'.owed, job ∈ s.owed) ∧
      ∀ job ∈ s.owed, job ∈ s'.owed ∨ (inv.progress.owes = true ∧ job = inv.job) := by
  have hwaiting : s'.waiting = s.waiting := by rw [waiting, waiting, hpool]
  simp only [mem_owed, hwaiting, hset]
  constructor
  · rintro job (hjob | ⟨inv', hmem, howes', rfl⟩)
    · exact .inl hjob
    · obtain hmem | rfl := List.mem_or_eq_of_mem_set hmem
      · exact .inr ⟨inv', hmem, howes', rfl⟩
      · exact .inr ⟨inv, List.mem_of_getElem? hn, howes howes', rfl⟩
  · rintro job (hjob | ⟨inv', hmem, howes', rfl⟩)
    · exact .inl (.inl hjob)
    · obtain ⟨m, hm⟩ := List.getElem?_of_mem hmem
      -- the invocation itself, or another one, which stays
      by_cases heq : n = m
      · subst heq
        obtain rfl : inv = inv' := Option.some.inj (hn.symm.trans hm)
        exact .inr ⟨howes', rfl⟩
      · have hkept : (s.setProgress n inv progress)[m]? = some inv' := by
          rw [setProgress, List.getElem?_set_ne heq]
          exact hm
        exact .inl (.inr ⟨inv', List.mem_of_getElem? hkept, howes', rfl⟩)

/-- What a step of a worker or of the pool does to the calls to come: none is added, and one
    that is no longer to come is made. -/
theorem Steps.owed {s s' : Server} {a : Act} (h : Steps s a s') (hworker : ofWorker a = true) :
    (∀ job ∈ s'.owed, job ∈ s.owed) ∧
      (∀ job ∈ s.owed, job ∈ s'.owed ∨ ∃ m, (m, job) ∈ ServerMain.memberCalls s a) ∧
      ∀ x ∈ ServerMain.memberCalls s a, x.2 ∈ s.owed := by
  -- an invocation that makes a call
  have hcall : ∀ (n : Nat) (inv : Invocation) (progress : Progress) (m : ServerMain.Member),
      s.invocations[n]? = some inv → inv.progress.owes = true →
      s'.invocations = s.setProgress n inv progress → s'.pool = s.pool →
      ServerMain.memberCalls s a = [(m, inv.job)] →
      (∀ job ∈ s'.owed, job ∈ s.owed) ∧
        (∀ job ∈ s.owed, job ∈ s'.owed ∨ ∃ m, (m, job) ∈ ServerMain.memberCalls s a) ∧
        ∀ x ∈ ServerMain.memberCalls s a, x.2 ∈ s.owed := by
    intro n inv progress m hn howes hset hpool hcalls
    obtain ⟨hless, hkept⟩ := owed_setProgress hn hset hpool fun _ => howes
    rw [hcalls]
    refine ⟨hless, fun job hjob => ?_, fun x hx => ?_⟩
    · obtain hjob | ⟨-, rfl⟩ := hkept job hjob
      · exact .inl hjob
      · exact .inr ⟨m, List.mem_singleton.mpr rfl⟩
    · obtain rfl := List.mem_singleton.mp hx
      exact mem_owed.mpr (.inr ⟨inv, List.mem_of_getElem? hn, howes, rfl⟩)
  -- a step that moves no invocation on, and makes no call
  have hsame : ServerMain.memberCalls s a = [] → (∀ job, job ∈ s'.owed ↔ job ∈ s.owed) →
      (∀ job ∈ s'.owed, job ∈ s.owed) ∧
        (∀ job ∈ s.owed, job ∈ s'.owed ∨ ∃ m, (m, job) ∈ ServerMain.memberCalls s a) ∧
        ∀ x ∈ ServerMain.memberCalls s a, x.2 ∈ s.owed := by
    intro hcalls hiff
    rw [hcalls]
    exact ⟨fun job => (hiff job).mp, fun job hjob => .inl ((hiff job).mpr hjob), by simp⟩
  -- a step of the pool that begins with no task leaves all tasks waiting
  have hpoolStep : ∀ (b : ThreadPool.Act Job) (pool pool' : ThreadPool Job),
      s.pool = some pool → pool.step b = some pool' → (∀ job, b ≠ .enqueue job) →
      (∀ i, b ≠ .activate i) → s'.pool = some pool' → s'.invocations = s.invocations →
      ∀ job, job ∈ s'.owed ↔ job ∈ s.owed := by
    intro b pool pool' hpool hstep henq hact hpool' hinvs job
    have hperm := ((ThreadPool.steps_of_step hstep).unstarted_perm henq hact).map Task.job
    rw [mem_owed, mem_owed, hinvs, waiting, waiting, hpool, hpool']
    exact or_congr_left hperm.mem_iff
  cases h with
  | submit | refuse | inline | leave => cases hworker
  | conn => exact hsame rfl fun _ => .rfl
  | services a services ha =>
    obtain ⟨service, rfl⟩ | ⟨name, rfl⟩ := ha <;> exact hsame rfl fun _ => .rfl
  | pool b pool pool' hown hpool hb =>
    exact hsame rfl (hpoolStep b pool pool' hpool hb (by rintro job rfl; cases hown)
      (by rintro i rfl; cases hown) rfl rfl)
  | finish i pool pool' hpool hb =>
    exact hsame rfl (hpoolStep _ pool pool' hpool hb (by simp) (by simp) rfl rfl)
  | activate i pool pool' task hpool hw hb =>
    -- the task goes from the waiting ones to the invocations
    have hperm := (ThreadPool.unstarted_activate hw hb).map Task.job
    refine hsame rfl fun job => ?_
    have hmem : job ∈ s.waiting ↔ job = task.job ∨ job ∈ pool'.unstarted.map Task.job := by
      rw [waiting, hpool, ← hperm.mem_iff, List.map_cons, List.mem_cons]
    rw [mem_owed, mem_owed, hmem]
    simp only [waiting, List.mem_append, List.mem_singleton]
    constructor
    · rintro (hjob | ⟨inv, hinv | rfl, howes, rfl⟩)
      · exact .inl (.inr hjob)
      · exact .inr ⟨inv, hinv, howes, rfl⟩
      · exact .inl (.inl rfl)
    · rintro ((rfl | hjob) | ⟨inv, hinv, howes, rfl⟩)
      · exact .inr ⟨_, .inr rfl, rfl, rfl⟩
      · exact .inl hjob
      · exact .inr ⟨inv, .inl hinv, howes, rfl⟩
  | respond n inv resp hn hp =>
    exact hcall n inv _ .processRequest hn (by rw [hp]; rfl) rfl rfl
      (by simp [ServerMain.memberCalls, hn])
  | escapeTask n inv fault hn hp =>
    exact hcall n inv _ .processRequest hn (by rw [hp]; rfl) rfl rfl
      (by simp [ServerMain.memberCalls, hn])
  | escapeInline n inv fault c hn hp =>
    exact hcall n inv _ .processRequest hn (by rw [hp]; rfl) rfl rfl
      (by simp [ServerMain.memberCalls, hn])
  | send n inv services resp c hn hp =>
    exact hcall n inv _ .sendResponse hn (by rw [hp]; rfl) rfl rfl
      (by simp [ServerMain.memberCalls, hn])
  -- the response has been handed over: there was no call to come
  | done n inv services resp hn hp =>
    obtain ⟨hless, hkept⟩ := @owed_setProgress s
      { s with invocations := s.setProgress n inv (.returned services resp) } n inv
      (.returned services resp) hn rfl rfl (by simp [Progress.owes])
    refine hsame rfl fun job => ⟨hless job, fun hjob => ?_⟩
    obtain hjob | ⟨howes, -⟩ := hkept job hjob
    · exact hjob
    · rw [hp] at howes
      cases howes

end Server

namespace ServerMain

open Server

variable {services : ServiceManager} {threads : UInt64 × UInt32} {s : ServerMain}

/-! ## After the server -/

/-- What has happened since the server was destroyed in the state `d`: the calls that were to
    come are made, or still to come, and no frame is handed to a connection. -/
structure DanglingInv (s : ServerMain) (d : Server) : Prop where
  left : ∀ job ∈ s.server.owed, job ∈ d.owed
  called : ∀ x ∈ s.dangling, x.2 ∈ d.owed
  covered : ∀ job ∈ d.owed, job ∈ s.server.owed ∨ ∃ m, (m, job) ∈ s.dangling
  silent : ∀ k, (s.server.conns k).handedOver.Perm (d.conns k).handedOver

/-- A step of the server that a worker or the pool takes after it was destroyed. -/
theorem DanglingInv.server_step {s' : ServerMain} {d : Server} {a : Server.Act}
    (hinv : DanglingInv s d) (hmain : MainInv s) (hmain' : MainInv s')
    (hinvoke : InvokeInv s.server) (hdown : s.stage.isDown = true)
    (hworker : Server.ofWorker a = true) (h : Server.Steps s.server a s'.server)
    (haccepted : s'.accepted = s.accepted)
    (hdangling : s'.dangling = s.dangling ++ memberCalls s.server a) : DanglingInv s' d := by
  obtain ⟨hless, hkept, hcalls⟩ := h.owed hworker
  obtain ⟨-, -, -, hconns⟩ := h.of_worker hworker (hmain.thread hinvoke)
  refine ⟨fun job hjob => hinv.left job (hless job hjob), fun x hx => ?_, fun job hjob => ?_,
    fun k => ?_⟩
  · rw [hdangling] at hx
    obtain hx | hx := List.mem_append.mp hx
    · exact hinv.called x hx
    · exact hinv.left _ (hcalls x hx)
  · rw [hdangling]
    obtain hjob | ⟨m, hm⟩ := hinv.covered job hjob
    · obtain hjob | ⟨m, hm⟩ := hkept job hjob
      · exact .inl hjob
      · exact .inr ⟨m, List.mem_append_right _ hm⟩
    · exact .inr ⟨m, List.mem_append_left _ hm⟩
  · refine List.Perm.trans ?_ (hinv.silent k)
    -- a connection that was never accepted is not used
    by_cases hk : k < s.accepted
    · -- `send` returns at once on a connection that is closed
      have hclosed := hmain.all_closed (Stage.isJoined_of_isDown hdown)
        (Stage.toClose_of_isDown hdown) k hk
      obtain heq | ⟨b, hb, hstep⟩ := hconns k
      · rw [heq]
      · exact (hstep.of_worker hb).2.2 hclosed
    · rw [hmain'.untouched k (by omega), hmain.untouched k (by omega)]

/-- What is known of the calls on the server, before and after it was destroyed. -/
def CallsInv (s : ServerMain) : Prop :=
  (s.destroyed = none → s.dangling = []) ∧ ∀ d, s.destroyed = some d → DanglingInv s d

/-- Every step of the program keeps track of the calls. -/
theorem Steps.callsInv {s' : ServerMain} {a : Act} (h : Steps s a s') (hinv : CallsInv s)
    (hmain : MainInv s) (hmain' : MainInv s') (hinvoke : InvokeInv s.server) : CallsInv s' := by
  -- before the server is destroyed there are no calls to look at
  have hbefore : s.stage.isDown = false → s.destroyed = none := by
    intro hdown
    have hnone := hmain.destroyed
    rw [hdown] at hnone
    exact Option.isNone_iff_eq_none.mp (by simpa using hnone)
  -- a step before the server is destroyed
  have hearly : s.stage.isDown = false → s'.destroyed = s.destroyed → s'.dangling = s.dangling →
      CallsInv s' := by
    intro hdown hdestroyed hdangling
    rw [CallsInv, hdestroyed, hdangling]
    refine ⟨hinv.1, fun d hd => ?_⟩
    cases (hbefore hdown).symm.trans hd
  cases h with
  -- the steps that count are those after it
  | server a server hpermits hstep =>
    cases hdown : s.stage.isDown with
    | false =>
      refine hearly hdown rfl ?_
      simp only [hbefore hdown]
      rfl
    | true =>
      have hended := hmain.joined (Stage.isJoined_of_isDown hdown)
      have hworker := worker_of_permits hmain hpermits hended
      have haccepts := accepts_of_worker hworker
      refine ⟨fun hnone => ?_, fun d hd => ?_⟩
      · have hsome := hmain.destroyed
        rw [hdown, hnone] at hsome
        cases hsome
      · have hd : s.destroyed = some d := hd
        refine (hinv.2 d hd).server_step hmain hmain' hinvoke hdown hworker
          (Server.steps_of_step hstep) (by simp only [haccepts]; rfl) ?_
        simp only [hd, Option.isSome_some, if_true]
  | signal hs => exact hearly (by rw [hs]; rfl) rfl rfl
  | closeStopping k ks server hs hstep => exact hearly (by rw [hs]; rfl) rfl rfl
  | closeDestroying k ks server hs hstep => exact hearly (by rw [hs]; rfl) rfl rfl
  | iosStop hs => exact hearly (by rw [hs]; rfl) rfl rfl
  | join hs hended => exact hearly (by rw [hs]; rfl) rfl rfl
  | threadEnd hstopped hrunning hidle =>
    -- the thread has been joined when the server is destroyed
    have hdown : s.stage.isDown = false := by
      cases hdown : s.stage.isDown with
      | false => rfl
      | true => cases hrunning.symm.trans (hmain.joined (Stage.isJoined_of_isDown hdown))
    exact hearly hdown rfl rfl
  | destroy hs =>
    have hnone := hinv.1 (hbefore (by rw [hs]; rfl))
    refine ⟨by simp, fun d hd => ?_⟩
    obtain rfl := Option.some.inj hd
    refine ⟨fun _ => id, fun x hx => ?_, fun job hjob => .inl hjob, fun _ => .refl _⟩
    rw [hnone] at hx
    cases hx
  | finish server hs hstep =>
    have hdown : s.stage.isDown = true := by rw [hs]; rfl
    refine ⟨fun hnone => ?_, fun d hd => ?_⟩
    · have hsome := hmain.destroyed
      rw [hdown, hnone] at hsome
      cases hsome
    · exact (hinv.2 d hd).server_step hmain hmain' hinvoke hdown (a := .pool .join) rfl
        (Server.steps_of_step hstep) rfl (List.append_nil _).symm

/-- The calls are known in every state of a run. -/
theorem callsInv_of_reachable (h : Reachable step (init services threads) s) : CallsInv s := by
  apply h.invariant_with (I := fun s => Reachable step (init services threads) s)
  · exact fun s hs => hs
  · exact ⟨fun _ => rfl, by simp [init]⟩
  · intro s a s' hreach hinv _ hs
    exact (steps_of_step hs).2.callsInv hinv (mainInv_of_reachable hreach)
      (mainInv_of_reachable (hreach.tail a trivial hs))
      (flowInv_of_reachable (server_reachable hreach)).2

/-! ## The end of `main` -/

/-- When the pool has joined its workers, no task is left and no invocation is open. -/
theorem over_of_returned (h : Reachable step (init services threads) s)
    (hret : s.stage = .returned) :
    s.server.waiting = [] ∧ ∀ inv ∈ s.server.invocations, inv.progress.isOver = true := by
  have hmain := mainInv_of_reachable h
  have hserver := server_reachable h
  obtain ⟨pool, hpool, hpinv⟩ := hmain.pool
  obtain ⟨n, hw, hreach⟩ := pool_reachable hserver pool hpool
  have hjoined := hpinv.joined.mpr hret
  have hexited := (ThreadPool.downInv_of_reachable hreach).joined hjoined
  constructor
  -- no worker has a task in its hands, and none is in the queue
  · have hfetched : pool.workers.filterMap ThreadPool.Worker.fetched = [] := by
      apply List.filterMap_eq_nil_iff.mpr
      intro w hmem
      rw [hexited w hmem]
      rfl
    obtain ⟨-, htasks⟩ := ThreadPool.nothing_left hreach (.inr hjoined)
    rw [waiting, hpool]
    simp [ThreadPool.unstarted, hfetched, htasks]
  · intro inv hmem
    cases hover : inv.progress.isOver with
    | true => rfl
    | false =>
      obtain ⟨i, hi⟩ := Option.ne_none_iff_exists'.mp
        (hmain.thread (flowInv_of_reachable hserver).2 inv hmem)
      obtain ⟨p, task, hp, hrunning⟩ := onWorkerInv_of_reachable hserver inv hmem i hi hover
      obtain rfl : pool = p := Option.some.inj (hpool.symm.trans hp)
      -- its worker would still be inside of the task
      cases hexited _ (List.mem_of_getElem? hrunning)

/-- When `main` returns no call is left to come. -/
theorem owed_of_returned (h : Reachable step (init services threads) s)
    (hret : s.stage = .returned) : s.server.owed = [] := by
  obtain ⟨hwaiting, hover⟩ := over_of_returned h hret
  apply List.eq_nil_iff_forall_not_mem.mpr
  intro job hjob
  obtain hjob | ⟨inv, hmem, howes, -⟩ := mem_owed.mp hjob
  · rw [hwaiting] at hjob
    cases hjob
  · have hend := hover inv hmem
    cases hp : inv.progress with
    -- these are not over
    | processing | responding | sending =>
      rw [hp] at hend
      cases hend
    | returned | escaped =>
      rw [hp] at howes
      cases howes

/-- Every message a connection has read has been handled by a worker when `main` returns. -/
theorem handled_of_returned (h : Reachable step (init services threads) s)
    (hret : s.stage = .returned) {k j : Nat}
    (hj : j < (s.server.conns k).delivered.length) :
    ∃ inv ∈ s.server.invocations, inv.job.id = (k, j) ∧ (∃ i, inv.thread = some i) ∧
      inv.progress.isOver = true := by
  have hmain := mainInv_of_reachable h
  have hserver := server_reachable h
  have hflow := (flowInv_of_reachable hserver).1
  have hjobs := jobInv_of_reachable hserver
  obtain ⟨hwaiting, hover⟩ := over_of_returned h hret
  have hended : s.threadEnded = true := hmain.joined (by rw [hret]; rfl)
  have hleft : (k, j) ∈ s.server.left := by
    obtain hleft | hthrew | ⟨job, hcur, -⟩ := hflow.placed k j hj
    · exact hleft
    · rw [hmain.threw] at hthrew
      cases hthrew
    · -- the io thread is inside of no handler
      cases (hmain.ended hended).1.symm.trans (hflow.inMessage k job hcur)
  obtain ⟨⟨id, stopped⟩, hentered, rfl⟩ := List.mem_map.mp (hflow.entered _ (.inl hleft))
  cases stopped with
  | true => exact absurd hentered (hmain.admitted _)
  | false =>
    -- it was accepted, so there is a job for it, which waits no longer
    have haccepted := hjobs.jobs.mem_iff.mpr (mem_acceptedIds.mpr hentered)
    obtain ⟨job, hjob, hid⟩ := List.mem_map.mp haccepted
    rw [Server.jobs, hwaiting, List.nil_append] at hjob
    obtain ⟨inv, hmem, rfl⟩ := List.mem_map.mp hjob
    -- there is a pool, so no invocation is on the io thread
    have hworker := Option.ne_none_iff_exists'.mp
      (hmain.thread (flowInv_of_reachable hserver).2 inv hmem)
    exact ⟨inv, hmem, hid, hworker, hover inv hmem⟩

/-- `main` returns when every message that was read has been handled by a worker; but the
    server is destroyed before.  Members of the destroyed server are called for the messages which
    were in the pool then, or whose task had not come to `send_response`, and for no
    others; and no frame is handed to a connection any more. -/
theorem tasks_outlive_server (services : ServiceManager) (threads : UInt64 × UInt32)
    (s : ServerMain) (h : Reachable step (init services threads) s) (hret : s.stage = .returned) :
    (∀ k j, j < (s.server.conns k).delivered.length →
      ∃ inv ∈ s.server.invocations, inv.job.id = (k, j) ∧ (∃ i, inv.thread = some i) ∧
        inv.progress.isOver = true) ∧
    ∃ d, s.destroyed = some d ∧ (∀ job, (∃ m, (m, job) ∈ s.dangling) ↔ job ∈ d.owed) ∧
      ∀ k, (s.server.conns k).handedOver.Perm (d.conns k).handedOver := by
  refine ⟨fun k j hj => handled_of_returned h hret hj, ?_⟩
  have hdestroyed := (mainInv_of_reachable h).destroyed
  rw [hret] at hdestroyed
  obtain ⟨d, hd⟩ := Option.isSome_iff_exists.mp hdestroyed
  have hinv := (callsInv_of_reachable h).2 d hd
  refine ⟨d, hd, fun job => ⟨fun hcalled => ?_, fun hjob => ?_⟩, hinv.silent⟩
  · obtain ⟨m, hm⟩ := hcalled
    exact hinv.called _ hm
  -- no call is left to come, so this one has been made
  · obtain hopen | hcalled := hinv.covered job hjob
    · rw [owed_of_returned h hret] at hopen
      cases hopen
    · exact hcalled

/-- A request that is still in the queue when the server is destroyed, and is handled then. -/
def lateRequest : List Act :=
  [.server (.conn 0 .startRead), .server (.conn 0 (.readHeader (serializeHeader sampleHeader))),
    .server (.conn 0 (.readBody sampleRequest.serialize)), .server (.enter 0),
    .server (.pool (.notifyOne 0 none)), .server (.leave 0),
    .signal, .close, .iosStop, .threadEnd, .join, .close, .destroy,
    .server (.pool .setStop), .server (.pool .notifyAll), .server (.pool (.check 0)),
    .server (.activate 0), .server (.process 0), .server (.send 0), .server (.done 0),
    .server (.finish 0), .server (.pool (.deactivate 0)), .server (.pool (.count 0)),
    .server (.pool (.settle 0)), .server (.pool (.notifyDrain 0 none)),
    .server (.pool (.check 0)), .finish]

/-- The server is called for this message. -/
theorem tasks_outlive_server_queued :
    ∃ (s : ServerMain) (d : Server),
      Reachable step (init (sampleServices (.returned [])) (1, 1)) s ∧ s.stage = .returned ∧
        s.destroyed = some d ∧
        { conn := 0, index := 0, header := sampleHeader, body := sampleRequest.serialize } ∈
          d.owed := by
  obtain ⟨s, hrun, hret, hcalled⟩ :
      ∃ s ∈ run step (init (sampleServices (.returned [])) (1, 1)) lateRequest,
        s.stage = .returned ∧
        (.sendResponse, { conn := 0, index := 0, header := sampleHeader,
                          body := sampleRequest.serialize }) ∈ s.dangling := by
    decide
  have hs := reachable_of_run _ hrun
  obtain ⟨-, d, hd, howed, -⟩ := tasks_outlive_server _ _ s hs hret
  exact ⟨s, d, hs, hret, hd, (howed _).mp ⟨_, hcalled⟩⟩

end ServerMain

end Rpc
