import Rpc.ForStd.Transition
import Rpc.Native.Protocol

/-!
# Thread pool

Model of `thread_pool/thread_pool.{h,cpp}` as a transition system: any number of
threads inside of `enqueue()` and `drain()`, the workers, and the destructor.

Each action is one step other threads can observe: a critical section under
`mux_`, one atomic operation on a counter, or one notification.  Blocking on a
condition variable releases `mux_` in the same step; a thread that is woken has
to lock again and look at its predicate again.  `notify_one` wakes one blocked
thread if there is one; a blocked thread may also wake up spuriously
(`wakeWorker`, `wakeDrainer`).

The predicate of `cv_` changes only under `mux_`, so that a worker looks at it and
blocks in one step.  The predicate of `drain_cv_` reads `active_tasks_`, which
changes without `mux_`: here looking and blocking are two steps, and `mux_` is
held in between (`locked`).

A task is a `std::packaged_task`, so that an exception thrown by its body ends
in its future and never leaves `task()`.
-/

namespace Rpc

/-- A task in the order of acceptance, and what it runs. -/
structure Task (τ : Type) where
  id : Nat
  job : τ
  deriving DecidableEq, Repr

namespace ThreadPool

/-- Where a worker thread stands in `worker_loop`. -/
inductive Worker (τ : Type) where
  /-- about to lock `mux_` and look at the predicate of `cv_.wait` -/
  | checking
  /-- blocked on `cv_` -/
  | blocked
  /-- before `active_tasks_.fetch_add(1)` -/
  | popped (task : Task τ)
  /-- inside of `task()` -/
  | running (task : Task τ)
  /-- before `active_tasks_.fetch_sub(1)` -/
  | ran (task : Task τ)
  /-- before `completed_.fetch_add(1)` -/
  | retired (task : Task τ)
  /-- before `pending_count_.fetch_sub(1)` -/
  | counted (task : Task τ)
  /-- before `drain_cv_.notify_one()` -/
  | notifying
  | exited
  deriving DecidableEq, Repr

/-- The worker is blocked in `cv_.wait`. -/
def Worker.isBlocked {τ : Type} : Worker τ → Bool
  | .blocked => true
  | _ => false

/-- Where a thread stands in `drain()`. -/
inductive DrainPhase where
  /-- about to lock `mux_` and look at the predicate of `drain_cv_.wait` -/
  | checking
  /-- found the predicate false, holds `mux_`, and is about to block -/
  | blocking
  /-- blocked on `drain_cv_` -/
  | blocked
  | returned
  deriving DecidableEq, Repr

/-- One call of `drain()`, with the tasks whose `enqueue()` had returned before it. -/
structure Drainer where
  phase : DrainPhase
  early : List Nat
  deriving DecidableEq, Repr

/-- The call has looked at its predicate and not yet released `mux_`. -/
def Drainer.isBlocking (d : Drainer) : Bool :=
  match d.phase with
  | .blocking => true
  | _ => false

/-- Where the destructor stands. -/
inductive Destructor where
  | notStarted | stopSet | notified | joined
  deriving DecidableEq, Repr

end ThreadPool

/-- A thread pool, with its history. -/
structure ThreadPool (τ : Type) where
  tasks : List (Task τ)
  stop : Bool
  pendingCount : UInt64
  activeTasks : UInt64
  completed : UInt64
  workers : List (ThreadPool.Worker τ)
  /-- the calls of `enqueue()` that have still to notify `cv_` -/
  enqueuing : List Nat
  drainers : List ThreadPool.Drainer
  destructor : ThreadPool.Destructor
  /-- the tasks accepted, in order -/
  accepted : List (Task τ)
  /-- the tasks whose `enqueue()` has returned, in order -/
  returned : List Nat
  /-- the tasks that have run, in the order in which they finished -/
  finished : List (Task τ)
  deriving DecidableEq, Repr

namespace ThreadPool

variable {τ : Type}

/-- `num_threads_` as the constructor sets it. -/
def numThreads (requested : UInt64) (hardwareConcurrency : UInt32) : UInt64 :=
  let n := if requested ≠ 0 then requested else hardwareConcurrency.toUInt64
  if n = 0 then 4 else n

/-- A pool as constructed. -/
def init (requested : UInt64) (hardwareConcurrency : UInt32) : ThreadPool τ :=
  { tasks := [], stop := false, pendingCount := 0, activeTasks := 0, completed := 0,
    workers := List.replicate (numThreads requested hardwareConcurrency).toNat .checking,
    enqueuing := [], drainers := [], destructor := .notStarted,
    accepted := [], returned := [], finished := [] }

/-- A thread in `drain()` holds `mux_` between two of its steps. -/
def locked (s : ThreadPool τ) : Bool := s.drainers.any Drainer.isBlocking

/-- The critical section of `enqueue()`. -/
def enqueue (s : ThreadPool τ) (job : τ) : Except Fault (ThreadPool τ) :=
  if s.stop then
    .error (.runtimeError (Bytes.ofString "ThreadPool: enqueue on stopped pool"))
  else
    let task : Task τ := { id := s.accepted.length, job }
    .ok { s with
      tasks := s.tasks ++ [task]
      pendingCount := s.pendingCount + 1
      enqueuing := s.enqueuing ++ [task.id]
      accepted := s.accepted ++ [task] }

/-- `cv_.notify_one()`: worker `w` wakes up, or nobody is blocked. -/
def notifyWorker (workers : List (Worker τ)) : Option Nat → Option (List (Worker τ))
  | some i => if workers[i]?.any Worker.isBlocked then some (workers.set i .checking) else none
  | none => if workers.any Worker.isBlocked then none else some workers

/-- `drain_cv_.notify_one()`: the thread of call `d` wakes up, or nobody is blocked. -/
def notifyDrainer (drainers : List Drainer) : Option Nat → Option (List Drainer)
  | some d =>
    match drainers[d]? with
    | some drainer =>
      if drainer.phase = .blocked then some (drainers.set d { drainer with phase := .checking })
      else none
    | none => none
  | none => if drainers.any fun d => d.phase = .blocked then none else some drainers

/-- The critical section at the top of `worker_loop`, on worker `i`. -/
def check (s : ThreadPool τ) (i : Nat) : ThreadPool τ :=
  match s.tasks with
  | task :: tasks => { s with tasks, workers := s.workers.set i (.popped task) }
  -- `cv_.wait` returns only on a task or on `stop_`, and tasks go first
  | [] =>
    if s.stop then { s with workers := s.workers.set i .exited }
    else { s with workers := s.workers.set i .blocked }

/-- The predicate of `drain()`. -/
def drained (s : ThreadPool τ) : Bool := s.tasks.isEmpty && s.activeTasks == 0

/-- The steps of a pool. -/
inductive Act (τ : Type) where
  /-- `enqueue()` enters its critical section -/
  | enqueue (job : τ)
  /-- the `enqueue()` of this task notifies `cv_` and returns -/
  | notifyOne (id : Nat) (wakes : Option Nat)
  | check (i : Nat)
  | activate (i : Nat)
  /-- `task()` returns -/
  | finish (i : Nat)
  | deactivate (i : Nat)
  | count (i : Nat)
  | settle (i : Nat)
  /-- worker `i` notifies `drain_cv_` -/
  | notifyDrain (i : Nat) (wakes : Option Nat)
  /-- a thread calls `drain()` -/
  | drain
  /-- it looks at its predicate under `mux_` -/
  | drainCheck (d : Nat)
  /-- it blocks and releases `mux_` -/
  | drainBlock (d : Nat)
  | setStop
  | notifyAll
  | join
  | wakeWorker (i : Nat)
  | wakeDrainer (d : Nat)
  deriving DecidableEq, Repr

/-- One step of a pool. -/
def step (s : ThreadPool τ) : Act τ → Option (ThreadPool τ)
  | .enqueue job =>
    if s.locked then none
    else
      match s.enqueue job with
      | .ok s' => some s'
      -- `enqueue()` throws in its caller and changes nothing
      | .error _ => some s
  | .notifyOne id wakes =>
    if id ∈ s.enqueuing then
      (notifyWorker s.workers wakes).map fun workers =>
        { s with workers, enqueuing := s.enqueuing.erase id, returned := s.returned ++ [id] }
    else none
  | .check i =>
    match s.workers[i]? with
    | some .checking => if s.locked then none else some (s.check i)
    | _ => none
  | .activate i =>
    match s.workers[i]? with
    | some (.popped task) =>
      some { s with activeTasks := s.activeTasks + 1, workers := s.workers.set i (.running task) }
    | _ => none
  | .finish i =>
    match s.workers[i]? with
    | some (.running task) =>
      some { s with finished := s.finished ++ [task], workers := s.workers.set i (.ran task) }
    | _ => none
  | .deactivate i =>
    match s.workers[i]? with
    | some (.ran task) =>
      some { s with activeTasks := s.activeTasks - 1, workers := s.workers.set i (.retired task) }
    | _ => none
  | .count i =>
    match s.workers[i]? with
    | some (.retired task) =>
      some { s with completed := s.completed + 1, workers := s.workers.set i (.counted task) }
    | _ => none
  -- the counters are changed outside of `mux_`, each in a step of its own
  | .settle i =>
    match s.workers[i]? with
    | some (.counted _) =>
      some { s with pendingCount := s.pendingCount - 1, workers := s.workers.set i .notifying }
    | _ => none
  | .notifyDrain i wakes =>
    match s.workers[i]? with
    | some .notifying =>
      (notifyDrainer s.drainers wakes).map fun drainers =>
        { s with drainers, workers := s.workers.set i .checking }
    | _ => none
  -- the history of the call is taken before it locks `mux_`
  | .drain =>
    some { s with drainers := s.drainers ++ [{ phase := .checking, early := s.returned }] }
  | .drainCheck d =>
    match s.drainers[d]? with
    | some drainer =>
      if drainer.phase = .checking ∧ s.locked = false then
        let phase := if s.drained then DrainPhase.returned else .blocking
        some { s with drainers := s.drainers.set d { drainer with phase } }
      else none
    | none => none
  | .drainBlock d =>
    match s.drainers[d]? with
    | some drainer =>
      if drainer.phase = .blocking then
        some { s with drainers := s.drainers.set d { drainer with phase := .blocked } }
      else none
    | none => none
  | .setStop =>
    if s.destructor = .notStarted ∧ s.locked = false then
      some { s with stop := true, destructor := .stopSet }
    else none
  | .notifyAll =>
    if s.destructor = .stopSet then
      some { s with
        destructor := .notified
        workers := s.workers.map fun w => if w.isBlocked then .checking else w }
    else none
  | .join =>
    if s.destructor = .notified ∧ s.workers.all (fun w => match w with
        | .exited => true
        | _ => false) then some { s with destructor := .joined }
    else none
  -- spurious wake-ups
  | .wakeWorker i => (notifyWorker s.workers (some i)).map fun workers => { s with workers }
  | .wakeDrainer d => (notifyDrainer s.drainers (some d)).map fun drainers => { s with drainers }

end ThreadPool

end Rpc
