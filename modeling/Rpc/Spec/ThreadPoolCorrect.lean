import Rpc.ForStd.List
import Rpc.Native.ThreadPool

/-!
# The thread pool

`ThreadPool.Steps` lists the outcomes of a step.  `PlacedInv` says where every
accepted task is: in the queue, held by a worker that has not run it yet, or
among the finished ones, and in exactly one of these places.  `ActiveInv` says
that `active_tasks_` counts the workers between its two updates.

`drain()` looks at the queue and at `active_tasks_`.  Between its pop and its
increment of `active_tasks_` a worker holds a task that neither shows:
`drain_sound` says that this is the only way for `drain()` to return too early.
-/

namespace Rpc.ThreadPool

open Transition

variable {τ : Type}

/-! ## What a step can do -/

/-- The outcomes of a step. -/
inductive Steps (s : ThreadPool τ) : Act τ → ThreadPool τ → Prop where
  /-- `enqueue()` pushes the task, and has still to notify -/
  | accept (job : τ) (hstop : s.stop = false) (hfree : s.locked = false) :
      Steps s (.enqueue job)
        { s with
          tasks := s.tasks ++ [{ id := s.accepted.length, job }]
          pendingCount := s.pendingCount + 1
          enqueuing := s.enqueuing ++ [s.accepted.length]
          accepted := s.accepted ++ [{ id := s.accepted.length, job }] }
  /-- `enqueue()` throws -/
  | reject (job : τ) (hstop : s.stop = true) (hfree : s.locked = false) :
      Steps s (.enqueue job) s
  /-- `enqueue()` notifies `cv_` and returns -/
  | notifyOne (id : Nat) (wakes : Option Nat) (workers : List (Worker τ))
      (hid : id ∈ s.enqueuing) (hw : notifyWorker s.workers wakes = some workers) :
      Steps s (.notifyOne id wakes)
        { s with workers, enqueuing := s.enqueuing.erase id, returned := s.returned ++ [id] }
  /-- a worker takes the first task -/
  | pop (i : Nat) (task : Task τ) (tasks : List (Task τ)) (hi : s.workers[i]? = some .checking)
      (ht : s.tasks = task :: tasks) (hfree : s.locked = false) :
      Steps s (.check i) { s with tasks, workers := s.workers.set i (.popped task) }
  /-- a worker finds a stopped pool and an empty queue -/
  | exit (i : Nat) (hi : s.workers[i]? = some .checking) (ht : s.tasks = [])
      (hstop : s.stop = true) (hfree : s.locked = false) :
      Steps s (.check i) { s with workers := s.workers.set i .exited }
  /-- a worker finds an empty queue, and waits -/
  | sleep (i : Nat) (hi : s.workers[i]? = some .checking) (ht : s.tasks = [])
      (hstop : s.stop = false) (hfree : s.locked = false) :
      Steps s (.check i) { s with workers := s.workers.set i .blocked }
  /-- a worker counts its task, and begins with it -/
  | activate (i : Nat) (task : Task τ) (hi : s.workers[i]? = some (.popped task)) :
      Steps s (.activate i)
        { s with activeTasks := s.activeTasks + 1, workers := s.workers.set i (.running task) }
  /-- the task has returned or thrown -/
  | finish (i : Nat) (task : Task τ) (hi : s.workers[i]? = some (.running task)) :
      Steps s (.finish i)
        { s with finished := s.finished ++ [task], workers := s.workers.set i (.ran task) }
  /-- `active_tasks_` is lowered -/
  | deactivate (i : Nat) (task : Task τ) (hi : s.workers[i]? = some (.ran task)) :
      Steps s (.deactivate i)
        { s with activeTasks := s.activeTasks - 1, workers := s.workers.set i (.retired task) }
  /-- `completed_count_` is raised -/
  | count (i : Nat) (task : Task τ) (hi : s.workers[i]? = some (.retired task)) :
      Steps s (.count i)
        { s with completed := s.completed + 1, workers := s.workers.set i (.counted task) }
  /-- `pending_count_` is lowered -/
  | settle (i : Nat) (task : Task τ) (hi : s.workers[i]? = some (.counted task)) :
      Steps s (.settle i)
        { s with pendingCount := s.pendingCount - 1, workers := s.workers.set i .notifying }
  /-- the worker notifies `drain_cv_`, and looks for the next task -/
  | notifyDrain (i : Nat) (wakes : Option Nat) (drainers : List Drainer)
      (hi : s.workers[i]? = some .notifying)
      (hd : notifyDrainer s.drainers wakes = some drainers) :
      Steps s (.notifyDrain i wakes)
        { s with drainers, workers := s.workers.set i .checking }
  /-- somebody calls `drain()` -/
  | drain : Steps s .drain
      { s with drainers := s.drainers ++ [{ phase := .checking, early := s.returned }] }
  /-- `drain()` finds its predicate true, and returns -/
  | drainReturn (d : Nat) (drainer : Drainer) (hd : s.drainers[d]? = some drainer)
      (hphase : drainer.phase = .checking) (hdrained : s.drained = true)
      (hfree : s.locked = false) :
      Steps s (.drainCheck d)
        { s with drainers := s.drainers.set d { drainer with phase := .returned } }
  /-- `drain()` finds its predicate false -/
  | drainStay (d : Nat) (drainer : Drainer) (hd : s.drainers[d]? = some drainer)
      (hphase : drainer.phase = .checking) (hdrained : s.drained = false)
      (hfree : s.locked = false) :
      Steps s (.drainCheck d)
        { s with drainers := s.drainers.set d { drainer with phase := .blocking } }
  /-- and waits -/
  | drainSleep (d : Nat) (drainer : Drainer) (hd : s.drainers[d]? = some drainer)
      (hphase : drainer.phase = .blocking) :
      Steps s (.drainBlock d)
        { s with drainers := s.drainers.set d { drainer with phase := .blocked } }
  /-- the destructor sets `stop_` -/
  | setStop (hdes : s.destructor = .notStarted) (hfree : s.locked = false) :
      Steps s .setStop { s with stop := true, destructor := .stopSet }
  /-- the destructor wakes all workers -/
  | notifyAll (hdes : s.destructor = .stopSet) :
      Steps s .notifyAll
        { s with
          destructor := .notified
          workers := s.workers.map fun w => if w.isBlocked then .checking else w }
  /-- the destructor has joined all workers -/
  | join (hdes : s.destructor = .notified) (hexit : ∀ w ∈ s.workers, w = .exited) :
      Steps s .join { s with destructor := .joined }
  /-- a spurious wakeup of a worker -/
  | wakeWorker (i : Nat) (workers : List (Worker τ))
      (hw : notifyWorker s.workers (some i) = some workers) :
      Steps s (.wakeWorker i) { s with workers }
  /-- a spurious wakeup of a `drain()` -/
  | wakeDrainer (d : Nat) (drainers : List Drainer)
      (hd : notifyDrainer s.drainers (some d) = some drainers) :
      Steps s (.wakeDrainer d) { s with drainers }

/-- The critical section of a worker. -/
private theorem steps_check {s s' : ThreadPool τ} {i : Nat} (h : s.step (.check i) = some s') :
    Steps s (.check i) s' := by
  simp only [step] at h
  split at h
  · rename_i hi
    split at h
    · cases h
    · rename_i hfree
      obtain rfl := Option.some.inj h
      have hfree : s.locked = false := by simpa using hfree
      unfold check
      split
      · rename_i task tasks ht
        exact .pop i task tasks hi ht hfree
      · rename_i ht
        split
        · rename_i hstop
          exact .exit i hi ht hstop hfree
        · rename_i hstop
          exact .sleep i hi ht (by simpa using hstop) hfree
  · cases h

/-- The critical section of `drain()`. -/
private theorem steps_drainCheck {s s' : ThreadPool τ} {d : Nat}
    (h : s.step (.drainCheck d) = some s') : Steps s (.drainCheck d) s' := by
  simp only [step] at h
  split at h
  · rename_i drainer hd
    split at h
    · rename_i hphase
      obtain rfl := Option.some.inj h
      cases hdrained : s.drained with
      | true => exact .drainReturn d drainer hd hphase.1 hdrained hphase.2
      | false => exact .drainStay d drainer hd hphase.1 hdrained hphase.2
    · cases h
  · cases h

/-- A step has one of the outcomes of `Steps`. -/
theorem steps_of_step {s s' : ThreadPool τ} {a : Act τ} (h : s.step a = some s') :
    Steps s a s' := by
  cases a with
  | enqueue job =>
    simp only [step, enqueue] at h
    split at h
    · cases h
    · rename_i hfree
      have hfree : s.locked = false := by simpa using hfree
      by_cases hstop : s.stop = true
      · rw [if_pos hstop] at h
        obtain rfl := Option.some.inj h
        exact .reject job hstop hfree
      · rw [if_neg hstop] at h
        obtain rfl := Option.some.inj h
        exact .accept job (by simpa using hstop) hfree
  | notifyOne id wakes =>
    simp only [step] at h
    split at h
    · rename_i hid
      obtain ⟨workers, hw, rfl⟩ := Option.map_eq_some_iff.mp h
      exact .notifyOne id wakes workers hid hw
    · cases h
  | check i => exact steps_check h
  | activate i =>
    simp only [step] at h
    split at h
    · rename_i task hi
      obtain rfl := Option.some.inj h
      exact .activate i task hi
    · cases h
  | finish i =>
    simp only [step] at h
    split at h
    · rename_i task hi
      obtain rfl := Option.some.inj h
      exact .finish i task hi
    · cases h
  | deactivate i =>
    simp only [step] at h
    split at h
    · rename_i task hi
      obtain rfl := Option.some.inj h
      exact .deactivate i task hi
    · cases h
  | count i =>
    simp only [step] at h
    split at h
    · rename_i task hi
      obtain rfl := Option.some.inj h
      exact .count i task hi
    · cases h
  | settle i =>
    simp only [step] at h
    split at h
    · rename_i task hi
      obtain rfl := Option.some.inj h
      exact .settle i task hi
    · cases h
  | notifyDrain i wakes =>
    simp only [step] at h
    split at h
    · rename_i hi
      obtain ⟨drainers, hd, rfl⟩ := Option.map_eq_some_iff.mp h
      exact .notifyDrain i wakes drainers hi hd
    · cases h
  | drain =>
    obtain rfl := Option.some.inj h
    exact .drain
  | drainCheck d => exact steps_drainCheck h
  | drainBlock d =>
    simp only [step] at h
    split at h
    · rename_i drainer hd
      split at h
      · rename_i hphase
        obtain rfl := Option.some.inj h
        exact .drainSleep d drainer hd hphase
      · cases h
    · cases h
  | setStop =>
    simp only [step] at h
    split at h
    · rename_i hdes
      obtain rfl := Option.some.inj h
      exact .setStop hdes.1 hdes.2
    · cases h
  | notifyAll =>
    simp only [step] at h
    split at h
    · rename_i hdes
      obtain rfl := Option.some.inj h
      exact .notifyAll hdes
    · cases h
  | join =>
    simp only [step] at h
    split at h
    · rename_i hguard
      obtain rfl := Option.some.inj h
      refine .join hguard.1 fun w hw => ?_
      have hexit := List.all_eq_true.mp hguard.2 w hw
      -- `all` leaves `exited` only
      cases w <;> first | rfl | cases hexit
    · cases h
  | wakeWorker i =>
    obtain ⟨workers, hw, rfl⟩ := Option.map_eq_some_iff.mp h
    exact .wakeWorker i workers hw
  | wakeDrainer d =>
    obtain ⟨drainers, hd, rfl⟩ := Option.map_eq_some_iff.mp h
    exact .wakeDrainer d drainers hd

/-- `enqueue()` is a step when nobody holds `mux_`. -/
theorem step_enqueue {s s' : ThreadPool τ} {job : τ} (h : s.enqueue job = .ok s')
    (hfree : s.locked = false) : s.step (.enqueue job) = some s' := by
  simp [step, h, hfree]

/-- A notification wakes one blocked worker; it changes nothing if there is none. -/
theorem notifyWorker_cases {workers workers' : List (Worker τ)} {wakes : Option Nat}
    (h : notifyWorker workers wakes = some workers') :
    (workers.any Worker.isBlocked = false ∧ workers' = workers) ∨
      ∃ i : Nat, workers[i]? = some .blocked ∧ workers' = workers.set i .checking := by
  cases wakes with
  | none =>
    simp only [notifyWorker] at h
    split at h
    · cases h
    · rename_i hblocked
      exact .inl ⟨by simpa using hblocked, (Option.some.inj h).symm⟩
  | some i =>
    simp only [notifyWorker] at h
    split at h
    · rename_i hany
      refine .inr ⟨i, ?_, (Option.some.inj h).symm⟩
      cases hi : workers[i]? with
      | none => simp [hi] at hany
      | some w =>
        cases w <;> first | rfl | simp [hi, Worker.isBlocked] at hany
    · cases h

/-- A notification wakes one blocked `drain()` or changes nothing. -/
theorem notifyDrainer_cases {drainers drainers' : List Drainer} {wakes : Option Nat}
    (h : notifyDrainer drainers wakes = some drainers') :
    drainers' = drainers ∨ ∃ (d : Nat) (drainer : Drainer), drainers[d]? = some drainer ∧
      drainer.phase = .blocked ∧
      drainers' = drainers.set d { drainer with phase := .checking } := by
  cases wakes with
  | none =>
    simp only [notifyDrainer] at h
    split at h
    · cases h
    · exact .inl (Option.some.inj h).symm
  | some d =>
    simp only [notifyDrainer] at h
    split at h
    · rename_i drainer hd
      split at h
      · rename_i hphase
        exact .inr ⟨d, drainer, hd, hphase, (Option.some.inj h).symm⟩
      · cases h
    · cases h

/-! ## Where the accepted tasks are -/

/-- The task a worker has popped and not yet run. -/
def Worker.held : Worker τ → Option (Task τ)
  | .popped task | .running task => some task
  | _ => none

/-- The tasks held by workers. -/
def held (s : ThreadPool τ) : List (Task τ) := s.workers.filterMap Worker.held

/-- Each accepted task is finished, held or queued, and only one of these. -/
structure PlacedInv (s : ThreadPool τ) : Prop where
  placed : (s.finished ++ (s.held ++ s.tasks)).Perm s.accepted
  ids : s.accepted.map Task.id = List.range s.accepted.length

/-- At the beginning there are no tasks. -/
theorem placedInv_init (n : UInt64) (hw : UInt32) : PlacedInv (init n hw : ThreadPool τ) := by
  constructor
  · simp [init, held, Worker.held]
  · rfl

/-- A step that leaves the tasks where they are. -/
theorem PlacedInv.of_eq {s s' : ThreadPool τ} (hinv : PlacedInv s) (hheld : s'.held = s.held)
    (htasks : s'.tasks = s.tasks) (hfin : s'.finished = s.finished)
    (hacc : s'.accepted = s.accepted) : PlacedInv s' := by
  constructor
  · rw [hheld, htasks, hfin, hacc]
    exact hinv.placed
  · rw [hacc]
    exact hinv.ids

/-- A task is accepted into the queue. -/
theorem PlacedInv.accept {s : ThreadPool τ} (hinv : PlacedInv s) (job : τ) :
    PlacedInv { s with
      tasks := s.tasks ++ [{ id := s.accepted.length, job }]
      pendingCount := s.pendingCount + 1
      enqueuing := s.enqueuing ++ [s.accepted.length]
      accepted := s.accepted ++ [{ id := s.accepted.length, job }] } := by
  constructor
  -- at the end of the queue, under the next number
  · show (s.finished ++ (s.held ++ (s.tasks ++ _))).Perm (s.accepted ++ _)
    rw [← List.append_assoc s.held, ← List.append_assoc s.finished]
    exact hinv.placed.append_right _
  · show (s.accepted ++ _).map Task.id = List.range (s.accepted ++ _).length
    rw [List.map_append, hinv.ids, List.length_append, List.length_singleton, List.range_succ]
    rfl

/-- A task is taken from the queue. -/
theorem PlacedInv.pop {s : ThreadPool τ} (hinv : PlacedInv s) {i : Nat} {task : Task τ}
    {tasks : List (Task τ)} (hi : s.workers[i]? = some .checking) (ht : s.tasks = task :: tasks) :
    PlacedInv { s with tasks, workers := s.workers.set i (.popped task) } := by
  constructor
  · have hheld : ((s.workers.set i (.popped task)).filterMap Worker.held).Perm
        (task :: s.held) :=
      List.filterMap_set_perm Worker.held (.popped task) hi
    -- from the head of the queue into the hands of worker `i`
    have hmove : ((s.workers.set i (.popped task)).filterMap Worker.held ++ tasks).Perm
        (s.held ++ s.tasks) := by
      rw [ht]
      exact (hheld.append_right tasks).trans List.perm_middle.symm
    exact (hmove.append_left s.finished).trans hinv.placed
  · exact hinv.ids

/-- A task has run. -/
theorem PlacedInv.finish {s : ThreadPool τ} (hinv : PlacedInv s) {i : Nat} {task : Task τ}
    (hi : s.workers[i]? = some (.running task)) :
    PlacedInv { s with
      finished := s.finished ++ [task], workers := s.workers.set i (.ran task) } := by
  constructor
  · -- from the hands of worker `i` to the end of the finished ones
    have hheld : (task :: (s.workers.set i (.ran task)).filterMap Worker.held).Perm s.held :=
      List.filterMap_set_perm Worker.held (.ran task) hi
    show (s.finished ++ [task] ++ _).Perm s.accepted
    rw [List.append_assoc, List.singleton_append, ← List.cons_append]
    exact ((hheld.append_right s.tasks).append_left s.finished).trans hinv.placed
  · exact hinv.ids

/-- Every step keeps the tasks placed. -/
theorem Steps.placedInv {s s' : ThreadPool τ} {a : Act τ} (h : Steps s a s')
    (hinv : PlacedInv s) : PlacedInv s' := by
  -- a worker that moves on without popping or finishing holds what it held
  have hset : ∀ (i : Nat) (w w' : Worker τ), s.workers[i]? = some w → w'.held = w.held →
      (s.workers.set i w').filterMap Worker.held = s.held :=
    fun i w w' hi heq => List.filterMap_set_of_eq Worker.held hi heq
  -- a worker that is woken holds nothing
  have hwake : ∀ wakes workers, notifyWorker s.workers wakes = some workers →
      workers.filterMap Worker.held = s.held := by
    intro wakes workers hw
    obtain ⟨-, rfl⟩ | ⟨i, hi, rfl⟩ := notifyWorker_cases hw
    · rfl
    · exact hset i _ _ hi rfl
  cases h with
  | accept job hstop => exact hinv.accept job
  | pop i task tasks hi ht => exact hinv.pop hi ht
  | finish i task hi => exact hinv.finish hi
  | notifyOne id wakes workers hid hw => exact hinv.of_eq (hwake _ _ hw) rfl rfl rfl
  | wakeWorker i workers hw => exact hinv.of_eq (hwake _ _ hw) rfl rfl rfl
  | exit i hi => exact hinv.of_eq (hset i _ _ hi rfl) rfl rfl rfl
  | sleep i hi => exact hinv.of_eq (hset i _ _ hi rfl) rfl rfl rfl
  | activate i task hi => exact hinv.of_eq (hset i _ _ hi rfl) rfl rfl rfl
  | deactivate i task hi => exact hinv.of_eq (hset i _ _ hi rfl) rfl rfl rfl
  | count i task hi => exact hinv.of_eq (hset i _ _ hi rfl) rfl rfl rfl
  | settle i task hi => exact hinv.of_eq (hset i _ _ hi rfl) rfl rfl rfl
  | notifyDrain i wakes drainers hi hd => exact hinv.of_eq (hset i _ _ hi rfl) rfl rfl rfl
  | notifyAll hdes =>
    refine hinv.of_eq ?_ rfl rfl rfl
    show (s.workers.map _).filterMap Worker.held = s.workers.filterMap Worker.held
    rw [List.filterMap_map]
    apply List.filterMap_congr
    intro w _
    cases w <;> rfl
  | reject | drain | drainReturn | drainStay | drainSleep | setStop | join | wakeDrainer =>
    exact hinv.of_eq rfl rfl rfl rfl

/-- Tasks are placed in every state of a run. -/
theorem placedInv_of_reachable {n : UInt64} {hw : UInt32} {s : ThreadPool τ}
    (h : Reachable step (init n hw) s) : PlacedInv s :=
  h.invariant (placedInv_init n hw) fun _ _ _ hinv _ hs => (steps_of_step hs).placedInv hinv

/-- No two accepted tasks have the same number. -/
theorem PlacedInv.nodup {s : ThreadPool τ} (hinv : PlacedInv s) :
    ((s.finished ++ (s.held ++ s.tasks)).map Task.id).Nodup := by
  apply (hinv.placed.map Task.id).nodup_iff.mpr
  rw [hinv.ids]
  exact List.nodup_range

/-- A task with an accepted number is finished, held or queued. -/
theorem PlacedInv.exists_of_lt {s : ThreadPool τ} (hinv : PlacedInv s) {id : Nat}
    (hid : id < s.accepted.length) :
    ∃ task, task.id = id ∧ (task ∈ s.finished ∨ task ∈ s.held ∨ task ∈ s.tasks) := by
  have hmem : id ∈ s.accepted.map Task.id := by
    rw [hinv.ids]
    exact List.mem_range.mpr hid
  obtain ⟨task, htask, heq⟩ := List.mem_map.mp hmem
  have hplace := hinv.placed.mem_iff.mpr htask
  rw [List.mem_append, List.mem_append] at hplace
  exact ⟨task, heq, hplace⟩

/-! ## The tasks not yet started -/

/-- The task a worker has popped and not yet started. -/
def Worker.fetched : Worker τ → Option (Task τ)
  | .popped task => some task
  | _ => none

/-- The tasks in the queue and in the hands of workers that have not started them. -/
def unstarted (s : ThreadPool τ) : List (Task τ) :=
  s.workers.filterMap Worker.fetched ++ s.tasks

/-- `enqueue()` adds a task to those not started. -/
theorem unstarted_enqueue {s s' : ThreadPool τ} {job : τ} (h : s.enqueue job = .ok s') :
    s'.unstarted = s.unstarted ++ [{ id := s.accepted.length, job }] := by
  simp only [enqueue] at h
  split at h
  · cases h
  · obtain rfl := Except.ok.inj h
    exact (List.append_assoc _ _ _).symm

/-- A worker that starts its task takes it from those not started. -/
theorem unstarted_activate {s s' : ThreadPool τ} {i : Nat} {task : Task τ}
    (hi : s.workers[i]? = some (.popped task)) (h : s.step (.activate i) = some s') :
    (task :: s'.unstarted).Perm s.unstarted := by
  simp only [step, hi] at h
  obtain rfl := Option.some.inj h
  have hperm : (task :: (s.workers.set i (.running task)).filterMap Worker.fetched).Perm
      (s.workers.filterMap Worker.fetched) :=
    List.filterMap_set_perm Worker.fetched (.running task) hi
  exact hperm.append_right s.tasks

/-- All other steps leave the tasks not started alone. -/
theorem Steps.unstarted_perm {s s' : ThreadPool τ} {a : Act τ} (h : Steps s a s')
    (henq : ∀ job, a ≠ .enqueue job) (hact : ∀ i, a ≠ .activate i) :
    s'.unstarted.Perm s.unstarted := by
  -- a worker that moves on without fetching or starting a task
  have hset : ∀ (i : Nat) (w w' : Worker τ), s.workers[i]? = some w → w'.fetched = w.fetched →
      ((s.workers.set i w').filterMap Worker.fetched ++ s.tasks).Perm s.unstarted := by
    intro i w w' hi heq
    rw [List.filterMap_set_of_eq Worker.fetched hi heq]
    exact .refl _
  have hwake : ∀ wakes workers, notifyWorker s.workers wakes = some workers →
      (workers.filterMap Worker.fetched ++ s.tasks).Perm s.unstarted := by
    intro wakes workers hw
    obtain ⟨-, rfl⟩ | ⟨i, hi, rfl⟩ := notifyWorker_cases hw
    · exact .refl _
    · exact hset i _ _ hi rfl
  cases h with
  | accept job => exact absurd rfl (henq job)
  | reject job => exact absurd rfl (henq job)
  | activate i => exact absurd rfl (hact i)
  | pop i task tasks hi ht =>
    -- from the queue into a worker's hand
    have hperm : ((s.workers.set i (.popped task)).filterMap Worker.fetched).Perm
        (task :: s.workers.filterMap Worker.fetched) :=
      List.filterMap_set_perm Worker.fetched (.popped task) hi
    show ((s.workers.set i _).filterMap Worker.fetched ++ tasks).Perm _
    rw [unstarted, ht]
    exact (hperm.append_right tasks).trans List.perm_middle.symm
  | notifyOne id wakes workers hid hw => exact hwake _ _ hw
  | wakeWorker i workers hw => exact hwake _ _ hw
  | exit i hi => exact hset i _ _ hi rfl
  | sleep i hi => exact hset i _ _ hi rfl
  | finish i task hi => exact hset i _ _ hi rfl
  | deactivate i task hi => exact hset i _ _ hi rfl
  | count i task hi => exact hset i _ _ hi rfl
  | settle i task hi => exact hset i _ _ hi rfl
  | notifyDrain i wakes drainers hi hd => exact hset i _ _ hi rfl
  | notifyAll hdes =>
    show ((s.workers.map _).filterMap Worker.fetched ++ s.tasks).Perm _
    rw [List.filterMap_map]
    have hsame : s.workers.filterMap (Worker.fetched ∘ fun w =>
        if w.isBlocked then .checking else w) = s.workers.filterMap Worker.fetched := by
      apply List.filterMap_congr
      intro w _
      cases w <;> rfl
    rw [hsame]
    exact .refl _
  | drain | drainReturn | drainStay | drainSleep | setStop | join | wakeDrainer => exact .refl _

/-! ## The active count -/

/-- The worker is between the two updates of `active_tasks_`. -/
def Worker.isActive : Worker τ → Bool
  | .running _ | .ran _ => true
  | _ => false

/-- `active_tasks_` counts the active workers, whose number fits. -/
structure ActiveInv (s : ThreadPool τ) : Prop where
  active : s.activeTasks = UInt64.ofNat (s.workers.countP Worker.isActive)
  size : s.workers.length < 2 ^ 64

/-- At the beginning nobody is active. -/
theorem activeInv_init (n : UInt64) (hw : UInt32) : ActiveInv (init n hw : ThreadPool τ) := by
  constructor
  · simp [init, List.countP_replicate, Worker.isActive]
  · simp only [init, List.length_replicate]
    exact UInt64.toNat_lt_size _

/-- A step that leaves the active workers alone. -/
theorem ActiveInv.of_eq {s s' : ThreadPool τ} (hinv : ActiveInv s)
    (hcount : s'.workers.countP Worker.isActive = s.workers.countP Worker.isActive)
    (hlen : s'.workers.length = s.workers.length) (hact : s'.activeTasks = s.activeTasks) :
    ActiveInv s' := by
  constructor
  · rw [hact, hcount]
    exact hinv.active
  · rw [hlen]
    exact hinv.size

/-- Every step keeps the count. -/
theorem Steps.activeInv {s s' : ThreadPool τ} {a : Act τ} (h : Steps s a s')
    (hinv : ActiveInv s) : ActiveInv s' := by
  -- a worker that stays active or inactive
  have hset : ∀ (i : Nat) (w w' : Worker τ), s.workers[i]? = some w → w'.isActive = w.isActive →
      (s.workers.set i w').countP Worker.isActive = s.workers.countP Worker.isActive := by
    intro i w w' hi heq
    have hcount := List.countP_set_add Worker.isActive w' hi
    rw [heq] at hcount
    exact Nat.add_right_cancel hcount
  have hwake : ∀ wakes workers, notifyWorker s.workers wakes = some workers →
      workers.countP Worker.isActive = s.workers.countP Worker.isActive ∧
        workers.length = s.workers.length := by
    intro wakes workers hw
    obtain ⟨-, rfl⟩ | ⟨i, hi, rfl⟩ := notifyWorker_cases hw
    · exact ⟨rfl, rfl⟩
    · exact ⟨hset i _ _ hi rfl, List.length_set⟩
  cases h with
  | activate i task hi =>
    have hcount : (s.workers.set i (.running task)).countP Worker.isActive =
        s.workers.countP Worker.isActive + 1 :=
      List.countP_set_add Worker.isActive (.running task) hi
    constructor
    · show s.activeTasks + 1 = _
      rw [hcount, UInt64.ofNat_add, hinv.active]
      rfl
    · show (s.workers.set i _).length < _
      rw [List.length_set]
      exact hinv.size
  | deactivate i task hi =>
    have hcount : (s.workers.set i (.retired task)).countP Worker.isActive + 1 =
        s.workers.countP Worker.isActive :=
      List.countP_set_add Worker.isActive (.retired task) hi
    constructor
    · show s.activeTasks - 1 = _
      rw [hinv.active, ← hcount, UInt64.ofNat_add]
      -- the count was positive, so the decrement does not wrap
      exact UInt64.add_sub_cancel _ _
    · show (s.workers.set i _).length < _
      rw [List.length_set]
      exact hinv.size
  | notifyOne id wakes workers hid hw =>
    exact hinv.of_eq (hwake _ _ hw).1 (hwake _ _ hw).2 rfl
  | wakeWorker i workers hw => exact hinv.of_eq (hwake _ _ hw).1 (hwake _ _ hw).2 rfl
  | pop i task tasks hi => exact hinv.of_eq (hset i _ _ hi rfl) List.length_set rfl
  | exit i hi => exact hinv.of_eq (hset i _ _ hi rfl) List.length_set rfl
  | sleep i hi => exact hinv.of_eq (hset i _ _ hi rfl) List.length_set rfl
  | finish i task hi => exact hinv.of_eq (hset i _ _ hi rfl) List.length_set rfl
  | count i task hi => exact hinv.of_eq (hset i _ _ hi rfl) List.length_set rfl
  | settle i task hi => exact hinv.of_eq (hset i _ _ hi rfl) List.length_set rfl
  | notifyDrain i wakes drainers hi hd => exact hinv.of_eq (hset i _ _ hi rfl) List.length_set rfl
  -- a worker that is woken was not active, and is not
  | notifyAll hdes =>
    refine hinv.of_eq ?_ (List.length_map _) rfl
    show (s.workers.map _).countP Worker.isActive = s.workers.countP Worker.isActive
    rw [List.countP_map]
    apply List.countP_congr
    intro w _
    cases w <;> rfl
  | accept | reject | drain | drainReturn | drainStay | drainSleep | setStop | join | wakeDrainer =>
    exact hinv.of_eq rfl rfl rfl

/-- The count is right in every state of a run. -/
theorem activeInv_of_reachable {n : UInt64} {hw : UInt32} {s : ThreadPool τ}
    (h : Reachable step (init n hw) s) : ActiveInv s :=
  h.invariant (activeInv_init n hw) fun _ _ _ hinv _ hs => (steps_of_step hs).activeInv hinv

/-- When `drain()`'s predicate holds, nothing is queued and nobody is active. -/
theorem ActiveInv.of_drained {s : ThreadPool τ} (hinv : ActiveInv s) (h : s.drained = true) :
    s.tasks = [] ∧ ∀ w ∈ s.workers, w.isActive = false := by
  simp only [drained, Bool.and_eq_true, List.isEmpty_iff, beq_iff_eq] at h
  refine ⟨h.1, ?_⟩
  -- a count below `2 ^ 64` that is 0 modulo it is 0
  have hcount : s.workers.countP Worker.isActive = 0 := by
    have hle : s.workers.countP Worker.isActive ≤ s.workers.length := List.countP_le_length
    have hzero := congrArg UInt64.toNat (hinv.active.symm.trans h.2)
    rw [UInt64.toNat_ofNat_of_lt' (Nat.lt_of_le_of_lt hle hinv.size)] at hzero
    exact hzero
  intro w hw
  have := List.countP_eq_zero.mp hcount w hw
  simpa using this

/-! ## `drain()` -/

/-- The tasks that workers have popped and not yet counted as active. -/
def fetched (s : ThreadPool τ) : List Nat := (s.workers.filterMap Worker.fetched).map Task.id

/-- Whenever `drain()`'s predicate is found true, no worker holds a task enqueued
    before the call that it has not yet counted in `active_tasks_`. -/
def DrainSafe (s : ThreadPool τ) : Act τ → Prop
  | .drainCheck d =>
    s.drained = true → ∀ drainer ∈ s.drainers[d]?, ∀ id ∈ drainer.early, id ∉ s.fetched
  | _ => True

instance (s : ThreadPool τ) : (a : Act τ) → Decidable (DrainSafe s a)
  | .drainCheck d => inferInstanceAs (Decidable
      (s.drained = true → ∀ drainer ∈ s.drainers[d]?, ∀ id ∈ drainer.early, id ∉ s.fetched))
  | .enqueue _ | .notifyOne .. | .check _ | .activate _ | .finish _ | .deactivate _ | .count _
  | .settle _ | .notifyDrain .. | .drain | .drainBlock _ | .setStop | .notifyAll | .join
  | .wakeWorker _ | .wakeDrainer _ => isTrue trivial

/-- Only accepted tasks have been returned to anybody. -/
structure KnownInv (s : ThreadPool τ) : Prop where
  enqueuing : ∀ id ∈ s.enqueuing, id < s.accepted.length
  returned : ∀ id ∈ s.returned, id < s.accepted.length
  early : ∀ d ∈ s.drainers, ∀ id ∈ d.early, id < s.accepted.length

/-- Waking a `drain()` does not change what it waits for. -/
theorem early_of_set {drainers : List Drainer} {d : Nat} {drainer : Drainer} {phase : DrainPhase}
    (hd : drainers[d]? = some drainer) {x : Drainer}
    (hx : x ∈ drainers.set d { drainer with phase }) : ∃ y ∈ drainers, y.early = x.early := by
  obtain hx | rfl := List.mem_or_eq_of_mem_set hx
  · exact ⟨x, hx, rfl⟩
  · exact ⟨drainer, List.mem_of_getElem? hd, rfl⟩

/-- Drainers that wait for what others waited for know accepted tasks only. -/
theorem KnownInv.drainers {s : ThreadPool τ} (hinv : KnownInv s) {drainers : List Drainer}
    (h : ∀ x ∈ drainers, ∃ y ∈ s.drainers, y.early = x.early) :
    ∀ d ∈ drainers, ∀ id ∈ d.early, id < s.accepted.length := by
  intro d hd id hid
  obtain ⟨y, hy, heq⟩ := h d hd
  exact hinv.early y hy id (heq ▸ hid)

/-- A notification does not change what a `drain()` waits for. -/
theorem notifyDrainer_early {drainers drainers' : List Drainer} {wakes : Option Nat}
    (h : notifyDrainer drainers wakes = some drainers') :
    ∀ x ∈ drainers', ∃ y ∈ drainers, y.early = x.early := by
  intro x hx
  obtain rfl | ⟨d, drainer, hd, _, rfl⟩ := notifyDrainer_cases h
  · exact ⟨x, hx, rfl⟩
  · exact early_of_set hd hx

/-- Every step returns accepted tasks only. -/
theorem Steps.knownInv {s s' : ThreadPool τ} {a : Act τ} (h : Steps s a s')
    (hinv : KnownInv s) : KnownInv s' := by
  cases h with
  | accept job hstop =>
    -- there is one more accepted task
    have hlt : ∀ id, id < s.accepted.length →
        id < (s.accepted ++ [(⟨s.accepted.length, job⟩ : Task τ)]).length := by
      intro id hid
      rw [List.length_append]
      omega
    refine ⟨?_, fun id hid => hlt id (hinv.returned id hid),
      fun d hd id hid => hlt id (hinv.early d hd id hid)⟩
    intro id hid
    obtain hid | hid := List.mem_append.mp hid
    · exact hlt id (hinv.enqueuing id hid)
    · obtain rfl := List.mem_singleton.mp hid
      simp
  | notifyOne id wakes workers hid hw =>
    refine ⟨fun x hx => hinv.enqueuing x (List.mem_of_mem_erase hx), ?_, hinv.early⟩
    intro x hx
    obtain hx | hx := List.mem_append.mp hx
    · exact hinv.returned x hx
    · obtain rfl := List.mem_singleton.mp hx
      exact hinv.enqueuing x hid
  | notifyDrain i wakes drainers hi hd | wakeDrainer d drainers hd =>
    exact ⟨hinv.enqueuing, hinv.returned, hinv.drainers (notifyDrainer_early hd)⟩
  | drain =>
    -- the new drainer knows the tasks whose `enqueue()` has returned
    refine ⟨hinv.enqueuing, hinv.returned, ?_⟩
    intro d hd
    obtain hd | hd := List.mem_append.mp hd
    · exact hinv.early d hd
    · obtain rfl := List.mem_singleton.mp hd
      exact hinv.returned
  | drainReturn d drainer hd hphase | drainStay d drainer hd hphase
  | drainSleep d drainer hd hphase =>
    -- the drainer only changes its phase
    exact ⟨hinv.enqueuing, hinv.returned, hinv.drainers fun x hx => early_of_set hd hx⟩
  | _ => exact ⟨hinv.enqueuing, hinv.returned, hinv.early⟩

/-- Only accepted tasks are known in every state of a run. -/
theorem knownInv_of_reachable {n : UInt64} {hw : UInt32} {s : ThreadPool τ}
    (h : Reachable step (init n hw) s) : KnownInv s :=
  h.invariant ⟨by simp [init], by simp [init], by simp [init]⟩
    fun _ _ _ hinv _ hs => (steps_of_step hs).knownInv hinv

/-- When the predicate is true, the tasks enqueued before the call have all run
    exactly when no worker has one of them in hand. -/
theorem finished_iff_not_fetched {s : ThreadPool τ} (hplaced : PlacedInv s)
    (hactive : ActiveInv s) (hknown : KnownInv s) {drainer : Drainer}
    (hd : drainer ∈ s.drainers) (hdrained : s.drained = true) :
    (∀ id ∈ drainer.early, ∃ task ∈ s.finished, task.id = id) ↔
      ∀ id ∈ drainer.early, id ∉ s.fetched := by
  obtain ⟨hempty, hidle⟩ := hactive.of_drained hdrained
  constructor
  · intro hfin id hid hfetched
    obtain ⟨task, htask, rfl⟩ := hfin id hid
    -- the fetched task is held, and a held task is not finished
    obtain ⟨task', htask', heq⟩ := List.mem_map.mp hfetched
    obtain ⟨w, hw, hwtask⟩ := List.mem_filterMap.mp htask'
    cases w with
    | popped task₀ =>
      obtain rfl := Option.some.inj hwtask
      have hheld : task₀ ∈ s.held := List.mem_filterMap.mpr ⟨_, hw, rfl⟩
      have hnodup := hplaced.nodup
      rw [List.map_append, List.nodup_append] at hnodup
      refine hnodup.2.2 task.id (List.mem_map_of_mem htask) task.id ?_ rfl
      rw [← heq]
      exact List.mem_map_of_mem (List.mem_append_left _ hheld)
    | checking | blocked | running | ran | retired | counted | notifying | exited =>
      cases hwtask
  · intro hnone id hid
    obtain ⟨task, rfl, hfin | hheld | hqueued⟩ :=
      hplaced.exists_of_lt (hknown.early drainer hd id hid)
    · exact ⟨task, hfin, rfl⟩
    · -- held: popped is excluded, running would be active
      obtain ⟨w, hw, hwheld⟩ := List.mem_filterMap.mp hheld
      cases w with
      | popped task' =>
        obtain rfl := Option.some.inj hwheld
        have hfetched : task'.id ∈ s.fetched :=
          List.mem_map_of_mem (List.mem_filterMap.mpr ⟨_, hw, rfl⟩)
        exact absurd hfetched (hnone _ hid)
      | running task' => cases hidle _ hw
      | checking | blocked | ran | retired | counted | notifying | exited =>
        cases hwheld
    · rw [hempty] at hqueued
      cases hqueued

/-- What has run stays on record. -/
theorem Steps.mem_finished {s s' : ThreadPool τ} {a : Act τ} (h : Steps s a s') {task : Task τ}
    (ht : task ∈ s.finished) : task ∈ s'.finished := by
  cases h with
  | finish i task' hi => exact List.mem_append_left _ ht
  | _ => exact ht

/-- Every `drain()` that has returned has waited for the tasks enqueued before it. -/
def DrainedInv (s : ThreadPool τ) : Prop :=
  ∀ d ∈ s.drainers, d.phase = .returned → ∀ id ∈ d.early, ∃ task ∈ s.finished, task.id = id

/-- A `drain()` that has not returned yet may change in any other way. -/
theorem DrainedInv.drainers {s s' : ThreadPool τ} {a : Act τ} (h : Steps s a s')
    (hinv : DrainedInv s)
    (hret : ∀ d ∈ s'.drainers, d.phase = .returned → d ∈ s.drainers) : DrainedInv s' := by
  intro d hd hphase id hid
  obtain ⟨task, htask, heq⟩ := hinv d (hret d hd hphase) hphase id hid
  exact ⟨task, h.mem_finished htask, heq⟩

/-- A notification lets no `drain()` return. -/
theorem notifyDrainer_returned {drainers drainers' : List Drainer} {wakes : Option Nat}
    (h : notifyDrainer drainers wakes = some drainers') :
    ∀ x ∈ drainers', x.phase = .returned → x ∈ drainers := by
  intro x hx hphase
  obtain rfl | ⟨d, drainer, hd, _, rfl⟩ := notifyDrainer_cases h
  · exact hx
  · obtain hx | rfl := List.mem_or_eq_of_mem_set hx
    · exact hx
    · cases hphase

/-- A step that meets the condition keeps `drain()` sound. -/
theorem Steps.drainedInv {s s' : ThreadPool τ} {a : Act τ} (h : Steps s a s')
    (hok : DrainSafe s a) (hplaced : PlacedInv s) (hactive : ActiveInv s) (hknown : KnownInv s)
    (hinv : DrainedInv s) : DrainedInv s' := by
  cases h with
  | drainReturn d drainer hd hphase hdrained =>
    intro x hx hret
    obtain hx | rfl := List.mem_or_eq_of_mem_set hx
    · exact hinv x hx hret
    · -- the call that returns now
      have hiff := finished_iff_not_fetched hplaced hactive hknown (List.mem_of_getElem? hd)
        hdrained
      exact hiff.mpr (hok hdrained drainer hd)
  -- none of the other steps lets a `drain()` return
  | drainStay d drainer hd hphase hdrained hfree =>
    refine hinv.drainers (.drainStay d drainer hd hphase hdrained hfree) ?_
    intro x hx hret
    obtain hx | rfl := List.mem_or_eq_of_mem_set hx
    · exact hx
    · cases hret
  | drainSleep d drainer hd hphase =>
    refine hinv.drainers (.drainSleep d drainer hd hphase) ?_
    intro x hx hret
    obtain hx | rfl := List.mem_or_eq_of_mem_set hx
    · exact hx
    · cases hret
  | drain =>
    refine hinv.drainers .drain ?_
    intro x hx hret
    obtain hx | hx := List.mem_append.mp hx
    · exact hx
    · obtain rfl := List.mem_singleton.mp hx
      cases hret
  | notifyDrain i wakes drainers hi hd =>
    exact hinv.drainers (.notifyDrain i wakes drainers hi hd) (notifyDrainer_returned hd)
  | wakeDrainer d drainers hd =>
    exact hinv.drainers (.wakeDrainer d drainers hd) (notifyDrainer_returned hd)
  | finish i task hi => exact hinv.drainers (.finish i task hi) fun x hx _ => hx
  | _ => exact hinv

/-- Every `drain()` that has returned has waited, in a run under the condition. -/
theorem drainedInv_of_reaches {n : UInt64} {hw : UInt32} {s : ThreadPool τ}
    (h : Reaches step DrainSafe (init n hw) s) : DrainedInv s := by
  apply h.invariant_with (I := fun s => PlacedInv s ∧ ActiveInv s ∧ KnownInv s)
  · intro s hs
    exact ⟨placedInv_of_reachable hs.reachable, activeInv_of_reachable hs.reachable,
      knownInv_of_reachable hs.reachable⟩
  -- at the beginning nobody has called `drain()`
  · intro d hd
    cases hd
  · intro s a s' hI hinv hok hs
    exact (steps_of_step hs).drainedInv hok hI.1 hI.2.1 hI.2.2 hinv

/-- In a run in which `drain()` never finds its predicate true while a worker
    holds an uncounted task enqueued before the call, every `drain()` that has
    returned has waited for all tasks enqueued before it.  In any run, a `drain()`
    about to return has done so exactly when no worker holds such a task. -/
theorem drain_sound (n : UInt64) (hw : UInt32) :
    (∀ s : ThreadPool τ, Reaches step DrainSafe (init n hw) s →
      ∀ d ∈ s.drainers, d.phase = .returned →
        ∀ id ∈ d.early, ∃ task ∈ s.finished, task.id = id) ∧
    ∀ s : ThreadPool τ, Reachable step (init n hw) s →
      ∀ d ∈ s.drainers, d.phase = .checking → s.drained = true →
        ((∀ id ∈ d.early, ∃ task ∈ s.finished, task.id = id) ↔
          ∀ id ∈ d.early, id ∉ s.fetched) := by
  constructor
  · intro s h
    exact drainedInv_of_reaches h
  · intro s h d hd _ hdrained
    exact finished_iff_not_fetched (placedInv_of_reachable h) (activeInv_of_reachable h)
      (knownInv_of_reachable h) hd hdrained

/-- A pool of one worker: `drain()` finds the task running, sleeps, and returns
    after it. -/
theorem drain_sound_oneTask :
    ∃ s : ThreadPool Unit, Reaches step DrainSafe (init 1 0) s ∧
      s.drainers = [{ phase := .returned, early := [0] }] ∧ ∃ task ∈ s.finished, task.id = 0 := by
  have hrun : ∃ s : ThreadPool Unit, Reaches step DrainSafe (init 1 0) s ∧
      s.drainers = [{ phase := .returned, early := [0] }] := exists_reaches_of_run
    [.check 0, .enqueue (), .notifyOne 0 (some 0), .check 0, .activate 0, .drain, .drainCheck 0,
     .drainBlock 0, .finish 0, .deactivate 0, .count 0, .settle 0, .notifyDrain 0 (some 0),
     .drainCheck 0]
    (by decide)
  obtain ⟨s, hs, hd⟩ := hrun
  have hmem : { phase := .returned, early := [0] } ∈ s.drainers := by rw [hd]; simp
  exact ⟨s, hs, hd, (drain_sound 1 0).1 s hs _ hmem rfl 0 (by simp)⟩

/-- `drain()` returns between the pop of a task enqueued before and its increment
    of `active_tasks_`: the task has not run. -/
theorem drain_returns_early :
    ∃ s : ThreadPool Unit, Reachable step (init 1 0) s ∧
      s.drainers = [{ phase := .returned, early := [0] }] ∧ s.finished = [] :=
  exists_reachable_of_run
    [.enqueue (), .notifyOne 0 none, .check 0, .drain, .drainCheck 0] (by decide)

end Rpc.ThreadPool
