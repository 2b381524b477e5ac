import Rpc.Spec.ThreadPoolProgress

/-!
# Every accepted task runs exactly once

`PlacedInv` keeps every accepted task in one place; `dequeued_append_tasks` says
that the tasks leave the queue in the order in which they were accepted.  A pool
at rest, and a pool whose destructor has joined its workers, has no task in the
queue and none in a worker's hands, so that it has run all of them.

`PendingInv` accounts for `pending_count_`: `enqueue()` raises it under `mux_`
together with the push, and a worker lowers it in a step of its own, after it has
run the task and before it notifies `drain_cv_`.
-/

namespace Rpc.ThreadPool

open Transition

variable {τ : Type}

/-! ## The order of the tasks -/

/-- The task this step takes from the queue, if it does. -/
def dequeues (s : ThreadPool τ) : Act τ → List (Task τ)
  | .check _ => s.tasks.take 1
  | _ => []

/-- The tasks taken from the queue by a run from `s`, in order. -/
def dequeued (s : ThreadPool τ) : List (Act τ) → List (Task τ)
  | [] => []
  | a :: acts =>
    match s.step a with
    | some s' => s.dequeues a ++ dequeued s' acts
    | none => []

/-- A step appends what it accepts to the queue and takes from its front. -/
theorem Steps.dequeues {s s' : ThreadPool τ} {a : Act τ} (h : Steps s a s') :
    ∃ new, s'.accepted = s.accepted ++ new ∧ s.dequeues a ++ s'.tasks = s.tasks ++ new := by
  cases h with
  | accept job => exact ⟨[⟨s.accepted.length, job⟩], rfl, rfl⟩
  | pop i task tasks hi ht =>
    refine ⟨[], (List.append_nil _).symm, ?_⟩
    show s.tasks.take 1 ++ tasks = s.tasks ++ []
    rw [ht, List.append_nil]
    rfl
  | exit i hi ht | sleep i hi ht =>
    -- there is no task to take
    refine ⟨[], (List.append_nil _).symm, ?_⟩
    show s.tasks.take 1 ++ s.tasks = s.tasks ++ []
    rw [ht]
    rfl
  | _ => exact ⟨[], (List.append_nil _).symm, (List.append_nil _).symm⟩

/-- Along a run, what is dequeued and what is left in the queue is what was in the
    queue and what has been accepted, in this order. -/
theorem dequeued_append_tasks {s t : ThreadPool τ} (acts : List (Act τ))
    (h : run step s acts = some t) :
    ∃ new, t.accepted = s.accepted ++ new ∧ s.dequeued acts ++ t.tasks = s.tasks ++ new := by
  induction acts generalizing s with
  | nil =>
    obtain rfl := Option.some.inj h
    exact ⟨[], (List.append_nil _).symm, (List.append_nil _).symm⟩
  | cons a acts ih =>
    simp only [run] at h
    split at h
    · rename_i s₁ hs₁
      obtain ⟨new₁, hacc₁, htasks₁⟩ := (steps_of_step hs₁).dequeues
      obtain ⟨new₂, hacc₂, htasks₂⟩ := ih h
      refine ⟨new₁ ++ new₂, ?_, ?_⟩
      · rw [hacc₂, hacc₁, List.append_assoc]
      · simp only [dequeued, hs₁]
        rw [List.append_assoc, htasks₂, ← List.append_assoc, htasks₁, List.append_assoc]
    · cases h

/-! ## The tasks that have run -/

/-- No task has run twice. -/
theorem PlacedInv.count_finished_le {s : ThreadPool τ} (hinv : PlacedInv s) (id : Nat) :
    (s.finished.map Task.id).count id ≤ 1 := by
  have hnodup := hinv.nodup
  rw [List.map_append, List.nodup_append] at hnodup
  exact List.nodup_iff_count.mp hnodup.1 id

/-- When nothing is queued and nothing is held, every accepted task has run once. -/
theorem PlacedInv.count_finished {s : ThreadPool τ} (hinv : PlacedInv s) (hheld : s.held = [])
    (htasks : s.tasks = []) : ∀ task ∈ s.accepted, (s.finished.map Task.id).count task.id = 1 := by
  intro task hmem
  have hplaced := hinv.placed
  rw [hheld, htasks, List.append_nil, List.append_nil] at hplaced
  -- it is in none of the other places, so it has run
  have hfin : task.id ∈ s.finished.map Task.id :=
    List.mem_map_of_mem (hplaced.mem_iff.mpr hmem)
  have hpos := List.count_pos_iff.mpr hfin
  have hle := hinv.count_finished_le task.id
  omega

/-- A worker that sleeps or is gone holds nothing. -/
theorem held_eq_nil {s : ThreadPool τ} (h : ∀ w ∈ s.workers, w.isAwake = false) :
    s.held = [] := by
  apply List.filterMap_eq_nil_iff.mpr
  intro w hw
  have hasleep := h w hw
  cases w <;> first | rfl | cases hasleep

/-- A pool at rest, or one whose workers have been joined, is done with every task. -/
theorem nothing_left {n : UInt64} {hw : UInt32} {s : ThreadPool τ}
    (h : Reachable step (init n hw) s) (hover : s.Rests ∨ s.destructor = .joined) :
    s.held = [] ∧ s.tasks = [] := by
  obtain hrests | hjoined := hover
  · have hunstarted := unstarted_eq_nil (wakeInv_of_reachable h) hrests.asleep hrests.enqueuing
    exact ⟨held_eq_nil hrests.asleep, (List.append_eq_nil_iff.mp hunstarted).2⟩
  · have hexited := (downInv_of_reachable h).joined hjoined
    have hasleep : ∀ w ∈ s.workers, w.isAwake = false := by
      intro w hmem
      rw [hexited w hmem]
      rfl
    -- there is a worker, and it left an empty queue behind
    obtain ⟨w, hmem⟩ := List.exists_mem_of_ne_nil _ (wakeInv_of_reachable h).nonempty
    obtain rfl := hexited w hmem
    exact ⟨held_eq_nil hasleep, ((wakeInv_of_reachable h).exited hmem).2⟩

/-! ## A stopped pool -/

/-- A stopped pool stays stopped and accepts nothing. -/
theorem Steps.stopped {s s' : ThreadPool τ} {a : Act τ} (h : Steps s a s')
    (hstop : s.stop = true) : s'.stop = true ∧ s'.accepted = s.accepted := by
  cases h with
  | accept job hrun =>
    rw [hstop] at hrun
    cases hrun
  | setStop => exact ⟨rfl, rfl⟩
  | _ => exact ⟨hstop, rfl⟩

/-- A run from a stopped pool accepts nothing. -/
theorem stopped_of_run {s t : ThreadPool τ} (acts : List (Act τ)) (h : run step s acts = some t)
    (hstop : s.stop = true) : t.accepted = s.accepted := by
  have hreach := reachable_of_run acts h
  have hkept : t.stop = true ∧ t.accepted = s.accepted := by
    apply hreach.invariant (P := fun t => t.stop = true ∧ t.accepted = s.accepted) ⟨hstop, rfl⟩
    intro u a u' hu _ hs
    obtain ⟨hstop', hacc⟩ := (steps_of_step hs).stopped hu.1
    exact ⟨hstop', hacc.trans hu.2⟩
  exact hkept.2

/-! ## The pending count -/

/-- The worker holds a task that `pending_count_` still counts. -/
def Worker.isPending : Worker τ → Bool
  | .popped _ | .running _ | .ran _ | .retired _ | .counted _ => true
  | _ => false

/-- The tasks in the queue and those of workers that have not yet counted them off. -/
def pending (s : ThreadPool τ) : Nat := s.tasks.length + s.workers.countP Worker.isPending

/-- `pending_count_` as a `size_t`. -/
def PendingInv (s : ThreadPool τ) : Prop := s.pendingCount = UInt64.ofNat s.pending

/-- A step that leaves the count and what it counts. -/
theorem PendingInv.of_eq {s s' : ThreadPool τ} (hinv : PendingInv s)
    (hcount : s'.pendingCount = s.pendingCount) (hpending : s'.pending = s.pending) :
    PendingInv s' := by
  unfold PendingInv
  rw [hcount, hpending]
  exact hinv

/-- One more, in the count and of what it counts. -/
theorem PendingInv.succ {s s' : ThreadPool τ} (hinv : PendingInv s)
    (hcount : s'.pendingCount = s.pendingCount + 1) (hpending : s'.pending = s.pending + 1) :
    PendingInv s' := by
  unfold PendingInv
  rw [hcount, hpending, UInt64.ofNat_add, show s.pendingCount = _ from hinv]
  rfl

/-- The count was positive, so that the decrement does not wrap. -/
theorem PendingInv.pred {s s' : ThreadPool τ} (hinv : PendingInv s)
    (hcount : s'.pendingCount = s.pendingCount - 1) (hpending : s'.pending + 1 = s.pending) :
    PendingInv s' := by
  unfold PendingInv
  rw [hcount, show s.pendingCount = _ from hinv, ← hpending, UInt64.ofNat_add]
  exact UInt64.add_sub_cancel _ _

/-- A worker counts off a task only while the count is positive. -/
theorem pending_pos {s : ThreadPool τ} {i : Nat} {w : Worker τ} (hi : s.workers[i]? = some w)
    (hw : w.isPending = true) : 0 < s.pending := by
  have hpos : 0 < s.workers.countP Worker.isPending :=
    List.countP_pos_iff.mpr ⟨w, List.mem_of_getElem? hi, hw⟩
  unfold pending
  omega

/-- Every step keeps the count. -/
theorem Steps.pendingInv {s s' : ThreadPool τ} {a : Act τ} (h : Steps s a s')
    (hinv : PendingInv s) : PendingInv s' := by
  -- a worker that keeps its place in the count
  have hset : ∀ (i : Nat) (w w' : Worker τ), s.workers[i]? = some w →
      s'.workers = s.workers.set i w' → w'.isPending = w.isPending → s'.tasks = s.tasks →
      s'.pendingCount = s.pendingCount → PendingInv s' := by
    intro i w w' hi hworkers hw htasks hcount
    have hset := List.countP_set_add Worker.isPending w' hi
    rw [hw] at hset
    refine hinv.of_eq hcount ?_
    unfold pending
    rw [hworkers, htasks]
    omega
  -- a worker that is woken has no task
  have hwake : ∀ wakes, notifyWorker s.workers wakes = some s'.workers →
      s'.tasks = s.tasks → s'.pendingCount = s.pendingCount → PendingInv s' := by
    intro wakes hw htasks hcount
    obtain ⟨-, heq⟩ | ⟨i, hi, heq⟩ := notifyWorker_cases hw
    · exact hinv.of_eq hcount (by unfold pending; rw [heq, htasks])
    · exact hset i _ _ hi heq rfl htasks hcount
  cases h with
  | accept job =>
    refine hinv.succ rfl ?_
    show (s.tasks ++ _).length + s.workers.countP Worker.isPending = s.pending + 1
    rw [List.length_append, List.length_singleton, pending]
    omega
  | pop i task tasks hi ht =>
    -- from the queue into the hands of worker `i`
    refine hinv.of_eq rfl ?_
    have hcount : (s.workers.set i (.popped task)).countP Worker.isPending =
        s.workers.countP Worker.isPending + 1 :=
      List.countP_set_add Worker.isPending (.popped task) hi
    show tasks.length + (s.workers.set i (.popped task)).countP Worker.isPending = s.pending
    rw [hcount, pending, ht, List.length_cons]
    omega
  -- the task is counted off
  | settle i task hi =>
    refine hinv.pred rfl ?_
    have hcount : (s.workers.set i .notifying).countP Worker.isPending + 1 =
        s.workers.countP Worker.isPending :=
      List.countP_set_add Worker.isPending .notifying hi
    show s.tasks.length + (s.workers.set i .notifying).countP Worker.isPending + 1 = s.pending
    rw [Nat.add_assoc, hcount, pending]
  | notifyOne id wakes workers hid hw => exact hwake wakes hw rfl rfl
  | wakeWorker i workers hw => exact hwake _ hw rfl rfl
  | exit i hi => exact hset i _ _ hi rfl rfl rfl rfl
  | sleep i hi => exact hset i _ _ hi rfl rfl rfl rfl
  | activate i task hi => exact hset i _ _ hi rfl rfl rfl rfl
  | finish i task hi => exact hset i _ _ hi rfl rfl rfl rfl
  | deactivate i task hi => exact hset i _ _ hi rfl rfl rfl rfl
  | count i task hi => exact hset i _ _ hi rfl rfl rfl rfl
  | notifyDrain i wakes drainers hi hd => exact hset i _ _ hi rfl rfl rfl rfl
  | notifyAll hdes =>
    refine hinv.of_eq rfl ?_
    unfold pending
    show s.tasks.length + (s.workers.map _).countP Worker.isPending = _
    rw [List.countP_map]
    congr 1
    apply List.countP_congr
    intro w _
    cases w <;> rfl
  | reject | drain | drainReturn | drainStay | drainSleep | setStop | join | wakeDrainer =>
    exact hinv.of_eq rfl rfl

/-- The count is right in every state of a run. -/
theorem pendingInv_of_reachable {n : UInt64} {hw : UInt32} {s : ThreadPool τ}
    (h : Reachable step (init n hw) s) : PendingInv s := by
  apply h.invariant
  · show 0 = UInt64.ofNat (0 + (List.replicate _ Worker.checking).countP Worker.isPending)
    rw [List.countP_replicate]
    rfl
  · intro s a s' hinv _ hs
    exact (steps_of_step hs).pendingInv hinv

/-- `active_tasks_` counts workers. -/
theorem ActiveInv.toNat_le {s : ThreadPool τ} (hinv : ActiveInv s) :
    s.activeTasks.toNat ≤ s.workers.length := by
  have hle : s.workers.countP Worker.isActive ≤ s.workers.length := List.countP_le_length
  rw [hinv.active, UInt64.toNat_ofNat_of_lt' (Nat.lt_of_le_of_lt hle hinv.size)]
  exact hle

/-! ## The pool as a whole -/

/-- In every run of a pool, each accepted task is in the queue, in one worker's hands
    or has run, and in one of these places only.  A pool that has joined its workers,
    or whose threads have no step of their own left, has run every accepted task
    exactly once, and its threads do run out of steps.  Tasks are dequeued in the
    order of their acceptance, a stopped pool accepts none, and the counters count
    what they are there to count. -/
theorem accepted_tasks_run_once (n : UInt64) (hw : UInt32) (acts : List (Act τ))
    (s : ThreadPool τ) (h : run step (init n hw) acts = some s) :
    ((s.finished ++ (s.held ++ s.tasks)).Perm s.accepted ∧ (s.accepted.map Task.id).Nodup ∧
      ∀ id ∈ s.returned, ∃ task ∈ s.accepted, task.id = id) ∧
    (s.Rests ∨ s.destructor = .joined →
      ∀ task ∈ s.accepted, (s.finished.map Task.id).count task.id = 1) ∧
    (∀ acts' t, (∀ a ∈ acts', own a = true) → run step s acts' = some t →
      acts'.length ≤ s.load 0) ∧
    (init n hw).dequeued acts ++ s.tasks = s.accepted ∧
    (s.stop = true →
      (∀ job, s.enqueue job =
        .error (.runtimeError (Bytes.ofString "ThreadPool: enqueue on stopped pool")) ∧
        ∀ s', s.step (.enqueue job) = some s' → s' = s) ∧
      ∀ acts' t, run step s acts' = some t → t.accepted = s.accepted) ∧
    (s.pendingCount = UInt64.ofNat s.pending ∧
      (s.pending < 2 ^ 64 → s.pendingCount.toNat = s.pending) ∧
      ∀ i s', s.step (.settle i) = some s' → 0 < s.pending) ∧
    s.activeTasks.toNat ≤ s.workers.length := by
  have hreach := reachable_of_run acts h
  have hplaced := placedInv_of_reachable hreach
  have hpending : s.pendingCount = UInt64.ofNat s.pending := pendingInv_of_reachable hreach
  refine ⟨⟨hplaced.placed, ?_, ?_⟩, ?_, ?_, ?_, ?_, ⟨hpending, ?_, ?_⟩,
    (activeInv_of_reachable hreach).toNat_le⟩
  · rw [hplaced.ids]
    exact List.nodup_range
  · intro id hid
    have hlt := (knownInv_of_reachable hreach).returned id hid
    have hmem : id ∈ s.accepted.map Task.id := by
      rw [hplaced.ids]
      exact List.mem_range.mpr hlt
    exact List.mem_map.mp hmem
  · intro hover
    -- with no task in a queue or in a worker's hands, all have run
    obtain ⟨hheld, htasks⟩ := nothing_left hreach hover
    exact hplaced.count_finished hheld htasks
  · intro acts' t hown hrun
    exact own_run_bounded acts' hown hrun
  -- the first pool has accepted nothing and has an empty queue
  · obtain ⟨new, hacc, htasks⟩ := dequeued_append_tasks acts h
    rw [htasks, hacc]
    rfl
  · intro hstop
    -- one `enqueue()` throws, and in a run nothing is accepted any more
    refine ⟨fun job => ⟨?_, ?_⟩, fun acts' t hrun => stopped_of_run acts' hrun hstop⟩
    · simp only [enqueue, hstop, if_true]
    · intro s' hs
      cases steps_of_step hs with
      | accept job hrun =>
        rw [hstop] at hrun
        cases hrun
      | reject => rfl
  · intro hlt
    rw [hpending, UInt64.toNat_ofNat_of_lt' hlt]
  · intro i s' hs
    cases steps_of_step hs with
    | settle i task hi => exact pending_pos hi rfl

/-- Two workers, two tasks, and the destructor: the tasks finish in the other order. -/
theorem accepted_tasks_run_once_joined :
    ∃ s : ThreadPool Unit, s ∈ run step (init 2 0)
      [.check 0, .enqueue (), .notifyOne 0 (some 0), .enqueue (), .check 1, .check 0, .activate 0,
       .activate 1, .setStop, .notifyOne 1 none, .notifyAll, .finish 0, .finish 1, .deactivate 1,
       .count 1, .settle 1, .deactivate 0, .count 0, .settle 0, .notifyDrain 0 none,
       .notifyDrain 1 none, .check 1, .check 0, .join] ∧
      s.finished.map Task.id = [1, 0] ∧
      ∀ task ∈ s.accepted, (s.finished.map Task.id).count task.id = 1 := by
  have hrun : ∃ s : ThreadPool Unit, s ∈ run step (init 2 0)
      [.check 0, .enqueue (), .notifyOne 0 (some 0), .enqueue (), .check 1, .check 0, .activate 0,
       .activate 1, .setStop, .notifyOne 1 none, .notifyAll, .finish 0, .finish 1, .deactivate 1,
       .count 1, .settle 1, .deactivate 0, .count 0, .settle 0, .notifyDrain 0 none,
       .notifyDrain 1 none, .check 1, .check 0, .join] ∧
      s.finished.map Task.id = [1, 0] ∧ s.destructor = .joined := by decide
  obtain ⟨s, hs, hfin, hjoined⟩ := hrun
  exact ⟨s, hs, hfin, (accepted_tasks_run_once 2 0 _ s hs).2.1 (.inr hjoined)⟩

end Rpc.ThreadPool
