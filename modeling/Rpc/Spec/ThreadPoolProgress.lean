import Rpc.Spec.ThreadPoolCorrect

/-!
# No lost wakeup

A worker blocks only after it has found the queue empty, and each `enqueue()`
notifies after it has pushed.  So whenever there is a task in the queue, some
worker is awake and will look, or some `enqueue()` has still to notify
(`WakeInv.awake`).  A worker exits only from a stopped pool whose queue is empty,
and a stopped pool accepts nothing any more.

Hence a pool in which no worker is awake and no `enqueue()` is under way has run
every task it accepted: `unstarted_eq_nil`.
-/

namespace Rpc.ThreadPool

open Transition

variable {τ : Type}

/-- The worker will look at the queue again without being woken. -/
def Worker.isAwake : Worker τ → Bool
  | .blocked | .exited => false
  | _ => true

/-- The pool has workers, and none of them sleeps through a task. -/
structure WakeInv (s : ThreadPool τ) : Prop where
  nonempty : s.workers ≠ []
  exited : Worker.exited ∈ s.workers → s.stop = true ∧ s.tasks = []
  awake : s.tasks = [] ∨ s.enqueuing ≠ [] ∨ ∃ w ∈ s.workers, w.isAwake = true

/-- The constructor falls back to four threads. -/
theorem numThreads_pos (n : UInt64) (hw : UInt32) : 0 < (numThreads n hw).toNat := by
  have hne : numThreads n hw ≠ 0 := by
    simp only [numThreads]
    split
    · assumption
    · split
      · decide
      · assumption
  have h0 : (numThreads n hw).toNat ≠ 0 := fun h => hne (UInt64.toNat_inj.mp h)
  omega

/-- At the beginning all workers are awake. -/
theorem wakeInv_init (n : UInt64) (hw : UInt32) : WakeInv (init n hw : ThreadPool τ) := by
  have hpos := numThreads_pos n hw
  constructor
  · intro h
    have hlen := congrArg List.length h
    simp only [init, List.length_replicate, List.length_nil] at hlen
    omega
  · intro h
    cases (List.eq_of_mem_replicate h : Worker.exited = (.checking : Worker τ))
  · exact .inl rfl

/-- Worker `i` goes on to a place from which it will look again. -/
theorem WakeInv.of_set {s s' : ThreadPool τ} (hinv : WakeInv s) {i : Nat} {w w' : Worker τ}
    (hi : s.workers[i]? = some w) (hworkers : s'.workers = s.workers.set i w')
    (hw' : w'.isAwake = true) (hstop : s'.stop = s.stop) (htasks : s.tasks = [] → s'.tasks = []) :
    WakeInv s' := by
  have hlt := (List.getElem?_eq_some_iff.mp hi).1
  constructor
  · rw [hworkers]
    simpa using hinv.nonempty
  · intro hmem
    rw [hworkers] at hmem
    obtain hmem | rfl := List.mem_or_eq_of_mem_set hmem
    · exact ⟨hstop ▸ (hinv.exited hmem).1, htasks (hinv.exited hmem).2⟩
    · cases hw'
  -- the worker that has moved on is awake
  · refine .inr (.inr ⟨w', ?_, hw'⟩)
    rw [hworkers]
    exact List.mem_set hlt w'

/-- Worker `i` found the queue empty. -/
theorem WakeInv.of_rest {s : ThreadPool τ} (hinv : WakeInv s) (ht : s.tasks = []) (i : Nat)
    (w : Worker τ) (hw : w = .exited → s.stop = true) :
    WakeInv { s with workers := s.workers.set i w } := by
  constructor
  · simpa using hinv.nonempty
  · intro hmem
    obtain hmem | heq := List.mem_or_eq_of_mem_set hmem
    · exact hinv.exited hmem
    · exact ⟨hw heq.symm, ht⟩
  · exact .inl ht

/-- When nobody is blocked, a task in the queue finds an awake worker. -/
theorem WakeInv.awake_of_no_blocked {s : ThreadPool τ} (hinv : WakeInv s)
    (hblocked : s.workers.any Worker.isBlocked = false) :
    s.tasks = [] ∨ ∃ w ∈ s.workers, w.isAwake = true := by
  -- any worker will do: one that has exited left an empty queue
  obtain ⟨w, hmem⟩ := List.exists_mem_of_ne_nil _ hinv.nonempty
  have hnot : ¬w.isBlocked = true := List.any_eq_false.mp hblocked w hmem
  cases w with
  | exited => exact .inl (hinv.exited hmem).2
  | blocked => exact absurd rfl hnot
  | _ => exact .inr ⟨_, hmem, rfl⟩

/-- Every step leaves somebody to look at the queue. -/
theorem Steps.wakeInv {s s' : ThreadPool τ} {a : Act τ} (h : Steps s a s') (hinv : WakeInv s) :
    WakeInv s' := by
  cases h with
  | accept job hstop =>
    refine ⟨hinv.nonempty, ?_, .inr (.inl (by simp))⟩
    intro hmem
    -- a pool that accepts is not stopped, so that nobody has exited
    have hstopped := (hinv.exited hmem).1
    rw [hstop] at hstopped
    cases hstopped
  | notifyOne id wakes workers hid hw =>
    obtain ⟨hblocked, rfl⟩ | ⟨i, hi, rfl⟩ := notifyWorker_cases hw
    · refine ⟨hinv.nonempty, hinv.exited, ?_⟩
      -- the notification is lost, but then nobody was blocked
      obtain ht | hawake := hinv.awake_of_no_blocked hblocked
      · exact .inl ht
      · exact .inr (.inr hawake)
    · exact hinv.of_set hi rfl rfl rfl fun h => h
  | pop i task tasks hi ht =>
    exact hinv.of_set hi rfl rfl rfl fun h => by cases ht.symm.trans h
  | exit i hi ht hstop => exact hinv.of_rest ht i _ fun _ => hstop
  | sleep i hi ht hstop => exact hinv.of_rest ht i _ nofun
  | activate i task hi => exact hinv.of_set hi rfl rfl rfl fun h => h
  | finish i task hi => exact hinv.of_set hi rfl rfl rfl fun h => h
  | deactivate i task hi => exact hinv.of_set hi rfl rfl rfl fun h => h
  | count i task hi => exact hinv.of_set hi rfl rfl rfl fun h => h
  | settle i task hi => exact hinv.of_set hi rfl rfl rfl fun h => h
  | notifyDrain i wakes drainers hi hd => exact hinv.of_set hi rfl rfl rfl fun h => h
  | setStop hdes => exact ⟨hinv.nonempty, fun h => ⟨rfl, (hinv.exited h).2⟩, hinv.awake⟩
  | notifyAll hdes =>
    constructor
    · simpa using hinv.nonempty
    · intro hmem
      -- waking makes nobody exit
      obtain ⟨w, hw, heq⟩ := List.mem_map.mp hmem
      cases w with
      | exited => exact hinv.exited hw
      | _ => cases heq
    · obtain ht | henq | ⟨w, hw, hawake⟩ := hinv.awake
      · exact .inl ht
      · exact .inr (.inl henq)
      · refine .inr (.inr ⟨w, List.mem_map.mpr ⟨w, hw, ?_⟩, hawake⟩)
        cases w <;> first | rfl | cases hawake
  | wakeWorker i workers hw =>
    obtain ⟨-, rfl⟩ | ⟨i, hi, rfl⟩ := notifyWorker_cases hw
    · exact ⟨hinv.nonempty, hinv.exited, hinv.awake⟩
    · exact hinv.of_set hi rfl rfl rfl fun h => h
  | _ => exact ⟨hinv.nonempty, hinv.exited, hinv.awake⟩

/-- No worker sleeps through a task in any state of a run. -/
theorem wakeInv_of_reachable {n : UInt64} {hw : UInt32} {s : ThreadPool τ}
    (h : Reachable step (init n hw) s) : WakeInv s :=
  h.invariant (wakeInv_init n hw) fun _ _ _ hinv _ hs => (steps_of_step hs).wakeInv hinv

/-- A pool at rest has started every task it accepted. -/
theorem unstarted_eq_nil {s : ThreadPool τ} (hinv : WakeInv s)
    (hworkers : ∀ w ∈ s.workers, w.isAwake = false) (henq : s.enqueuing = []) :
    s.unstarted = [] := by
  -- with a task in the queue somebody would be awake
  have htasks : s.tasks = [] := by
    obtain ht | hne | ⟨w, hw, hawake⟩ := hinv.awake
    · exact ht
    · exact absurd henq hne
    · rw [hworkers w hw] at hawake
      cases hawake
  -- and a worker that sleeps has no task in its hands
  have hfetched : s.workers.filterMap Worker.fetched = [] := by
    apply List.filterMap_eq_nil_iff.mpr
    intro w hw
    have hasleep := hworkers w hw
    cases w <;> first | rfl | cases hasleep
  rw [unstarted, hfetched, htasks, List.append_nil]

/-! ## The calls of `enqueue()` -/

/-- Every `enqueue()` that was accepted is under way or has returned. -/
def CallsInv (s : ThreadPool τ) : Prop :=
  ∀ task ∈ s.accepted, task.id ∈ s.enqueuing ∨ task.id ∈ s.returned

/-- Every step keeps track of the calls. -/
theorem Steps.callsInv {s s' : ThreadPool τ} {a : Act τ} (h : Steps s a s') (hinv : CallsInv s) :
    CallsInv s' := by
  cases h with
  | accept job hstop =>
    intro task hmem
    obtain hmem | hmem := List.mem_append.mp hmem
    · exact (hinv task hmem).imp_left (List.mem_append_left _)
    · obtain rfl := List.mem_singleton.mp hmem
      exact .inl (List.mem_append_right _ (List.mem_singleton.mpr rfl))
  | notifyOne id wakes workers hid hw =>
    intro task hmem
    -- the call that notifies returns, and the others are where they were
    by_cases heq : task.id = id
    · exact .inr (List.mem_append_right _ (List.mem_singleton.mpr heq))
    · obtain henq | hret := hinv task hmem
      · exact .inl ((List.mem_erase_of_ne heq).mpr henq)
      · exact .inr (List.mem_append_left _ hret)
  | _ => exact hinv

/-- The calls are known in every state of a run. -/
theorem callsInv_of_reachable {n : UInt64} {hw : UInt32} {s : ThreadPool τ}
    (h : Reachable step (init n hw) s) : CallsInv s :=
  h.invariant nofun fun _ _ _ hinv _ hs => (steps_of_step hs).callsInv hinv

/-! ## Notifications -/

/-- A notification of `cv_` is always possible. -/
theorem exists_notifyWorker (workers : List (Worker τ)) :
    ∃ wakes workers', notifyWorker workers wakes = some workers' := by
  -- one of the blocked workers, or nobody if there is none
  by_cases h : workers.any Worker.isBlocked = true
  · obtain ⟨w, hmem, hw⟩ := List.any_eq_true.mp h
    obtain ⟨i, hi⟩ := List.getElem?_of_mem hmem
    refine ⟨some i, workers.set i .checking, ?_⟩
    simp only [notifyWorker, hi, Option.any_some, hw, if_true]
  · exact ⟨none, workers, by simp only [notifyWorker, h]; rfl⟩

/-- A notification of `drain_cv_` is always possible. -/
theorem exists_notifyDrainer (drainers : List Drainer) :
    ∃ wakes drainers', notifyDrainer drainers wakes = some drainers' := by
  by_cases h : drainers.any (fun d => d.phase = .blocked) = true
  · obtain ⟨d, hmem, hd⟩ := List.any_eq_true.mp h
    obtain ⟨i, hi⟩ := List.getElem?_of_mem hmem
    refine ⟨some i, drainers.set i { d with phase := .checking }, ?_⟩
    simp only [notifyDrainer, hi, of_decide_eq_true hd, if_true]
  · exact ⟨none, drainers, by simp only [notifyDrainer, h]; rfl⟩

/-- A notification leaves the call that holds `mux_` alone. -/
theorem notifyDrainer_countP_isBlocking {drainers drainers' : List Drainer} {wakes : Option Nat}
    (h : notifyDrainer drainers wakes = some drainers') :
    drainers'.countP Drainer.isBlocking = drainers.countP Drainer.isBlocking := by
  obtain rfl | ⟨d, drainer, hd, hphase, rfl⟩ := notifyDrainer_cases h
  · rfl
  · have hcount := List.countP_set_add Drainer.isBlocking { drainer with phase := .checking } hd
    simp only [Drainer.isBlocking, hphase] at hcount
    exact hcount

/-- Only `enqueue()` accepts tasks. -/
theorem Steps.accepted {s s' : ThreadPool τ} {a : Act τ} (h : Steps s a s')
    (henq : ∀ job, a ≠ .enqueue job) : s'.accepted = s.accepted := by
  cases h with
  | accept job => exact absurd rfl (henq job)
  | _ => rfl

/-! ## The load -/

/-- The steps that the pool's own threads take without anybody calling them, that
    a call of `enqueue()` takes to return, and a `drain()` to release `mux_`. -/
def own : Act τ → Bool
  | .notifyOne .. | .check _ | .activate _ | .finish _ | .deactivate _ | .count _ | .settle _
  | .notifyDrain .. | .drainBlock _ => true
  | _ => false

/-- The steps a worker has to take until it blocks or exits, when starting a task
    costs `c` more. -/
def Worker.load (c : Nat) : Worker τ → Nat
  | .popped _ => 7 + c
  | .running _ => 6
  | .ran _ => 5
  | .retired _ => 4
  | .counted _ => 3
  | .notifying => 2
  | .checking => 1
  | .blocked | .exited => 0

/-- A bound on the pool's own steps to come. -/
def load (c : Nat) (s : ThreadPool τ) : Nat :=
  (7 + c) * s.tasks.length + 2 * s.enqueuing.length + (s.workers.map (Worker.load c)).sum +
    s.drainers.countP Drainer.isBlocking

/-- A worker that moves on lowers the load by what it has done. -/
theorem load_set {c : Nat} {s s' : ThreadPool τ} {i : Nat} {w w' : Worker τ}
    (hi : s.workers[i]? = some w) (hworkers : s'.workers = s.workers.set i w')
    (htasks : s'.tasks = s.tasks) (henq : s'.enqueuing = s.enqueuing)
    (hdrain : s'.drainers.countP Drainer.isBlocking = s.drainers.countP Drainer.isBlocking) :
    s'.load c + w.load c = s.load c + w'.load c := by
  have hsum := List.sum_map_set (Worker.load c) w' hi
  simp only [load, hworkers, htasks, henq, hdrain]
  omega

/-- A worker that starts its task. -/
theorem load_activate {c : Nat} {s s' : ThreadPool τ} {i : Nat} {task : Task τ}
    (hi : s.workers[i]? = some (.popped task)) (h : s.step (.activate i) = some s') :
    s'.load c + 1 + c = s.load c := by
  simp only [step, hi] at h
  obtain rfl := Option.some.inj h
  have hset : load c { s with
      activeTasks := s.activeTasks + 1, workers := s.workers.set i (.running task) } +
      Worker.load c (.popped task) = s.load c + Worker.load c (.running task) :=
    load_set hi rfl rfl rfl rfl
  simp only [Worker.load] at hset
  omega

/-- A new task brings its load with it. -/
theorem load_enqueue {c : Nat} {s s' : ThreadPool τ} {job : τ} (h : s.enqueue job = .ok s') :
    s'.load c = s.load c + (9 + c) := by
  simp only [enqueue] at h
  split at h
  · cases h
  · obtain rfl := Except.ok.inj h
    simp only [load, List.length_append, List.length_singleton]
    rw [Nat.mul_add]
    omega

/-- Each of the pool's own steps lowers the load. -/
theorem load_lt {c : Nat} {s s' : ThreadPool τ} {a : Act τ} (hown : own a = true)
    (h : s.step a = some s') : s'.load c < s.load c := by
  -- a worker that moves on to a place with less to do
  have hset : ∀ (i : Nat) (w w' : Worker τ), s.workers[i]? = some w →
      s'.workers = s.workers.set i w' → s'.tasks = s.tasks → s'.enqueuing = s.enqueuing →
      s'.drainers.countP Drainer.isBlocking = s.drainers.countP Drainer.isBlocking →
      w'.load c < w.load c → s'.load c < s.load c := by
    intro i w w' hi hworkers htasks henq hdrain hlt
    have hload := load_set (c := c) hi hworkers htasks henq hdrain
    omega
  cases steps_of_step h with
  | notifyOne id wakes workers hid hw =>
    -- the woken worker has one step more, the call two less
    have hlen := List.length_erase_of_mem hid
    have hpos := List.length_pos_of_mem hid
    obtain ⟨-, rfl⟩ | ⟨i, hi, rfl⟩ := notifyWorker_cases hw
    · simp only [load, hlen]
      omega
    · have hsum := List.sum_map_set (Worker.load c) .checking hi
      simp only [load, hlen, Worker.load] at hsum ⊢
      omega
  | pop i task tasks hi ht =>
    -- the load of the task goes from the queue to the worker
    have hsum := List.sum_map_set (Worker.load c) (.popped task) hi
    simp only [load, ht, List.length_cons, Worker.load, Nat.mul_add, Nat.mul_one] at hsum ⊢
    omega
  | exit i hi => exact hset i _ _ hi rfl rfl rfl rfl Nat.one_pos
  | sleep i hi => exact hset i _ _ hi rfl rfl rfl rfl Nat.one_pos
  | activate i task hi =>
    have hact := load_activate (c := c) hi h
    omega
  | finish i task hi => exact hset i _ _ hi rfl rfl rfl rfl (Nat.lt_add_one 5)
  | deactivate i task hi => exact hset i _ _ hi rfl rfl rfl rfl (Nat.lt_add_one 4)
  | count i task hi => exact hset i _ _ hi rfl rfl rfl rfl (Nat.lt_add_one 3)
  | settle i task hi => exact hset i _ _ hi rfl rfl rfl rfl (Nat.lt_add_one 2)
  | notifyDrain i wakes drainers hi hd =>
    exact hset i _ _ hi rfl rfl rfl (notifyDrainer_countP_isBlocking hd) (Nat.lt_add_one 1)
  | drainSleep d drainer hd hphase =>
    have hcount := List.countP_set_add Drainer.isBlocking { drainer with phase := .blocked } hd
    simp only [Drainer.isBlocking, hphase, if_true, Bool.false_eq_true, if_false] at hcount
    simp only [load]
    omega
  | _ => cases hown

/-- The pool's own threads run out of steps. -/
theorem own_run_bounded {s t : ThreadPool τ} (acts : List (Act τ))
    (hacts : ∀ a ∈ acts, own a = true) (h : run step s acts = some t) :
    acts.length ≤ s.load 0 :=
  length_le_of_run (P := fun _ => True) (G := fun a => own a = true)
    (fun _ _ _ _ hown hstep => ⟨trivial, load_lt hown hstep⟩) acts hacts trivial h

/-! ## A pool at rest -/

/-- No thread of the pool has a step of its own to take. -/
def Rests (s : ThreadPool τ) : Prop := ∀ a, own a = true → s.step a = none

/-- No `drain()` holds `mux_`. -/
theorem Rests.unlocked {s : ThreadPool τ} (h : s.Rests) : s.locked = false := by
  apply List.any_eq_false.mpr
  intro drainer hmem hblocking
  obtain ⟨d, hd⟩ := List.getElem?_of_mem hmem
  have hnone := h (.drainBlock d) rfl
  have hphase : drainer.phase = .blocking := by
    simp only [Drainer.isBlocking] at hblocking
    split at hblocking
    · assumption
    · cases hblocking
  simp [step, hd, hphase] at hnone

/-- Every `enqueue()` has returned. -/
theorem Rests.enqueuing {s : ThreadPool τ} (h : s.Rests) : s.enqueuing = [] := by
  cases henq : s.enqueuing with
  | nil => rfl
  | cons id rest =>
    obtain ⟨wakes, workers, hw⟩ := exists_notifyWorker s.workers
    have hnone := h (.notifyOne id wakes) rfl
    simp [step, henq, hw] at hnone

/-- Every worker has blocked or exited. -/
theorem Rests.asleep {s : ThreadPool τ} (h : s.Rests) : ∀ w ∈ s.workers, w.isAwake = false := by
  intro w hmem
  obtain ⟨i, hi⟩ := List.getElem?_of_mem hmem
  cases w with
  | blocked => rfl
  | exited => rfl
  | checking =>
    have hnone := h (.check i) rfl
    simp [step, hi, h.unlocked] at hnone
  | popped task =>
    have hnone := h (.activate i) rfl
    simp [step, hi] at hnone
  | running task =>
    have hnone := h (.finish i) rfl
    simp [step, hi] at hnone
  | ran task =>
    have hnone := h (.deactivate i) rfl
    simp [step, hi] at hnone
  | retired task =>
    have hnone := h (.count i) rfl
    simp [step, hi] at hnone
  | counted task =>
    have hnone := h (.settle i) rfl
    simp [step, hi] at hnone
  | notifying =>
    obtain ⟨wakes, drainers, hd⟩ := exists_notifyDrainer s.drainers
    have hnone := h (.notifyDrain i wakes) rfl
    simp [step, hi, hd] at hnone

/-! ## The destructor -/

/-- Once the destructor has notified, nobody sleeps; once it has joined, every
    worker is gone. -/
structure DownInv (s : ThreadPool τ) : Prop where
  stopped : s.destructor ≠ .notStarted → s.stop = true
  woken : s.destructor = .notified ∨ s.destructor = .joined → Worker.blocked ∉ s.workers
  joined : s.destructor = .joined → ∀ w ∈ s.workers, w = .exited

/-- A worker that was awake goes on to a place where it is not blocked. -/
theorem DownInv.of_set {s s' : ThreadPool τ} (hinv : DownInv s) {i : Nat} {w w' : Worker τ}
    (hi : s.workers[i]? = some w) (hw : w ≠ .exited) (hworkers : s'.workers = s.workers.set i w')
    (hw' : w' = .blocked → s.stop = false) (hdes : s'.destructor = s.destructor)
    (hstop : s'.stop = s.stop) : DownInv s' := by
  refine ⟨?_, ?_, ?_⟩
  · rw [hdes, hstop]
    exact hinv.stopped
  · rw [hdes, hworkers]
    intro hdown hmem
    obtain hmem | heq := List.mem_or_eq_of_mem_set hmem
    · exact hinv.woken hdown hmem
    · have hstopped : s.stop = true := hinv.stopped (by obtain h | h := hdown <;> simp [h])
      rw [hw' heq.symm] at hstopped
      cases hstopped
  · rw [hdes]
    intro hjoined
    exact absurd (hinv.joined hjoined w (List.mem_of_getElem? hi)) hw

/-- A notification wakes a worker or nobody. -/
theorem DownInv.of_notify {s s' : ThreadPool τ} (hinv : DownInv s) {wakes : Option Nat}
    (hw : notifyWorker s.workers wakes = some s'.workers) (hdes : s'.destructor = s.destructor)
    (hstop : s'.stop = s.stop) : DownInv s' := by
  obtain ⟨-, heq⟩ | ⟨i, hi, heq⟩ := notifyWorker_cases hw
  · refine ⟨?_, ?_, ?_⟩
    · rw [hdes, hstop]
      exact hinv.stopped
    · rw [hdes, heq]
      exact hinv.woken
    · rw [hdes, heq]
      exact hinv.joined
  · exact hinv.of_set hi nofun heq nofun hdes hstop

/-- Every step keeps what the destructor has done. -/
theorem Steps.downInv {s s' : ThreadPool τ} {a : Act τ} (h : Steps s a s') (hinv : DownInv s) :
    DownInv s' := by
  cases h with
  | notifyOne id wakes workers hid hw => exact hinv.of_notify hw rfl rfl
  | wakeWorker i workers hw => exact hinv.of_notify hw rfl rfl
  | pop i task tasks hi ht => exact hinv.of_set hi nofun rfl nofun rfl rfl
  | exit i hi ht hstop => exact hinv.of_set hi nofun rfl nofun rfl rfl
  -- a worker blocks only when `stop_` is false
  | sleep i hi ht hstop => exact hinv.of_set hi nofun rfl (fun _ => hstop) rfl rfl
  | activate i task hi => exact hinv.of_set hi nofun rfl nofun rfl rfl
  | finish i task hi => exact hinv.of_set hi nofun rfl nofun rfl rfl
  | deactivate i task hi => exact hinv.of_set hi nofun rfl nofun rfl rfl
  | count i task hi => exact hinv.of_set hi nofun rfl nofun rfl rfl
  | settle i task hi => exact hinv.of_set hi nofun rfl nofun rfl rfl
  | notifyDrain i wakes drainers hi hd => exact hinv.of_set hi nofun rfl nofun rfl rfl
  | setStop hdes => exact ⟨fun _ => rfl, by simp, by simp⟩
  | notifyAll hdes =>
    refine ⟨fun _ => hinv.stopped (by simp [hdes]), fun _ hmem => ?_, by simp⟩
    -- everybody who was blocked has been woken
    obtain ⟨w, -, hw⟩ := List.mem_map.mp hmem
    cases w <;> cases hw
  | join hdes hexit =>
    refine ⟨fun _ => hinv.stopped (by simp [hdes]), fun _ hmem => ?_, fun _ => hexit⟩
    cases hexit _ hmem
  | _ => exact ⟨hinv.stopped, hinv.woken, hinv.joined⟩

/-- The destructor has done its part in every state of a run. -/
theorem downInv_of_reachable {n : UInt64} {hw : UInt32} {s : ThreadPool τ}
    (h : Reachable step (init n hw) s) : DownInv s :=
  h.invariant ⟨by simp [init], by simp [init], by simp [init]⟩
    fun _ _ _ hinv _ hs => (steps_of_step hs).downInv hinv

/-- No worker sleeps through a task or through the end of the pool.  With a task in
    the queue, a worker is awake, or a notification of `cv_` is still to come, from
    an `enqueue()` or from the destructor.  Once the destructor has notified, no
    worker is blocked on `cv_`. -/
theorem no_lost_wakeup (n : UInt64) (hw : UInt32) (s : ThreadPool τ)
    (h : Reachable step (init n hw) s) :
    ¬(s.tasks ≠ [] ∧ (∀ w ∈ s.workers, w ≠ .exited → w = .blocked) ∧
      s.enqueuing = [] ∧ s.destructor ≠ .stopSet) ∧
    ¬(s.stop = true ∧ (s.destructor = .notified ∨ s.destructor = .joined) ∧
      .blocked ∈ s.workers) := by
  constructor
  · rintro ⟨htasks, hblocked, henq, -⟩
    -- by the invariant somebody is awake, but all have blocked or exited
    obtain ht | hne | ⟨w, hmem, hawake⟩ := (wakeInv_of_reachable h).awake
    · exact htasks ht
    · exact hne henq
    · by_cases hexit : w = .exited
      · rw [hexit] at hawake
        cases hawake
      · rw [hblocked w hmem hexit] at hawake
        cases hawake
  · rintro ⟨-, hdown, hmem⟩
    exact (downInv_of_reachable h).woken hdown hmem

/-- A pool of two workers, of which one sleeps while the other pops and the
    destructor notifies. -/
theorem no_lost_wakeup_twoWorkers :
    ∃ s : ThreadPool Unit, Reachable step (init 2 0) s ∧
      (s.stop = true ∧ s.destructor = .notified ∧ s.tasks ≠ []) ∧
      .blocked ∉ s.workers := by
  have hrun : ∃ s : ThreadPool Unit, Reachable step (init 2 0) s ∧
      (s.stop = true ∧ s.destructor = .notified ∧ s.tasks ≠ []) := exists_reachable_of_run
    [.check 0, .check 1, .enqueue (), .enqueue (), .notifyOne 0 (some 1), .check 1, .setStop,
     .notifyAll] (by decide)
  obtain ⟨s, hs, hdown⟩ := hrun
  exact ⟨s, hs, hdown, fun hmem => (no_lost_wakeup 2 0 s hs).2 ⟨hdown.1, .inl hdown.2.1, hmem⟩⟩

end Rpc.ThreadPool
