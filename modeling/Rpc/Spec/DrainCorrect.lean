import Rpc.Spec.ThreadPoolProgress

/-!
# Who wakes a `drain()`

A thread blocks in `drain()` while a task is queued or running, and each worker
notifies `drain_cv_` once after each task.  `notify_one` wakes one thread only, and
since `active_tasks_` changes without `mux_` it may come while a thread has found
its predicate false and has not blocked yet.  So a waiting `drain()` can be left
behind by the last notification there is (`forgotten_drain`).

`Heard` says that this does not happen in a step: the last notification finds one
blocked thread at most, and none about to block.  It is exactly what is needed
(`drain_heard`).
-/

namespace Rpc.ThreadPool

open Transition

variable {τ : Type}

/-- The worker has no step left before the wait on `cv_`. -/
def Worker.isIdle : Worker τ → Bool
  | .checking | .blocked | .exited => true
  | _ => false

/-- The call has found its predicate false and has not been woken since. -/
def Drainer.isWaiting (d : Drainer) : Bool :=
  match d.phase with
  | .blocking | .blocked => true
  | .checking | .returned => false

/-- A thread is blocked in `drain()`, and nobody has anything left to do. -/
def Forgotten (s : ThreadPool τ) : Prop :=
  s.tasks = [] ∧ (∀ w ∈ s.workers, w.isIdle = true) ∧ ∃ d ∈ s.drainers, d.phase = .blocked

instance (s : ThreadPool τ) : Decidable (Forgotten s) := inferInstanceAs (Decidable (_ ∧ _ ∧ _))

/-- When no other notification of `drain_cv_` will come, this one finds at most one
    blocked thread and none that is about to block. -/
def Heard (s : ThreadPool τ) : Act τ → Prop
  | .notifyDrain i _ =>
    s.tasks = [] → (∀ w ∈ s.workers.eraseIdx i, w.isIdle = true) →
      s.drainers.countP (fun d => d.phase = .blocked) ≤ 1 ∧ s.locked = false
  | _ => True

instance (s : ThreadPool τ) [DecidableEq τ] : (a : Act τ) → Decidable (Heard s a)
  | .notifyDrain i _ => inferInstanceAs (Decidable
      (s.tasks = [] → (∀ w ∈ s.workers.eraseIdx i, w.isIdle = true) →
        s.drainers.countP (fun d => d.phase = .blocked) ≤ 1 ∧ s.locked = false))
  | .enqueue _ | .notifyOne .. | .check _ | .activate _ | .finish _ | .deactivate _ | .count _
  | .settle _ | .drain | .drainCheck _ | .drainBlock _ | .setStop | .notifyAll | .join
  | .wakeWorker _ | .wakeDrainer _ => isTrue trivial

/-- A wake-up without a notification. -/
def spurious : Act τ → Bool
  | .wakeWorker _ | .wakeDrainer _ => true
  | _ => false

/-! ## Somebody will notify -/

/-- A worker is on its way to a notification of `drain_cv_`, or a task is there for one. -/
def Busy (s : ThreadPool τ) : Prop := s.tasks ≠ [] ∨ ∃ w ∈ s.workers, w.isIdle = false

/-- While a `drain()` waits, somebody will notify `drain_cv_`. -/
def WaitInv (s : ThreadPool τ) : Prop := (∃ d ∈ s.drainers, d.isWaiting = true) → Busy s

/-- A worker at work is not the one at an idle place. -/
theorem Busy.of_set {s s' : ThreadPool τ} (h : Busy s) {i : Nat} {w w' : Worker τ}
    (hi : s.workers[i]? = some w) (hidle : w.isIdle = true) (htasks : s'.tasks = s.tasks)
    (hworkers : s'.workers = s.workers.set i w') : Busy s' := by
  obtain ht | ⟨x, hmem, hx⟩ := h
  · exact .inl (htasks ▸ ht)
  · refine .inr ⟨x, ?_, hx⟩
    rw [hworkers]
    refine List.mem_set_of_ne w' hmem hi ?_
    rintro rfl
    cases hidle.symm.trans hx

/-- A worker goes on to its next step. -/
theorem Busy.of_next {s s' : ThreadPool τ} {i : Nat} {w w' : Worker τ}
    (hi : s.workers[i]? = some w) (hworkers : s'.workers = s.workers.set i w')
    (hw' : w'.isIdle = false) : Busy s' := by
  refine .inr ⟨w', ?_, hw'⟩
  rw [hworkers]
  exact List.mem_set (List.getElem?_eq_some_iff.mp hi).1 w'

/-- `drain()`'s predicate is false only while somebody has work. -/
theorem busy_of_not_drained {s : ThreadPool τ} (hactive : ActiveInv s)
    (h : s.drained = false) : Busy s := by
  by_cases ht : s.tasks = []
  · right
    by_contra hnone
    -- nobody is active, so that `active_tasks_` is zero
    have hcount : s.workers.countP Worker.isActive = 0 := by
      apply List.countP_eq_zero.mpr
      intro w hmem hw
      refine hnone ⟨w, hmem, ?_⟩
      cases w <;> first | rfl | cases hw
    have hzero := hactive.active
    rw [hcount] at hzero
    simp [drained, ht, hzero] at h
  · exact .inl ht

/-- Of the drainers after a notification, those that wait were waiting. -/
theorem notifyDrainer_waiting {drainers drainers' : List Drainer} {wakes : Option Nat}
    (h : notifyDrainer drainers wakes = some drainers') :
    ∀ d ∈ drainers', d.isWaiting = true → d ∈ drainers := by
  intro d hd hwait
  obtain rfl | ⟨i, drainer, hi, hphase, rfl⟩ := notifyDrainer_cases h
  · exact hd
  · obtain hd | rfl := List.mem_or_eq_of_mem_set hd
    · exact hd
    · cases hwait

/-- A notification that finds one blocked thread at most leaves none. -/
theorem notifyDrainer_blocked {drainers drainers' : List Drainer} {wakes : Option Nat}
    (h : notifyDrainer drainers wakes = some drainers')
    (hle : drainers.countP (fun d => d.phase = .blocked) ≤ 1) :
    drainers'.countP (fun d => d.phase = .blocked) = 0 := by
  cases wakes with
  | none =>
    -- a notification is lost only when nobody is blocked
    simp only [notifyDrainer] at h
    split at h
    · cases h
    · rename_i hnone
      obtain rfl := Option.some.inj h
      apply List.countP_eq_zero.mpr
      intro d hd hphase
      exact hnone (List.any_eq_true.mpr ⟨d, hd, hphase⟩)
  | some d =>
    simp only [notifyDrainer] at h
    split at h
    · rename_i drainer hd
      split at h
      · rename_i hphase
        obtain rfl := Option.some.inj h
        -- the one that is woken was the only one
        have hcount := List.countP_set_add (fun d : Drainer => d.phase = .blocked)
          { drainer with phase := .checking } hd
        simp only [hphase, decide_true, if_true, reduceCtorEq, decide_false, Bool.false_eq_true,
          if_false] at hcount
        omega
      · cases h
    · cases h

/-- The worker that notifies leaves nobody waiting, or somebody else at work. -/
theorem waitInv_notifyDrain {s : ThreadPool τ} {i : Nat} {wakes : Option Nat}
    {drainers : List Drainer} (hd : notifyDrainer s.drainers wakes = some drainers)
    (hok : Heard s (.notifyDrain i wakes)) :
    WaitInv { s with drainers, workers := s.workers.set i .checking } := by
  rintro ⟨d, hmem, hwait⟩
  by_cases hbusy : s.tasks = [] ∧ ∀ w ∈ s.workers.eraseIdx i, w.isIdle = true
  · -- the last notification: nobody waits after it
    exfalso
    obtain ⟨hle, hfree⟩ := hok hbusy.1 hbusy.2
    have hzero := List.countP_eq_zero.mp (notifyDrainer_blocked hd hle) d hmem
    have hnot := List.any_eq_false.mp hfree d (notifyDrainer_waiting hd d hmem hwait)
    unfold Drainer.isWaiting at hwait
    unfold Drainer.isBlocking at hnot
    cases hphase : d.phase <;> simp [hphase] at hwait hnot hzero
  · by_cases ht : s.tasks = []
    · have hother : ∃ w ∈ s.workers.eraseIdx i, w.isIdle = false := by
        by_contra hnone
        refine hbusy ⟨ht, fun w hw => ?_⟩
        by_contra hidle
        exact hnone ⟨w, hw, by simpa using hidle⟩
      obtain ⟨w, hw, hidle⟩ := hother
      obtain ⟨j, hj, hget⟩ := List.mem_eraseIdx_iff_getElem?.mp hw
      refine .inr ⟨w, ?_, hidle⟩
      exact List.mem_of_getElem? ((List.getElem?_set_ne hj.symm).trans hget)
    · exact .inl ht

/-- Waking blocked workers takes none from its work. -/
theorem Busy.notifyWorker {s s' : ThreadPool τ} (h : Busy s) {wakes : Option Nat}
    (hw : notifyWorker s.workers wakes = some s'.workers) (htasks : s'.tasks = s.tasks) :
    Busy s' := by
  obtain ⟨-, heq⟩ | ⟨i, hi, heq⟩ := notifyWorker_cases hw
  · unfold Busy
    rw [htasks, heq]
    exact h
  · exact h.of_set hi rfl htasks heq

/-- Every step that meets the condition keeps the waiting threads waited upon. -/
theorem Steps.waitInv {s s' : ThreadPool τ} {a : Act τ} (h : Steps s a s') (hok : Heard s a)
    (hactive : ActiveInv s) (hinv : WaitInv s) : WaitInv s' := by
  cases h with
  | accept job => exact fun _ => .inl (by simp)
  | notifyOne id wakes workers hid hw => exact fun hwait => (hinv hwait).notifyWorker hw rfl
  | wakeWorker i workers hw => exact fun hwait => (hinv hwait).notifyWorker hw rfl
  | pop i task tasks hi ht => exact fun _ => .of_next hi rfl rfl
  | exit i hi ht => exact fun hwait => (hinv hwait).of_set hi rfl rfl rfl
  | sleep i hi ht => exact fun hwait => (hinv hwait).of_set hi rfl rfl rfl
  | activate i task hi => exact fun _ => .of_next hi rfl rfl
  | finish i task hi => exact fun _ => .of_next hi rfl rfl
  | deactivate i task hi => exact fun _ => .of_next hi rfl rfl
  | count i task hi => exact fun _ => .of_next hi rfl rfl
  | settle i task hi => exact fun _ => .of_next hi rfl rfl
  | notifyDrain i wakes drainers hi hd => exact waitInv_notifyDrain hd hok
  -- a new call has not looked at its predicate
  | drain =>
    rintro ⟨d, hmem, hwait⟩
    obtain hmem | hmem := List.mem_append.mp hmem
    · exact hinv ⟨d, hmem, hwait⟩
    · obtain rfl := List.mem_singleton.mp hmem
      cases hwait
  | drainReturn d drainer hd hphase hdrained =>
    rintro ⟨x, hmem, hwait⟩
    obtain hmem | rfl := List.mem_or_eq_of_mem_set hmem
    · exact hinv ⟨x, hmem, hwait⟩
    · cases hwait
  -- the predicate was false a moment ago
  | drainStay d drainer hd hphase hdrained =>
    have hbusy : Busy s := busy_of_not_drained hactive hdrained
    exact fun _ => hbusy
  | drainSleep d drainer hd hphase =>
    intro _
    exact hinv ⟨drainer, List.mem_of_getElem? hd, by simp [Drainer.isWaiting, hphase]⟩
  | wakeDrainer d drainers hd =>
    rintro ⟨x, hmem, hwait⟩
    exact hinv ⟨x, notifyDrainer_waiting hd x hmem hwait, hwait⟩
  | notifyAll hdes =>
    intro hwait
    obtain ht | ⟨w, hmem, hw⟩ := hinv hwait
    · exact .inl ht
    · refine .inr ⟨w, List.mem_map.mpr ⟨w, hmem, ?_⟩, hw⟩
      cases w <;> first | rfl | cases hw
  | reject | setStop | join => exact hinv

/-- In a run whose notifications are heard, somebody will notify while a `drain()` waits. -/
theorem waitInv_of_reaches {n : UInt64} {hw : UInt32} {s : ThreadPool τ}
    (h : Reaches step Heard (init n hw) s) : WaitInv s := by
  -- with the count of active workers
  apply h.invariant_with (I := ActiveInv)
  · intro s hs
    exact activeInv_of_reachable hs.reachable
  · rintro ⟨d, hmem, -⟩
    cases hmem
  · intro s a s' hactive hinv hok hs
    exact (steps_of_step hs).waitInv hok hactive hinv

/-! ## The last notification -/

/-- The worker that has notified leaves only idle workers when it was the last. -/
theorem idle_set {workers : List (Worker τ)} {i : Nat}
    (h : ∀ w ∈ workers.eraseIdx i, w.isIdle = true) :
    ∀ w ∈ workers.set i .checking, w.isIdle = true := by
  intro w hmem
  obtain ⟨j, hj⟩ := List.getElem?_of_mem hmem
  by_cases heq : i = j
  · subst heq
    -- the one that has notified
    obtain rfl : w = .checking := by
      rw [List.getElem?_set_self'] at hj
      cases hi : workers[i]? with
      | none => simp [hi] at hj
      | some x => simpa [hi] using hj.symm
    rfl
  · rw [List.getElem?_set_ne heq] at hj
    exact h w (List.mem_eraseIdx_iff_getElem?.mpr ⟨j, fun hji => heq hji.symm, hj⟩)

/-- A notification wakes one thread at most. -/
theorem notifyDrainer_countP_le {drainers drainers' : List Drainer} {wakes : Option Nat}
    (h : notifyDrainer drainers wakes = some drainers') :
    drainers.countP (fun d => d.phase = .blocked) ≤
      drainers'.countP (fun d => d.phase = .blocked) + 1 := by
  obtain rfl | ⟨d, drainer, hd, hphase, rfl⟩ := notifyDrainer_cases h
  · omega
  · have hcount := List.countP_set_add (fun d : Drainer => d.phase = .blocked)
      { drainer with phase := .checking } hd
    simp only [hphase, decide_true, if_true, reduceCtorEq, decide_false, Bool.false_eq_true,
      if_false] at hcount
    omega

/-- A thread about to block is still about to block after a notification. -/
theorem exists_blocking_of_locked {drainers drainers' : List Drainer} {wakes : Option Nat}
    (h : notifyDrainer drainers wakes = some drainers')
    (hlocked : drainers.any Drainer.isBlocking = true) :
    ∃ (d : Nat) (drainer : Drainer), drainers'[d]? = some drainer ∧ drainer.phase = .blocking := by
  have hpos : 0 < drainers'.countP Drainer.isBlocking := by
    rw [notifyDrainer_countP_isBlocking h]
    exact List.countP_pos_iff.mpr (List.any_eq_true.mp hlocked)
  obtain ⟨drainer, hmem, hblocking⟩ := List.countP_pos_iff.mp hpos
  obtain ⟨d, hd⟩ := List.getElem?_of_mem hmem
  refine ⟨d, drainer, hd, ?_⟩
  unfold Drainer.isBlocking at hblocking
  split at hblocking
  · assumption
  · cases hblocking

/-- A step that breaks the condition leads to a forgotten `drain()`. -/
theorem forgotten_of_not_heard {s s' : ThreadPool τ} {a : Act τ} (h : Steps s a s')
    (hnot : ¬Heard s a) : ∃ t, Reaches step (fun _ a => spurious a = false) s' t ∧ Forgotten t := by
  cases h with
  | notifyDrain i wakes drainers hi hd =>
    simp only [Heard, Classical.not_imp] at hnot
    obtain ⟨ht, hothers, hbad⟩ := hnot
    have hidle := idle_set hothers
    by_cases hlocked : s.locked = true
    · -- the thread about to block does so
      obtain ⟨d, drainer, hget, hphase⟩ := exists_blocking_of_locked hd hlocked
      have hstep : ThreadPool.step
          { s with drainers, workers := s.workers.set i .checking } (.drainBlock d) = some
          { s with
            drainers := drainers.set d { drainer with phase := .blocked }
            workers := s.workers.set i .checking } := by
        simp only [step, hget, hphase, if_true]
      refine ⟨_, Reaches.refl.tail (.drainBlock d) rfl hstep, ht, hidle,
        { drainer with phase := .blocked }, ?_, rfl⟩
      exact List.mem_set (List.getElem?_eq_some_iff.mp hget).1 _
    · -- two were blocked, and one still is
      have hle := notifyDrainer_countP_le hd
      have hpos : 0 < drainers.countP (fun d => d.phase = .blocked) := by
        by_contra hzero
        refine hbad ⟨?_, by simpa using hlocked⟩
        omega
      obtain ⟨d, hmem, hphase⟩ := List.countP_pos_iff.mp hpos
      exact ⟨_, .refl, ht, hidle, d, hmem, of_decide_eq_true hphase⟩
  | _ => exact absurd trivial hnot

/-- In a run in which every last notification of `drain_cv_` finds at most one
    blocked thread and none about to block, no thread is left blocked in `drain()`
    when nothing is queued and every worker is idle.  In any run, a step that
    breaks this condition leads to such a state without another wake-up. -/
theorem drain_heard (n : UInt64) (hw : UInt32) :
    (∀ s : ThreadPool τ, Reaches step Heard (init n hw) s → ¬Forgotten s) ∧
    ∀ (s s' : ThreadPool τ) (a : Act τ), Reachable step (init n hw) s → s.step a = some s' →
      ¬Heard s a → ∃ t, Reaches step (fun _ a => spurious a = false) s' t ∧ Forgotten t := by
  constructor
  · rintro s h ⟨ht, hidle, d, hmem, hphase⟩
    have hwait : d.isWaiting = true := by simp [Drainer.isWaiting, hphase]
    obtain hne | ⟨w, hw, hbusy⟩ := waitInv_of_reaches h ⟨d, hmem, hwait⟩
    · exact hne ht
    · rw [hidle w hw] at hbusy
      cases hbusy
  · intro s s' a _ hs hnot
    exact forgotten_of_not_heard (steps_of_step hs) hnot

/-- One thread in `drain()` is woken by the worker it waits for. -/
theorem drain_heard_oneThread :
    ∃ s : ThreadPool Unit, Reaches step Heard (init 1 0) s ∧
      (s.tasks = [] ∧ s.workers = [.blocked]) ∧ ∀ d ∈ s.drainers, d.phase ≠ .blocked := by
  have hrun : ∃ s : ThreadPool Unit, Reaches step Heard (init 1 0) s ∧
      (s.tasks = [] ∧ s.workers = [.blocked]) := exists_reaches_of_run
    [.enqueue (), .notifyOne 0 none, .check 0, .activate 0, .drain, .drainCheck 0, .drainBlock 0,
     .finish 0, .deactivate 0, .count 0, .settle 0, .notifyDrain 0 (some 0), .check 0]
    (by decide)
  obtain ⟨s, hs, hrest⟩ := hrun
  refine ⟨s, hs, hrest, fun d hd hphase => (drain_heard 1 0).1 s hs ⟨hrest.1, ?_, d, hd, hphase⟩⟩
  simp [hrest.2, Worker.isIdle]

/-- Without a spurious wake-up, a `drain()` is forgotten in two ways: two threads are
    blocked and one notification comes, or it comes between the look at the
    predicate and the block. -/
theorem forgotten_drain :
    (∃ s : ThreadPool Unit, Reaches step (fun _ a => spurious a = false) (init 1 0) s ∧
      Forgotten s ∧ s.workers = [.blocked] ∧ s.drainers.length = 2) ∧
    ∃ s : ThreadPool Unit, Reaches step (fun _ a => spurious a = false) (init 1 0) s ∧
      Forgotten s ∧ s.workers = [.blocked] ∧ s.drainers.length = 1 := by
  constructor
  · exact exists_reaches_of_run
      [.enqueue (), .notifyOne 0 none, .check 0, .activate 0, .drain, .drainCheck 0,
       .drainBlock 0, .drain, .drainCheck 1, .drainBlock 1, .finish 0, .deactivate 0, .count 0,
       .settle 0, .notifyDrain 0 (some 0), .check 0, .drainCheck 0]
      (by decide)
  · exact exists_reaches_of_run
      [.enqueue (), .notifyOne 0 none, .check 0, .activate 0, .drain, .drainCheck 0, .finish 0,
       .deactivate 0, .count 0, .settle 0, .notifyDrain 0 none, .drainBlock 0, .check 0]
      (by decide)

end Rpc.ThreadPool
