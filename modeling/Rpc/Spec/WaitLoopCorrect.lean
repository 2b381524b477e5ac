import Rpc.ForStd.Transition
import Rpc.Native.WaitLoop

/-!
# When the wait loops of the registry make progress

The handlers of one operation follow each other without a gap, so while an operation is
under way the `io_context` has exactly one piece of outstanding work (`Shape.busy`).  With the
last handler of the operation this work is gone, and the context is stopped
(`Shape.quiet`).  Nothing calls `restart()`: the handlers of the next operation are never run,
and its loop never ends.

`wait_loop_progress` says so in both directions: no operation is stuck as long as at most one
of them has started asynchronous work, and the second one that does is.
-/

namespace Rpc

open Transition Zk

namespace WaitLoop

/-- The future of an operation is not satisfied, a handler of this operation is ready, and the
    `io_context` does not run it any more. -/
def Stuck (s : WaitLoop) : Prop :=
  ∃ w h, s.wait = some w ∧ w.result = none ∧ h ∈ s.ios.ready ∧ h.op = w.op ∧ s.ios.stopped = true

/-- The operation starts asynchronous work. -/
def Starts (s : WaitLoop) : Act → Prop
  | .connect resolveError => resolveError = none
  | .request => s.connected = true
  | _ => False

/-- Only an operation before which none has started asynchronous work starts any. -/
def FirstOnly (s : WaitLoop) (a : Act) : Prop := s.Starts a → s.started = 0

/-- What a step can do. -/
inductive Steps (s : WaitLoop) : Act → WaitLoop → Prop where
  | started (a : Act) (hidle : s.wait = none) (hstarts : s.Starts a) (ios : IoContext Handler)
      (h : Handler) (isConnect : Bool) (hop : h.op = s.started)
      (hios : ios = s.ios.start h ∨ ios = s.ios.post h) :
    Steps s a { s with
      ios
      wait := some { op := s.started, isConnect, result := none }
      started := s.started + 1 }
  | failed (msg : Bytes) (hidle : s.wait = none) :
    Steps s (.connect (some msg)) { s with
      wait := some { op := s.started, isConnect := true, result := some (.makeError msg) } }
  | refused (hidle : s.wait = none) (hconnected : s.connected = false) : Steps s .request s
  | completed (h : Handler) (ios : IoContext Handler) (hios : s.ios.complete h = some ios) :
    Steps s (.complete h) { s with ios }
  | polled (error : Option Bytes) (w : Wait) (hwait : s.wait = some w)
      (hresult : w.result = none) : Steps s (.poll error) (s.pollOne error)
  | returned (w : Wait) (result : ResultVoid) (connected : Bool) (hwait : s.wait = some w)
      (hresult : w.result = some result) :
    Steps s .ret { s with wait := none, connected }

/-- Every step is one of these. -/
theorem steps_of_step {s s' : WaitLoop} {a : Act} (hstep : s.step a = some s') :
    Steps s a s' := by
  cases a with
  | connect resolveError =>
    simp only [step] at hstep
    split at hstep
    · rename_i hidle
      split at hstep
      · obtain rfl := Option.some.inj hstep
        exact .started (.connect none) hidle rfl _ _ true rfl (.inl rfl)
      · obtain rfl := Option.some.inj hstep
        exact .failed _ hidle
    · cases hstep
  | request =>
    simp only [step] at hstep
    split at hstep
    · rename_i hidle
      split at hstep
      · rename_i hconnected
        obtain rfl := Option.some.inj hstep
        exact .started .request hidle hconnected _ _ false rfl (.inr rfl)
      · rename_i hconnected
        obtain rfl := Option.some.inj hstep
        exact .refused hidle (by simpa using hconnected)
    · cases hstep
  | complete h =>
    obtain ⟨ios, hios, rfl⟩ := Option.map_eq_some_iff.mp hstep
    exact .completed h ios hios
  | poll error =>
    simp only [step] at hstep
    split at hstep
    · rename_i hwait
      obtain rfl := Option.some.inj hstep
      exact .polled error _ hwait rfl
    · cases hstep
  | ret =>
    simp only [step] at hstep
    split at hstep
    · rename_i hwait
      obtain rfl := Option.some.inj hstep
      exact .returned _ _ _ hwait rfl
    · cases hstep

/-- The states of a registry. -/
inductive Shape (s : WaitLoop) : Prop where
  /-- no operation waits for its future, and the context is stopped when there was one -/
  | quiet (hwaiting : s.ios.waiting = []) (hready : s.ios.ready = []) (hguards : s.ios.guards = 0)
      (hdone : ∀ w, s.wait = some w → w.result ≠ none)
      (hstopped : s.ios.stopped = true ↔ 0 < s.started)
  /-- an operation waits, and has one handler; the context is stopped unless it is the first -/
  | busy (w : Wait) (h : Handler) (hguards : s.ios.guards = 0) (hwait : s.wait = some w)
      (hresult : w.result = none) (hop : h.op = w.op)
      (hhandler : s.ios.waiting = [h] ∧ s.ios.ready = [] ∨ s.ios.waiting = [] ∧ s.ios.ready = [h])
      (hstarted : 0 < s.started) (hstopped : s.ios.stopped = true ↔ 1 < s.started)

/-- At the beginning no operation has been called. -/
theorem shape_init : init.Shape := by
  apply Shape.quiet
  · rfl
  · rfl
  · rfl
  · intro w hw
    cases hw
  · simp [init, IoContext.init]

/-- A handler of the operation that waits either starts one more, or satisfies the promise. -/
theorem onHandler_cases (s : WaitLoop) (h : Handler) (error : Option Bytes) :
    (∃ stage, s.onHandler h error = { s with ios := s.ios.start { h with stage } }) ∨
      ∃ result, s.onHandler h error = s.satisfy h.op result := by
  unfold onHandler
  -- an error satisfies the promise at once
  split
  · exact .inr ⟨_, rfl⟩
  · split
    · exact .inl ⟨_, rfl⟩
    · exact .inr ⟨_, rfl⟩

/-- A turn of the loop calls no operation. -/
theorem started_pollOne (s : WaitLoop) (error : Option Bytes) :
    (s.pollOne error).started = s.started := by
  unfold pollOne
  split
  · rename_i h ios hnext
    obtain ⟨stage, heq⟩ | ⟨result, heq⟩ := onHandler_cases { s with ios } h error
    · simp only [heq]
    · simp only [heq, satisfy]
  · rfl

/-- One turn of the loop. -/
theorem shape_pollOne {s : WaitLoop} (hs : s.Shape) (error : Option Bytes) :
    (s.pollOne error).Shape := by
  unfold pollOne
  cases hnext : s.ios.next with
  | none => exact hs
  | some x =>
    obtain ⟨h, ios⟩ := x
    obtain ⟨hrunning, ready, hready, rfl⟩ := IoContext.next_eq_some hnext
    cases hs with
    | quiet hwaiting hnone hguards hdone hstopped =>
      rw [hnone] at hready
      cases hready
    | busy w h' hguards hwait hresult hop hhandler hstarted hstopped =>
      obtain ⟨-, hnone⟩ | ⟨hwaiting, hone⟩ := hhandler
      · rw [hnone] at hready
        cases hready
      · rw [hone] at hready
        obtain ⟨rfl, rfl⟩ := List.cons.inj hready
        -- the context runs a handler, so this is the first operation
        rw [hrunning] at hstopped
        have hfirst : ¬1 < s.started := fun hlt => by cases hstopped.mpr hlt
        obtain ⟨stage, heq⟩ | ⟨result, heq⟩ :=
          onHandler_cases { s with ios := { s.ios with ready := [] } } h' error
        · -- the next operation on the socket is the one piece of work
          simp only [heq, IoContext.finish_start]
          apply Shape.busy w { h' with stage }
          · exact hguards
          · exact hwait
          · exact hresult
          · exact hop
          · left
            simp [IoContext.start, hwaiting]
          · exact hstarted
          · simp [IoContext.start, hrunning, hfirst]
        · -- the last handler has returned: no work is left
          simp only [heq, satisfy]
          rw [IoContext.finish_of_idle (c := { s.ios with ready := [] }) hguards hwaiting rfl]
          apply Shape.quiet
          · exact hwaiting
          · rfl
          · exact hguards
          · intro w' hw'
            simp only [hwait, Option.map_some, hop, if_true, Option.some.injEq] at hw'
            rw [← hw']
            exact Option.some_ne_none result
          · simp [IoContext.stop, hstarted]

/-- An operation that starts asynchronous work, after the last one has returned. -/
theorem shape_start {s : WaitLoop} (hs : s.Shape) (hidle : s.wait = none) (ios : IoContext Handler)
    (h : Handler) (hop : h.op = s.started) (isConnect : Bool)
    (hios : ios = s.ios.start h ∨ ios = s.ios.post h) :
    Shape { s with
      ios
      wait := some { op := s.started, isConnect, result := none }
      started := s.started + 1 } := by
  cases hs with
  | busy w h' hguards hwait hresult hop' hhandler hstarted hstopped =>
    rw [hidle] at hwait
    cases hwait
  | quiet hwaiting hready hguards hdone hstopped =>
    apply Shape.busy { op := s.started, isConnect, result := none } h _ rfl rfl hop
    · obtain rfl | rfl := hios
      · -- `async_connect`
        left
        simp [IoContext.start, hwaiting, hready]
      · -- what `do_send` posts
        right
        simp [IoContext.post, hwaiting, hready]
    · exact Nat.succ_pos _
    · obtain rfl | rfl := hios <;> simp [IoContext.start, IoContext.post, hstopped]
    · obtain rfl | rfl := hios <;> exact hguards

/-- An operation on the socket completes. -/
theorem shape_complete {s : WaitLoop} (hs : s.Shape) {h : Handler} {ios : IoContext Handler}
    (hios : s.ios.complete h = some ios) : Shape { s with ios } := by
  obtain ⟨hmem, rfl⟩ := IoContext.complete_eq_some hios
  cases hs with
  | quiet hwaiting hready hguards hdone hstopped =>
    rw [hwaiting] at hmem
    cases hmem
  | busy w h' hguards hwait hresult hop hhandler hstarted hstopped =>
    obtain ⟨hwaiting, hready⟩ | ⟨hwaiting, -⟩ := hhandler
    · rw [hwaiting, List.mem_singleton] at hmem
      subst hmem
      exact .busy w h hguards hwait hresult hop (.inr (by simp [hwaiting, hready])) hstarted
        hstopped
    · rw [hwaiting] at hmem
      cases hmem

/-- One step. -/
theorem shape_step {s s' : WaitLoop} {a : Act} (hs : s.Shape) (hstep : s.step a = some s') :
    s'.Shape := by
  cases steps_of_step hstep with
  | started a hidle hstarts ios h isConnect hop hios =>
    exact shape_start hs hidle ios h hop isConnect hios
  | failed msg hidle =>
    cases hs with
    | busy w h' hguards hwait hresult hop hhandler hstarted hstopped =>
      rw [hidle] at hwait
      cases hwait
    | quiet hwaiting hready hguards hdone hstopped =>
      refine Shape.quiet hwaiting hready hguards ?_ hstopped
      intro w hw
      obtain rfl := Option.some.inj hw
      exact Option.some_ne_none _
  | refused hidle hconnected => exact hs
  | completed h ios hios => exact shape_complete hs hios
  | polled error w hwait hresult => exact shape_pollOne hs error
  | returned w result connected hwait hresult =>
    cases hs with
    | quiet hwaiting hready hguards hdone hstopped =>
      refine Shape.quiet hwaiting hready hguards ?_ hstopped
      intro w hw
      cases hw
    | busy w' h' hguards hwait' hresult' hop hhandler hstarted hstopped =>
      -- the future of the operation under way is not ready
      rw [hwait'] at hwait
      obtain rfl := Option.some.inj hwait
      rw [hresult'] at hresult
      cases hresult

/-- What a step adds to the operations that have started asynchronous work. -/
theorem started_step {s s' : WaitLoop} {a : Act} (hstep : s.step a = some s') :
    s'.started = s.started ∨ s.Starts a ∧ s'.started = s.started + 1 := by
  cases steps_of_step hstep with
  | started a hidle hstarts ios h isConnect hop hios => exact .inr ⟨hstarts, rfl⟩
  | failed msg hidle => exact .inl rfl
  | refused hidle hconnected => exact .inl rfl
  | completed h ios hios => exact .inl rfl
  | polled error w hwait hresult => exact .inl (started_pollOne s error)
  | returned w result connected hwait hresult => exact .inl rfl

/-- In every state the registry has one of these shapes. -/
theorem shape_of_reaches {ok : WaitLoop → Act → Prop} {s : WaitLoop}
    (h : Reaches step ok init s) : s.Shape :=
  h.invariant shape_init fun _ _ _ hs _ hstep => shape_step hs hstep

/-- While an operation starts asynchronous work only when none has before, at most one has. -/
theorem started_le_one {s : WaitLoop} (h : Reaches step FirstOnly init s) : s.started ≤ 1 := by
  apply h.invariant (P := fun s => s.started ≤ 1)
  · exact Nat.zero_le 1
  · intro s a s' hle hok hstep
    obtain heq | ⟨hstarts, heq⟩ := started_step hstep
    · omega
    · have hnone := hok hstarts
      omega

/-- A stuck operation stays stuck: its loop does not end. -/
theorem stuck_step {s s' : WaitLoop} {a : Act} (hs : s.Stuck) (hstep : s.step a = some s') :
    s'.Stuck := by
  obtain ⟨w, h, hwait, hresult, hmem, hop, hstopped⟩ := hs
  -- an operation is under way, so none is called and this one does not return
  cases steps_of_step hstep with
  | started a hidle hstarts ios h' isConnect hop' hios =>
    rw [hidle] at hwait
    cases hwait
  | failed msg hidle =>
    rw [hidle] at hwait
    cases hwait
  | refused hidle hconnected => exact ⟨w, h, hwait, hresult, hmem, hop, hstopped⟩
  | completed h' ios hios =>
    obtain ⟨-, rfl⟩ := IoContext.complete_eq_some hios
    exact ⟨w, h, hwait, hresult, List.mem_append_left _ hmem, hop, hstopped⟩
  | polled error w' hwait' hresult' =>
    -- `poll_one()` returns 0
    have hnext : s.ios.next = none := by simp [IoContext.next, hstopped]
    have hpoll : s.pollOne error = s := by simp [pollOne, hnext]
    rw [hpoll]
    exact ⟨w, h, hwait, hresult, hmem, hop, hstopped⟩
  | returned w' result connected hwait' hresult' =>
    rw [hwait'] at hwait
    obtain rfl := Option.some.inj hwait
    rw [hresult] at hresult'
    cases hresult'

/-- The second operation that starts asynchronous work is stuck once its first handler is
    ready. -/
theorem stuck_of_started {s s' : WaitLoop} {a : Act} (hs : s.Shape) (hnot : ¬s.FirstOnly a)
    (hstep : s.step a = some s') :
    s'.Stuck ∨ ∃ h t, s'.step (.complete h) = some t ∧ t.Stuck := by
  obtain ⟨hstarts, hsome⟩ := Classical.not_imp.mp hnot
  -- the operation waits, and is not the first one
  have hbusy := shape_step hs hstep
  have hstarted : s'.started = s.started + 1 ∧ ∃ w, s'.wait = some w ∧ w.result = none := by
    cases steps_of_step hstep with
    | started a hidle hstarts ios h isConnect hop hios => exact ⟨rfl, _, rfl, rfl⟩
    | failed msg hidle => cases hstarts
    | refused hidle hconnected =>
      rw [Starts, hconnected] at hstarts
      cases hstarts
    | completed h ios hios => cases hstarts
    | polled error w hwait hresult => cases hstarts
    | returned w result connected hwait hresult => cases hstarts
  obtain ⟨hcount, w, hwait, hresult⟩ := hstarted
  cases hbusy with
  | quiet hwaiting hready hguards hdone hstopped => exact absurd hresult (hdone w hwait)
  | busy w' h hguards hwait' hresult' hop hhandler hpos hstopped =>
    have hstop : s'.ios.stopped = true := hstopped.mpr (by omega)
    obtain ⟨hwaiting, -⟩ | ⟨-, hready⟩ := hhandler
    · -- an operation on the socket: when it completes, its handler is ready
      right
      have hstep' : s'.step (.complete h) = some { s' with
          ios := { s'.ios with waiting := [], ready := s'.ios.ready ++ [h] } } := by
        simp [step, IoContext.complete, hwaiting]
      exact ⟨h, _, hstep', w', h, hwait', hresult', by simp, hop, hstop⟩
    · left
      exact ⟨w', h, hwait', hresult', by simp [hready], hop, hstop⟩

/-- No operation is stuck in a run in which an operation starts asynchronous work only when none
    has before.  Any other one that does is stuck for good, at once or when its `async_connect`
    has completed. -/
theorem wait_loop_progress (s : WaitLoop) (h : Reachable step init s) :
    (Reaches step FirstOnly init s → ¬s.Stuck) ∧
      ∀ a s', ¬s.FirstOnly a → s.step a = some s' →
        ∃ t, (t = s' ∨ ∃ h, s'.step (.complete h) = some t) ∧
          ∀ u, Reachable step t u → u.Stuck := by
  have hshape := shape_of_reaches h
  constructor
  · intro hfirst hstuck
    have hle := started_le_one hfirst
    obtain ⟨w, h, hwait, hresult, hmem, -, hstop⟩ := hstuck
    cases hshape with
    | quiet hwaiting hready hguards hdone hstopped => exact hdone w hwait hresult
    | busy w' h' hguards hwait' hresult' hop hhandler hpos hstopped =>
      have hlt := hstopped.mp hstop
      omega
  · intro a s' hnot hstep
    have hforever : ∀ t : WaitLoop, t.Stuck → ∀ u, Reachable step t u → u.Stuck :=
      fun t ht u hu => hu.invariant ht fun _ _ _ hs _ hs' => stuck_step hs hs'
    obtain hnow | ⟨h, t, ht, hthen⟩ := stuck_of_started hshape hnot hstep
    · exact ⟨s', .inl rfl, hforever s' hnow⟩
    · exact ⟨t, .inr ⟨h, ht⟩, hforever t hthen⟩

instance Starts.decidable (s : WaitLoop) (a : Act) : Decidable (s.Starts a) :=
  match a with
  | .connect resolveError => inferInstanceAs (Decidable (resolveError = none))
  | .request => inferInstanceAs (Decidable (s.connected = true))
  | .complete _ => .isFalse id
  | .poll _ => .isFalse id
  | .ret => .isFalse id

instance FirstOnly.decidable (s : WaitLoop) (a : Act) : Decidable (s.FirstOnly a) :=
  inferInstanceAs (Decidable (s.Starts a → s.started = 0))

/-- A `connect` that succeeds. -/
def connectActs : List Act :=
  [.connect none,
    .complete { op := 0, stage := .connecting }, .poll none,
    .complete { op := 0, stage := .handshakeWrite }, .poll none,
    .complete { op := 0, stage := .handshakeLength }, .poll none,
    .complete { op := 0, stage := .handshakeBody }, .poll none,
    .ret]

/-- A `connect()` ends, and the request after it is stuck. -/
theorem wait_loop_progress_connect :
    ∃ s, Reaches step FirstOnly init s ∧ s.connected = true ∧ ¬s.Stuck ∧
      ∃ s', s.step .request = some s' ∧
        ∃ t, (t = s' ∨ ∃ h, s'.step (.complete h) = some t) ∧
          ∀ u, Reachable step t u → u.Stuck := by
  have hrun : ∃ s ∈ run (guarded step FirstOnly) init connectActs,
      s.connected = true ∧ s.wait = none ∧ s.started = 1 := ⟨_, rfl, rfl, rfl, rfl⟩
  obtain ⟨s, hs, hconnected, hidle, hstarted⟩ := exists_reaches_of_run connectActs hrun
  obtain ⟨hfine, hstuck⟩ := wait_loop_progress s hs.reachable
  have hnot : ¬s.FirstOnly .request := by
    intro hfirst
    rw [hfirst hconnected] at hstarted
    cases hstarted
  have hstep : ∃ s', s.step .request = some s' := by simp [step, hidle, hconnected]
  obtain ⟨s', hs'⟩ := hstep
  exact ⟨s, hs, hconnected, hfine hs, s', hs', hstuck .request s' hnot hs'⟩

/-- `connect` succeeds and `get_children` is called: nobody runs the handler that sends its
    request. -/
theorem second_operation_stuck : ¬∀ s, Reachable step init s → ¬s.Stuck := by
  intro hall
  have hrun : ∃ s ∈ run step init (connectActs ++ [.request]), s.Stuck :=
    ⟨_, rfl, _, { op := 1, stage := .posted }, rfl, rfl, by decide, rfl, rfl⟩
  obtain ⟨s, hs, hstuck⟩ := exists_reachable_of_run _ hrun
  exact hall s hs hstuck

end WaitLoop

end Rpc
