import Rpc.ForStd.Transition
import Rpc.Native.ClientLife

/-!
# How many lives a client has

`connect()` assigns to `io_thread_` without looking at what it holds, and nothing restarts the
context that `disconnect()` has stopped.  So a client can be connected once: a second
`connect()` terminates the process, unless a `disconnect()` has joined the thread, and then
its `run()` returns at once and no handler is run any more (`client_survives_iff`).

Most steps leave alone what decides this (`Frame`).  What is left are `connect()` and
`disconnect()`; `LifeInv` ties the state to the calls made so far.
-/

namespace Rpc

open Transition

namespace ClientLife

/-- The resolve handler of an invocation of `connect()` has run, or does so when the io thread
    and the socket go on. -/
def CanResolve (s : ClientLife) (a : Nat) : Prop :=
  ∃ s' t, Reaches step (fun _ act => act.isIo = true) s s' ∧ s'.attempts[a]? = some t ∧
    t.resolved = true

/-- What is expected of a client. -/
structure Survives (s : ClientLife) : Prop where
  /-- `io_thread_` was not assigned to while it was joinable -/
  alive : s.terminated = false
  /-- no `ios_.run()` was started on a stopped context -/
  started : ∀ t ∈ s.attempts, t.onStopped = false
  /-- every `connect()` after the last `disconnect()` gets its resolve handler run -/
  resolves : ∀ a t, s.attempts[a]? = some t → t.abandoned = false → s.CanResolve a

/-- Each `connect()` is the first one, and no `disconnect()` is called before it. -/
def ConnectsOnce (acts : List Act) : Prop :=
  ∀ pre, pre ++ [.connect] <+: acts → .connect ∉ pre ∧ .disconnect ∉ pre

/-- No call has been made. -/
theorem connectsOnce_nil : ConnectsOnce [] := by
  intro pre hpre
  simp at hpre

/-- One more call: only a `connect()` can be one too many. -/
theorem connectsOnce_append (acts : List Act) (a : Act) :
    ConnectsOnce (acts ++ [a]) ↔
      ConnectsOnce acts ∧ (a = .connect → .connect ∉ acts ∧ .disconnect ∉ acts) := by
  constructor
  · intro h
    refine ⟨fun pre hpre => h pre (hpre.trans (List.prefix_append acts [a])), ?_⟩
    intro ha
    subst ha
    exact h acts List.prefix_rfl
  · intro h pre hpre
    -- a prefix that ends in a `connect()` is the whole list, or a prefix of the old one
    obtain heq | hpre := List.prefix_concat_iff.mp hpre
    · obtain ⟨rfl, hlast⟩ := List.append_inj' heq rfl
      exact h.2 (List.cons.inj hlast).1.symm
    · exact h.1 pre hpre

/-- A step that is not a `connect()`. -/
theorem connectsOnce_append_of_ne {acts : List Act} {a : Act} (h : a ≠ .connect) :
    ConnectsOnce (acts ++ [a]) ↔ ConnectsOnce acts := by
  simp [connectsOnce_append, h]

/-! ## What most steps leave alone -/

/-- The resolve handler of an invocation of `connect()` has not run. -/
def Unresolved (s : ClientLife) (a : Nat) : Prop :=
  ∃ t, s.attempts[a]? = some t ∧ t.resolved = false

/-- The context holds the resolve handler of an invocation of `connect()`. -/
def HasHandler (s : ClientLife) (a : Nat) : Prop :=
  .resolve a ∈ s.ios.waiting ∨ .resolve a ∈ s.ios.ready

/-- What a step leaves alone that is neither `connect()` nor a part of `disconnect()`. -/
structure Frame (s s' : ClientLife) : Prop where
  guards : s'.ios.guards = s.ios.guards
  /-- a context with a guard does not stop by itself -/
  running : 0 < s.ios.guards → s.ios.stopped = false → s'.ios.stopped = false
  stopped : s.ios.stopped = true → s'.ios.stopped = true
  empty : s'.ioThread = .empty ↔ s.ioThread = .empty
  returned : s.ios.stopped = false → s'.ioThread = .returned → s.ioThread = .returned
  leaving : s'.leaving = s.leaving
  terminated : s'.terminated = s.terminated
  onStopped : s'.attempts.map (·.onStopped) = s.attempts.map (·.onStopped)
  abandoned : s'.attempts.map (·.abandoned) = s.attempts.map (·.abandoned)
  /-- a handler stays until it runs -/
  handler : ∀ a, s'.Unresolved a → s.Unresolved a ∧ (s.HasHandler a → s'.HasHandler a)
  /-- a stopped context runs no handler -/
  idle : s.ios.stopped = true → s'.attempts = s.attempts

/-- Starting an operation keeps what the context holds. -/
theorem hasHandler_start {s s' : ClientLife} {a : Nat}
    (hios : s'.ios = s.ios ∨ ∃ h, s'.ios = s.ios.start h) (ha : s.HasHandler a) :
    s'.HasHandler a := by
  unfold HasHandler
  obtain heq | ⟨h, heq⟩ := hios
  · rw [heq]
    exact ha
  · rw [heq]
    exact ha.imp_left (List.mem_append_left [h])

/-- A step that leaves the invocations of `connect()` alone. -/
theorem Frame.of_attempts {s s' : ClientLife} (hguards : s'.ios.guards = s.ios.guards)
    (hstopped : s'.ios.stopped = s.ios.stopped)
    (hempty : s'.ioThread = .empty ↔ s.ioThread = .empty)
    (hreturned : s.ios.stopped = false → s'.ioThread = .returned → s.ioThread = .returned)
    (hleaving : s'.leaving = s.leaving) (hterminated : s'.terminated = s.terminated)
    (hattempts : s'.attempts = s.attempts) (hhandler : ∀ a, s.HasHandler a → s'.HasHandler a) :
    Frame s s' := by
  constructor
  · exact hguards
  · intro _ hrunning
    rw [hstopped, hrunning]
  · intro hstop
    rw [hstopped, hstop]
  · exact hempty
  · exact hreturned
  · exact hleaving
  · exact hterminated
  · rw [hattempts]
  · rw [hattempts]
  · intro a ha
    rw [Unresolved, hattempts] at ha
    exact ⟨ha, hhandler a⟩
  · intro _
    exact hattempts

/-- A call at most starts a write. -/
theorem frame_call (s : ClientLife) : Frame s s.call := by
  -- without a connection it throws, and behind another frame it only waits
  unfold call doWrite
  split
  · exact .of_attempts rfl rfl .rfl (fun _ h => h) rfl rfl rfl fun _ => id
  · split
    · exact .of_attempts rfl rfl .rfl (fun _ h => h) rfl rfl rfl fun _ => id
    · exact .of_attempts rfl rfl .rfl (fun _ h => h) rfl rfl rfl fun _ =>
        hasHandler_start (.inr ⟨.write, rfl⟩)

/-- What a handler does to the context. -/
theorem onHandler_ios (s : ClientLife) (h : Handler) (ok : Bool) :
    (s.onHandler h ok).ios = s.ios ∨ ∃ h', (s.onHandler h ok).ios = s.ios.start h' := by
  -- each handler starts the next operation, or ends its chain
  unfold onHandler doWrite
  split
  · split
    · exact .inr ⟨_, rfl⟩
    · exact .inl rfl
  · split
    · exact .inr ⟨_, rfl⟩
    · exact .inl rfl
  · split
    · exact .inr ⟨_, rfl⟩
    · exact .inl rfl
  · split
    · exact .inl rfl
    · exact .inr ⟨_, rfl⟩

/-- A handler does not touch the thread, and does not end a call. -/
theorem onHandler_fields (s : ClientLife) (h : Handler) (ok : Bool) :
    (s.onHandler h ok).ioThread = s.ioThread ∧ (s.onHandler h ok).leaving = s.leaving ∧
      (s.onHandler h ok).terminated = s.terminated := by
  unfold onHandler doWrite
  split <;> split <;> exact ⟨rfl, rfl, rfl⟩

/-- A handler changes the invocation it belongs to. -/
theorem exists_modify (attempts : List Attempt) (a b : Nat) (ran : Bool) {g : Attempt → Attempt}
    (hg : ∀ t, (g t).onStopped = t.onStopped ∧ (g t).abandoned = t.abandoned ∧
      (g t).resolved = (t.resolved || ran)) :
    ∃ f : Attempt → Attempt,
      (∀ t, (f t).onStopped = t.onStopped ∧ (f t).abandoned = t.abandoned ∧
        (f t).resolved = (t.resolved || (ran && b = a))) ∧
      (attempts.modify b g)[a]? = attempts[a]?.map f := by
  refine ⟨_, ?_, List.getElem?_modify g b attempts a⟩
  intro t
  by_cases hb : b = a
  · simp [hb, hg]
  · simp [hb]

/-- What a handler does to an invocation of `connect()`. -/
theorem onHandler_attempts (s : ClientLife) (h : Handler) (ok : Bool) (a : Nat) :
    ∃ f : Attempt → Attempt,
      (∀ t, (f t).onStopped = t.onStopped ∧ (f t).abandoned = t.abandoned ∧
        (f t).resolved = (t.resolved || h = .resolve a)) ∧
      (s.onHandler h ok).attempts[a]? = s.attempts[a]?.map f := by
  cases h with
  | resolve b =>
    simp only [Handler.resolve.injEq]
    cases ok with
    | false => exact exists_modify s.attempts a b true fun t => ⟨rfl, rfl, by simp⟩
    | true => exact exists_modify s.attempts a b true fun t => ⟨rfl, rfl, by simp⟩
  | connect b =>
    simp only [reduceCtorEq]
    cases ok with
    | false => exact exists_modify s.attempts a b false fun t => ⟨rfl, rfl, by simp⟩
    | true => exact exists_modify s.attempts a b false fun t => ⟨rfl, rfl, by simp⟩
  | read =>
    refine ⟨id, fun t => by simp, ?_⟩
    cases ok <;> simp [onHandler]
  | write =>
    refine ⟨id, fun t => by simp, ?_⟩
    simp only [onHandler, doWrite, Option.map_id_fun, id_eq]
    split <;> rfl

/-- What is unresolved after a handler was so before, and the handler is not its own. -/
theorem unresolved_of_onHandler {s : ClientLife} {h : Handler} {ok : Bool} {a : Nat}
    (ha : (s.onHandler h ok).Unresolved a) : s.Unresolved a ∧ h ≠ .resolve a := by
  obtain ⟨t', ht', hresolved⟩ := ha
  obtain ⟨f, hf, heq⟩ := onHandler_attempts s h ok a
  rw [heq] at ht'
  obtain ⟨t, ht, rfl⟩ := Option.map_eq_some_iff.mp ht'
  rw [(hf t).2.2, Bool.or_eq_false_iff] at hresolved
  exact ⟨⟨t, ht, hresolved.1⟩, by simpa using hresolved.2⟩

/-- What a handler leaves alone of the invocations of `connect()`. -/
theorem map_onHandler (s : ClientLife) (h : Handler) (ok : Bool) {g : Attempt → Bool}
    (hg : ∀ t t', t'.onStopped = t.onStopped → t'.abandoned = t.abandoned → g t' = g t) :
    (s.onHandler h ok).attempts.map g = s.attempts.map g := by
  apply List.ext_getElem?
  intro a
  obtain ⟨f, hf, heq⟩ := onHandler_attempts s h ok a
  rw [List.getElem?_map, List.getElem?_map, heq]
  cases s.attempts[a]? with
  | none => rfl
  | some t => exact congrArg some (hg t (f t) (hf t).1 (hf t).2.1)

/-- What running a handler does to the context: with the operation it starts the context does
    not run out of work. -/
theorem runHandler_ios (s : ClientLife) (ios : IoContext Handler) (h : Handler) (ok : Bool) :
    (s.runHandler ios h ok).ios = ios.finish ∨
      ∃ h', (s.runHandler ios h ok).ios = ios.start h' := by
  simp only [runHandler]
  obtain heq | ⟨h', heq⟩ := onHandler_ios { s with ios } h ok
  · left
    rw [heq]
  · right
    exact ⟨h', by rw [heq, IoContext.finish_start]⟩

/-- Running a handler does not touch the thread, and does not end a call. -/
theorem runHandler_fields (s : ClientLife) (ios : IoContext Handler) (h : Handler) (ok : Bool) :
    (s.runHandler ios h ok).ioThread = s.ioThread ∧
      (s.runHandler ios h ok).leaving = s.leaving ∧
      (s.runHandler ios h ok).terminated = s.terminated :=
  onHandler_fields { s with ios } h ok

/-- Running a handler leaves alone what decides whether the client survives. -/
theorem frame_run {s : ClientLife} {h : Handler} {ios : IoContext Handler} (ok : Bool)
    (hnext : s.ios.next = some (h, ios)) : Frame s (s.runHandler ios h ok) := by
  obtain ⟨hrunning, -⟩ := IoContext.next_eq_some hnext
  obtain ⟨hstopped, hguards, hwaiting, hready⟩ := IoContext.fields_of_next hnext
  obtain ⟨hthread, hleaving, hterminated⟩ := runHandler_fields s ios h ok
  have hios := runHandler_ios s ios h ok
  constructor
  · rw [← hguards]
    obtain heq | ⟨h', heq⟩ := hios <;> simp [heq, IoContext.start]
  · intro hheld _
    -- the guard is work, and so is an operation that is started
    obtain heq | ⟨h', heq⟩ := hios
    · rw [heq, IoContext.finish_of_guards (by omega), hstopped, hrunning]
    · rw [heq]
      exact hstopped.trans hrunning
  · intro hstop
    rw [hrunning] at hstop
    cases hstop
  · rw [hthread]
  -- the thread does not return while it runs a handler
  · intro _ hreturned
    rw [← hthread, hreturned]
  · exact hleaving
  · exact hterminated
  · exact map_onHandler { s with ios } h ok fun _ _ hsame _ => hsame
  · exact map_onHandler { s with ios } h ok fun _ _ _ hsame => hsame
  · intro a ha
    obtain ⟨hbefore, hne⟩ := unresolved_of_onHandler ha
    refine ⟨hbefore, ?_⟩
    intro hhandler
    -- the handler that runs is another one
    have hrest : .resolve a ∈ ios.waiting ∨ .resolve a ∈ ios.ready := by
      rw [HasHandler, hready, ← hwaiting] at hhandler
      exact hhandler.imp_right fun hmem => (List.mem_cons.mp hmem).resolve_left hne.symm
    unfold HasHandler
    obtain heq | ⟨h', heq⟩ := hios
    · rw [heq, IoContext.waiting_finish, IoContext.ready_finish]
      exact hrest
    · rw [heq]
      exact hrest.imp_left (List.mem_append_left [h'])
  · intro hstop
    rw [hrunning] at hstop
    cases hstop

/-- What a step can do. -/
inductive Steps (s : ClientLife) : Act → ClientLife → Prop where
  | connect (hleaving : s.leaving = none) : Steps s .connect s.connect
  | disconnect (hleaving : s.leaving = none) : Steps s .disconnect s.disconnect
  | leave (l : Leaving) (s' : ClientLife) (hleaving : s.leaving = some l)
      (hleave : s.leave l = some s') : Steps s .leave s'
  | frame (a : Act) (s' : ClientLife) (hconnect : a ≠ .connect) (hdisconnect : a ≠ .disconnect)
      (hframe : Frame s s') : Steps s a s'

/-- Every step is one of these. -/
theorem steps_of_step {s s' : ClientLife} {a : Act} (hstep : s.step a = some s') :
    s.terminated = false ∧ Steps s a s' := by
  unfold step at hstep
  split at hstep
  · cases hstep
  · rename_i halive
    refine ⟨by simpa using halive, ?_⟩
    cases a with
    | connect =>
      obtain ⟨hleaving, hstep⟩ := Option.ite_none_right_eq_some.mp hstep
      obtain rfl := Option.some.inj hstep
      exact .connect hleaving
    | call =>
      obtain ⟨-, hstep⟩ := Option.ite_none_right_eq_some.mp hstep
      obtain rfl := Option.some.inj hstep
      exact .frame .call _ (by decide) (by decide) (frame_call s)
    | disconnect =>
      obtain ⟨hleaving, hstep⟩ := Option.ite_none_right_eq_some.mp hstep
      obtain rfl := Option.some.inj hstep
      exact .disconnect hleaving
    | leave =>
      obtain ⟨l, hleaving, hleave⟩ := Option.bind_eq_some_iff.mp hstep
      exact .leave l s' hleaving hleave
    | enterRun =>
      obtain ⟨hthread, hstep⟩ := Option.ite_none_right_eq_some.mp hstep
      obtain rfl := Option.some.inj hstep
      refine .frame .enterRun _ (by decide) (by decide)
        (.of_attempts rfl rfl ?_ ?_ rfl rfl rfl fun _ => id)
      -- the thread is there before and after
      · cases s.ios.stopped <;> simp [hthread]
      · intro hrunning
        simp [hrunning]
    | leaveRun =>
      obtain ⟨⟨hthread, hstopped⟩, hstep⟩ := Option.ite_none_right_eq_some.mp hstep
      obtain rfl := Option.some.inj hstep
      refine .frame .leaveRun _ (by decide) (by decide)
        (.of_attempts rfl rfl ?_ ?_ rfl rfl rfl fun _ => id)
      · simp [hthread]
      · intro hrunning
        -- `run()` does not return while the context goes on
        rw [hrunning] at hstopped
        cases hstopped
    | complete h =>
      obtain ⟨ios, hios, rfl⟩ := Option.map_eq_some_iff.mp hstep
      obtain ⟨hmem, rfl⟩ := IoContext.complete_eq_some hios
      refine .frame (.complete h) _ (by simp) (by simp)
        (.of_attempts rfl rfl .rfl (fun _ h => h) rfl rfl rfl ?_)
      intro a ha
      unfold HasHandler at ha ⊢
      -- an operation that completes moves its handler to the ready ones
      by_cases hh : h = .resolve a
      · simp [hh]
      · obtain hwaiting | hready := ha
        · exact .inl ((List.mem_erase_of_ne (Ne.symm hh)).mpr hwaiting)
        · exact .inr (List.mem_append_left _ hready)
    | run ok =>
      obtain ⟨-, hstep⟩ := Option.ite_none_right_eq_some.mp hstep
      obtain ⟨⟨h, ios⟩, hnext, rfl⟩ := Option.map_eq_some_iff.mp hstep
      exact .frame (.run ok) _ (by simp) (by simp) (frame_run ok hnext)

/-- A step of `disconnect()` that is not its first one. -/
theorem leave_fields {s s' : ClientLife} {l : Leaving} (h : s.leave l = some s') :
    s'.terminated = s.terminated ∧ s'.attempts = s.attempts ∧
      s'.ios.waiting = s.ios.waiting ∧ s'.ios.ready = s.ios.ready ∧
      (s.ios.stopped = true → s'.ios.stopped = true) ∧
      (s'.leaving = some .join → s'.ios.stopped = true) ∧
      (s'.leaving = none → l = .join) := by
  cases l with
  | closeSocket =>
    obtain rfl := Option.some.inj h
    simp
  | resetGuard =>
    -- releasing the guard may stop the context, and never starts it
    obtain rfl := Option.some.inj h
    refine ⟨rfl, rfl, ?_, ?_, ?_, by simp, by simp⟩
    · cases s.workGuard <;> simp [IoContext.release]
    · cases s.workGuard <;> simp [IoContext.release]
    · intro hstopped
      cases s.workGuard with
      | false => exact hstopped
      | true => exact IoContext.stopped_finish hstopped
  | stop =>
    obtain rfl := Option.some.inj h
    simp [IoContext.stop]
  | join =>
    -- `join()` waits for a thread that has not returned
    simp only [leave] at h
    split at h
    · obtain rfl := Option.some.inj h
      simp
    · obtain rfl := Option.some.inj h
      simp
    · cases h
    · cases h

/-! ## The calls made so far -/

/-- A client whose `disconnect()` has not been called. -/
structure Opened (acts : List Act) (s : ClientLife) : Prop where
  guards : 0 < s.ios.guards
  running : s.ios.stopped = false
  leaving : s.leaving = none
  inRun : s.ioThread ≠ .returned
  /-- the io thread is there after `connect()` -/
  thread : s.ioThread = .empty ↔ .connect ∉ acts
  attempted : s.attempts = [] ↔ .connect ∉ acts

/-- What the calls made so far say about the state. -/
structure LifeInv (acts : List Act) (s : ClientLife) : Prop where
  opened : .disconnect ∉ acts → Opened acts s
  /-- `disconnect()` has stopped the context when it joins the thread -/
  left : .disconnect ∈ acts → s.leaving = none ∨ s.leaving = some .join → s.ios.stopped = true
  failed : s.terminated = true ∨ true ∈ s.attempts.map (·.onStopped) ↔ ¬ConnectsOnce acts
  abandoned : .disconnect ∈ acts → ConnectsOnce acts → false ∉ s.attempts.map (·.abandoned)

/-- At the beginning no call has been made. -/
theorem lifeInv_init : LifeInv [] init := by
  constructor
  · intro _
    constructor <;> simp [init, IoContext.init]
  · intro h
    cases h
  · simp [init, connectsOnce_nil]
  · intro h
    cases h

/-- After `connect()`. -/
theorem lifeInv_connect {acts : List Act} {s : ClientLife} (hs : LifeInv acts s)
    (halive : s.terminated = false) (hleaving : s.leaving = none) :
    LifeInv (acts ++ [.connect]) s.connect := by
  have hnot : .disconnect ∈ acts ++ [Act.connect] ↔ .disconnect ∈ acts := by simp
  constructor
  · intro hopen
    have h := hs.opened (mt hnot.mpr hopen)
    refine ⟨h.guards, h.running, hleaving, ?_, ?_, ?_⟩
    · simp only [connect]
      split
      · exact h.inRun
      · simp
    · simp only [connect]
      split
      · rename_i hjoinable
        simpa [IoThread.joinable] using hjoinable
      · simp
    · simp [connect]
  · intro hleft _
    exact hs.left (hnot.mp hleft) (.inl hleaving)
  · rw [connectsOnce_append]
    by_cases hleft : .disconnect ∈ acts
    · -- the thread finds the context stopped
      have hstopped := hs.left hleft (.inl hleaving)
      simp [connect, hleft, hstopped]
    · -- the thread is joinable if there is one
      have h := hs.opened hleft
      have hthread : s.connect.terminated = true ↔ .connect ∈ acts := by
        simp [connect, IoThread.joinable, h.thread]
      have hmap : true ∈ s.connect.attempts.map (·.onStopped) ↔
          true ∈ s.attempts.map (·.onStopped) := by
        simp [connect, h.running]
      have hold : true ∈ s.attempts.map (·.onStopped) ↔ ¬ConnectsOnce acts := by
        simpa [halive] using hs.failed
      rw [hthread, hmap, hold]
      grind
  · -- here `connect()` is called after `disconnect()`
    intro hleft honce
    have hfirst := (connectsOnce_append acts .connect).mp honce
    exact absurd (hnot.mp hleft) (hfirst.2 rfl).2

/-- After the first step of `disconnect()`. -/
theorem lifeInv_disconnect {acts : List Act} {s : ClientLife} (hs : LifeInv acts s) :
    LifeInv (acts ++ [.disconnect]) s.disconnect := by
  constructor
  · intro hopen
    exact absurd (by simp) hopen
  · intro _ hleaving
    simp [disconnect] at hleaving
  · have hmap : s.disconnect.attempts.map (·.onStopped) = s.attempts.map (·.onStopped) := by
      simp [disconnect]
    rw [hmap, connectsOnce_append_of_ne (by decide)]
    exact hs.failed
  · intro _ _
    simp [disconnect]

/-- After another step of `disconnect()`. -/
theorem lifeInv_leave {acts : List Act} {s s' : ClientLife} {l : Leaving} (hs : LifeInv acts s)
    (hleaving : s.leaving = some l) (hleave : s.leave l = some s') :
    LifeInv (acts ++ [.leave]) s' := by
  obtain ⟨hterminated, hattempts, -, -, hkept, hjoin, hlast⟩ := leave_fields hleave
  -- it has been called
  have hleft : .disconnect ∈ acts := by
    apply Classical.byContradiction
    intro hopen
    rw [(hs.opened hopen).leaving] at hleaving
    cases hleaving
  constructor
  · intro hopen
    exact absurd (List.mem_append_left [.leave] hleft) hopen
  · intro _ hend
    -- the thread is joined after `ios_.stop()`
    obtain hnone | hsome := hend
    · obtain rfl := hlast hnone
      exact hkept (hs.left hleft (.inr hleaving))
    · exact hjoin hsome
  · rw [hterminated, hattempts, connectsOnce_append_of_ne (by decide)]
    exact hs.failed
  · intro _ honce
    rw [hattempts]
    exact hs.abandoned hleft ((connectsOnce_append_of_ne (by decide)).mp honce)

/-- After any other step. -/
theorem lifeInv_frame {acts : List Act} {s s' : ClientLife} {a : Act} (hs : LifeInv acts s)
    (hconnect : a ≠ .connect) (hdisconnect : a ≠ .disconnect) (hframe : Frame s s') :
    LifeInv (acts ++ [a]) s' := by
  have hnot : .disconnect ∈ acts ++ [a] ↔ .disconnect ∈ acts := by simp [hdisconnect.symm]
  have honce : ConnectsOnce (acts ++ [a]) ↔ ConnectsOnce acts :=
    connectsOnce_append_of_ne hconnect
  constructor
  · intro hopen
    have h := hs.opened (mt hnot.mpr hopen)
    constructor
    · rw [hframe.guards]
      exact h.guards
    · exact hframe.running h.guards h.running
    · rw [hframe.leaving, h.leaving]
    · intro hreturned
      exact h.inRun (hframe.returned h.running hreturned)
    · rw [hframe.empty, h.thread]
      simp [hconnect.symm]
    · rw [← List.map_eq_nil_iff, hframe.onStopped, List.map_eq_nil_iff, h.attempted]
      simp [hconnect.symm]
  · intro hleft hleaving
    rw [hframe.leaving] at hleaving
    exact hframe.stopped (hs.left (hnot.mp hleft) hleaving)
  · rw [hframe.terminated, hframe.onStopped, honce]
    exact hs.failed
  · intro hleft h
    rw [hframe.abandoned]
    exact hs.abandoned (hnot.mp hleft) (honce.mp h)

/-- Every step keeps the invariant. -/
theorem lifeInv_step (acts : List Act) (s : ClientLife) (a : Act) (s' : ClientLife)
    (hs : LifeInv acts s) (hstep : s.step a = some s') : LifeInv (acts ++ [a]) s' := by
  obtain ⟨halive, hsteps⟩ := steps_of_step hstep
  cases hsteps with
  | connect hleaving => exact lifeInv_connect hs halive hleaving
  | disconnect hleaving => exact lifeInv_disconnect hs
  | leave l s' hleaving hleave => exact lifeInv_leave hs hleaving hleave
  | frame a s' hconnect hdisconnect hframe =>
    exact lifeInv_frame hs hconnect hdisconnect hframe

/-- After any calls, the invariant holds. -/
theorem lifeInv_of_run {acts : List Act} {s : ClientLife} (h : run step init acts = some s) :
    LifeInv acts s :=
  run_invariant lifeInv_step [] acts lifeInv_init h

/-! ## The resolve handlers -/

/-- What is known about the resolve handlers of a client. -/
structure HandlerInv (s : ClientLife) : Prop where
  /-- a resolve handler that has not run is in the context -/
  pending : ∀ a, s.Unresolved a → s.HasHandler a
  /-- no handler has run since `connect()` was called on a stopped context -/
  unresolved : ∀ t ∈ s.attempts, t.onStopped = true → t.resolved = false ∧ s.ios.stopped = true

/-- At the beginning there are no handlers. -/
theorem handlerInv_init : HandlerInv init := by
  constructor
  -- there are no invocations yet
  · intro a ha
    obtain ⟨t, ht, -⟩ := ha
    simp [init] at ht
  · intro t ht
    cases ht

/-- `connect()` adds its resolve handler to the context. -/
theorem handlerInv_connect {s : ClientLife} (hs : HandlerInv s) : HandlerInv s.connect := by
  constructor
  · intro a ha
    obtain ⟨t, ht, hresolved⟩ := ha
    simp only [connect, List.getElem?_append] at ht
    split at ht
    · exact hasHandler_start (.inr ⟨.resolve s.attempts.length, rfl⟩)
        (hs.pending a ⟨t, ht, hresolved⟩)
    · rename_i hlt
      -- the new one
      rw [List.getElem?_singleton] at ht
      obtain ⟨hzero, -⟩ := Option.ite_none_right_eq_some.mp ht
      obtain rfl : a = s.attempts.length := by omega
      left
      simp [connect, IoContext.start]
  · intro t ht honStopped
    obtain hold | hnew := List.mem_append.mp ht
    · exact hs.unresolved t hold honStopped
    · obtain rfl := List.mem_singleton.mp hnew
      exact ⟨rfl, honStopped⟩

/-- Every step keeps the invariant. -/
theorem handlerInv_step (s : ClientLife) (a : Act) (s' : ClientLife) (hs : HandlerInv s)
    (hstep : s.step a = some s') : HandlerInv s' := by
  obtain ⟨-, hsteps⟩ := steps_of_step hstep
  cases hsteps with
  | connect hleaving => exact handlerInv_connect hs
  | disconnect hleaving =>
    -- `disconnect()` marks the invocations, and leaves the context alone
    constructor
    · intro a ha
      obtain ⟨t', ht', hresolved⟩ := ha
      simp only [disconnect, List.getElem?_map] at ht'
      obtain ⟨t, ht, rfl⟩ := Option.map_eq_some_iff.mp ht'
      exact hs.pending a ⟨t, ht, hresolved⟩
    · intro t' ht' honStopped
      obtain ⟨t, ht, rfl⟩ := List.mem_map.mp ht'
      exact hs.unresolved t ht honStopped
  | leave l s' hleaving hleave =>
    obtain ⟨-, hattempts, hwaiting, hready, hkept, -, -⟩ := leave_fields hleave
    constructor
    · intro a ha
      rw [Unresolved, hattempts] at ha
      rw [HasHandler, hwaiting, hready]
      exact hs.pending a ha
    · intro t ht honStopped
      rw [hattempts] at ht
      obtain ⟨hresolved, hstopped⟩ := hs.unresolved t ht honStopped
      exact ⟨hresolved, hkept hstopped⟩
  | frame a s' hconnect hdisconnect hframe =>
    constructor
    · intro a ha
      obtain ⟨hbefore, hkept⟩ := hframe.handler a ha
      exact hkept (hs.pending a hbefore)
    · intro t ht honStopped
      have hmem : true ∈ s.attempts.map (·.onStopped) := by
        rw [← hframe.onStopped]
        exact List.mem_map.mpr ⟨t, ht, honStopped⟩
      -- the context was stopped already, so no handler was run
      obtain ⟨t₀, ht₀, hbefore⟩ := List.mem_map.mp hmem
      have hstopped := (hs.unresolved t₀ ht₀ hbefore).2
      rw [hframe.idle hstopped] at ht
      exact ⟨(hs.unresolved t ht honStopped).1, hframe.stopped hstopped⟩

/-- The io thread runs handlers, and nothing stops it. -/
structure Turning (s : ClientLife) : Prop where
  alive : s.terminated = false
  guards : 0 < s.ios.guards
  running : s.ios.stopped = false
  thread : s.ioThread = .running

/-- The io thread runs the next handler. -/
theorem exists_run {s : ClientLife} {h : Handler} {rest : List Handler} (hs : Turning s)
    (hready : s.ios.ready = h :: rest) :
    ∃ s', s.step (.run true) = some s' ∧ Turning s' ∧ s'.ios.ready = rest ∧
      s'.attempts.length = s.attempts.length ∧
      ∀ a t, h = .resolve a → s.attempts[a]? = some t →
        ∃ t', s'.attempts[a]? = some t' ∧ t'.resolved = true := by
  have hnext : s.ios.next = some (h, { s.ios with ready := rest }) := by
    simp [IoContext.next, hs.running, hready]
  have hframe := frame_run true hnext
  refine ⟨s.runHandler { s.ios with ready := rest } h true, ?_, ⟨?_, ?_, ?_, ?_⟩, ?_, ?_, ?_⟩
  · simp [step, stepAlive, hs.alive, hs.thread, hnext]
  · exact hframe.terminated.trans hs.alive
  · rw [hframe.guards]
    exact hs.guards
  · exact hframe.running hs.guards hs.running
  · exact (runHandler_fields s _ h true).1.trans hs.thread
  · obtain heq | ⟨h', heq⟩ := runHandler_ios s { s.ios with ready := rest } h true
    · rw [heq, IoContext.ready_finish]
    · rw [heq]
      rfl
  · simpa using congrArg List.length hframe.onStopped
  · intro a t hresolve ht
    obtain ⟨f, hf, heq⟩ :=
      onHandler_attempts { s with ios := { s.ios with ready := rest } } h true a
    refine ⟨f t, ?_, ?_⟩
    · exact heq.trans (by rw [ht]; rfl)
    · rw [(hf t).2.2]
      simp [hresolve]

/-- What can be resolved after a step of the io thread can be resolved before. -/
theorem canResolve_of_step {s s' : ClientLife} {act : Act} {a : Nat} (hio : act.isIo = true)
    (hstep : s.step act = some s') (h : s'.CanResolve a) : s.CanResolve a := by
  obtain ⟨s'', t, hreaches, ht, hresolved⟩ := h
  exact ⟨s'', t, (Reaches.refl.tail act hio hstep).trans hreaches, ht, hresolved⟩

/-- The io thread comes to a handler that is ready. -/
theorem canResolve_of_ready {a : Nat} (pre post : List Handler) {s : ClientLife} (hs : Turning s)
    (ha : a < s.attempts.length) (hready : s.ios.ready = pre ++ .resolve a :: post) :
    s.CanResolve a := by
  induction pre generalizing s with
  | nil =>
    obtain ⟨s', hstep, -, -, -, hresolve⟩ := exists_run hs hready
    obtain ⟨t, ht, hresolved⟩ := hresolve a _ rfl (List.getElem?_eq_getElem ha)
    exact ⟨s', t, Reaches.refl.tail (.run true) rfl hstep, ht, hresolved⟩
  | cons h pre ih =>
    -- another handler is run first
    obtain ⟨s', hstep, hs', hready', hlength, -⟩ := exists_run hs hready
    exact canResolve_of_step rfl hstep (ih hs' (by omega) hready')

/-- A name is resolved sooner or later, and then its handler is ready. -/
theorem canResolve_of_hasHandler {a : Nat} {s : ClientLife} (hs : Turning s)
    (ha : a < s.attempts.length) (hhandler : s.HasHandler a) : s.CanResolve a := by
  obtain hwaiting | hmem := hhandler
  -- the resolver is done first
  · have hstep : s.step (.complete (.resolve a)) = some { s with
        ios := { s.ios with
          waiting := s.ios.waiting.erase (.resolve a)
          ready := s.ios.ready ++ [.resolve a] } } := by
      simp [step, stepAlive, IoContext.complete, hs.alive, hwaiting]
    apply canResolve_of_step rfl hstep
    exact canResolve_of_ready s.ios.ready [] ⟨hs.alive, hs.guards, hs.running, hs.thread⟩ ha rfl
  · obtain ⟨pre, post, hready⟩ := List.append_of_mem hmem
    exact canResolve_of_ready pre post hs ha hready

/-- Until `disconnect()` is called, every resolve handler gets run. -/
theorem canResolve_of_opened {acts : List Act} {s : ClientLife} {a : Nat} {t : Attempt}
    (hs : Opened acts s) (hhandlers : HandlerInv s) (halive : s.terminated = false)
    (ht : s.attempts[a]? = some t) : s.CanResolve a := by
  have ha : a < s.attempts.length := (List.getElem?_eq_some_iff.mp ht).1
  cases hresolved : t.resolved with
  | true => exact ⟨s, t, .refl, ht, hresolved⟩
  | false =>
    have hhandler := hhandlers.pending a ⟨t, ht, hresolved⟩
    cases hthread : s.ioThread with
    | empty =>
      -- without a `connect()` there is nothing to resolve
      have hnone := hs.attempted.mpr (hs.thread.mp hthread)
      rw [hnone] at ha
      cases ha
    | starting =>
      -- the thread calls `run()` first
      have hstep : s.step .enterRun = some { s with ioThread := .running } := by
        simp [step, stepAlive, halive, hthread, hs.running]
      apply canResolve_of_step rfl hstep
      exact canResolve_of_hasHandler ⟨halive, hs.guards, hs.running, rfl⟩ ha hhandler
    | running =>
      exact canResolve_of_hasHandler ⟨halive, hs.guards, hs.running, hthread⟩ ha hhandler
    | returned => exact absurd hthread hs.inRun

/-- A client survives the calls made of it if and only if `connect()` is called at most once,
    and not after `disconnect()`.  A `connect()` on a stopped context never gets its resolve
    handler run. -/
theorem client_survives_iff (acts : List Act) (s : ClientLife)
    (h : run step init acts = some s) :
    (s.Survives ↔ ConnectsOnce acts) ∧
      ∀ t ∈ s.attempts, t.onStopped = true → t.resolved = false := by
  have hlife := lifeInv_of_run h
  have hhandlers : HandlerInv s :=
    (reachable_of_run acts h).invariant handlerInv_init fun s a s' hs _ => handlerInv_step s a s' hs
  have hfailed : s.terminated = false ∧ (∀ t ∈ s.attempts, t.onStopped = false) ↔
      ConnectsOnce acts := by
    -- neither has it terminated nor started on a stopped context
    have hnot := hlife.failed
    simp only [List.mem_map] at hnot
    grind
  constructor
  · constructor
    · intro hs
      exact hfailed.mp ⟨hs.alive, hs.started⟩
    · intro honce
      obtain ⟨halive, hstarted⟩ := hfailed.mpr honce
      refine ⟨halive, hstarted, ?_⟩
      intro a t ht habandoned
      -- the last `disconnect()` would have come after it
      have hopen : .disconnect ∉ acts := by
        intro hleft
        apply hlife.abandoned hleft honce
        rw [← habandoned]
        exact List.mem_map_of_mem (List.mem_of_getElem? ht)
      exact canResolve_of_opened (hlife.opened hopen) hhandlers halive ht
  · intro t ht honStopped
    exact (hhandlers.unresolved t ht honStopped).1

/-- What follows `connect()` until the first call. -/
def callActs : List Act :=
  [.enterRun, .complete (.resolve 0), .run true, .complete (.connect 0), .run true, .call]

/-- A client that connects and makes a call survives. -/
theorem client_survives_call :
    ∃ s ∈ run step init (.connect :: callActs), s.connected = true ∧ s.Survives := by
  have hrun : ∃ s, run step init (.connect :: callActs) = some s ∧ s.connected = true :=
    ⟨_, rfl, rfl⟩
  obtain ⟨s, hs, hconnected⟩ := hrun
  have honce : ConnectsOnce (.connect :: callActs) := by
    intro pre hpre
    cases pre with
    | nil => simp
    | cons a pre =>
      obtain ⟨-, hrest⟩ := List.cons_prefix_cons.mp hpre
      have hmem : .connect ∈ callActs := hrest.subset (by simp)
      exact absurd hmem (by decide)
  exact ⟨s, hs, hconnected, (client_survives_iff _ s hs).1.mpr honce⟩

/-- A `connect()` after one that has failed terminates the process, and a `connect()` after
    `disconnect()` runs `ios_.run()` on a stopped context. -/
theorem reconnect_fails :
    (∃ s ∈ run step init [.connect, .enterRun, .complete (.resolve 0), .run false, .connect],
      s.attempts.map (·.result) = [some false, none] ∧ s.terminated = true ∧ ¬s.Survives) ∧
    ∃ s ∈ run step init [.connect, .enterRun, .disconnect, .leave, .leave, .leave, .leaveRun,
        .leave, .connect],
      s.attempts.map (·.onStopped) = [false, true] ∧ s.terminated = false ∧ ¬s.Survives := by
  constructor
  · refine ⟨_, rfl, rfl, rfl, ?_⟩
    intro hs
    cases hs.alive
  · refine ⟨_, rfl, rfl, rfl, ?_⟩
    intro hs
    cases hs.started { onStopped := true, resolved := false, result := none, abandoned := false }
      (by decide)

end ClientLife

end Rpc
