import Mathlib.Algebra.GroupWithZero.Nat
import Mathlib.Data.List.Basic

/-!
# Serialised asynchronous writes

Many threads append frames to one queue; a `writing` flag elects a single
writer.  The thread that finds the flag clear sets it and becomes *committed* to
popping; whoever pops a frame starts an asynchronous write, and the completion
handler of that write is committed in turn.  A committed thread that finds the
queue empty clears the flag.

The queue and the flag are touched under one lock, so each of `push` and `pop`
is one step; everything between them interleaves freely.  A write may also
complete with an error: `complete` continues the chain all the same, `abort`
breaks it (the frame is lost and nobody pops any more).

`WriteChain.Inv` lists the five shapes a chain can have.  In each of them at
most one thread or asynchronous write holds the right to pop next, and the
frames pushed are the frames finished, then the one being written, then the
queue, in that order.
-/

/-- Where a thread inside of the write path stands. -/
inductive WriteStage (F : Type) where
  /-- about to pop the next frame -/
  | committed
  /-- holds a popped frame, about to start its asynchronous write -/
  | popped (frame : F)
  deriving DecidableEq, Repr

/-- The steps such a thread has to take until it is out of the write path. -/
def WriteStage.load {F : Type} : WriteStage F → Nat
  | .committed => 2
  | .popped _ => 1

/-- The state of a write chain, with its history. -/
structure WriteChain (T F : Type) where
  queue : List F
  writing : Bool
  /-- the threads inside of the write path -/
  threads : List (T × WriteStage F)
  /-- the asynchronous writes that are outstanding -/
  inflight : List F
  /-- the frames whose write completed and continued the chain, in that order -/
  finished : List F
  /-- the frames whose write broke the chain -/
  lost : List F
  /-- the frames ever pushed, in that order -/
  pushed : List F
  deriving DecidableEq, Repr

namespace WriteChain

variable {T F : Type}

/-- Nothing pushed, nobody writing. -/
def empty : WriteChain T F := ⟨[], false, [], [], [], [], []⟩

/-- Thread `t` appends `f`; it becomes the writer if there is none. -/
def push (w : WriteChain T F) (t : T) (f : F) : WriteChain T F :=
  { w with
    queue := w.queue ++ [f]
    pushed := w.pushed ++ [f]
    writing := true
    threads := if w.writing then w.threads else (t, .committed) :: w.threads }

/-- Committed thread `t` pops the next frame, or clears the flag and leaves. -/
def pop [DecidableEq T] [DecidableEq F] (w : WriteChain T F) (t : T) : Option (WriteChain T F) :=
  if (t, .committed) ∈ w.threads then
    match w.queue with
    | [] => some { w with writing := false, threads := w.threads.erase (t, .committed) }
    | f :: queue =>
      some { w with queue, threads := (t, .popped f) :: w.threads.erase (t, .committed) }
  else none

/-- Thread `t` starts the asynchronous write of the frame it popped. -/
def start [DecidableEq T] [DecidableEq F] (w : WriteChain T F) (t : T) (f : F) :
    Option (WriteChain T F) :=
  if (t, .popped f) ∈ w.threads then
    some { w with threads := w.threads.erase (t, .popped f), inflight := f :: w.inflight }
  else none

/-- The write of `f` completes; its handler runs on thread `t` and goes on. -/
def complete [DecidableEq F] (w : WriteChain T F) (t : T) (f : F) : Option (WriteChain T F) :=
  if f ∈ w.inflight then
    some { w with
      inflight := w.inflight.erase f
      finished := w.finished ++ [f]
      threads := (t, .committed) :: w.threads }
  else none

/-- The write of `f` fails and its handler stops there. -/
def abort [DecidableEq F] (w : WriteChain T F) (f : F) : Option (WriteChain T F) :=
  if f ∈ w.inflight then
    some { w with inflight := w.inflight.erase f, lost := f :: w.lost }
  else none

/-! ## The invariant -/

/-- The shapes of a write chain. -/
inductive Inv : WriteChain T F → Prop where
  /-- nobody writes, nothing is queued -/
  | idle (done : List F) : Inv ⟨[], false, [], [], done, [], done⟩
  /-- thread `t` is about to pop -/
  | committed (queue done : List F) (t : T) :
      Inv ⟨queue, true, [(t, .committed)], [], done, [], done ++ queue⟩
  /-- thread `t` holds the popped frame `f` -/
  | popped (queue done : List F) (t : T) (f : F) :
      Inv ⟨queue, true, [(t, .popped f)], [], done, [], done ++ f :: queue⟩
  /-- the write of `f` is outstanding -/
  | inflight (queue done : List F) (f : F) :
      Inv ⟨queue, true, [], [f], done, [], done ++ f :: queue⟩
  /-- the write of `f` has failed and the chain is broken -/
  | broken (queue done : List F) (f : F) :
      Inv ⟨queue, true, [], [], done, [f], done ++ f :: queue⟩

/-- An empty chain is idle. -/
theorem inv_empty : Inv (empty : WriteChain T F) := .idle []

/-- A push keeps the invariant: into an idle chain it commits the pushing
    thread, into any other it only grows the queue. -/
theorem Inv.push {w : WriteChain T F} (h : Inv w) (t : T) (f : F) : Inv (w.push t f) := by
  cases h with
  | idle done => exact .committed [f] done t
  | committed queue done t' =>
    simp only [WriteChain.push, if_true, List.append_assoc]
    exact .committed (queue ++ [f]) done t'
  | popped queue done t' g =>
    simp only [WriteChain.push, if_true, List.append_assoc]
    exact .popped (queue ++ [f]) done t' g
  | inflight queue done g =>
    simp only [WriteChain.push, if_true, List.append_assoc]
    exact .inflight (queue ++ [f]) done g
  | broken queue done g =>
    simp only [WriteChain.push, if_true, List.append_assoc]
    exact .broken (queue ++ [f]) done g

/-- A pop keeps the invariant: the committed thread holds a frame, or leaves an empty queue. -/
theorem Inv.pop [DecidableEq T] [DecidableEq F] {w w' : WriteChain T F} {t : T} (h : Inv w)
    (hs : w.pop t = some w') : Inv w' := by
  simp only [WriteChain.pop] at hs
  split at hs
  · rename_i hmem
    cases h with
    -- only a committed thread pops, and it is the only thread there is
    | committed queue done t' =>
      obtain rfl : t = t' := by simpa using hmem
      cases queue with
      | nil =>
        obtain rfl := Option.some.inj hs
        simpa using Inv.idle (T := T) done
      | cons f queue =>
        obtain rfl := Option.some.inj hs
        simpa using Inv.popped queue done t f
    | idle | popped | inflight | broken => simp at hmem
  · cases hs

/-- Starting a write keeps the invariant. -/
theorem Inv.start [DecidableEq T] [DecidableEq F] {w w' : WriteChain T F} {t : T} {f : F}
    (h : Inv w) (hs : w.start t f = some w') : Inv w' := by
  simp only [WriteChain.start] at hs
  split at hs
  · rename_i hmem
    obtain rfl := Option.some.inj hs
    cases h with
    -- the popped frame of the other thread is the only one that can be started
    | popped queue done t' g =>
      obtain ⟨rfl, rfl⟩ : t = t' ∧ f = g := by simpa using hmem
      simpa using Inv.inflight (T := T) queue done f
    | idle | committed | inflight | broken => simp at hmem
  · cases hs

/-- A write that completes keeps the invariant: its handler is committed. -/
theorem Inv.complete [DecidableEq F] {w w' : WriteChain T F} {t : T} {f : F} (h : Inv w)
    (hs : w.complete t f = some w') : Inv w' := by
  simp only [WriteChain.complete] at hs
  split at hs
  · rename_i hmem
    obtain rfl := Option.some.inj hs
    cases h with
    -- the only write that is outstanding
    | inflight queue done g =>
      obtain rfl : f = g := by simpa using hmem
      simpa using Inv.committed queue (done ++ [f]) t
    | idle | committed | popped | broken => simp at hmem
  · cases hs

/-- A write that fails keeps the invariant, and breaks the chain. -/
theorem Inv.abort [DecidableEq F] {w w' : WriteChain T F} {f : F} (h : Inv w)
    (hs : w.abort f = some w') : Inv w' := by
  simp only [WriteChain.abort] at hs
  split at hs
  · rename_i hmem
    obtain rfl := Option.some.inj hs
    cases h with
    -- the only write that is outstanding
    | inflight queue done g =>
      obtain rfl : f = g := by simpa using hmem
      simpa using Inv.broken (T := T) queue done f
    | idle | committed | popped | broken => simp at hmem
  · cases hs

/-- A step of the chain that does not break it. -/
inductive Continues [DecidableEq T] [DecidableEq F] (w w' : WriteChain T F) : Prop where
  | push (t : T) (f : F) (h : w' = w.push t f)
  | pop (t : T) (h : w.pop t = some w')
  | start (t : T) (f : F) (h : w.start t f = some w')
  | complete (t : T) (f : F) (h : w.complete t f = some w')

/-- Every step that does not break the chain keeps the invariant. -/
theorem Inv.continues [DecidableEq T] [DecidableEq F] {w w' : WriteChain T F} (h : Inv w)
    (hs : Continues w w') : Inv w' := by
  cases hs with
  | push t f heq => exact heq ▸ h.push t f
  | pop t hs => exact h.pop hs
  | start t f hs => exact h.start hs
  | complete t f hs => exact h.complete hs

/-- The write of an outstanding frame can complete, and its handler then pops. -/
theorem complete_of_mem [DecidableEq F] {w : WriteChain T F} {f : F} (t : T)
    (hf : f ∈ w.inflight) :
    ∃ w', w.complete t f = some w' ∧ (t, .committed) ∈ w'.threads :=
  ⟨_, if_pos hf, by simp⟩

/-! ## What the shapes say -/

/-- The frame that has been popped and is being written. -/
def current (w : WriteChain T F) : List F :=
  w.threads.filterMap (fun p => match p.2 with
    | .committed => none
    | .popped f => some f) ++ w.inflight

/-- A thread or an outstanding write will pop the next frame. -/
def Progressing (w : WriteChain T F) : Prop :=
  (∃ t, (t, .committed) ∈ w.threads) ∨ (∃ t f, (t, .popped f) ∈ w.threads) ∨
    ∃ f, f ∈ w.inflight

/-- The writes of `w` are serialised: at most one frame is being written, the
    frames pushed are those finished, the one being written and those queued, in
    order, and no frame is queued without somebody to write it. -/
structure Serialised (w : WriteChain T F) : Prop where
  atMostOne : w.current.length ≤ 1
  order : w.finished ++ w.current ++ w.queue = w.pushed
  noneLeft : w.queue ≠ [] → w.writing = true ∧ w.Progressing

/-- A chain that has lost nothing is serialised. -/
theorem Inv.serialised {w : WriteChain T F} (h : Inv w) (hlost : w.lost = []) :
    w.Serialised := by
  cases h with
  | idle done => exact ⟨by simp [current], by simp [current], by simp⟩
  | committed queue done t =>
    exact ⟨by simp [current], by simp [current], fun _ => ⟨rfl, .inl ⟨t, by simp⟩⟩⟩
  | popped queue done t f =>
    exact ⟨by simp [current], by simp [current], fun _ => ⟨rfl, .inr (.inl ⟨t, f, by simp⟩)⟩⟩
  | inflight queue done f =>
    exact ⟨by simp [current], by simp [current], fun _ => ⟨rfl, .inr (.inr ⟨f, by simp⟩)⟩⟩
  | broken => simp at hlost

/-! ## The frames still to be written -/

/-- The frames pushed and not yet written, in order. -/
def outstanding (w : WriteChain T F) : List F := w.current ++ w.queue

/-- The outstanding frames are what the finished ones leave of the pushed ones. -/
theorem Inv.finished_append_outstanding {w : WriteChain T F} (h : Inv w) (hlost : w.lost = []) :
    w.finished ++ w.outstanding = w.pushed := by
  rw [outstanding, ← List.append_assoc]
  exact (h.serialised hlost).order

/-- Two whole chains with the same history have the same frames outstanding. -/
theorem Inv.outstanding_eq {w w' : WriteChain T F} (h : Inv w) (h' : Inv w')
    (hlost : w.lost = []) (hlost' : w'.lost = []) (hfin : w'.finished = w.finished)
    (hpush : w'.pushed = w.pushed) : w'.outstanding = w.outstanding := by
  have heq := h'.finished_append_outstanding hlost'
  rw [hfin, hpush, ← h.finished_append_outstanding hlost] at heq
  exact List.append_cancel_left heq

/-- A pop leaves the history alone. -/
theorem pop_history [DecidableEq T] [DecidableEq F] {w w' : WriteChain T F} {t : T}
    (hs : w.pop t = some w') :
    w'.finished = w.finished ∧ w'.pushed = w.pushed ∧ w'.lost = w.lost := by
  simp only [WriteChain.pop] at hs
  split at hs
  · split at hs <;> obtain rfl := Option.some.inj hs <;> exact ⟨rfl, rfl, rfl⟩
  · cases hs

/-- Starting a write leaves the history alone. -/
theorem start_history [DecidableEq T] [DecidableEq F] {w w' : WriteChain T F} {t : T} {f : F}
    (hs : w.start t f = some w') :
    w'.finished = w.finished ∧ w'.pushed = w.pushed ∧ w'.lost = w.lost := by
  simp only [WriteChain.start] at hs
  split at hs
  · obtain rfl := Option.some.inj hs
    exact ⟨rfl, rfl, rfl⟩
  · cases hs

/-- A completed write is logged. -/
theorem complete_history [DecidableEq F] {w w' : WriteChain T F} {t : T} {f : F}
    (hs : w.complete t f = some w') :
    w'.finished = w.finished ++ [f] ∧ w'.pushed = w.pushed ∧ w'.lost = w.lost := by
  simp only [WriteChain.complete] at hs
  split at hs
  · obtain rfl := Option.some.inj hs
    exact ⟨rfl, rfl, rfl⟩
  · cases hs

/-- Only a broken chain loses a frame. -/
theorem Continues.lost_eq [DecidableEq T] [DecidableEq F] {w w' : WriteChain T F}
    (hs : Continues w w') : w'.lost = w.lost := by
  cases hs with
  | push t f heq => rw [heq]; rfl
  | pop t hs => exact (pop_history hs).2.2
  | start t f hs => exact (start_history hs).2.2
  | complete t f hs => exact (complete_history hs).2.2

/-- A frame that is popped is still to be written. -/
theorem Inv.outstanding_pop [DecidableEq T] [DecidableEq F] {w w' : WriteChain T F} {t : T}
    (h : Inv w) (hlost : w.lost = []) (hs : w.pop t = some w') :
    w'.outstanding = w.outstanding := by
  obtain ⟨hfin, hpush, hl⟩ := pop_history hs
  exact h.outstanding_eq (h.pop hs) hlost (hl.trans hlost) hfin hpush

/-- A frame whose write is started is still to be written. -/
theorem Inv.outstanding_start [DecidableEq T] [DecidableEq F] {w w' : WriteChain T F} {t : T}
    {f : F} (h : Inv w) (hlost : w.lost = []) (hs : w.start t f = some w') :
    w'.outstanding = w.outstanding := by
  obtain ⟨hfin, hpush, hl⟩ := start_history hs
  exact h.outstanding_eq (h.start hs) hlost (hl.trans hlost) hfin hpush

/-- The write that completes is the first outstanding one. -/
theorem Inv.outstanding_complete [DecidableEq F] {w w' : WriteChain T F} {t : T} {f : F}
    (h : Inv w) (hlost : w.lost = []) (hs : w.complete t f = some w') :
    w.outstanding = f :: w'.outstanding := by
  obtain ⟨hfin, hpush, hl⟩ := complete_history hs
  -- `f` moves from the front of the outstanding frames to the end of the finished ones
  have heq := (h.complete hs).finished_append_outstanding (hl.trans hlost)
  rw [hfin, hpush, ← h.finished_append_outstanding hlost, List.append_assoc] at heq
  exact (List.append_cancel_left heq).symm

/-- A push adds the last outstanding frame. -/
theorem outstanding_push (w : WriteChain T F) (t : T) (f : F) :
    (w.push t f).outstanding = w.outstanding ++ [f] := by
  -- a thread that is only committed holds no frame
  have hcur : (w.push t f).current = w.current := by
    unfold current push
    cases w.writing <;> rfl
  rw [outstanding, hcur, outstanding, List.append_assoc]
  rfl

/-! ## The frames on their way -/

/-- The frames whose write has begun, and that may have reached the peer in part
    or as a whole. -/
def started (w : WriteChain T F) : List F := w.finished ++ w.inflight

/-- Frames are written in the order in which they were pushed. -/
theorem Inv.prefix_started {w : WriteChain T F} (h : Inv w) : w.started <+: w.pushed := by
  cases h with
  | idle done => exact ⟨[], by simp [started]⟩
  | committed queue done t => exact ⟨queue, by simp [started]⟩
  | popped queue done t f => exact ⟨f :: queue, by simp [started]⟩
  | inflight queue done f => exact ⟨queue, by simp [started]⟩
  | broken queue done f => exact ⟨f :: queue, by simp [started]⟩

/-- Frames are finished in the order in which they were pushed. -/
theorem Inv.prefix_finished {w : WriteChain T F} (h : Inv w) : w.finished <+: w.pushed :=
  (List.prefix_append w.finished w.inflight).trans h.prefix_started

/-- No frame is forgotten. -/
theorem Continues.prefix_pushed [DecidableEq T] [DecidableEq F] {w w' : WriteChain T F}
    (hs : Continues w w') : w.pushed <+: w'.pushed := by
  cases hs with
  | push t f heq => exact heq ▸ List.prefix_append _ _
  | pop t hs => exact (pop_history hs).2.1 ▸ List.prefix_rfl
  | start t f hs => exact (start_history hs).2.1 ▸ List.prefix_rfl
  | complete t f hs => exact (complete_history hs).2.1 ▸ List.prefix_rfl

/-- A failed write takes no frame out of the history. -/
theorem abort_pushed [DecidableEq F] {w w' : WriteChain T F} {f : F}
    (hs : w.abort f = some w') : w'.pushed = w.pushed := by
  simp only [WriteChain.abort] at hs
  split at hs
  · obtain rfl := Option.some.inj hs
    rfl
  · cases hs

/-- A chain that has no writer left, and has lost nothing, has written everything. -/
theorem Inv.started_eq {w : WriteChain T F} (h : w.Inv) (hlost : w.lost = [])
    (hthreads : w.threads = []) (hinflight : w.inflight = []) : w.started = w.pushed := by
  cases h with
  | idle done => simp [started]
  | committed | popped => cases hthreads
  | inflight => cases hinflight
  | broken => cases hlost

/-- Nobody is inside of the write path if nobody has a step there to take. -/
theorem threads_eq_nil [DecidableEq T] [DecidableEq F] {w : WriteChain T F}
    (hpop : ∀ t, w.pop t = none) (hstart : ∀ t f, w.start t f = none) : w.threads = [] := by
  apply List.eq_nil_iff_forall_not_mem.mpr
  rintro ⟨t, stage⟩ hmem
  cases stage with
  | committed =>
    -- a committed thread could pop
    have hnone := hpop t
    simp only [pop, hmem, if_true] at hnone
    split at hnone <;> cases hnone
  | popped f =>
    -- a thread with a frame could start its write
    have hnone := hstart t f
    simp [start, hmem] at hnone

/-- The threads inside of the write path after a step were there before, or took it. -/
theorem mem_threads_push {w : WriteChain T F} {t : T} {f : F} {p : T × WriteStage F}
    (hp : p ∈ (w.push t f).threads) : p.1 = t ∨ p ∈ w.threads := by
  simp only [push] at hp
  split at hp
  · exact .inr hp
  · obtain rfl | hp := List.mem_cons.mp hp
    · exact .inl rfl
    · exact .inr hp

/-- The threads inside of the write path after a pop were there before, or popped. -/
theorem mem_threads_pop [DecidableEq T] [DecidableEq F] {w w' : WriteChain T F} {t : T}
    (h : w.pop t = some w') {p : T × WriteStage F} (hp : p ∈ w'.threads) :
    p.1 = t ∨ p ∈ w.threads := by
  simp only [pop] at h
  split at h
  · split at h
    · obtain rfl := Option.some.inj h
      exact .inr (List.mem_of_mem_erase hp)
    · obtain rfl := Option.some.inj h
      obtain rfl | hp := List.mem_cons.mp hp
      · exact .inl rfl
      · exact .inr (List.mem_of_mem_erase hp)
  · cases h

/-- The threads inside of the write path after a start were there before. -/
theorem mem_threads_start [DecidableEq T] [DecidableEq F] {w w' : WriteChain T F} {t : T} {f : F}
    (h : w.start t f = some w') {p : T × WriteStage F} (hp : p ∈ w'.threads) : p ∈ w.threads := by
  simp only [start] at h
  split at h
  · obtain rfl := Option.some.inj h
    exact List.mem_of_mem_erase hp
  · cases h

/-- A thread that takes a step there is inside of the write path. -/
theorem mem_threads_of_pop [DecidableEq T] [DecidableEq F] {w w' : WriteChain T F} {t : T}
    (h : w.pop t = some w') : (t, .committed) ∈ w.threads := by
  simp only [pop] at h
  split at h
  · assumption
  · cases h

/-- A thread that starts a write holds the frame. -/
theorem mem_threads_of_start [DecidableEq T] [DecidableEq F] {w w' : WriteChain T F} {t : T}
    {f : F} (h : w.start t f = some w') : (t, .popped f) ∈ w.threads := by
  simp only [start] at h
  split at h
  · assumption
  · cases h

/-! ## The steps the threads have to take -/

/-- The steps the threads inside of the write path have to take. -/
def load (w : WriteChain T F) : Nat := (w.threads.map fun p => p.2.load).sum

/-- A push makes a thread the writer at most. -/
theorem load_push_le (w : WriteChain T F) (t : T) (f : F) : (w.push t f).load ≤ w.load + 2 := by
  simp only [load, push]
  split
  · omega
  · simp only [List.map_cons, List.sum_cons, WriteStage.load]
    omega

/-- A pop is one of these steps. -/
theorem load_pop_lt [DecidableEq T] [DecidableEq F] {w w' : WriteChain T F} {t : T}
    (h : w.pop t = some w') : w'.load < w.load := by
  simp only [pop] at h
  split at h
  · rename_i hmem
    have hsum := ((List.perm_cons_erase hmem).map fun p => p.2.load).sum_nat
    split at h
    · obtain rfl := Option.some.inj h
      simp only [load, WriteStage.load, List.map_cons, List.sum_cons] at hsum ⊢
      omega
    · obtain rfl := Option.some.inj h
      simp only [load, WriteStage.load, List.map_cons, List.sum_cons] at hsum ⊢
      omega
  · cases h

/-- Starting a write is one of these steps. -/
theorem load_start_lt [DecidableEq T] [DecidableEq F] {w w' : WriteChain T F} {t : T} {f : F}
    (h : w.start t f = some w') : w'.load < w.load := by
  simp only [start] at h
  split at h
  · rename_i hmem
    have hsum := ((List.perm_cons_erase hmem).map fun p => p.2.load).sum_nat
    obtain rfl := Option.some.inj h
    simp only [load, WriteStage.load, List.map_cons, List.sum_cons] at hsum ⊢
    omega
  · cases h

end WriteChain
