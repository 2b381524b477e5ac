/-!
# Event loops that stop when they are out of work

A model of `io_context` of asio, over any type of handlers.  An asynchronous operation
is *waiting* until it completes; then its handler is *ready*, and one of the threads
that run the context may run it.  Waiting operations, ready handlers and work guards
are the outstanding work.

Of asio this is assumed, as documented: when the outstanding work drops to zero after a
handler has returned, or when `stop` is called, the context is *stopped*; a stopped
context runs no handler (`next`), and stays so until `restart`, which nothing here calls.
-/

/-- An `io_context`. -/
structure IoContext (H : Type) where
  stopped : Bool
  /-- the work guards held -/
  guards : Nat
  /-- the operations under way -/
  waiting : List H
  /-- the handlers that can be run -/
  ready : List H
  deriving DecidableEq, Repr

namespace IoContext

variable {H : Type}

/-- A new context. -/
def init : IoContext H := { stopped := false, guards := 0, waiting := [], ready := [] }

/-- The outstanding work. -/
def work (c : IoContext H) : Nat := c.guards + c.waiting.length + c.ready.length

/-- Start an asynchronous operation. -/
def start (c : IoContext H) (h : H) : IoContext H := { c with waiting := c.waiting ++ [h] }

/-- `post`. -/
def post (c : IoContext H) (h : H) : IoContext H := { c with ready := c.ready ++ [h] }

/-- An operation completes, successfully or not. -/
def complete [DecidableEq H] (c : IoContext H) (h : H) : Option (IoContext H) :=
  if h ∈ c.waiting then
    some { c with waiting := c.waiting.erase h, ready := c.ready ++ [h] }
  else none

/-- An operation that completes was waiting, and its handler becomes the last ready one. -/
theorem complete_eq_some [DecidableEq H] {c c' : IoContext H} {h : H}
    (hc : c.complete h = some c') :
    h ∈ c.waiting ∧ c' = { c with waiting := c.waiting.erase h, ready := c.ready ++ [h] } := by
  unfold complete at hc
  split at hc
  · rename_i hmem
    exact ⟨hmem, (Option.some.inj hc).symm⟩
  · cases hc

/-- `stop`. -/
def stop (c : IoContext H) : IoContext H := { c with stopped := true }

/-- The handler that is run next, and the context while it runs. -/
def next (c : IoContext H) : Option (H × IoContext H) :=
  if c.stopped then none
  else
    match c.ready with
    | h :: ready => some (h, { c with ready })
    | [] => none

/-- The handler that is run is the first ready one, and the context is not stopped. -/
theorem next_eq_some {c c' : IoContext H} {h : H} (hc : c.next = some (h, c')) :
    c.stopped = false ∧ ∃ ready, c.ready = h :: ready ∧ c' = { c with ready } := by
  unfold next at hc
  split at hc
  · cases hc
  · rename_i hstopped
    split at hc
    · rename_i h' ready hready
      obtain ⟨rfl, rfl⟩ := Prod.mk.inj (Option.some.inj hc)
      exact ⟨by simpa using hstopped, ready, hready, rfl⟩
    · cases hc

/-- The context while the handler runs. -/
theorem fields_of_next {c c' : IoContext H} {h : H} (hc : c.next = some (h, c')) :
    c'.stopped = c.stopped ∧ c'.guards = c.guards ∧ c'.waiting = c.waiting ∧
      c.ready = h :: c'.ready := by
  obtain ⟨-, ready, hready, rfl⟩ := next_eq_some hc
  exact ⟨rfl, rfl, rfl, hready⟩

/-- A handler has returned. -/
def finish (c : IoContext H) : IoContext H := if c.work = 0 then c.stop else c

/-- A handler that starts an operation keeps the context running. -/
@[simp] theorem finish_start (c : IoContext H) (h : H) : (c.start h).finish = c.start h := by
  have hwork : (c.start h).work ≠ 0 := by
    simp [work, start]
  simp [finish, hwork]

/-- While a guard is held, handlers do not stop the context. -/
theorem finish_of_guards {c : IoContext H} (h : 0 < c.guards) : c.finish = c := by
  have hwork : c.work ≠ 0 := by
    unfold work
    omega
  simp [finish, hwork]

/-- Returning from a handler changes at most whether the context is stopped. -/
theorem finish_eq (c : IoContext H) : c.finish = c ∨ c.finish = c.stop := by
  unfold finish
  split
  · exact .inr rfl
  · exact .inl rfl

@[simp] theorem guards_finish (c : IoContext H) : c.finish.guards = c.guards := by
  obtain heq | heq := c.finish_eq
  · rw [heq]
  · rw [heq]
    rfl

@[simp] theorem waiting_finish (c : IoContext H) : c.finish.waiting = c.waiting := by
  obtain heq | heq := c.finish_eq
  · rw [heq]
  · rw [heq]
    rfl

@[simp] theorem ready_finish (c : IoContext H) : c.finish.ready = c.ready := by
  obtain heq | heq := c.finish_eq
  · rw [heq]
  · rw [heq]
    rfl

/-- A stopped context stays so. -/
theorem stopped_finish {c : IoContext H} (h : c.stopped = true) : c.finish.stopped = true := by
  obtain heq | heq := c.finish_eq
  · rw [heq]
    exact h
  · rw [heq]
    rfl

/-- A work guard is reset. -/
def release (c : IoContext H) : IoContext H := { c with guards := c.guards - 1 }.finish

/-- Without a guard, the last handler stops the context. -/
theorem finish_of_idle {c : IoContext H} (hguards : c.guards = 0) (hwaiting : c.waiting = [])
    (hready : c.ready = []) : c.finish = c.stop := by
  simp [finish, work, hguards, hwaiting, hready]

end IoContext
