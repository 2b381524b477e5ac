/-!
# Transition systems given by a step function

A system is a step function `step : σ → α → Option σ`: `step s a = some s'`
means that action `a` is enabled in `s` and leads to `s'`.  Concurrency is the
free choice of the next action.

* `run` executes a list of actions.
* `Reaches step ok init s`: `s` is reached from `init` by steps each of which
  meets the condition `ok` in the state it is taken in.
* `Reaches.invariant` is the induction rule, `run_invariant` the one for properties
  of the actions taken; `length_le_of_run` bounds executions that use up a load, and
  `exists_run_stuck` says that one of them goes on to the end; `Reaches.project` says
  that a component of a larger system only makes steps of its own.
-/

namespace Transition

variable {σ α : Type}

/-- Execute a list of actions; `none` if one of them is not enabled. -/
def run (step : σ → α → Option σ) : σ → List α → Option σ
  | s, [] => some s
  | s, a :: acts =>
    match step s a with
    | some s' => run step s' acts
    | none => none

/-- The states reached from `init` by steps that meet `ok`. -/
inductive Reaches (step : σ → α → Option σ) (ok : σ → α → Prop) (init : σ) : σ → Prop where
  | refl : Reaches step ok init init
  | tail {s s' : σ} (a : α) (h : Reaches step ok init s) (hok : ok s a)
      (hstep : step s a = some s') : Reaches step ok init s'

/-- The states reached from `init` by any steps. -/
abbrev Reachable (step : σ → α → Option σ) (init : σ) : σ → Prop :=
  Reaches step (fun _ _ => True) init

/-- The steps of `step` that meet `ok`. -/
def guarded (step : σ → α → Option σ) (ok : σ → α → Prop) [∀ s a, Decidable (ok s a)]
    (s : σ) (a : α) : Option σ :=
  if ok s a then step s a else none

section

variable {step : σ → α → Option σ} {ok : σ → α → Prop} {init s : σ}

/-- What holds initially and is kept by every step holds of every reached state. -/
theorem Reaches.invariant {P : σ → Prop} (h : Reaches step ok init s) (hinit : P init)
    (hstep : ∀ s a s', P s → ok s a → step s a = some s' → P s') : P s := by
  induction h with
  | refl => exact hinit
  | tail a _ hok hs ih => exact hstep _ a _ ih hok hs

/-- The same with another invariant, already established, at hand. -/
theorem Reaches.invariant_with {I P : σ → Prop} (h : Reaches step ok init s)
    (hI : ∀ s, Reaches step ok init s → I s) (hinit : P init)
    (hstep : ∀ s a s', I s → P s → ok s a → step s a = some s' → P s') : P s := by
  induction h with
  | refl => exact hinit
  | tail a h hok hs ih => exact hstep _ a _ (hI _ h) ih hok hs

/-- A weaker condition reaches no less. -/
theorem Reaches.mono {ok' : σ → α → Prop} (h : Reaches step ok init s)
    (himp : ∀ s a, ok s a → ok' s a) : Reaches step ok' init s := by
  induction h with
  | refl => exact .refl
  | tail a _ hok hs ih => exact ih.tail a (himp _ _ hok) hs

/-- Steps that meet a condition are steps. -/
theorem Reaches.reachable (h : Reaches step ok init s) : Reachable step init s :=
  h.mono fun _ _ _ => trivial

/-- One run after the other. -/
theorem Reaches.trans {m t : σ} (h₁ : Reaches step ok init m) (h₂ : Reaches step ok m t) :
    Reaches step ok init t := by
  induction h₂ with
  | refl => exact h₁
  | tail a _ hok hs ih => exact ih.tail a hok hs

/-- A component of a system reaches only states it reaches on its own, when
    every step of the system leaves it alone or is a step of the component. -/
theorem Reaches.project {τ β : Type} {step' : τ → β → Option τ} {ok' : τ → β → Prop}
    (f : σ → τ) (h : Reaches step ok init s)
    (hproj : ∀ s a s', ok s a → step s a = some s' →
      f s' = f s ∨ ∃ b, ok' (f s) b ∧ step' (f s) b = some (f s')) :
    Reaches step' ok' (f init) (f s) := by
  induction h with
  | refl => exact .refl
  | tail a _ hok hs ih =>
    -- a step of the system is at most one of the component
    obtain heq | ⟨b, hb, hb'⟩ := hproj _ a _ hok hs
    · rw [heq]; exact ih
    · exact ih.tail b hb hb'

/-- The actions of one execution after those of another. -/
theorem run_append (l₁ l₂ : List α) :
    run step s (l₁ ++ l₂) = (run step s l₁).bind fun s' => run step s' l₂ := by
  induction l₁ generalizing s with
  | nil => rfl
  | cons a l₁ ih =>
    simp only [List.cons_append, run]
    cases step s a with
    | none => rfl
    | some s' => exact ih

/-- What relates the actions taken so far to the state, and is kept by every step, is kept by
    every execution. -/
theorem run_invariant {P : List α → σ → Prop}
    (hstep : ∀ acts s a s', P acts s → step s a = some s' → P (acts ++ [a]) s')
    (done acts : List α) (hinit : P done init) (h : run step init acts = some s) :
    P (done ++ acts) s := by
  induction acts generalizing done init with
  | nil =>
    obtain rfl := Option.some.inj h
    simpa using hinit
  | cons a acts ih =>
    simp only [run] at h
    split at h
    · rename_i s₁ hs₁
      have hrest := ih (done ++ [a]) (hstep done init a s₁ hinit hs₁) h
      rwa [List.append_assoc] at hrest
    · cases h

/-- An execution of actions that all meet `ok`. -/
theorem reaches_of_run [∀ s a, Decidable (ok s a)] (acts : List α)
    (h : run (guarded step ok) init acts = some s) : Reaches step ok init s := by
  induction acts generalizing init with
  | nil =>
    obtain rfl := Option.some.inj h
    exact .refl
  | cons a acts ih =>
    simp only [run] at h
    split at h
    · rename_i s₁ hs₁
      simp only [guarded] at hs₁
      split at hs₁
      · rename_i hok
        exact (Reaches.refl.tail a hok hs₁).trans (ih h)
      · cases hs₁
    · cases h

/-- An execution reaches its last state by its own actions. -/
theorem reaches_mem_of_run (acts : List α) (h : run step init acts = some s) :
    Reaches step (fun _ a => a ∈ acts) init s := by
  induction acts generalizing init with
  | nil =>
    obtain rfl := Option.some.inj h
    exact .refl
  | cons a acts ih =>
    simp only [run] at h
    split at h
    · rename_i s₁ hs₁
      have hfirst : Reaches step (fun _ b => b ∈ a :: acts) init s₁ :=
        Reaches.refl.tail a List.mem_cons_self hs₁
      exact hfirst.trans ((ih h).mono fun _ b hb => List.mem_cons_of_mem a hb)
    · cases h

/-- An execution reaches its last state. -/
theorem reachable_of_run (acts : List α) (h : run step init acts = some s) :
    Reachable step init s :=
  (reaches_mem_of_run acts h).reachable

/-- An execution of actions each of which lowers `load` is no longer than the
    load it starts with. -/
theorem length_le_of_run {P : σ → Prop} {load : σ → Nat} {G : α → Prop}
    (hstep : ∀ s a s', P s → G a → step s a = some s' → P s' ∧ load s' < load s)
    (acts : List α) (hacts : ∀ a ∈ acts, G a) {t : σ} (hP : P s)
    (h : run step s acts = some t) : acts.length ≤ load s := by
  induction acts generalizing s with
  | nil => exact Nat.zero_le _
  | cons a acts ih =>
    simp only [run] at h
    split at h
    · rename_i s₁ hs₁
      obtain ⟨hP₁, hlt⟩ := hstep s a s₁ hP (hacts a List.mem_cons_self) hs₁
      have hrest := ih (fun b hb => hacts b (List.mem_cons_of_mem a hb)) hP₁ h
      rw [List.length_cons]
      omega
    · cases h

/-- There is an execution to a state in which no action of this kind is enabled. -/
theorem exists_run_stuck {P : σ → Prop} {load : σ → Nat} {G : α → Prop}
    (hstep : ∀ s a s', P s → G a → step s a = some s' → P s' ∧ load s' < load s) (hP : P s) :
    ∃ acts t, (∀ a ∈ acts, G a) ∧ run step s acts = some t ∧ P t ∧
      ∀ a, G a → step t a = none := by
  induction hload : load s using Nat.strongRecOn generalizing s with
  | _ n ih =>
    -- as long as an action is enabled it is taken; the load is the measure
    by_cases hmore : ∃ a s', G a ∧ step s a = some s'
    · obtain ⟨a, s', ha, hs'⟩ := hmore
      obtain ⟨hP', hlt⟩ := hstep s a s' hP ha hs'
      obtain ⟨acts, t, hacts, hrun, hPt, hnone⟩ := ih (load s') (hload ▸ hlt) hP' rfl
      refine ⟨a :: acts, t, ?_, ?_, hPt, hnone⟩
      · intro b hb
        obtain rfl | hb := List.mem_cons.mp hb
        · exact ha
        · exact hacts b hb
      · simp only [run, hs']
        exact hrun
    · refine ⟨[], s, by simp, rfl, hP, fun a ha => ?_⟩
      cases hs' : step s a with
      | none => rfl
      | some s' => exact absurd ⟨a, s', ha, hs'⟩ hmore

/-- An execution whose last state meets `P` reaches a state that does. -/
theorem exists_reachable_of_run {P : σ → Prop} (acts : List α)
    (h : ∃ s ∈ run step init acts, P s) : ∃ s, Reachable step init s ∧ P s := by
  obtain ⟨s, hs, hP⟩ := h
  exact ⟨s, reachable_of_run acts hs, hP⟩

/-- The same for actions that all meet `ok`. -/
theorem exists_reaches_of_run [∀ s a, Decidable (ok s a)] {P : σ → Prop} (acts : List α)
    (h : ∃ s ∈ run (guarded step ok) init acts, P s) : ∃ s, Reaches step ok init s ∧ P s := by
  obtain ⟨s, hs, hP⟩ := h
  exact ⟨s, reaches_of_run acts hs, hP⟩

end

end Transition
