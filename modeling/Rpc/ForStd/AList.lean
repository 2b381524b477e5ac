import Mathlib.Data.List.AList

/-!
# Association lists

What an entry of an association list with constant value type can be after an
`insert` or an `erase`, and when its values are distinct.
-/

namespace AList

variable {α β : Type} [DecidableEq α]

/-- After an `erase`, the entries under the other keys are left. -/
theorem lookup_erase_eq_some {s : AList fun _ : α => β} {a b : α} {v : β} :
    (s.erase a).lookup b = some v ↔ b ≠ a ∧ s.lookup b = some v := by
  by_cases h : b = a
  · subst h
    simp
  · simp [lookup_erase_ne h, h]

/-- After an `insert`, an entry is the new one, or one under another key. -/
theorem lookup_insert_eq_some {s : AList fun _ : α => β} {a b : α} {v w : β} :
    (s.insert a w).lookup b = some v ↔ b = a ∧ v = w ∨ b ≠ a ∧ s.lookup b = some v := by
  by_cases h : b = a
  · subst h
    simp [eq_comm]
  · simp [lookup_insert_ne h, h]

/-- An entry is what `lookup` finds. -/
theorem lookup_of_mem_entries {s : AList fun _ : α => β} {e : Sigma fun _ : α => β}
    (h : e ∈ s.entries) : s.lookup e.1 = some e.2 :=
  mem_lookup_iff.mpr h

/-- Nothing is found only in the empty list. -/
theorem eq_empty_of_lookup {s : AList fun _ : α => β} (h : ∀ a v, s.lookup a ≠ some v) :
    s = ∅ := by
  apply AList.ext
  apply List.eq_nil_iff_forall_not_mem.mpr
  intro e he
  exact h e.1 e.2 (lookup_of_mem_entries he)

/-- The values are distinct if each value is found under one key only. -/
theorem nodup_values {s : AList fun _ : α => β}
    (h : ∀ a b v, s.lookup a = some v → s.lookup b = some v → a = b) :
    (s.entries.map fun e => e.2).Nodup := by
  apply List.Nodup.map_on
  · intro e he e' he' heq
    have hkey : e.1 = e'.1 :=
      h e.1 e'.1 e.2 (lookup_of_mem_entries he) (heq ▸ lookup_of_mem_entries he')
    obtain ⟨k, v⟩ := e
    obtain ⟨k', v'⟩ := e'
    cases hkey
    cases heq
    rfl
  · exact s.nodupKeys.nodup

end AList
