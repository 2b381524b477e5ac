import Mathlib.Logic.Function.Basic

/-!
# Journals of a map

A map whose keys are put in and taken out one at a time, and the list of these changes.

* `replay` is the map after the changes of a journal.
* `Strict`: a key is put in when it is absent, and taken out when it is there.
* `Strict.replay_eq_of_put`: until it is taken out, a key has the value it was put in with.
* `Strict.exists_drop_between`: between two changes that put a key in, one takes it out.
-/

/-- A change of a map. -/
inductive Change (κ ν : Type) where
  | put (k : κ) (v : ν)
  | drop (k : κ)
  deriving DecidableEq, Repr

namespace Change

variable {κ ν : Type} [DecidableEq κ]

/-- The map after a change. -/
def apply (m : κ → Option ν) : Change κ ν → κ → Option ν
  | put k v => Function.update m k (some v)
  | drop k => Function.update m k none

/-- The change puts in what is absent, or takes out what is there. -/
def Fits (m : κ → Option ν) : Change κ ν → Prop
  | put k _ => m k = none
  | drop k => m k ≠ none

/-- A key that is put in has its value. -/
theorem apply_put_self (m : κ → Option ν) (k : κ) (v : ν) : (put k v).apply m k = some v := by
  rw [apply, Function.update_self]

end Change

namespace Journal

open Change

variable {κ ν : Type} [DecidableEq κ] {m : κ → Option ν} {log : List (Change κ ν)}

/-- The map after the changes of a journal. -/
def replay (m : κ → Option ν) (log : List (Change κ ν)) : κ → Option ν := log.foldl apply m

@[simp] theorem replay_nil (m : κ → Option ν) : replay m [] = m := rfl

/-- Two journals are replayed one after the other. -/
theorem replay_append (m : κ → Option ν) (log log' : List (Change κ ν)) :
    replay m (log ++ log') = replay (replay m log) log' :=
  List.foldl_append

/-- Every change of the journal fits where it is made. -/
def Strict (m : κ → Option ν) (log : List (Change κ ν)) : Prop :=
  ∀ (i : Nat) (c : Change κ ν), log[i]? = some c → c.Fits (replay m (log.take i))

/-- In an empty journal nothing is amiss. -/
theorem strict_nil (m : κ → Option ν) : Strict m [] := by
  intro i c hc
  cases hc

/-- One more change. -/
theorem Strict.concat (h : Strict m log) {c : Change κ ν} (hc : c.Fits (replay m log)) :
    Strict m (log ++ [c]) := by
  intro i c' hi
  by_cases hlt : i < log.length
  · rw [List.getElem?_append_left hlt] at hi
    rw [List.take_append_of_le_length (by omega)]
    exact h i c' hi
  · -- it is the last one
    rw [List.getElem?_append_right (by omega), List.getElem?_singleton] at hi
    split at hi
    · obtain rfl := Option.some.inj hi
      rw [List.take_append, ‹i - log.length = 0›, List.take_zero, List.append_nil,
        List.take_of_length_le (by omega)]
      exact hc
    · cases hi

/-- Both parts of a journal are strict, the second from where the first ends. -/
theorem Strict.of_append {log' : List (Change κ ν)} (h : Strict m (log ++ log')) :
    Strict m log ∧ Strict (replay m log) log' := by
  constructor
  · intro i c hi
    obtain ⟨hlt, -⟩ := List.getElem?_eq_some_iff.mp hi
    have hfits := h i c (by rwa [List.getElem?_append_left hlt])
    rwa [List.take_append_of_le_length (by omega)] at hfits
  · intro i c hi
    have hfits := h (log.length + i) c (by
      rw [List.getElem?_append_right (by omega), Nat.add_sub_cancel_left]
      exact hi)
    rwa [List.take_length_add_append, replay_append] at hfits

/-- A key that is there and not taken out keeps its value. -/
theorem Strict.replay_eq_of_not_mem (h : Strict m log) {k : κ} {v : ν} (hk : m k = some v)
    (hdrop : drop k ∉ log) : replay m log k = some v := by
  induction log generalizing m with
  | nil => exact hk
  | cons c log ih =>
    obtain ⟨hfirst, hrest⟩ : Strict m [c] ∧ Strict (c.apply m) log := h.of_append
    -- the first change is that of another key: it fits, and does not take this one out
    have hc : c.Fits m := hfirst 0 c rfl
    have hkept : c.apply m k = some v := by
      cases c with
      | put k' w =>
        have hne : k ≠ k' := by
          rintro rfl
          rw [Fits, hk] at hc
          cases hc
        rw [apply, Function.update_of_ne hne, hk]
      | drop k' =>
        have hne : k ≠ k' := by
          rintro rfl
          exact hdrop List.mem_cons_self
        rw [apply, Function.update_of_ne hne, hk]
    exact ih hrest hkept fun hmem => hdrop (List.mem_cons_of_mem c hmem)

omit [DecidableEq κ] in
/-- A change of the journal, and those after it. -/
theorem take_split {i j : Nat} {c : Change κ ν} (hi : log[i]? = some c) (hlt : i < j) :
    ∃ rest, log.take j = log.take i ++ c :: rest ∧
      ∀ d ∈ rest, ∃ l, i < l ∧ l < j ∧ log[l]? = some d := by
  obtain ⟨hilt, hget⟩ := List.getElem?_eq_some_iff.mp hi
  refine ⟨(log.take j).drop (i + 1), ?_, fun d hd => ?_⟩
  -- the journal up to `j` is cut behind `i`
  · have htake := List.take_append_drop (i + 1) (log.take j)
    rw [List.take_take, Nat.min_eq_left (by omega), List.take_succ_eq_append_getElem hilt, hget,
      List.append_assoc] at htake
    exact htake.symm
  · obtain ⟨l, hl⟩ := List.mem_iff_getElem?.mp hd
    rw [List.getElem?_drop] at hl
    obtain ⟨hlen, -⟩ := List.getElem?_eq_some_iff.mp hl
    rw [List.length_take] at hlen
    rw [List.getElem?_take_of_lt (by omega)] at hl
    exact ⟨i + 1 + l, by omega, by omega, hl⟩

/-- Until it is taken out, a key has the value it was put in with. -/
theorem Strict.replay_eq_of_put (h : Strict m log) {i j : Nat} {k : κ} {v : ν}
    (hi : log[i]? = some (put k v)) (hlt : i < j)
    (hkept : ∀ l, i < l → l < j → log[l]? ≠ some (drop k)) :
    replay m (log.take j) k = some v := by
  obtain ⟨rest, htake, hrest⟩ := take_split hi hlt
  have hstrict : Strict m (log.take i ++ ([put k v] ++ rest)) := by
    have hparts : Strict m (log.take j ++ log.drop j) := by rwa [List.take_append_drop]
    rw [List.singleton_append, ← htake]
    exact hparts.of_append.1
  rw [htake, replay_append]
  -- from the change on, the key is there and not taken out
  refine hstrict.of_append.2.of_append.2.replay_eq_of_not_mem ?_ ?_
  · exact apply_put_self _ k v
  · intro hmem
    obtain ⟨l, hil, hlj, hl⟩ := hrest _ hmem
    exact hkept l hil hlj hl

/-- Between two changes that put a key in, one takes it out. -/
theorem Strict.exists_drop_between (h : Strict m log) {i j : Nat} {k : κ} {v w : ν}
    (hi : log[i]? = some (put k v)) (hj : log[j]? = some (put k w)) (hlt : i < j) :
    ∃ l, i < l ∧ l < j ∧ log[l]? = some (drop k) := by
  by_contra hnone
  have hkept : ∀ l, i < l → l < j → log[l]? ≠ some (drop k) :=
    fun l hil hlj hl => hnone ⟨l, hil, hlj, hl⟩
  have habsent : replay m (log.take j) k = none := h j _ hj
  rw [h.replay_eq_of_put hi hlt hkept] at habsent
  cases habsent

end Journal
