import Mathlib.Algebra.GroupWithZero.Nat
import Mathlib.Data.List.Perm.Subperm

/-!
# Lists of threads

A list that is updated at one index models a set of threads that take steps one
at a time.  The lemmas say what such an update does to what the threads hold
(`filterMap`) and to how many of them are in a given state (`countP`).  The last
lemmas are about where a text occurs in a longer one, and about elements taken
from a list at increasing places.
-/

namespace List

variable {α β : Type}

/-- With distinct keys, an element is gone after the first one with its key is removed. -/
theorem not_mem_map_eraseP [DecidableEq β] {f : α → β} {l : List α} (h : (l.map f).Nodup)
    {b : β} : b ∉ (l.eraseP fun a => f a = b).map f := by
  induction l with
  | nil => simp
  | cons a l ih =>
    rw [map_cons, nodup_cons] at h
    by_cases hab : f a = b
    · subst hab
      simpa using h.1
    · rw [eraseP_cons_of_neg (by simpa using hab), map_cons, mem_cons]
      exact not_or.mpr ⟨Ne.symm hab, ih h.2⟩

/-- Replacing `a` by `b` trades what `a` holds for what `b` holds. -/
theorem filterMap_set_perm (f : α → Option β) {l : List α} {i : Nat} {a : α} (b : α)
    (h : l[i]? = some a) :
    ((f a).toList ++ (l.set i b).filterMap f).Perm ((f b).toList ++ l.filterMap f) := by
  induction l generalizing i with
  | nil => simp at h
  | cons x l ih =>
    cases i with
    | zero =>
      obtain rfl : x = a := by simpa using h
      rw [set_cons_zero, filterMap_cons, filterMap_cons]
      cases hx : f x <;> cases hb : f b <;> simp [Perm.swap]
    | succ i =>
      have htail := ih (i := i) (by simpa using h)
      rw [set_cons_succ, filterMap_cons, filterMap_cons]
      cases hx : f x with
      | none => exact htail
      | some v =>
        -- move `v` in front on both sides
        have hmid : ((f a).toList ++ v :: (l.set i b).filterMap f).Perm
            (v :: ((f a).toList ++ (l.set i b).filterMap f)) := perm_middle
        have hmid' : ((f b).toList ++ v :: l.filterMap f).Perm
            (v :: ((f b).toList ++ l.filterMap f)) := perm_middle
        exact hmid.trans ((htail.cons v).trans hmid'.symm)

/-- Replacing `a` by an element that holds the same changes nothing. -/
theorem filterMap_set_of_eq (f : α → Option β) {l : List α} {i : Nat} {a b : α}
    (h : l[i]? = some a) (heq : f b = f a) : (l.set i b).filterMap f = l.filterMap f := by
  induction l generalizing i with
  | nil => simp at h
  | cons x l ih =>
    cases i with
    | zero =>
      obtain rfl : x = a := by simpa using h
      rw [set_cons_zero, filterMap_cons, filterMap_cons, heq]
    | succ i =>
      rw [set_cons_succ, filterMap_cons, filterMap_cons, ih (i := i) (by simpa using h)]

/-- Replacing `a` by an element with the same image changes no image. -/
theorem map_set_of_eq (f : α → β) {l : List α} {i : Nat} {a b : α} (h : l[i]? = some a)
    (heq : f b = f a) : (l.set i b).map f = l.map f := by
  induction l generalizing i with
  | nil => simp at h
  | cons x l ih =>
    cases i with
    | zero =>
      obtain rfl : x = a := by simpa using h
      rw [set_cons_zero, map_cons, map_cons, heq]
    | succ i => rw [set_cons_succ, map_cons, map_cons, ih (i := i) (by simpa using h)]

/-- Replacing `b` leaves every other element in the list. -/
theorem mem_set_of_ne {l : List α} {i : Nat} {a b : α} (x : α) (ha : a ∈ l) (hb : l[i]? = some b)
    (hne : a ≠ b) : a ∈ l.set i x := by
  obtain ⟨j, hj⟩ := mem_iff_getElem?.mp ha
  have hij : i ≠ j := by
    rintro rfl
    exact hne (Option.some.inj (hj.symm.trans hb))
  exact mem_of_getElem? ((getElem?_set_ne hij).trans hj)

/-- Replacing `a` by `b` trades one for the other in a count. -/
theorem countP_set_add (p : α → Bool) {l : List α} {i : Nat} {a : α} (b : α)
    (h : l[i]? = some a) :
    (l.set i b).countP p + (if p a then 1 else 0) = l.countP p + (if p b then 1 else 0) := by
  induction l generalizing i with
  | nil => simp at h
  | cons x l ih =>
    cases i with
    | zero =>
      obtain rfl : x = a := by simpa using h
      rw [set_cons_zero, countP_cons, countP_cons]
      omega
    | succ i =>
      have htail := ih (i := i) (by simpa using h)
      rw [set_cons_succ, countP_cons, countP_cons]
      omega

/-- Among elements with different keys, the key of `a` finds `a` alone. -/
theorem filter_key_eq_singleton [DecidableEq β] (f : α → β) {l : List α} {a : α}
    (hnodup : (l.map f).Nodup) (ha : a ∈ l) : l.filter (fun x => f x = f a) = [a] := by
  induction l with
  | nil => cases ha
  | cons x l ih =>
    rw [map_cons, nodup_cons] at hnodup
    by_cases hx : f x = f a
    · -- no later element has this key
      have hrest : l.filter (fun x => f x = f a) = [] := by
        apply filter_eq_nil_iff.mpr
        intro y hy hkey
        exact hnodup.1 (hx ▸ of_decide_eq_true hkey ▸ mem_map_of_mem hy)
      obtain rfl | ha := mem_cons.mp ha
      · rw [filter_cons_of_pos (by simp), hrest]
      · exact absurd (hx ▸ mem_map_of_mem ha) hnodup.1
    · obtain rfl | ha := mem_cons.mp ha
      · exact absurd rfl hx
      · rw [filter_cons_of_neg (by simpa using hx), ih hnodup.2 ha]

/-- Replacing `a` by `b` trades the weight of `a` for that of `b`. -/
theorem sum_map_set (f : α → Nat) {l : List α} {i : Nat} {a : α} (b : α) (h : l[i]? = some a) :
    ((l.set i b).map f).sum + f a = (l.map f).sum + f b := by
  induction l generalizing i with
  | nil => simp at h
  | cons x l ih =>
    cases i with
    | zero =>
      obtain rfl : x = a := by simpa using h
      simp only [set_cons_zero, map_cons, sum_cons]
      omega
    | succ i =>
      have htail := ih (i := i) (by simpa using h)
      simp only [set_cons_succ, map_cons, sum_cons]
      omega

/-- A text whose first letter does not occur in `l` cannot start inside of `l`. -/
theorem infix_append_iff_of_not_mem {c : α} {text l : List α} (r : List α) (hc : c ∉ l) :
    c :: text <:+: l ++ r ↔ c :: text <:+: r := by
  induction l with
  | nil => rfl
  | cons x l ih =>
    rw [mem_cons, not_or] at hc
    rw [cons_append, infix_cons_iff, cons_prefix_cons, ih hc.2]
    simp [hc.1]

/-- What is taken from a list at increasing places is a sublist of it. -/
theorem map_sublist_of_increasing {γ : Type} {l : List α} {xs : List γ} (place : γ → Nat)
    (g : γ → α) (hget : ∀ x ∈ xs, l[place x]? = some (g x))
    (hinc : xs.Pairwise fun x y => place x < place y) : xs.map g <+ l := by
  -- from place `n` on
  have hfrom : ∀ (n : Nat) (xs : List γ), (∀ x ∈ xs, l[place x]? = some (g x)) →
      (xs.Pairwise fun x y => place x < place y) → (∀ x ∈ xs, n ≤ place x) →
      xs.map g <+ l.drop n := by
    intro n xs
    induction xs generalizing n with
    | nil => exact fun _ _ _ => nil_sublist _
    | cons x xs ih =>
      intro hget hinc hle
      obtain ⟨hx, hinc⟩ := pairwise_cons.mp hinc
      obtain ⟨hlt, hget₀⟩ := getElem?_eq_some_iff.mp (hget x mem_cons_self)
      have hrest := ih (place x + 1) (fun y hy => hget y (mem_cons_of_mem x hy)) hinc hx
      have hcons : (x :: xs).map g <+ l.drop (place x) := by
        rw [map_cons, drop_eq_getElem_cons hlt, hget₀]
        exact hrest.cons_cons (g x)
      obtain ⟨d, hd⟩ := Nat.exists_eq_add_of_le (hle x mem_cons_self)
      rw [hd, ← drop_drop] at hcons
      exact hcons.trans (drop_sublist d _)
  exact (hfrom 0 xs hget hinc fun x _ => Nat.zero_le _).trans (drop_zero (l := l) ▸ Sublist.refl l)

end List
