import Mathlib.Algebra.BigOperators.Group.List.Basic
import Mathlib.Algebra.Order.BigOperators.Group.List
import Mathlib.Data.Int.CardIntervalMod

/-!
# Drawing by cumulative weight

`firstAbove r acc ws` is the first position at which the running sum of `ws`, started
at `acc`, exceeds `r`.  Over any integers the position it finds has a positive weight
(`firstAbove_spec`), and it finds one when `r` is below the total
(`exists_firstAbove`).  When no weight is negative, the values of `r` that find
position `i` are the interval between two neighbouring running sums
(`firstAbove_eq_some_iff`), and there are as many of them as the weight at `i` says
(`count_firstAbove`).

`count_add_mod` counts how often a cyclic counter meets a residue.
-/

namespace Cumulative

/-- The first position at which the running sum exceeds `r`. -/
def firstAbove (r acc : Int) : List Int → Option Nat
  | [] => none
  | w :: ws => if r < acc + w then some 0 else (firstAbove r (acc + w) ws).map (· + 1)

/-- At the position that is found the running sum passes `r`. -/
theorem firstAbove_spec {r acc : Int} {ws : List Int} {i : Nat} (hr : acc ≤ r)
    (h : firstAbove r acc ws = some i) :
    acc + (ws.take i).sum ≤ r ∧ r < acc + (ws.take (i + 1)).sum ∧ i < ws.length := by
  induction ws generalizing acc i with
  | nil => simp [firstAbove] at h
  | cons w ws ih =>
    simp only [firstAbove] at h
    split at h
    · rename_i hlt
      obtain rfl : 0 = i := Option.some.inj h
      simp
      omega
    · rename_i hge
      obtain ⟨j, hj, rfl⟩ := Option.map_eq_some_iff.mp h
      obtain ⟨hle, hlt, hlen⟩ := ih (by omega) hj
      simp only [List.take_succ_cons, List.sum_cons, List.length_cons]
      omega

/-- A value below the total is passed. -/
theorem exists_firstAbove {r acc : Int} {ws : List Int} (hr : acc ≤ r) (h : r < acc + ws.sum) :
    ∃ i, firstAbove r acc ws = some i := by
  induction ws generalizing acc with
  | nil =>
    simp at h
    omega
  | cons w ws ih =>
    simp only [firstAbove]
    by_cases hlt : r < acc + w
    · exact ⟨0, if_pos hlt⟩
    · rw [List.sum_cons] at h
      have hge : acc + w ≤ r := by omega
      have hrest : r < acc + w + ws.sum := by omega
      obtain ⟨i, hi⟩ := ih hge hrest
      exact ⟨i + 1, by rw [if_neg hlt, hi, Option.map_some]⟩

/-- With weights that are not negative the running sums grow. -/
theorem sum_take_mono {ws : List Int} (h : ∀ w ∈ ws, 0 ≤ w) {i j : Nat} (hij : i ≤ j) :
    (ws.take i).sum ≤ (ws.take j).sum := by
  induction ws generalizing i j with
  | nil => simp
  | cons w ws ih =>
    rw [List.forall_mem_cons] at h
    cases i with
    | zero =>
      have hnn : ∀ x ∈ (w :: ws).take j, 0 ≤ x := by
        intro x hx
        exact List.forall_mem_cons.mpr h x (List.mem_of_mem_take hx)
      simpa using List.sum_nonneg hnn
    | succ i =>
      cases j with
      | zero => omega
      | succ j =>
        have := ih h.2 (Nat.le_of_succ_le_succ hij)
        simp only [List.take_succ_cons, List.sum_cons]
        omega

/-- With weights that are not negative, the position found is the one whose interval `r` lies in. -/
theorem firstAbove_eq_some_iff {r acc : Int} {ws : List Int} (hr : acc ≤ r)
    (hnn : ∀ w ∈ ws, 0 ≤ w) {i : Nat} :
    firstAbove r acc ws = some i ↔
      acc + (ws.take i).sum ≤ r ∧ r < acc + (ws.take (i + 1)).sum := by
  constructor
  · intro h
    obtain ⟨hle, hlt, -⟩ := firstAbove_spec hr h
    exact ⟨hle, hlt⟩
  · rintro ⟨hle, hlt⟩
    -- `r` lies below the sum of all weights, so a position is found
    have htotal : (ws.take (i + 1)).sum ≤ ws.sum := by
      rw [← List.take_length (l := ws)]
      by_cases hi : i + 1 ≤ ws.length
      · simpa using sum_take_mono hnn hi
      · rw [List.take_length, List.take_of_length_le (by omega)]
    have hbelow : r < acc + ws.sum := by omega
    obtain ⟨j, hj⟩ := exists_firstAbove hr hbelow
    obtain ⟨hle', hlt', -⟩ := firstAbove_spec hr hj
    -- the two intervals meet in `r`, so they are the same
    rw [hj, Option.some.injEq]
    by_contra hne
    obtain hji | hij := Nat.lt_or_gt_of_ne hne
    · have : (ws.take (j + 1)).sum ≤ (ws.take i).sum := sum_take_mono hnn hji
      omega
    · have : (ws.take (i + 1)).sum ≤ (ws.take j).sum := sum_take_mono hnn hij
      omega

/-- As many values find a position as its weight says. -/
theorem count_firstAbove {ws : List Int} (hnn : ∀ w ∈ ws, 0 ≤ w) {i : Nat} (hi : i < ws.length) :
    Nat.count (fun r : Nat => firstAbove r 0 ws = some i) ws.sum.toNat =
      (ws.get ⟨i, hi⟩).toNat := by
  have hstep : (ws.take (i + 1)).sum = (ws.take i).sum + ws.get ⟨i, hi⟩ :=
    List.sum_take_succ ws i hi
  have hstart : 0 ≤ (ws.take i).sum := by
    have := sum_take_mono hnn (Nat.zero_le i)
    simpa using this
  have hend : (ws.take (i + 1)).sum ≤ ws.sum := by
    have : (ws.take (i + 1)).sum ≤ (ws.take ws.length).sum := sum_take_mono hnn hi
    rwa [List.take_length] at this
  have hfilter : (Finset.range ws.sum.toNat).filter (fun r : Nat => firstAbove r 0 ws = some i) =
      Finset.Ico (ws.take i).sum.toNat (ws.take (i + 1)).sum.toNat := by
    ext r
    rw [Finset.mem_filter, Finset.mem_range, Finset.mem_Ico,
      firstAbove_eq_some_iff (Int.natCast_nonneg r) hnn]
    omega
  rw [Nat.count_eq_card_filter_range, hfilter, Nat.card_Ico]
  omega

/-- A cyclic counter meets each residue equally often, up to one time. -/
theorem count_add_mod (c k : Nat) {n j : Nat} (hj : j < n) :
    Nat.count (fun i => (c + i) % n = j) k = k / n ∨
      Nat.count (fun i => (c + i) % n = j) k = (k + n - 1) / n := by
  have hn : 0 < n := by omega
  -- the counter is at `j` after `v` steps for the first time
  have hv : c + (j + (n - c % n)) ≡ j [MOD n] := by
    have hdiv := Nat.div_add_mod c n
    have hlt := Nat.mod_lt c hn
    have hsum : c + (j + (n - c % n)) = j + n * (c / n + 1) := by
      rw [Nat.mul_add, Nat.mul_one]
      omega
    rw [hsum]
    simp [Nat.ModEq]
  have hiff : ∀ i, (c + i) % n = j ↔ i ≡ j + (n - c % n) [MOD n] := by
    intro i
    constructor
    · intro h
      apply Nat.ModEq.add_left_cancel' c
      apply Nat.ModEq.trans _ hv.symm
      rw [Nat.ModEq, h, Nat.mod_eq_of_lt hj]
    · intro h
      have := (Nat.ModEq.add_left c h).trans hv
      rwa [Nat.ModEq, Nat.mod_eq_of_lt hj] at this
  have hcount : Nat.count (fun i => (c + i) % n = j) k =
      k / n + if (j + (n - c % n)) % n < k % n then 1 else 0 := by
    rw [← Nat.count_modEq_card k hn]
    congr 1
    funext i
    exact propext (hiff i)
  rw [hcount]
  split
  · rename_i hrest
    right
    have hdiv := Nat.div_add_mod k n
    have hlt := Nat.mod_lt k hn
    have hsum : k + n - 1 = (k % n - 1) + n * (k / n + 1) := by
      rw [Nat.mul_add, Nat.mul_one]
      omega
    have hzero : (k % n - 1) / n = 0 := Nat.div_eq_of_lt (by omega)
    rw [hsum, Nat.add_mul_div_left _ _ hn, hzero, Nat.zero_add]
  · left
    rfl

end Cumulative
