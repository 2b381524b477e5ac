import Mathlib.Algebra.Order.Group.Unbundled.Int

/-!
# Machine integers

The integer types of a fixed width, signed and unsigned alike: a type has `size` values from
`lo` on, and an integer is converted to the value it is congruent to.

* `toInt_ofInt`: an integer in the range of the type keeps its value.
* `ofInt_eq_iff`: which integers are converted to a value.
-/

/-- An integer type of a fixed width. -/
class MachineInt (α : Type) where
  toInt : α → Int
  /-- the conversion, modulo the size -/
  ofInt : Int → α
  lo : Int
  size : Nat
  ofInt_toInt : ∀ a, ofInt (toInt a) = a
  toInt_range : ∀ a, lo ≤ toInt a ∧ toInt a < lo + size
  dvd_toInt_ofInt_sub : ∀ n, (size : Int) ∣ toInt (ofInt n) - n

namespace MachineInt

variable {α : Type} [MachineInt α]

/-- `n` is a value of the type. -/
def InRange (α : Type) [MachineInt α] (n : Int) : Prop := lo α ≤ n ∧ n < lo α + size α

instance instDecidableInRange (n : Int) : Decidable (InRange α n) :=
  inferInstanceAs (Decidable (_ ∧ _))

/-- Every value is in the range. -/
theorem inRange_toInt (a : α) : InRange α (toInt a) := toInt_range a

/-- Two values that are congruent are equal. -/
theorem eq_of_dvd_sub {m n : Int} (hm : InRange α m) (hn : InRange α n)
    (h : (size α : Int) ∣ m - n) : m = n := by
  have habs : |m - n| < size α := by
    rw [abs_lt]
    unfold InRange at hm hn
    omega
  have hzero : m - n = 0 := Int.eq_zero_of_abs_lt_dvd h habs
  omega

/-- An integer in the range of the type keeps its value. -/
theorem toInt_ofInt {n : Int} (h : InRange α n) : toInt (ofInt n : α) = n :=
  eq_of_dvd_sub (inRange_toInt _) h (dvd_toInt_ofInt_sub n)

/-- The integers that are converted to `a`. -/
theorem ofInt_eq_iff {n : Int} {a : α} : ofInt n = a ↔ (size α : Int) ∣ n - toInt a := by
  constructor
  · rintro rfl
    have h := dvd_toInt_ofInt_sub (α := α) n
    rwa [← Int.dvd_neg, Int.neg_sub] at h
  · intro h
    have hsum : (size α : Int) ∣ toInt (ofInt n : α) - toInt a := by
      have hadd := Int.dvd_add (dvd_toInt_ofInt_sub (α := α) n) h
      rwa [Int.add_comm, sub_add_sub_cancel'] at hadd
    rw [← ofInt_toInt (ofInt n : α), eq_of_dvd_sub (inRange_toInt _) (inRange_toInt a) hsum,
      ofInt_toInt]

end MachineInt

instance instMachineIntUInt16 : MachineInt UInt16 where
  toInt a := a.toNat
  ofInt := UInt16.ofInt
  lo := 0
  size := UInt16.size
  ofInt_toInt a := by
    have := a.toNat_lt
    have hmod : ((a.toNat : Int) % 2 ^ 16).toNat = a.toNat := by omega
    rw [UInt16.ofInt, hmod, UInt16.ofNat_toNat]
  toInt_range a := by
    have := a.toNat_lt
    simp only [UInt16.size]
    omega
  dvd_toInt_ofInt_sub n := by
    have hmod : (UInt16.ofInt n).toNat = (n % 2 ^ 16).toNat % 2 ^ 16 := UInt16.toNat_ofNat'
    rw [hmod]
    simp only [UInt16.size]
    omega

instance instMachineIntInt32 : MachineInt Int32 where
  toInt := Int32.toInt
  ofInt := Int32.ofInt
  lo := -2 ^ 31
  size := Int32.size
  ofInt_toInt := Int32.ofInt_toInt
  toInt_range a := by
    have := a.toInt_lt
    have := a.le_toInt
    simp only [Int32.size]
    omega
  dvd_toInt_ofInt_sub n := by
    rw [Int32.toInt_ofInt]
    exact Int.dvd_bmod_sub_self
