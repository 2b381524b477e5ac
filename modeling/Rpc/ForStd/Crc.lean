import Mathlib.Logic.Function.Iterate

/-!
# Cyclic redundancy checks

A register of `w` bits that is divided, least significant bit first, by the
polynomial `poly` (`shift` and `feed`), over every width and every polynomial.

* `shift` is linear over `^^^` (`shift_xor`), hence so is feeding a bit string
  (`feedBits_xor`);
* up to `w` bits may be put into the register at once and shifted out
  afterwards (`feedBits_eq_iterate_shift`), which is why a table of the words
  with at most `n` bits replaces `n` shifts (`iterate_shift_split`);
* when the highest bit of `poly` is set, `shift` has a trivial kernel
  (`shift_eq_zero_iff`), so that an error within `w` consecutive bits never
  leaves the register unchanged (`feedBits_burst_ne_zero`).
-/

namespace Crc

variable {w : Nat}

/-- Divide the register by `x`: shift right, and subtract `poly` if a bit falls out. -/
def shift (poly r : BitVec w) : BitVec w := (r >>> 1) ^^^ (if r.getLsbD 0 then poly else 0#w)

/-- A bit, as a word. -/
def bit (b : Bool) : BitVec w := (BitVec.ofBool b).setWidth w

/-- Feed one bit. -/
def feed (poly r : BitVec w) (b : Bool) : BitVec w := shift poly (r ^^^ bit b)

/-- Feed a string of bits. -/
def feedBits (poly r : BitVec w) (bits : List Bool) : BitVec w := bits.foldl (feed poly) r

/-- The word with these bits, the first one lowest. -/
def word : List Bool → BitVec w
  | [] => 0#w
  | b :: bits => (word bits <<< 1) ^^^ bit b

@[simp] theorem feedBits_nil (poly r : BitVec w) : feedBits poly r [] = r := rfl

@[simp] theorem feedBits_cons (poly r : BitVec w) (b : Bool) (bits : List Bool) :
    feedBits poly r (b :: bits) = feedBits poly (feed poly r b) bits := rfl

/-- Two strings are fed one after the other. -/
theorem feedBits_append (poly r : BitVec w) (xs ys : List Bool) :
    feedBits poly r (xs ++ ys) = feedBits poly (feedBits poly r xs) ys :=
  List.foldl_append

@[simp] theorem bit_false : (bit false : BitVec w) = 0#w := by
  simp [bit]

/-- A bit is the lowest of its word. -/
theorem getLsbD_bit (b : Bool) (i : Nat) :
    (bit b : BitVec w).getLsbD i = (decide (i < w) && (decide (i = 0) && b)) := by
  simp only [bit, BitVec.getLsbD_setWidth, BitVec.getLsbD_ofBool]

/-- Words of bits are added bit by bit. -/
theorem bit_xor (a b : Bool) : (bit (a ^^ b) : BitVec w) = bit a ^^^ bit b := by
  apply BitVec.eq_of_getLsbD_eq
  intro i hi
  simp only [BitVec.getLsbD_xor, getLsbD_bit]
  cases a <;> cases b <;> simp

/-- The bits of a word are those of its string, as far as they fit. -/
theorem getLsbD_word (bits : List Bool) (i : Nat) :
    (word bits : BitVec w).getLsbD i = (decide (i < w) && bits.getD i false) := by
  induction bits generalizing i with
  | nil => simp [word]
  | cons b bits ih =>
    simp only [word, BitVec.getLsbD_xor, BitVec.getLsbD_shiftLeft, ih, getLsbD_bit]
    -- what is above the width is cut off
    by_cases hi : i < w
    · cases i with
      | zero => simp [hi]
      | succ i => simp [hi, Nat.lt_of_succ_lt hi]
    · simp [hi]

/-! ## Linearity -/

/-- Subtracting `p` on both sides or on one. -/
private theorem xor_ite (a b : BitVec w) (p : BitVec w) (x y : Bool) :
    (a ^^^ b) ^^^ (if (x ^^ y) = true then p else 0#w) =
      (a ^^^ if x = true then p else 0#w) ^^^ (b ^^^ if y = true then p else 0#w) := by
  apply BitVec.eq_of_getLsbD_eq
  intro i hi
  cases x <;> cases y <;> simp only [BitVec.getLsbD_xor] <;>
    cases a.getLsbD i <;> cases b.getLsbD i <;> cases hp : p.getLsbD i <;> simp [hp]

/-- A shift is linear. -/
theorem shift_xor (poly a b : BitVec w) :
    shift poly (a ^^^ b) = shift poly a ^^^ shift poly b := by
  simp only [shift, BitVec.getLsbD_xor, BitVec.ushiftRight_xor_distrib]
  exact xor_ite _ _ _ _ _

@[simp] theorem shift_zero (poly : BitVec w) : shift poly 0#w = 0#w := by
  simp [shift]

/-- Any number of shifts is linear. -/
theorem iterate_shift_xor (poly : BitVec w) (n : Nat) (a b : BitVec w) :
    (shift poly)^[n] (a ^^^ b) = (shift poly)^[n] a ^^^ (shift poly)^[n] b := by
  induction n generalizing a b with
  | zero => rfl
  | succ n ih => simp only [Function.iterate_succ_apply, shift_xor, ih]

/-- Feeding a bit is linear in the register and the bit. -/
theorem feed_xor (poly a b : BitVec w) (x y : Bool) :
    feed poly (a ^^^ b) (x ^^ y) = feed poly a x ^^^ feed poly b y := by
  simp only [feed, ← shift_xor, bit_xor]
  congr 1
  ac_rfl

/-- The registers of two strings of one length differ by the register of their difference. -/
theorem feedBits_xor (poly : BitVec w) (xs ys : List Bool) (a b : BitVec w)
    (h : xs.length = ys.length) :
    feedBits poly a xs ^^^ feedBits poly b ys =
      feedBits poly (a ^^^ b) (List.zipWith Bool.xor xs ys) := by
  induction xs generalizing ys a b with
  | nil =>
    cases ys with
    | nil => rfl
    | cons y ys => simp at h
  | cons x xs ih =>
    cases ys with
    | nil => simp at h
    | cons y ys =>
      simp only [List.length_cons, Nat.add_right_cancel_iff] at h
      simp only [List.zipWith_cons_cons, feedBits_cons, ih ys _ _ h]
      rw [feed_xor]

/-! ## Several bits at once -/

/-- A word whose highest bit is clear comes back when it is shifted left. -/
theorem shift_shiftLeft (poly z : BitVec w) (hz : z.getLsbD (w - 1) = false) :
    shift poly (z <<< 1) = z := by
  apply BitVec.eq_of_getLsbD_eq
  intro i hi
  have hlow : (z <<< 1).getLsbD 0 = false := by simp
  simp only [shift, hlow, Bool.false_eq_true, if_false, BitVec.xor_zero,
    BitVec.getLsbD_ushiftRight, BitVec.getLsbD_shiftLeft]
  by_cases h : 1 + i < w
  · simp [h]
  · have hlast : i = w - 1 := by omega
    simp [hlast, hz]

/-- Up to `w` bits may be put into the register before it is shifted. -/
theorem feedBits_eq_iterate_shift (poly : BitVec w) (bits : List Bool) (r : BitVec w)
    (h : bits.length ≤ w) :
    feedBits poly r bits = (shift poly)^[bits.length] (r ^^^ word bits) := by
  induction bits generalizing r with
  | nil => simp [word]
  | cons b bits ih =>
    simp only [List.length_cons] at h
    -- the last bit has not reached the top of the register yet
    have htop : (word bits : BitVec w).getLsbD (w - 1) = false := by
      rw [getLsbD_word, List.getD_eq_getElem?_getD, List.getElem?_eq_none (by omega)]
      simp
    rw [feedBits_cons, ih _ (by omega), List.length_cons, Function.iterate_succ_apply]
    congr 1
    rw [word, ← BitVec.xor_assoc, BitVec.xor_assoc r, BitVec.xor_comm (word bits <<< 1),
      ← BitVec.xor_assoc r, shift_xor, shift_shiftLeft poly _ htop]
    rfl

/-- Bits above the lowest `n` only move down in `n` shifts. -/
theorem iterate_shift_shiftLeft (poly x : BitVec w) (n k : Nat) (h : n ≤ k) :
    (shift poly)^[n] ((x >>> k) <<< n) = x >>> k := by
  induction n with
  | zero => simp
  | succ n ih =>
    -- `n` bits have room above the highest of them
    have htop : ((x >>> k) <<< n).getLsbD (w - 1) = false := by
      simp only [BitVec.getLsbD_shiftLeft, BitVec.getLsbD_ushiftRight]
      by_cases hn : w - 1 < n
      · simp [hn]
      · rw [BitVec.getLsbD_of_ge x _ (by omega), Bool.and_false]
    rw [Function.iterate_succ_apply, BitVec.shiftLeft_add, shift_shiftLeft poly _ htop,
      ih (by omega)]

/-- The lowest `n` bits of a word. -/
def low (n : Nat) (x : BitVec w) : BitVec w := (x.setWidth n).setWidth w

/-- The bits of the low part are those below `n`. -/
theorem getLsbD_low (n : Nat) (x : BitVec w) (i : Nat) :
    (low n x).getLsbD i = (decide (i < n) && x.getLsbD i) := by
  simp only [low, BitVec.getLsbD_setWidth]
  by_cases hi : i < w
  · simp [hi]
  · simp [hi, BitVec.getLsbD_of_ge x i (by omega)]

/-- A word is its low part and the rest. -/
theorem low_xor_high (n : Nat) (x : BitVec w) : low n x ^^^ ((x >>> n) <<< n) = x := by
  apply BitVec.eq_of_getLsbD_eq
  intro i hi
  simp only [BitVec.getLsbD_xor, getLsbD_low, BitVec.getLsbD_shiftLeft, BitVec.getLsbD_ushiftRight]
  by_cases hn : i < n
  · simp [hn]
  · simp [hn, hi, Nat.add_sub_cancel' (Nat.le_of_not_lt hn)]

/-- The table step: `n` shifts of the low bits, and the others move down. -/
theorem iterate_shift_split (poly x : BitVec w) (n : Nat) :
    (shift poly)^[n] x = (shift poly)^[n] (low n x) ^^^ (x >>> n) := by
  calc (shift poly)^[n] x
      = (shift poly)^[n] (low n x ^^^ ((x >>> n) <<< n)) := by rw [low_xor_high]
    _ = (shift poly)^[n] (low n x) ^^^ (shift poly)^[n] ((x >>> n) <<< n) :=
        iterate_shift_xor poly n _ _
    _ = (shift poly)^[n] (low n x) ^^^ (x >>> n) := by
        rw [iterate_shift_shiftLeft poly x n n (Nat.le_refl n)]

/-! ## Bursts -/

/-- With the highest bit of `poly` set, a shift loses nothing. -/
theorem shift_eq_zero_iff (poly : BitVec w) (htop : poly.getLsbD (w - 1) = true) (r : BitVec w) :
    shift poly r = 0#w ↔ r = 0#w := by
  constructor
  · intro h
    have hbit : ∀ i, (shift poly r).getLsbD i = false := by
      intro i
      rw [h, BitVec.getLsbD_zero]
    have hlow : r.getLsbD 0 = false := by
      -- otherwise the top bit of the result is that of `poly`
      by_contra hne
      rw [Bool.not_eq_false] at hne
      have hw : 0 < w := BitVec.lt_of_getLsbD hne
      have := hbit (w - 1)
      simp only [shift, hne, if_true, BitVec.getLsbD_xor, BitVec.getLsbD_ushiftRight, htop] at this
      rw [BitVec.getLsbD_of_ge r _ (by omega)] at this
      simp at this
    apply BitVec.eq_of_getLsbD_eq
    intro i hi
    rw [BitVec.getLsbD_zero]
    cases i with
    | zero => exact hlow
    | succ i =>
      have := hbit i
      simp only [shift, hlow, Bool.false_eq_true, if_false, BitVec.xor_zero,
        BitVec.getLsbD_ushiftRight] at this
      rwa [Nat.add_comm]
  · intro h
    rw [h, shift_zero]

/-- With the highest bit of `poly` set, no number of shifts loses anything. -/
theorem iterate_shift_eq_zero_iff (poly : BitVec w) (htop : poly.getLsbD (w - 1) = true) (n : Nat)
    (r : BitVec w) : (shift poly)^[n] r = 0#w ↔ r = 0#w := by
  induction n generalizing r with
  | zero => rfl
  | succ n ih => rw [Function.iterate_succ_apply, ih, shift_eq_zero_iff poly htop]

/-- Feeding zeros only shifts. -/
theorem feedBits_replicate_false (poly r : BitVec w) (n : Nat) :
    feedBits poly r (List.replicate n false) = (shift poly)^[n] r := by
  induction n generalizing r with
  | zero => rfl
  | succ n ih =>
    rw [List.replicate_succ, feedBits_cons, ih, Function.iterate_succ_apply]
    simp [feed]

/-- The word of a string of at most `w` bits is zero only when all of them are. -/
theorem word_ne_zero {bits : List Bool} (h : bits.length ≤ w) (hmem : true ∈ bits) :
    (word bits : BitVec w) ≠ 0#w := by
  intro hzero
  -- a set bit of the string is one of the word
  obtain ⟨i, hi, hget⟩ := List.mem_iff_getElem.mp hmem
  have hbit := getLsbD_word (w := w) bits i
  rw [hzero, BitVec.getLsbD_zero, List.getD_eq_getElem?_getD, List.getElem?_eq_getElem hi,
    hget] at hbit
  simp at hbit
  omega

/-- A burst of at most `w` bits, at any place of a string of any length, is seen. -/
theorem feedBits_burst_ne_zero (poly : BitVec w) (htop : poly.getLsbD (w - 1) = true) (n m : Nat)
    {bits : List Bool} (h : bits.length ≤ w) (hmem : true ∈ bits) :
    feedBits poly 0#w (List.replicate n false ++ bits ++ List.replicate m false) ≠ 0#w := by
  -- zeros before the burst leave the register zero, and those after it shift it
  rw [feedBits_append, feedBits_append, feedBits_replicate_false, feedBits_replicate_false,
    (iterate_shift_eq_zero_iff poly htop n 0#w).mpr rfl, feedBits_eq_iterate_shift poly bits _ h,
    BitVec.zero_xor]
  intro hzero
  rw [iterate_shift_eq_zero_iff poly htop, iterate_shift_eq_zero_iff poly htop] at hzero
  exact word_ne_zero h hmem hzero

/-- A part of a string that no set bit falls into is a string of zeros. -/
private theorem eq_replicate_false {bits : List Bool} (h : ∀ b ∈ bits, b ≠ true) :
    bits = List.replicate bits.length false :=
  List.eq_replicate_iff.mpr ⟨rfl, fun b hb => Bool.eq_false_iff.mpr (h b hb)⟩

/-- A string that is not zero, and whose set bits lie within `w` consecutive places, is seen. -/
theorem feedBits_window_ne_zero (poly : BitVec w) (htop : poly.getLsbD (w - 1) = true)
    {bits : List Bool} (start : Nat)
    (hwin : ∀ i, bits[i]? = some true → start ≤ i ∧ i < start + w) (hmem : true ∈ bits) :
    feedBits poly 0#w bits ≠ 0#w := by
  -- the string before, in and after the window
  have hsplit : bits = bits.take start ++ (bits.drop start).take w ++ bits.drop (start + w) := by
    rw [List.append_assoc, ← List.drop_drop, List.take_append_drop, List.take_append_drop]
  have hbefore : ∀ b ∈ bits.take start, b ≠ true := by
    intro b hb hb'
    obtain ⟨i, hi, hget⟩ := List.mem_take_iff_getElem.mp hb
    have := hwin i (by rw [List.getElem?_eq_getElem (by omega), hget, hb'])
    omega
  have hafter : ∀ b ∈ bits.drop (start + w), b ≠ true := by
    intro b hb hb'
    obtain ⟨i, hi, hget⟩ := List.mem_drop_iff_getElem.mp hb
    have := hwin (start + w + i) (by rw [List.getElem?_eq_getElem (by omega), hget, hb'])
    omega
  have hinside : true ∈ (bits.drop start).take w := by
    rw [hsplit, List.mem_append, List.mem_append] at hmem
    obtain (hmem | hmem) | hmem := hmem
    · exact absurd rfl (hbefore true hmem)
    · exact hmem
    · exact absurd rfl (hafter true hmem)
  rw [hsplit, eq_replicate_false hbefore, eq_replicate_false hafter]
  exact feedBits_burst_ne_zero poly htop _ _ (List.length_take_le w _) hinside

end Crc
