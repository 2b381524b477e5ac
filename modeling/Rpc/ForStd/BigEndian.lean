import Mathlib.Data.Nat.Bitwise

/-!
# Byte buffers and big-endian words

A byte string is a list of bytes.  `List.blit` is `memcpy` into a buffer of
fixed length; `be16`/`be32` are the big-endian words and `ofBe16`/`ofBe32`
their inverses.

The two codecs are mutually inverse in both directions: a word is recovered
from its bytes (`ofBe16_be16`, `ofBe32_be32`), and every two or four bytes are
the encoding of the word they decode to (`be16_ofBe16`, `be32_ofBe32`).  The
second direction is what makes a parser over these words accept *exactly* its
grammar.  Everything is proved through `toNat` and `omega`, without
bit-blasting.
-/

/-- A `std::string` or `std::vector<char>`, as the list of its bytes. -/
abbrev Bytes := List UInt8

/-- The bytes of a C++ string literal. -/
def Bytes.ofString (s : String) : Bytes := s.toUTF8.data.toList

/-- The text a `const char*` to these bytes denotes: it ends before the first NUL. -/
def Bytes.cStr (s : Bytes) : Bytes := s.takeWhile (· ≠ 0)

namespace List

/-- Overwrite `src.length` bytes of `buf` from offset `pos` on (`memcpy`). -/
def blit (buf : Bytes) (pos : Nat) (src : Bytes) : Bytes :=
  buf.take pos ++ src ++ buf.drop (pos + src.length)

/-- Filling a zeroed buffer from the left: when the bytes before `pos` are
    already written, a `blit` at `pos` appends `src` to them and uses up
    `src.length` zeros. -/
theorem blit_zeros (pre src : Bytes) (pos k m : Nat)
    (hpos : pos = pre.length) (hk : k = src.length + m) :
    (pre ++ replicate k 0).blit pos src = (pre ++ src) ++ replicate m 0 := by
  subst hpos hk
  simp [blit, List.drop_append]

end List

namespace BigEndian

/-- The two bytes of a 16-bit word, most significant first. -/
def be16 (v : UInt16) : Bytes := [(v >>> 8).toUInt8, v.toUInt8]

/-- The four bytes of a 32-bit word, most significant first. -/
def be32 (v : UInt32) : Bytes :=
  [(v >>> 24).toUInt8, (v >>> 16).toUInt8, (v >>> 8).toUInt8, v.toUInt8]

/-- The 16-bit word with bytes `b₀ b₁`, most significant first. -/
def ofBe16 (b₀ b₁ : UInt8) : UInt16 := (b₀.toUInt16 <<< 8) ||| b₁.toUInt16

/-- The 32-bit word with bytes `b₀ b₁ b₂ b₃`, most significant first. -/
def ofBe32 (b₀ b₁ b₂ b₃ : UInt8) : UInt32 :=
  (b₀.toUInt32 <<< 24) ||| (b₁.toUInt32 <<< 16) ||| (b₂.toUInt32 <<< 8) ||| b₃.toUInt32

@[simp] theorem be16_length (v : UInt16) : (be16 v).length = 2 := rfl

@[simp] theorem be32_length (v : UInt32) : (be32 v).length = 4 := rfl

/-! ## Decoded words as numbers -/

/-- Bytes in disjoint positions: `|||` is `+`. -/
private theorem or_eq_add_of_lt (a b k : Nat) (h : b < 2 ^ k) :
    a * 2 ^ k ||| b = a * 2 ^ k + b := by
  rw [Nat.mul_comm, ← Nat.two_pow_add_eq_or_of_lt h]

/-- Two bytes, as a number. -/
theorem ofBe16_toNat (b₀ b₁ : UInt8) :
    (ofBe16 b₀ b₁).toNat = b₀.toNat * 256 + b₁.toNat := by
  have h₀ := b₀.toNat_lt
  have h₁ := b₁.toNat_lt
  simp only [ofBe16, UInt16.toNat_or, UInt16.toNat_shiftLeft, UInt8.toNat_toUInt16,
    UInt16.reduceToNat, Nat.shiftLeft_eq, Nat.reduceMod, Nat.reducePow]
  -- nothing is shifted out
  rw [Nat.mod_eq_of_lt (by omega)]
  exact or_eq_add_of_lt b₀.toNat b₁.toNat 8 h₁

/-- Four bytes in their places, as a number. -/
private theorem or_bytes (a b c d : Nat) (hb : b < 256) (hc : c < 256) (hd : d < 256) :
    a * 16777216 ||| b * 65536 ||| c * 256 ||| d =
      a * 16777216 + b * 65536 + c * 256 + d := by
  -- one byte after another, from the highest on
  have e₁ := or_eq_add_of_lt a (b * 65536) 24 (by omega)
  have e₂ := or_eq_add_of_lt (a * 256 + b) (c * 256) 16 (by omega)
  have e₃ := or_eq_add_of_lt (a * 65536 + b * 256 + c) d 8 (by omega)
  simp only [Nat.reducePow, Nat.add_mul, Nat.mul_assoc, Nat.reduceMul] at e₁ e₂ e₃
  rw [e₁, e₂, e₃]

/-- Four bytes, as a number. -/
theorem ofBe32_toNat (b₀ b₁ b₂ b₃ : UInt8) :
    (ofBe32 b₀ b₁ b₂ b₃).toNat =
      b₀.toNat * 16777216 + b₁.toNat * 65536 + b₂.toNat * 256 + b₃.toNat := by
  have h₀ := b₀.toNat_lt
  have h₁ := b₁.toNat_lt
  have h₂ := b₂.toNat_lt
  have h₃ := b₃.toNat_lt
  simp only [ofBe32, UInt32.toNat_or, UInt32.toNat_shiftLeft, UInt8.toNat_toUInt32,
    UInt32.reduceToNat, Nat.shiftLeft_eq, Nat.reduceMod, Nat.reducePow]
  -- nothing is shifted out
  rw [Nat.mod_eq_of_lt (by omega), Nat.mod_eq_of_lt (by omega), Nat.mod_eq_of_lt (by omega)]
  exact or_bytes _ _ _ _ h₁ h₂ h₃

/-! ## Round trips -/

/-- A word is recovered from its two bytes. -/
theorem ofBe16_be16 (v : UInt16) : ofBe16 (v >>> 8).toUInt8 v.toUInt8 = v := by
  apply UInt16.toNat_inj.mp
  have hv := v.toNat_lt
  simp only [ofBe16_toNat, UInt16.toNat_toUInt8, UInt16.toNat_shiftRight,
    UInt16.reduceToNat, Nat.shiftRight_eq_div_pow, Nat.reduceMod, Nat.reducePow]
  omega

/-- Two bytes are those of the word they decode to. -/
theorem be16_ofBe16 (b₀ b₁ : UInt8) : be16 (ofBe16 b₀ b₁) = [b₀, b₁] := by
  have h := ofBe16_toNat b₀ b₁
  have h₀ := b₀.toNat_lt
  have h₁ := b₁.toNat_lt
  simp only [be16, List.cons.injEq, and_true]
  refine ⟨?_, ?_⟩ <;> apply UInt8.toNat_inj.mp <;>
    simp only [UInt16.toNat_toUInt8, UInt16.toNat_shiftRight, h, UInt16.reduceToNat,
      Nat.shiftRight_eq_div_pow, Nat.reduceMod, Nat.reducePow] <;> omega

/-- A word is recovered from its four bytes. -/
theorem ofBe32_be32 (v : UInt32) :
    ofBe32 (v >>> 24).toUInt8 (v >>> 16).toUInt8 (v >>> 8).toUInt8 v.toUInt8 = v := by
  apply UInt32.toNat_inj.mp
  have hv := v.toNat_lt
  simp only [ofBe32_toNat, UInt32.toNat_toUInt8, UInt32.toNat_shiftRight,
    UInt32.reduceToNat, Nat.shiftRight_eq_div_pow, Nat.reduceMod, Nat.reducePow]
  omega

/-- Four bytes are those of the word they decode to. -/
theorem be32_ofBe32 (b₀ b₁ b₂ b₃ : UInt8) :
    be32 (ofBe32 b₀ b₁ b₂ b₃) = [b₀, b₁, b₂, b₃] := by
  have h := ofBe32_toNat b₀ b₁ b₂ b₃
  have h₀ := b₀.toNat_lt
  have h₁ := b₁.toNat_lt
  have h₂ := b₂.toNat_lt
  have h₃ := b₃.toNat_lt
  simp only [be32, List.cons.injEq, and_true]
  refine ⟨?_, ?_, ?_, ?_⟩ <;> apply UInt8.toNat_inj.mp <;>
    simp only [UInt32.toNat_toUInt8, UInt32.toNat_shiftRight, h, UInt32.reduceToNat,
      Nat.shiftRight_eq_div_pow, Nat.reduceMod, Nat.reducePow] <;> omega

/-- Different words have different bytes. -/
theorem be16_injective : Function.Injective be16 := by
  intro v w h
  simp only [be16, List.cons.injEq, and_true] at h
  rw [← ofBe16_be16 v, h.1, h.2, ofBe16_be16]

/-- Different words have different bytes. -/
theorem be32_injective : Function.Injective be32 := by
  intro v w h
  simp only [be32, List.cons.injEq, and_true] at h
  rw [← ofBe32_be32 v, h.1, h.2.1, h.2.2.1, h.2.2.2, ofBe32_be32]

/-- Masking a byte with `0xFF` changes nothing. -/
@[simp] theorem and_255 (b : UInt8) : b &&& 255 = b := by
  apply UInt8.toNat_inj.mp
  have hb := b.toNat_lt
  have h := Nat.and_two_pow_sub_one_eq_mod b.toNat 8
  simp only [Nat.reducePow, Nat.reduceSub] at h
  simp only [UInt8.toNat_and, UInt8.reduceToNat, h]
  omega

/-! ## Words at an offset -/

/-- The number in the two bytes from `pos` on. -/
def u16At (data : Bytes) (pos : Nat) : Nat :=
  (ofBe16 (data.getD pos 0) (data.getD (pos + 1) 0)).toNat

/-- The number in the four bytes from `pos` on. -/
def u32At (data : Bytes) (pos : Nat) : Nat :=
  (ofBe32 (data.getD pos 0) (data.getD (pos + 1) 0) (data.getD (pos + 2) 0)
    (data.getD (pos + 3) 0)).toNat

/-- An offset in a suffix is a larger offset in the whole. -/
theorem u16At_drop (data : Bytes) (a pos : Nat) :
    u16At (data.drop a) pos = u16At data (a + pos) := by
  simp only [u16At, List.getD_eq_getElem?_getD, List.getElem?_drop, Nat.add_assoc]

/-- An offset in a suffix is a larger offset in the whole. -/
theorem u32At_drop (data : Bytes) (a pos : Nat) :
    u32At (data.drop a) pos = u32At data (a + pos) := by
  simp only [u32At, List.getD_eq_getElem?_getD, List.getElem?_drop, Nat.add_assoc]

/-- The word in front of the unread input. -/
theorem u16At_of_drop {data rest : Bytes} {pos : Nat} {v : UInt16}
    (h : data.drop pos = be16 v ++ rest) : u16At data pos = v.toNat := by
  have hdrop := u16At_drop data pos 0
  rw [h] at hdrop
  rw [Nat.add_zero] at hdrop
  rw [← hdrop]
  exact congrArg UInt16.toNat (ofBe16_be16 v)

/-- The word in front of the unread input. -/
theorem u32At_of_drop {data rest : Bytes} {pos : Nat} {v : UInt32}
    (h : data.drop pos = be32 v ++ rest) : u32At data pos = v.toNat := by
  have hdrop := u32At_drop data pos 0
  rw [h] at hdrop
  rw [Nat.add_zero] at hdrop
  rw [← hdrop]
  exact congrArg UInt32.toNat (ofBe32_be32 v)

/-- A word inside of the first of two byte strings. -/
theorem u32At_append {a b : Bytes} {pos : Nat} (h : pos + 4 ≤ a.length) :
    u32At (a ++ b) pos = u32At a pos := by
  unfold u32At
  rw [List.getD_append _ _ _ _ (by omega), List.getD_append _ _ _ _ (by omega),
    List.getD_append _ _ _ _ (by omega), List.getD_append _ _ _ _ (by omega)]

end BigEndian
