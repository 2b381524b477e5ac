import Rpc.ForStd.Crc
import Rpc.Native.Checksum

/-!
# The checksum is CRC-32/ISO-HDLC

`crc32Reference` feeds the bits of the data one by one, least significant first,
as the definition of CRC-32/ISO-HDLC does; it names no table.  `crc32Checksum`
computes the same value, whatever calls came before, and tells apart any two
strings that differ within 32 consecutive bits.
-/

namespace Rpc

/-- Bit `i` of a byte string, the least significant bit of a byte first. -/
def bitAt (data : Bytes) (i : Nat) : Bool := (data.getD (i / 8) 0).toBitVec.getLsbD (i % 8)

/-- The bits of a byte, from the least significant one up. -/
def byteBits (c : UInt8) : List Bool := (List.range 8).map c.toBitVec.getLsbD

/-- The bits of a byte string. -/
def bitsOf (data : Bytes) : List Bool := data.flatMap byteBits

/-- One bit of the definition: it goes into the low bit of the register, which is shifted. -/
def crc32Bit (crc : UInt32) (b : Bool) : UInt32 :=
  let crc := crc ^^^ (if b then 1 else 0)
  if crc &&& 1 = 1 then (crc >>> 1) ^^^ 0xEDB88320 else crc >>> 1

/-- CRC-32/ISO-HDLC, bit by bit. -/
def crc32Reference (data : Bytes) : UInt32 :=
  ~~~((bitsOf data).foldl crc32Bit 0xFFFFFFFF)

/-! ## Registers as bit vectors -/

/-- `crc & 1` is the lowest bit. -/
theorem uint32_and_one (crc : UInt32) : crc &&& 1 = if crc.toBitVec.getLsbD 0 then 1 else 0 := by
  apply UInt32.toBitVec_inj.mp
  rw [UInt32.toBitVec_and]
  change crc.toBitVec &&& 1#32 = _
  rw [BitVec.and_one_eq_setWidth_ofBool_getLsbD]
  cases crc.toBitVec.getLsbD 0 <;> rfl

/-- One turn of the loop that makes an entry is a shift of the register. -/
theorem crc32Shift_toBitVec (crc : UInt32) :
    (crc32Shift crc).toBitVec = Crc.shift crc32Poly.toBitVec crc.toBitVec := by
  unfold crc32Shift Crc.shift
  rw [uint32_and_one]
  cases crc.toBitVec.getLsbD 0 <;> simp

/-- One bit of the definition is one bit fed to the register. -/
theorem crc32Bit_toBitVec (crc : UInt32) (b : Bool) :
    (crc32Bit crc b).toBitVec = Crc.feed crc32Poly.toBitVec crc.toBitVec b := by
  -- the bit goes in first
  have hbit : (crc ^^^ (if b then 1 else 0)).toBitVec = crc.toBitVec ^^^ Crc.bit b := by
    cases b <;> simp [Crc.bit]
  simp only [crc32Bit, Crc.feed, Crc.shift, uint32_and_one, hbit]
  cases (crc.toBitVec ^^^ Crc.bit b).getLsbD 0 <;> simp [hbit, crc32Poly]

/-- All bits of the definition, one after the other. -/
theorem foldl_crc32Bit_toBitVec (bits : List Bool) (crc : UInt32) :
    (bits.foldl crc32Bit crc).toBitVec =
      Crc.feedBits crc32Poly.toBitVec crc.toBitVec bits := by
  induction bits generalizing crc with
  | nil => rfl
  | cons b bits ih => rw [List.foldl_cons, ih, crc32Bit_toBitVec, Crc.feedBits_cons]

/-- An entry of the table is what eight shifts make of its index. -/
theorem crc32Entry_toBitVec (i : UInt32) :
    (crc32Entry i).toBitVec = (Crc.shift crc32Poly.toBitVec)^[8] i.toBitVec :=
  Function.Semiconj.iterate_right (f := UInt32.toBitVec) crc32Shift_toBitVec 8 i

/-! ## The table -/

/-- The two ways to write an entry. -/
theorem vector_get {n : Nat} (v : Vector UInt32 n) (i : Fin n) : v.get i = v[i.val] := rfl

/-- After its loop the table has every entry it was run for, and those it had before. -/
theorem foldl_set_get (is : List (Fin 256)) (table : Vector UInt32 256) (j : Fin 256)
    (h : j ∈ is ∨ table.get j = crc32Entry (UInt32.ofNat j.val)) :
    (is.foldl (fun table i => table.set i.val (crc32Entry (UInt32.ofNat i.val)) i.isLt)
      table).get j = crc32Entry (UInt32.ofNat j.val) := by
  induction is generalizing table with
  | nil => exact h.resolve_left List.not_mem_nil
  | cons i is ih =>
    rw [List.foldl_cons]
    apply ih
    obtain rfl | hij := eq_or_ne j i
    -- the entry that this turn sets
    · right
      simp [vector_get]
    -- the turn sets another entry
    · have hne : i.val ≠ j.val := fun heq => hij (Fin.ext heq.symm)
      obtain hmem | hget := h
      · exact .inl ((List.mem_cons.mp hmem).resolve_left hij)
      · right
        rw [vector_get] at hget ⊢
        simp [hne, hget]

/-- The loop is run for all 256 entries. -/
theorem crc32FillTable_get (table : Vector UInt32 256) (i : Fin 256) :
    (crc32FillTable table).get i = crc32Entry (UInt32.ofNat i.val) := by
  unfold crc32FillTable
  exact foldl_set_get _ table i (.inl (List.mem_finRange i))

/-- Every call finds or leaves the full table. -/
def Crc32Statics.Valid (st : Crc32Statics) : Prop :=
  st.initialized = true → ∀ i : Fin 256, st.table.get i = crc32Entry (UInt32.ofNat i.val)

/-- After `initialize` the table is full, whether it was before or not. -/
theorem Crc32Statics.initialize_get {st : Crc32Statics} (h : st.Valid) (i : Fin 256) :
    st.initialize.table.get i = crc32Entry (UInt32.ofNat i.val) := by
  unfold Crc32Statics.initialize
  split
  · rename_i hinit
    -- an earlier call has filled it
    exact h hinit i
  · simp only [crc32FillTable_get]

/-- Before the first call nothing is claimed about the table. -/
theorem Crc32Statics.init_valid : Crc32Statics.init.Valid := by
  intro hinit
  simp [Crc32Statics.init] at hinit

/-- No call spoils the table for the next one. -/
theorem Crc32Statics.foldl_valid (calls : List Bytes) {st : Crc32Statics} (h : st.Valid) :
    (calls.foldl (fun st data => (crc32Checksum st data).2) st).Valid := by
  induction calls generalizing st with
  | nil => exact h
  | cons data calls ih =>
    rw [List.foldl_cons]
    apply ih
    intro _
    exact Crc32Statics.initialize_get h

/-- However often the function was called before, the table is full or will be. -/
theorem Crc32Statics.after_valid (calls : List Bytes) : (Crc32Statics.after calls).Valid := by
  unfold Crc32Statics.after
  exact Crc32Statics.foldl_valid calls Crc32Statics.init_valid

/-! ## Bytes -/

/-- A byte has eight bits. -/
theorem byteBits_length (c : UInt8) : (byteBits c).length = 8 := by
  simp [byteBits]

/-- The bits of a byte, put together again. -/
theorem word_byteBits (c : UInt8) : Crc.word (byteBits c) = c.toUInt32.toBitVec := by
  apply BitVec.eq_of_getLsbD_eq
  intro i hi
  rw [Crc.getLsbD_word, UInt8.toBitVec_toUInt32, BitVec.getLsbD_setWidth]
  congr 1
  -- above the byte all bits are zero
  by_cases h : i < 8
  · simp [byteBits, h]
  · simp [byteBits, h, BitVec.getLsbD_of_ge c.toBitVec i (by omega)]

/-- `crc & 0xFF` are the lowest eight bits. -/
theorem low_toBitVec (crc : UInt32) : (crc &&& 0xFF).toBitVec = Crc.low 8 crc.toBitVec := by
  apply BitVec.eq_of_getLsbD_eq
  intro i hi
  rw [Crc.getLsbD_low, UInt32.toBitVec_and, BitVec.getLsbD_and, Bool.and_comm]
  congr 1
  change (BitVec.ofNat 32 (2 ^ 8 - 1)).getLsbD i = _
  rw [BitVec.getLsbD_ofNat, Nat.testBit_two_pow_sub_one]
  simp [hi]

/-- With the full table, one turn of the loop feeds the eight bits of a byte. -/
theorem crc32Update_toBitVec {table : Vector UInt32 256}
    (h : ∀ i : Fin 256, table.get i = crc32Entry (UInt32.ofNat i.val)) (crc : UInt32) (c : UInt8) :
    (crc32Update table crc c).toBitVec =
      Crc.feedBits crc32Poly.toBitVec crc.toBitVec (byteBits c) := by
  -- the byte does not reach the bits that move down
  have hhigh : (crc ^^^ c.toUInt32).toBitVec >>> 8 = crc.toBitVec >>> 8 := by
    apply BitVec.eq_of_getLsbD_eq
    intro i hi
    simp
  -- the entry is eight shifts of the low byte, and shifting is linear
  calc (crc32Update table crc c).toBitVec
      = (Crc.shift crc32Poly.toBitVec)^[8] (Crc.low 8 (crc ^^^ c.toUInt32).toBitVec) ^^^
          crc.toBitVec >>> 8 := by
        rw [crc32Update, h, UInt32.toBitVec_xor, crc32Entry_toBitVec, UInt32.ofNat_toNat,
          low_toBitVec]
        rfl
    _ = (Crc.shift crc32Poly.toBitVec)^[8] (crc ^^^ c.toUInt32).toBitVec := by
        rw [Crc.iterate_shift_split _ (crc ^^^ c.toUInt32).toBitVec 8, hhigh]
    _ = Crc.feedBits crc32Poly.toBitVec crc.toBitVec (byteBits c) := by
        rw [Crc.feedBits_eq_iterate_shift _ _ _ (by rw [byteBits_length]; omega),
          byteBits_length, word_byteBits, UInt32.toBitVec_xor]

/-- The loop over the data feeds all its bits. -/
theorem foldl_crc32Update_toBitVec {table : Vector UInt32 256}
    (h : ∀ i : Fin 256, table.get i = crc32Entry (UInt32.ofNat i.val)) (data : Bytes)
    (crc : UInt32) :
    (data.foldl (crc32Update table) crc).toBitVec =
      Crc.feedBits crc32Poly.toBitVec crc.toBitVec (bitsOf data) := by
  induction data generalizing crc with
  | nil => rfl
  | cons c data ih =>
    rw [List.foldl_cons, ih, crc32Update_toBitVec h, ← Crc.feedBits_append]
    rfl

/-- The checksum, as a register that is fed the bits of the data. -/
theorem crc32Checksum_toBitVec (calls : List Bytes) (data : Bytes) :
    (crc32Checksum (.after calls) data).1.toBitVec =
      Crc.feedBits crc32Poly.toBitVec (BitVec.allOnes 32) (bitsOf data) ^^^ BitVec.allOnes 32 := by
  unfold crc32Checksum
  rw [UInt32.toBitVec_xor, foldl_crc32Update_toBitVec
    (Crc32Statics.initialize_get (Crc32Statics.after_valid calls))]
  rfl

/-! ## The definition -/

/-- `crc32_checksum` is CRC-32/ISO-HDLC, in whatever order it is called. -/
theorem crc32Checksum_eq_reference (calls : List Bytes) (data : Bytes) :
    (crc32Checksum (.after calls) data).1 = crc32Reference data := by
  apply UInt32.toBitVec_inj.mp
  rw [crc32Checksum_toBitVec, crc32Reference, UInt32.toBitVec_not, foldl_crc32Bit_toBitVec,
    BitVec.xor_allOnes]
  rfl

-- the check value of CRC-32/ISO-HDLC
example : crc32Reference (Bytes.ofString "123456789") = 0xCBF43926 := by decide +kernel

/-! ## Bursts -/

/-- Eight bits for each byte. -/
theorem bitsOf_length (data : Bytes) : (bitsOf data).length = 8 * data.length := by
  induction data with
  | nil => rfl
  | cons c data ih =>
    have hcons : bitsOf (c :: data) = byteBits c ++ bitsOf data := rfl
    rw [hcons, List.length_append, byteBits_length, ih, List.length_cons]
    omega

/-- Bit `i` of the list is bit `i` of the string. -/
theorem bitsOf_getElem? (data : Bytes) (i : Nat) (h : i < 8 * data.length) :
    (bitsOf data)[i]? = some (bitAt data i) := by
  induction data generalizing i with
  | nil => simp at h
  | cons c data ih =>
    have hcons : bitsOf (c :: data) = byteBits c ++ bitsOf data := rfl
    rw [List.length_cons] at h
    by_cases hi : i < 8
    -- a bit of the first byte
    · rw [hcons, List.getElem?_append_left (by rw [byteBits_length]; exact hi)]
      simp [byteBits, bitAt, hi, Nat.div_eq_of_lt hi, Nat.mod_eq_of_lt hi]
    -- a bit of the bytes after it
    · obtain ⟨j, rfl⟩ : ∃ j, i = j + 8 := ⟨i - 8, by omega⟩
      rw [hcons, List.getElem?_append_right (by rw [byteBits_length]; omega), byteBits_length,
        Nat.add_sub_cancel, ih j (by omega)]
      simp [bitAt]

/-- Byte strings with the same bits are equal. -/
theorem eq_of_bitAt_eq {a b : Bytes} (hlen : a.length = b.length)
    (h : ∀ i, i < 8 * a.length → bitAt a i = bitAt b i) : a = b := by
  apply List.ext_getElem hlen
  intro j ha hb
  apply UInt8.toBitVec_inj.mp
  apply BitVec.eq_of_getLsbD_eq
  intro k hk
  have hbit := h (8 * j + k) (by omega)
  have hdiv : (8 * j + k) / 8 = j := by omega
  have hmod : (8 * j + k) % 8 = k := by omega
  simpa [bitAt, hdiv, hmod, ha, hb] using hbit

/-- The places where two byte strings of one length differ, as bits. -/
theorem zipWith_xor_getElem? {a b : Bytes} (hlen : a.length = b.length) {i : Nat}
    (h : i < 8 * a.length) :
    (List.zipWith Bool.xor (bitsOf a) (bitsOf b))[i]? = some (bitAt a i ^^ bitAt b i) := by
  rw [List.getElem?_zipWith, bitsOf_getElem? a i h, bitsOf_getElem? b i (by omega)]

/-- Two strings of one length that differ, and only within 32 consecutive bits, have different
    checksums. -/
theorem crc32Checksum_burst_ne (callsA callsB : List Bytes) (a b : Bytes)
    (hlen : a.length = b.length) (hne : a ≠ b) (start : Nat)
    (hwin : ∀ i, bitAt a i ≠ bitAt b i → start ≤ i ∧ i < start + 32) :
    (crc32Checksum (.after callsA) a).1 ≠ (crc32Checksum (.after callsB) b).1 := by
  intro heq
  have hlenBits : (bitsOf a).length = (bitsOf b).length := by
    rw [bitsOf_length, bitsOf_length, hlen]
  -- the difference of the two strings is zero outside of the window
  have hplace : ∀ i, (List.zipWith Bool.xor (bitsOf a) (bitsOf b))[i]? = some true →
      start ≤ i ∧ i < start + 32 := by
    intro i hi
    have hbound : i < 8 * a.length := by
      have := (List.getElem?_eq_some_iff.mp hi).1
      rw [List.length_zipWith, bitsOf_length, bitsOf_length] at this
      omega
    apply hwin
    rw [zipWith_xor_getElem? hlen hbound] at hi
    simpa using hi
  -- and not zero everywhere
  have hdiffer : true ∈ List.zipWith Bool.xor (bitsOf a) (bitsOf b) := by
    by_contra hall
    apply hne
    apply eq_of_bitAt_eq hlen
    intro i hi
    by_contra hbit
    apply hall
    apply List.mem_of_getElem? (i := i)
    rw [zipWith_xor_getElem? hlen hi]
    simpa using hbit
  apply Crc.feedBits_window_ne_zero crc32Poly.toBitVec (by decide) start hplace hdiffer
  -- the registers of the two strings are equal, so their difference is zero
  have hreg := congrArg UInt32.toBitVec heq
  rw [crc32Checksum_toBitVec, crc32Checksum_toBitVec, BitVec.xor_left_inj] at hreg
  have hdiff := Crc.feedBits_xor crc32Poly.toBitVec _ _ (BitVec.allOnes 32) (BitVec.allOnes 32)
    hlenBits
  rw [hreg, BitVec.xor_self, BitVec.xor_self] at hdiff
  exact hdiff.symm

/-- A burst that turns all bits from the middle of the fourth byte to the middle of the eighth. -/
theorem crc32Checksum_burst_ne_inside :
    (crc32Checksum (.after []) [1, 2, 3, 0x04, 0x05, 0x06, 0x07, 0x08, 9, 10]).1 ≠
      (crc32Checksum (.after [[0x61]]) [1, 2, 3, 0xF4, 0xFA, 0xF9, 0xF8, 0x07, 9, 10]).1 := by
  refine crc32Checksum_burst_ne [] [[0x61]] _ _ rfl (by decide) 28 fun i hi => ?_
  have hinside : ∀ i < 80,
      bitAt [1, 2, 3, 0x04, 0x05, 0x06, 0x07, 0x08, 9, 10] i ≠
        bitAt [1, 2, 3, 0xF4, 0xFA, 0xF9, 0xF8, 0x07, 9, 10] i → 28 ≤ i ∧ i < 28 + 32 := by
    decide
  apply hinside i _ hi
  -- beyond the strings there are no bits
  by_contra hout
  obtain ⟨j, hj⟩ : ∃ j, i / 8 = 10 + j := ⟨i / 8 - 10, by omega⟩
  exact hi (by simp [bitAt, hj])

end Rpc
