import Rpc.ForStd.BigEndian

/-!
# CRC-32 checksum

Model of `crc32_checksum` of `protocol/rpc_protocol.cpp`.  Its table and the flag
that says whether the table has been filled are static: a call takes them as the
last call left them and returns them.
-/

namespace Rpc

/-- The static variables of `crc32_checksum`. -/
structure Crc32Statics where
  table : Vector UInt32 256
  initialized : Bool
  deriving DecidableEq, Repr

/-- Before the first call. -/
def Crc32Statics.init : Crc32Statics :=
  { table := Vector.replicate 256 0, initialized := false }

/-- The polynomial, reflected. -/
def crc32Poly : UInt32 := 0xEDB88320

/-- `crc = (crc >> 1) ^ ((crc & 1) ? 0xEDB88320UL : 0)`. -/
def crc32Shift (crc : UInt32) : UInt32 :=
  (crc >>> 1) ^^^ (if crc &&& 1 ≠ 0 then crc32Poly else 0)

/-- The entry for `i`: eight turns of the inner loop. -/
def crc32Entry (i : UInt32) : UInt32 := crc32Shift^[8] i

/-- The loop that fills the table. -/
def crc32FillTable (table : Vector UInt32 256) : Vector UInt32 256 :=
  (List.finRange 256).foldl
    (fun table i => table.set i.val (crc32Entry (UInt32.ofNat i.val)) i.isLt) table

/-- `if (!initialized) ...`. -/
def Crc32Statics.initialize (st : Crc32Statics) : Crc32Statics :=
  if st.initialized then st else { table := crc32FillTable st.table, initialized := true }

/-- The table has an entry for every byte. -/
theorem crc32_index_lt (crc : UInt32) : (crc &&& 0xFF).toNat < 256 := by
  rw [UInt32.toNat_and]
  exact Nat.lt_of_le_of_lt Nat.and_le_right (by decide)

/-- One turn of the loop over the data. -/
def crc32Update (table : Vector UInt32 256) (crc : UInt32) (c : UInt8) : UInt32 :=
  table.get ⟨((crc ^^^ c.toUInt32) &&& 0xFF).toNat, crc32_index_lt _⟩ ^^^ (crc >>> 8)

/-- `crc32_checksum`. -/
def crc32Checksum (st : Crc32Statics) (data : Bytes) : UInt32 × Crc32Statics :=
  let st := st.initialize
  (data.foldl (crc32Update st.table) 0xFFFFFFFF ^^^ 0xFFFFFFFF, st)

/-- The static variables after some calls. -/
def Crc32Statics.after (calls : List Bytes) : Crc32Statics :=
  calls.foldl (fun st data => (crc32Checksum st data).2) .init

end Rpc
