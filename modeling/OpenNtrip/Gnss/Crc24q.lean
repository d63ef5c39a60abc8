import OpenNtrip.Rust.Std

/-!
# CRC-24Q

The frame check of RTCM 3, a byte at a time from a table that is generated from the
polynomial. Init 0, no reflection, no final XOR.
-/

namespace OpenNtrip

namespace Crc24q

def POLY : UInt32 := 0x1864CFB

/-- One bit of `build_table`'s inner loop. -/
def shiftBit (crc : UInt32) : UInt32 :=
  let crc := crc <<< 1
  if crc &&& 0x1000000 ≠ 0 then crc ^^^ POLY else crc

/-- The table entry of index `i`. -/
def tableEntry (i : Fin 256) : UInt32 :=
  Nat.repeat shiftBit 8 (UInt32.ofNat i <<< 16) &&& 0xFFFFFF

/-- `build_table`. -/
def buildTable : Vector UInt32 256 := Vector.ofFn tableEntry

def TABLE : Vector UInt32 256 := buildTable

theorem low_byte_lt (x : UInt32) : (x &&& 0xFF).toNat < 256 := by
  have hle : (x &&& 0xFF).toNat ≤ 255 := by
    rw [UInt32.toNat_and]
    exact Nat.and_le_right
  omega

/-- One byte of `crc24q`. -/
def step (crc : UInt32) (b : UInt8) : UInt32 :=
  let idx := ((crc >>> 16) ^^^ b.toUInt32) &&& 0xFF
  ((crc <<< 8) ^^^ TABLE.get ⟨idx.toNat, low_byte_lt _⟩) &&& 0xFFFFFF

end Crc24q

/-- `crc24q`: the CRC of `data`, in the low 24 bits. -/
def crc24q (data : Bytes) : UInt32 := data.foldl Crc24q.step 0

theorem crc24q_lt (data : Bytes) : (crc24q data).toNat < 2 ^ 24 := by
  have hstep : ∀ crc b, (Crc24q.step crc b).toNat < 2 ^ 24 := by
    intro crc b
    have hle : (Crc24q.step crc b).toNat ≤ 0xFFFFFF := by
      rw [Crc24q.step, UInt32.toNat_and]
      exact Nat.and_le_right
    omega
  have hfold : ∀ (bytes : Bytes) (crc : UInt32), crc.toNat < 2 ^ 24 →
      (bytes.foldl Crc24q.step crc).toNat < 2 ^ 24 := by
    intro bytes
    induction bytes with
    | nil => exact fun crc h => h
    | cons b rest ih => exact fun crc _ => ih _ (hstep crc b)
  exact hfold data 0 (by decide)

example : crc24q (ascii "123456789") = 0xCDE703 := by decide +kernel

end OpenNtrip
