import OpenNtrip.Lib.Bits
import OpenNtrip.Lib.Checked
import OpenNtrip.Lib.SizedParser
import OpenNtrip.Rust.Std

/-!
# The bit reader

`BitReader` of `rtcm/decode.rs`, a cursor over the bits of a payload. A byte that is indexed has to
exist. `Implements` says that a reader never faults and reads what a parser of bits reads.
-/

namespace OpenNtrip

/-- The payload and the position of the next bit. -/
structure BitReader where
  data : Bytes
  pos : Nat
  deriving DecidableEq, Repr

namespace BitReader

/-- What reads from the cursor, and comes to nothing past the end. -/
abbrev Reader (α : Type) : Type := StateT BitReader Reads α

def new (data : Bytes) : BitReader := { data, pos := 0 }

/-- `(self.data[p >> 3] >> (7 - (p & 7))) & 1`. -/
def bitAt (data : Bytes) (p : Nat) : Checked UInt64 :=
  match data[p >>> 3]? with
  | some b => .ok ((b >>> UInt8.ofNat (7 - (p &&& 7))) &&& 1).toUInt64
  | none => .error .outOfRange

/-- The loop of `read_u`: the next `n` bits from `p` on, behind the bits of `v`. -/
def readBits (data : Bytes) : Nat → Nat → UInt64 → Checked UInt64
  | 0, _, v => .ok v
  | n + 1, p, v => do
    let bit ← bitAt data p
    readBits data n (p + 1) ((v <<< 1) ||| bit)

def readU (bits : Nat) : Reader UInt64 := fun r => do
  let stop := r.pos + bits
  if stop > r.data.length * 8 then Reads.total none
  else
    let v ← Reads.checked (readBits r.data bits r.pos 0)
    return (v, { r with pos := stop })

/-- Shift the sign bit to bit 63, then arithmetic-shift back down. -/
def signExtend (bits : Nat) (v : UInt64) : Int64 :=
  let shift := 64 - bits
  (v <<< UInt64.ofNat shift).toInt64 >>> Int64.ofNat shift

def readS (bits : Nat) : Reader Int64 := do
  let v ← readU bits
  return signExtend bits v

def skip (bits : Nat) : Reader Unit := fun r =>
  let stop := r.pos + bits
  if stop > r.data.length * 8 then Reads.total none
  else Reads.total (some ((), { r with pos := stop }))

/-- The loop of `read_string`. -/
def readBytes : Nat → Reader Bytes
  | 0 => return []
  | len + 1 => do
    let b ← readU 8
    let rest ← readBytes len
    return b.toUInt8 :: rest

def readString (len : Nat) : Reader Text := do
  let bytes ← readBytes len
  return fromUtf8Lossy bytes

def readCountedString : Reader (Option Text) := do
  let n ← readU 8
  if n = 0 then return none
  else
    let s ← readString n.toNat
    return some s

/-! ## Reading bits -/

/-- The bits from the position on. -/
def rest (r : BitReader) : List Bool := (Bits.ofBytes r.data).drop r.pos

/-- The position is at most the end. -/
def InRange (r : BitReader) : Prop := r.pos ≤ 8 * r.data.length

/-- As many bits are ahead as the data has behind the position. -/
theorem length_rest (r : BitReader) : r.rest.length = 8 * r.data.length - r.pos := by
  rw [rest, List.length_drop, Bits.length_of_bytes]

/-- The reader never faults, and reads and takes what the parser does. -/
def Implements {α : Type} (m : Reader α) (p : SizedParser Bool α) : Prop :=
  ∀ r : BitReader, r.InRange → m r =
    Reads.total ((p.run r.rest).map fun (a, _) => (a, { r with pos := r.pos + p.size r.rest }))

/-- A bit of a byte, shifted down and masked, is zero or one. -/
theorem byte_bit : ∀ (b : BitVec 8) (i : Fin 8),
    (((UInt8.ofBitVec b >>> UInt8.ofNat i) &&& 1).toUInt64).toNat = (b.toNat.testBit i).toNat := by
  decide +kernel

/-- The bit at a position in range. -/
theorem bit_at_eq {data : Bytes} {p : Nat} (h : p < 8 * data.length) :
    ∃ bit, (Bits.ofBytes data)[p]? = some bit ∧
      bitAt data p = .ok (UInt64.ofNat bit.toNat) := by
  have hindex : p / 8 < data.length := by omega
  obtain ⟨b, hb⟩ : ∃ b, data[p / 8]? = some b := ⟨_, List.getElem?_eq_getElem hindex⟩
  refine ⟨b.toNat.testBit (7 - p % 8), ?_, ?_⟩
  · rw [Bits.get_of_bytes, hb]
    rfl
  · have hshift : p >>> 3 = p / 8 := Nat.shiftRight_eq_div_pow p 3
    have hmask : p &&& 7 = p % 8 := Nat.and_two_pow_sub_one_eq_mod p 3
    have hbit := byte_bit b.toBitVec ⟨7 - p % 8, by omega⟩
    rw [bitAt, hshift, hb]
    simp only
    congr 1
    rw [hmask]
    apply UInt64.toNat_inj.mp
    refine hbit.trans ?_
    rw [UInt64.toNat_ofNat']
    exact (Nat.mod_eq_of_lt (Nat.lt_of_le_of_lt (Bool.toNat_le _) (by omega))).symm

/-- One more bit behind the bits read. -/
theorem shift_or_bit (n : Nat) (bit : Bool) :
    (UInt64.ofNat n <<< 1) ||| UInt64.ofNat bit.toNat = UInt64.ofNat (2 * n + bit.toNat) := by
  have hbit : bit.toNat < 2 ^ 1 := Nat.lt_succ_of_le bit.toNat_le
  apply UInt64.toNat_inj.mp
  rw [UInt64.toNat_or, UInt64.toNat_shiftLeft, UInt64.toNat_ofNat', UInt64.toNat_ofNat',
    UInt64.toNat_ofNat', Nat.mod_eq_of_lt (show bit.toNat < 2 ^ 64 by omega)]
  show (n % 2 ^ 64) <<< 1 % 2 ^ 64 ||| bit.toNat = (2 * n + bit.toNat) % 2 ^ 64
  have heven : (n % 2 ^ 64) <<< 1 % 2 ^ 64 = (n % 2 ^ 63) <<< 1 := by
    rw [Nat.shiftLeft_eq, Nat.shiftLeft_eq]
    omega
  rw [heven, ← Nat.shiftLeft_add_eq_or_of_lt hbit, Nat.shiftLeft_eq]
  omega

/-- The loop reads the bits as a number. -/
theorem read_bits_eq {data : Bytes} {n p : Nat} (h : p + n ≤ 8 * data.length) (v : Nat) :
    readBits data n p (UInt64.ofNat v) =
      .ok (UInt64.ofNat (2 ^ n * v + Bits.toNat (((Bits.ofBytes data).drop p).take n))) := by
  induction n generalizing p v with
  | zero =>
      rw [readBits, List.take_zero, Nat.pow_zero, Nat.one_mul]
      rfl
  | succ n ih =>
      obtain ⟨bit, hget, hbit⟩ := bit_at_eq (show p < 8 * data.length by omega)
      have hdrop : (Bits.ofBytes data).drop p = bit :: (Bits.ofBytes data).drop (p + 1) := by
        obtain ⟨hlt, heq⟩ := List.getElem?_eq_some_iff.mp hget
        rw [← heq]
        exact List.drop_eq_getElem_cons hlt
      have hlen : (((Bits.ofBytes data).drop (p + 1)).take n).length = n := by
        rw [List.length_take, List.length_drop, Bits.length_of_bytes]
        omega
      rw [readBits, hbit, Checked.ok_bind, shift_or_bit, ih (by omega), hdrop, List.take_succ_cons,
        Bits.to_nat_cons, hlen]
      congr 2
      ring

/-! ## The parsers -/

open SizedParser

/-- An unsigned number of some bits. -/
def number (bits : Nat) : SizedParser Bool UInt64 :=
  take bits fun taken => UInt64.ofNat (Bits.toNat taken)

/-- A signed number of some bits. -/
def signed (bits : Nat) : SizedParser Bool Int64 := map (signExtend bits) (number bits)

/-- Bits that are not read. -/
def skipped (bits : Nat) : SizedParser Bool Unit := take bits fun _ => ()

/-- A number of bytes. -/
def bytes : Nat → SizedParser Bool Bytes
  | 0 => pure []
  | len + 1 => (number 8).bind fun b => map (b.toUInt8 :: ·) (bytes len)

/-- A text of a number of bytes. -/
def text (len : Nat) : SizedParser Bool Text := map fromUtf8Lossy (bytes len)

/-- A text behind its length, which is absent if it is empty. -/
def countedText : SizedParser Bool (Option Text) :=
  (number 8).bind fun n => if n = 0 then pure none else map some (text n.toNat)

variable {α β : Type}

/-- What reads nothing yields its value. -/
theorem implements_pure (a : α) : Implements (Pure.pure a) (pure a) := fun _ _ => rfl

/-- The cursor behind what a parser takes. -/
theorem rest_advance (r : BitReader) (n : Nat) :
    ({ r with pos := r.pos + n } : BitReader).rest = r.rest.drop n := by
  rw [rest, rest, List.drop_drop]

/-- Readers in a row are parsers in a row. -/
theorem Implements.bind {m : Reader α} {f : α → Reader β} {p : SizedParser Bool α}
    {g : α → SizedParser Bool β} (hm : Implements m p) (hf : ∀ a, Implements (f a) (g a)) :
    Implements (m >>= f) (p.bind g) := by
  intro r hr
  have hbind : (m >>= f) r = (m r >>= fun found => f found.1 found.2) := rfl
  rw [hbind, hm r hr, run_bind]
  by_cases hsize : p.size r.rest ≤ r.rest.length
  · have hrun : p.run r.rest = some (p.value r.rest, r.rest.drop (p.size r.rest)) := if_pos hsize
    rw [hrun, Option.map_some, Reads.total_some_bind, Option.bind_some]
    have hnext : InRange { r with pos := r.pos + p.size r.rest } := by
      rw [length_rest] at hsize
      have hpos : r.pos ≤ 8 * r.data.length := hr
      show r.pos + p.size r.rest ≤ 8 * r.data.length
      omega
    rw [hf _ _ hnext, rest_advance, size_bind, Nat.add_assoc]
  · have hrun : p.run r.rest = none := if_neg hsize
    rw [hrun]
    rfl

/-- A reader whose value is changed is the parser with the value changed. -/
theorem Implements.map {m : Reader α} {p : SizedParser Bool α} (hm : Implements m p)
    (f : α → β) : Implements (do return f (← m)) (SizedParser.map f p) := by
  intro r hr
  have hbind : (do return f (← m) : Reader β) r =
      (m r >>= fun found => Reads.total (some (f found.1, found.2))) := rfl
  rw [hbind, hm r hr, run_map]
  cases p.run r.rest with
  | none => rfl
  | some found => rfl

/-- A range that ends behind the payload. -/
theorem beyond_iff {r : BitReader} (hr : r.InRange) (bits : Nat) :
    r.pos + bits > r.data.length * 8 ↔ ¬ bits ≤ r.rest.length := by
  have hpos : r.pos ≤ 8 * r.data.length := hr
  rw [length_rest]
  omega

/-- `read_u` reads an unsigned field. -/
theorem implements_read_u (bits : Nat) : Implements (readU bits) (number bits) := by
  intro r hr
  have hread : readU bits r = if r.pos + bits > r.data.length * 8 then Reads.total none
      else (Reads.checked (readBits r.data bits r.pos 0) >>= fun v =>
        return (v, { r with pos := r.pos + bits })) := rfl
  rw [hread, number, run_take]
  by_cases h : bits ≤ r.rest.length
  · rw [if_neg (by rwa [beyond_iff hr, not_not]), if_pos h, size_take]
    have hstop : r.pos + bits ≤ 8 * r.data.length := by
      have hpos : r.pos ≤ 8 * r.data.length := hr
      rw [length_rest] at h
      omega
    have hloop := read_bits_eq hstop 0
    rw [Nat.mul_zero, Nat.zero_add] at hloop
    have hzero : (0 : UInt64) = UInt64.ofNat 0 := rfl
    rw [hzero, hloop]
    rfl
  · rw [if_pos ((beyond_iff hr bits).mpr h), if_neg h]
    rfl

/-- `read_s` reads a signed field. -/
theorem implements_read_s (bits : Nat) : Implements (readS bits) (signed bits) :=
  (implements_read_u bits).map (signExtend bits)

/-- `skip` passes over a field. -/
theorem implements_skip (bits : Nat) : Implements (skip bits) (skipped bits) := by
  intro r hr
  have hskip : skip bits r = if r.pos + bits > r.data.length * 8 then Reads.total none
      else Reads.total (some ((), { r with pos := r.pos + bits })) := rfl
  rw [hskip, skipped, run_take]
  by_cases h : bits ≤ r.rest.length
  · rw [if_neg (by rwa [beyond_iff hr, not_not]), if_pos h]
    rfl
  · rw [if_pos ((beyond_iff hr bits).mpr h), if_neg h]
    rfl

/-- `read_bytes` reads bytes. -/
theorem implements_read_bytes (len : Nat) : Implements (readBytes len) (bytes len) := by
  induction len with
  | zero => exact implements_pure []
  | succ len ih => exact (implements_read_u 8).bind fun b => ih.map (b.toUInt8 :: ·)

/-- `read_string` reads bytes and decodes them, with replacements where they are no UTF-8. -/
theorem implements_read_string (len : Nat) : Implements (readString len) (text len) :=
  (implements_read_bytes len).map fromUtf8Lossy

/-- A counted string is read as its length and as many bytes. -/
theorem implements_read_counted_string : Implements readCountedString countedText := by
  refine (implements_read_u 8).bind fun n => ?_
  split
  · exact implements_pure none
  · exact (implements_read_string n.toNat).map some

/-! ## Positions -/

/-- The number in the bits from a position on, of those that are there. -/
def fieldAt (payload : Bytes) (pos width : Nat) : Nat :=
  Bits.toNat (((Bits.ofBytes payload).drop pos).take width)

/-- The position behind a text that starts with the number of its bytes. -/
def countedStop (payload : Bytes) (pos : Nat) : Nat := pos + 8 + 8 * fieldAt payload pos 8

/-- A field of a payload is below the bound of its width. -/
theorem field_at_lt (payload : Bytes) (pos width : Nat) :
    fieldAt payload pos width < 2 ^ width := by
  refine Nat.lt_of_lt_of_le (Bits.to_nat_lt _) (Nat.pow_le_pow_right (by omega) ?_)
  rw [List.length_take]
  exact Nat.min_le_left _ _

section Positions

variable (payload : Bytes) (k : Nat)

/-- An unsigned parser yields the field at its place. -/
theorem value_number {width : Nat} (h : width ≤ 64) :
    ((number width).value ((Bits.ofBytes payload).drop k)).toNat = fieldAt payload k width := by
  have hlt := field_at_lt payload k width
  have hpow : 2 ^ width ≤ 2 ^ 64 := Nat.pow_le_pow_right (by omega) h
  show (UInt64.ofNat (fieldAt payload k width)).toNat = _
  rw [UInt64.toNat_ofNat']
  exact Nat.mod_eq_of_lt (by omega)

/-- An unsigned field stops behind its width. -/
theorem stop_number (width : Nat) :
    (number width).stop (Bits.ofBytes payload) k = k + width := rfl

theorem stop_signed (width : Nat) :
    (signed width).stop (Bits.ofBytes payload) k = k + width := rfl

theorem stop_skipped (width : Nat) :
    (skipped width).stop (Bits.ofBytes payload) k = k + width := rfl

/-- As many bits are taken as the bytes have. -/
theorem size_bytes (len : Nat) (input : List Bool) : (bytes len).size input = 8 * len := by
  induction len generalizing input with
  | zero => rfl
  | succ len ih =>
      rw [bytes, size_bind, size_map, ih, number, size_take]
      omega

theorem stop_text (len : Nat) : (text len).stop (Bits.ofBytes payload) k = k + 8 * len := by
  rw [text, stop_map, stop, size_bytes]

/-- A counted string stops behind the bytes that its length announces. -/
theorem stop_counted_text :
    countedText.stop (Bits.ofBytes payload) k = countedStop payload k := by
  rw [countedText, stop_bind, stop_number, countedStop, ← value_number payload k (by omega)]
  split
  · next hzero =>
      rw [hzero]
      rfl
  · rw [stop_map, stop_text]

end Positions

/-! ## Reading back what is written -/

/-- A number that fits a field is read back from its bits. -/
theorem gives_number {width n : Nat} (h : n < 2 ^ width) :
    (number width).Gives (Bits.ofNat width n) (UInt64.ofNat n) := by
  have htake := gives_take (fun taken => UInt64.ofNat (Bits.toNat taken)) (Bits.ofNat width n)
  rw [Bits.length_of_nat, Bits.to_nat_of_lt h] at htake
  exact htake

theorem gives_skipped {width : Nat} {input : List Bool} (h : input.length = width) :
    (skipped width).Gives input () := ⟨h.symm, rfl⟩

/-- The sign bit goes to bit 63 and back. -/
theorem sign_extend_eq {width : Nat} (hpos : 0 < width) (hle : width ≤ 64) (x : BitVec width) :
    signExtend width (UInt64.ofNat x.toNat) = Int64.ofInt x.toInt := by
  have hshifts : ∀ s : Fin 64, (BitVec.ofNat 64 s).smod 64 = BitVec.ofNat 64 s ∧
      BitVec.ofNat 64 s % 64 = BitVec.ofNat 64 s := by decide
  obtain ⟨hsmod, hmod⟩ := hshifts ⟨64 - width, by omega⟩
  have hshift : (BitVec.ofNat 64 (64 - width)).toNat = 64 - width := by
    rw [BitVec.toNat_ofNat]
    omega
  have hvalue : (UInt64.ofNat x.toNat).toBitVec = x.setWidth 64 := by
    apply BitVec.eq_of_toNat_eq
    rw [UInt64.toNat_toBitVec, UInt64.toNat_ofNat', BitVec.toNat_setWidth]
  apply Int64.toBitVec_inj.mp
  have hleft : (signExtend width (UInt64.ofNat x.toNat)).toBitVec =
      ((x.setWidth 64) <<< (64 - width)).sshiftRight (64 - width) := by
    show (((UInt64.ofNat x.toNat).toBitVec <<< (BitVec.ofNat 64 (64 - width) % 64)).sshiftRight'
      ((BitVec.ofNat 64 (64 - width)).smod 64)) = _
    rw [hsmod, hmod, hvalue, BitVec.sshiftRight', BitVec.shiftLeft_eq', hshift]
  have hright : (Int64.ofInt x.toInt).toBitVec = x.signExtend 64 := rfl
  rw [hleft, hright]
  apply BitVec.eq_of_getLsbD_eq
  intro i hi
  rw [BitVec.getLsbD_sshiftRight, BitVec.getLsbD_signExtend]
  by_cases hlow : i < width
  · have hsum : 64 - width + i < 64 := by omega
    simp [hlow, hi, hsum]
  · have hsum : ¬ 64 - width + i < 64 := by omega
    have hlast : 63 - (64 - width) = width - 1 := by omega
    have hmsb : ¬ 63 < 64 - width := by omega
    have hend : ¬ 64 ≤ i := by omega
    simp [hlow, hi, hsum, BitVec.msb_eq_getLsbD_last, hlast, hmsb, hend]

end BitReader
end OpenNtrip
