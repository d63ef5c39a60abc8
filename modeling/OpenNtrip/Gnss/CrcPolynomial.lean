import OpenNtrip.Gnss.FrameResync
import OpenNtrip.Lib.BinaryPolynomial

/-!
# CRC-24Q as a polynomial remainder

The table step of `crc24q` is eight shift steps, and a shift step multiplies by `X` modulo the
generator. So the CRC is the remainder of the message times `X ^ 24`, appending it makes the
remainder zero, and no burst within 24 bits is a multiple of the generator.
-/

namespace OpenNtrip

open BinaryPolynomial Polynomial

namespace Crc24q

/-- The bits of the generator polynomial. -/
def GENERATOR : Nat := 0x1864CFB

/-- One byte of the bit-by-bit reference, which shifts the byte in from the top. -/
def naiveStep (crc : UInt32) (b : UInt8) : UInt32 :=
  Nat.repeat shiftBit 8 (crc ^^^ (b.toUInt32 <<< 16))

end Crc24q

/-- The bit-by-bit reference `crc24q_naive`. -/
def crc24qNaive (data : Bytes) : UInt32 := data.foldl Crc24q.naiveStep 0 &&& 0xFFFFFF

namespace Crc24q

/-- The residue of a register modulo the generator. -/
noncomputable def value (crc : UInt32) : AdjoinRoot (ofNat GENERATOR) :=
  residue GENERATOR crc.toNat

/-- The residue of `X`. -/
noncomputable def x : AdjoinRoot (ofNat GENERATOR) := AdjoinRoot.root (ofNat GENERATOR)

theorem generator_low : 2 ^ 24 ≤ GENERATOR := Nat.le_of_ble_eq_true rfl

theorem generator_high : GENERATOR < 2 ^ (24 + 1) := Nat.le_of_ble_eq_true rfl

theorem mask_toNat (crc : UInt32) : (crc &&& 0xFFFFFF).toNat = crc.toNat % 2 ^ 24 := by
  rw [UInt32.toNat_and]
  exact Nat.and_two_pow_sub_one_eq_mod crc.toNat 24

theorem shift_bit_toNat {crc : UInt32} (h : crc.toNat < 2 ^ 24) :
    (shiftBit crc).toNat = shift GENERATOR 24 crc.toNat := by
  have hdouble : (crc <<< 1).toNat = 2 * crc.toNat := by
    rw [UInt32.toNat_shiftLeft]
    show crc.toNat <<< 1 % 2 ^ 32 = 2 * crc.toNat
    rw [Nat.shiftLeft_eq]
    omega
  have htest : (crc <<< 1) &&& 0x1000000 ≠ 0 ↔ (2 * crc.toNat).testBit 24 = true := by
    rw [ne_eq, ← UInt32.toNat_inj, UInt32.toNat_and, hdouble]
    show ¬ 2 * crc.toNat &&& 2 ^ 24 = 0 ↔ _
    rw [Nat.and_two_pow]
    cases (2 * crc.toNat).testBit 24 with
    | false => simp
    | true => simp
  rw [shiftBit, shift]
  by_cases hbit : (2 * crc.toNat).testBit 24 = true
  · rw [if_pos hbit]
    simp only [htest.mpr hbit, ne_eq, not_false_eq_true, if_true]
    rw [UInt32.toNat_xor, hdouble]
    rfl
  · rw [if_neg hbit]
    simp only [mt htest.mp hbit, if_false]
    exact hdouble

/-- A shift step keeps to 24 bits and multiplies by `X`. -/
theorem shift_bit_value {crc : UInt32} (h : crc.toNat < 2 ^ 24) :
    (shiftBit crc).toNat < 2 ^ 24 ∧ value (shiftBit crc) = value crc * x := by
  rw [value, shift_bit_toNat h]
  exact ⟨shift_lt generator_low generator_high h, residue_shift GENERATOR 24 crc.toNat⟩

theorem shift_bits_value {crc : UInt32} (h : crc.toNat < 2 ^ 24) (n : Nat) :
    (Nat.repeat shiftBit n crc).toNat < 2 ^ 24 ∧
      value (Nat.repeat shiftBit n crc) = value crc * x ^ n := by
  induction n with
  | zero => exact ⟨h, by rw [pow_zero, mul_one]; rfl⟩
  | succ n ih =>
      obtain ⟨hlt, hvalue⟩ := ih
      obtain ⟨hlt', hvalue'⟩ := shift_bit_value hlt
      refine ⟨hlt', ?_⟩
      rw [Nat.repeat, hvalue', hvalue, pow_succ, mul_assoc]

/-- The number in the upper byte of a register. -/
theorem byte_shifted_toNat {n : Nat} (h : n < 256) :
    (UInt32.ofNat n <<< 16).toNat = 2 ^ 16 * n := by
  rw [UInt32.toNat_shiftLeft, UInt32.toNat_ofNat']
  show (n % 2 ^ 32) <<< 16 % 2 ^ 32 = 2 ^ 16 * n
  rw [Nat.shiftLeft_eq]
  omega

theorem table_entry_value (i : Fin 256) :
    (tableEntry i).toNat < 2 ^ 24 ∧ value (tableEntry i) = residue GENERATOR i * x ^ 24 := by
  have hshifted := byte_shifted_toNat i.isLt
  have hlt : (UInt32.ofNat i <<< 16).toNat < 2 ^ 24 := by
    rw [hshifted]
    omega
  obtain ⟨hlt', hvalue⟩ := shift_bits_value hlt 8
  have hmask : tableEntry i = Nat.repeat shiftBit 8 (UInt32.ofNat i <<< 16) := by
    apply UInt32.toNat_inj.mp
    rw [tableEntry, mask_toNat, Nat.mod_eq_of_lt hlt']
  rw [hmask]
  refine ⟨hlt', ?_⟩
  rw [hvalue, value, hshifted, residue_two_pow_mul, mul_assoc, x, ← pow_add]

/-- The byte that selects the table entry. -/
theorem index_toNat {crc : UInt32} (h : crc.toNat < 2 ^ 24) (b : UInt8) :
    (((crc >>> 16) ^^^ b.toUInt32) &&& 0xFF).toNat = (crc.toNat / 2 ^ 16) ^^^ b.toNat := by
  have hhigh : (crc >>> 16).toNat = crc.toNat / 2 ^ 16 := by
    rw [UInt32.toNat_shiftRight]
    exact Nat.shiftRight_eq_div_pow crc.toNat 16
  rw [UInt32.toNat_and, UInt32.toNat_xor, hhigh, UInt8.toNat_toUInt32]
  show _ &&& 2 ^ 8 - 1 = _
  rw [Nat.and_two_pow_sub_one_eq_mod]
  exact Nat.mod_eq_of_lt (Nat.xor_lt_two_pow (by omega) b.toNat_lt)

theorem table_get (i : Fin 256) : TABLE.get i = tableEntry i := Vector.getElem_ofFn i.isLt

/-- The register moves up by one byte, and its upper byte leaves through the table. -/
theorem step_toNat {crc : UInt32} (h : crc.toNat < 2 ^ 24) (b : UInt8) :
    ∃ entry : UInt32, entry.toNat < 2 ^ 24 ∧
      value entry = residue GENERATOR ((crc.toNat / 2 ^ 16) ^^^ b.toNat) * x ^ 24 ∧
      (step crc b).toNat = 2 ^ 8 * (crc.toNat % 2 ^ 16) ^^^ entry.toNat := by
  obtain ⟨i, hi, hstep⟩ : ∃ i : Fin 256, i.val = (crc.toNat / 2 ^ 16) ^^^ b.toNat ∧
      step crc b = ((crc <<< 8) ^^^ TABLE.get i) &&& 0xFFFFFF :=
    ⟨⟨_, low_byte_lt ((crc >>> 16) ^^^ b.toUInt32)⟩, index_toNat h b, rfl⟩
  obtain ⟨hentry, hvalue⟩ := table_entry_value i
  rw [← table_get] at hentry hvalue
  rw [hi] at hvalue
  refine ⟨TABLE.get i, hentry, hvalue, ?_⟩
  have hshifted : (crc <<< 8).toNat % 2 ^ 24 = 2 ^ 8 * (crc.toNat % 2 ^ 16) := by
    rw [UInt32.toNat_shiftLeft]
    show crc.toNat <<< 8 % 2 ^ 32 % 2 ^ 24 = _
    rw [Nat.shiftLeft_eq]
    omega
  rw [hstep, mask_toNat, UInt32.toNat_xor, Nat.xor_mod_two_pow, hshifted,
    Nat.mod_eq_of_lt hentry]

/-- One byte keeps to 24 bits and multiplies by `X ^ 8` after the byte is added at the top. -/
theorem step_value {crc : UInt32} (h : crc.toNat < 2 ^ 24) (b : UInt8) :
    (step crc b).toNat < 2 ^ 24 ∧
      value (step crc b) = value crc * x ^ 8 + residue GENERATOR b.toNat * x ^ 24 := by
  obtain ⟨entry, hentry, hvalue, hstep⟩ := step_toNat h b
  have hlow : crc.toNat % 2 ^ 16 < 2 ^ 16 := Nat.mod_lt _ (Nat.two_pow_pos 16)
  have hsplit : value crc =
      residue GENERATOR (crc.toNat / 2 ^ 16) * x ^ 16 + residue GENERATOR (crc.toNat % 2 ^ 16) := by
    rw [value]
    conv => lhs; rw [← Nat.div_add_mod crc.toNat (2 ^ 16)]
    exact residue_two_pow_mul_add hlow _ _
  refine ⟨?_, ?_⟩
  · rw [hstep]
    exact Nat.xor_lt_two_pow (by omega) hentry
  · calc value (step crc b)
        = residue GENERATOR (crc.toNat % 2 ^ 16) * x ^ 8 + value entry := by
          rw [value, hstep, residue_xor, residue_two_pow_mul]
          rfl
      _ = value crc * x ^ 8 + residue GENERATOR b.toNat * x ^ 24 := by
          rw [hvalue, hsplit, residue_xor]
          ring

theorem naive_step_value {crc : UInt32} (h : crc.toNat < 2 ^ 24) (b : UInt8) :
    (naiveStep crc b).toNat < 2 ^ 24 ∧
      value (naiveStep crc b) = value crc * x ^ 8 + residue GENERATOR b.toNat * x ^ 24 := by
  have hb := b.toNat_lt
  have hbyte : (b.toUInt32 <<< 16).toNat = 2 ^ 16 * b.toNat := by
    have hofNat : b.toUInt32 = UInt32.ofNat b.toNat := by
      apply UInt32.toNat_inj.mp
      rw [UInt8.toNat_toUInt32, UInt32.toNat_ofNat']
      omega
    rw [hofNat, byte_shifted_toNat hb]
  have hlt : (crc ^^^ (b.toUInt32 <<< 16)).toNat < 2 ^ 24 := by
    rw [UInt32.toNat_xor, hbyte]
    exact Nat.xor_lt_two_pow h (by omega)
  obtain ⟨hlt', hvalue⟩ := shift_bits_value hlt 8
  refine ⟨hlt', ?_⟩
  rw [naiveStep, hvalue, value, UInt32.toNat_xor, hbyte, residue_xor, residue_two_pow_mul, value]
  rw [add_mul, mul_assoc, x, ← pow_add]

/-- What each byte does to the residue, a whole byte string does. -/
theorem fold_value {next : UInt32 → UInt8 → UInt32}
    (hnext : ∀ {crc : UInt32}, crc.toNat < 2 ^ 24 → ∀ b, (next crc b).toNat < 2 ^ 24 ∧
      value (next crc b) = value crc * x ^ 8 + residue GENERATOR b.toNat * x ^ 24)
    (data : Bytes) {crc : UInt32} (h : crc.toNat < 2 ^ 24) :
    (data.foldl next crc).toNat < 2 ^ 24 ∧
      value (data.foldl next crc) = value crc * x ^ (8 * data.length) +
        AdjoinRoot.mk (ofNat GENERATOR) (ofBits (Bits.ofBytes data)) * x ^ 24 := by
  induction data generalizing crc with
  | nil =>
      refine ⟨h, ?_⟩
      have hzero : ofBits (Bits.ofBytes []) = 0 := of_nat_zero
      rw [hzero, map_zero, zero_mul, add_zero]
      exact (mul_one _).symm
  | cons b data ih =>
      obtain ⟨hlt, hvalue⟩ := hnext h b
      obtain ⟨hlt', hvalue'⟩ := ih hlt
      refine ⟨hlt', ?_⟩
      have hbits : ofBits (Bits.ofByte b) = ofNat b.toNat := by rw [ofBits, Bits.to_nat_of_byte]
      rw [List.foldl_cons, hvalue', hvalue, Bits.of_bytes_cons, of_bits_append, hbits,
        Bits.length_of_bytes, List.length_cons, map_add, map_mul, map_pow, AdjoinRoot.mk_X]
      show _ = _ + (residue GENERATOR b.toNat * x ^ (8 * data.length) + _) * x ^ 24
      ring

theorem value_zero : value 0 = 0 := by
  have hzero : residue GENERATOR 0 = 0 := by rw [residue, of_nat_zero, map_zero]
  exact hzero

/-- The residue of a CRC is that of the message in front of 24 zeros. -/
theorem crc24q_value (data : Bytes) :
    value (crc24q data) =
      AdjoinRoot.mk (ofNat GENERATOR) (ofBits (Bits.ofBytes data) * X ^ 24) := by
  have hzero : (0 : UInt32).toNat < 2 ^ 24 := Nat.two_pow_pos 24
  rw [crc24q, (fold_value step_value data hzero).2, value_zero, zero_mul, zero_add, map_mul,
    map_pow, AdjoinRoot.mk_X]
  rfl

/-- Registers of 24 bits are told apart by their residues. -/
theorem eq_of_value {left right : UInt32} (hleft : left.toNat < 2 ^ 24)
    (hright : right.toNat < 2 ^ 24) (h : value left = value right) : left = right := by
  have hl := eq_mod_of_residue generator_low generator_high hleft h
  have hr := eq_mod_of_residue generator_low generator_high hright (rfl : value right = _)
  exact UInt32.toNat_inj.mp (of_nat_injective (hl.trans hr.symm))

/-- The CRC is the remainder of the message times `X ^ 24`. -/
theorem crc24q_eq_mod (data : Bytes) :
    ofNat (crc24q data).toNat = (ofBits (Bits.ofBytes data) * X ^ 24) %ₘ ofNat GENERATOR :=
  eq_mod_of_residue generator_low generator_high (crc24q_lt data) (crc24q_value data)

theorem crc24q_eq_naive (data : Bytes) : crc24q data = crc24qNaive data := by
  have hzero : (0 : UInt32).toNat < 2 ^ 24 := Nat.two_pow_pos 24
  obtain ⟨hlt, hvalue⟩ := fold_value naive_step_value data hzero
  have hmask : crc24qNaive data = data.foldl naiveStep 0 := by
    apply UInt32.toNat_inj.mp
    rw [crc24qNaive, mask_toNat, Nat.mod_eq_of_lt hlt]
  rw [hmask]
  refine eq_of_value (crc24q_lt data) hlt ?_
  rw [hvalue, crc24q, (fold_value step_value data hzero).2]

theorem bits_crc_bytes {crc : UInt32} (h : crc.toNat < 2 ^ 24) :
    ofBits (Bits.ofBytes (crcBytes crc)) = ofNat crc.toNat := by
  obtain ⟨h₁, h₂, h₃⟩ := crc_bytes_toNat crc
  have hsum : Bits.toNat (Bits.ofBytes (crcBytes crc)) = crc.toNat := by
    simp only [crcBytes, Bits.of_bytes_cons, Bits.of_bytes_nil, List.append_nil,
      Bits.to_nat_append, Bits.to_nat_of_byte, List.length_append, Bits.length_of_byte, h₁, h₂, h₃]
    omega
  rw [ofBits, hsum]

/-- The CRC of a message and its CRC bytes is zero. -/
theorem crc24q_append_crc (message : Bytes) :
    crc24q (message ++ crcBytes (crc24q message)) = 0 := by
  have hlt := crc24q_lt message
  have hself : value (crc24q message) + value (crc24q message) = 0 := by
    rw [value, ← residue_xor, Nat.xor_self]
    exact value_zero
  have happend : crc24q (message ++ crcBytes (crc24q message)) =
      (crcBytes (crc24q message)).foldl step (crc24q message) := List.foldl_append
  refine eq_of_value (crc24q_lt _) (Nat.two_pow_pos 24) ?_
  rw [happend, (fold_value step_value _ hlt).2, bits_crc_bytes hlt]
  show value (crc24q message) * x ^ (8 * 3) + value (crc24q message) * x ^ 24 = value 0
  rw [value_zero, ← add_mul, hself, zero_mul]

/-! ## Bursts -/

/-- Bytes whose bits change where the error's are set. -/
def corrupt (data error : Bytes) : Bytes := List.zipWith (· ^^^ ·) data error

/-- The set bits of an error are a burst: there are some, and they are within 24 bits that follow
each other. -/
def Burst (error : Bytes) : Prop :=
  ∃ (before after : Nat) (burst : List Bool), burst.length ≤ 24 ∧ true ∈ burst ∧
    Bits.ofBytes error = List.replicate before false ++ burst ++ List.replicate after false

/-- A burst does not take a byte string with a zero CRC to another. -/
theorem crc24q_corrupt {data error : Bytes} (hzero : crc24q data = 0)
    (hlen : data.length = error.length) (herror : Burst error) :
    crc24q (corrupt data error) ≠ 0 := by
  intro hcorrupt
  obtain ⟨before, after, burst, hburst, hset, hbits⟩ := herror
  have hdata := crc24q_value data
  have hsum := crc24q_value (corrupt data error)
  rw [hzero, value_zero] at hdata
  rw [hcorrupt, value_zero, corrupt, Bits.of_bytes_xor hlen, of_bits_xor (by simp [hlen]),
    add_mul, map_add, ← hdata, zero_add, ← of_bits_append_zeros, hbits, List.append_assoc,
    List.replicate_append_replicate] at hsum
  exact not_dvd_burst generator_low generator_high rfl hburst hset before (after + 24)
    (AdjoinRoot.mk_eq_zero.mp hsum.symm)

/-! ## Corrupted frames -/

theorem crc24q_build_frame (payload : Bytes) : crc24q (buildFrame payload) = 0 :=
  crc24q_append_crc _

/-- The error leaves the ten bits of the length field as they are. -/
def LengthIntact (error : Bytes) : Prop := error.getD 1 0 &&& 0x03 = 0 ∧ error.getD 2 0 = 0

theorem xor_and (a b mask : UInt8) : (a ^^^ b) &&& mask = (a &&& mask) ^^^ (b &&& mask) := by
  apply UInt8.toNat_inj.mp
  rw [UInt8.toNat_xor, UInt8.toNat_and, UInt8.toNat_and, UInt8.toNat_and, UInt8.toNat_xor]
  exact Nat.and_xor_distrib_right

/-- The length field of a corrupted frame. -/
theorem corrupt_frame {payload error : Bytes} (hlen : error.length = payload.length + 6)
    (hpayload : payload.length ≤ 1023) (hintact : LengthIntact error) :
    ∃ b after low tail, corrupt (buildFrame payload) error = b :: after :: low :: tail ∧
      tail.length = payload.length + 3 ∧ payloadLength after low = payload.length ∧
      b = SYNC ^^^ error.getD 0 0 ∧
      after = UInt8.ofNat (payload.length >>> 8) ^^^ error.getD 1 0 := by
  match error, hlen with
  | e₀ :: e₁ :: e₂ :: errors, hlen =>
      obtain ⟨hafter, hlow⟩ := hintact
      simp only [List.getD_cons_succ, List.getD_cons_zero] at hafter hlow
      subst hlow
      refine ⟨_, _, _, List.zipWith (· ^^^ ·) (payload ++ crcBytes (crc24q _)) errors, rfl, ?_, ?_,
        rfl, rfl⟩
      · simp only [List.length_cons] at hlen
        simp only [List.length_zipWith, List.length_append, crcBytes, List.length_cons,
          List.length_nil]
        omega
      · have hmask : (UInt8.ofNat (payload.length >>> 8) ^^^ e₁) &&& (0x03 : UInt8) =
            UInt8.ofNat (payload.length >>> 8) &&& (0x03 : UInt8) := by
          rw [xor_and, hafter]
          exact UInt8.xor_zero
        have hlow : UInt8.ofNat payload.length ^^^ 0 = UInt8.ofNat payload.length := UInt8.xor_zero
        rw [payloadLength, hmask]
        simp only [hlow]
        exact (build_length_bytes hpayload).2

end Crc24q

open Crc24q

namespace FrameToken

/-- A scan position with as many bytes behind it as its length field says is decided. -/
theorem next_ne_none {b after low : UInt8} {rest : Bytes}
    (h : payloadLength after low + 3 ≤ rest.length) : next (b :: after :: low :: rest) ≠ none := by
  intro hnone
  have hdecides := decides_next (b :: after :: low :: rest)
  rw [hnone] at hdecides
  cases hdecides with
  | incomplete hafter hshort => omega

/-- A position with a header is not skipped. -/
theorem of_next_skip {b after : UInt8} {rest : Bytes}
    (h : next (b :: after :: rest) = some .skip) : b ≠ SYNC ∨ after &&& 0xFC ≠ 0 := by
  by_contra hnot
  obtain ⟨rfl, hafter⟩ : b = SYNC ∧ after &&& 0xFC = 0 := by simpa using hnot
  generalize hbytes : SYNC :: after :: rest = bytes at h
  have hdecides := decides_next bytes
  rw [h] at hdecides
  cases hdecides with
  | notSync later hb => exact hb (List.cons.inj hbytes).1.symm
  | reserved later hnot =>
      obtain rfl := (List.cons.inj (List.cons.inj hbytes).2).1
      exact hnot hafter

/-- A frame with a burst error that leaves its length field intact is not accepted. -/
theorem next_corrupt {payload error : Bytes} (hpayload : payload.length ≤ 1023)
    (hlen : error.length = payload.length + 6) (herror : Burst error)
    (hintact : LengthIntact error) (later : Bytes) :
    next (corrupt (buildFrame payload) error ++ later) = some .skip ∨
      next (corrupt (buildFrame payload) error ++ later) = some .reject := by
  obtain ⟨b, after, low, tail, hshape, htail, hfield, -, -⟩ := corrupt_frame hlen hpayload hintact
  cases hnext : next (corrupt (buildFrame payload) error ++ later) with
  | none =>
      have hfull : payloadLength after low + 3 ≤ (tail ++ later).length := by
        rw [hfield, List.length_append, htail]
        omega
      rw [hshape] at hnext
      exact absurd hnext (next_ne_none hfull)
  | some t =>
      cases t with
      | skip => exact .inl rfl
      | reject => exact .inr rfl
      | accept payload' =>
          obtain ⟨hpayload', later', hframe⟩ := next_accept hnext
          -- the accepted frame has the length field, so it is the corrupted one
          have hhead := hframe
          rw [hshape, buildFrame] at hhead
          simp only [List.cons_append, List.cons.injEq] at hhead
          have hsame : payload'.length = payload.length := by
            rw [← hfield, hhead.2.1, hhead.2.2.1]
            exact (build_length_bytes hpayload').2.symm
          have hwhole : corrupt (buildFrame payload) error = buildFrame payload' := by
            refine (List.append_inj hframe ?_).1
            rw [build_frame_length, hsame, hshape]
            simp only [List.length_cons, htail]
          have hzero := crc24q_build_frame payload'
          rw [← hwhole] at hzero
          refine absurd hzero (crc24q_corrupt (crc24q_build_frame payload) ?_ herror)
          rw [build_frame_length, hlen]

/-- It fails its CRC if its sync byte and its reserved bits are intact, and is no frame at all
otherwise. -/
theorem next_corrupt_eq {payload error : Bytes} (hpayload : payload.length ≤ 1023)
    (hlen : error.length = payload.length + 6) (herror : Burst error)
    (hintact : LengthIntact error) (later : Bytes) :
    next (corrupt (buildFrame payload) error ++ later) =
      if error.getD 0 0 = 0 ∧ error.getD 1 0 &&& 0xFC = 0 then some .reject else some .skip := by
  have hnext := next_corrupt hpayload hlen herror hintact later
  obtain ⟨b, after, low, tail, hshape, -, -, hb, hafter⟩ := corrupt_frame hlen hpayload hintact
  have hreserved : after &&& 0xFC = error.getD 1 0 &&& 0xFC := by
    rw [hafter, xor_and, (build_length_bytes hpayload).1]
    exact UInt8.zero_xor
  have hsync : b = SYNC ↔ error.getD 0 0 = 0 := by
    rw [hb]
    constructor
    · intro h
      exact (UInt8.xor_right_inj SYNC).mp (h.trans UInt8.xor_zero.symm)
    · intro h
      rw [h]
      exact UInt8.xor_zero
  rw [hshape] at hnext ⊢
  split
  · next hheader =>
      obtain hskip | hreject := hnext
      · obtain hnot | hnot := of_next_skip hskip
        · exact absurd (hsync.mpr hheader.1) hnot
        · rw [hreserved] at hnot
          exact absurd hheader.2 hnot
      · exact hreject
  · next hheader =>
      by_cases hfirst : b = SYNC
      · refine Decides.next_eq ?_
        rw [hfirst]
        refine .reserved _ ?_
        rw [hreserved]
        exact fun h => hheader ⟨hsync.mp hfirst, h⟩
      · exact Decides.next_eq (.notSync _ hfirst)

end FrameToken

/-- `crc24q` agrees with the bit-by-bit reference and is the remainder of the message times
`X ^ 24` modulo the generator. It is zero for a message and its CRC bytes, and not zero after a
burst error of such a byte string. So a frame with a burst error that leaves its length field
intact is rejected: the scan takes one byte of it, as a CRC failure if the sync byte and the
reserved bits are intact too, and in no stream is a frame emitted at its place. -/
theorem crc24q_polynomial :
    (∀ data, crc24q data = crc24qNaive data ∧
      ofNat (crc24q data).toNat = (ofBits (Bits.ofBytes data) * X ^ 24) %ₘ ofNat POLY.toNat) ∧
    (∀ message, crc24q (message ++ crcBytes (crc24q message)) = 0) ∧
    (∀ message error : Bytes, error.length = message.length + 3 → Burst error →
      crc24q (corrupt (message ++ crcBytes (crc24q message)) error) ≠ 0) ∧
    ∀ payload error : Bytes, payload.length ≤ 1023 → error.length = payload.length + 6 →
      Burst error → LengthIntact error →
      (∀ later, FrameToken.next (corrupt (buildFrame payload) error ++ later) =
        if error.getD 0 0 = 0 ∧ error.getD 1 0 &&& 0xFC = 0 then some .reject else some .skip) ∧
      ∀ (before later : Bytes) (blocks : List Bytes),
        blocks.flatten = before ++ corrupt (buildFrame payload) error ++ later →
        ∀ e ∈ Deframer.emitted (Transducer.run Deframer.feed {} blocks).2 0,
          e.start ≠ before.length := by
  refine ⟨fun data => ⟨crc24q_eq_naive data, crc24q_eq_mod data⟩, crc24q_append_crc, ?_, ?_⟩
  · intro message error hlen herror
    refine crc24q_corrupt (crc24q_append_crc message) ?_ herror
    rw [List.length_append, hlen]
    rfl
  · intro payload error hpayload hlen herror hintact
    refine ⟨fun later => FrameToken.next_corrupt_eq hpayload hlen herror hintact later, ?_⟩
    intro before later blocks hstream e he hstart
    have hnext := Deframer.next_of_mem_emitted he
    rw [hstart, hstream, List.append_assoc, List.drop_left] at hnext
    obtain hskip | hreject := FrameToken.next_corrupt hpayload hlen herror hintact later
    · rw [hskip] at hnext
      cases hnext
    · rw [hreject] at hnext
      cases hnext

/-- An error in the CRC bytes of an empty frame, and the frame's place in a stream. -/
theorem crc24q_polynomial_example :
    crc24q (corrupt (ascii "1" ++ crcBytes (crc24q (ascii "1"))) [0, 0, 1, 0x80]) ≠ 0 ∧
      FrameToken.next (corrupt (buildFrame []) [0, 0, 0, 0, 1, 0x80] ++ [SYNC]) = some .reject := by
  have hburst : Burst [0, 0, 1, 0x80] :=
    ⟨23, 7, [true, true], Nat.le_of_ble_eq_true rfl, List.mem_cons_self, rfl⟩
  have hburst' : Burst [0, 0, 0, 0, 1, 0x80] :=
    ⟨39, 7, [true, true], Nat.le_of_ble_eq_true rfl, List.mem_cons_self, rfl⟩
  refine ⟨crc24q_polynomial.2.2.1 (ascii "1") [0, 0, 1, 0x80] rfl hburst, ?_⟩
  exact (crc24q_polynomial.2.2.2 [] [0, 0, 0, 0, 1, 0x80] (Nat.zero_le _) rfl hburst'
    ⟨rfl, rfl⟩).1 [SYNC]

end OpenNtrip
