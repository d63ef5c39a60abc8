import Mathlib.Data.Nat.Bitwise
import Mathlib.Tactic.Ring

/-!
# Bits, the most significant one first

`Bits.ofNat` are the lowest bits of a number and `Bits.toNat` the number of a list of bits.
`Bits.ofBytes` are the bits of a byte string.
-/

namespace OpenNtrip.Bits

/-- The lowest bits of a number. -/
def ofNat : Nat → Nat → List Bool
  | 0, _ => []
  | width + 1, n => n.testBit width :: ofNat width n

/-- The number that the bits write. -/
def toNat (bits : List Bool) : Nat := bits.foldl (fun n bit => 2 * n + bit.toNat) 0

@[simp] theorem length_of_nat (width n : Nat) : (ofNat width n).length = width := by
  induction width with
  | zero => rfl
  | succ width ih => rw [ofNat, List.length_cons, ih]

/-- The highest bit is written first. -/
theorem get_of_nat (width n : Nat) {i : Nat} (h : i < width) :
    (ofNat width n)[i]? = some (n.testBit (width - 1 - i)) := by
  induction width generalizing i with
  | zero => omega
  | succ width ih =>
      cases i with
      | zero => rfl
      | succ i =>
          rw [ofNat, List.getElem?_cons_succ, ih (by omega)]
          congr 2
          omega

@[simp] theorem to_nat_nil : toNat [] = 0 := rfl

/-- Bits in front of others are worth a power of two more. -/
theorem to_nat_append (high low : List Bool) :
    toNat (high ++ low) = 2 ^ low.length * toNat high + toNat low := by
  have hfold : ∀ (bits : List Bool) (n : Nat),
      bits.foldl (fun n bit => 2 * n + bit.toNat) n = 2 ^ bits.length * n + toNat bits := by
    intro bits
    induction bits with
    | nil => simp
    | cons bit bits ih =>
        intro n
        rw [toNat, List.foldl_cons, List.foldl_cons, ih, ih (2 * 0 + bit.toNat),
          List.length_cons]
        ring
  rw [toNat, List.foldl_append]
  exact hfold low _

@[simp] theorem to_nat_cons (bit : Bool) (bits : List Bool) :
    toNat (bit :: bits) = 2 ^ bits.length * bit.toNat + toNat bits := by
  have h := to_nat_append [bit] bits
  rw [show toNat [bit] = bit.toNat from Nat.zero_add _] at h
  exact h

/-- As many bits write no number beyond them. -/
theorem to_nat_lt (bits : List Bool) : toNat bits < 2 ^ bits.length := by
  induction bits with
  | nil => exact Nat.one_pos
  | cons bit bits ih =>
      rw [to_nat_cons, List.length_cons, Nat.pow_succ]
      have hbit : 2 ^ bits.length * bit.toNat ≤ 2 ^ bits.length * 1 :=
        Nat.mul_le_mul_left _ bit.toNat_le
      omega

/-- The first bits write the quotient by what the others can write. -/
theorem to_nat_take (bits : List Bool) (n : Nat) :
    toNat (bits.take n) = toNat bits / 2 ^ (bits.length - n) := by
  have hsplit := to_nat_append (bits.take n) (bits.drop n)
  have hlow := to_nat_lt (bits.drop n)
  rw [List.take_append_drop] at hsplit
  rw [List.length_drop] at hsplit hlow
  rw [hsplit, Nat.mul_add_div (Nat.two_pow_pos _), Nat.div_eq_of_lt hlow, Nat.add_zero]

/-- The number of the lowest bits of a number is its remainder. -/
theorem to_nat_of_nat (width n : Nat) : toNat (ofNat width n) = n % 2 ^ width := by
  induction width with
  | zero => rw [ofNat, to_nat_nil, Nat.pow_zero, Nat.mod_one]
  | succ width ih =>
      rw [ofNat, to_nat_cons, length_of_nat, ih, Nat.mod_pow_succ, Nat.testBit_eq_decide_div_mod_eq,
        Nat.add_comm]
      congr 2
      obtain h | h := Nat.mod_two_eq_zero_or_one (n / 2 ^ width)
      · simp [h]
      · simp [h]

/-- A number that fits is read back from its bits. -/
theorem to_nat_of_lt {width n : Nat} (h : n < 2 ^ width) : toNat (ofNat width n) = n := by
  rw [to_nat_of_nat, Nat.mod_eq_of_lt h]

/-- Exclusive or works bit by bit. -/
theorem of_nat_xor (width m n : Nat) :
    ofNat width (m ^^^ n) = List.zipWith xor (ofNat width m) (ofNat width n) := by
  induction width with
  | zero => rfl
  | succ width ih => rw [ofNat, ofNat, ofNat, Nat.testBit_xor, ih, List.zipWith_cons_cons]

/-- The bits of a byte. -/
def ofByte (b : UInt8) : List Bool := ofNat 8 b.toNat

/-- The bits of a byte string. -/
def ofBytes (data : List UInt8) : List Bool := data.flatMap ofByte

@[simp] theorem of_bytes_nil : ofBytes [] = [] := rfl

@[simp] theorem of_bytes_cons (b : UInt8) (data : List UInt8) :
    ofBytes (b :: data) = ofByte b ++ ofBytes data := rfl

@[simp] theorem of_bytes_append (first second : List UInt8) :
    ofBytes (first ++ second) = ofBytes first ++ ofBytes second :=
  List.flatMap_append

@[simp] theorem length_of_byte (b : UInt8) : (ofByte b).length = 8 := length_of_nat 8 b.toNat

@[simp] theorem length_of_bytes (data : List UInt8) : (ofBytes data).length = 8 * data.length := by
  induction data with
  | nil => rfl
  | cons b data ih =>
      rw [of_bytes_cons, List.length_append, length_of_byte, ih, List.length_cons]
      omega

/-- The bits of a byte string, byte by byte. -/
theorem get_of_bytes (data : List UInt8) (p : Nat) :
    (ofBytes data)[p]? = data[p / 8]?.map fun b => b.toNat.testBit (7 - p % 8) := by
  induction data generalizing p with
  | nil => rfl
  | cons b data ih =>
      rw [of_bytes_cons]
      by_cases hp : p < 8
      · rw [List.getElem?_append_left (by rwa [length_of_byte]), ofByte, get_of_nat 8 _ hp,
          Nat.div_eq_of_lt hp, Nat.mod_eq_of_lt hp]
        rfl
      · obtain ⟨q, rfl⟩ : ∃ q, p = q + 8 := ⟨p - 8, by omega⟩
        rw [List.getElem?_append_right (by rw [length_of_byte]; omega), length_of_byte,
          Nat.add_sub_cancel, ih, Nat.add_div_right q (by omega), Nat.add_mod_right,
          List.getElem?_cons_succ]

/-- The bits of a byte are worth the byte. -/
theorem to_nat_of_byte (b : UInt8) : toNat (ofByte b) = b.toNat := to_nat_of_lt b.toNat_lt

/-- Bytes are added bit by bit. -/
theorem of_bytes_xor {first second : List UInt8} (h : first.length = second.length) :
    ofBytes (List.zipWith (· ^^^ ·) first second) =
      List.zipWith xor (ofBytes first) (ofBytes second) := by
  induction first generalizing second with
  | nil => rfl
  | cons a first ih =>
      cases second with
      | nil => simp at h
      | cons b second =>
          have hbyte : ofByte (a ^^^ b) = List.zipWith xor (ofByte a) (ofByte b) := by
            rw [ofByte, UInt8.toNat_xor, of_nat_xor]
            rfl
          rw [List.zipWith_cons_cons, of_bytes_cons, of_bytes_cons, of_bytes_cons,
            List.zipWith_append (by simp), ih (Nat.succ.inj h), hbyte]

end OpenNtrip.Bits
