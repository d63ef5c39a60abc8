import OpenNtrip.Lib.Bits
import Mathlib.Algebra.Polynomial.Div
import Mathlib.RingTheory.AdjoinRoot
import Mathlib.Algebra.Field.ZMod

/-!
# Binary polynomials written as numbers

`BinaryPolynomial.ofNat` reads the bits of a number as coefficients in `ZMod 2`, so that exclusive
or is addition and a shift is a multiplication by a power of `X`. `shift` is the step of a shift
register with a feedback number; over the residues modulo the feedback it multiplies by the root
(`residue_shift`). `not_dvd_burst` is why a cyclic code detects every burst that is no longer than
the register.
-/

namespace OpenNtrip.BinaryPolynomial

open Polynomial

/-- A bit as a coefficient. -/
def bitValue (bit : Bool) : ZMod 2 := if bit then 1 else 0

/-- Bits are added in the field of two elements. -/
theorem bit_value_xor (a b : Bool) : bitValue (a ^^ b) = bitValue a + bitValue b := by
  cases a with
  | false =>
      rw [Bool.false_xor]
      exact (zero_add (bitValue b)).symm
  | true => cases b with
    | false => rfl
    | true => rfl

/-- The polynomial whose coefficients are the bits of a number. -/
noncomputable def ofNat (n : Nat) : (ZMod 2)[X] :=
  ∑ i ∈ Finset.range n, monomial i (bitValue (n.testBit i))

/-- The coefficients of a number are its bits. -/
@[simp] theorem coeff_of_nat (n i : Nat) : (ofNat n).coeff i = bitValue (n.testBit i) := by
  rw [ofNat, finsetSum_coeff]
  simp only [coeff_monomial]
  rw [Finset.sum_ite_eq' (Finset.range n) i]
  split
  · rfl
  · next h =>
      have hlt : n < 2 ^ i := by
        have hle : n ≤ i := by simpa using h
        exact Nat.lt_of_le_of_lt hle Nat.lt_two_pow_self
      rw [Nat.testBit_lt_two_pow hlt]
      rfl

@[simp] theorem of_nat_zero : ofNat 0 = 0 := by
  ext i
  simp [bitValue]

/-- A number is determined by its polynomial. -/
theorem of_nat_injective {m n : Nat} (h : ofNat m = ofNat n) : m = n := by
  refine Nat.eq_of_testBit_eq fun i => ?_
  have hcoeff := congrArg (fun p => coeff p i) h
  simp only [coeff_of_nat] at hcoeff
  revert hcoeff
  cases m.testBit i with
  | false => cases n.testBit i with
    | false => exact fun _ => rfl
    | true => exact fun heq => absurd heq.symm one_ne_zero
  | true => cases n.testBit i with
    | false => exact fun heq => absurd heq one_ne_zero
    | true => exact fun _ => rfl

theorem of_nat_eq_zero {n : Nat} : ofNat n = 0 ↔ n = 0 := by
  constructor
  · intro h
    exact of_nat_injective (h.trans of_nat_zero.symm)
  · rintro rfl
    exact of_nat_zero

/-- Exclusive or is addition. -/
theorem of_nat_xor (m n : Nat) : ofNat (m ^^^ n) = ofNat m + ofNat n := by
  ext i
  rw [coeff_add, coeff_of_nat, coeff_of_nat, coeff_of_nat, Nat.testBit_xor, bit_value_xor]

/-- A number behind low bits is multiplied by a power of `X`. -/
theorem of_nat_two_pow_mul_add {low width : Nat} (h : low < 2 ^ width) (high : Nat) :
    ofNat (2 ^ width * high + low) = ofNat high * X ^ width + ofNat low := by
  ext i
  rw [coeff_add, coeff_mul_X_pow', coeff_of_nat, coeff_of_nat, coeff_of_nat,
    Nat.testBit_two_pow_mul_add _ h]
  by_cases hi : i < width
  · rw [if_pos hi, if_neg (by omega), zero_add]
  · have hlow : low.testBit i = false :=
      Nat.testBit_lt_two_pow (Nat.lt_of_lt_of_le h (Nat.pow_le_pow_right (by omega) (by omega)))
    rw [if_neg hi, if_pos (by omega), hlow]
    exact (add_zero _).symm

/-- A shift to the left multiplies by a power of the indeterminate. -/
theorem of_nat_two_pow_mul (n width : Nat) : ofNat (2 ^ width * n) = ofNat n * X ^ width := by
  have h := of_nat_two_pow_mul_add (Nat.two_pow_pos width) n
  rwa [Nat.add_zero, of_nat_zero, add_zero] at h

/-- A number of so many bits has a polynomial below that degree. -/
theorem degree_of_nat_lt {n width : Nat} (h : n < 2 ^ width) : (ofNat n).degree < width := by
  rw [degree_lt_iff_coeff_zero]
  intro i hi
  rw [coeff_of_nat, Nat.testBit_lt_two_pow
    (Nat.lt_of_lt_of_le h (Nat.pow_le_pow_right (by omega) hi))]
  rfl

/-! ## The polynomial of a list of bits -/

/-- The polynomial of bits, the coefficient of the highest power first. -/
noncomputable def ofBits (bits : List Bool) : (ZMod 2)[X] := ofNat (Bits.toNat bits)

/-- Bits in front of others are multiplied by a power of the indeterminate. -/
theorem of_bits_append (high low : List Bool) :
    ofBits (high ++ low) = ofBits high * X ^ low.length + ofBits low := by
  rw [ofBits, Bits.to_nat_append, of_nat_two_pow_mul_add (Bits.to_nat_lt low)]
  rfl

/-- The first bit is the highest coefficient. -/
theorem of_bits_cons (bit : Bool) (bits : List Bool) :
    ofBits (bit :: bits) = C (bitValue bit) * X ^ bits.length + ofBits bits := by
  have hbit : ofBits [bit] = C (bitValue bit) := by
    ext i
    rw [ofBits, coeff_of_nat, coeff_C]
    cases bit with
    | false => simp [bitValue]
    | true => cases i with
      | zero => rfl
      | succ i =>
          have hone : Nat.testBit 1 (i + 1) = false :=
            Nat.testBit_lt_two_pow (Nat.one_lt_two_pow (Nat.succ_ne_zero i))
          simp [bitValue, hone]
  rw [← hbit]
  exact of_bits_append [bit] bits

/-- Exclusive or of equally many bits is addition. -/
theorem of_bits_xor {left right : List Bool} (h : left.length = right.length) :
    ofBits (List.zipWith xor left right) = ofBits left + ofBits right := by
  induction left generalizing right with
  | nil =>
      obtain rfl := List.eq_nil_of_length_eq_zero h.symm
      exact (add_zero (ofBits [])).symm.trans (congrArg _ of_nat_zero.symm)
  | cons a left ih =>
      cases right with
      | nil => simp at h
      | cons b right =>
          have hlen : left.length = right.length := Nat.succ.inj h
          rw [List.zipWith_cons_cons, of_bits_cons, of_bits_cons, of_bits_cons, ih hlen,
            bit_value_xor, List.length_zipWith, ← hlen, Nat.min_self, C_add]
          ring

/-- Zeros in front change nothing. -/
theorem of_bits_zeros_append (n : Nat) (bits : List Bool) :
    ofBits (List.replicate n false ++ bits) = ofBits bits := by
  induction n with
  | zero => rfl
  | succ n ih =>
      rw [List.replicate_succ, List.cons_append, of_bits_cons, ih]
      simp [bitValue]

/-- Zeros behind multiply by a power of the indeterminate. -/
theorem of_bits_append_zeros (bits : List Bool) (n : Nat) :
    ofBits (bits ++ List.replicate n false) = ofBits bits * X ^ n := by
  have hzero : ofBits (List.replicate n false) = 0 := by
    have h := of_bits_zeros_append n []
    rw [List.append_nil] at h
    exact h.trans of_nat_zero
  rw [of_bits_append, hzero, List.length_replicate, add_zero]

/-- Bits with a one among them are not the zero polynomial. -/
theorem of_bits_ne_zero {bits : List Bool} (h : true ∈ bits) : ofBits bits ≠ 0 := by
  intro hzero
  have hnat : Bits.toNat bits = 0 := of_nat_eq_zero.mp hzero
  induction bits with
  | nil => simp at h
  | cons bit bits ih =>
      rw [Bits.to_nat_cons] at hnat
      have hpos : 0 < 2 ^ bits.length := Nat.two_pow_pos _
      rcases List.mem_cons.mp h with rfl | hmem
      · simp only [Bool.toNat_true] at hnat
        omega
      · exact ih hmem (of_nat_eq_zero.mpr (by omega)) (by omega)

/-! ## Remainders -/

section Remainders

variable {g width : Nat}

/-- A number of `width + 1` bits is a monic polynomial of that degree. -/
theorem degree_generator (hlow : 2 ^ width ≤ g) (hhigh : g < 2 ^ (width + 1)) :
    (ofNat g).Monic ∧ (ofNat g).natDegree = width := by
  have hcoeff : (ofNat g).coeff width = 1 := by
    have hbit : g.testBit width = true := by
      rw [Nat.testBit_eq_decide_div_mod_eq, decide_eq_true_eq]
      have hdiv : g / 2 ^ width = 1 := by
        rw [Nat.div_eq_iff (Nat.two_pow_pos width)]
        rw [Nat.pow_succ] at hhigh
        omega
      rw [hdiv]
    rw [coeff_of_nat, hbit]
    rfl
  have hdegree : (ofNat g).natDegree ≤ width := by
    rw [natDegree_le_iff_coeff_eq_zero]
    intro i hi
    rw [coeff_of_nat, Nat.testBit_lt_two_pow
      (Nat.lt_of_lt_of_le hhigh (Nat.pow_le_pow_right (by omega) hi))]
    rfl
  refine ⟨monic_of_natDegree_le_of_coeff_eq_one width hdegree hcoeff, ?_⟩
  refine Nat.le_antisymm hdegree (le_natDegree_of_ne_zero ?_)
  rw [hcoeff]
  exact one_ne_zero

/-- One step of a shift register of `width` bits with feedback `g`. -/
def shift (g width r : Nat) : Nat :=
  if (2 * r).testBit width then 2 * r ^^^ g else 2 * r

/-- The residue of a number's polynomial modulo the generator. -/
noncomputable def residue (g n : Nat) : AdjoinRoot (ofNat g) := AdjoinRoot.mk (ofNat g) (ofNat n)

/-- Residues are added as the numbers are. -/
theorem residue_xor (g m n : Nat) : residue g (m ^^^ n) = residue g m + residue g n := by
  rw [residue, of_nat_xor, map_add]
  rfl

/-- The residue of a number in two parts, of which the high one is shifted. -/
theorem residue_two_pow_mul_add {low k : Nat} (h : low < 2 ^ k) (g high : Nat) :
    residue g (2 ^ k * high + low) =
      residue g high * AdjoinRoot.root (ofNat g) ^ k + residue g low := by
  rw [residue, of_nat_two_pow_mul_add h, map_add, map_mul, map_pow, AdjoinRoot.mk_X]
  rfl

/-- A shift multiplies the residue by a power of the root. -/
theorem residue_two_pow_mul (g n k : Nat) :
    residue g (2 ^ k * n) = residue g n * AdjoinRoot.root (ofNat g) ^ k := by
  rw [residue, of_nat_two_pow_mul, map_mul, map_pow, AdjoinRoot.mk_X]
  rfl

/-- A step of the register multiplies the residue by the root. -/
theorem residue_shift (g width r : Nat) :
    residue g (shift g width r) = residue g r * AdjoinRoot.root (ofNat g) := by
  have hdouble : residue g (2 * r) = residue g r * AdjoinRoot.root (ofNat g) := by
    have h := residue_two_pow_mul g r 1
    rwa [Nat.pow_one, pow_one] at h
  rw [shift]
  split
  · rw [residue_xor, hdouble]
    have hself : residue g g = 0 := AdjoinRoot.mk_self
    rw [hself, add_zero]
  · exact hdouble

/-- A step of the division keeps the register within its width. -/
theorem shift_lt (hlow : 2 ^ width ≤ g) (hhigh : g < 2 ^ (width + 1)) {r : Nat}
    (hr : r < 2 ^ width) : shift g width r < 2 ^ width := by
  have hdouble : 2 * r < 2 ^ (width + 1) := by
    rw [Nat.pow_succ]
    omega
  have hg : g.testBit width = true := by
    rw [Nat.testBit_eq_decide_div_mod_eq, decide_eq_true_eq]
    have hdiv : g / 2 ^ width = 1 := by
      rw [Nat.div_eq_iff (Nat.two_pow_pos width)]
      rw [Nat.pow_succ] at hhigh
      omega
    rw [hdiv]
  have hfew : ∀ n, n < 2 ^ (width + 1) → n.testBit width = false → n < 2 ^ width := by
    intro n hn hbit
    refine Nat.lt_pow_two_of_testBit n fun i hi => ?_
    obtain rfl | hlt := Nat.eq_or_lt_of_le hi
    · exact hbit
    · exact Nat.testBit_lt_two_pow (Nat.lt_of_lt_of_le hn (Nat.pow_le_pow_right (by omega) hlt))
  rw [shift]
  split
  · next hbit =>
      refine hfew _ (Nat.xor_lt_two_pow hdouble hhigh) ?_
      rw [Nat.testBit_xor, hbit, hg]
      rfl
  · next hbit => exact hfew _ hdouble (by simpa using hbit)

/-- A number below the generator that has the residue of a polynomial is its remainder. -/
theorem eq_mod_of_residue (hlow : 2 ^ width ≤ g) (hhigh : g < 2 ^ (width + 1)) {n : Nat}
    (hn : n < 2 ^ width) {p : (ZMod 2)[X]} (h : residue g n = AdjoinRoot.mk (ofNat g) p) :
    ofNat n = p %ₘ ofNat g := by
  obtain ⟨hmonic, hdegree⟩ := degree_generator hlow hhigh
  have hsmall : (ofNat n).degree < (ofNat g).degree := by
    rw [degree_eq_natDegree hmonic.ne_zero, hdegree]
    exact degree_of_nat_lt hn
  rw [← (modByMonic_eq_self_iff hmonic).mpr hsmall]
  exact modByMonic_eq_of_dvd_sub hmonic (AdjoinRoot.mk_eq_mk.mp h)

/-- A generator with a constant term divides no burst of at most as many bits as its degree. -/
theorem not_dvd_burst (hlow : 2 ^ width ≤ g) (hhigh : g < 2 ^ (width + 1))
    (hodd : g.testBit 0 = true) {burst : List Bool} (hlen : burst.length ≤ width)
    (hset : true ∈ burst) (p q : Nat) :
    ¬ ofNat g ∣ ofBits (List.replicate p false ++ burst ++ List.replicate q false) := by
  obtain ⟨hmonic, hdegree⟩ := degree_generator hlow hhigh
  intro hdvd
  rw [of_bits_append_zeros, of_bits_zeros_append] at hdvd
  -- the constant term makes the generator coprime to the power of `X` behind the burst
  have hcoprime : IsCoprime (ofNat g) (X ^ q) := by
    refine IsCoprime.pow_right ?_
    refine ⟨1, -divX (ofNat g), ?_⟩
    have hconst : (ofNat g).coeff 0 = 1 := by
      rw [coeff_of_nat, hodd]
      rfl
    have hsplit := divX_mul_X_add (ofNat g)
    rw [hconst, C_1] at hsplit
    calc 1 * ofNat g + -divX (ofNat g) * X
        = divX (ofNat g) * X + 1 + -divX (ofNat g) * X := by rw [one_mul, hsplit]
      _ = 1 := by ring
  have hburst : ofNat g ∣ ofBits burst := hcoprime.dvd_of_dvd_mul_right hdvd
  have hsmall : (ofBits burst).degree < (ofNat g).degree := by
    rw [degree_eq_natDegree hmonic.ne_zero, hdegree]
    exact degree_of_nat_lt (Nat.lt_of_lt_of_le (Bits.to_nat_lt burst)
      (Nat.pow_le_pow_right (by omega) hlen))
  exact of_bits_ne_zero hset (eq_zero_of_dvd_of_degree_lt hburst hsmall)

end Remainders

end OpenNtrip.BinaryPolynomial
