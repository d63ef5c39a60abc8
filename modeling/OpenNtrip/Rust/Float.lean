import OpenNtrip.Rust.Strings
import Mathlib.Data.Int.Log
import Mathlib.Data.Rat.Floor
import Mathlib.Tactic.FieldSimp
import Mathlib.Tactic.Linarith
import Mathlib.Tactic.Ring

/-!
# Decimal texts of numbers

`{:0width}` of a number, `{:0width.places}` of a floating-point number and `from_str`, which reads
both back. `FloatType` is what the program does with floating-point numbers, and the rational
numbers are floating-point numbers without rounding.
-/

namespace OpenNtrip

/-- A type of floating-point numbers as far as the program uses it: `from_str`, literals, and the
operations on numbers. -/
class FloatType (F : Type) where
  fromStr : Text → Option F
  literal : Rat → F
  add : F → F → F
  div : F → F → F
  neg : F → F
  lt : F → F → Bool

/-! ## Padded numbers -/

/-- A number as `{:0width}` prints it. -/
def padded (width n : Nat) : Text := (decimalText n).leftpad width '0'

/-- A padded number is written in digits. -/
theorem padded_digit {width n : Nat} {c : Char} (h : c ∈ padded width n) : c.isDigit = true := by
  rcases List.mem_append.mp h with hzero | hdigit
  · rw [List.eq_of_mem_replicate hzero]
    rfl
  · exact decimal_text_digit hdigit

/-- A number that fits is written at its width. -/
theorem padded_length {width n : Nat} (hwidth : 0 < width) (h : n < 10 ^ width) :
    (padded width n).length = width := by
  have hlength := (Nat.length_toDigits_le_iff (b := 10) (by omega) hwidth).mpr h
  rw [padded, List.length_leftpad]
  exact Nat.max_eq_left hlength

/-- Leading zeros do not change the value. -/
theorem padded_value (width n : Nat) : Nat.ofDigitChars 10 (padded width n) 0 = n := by
  rw [padded, List.leftpad, Nat.ofDigitChars_append, Nat.ofDigitChars_replicate_zero]
  exact Nat.ofDigitChars_ten_toDigits

/-- Numbers are told apart by their padded digits. -/
theorem padded_injective {width m n : Nat} (h : padded width m = padded width n) : m = n := by
  rw [← padded_value width m, h, padded_value]

theorem padded_ne_nil (width n : Nat) : padded width n ≠ [] :=
  List.append_ne_nil_of_right_ne_nil _ (decimal_text_ne_nil n)

/-- A padded number is read back. -/
theorem parse_padded {width n limit : Nat} (h : n < limit) :
    Text.parseUnsigned limit (padded width n) = some n := by
  have hvalue := padded_value width n
  rw [Text.parse_unsigned_digits (fun _ => padded_digit) (padded_ne_nil width n) (by omega), hvalue]

theorem parse_u8_padded (width : Nat) (n : UInt8) :
    Text.parseU8 (padded width n.toNat) = some n := by
  rw [Text.parseU8, parse_padded n.toNat_lt, Option.map_some, UInt8.ofNat_toNat]

/-! ## Reading -/

namespace Text

/-- A sign and what follows it. -/
def signed {A : Type} (neg : A → A) (read : Text → Option A) : Text → Option A
  | '-' :: s => (read s).map neg
  | '+' :: s => read s
  | s => read s

/-- At least one digit. -/
def natural (s : Text) : Option Int := if s.isEmpty then none else (decimal s).map Int.ofNat

/-- Digits with an optional point, at least one of them. -/
def mantissa (s : Text) : Option Rat :=
  let (whole, fraction) := (s.splitOnce '.').getD (s, [])
  if (whole ++ fraction).isEmpty then none
  else (decimal (whole ++ fraction)).map fun n => (n : Rat) / 10 ^ fraction.length

/-- `f64::from_str` and `f32::from_str` without rounding. The texts of the infinities and of NaN
have no rational value. -/
def toRat : Text → Option Rat :=
  signed (fun x => -x) fun s =>
    match (s.splitOnce 'e').or (s.splitOnce 'E') with
    | none => mantissa s
    | some (digits, exponent) => do
      let m ← mantissa digits
      let e ← signed (fun x => -x) natural exponent
      if 0 ≤ e then some (m * 10 ^ e.toNat) else some (m / 10 ^ (-e).toNat)

end Text

/-- Rational numbers, which are not rounded. -/
instance : FloatType Rat where
  fromStr := Text.toRat
  literal := id
  add a b := a + b
  div a b := a / b
  neg a := -a
  lt a b := decide (a < b)

/-! ## Printing -/

/-- The nearest natural number, the even one of two. -/
def roundHalfEven (x : Rat) : Nat :=
  let n := x.floor.toNat
  let rest := x - n
  if rest < 1 / 2 then n
  else if 1 / 2 < rest then n + 1
  else if n % 2 = 0 then n
  else n + 1

/-- A number as `{:0width.places}` prints it, for at least one place. -/
def fixed (width places : Nat) (x : Rat) : Text :=
  let n := roundHalfEven (|x| * 10 ^ places)
  let sign := if x < 0 then ['-'] else []
  let digits := decimalText (n / 10 ^ places) ++ '.' :: padded places (n % 10 ^ places)
  sign ++ digits.leftpad (width - sign.length) '0'

/-- The whole part of a number that is not negative. -/
theorem floor_bounds {x : Rat} (hx : 0 ≤ x) :
    (x.floor.toNat : Rat) ≤ x ∧ x < (x.floor.toNat : Rat) + 1 := by
  have hnonneg : 0 ≤ x.floor := Rat.le_floor_iff.mpr (by simpa using hx)
  have hcast : (x.floor.toNat : Rat) = (x.floor : Rat) := by
    exact_mod_cast congrArg (fun z : Int => (z : Rat)) (Int.toNat_of_nonneg hnonneg)
  have habove : x < ((x.floor + 1 : Int) : Rat) := Rat.lt_floor_add_one x
  rw [hcast]
  push_cast at habove
  exact ⟨Rat.floor_le x, habove⟩

/-- Rounding is within a half. -/
theorem round_half_even_near {x : Rat} (hx : 0 ≤ x) : |(roundHalfEven x : Rat) - x| ≤ 1 / 2 := by
  obtain ⟨hlow, hhigh⟩ := floor_bounds hx
  rw [abs_le, roundHalfEven]
  split
  · next hless => constructor <;> linarith
  split
  · next hmore =>
      push_cast
      constructor <;> linarith
  split
  · next hmore heven => constructor <;> linarith
  · next hless hmore heven =>
      push_cast
      constructor <;> linarith

/-- What is below the half above a number is rounded to at most the number. -/
theorem round_half_even_le {x : Rat} {n : Nat} (hx : 0 ≤ x) (h : x < n + 1 / 2) :
    roundHalfEven x ≤ n := by
  have hnear := (abs_le.mp (round_half_even_near hx)).2
  have hlt : (roundHalfEven x : Rat) < ((n + 1 : Nat) : Rat) := by
    push_cast
    linarith
  exact Nat.lt_succ_iff.mp (Nat.cast_lt.mp hlt)

/-- Padding a text is padding what it starts with. -/
theorem leftpad_append (width : Nat) (first last : Text) :
    (first ++ last).leftpad (width + last.length) '0' = first.leftpad width '0' ++ last := by
  rw [List.leftpad, List.leftpad, List.length_append, Nat.add_sub_add_right, List.append_assoc]

/-- A number that is not negative, printed with its whole part in `width` digits. -/
theorem fixed_nonneg {width places : Nat} {x : Rat} (hx : 0 ≤ x) (hplaces : 0 < places) :
    fixed (width + (places + 1)) places x =
      padded width (roundHalfEven (x * 10 ^ places) / 10 ^ places) ++
        '.' :: padded places (roundHalfEven (x * 10 ^ places) % 10 ^ places) := by
  have hlength : (padded places (roundHalfEven (x * 10 ^ places) % 10 ^ places)).length = places :=
    padded_length hplaces (Nat.mod_lt _ (by positivity))
  have hwidth : width + (places + 1) =
      width + ('.' :: padded places (roundHalfEven (x * 10 ^ places) % 10 ^ places)).length := by
    rw [List.length_cons, hlength]
  rw [fixed, abs_of_nonneg hx, if_neg (not_lt.mpr hx)]
  show List.leftpad (width + (places + 1)) '0' _ = _
  rw [hwidth, leftpad_append]
  rfl

/-! ## Reading what was printed -/

/-- A text without a sign is read as it is. -/
theorem signed_none {A : Type} (neg : A → A) (read : Text → Option A) {s : Text}
    (hminus : '-' ∉ s) (hplus : '+' ∉ s) : Text.signed neg read s = read s := by
  unfold Text.signed
  split
  · exact absurd List.mem_cons_self hminus
  · exact absurd List.mem_cons_self hplus
  · rfl

/-- Digits and points have neither a sign nor an exponent. -/
theorem to_rat_mantissa {s : Text} (h : ∀ c ∈ s, c.isDigit = true ∨ c = '.') :
    Text.toRat s = Text.mantissa s := by
  have hnot : ∀ c : Char, c.isDigit = false → c ≠ '.' → c ∉ s := by
    intro c hdigit hpoint hmem
    rcases h c hmem with hc | hc
    · rw [hc] at hdigit
      exact absurd hdigit (by decide)
    · exact hpoint hc
  rw [Text.toRat, signed_none _ _ (hnot '-' rfl (by decide)) (hnot '+' rfl (by decide)),
    Text.split_once_none (hnot 'e' rfl (by decide)),
    Text.split_once_none (hnot 'E' rfl (by decide))]
  rfl

/-- A text of digits with a point is read digit by digit. -/
theorem to_rat_point {whole fraction : Text} (hwhole : ∀ c ∈ whole, c.isDigit = true)
    (hfraction : ∀ c ∈ fraction, c.isDigit = true) (hne : whole ≠ []) :
    Text.toRat (whole ++ '.' :: fraction) =
      some ((Nat.ofDigitChars 10 (whole ++ fraction) 0 : Rat) / 10 ^ fraction.length) := by
  have hchars : ∀ c ∈ whole ++ '.' :: fraction, c.isDigit = true ∨ c = '.' := by
    intro c hc
    rcases List.mem_append.mp hc with hc | hc
    · exact .inl (hwhole c hc)
    · rcases List.mem_cons.mp hc with hc | hc
      · exact .inr hc
      · exact .inl (hfraction c hc)
  have hpoint : '.' ∉ whole := fun hmem => absurd (hwhole '.' hmem) (by decide)
  have hdigits : ∀ c ∈ whole ++ fraction, c.isDigit = true := fun c hc =>
    (List.mem_append.mp hc).elim (hwhole c) (hfraction c)
  have hnonempty : (whole ++ fraction).isEmpty = false := by
    rw [List.isEmpty_eq_false_iff]
    exact List.append_ne_nil_of_left_ne_nil hne _
  rw [to_rat_mantissa hchars, Text.mantissa, Text.split_once_append hpoint]
  show (if (whole ++ fraction).isEmpty = true then _ else _) = _
  rw [hnonempty, Text.decimal_digits hdigits]
  rfl

/-- A text of digits is read as their number. -/
theorem to_rat_digits {s : Text} (h : ∀ c ∈ s, c.isDigit = true) (hne : s ≠ []) :
    Text.toRat s = some (Nat.ofDigitChars 10 s 0 : Rat) := by
  have hpoint : '.' ∉ s := fun hmem => absurd (h '.' hmem) (by decide)
  have hnonempty : s.isEmpty = false := by simpa using hne
  rw [to_rat_mantissa fun c hc => .inl (h c hc), Text.mantissa, Text.split_once_none hpoint]
  show (if (s ++ []).isEmpty = true then _ else _) = _
  rw [List.append_nil, hnonempty, Text.decimal_digits h]
  show some ((Nat.ofDigitChars 10 s 0 : Rat) / 10 ^ 0) = _
  rw [pow_zero, div_one]

/-- A padded number is read back as a number without decimals. -/
theorem to_rat_padded (width n : Nat) : Text.toRat (padded width n) = some (n : Rat) := by
  rw [to_rat_digits (fun _ => padded_digit) (padded_ne_nil width n), padded_value]

/-- What is printed with a point is read back as the rounded number. -/
theorem to_rat_padded_point {places : Nat} (hplaces : 0 < places) (width n : Nat) :
    Text.toRat (padded width (n / 10 ^ places) ++ '.' :: padded places (n % 10 ^ places)) =
      some ((n : Rat) / 10 ^ places) := by
  have hlength : (padded places (n % 10 ^ places)).length = places :=
    padded_length hplaces (Nat.mod_lt _ (by positivity))
  have hvalue : Nat.ofDigitChars 10
      (padded width (n / 10 ^ places) ++ padded places (n % 10 ^ places)) 0 = n := by
    rw [Nat.ofDigitChars_append, padded_value, Nat.ofDigitChars_eq_ofDigitChars_zero, hlength,
      padded_value]
    exact Nat.div_add_mod n _
  rw [to_rat_point (fun _ => padded_digit) (fun _ => padded_digit) (padded_ne_nil _ _), hvalue,
    hlength]

/-! ## Arithmetic and conversions of `f64` -/

namespace F64

/-- The double nearest to a number, of two the one with an even significand: 52 bits follow the
first one, fewer below the normal numbers. From 2^1024 on there is none. -/
def nearest (x : Rat) : F64 :=
  let unit : Rat := 2 ^ (Max.max (Int.log 2 |x|) (-1022) - 52)
  let size := roundHalfEven (|x| / unit) * unit
  if 2 ^ 1024 ≤ size then .infinite (decide (x < 0)) else .finite (if x < 0 then -size else size)

/-- `f64::mul`. -/
def mul : F64 → F64 → F64
  | .finite x, .finite y => nearest (x * y)
  | .finite x, .infinite negative | .infinite negative, .finite x =>
    if x = 0 then .nan else .infinite (decide (x < 0) != negative)
  | .infinite negative, .infinite negative' => .infinite (negative != negative')
  | _, _ => .nan

/-- `f64::round`: half-way cases away from zero. -/
def round : F64 → F64
  | .finite x => .finite (if x < 0 then -(-x + 1 / 2).floor else (x + 1 / 2).floor)
  | x => x

/-- `as i32`: towards zero, saturating, and zero for NaN. -/
def toI32 : F64 → Int32
  | .finite x =>
    let whole : Int := if x < 0 then -(-x).floor else x.floor
    Int32.ofInt (Max.max (-2 ^ 31) (Min.min (2 ^ 31 - 1) whole))
  | .infinite negative => Int32.ofInt (if negative then -2 ^ 31 else 2 ^ 31 - 1)
  | .nan => 0

/-- A natural number is rounded to itself. -/
theorem round_half_even_natCast (n : Nat) : roundHalfEven (n : Rat) = n := by
  have hfloor : (n : Rat).floor.toNat = n := by
    have hcast : (n : Rat).floor = (n : Int) := by exact_mod_cast Rat.floor_intCast (n : Int)
    rw [hcast, Int.toNat_natCast]
  rw [roundHalfEven, hfloor]
  norm_num

/-- An integer of at most 53 bits is a double. -/
theorem nearest_intCast {n : Int} (h : |n| < 2 ^ 53) : nearest (n : Rat) = .finite n := by
  have hlarge : |(n : Rat)| < 2 ^ 53 := by exact_mod_cast h
  obtain ⟨k, hk⟩ : ∃ k : Nat, Max.max (Int.log 2 |(n : Rat)|) (-1022) - 52 = -(k : Int) := by
    have hlog : Int.log 2 |(n : Rat)| ≤ 52 := by
      rcases eq_or_ne n 0 with rfl | hne
      · simp
      · have hpos : 0 < |(n : Rat)| := abs_pos.mpr (by exact_mod_cast hne)
        have hle := Int.zpow_log_le_self (b := 2) (by omega) hpos
        have hlt : (2 : Rat) ^ Int.log 2 |(n : Rat)| < (2 : Rat) ^ (53 : Int) := by
          exact_mod_cast hle.trans_lt hlarge
        have hexponent := (zpow_lt_zpow_iff_right₀ (by norm_num : (1 : Rat) < 2)).mp hlt
        omega
    refine ⟨(52 - Max.max (Int.log 2 |(n : Rat)|) (-1022)).toNat, ?_⟩
    omega
  have hscaled : |(n : Rat)| / 2 ^ (-(k : Int)) = ((n.natAbs * 2 ^ k : Nat) : Rat) := by
    rw [zpow_neg, div_inv_eq_mul, zpow_natCast, Nat.cast_mul, Nat.cast_natAbs, Int.cast_abs]
    norm_num
  have hsize : (roundHalfEven (|(n : Rat)| / 2 ^ (-(k : Int))) : Rat) * 2 ^ (-(k : Int)) =
      |(n : Rat)| := by
    rw [hscaled, round_half_even_natCast, ← hscaled]
    exact div_mul_cancel₀ _ (zpow_ne_zero _ (by norm_num))
  rw [nearest]
  simp only [hk, hsize]
  have hbound : (2 : Rat) ^ 53 < 2 ^ 1024 := pow_lt_pow_right₀ (by norm_num) (by norm_num)
  rw [if_neg (not_le.mpr (hlarge.trans hbound))]
  refine congrArg F64.finite ?_
  split
  · next hneg => rw [abs_of_neg hneg, neg_neg]
  · next hnonneg => exact abs_of_nonneg (not_lt.mp hnonneg)

/-- An integer is rounded to itself. -/
theorem round_intCast (n : Int) : round (.finite n) = .finite n := by
  have hhalf : ∀ m : Int, ((m : Rat) + 1 / 2).floor = m := by
    intro m
    have hlow : m ≤ ((m : Rat) + 1 / 2).floor := Rat.le_floor_iff.mpr (by linarith)
    have hhigh : (((m : Rat) + 1 / 2).floor : Rat) < ((m + 1 : Int) : Rat) := by
      have hle := Rat.floor_le ((m : Rat) + 1 / 2)
      push_cast
      linarith
    exact le_antisymm (Int.lt_add_one_iff.mp (Int.cast_lt.mp hhigh)) hlow
  refine congrArg F64.finite ?_
  split
  · have hneg : (-(n : Rat) + 1 / 2).floor = -n := by exact_mod_cast hhalf (-n)
    rw [hneg]
    push_cast
    ring
  · rw [hhalf]

end F64

/-! ## The smaller and the larger number -/

namespace F64

/-- `f64::le`: nothing compares with NaN. -/
def le : F64 → F64 → Bool
  | .finite x, .finite y => decide (x ≤ y)
  | .finite _, .infinite negative => !negative
  | .infinite negative, .finite _ => negative
  | .infinite negative, .infinite negative' => negative || !negative'
  | _, _ => false

/-- `f64::min`. A NaN gives way to the other argument. -/
def min (x y : F64) : F64 :=
  if x = .nan then y else if y = .nan then x else if x.le y then x else y

/-- `f64::max`. A NaN gives way to the other argument. -/
def max (x y : F64) : F64 :=
  if x = .nan then y else if y = .nan then x else if x.le y then y else x

/-- A number is as small as itself, unlike NaN. -/
theorem le_refl {x : F64} (hx : x ≠ .nan) : x.le x = true := by
  cases x with
  | finite value => simp [le]
  | infinite negative => cases negative <;> rfl
  | nan => exact absurd rfl hx

/-- Of two numbers, one is as small as the other. -/
theorem le_total {x y : F64} (hx : x ≠ .nan) (hy : y ≠ .nan) (h : x.le y = false) :
    y.le x = true := by
  cases x with
  | finite value =>
      cases y with
      | finite value' =>
          simp only [le, decide_eq_false_iff_not, not_le, decide_eq_true_eq] at h ⊢
          exact h.le
      | infinite negative => simpa [le] using h
      | nan => exact absurd rfl hy
  | infinite negative =>
      cases y with
      | finite value => simpa [le] using h
      | infinite negative' =>
          simp only [le, Bool.or_eq_false_iff] at h ⊢
          rw [h.1, Bool.not_false, Bool.or_true]
      | nan => exact absurd rfl hy
  | nan => exact absurd rfl hx

/-- The order of the numbers is transitive. -/
theorem le_trans {x y z : F64} (hxy : x.le y = true) (hyz : y.le z = true) : x.le z = true := by
  cases x with
  | finite value =>
      cases y with
      | finite value' =>
          cases z with
          | finite value'' =>
              simp only [le, decide_eq_true_eq] at hxy hyz ⊢
              exact hxy.trans hyz
          | infinite negative => simpa [le] using hyz
          | nan => simp [le] at hyz
      | infinite negative => cases z <;> simp_all [le]
      | nan => simp [le] at hxy
  | infinite negative =>
      cases y with
      | finite value => cases z <;> simp_all [le]
      | infinite negative' =>
          cases z with
          | finite value => cases negative' <;> simp_all [le]
          | infinite negative'' => cases negative' <;> simp_all [le]
          | nan => simp [le] at hyz
      | nan => simp [le] at hxy
  | nan => simp [le] at hxy

/-- The least of the numbers of a list, and one of them. -/
def IsLeast (values : List F64) (m : F64) : Prop := m ∈ values ∧ ∀ v ∈ values, m.le v = true

/-- The greatest of the numbers of a list, and one of them. -/
def IsGreatest (values : List F64) (m : F64) : Prop := m ∈ values ∧ ∀ v ∈ values, v.le m = true

/-- The smaller of the least and another value is the least of all. -/
theorem is_least_min {values : List F64} {m v : F64} (h : IsLeast values m) (hm : m ≠ .nan)
    (hv : v ≠ .nan) : IsLeast (values ++ [v]) (m.min v) := by
  rw [min, if_neg hm, if_neg hv]
  cases hle : m.le v with
  | true =>
      refine ⟨List.mem_append_left _ h.1, fun w hw => ?_⟩
      rcases List.mem_append.mp hw with hw | hw
      · exact h.2 w hw
      · rw [List.mem_singleton.mp hw]
        exact hle
  | false =>
      have hge := le_total hm hv hle
      refine ⟨List.mem_append_right _ (List.mem_singleton_self v), fun w hw => ?_⟩
      rcases List.mem_append.mp hw with hw | hw
      · exact le_trans hge (h.2 w hw)
      · rw [List.mem_singleton.mp hw]
        exact le_refl hv

/-- The greater of the greatest and another value is the greatest of all. -/
theorem is_greatest_max {values : List F64} {m v : F64} (h : IsGreatest values m) (hm : m ≠ .nan)
    (hv : v ≠ .nan) : IsGreatest (values ++ [v]) (m.max v) := by
  rw [max, if_neg hm, if_neg hv]
  cases hle : m.le v with
  | true =>
      refine ⟨List.mem_append_right _ (List.mem_singleton_self v), fun w hw => ?_⟩
      rcases List.mem_append.mp hw with hw | hw
      · exact le_trans (h.2 w hw) hle
      · rw [List.mem_singleton.mp hw]
        exact le_refl hv
  | false =>
      have hge := le_total hm hv hle
      refine ⟨List.mem_append_left _ h.1, fun w hw => ?_⟩
      rcases List.mem_append.mp hw with hw | hw
      · exact h.2 w hw
      · rw [List.mem_singleton.mp hw]
        exact hge

end F64

end OpenNtrip
