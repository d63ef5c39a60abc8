import Mathlib.Data.List.Basic
import Mathlib.Data.List.DropRight
import Mathlib.Data.Nat.Digits.Defs

/-!
# The parts of Rust's standard library the program uses

Byte vectors are lists of `UInt8` and a `String` is the list of its characters. The
functions here follow the documented behaviour of `core` and `alloc`: ASCII classification
and trimming, `String::from_utf8_lossy` with one U+FFFD for each maximal ill-formed
prefix, unsigned decimal parsing with overflow, and searching a slice for a line feed.
-/

namespace OpenNtrip

/-- A `Vec<u8>` or `&[u8]`. -/
abbrev Bytes := List UInt8

/-- A `String` or `&str`, as its Unicode scalar values. -/
abbrev Text := List Char

/-- A byte-string literal `b"..."`. -/
def ascii (s : String) : Bytes := s.toList.map fun c => UInt8.ofNat c.toNat

/-- A line feed, `b'\n'`. -/
def LF : UInt8 := 10

/-- A carriage return, `b'\r'`. -/
def CR : UInt8 := 13

/-! ## Time -/

/-- A monotonic clock reading, in nanoseconds. -/
abbrev Instant := Nat

/-- A `Duration`, in nanoseconds. -/
abbrev Duration := Nat

/-- `Duration::from_secs`. -/
def fromSecs (n : Nat) : Duration := n * 1000000000

/-- `Duration::from_millis`. -/
def fromMillis (n : Nat) : Duration := n * 1000000

/-! ## Floating point -/

/-- An `f64` as the code compares it: its exact value, with one zero, or no finite value. -/
inductive F64 where
  | finite (value : Rat)
  | infinite (negative : Bool)
  | nan
  deriving DecidableEq, Repr

/-- `f64::clamp` and `f32::clamp` between finite bounds: NaN stays. -/
def F64.clamp (low high : Rat) : F64 → F64
  | .finite value => .finite (if value < low then low else if high < value then high else value)
  | .infinite negative => .finite (if negative then low else high)
  | .nan => .nan

/-- `(-bound..=bound).contains(&x)`. -/
def F64.within (bound : Rat) : F64 → Bool
  | .finite value => decide (-bound ≤ value ∧ value ≤ bound)
  | _ => false

/-! ## ASCII -/

/-- `u8::is_ascii_whitespace`: space, tab, line feed, form feed and carriage return. -/
def isAsciiWhitespace (b : UInt8) : Bool := b == 32 || b == 9 || b == 10 || b == 12 || b == 13

/-- `char::is_ascii_whitespace`. -/
def isAsciiWhitespaceChar (c : Char) : Bool :=
  c == ' ' || c == '\t' || c == '\n' || c == '\x0c' || c == '\r'

/-- `u8::is_ascii_alphanumeric`. -/
def isAsciiAlphanumeric (b : UInt8) : Bool :=
  (48 ≤ b && b ≤ 57) || (65 ≤ b && b ≤ 90) || (97 ≤ b && b ≤ 122)

/-- `u8::to_ascii_uppercase`. -/
def toAsciiUpper (b : UInt8) : UInt8 := if 97 ≤ b ∧ b ≤ 122 then b - 32 else b

/-- `<[u8]>::trim_ascii`. -/
def trimAscii (bytes : Bytes) : Bytes :=
  (bytes.dropWhile isAsciiWhitespace).rdropWhile isAsciiWhitespace

/-- `<[u8]>::eq_ignore_ascii_case`. -/
def eqIgnoreAsciiCase (left right : Bytes) : Bool :=
  left.map toAsciiUpper == right.map toAsciiUpper

namespace Text

/-- `str::trim_ascii`. -/
def trimAscii (s : Text) : Text :=
  (s.dropWhile isAsciiWhitespaceChar).rdropWhile isAsciiWhitespaceChar

/-- `str::to_ascii_uppercase`. -/
def toAsciiUppercase (s : Text) : Text := s.map Char.toUpper

/-- `str::to_ascii_lowercase`. -/
def toAsciiLowercase (s : Text) : Text := s.map Char.toLower

/-- `str::starts_with`. -/
def startsWith (s pattern : Text) : Bool := pattern.isPrefixOf s

/-- `str::contains` for a string pattern. -/
def contains (s pattern : Text) : Bool := s.tails.any fun suffix => pattern.isPrefixOf suffix

/-- `str::split_once` for a character. -/
def splitOnce (c : Char) : Text → Option (Text × Text)
  | [] => none
  | d :: rest =>
    if d = c then some ([], rest)
    else (splitOnce c rest).map fun (left, right) => (d :: left, right)

/-- The value of a list of decimal digits, `none` at any other character. -/
def decimal : Text → Option Nat :=
  List.foldl (fun acc c =>
    acc.bind fun n => if c.isDigit then some (10 * n + (c.toNat - 48)) else none) (some 0)

/-- `str::parse` for an unsigned integer type with `limit` values: at least one decimal digit
after an optional plus sign, `none` for anything else and on overflow. -/
def parseUnsigned (limit : Nat) (s : Text) : Option Nat :=
  let digits := match s with
    | '+' :: rest => rest
    | _ => s
  if digits.isEmpty then none
  else (decimal digits).filter fun n => n < limit

/-- `u64::from_str`. -/
def parseU64 (s : Text) : Option Nat := parseUnsigned (2 ^ 64) s

/-- `str::as_bytes`. -/
def toBytes (s : Text) : Bytes := s.flatMap String.utf8EncodeChar

end Text

/-- The decimal digits of a number, as `{}` prints them. -/
def decimalText (n : Nat) : Text := Nat.toDigits 10 n

/-- One hexadecimal digit in upper case. -/
def hexUpper (n : Nat) : Char := (Nat.digitChar n).toUpper

/-- The byte as `{:02X}` prints it. -/
def hexByte (b : UInt8) : Text := [hexUpper (b.toNat / 16), hexUpper (b.toNat % 16)]

/-- The number that a hexadecimal digit stands for: its place among the sixteen digits, which are
written in lower or in upper case. No function of the program computes it. -/
def digitValue (b : UInt8) : Option Nat :=
  ((ascii "0123456789abcdef").idxOf? b).or ((ascii "0123456789ABCDEF").idxOf? b)

/-! ## UTF-8 -/

/-- The replacement character U+FFFD. -/
def replacement : Char := '\uFFFD'

/-- A UTF-8 continuation byte. -/
def isContinuation (b : UInt8) : Bool := 0x80 ≤ b && b ≤ 0xBF

/-- The low six bits of a continuation byte. -/
def continuationBits (b : UInt8) : Nat := b.toNat % 64

/-- Decode the character that starts with byte `b`: the character and how many bytes of `rest`
belong to it. An ill-formed start yields U+FFFD for its longest prefix that could still have
been completed. -/
def decodeFirst (b : UInt8) (rest : Bytes) : Char × Nat :=
  if b < 0x80 then (Char.ofNat b.toNat, 0)
  else if 0xC2 ≤ b ∧ b ≤ 0xDF then
    match rest with
    | c :: _ =>
      if isContinuation c then
        (Char.ofNat ((b.toNat - 0xC0) * 64 + continuationBits c), 1)
      else (replacement, 0)
    | [] => (replacement, 0)
  else if 0xE0 ≤ b ∧ b ≤ 0xEF then
    -- the second byte excludes overlong forms and surrogates
    let low : UInt8 := if b = 0xE0 then 0xA0 else 0x80
    let high : UInt8 := if b = 0xED then 0x9F else 0xBF
    match rest with
    | c :: d :: _ =>
      if low ≤ c ∧ c ≤ high then
        if isContinuation d then
          (Char.ofNat
            ((b.toNat - 0xE0) * 4096 + continuationBits c * 64 + continuationBits d), 2)
        else (replacement, 1)
      else (replacement, 0)
    | [c] => if low ≤ c ∧ c ≤ high then (replacement, 1) else (replacement, 0)
    | [] => (replacement, 0)
  else if 0xF0 ≤ b ∧ b ≤ 0xF4 then
    let low : UInt8 := if b = 0xF0 then 0x90 else 0x80
    let high : UInt8 := if b = 0xF4 then 0x8F else 0xBF
    match rest with
    | c :: d :: e :: _ =>
      if low ≤ c ∧ c ≤ high then
        if isContinuation d then
          if isContinuation e then
            (Char.ofNat
              ((b.toNat - 0xF0) * 262144 + continuationBits c * 4096 +
                continuationBits d * 64 + continuationBits e), 3)
          else (replacement, 2)
        else (replacement, 1)
      else (replacement, 0)
    | [c, d] =>
      if low ≤ c ∧ c ≤ high then
        if isContinuation d then (replacement, 2) else (replacement, 1)
      else (replacement, 0)
    | [c] => if low ≤ c ∧ c ≤ high then (replacement, 1) else (replacement, 0)
    | [] => (replacement, 0)
  else (replacement, 0)

/-- Decode after skipping the bytes that belong to the character decoded last. -/
def decodeLossy : Nat → Bytes → Text
  | _, [] => []
  | skip + 1, _ :: rest => decodeLossy skip rest
  | 0, b :: rest =>
    let (c, used) := decodeFirst b rest
    c :: decodeLossy used rest

/-- `String::from_utf8_lossy`. -/
def fromUtf8Lossy (bytes : Bytes) : Text := decodeLossy 0 bytes

/-- ASCII bytes decode to themselves. -/
theorem from_utf8_lossy_ascii {bytes : Bytes} (h : ∀ b ∈ bytes, b < 0x80) :
    fromUtf8Lossy bytes = bytes.map fun b => Char.ofNat b.toNat := by
  unfold fromUtf8Lossy
  induction bytes with
  | nil => rfl
  | cons b rest ih =>
      have hb : b < 0x80 := h b List.mem_cons_self
      have hrest := ih fun c hc => h c (List.mem_cons_of_mem _ hc)
      simp [decodeLossy, decodeFirst, hb, hrest]

/-- ASCII bytes survive decoding and encoding. -/
theorem to_bytes_from_utf8_lossy {bytes : Bytes} (h : ∀ b ∈ bytes, b < 0x80) :
    (fromUtf8Lossy bytes).toBytes = bytes := by
  have hencode : ∀ n < 128, String.utf8EncodeChar (Char.ofNat n) = [UInt8.ofNat n] := by decide
  rw [from_utf8_lossy_ascii h, Text.toBytes]
  induction bytes with
  | nil => rfl
  | cons b rest ih =>
      have hb : b.toNat < 128 := h b List.mem_cons_self
      rw [List.map_cons, List.flatMap_cons, hencode _ hb, UInt8.ofNat_toNat,
        ih fun c hc => h c (List.mem_cons_of_mem _ hc)]
      rfl

/-! ## Lines -/

/-- The bytes before the first line feed and those after it, which is how the program slices at
`iter().position(|&b| b == b'\n')`; `none` when there is no line feed. -/
def splitLine : Bytes → Option (Bytes × Bytes)
  | [] => none
  | b :: rest =>
    if b = LF then some ([], rest)
    else (splitLine rest).map fun (line, after) => (b :: line, after)

/-- The line without one trailing carriage return. -/
def stripCr (line : Bytes) : Bytes := if line.getLast? = some CR then line.dropLast else line

@[simp] theorem split_line_nil : splitLine [] = none := rfl

/-- `splitLine` finds the first line feed. -/
theorem split_line_eq_some {bytes line after : Bytes} :
    splitLine bytes = some (line, after) ↔ bytes = line ++ LF :: after ∧ LF ∉ line := by
  induction bytes generalizing line with
  | nil => simp
  | cons b rest ih =>
      by_cases hb : b = LF
      · subst hb
        constructor
        · intro h
          obtain ⟨rfl, rfl⟩ : [] = line ∧ rest = after := by simpa [splitLine] using h
          simp
        · rintro ⟨heq, hnot⟩
          cases line with
          | nil => simpa [splitLine] using heq
          | cons c line => simp_all
      · constructor
        · intro h
          obtain ⟨⟨l, a⟩, hl, hpair⟩ :
              ∃ p, splitLine rest = some p ∧ (b :: p.1, p.2) = (line, after) := by
            simpa [splitLine, hb] using h
          obtain ⟨rfl, rfl⟩ := Prod.mk.inj hpair
          obtain ⟨rfl, hnot⟩ := ih.mp hl
          exact ⟨rfl, by simp [hnot, Ne.symm hb]⟩
        · rintro ⟨heq, hnot⟩
          cases line with
          | nil => exact absurd (List.cons.inj heq).1 hb
          | cons c line =>
              obtain ⟨rfl, rfl⟩ := List.cons.inj heq
              have hline : splitLine (line ++ LF :: after) = some (line, after) :=
                ih.mpr ⟨rfl, fun hmem => hnot (List.mem_cons_of_mem _ hmem)⟩
              simp [splitLine, hb, hline]

/-- `splitLine` fails exactly when there is no line feed. -/
theorem split_line_eq_none {bytes : Bytes} : splitLine bytes = none ↔ LF ∉ bytes := by
  induction bytes with
  | nil => simp
  | cons b rest ih =>
      by_cases hb : b = LF
      · simp [splitLine, hb]
      · simp [splitLine, hb, ih, Ne.symm hb]

/-- Further bytes do not change a line that has ended. -/
theorem split_line_append_of_some {bytes line after : Bytes}
    (h : splitLine bytes = some (line, after)) (more : Bytes) :
    splitLine (bytes ++ more) = some (line, after ++ more) := by
  obtain ⟨rfl, hnot⟩ := split_line_eq_some.mp h
  exact split_line_eq_some.mpr ⟨by simp, hnot⟩

/-- Further bytes extend a line that has not ended. -/
theorem split_line_append_of_none {bytes : Bytes} (h : splitLine bytes = none) (more : Bytes) :
    splitLine (bytes ++ more) =
      (splitLine more).map fun (line, after) => (bytes ++ line, after) := by
  have hnot := split_line_eq_none.mp h
  cases hmore : splitLine more with
  | none =>
      refine split_line_eq_none.mpr fun hmem => ?_
      rcases List.mem_append.mp hmem with hmem | hmem
      · exact hnot hmem
      · exact split_line_eq_none.mp hmore hmem
  | some pair =>
      obtain ⟨rfl, hline⟩ := split_line_eq_some.mp hmore
      exact split_line_eq_some.mpr ⟨by simp, by simp [hnot, hline]⟩

/-- The bytes after a line are fewer than the bytes it was split from. -/
theorem split_line_length {bytes line after : Bytes} (h : splitLine bytes = some (line, after)) :
    bytes.length = line.length + 1 + after.length := by
  obtain ⟨rfl, -⟩ := split_line_eq_some.mp h
  simp only [List.length_append, List.length_cons]
  omega

end OpenNtrip
