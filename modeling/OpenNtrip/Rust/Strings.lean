import OpenNtrip.Rust.Std
import Mathlib.Data.List.TakeWhile

/-!
# Text as Rust's `str` sees it

White space in the sense of Unicode, and the trimming that follows from it. A text is `trimmed`
if trimming leaves it alone.
-/

namespace OpenNtrip

/-- `char::is_whitespace`: the characters with the property White_Space. -/
def isWhitespace (c : Char) : Bool :=
  let n := c.toNat
  (9 ≤ n && n ≤ 13) || n == 0x20 || n == 0x85 || n == 0xA0 || n == 0x1680 ||
    (0x2000 ≤ n && n ≤ 0x200A) || n == 0x2028 || n == 0x2029 || n == 0x202F || n == 0x205F ||
    n == 0x3000

/-- The decimal digits lie between zero and nine. -/
theorem is_digit_iff {c : Char} : c.isDigit = true ↔ 48 ≤ c.toNat ∧ c.toNat ≤ 57 := by
  simp only [Char.isDigit, Bool.and_eq_true, decide_eq_true_eq, ge_iff_le,
    UInt32.le_iff_toNat_le]
  exact Iff.rfl

theorem digit_lt {c : Char} (h : c.isDigit = true) : c.toNat < 0x80 :=
  Nat.lt_of_le_of_lt (is_digit_iff.mp h).2 (by decide)

/-- An ASCII character is a digit if its byte is. -/
theorem digit_byte {c : Char} (h : c.toNat < 0x80) :
    (48 ≤ UInt8.ofNat c.toNat && UInt8.ofNat c.toNat ≤ 57) = c.isDigit := by
  have hnat : (UInt8.ofNat c.toNat).toNat = c.toNat :=
    UInt8.toNat_ofNat_of_lt' (by rw [UInt8.size]; omega)
  rw [Bool.eq_iff_iff, is_digit_iff, Bool.and_eq_true, decide_eq_true_eq, decide_eq_true_eq,
    UInt8.le_iff_toNat_le, UInt8.le_iff_toNat_le, hnat]
  rfl

/-- Decimal digits are not white space. -/
theorem is_whitespace_of_digit {c : Char} (h : c.isDigit = true) : isWhitespace c = false := by
  obtain ⟨hlow, hhigh⟩ := is_digit_iff.mp h
  simp only [isWhitespace, Bool.or_eq_false_iff, Bool.and_eq_false_iff, decide_eq_false_iff_not,
    beq_eq_false_iff_ne]
  omega

/-- Only capital letters have another lower case. -/
theorem to_lower_eq {c : Char} (h : c.isUpper = false) : c.toLower = c := by
  have hrange : ¬ (c.val ≥ 'A'.val ∧ c.val ≤ 'Z'.val) := of_decide_eq_false h
  exact dif_neg hrange

theorem to_lower_digit {c : Char} (h : c.isDigit = true) : c.toLower = c := by
  have hhigh : c.val.toNat ≤ 57 := (is_digit_iff.mp h).2
  refine to_lower_eq (decide_eq_false ?_)
  rintro ⟨hcapital, -⟩
  have hlow : 65 ≤ c.val.toNat := UInt32.le_iff_toNat_le.mp hcapital
  omega

/-- Letters and digits lie between the digit zero and the small z. -/
theorem alphanum_bounds {c : Char} (h : c.isAlphanum = true) : 48 ≤ c.toNat ∧ c.toNat ≤ 122 := by
  have hrange : ∀ low high : Char, low.val ≤ c.val ∧ c.val ≤ high.val → 48 ≤ low.toNat →
      high.toNat ≤ 122 → 48 ≤ c.toNat ∧ c.toNat ≤ 122 := fun low high h hlow hhigh =>
    ⟨le_trans hlow (UInt32.le_iff_toNat_le.mp h.1), le_trans (UInt32.le_iff_toNat_le.mp h.2) hhigh⟩
  rcases Bool.or_eq_true_iff.mp h with halpha | hdigit
  · rcases Bool.or_eq_true_iff.mp halpha with hupper | hlower
    · exact hrange 'A' 'Z' (of_decide_eq_true hupper) (by decide) (by decide)
    · obtain ⟨hfrom, hto⟩ := Bool.and_eq_true_iff.mp hlower
      exact hrange 'a' 'z' ⟨of_decide_eq_true hfrom, of_decide_eq_true hto⟩ (by decide) (by decide)
  · obtain ⟨hfrom, hto⟩ := Bool.and_eq_true_iff.mp hdigit
    exact hrange '0' '9' ⟨of_decide_eq_true hfrom, of_decide_eq_true hto⟩ (by decide) (by decide)

namespace Text

/-- `str::trim_start`. -/
def trimStart (s : Text) : Text := s.dropWhile isWhitespace

/-- `str::trim_end`. -/
def trimEnd (s : Text) : Text := s.rdropWhile isWhitespace

/-- `str::trim`. -/
def trim (s : Text) : Text := trimEnd (trimStart s)

/-- `str::eq_ignore_ascii_case`. -/
def eqIgnoreCase (s t : Text) : Bool := s.toAsciiLowercase == t.toAsciiLowercase

/-- One carriage return less at the end of a line that a line feed ended. -/
def stripCr (line : Text) : Text := if line.getLast? = some '\r' then line.dropLast else line

/-- `str::lines`. What follows the last line feed is a line unless it is empty. -/
def lines (s : Text) : List Text :=
  let parts := s.splitOn '\n'
  parts.dropLast.map stripCr ++ parts.getLast?.toList.filter (· ≠ [])

/-- The text neither starts nor ends with white space. -/
def Trimmed (s : Text) : Prop := s.trim = s

theorem trim_start_eq_self {s : Text} :
    s.trimStart = s ↔ ∀ c ∈ s.head?, isWhitespace c = false := by
  cases s with
  | nil => simp [trimStart]
  | cons c rest =>
      simp only [trimStart, List.head?_cons, Option.mem_some_iff, forall_eq']
      cases hc : isWhitespace c with
      | false => simp [hc]
      | true =>
          have hlength := (List.dropWhile_suffix isWhitespace (l := rest)).length_le
          simp only [List.dropWhile_cons_of_pos hc, Bool.true_eq_false, iff_false]
          intro heq
          have := congrArg List.length heq
          rw [List.length_cons] at this
          omega

theorem trim_end_eq_self {s : Text} :
    s.trimEnd = s ↔ ∀ c ∈ s.getLast?, isWhitespace c = false := by
  rw [trimEnd, List.rdropWhile_eq_self_iff]
  cases hs : s.getLast? with
  | none => simp [List.getLast?_eq_none_iff.mp hs]
  | some c =>
      obtain ⟨hne, rfl⟩ := List.mem_getLast?_eq_getLast hs
      simp [hne]

/-- A text is trimmed if neither end of it is white space. -/
theorem trimmed_iff {s : Text} : s.Trimmed ↔ s.trimStart = s ∧ s.trimEnd = s := by
  constructor
  · intro h
    have hend := (List.rdropWhile_prefix isWhitespace s.trimStart).length_le
    have hstart := List.dropWhile_suffix isWhitespace (l := s)
    have hsame : s.trimStart = s := by
      refine hstart.eq_of_length_le ?_
      have := congrArg List.length h
      simp only [trim, trimEnd, trimStart] at this hend ⊢
      omega
    refine ⟨hsame, ?_⟩
    rw [Trimmed, trim, hsame] at h
    exact h
  · rintro ⟨hstart, hend⟩
    rw [Trimmed, trim, hstart, hend]

/-- Trimming yields a trimmed text. -/
theorem trim_trimmed (s : Text) : s.trim.Trimmed := by
  rw [trimmed_iff]
  constructor
  · rw [trim_start_eq_self]
    intro c hc
    -- The first character is that of the text without its leading white space.
    have hprefix : s.trim <+: s.trimStart := List.rdropWhile_prefix isWhitespace _
    obtain ⟨rest, hrest⟩ := hprefix
    have hhead : c ∈ s.trimStart.head? := by
      rw [← hrest, List.head?_append, Option.mem_def.mp hc]
      rfl
    have hsame : s.trimStart.trimStart = s.trimStart := List.dropWhile_idempotent isWhitespace _
    exact trim_start_eq_self.mp hsame c hhead
  · exact List.rdropWhile_idempotent isWhitespace _

/-- A trimmed text can be continued by one that does not end in white space. -/
theorem Trimmed.append {s t : Text} (hs : s.Trimmed) (hs0 : s ≠ []) (ht0 : t ≠ [])
    (ht : ∀ c ∈ t.getLast?, isWhitespace c = false) : Trimmed (s ++ t) := by
  have hstart := trim_start_eq_self.mp (trimmed_iff.mp hs).1
  rw [trimmed_iff, trim_start_eq_self, trim_end_eq_self]
  constructor
  · intro c hc
    rw [List.head?_append, List.head?_eq_some_head hs0] at hc
    exact hstart c (by rw [List.head?_eq_some_head hs0]; exact hc)
  · intro c hc
    rw [List.getLast?_append, List.getLast?_eq_some_getLast ht0] at hc
    exact ht c (by rw [List.getLast?_eq_some_getLast ht0]; exact hc)

/-- Trimming the start stops at a character that is not white space. -/
theorem trim_start_append {s : Text} {c : Char} (hc : isWhitespace c = false) (t : Text) :
    trimStart (s ++ c :: t) = s.trimStart ++ c :: t := by
  rw [trimStart, List.dropWhile_append, List.dropWhile_cons_of_neg (by simp [hc])]
  split
  · next hempty => rw [trimStart, List.isEmpty_iff.mp hempty, List.nil_append]
  · rfl

/-- Trimming the end stops there too. -/
theorem trim_end_append {c : Char} (hc : isWhitespace c = false) (s t : Text) :
    trimEnd (s ++ c :: t) = s ++ c :: t.trimEnd := by
  induction t using List.reverseRecOn with
  | nil => rw [trimEnd, List.rdropWhile_concat_neg _ _ _ (by simp [hc])]; rfl
  | append_singleton t d ih =>
      have hassoc : s ++ c :: (t ++ [d]) = (s ++ c :: t) ++ [d] := by simp
      by_cases hd : isWhitespace d = true
      · rw [hassoc, trimEnd, List.rdropWhile_concat_pos _ _ _ hd, trimEnd,
          List.rdropWhile_concat_pos _ _ _ hd]
        exact ih
      · rw [hassoc, trimEnd, List.rdropWhile_concat_neg _ _ _ hd, trimEnd,
          List.rdropWhile_concat_neg _ _ _ hd, hassoc]

/-- The two texts around a character that is not white space are trimmed apart. -/
theorem trim_append {c : Char} (hc : isWhitespace c = false) (s t : Text) :
    trim (s ++ c :: t) = s.trimStart ++ c :: t.trimEnd := by
  rw [trim, trim_start_append hc, trim_end_append hc]

/-- White space at the end is trimmed. -/
theorem trim_concat_whitespace {c : Char} (hc : isWhitespace c = true) (s : Text) :
    trim (s ++ [c]) = s.trim := by
  rw [trim, trimStart, List.dropWhile_append]
  split
  · next hempty =>
      rw [trim, trimStart, List.isEmpty_iff.mp hempty, List.dropWhile_cons_of_pos hc,
        List.dropWhile_nil]
  · rw [trimEnd, List.rdropWhile_concat_pos _ _ _ hc]
    rfl

theorem trim_strip_cr (line : Text) : (stripCr line).trim = line.trim := by
  unfold stripCr
  split
  · next hlast =>
      obtain ⟨init, rfl⟩ := List.getLast?_eq_some_iff.mp hlast
      rw [List.dropLast_concat, trim_concat_whitespace (by decide)]
  · rfl

/-- A text without its leading white space is the trimmed one and white space. -/
theorem trim_start_eq (s : Text) : ∃ space : Text, s.trimStart = s.trim ++ space ∧
    ∀ c ∈ space, isWhitespace c = true :=
  ⟨s.trimStart.rtakeWhile isWhitespace,
    List.rdropWhile_append_rtakeWhile.symm,
    fun _ => List.mem_rtakeWhile_imp⟩

/-- `splitOnce` cuts at the first occurrence. -/
theorem split_once_append {c : Char} {s : Text} (h : c ∉ s) (t : Text) :
    splitOnce c (s ++ c :: t) = some (s, t) := by
  induction s with
  | nil => simp [splitOnce]
  | cons d rest ih =>
      have hd : d ≠ c := fun heq => h (heq ▸ List.mem_cons_self)
      rw [List.cons_append, splitOnce, if_neg hd, ih fun hmem => h (List.mem_cons_of_mem _ hmem)]
      rfl

theorem split_once_none {c : Char} {s : Text} (h : c ∉ s) : splitOnce c s = none := by
  induction s with
  | nil => rfl
  | cons d rest ih =>
      have hd : d ≠ c := fun heq => h (heq ▸ List.mem_cons_self)
      rw [splitOnce, if_neg hd, ih fun hmem => h (List.mem_cons_of_mem _ hmem)]
      rfl

/-! ## Parts -/

/-- White space at the start is trimmed. -/
theorem trim_space_append {space : Text} (h : ∀ c ∈ space, isWhitespace c = true) (s : Text) :
    trim (space ++ s) = s.trim := by
  rw [trim, trimStart, List.dropWhile_append_of_pos h]
  rfl

theorem trim_append_space {space : Text} (h : ∀ c ∈ space, isWhitespace c = true) (s : Text) :
    trim (s ++ space) = s.trim := by
  induction space using List.reverseRecOn with
  | nil => rw [List.append_nil]
  | append_singleton space c ih =>
      rw [← List.append_assoc, trim_concat_whitespace (h c (by simp))]
      exact ih fun d hd => h d (List.mem_append_left _ hd)

section Parts

variable {c : Char} (hc : isWhitespace c = false) {space : Text}
  (hspace : ∀ d ∈ space, isWhitespace d = true)
include hc hspace

theorem not_mem_space : c ∉ space := by
  intro hmem
  have hwhite := hspace c hmem
  rw [hc] at hwhite
  exact absurd hwhite (by decide)

/-- White space at the start does not show in the trimmed parts. -/
theorem parts_space_append (s : Text) :
    ((space ++ s).splitOn c).map trim = (s.splitOn c).map trim := by
  have hnot := not_mem_space hc hspace
  by_cases hmem : c ∈ s
  · obtain ⟨n, rest, rfl, hn⟩ := List.eq_append_cons_of_mem hmem
    have hboth : c ∉ space ++ n := fun hin => (List.mem_append.mp hin).elim hnot hn
    rw [← List.append_assoc, List.splitOn_append_cons_self, List.splitOn_append_cons_self,
      List.splitOn_eq_singleton hboth, List.splitOn_eq_singleton hn, List.map_append,
      List.map_append, List.map_singleton, List.map_singleton, trim_space_append hspace]
  · have hboth : c ∉ space ++ s := fun hin => (List.mem_append.mp hin).elim hnot hmem
    rw [List.splitOn_eq_singleton hboth, List.splitOn_eq_singleton hmem, List.map_singleton,
      List.map_singleton, trim_space_append hspace]

/-- Nor does white space at the end. -/
theorem parts_append_space (s : Text) :
    ((s ++ space).splitOn c).map trim = (s.splitOn c).map trim := by
  have hnot := not_mem_space hc hspace
  induction hlength : s.length using Nat.strong_induction_on generalizing s with
  | _ length ih =>
      by_cases hmem : c ∈ s
      · obtain ⟨n, rest, rfl, hn⟩ := List.eq_append_cons_of_mem hmem
        have hshorter : rest.length < length := by
          rw [← hlength, List.length_append, List.length_cons]
          omega
        rw [List.append_assoc, List.cons_append, List.splitOn_append_cons_self,
          List.splitOn_append_cons_self, List.map_append, List.map_append,
          ih rest.length hshorter rest rfl]
      · have hboth : c ∉ s ++ space := fun hin => (List.mem_append.mp hin).elim hmem hnot
        rw [List.splitOn_eq_singleton hboth, List.splitOn_eq_singleton hmem, List.map_singleton,
          List.map_singleton, trim_append_space hspace]

end Parts

/-- The trimmed parts of a text are those of the trimmed text. -/
theorem parts_trim {c : Char} (hc : isWhitespace c = false) (s : Text) :
    (s.trim.splitOn c).map trim = (s.splitOn c).map trim := by
  obtain ⟨behind, hbehind, hspace⟩ := trim_start_eq s
  have hbefore : ∀ d ∈ s.takeWhile isWhitespace, isWhitespace d = true :=
    fun _ hd => List.mem_takeWhile_imp hd
  calc (s.trim.splitOn c).map trim
      = (s.trimStart.splitOn c).map trim := by
        rw [hbehind, parts_append_space hc hspace]
    _ = ((s.takeWhile isWhitespace ++ s.trimStart).splitOn c).map trim :=
        (parts_space_append hc hbefore _).symm
    _ = (s.splitOn c).map trim := by
        rw [trimStart, List.takeWhile_append_dropWhile]

/-- Every character takes at least one byte. -/
theorem length_le_to_bytes (s : Text) : s.length ≤ s.toBytes.length := by
  induction s with
  | nil => rfl
  | cons c rest ih =>
      have hc : 0 < (String.utf8EncodeChar c).length :=
        List.length_pos_iff.mpr String.utf8EncodeChar_ne_nil
      rw [toBytes, List.flatMap_cons, List.length_append, List.length_cons]
      rw [toBytes] at ih
      omega

end Text

/-! ## Decimal numbers -/

theorem decimal_text_ne_nil (n : Nat) : decimalText n ≠ [] := Nat.toDigits_ne_nil

/-- Every character of a printed number is a digit. -/
theorem decimal_text_digit {n : Nat} {c : Char} (h : c ∈ decimalText n) : c.isDigit = true :=
  Nat.isDigit_of_mem_toDigits (by omega) (by omega) h

/-- Different numbers are printed differently. -/
theorem decimal_text_injective {m n : Nat} (h : decimalText m = decimalText n) : m = n := by
  have hm : Nat.ofDigitChars 10 (decimalText m) 0 = m := Nat.ofDigitChars_ten_toDigits
  have hn : Nat.ofDigitChars 10 (decimalText n) 0 = n := Nat.ofDigitChars_ten_toDigits
  rw [← hm, ← hn, h]

/-- The value of a text of digits. -/
theorem Text.decimal_digits {s : Text} (h : ∀ c ∈ s, c.isDigit = true) :
    Text.decimal s = some (Nat.ofDigitChars 10 s 0) := by
  have hgeneral : ∀ acc : Nat, s.foldl (fun acc c =>
      acc.bind fun n => if c.isDigit then some (10 * n + (c.toNat - 48)) else none) (some acc) =
        some (Nat.ofDigitChars 10 s acc) := by
    induction s with
    | nil => exact fun _ => rfl
    | cons c rest ih =>
        intro acc
        rw [List.foldl_cons, Option.bind_some, if_pos (h c List.mem_cons_self),
          ih fun d hd => h d (List.mem_cons_of_mem _ hd)]
        rfl
  exact hgeneral 0

/-- A text of digits is parsed if its value fits. -/
theorem Text.parse_unsigned_digits {limit : Nat} {s : Text} (h : ∀ c ∈ s, c.isDigit = true)
    (hne : s ≠ []) (hlt : Nat.ofDigitChars 10 s 0 < limit) :
    Text.parseUnsigned limit s = some (Nat.ofDigitChars 10 s 0) := by
  have hnonempty : s.isEmpty = false := by simpa using hne
  unfold Text.parseUnsigned
  simp only
  split
  · next rest => exact absurd (h '+' List.mem_cons_self) (by decide)
  · rw [hnonempty, Text.decimal_digits h, Option.filter_some, if_pos (decide_eq_true hlt)]
    rfl

namespace Text

/-- `u8::from_str`. -/
def parseU8 (s : Text) : Option UInt8 := (parseUnsigned (2 ^ 8) s).map UInt8.ofNat

/-- `u16::from_str`. -/
def parseU16 (s : Text) : Option UInt16 := (parseUnsigned (2 ^ 16) s).map UInt16.ofNat

/-- `u32::from_str`. -/
def parseU32 (s : Text) : Option UInt32 := (parseUnsigned (2 ^ 32) s).map UInt32.ofNat

theorem digits_trimmed {s : Text} (h : ∀ c ∈ s, c.isDigit = true) : s.Trimmed := by
  rw [trimmed_iff, trim_start_eq_self, trim_end_eq_self]
  exact ⟨fun c hc => is_whitespace_of_digit (h c (List.mem_of_mem_head? hc)),
    fun c hc => is_whitespace_of_digit (h c (List.mem_of_mem_getLast? hc))⟩

end Text

/-- A printed number is read back. -/
theorem parse_decimal {n limit : Nat} (h : n < limit) :
    Text.parseUnsigned limit (Text.trim (decimalText n)) = some n := by
  have hdigits : ∀ c ∈ decimalText n, c.isDigit = true := fun _ => decimal_text_digit
  have hvalue : Nat.ofDigitChars 10 (decimalText n) 0 = n := Nat.ofDigitChars_ten_toDigits
  have htrimmed : Text.trim (decimalText n) = decimalText n := Text.digits_trimmed hdigits
  rw [htrimmed, Text.parse_unsigned_digits hdigits (decimal_text_ne_nil n) (by omega), hvalue]

theorem parse_u8_decimal (n : UInt8) :
    ((Text.parseU8 (Text.trim (decimalText n.toNat))).getD default : UInt8) = n := by
  rw [Text.parseU8, parse_decimal n.toNat_lt]
  exact UInt8.ofNat_toNat

theorem parse_u16_decimal (n : UInt16) :
    ((Text.parseU16 (Text.trim (decimalText n.toNat))).getD default : UInt16) = n := by
  rw [Text.parseU16, parse_decimal n.toNat_lt]
  exact UInt16.ofNat_toNat

theorem parse_u32_decimal (n : UInt32) :
    ((Text.parseU32 (Text.trim (decimalText n.toNat))).getD default : UInt32) = n := by
  rw [Text.parseU32, parse_decimal n.toNat_lt]
  exact UInt32.ofNat_toNat

end OpenNtrip
