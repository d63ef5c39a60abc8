import OpenNtrip.Rust.Utf8
import OpenNtrip.Rust.Strings

/-!
# The filter boxes

`contains_ignore_ascii_case` of `ui/text.rs`, which the filter box of each window asks. It compares
bytes, and `contains_iff` says what that means for the characters: some part of the text is the
needle, but for the case of ASCII letters.
-/

namespace OpenNtrip

/-! ## Upper and lower case in bytes -/

namespace Text

theorem upper_lower_high {c : Char} (h : 0x80 ≤ c.toNat) : c.toUpper = c ∧ c.toLower = c := by
  have hnat : c.val.toNat = c.toNat := rfl
  constructor
  · have hletter : ¬ (97 ≤ c.val.toNat ∧ c.val.toNat ≤ 122) := by
      omega
    unfold Char.toUpper
    rw [dif_neg]
    show ¬ ('a'.val ≤ c.val ∧ c.val ≤ 'z'.val)
    rw [UInt32.le_iff_toNat_le, UInt32.le_iff_toNat_le]
    exact hletter
  · refine to_lower_eq ?_
    have hletter : ¬ (65 ≤ c.val.toNat ∧ c.val.toNat ≤ 90) := by
      omega
    have hrange : ¬ ('A'.val ≤ c.val ∧ c.val ≤ 'Z'.val) := by
      rw [UInt32.le_iff_toNat_le, UInt32.le_iff_toNat_le]
      exact hletter
    exact decide_eq_false hrange

/-- Either way of folding the case of a character is a function of the other. -/
theorem upper_lower_char (c : Char) :
    c.toUpper.toLower = c.toLower ∧ c.toLower.toUpper = c.toUpper := by
  have hascii : ∀ n < 128, (Char.ofNat n).toUpper.toLower = (Char.ofNat n).toLower ∧
      (Char.ofNat n).toLower.toUpper = (Char.ofNat n).toUpper := by decide
  by_cases hc : c.toNat < 0x80
  · have h := hascii c.toNat hc
    rwa [Char.ofNat_toNat] at h
  · obtain ⟨hupper, hlower⟩ := upper_lower_high (Nat.not_lt.mp hc)
    rw [hupper, hlower, hupper]
    exact ⟨rfl, rfl⟩

/-- Texts are equal up to case when they are in upper case. -/
theorem eq_ignore_case_iff {s t : Text} :
    s.eqIgnoreCase t = true ↔ s.toAsciiUppercase = t.toAsciiUppercase := by
  have hlower : ∀ s : Text, s.toAsciiLowercase = s.toAsciiUppercase.toAsciiLowercase := by
    intro s
    rw [toAsciiUppercase, toAsciiLowercase, toAsciiLowercase, List.map_map]
    exact List.map_congr_left fun c _ => (upper_lower_char c).1.symm
  have hupper : ∀ s : Text, s.toAsciiUppercase = s.toAsciiLowercase.toAsciiUppercase := by
    intro s
    rw [toAsciiLowercase, toAsciiUppercase, toAsciiUppercase, List.map_map]
    exact List.map_congr_left fun c _ => (upper_lower_char c).2.symm
  rw [eqIgnoreCase, beq_iff_eq]
  constructor
  · intro h
    rw [hupper s, hupper t, h]
  · intro h
    rw [hlower s, hlower t, h]

/-- The bytes of a text are put into upper case as its characters are. -/
theorem to_bytes_upper (s : Text) : s.toBytes.map toAsciiUpper = s.toAsciiUppercase.toBytes := by
  have hchar : ∀ c : Char, (String.utf8EncodeChar c).map toAsciiUpper =
      String.utf8EncodeChar c.toUpper := by
    intro c
    have hascii : ∀ n < 128, [toAsciiUpper (UInt8.ofNat n)] =
        String.utf8EncodeChar (Char.ofNat n).toUpper := by decide
    by_cases hc : c.toNat < 0x80
    · have h := hascii c.toNat hc
      rw [Char.ofNat_toNat] at h
      rw [utf8_ascii hc, List.map_singleton, h]
    · -- no byte of another character is a letter
      rw [(upper_lower_high (Nat.not_lt.mp hc)).1]
      refine (List.map_congr_left fun b hb => ?_).trans (List.map_id _)
      have hhigh := UInt8.le_iff_toNat_le.mp (utf8_high (Nat.not_lt.mp hc) b hb)
      have hletter : ¬ (97 ≤ b ∧ b ≤ 122) := by
        rw [UInt8.le_iff_toNat_le, UInt8.le_iff_toNat_le]
        simp only [UInt8.reduceToNat] at hhigh ⊢
        omega
      exact if_neg hletter
  induction s with
  | nil => rfl
  | cons c rest ih =>
      rw [to_bytes_cons, List.map_append, hchar c, ih]
      exact (to_bytes_cons c.toUpper _).symm

/-- The bytes of two texts are equal up to case as the texts are. -/
theorem eq_ignore_case_bytes {s t : Text} :
    eqIgnoreAsciiCase s.toBytes t.toBytes = true ↔ s.eqIgnoreCase t = true := by
  rw [eq_ignore_case_iff, eqIgnoreAsciiCase, beq_iff_eq, to_bytes_upper, to_bytes_upper]
  exact ⟨to_bytes_injective, congrArg toBytes⟩

end Text

/-! ## The needle -/

/-- `<[u8]>::windows`. -/
def windows (size : Nat) (bytes : Bytes) : List Bytes :=
  (List.range (bytes.length + 1 - size)).map fun i => (bytes.drop i).take size

theorem mem_windows {size : Nat} {bytes part : Bytes} :
    part ∈ windows size bytes ↔ part <:+: bytes ∧ part.length = size := by
  unfold windows
  rw [List.mem_map]
  constructor
  · rintro ⟨i, hi, rfl⟩
    rw [List.mem_range] at hi
    refine ⟨(List.take_prefix _ _).isInfix.trans (List.drop_suffix _ _).isInfix, ?_⟩
    rw [List.length_take, List.length_drop]
    omega
  · rintro ⟨⟨before, after, rfl⟩, rfl⟩
    refine ⟨before.length, ?_, ?_⟩
    · rw [List.mem_range, List.length_append, List.length_append]
      omega
    · rw [List.append_assoc, List.drop_left, List.take_left]

/-- `contains_ignore_ascii_case`. -/
def containsIgnoreAsciiCase (haystack needle : Text) : Bool :=
  let h := haystack.toBytes
  let n := needle.toBytes
  if n.isEmpty then true
  else if h.length < n.length then false
  else (windows n.length h).any fun w => eqIgnoreAsciiCase w n

/-- The needle is found where some part of the text is the needle but for the case of ASCII letters:
no window of bytes that is not one of characters ever matches. -/
theorem contains_iff {haystack needle : Text} :
    containsIgnoreAsciiCase haystack needle = true ↔
      ∃ part : Text, part <:+: haystack ∧ part.eqIgnoreCase needle = true := by
  have hwindows : containsIgnoreAsciiCase haystack needle = true ↔
      ∃ w : Bytes, w <:+: haystack.toBytes ∧ eqIgnoreAsciiCase w needle.toBytes = true := by
    have hlength : ∀ {w n : Bytes}, eqIgnoreAsciiCase w n = true → w.length = n.length := by
      intro w n h
      rw [eqIgnoreAsciiCase, beq_iff_eq] at h
      have hmapped := congrArg List.length h
      rwa [List.length_map, List.length_map] at hmapped
    unfold containsIgnoreAsciiCase
    simp only
    split
    · rename_i hempty
      rw [List.isEmpty_iff.mp hempty]
      exact ⟨fun _ => ⟨[], List.nil_infix, rfl⟩, fun _ => rfl⟩
    · split
      · rename_i hshort
        refine ⟨fun h => absurd h Bool.false_ne_true, ?_⟩
        rintro ⟨w, hw, heq⟩
        have := hw.length_le
        have := hlength heq
        omega
      · rw [List.any_eq_true]
        constructor
        · rintro ⟨w, hw, heq⟩
          exact ⟨w, (mem_windows.mp hw).1, heq⟩
        · rintro ⟨w, hw, heq⟩
          exact ⟨w, mem_windows.mpr ⟨hw, hlength heq⟩, heq⟩
  rw [hwindows]
  constructor
  · rintro ⟨w, hw, heq⟩
    rw [eqIgnoreAsciiCase, beq_iff_eq, Text.to_bytes_upper] at heq
    have hupper := hw.map toAsciiUpper
    rw [heq, Text.to_bytes_upper, Text.to_bytes_infix_iff] at hupper
    obtain ⟨part, hpart, hsame⟩ := List.infix_map_iff.mp hupper
    exact ⟨part, hpart, Text.eq_ignore_case_iff.mpr hsame.symm⟩
  · rintro ⟨part, hpart, heq⟩
    exact ⟨part.toBytes, Text.to_bytes_infix_iff.mpr hpart, Text.eq_ignore_case_bytes.mpr heq⟩

/-- Where a needle is found, each part of it is. -/
theorem contains_part {haystack needle part : Text} (hpart : part <:+: needle)
    (h : containsIgnoreAsciiCase haystack needle = true) :
    containsIgnoreAsciiCase haystack part = true := by
  obtain ⟨found, hfound, heq⟩ := contains_iff.mp h
  rw [Text.eq_ignore_case_iff] at heq
  have hupper := hpart.map Char.toUpper
  rw [show needle.map Char.toUpper = found.map Char.toUpper from heq.symm] at hupper
  obtain ⟨part', hpart', hsame⟩ := List.infix_map_iff.mp hupper
  exact contains_iff.mpr ⟨part', hpart'.trans hfound, Text.eq_ignore_case_iff.mpr hsame.symm⟩

end OpenNtrip
