import OpenNtrip.Rust.Std

/-!
# UTF-8 encoding

The bytes below 0x80 of an encoded text are its ASCII characters, and all other characters are
encoded by bytes from 0x80 on.
-/

namespace OpenNtrip

/-- The character of a number, as long as it is not a surrogate or more than any character has. -/
theorem char_of_scalar {n : Nat} (h : n < 0xD800 ∨ 0xDFFF < n ∧ n < 0x110000) :
    (Char.ofNat n).toNat = n := by
  rw [Char.ofNat, dif_pos (show n.isValidChar from h)]
  rfl

theorem char_of_nat {n : Nat} (h : n < 0xD800) : (Char.ofNat n).toNat = n :=
  char_of_scalar (.inl h)

/-- An ASCII character is encoded by its own byte. -/
theorem utf8_ascii {c : Char} (h : c.toNat < 0x80) :
    String.utf8EncodeChar c = [UInt8.ofNat c.toNat] := by
  have hle : c.val.toNat ≤ 0x7f := Nat.le_of_lt_succ h
  show (if c.val.toNat ≤ 0x7f then [UInt8.ofNat c.val.toNat] else _) = _
  rw [if_pos hle]
  rfl

/-- Any other character is encoded by bytes from 0x80 on. -/
theorem utf8_high {c : Char} (h : 0x80 ≤ c.toNat) : ∀ b ∈ String.utf8EncodeChar c, 0x80 ≤ b := by
  have hlow : ∀ n m : Nat, n < 0x80 → 0x80 ≤ m → n + m < 256 → 0x80 ≤ UInt8.ofNat (n + m) := by
    intro n m hn hm hsum
    rw [UInt8.le_iff_toNat_le, UInt8.toNat_ofNat', Nat.mod_eq_of_lt hsum]
    show 0x80 ≤ n + m
    omega
  have hnot : ¬ c.val.toNat ≤ 0x7f := by
    have : c.toNat = c.val.toNat := rfl
    omega
  intro b hb
  simp only [String.utf8EncodeChar, hnot, if_false] at hb
  split at hb
  · simp only [List.mem_cons, List.not_mem_nil, or_false] at hb
    rcases hb with rfl | rfl
    · exact hlow _ _ (by omega) (by omega) (by omega)
    · exact hlow _ _ (by omega) (by omega) (by omega)
  · split at hb
    · simp only [List.mem_cons, List.not_mem_nil, or_false] at hb
      rcases hb with rfl | rfl | rfl
      · exact hlow _ _ (by omega) (by omega) (by omega)
      · exact hlow _ _ (by omega) (by omega) (by omega)
      · exact hlow _ _ (by omega) (by omega) (by omega)
    · simp only [List.mem_cons, List.not_mem_nil, or_false] at hb
      rcases hb with rfl | rfl | rfl | rfl
      · exact hlow _ _ (by omega) (by omega) (by omega)
      · exact hlow _ _ (by omega) (by omega) (by omega)
      · exact hlow _ _ (by omega) (by omega) (by omega)
      · exact hlow _ _ (by omega) (by omega) (by omega)

namespace Text

@[simp] theorem to_bytes_append (s t : Text) : toBytes (s ++ t) = s.toBytes ++ t.toBytes :=
  List.flatMap_append

theorem to_bytes_cons (c : Char) (s : Text) :
    toBytes (c :: s) = String.utf8EncodeChar c ++ s.toBytes :=
  List.flatMap_cons

/-- An ASCII text is encoded character by character. -/
theorem to_bytes_ascii {s : Text} (h : ∀ c ∈ s, c.toNat < 0x80) :
    s.toBytes = s.map fun c => UInt8.ofNat c.toNat := by
  induction s with
  | nil => rfl
  | cons c rest ih =>
      rw [to_bytes_cons, utf8_ascii (h c List.mem_cons_self),
        ih fun d hd => h d (List.mem_cons_of_mem _ hd)]
      rfl

/-- The ASCII bytes of a text are its ASCII characters. -/
theorem mem_to_bytes {s : Text} {b : UInt8} (hb : b < 0x80) :
    b ∈ s.toBytes ↔ Char.ofNat b.toNat ∈ s := by
  have hb' : b.toNat < 0x80 := hb
  rw [toBytes, List.mem_flatMap]
  constructor
  · rintro ⟨c, hc, hmem⟩
    by_cases hascii : c.toNat < 0x80
    · rw [utf8_ascii hascii, List.mem_singleton] at hmem
      rw [hmem, UInt8.toNat_ofNat', Nat.mod_eq_of_lt (by omega), Char.ofNat_toNat]
      exact hc
    · have hhigh := utf8_high (by omega) b hmem
      rw [UInt8.le_iff_toNat_le] at hhigh
      exact absurd hhigh (by show ¬ 0x80 ≤ b.toNat; omega)
  · intro hmem
    have hnat : (Char.ofNat b.toNat).toNat = b.toNat := char_of_nat (by omega)
    refine ⟨_, hmem, ?_⟩
    rw [utf8_ascii (by omega), hnat, UInt8.ofNat_toNat, List.mem_singleton]

/-! ## Decoding -/

/-- `str::from_utf8`. -/
def fromUtf8 (bytes : Bytes) : Option Text :=
  bytes.toByteArray.utf8Decode?.map Array.toList

theorem to_byte_array_to_bytes (s : Text) : s.toBytes.toByteArray = List.utf8Encode s := rfl

/-- An encoded text is decoded. -/
theorem from_utf8_to_bytes (s : Text) : fromUtf8 s.toBytes = some s := by
  rw [fromUtf8, to_byte_array_to_bytes, List.utf8Decode?_utf8Encode]
  rfl

theorem to_bytes_injective {s t : Text} (h : s.toBytes = t.toBytes) : s = t := by
  have hs := from_utf8_to_bytes s
  rw [h, from_utf8_to_bytes t] at hs
  exact (Option.some.inj hs).symm

/-- A text starts with another as its bytes do. -/
theorem to_bytes_starts_iff {s t : Text} : s.toBytes <+: t.toBytes ↔ s <+: t := by
  constructor
  · rintro ⟨rest, hrest⟩
    refine List.isPrefix_of_utf8Encode_append_eq_utf8Encode rest.toByteArray ?_
    rw [← to_byte_array_to_bytes, ← to_byte_array_to_bytes, ← hrest, List.toByteArray_append]
  · rintro ⟨rest, rfl⟩
    exact ⟨toBytes rest, (to_bytes_append s rest).symm⟩

/-- The bytes of a character begin with one that begins no other place. -/
theorem encode_first {c d : Char} {before after rest : Bytes}
    (h : String.utf8EncodeChar c = before ++ after)
    (hafter : after <+: String.utf8EncodeChar d ++ rest) (hne : after ≠ []) : before = [] := by
  obtain ⟨b, tail, rfl⟩ := List.exists_cons_of_ne_nil hne
  have hd : 0 < (String.utf8EncodeChar d).length :=
    List.length_pos_iff.mpr String.utf8EncodeChar_ne_nil
  -- the byte is the first one of `d`
  have hfirst : b = (String.utf8EncodeChar d)[0] := by
    obtain ⟨more, hmore⟩ := hafter
    have hget := congrArg (fun l : Bytes => l[0]?) hmore
    simp only [List.cons_append, List.getElem?_cons_zero,
      List.getElem?_append_left hd, List.getElem?_eq_getElem hd] at hget
    exact Option.some.inj hget
  have hlt : before.length < (String.utf8EncodeChar c).length := by
    rw [h, List.length_append, List.length_cons]
    omega
  have hplace : (String.utf8EncodeChar c)[before.length] = b := by
    simp only [h, List.getElem_append_right (Nat.le_refl _), Nat.sub_self, List.getElem_cons_zero]
  have hbegins : ((String.utf8EncodeChar c)[before.length]).IsUTF8FirstByte := by
    rw [hplace, hfirst]
    exact UInt8.isUTF8FirstByte_getElem_zero_utf8EncodeChar
  exact List.length_eq_zero_iff.mp (UInt8.isUTF8FirstByte_getElem_utf8EncodeChar.mp hbegins)

/-- A text is part of another as its bytes are. -/
theorem to_bytes_infix_iff {s t : Text} : s.toBytes <:+: t.toBytes ↔ s <:+: t := by
  constructor
  · rintro ⟨before, after, h⟩
    induction t generalizing before with
    | nil =>
        rw [List.append_assoc] at h
        have hs : s.toBytes = toBytes [] :=
          (List.append_eq_nil_iff.mp (List.append_eq_nil_iff.mp h).2).1
        obtain rfl := to_bytes_injective hs
        exact List.nil_infix
    | cons c rest ih =>
        cases s with
        | nil => exact List.nil_infix
        | cons d s =>
            have hstart := h
            rw [List.append_assoc, to_bytes_cons c rest] at hstart
            rcases List.append_eq_append_iff.mp hstart with ⟨more, hc, hmore⟩ | ⟨more, rfl, hmore⟩
            · by_cases hne : more = []
              · subst hne
                rw [List.nil_append] at hmore
                exact (ih [] (by rw [List.nil_append]; exact hmore)).trans
                  (List.suffix_cons c rest).isInfix
              · -- it begins within the character, and so with it
                have hbefore : before = [] := by
                  refine @encode_first c d before more (toBytes s ++ after) hc ?_ hne
                  rw [← List.append_assoc, ← to_bytes_cons, hmore]
                  exact List.prefix_append more _
                subst hbefore
                exact (to_bytes_starts_iff.mp ⟨after, h⟩).isInfix
            · -- it begins after the character
              exact (ih more (by rw [List.append_assoc]; exact hmore.symm)).trans
                (List.suffix_cons c rest).isInfix
  · rintro ⟨before, after, rfl⟩
    exact ⟨toBytes before, toBytes after, by rw [to_bytes_append, to_bytes_append]⟩

/-! ## Lossy decoding -/

theorem byte_toNat {n : Nat} (h : n < 256) : (UInt8.ofNat n).toNat = n := by
  rw [UInt8.toNat_ofNat', Nat.mod_eq_of_lt h]

theorem byte_le_byte {m n : Nat} (hm : m < 256) (hn : n < 256) :
    UInt8.ofNat m ≤ UInt8.ofNat n ↔ m ≤ n := by
  rw [UInt8.le_iff_toNat_le, byte_toNat hm, byte_toNat hn]

theorem byte_lt_byte {m n : Nat} (hm : m < 256) (hn : n < 256) :
    UInt8.ofNat m < UInt8.ofNat n ↔ m < n := by
  rw [UInt8.lt_iff_toNat_lt, byte_toNat hm, byte_toNat hn]

/-- The byte is between two others. -/
theorem byte_between {a n b : Nat} (ha : a ≤ n) (hb : n ≤ b) (h : b < 256) :
    UInt8.ofNat a ≤ UInt8.ofNat n ∧ UInt8.ofNat n ≤ UInt8.ofNat b :=
  ⟨(byte_le_byte (by omega) (by omega)).mpr ha, (byte_le_byte (by omega) h).mpr hb⟩

theorem byte_not_between {a n b : Nat} (h : b < n) (hn : n < 256) :
    ¬ (UInt8.ofNat a ≤ UInt8.ofNat n ∧ UInt8.ofNat n ≤ UInt8.ofNat b) := by
  rintro ⟨-, hle⟩
  rw [byte_le_byte hn (by omega)] at hle
  omega

/-- The encoding ends in bytes that continue a character. -/
theorem is_continuation_byte (n : Nat) :
    isContinuation (UInt8.ofNat (n % 64 + 0x80)) = true ∧
      continuationBits (UInt8.ofNat (n % 64 + 0x80)) = n % 64 := by
  refine ⟨?_, ?_⟩
  · rw [isContinuation, Bool.and_eq_true, decide_eq_true_iff, decide_eq_true_iff]
    exact byte_between (a := 0x80) (b := 0xBF) (by omega) (by omega) (by omega)
  · rw [continuationBits, byte_toNat (by omega)]
    omega

theorem decode_first_two {v : Nat} (hlow : 0x80 ≤ v) (hhigh : v < 0x800) (rest : Bytes) :
    decodeFirst (UInt8.ofNat (v / 64 % 32 + 0xC0)) (UInt8.ofNat (v % 64 + 0x80) :: rest) =
      (Char.ofNat v, 1) := by
  have hone : ¬ UInt8.ofNat (v / 64 % 32 + 0xC0) < 0x80 :=
    mt (byte_lt_byte (n := 0x80) (by omega) (by omega)).mp (by omega)
  have htwo : 0xC2 ≤ UInt8.ofNat (v / 64 % 32 + 0xC0) ∧ UInt8.ofNat (v / 64 % 32 + 0xC0) ≤ 0xDF :=
    byte_between (a := 0xC2) (b := 0xDF) (by omega) (by omega) (by omega)
  obtain ⟨hc, hbits⟩ := is_continuation_byte v
  have hnumber : (v / 64 % 32 + 0xC0 - 0xC0) * 64 + v % 64 = v := by omega
  rw [decodeFirst.eq_def, if_neg hone, if_pos htwo]
  simp only
  rw [if_pos hc, hbits, byte_toNat (by omega), hnumber]

theorem decode_first_three {v : Nat} (hlow : 0x800 ≤ v) (hhigh : v < 0x10000)
    (hvalid : v < 0xD800 ∨ 0xDFFF < v) (rest : Bytes) :
    decodeFirst (UInt8.ofNat (v / 4096 % 16 + 0xE0))
        (UInt8.ofNat (v / 64 % 64 + 0x80) :: UInt8.ofNat (v % 64 + 0x80) :: rest) =
      (Char.ofNat v, 2) := by
  have hone : ¬ UInt8.ofNat (v / 4096 % 16 + 0xE0) < 0x80 :=
    mt (byte_lt_byte (n := 0x80) (by omega) (by omega)).mp (by omega)
  have htwo : ¬ (0xC2 ≤ UInt8.ofNat (v / 4096 % 16 + 0xE0) ∧
      UInt8.ofNat (v / 4096 % 16 + 0xE0) ≤ 0xDF) :=
    byte_not_between (a := 0xC2) (b := 0xDF) (by omega) (by omega)
  have hthree : 0xE0 ≤ UInt8.ofNat (v / 4096 % 16 + 0xE0) ∧
      UInt8.ofNat (v / 4096 % 16 + 0xE0) ≤ 0xEF :=
    byte_between (a := 0xE0) (b := 0xEF) (by omega) (by omega) (by omega)
  -- neither an overlong form nor a surrogate
  have hrange : (if UInt8.ofNat (v / 4096 % 16 + 0xE0) = 0xE0 then 0xA0 else 0x80) ≤
        UInt8.ofNat (v / 64 % 64 + 0x80) ∧
      UInt8.ofNat (v / 64 % 64 + 0x80) ≤
        (if UInt8.ofNat (v / 4096 % 16 + 0xE0) = 0xED then 0x9F else 0xBF) := by
    refine ⟨?_, ?_⟩
    · split
      · next heq =>
          have hnat := congrArg UInt8.toNat heq
          rw [byte_toNat (by omega)] at hnat
          have hfirst : v / 4096 % 16 + 0xE0 = 0xE0 := hnat
          exact (byte_le_byte (m := 0xA0) (by omega) (by omega)).mpr (by omega)
      · exact (byte_le_byte (m := 0x80) (by omega) (by omega)).mpr (by omega)
    · split
      · next heq =>
          have hnat := congrArg UInt8.toNat heq
          rw [byte_toNat (by omega)] at hnat
          have hfirst : v / 4096 % 16 + 0xE0 = 0xED := hnat
          exact (byte_le_byte (n := 0x9F) (by omega) (by omega)).mpr (by omega)
      · exact (byte_le_byte (n := 0xBF) (by omega) (by omega)).mpr (by omega)
  obtain ⟨hc, hbits⟩ := is_continuation_byte v
  obtain ⟨-, hbits'⟩ := is_continuation_byte (v / 64)
  have hnumber : (v / 4096 % 16 + 0xE0 - 0xE0) * 4096 + v / 64 % 64 * 64 + v % 64 = v := by omega
  rw [decodeFirst.eq_def, if_neg hone, if_neg htwo, if_pos hthree]
  simp only
  rw [if_pos hrange, if_pos hc, hbits, hbits', byte_toNat (by omega), hnumber]

theorem decode_first_four {v : Nat} (hlow : 0x10000 ≤ v) (hhigh : v < 0x110000) (rest : Bytes) :
    decodeFirst (UInt8.ofNat (v / 262144 % 8 + 0xF0))
        (UInt8.ofNat (v / 4096 % 64 + 0x80) :: UInt8.ofNat (v / 64 % 64 + 0x80) ::
          UInt8.ofNat (v % 64 + 0x80) :: rest) =
      (Char.ofNat v, 3) := by
  have hone : ¬ UInt8.ofNat (v / 262144 % 8 + 0xF0) < 0x80 :=
    mt (byte_lt_byte (n := 0x80) (by omega) (by omega)).mp (by omega)
  have htwo : ¬ (0xC2 ≤ UInt8.ofNat (v / 262144 % 8 + 0xF0) ∧
      UInt8.ofNat (v / 262144 % 8 + 0xF0) ≤ 0xDF) :=
    byte_not_between (a := 0xC2) (b := 0xDF) (by omega) (by omega)
  have hthree : ¬ (0xE0 ≤ UInt8.ofNat (v / 262144 % 8 + 0xF0) ∧
      UInt8.ofNat (v / 262144 % 8 + 0xF0) ≤ 0xEF) :=
    byte_not_between (a := 0xE0) (b := 0xEF) (by omega) (by omega)
  have hfour : 0xF0 ≤ UInt8.ofNat (v / 262144 % 8 + 0xF0) ∧
      UInt8.ofNat (v / 262144 % 8 + 0xF0) ≤ 0xF4 :=
    byte_between (a := 0xF0) (b := 0xF4) (by omega) (by omega) (by omega)
  -- neither an overlong form nor more than any character has
  have hrange : (if UInt8.ofNat (v / 262144 % 8 + 0xF0) = 0xF0 then 0x90 else 0x80) ≤
        UInt8.ofNat (v / 4096 % 64 + 0x80) ∧
      UInt8.ofNat (v / 4096 % 64 + 0x80) ≤
        (if UInt8.ofNat (v / 262144 % 8 + 0xF0) = 0xF4 then 0x8F else 0xBF) := by
    refine ⟨?_, ?_⟩
    · split
      · next heq =>
          have hnat := congrArg UInt8.toNat heq
          rw [byte_toNat (by omega)] at hnat
          have hfirst : v / 262144 % 8 + 0xF0 = 0xF0 := hnat
          exact (byte_le_byte (m := 0x90) (by omega) (by omega)).mpr (by omega)
      · exact (byte_le_byte (m := 0x80) (by omega) (by omega)).mpr (by omega)
    · split
      · next heq =>
          have hnat := congrArg UInt8.toNat heq
          rw [byte_toNat (by omega)] at hnat
          have hfirst : v / 262144 % 8 + 0xF0 = 0xF4 := hnat
          exact (byte_le_byte (n := 0x8F) (by omega) (by omega)).mpr (by omega)
      · exact (byte_le_byte (n := 0xBF) (by omega) (by omega)).mpr (by omega)
  obtain ⟨hc, hbits⟩ := is_continuation_byte v
  obtain ⟨hd, hbits'⟩ := is_continuation_byte (v / 64)
  obtain ⟨-, hbits''⟩ := is_continuation_byte (v / 4096)
  have hnumber : (v / 262144 % 8 + 0xF0 - 0xF0) * 262144 + v / 4096 % 64 * 4096 +
      v / 64 % 64 * 64 + v % 64 = v := by omega
  rw [decodeFirst.eq_def, if_neg hone, if_neg htwo, if_neg hthree, if_pos hfour]
  simp only
  rw [if_pos hrange, if_pos hd, if_pos hc, hbits, hbits', hbits'', byte_toNat (by omega), hnumber]

/-- The first character of an encoded text is decoded. -/
theorem decode_first_encode (c : Char) (rest : Bytes) :
    ∃ b tail, String.utf8EncodeChar c = b :: tail ∧
      decodeFirst b (tail ++ rest) = (c, tail.length) := by
  have hvalid : c.toNat < 0xD800 ∨ 0xDFFF < c.toNat ∧ c.toNat < 0x110000 := c.valid
  have hback : Char.ofNat c.toNat = c := Char.ofNat_toNat c
  have hval : c.val.toNat = c.toNat := rfl
  simp only [String.utf8EncodeChar, hval]
  generalize c.toNat = v at hvalid hback
  subst hback
  split
  · next hone =>
      refine ⟨_, _, rfl, ?_⟩
      have hlt : UInt8.ofNat v < 0x80 :=
        (byte_lt_byte (n := 0x80) (by omega) (by omega)).mpr (by omega)
      rw [decodeFirst.eq_def, if_pos hlt, byte_toNat (by omega)]
      rfl
  · split
    · exact ⟨_, _, rfl, decode_first_two (by omega) (by omega) rest⟩
    · split
      · exact ⟨_, _, rfl, decode_first_three (by omega) (by omega) (by omega) rest⟩
      · exact ⟨_, _, rfl, decode_first_four (by omega) (by omega) rest⟩

theorem decode_lossy_skip (skipped rest : Bytes) :
    decodeLossy skipped.length (skipped ++ rest) = decodeLossy 0 rest := by
  induction skipped with
  | nil => rfl
  | cons b skipped ih => rw [List.cons_append, List.length_cons, decodeLossy, ih]

/-- An encoded text is decoded without a replacement. -/
theorem from_utf8_lossy_to_bytes (s : Text) : fromUtf8Lossy s.toBytes = s := by
  rw [fromUtf8Lossy]
  induction s with
  | nil => rfl
  | cons c s ih =>
      obtain ⟨b, tail, hencode, hdecode⟩ := decode_first_encode c (toBytes s)
      rw [to_bytes_cons, hencode, List.cons_append, decodeLossy, hdecode]
      simp only
      rw [decode_lossy_skip, ih]

/-! ## Lossy decoding at ASCII bytes

Whatever the bytes are, a byte below 0x80 is decoded to its own character and belongs to no other.
-/

/-- A number that no ASCII character has is decoded to a character that is not ASCII. -/
theorem char_of_nat_high {n : Nat} (hvalid : n < 0xD800 ∨ 0xDFFF < n ∧ n < 0x110000)
    (hle : 0x80 ≤ n) : 0x80 ≤ (Char.ofNat n).toNat := by
  rw [char_of_scalar hvalid]
  exact hle

theorem replacement_high : 0x80 ≤ replacement.toNat := by decide

theorem continuation_bounds {b : UInt8} (h : isContinuation b = true) :
    0x80 ≤ b.toNat ∧ b.toNat ≤ 0xBF := by
  rw [isContinuation, Bool.and_eq_true, decide_eq_true_eq, decide_eq_true_eq] at h
  exact h

/-- The bound on a second byte depends on the first. -/
theorem second_bound (b first special usual : UInt8) :
    (if b = first then special else usual).toNat =
      if b.toNat = first.toNat then special.toNat else usual.toNat := by
  rw [apply_ite UInt8.toNat]
  simp only [UInt8.toNat_inj]

theorem two_byte_high {b c : UInt8} (hb : 0xC2 ≤ b ∧ b ≤ 0xDF) (hc : isContinuation c = true) :
    0x80 ≤ (Char.ofNat ((b.toNat - 0xC0) * 64 + continuationBits c)).toNat := by
  obtain ⟨hstart, hstart'⟩ : 0xC2 ≤ b.toNat ∧ b.toNat ≤ 0xDF := hb
  obtain ⟨hlow, hhigh⟩ := continuation_bounds hc
  rw [continuationBits]
  refine char_of_nat_high ?_ ?_
  · left; omega
  · omega

/-- The second byte leaves out the overlong forms and the surrogates. -/
theorem three_byte_high {b c d : UInt8} (hb : 0xE0 ≤ b ∧ b ≤ 0xEF)
    (hc : (if b = 0xE0 then 0xA0 else 0x80) ≤ c ∧ c ≤ (if b = 0xED then 0x9F else 0xBF))
    (hd : isContinuation d = true) :
    0x80 ≤ (Char.ofNat
      ((b.toNat - 0xE0) * 4096 + continuationBits c * 64 + continuationBits d)).toNat := by
  obtain ⟨hstart, hstart'⟩ : 0xE0 ≤ b.toNat ∧ b.toNat ≤ 0xEF := hb
  rw [UInt8.le_iff_toNat_le, UInt8.le_iff_toNat_le, second_bound, second_bound] at hc
  obtain ⟨hlow, hhigh⟩ :
    (if b.toNat = 0xE0 then 0xA0 else 0x80) ≤ c.toNat ∧
      c.toNat ≤ (if b.toNat = 0xED then 0x9F else 0xBF) := hc
  obtain ⟨hdl, hdh⟩ := continuation_bounds hd
  rw [continuationBits, continuationBits]
  refine char_of_nat_high ?_ ?_
  · rcases Nat.lt_or_ge b.toNat 0xEE with hlt | hge
    · left; split at hhigh <;> split at hlow <;> omega
    · right; split at hhigh <;> split at hlow <;> omega
  · split at hhigh <;> split at hlow <;> omega

/-- The second byte leaves out the overlong forms and the numbers that no character has. -/
theorem four_byte_high {b c d e : UInt8} (hb : 0xF0 ≤ b ∧ b ≤ 0xF4)
    (hc : (if b = 0xF0 then 0x90 else 0x80) ≤ c ∧ c ≤ (if b = 0xF4 then 0x8F else 0xBF))
    (hd : isContinuation d = true) (he : isContinuation e = true) :
    0x80 ≤ (Char.ofNat ((b.toNat - 0xF0) * 262144 + continuationBits c * 4096 +
      continuationBits d * 64 + continuationBits e)).toNat := by
  obtain ⟨hstart, hstart'⟩ : 0xF0 ≤ b.toNat ∧ b.toNat ≤ 0xF4 := hb
  rw [UInt8.le_iff_toNat_le, UInt8.le_iff_toNat_le, second_bound, second_bound] at hc
  obtain ⟨hlow, hhigh⟩ :
    (if b.toNat = 0xF0 then 0x90 else 0x80) ≤ c.toNat ∧
      c.toNat ≤ (if b.toNat = 0xF4 then 0x8F else 0xBF) := hc
  obtain ⟨hdl, hdh⟩ := continuation_bounds hd
  obtain ⟨hel, heh⟩ := continuation_bounds he
  rw [continuationBits, continuationBits, continuationBits]
  have hle : 0x10000 ≤ (b.toNat - 0xF0) * 262144 + c.toNat % 64 * 4096 := by
    split at hlow <;> split at hhigh <;> omega
  refine char_of_nat_high ?_ ?_
  · right; split at hlow <;> split at hhigh <;> omega
  · omega

/-- Bytes from 0x80 on never start an ASCII character, whatever follows them. -/
theorem decode_first_high {b : UInt8} (hb : 0x80 ≤ b) (rest : Bytes) :
    0x80 ≤ (decodeFirst b rest).1.toNat := by
  have hreplaced := replacement_high
  unfold decodeFirst
  split
  · next hlow => exact absurd hb (UInt8.not_le.mpr hlow)
  split
  · next htwo =>
      split
      · split
        · next hc => exact two_byte_high htwo hc
        · exact hreplaced
      · exact hreplaced
  split
  · next hthree =>
      simp only
      generalize hlow : (if b = 0xE0 then (0xA0 : UInt8) else 0x80) = low
      generalize hhigh : (if b = 0xED then (0x9F : UInt8) else 0xBF) = high
      split
      · split
        · next hc =>
            split
            · next hd =>
                subst hlow hhigh
                exact three_byte_high hthree hc hd
            · exact hreplaced
        · exact hreplaced
      · split
        · exact hreplaced
        · exact hreplaced
      · exact hreplaced
  split
  · next hfour =>
      simp only
      generalize hlow : (if b = 0xF0 then (0x90 : UInt8) else 0x80) = low
      generalize hhigh : (if b = 0xF4 then (0x8F : UInt8) else 0xBF) = high
      split
      · split
        · next hc =>
            split
            · next hd =>
                split
                · next he =>
                    subst hlow hhigh
                    exact four_byte_high hfour hc hd he
                · exact hreplaced
            · exact hreplaced
        · exact hreplaced
      · split
        · split
          · exact hreplaced
          · exact hreplaced
        · exact hreplaced
      · split
        · exact hreplaced
        · exact hreplaced
      · exact hreplaced
  · exact hreplaced

/-- An ASCII byte continues no character. -/
theorem ascii_not_continuation {a : UInt8} (ha : a < 0x80) : isContinuation a = false := by
  rw [isContinuation, Bool.and_eq_false_iff]
  exact .inl (decide_eq_false (UInt8.not_le.mpr ha))

theorem ascii_not_second {a b first special high : UInt8} (ha : a < 0x80) (hs : 0x80 ≤ special) :
    ¬ ((if b = first then special else 0x80) ≤ a ∧ a ≤ high) := by
  rintro ⟨hle, -⟩
  refine UInt8.not_le.mpr ha (UInt8.le_trans ?_ hle)
  split
  · exact hs
  · exact UInt8.le_refl _

/-- A character ends before the next ASCII byte: what starts with that byte does not matter. -/
theorem decode_first_append {a : UInt8} (ha : a < 0x80) (b : UInt8) (more after : Bytes) :
    decodeFirst b (more ++ a :: after) = decodeFirst b more := by
  have hnot := ascii_not_continuation ha
  have hE : ∀ high, ¬ ((if b = 0xE0 then (0xA0 : UInt8) else 0x80) ≤ a ∧ a ≤ high) :=
    fun high => ascii_not_second ha (by decide)
  have hF : ∀ high, ¬ ((if b = 0xF0 then (0x90 : UInt8) else 0x80) ≤ a ∧ a ≤ high) :=
    fun high => ascii_not_second ha (by decide)
  unfold decodeFirst
  match more with
  | [] =>
      cases after with
      | nil => simp [hnot, hE, hF]
      | cons d after =>
          cases after with
          | nil => simp [hnot, hE, hF]
          | cons e after => simp [hnot, hE, hF]
  | [c] =>
      cases after with
      | nil => simp [hnot]
      | cons e after => simp [hnot]
  | [c, d] => simp [hnot]
  | c :: d :: e :: more => rfl

theorem decode_first_used (b : UInt8) (rest : Bytes) : (decodeFirst b rest).2 ≤ rest.length := by
  unfold decodeFirst
  match rest with
  | [] => grind
  | [c] => grind
  | [c, d] => grind
  | c :: d :: e :: rest => grind

/-- What comes before an ASCII byte is decoded on its own. -/
theorem decode_lossy_append {a : UInt8} (ha : a < 0x80) {skip : Nat} {first : Bytes}
    (hskip : skip ≤ first.length) (after : Bytes) :
    decodeLossy skip (first ++ a :: after) =
      decodeLossy skip first ++ fromUtf8Lossy (a :: after) := by
  induction first generalizing skip with
  | nil =>
      obtain rfl : skip = 0 := Nat.le_zero.mp hskip
      rfl
  | cons b first ih =>
      cases skip with
      | succ skip => exact ih (Nat.le_of_succ_le_succ hskip)
      | zero =>
          rw [List.cons_append, decodeLossy, decodeLossy, decode_first_append ha]
          simp only
          rw [ih (decode_first_used b first), List.cons_append]

theorem from_utf8_lossy_append {a : UInt8} (ha : a < 0x80) (first after : Bytes) :
    fromUtf8Lossy (first ++ a :: after) = fromUtf8Lossy first ++ fromUtf8Lossy (a :: after) :=
  decode_lossy_append ha (Nat.zero_le _) after

/-- An ASCII byte is decoded to its own character. -/
theorem from_utf8_lossy_cons {a : UInt8} (ha : a < 0x80) (rest : Bytes) :
    fromUtf8Lossy (a :: rest) = Char.ofNat a.toNat :: fromUtf8Lossy rest := by
  rw [fromUtf8Lossy, decodeLossy, decodeFirst.eq_def, if_pos ha]
  rfl

/-- An ASCII character of a decoded text was a byte. -/
theorem mem_decode_lossy {skip : Nat} {bytes : Bytes} {c : Char} (h : c ∈ decodeLossy skip bytes)
    (hc : c.toNat < 0x80) : UInt8.ofNat c.toNat ∈ bytes := by
  induction bytes generalizing skip with
  | nil => cases skip <;> exact absurd h List.not_mem_nil
  | cons b rest ih =>
      cases skip with
      | succ skip => exact List.mem_cons_of_mem _ (ih h)
      | zero =>
          rw [decodeLossy] at h
          rcases List.mem_cons.mp h with heq | htail
          · have hfirst : c = (decodeFirst b rest).1 := heq
            rcases UInt8.lt_or_le b 0x80 with hb | hb
            · have hb' : b.toNat < 0xD800 := Nat.lt_trans hb (by decide)
              rw [hfirst, decodeFirst.eq_def, if_pos hb]
              show UInt8.ofNat (Char.ofNat b.toNat).toNat ∈ b :: rest
              rw [char_of_nat hb', UInt8.ofNat_toNat]
              exact List.mem_cons_self
            · rw [hfirst] at hc
              exact absurd hc (Nat.not_lt.mpr (decode_first_high hb rest))
          · exact List.mem_cons_of_mem _ (ih htail)

/-- A text of ASCII characters was decoded from ASCII bytes. -/
theorem ascii_of_from_utf8_lossy {bytes : Bytes}
    (h : ∀ c ∈ fromUtf8Lossy bytes, c.toNat < 0x80) : ∀ b ∈ bytes, b < 0x80 := by
  induction bytes with
  | nil => exact fun b hb => absurd hb List.not_mem_nil
  | cons b rest ih =>
      have hb : b < 0x80 := by
        rcases UInt8.lt_or_le b 0x80 with hb | hb
        · exact hb
        · exact absurd (h _ List.mem_cons_self) (Nat.not_lt.mpr (decode_first_high hb rest))
      rw [from_utf8_lossy_cons hb] at h
      intro c hc
      rcases List.mem_cons.mp hc with rfl | hrest
      · exact hb
      · exact ih (fun d hd => h d (List.mem_cons_of_mem _ hd)) c hrest

end Text
end OpenNtrip
