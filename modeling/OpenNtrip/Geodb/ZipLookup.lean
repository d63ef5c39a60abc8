import OpenNtrip.Geodb.Search

/-!
# Looking up a ZIP code

The loop over the sorted ZIP codes keeps the first of each code: `encode_zips_eq` says what it
writes, and `find_first_zips` and `find_sorted` that neither the skipping nor the sorting changes
which place is found first under a code. `resolve_zip_eq` is the answer from such a table, and
`resolve_zip_query` the answer to a query of five digits.
-/

namespace OpenNtrip.Geodb

/-! ## The table -/

section Table

variable [Degrees]

/-- An entry of the ZIP table. -/
def zipEntry (z : ZipIn) : Bytes :=
  u32Bytes z.zip ++ i32Bytes (Degrees.coordE4 z.lat) ++ i32Bytes (Degrees.coordE4 z.lon)

/-- What the loop over the sorted ZIP codes keeps. -/
def firstZips (prev : Option UInt32) : List ZipIn → List ZipIn
  | [] => []
  | z :: rest =>
    if prev = some z.zip then firstZips prev rest else z :: firstZips (some z.zip) rest

theorem encode_zips_eq (prev : Option UInt32) (zips : List ZipIn) :
    encodeZips prev zips = (firstZips prev zips).map zipEntry := by
  induction zips generalizing prev with
  | nil => rfl
  | cons z rest ih =>
      rw [encodeZips, firstZips]
      split
      · exact ih prev
      · rw [ih, List.map_cons]
        rfl

omit [Degrees] in
theorem first_zips_sublist (prev : Option UInt32) (zips : List ZipIn) :
    (firstZips prev zips).Sublist zips := by
  induction zips generalizing prev with
  | nil => exact .slnil
  | cons z rest ih =>
      rw [firstZips]
      split
      · exact (ih prev).cons z
      · exact (ih _).cons_cons z

omit [Degrees] in
/-- Skipping repeated codes does not change what is found first, under any code but the one before.
-/
theorem find_first_zips {prev : Option UInt32} {zip : UInt32} (hprev : prev ≠ some zip)
    (zips : List ZipIn) :
    (firstZips prev zips).find? (fun z => decide (z.zip = zip)) =
      zips.find? fun z => decide (z.zip = zip) := by
  induction zips generalizing prev with
  | nil => rfl
  | cons z rest ih =>
      rw [firstZips]
      split
      · next hskip =>
          -- the code is the one before, which is not looked for
          have hother : decide (z.zip = zip) = false := by
            refine decide_eq_false fun heq => hprev ?_
            rw [hskip, heq]
          rw [List.find?_cons, hother]
          exact ih hprev
      · rw [List.find?_cons, List.find?_cons]
        cases hkey : decide (z.zip = zip) with
        | true => rfl
        | false =>
            refine ih fun heq => ?_
            exact of_decide_eq_false hkey (Option.some.inj heq)

omit [Degrees] in
theorem find_sorted (zips : List ZipIn) (zip : UInt32) :
    (zips.insertionSort fun a b => a.zip ≤ b.zip).find? (fun z => decide (z.zip = zip)) =
      zips.find? fun z => decide (z.zip = zip) := by
  rw [← List.head?_filter, ← List.head?_filter, sort_by_key_filter]

/-! ## The answer -/

theorem length_zip_entry (z : ZipIn) : (zipEntry z).length = ZIP_ENTRY_LEN := rfl

/-- A place is read from its entry. -/
theorem zip_read {table : Bytes} {entries : List ZipIn}
    (htable : table = (entries.map zipEntry).flatten) {i : Nat} {z : ZipIn}
    (hi : entries[i]? = some z) (hsmall : i < 2 ^ 32) :
    u32le table (i * ZIP_ENTRY_LEN) = Reads.total (some z.zip) ∧
      i32le table (i * ZIP_ENTRY_LEN + 4) = Reads.total (some (Degrees.coordE4 z.lat)) ∧
      i32le table (i * ZIP_ENTRY_LEN + 8) = Reads.total (some (Degrees.coordE4 z.lon)) := by
  have hbase : i * ZIP_ENTRY_LEN < 2 ^ 40 := base_lt (by omega) (by decide)
  have hwidth : ∀ e ∈ entries.map zipEntry, e.length = ZIP_ENTRY_LEN := by
    intro e he
    obtain ⟨z', -, rfl⟩ := List.mem_map.mp he
    exact length_zip_entry z'
  have hentry : (entries.map zipEntry)[i]? = some (zipEntry z) := by
    rw [List.getElem?_map, hi, Option.map_some]
  have htwelve : ZIP_ENTRY_LEN = 12 := rfl
  have hfield : ∀ lo hi : Nat, hi ≤ 12 →
      slice table (i * ZIP_ENTRY_LEN + lo) (i * ZIP_ENTRY_LEN + hi) = slice (zipEntry z) lo hi := by
    intro lo hi hle
    rw [htable]
    exact slice_record hwidth hentry hle
  exact ⟨u32le_found (by omega) ((hfield 0 4 (by omega)).trans rfl),
    i32le_found (by omega) ((hfield 4 8 (by omega)).trans rfl),
    i32le_found (by omega) ((hfield 8 12 (by omega)).trans rfl)⟩

/-- The hit of a place. -/
def ZipIn.hit (z : ZipIn) : GeoHit where
  display := GeoDb.zipDisplay z.zip.toNat
  latE4 := Degrees.coordE4 z.lat
  lonE4 := Degrees.coordE4 z.lon
  population := 0

/-- A code is answered by the place found first under it, if there is one. -/
theorem resolve_zip_eq {db : GeoDb} {entries : List ZipIn}
    (htable : db.zipTable.bytes = (entries.map zipEntry).flatten)
    (hsorted : entries.Pairwise fun a b => a.zip ≤ b.zip) (zip : UInt32) (limit : Nat) :
    db.resolveZip zip limit =
      .ok (((entries.find? fun z => decide (z.zip = zip)).map ZipIn.hit).toList.take limit) := by
  have hlength := db.zipTable.length_lt
  have hwidth : ∀ e ∈ entries.map zipEntry, e.length = ZIP_ENTRY_LEN := by
    intro e he
    obtain ⟨z, -, rfl⟩ := List.mem_map.mp he
    exact length_zip_entry z
  have hcount : db.zipTable.bytes.length / ZIP_ENTRY_LEN = entries.length := by
    rw [htable, length_flatten_records hwidth, List.length_map, Nat.mul_div_cancel _ (by decide)]
  have hlt : entries.length < 2 ^ 32 := by
    rw [← hcount]
    exact (Nat.div_le_self _ _).trans_lt hlength
  let entry : Nat → Checked (Option UInt32) := fun i => do
    let off ← usize (i * ZIP_ENTRY_LEN)
    (u32le db.zipTable.bytes off).run
  have hentry : ∀ i z, entries[i]? = some z → entry i = .ok (some z.zip) := by
    intro i z hi
    have hbound := (List.getElem?_eq_some_iff.mp hi).1
    have hbase : i * ZIP_ENTRY_LEN < 2 ^ 40 := base_lt (by omega) (by decide)
    show (usize (i * ZIP_ENTRY_LEN) >>= fun off => (u32le db.zipTable.bytes off).run) = _
    rw [usize_ok (by omega), Checked.ok_bind, (zip_read htable hi (by omega)).1]
    rfl
  let below : Nat → Checked Bool := fun i => do return (← entry i).getD 0xFFFFFFFF < zip
  have hbelow : ∀ i z, entries[i]? = some z → below i = .ok (decide (z.zip < zip)) := by
    intro i z hi
    show (entry i >>= fun found => pure (decide (found.getD 0xFFFFFFFF < zip))) = _
    rw [hentry i z hi]
    rfl
  obtain ⟨lo, hlo, hsearch, hbefore, hafter⟩ := search_found (by omega)
    (hsorted.imp fun hle hz => UInt32.lt_of_le_of_lt hle hz) hbelow
  have hfound : entries.find? (fun z => decide (z.zip = zip)) =
      entries[lo]?.filter fun z => decide (z.zip = zip) := found_at_bound hsorted hbefore hafter
  rw [hfound]
  unfold GeoDb.resolveZip
  simp only
  rw [hcount, hsearch, Checked.ok_bind]
  by_cases hend : entries.length ≤ lo
  · -- the search comes to the end
    rw [if_pos hend, List.getElem?_eq_none hend]
    show Except.ok [] = Except.ok (List.take limit [])
    rw [List.take_nil]
  · have hget : entries[lo]? = some entries[lo] := List.getElem?_eq_getElem (by omega)
    obtain ⟨-, hlat, hlon⟩ := zip_read htable hget (by omega)
    rw [if_neg hend, hget, Option.filter_some]
    show (entry lo >>= _) = _
    rw [hentry lo _ hget, Checked.ok_bind]
    by_cases hkey : entries[lo].zip = zip
    · rw [if_neg (by rw [hkey]; simp), if_pos (decide_eq_true hkey), hlat, hlon]
      simp only [Reads.run_total, Checked.ok_bind, ← hkey]
      rfl
    · rw [if_pos (by simpa using hkey), if_neg (by simpa using hkey)]
      show Except.ok [] = Except.ok (List.take limit [])
      rw [List.take_nil]

end Table

/-! ## Queries of five digits -/

/-- A ZIP code as it is asked for. -/
def fiveDigits (zip : Nat) : Text :=
  List.replicate (5 - (decimalText zip).length) '0' ++ decimalText zip

theorem five_digits_digit {zip : Nat} {c : Char} (h : c ∈ fiveDigits zip) : c.isDigit = true := by
  rcases List.mem_append.mp h with hzero | hdigit
  · rw [List.eq_of_mem_replicate hzero]
    rfl
  · exact decimal_text_digit hdigit

theorem length_five_digits {zip : Nat} (h : zip ≤ 99999) : (fiveDigits zip).length = 5 := by
  have hlength : (decimalText zip).length ≤ 5 :=
    (Nat.length_toDigits_le_iff (by omega) (by omega)).mpr (by omega)
  rw [fiveDigits, List.length_append, List.length_replicate]
  omega

theorem five_digits_value (zip : Nat) : Nat.ofDigitChars 10 (fiveDigits zip) 0 = zip := by
  rw [fiveDigits, Nat.ofDigitChars_append, Nat.ofDigitChars_replicate_zero, Nat.mul_zero]
  exact Nat.ofDigitChars_ten_toDigits

/-- A text is exactly five ASCII digits if its bytes are. -/
theorem is_zip_iff {q : Text} :
    isZip q = true ↔ q.length = 5 ∧ ∀ c ∈ q, c.isDigit = true := by
  have hbytes : (∀ c ∈ q, c.toNat < 0x80) →
      (isZip q = true ↔ q.length = 5 ∧ ∀ c ∈ q, c.isDigit = true) := by
    intro hascii
    rw [isZip, Text.to_bytes_ascii hascii, List.length_map, List.all_map, Bool.and_eq_true,
      beq_iff_eq, List.all_eq_true]
    refine and_congr_right fun _ => forall₂_congr fun c hc => ?_
    rw [Function.comp_apply, digit_byte (hascii c hc)]
  constructor
  · intro hzip
    refine (hbytes fun c hc => ?_).mp hzip
    -- any other character has a byte that is no digit
    by_contra hlarge
    obtain ⟨b, hb⟩ := List.exists_mem_of_ne_nil _ (@String.utf8EncodeChar_ne_nil c)
    have hhigh : 0x80 ≤ b.toNat := UInt8.le_iff_toNat_le.mp (utf8_high (by omega) b hb)
    have hdigits := List.all_eq_true.mp (Bool.and_eq_true_iff.mp hzip).2
    have hdigit := Bool.and_eq_true_iff.mp (hdigits b (List.mem_flatMap.mpr ⟨c, hc, hb⟩))
    have hlow : b.toNat ≤ 57 := UInt8.le_iff_toNat_le.mp (of_decide_eq_true hdigit.2)
    omega
  · intro h
    exact (hbytes fun c hc => digit_lt (h.2 c hc)).mpr h

theorem is_zip_five_digits {zip : Nat} (h : zip ≤ 99999) : isZip (fiveDigits zip) = true :=
  is_zip_iff.mpr ⟨length_five_digits h, fun _ => five_digits_digit⟩

/-- The code that a query of five digits asks for. -/
def queriedZip (query : Text) : UInt32 :=
  UInt32.ofNat ((query.trim.parseUnsigned (2 ^ 32)).getD 0)

theorem queried_five_digits {zip : UInt32} (hzip : zip.toNat ≤ 99999) {query : Text}
    (hquery : query.trim = fiveDigits zip.toNat) : queriedZip query = zip := by
  have hne : fiveDigits zip.toNat ≠ [] := by
    intro hnil
    have hlength := length_five_digits hzip
    rw [hnil] at hlength
    simp at hlength
  have hvalue : Nat.ofDigitChars 10 (fiveDigits zip.toNat) 0 < 2 ^ 32 := by
    rw [five_digits_value]
    exact zip.toNat_lt
  rw [queriedZip, hquery, Text.parse_unsigned_digits (fun c hc => five_digits_digit hc) hne hvalue,
    five_digits_value, Option.getD_some, UInt32.ofNat_toNat]

/-- A query of five digits is answered by the first place of the input with that code, and by
nothing where there is none. -/
theorem resolve_zip_query [CharTables] [Degrees] {db : GeoDb} {zips : List ZipIn}
    (htable : db.zipTable.bytes =
      (encodeZips none (zips.insertionSort fun a b => a.zip ≤ b.zip)).flatten) {query : Text}
    (hzip : isZip query.trim = true) (limit : Nat) :
    db.resolve query limit = .ok (((zips.find? fun z =>
      decide (z.zip = queriedZip query)).map ZipIn.hit).toList.take limit) := by
  rw [encode_zips_eq] at htable
  have hsorted := (sort_by_key_sorted ZipIn.zip zips).sublist (first_zips_sublist none _)
  unfold GeoDb.resolve
  simp only
  rw [if_pos hzip, ← queriedZip, resolve_zip_eq htable hsorted, find_first_zips (by simp),
    find_sorted]

end OpenNtrip.Geodb
