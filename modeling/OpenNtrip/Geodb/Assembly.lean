import OpenNtrip.Geodb.Tolerance

/-!
# Reading an assembled image

The sections of an image follow each other behind the header up to its end, and the table names
them: `from_bytes_assembled` reads them back, and `strict_start_rejected` shows that nothing less is
accepted.
-/

namespace OpenNtrip.Geodb

/-! ## Words -/

theorem length_u32_bytes (n : UInt32) : (u32Bytes n).length = 4 := length_le_bytes 4 _

theorem u32_of_nat {n : Nat} (h : n < 2 ^ 32) : (UInt32.ofNat n).toNat = n :=
  UInt32.toNat_ofNat_of_lt' h

/-- A word is read back from its bytes. -/
theorem u32_of_bytes (n : UInt32) : UInt32.ofNat (leValue (u32Bytes n)) = n := by
  have hlt : n.toNat < 256 ^ 4 := n.toNat_lt
  rw [u32Bytes, le_value_le_bytes hlt, UInt32.ofNat_toNat]

/-- A signed word is read back from its bytes. -/
theorem i32_of_bytes (n : Int32) : (UInt32.ofNat (leValue (i32Bytes n))).toInt32 = n := by
  have hlt : n.toUInt32.toNat < 256 ^ 4 := n.toUInt32.toNat_lt
  rw [i32Bytes, le_value_le_bytes hlt, UInt32.ofNat_toNat, Int32.toInt32_toUInt32]

/-- A short word is read back from its bytes. -/
theorem u16_of_bytes (n : UInt16) : UInt16.ofNat (leValue (u16Bytes n)) = n := by
  have hlt : n.toNat < 256 ^ 2 := n.toNat_lt
  rw [u16Bytes, le_value_le_bytes hlt, UInt16.ofNat_toNat]

/-- A `u32` is read where its bytes are. -/
theorem u32le_found {b : Bytes} {off : Nat} {n : UInt32} (hoff : off + 4 < 2 ^ 64)
    (h : slice b off (off + 4) = some (u32Bytes n)) : u32le b off = Reads.total (some n) := by
  rw [u32le_eq hoff, h, Option.map_some, u32_of_bytes]

/-- A signed word that was written at a place is read there. -/
theorem i32le_found {b : Bytes} {off : Nat} {n : Int32} (hoff : off + 4 < 2 ^ 64)
    (h : slice b off (off + 4) = some (i32Bytes n)) : i32le b off = Reads.total (some n) := by
  rw [i32le_eq hoff, h, Option.map_some, i32_of_bytes]

/-- A short word that was written at a place is read there. -/
theorem u16le_found {b : Bytes} {off : Nat} {n : UInt16} (hoff : off + 2 < 2 ^ 64)
    (h : slice b off (off + 2) = some (u16Bytes n)) : u16le b off = Reads.total (some n) := by
  rw [u16le_eq hoff, h, Option.map_some, u16_of_bytes]

/-! ## The header -/

/-- Where the `i`-th section begins. -/
def sectionOff (off : Nat) (sections : List Bytes) (i : Nat) : Nat :=
  off + ((sections.take i).map List.length).sum

/-- An entry of the section table has eight bytes. -/
theorem length_section_entry (off : Nat) (sections : List Bytes) :
    ∀ entry ∈ sectionTable off sections, entry.length = 8 := by
  induction sections generalizing off with
  | nil => simp [sectionTable]
  | cons s rest ih =>
      intro entry hentry
      rcases List.mem_cons.mp hentry with rfl | hentry
      · rw [List.length_append, length_u32_bytes, length_u32_bytes]
      · exact ih _ entry hentry

theorem length_section_table (off : Nat) (sections : List Bytes) :
    (sectionTable off sections).length = sections.length := by
  induction sections generalizing off with
  | nil => rfl
  | cons s rest ih => rw [sectionTable, List.length_cons, List.length_cons, ih]

/-- An entry of the table has the offset and the length of its section. -/
theorem section_table_get {off : Nat} {sections : List Bytes} {i : Nat} {s : Bytes}
    (h : sections[i]? = some s) :
    (sectionTable off sections)[i]? =
      some (u32Bytes (UInt32.ofNat (sectionOff off sections i)) ++
        u32Bytes (UInt32.ofNat s.length)) := by
  induction sections generalizing off i with
  | nil => simp at h
  | cons first rest ih =>
      cases i with
      | zero =>
          obtain rfl : first = s := by simpa using h
          simp [sectionTable, sectionOff]
      | succ i =>
          rw [List.getElem?_cons_succ] at h
          rw [sectionTable, List.getElem?_cons_succ, ih h]
          simp only [sectionOff, List.take_succ_cons, List.map_cons, List.sum_cons, Nat.add_assoc]

/-- Everything before the sections. -/
def header (sections : List Bytes) : Bytes :=
  MAGIC ++ u32Bytes (UInt32.ofNat VERSION) ++ u32Bytes (UInt32.ofNat SECTION_COUNT) ++
    (sectionTable HEADER_LEN sections).flatten

theorem length_magic : MAGIC.length = 8 := by decide

/-- The header has the length that the reader expects. -/
theorem length_header {sections : List Bytes} (h : sections.length = SECTION_COUNT) :
    (header sections).length = HEADER_LEN := by
  rw [header, List.length_append, List.length_append, List.length_append, length_magic,
    length_u32_bytes, length_u32_bytes, length_flatten_records (length_section_entry _ _),
    length_section_table, h]
  rfl

/-- An image is its header and its sections, and its offsets fit 32 bits. -/
theorem assemble_eq_ok {sections : List Bytes} {image : Bytes}
    (h : assemble sections = .ok image) :
    HEADER_LEN + (sections.map List.length).sum < 2 ^ 32 ∧
      image = header sections ++ sections.flatten := by
  obtain ⟨done, hensure, himage⟩ := Checked.bind_ok h
  refine ⟨of_decide_eq_true (Checked.ensure_eq_ok hensure), ?_⟩
  exact (Except.ok.inj himage).symm

/-! ## The sections -/

/-- An image of six sections that is short enough. -/
structure Assembled (sections : List Bytes) (image : Bytes) : Prop where
  count : sections.length = SECTION_COUNT
  short : HEADER_LEN + (sections.map List.length).sum < 2 ^ 32
  image_eq : image = header sections ++ sections.flatten

variable {sections : List Bytes} {image : Bytes}

/-- An image ends with its last section. -/
theorem Assembled.length (h : Assembled sections image) :
    image.length = HEADER_LEN + (sections.map List.length).sum := by
  rw [h.image_eq, List.length_append, length_header h.count, List.length_flatten]

theorem sum_at {lengths : List Nat} {i n : Nat} (h : lengths[i]? = some n) :
    lengths.sum = (lengths.take i).sum + n + (lengths.drop (i + 1)).sum := by
  obtain ⟨hlt, rfl⟩ := List.getElem?_eq_some_iff.mp h
  rw [Nat.add_assoc, ← List.sum_cons, ← List.drop_eq_getElem_cons hlt, ← List.sum_append,
    List.take_append_drop]

/-- Behind a section are the sections that follow it. -/
theorem section_end {i : Nat} {s : Bytes} (hs : sections[i]? = some s) :
    HEADER_LEN + (sections.map List.length).sum =
      sectionOff HEADER_LEN sections i + s.length +
        ((sections.drop (i + 1)).map List.length).sum := by
  have hget : (sections.map List.length)[i]? = some s.length := by
    rw [List.getElem?_map, hs]
    rfl
  rw [sum_at hget, ← List.map_take, ← List.map_drop, sectionOff]
  omega

/-- A section ends within the image. -/
theorem section_le {i : Nat} {s : Bytes} (hs : sections[i]? = some s) :
    sectionOff HEADER_LEN sections i + s.length ≤ HEADER_LEN + (sections.map List.length).sum := by
  have hend := section_end hs
  omega

/-- The table names the offset and the length of each section. -/
theorem Assembled.table (h : Assembled sections image) {i : Nat} {s : Bytes}
    (hs : sections[i]? = some s) :
    u32le image (16 + i * 8) =
        Reads.total (some (UInt32.ofNat (sectionOff HEADER_LEN sections i))) ∧
      u32le image (20 + i * 8) = Reads.total (some (UInt32.ofNat s.length)) := by
  obtain ⟨hlt, -⟩ := List.getElem?_eq_some_iff.mp hs
  rw [h.count, SECTION_COUNT] at hlt
  have hfixed : (MAGIC ++ u32Bytes (UInt32.ofNat VERSION) ++
      u32Bytes (UInt32.ofNat SECTION_COUNT)).length = 16 := by decide
  have hrecords := length_section_entry HEADER_LEN sections
  have hflat : (sectionTable HEADER_LEN sections).flatten.length = 48 := by
    rw [length_flatten_records hrecords, length_section_table, h.count]
    rfl
  have hentry : (sectionTable HEADER_LEN sections)[i]? =
      some (u32Bytes (UInt32.ofNat (sectionOff HEADER_LEN sections i)) ++
        u32Bytes (UInt32.ofNat s.length)) := section_table_get hs
  have hslice : ∀ lo hi : Nat, hi ≤ 8 →
      slice image (16 + (i * 8 + lo)) (16 + (i * 8 + hi)) =
        slice (u32Bytes (UInt32.ofNat (sectionOff HEADER_LEN sections i)) ++
          u32Bytes (UInt32.ofNat s.length)) lo hi := by
    intro lo hi hhi
    rw [h.image_eq, header, List.append_assoc, ← hfixed, slice_append_right,
      slice_append_left (by omega), slice_record hrecords hentry hhi]
  have hoff := hslice 0 4 (by omega)
  have hlen := hslice 4 8 (by omega)
  rw [slice_append_left (by rw [length_u32_bytes]), ← length_u32_bytes, slice_all] at hoff
  have hsecond := slice_part (length_u32_bytes (UInt32.ofNat (sectionOff HEADER_LEN sections i)))
    (p := u32Bytes (UInt32.ofNat s.length)) (by rw [length_u32_bytes]) []
  rw [List.append_nil] at hsecond
  rw [hsecond] at hlen
  refine ⟨u32le_found (by omega) ?_, u32le_found (by omega) ?_⟩
  · exact hoff
  · have hlo : 20 + i * 8 = 16 + (i * 8 + 4) := by omega
    rw [hlo]
    exact hlen

/-- A section is found where the table says. -/
theorem Assembled.section_slice (h : Assembled sections image) {i : Nat} {s : Bytes}
    (hs : sections[i]? = some s) :
    slice image (sectionOff HEADER_LEN sections i)
      (sectionOff HEADER_LEN sections i + s.length) = some s := by
  obtain ⟨hlt, rfl⟩ := List.getElem?_eq_some_iff.mp hs
  have hsplit : sections.flatten =
      (sections.take i).flatten ++ (sections[i] ++ (sections.drop (i + 1)).flatten) := by
    rw [← List.flatten_cons, ← List.drop_eq_getElem_cons hlt, ← List.flatten_append,
      List.take_append_drop]
  have hoff : (header sections ++ (sections.take i).flatten).length =
      sectionOff HEADER_LEN sections i := by
    rw [List.length_append, length_header h.count, List.length_flatten, sectionOff]
  rw [h.image_eq, hsplit, ← List.append_assoc]
  exact slice_part hoff rfl _

/-- One turn of the loop over the sections finds the section, if it holds whole entries. -/
theorem Assembled.read_section (h : Assembled sections image) {i width : Nat} {s : Bytes}
    (hs : sections[i]? = some s) (hwhole : s.length % width = 0) :
    ∃ found : Section width, found.bytes = s ∧
      readSection image i width = pure found := by
  obtain ⟨hoff, hlen⟩ := h.table hs
  have hle := section_le hs
  have hshort := h.short
  have hoffNat : (UInt32.ofNat (sectionOff HEADER_LEN sections i)).toNat =
      sectionOff HEADER_LEN sections i := u32_of_nat (by omega)
  have hlenNat : (UInt32.ofNat s.length).toNat = s.length := u32_of_nat (by omega)
  have hrange : checkedRange image (UInt32.ofNat (sectionOff HEADER_LEN sections i)).toNat
      (UInt32.ofNat s.length).toNat = some s := by
    rw [checkedRange, hoffNat, hlenNat, if_pos (by omega), h.section_slice hs]
  refine ⟨⟨s, by omega, hwhole⟩, rfl, ?_⟩
  unfold readSection
  rw [hoff, hlen, Reads.expect_total, Reads.expect_total, Tries.checked_ok_bind,
    Tries.checked_ok_bind]
  split
  · next hnone =>
      rw [hrange] at hnone
      simp at hnone
  · next found hfound =>
      rw [hrange] at hfound
      obtain rfl := Option.some.inj hfound
      rw [dif_pos (by rw [hlenNat]; exact hwhole)]

/-- The reads of the fixed part of the header. -/
theorem Assembled.fixed (h : Assembled sections image) :
    HEADER_LEN ≤ image.length ∧ index image 0 8 = .ok MAGIC ∧
      u32le image 8 = Reads.total (some (UInt32.ofNat VERSION)) ∧
      u32le image 12 = Reads.total (some (UInt32.ofNat SECTION_COUNT)) := by
  have hlength := h.length
  have hmagic : slice image 0 8 = some MAGIC := by
    rw [h.image_eq, header, List.append_assoc, List.append_assoc, List.append_assoc]
    have hnone : ([] : Bytes).length = 0 := rfl
    exact slice_part hnone (by rw [length_magic]) _
  have hversion : slice image 8 (8 + 4) = some (u32Bytes (UInt32.ofNat VERSION)) := by
    rw [h.image_eq, header, List.append_assoc, List.append_assoc, List.append_assoc]
    exact slice_part length_magic (by rw [length_u32_bytes]) _
  have hbefore : (MAGIC ++ u32Bytes (UInt32.ofNat VERSION)).length = 12 := by decide
  have hcount : slice image 12 (12 + 4) = some (u32Bytes (UInt32.ofNat SECTION_COUNT)) := by
    rw [h.image_eq, header, List.append_assoc, List.append_assoc]
    exact slice_part hbefore (by rw [length_u32_bytes]) _
  refine ⟨by omega, ?_, u32le_found (by omega) hversion, u32le_found (by omega) hcount⟩
  rw [index, hmagic]

/-- An assembled image is read back. -/
theorem from_bytes_assembled {s0 s1 s2 s3 s4 s5 : Bytes}
    (h : Assembled [s0, s1, s2, s3, s4, s5] image)
    (h0 : s0.length % NAME_INDEX_ENTRY_LEN = 0) (h1 : s1.length % CITY_RECORD_LEN = 0)
    (h3 : s3.length % ADMIN1_ENTRY_LEN = 0) (h4 : s4.length % COUNTRY_ENTRY_LEN = 0)
    (h5 : s5.length % ZIP_ENTRY_LEN = 0) :
    ∃ db : GeoDb, fromBytes image = pure db ∧ db.nameIndex.bytes = s0 ∧
      db.cityRecords.bytes = s1 ∧ db.stringPool.bytes = s2 ∧ db.admin1Table.bytes = s3 ∧
      db.countryTable.bytes = s4 ∧ db.zipTable.bytes = s5 := by
  obtain ⟨hlong, hmagic, hversion, hcount⟩ := h.fixed
  obtain ⟨nameIndex, hnameIndex, read0⟩ := h.read_section (i := 0) rfl h0
  obtain ⟨cityRecords, hcityRecords, read1⟩ := h.read_section (i := 1) rfl h1
  obtain ⟨stringPool, hstringPool, read2⟩ := h.read_section (i := 2) rfl (Nat.mod_one _)
  obtain ⟨admin1Table, hadmin1Table, read3⟩ := h.read_section (i := 3) rfl h3
  obtain ⟨countryTable, hcountryTable, read4⟩ := h.read_section (i := 4) rfl h4
  obtain ⟨zipTable, hzipTable, read5⟩ := h.read_section (i := 5) rfl h5
  refine ⟨⟨nameIndex, cityRecords, stringPool, admin1Table, countryTable, zipTable⟩, ?_, hnameIndex,
    hcityRecords, hstringPool, hadmin1Table, hcountryTable, hzipTable⟩
  have hlong' : ¬ image.length < HEADER_LEN := by omega
  unfold fromBytes
  rw [if_neg hlong', hmagic, hversion, hcount, Reads.expect_total, Reads.expect_total]
  have hversion' : (UInt32.ofNat VERSION).toNat = VERSION := by decide
  have hcount' : (UInt32.ofNat SECTION_COUNT).toNat = SECTION_COUNT := by decide
  simp only [Tries.checked_ok_bind, ne_eq, hversion', hcount', not_true_eq_false, if_false, read0,
    read1, read2, read3, read4, read5, pure_bind]

/-! ## Loading any bytes -/

/-- The reads of the header do not fault. -/
theorem header_read {data : Bytes} (h : HEADER_LEN ≤ data.length) {off : Nat}
    (hoff : off + 4 ≤ HEADER_LEN) : Checked.Safe (Checked.expect (u32le data off)) := by
  have hheader : HEADER_LEN = 64 := rfl
  have hslice : ∃ word, slice data off (off + 4) = some word :=
    ⟨_, if_pos ⟨by omega, by omega⟩⟩
  obtain ⟨word, hword⟩ := hslice
  rw [u32le_eq (by omega), hword, Option.map_some, Reads.expect_total]
  exact .ok _

/-- Reading an entry of the section table is no fault, whatever it says. -/
theorem read_section_safe {data : Bytes} (h : HEADER_LEN ≤ data.length) {i : Nat}
    (hi : i < SECTION_COUNT) (width : Nat) : Tries.Safe (readSection data i width) := by
  have hheader : HEADER_LEN = 64 := rfl
  have hcount : SECTION_COUNT = 6 := rfl
  unfold readSection
  refine (Tries.Safe.checked (header_read h (by omega))).bind fun off _ => ?_
  refine (Tries.Safe.checked (header_read h (by omega))).bind fun len _ => ?_
  split
  · exact .throw _
  · split
    · exact .pure _
    · exact .throw _

/-- `from_bytes` accepts or rejects, and does not fault. -/
theorem from_bytes_safe (data : Bytes) : Tries.Safe (fromBytes data) := by
  have hheader : HEADER_LEN = 64 := rfl
  unfold fromBytes
  by_cases hshort : data.length < HEADER_LEN
  · rw [if_pos hshort]
    exact ⟨.error .tooShort, rfl⟩
  · have hlong : HEADER_LEN ≤ data.length := by omega
    rw [if_neg hshort]
    have hmagic : Checked.Safe (index data 0 8) := by
      unfold index slice
      rw [if_pos ⟨by omega, by omega⟩]
      exact .ok _
    refine (Tries.Safe.checked hmagic).bind fun magic _ => .unless ?_
    refine (Tries.Safe.checked (header_read hlong (by omega))).bind fun version _ => .unless ?_
    refine (Tries.Safe.checked (header_read hlong (by omega))).bind fun count _ => .unless ?_
    refine (read_section_safe hlong (by decide) _).bind fun _ _ => ?_
    refine (read_section_safe hlong (by decide) _).bind fun _ _ => ?_
    refine (read_section_safe hlong (by decide) _).bind fun _ _ => ?_
    refine (read_section_safe hlong (by decide) _).bind fun _ _ => ?_
    refine (read_section_safe hlong (by decide) _).bind fun _ _ => ?_
    exact (read_section_safe hlong (by decide) _).bind fun _ _ => .pure _

/-- Accepted bytes hold the header and the last section. -/
theorem from_bytes_ok {data : Bytes} {db : GeoDb} (h : (fromBytes data).run = .ok (.ok db)) :
    HEADER_LEN ≤ data.length ∧ ∃ off len, u32le data 56 = Reads.total (some off) ∧
      u32le data 60 = Reads.total (some len) ∧ off.toNat + len.toNat ≤ data.length := by
  unfold fromBytes at h
  obtain ⟨hlong, h⟩ := Tries.unless_ok h
  obtain ⟨magic, -, h⟩ := Tries.bind_ok h
  obtain ⟨-, h⟩ := Tries.unless_ok h
  obtain ⟨version, -, h⟩ := Tries.bind_ok h
  obtain ⟨-, h⟩ := Tries.unless_ok h
  obtain ⟨count, -, h⟩ := Tries.bind_ok h
  obtain ⟨-, h⟩ := Tries.unless_ok h
  obtain ⟨nameIndex, -, h⟩ := Tries.bind_ok h
  obtain ⟨cityRecords, -, h⟩ := Tries.bind_ok h
  obtain ⟨stringPool, -, h⟩ := Tries.bind_ok h
  obtain ⟨admin1Table, -, h⟩ := Tries.bind_ok h
  obtain ⟨countryTable, -, h⟩ := Tries.bind_ok h
  obtain ⟨zipTable, h, -⟩ := Tries.bind_ok h
  unfold readSection at h
  obtain ⟨off, hoff, h⟩ := Tries.bind_ok h
  obtain ⟨len, hlen, h⟩ := Tries.bind_ok h
  refine ⟨by omega, off, len, Reads.expect_eq_ok (Tries.checked_eq_ok hoff),
    Reads.expect_eq_ok (Tries.checked_eq_ok hlen), ?_⟩
  split at h
  · have hrefused : (.ok (.error (.sectionOutOfBounds 5)) :
        Checked (Except FormatError (Section ZIP_ENTRY_LEN))) = .ok (.ok zipTable) := h
    simp at hrefused
  · next sec hsec =>
      unfold checkedRange at hsec
      split at hsec
      · exact (slice_eq_some hsec).2.1
      · simp at hsec

/-- An image that lost its end is rejected: either it ends within the header, or the last section
ends behind it. -/
theorem Assembled.strict_start_rejected (h : Assembled sections image) {start : Bytes}
    (hstart : start <+: image) (hne : start ≠ image) :
    ∃ refusal, (fromBytes start).run = .ok (.error refusal) := by
  obtain ⟨answer, hanswer⟩ := from_bytes_safe start
  cases answer with
  | error refusal => exact ⟨refusal, hanswer⟩
  | ok db =>
      exfalso
      obtain ⟨hlong, off, len, hoff, hlen, hends⟩ := from_bytes_ok hanswer
      have hheader : HEADER_LEN = 64 := rfl
      obtain ⟨last, hlast⟩ : ∃ last, sections[5]? = some last := by
        refine ⟨_, List.getElem?_eq_getElem (?_ : 5 < sections.length)⟩
        rw [h.count]
        decide
      obtain ⟨htableOff, htableLen⟩ := h.table hlast
      have hshorter : start.length < image.length := by
        obtain ⟨rest, rfl⟩ := hstart
        have hrest : rest ≠ [] := by
          rintro rfl
          exact hne (by simp)
        have := List.length_pos_of_ne_nil hrest
        rw [List.length_append]
        omega
      -- the header is the same in both
      have hsame : ∀ k, k + 4 ≤ 64 → u32le start k = u32le image k := by
        intro k hk
        obtain ⟨rest, rfl⟩ := hstart
        rw [u32le_eq (by omega), u32le_eq (by omega), slice_append_left (by omega)]
      rw [hsame 56 (by omega), htableOff] at hoff
      rw [hsame 60 (by omega), htableLen] at hlen
      have hle := section_le hlast
      have hshort := h.short
      have hoff' : off.toNat = sectionOff HEADER_LEN sections 5 := by
        obtain rfl := Option.some.inj (Reads.total_injective hoff)
        exact u32_of_nat (by omega)
      have hlen' : len.toNat = last.length := by
        obtain rfl := Option.some.inj (Reads.total_injective hlen)
        exact u32_of_nat (by omega)
      have hend : sectionOff HEADER_LEN sections 5 + last.length = image.length := by
        have hbehind : sections.drop (5 + 1) = [] := by
          refine List.drop_eq_nil_of_le ?_
          rw [h.count]
          decide
        have hend := section_end hlast
        rw [hbehind, List.map_nil, List.sum_nil, Nat.add_zero] at hend
        rw [h.length, hend]
      omega

/-! ## Encoded images -/

variable [CharTables] [Degrees]

/-- The passes of an encoding that does not fault. -/
structure Encodes (cities : List CityIn) (admin1 : List Admin1In) (countries : List CountryIn)
    (zips : List ZipIn) (image : Bytes) where
  countryPool : Pool
  countryEntries : List Bytes
  admin1Pool : Pool
  admin1Entries : List Bytes
  pass : CityPass
  pool : Pool
  indexEntries : List Bytes
  countries_le : countries.length ≤ 65536
  admin1_lt : admin1.length < 65535
  countries_ok : encodeAll encodeCountry {} (sortCountries countries) =
    .ok (countryPool, countryEntries)
  admin1_ok : encodeAll encodeAdmin1 countryPool (sortAdmin1 admin1) =
    .ok (admin1Pool, admin1Entries)
  cities_ok : cities.foldlM (CityPass.encodeCity (countryIdx countries) (admin1Idx admin1))
    { pool := admin1Pool } = .ok pass
  index_ok : encodeAll encodeKey pass.pool (sortIndex pass.index) = .ok (pool, indexEntries)
  assembled : Assembled [indexEntries.flatten, pass.records.flatten, pool.bytes,
    admin1Entries.flatten, countryEntries.flatten,
    (encodeZips none (zips.insertionSort fun a b => a.zip ≤ b.zip)).flatten] image

/-- An image that is encoded has gone through all passes. -/
theorem encode_eq_ok {cities : List CityIn} {admin1 : List Admin1In}
    {countries : List CountryIn} {zips : List ZipIn}
    (h : encode cities admin1 countries zips = .ok image) :
    Nonempty (Encodes cities admin1 countries zips image) := by
  unfold encode at h
  obtain ⟨_, hcountries, h⟩ := Checked.bind_ok h
  obtain ⟨_, hadmin1, h⟩ := Checked.bind_ok h
  obtain ⟨⟨countryPool, countryEntries⟩, hcountryPass, h⟩ := Checked.bind_ok h
  obtain ⟨⟨admin1Pool, admin1Entries⟩, hadmin1Pass, h⟩ := Checked.bind_ok h
  obtain ⟨pass, hcityPass, h⟩ := Checked.bind_ok h
  obtain ⟨⟨pool, indexEntries⟩, hindexPass, h⟩ := Checked.bind_ok h
  obtain ⟨hshort, himage⟩ := assemble_eq_ok h
  exact ⟨⟨countryPool, countryEntries, admin1Pool, admin1Entries, pass, pool, indexEntries,
    of_decide_eq_true (Checked.ensure_eq_ok hcountries),
    of_decide_eq_true (Checked.ensure_eq_ok hadmin1), hcountryPass, hadmin1Pass, hcityPass,
    hindexPass, ⟨rfl, hshort, himage⟩⟩⟩

/-- An image begins with its magic. -/
theorem encode_ne_nil {cities : List CityIn} {admin1 : List Admin1In}
    {countries : List CountryIn} {zips : List ZipIn}
    (h : encode cities admin1 countries zips = .ok image) : image ≠ [] := by
  obtain ⟨passes⟩ := encode_eq_ok h
  rw [passes.assembled.image_eq]
  simp [header, MAGIC]

/-- **Any image is tolerated.** `from_bytes` accepts or rejects every byte string without a fault. A
database it accepts answers every query without one, by at most `limit` hits in the order of their
populations. No strict start of an encoded image is accepted. -/
theorem image_tolerated :
    (∀ data : Bytes, ∃ answer, (fromBytes data).run = .ok answer ∧
      ∀ db : GeoDb, answer = .ok db → ∀ (query : Text) (limit : Nat),
        ∃ hits, db.resolve query limit = .ok hits ∧ hits.length ≤ limit ∧
          GeoDb.Descending hits) ∧
    ∀ (cities : List CityIn) (admin1 : List Admin1In) (countries : List CountryIn)
      (zips : List ZipIn) (image start : Bytes), encode cities admin1 countries zips = .ok image →
      start <+: image → start ≠ image →
      ∃ refusal, (fromBytes start).run = .ok (.error refusal) := by
  constructor
  · intro data
    obtain ⟨answer, hanswer⟩ := from_bytes_safe data
    exact ⟨answer, hanswer, fun db _ query limit => db.resolve_safe query limit⟩
  · intro cities admin1 countries zips image start hencode hstart hne
    obtain ⟨passes⟩ := encode_eq_ok hencode
    exact passes.assembled.strict_start_rejected hstart hne

omit [CharTables] [Degrees] in
theorem encode_quito :
    ∃ image, @encode asciiCase sourceDegrees [quito] [] [ecuador] [] = .ok image := ⟨_, rfl⟩

omit [CharTables] [Degrees] in
/-- What is read of an image of one city answers a query, if it is accepted. Without its last byte
the image is rejected. -/
theorem image_tolerated_quito : ∃ image answer refusal,
    @encode asciiCase sourceDegrees [quito] [] [ecuador] [] = .ok image ∧
      (fromBytes image).run = .ok answer ∧
      (∀ db : GeoDb, answer = .ok db →
        ∃ hits, @GeoDb.resolve asciiCase db "quito".toList 10 = .ok hits ∧ hits.length ≤ 10 ∧
          GeoDb.Descending hits) ∧
      (fromBytes image.dropLast).run = .ok (.error refusal) := by
  obtain ⟨hloads, hstarts⟩ := @image_tolerated asciiCase sourceDegrees
  obtain ⟨image, himage⟩ := encode_quito
  obtain ⟨answer, hanswer, hqueries⟩ := hloads image
  have hnonempty : image ≠ [] := @encode_ne_nil _ asciiCase sourceDegrees _ _ _ _ himage
  have hshorter : image.dropLast ≠ image := by
    intro heq
    have hlength := congrArg List.length heq
    rw [List.length_dropLast] at hlength
    have hpos := List.length_pos_iff.mpr hnonempty
    omega
  obtain ⟨refusal, hrefusal⟩ := hstarts [quito] [] [ecuador] [] image image.dropLast himage
    (List.dropLast_prefix image) hshorter
  exact ⟨image, answer, refusal, himage, hanswer,
    fun db hdb => hqueries db hdb "quito".toList 10, hrefusal⟩

end OpenNtrip.Geodb
