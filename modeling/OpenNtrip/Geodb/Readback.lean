import OpenNtrip.Geodb.Image

/-!
# Reading an encoded image back

`city_read` and `index_read` find the records and the index entries in their sections. `Represents`
says what the reader sees in an image: the cities that can be read, and the sorted name index.
`encode_stored` says so of every encoded image, and `encode_represents` that the cities are those of
the catalog if the codes are ASCII.
-/

namespace OpenNtrip.Geodb

/-! ## A city record -/

/-- The fields behind the name of a city record. -/
def cityFields (ci ai : UInt16) (lat lon : Int32) (pop : UInt32) : Bytes :=
  u16Bytes ci ++ (u16Bytes ai ++ (i32Bytes lat ++ (i32Bytes lon ++ u32Bytes pop)))

/-- Where they are. -/
theorem city_fields_slice (ci ai : UInt16) (lat lon : Int32) (pop : UInt32) :
    slice (cityFields ci ai lat lon pop) 0 2 = some (u16Bytes ci) ∧
      slice (cityFields ci ai lat lon pop) 2 4 = some (u16Bytes ai) ∧
      slice (cityFields ci ai lat lon pop) 4 8 = some (i32Bytes lat) ∧
      slice (cityFields ci ai lat lon pop) 8 12 = some (i32Bytes lon) ∧
      slice (cityFields ci ai lat lon pop) 12 16 = some (u32Bytes pop) :=
  ⟨rfl, rfl, rfl, rfl, rfl⟩

/-- A city is read from its record, with the country and the region it refers to. -/
theorem city_read {db : GeoDb} {records : List Bytes}
    (htable : db.cityRecords.bytes = records.flatten)
    (hwidth : ∀ e ∈ records, e.length = CITY_RECORD_LEN) {record : UInt32} {off : UInt32}
    {len : UInt8} {name : Text} {ci ai : UInt16} {lat lon : Int32} {pop : UInt32}
    (hi : records[record.toNat]? =
      some (u32Bytes off ++ [len] ++ cityFields ci ai lat lon pop))
    (hname : Holds db.stringPool.bytes (off, len) name) {country : Option (Text × Text)}
    (hcountry : db.country ci = Reads.total country) {admin1 : Option Admin1Ref}
    (hadmin1 : (if ai = ADMIN1_NONE then .ok none else (db.admin1 ai).run) =
      (.ok admin1 : Checked (Option Admin1Ref))) :
    db.city record = Reads.total (country.map fun (iso2, countryName) =>
      { record, name, iso2, countryName, admin1, latE4 := lat, lonE4 := lon, pop }) := by
  have hrecord := record.toNat_lt
  have hbase : record.toNat * CITY_RECORD_LEN < 2 ^ 40 := base_lt (by omega) (by decide)
  have hlen21 : CITY_RECORD_LEN = 21 := rfl
  obtain ⟨hoff, hlen, hrest⟩ := entry_read hwidth (by omega) hi
  obtain ⟨hci, hai, hlat, hlon, hpop⟩ := city_fields_slice ci ai lat lon pop
  have hfield : ∀ a b : Nat, b ≤ 16 →
      slice records.flatten (record.toNat * CITY_RECORD_LEN + 5 + a)
        (record.toNat * CITY_RECORD_LEN + 5 + b) =
          slice (cityFields ci ai lat lon pop) a b := by
    intro a b hb
    exact slice_within hrest hb
  have readCi : u16le records.flatten (record.toNat * CITY_RECORD_LEN + 5) =
      Reads.total (some ci) :=
    u16le_found (by omega) ((hfield 0 2 (by omega)).trans hci)
  have readAi : u16le records.flatten (record.toNat * CITY_RECORD_LEN + 7) =
      Reads.total (some ai) :=
    u16le_found (by omega) ((hfield 2 4 (by omega)).trans hai)
  have readLat : i32le records.flatten (record.toNat * CITY_RECORD_LEN + 9) =
      Reads.total (some lat) :=
    i32le_found (by omega) ((hfield 4 8 (by omega)).trans hlat)
  have readLon : i32le records.flatten (record.toNat * CITY_RECORD_LEN + 13) =
      Reads.total (some lon) :=
    i32le_found (by omega) ((hfield 8 12 (by omega)).trans hlon)
  have readPop : u32le records.flatten (record.toNat * CITY_RECORD_LEN + 17) =
      Reads.total (some pop) :=
    u32le_found (by omega) ((hfield 12 16 (by omega)).trans hpop)
  unfold GeoDb.city
  rw [usize_ok (by omega)]
  show (Reads.total (some (record.toNat * CITY_RECORD_LEN)) >>= _) = _
  simp only [Reads.total_some_bind, htable, hoff, hlen, pool_str_held hname, readCi, readAi,
    readLat, readLon, readPop, hcountry, hadmin1, Reads.checked_ok]
  cases country with
  | none => rfl
  | some named => rfl

theorem length_key_entries {bytes : Bytes} {index : List (Text × UInt32)} {entries : List Bytes}
    (h : List.Forall₂ (KeyEntry bytes) index entries) :
    ∀ e ∈ entries, e.length = NAME_INDEX_ENTRY_LEN := by
  intro e he
  obtain ⟨c, off, len, -, rfl⟩ := forall₂_mem h he
  rw [length_table_entry, List.length_cons, length_u32_bytes]
  rfl

theorem length_city_records [Degrees] {countries : List CountryIn} {admin1 : List Admin1In}
    {bytes : Bytes} {known : List (CityIn × CountryIn)} {records : List Bytes}
    (h : List.Forall₂ (RecordOf countries admin1 bytes) known records) :
    ∀ e ∈ records, e.length = CITY_RECORD_LEN := by
  intro e he
  obtain ⟨_, _, -, off, len, -, rfl⟩ := forall₂_mem h he
  rw [length_table_entry]
  rfl

/-- An index entry is read where it is. -/
theorem index_read {db : GeoDb} {entries : List Bytes} {index : List (Text × UInt32)}
    (htable : db.nameIndex.bytes = entries.flatten)
    (hentries : List.Forall₂ (KeyEntry db.stringPool.bytes) index entries)
    {i : Nat} {entry : Text × UInt32} (hi : index[i]? = some entry) (hsmall : i < 2 ^ 32) :
    db.indexKey i = .ok (clampTo255 entry.1).toBytes ∧
      u32le db.nameIndex.bytes (i * NAME_INDEX_ENTRY_LEN + 6) = Reads.total (some entry.2) := by
  have hten : NAME_INDEX_ENTRY_LEN = 10 := rfl
  have hbase : i * NAME_INDEX_ENTRY_LEN < 2 ^ 40 := base_lt (by omega) (by decide)
  have hwidth := length_key_entries hentries
  obtain ⟨e, he, off, len, hholds, rfl⟩ := forall₂_get hentries hi
  obtain ⟨hoff, hlen, hrest⟩ := entry_read hwidth (by omega) he
  have hoffLt := off.toNat_lt
  have hlenLt := len.toNat_lt
  constructor
  · have hkey : get db.stringPool.bytes off.toNat (off.toNat + len.toNat) =
        Reads.total (some (clampTo255 entry.1).toBytes) := by
      rw [get_eq (by omega) (by omega)]
      exact congrArg Reads.total hholds
    unfold GeoDb.indexKey
    rw [usize_ok (by omega), Checked.ok_bind, htable, hoff, Reads.run_total, Checked.ok_bind]
    simp only
    rw [hlen, Reads.run_total, Checked.ok_bind]
    simp only
    rw [hkey, Reads.run_total, Checked.ok_bind]
    rfl
  · have hrecord : slice (0 :: u32Bytes entry.2) 1 5 = some (u32Bytes entry.2) := rfl
    rw [htable]
    exact u32le_found (by omega) ((slice_within hrest (by
      rw [List.length_cons, length_u32_bytes])).trans hrecord)

/-! ## The catalog -/

theorem mem_catalog [Degrees] {cities : List CityIn} {admin1 : List Admin1In}
    {countries : List CountryIn} {ref : CityRef} :
    ref ∈ catalog cities admin1 countries ↔
      ∃ (r : Nat) (c : CityIn) (k : CountryIn), (knownCities cities countries)[r]? = some (c, k) ∧
        ref = c.ref k (c.region admin1) (UInt32.ofNat r) := by
  simp only [catalog, List.mem_map, Prod.exists, List.mem_zipIdx_iff_getElem?]
  constructor
  · rintro ⟨c, k, r, hr, rfl⟩
    exact ⟨r, c, k, hr, rfl⟩
  · rintro ⟨r, c, k, hr, rfl⟩
    exact ⟨c, k, r, hr, rfl⟩

theorem mem_index_entries [CharTables] {cities : List CityIn} {countries : List CountryIn}
    {e : Text × UInt32} : e ∈ indexEntries cities countries ↔
    ∃ (r : Nat) (c : CityIn) (k : CountryIn), (knownCities cities countries)[r]? = some (c, k) ∧
      e.1 ∈ c.keys ∧
      e.2 = UInt32.ofNat r := by
  simp only [indexEntries, List.mem_flatMap, List.mem_map, Prod.exists,
    List.mem_zipIdx_iff_getElem?]
  constructor
  · rintro ⟨c, k, r, hr, key, hkey, rfl⟩
    exact ⟨r, c, k, hr, hkey, rfl⟩
  · rintro ⟨r, c, k, hr, hkey, hrecord⟩
    exact ⟨c, k, r, hr, e.1, hkey, Prod.ext rfl hrecord.symm⟩

/-- The numbers of the cities. -/
def numbers (cities : List CityIn) (countries : List CountryIn) : List UInt32 :=
  (List.range (knownCities cities countries).length).map UInt32.ofNat

theorem mem_numbers {cities : List CityIn} {countries : List CountryIn} {record : UInt32} :
    record ∈ numbers cities countries ↔
      ∃ r < (knownCities cities countries).length, record = UInt32.ofNat r := by
  simp only [numbers, List.mem_map, List.mem_range, eq_comm]

theorem numbers_nodup {cities : List CityIn} {countries : List CountryIn}
    (hlt : (knownCities cities countries).length < 2 ^ 32) : (numbers cities countries).Nodup := by
  refine List.Nodup.map_on ?_ List.nodup_range
  intro a ha b hb hab
  rw [List.mem_range] at ha hb
  have hnat := congrArg UInt32.toNat hab
  rw [u32_of_nat (by omega), u32_of_nat (by omega)] at hnat
  exact hnat

/-! ## The whole image -/

/-- The cities that are collected are those whose records can be read. -/
theorem cities_spec {db : GeoDb} {recs : List UInt32} {found : List CityRef}
    (h : db.cities recs = .ok found) :
    (∀ ref, ref ∈ found ↔ ref.record ∈ recs ∧ db.city ref.record = Reads.total (some ref)) ∧
      (found.map (·.record)).Sublist recs := by
  induction recs generalizing found with
  | nil =>
      obtain rfl := Except.ok.inj h
      exact ⟨by simp, .slnil⟩
  | cons r rest ih =>
      rw [GeoDb.cities] at h
      obtain ⟨city, hcity, h⟩ := Checked.bind_ok h
      obtain ⟨later, hlater, h⟩ := Checked.bind_ok h
      obtain rfl := Except.ok.inj h
      obtain ⟨hmem, hsublist⟩ := ih hlater
      have hread : db.city r = Reads.total city := hcity
      cases city with
      | none =>
          refine ⟨fun ref => ?_, hsublist.cons r⟩
          show ref ∈ later ↔ _
          rw [hmem, List.mem_cons]
          constructor
          · rintro ⟨hrecord, hcity⟩
            exact ⟨.inr hrecord, hcity⟩
          · rintro ⟨rfl | hrecord, hthere⟩
            · exact absurd (Reads.total_injective (hread.symm.trans hthere)) (by simp)
            · exact ⟨hrecord, hthere⟩
      | some city =>
          have hrecord := db.city_record hread
          refine ⟨fun ref => ?_, ?_⟩
          · show ref ∈ city :: later ↔ _
            rw [List.mem_cons, hmem, List.mem_cons]
            constructor
            · rintro (rfl | ⟨hin, hthere⟩)
              · exact ⟨.inl hrecord, hrecord ▸ hread⟩
              · exact ⟨.inr hin, hthere⟩
            · rintro ⟨heq | hin, hthere⟩
              · rw [heq, hread] at hthere
                exact .inl (Option.some.inj (Reads.total_injective hthere)).symm
              · exact .inr ⟨hin, hthere⟩
          · show (city.record :: later.map (·.record)).Sublist (r :: rest)
            rw [hrecord]
            exact hsublist.cons_cons r

/-- What is collected is what is read, record by record. -/
theorem cities_of_read {α : Type} {db : GeoDb} {items : List α} {record : α → UInt32}
    {read : α → Option CityRef}
    (h : ∀ item ∈ items, db.city (record item) = Reads.total (read item)) :
    db.cities (items.map record) = .ok (items.filterMap read) := by
  induction items with
  | nil => rfl
  | cons item rest ih =>
      rw [List.map_cons, GeoDb.cities, h item List.mem_cons_self, Reads.run_total,
        Checked.ok_bind, ih fun item' hitem' => h item' (List.mem_cons_of_mem _ hitem'),
        List.filterMap_cons]
      cases read item with
      | none => rfl
      | some ref => rfl

/-- What the reader sees: the cities under their numbers, and the entries of the index in the order
of their keys. -/
structure Represents (db : GeoDb) (refs : List CityRef) (index : List (Text × UInt32)) : Prop where
  count : db.nameIndex.bytes.length / NAME_INDEX_ENTRY_LEN = index.length
  entry : ∀ i e, index[i]? = some e → db.indexKey i = .ok e.1.toBytes ∧
    u32le db.nameIndex.bytes (i * NAME_INDEX_ENTRY_LEN + 6) = Reads.total (some e.2)
  sorted : index.Pairwise fun e e' => e.1.toBytes ≤ e'.1.toBytes
  city : ∀ ref ∈ refs, db.city ref.record = Reads.total (some ref)
  distinct : (refs.map (·.record)).Nodup
  target : ∀ e ∈ index, ∀ ref, db.city e.2 = Reads.total (some ref) → ref ∈ refs

/-- The codes are ASCII, and those of countries have two characters. -/
structure Codes (admin1 : List Admin1In) (countries : List CountryIn) : Prop where
  iso2 : ∀ k ∈ countries, IsAscii k.iso2 ∧ k.iso2.length = 2
  code : ∀ a ∈ admin1, IsAscii a.code

theorem split_once_subset {c : Char} {s left right : Text}
    (h : Text.splitOnce c s = some (left, right)) : ∀ d ∈ right, d ∈ s := by
  induction s generalizing left with
  | nil => simp [Text.splitOnce] at h
  | cons e rest ih =>
      rw [Text.splitOnce] at h
      split at h
      · obtain ⟨-, rfl⟩ := Prod.mk.inj (Option.some.inj h)
        exact fun d hd => List.mem_cons_of_mem _ hd
      · obtain ⟨⟨l, r⟩, hsplit, hpair⟩ := Option.map_eq_some_iff.mp h
        obtain ⟨-, rfl⟩ := Prod.mk.inj hpair
        exact fun d hd => List.mem_cons_of_mem _ (ih hsplit d hd)

theorem Admin1In.sub_ascii {a : Admin1In} (h : IsAscii a.code) : IsAscii a.sub := by
  unfold Admin1In.sub
  split
  · next left right hsplit => exact fun d hd => h d (split_once_subset hsplit d hd)
  · exact h

/-- The region of a city is one of the regions. -/
theorem region_mem {admin1 : List Admin1In} {c : CityIn} {a : Admin1In}
    (h : c.region admin1 = some a) : a ∈ admin1 := by
  unfold CityIn.region at h
  split at h
  · simp at h
  · exact (List.mem_insertionSort _).mp (List.mem_of_find?_eq_some h)

/-- A known city comes with its country. -/
theorem country_of_known {cities : List CityIn} {countries : List CountryIn} {c : CityIn}
    {k : CountryIn} (h : (c, k) ∈ knownCities cities countries) :
    c.country countries = some k := by
  obtain ⟨c', -, hc'⟩ := List.mem_filterMap.mp h
  obtain ⟨k', hk', hpair⟩ := Option.map_eq_some_iff.mp hc'
  obtain ⟨rfl, rfl⟩ := Prod.mk.inj hpair
  exact hk'

/-- The region index of a city leads to its region. -/
theorem region_read {db : GeoDb} {admin1 : List Admin1In} {entries : List Bytes}
    (htable : db.admin1Table.bytes = entries.flatten)
    (hentries : List.Forall₂ (Admin1Entry db.stringPool.bytes) (sortAdmin1 admin1) entries)
    (hcount : admin1.length < 65535) (c : CityIn) :
    (if c.admin1Index (admin1Idx admin1) = ADMIN1_NONE then .ok none
      else (db.admin1 (c.admin1Index (admin1Idx admin1))).run) =
        (.ok ((c.region admin1).bind Admin1In.stored) : Checked (Option Admin1Ref)) := by
  unfold CityIn.admin1Index CityIn.region
  cases hempty : c.admin1Code.isEmpty with
  | true => rfl
  | false =>
      simp only [Bool.false_eq_true, if_false]
      cases hfind : (sortAdmin1 admin1).find?
          fun a => c.fullCode == a.code.toAsciiUppercase with
      | none =>
          have hlookup : (admin1Idx admin1).lookup (c.countryIso2.toAsciiUppercase ++
              '.' :: c.admin1Code.toAsciiUppercase) = none := lookup_first_none hfind
          rw [hlookup]
          rfl
      | some a =>
          obtain ⟨j, hj, hlookup⟩ := lookup_first_some hfind
          have hlookup' : (admin1Idx admin1).lookup (c.countryIso2.toAsciiUppercase ++
              '.' :: c.admin1Code.toAsciiUppercase) = some (UInt16.ofNat j) := hlookup
          have hlt : j < admin1.length := by
            have hbound := (List.getElem?_eq_some_iff.mp hj).1
            rw [sortAdmin1, List.length_insertionSort] at hbound
            exact hbound
          -- there are fewer regions than the index that stands for none
          have hnot : ¬ UInt16.ofNat j = ADMIN1_NONE := by
            intro heq
            have hnat := congrArg UInt16.toNat heq
            rw [u16_of_nat (by omega)] at hnat
            have hnone : ADMIN1_NONE.toNat = 65535 := rfl
            omega
          rw [hlookup', Option.getD_some, if_neg hnot, admin1_read htable hentries hj (by omega)]
          rfl

theorem length_zip_entries [Degrees] (prev : Option UInt32) (zips : List ZipIn) :
    ∀ e ∈ encodeZips prev zips, e.length = ZIP_ENTRY_LEN := by
  induction zips generalizing prev with
  | nil => simp [encodeZips]
  | cons z rest ih =>
      intro e he
      rw [encodeZips] at he
      split at he
      · exact ih prev e he
      · rcases List.mem_cons.mp he with rfl | he
        · rfl
        · exact ih _ e he

theorem flatten_whole {entries : List Bytes} {width : Nat}
    (h : ∀ e ∈ entries, e.length = width) : entries.flatten.length % width = 0 := by
  rw [length_flatten_records h, Nat.mul_mod_left]

/-! ## The order of the index -/

theorem index_before_iff {a b : Text × UInt32} : indexBefore a b = true ↔
    a.1.toBytes < b.1.toBytes ∨ a.1.toBytes = b.1.toBytes ∧ a.2 ≤ b.2 := by
  simp [indexBefore]

instance : Std.Total fun a b : Text × UInt32 => indexBefore a b = true := by
  refine ⟨fun a b => ?_⟩
  simp only [index_before_iff]
  by_cases hab : a.1.toBytes < b.1.toBytes
  · exact .inl (.inl hab)
  · by_cases hba : b.1.toBytes < a.1.toBytes
    · exact .inr (.inl hba)
    · have heq := List.le_antisymm (List.not_lt.mp hba) (List.not_lt.mp hab)
      rcases UInt32.le_total a.2 b.2 with hle | hle
      · exact .inl (.inr ⟨heq, hle⟩)
      · exact .inr (.inr ⟨heq.symm, hle⟩)

instance : IsTrans (Text × UInt32) fun a b => indexBefore a b = true := by
  refine ⟨fun a b c hab hbc => ?_⟩
  rw [index_before_iff] at hab hbc ⊢
  rcases hab with hab | ⟨hab, hle⟩
  · rcases hbc with hbc | ⟨hbc, -⟩
    · exact .inl (List.lt_trans hab hbc)
    · exact .inl (hbc ▸ hab)
  · rcases hbc with hbc | ⟨hbc, hle'⟩
    · exact .inl (hab ▸ hbc)
    · exact .inr ⟨hab.trans hbc, UInt32.le_trans hle hle'⟩

/-- The sorted index is in the order of its keys. -/
theorem sort_index_sorted (index : List (Text × UInt32)) :
    (sortIndex index).Pairwise fun e e' => e.1.toBytes ≤ e'.1.toBytes := by
  refine (List.pairwise_insertionSort (fun a b => indexBefore a b) index).imp ?_
  intro e e' h
  rcases index_before_iff.mp h with hlt | ⟨heq, -⟩
  · exact List.le_of_lt hlt
  · rw [heq]
    exact List.le_refl _

/-- The keys of the index are clamped already. -/
theorem index_key_clamped [CharTables] {cities : List CityIn} {countries : List CountryIn}
    {e : Text × UInt32} (h : e ∈ indexEntries cities countries) : clampTo255 e.1 = e.1 := by
  obtain ⟨⟨⟨c, k⟩, i⟩, -, he⟩ := List.mem_flatMap.mp h
  obtain ⟨key, hkey, rfl⟩ := List.mem_map.mp he
  rcases List.mem_append.mp hkey with hkey | hkey
  · split at hkey
    · rw [List.mem_singleton.mp hkey]
      exact clamp_clamp _
    · simp at hkey
  · split at hkey
    · rw [List.mem_singleton.mp hkey]
      exact clamp_clamp _
    · simp at hkey

section Encoded

variable [CharTables] [Degrees] {cities : List CityIn} {admin1 : List Admin1In}
  {countries : List CountryIn} {zips : List ZipIn} {image : Bytes}

/-- The entries of an encoding, all of them right in the final pool. -/
structure Tables (passes : Encodes cities admin1 countries zips image) : Prop where
  forCountries : List.Forall₂ (CountryEntry passes.pool.bytes) (sortCountries countries)
    passes.countryEntries
  forAdmin1 : List.Forall₂ (Admin1Entry passes.pool.bytes) (sortAdmin1 admin1)
    passes.admin1Entries
  forCities : List.Forall₂ (RecordOf countries admin1 passes.pool.bytes)
    (knownCities cities countries) passes.pass.records
  forIndex : List.Forall₂ (KeyEntry passes.pool.bytes)
    (sortIndex (indexEntries cities countries)) passes.indexEntries

/-- The first passes make entries that are right in the pool after the cities. -/
theorem city_passes_spec {countryPool admin1Pool : Pool} {pass : CityPass}
    {countryEntries admin1Entries : List Bytes}
    (hcountries : encodeAll encodeCountry {} (sortCountries countries) =
      .ok (countryPool, countryEntries))
    (hadmin1 : encodeAll encodeAdmin1 countryPool (sortAdmin1 admin1) =
      .ok (admin1Pool, admin1Entries))
    (hcities : cities.foldlM (CityPass.encodeCity (countryIdx countries) (admin1Idx admin1))
      { pool := admin1Pool } = .ok pass) :
    List.Forall₂ (CountryEntry pass.pool.bytes) (sortCountries countries) countryEntries ∧
      List.Forall₂ (Admin1Entry pass.pool.bytes) (sortAdmin1 admin1) admin1Entries ∧
      Covers countries admin1 pass cities := by
  obtain ⟨hcountryPool, -, hcountries⟩ := encode_all_spec
    CountryEntry CountryEntry.extend encode_country_spec Pool.empty_well_formed hcountries
  obtain ⟨hadmin1Pool, hextends1, hadmin1⟩ := encode_all_spec
    Admin1Entry Admin1Entry.extend encode_admin1_spec hcountryPool hadmin1
  have hstart : Covers countries admin1 { pool := admin1Pool } [] :=
    ⟨hadmin1Pool, rfl, .nil, rfl⟩
  obtain ⟨hcovers, hextends2⟩ := encode_cities_spec hstart hcities
  -- what was right in an earlier pool is right in a later one
  refine ⟨?_, ?_, hcovers⟩
  · exact hcountries.imp fun _ _ h => h.extend (hextends1.trans hextends2)
  · exact hadmin1.imp fun _ _ h => h.extend hextends2

/-- All passes make entries that are right in the final pool. -/
theorem passes_spec {countryPool admin1Pool pool : Pool} {pass : CityPass}
    {countryEntries admin1Entries keyEntries : List Bytes}
    (hcountries : encodeAll encodeCountry {} (sortCountries countries) =
      .ok (countryPool, countryEntries))
    (hadmin1 : encodeAll encodeAdmin1 countryPool (sortAdmin1 admin1) =
      .ok (admin1Pool, admin1Entries))
    (hcities : cities.foldlM (CityPass.encodeCity (countryIdx countries) (admin1Idx admin1))
      { pool := admin1Pool } = .ok pass)
    (hindex : encodeAll encodeKey pass.pool (sortIndex pass.index) = .ok (pool, keyEntries)) :
    List.Forall₂ (CountryEntry pool.bytes) (sortCountries countries) countryEntries ∧
      List.Forall₂ (Admin1Entry pool.bytes) (sortAdmin1 admin1) admin1Entries ∧
      List.Forall₂ (RecordOf countries admin1 pool.bytes) (knownCities cities countries)
        pass.records ∧
      List.Forall₂ (KeyEntry pool.bytes) (sortIndex (indexEntries cities countries))
        keyEntries := by
  obtain ⟨forCountries, forAdmin1, hcovers⟩ := city_passes_spec hcountries hadmin1 hcities
  rw [hcovers.index] at hindex
  obtain ⟨-, hextends, forIndex⟩ := encode_all_spec
    KeyEntry KeyEntry.extend encode_key_spec hcovers.pool hindex
  refine ⟨?_, ?_, ?_, forIndex⟩
  · exact forCountries.imp fun _ _ h => h.extend hextends
  · exact forAdmin1.imp fun _ _ h => h.extend hextends
  · exact hcovers.records.imp fun _ _ h => h.extend hextends

theorem Encodes.tables (passes : Encodes cities admin1 countries zips image) :
    Tables passes := by
  obtain ⟨hcountries, hadmin1, hcities, hindex⟩ :=
    passes_spec passes.countries_ok passes.admin1_ok passes.cities_ok passes.index_ok
  exact ⟨hcountries, hadmin1, hcities, hindex⟩

/-- The sections of an encoding, as they are loaded. -/
structure Loaded (passes : Encodes cities admin1 countries zips image) (db : GeoDb) : Prop where
  nameIndex : db.nameIndex.bytes = passes.indexEntries.flatten
  cityRecords : db.cityRecords.bytes = passes.pass.records.flatten
  stringPool : db.stringPool.bytes = passes.pool.bytes
  admin1Table : db.admin1Table.bytes = passes.admin1Entries.flatten
  countryTable : db.countryTable.bytes = passes.countryEntries.flatten

/-- An encoded image is loaded. -/
theorem Tables.loaded {passes : Encodes cities admin1 countries zips image}
    (h : Tables passes) : ∃ db : GeoDb, fromBytes image = pure db ∧ Loaded passes db ∧
      db.zipTable.bytes =
        (encodeZips none (zips.insertionSort fun a b => a.zip ≤ b.zip)).flatten := by
  obtain ⟨db, hload, hindex, hrecords, hpool, hadmin1, hcountries, hzips⟩ :=
    from_bytes_assembled passes.assembled
      (flatten_whole (length_key_entries h.forIndex))
      (flatten_whole (length_city_records h.forCities))
      (flatten_whole (length_admin1_entries h.forAdmin1))
      (flatten_whole (length_country_entries h.forCountries))
      (flatten_whole (length_zip_entries none _))
  exact ⟨db, hload, ⟨hindex, hrecords, hpool, hadmin1, hcountries⟩, hzips⟩

/-- There are fewer cities than numbers for them. -/
theorem Tables.known_lt {passes : Encodes cities admin1 countries zips image}
    (h : Tables passes) : (knownCities cities countries).length < 2 ^ 32 := by
  have hrecords := length_flatten_records (length_city_records h.forCities)
  have hget : [passes.indexEntries.flatten, passes.pass.records.flatten, passes.pool.bytes,
      passes.admin1Entries.flatten, passes.countryEntries.flatten,
      (encodeZips none (zips.insertionSort fun a b => a.zip ≤ b.zip)).flatten][1]? =
        some passes.pass.records.flatten := rfl
  have hsection := section_le hget
  have hshort := passes.assembled.short
  have hwidth : CITY_RECORD_LEN = 21 := rfl
  rw [hrecords, hwidth, ← h.forCities.length_eq] at hsection
  omega

/-- Every city is read under its number, if it can be read. -/
theorem Loaded.city {passes : Encodes cities admin1 countries zips image} {db : GeoDb}
    (h : Loaded passes db) (htables : Tables passes) {r : Nat} {c : CityIn} {k : CountryIn}
    (hr : (knownCities cities countries)[r]? = some (c, k)) :
    db.city (UInt32.ofNat r) =
      Reads.total (c.stored k (c.region admin1) (UInt32.ofNat r)) := by
  have hcountries := htables.forCountries
  have hadmin1 := htables.forAdmin1
  have hcities := htables.forCities
  rw [← h.stringPool] at hcountries hadmin1 hcities
  have hlt : r < (knownCities cities countries).length := (List.getElem?_eq_some_iff.mp hr).1
  have hrLt := htables.known_lt
  have hrNat : (UInt32.ofNat r).toNat = r := u32_of_nat (by omega)
  obtain ⟨e, he, ci, hci, off, len, hname, rfl⟩ := forall₂_get hcities hr
  obtain ⟨i, hi, hlookup⟩ := lookup_first_some (country_of_known (List.mem_of_getElem? hr))
  obtain rfl : ci = UInt16.ofNat i := Option.some.inj (hci.symm.trans hlookup)
  have hiLt : i < 65536 := by
    have hbound := (List.getElem?_eq_some_iff.mp hi).1
    rw [sortCountries, List.length_insertionSort] at hbound
    have := passes.countries_le
    omega
  refine city_read h.cityRecords (length_city_records htables.forCities) (hrNat ▸ he) hname
    (country_read h.countryTable hcountries hi hiLt) ?_
  exact region_read h.admin1Table hadmin1 passes.admin1_lt c

/-- All cities that can be read are collected. -/
theorem Loaded.all_cities {passes : Encodes cities admin1 countries zips image} {db : GeoDb}
    (h : Loaded passes db) (htables : Tables passes) :
    db.cities (numbers cities countries) = .ok (storedCities cities admin1 countries) := by
  rw [numbers, List.range_eq_range', ← List.zipIdx_map_snd 0 (knownCities cities countries),
    List.map_map]
  refine cities_of_read ?_
  rintro ⟨⟨c, k⟩, r⟩ hmem
  exact h.city htables (List.mem_zipIdx_iff_getElem?.mp hmem)

omit [CharTables] in
/-- With ASCII codes the cities that can be read are those of the catalog. -/
theorem stored_cities_eq (hcodes : Codes admin1 countries) :
    storedCities cities admin1 countries = catalog cities admin1 countries := by
  rw [storedCities, catalog, ← List.filterMap_eq_map]
  refine List.filterMap_congr ?_
  rintro ⟨⟨c, k⟩, r⟩ hmem
  have hcountry := country_of_known (List.mem_of_getElem? (List.mem_zipIdx_iff_getElem?.mp hmem))
  have hk : k ∈ countries := (List.mem_insertionSort _).mp (List.mem_of_find?_eq_some hcountry)
  obtain ⟨hascii, hlength⟩ := hcodes.iso2 k hk
  have hregion : (c.region admin1).bind Admin1In.stored = (c.region admin1).map Admin1In.ref := by
    cases hfound : c.region admin1 with
    | none => rfl
    | some a => exact Admin1In.stored_ascii (Admin1In.sub_ascii (hcodes.code a (region_mem hfound)))
  show c.stored k (c.region admin1) (UInt32.ofNat r) = some _
  rw [CityIn.stored, CountryIn.stored_ascii hascii hlength, hregion]
  rfl

/-- **The image represents its cities**, as far as they can be read, and its ZIP codes. -/
theorem encode_stored (h : encode cities admin1 countries zips = .ok image) :
    ∃ db : GeoDb, (fromBytes image).run = .ok (.ok db) ∧
      db.cities (numbers cities countries) = .ok (storedCities cities admin1 countries) ∧
      Represents db (storedCities cities admin1 countries)
        (sortIndex (indexEntries cities countries)) ∧
      (knownCities cities countries).length < 2 ^ 32 ∧
      db.zipTable.bytes =
        (encodeZips none (zips.insertionSort fun a b => a.zip ≤ b.zip)).flatten := by
  obtain ⟨passes⟩ := encode_eq_ok h
  have htables := passes.tables
  obtain ⟨db, hload, hloaded, hzips⟩ := htables.loaded
  have hlt := htables.known_lt
  have hindex := htables.forIndex
  have hrefs := hloaded.all_cities htables
  obtain ⟨hmem, hsublist⟩ := cities_spec hrefs
  have hcount : db.nameIndex.bytes.length / NAME_INDEX_ENTRY_LEN =
      (sortIndex (indexEntries cities countries)).length := by
    rw [hloaded.nameIndex, length_flatten_records (length_key_entries hindex),
      hindex.length_eq, Nat.mul_div_cancel _ (by decide)]
  refine ⟨db, ?_, hrefs, ⟨hcount, ?_, sort_index_sorted _, ?_, ?_, ?_⟩, hlt, hzips⟩
  · rw [hload]
    rfl
  · intro i e hi
    have hbound := (List.getElem?_eq_some_iff.mp hi).1
    have hcountLt := db.name_count_lt
    rw [← hloaded.stringPool] at hindex
    have hin : e ∈ indexEntries cities countries :=
      (List.mem_insertionSort _).mp (List.mem_of_getElem? hi)
    have hread := index_read hloaded.nameIndex hindex hi (by omega)
    rw [index_key_clamped hin] at hread
    exact hread
  · exact fun ref href => ((hmem ref).mp href).2
  · exact (numbers_nodup hlt).sublist hsublist
  · intro e he ref href
    obtain ⟨r, c, k, hr, -, hrecord⟩ :=
      mem_index_entries.mp ((List.mem_insertionSort _).mp he)
    have hsame := db.city_record href
    refine (hmem ref).mpr ⟨?_, hsame ▸ href⟩
    rw [hsame, hrecord]
    exact mem_numbers.mpr ⟨r, (List.getElem?_eq_some_iff.mp hr).1, rfl⟩

/-- **The image represents its cities**, which are those of the catalog if all codes can be read. -/
theorem encode_represents (h : encode cities admin1 countries zips = .ok image) :
    ∃ (db : GeoDb) (refs : List CityRef), (fromBytes image).run = .ok (.ok db) ∧
      db.cities (numbers cities countries) = .ok refs ∧
      Represents db refs (sortIndex (indexEntries cities countries)) ∧
      (knownCities cities countries).length < 2 ^ 32 ∧
      (Codes admin1 countries → refs = catalog cities admin1 countries) := by
  obtain ⟨db, hload, hrefs, hrepresents, hlt, -⟩ := encode_stored h
  exact ⟨db, _, hload, hrefs, hrepresents, hlt, stored_cities_eq⟩

end Encoded

end OpenNtrip.Geodb
