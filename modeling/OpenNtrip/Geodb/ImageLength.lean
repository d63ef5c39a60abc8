import Mathlib.Algebra.Order.BigOperators.Group.Finset
import OpenNtrip.Geodb.Readback

/-!
# How long an image is

A string is in the pool once, so the pool is as long as the different strings of the input are
together, whatever their order. `encode_safe_iff` says which inputs are encoded: those with few
enough countries and regions whose image is short enough to be addressed.
-/

namespace OpenNtrip.Geodb

/-! ## The length of the pool -/

/-- The bytes of some strings together. -/
def bytesOf (strings : Finset Text) : Nat := strings.sum fun s => s.toBytes.length

/-- More strings take no fewer bytes. -/
theorem bytes_of_mono {strings strings' : Finset Text} (h : strings ⊆ strings') :
    bytesOf strings ≤ bytesOf strings' := Finset.sum_le_sum_of_subset h

theorem bytes_of_union (strings more : Finset Text) :
    bytesOf strings ≤ bytesOf (strings ∪ more) := bytes_of_mono Finset.subset_union_left

/-- The different strings of a list, as they are stored. -/
def clamped (texts : List Text) : Finset Text := (texts.map clampTo255).toFinset

/-- The strings of two lists are those of either. -/
theorem clamped_append (texts texts' : List Text) :
    clamped (texts ++ texts') = clamped texts ∪ clamped texts' := by
  rw [clamped, List.map_append, List.toFinset_append]
  rfl

/-- The strings do not depend on the order. -/
theorem clamped_perm {texts texts' : List Text} (h : texts.Perm texts') :
    clamped texts = clamped texts' := List.toFinset_eq_of_perm _ _ (h.map _)

/-- Strings that are added one by one. -/
theorem union_clamped_cons (strings : Finset Text) (s : Text) (texts : List Text) :
    strings ∪ clamped (s :: texts) = insert (clampTo255 s) strings ∪ clamped texts := by
  have hcons : clamped (s :: texts) = insert (clampTo255 s) (clamped texts) :=
    List.toFinset_cons
  rw [hcons, Finset.union_insert, Finset.insert_union]

/-- The pool holds the strings and no others. -/
structure Pool.Contains (pool : Pool) (strings : Finset Text) : Prop where
  seen : ∀ s, pool.seen.lookup s = none ↔ s ∉ strings
  length : pool.bytes.length = bytesOf strings

theorem Pool.empty_contains : Pool.Contains {} ∅ := by
  refine ⟨fun s => ?_, rfl⟩
  simp

/-- Adding a string puts it into the pool, once. -/
theorem Pool.Contains.add {pool pool' : Pool} {strings : Finset Text} {s : Text}
    {place : UInt32 × UInt8} (h : pool.Contains strings) (hadd : pool.add s = .ok (pool', place)) :
    pool'.Contains (insert (clampTo255 s) strings) := by
  unfold Pool.add at hadd
  simp only at hadd
  cases hseen : pool.seen.lookup (clampTo255 s) with
  | some found =>
      rw [hseen] at hadd
      obtain ⟨rfl, -⟩ := Prod.mk.inj (Except.ok.inj hadd)
      have hin : clampTo255 s ∈ strings := by
        by_contra hnot
        rw [(h.seen _).mpr hnot] at hseen
        simp at hseen
      rw [Finset.insert_eq_of_mem hin]
      exact h
  | none =>
      rw [hseen] at hadd
      obtain ⟨off, -, hadd⟩ := Checked.bind_ok hadd
      obtain ⟨rfl, -⟩ := Prod.mk.inj (Except.ok.inj hadd)
      have hnew := (h.seen _).mp hseen
      constructor
      · intro t
        rw [List.lookup_cons, Finset.mem_insert, not_or]
        cases hsame : t == clampTo255 s with
        | true => simp [beq_iff_eq.mp hsame]
        | false =>
            have hne : t ≠ clampTo255 s := by simpa using hsame
            simp only [h.seen t, hne, not_false_eq_true, true_and]
      · rw [bytesOf, Finset.sum_insert hnew, List.length_append, h.length, Nat.add_comm]
        rfl

/-- A string can be added if there is room for it. -/
theorem Pool.Contains.add_safe {pool : Pool} {strings : Finset Text} {s : Text}
    (h : pool.Contains strings) (hfit : bytesOf (insert (clampTo255 s) strings) < 2 ^ 32) :
    Checked.Safe (pool.add s) := by
  have hle := bytes_of_mono (Finset.subset_insert (clampTo255 s) strings)
  have hoff : toU32 pool.bytes.length = .ok (UInt32.ofNat pool.bytes.length) :=
    if_pos (by rw [h.length]; omega)
  unfold Pool.add
  simp only
  cases pool.seen.lookup (clampTo255 s) with
  | some found => exact .ok _
  | none =>
      rw [hoff]
      exact .ok _

/-! ## Passes -/

/-- The entry of an item is made by adding its string to the pool. -/
def Adds {α : Type} (entry : Pool → α → Checked (Pool × Bytes)) (text : α → Text) : Prop :=
  ∃ make : α → UInt32 × UInt8 → Bytes, ∀ pool item,
    entry pool item = (pool.add (text item) >>= fun added => pure (added.1, make item added.2))

/-- A country adds its name. -/
theorem adds_country : Adds encodeCountry CountryIn.name :=
  ⟨fun c place => u32Bytes place.1 ++ [place.2] ++ paddedUpper 2 c.iso2, fun _ _ => rfl⟩

/-- A region adds its name. -/
theorem adds_admin1 : Adds encodeAdmin1 Admin1In.name :=
  ⟨fun a place => u32Bytes place.1 ++ [place.2] ++ paddedUpper 3 a.sub, fun _ _ => rfl⟩

/-- A key of the index adds itself. -/
theorem adds_key : Adds encodeKey Prod.fst :=
  ⟨fun entry place => u32Bytes place.1 ++ [place.2] ++ [0] ++ u32Bytes entry.2, fun _ _ => rfl⟩

section Adds

variable {α : Type} {entry : Pool → α → Checked (Pool × Bytes)} {text : α → Text} {items : List α}
  {pool : Pool} {strings : Finset Text}

/-- After a pass the pool holds the strings of its items too. -/
theorem Adds.all_contains (h : Adds entry text) (hpool : pool.Contains strings) {pool' : Pool}
    {entries : List Bytes} (hall : encodeAll entry pool items = .ok (pool', entries)) :
    pool'.Contains (strings ∪ clamped (items.map text)) := by
  obtain ⟨make, hentry⟩ := h
  induction items generalizing pool strings entries with
  | nil =>
      obtain ⟨rfl, -⟩ := Prod.mk.inj (Except.ok.inj hall)
      rw [List.map_nil, clamped, List.map_nil, List.toFinset_nil, Finset.union_empty]
      exact hpool
  | cons item rest ih =>
      rw [encodeAll, hentry] at hall
      obtain ⟨⟨middle, e⟩, hitem, hall⟩ := Checked.bind_ok hall
      obtain ⟨⟨last, later⟩, hrest, hall⟩ := Checked.bind_ok hall
      obtain ⟨rfl, -⟩ := Prod.mk.inj (Except.ok.inj hall)
      obtain ⟨⟨added, place⟩, hadd, hitem⟩ := Checked.bind_ok hitem
      obtain ⟨rfl, -⟩ := Prod.mk.inj (Except.ok.inj hitem)
      rw [List.map_cons, union_clamped_cons]
      exact ih (hpool.add hadd) hrest

/-- A pass does not fault if there is room for all its strings. -/
theorem Adds.all_safe (h : Adds entry text) (hpool : pool.Contains strings)
    (hfit : bytesOf (strings ∪ clamped (items.map text)) < 2 ^ 32) :
    Checked.Safe (encodeAll entry pool items) := by
  obtain ⟨make, hentry⟩ := h
  induction items generalizing pool strings with
  | nil => exact .ok _
  | cons item rest ih =>
      rw [List.map_cons, union_clamped_cons] at hfit
      have hle := bytes_of_union (insert (clampTo255 (text item)) strings)
        (clamped (rest.map text))
      rw [encodeAll, hentry]
      obtain ⟨⟨added, place⟩, hadd⟩ := hpool.add_safe (s := text item) (by omega)
      rw [hadd, Checked.ok_bind]
      refine (Checked.Safe.ok (added, make item place)).bind fun made hmade => ?_
      obtain rfl := Except.ok.inj hmade
      exact (ih (hpool.add hadd) hfit).bind fun _ _ => .pure _

end Adds

/-! ## The pass over the cities -/

section Cities

variable [CharTables] [Degrees] {countries : List CountryIn} {cities : List CityIn}
  {strings : Finset Text}

/-- The names of the cities that get a record. -/
def knownNames (cities : List CityIn) (countries : List CountryIn) : List Text :=
  (knownCities cities countries).map fun known => known.1.name

omit [CharTables] [Degrees] in
/-- A city of an unknown country is left out. -/
theorem known_cons_none {c : CityIn} {rest : List CityIn} (h : c.country countries = none) :
    knownCities (c :: rest) countries = knownCities rest countries := by
  simp [knownCities, h]

omit [CharTables] [Degrees] in
/-- A city of a known country is encoded. -/
theorem known_cons_some {c : CityIn} {rest : List CityIn} {k : CountryIn}
    (h : c.country countries = some k) :
    knownCities (c :: rest) countries = (c, k) :: knownCities rest countries := by
  simp [knownCities, h]

/-- The cities of known countries add their names. -/
theorem encode_cities_contains {admin1 : List Admin1In} (pass : CityPass)
    (hpool : pass.pool.Contains strings) {pass' : CityPass}
    (hcities : cities.foldlM (CityPass.encodeCity (countryIdx countries) (admin1Idx admin1)) pass =
      .ok pass') :
    pass'.pool.Contains (strings ∪ clamped (knownNames cities countries)) := by
  induction cities generalizing pass strings with
  | nil =>
      obtain rfl := Except.ok.inj hcities
      have hnone : clamped (knownNames [] countries) = ∅ := rfl
      rw [hnone, Finset.union_empty]
      exact hpool
  | cons c rest ih =>
      rw [List.foldlM_cons] at hcities
      obtain ⟨middle, hcity, hrest⟩ := Checked.bind_ok hcities
      unfold CityPass.encodeCity at hcity
      cases hcountry : c.country countries with
      | none =>
          have hlookup : (countryIdx countries).lookup c.countryIso2.toAsciiUppercase = none :=
            lookup_first_none hcountry
          rw [hlookup] at hcity
          obtain rfl := Except.ok.inj hcity
          rw [knownNames, known_cons_none hcountry]
          exact ih pass hpool hrest
      | some k =>
          obtain ⟨i, -, hlookup⟩ := lookup_first_some hcountry
          have hci : (countryIdx countries).lookup c.countryIso2.toAsciiUppercase =
              some (UInt16.ofNat i) := hlookup
          rw [hci] at hcity
          obtain ⟨⟨pool, place⟩, hadd, hcity⟩ := Checked.bind_ok hcity
          obtain ⟨next, -, hcity⟩ := Checked.bind_ok hcity
          obtain rfl := Except.ok.inj hcity
          rw [knownNames, known_cons_some hcountry, List.map_cons, union_clamped_cons]
          exact ih _ (hpool.add hadd) hrest

/-- The pass over the cities does not fault if there is room for their names and numbers. -/
theorem encode_cities_safe (admin1 : List Admin1In) (pass : CityPass)
    (hpool : pass.pool.Contains strings)
    (hfit : bytesOf (strings ∪ clamped (knownNames cities countries)) < 2 ^ 32)
    (hcount : pass.next.toNat + (knownCities cities countries).length < 2 ^ 32) :
    Checked.Safe
      (cities.foldlM (CityPass.encodeCity (countryIdx countries) (admin1Idx admin1)) pass) := by
  induction cities generalizing pass strings with
  | nil => exact .ok _
  | cons c rest ih =>
      rw [List.foldlM_cons, CityPass.encodeCity]
      cases hcountry : c.country countries with
      | none =>
          have hlookup : (countryIdx countries).lookup c.countryIso2.toAsciiUppercase = none :=
            lookup_first_none hcountry
          rw [knownNames, known_cons_none hcountry] at hfit
          rw [known_cons_none hcountry] at hcount
          rw [hlookup]
          exact ih pass hpool hfit hcount
      | some k =>
          obtain ⟨i, -, hlookup⟩ := lookup_first_some hcountry
          have hci : (countryIdx countries).lookup c.countryIso2.toAsciiUppercase =
              some (UInt16.ofNat i) := hlookup
          rw [knownNames, known_cons_some hcountry, List.map_cons, union_clamped_cons] at hfit
          rw [known_cons_some hcountry, List.length_cons] at hcount
          have hle := bytes_of_union (insert (clampTo255 c.name) strings)
            (clamped (knownNames rest countries))
          obtain ⟨⟨pool, place⟩, hadd⟩ := hpool.add_safe (s := c.name) (hle.trans_lt hfit)
          have hnext : toU32 (pass.next.toNat + 1) = .ok (UInt32.ofNat (pass.next.toNat + 1)) :=
            if_pos (by omega)
          rw [hci]
          simp only [hadd, hnext, Checked.ok_bind]
          refine ih _ (hpool.add hadd) hfit ?_
          show (UInt32.ofNat (pass.next.toNat + 1)).toNat + _ < 2 ^ 32
          rw [u32_of_nat (by omega)]
          omega

end Cities

/-! ## The image -/

section Length

variable [CharTables] [Degrees] {cities : List CityIn} {admin1 : List Admin1In}
  {countries : List CountryIn}

/-- The strings of an image. -/
def imageStrings (cities : List CityIn) (admin1 : List Admin1In) (countries : List CountryIn) :
    Finset Text :=
  clamped (countries.map CountryIn.name ++ admin1.map Admin1In.name ++
    knownNames cities countries ++ (indexEntries cities countries).map Prod.fst)

/-- The length of an image. -/
def imageLength (cities : List CityIn) (admin1 : List Admin1In) (countries : List CountryIn)
    (zips : List ZipIn) : Nat :=
  HEADER_LEN + (indexEntries cities countries).length * NAME_INDEX_ENTRY_LEN +
    (knownCities cities countries).length * CITY_RECORD_LEN +
    bytesOf (imageStrings cities admin1 countries) + admin1.length * ADMIN1_ENTRY_LEN +
    countries.length * COUNTRY_ENTRY_LEN +
    (encodeZips none (zips.insertionSort fun a b => a.zip ≤ b.zip)).length * ZIP_ENTRY_LEN

omit [Degrees] in
/-- The strings of an image, in the order in which they are added. -/
theorem image_strings_eq (cities : List CityIn) (admin1 : List Admin1In)
    (countries : List CountryIn) : imageStrings cities admin1 countries =
      ∅ ∪ clamped ((sortCountries countries).map CountryIn.name) ∪
        clamped ((sortAdmin1 admin1).map Admin1In.name) ∪ clamped (knownNames cities countries) ∪
          clamped ((sortIndex (indexEntries cities countries)).map Prod.fst) := by
  have hcountries : ((sortCountries countries).map CountryIn.name).Perm
      (countries.map CountryIn.name) := (List.perm_insertionSort _ countries).map _
  have hadmin1 : ((sortAdmin1 admin1).map Admin1In.name).Perm (admin1.map Admin1In.name) :=
    (List.perm_insertionSort _ admin1).map _
  have hindex : ((sortIndex (indexEntries cities countries)).map Prod.fst).Perm
      ((indexEntries cities countries).map Prod.fst) := (List.perm_insertionSort _ _).map _
  rw [clamped_perm hcountries, clamped_perm hadmin1, clamped_perm hindex, Finset.empty_union,
    ← clamped_append, ← clamped_append, ← clamped_append]
  rfl

/-- The sections that the passes make are as long as that. -/
theorem sections_length (zips : List ZipIn) {countryPool admin1Pool pool : Pool} {pass : CityPass}
    {countryEntries admin1Entries keyEntries : List Bytes}
    (hcountries : encodeAll encodeCountry {} (sortCountries countries) =
      .ok (countryPool, countryEntries))
    (hadmin1 : encodeAll encodeAdmin1 countryPool (sortAdmin1 admin1) =
      .ok (admin1Pool, admin1Entries))
    (hcities : cities.foldlM (CityPass.encodeCity (countryIdx countries) (admin1Idx admin1))
      { pool := admin1Pool } = .ok pass)
    (hindex : encodeAll encodeKey pass.pool (sortIndex pass.index) = .ok (pool, keyEntries)) :
    HEADER_LEN + ([keyEntries.flatten, pass.records.flatten, pool.bytes, admin1Entries.flatten,
      countryEntries.flatten,
      (encodeZips none (zips.insertionSort fun a b => a.zip ≤ b.zip)).flatten].map
        List.length).sum = imageLength cities admin1 countries zips := by
  obtain ⟨forCountries, forAdmin1, forCities, forIndex⟩ :=
    passes_spec hcountries hadmin1 hcities hindex
  have hentries := (city_passes_spec hcountries hadmin1 hcities).2.2.index
  have hcountryPool := adds_country.all_contains Pool.empty_contains hcountries
  have hadmin1Pool := adds_admin1.all_contains hcountryPool hadmin1
  have hcityPool := encode_cities_contains _ hadmin1Pool hcities
  rw [hentries] at hindex
  have hpool := (adds_key.all_contains hcityPool hindex).length
  rw [← image_strings_eq] at hpool
  have hkeys := length_flatten_records (length_key_entries forIndex)
  rw [← forIndex.length_eq, sortIndex, List.length_insertionSort] at hkeys
  have hrecords := length_flatten_records (length_city_records forCities)
  rw [← forCities.length_eq] at hrecords
  have hregions := length_flatten_records (length_admin1_entries forAdmin1)
  rw [← forAdmin1.length_eq, sortAdmin1, List.length_insertionSort] at hregions
  have hnames := length_flatten_records (length_country_entries forCountries)
  rw [← forCountries.length_eq, sortCountries, List.length_insertionSort] at hnames
  have hzips := length_flatten_records
    (length_zip_entries none (zips.insertionSort fun a b => a.zip ≤ b.zip))
  simp only [List.map_cons, List.map_nil, List.sum_cons, List.sum_nil]
  rw [hkeys, hrecords, hpool, hregions, hnames, hzips, imageLength]
  omega

/-- **What is encoded.** The encoder does not fault on an input if and only if its countries and
regions can be numbered and the image can be addressed. -/
theorem encode_safe_iff {zips : List ZipIn} : Checked.Safe (encode cities admin1 countries zips) ↔
    countries.length ≤ 65536 ∧ admin1.length < 65535 ∧
      imageLength cities admin1 countries zips < 2 ^ 32 := by
  constructor
  · rintro ⟨image, himage⟩
    obtain ⟨passes⟩ := encode_eq_ok himage
    have hlength := sections_length zips passes.countries_ok passes.admin1_ok
      passes.cities_ok passes.index_ok
    refine ⟨passes.countries_le, passes.admin1_lt, ?_⟩
    rw [← hlength]
    exact passes.assembled.short
  · rintro ⟨hcountryCount, hadmin1Count, hshort⟩
    have hstrings := image_strings_eq cities admin1 countries
    have hpool : bytesOf (imageStrings cities admin1 countries) < 2 ^ 32 := by
      rw [imageLength] at hshort
      omega
    rw [hstrings] at hpool
    have hcityNames := (bytes_of_union _ _).trans_lt hpool
    have hregionNames := (bytes_of_union _ _).trans_lt hcityNames
    have hcountryNames := (bytes_of_union _ _).trans_lt hregionNames
    have hknown : (knownCities cities countries).length < 2 ^ 32 := by
      have hwidth : CITY_RECORD_LEN = 21 := rfl
      rw [imageLength, hwidth] at hshort
      omega
    -- pass by pass, there is room for what is added
    obtain ⟨⟨countryPool, countryEntries⟩, hcountries⟩ :=
      adds_country.all_safe Pool.empty_contains hcountryNames
    have hcountryPool := adds_country.all_contains Pool.empty_contains hcountries
    obtain ⟨⟨admin1Pool, admin1Entries⟩, hadmin1⟩ :=
      adds_admin1.all_safe hcountryPool hregionNames
    have hadmin1Pool := adds_admin1.all_contains hcountryPool hadmin1
    obtain ⟨pass, hcities⟩ := encode_cities_safe admin1 { pool := admin1Pool }
      hadmin1Pool hcityNames (by
        show 0 + (knownCities cities countries).length < 2 ^ 32
        omega)
    have hcityPool := encode_cities_contains _ hadmin1Pool hcities
    have hentries := (city_passes_spec hcountries hadmin1 hcities).2.2.index
    rw [← hentries] at hpool
    obtain ⟨⟨pool, keyEntries⟩, hindex⟩ := adds_key.all_safe hcityPool hpool
    have hlength := sections_length zips hcountries hadmin1 hcities hindex
    unfold encode
    rw [decide_eq_true hcountryCount, decide_eq_true hadmin1Count]
    simp only [Checked.ensure, if_true, Checked.ok_bind, hcountries, hadmin1, hcities, hindex]
    unfold assemble
    rw [hlength, decide_eq_true hshort]
    exact ⟨_, rfl⟩

end Length

end OpenNtrip.Geodb
