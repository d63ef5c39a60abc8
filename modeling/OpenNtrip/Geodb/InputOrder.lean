import OpenNtrip.Geodb.ImageLength
import OpenNtrip.Geodb.ZipLookup

/-!
# The order of the input

Countries, regions and ZIP codes are sorted by codes that are all different, so their order does not
show in the image (`encode_perm`). Cities keep their order in the image, as their numbers, but a
query that the cap does not cut has the hits of the cities it names, whatever their numbers are
(`resolve_named`). `input_order_irrelevant` puts this together with the ZIP codes.
-/

namespace OpenNtrip.Geodb

/-! ## Tables that are sorted by their codes -/

theorem codes_nodup {α : Type} {l : List α} {code : α → Text} (h : (l.map code).Nodup) :
    (l.map fun a => (code a).toBytes).Nodup := by
  have hinjective : Function.Injective Text.toBytes := fun _ _ => Text.to_bytes_injective
  have hbytes := h.map hinjective
  rw [List.map_map] at hbytes
  exact hbytes

theorem sort_countries_perm {countries countries' : List CountryIn}
    (hdistinct : (countries.map CountryIn.iso2).Nodup) (h : countries.Perm countries') :
    sortCountries countries = sortCountries countries' :=
  sort_by_key_perm (codes_nodup hdistinct) h

theorem sort_admin1_perm {admin1 admin1' : List Admin1In}
    (hdistinct : (admin1.map Admin1In.code).Nodup) (h : admin1.Perm admin1') :
    sortAdmin1 admin1 = sortAdmin1 admin1' :=
  sort_by_key_perm (codes_nodup hdistinct) h

section Encoded

variable [CharTables] [Degrees]

/-- The order of countries, regions and ZIP codes does not show in the image. -/
theorem encode_perm (cities : List CityIn) {admin1 admin1' : List Admin1In}
    {countries countries' : List CountryIn} {zips zips' : List ZipIn}
    (hcountryCodes : (countries.map CountryIn.iso2).Nodup)
    (hadmin1Codes : (admin1.map Admin1In.code).Nodup) (hzipCodes : (zips.map ZipIn.zip).Nodup)
    (hcountries : countries.Perm countries') (hadmin1 : admin1.Perm admin1')
    (hzips : zips.Perm zips') :
    encode cities admin1 countries zips = encode cities admin1' countries' zips' := by
  have hsortedZips : (zips.insertionSort fun a b => a.zip ≤ b.zip) =
      zips'.insertionSort fun a b => a.zip ≤ b.zip := sort_by_key_perm hzipCodes hzips
  unfold encode countryIdx admin1Idx
  rw [sort_countries_perm hcountryCodes hcountries, sort_admin1_perm hadmin1Codes hadmin1,
    hsortedZips, hcountries.length_eq, hadmin1.length_eq]

/-! ## Cities in another order -/

omit [CharTables] [Degrees] in
theorem known_cities_perm {cities cities' : List CityIn} (h : cities.Perm cities')
    (countries : List CountryIn) :
    (knownCities cities countries).Perm (knownCities cities' countries) := h.filterMap _

omit [Degrees] in
/-- The keys of the index are those of the cities. -/
theorem index_keys (cities : List CityIn) (countries : List CountryIn) :
    (indexEntries cities countries).map Prod.fst =
      (knownCities cities countries).flatMap fun known => known.1.keys := by
  have hknown : knownCities cities countries = (knownCities cities countries).zipIdx.map Prod.fst :=
    (List.zipIdx_map_fst 0 _).symm
  rw [indexEntries, List.map_flatMap]
  conv_rhs => rw [hknown, List.flatMap_map]
  refine List.flatMap_congr ?_
  rintro ⟨⟨c, k⟩, r⟩ -
  rw [List.map_map]
  exact List.map_id _

omit [Degrees] in
theorem index_keys_perm {cities cities' : List CityIn} (h : cities.Perm cities')
    (countries : List CountryIn) : ((indexEntries cities countries).map Prod.fst).Perm
      ((indexEntries cities' countries).map Prod.fst) := by
  rw [index_keys, index_keys]
  exact (known_cities_perm h countries).flatMap_right _

/-- The length of the image does not depend on the order of the cities. -/
theorem image_length_perm {cities cities' : List CityIn} (h : cities.Perm cities')
    (admin1 : List Admin1In) (countries : List CountryIn) (zips : List ZipIn) :
    imageLength cities admin1 countries zips = imageLength cities' admin1 countries zips := by
  have hknown := known_cities_perm h countries
  have hkeys := index_keys_perm h countries
  have hindex := hkeys.length_eq
  rw [List.length_map, List.length_map] at hindex
  have hstrings : imageStrings cities admin1 countries = imageStrings cities' admin1 countries :=
    clamped_perm (((hknown.map _).append_left _).append hkeys)
  rw [imageLength, imageLength, hindex, hknown.length_eq, hstrings]

/-- Cities that are encoded are encoded in any order. -/
theorem encode_cities_perm {cities cities' : List CityIn} (h : cities.Perm cities')
    {admin1 : List Admin1In} {countries : List CountryIn} {zips : List ZipIn} {image : Bytes}
    (hencode : encode cities admin1 countries zips = .ok image) :
    ∃ image', encode cities' admin1 countries zips = .ok image' := by
  obtain ⟨hcountries, hadmin1, hshort⟩ := encode_safe_iff.mp ⟨image, hencode⟩
  rw [image_length_perm h] at hshort
  exact encode_safe_iff.mpr ⟨hcountries, hadmin1, hshort⟩

/-! ## The hits of a query -/

/-- The hits of the cities that a query names, in the order of the input. -/
def namedHits (cities : List CityIn) (admin1 : List Admin1In) (countries : List CountryIn)
    (name : Text) (qualifiers : List Text) : List GeoHit :=
  (knownCities cities countries).filterMap fun (c, k) =>
    if c.named name then
      ((c.stored k (c.region admin1) 0).filter fun ref =>
        qualifiers.all ref.matchesQualifier).map CityRef.toHit
    else none

omit [CharTables] in
theorem stored_record (c : CityIn) (k : CountryIn) (region : Option Admin1In) (record : UInt32) :
    c.stored k region record = (c.stored k region 0).map fun ref => { ref with record } := by
  rw [CityIn.stored, CityIn.stored, Option.map_map]
  rfl

/-- The number of a city does not show in its hit. -/
theorem stored_hit (c : CityIn) (k : CountryIn) (region : Option Admin1In) (record : UInt32)
    (qualifiers : List Text) :
    ((c.stored k region record).filter fun ref =>
        qualifiers.all ref.matchesQualifier).map CityRef.toHit =
      ((c.stored k region 0).filter fun ref =>
        qualifiers.all ref.matchesQualifier).map CityRef.toHit := by
  rw [stored_record]
  cases c.stored k region 0 with
  | none => rfl
  | some ref =>
      have hsame : (qualifiers.all ({ ref with record } : CityRef).matchesQualifier) =
          qualifiers.all ref.matchesQualifier := rfl
      rw [Option.map_some, Option.filter_some, Option.filter_some, hsame]
      split
      · rfl
      · rfl

section Queries

variable {cities : List CityIn} {admin1 : List Admin1In} {countries : List CountryIn}

/-- The hits of the cities that are reached are those of the cities named. -/
theorem reached_hits (hlt : (knownCities cities countries).length < 2 ^ 32) {name : Text}
    (hne : name ≠ [])
    (hcount : (indexEntries cities countries).countP (fun e => e.1.startsWith name) ≤ SCAN_CAP)
    (qualifiers : List Text) :
    ((storedCities cities admin1 countries).filter fun ref =>
      reached (sortIndex (indexEntries cities countries)) name ref.record &&
        qualifiers.all ref.matchesQualifier).map CityRef.toHit =
      namedHits cities admin1 countries name qualifiers := by
  have hknown : knownCities cities countries = (knownCities cities countries).zipIdx.map Prod.fst :=
    (List.zipIdx_map_fst 0 _).symm
  rw [namedHits, storedCities, List.filter_filterMap, List.map_filterMap]
  conv_rhs => rw [hknown, List.filterMap_map]
  refine List.filterMap_congr ?_
  rintro ⟨⟨c, k⟩, r⟩ hmem
  have hr : (knownCities cities countries)[r]? = some (c, k) :=
    List.mem_zipIdx_iff_getElem?.mp hmem
  have hreached := reached_named hlt hr hne hcount
  show ((c.stored k (c.region admin1) (UInt32.ofNat r)).filter _).map _ = if c.named name then _
    else none
  -- what is kept of the city has its number
  have hfilter : ((c.stored k (c.region admin1) (UInt32.ofNat r)).filter fun ref =>
      reached (sortIndex (indexEntries cities countries)) name ref.record &&
        qualifiers.all ref.matchesQualifier) =
      (c.stored k (c.region admin1) (UInt32.ofNat r)).filter fun ref =>
        c.named name && qualifiers.all ref.matchesQualifier := by
    rw [stored_record]
    cases c.stored k (c.region admin1) 0 with
    | none => rfl
    | some ref =>
        rw [Option.map_some, Option.filter_some, Option.filter_some]
        simp only [hreached]
  rw [hfilter, ← stored_hit c k (c.region admin1) (UInt32.ofNat r)]
  cases hnamed : c.named name with
  | true => simp only [Bool.true_and, if_true]
  | false => simp

/-- Where the cap does not cut, a query has the hits of the cities it names. -/
theorem resolve_named {db : GeoDb} (h : Represents db (storedCities cities admin1 countries)
      (sortIndex (indexEntries cities countries)))
    (hlt : (knownCities cities countries).length < 2 ^ 32) {query name : Text}
    {qualifiers : List Text} (hzip : isZip query.trim = false)
    (hparse : parseQuery query.trim = (name, qualifiers)) (hne : name ≠ [])
    (hcount : (indexEntries cities countries).countP (fun e => e.1.startsWith name) ≤ SCAN_CAP) :
    ∃ hits : List GeoHit, hits.Perm (namedHits cities admin1 countries name qualifiers) ∧
      ∀ limit, db.resolve query limit = .ok (hits.take limit) := by
  refine ⟨(((storedCities cities admin1 countries).filter fun ref =>
    reached (sortIndex (indexEntries cities countries)) name ref.record &&
      qualifiers.all ref.matchesQualifier).insertionSort fun a b => a.ranked b).map CityRef.toHit,
    ?_, fun limit => ?_⟩
  · rw [← reached_hits hlt hne hcount]
    exact (List.perm_insertionSort _ _).map _
  · rw [resolve_eq hzip hparse, resolve_cities_eq h hne, Checked.ok_bind]
    show Except.ok (List.map _ _) = _
    rw [List.map_take]

/-- The index entries that a query matches. A ZIP code and a query without a name match none. -/
def matchingEntries (cities : List CityIn) (countries : List CountryIn) (query : Text) :
    List (Text × UInt32) :=
  let (name, _) := parseQuery query.trim
  if isZip query.trim || name.isEmpty then []
  else (indexEntries cities countries).filter fun e => e.1.startsWith name

/-- What there is to be found for a query, in no order. -/
def wantedHits (cities : List CityIn) (admin1 : List Admin1In) (countries : List CountryIn)
    (zips : List ZipIn) (query : Text) : List GeoHit :=
  let (name, qualifiers) := parseQuery query.trim
  if isZip query.trim then
    ((zips.find? fun z => decide (z.zip = queriedZip query)).map ZipIn.hit).toList
  else if name.isEmpty then []
  else namedHits cities admin1 countries name qualifiers

/-- An encoded image finds what there is to be found, where the cap does not cut. -/
theorem resolve_wanted {zips : List ZipIn} {image : Bytes}
    (h : encode cities admin1 countries zips = .ok image) :
    ∃ db : GeoDb, (fromBytes image).run = .ok (.ok db) ∧ ∀ query : Text,
      (matchingEntries cities countries query).length ≤ SCAN_CAP →
        ∃ hits : List GeoHit, hits.Perm (wantedHits cities admin1 countries zips query) ∧
          ∀ limit, db.resolve query limit = .ok (hits.take limit) := by
  obtain ⟨db, hload, -, hrepresents, hlt, hzips⟩ := encode_stored h
  refine ⟨db, hload, ?_⟩
  intro query hmatching
  unfold wantedHits
  unfold matchingEntries at hmatching
  cases hparse : parseQuery query.trim with
  | mk name qualifiers =>
      rw [hparse] at hmatching
      simp only at hmatching ⊢
      cases hzip : isZip query.trim with
      | true =>
          simp only [if_true]
          exact ⟨_, .refl _, fun limit => resolve_zip_query hzips hzip limit⟩
      | false =>
          rw [hzip, Bool.false_or] at hmatching
          simp only [Bool.false_eq_true, if_false]
          cases hempty : name.isEmpty with
          | true =>
              -- a query without a name finds nothing
              refine ⟨[], .refl _, fun limit => ?_⟩
              rw [resolve_eq hzip hparse, List.take_nil]
              unfold GeoDb.resolveCities
              rw [if_pos hempty]
              rfl
          | false =>
              rw [hempty] at hmatching
              simp only [Bool.false_eq_true, if_false, ← List.countP_eq_length_filter]
                at hmatching ⊢
              have hne : name ≠ [] := by simpa using hempty
              exact resolve_named hrepresents hlt hzip hparse hne hmatching

end Queries

/-- What there is to be found does not depend on the order of the cities. -/
theorem wanted_hits_perm {cities cities' : List CityIn} (h : cities.Perm cities')
    (admin1 : List Admin1In) (countries : List CountryIn) (zips : List ZipIn) (query : Text) :
    (wantedHits cities admin1 countries zips query).Perm
      (wantedHits cities' admin1 countries zips query) := by
  unfold wantedHits
  simp only
  split
  · exact .refl _
  · split
    · exact .refl _
    · exact (known_cities_perm h countries).filterMap _

omit [Degrees] in
/-- Nor does the number of entries that a query matches. -/
theorem matching_entries_perm {cities cities' : List CityIn} (h : cities.Perm cities')
    (countries : List CountryIn) (query : Text) :
    (matchingEntries cities countries query).length =
      (matchingEntries cities' countries query).length := by
  unfold matchingEntries
  simp only
  split
  · rfl
  · have hkeys := (index_keys_perm h countries).countP_eq
      fun key => key.startsWith (parseQuery query.trim).1
    rw [List.countP_map, List.countP_map] at hkeys
    rw [← List.countP_eq_length_filter, ← List.countP_eq_length_filter]
    exact hkeys

/-- The limit cuts nothing off: a larger one gives the same answer. -/
def GeoDb.Untruncated (db : GeoDb) (query : Text) (limit : Nat) : Prop :=
  ∀ larger, limit ≤ larger → db.resolve query larger = db.resolve query limit

omit [Degrees] in
theorem untruncated_length {db : GeoDb} {query : Text} {limit : Nat} {hits : List GeoHit}
    (hresolve : ∀ limit, db.resolve query limit = .ok (hits.take limit))
    (h : db.Untruncated query limit) : hits.length ≤ limit := by
  have hlarger := h (max limit hits.length) (Nat.le_max_left _ _)
  rw [hresolve, hresolve, List.take_of_length_le (Nat.le_max_right _ _)] at hlarger
  have hsame := congrArg List.length (Except.ok.inj hlarger)
  rw [List.length_take] at hsame
  omega

/-! ## The order of the input -/

/-- Cities in another order are encoded too, and give a query that nothing cuts the same hits. -/
theorem resolve_cities_perm {cities cities' : List CityIn} {admin1 : List Admin1In}
    {countries : List CountryIn} {zips : List ZipIn} {image : Bytes} (hperm : cities.Perm cities')
    (hencode : encode cities admin1 countries zips = .ok image) :
    ∃ (image' : Bytes) (db db' : GeoDb), encode cities' admin1 countries zips = .ok image' ∧
      (fromBytes image).run = .ok (.ok db) ∧ (fromBytes image').run = .ok (.ok db') ∧
      ∀ (query : Text) (limit : Nat), (matchingEntries cities countries query).length ≤ SCAN_CAP →
        db.Untruncated query limit →
        ∃ hits hits', db.resolve query limit = .ok hits ∧ db'.resolve query limit = .ok hits' ∧
          hits.Perm hits' := by
  obtain ⟨image', hencode'⟩ := encode_cities_perm hperm hencode
  obtain ⟨db, hload, hqueries⟩ := resolve_wanted hencode
  obtain ⟨db', hload', hqueries'⟩ := resolve_wanted hencode'
  refine ⟨image', db, db', hencode', hload, hload', ?_⟩
  intro query limit hmatching huntruncated
  obtain ⟨hits, hwanted, hresolve⟩ := hqueries query hmatching
  rw [matching_entries_perm hperm] at hmatching
  obtain ⟨hits', hwanted', hresolve'⟩ := hqueries' query hmatching
  have hsame : hits.Perm hits' := hwanted.trans
    ((wanted_hits_perm hperm admin1 countries zips query).trans hwanted'.symm)
  have hlimit := untruncated_length hresolve huntruncated
  refine ⟨hits, hits', ?_, ?_, hsame⟩
  · rw [hresolve, List.take_of_length_le hlimit]
  · rw [hresolve', List.take_of_length_le (hsame.length_eq ▸ hlimit)]

/-- A query of five digits has the first place with that ZIP code, if there is one. -/
theorem resolve_five_digits {cities : List CityIn} {admin1 : List Admin1In}
    {countries : List CountryIn} {zips : List ZipIn} {image : Bytes}
    (hencode : encode cities admin1 countries zips = .ok image) :
    ∃ db : GeoDb, (fromBytes image).run = .ok (.ok db) ∧
      ∀ (zip : UInt32) (query : Text) (limit : Nat), zip.toNat ≤ 99999 →
        query.trim = fiveDigits zip.toNat → 0 < limit →
        db.resolve query limit =
          .ok ((zips.find? fun z => decide (z.zip = zip)).map ZipIn.hit).toList := by
  obtain ⟨db, hload, -, -, -, hzips⟩ := encode_stored hencode
  refine ⟨db, hload, ?_⟩
  intro zip query limit hsmall hquery hlimit
  have hisZip : isZip query.trim = true := by
    rw [hquery]
    exact is_zip_five_digits hsmall
  rw [resolve_zip_query hzips hisZip, queried_five_digits hsmall hquery]
  exact congrArg Except.ok (List.take_of_length_le (Option.length_toList_le.trans hlimit))

/-- **The order of the input does not matter.** An image is the same for countries, regions and ZIP
codes in any order, if no code is there twice. Cities that are encoded are encoded in any order, and
a query that neither the cap nor its limit cuts has the same hits. A query of five digits is
answered by the first place of the input with that ZIP code, and by nothing where there is none,
also where codes are there twice. -/
theorem input_order_irrelevant :
    (∀ (cities : List CityIn) (admin1 admin1' : List Admin1In)
      (countries countries' : List CountryIn) (zips zips' : List ZipIn),
      (countries.map CountryIn.iso2).Nodup → (admin1.map Admin1In.code).Nodup →
      (zips.map ZipIn.zip).Nodup → countries.Perm countries' → admin1.Perm admin1' →
      zips.Perm zips' →
      encode cities admin1 countries zips = encode cities admin1' countries' zips') ∧
    (∀ (cities cities' : List CityIn) (admin1 : List Admin1In) (countries : List CountryIn)
      (zips : List ZipIn) (image : Bytes), cities.Perm cities' →
      encode cities admin1 countries zips = .ok image →
      ∃ (image' : Bytes) (db db' : GeoDb), encode cities' admin1 countries zips = .ok image' ∧
        (fromBytes image).run = .ok (.ok db) ∧ (fromBytes image').run = .ok (.ok db') ∧
        ∀ (query : Text) (limit : Nat),
          (matchingEntries cities countries query).length ≤ SCAN_CAP →
          db.Untruncated query limit →
          ∃ hits hits', db.resolve query limit = .ok hits ∧ db'.resolve query limit = .ok hits' ∧
            hits.Perm hits') ∧
    ∀ (cities : List CityIn) (admin1 : List Admin1In) (countries : List CountryIn)
      (zips : List ZipIn) (image : Bytes), encode cities admin1 countries zips = .ok image →
      ∃ db : GeoDb, (fromBytes image).run = .ok (.ok db) ∧
        ∀ (zip : UInt32) (query : Text) (limit : Nat), zip.toNat ≤ 99999 →
          query.trim = fiveDigits zip.toNat → 0 < limit →
          ((∃ z ∈ zips, z.zip = zip) → ∃ first,
            zips.find? (fun z => decide (z.zip = zip)) = some first ∧
              db.resolve query limit = .ok [first.hit]) ∧
          ((∀ z ∈ zips, z.zip ≠ zip) → db.resolve query limit = .ok []) := by
  refine ⟨?_, ?_, ?_⟩
  · intro cities admin1 admin1' countries countries' zips zips' hcountryCodes hadmin1Codes hzipCodes
      hcountries hadmin1 hzips
    exact encode_perm cities hcountryCodes hadmin1Codes hzipCodes hcountries hadmin1 hzips
  · intro cities cities' admin1 countries zips image hperm hencode
    exact resolve_cities_perm hperm hencode
  · intro cities admin1 countries zips image hencode
    obtain ⟨db, hload, hanswer⟩ := resolve_five_digits hencode
    refine ⟨db, hload, ?_⟩
    intro zip query limit hsmall hquery hlimit
    rw [hanswer zip query limit hsmall hquery hlimit]
    constructor
    · rintro ⟨z, hz, hzip⟩
      obtain ⟨first, hfirst⟩ : ∃ first, zips.find? (fun z => decide (z.zip = zip)) = some first :=
        Option.isSome_iff_exists.mp (List.find?_isSome.mpr ⟨z, hz, decide_eq_true hzip⟩)
      refine ⟨first, hfirst, ?_⟩
      rw [hfirst]
      rfl
    · intro hnone
      have hmissing : zips.find? (fun z => decide (z.zip = zip)) = none :=
        List.find?_eq_none.mpr fun z hz => by simpa using hnone z hz
      rw [hmissing]
      rfl

end Encoded

/-! ## Two cities -/

/-- The capital of another country. -/
def lima : CityIn where
  name := "Lima".toList
  asciiName := "Lima".toList
  countryIso2 := "PE".toList
  admin1Code := []
  lat := .finite (-120432 / 10000)
  lon := .finite (-770282 / 10000)
  population := 2000

def peru : CountryIn := { iso2 := "PE".toList, name := "Peru".toList }

/-- Two places under one ZIP code. -/
def portland : List ZipIn :=
  [⟨97201, .finite (455 / 10), .finite (-1227 / 10)⟩, ⟨97201, .finite 0, .finite 0⟩]

/-- Countries and cities in either order, and a ZIP code that is there twice. -/
theorem input_order_irrelevant_two : ∃ image image' db db',
    @encode asciiCase sourceDegrees [quito, lima] [] [ecuador, peru] portland = .ok image ∧
      @encode asciiCase sourceDegrees [quito, lima] [] [peru, ecuador] [] =
        @encode asciiCase sourceDegrees [quito, lima] [] [ecuador, peru] [] ∧
      @encode asciiCase sourceDegrees [lima, quito] [] [ecuador, peru] portland = .ok image' ∧
      (fromBytes image).run = .ok (.ok db) ∧ (fromBytes image').run = .ok (.ok db') ∧
      (∃ hits hits', @GeoDb.resolve asciiCase db "quito".toList 10 = .ok hits ∧
        @GeoDb.resolve asciiCase db' "quito".toList 10 = .ok hits' ∧ hits.Perm hits') ∧
      @GeoDb.resolve asciiCase db "97201".toList 10 =
        .ok [@ZipIn.hit sourceDegrees ⟨97201, .finite (455 / 10), .finite (-1227 / 10)⟩] := by
  obtain ⟨hsorted, hcities, hzips⟩ := @input_order_irrelevant asciiCase sourceDegrees
  obtain ⟨image, himage⟩ : ∃ image, @encode asciiCase sourceDegrees [quito, lima] []
      [ecuador, peru] portland = .ok image := ⟨_, rfl⟩
  obtain ⟨image', db, db', himage', hload, hload', hqueries⟩ :=
    hcities [quito, lima] [lima, quito] [] [ecuador, peru] portland image (List.Perm.swap _ _ _)
      himage
  obtain ⟨dbz, hloadz, hcodes⟩ := hzips _ _ _ _ image himage
  obtain ⟨dbw, hloadw, hwanted⟩ := @resolve_wanted asciiCase sourceDegrees _ _ _ _ _ himage
  obtain rfl : db = dbz := Except.ok.inj (Except.ok.inj (hload.symm.trans hloadz))
  obtain rfl : db = dbw := Except.ok.inj (Except.ok.inj (hload.symm.trans hloadw))
  have hcap : (@matchingEntries asciiCase [quito, lima] [ecuador, peru] "quito".toList).length ≤
      SCAN_CAP := by decide
  -- one hit is not cut off
  have huntruncated : @GeoDb.Untruncated asciiCase db "quito".toList 10 := by
    obtain ⟨hits, hperm, hresolve⟩ := hwanted "quito".toList hcap
    have hlength : hits.length ≤ 10 := by
      rw [hperm.length_eq]
      decide
    intro larger hlarger
    rw [hresolve, hresolve, List.take_of_length_le hlength,
      List.take_of_length_le (hlength.trans hlarger)]
  obtain ⟨first, hfirst, hanswer⟩ := (hcodes 97201 "97201".toList 10 (by decide) (by decide)
    (by decide)).1 ⟨_, List.mem_cons_self, rfl⟩
  obtain rfl := Option.some.inj (hfirst.symm.trans (show _ = some _ from rfl))
  exact ⟨image, image', db, db', himage,
    hsorted [quito, lima] [] [] [peru, ecuador] [ecuador, peru] [] [] (by decide) (by decide)
      (by decide) (List.Perm.swap _ _ _) (List.Perm.refl _) (List.Perm.refl _),
    himage', hload, hload', hqueries "quito".toList 10 hcap huntruncated, hanswer⟩

end OpenNtrip.Geodb
