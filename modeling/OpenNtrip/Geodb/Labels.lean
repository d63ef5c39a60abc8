import OpenNtrip.Geodb.Search

/-!
# Labels as queries

The label of a city is split at its commas like any query: `folded_parts_label` says into what.
`label_found_iff` is exactly when the query finds the city again, and `plain_label_found` that it
does for names without commas.
-/

namespace OpenNtrip.Geodb

/-! ## The parts of a query -/

section Parts

variable [CharTables]

/-- What lies between the commas of a text, trimmed and folded. -/
def foldedParts (s : Text) : List Text := ((s.splitOn ',').map Text.trim).map fold

/-- White space around a query is in none of its parts. -/
theorem folded_parts_trim (s : Text) : foldedParts s.trim = foldedParts s := by
  rw [foldedParts, foldedParts, Text.parts_trim (by decide)]

/-- A comma parts a query. -/
theorem folded_parts_cons (s t : Text) :
    foldedParts (s ++ ',' :: t) = foldedParts s ++ foldedParts t := by
  simp only [foldedParts, List.splitOn_append_cons_self, List.map_append]

/-- The space behind a comma does not show. -/
theorem folded_parts_space (s : Text) : foldedParts (' ' :: s) = foldedParts s := by
  have hspace : ∀ d ∈ [' '], isWhitespace d = true := by
    intro d hd
    rw [List.mem_singleton.mp hd]
    rfl
  have hparts := Text.parts_space_append (c := ',') (by decide) hspace s
  rw [List.singleton_append] at hparts
  rw [foldedParts, foldedParts, hparts]

/-- A query without a comma has one part. -/
theorem folded_parts_single {s : Text} (h : ',' ∉ s) : foldedParts s = [fold s.trim] := by
  rw [foldedParts, List.splitOn_eq_singleton h]
  rfl

theorem folded_parts_ne_nil (s : Text) : foldedParts s ≠ [] := by
  intro hnil
  have hparts := List.map_eq_nil_iff.mp (List.map_eq_nil_iff.mp hnil)
  exact List.splitOn_ne_nil ',' s hparts

/-- A query is its first part and the others that are not empty. -/
theorem parse_query_eq (q : Text) : parseQuery q =
    ((foldedParts q).headD [], (foldedParts q).tail.filter fun part => !part.isEmpty) := by
  by_cases hcomma : ',' ∈ q
  · obtain ⟨n, rest, rfl, hn⟩ := List.eq_append_cons_of_mem hcomma
    have hqualifiers : ∀ parts : List Text, parts.filterMap (fun part =>
        if (fold part.trim).isEmpty then none else some (fold part.trim)) =
          ((parts.map Text.trim).map fold).filter fun part => !part.isEmpty := by
      intro parts
      induction parts with
      | nil => rfl
      | cons part parts ih =>
          rw [List.filterMap_cons, List.map_cons, List.map_cons, List.filter_cons, ih]
          cases (fold part.trim).isEmpty with
          | true => rfl
          | false => rfl
    rw [folded_parts_cons, folded_parts_single hn, parseQuery, Text.split_once_append hn]
    show (_, List.filterMap _ _) = _
    rw [hqualifiers]
    rfl
  · rw [folded_parts_single hcomma, parseQuery, Text.split_once_none hcomma]
    rfl

end Parts

/-! ## The parts of a label -/

namespace CityRef

variable (c : CityRef)

/-- The region in the label of a city. -/
def labelRegion : Option Text :=
  match c.admin1 with
  | some a1 =>
    if c.iso2 = "US".toList ∧ a1.abbreviation ≠ [] then some a1.abbreviation
    else if a1.name ≠ [] then some a1.name
    else none
  | none => none

/-- What follows the name in a label, behind the first comma and space. -/
def labelRest : Text :=
  match c.labelRegion with
  | some region => region ++ ',' :: ' ' :: c.iso2
  | none => c.iso2

/-- A label is the name, and the rest behind a comma. -/
theorem display_eq : c.display = c.name ++ ',' :: ' ' :: c.labelRest := by
  unfold display labelRest labelRegion
  cases c.admin1 with
  | none => exact List.append_assoc _ _ _
  | some a1 =>
      simp only
      split
      · simp only [List.append_assoc]
        rfl
      · split
        · simp only [List.append_assoc]
          rfl
        · exact List.append_assoc _ _ _

variable [CharTables]

/-- The name that the label asks for. -/
def labelName : Text := (foldedParts c.name).headD []

/-- The qualifiers that the label asks for. -/
def labelQualifiers : List Text :=
  (foldedParts c.name).tail ++ c.labelRegion.toList.flatMap foldedParts ++ foldedParts c.iso2

/-- A label is split into the parts of the name, of the region and of the country code. -/
theorem folded_parts_label : foldedParts c.display = c.labelName :: c.labelQualifiers := by
  have hrest : foldedParts c.labelRest =
      c.labelRegion.toList.flatMap foldedParts ++ foldedParts c.iso2 := by
    unfold labelRest
    cases c.labelRegion with
    | none => rfl
    | some region =>
        simp only [folded_parts_cons, folded_parts_space, Option.toList_some, List.flatMap_cons,
          List.flatMap_nil, List.append_nil]
  rw [display_eq, folded_parts_cons, folded_parts_space, hrest, labelName, labelQualifiers]
  cases hparts : foldedParts c.name with
  | nil => exact absurd hparts (folded_parts_ne_nil _)
  | cons first rest => simp

/-- The label is parsed into the first part of the name and all others. -/
theorem parse_label : parseQuery c.display.trim =
    (c.labelName, c.labelQualifiers.filter fun part => !part.isEmpty) := by
  rw [parse_query_eq, folded_parts_trim, folded_parts_label]
  rfl

omit [CharTables] in
/-- A label is no ZIP code. -/
theorem label_not_zip : isZip c.display.trim = false := by
  have hcomma : ',' ∈ c.display.trim := by
    rw [display_eq, Text.trim_append (by decide)]
    exact List.mem_append_right _ List.mem_cons_self
  have hbyte : (44 : UInt8) ∈ (c.display.trim).toBytes := (Text.mem_to_bytes (by decide)).mpr hcomma
  have hall : ((c.display.trim).toBytes.all fun b => 48 ≤ b && b ≤ 57) = false := by
    rw [List.all_eq_false]
    exact ⟨44, hbyte, by decide⟩
  rw [isZip, hall, Bool.and_false]

/-- Every city matches an empty qualifier. -/
theorem matches_empty : c.matchesQualifier [] = true := by
  simp [matchesQualifier, fieldStartsWith, Text.startsWith]

end CityRef

/-! ## Finding a city by its label -/

section Labels

variable [CharTables]

/-- The label of a city reads as a query for the city. -/
structure ReadsBack (index : List (Text × UInt32)) (c : CityRef) : Prop where
  name : c.labelName ≠ []
  reached : reached index c.labelName c.record = true
  qualifiers : ∀ part ∈ c.labelQualifiers, c.matchesQualifier part = true

/-- The city is among the answers to its label. -/
def FoundByLabel (db : GeoDb) (limit : Nat) (c : CityRef) : Prop :=
  ∃ found, db.resolveCities (parseQuery c.display.trim).1 (parseQuery c.display.trim).2 limit =
      .ok found ∧
    db.resolve c.display limit = .ok (found.map CityRef.toHit) ∧ c ∈ found

/-- A city is found by its label if the label reads back to it. -/
theorem found_by_label_iff {db : GeoDb} {refs : List CityRef} {index : List (Text × UInt32)}
    (h : Represents db refs index) {c : CityRef} (hc : c ∈ refs) {limit : Nat}
    (hlimit : refs.length ≤ limit) : FoundByLabel db limit c ↔ ReadsBack index c := by
  have hparse := c.parse_label
  have hresolve : db.resolve c.display limit = _ := resolve_eq c.label_not_zip hparse limit
  unfold FoundByLabel
  rw [hresolve, hparse]
  by_cases hname : c.labelName = []
  · -- a query without a name has no answer
    have hnone : db.resolveCities c.labelName
        (c.labelQualifiers.filter fun part => !part.isEmpty) limit = .ok [] := by
      rw [hname]
      rfl
    constructor
    · rintro ⟨found, hfound, -, hmem⟩
      obtain rfl := Except.ok.inj (hnone.symm.trans hfound)
      simp at hmem
    · intro hreads
      exact absurd hname hreads.name
  · rw [resolve_cities_eq h hname, Checked.ok_bind, List.take_of_length_le]
    · have hqualifiers : ((c.labelQualifiers.filter fun part => !part.isEmpty).all
          c.matchesQualifier = true) ↔ ∀ part ∈ c.labelQualifiers,
            c.matchesQualifier part = true := by
        simp only [List.all_eq_true, List.mem_filter]
        constructor
        · -- an empty part is no qualifier, and every city would satisfy it
          intro hall part hpart
          cases part with
          | nil => exact c.matches_empty
          | cons d rest => exact hall _ ⟨hpart, rfl⟩
        · rintro hall part ⟨hpart, -⟩
          exact hall part hpart
      constructor
      · rintro ⟨found, hfound, -, hmem⟩
        obtain rfl := Except.ok.inj hfound
        rw [List.mem_insertionSort, List.mem_filter, Bool.and_eq_true, hqualifiers] at hmem
        exact ⟨hname, hmem.2.1, hmem.2.2⟩
      · intro hreads
        refine ⟨_, rfl, rfl, ?_⟩
        rw [List.mem_insertionSort, List.mem_filter, Bool.and_eq_true, hqualifiers]
        exact ⟨hc, hreads.reached, hreads.qualifiers⟩
    · rw [List.length_insertionSort]
      exact (List.length_filter_le _ _).trans hlimit

/-! ## Plain names -/

omit [CharTables] in
theorem starts_self (s : Text) : s.startsWith s = true :=
  List.isPrefixOf_iff_prefix.mpr List.prefix_rfl

/-- Nothing in the label contains a comma, or starts or ends with white space. -/
structure PlainLabel (c : CityRef) : Prop where
  name : ',' ∉ c.name ∧ c.name.Trimmed
  region : ∀ s ∈ c.labelRegion, ',' ∉ s ∧ s.Trimmed
  iso2 : ',' ∉ c.iso2 ∧ c.iso2.Trimmed

/-- A name without a comma is one part. -/
theorem folded_parts_plain {s : Text} (h : ',' ∉ s ∧ s.Trimmed) : foldedParts s = [fold s] := by
  rw [folded_parts_single h.1, h.2]

/-- The region that is shown satisfies itself as a qualifier. -/
theorem matches_region {c : CityRef} {s : Text} (h : c.labelRegion = some s) :
    c.matchesQualifier (fold s) = true := by
  unfold CityRef.labelRegion at h
  unfold CityRef.matchesQualifier
  cases hadmin1 : c.admin1 with
  | none => simp [hadmin1] at h
  | some a1 =>
      simp only [hadmin1] at h
      split at h
      · obtain rfl := Option.some.inj h
        simp [fieldStartsWith, starts_self]
      · split at h
        · obtain rfl := Option.some.inj h
          simp [fieldStartsWith, starts_self]
        · simp at h

/-- A city matches the code of its country. -/
theorem matches_iso2 (c : CityRef) : c.matchesQualifier (fold c.iso2) = true := by
  simp [CityRef.matchesQualifier, fieldStartsWith, starts_self]

/-- A plain label reads back if the name that it shows is the key of the city. -/
theorem PlainLabel.reads_back {index : List (Text × UInt32)} {c : CityRef} (h : PlainLabel c)
    (hname : fold c.name ≠ []) (hreached : reached index (fold c.name) c.record = true) :
    ReadsBack index c := by
  have hlabel : c.labelName = fold c.name := by
    rw [CityRef.labelName, folded_parts_plain h.name]
    rfl
  refine ⟨?_, ?_, ?_⟩
  · rw [hlabel]
    exact hname
  · rw [hlabel]
    exact hreached
  · intro part hpart
    rw [CityRef.labelQualifiers, folded_parts_plain h.name, folded_parts_plain h.iso2] at hpart
    rcases List.mem_append.mp hpart with hpart | hpart
    · obtain ⟨s, hs, hpart⟩ := List.mem_flatMap.mp hpart
      have hregion : c.labelRegion = some s := Option.mem_toList.mp hs
      rw [folded_parts_plain (h.region s hregion)] at hpart
      rw [List.mem_singleton.mp hpart]
      exact matches_region hregion
    · rw [List.mem_singleton.mp hpart]
      exact matches_iso2 c

variable [Degrees] {cities : List CityIn} {admin1 : List Admin1In} {countries : List CountryIn}
  {zips : List ZipIn} {image : Bytes}

/-- A city with a plain label that is short enough to be stored whole is found by it, if at most 500
index entries have its name as their key. -/
theorem plain_label_found (hcodes : Codes admin1 countries)
    (h : encode cities admin1 countries zips = .ok image) :
    ∃ db : GeoDb, (fromBytes image).run = .ok (.ok db) ∧
      ∀ (r : Nat) (c : CityIn) (k : CountryIn) (limit : Nat),
        (knownCities cities countries)[r]? = some (c, k) →
        (knownCities cities countries).length ≤ limit →
        PlainLabel (c.ref k (c.region admin1) (UInt32.ofNat r)) → fold c.name ≠ [] →
        c.name.toBytes.length ≤ 255 → (fold c.name).toBytes.length ≤ 255 →
        (indexEntries cities countries).countP (fun e => e.1 == fold c.name) ≤ SCAN_CAP →
        FoundByLabel db limit (c.ref k (c.region admin1) (UInt32.ofNat r)) := by
  obtain ⟨db, refs, hload, -, hrepresents, hlt, hcatalog⟩ := encode_represents h
  obtain rfl := hcatalog hcodes
  refine ⟨db, hload, ?_⟩
  intro r c k limit hr hlimit hplain hne hname hfold hcount
  have hshown : (c.ref k (c.region admin1) (UInt32.ofNat r)).name = c.name := if_pos hname
  have hkey : fold c.name ∈ c.keys := mem_keys.mpr ⟨hne, .inl (if_pos hfold).symm⟩
  have hlength : (catalog cities admin1 countries).length ≤ limit := by
    rw [catalog, List.length_map, List.length_zipIdx]
    exact hlimit
  refine (found_by_label_iff hrepresents (mem_catalog.mpr ⟨r, c, k, hr, rfl⟩) hlength).mpr ?_
  refine hplain.reads_back ?_ ?_
  · rw [hshown]
    exact hne
  · rw [hshown]
    exact reached_exact hlt hr hkey hcount

/-- **Labels as queries.** A city of an encoded image is found by its label, if enough answers are
asked for, exactly if the label reads back: what stands before its first comma is not empty and
among the first 500 entries that start with it is one of the city, and every other part between
commas is a qualifier that the city satisfies. -/
theorem label_found_iff (h : encode cities admin1 countries zips = .ok image) :
    ∃ (db : GeoDb) (refs : List CityRef), (fromBytes image).run = .ok (.ok db) ∧
      db.cities (numbers cities countries) = .ok refs ∧
      ∀ c ∈ refs, ∀ limit, (knownCities cities countries).length ≤ limit →
        (FoundByLabel db limit c ↔ ReadsBack (sortIndex (indexEntries cities countries)) c) := by
  obtain ⟨db, refs, hload, hrefs, hrepresents, -, -⟩ := encode_represents h
  refine ⟨db, refs, hload, hrefs, ?_⟩
  intro c hc limit hlimit
  refine found_by_label_iff hrepresents hc ?_
  have hlength := (cities_spec hrefs).2.length_le
  rw [List.length_map, numbers, List.length_map, List.length_range] at hlength
  exact hlength.trans hlimit

end Labels

/-! ## Two cities -/

/-- The city is found by "Quito, EC". -/
theorem label_found_quito : ∃ image,
    @encode asciiCase sourceDegrees [quito] [] [ecuador] [] = .ok image ∧ ∃ db : GeoDb,
      (fromBytes image).run = .ok (.ok db) ∧
        @FoundByLabel asciiCase db 1 (@CityIn.ref sourceDegrees quito ecuador none 0) := by
  obtain ⟨image, himage⟩ := encode_quito
  obtain ⟨db, refs, hload, hrefs, hfound⟩ :=
    @label_found_iff asciiCase sourceDegrees _ _ _ _ _ himage
  obtain ⟨db', refs', hload', hrefs', -, -, hcatalog⟩ :=
    @encode_represents asciiCase sourceDegrees _ _ _ _ _ himage
  obtain rfl : db = db' := Except.ok.inj (Except.ok.inj (hload.symm.trans hload'))
  obtain rfl : refs = refs' := Except.ok.inj (hrefs.symm.trans hrefs')
  obtain rfl := hcatalog quito_codes
  refine ⟨image, himage, db, hload, ?_⟩
  exact (hfound _ (List.mem_singleton_self _) 1 (by decide)).mpr
    (@ReadsBack.mk asciiCase _ _ (by decide) (by decide) (List.all_eq_true.mp (by decide)))

/-- A city with a comma in its name. -/
def magapit : CityIn where
  name := "Magapit, Aguiguican".toList
  asciiName := "Magapit, Aguiguican".toList
  countryIso2 := "PH".toList
  admin1Code := "02".toList
  lat := .finite 0
  lon := .finite 0
  population := 13659

def cagayanValley : Admin1In := { code := "PH.02".toList, name := "Cagayan Valley".toList }

def philippines : CountryIn := { iso2 := "PH".toList, name := "Philippines".toList }

theorem magapit_codes : Codes [cagayanValley] [philippines] := by
  constructor
  · intro k hk
    obtain rfl := List.mem_singleton.mp hk
    exact ⟨is_ascii_of_all (by decide), by decide⟩
  · intro a ha
    obtain rfl := List.mem_singleton.mp ha
    exact is_ascii_of_all (by decide)

/-- The part of its name behind the comma is taken for a qualifier, which nothing satisfies: the
label has no answer. -/
theorem comma_label_lost : ∃ image,
    @encode asciiCase sourceDegrees [magapit] [cagayanValley] [philippines] [] = .ok image ∧
      ∃ (db : GeoDb) (ref : CityRef), (fromBytes image).run = .ok (.ok db) ∧
        db.city 0 = Reads.total (some ref) ∧
        ref.display = "Magapit, Aguiguican, Cagayan Valley, PH".toList ∧
        (@indexEntries asciiCase [magapit] [philippines]).length ≤ SCAN_CAP ∧
        @GeoDb.resolve asciiCase db ref.display 1 = .ok [] := by
  obtain ⟨image, himage⟩ : ∃ image, @encode asciiCase sourceDegrees [magapit] [cagayanValley]
    [philippines] [] = .ok image := ⟨_, rfl⟩
  obtain ⟨db, refs, hload, -, hrepresents, hlt, hcatalog⟩ :=
    @encode_represents asciiCase sourceDegrees _ _ _ _ _ himage
  obtain rfl := hcatalog magapit_codes
  have href := hrepresents.city
    (@CityIn.ref sourceDegrees magapit philippines (some cagayanValley) 0)
    (List.mem_singleton_self _)
  refine ⟨image, himage, db, _, hload, href, by decide, by decide, ?_⟩
  exact @resolve_naive asciiCase sourceDegrees _ _ _ db hrepresents hlt _ (by decide) (by decide)
    (by decide) 1

end OpenNtrip.Geodb
