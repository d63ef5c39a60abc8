import OpenNtrip.Geodb.Readback

/-!
# Search is exact

`prefix_scan_spec` says which cities the binary search and the capped scan collect, and
`resolve_cities_eq` what is answered: the cities reached by the scan that satisfy the qualifiers, in
their order. `search_exact` compares that with looking at every city.
-/

namespace OpenNtrip.Geodb

/-- The entries that a query looks at. -/
def examined (index : List (Text × UInt32)) (wanted : Text) : List (Text × UInt32) :=
  (index.filter fun e => e.1.startsWith wanted).take SCAN_CAP

/-- The scan comes to an entry of the city. -/
def reached (index : List (Text × UInt32)) (wanted : Text) (record : UInt32) : Bool :=
  (examined index wanted).any fun e => e.2 == record

theorem reached_iff {index : List (Text × UInt32)} {wanted : Text} {record : UInt32} :
    reached index wanted record = true ↔ ∃ e ∈ examined index wanted, e.2 = record := by
  simp [reached]

theorem to_bytes_starts (s wanted : Text) :
    wanted.toBytes.isPrefixOf s.toBytes = s.startsWith wanted := by
  rw [Bool.eq_iff_iff, List.isPrefixOf_iff_prefix, Text.to_bytes_starts_iff, Text.startsWith,
    List.isPrefixOf_iff_prefix]

/-- A record is collected once. -/
theorem push_new {recs : List UInt32} (hrecs : recs.Nodup) (r : UInt32) :
    (if recs.contains r then recs else recs ++ [r]).Nodup ∧
      ∀ r', r' ∈ (if recs.contains r then recs else recs ++ [r]) ↔ r' ∈ recs ∨ r' = r := by
  split
  · next hseen =>
      have hin : r ∈ recs := by simpa using hseen
      refine ⟨hrecs, fun r' => ⟨.inl, ?_⟩⟩
      rintro (hr' | rfl)
      · exact hr'
      · exact hin
  · next hseen =>
      have hnew : r ∉ recs := by simpa using hseen
      refine ⟨?_, fun r' => by rw [List.mem_append, List.mem_singleton]⟩
      rw [List.nodup_append]
      refine ⟨hrecs, List.nodup_singleton _, ?_⟩
      intro a ha b hb
      rw [List.mem_singleton.mp hb]
      exact fun heq => hnew (heq ▸ ha)

section Reader

variable {db : GeoDb} {refs : List CityRef} {index : List (Text × UInt32)}

/-- The scan collects the records of the entries it looks at, each once. -/
theorem scan_spec (h : Represents db refs index) (wanted : Text) {lo n : Nat}
    (hend : lo + n ≤ index.length) {recs : List UInt32} (hrecs : recs.Nodup) :
    ∃ found, db.scan wanted.toBytes recs (List.range' lo n) = .ok found ∧ found.Nodup ∧
      ∀ r, r ∈ found ↔ r ∈ recs ∨
        ∃ e ∈ ((index.drop lo).take n).takeWhile (fun e => e.1.startsWith wanted), e.2 = r := by
  induction n generalizing lo recs with
  | zero => exact ⟨recs, rfl, hrecs, by simp⟩
  | succ n ih =>
      have hlo : lo < index.length := by omega
      have hget : index[lo]? = some index[lo] := List.getElem?_eq_getElem hlo
      have hlt := db.name_count_lt
      rw [h.count] at hlt
      have hoff : lo * NAME_INDEX_ENTRY_LEN < 2 ^ 40 := base_lt (by omega) (by decide)
      obtain ⟨hkey, hrecord⟩ := h.entry lo _ hget
      rw [List.drop_eq_getElem_cons hlo, List.take_succ_cons, List.range'_succ, GeoDb.scan, hkey,
        Checked.ok_bind, to_bytes_starts]
      cases hstarts : index[lo].1.startsWith wanted with
      | false =>
          -- the scan ends, and so does what is taken while it starts with the name
          refine ⟨recs, rfl, hrecs, ?_⟩
          simp [hstarts]
      | true =>
          simp only [Bool.not_true, Bool.false_eq_true, if_false, List.takeWhile_cons, hstarts,
            if_true]
          rw [usize_ok (by omega), Checked.ok_bind, hrecord, Reads.run_total, Checked.ok_bind]
          simp only
          obtain ⟨hpushed, hmem⟩ := push_new hrecs index[lo].2
          obtain ⟨found, hscan, hnodup, hfound⟩ := ih (by omega : lo + 1 + n ≤ _) hpushed
          refine ⟨found, ?_, hnodup, fun r => ?_⟩
          · -- both branches go on with the records and the new one, once
            rw [← hscan]
            split
            · rfl
            · rfl
          · rw [hfound, hmem, or_assoc]
            simp only [List.mem_cons, exists_eq_or_imp, eq_comm]

/-- The entries from the lower bound on, up to the cap. -/
theorem examined_eq (h : Represents db refs index) (wanted : Text) {lo : Nat}
    (hlo : lo ≤ index.length) (hbelow : ∀ e ∈ index.take lo, e.1.toBytes < wanted.toBytes)
    (habove : ∀ e ∈ index.drop lo, ¬ e.1.toBytes < wanted.toBytes) :
    ((index.drop lo).take (min index.length (lo + SCAN_CAP) - lo)).takeWhile
      (fun e => e.1.startsWith wanted) = examined index wanted := by
  have hrange : index.filter (fun e => wanted.toBytes.isPrefixOf e.1.toBytes) =
      (index.drop lo).takeWhile fun e => wanted.toBytes.isPrefixOf e.1.toBytes :=
    starts_range h.sorted hbelow habove
  simp only [to_bytes_starts] at hrange
  have htake : (index.drop lo).take (min index.length (lo + SCAN_CAP) - lo) =
      (index.drop lo).take SCAN_CAP := by
    rw [List.take_eq_take_iff, List.length_drop]
    omega
  rw [htake, ← List.take_takeWhile, ← hrange, examined]

/-- The search finds where the entries that are not below begin. -/
theorem search_spec (h : Represents db refs index) (wanted : Text) :
    ∃ lo ≤ index.length,
      search (fun i => return (← db.indexKey i) < wanted.toBytes) 0 index.length = .ok lo ∧
        (∀ e ∈ index.take lo, e.1.toBytes < wanted.toBytes) ∧
          ∀ e ∈ index.drop lo, ¬ e.1.toBytes < wanted.toBytes := by
  have hlt := db.name_count_lt
  rw [h.count] at hlt
  refine search_found (by omega) (h.sorted.imp fun hle hbelow => List.lt_of_le_of_lt hle hbelow) ?_
  intro i e hi
  rw [(h.entry i e hi).1]
  rfl

/-- The cities that the scan collects are those it comes to an entry of. -/
theorem prefix_scan_spec (h : Represents db refs index) (wanted : Text) :
    ∃ found, db.prefixScan wanted.toBytes = .ok found ∧
      found.Perm (refs.filter fun ref => reached index wanted ref.record) := by
  have hlt := db.name_count_lt
  rw [h.count] at hlt
  obtain ⟨lo, hlo, hsearch, hbelow, habove⟩ := search_spec h wanted
  have hcap : lo + SCAN_CAP < 2 ^ 33 := by
    rw [SCAN_CAP]
    omega
  have hend : lo + (min index.length (lo + SCAN_CAP) - lo) ≤ index.length := by omega
  obtain ⟨recs, hscan, hnodup, hmem⟩ := scan_spec h wanted hend List.nodup_nil
  rw [examined_eq h wanted hlo hbelow habove] at hmem
  simp only [List.not_mem_nil, false_or, ← reached_iff] at hmem
  obtain ⟨found, hcities⟩ := db.cities_safe recs
  obtain ⟨hfound, hsublist⟩ := cities_spec hcities
  refine ⟨found, ?_, ?_⟩
  · unfold GeoDb.prefixScan
    simp only [h.count]
    rw [hsearch, Checked.ok_bind, usize_ok (by omega), Checked.ok_bind, hscan, Checked.ok_bind,
      hcities]
  · refine (List.perm_ext_iff_of_nodup ((hnodup.sublist hsublist).of_map _)
      ((h.distinct.of_map _).filter _)).mpr fun ref => ?_
    rw [List.mem_filter, hfound, hmem]
    constructor
    · -- a record that is read through an entry is one of the cities
      rintro ⟨hreached, hcity⟩
      obtain ⟨e, he, hrecord⟩ := reached_iff.mp hreached
      refine ⟨h.target e ?_ ref (hrecord ▸ hcity), hreached⟩
      exact List.mem_of_mem_filter (List.mem_of_mem_take he)
    · rintro ⟨href, hreached⟩
      exact ⟨hreached, h.city ref href⟩

variable [CharTables]

/-- What is answered: the cities the scan comes to that satisfy the qualifiers, in their order. -/
theorem resolve_cities_eq (h : Represents db refs index) {name : Text} (hname : name ≠ [])
    (qualifiers : List Text) (limit : Nat) :
    db.resolveCities name qualifiers limit = .ok
      (((refs.filter fun ref => reached index name ref.record &&
        qualifiers.all ref.matchesQualifier).insertionSort fun a b => a.ranked b).take limit) := by
  obtain ⟨found, hscan, hperm⟩ := prefix_scan_spec h name
  have hkept : (if qualifiers.isEmpty then found
      else found.filter fun c => qualifiers.all c.matchesQualifier).Perm
        (refs.filter fun ref => reached index name ref.record &&
          qualifiers.all ref.matchesQualifier) := by
    have hfilter := hperm.filter fun c => qualifiers.all c.matchesQualifier
    rw [List.filter_filter] at hfilter
    simp only [Bool.and_comm (qualifiers.all _)] at hfilter
    split
    · next hempty =>
        rw [List.isEmpty_iff.mp hempty] at hfilter ⊢
        simpa using hfilter
    · exact hfilter
  have hnonempty : ¬ name.isEmpty = true := by simpa using hname
  unfold GeoDb.resolveCities
  rw [if_neg hnonempty, hscan, Checked.ok_bind]
  show Except.ok _ = _
  congr 2
  -- both are sorted, and cities that rank alike have one number
  refine List.Perm.eq_of_pairwise ?_ (GeoDb.ranked_sorted _) (GeoDb.ranked_sorted _)
    (((List.perm_insertionSort _ _).trans hkept).trans (List.perm_insertionSort _ _).symm)
  intro a b ha hb hab hba
  have hmem : ∀ {c : CityRef}, c ∈ (refs.filter fun ref => reached index name ref.record &&
      qualifiers.all ref.matchesQualifier).insertionSort (fun a b => a.ranked b) → c ∈ refs :=
    fun hc => List.mem_of_mem_filter ((List.mem_insertionSort _).mp hc)
  have ha' : a ∈ refs := by
    refine List.mem_of_mem_filter (hkept.mem_iff.mp ?_)
    exact (List.mem_insertionSort _).mp ha
  exact List.inj_on_of_nodup_map h.distinct ha' (hmem hb) (GeoDb.ranked_record hab hba)

/-- A query that is no ZIP code is answered by cities. -/
theorem resolve_eq {query name : Text} {qualifiers : List Text}
    (hzip : isZip query.trim = false) (hparse : parseQuery query.trim = (name, qualifiers))
    (limit : Nat) : db.resolve query limit = (do
      return (← db.resolveCities name qualifiers limit).map CityRef.toHit) := by
  unfold GeoDb.resolve
  simp only [hzip, hparse]
  rfl

end Reader

/-! ## Entries and names -/

theorem sort_index_perm (index : List (Text × UInt32)) : (sortIndex index).Perm index :=
  List.perm_insertionSort _ index

/-- Entries with the wanted key are looked at before the others. -/
theorem examined_exact {index : List (Text × UInt32)} {wanted : Text}
    (hsorted : index.Pairwise fun e e' => e.1.toBytes ≤ e'.1.toBytes)
    (hcount : index.countP (fun e => e.1 == wanted) ≤ SCAN_CAP) {e : Text × UInt32}
    (he : e ∈ index) (hkey : e.1 = wanted) : e ∈ examined index wanted := by
  have hfirst : index.filter (fun e => decide (e.1.toBytes = wanted.toBytes)) <+:
      index.filter fun e => wanted.toBytes.isPrefixOf e.1.toBytes :=
    equal_first hsorted wanted.toBytes
  have hsame : index.filter (fun e => decide (e.1.toBytes = wanted.toBytes)) =
      index.filter fun e => e.1 == wanted := by
    refine List.filter_congr fun e' _ => ?_
    rw [Bool.eq_iff_iff, decide_eq_true_iff, beq_iff_eq]
    exact ⟨Text.to_bytes_injective, fun heq => heq ▸ rfl⟩
  simp only [to_bytes_starts] at hfirst
  rw [hsame] at hfirst
  have hin : e ∈ index.filter fun e => e.1 == wanted :=
    List.mem_filter.mpr ⟨he, beq_iff_eq.mpr hkey⟩
  rw [List.countP_eq_length_filter] at hcount
  -- those with the wanted key come first, and they are no more than are looked at
  rw [List.prefix_iff_eq_take.mp hfirst] at hin
  exact (List.take_sublist_take_left hcount).mem hin

theorem examined_all {index : List (Text × UInt32)} {wanted : Text}
    (hcount : index.countP (fun e => e.1.startsWith wanted) ≤ SCAN_CAP) :
    examined index wanted = index.filter fun e => e.1.startsWith wanted := by
  rw [List.countP_eq_length_filter] at hcount
  exact List.take_of_length_le hcount

section Names

variable [CharTables]

theorem mem_keys {c : CityIn} {key : Text} : key ∈ c.keys ↔
    key ≠ [] ∧ (key = clampTo255 (fold c.name) ∨ key = clampTo255 (fold c.asciiName)) := by
  unfold CityIn.keys
  generalize clampTo255 (fold c.name) = k1
  generalize clampTo255 (fold c.asciiName) = k2
  have hempty : ∀ k : Text, (!k.isEmpty) = true ↔ k ≠ [] := by simp
  simp only [List.mem_append, Bool.and_eq_true, bne_iff_ne, hempty]
  constructor
  · rintro (hkey | hkey)
    · split at hkey
      · next hk1 =>
          obtain rfl := List.mem_singleton.mp hkey
          exact ⟨hk1, .inl rfl⟩
      · simp at hkey
    · split at hkey
      · next hk2 =>
          obtain rfl := List.mem_singleton.mp hkey
          exact ⟨hk2.2, .inr rfl⟩
      · simp at hkey
  · rintro ⟨hne, rfl | rfl⟩
    · rw [if_pos hne]
      exact .inl (List.mem_singleton_self _)
    · by_cases hsame : key = k1
      · obtain rfl := hsame
        rw [if_pos hne]
        exact .inl (List.mem_singleton_self _)
      · rw [if_pos (⟨hsame, hne⟩ : key ≠ k1 ∧ key ≠ [])]
        exact .inr (List.mem_singleton_self _)

/-- A city is named by what one of its keys starts with. -/
theorem named_iff {c : CityIn} {wanted : Text} (h : wanted ≠ []) :
    c.named wanted = true ↔ ∃ key ∈ c.keys, key.startsWith wanted = true := by
  have hne : ∀ {key : Text}, key.startsWith wanted = true → key ≠ [] := by
    rintro key hstarts rfl
    exact h (List.prefix_nil.mp (List.isPrefixOf_iff_prefix.mp hstarts))
  rw [CityIn.named, Bool.or_eq_true]
  constructor
  · rintro (hstarts | hstarts)
    · exact ⟨_, mem_keys.mpr ⟨hne hstarts, .inl rfl⟩, hstarts⟩
    · exact ⟨_, mem_keys.mpr ⟨hne hstarts, .inr rfl⟩, hstarts⟩
  · rintro ⟨key, hkey, hstarts⟩
    obtain ⟨-, rfl | rfl⟩ := mem_keys.mp hkey
    · exact .inl hstarts
    · exact .inr hstarts

theorem exactly_named_iff {c : CityIn} {wanted : Text} (h : wanted ≠ []) :
    c.exactlyNamed wanted = true ↔ wanted ∈ c.keys := by
  rw [CityIn.exactlyNamed, Bool.or_eq_true, beq_iff_eq, beq_iff_eq, mem_keys]
  constructor
  · rintro (heq | heq)
    · exact ⟨h, .inl heq.symm⟩
    · exact ⟨h, .inr heq.symm⟩
  · rintro ⟨-, heq | heq⟩
    · exact .inl heq.symm
    · exact .inr heq.symm

section Index

variable {cities : List CityIn} {countries : List CountryIn}
  (hlt : (knownCities cities countries).length < 2 ^ 32) {r : Nat} {c : CityIn} {k : CountryIn}
  (hr : (knownCities cities countries)[r]? = some (c, k))
include hlt hr

/-- The entries of a city are its keys. -/
theorem entry_iff {key : Text} :
    (key, UInt32.ofNat r) ∈ sortIndex (indexEntries cities countries) ↔ key ∈ c.keys := by
  rw [sortIndex, List.mem_insertionSort, mem_index_entries]
  constructor
  · rintro ⟨r', c', k', hr', hkey, hrecord⟩
    have hbound := (List.getElem?_eq_some_iff.mp hr).1
    have hbound' := (List.getElem?_eq_some_iff.mp hr').1
    have hnat := congrArg UInt32.toNat hrecord
    rw [u32_of_nat (by omega), u32_of_nat (by omega)] at hnat
    subst hnat
    obtain ⟨rfl, rfl⟩ := Prod.mk.inj (Option.some.inj (hr.symm.trans hr'))
    exact hkey
  · intro hkey
    exact ⟨r, c, k, hr, hkey, rfl⟩

/-- With at most so many entries as are looked at, the cities that are reached are those named. -/
theorem reached_named {wanted : Text} (hne : wanted ≠ [])
    (hcount : (indexEntries cities countries).countP (fun e => e.1.startsWith wanted) ≤ SCAN_CAP) :
    reached (sortIndex (indexEntries cities countries)) wanted (UInt32.ofNat r) =
      c.named wanted := by
  have hsorted := (sort_index_perm (indexEntries cities countries)).countP_eq
    fun e => e.1.startsWith wanted
  rw [Bool.eq_iff_iff, reached_iff, named_iff hne, examined_all (hsorted.trans_le hcount)]
  constructor
  · rintro ⟨⟨key, record⟩, he, rfl⟩
    obtain ⟨hin, hstarts⟩ := List.mem_filter.mp he
    exact ⟨key, (entry_iff hlt hr).mp hin, hstarts⟩
  · rintro ⟨key, hkey, hstarts⟩
    exact ⟨_, List.mem_filter.mpr ⟨(entry_iff hlt hr).mpr hkey, hstarts⟩, rfl⟩

/-- A city whose key is the wanted one is reached, whatever else starts with it. -/
theorem reached_exact {wanted : Text} (hkey : wanted ∈ c.keys)
    (hcount : (indexEntries cities countries).countP (fun e => e.1 == wanted) ≤ SCAN_CAP) :
    reached (sortIndex (indexEntries cities countries)) wanted (UInt32.ofNat r) = true := by
  have hsorted := (sort_index_perm (indexEntries cities countries)).countP_eq
    fun e => e.1 == wanted
  exact reached_iff.mpr ⟨_, examined_exact (sort_index_sorted _) (hsorted.trans_le hcount)
    ((entry_iff hlt hr).mpr hkey) rfl, rfl⟩

end Index

/-! ## The comparison -/

section Comparison

variable [Degrees] {cities : List CityIn} {admin1 : List Admin1In} {countries : List CountryIn}
  {zips : List ZipIn} {image : Bytes}

/-- Looking at every city finds those of the catalog that are reached. -/
theorem naive_scan_eq (hlt : (knownCities cities countries).length < 2 ^ 32) {query : Text}
    (hne : (parseQuery query.trim).1 ≠ [])
    (hcount : (indexEntries cities countries).countP
      (fun e => e.1.startsWith (parseQuery query.trim).1) ≤ SCAN_CAP) (limit : Nat) :
    naiveScan cities admin1 countries query limit =
      ((((catalog cities admin1 countries).filter fun ref =>
        reached (sortIndex (indexEntries cities countries)) (parseQuery query.trim).1 ref.record &&
          (parseQuery query.trim).2.all ref.matchesQualifier).insertionSort
            fun a b => a.ranked b).take limit).map CityRef.toHit := by
  unfold naiveScan
  generalize parseQuery query.trim = parsed at hne hcount ⊢
  obtain ⟨name, qualifiers⟩ := parsed
  simp only
  congr 3
  -- city by city: to be reached is to be named
  rw [← List.filterMap_eq_filter, catalog, List.filterMap_map]
  refine List.filterMap_congr ?_
  rintro ⟨⟨c, k⟩, r⟩ hmem
  have hr : (knownCities cities countries)[r]? = some (c, k) :=
    List.mem_zipIdx_iff_getElem?.mp hmem
  have hreached := reached_named hlt hr hne hcount
  show _ = Option.guard _ (c.ref k (c.region admin1) (UInt32.ofNat r))
  have hrecord : (c.ref k (c.region admin1) (UInt32.ofNat r)).record = UInt32.ofNat r := rfl
  simp only [Option.guard, hrecord, hreached]

/-- With at most so many entries as are looked at, the answer is the one found by looking at every
city. -/
theorem resolve_naive {db : GeoDb} (h : Represents db (catalog cities admin1 countries)
      (sortIndex (indexEntries cities countries)))
    (hlt : (knownCities cities countries).length < 2 ^ 32) {query : Text}
    (hzip : isZip query.trim = false) (hne : (parseQuery query.trim).1 ≠ [])
    (hcount : (indexEntries cities countries).countP
      (fun e => e.1.startsWith (parseQuery query.trim).1) ≤ SCAN_CAP) (limit : Nat) :
    db.resolve query limit = .ok (naiveScan cities admin1 countries query limit) := by
  have hparse : parseQuery query.trim =
      ((parseQuery query.trim).1, (parseQuery query.trim).2) := rfl
  rw [resolve_eq hzip hparse, resolve_cities_eq h hne, Checked.ok_bind,
    naive_scan_eq hlt hne hcount]
  rfl

/-- **Search is exact.** An encoded image is loaded, and a query on it that is no ZIP code and has a
name is answered as by looking at every city, if at most 500 index entries start with the name. If
at most 500 have the name as their key, the cities of that name that satisfy the qualifiers are
among those found, however many start with it. -/
theorem search_exact (hcodes : Codes admin1 countries)
    (h : encode cities admin1 countries zips = .ok image) :
    ∃ db : GeoDb, (fromBytes image).run = .ok (.ok db) ∧
      ∀ (query : Text) (limit : Nat) (name : Text) (qualifiers : List Text),
        isZip query.trim = false → parseQuery query.trim = (name, qualifiers) → name ≠ [] →
        ((indexEntries cities countries).countP (fun e => e.1.startsWith name) ≤ SCAN_CAP →
          db.resolve query limit = .ok (naiveScan cities admin1 countries query limit)) ∧
        ((indexEntries cities countries).countP (fun e => e.1 == name) ≤ SCAN_CAP →
          (knownCities cities countries).length ≤ limit →
          ∃ found, db.resolveCities name qualifiers limit = .ok found ∧
            db.resolve query limit = .ok (found.map CityRef.toHit) ∧
            ∀ (r : Nat) (c : CityIn) (k : CountryIn),
              (knownCities cities countries)[r]? = some (c, k) → c.exactlyNamed name = true →
              qualifiers.all (c.ref k (c.region admin1) (UInt32.ofNat r)).matchesQualifier = true →
              c.ref k (c.region admin1) (UInt32.ofNat r) ∈ found) := by
  obtain ⟨db, refs, hload, -, hrepresents, hlt, hcatalog⟩ := encode_represents h
  obtain rfl := hcatalog hcodes
  refine ⟨db, hload, ?_⟩
  intro query limit name qualifiers hzip hparse hne
  constructor
  · intro hcount
    refine resolve_naive hrepresents hlt hzip ?_ ?_ limit
    · rw [hparse]
      exact hne
    · rw [hparse]
      exact hcount
  · intro hcount hlimit
    rw [resolve_eq hzip hparse, resolve_cities_eq hrepresents hne, Checked.ok_bind]
    refine ⟨_, rfl, rfl, ?_⟩
    intro r c k hr hexactly hqualified
    have hreached := reached_exact hlt hr ((exactly_named_iff hne).mp hexactly) hcount
    have hlength : (catalog cities admin1 countries).length =
        (knownCities cities countries).length := by
      rw [catalog, List.length_map, List.length_zipIdx]
    rw [List.take_of_length_le]
    · rw [List.mem_insertionSort, List.mem_filter, Bool.and_eq_true]
      exact ⟨mem_catalog.mpr ⟨r, c, k, hr, rfl⟩, hreached, hqualified⟩
    · rw [List.length_insertionSort]
      exact (List.length_filter_le _ _).trans (hlength.trans_le hlimit)

end Comparison
end Names

/-! ## One city -/

theorem quito_codes : Codes [] [ecuador] := by
  refine ⟨?_, by simp⟩
  intro k hk
  obtain rfl := List.mem_singleton.mp hk
  exact ⟨is_ascii_of_all (by decide), by decide⟩

/-- A query by name, and one by name and country. -/
theorem search_exact_quito : ∃ image,
    @encode asciiCase sourceDegrees [quito] [] [ecuador] [] = .ok image ∧ ∃ db : GeoDb,
      (fromBytes image).run = .ok (.ok db) ∧
        @GeoDb.resolve asciiCase db "qu, ec".toList 10 =
          .ok (@naiveScan asciiCase sourceDegrees [quito] [] [ecuador] "qu, ec".toList 10) ∧
        ∃ found, @GeoDb.resolveCities asciiCase db "quito".toList [] 10 = .ok found ∧
          @CityIn.ref sourceDegrees quito ecuador none 0 ∈ found := by
  obtain ⟨image, himage⟩ := encode_quito
  obtain ⟨db, hload, hqueries⟩ := @search_exact asciiCase sourceDegrees _ _ _ _ _ quito_codes himage
  refine ⟨image, himage, db, hload, ?_, ?_⟩
  · exact (hqueries "qu, ec".toList 10 "qu".toList ["ec".toList] (by decide) (by decide)
      (by decide)).1 (by decide)
  · obtain ⟨found, hfound, -, hmem⟩ := (hqueries "quito".toList 10 "quito".toList [] (by decide)
      (by decide) (by decide)).2 (by decide) (by decide)
    exact ⟨found, hfound, hmem 0 quito ecuador rfl (by decide) rfl⟩

/-- Every city starts with the empty name, and the one whose ASCII name is missing has it as a name,
but a query without a name has no answer. -/
theorem search_empty_name : Codes [] [ecuador] ∧ ∃ image,
    @encode asciiCase sourceDegrees [quito] [] [ecuador] [] = .ok image ∧ ∃ db : GeoDb,
      (fromBytes image).run = .ok (.ok db) ∧ isZip (Text.trim []) = false ∧
        (@indexEntries asciiCase [quito] [ecuador]).length ≤ SCAN_CAP ∧
        @CityIn.exactlyNamed asciiCase quito (@parseQuery asciiCase (Text.trim [])).1 = true ∧
        @naiveScan asciiCase sourceDegrees [quito] [] [ecuador] [] 10 =
          [(@CityIn.ref sourceDegrees quito ecuador none 0).toHit] ∧
        @GeoDb.resolve asciiCase db [] 10 = .ok [] := by
  obtain ⟨image, himage⟩ := encode_quito
  obtain ⟨db, -, hload, -⟩ := @encode_represents asciiCase sourceDegrees _ _ _ _ _ himage
  exact ⟨quito_codes, image, himage, db, hload, by decide, by decide, by decide,
    by decide +kernel, rfl⟩

end OpenNtrip.Geodb
