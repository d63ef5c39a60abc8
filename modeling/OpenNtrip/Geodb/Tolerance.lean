import OpenNtrip.Geodb.GeoDb
import OpenNtrip.Lib.KeyRange

/-!
# Any image is tolerated

No read of the reader faults, whatever the bytes: the sections are shorter than 2^32, the numbers
found in them are at most 32 bits wide, and so no offset comes near 2^64. `resolve_safe` says so of
every query on every database.
-/

namespace OpenNtrip.Geodb

/-! ## Reads -/

/-- No entry of a table begins near the end of the address space. -/
theorem base_lt {i width : Nat} (hi : i < 2 ^ 32) (hwidth : width < 2 ^ 8) :
    i * width < 2 ^ 40 := by
  have hproduct := Nat.mul_lt_mul'' hi hwidth
  omega

/-- An offset that fits 64 bits does not overflow. -/
theorem usize_ok {n : Nat} (h : n < 2 ^ 64) : usize n = .ok n := Checked.bounded_ok h

/-- A range whose ends fit 64 bits is read without a fault, or is not there. -/
theorem get_eq {b : Bytes} {lo hi : Nat} (hlo : lo < 2 ^ 64) (hhi : hi < 2 ^ 64) :
    get b lo hi = Reads.total (slice b lo hi) := by
  unfold get
  rw [usize_ok hlo, usize_ok hhi]
  rfl

/-- So is a byte. -/
theorem byte_at_eq {b : Bytes} {i : Nat} (h : i < 2 ^ 64) : byteAt b i = Reads.total b[i]? := by
  unfold byteAt
  rw [usize_ok h]
  rfl

/-- A function of what is found leaves a read without faults. -/
theorem total_map {α β : Type} (value : Option α) (f : α → β) :
    (Reads.total value >>= fun a => pure (f a)) = Reads.total (value.map f) := by
  cases value with
  | none => rfl
  | some a => rfl

/-- A 32-bit word is read as its bytes in little-endian order, or is not there. -/
theorem u32le_eq {b : Bytes} {off : Nat} (h : off + 4 < 2 ^ 64) :
    u32le b off = Reads.total ((slice b off (off + 4)).map fun word =>
      UInt32.ofNat (leValue word)) := by
  unfold u32le
  rw [get_eq (by omega) h]
  exact total_map _ _

/-- A signed word is read as the two's complement of its bytes, or is not there. -/
theorem i32le_eq {b : Bytes} {off : Nat} (h : off + 4 < 2 ^ 64) :
    i32le b off = Reads.total ((slice b off (off + 4)).map fun word =>
      (UInt32.ofNat (leValue word)).toInt32) := by
  unfold i32le
  rw [get_eq (by omega) h]
  exact total_map _ _

/-- A 16-bit word is read as its bytes in little-endian order, or is not there. -/
theorem u16le_eq {b : Bytes} {off : Nat} (h : off + 2 < 2 ^ 64) :
    u16le b off = Reads.total ((slice b off (off + 2)).map fun word =>
      UInt16.ofNat (leValue word)) := by
  unfold u16le
  rw [get_eq (by omega) h]
  exact total_map _ _

/-- No range whose ends fit 64 bits is a fault. -/
theorem get_safe {b : Bytes} {lo hi : Nat} (hlo : lo < 2 ^ 64) (hhi : hi < 2 ^ 64) :
    Reads.Safe (get b lo hi) := ⟨_, get_eq hlo hhi⟩

theorem byte_at_safe {b : Bytes} {i : Nat} (h : i < 2 ^ 64) : Reads.Safe (byteAt b i) :=
  ⟨_, byte_at_eq h⟩

/-- No word whose end fits 64 bits is a fault. -/
theorem u32le_safe {b : Bytes} {off : Nat} (h : off + 4 < 2 ^ 64) : Reads.Safe (u32le b off) :=
  ⟨_, u32le_eq h⟩

theorem i32le_safe {b : Bytes} {off : Nat} (h : off + 4 < 2 ^ 64) : Reads.Safe (i32le b off) :=
  ⟨_, i32le_eq h⟩

theorem u16le_safe {b : Bytes} {off : Nat} (h : off + 2 < 2 ^ 64) : Reads.Safe (u16le b off) :=
  ⟨_, u16le_eq h⟩

/-! ## Records -/

namespace GeoDb

variable (db : GeoDb)

/-- A string of the pool is found or not. Its offset and length are too small to overflow. -/
theorem pool_str_safe (off : UInt32) (len : UInt8) : Reads.Safe (db.poolStr off len) := by
  have hoff := off.toNat_lt
  have hlen := len.toNat_lt
  exact (get_safe (by omega) (by omega)).bind fun bytes _ => .total _

/-- A country of any index is found or not. -/
theorem country_safe (idx : UInt16) : Reads.Safe (db.country idx) := by
  have hidx := idx.toNat_lt
  have hbase : idx.toNat * COUNTRY_ENTRY_LEN < 2 ^ 40 := base_lt (by omega) (by decide)
  unfold country
  rw [usize_ok (by omega), Reads.checked_ok, Reads.total_some_bind]
  refine (u32le_safe (by omega)).bind fun off _ => ?_
  refine (byte_at_safe (by omega)).bind fun len _ => ?_
  refine (db.pool_str_safe off len).bind fun name _ => ?_
  refine (get_safe (by omega) (by omega)).bind fun bytes _ => ?_
  exact (Reads.Safe.total _).bind fun iso2 _ => .pure _

/-- A region of any index is found or not. -/
theorem admin1_safe (idx : UInt16) : Reads.Safe (db.admin1 idx) := by
  have hidx := idx.toNat_lt
  have hbase : idx.toNat * ADMIN1_ENTRY_LEN < 2 ^ 40 := base_lt (by omega) (by decide)
  unfold admin1
  rw [usize_ok (by omega), Reads.checked_ok, Reads.total_some_bind]
  refine (u32le_safe (by omega)).bind fun off _ => ?_
  refine (byte_at_safe (by omega)).bind fun len _ => ?_
  refine (db.pool_str_safe off len).bind fun name _ => ?_
  refine (get_safe (by omega) (by omega)).bind fun bytes _ => ?_
  exact (Reads.Safe.total _).bind fun padded _ => .pure _

/-- A city of any record number is found or not, whatever the record points to. -/
theorem city_safe (record : UInt32) : Reads.Safe (db.city record) := by
  have hrecord := record.toNat_lt
  have hbase : record.toNat * CITY_RECORD_LEN < 2 ^ 40 := base_lt (by omega) (by decide)
  unfold city
  rw [usize_ok (by omega)]
  show Reads.Safe (Reads.total (some _) >>= _)
  rw [Reads.total_some_bind]
  refine (u32le_safe (by omega)).bind fun off _ => ?_
  refine (byte_at_safe (by omega)).bind fun len _ => ?_
  refine (db.pool_str_safe off len).bind fun name _ => ?_
  refine (u16le_safe (by omega)).bind fun countryIdx _ => ?_
  refine (u16le_safe (by omega)).bind fun admin1Idx _ => ?_
  refine (i32le_safe (by omega)).bind fun lat _ => ?_
  refine (i32le_safe (by omega)).bind fun lon _ => ?_
  refine (u32le_safe (by omega)).bind fun pop _ => ?_
  refine (db.country_safe countryIdx).bind fun named _ => ?_
  obtain ⟨iso2, countryName⟩ := named
  -- the index of a region that is not there is read as none
  have hregion : Checked.Safe
      (if admin1Idx = ADMIN1_NONE then .ok none else (db.admin1 admin1Idx).run) := by
    split
    · exact .ok none
    · exact (db.admin1_safe admin1Idx).run
  obtain ⟨region, hregion⟩ := hregion
  simp only [hregion, Reads.checked_ok, Reads.total_some_bind]
  exact .pure _

/-- A city knows its number. -/
theorem city_record {record : UInt32} {ref : CityRef}
    (h : db.city record = Reads.total (some ref)) : ref.record = record := by
  unfold city at h
  obtain ⟨base, -, h⟩ := Reads.bind_some h
  obtain ⟨off, -, h⟩ := Reads.bind_some h
  obtain ⟨len, -, h⟩ := Reads.bind_some h
  obtain ⟨name, -, h⟩ := Reads.bind_some h
  obtain ⟨countryIdx, -, h⟩ := Reads.bind_some h
  obtain ⟨admin1Idx, -, h⟩ := Reads.bind_some h
  obtain ⟨lat, -, h⟩ := Reads.bind_some h
  obtain ⟨lon, -, h⟩ := Reads.bind_some h
  obtain ⟨pop, -, h⟩ := Reads.bind_some h
  obtain ⟨⟨iso2, countryName⟩, -, h⟩ := Reads.bind_some h
  obtain ⟨region, -, h⟩ := Reads.bind_some h
  obtain rfl := Option.some.inj (Reads.total_injective h)
  rfl

/-- A key of the name index is read without a fault, an absent one as the empty string. -/
theorem index_key_safe {i : Nat} (h : i < 2 ^ 32) : Checked.Safe (db.indexKey i) := by
  have hbase : i * NAME_INDEX_ENTRY_LEN < 2 ^ 40 := base_lt (by omega) (by decide)
  unfold indexKey
  rw [usize_ok (by omega)]
  refine (u32le_safe (by omega)).run.bind fun found _ => ?_
  cases found with
  | none => exact .pure []
  | some off =>
      refine (byte_at_safe (by omega)).run.bind fun found _ => ?_
      cases found with
      | none => exact .pure []
      | some len =>
          have hoff := off.toNat_lt
          have hlen := len.toNat_lt
          refine (get_safe (by omega) (by omega)).run.bind fun bytes _ => ?_
          exact .pure _

end GeoDb

/-! ## Searches -/

/-- The search is the one by halving if the comparisons do not fault. -/
theorem search_eq {below : Nat → Checked Bool} {isBelow : Nat → Bool} {lo hi : Nat}
    (hhi : hi < 2 ^ 64) (hbelow : ∀ i < hi, below i = .ok (isBelow i)) :
    search below lo hi = .ok (lowerBound isBelow lo hi) := by
  fun_induction lowerBound isBelow lo hi with
  | case1 lo hi hlt mid hmid ih =>
      have hmidlt : lo + (hi - lo) / 2 < hi := by omega
      have hmid' : isBelow (lo + (hi - lo) / 2) = true := hmid
      rw [search, if_pos hlt]
      simp only [usize_ok (n := lo + (hi - lo) / 2) (by omega), hbelow _ hmidlt, hmid',
        Checked.ok_bind, if_true]
      exact ih hhi hbelow
  | case2 lo hi hlt mid hmid ih =>
      have hmidlt : lo + (hi - lo) / 2 < hi := by omega
      have hmid' : isBelow (lo + (hi - lo) / 2) = false := by simpa using hmid
      rw [search, if_pos hlt]
      simp only [usize_ok (n := lo + (hi - lo) / 2) (by omega), hbelow _ hmidlt, hmid',
        Checked.ok_bind, Bool.false_eq_true, if_false]
      refine ih (by omega) ?_
      intro i hi'
      exact hbelow i (by omega)
  | case3 lo hi hlt =>
      rw [search, if_neg hlt]
      rfl

/-- In a sorted list the search finds where the entries that are not below begin. -/
theorem search_found {α : Type} {entries : List α} {below : Nat → Checked Bool} {lt : α → Prop}
    [DecidablePred lt] (hcount : entries.length < 2 ^ 64)
    (hsorted : entries.Pairwise fun e e' => lt e' → lt e)
    (hbelow : ∀ i e, entries[i]? = some e → below i = .ok (decide (lt e))) :
    ∃ lo ≤ entries.length, search below 0 entries.length = .ok lo ∧
      (∀ e ∈ entries.take lo, lt e) ∧ ∀ e ∈ entries.drop lo, ¬ lt e := by
  let isBelow : Nat → Bool := fun i => (entries[i]?.map fun e => decide (lt e)).getD false
  have hget : ∀ i (hi : i < entries.length), isBelow i = decide (lt entries[i]) := by
    intro i hi
    show (entries[i]?.map _).getD false = _
    rw [List.getElem?_eq_getElem hi]
    rfl
  -- what is below comes before what is not
  have hdown : ∀ i j, i ≤ j → isBelow j = true → isBelow i = true := by
    intro i j hij hj
    by_cases hjlt : j < entries.length
    · rw [hget j hjlt] at hj
      rw [hget i (by omega)]
      refine decide_eq_true ?_
      rcases Nat.lt_or_eq_of_le hij with hlt' | rfl
      · exact List.pairwise_iff_getElem.mp hsorted i j _ hjlt hlt' (of_decide_eq_true hj)
      · exact of_decide_eq_true hj
    · have hnone : entries[j]? = none := List.getElem?_eq_none (by omega)
      simp [isBelow, hnone] at hj
  obtain ⟨hbefore, hafter⟩ := lower_bound_spec hdown (Nat.zero_le entries.length)
  have hlo := (lower_bound_le isBelow (Nat.zero_le entries.length)).2
  refine ⟨lowerBound isBelow 0 entries.length, hlo, search_eq hcount ?_, ?_, ?_⟩
  · intro i hi
    rw [hget i hi]
    exact hbelow i _ (List.getElem?_eq_getElem hi)
  · intro e he
    obtain ⟨i, hi, rfl⟩ := List.mem_iff_getElem.mp he
    rw [List.length_take] at hi
    have hfound := hbefore i (Nat.zero_le _) (by omega)
    rw [hget i (by omega)] at hfound
    rw [List.getElem_take]
    exact of_decide_eq_true hfound
  · intro e he
    obtain ⟨i, hi, rfl⟩ := List.mem_iff_getElem.mp he
    rw [List.length_drop] at hi
    have hfound := hafter (lowerBound isBelow 0 entries.length + i) (by omega) (by omega)
    rw [hget _ (by omega)] at hfound
    rw [List.getElem_drop]
    exact of_decide_eq_false hfound

/-- A binary search whose test is safe below its end comes to an end inside its range. -/
theorem search_safe {below : Nat → Checked Bool} {lo hi : Nat} (hlo : lo ≤ hi) (hhi : hi < 2 ^ 64)
    (h : ∀ i < hi, Checked.Safe (below i)) : ∃ found ≤ hi, search below lo hi = .ok found := by
  let isBelow : Nat → Bool := fun i => (below i).toOption.getD false
  have hbelow : ∀ i < hi, below i = .ok (isBelow i) := by
    intro i hi'
    obtain ⟨value, hvalue⟩ := h i hi'
    show below i = .ok ((below i).toOption.getD false)
    rw [hvalue]
    rfl
  exact ⟨_, (lower_bound_le isBelow hlo).2, search_eq hhi hbelow⟩

namespace GeoDb

variable (db : GeoDb)

/-- There are fewer entries than bytes in a section. -/
theorem name_count_lt : db.nameIndex.bytes.length / NAME_INDEX_ENTRY_LEN < 2 ^ 32 := by
  have := db.nameIndex.length_lt
  have := Nat.div_le_self db.nameIndex.bytes.length NAME_INDEX_ENTRY_LEN
  omega

/-- A scan of the index collects records without a fault, whatever the keys are. -/
theorem scan_safe (wanted : Bytes) {indices : List Nat} (h : ∀ i ∈ indices, i < 2 ^ 32)
    (recs : List UInt32) : Checked.Safe (db.scan wanted recs indices) := by
  induction indices generalizing recs with
  | nil => exact .pure recs
  | cons i rest ih =>
      have hi := h i List.mem_cons_self
      have hrest := ih fun j hj => h j (List.mem_cons_of_mem _ hj)
      have hoff : i * NAME_INDEX_ENTRY_LEN < 2 ^ 40 := base_lt (by omega) (by decide)
      rw [scan]
      refine (db.index_key_safe hi).bind fun key _ => ?_
      split
      · exact .pure recs
      · rw [usize_ok (by omega)]
        refine (u32le_safe (by omega)).run.bind fun found _ => ?_
        cases found with
        | none => exact hrest recs
        | some record =>
            simp only
            split
            · exact hrest recs
            · exact hrest _

/-- Records are looked up without a fault, and those that are not there are left out. -/
theorem cities_safe (recs : List UInt32) : Checked.Safe (db.cities recs) := by
  induction recs with
  | nil => exact .pure []
  | cons record rest ih =>
      rw [cities]
      refine (db.city_safe record).run.bind fun city _ => ?_
      exact ih.bind fun later _ => .pure _

/-- The scan behind a query is safe for every text that is looked for. -/
theorem prefix_scan_safe (wanted : Bytes) : Checked.Safe (db.prefixScan wanted) := by
  have hcount := db.name_count_lt
  let below : Nat → Checked Bool := fun i => do return (← db.indexKey i) < wanted
  have hbelow : ∀ i < db.nameIndex.bytes.length / NAME_INDEX_ENTRY_LEN,
      Checked.Safe (below i) := by
    intro i hi
    exact (db.index_key_safe (by omega)).bind fun key _ => .pure _
  obtain ⟨lo, hlo, hsearch⟩ := search_safe (Nat.zero_le _) (by omega) hbelow
  have hcap : lo + SCAN_CAP < 2 ^ 33 := by
    rw [SCAN_CAP]
    omega
  unfold prefixScan
  simp only
  rw [hsearch, Checked.ok_bind, usize_ok (by omega), Checked.ok_bind]
  refine (db.scan_safe wanted ?_ []).bind fun recs _ => db.cities_safe recs
  intro i hi
  rw [List.mem_range'_1] at hi
  omega

/-- An entry of the ZIP table is at an offset that cannot overflow. -/
theorem zip_entry_safe {i : Nat} (h : i < 2 ^ 32) :
    i * ZIP_ENTRY_LEN < 2 ^ 40 ∧ Checked.Safe (do
      let off ← usize (i * ZIP_ENTRY_LEN)
      (u32le db.zipTable.bytes off).run) := by
  have hoff : i * ZIP_ENTRY_LEN < 2 ^ 40 := base_lt (by omega) (by decide)
  refine ⟨hoff, ?_⟩
  rw [usize_ok (by omega)]
  exact (u32le_safe (by omega)).run

/-- A ZIP code yields one hit or none. -/
theorem resolve_zip_safe (zip : UInt32) (limit : Nat) :
    ∃ hits, db.resolveZip zip limit = .ok hits ∧ hits.length ≤ limit ∧ hits.length ≤ 1 := by
  have hlength := db.zipTable.length_lt
  have hcount := Nat.div_le_self db.zipTable.bytes.length ZIP_ENTRY_LEN
  let entry : Nat → Checked (Option UInt32) := fun i => do
    let off ← usize (i * ZIP_ENTRY_LEN)
    (u32le db.zipTable.bytes off).run
  let below : Nat → Checked Bool := fun i => do return (← entry i).getD 0xFFFFFFFF < zip
  have hbelow : ∀ i < db.zipTable.bytes.length / ZIP_ENTRY_LEN, Checked.Safe (below i) := by
    intro i hi
    exact (db.zip_entry_safe (by omega)).2.bind fun found _ => .pure _
  obtain ⟨lo, hlo, hsearch⟩ := search_safe (Nat.zero_le _) (by omega) hbelow
  obtain ⟨hoff, found, hfound⟩ := db.zip_entry_safe (i := lo) (by omega)
  have hnone : ∃ hits : List GeoHit, (Except.ok [] : Checked (List GeoHit)) = .ok hits ∧
      hits.length ≤ limit ∧ hits.length ≤ 1 := ⟨[], rfl, Nat.zero_le _, Nat.zero_le _⟩
  have hlatRead : Reads.Safe (i32le db.zipTable.bytes (lo * ZIP_ENTRY_LEN + 4)) :=
    i32le_safe (by omega)
  have hlonRead : Reads.Safe (i32le db.zipTable.bytes (lo * ZIP_ENTRY_LEN + 8)) :=
    i32le_safe (by omega)
  obtain ⟨lat, hlat⟩ := hlatRead.run
  obtain ⟨lon, hlon⟩ := hlonRead.run
  unfold resolveZip
  simp only
  rw [hsearch, Checked.ok_bind]
  split
  · exact hnone
  · rw [hfound, Checked.ok_bind]
    split
    · exact hnone
    · rw [hlat, Checked.ok_bind, hlon, Checked.ok_bind]
      cases lat with
      | none => exact hnone
      | some latE4 =>
          cases lon with
          | none => exact hnone
          | some lonE4 =>
              refine ⟨_, rfl, List.length_take_le _ _, ?_⟩
              exact List.length_take_le' _ _

/-- The hits are in the order of their populations. -/
def Descending (hits : List GeoHit) : Prop := hits.Pairwise fun a b => b.population ≤ a.population

/-- Of two hits, one may stand above the other. -/
theorem ranked_total (a b : CityRef) : a.ranked b = true ∨ b.ranked a = true := by
  simp only [CityRef.ranked, Bool.or_eq_true, Bool.and_eq_true, decide_eq_true_eq, beq_iff_eq,
    UInt32.lt_iff_toNat_lt, UInt32.le_iff_toNat_le, ← UInt32.toNat_inj]
  omega

/-- The order of the hits is transitive. -/
theorem ranked_trans {a b c : CityRef} (hab : a.ranked b = true) (hbc : b.ranked c = true) :
    a.ranked c = true := by
  simp only [CityRef.ranked, Bool.or_eq_true, Bool.and_eq_true, decide_eq_true_eq, beq_iff_eq,
    UInt32.lt_iff_toNat_lt, UInt32.le_iff_toNat_le, ← UInt32.toNat_inj] at hab hbc ⊢
  omega

/-- A hit has no fewer inhabitants than one below it. -/
theorem ranked_pop {a b : CityRef} (h : a.ranked b = true) : b.pop ≤ a.pop := by
  simp only [CityRef.ranked, Bool.or_eq_true, Bool.and_eq_true, decide_eq_true_eq, beq_iff_eq,
    UInt32.lt_iff_toNat_lt, UInt32.le_iff_toNat_le, ← UInt32.toNat_inj] at h ⊢
  omega

/-- Hits that may stand either way round are of one record. -/
theorem ranked_record {a b : CityRef} (hab : a.ranked b = true) (hba : b.ranked a = true) :
    a.record = b.record := by
  simp only [CityRef.ranked, Bool.or_eq_true, Bool.and_eq_true, decide_eq_true_eq, beq_iff_eq,
    UInt32.lt_iff_toNat_lt, UInt32.le_iff_toNat_le, ← UInt32.toNat_inj] at hab hba ⊢
  omega

instance : Std.Total fun a b : CityRef => a.ranked b = true := ⟨ranked_total⟩

instance : IsTrans CityRef fun a b => a.ranked b = true := ⟨fun _ _ _ => ranked_trans⟩

/-- A sort puts every hit above those behind it. -/
theorem ranked_sorted (hits : List CityRef) :
    (hits.insertionSort fun a b => a.ranked b).Pairwise fun a b => a.ranked b = true :=
  List.pairwise_insertionSort _ hits

variable [CharTables]

/-- A query for cities is answered, within the limit and in the order of the hits. -/
theorem resolve_cities_safe (name : Text) (qualifiers : List Text) (limit : Nat) :
    ∃ refs, db.resolveCities name qualifiers limit = .ok refs ∧ refs.length ≤ limit ∧
      refs.Pairwise fun a b => a.ranked b = true := by
  unfold resolveCities
  split
  · exact ⟨[], rfl, Nat.zero_le _, List.Pairwise.nil⟩
  · obtain ⟨found, hfound⟩ := db.prefix_scan_safe name.toBytes
    rw [hfound]
    refine ⟨_, rfl, List.length_take_le _ _, ?_⟩
    exact (ranked_sorted _).sublist (List.take_sublist _ _)

/-- Every query is answered without a fault, by at most `limit` hits in the order of their
populations. -/
theorem resolve_safe (query : Text) (limit : Nat) :
    ∃ hits, db.resolve query limit = .ok hits ∧ hits.length ≤ limit ∧ Descending hits := by
  unfold resolve
  simp only
  split
  · obtain ⟨hits, hhits, hlimit, hone⟩ := db.resolve_zip_safe
      (UInt32.ofNat ((query.trim.parseUnsigned (2 ^ 32)).getD 0)) limit
    refine ⟨hits, hhits, hlimit, ?_⟩
    cases hits with
    | nil => exact List.Pairwise.nil
    | cons hit rest =>
        obtain rfl : rest = [] := by
          rw [List.length_cons] at hone
          exact List.eq_nil_of_length_eq_zero (by omega)
        exact List.pairwise_singleton _ _
  · obtain ⟨refs, hrefs, hlimit, hsorted⟩ := db.resolve_cities_safe
      (parseQuery query.trim).1 (parseQuery query.trim).2 limit
    rw [hrefs, Checked.ok_bind]
    refine ⟨_, rfl, by simpa using hlimit, ?_⟩
    rw [Descending, List.pairwise_map]
    exact hsorted.imp ranked_pop

end GeoDb
end OpenNtrip.Geodb
