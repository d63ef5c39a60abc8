import OpenNtrip.Geodb.Assembly
import OpenNtrip.Geodb.Catalog

/-!
# What an encoded image holds

`Pool.WellFormed` is the invariant of the string pool, `encode_all_spec` the induction over a pass
that adds to it, and `encode_cities_spec` the one over the cities. `country_read` and `admin1_read`
find the entries of the small tables again.
-/

namespace OpenNtrip.Geodb

/-! ## The clamp -/

theorem floor_boundary_le (s : Text) (stop : Nat) : floorBoundary s stop ≤ stop := by
  induction stop with
  | zero => exact Nat.le_refl _
  | succ stop ih =>
      rw [floorBoundary]
      split
      · exact Nat.le_refl _
      · exact Nat.le_succ_of_le ih

theorem length_up_to (s : Text) (stop : Nat) : (upTo s stop).toBytes.length ≤ stop := by
  unfold upTo
  cases hfind : s.inits.find? fun start => (Text.toBytes start).length == stop with
  | none => exact Nat.zero_le _
  | some start =>
      have hlength := List.find?_some hfind
      exact Nat.le_of_eq (beq_iff_eq.mp hlength)

/-- A clamped string fits a length byte. -/
theorem length_clamp (s : Text) : (clampTo255 s).toBytes.length ≤ 255 := by
  unfold clampTo255
  split
  · next h => exact h
  · exact (length_up_to s _).trans (floor_boundary_le s 255)

theorem clamp_clamp (s : Text) : clampTo255 (clampTo255 s) = clampTo255 s :=
  if_pos (length_clamp s)

/-! ## The string pool -/

/-- The string is at the place. -/
def Holds (bytes : Bytes) (place : UInt32 × UInt8) (s : Text) : Prop :=
  slice bytes place.1.toNat (place.1.toNat + place.2.toNat) = some s.toBytes

theorem Holds.extend {bytes bytes' : Bytes} {place : UInt32 × UInt8} {s : Text}
    (h : Holds bytes place s) (hextends : bytes <+: bytes') : Holds bytes' place s :=
  slice_of_extends hextends h

/-- Every string that was seen is in the pool. -/
def Pool.WellFormed (pool : Pool) : Prop :=
  ∀ s place, pool.seen.lookup s = some place → Holds pool.bytes place s

theorem Pool.empty_well_formed : Pool.WellFormed {} := by
  intro s place h
  simp at h

theorem to_u32_eq_ok {n : Nat} {m : UInt32} (h : toU32 n = .ok m) : m.toNat = n := by
  unfold toU32 at h
  split at h
  · next hlt =>
      obtain rfl := Except.ok.inj h
      exact u32_of_nat hlt
  · simp at h

/-- Adding a string extends the pool, and the clamped string is at the place returned. -/
theorem Pool.add_spec {pool pool' : Pool} {s : Text} {place : UInt32 × UInt8}
    (hpool : pool.WellFormed) (h : pool.add s = .ok (pool', place)) :
    pool'.WellFormed ∧ pool.bytes <+: pool'.bytes ∧ Holds pool'.bytes place (clampTo255 s) := by
  unfold Pool.add at h
  simp only at h
  cases hseen : pool.seen.lookup (clampTo255 s) with
  | some found =>
      rw [hseen] at h
      obtain ⟨rfl, rfl⟩ := Prod.mk.inj (Except.ok.inj h)
      exact ⟨hpool, List.prefix_rfl, hpool _ _ hseen⟩
  | none =>
      -- the string goes behind what is there, and what is there stays where it is
      rw [hseen] at h
      obtain ⟨off, hoff, h⟩ := Checked.bind_ok h
      obtain ⟨rfl, rfl⟩ := Prod.mk.inj (Except.ok.inj h)
      have hlength : (UInt8.ofNat (clampTo255 s).toBytes.length).toNat =
          (clampTo255 s).toBytes.length := by
        have := length_clamp s
        exact UInt8.toNat_ofNat_of_lt' (by show _ < 256; omega)
      have hextends : pool.bytes <+: pool.bytes ++ (clampTo255 s).toBytes :=
        List.prefix_append _ _
      have hnew : Holds (pool.bytes ++ (clampTo255 s).toBytes)
          (off, UInt8.ofNat (clampTo255 s).toBytes.length) (clampTo255 s) := by
        have hpart := slice_part (to_u32_eq_ok hoff).symm
          (p := (clampTo255 s).toBytes) rfl []
        rw [List.append_nil] at hpart
        show slice _ off.toNat (off.toNat + (UInt8.ofNat _).toNat) = _
        rw [hlength]
        exact hpart
      refine ⟨?_, hextends, hnew⟩
      intro t place hlookup
      rw [List.lookup_cons] at hlookup
      split at hlookup
      · next heq =>
          obtain rfl := Option.some.inj hlookup
          rw [beq_iff_eq.mp heq]
          exact hnew
      · exact (hpool t place hlookup).extend hextends

/-- A pass whose entries are right where they are made yields entries that are right in the end. -/
theorem encode_all_spec {α : Type} {entry : Pool → α → Checked (Pool × Bytes)}
    (right : Bytes → α → Bytes → Prop)
    (hextend : ∀ {bytes bytes' item e}, bytes <+: bytes' → right bytes item e →
      right bytes' item e)
    (hentry : ∀ {pool pool' item e}, pool.WellFormed → entry pool item = .ok (pool', e) →
      pool'.WellFormed ∧ pool.bytes <+: pool'.bytes ∧ right pool'.bytes item e)
    {items : List α} {pool pool' : Pool} {entries : List Bytes} (hpool : pool.WellFormed)
    (h : encodeAll entry pool items = .ok (pool', entries)) :
    pool'.WellFormed ∧ pool.bytes <+: pool'.bytes ∧
      List.Forall₂ (right pool'.bytes) items entries := by
  induction items generalizing pool entries with
  | nil =>
      obtain ⟨rfl, rfl⟩ := Prod.mk.inj (Except.ok.inj h)
      exact ⟨hpool, List.prefix_rfl, .nil⟩
  | cons item rest ih =>
      rw [encodeAll] at h
      obtain ⟨⟨middle, e⟩, hitem, h⟩ := Checked.bind_ok h
      obtain ⟨⟨last, later⟩, hrest, h⟩ := Checked.bind_ok h
      obtain ⟨rfl, rfl⟩ := Prod.mk.inj (Except.ok.inj h)
      obtain ⟨hmiddle, hextends, hright⟩ := hentry hpool hitem
      obtain ⟨hlast, hextends', hrights⟩ := ih hmiddle hrest
      exact ⟨hlast, hextends.trans hextends', .cons (hextend hextends' hright) hrights⟩

/-! ## Entries -/

/-- An entry of a table: a string in the pool and what follows it. -/
def EntryOf (s : Text) (rest : Bytes) (bytes : Bytes) (e : Bytes) : Prop :=
  ∃ off len, Holds bytes (off, len) (clampTo255 s) ∧ e = u32Bytes off ++ [len] ++ rest

theorem EntryOf.extend {s : Text} {rest bytes bytes' e : Bytes} (h : EntryOf s rest bytes e)
    (hextends : bytes <+: bytes') : EntryOf s rest bytes' e := by
  obtain ⟨off, len, hholds, rfl⟩ := h
  exact ⟨off, len, hholds.extend hextends, rfl⟩

/-- An entry of the country table. -/
def CountryEntry (bytes : Bytes) (c : CountryIn) (e : Bytes) : Prop :=
  EntryOf c.name (paddedUpper 2 c.iso2) bytes e

theorem CountryEntry.extend {bytes bytes' e : Bytes} {c : CountryIn} (hextends : bytes <+: bytes')
    (h : CountryEntry bytes c e) : CountryEntry bytes' c e := EntryOf.extend h hextends

/-- An entry of the admin-1 table. -/
def Admin1Entry (bytes : Bytes) (a : Admin1In) (e : Bytes) : Prop :=
  EntryOf a.name (paddedUpper 3 a.sub) bytes e

theorem Admin1Entry.extend {bytes bytes' e : Bytes} {a : Admin1In} (hextends : bytes <+: bytes')
    (h : Admin1Entry bytes a e) : Admin1Entry bytes' a e := EntryOf.extend h hextends

/-- An entry of the name index. -/
def KeyEntry (bytes : Bytes) (entry : Text × UInt32) (e : Bytes) : Prop :=
  EntryOf entry.1 (0 :: u32Bytes entry.2) bytes e

theorem KeyEntry.extend {bytes bytes' e : Bytes} {entry : Text × UInt32}
    (hextends : bytes <+: bytes') (h : KeyEntry bytes entry e) : KeyEntry bytes' entry e :=
  EntryOf.extend h hextends

/-- An entry that is made by adding its string to the pool. -/
theorem add_entry_spec {pool pool' : Pool} {s : Text} {rest e : Bytes} (hpool : pool.WellFormed)
    (h : (do
      let (pool, off, len) ← pool.add s
      return (pool, u32Bytes off ++ [len] ++ rest)) = (.ok (pool', e) : Checked (Pool × Bytes))) :
    pool'.WellFormed ∧ pool.bytes <+: pool'.bytes ∧ EntryOf s rest pool'.bytes e := by
  obtain ⟨⟨added, off, len⟩, hadd, h⟩ := Checked.bind_ok h
  obtain ⟨rfl, rfl⟩ := Prod.mk.inj (Except.ok.inj h)
  obtain ⟨hadded, hextends, hholds⟩ := Pool.add_spec hpool hadd
  exact ⟨hadded, hextends, off, len, hholds, rfl⟩

theorem encode_country_spec {pool pool' : Pool} {c : CountryIn} {e : Bytes}
    (hpool : pool.WellFormed) (h : encodeCountry pool c = .ok (pool', e)) :
    pool'.WellFormed ∧ pool.bytes <+: pool'.bytes ∧ CountryEntry pool'.bytes c e :=
  add_entry_spec hpool h

theorem encode_admin1_spec {pool pool' : Pool} {a : Admin1In} {e : Bytes}
    (hpool : pool.WellFormed) (h : encodeAdmin1 pool a = .ok (pool', e)) :
    pool'.WellFormed ∧ pool.bytes <+: pool'.bytes ∧ Admin1Entry pool'.bytes a e :=
  add_entry_spec hpool h

theorem encode_key_spec {pool pool' : Pool} {entry : Text × UInt32} {e : Bytes}
    (hpool : pool.WellFormed) (h : encodeKey pool entry = .ok (pool', e)) :
    pool'.WellFormed ∧ pool.bytes <+: pool'.bytes ∧ KeyEntry pool'.bytes entry e := by
  refine add_entry_spec hpool ?_
  simp only [encodeKey, List.append_assoc] at h ⊢
  exact h

/-! ## First entries -/

/-- The index of the first entry with a key, where there is none. -/
theorem lookup_first_none {α : Type} {l : List α} {f : α → Text} {key : Text}
    (h : l.find? (fun a => key == f a) = none) :
    (l.zipIdx.map fun (a, i) => (f a, UInt16.ofNat i)).lookup key = none := by
  rw [List.lookup_eq_none_iff]
  intro entry hentry
  obtain ⟨⟨a, i⟩, ha, rfl⟩ := List.mem_map.mp hentry
  have hmem := List.fst_mem_of_mem_zipIdx ha
  simpa using List.find?_eq_none.mp h a hmem

/-- The index of the first entry with a key. -/
theorem lookup_first_some {α : Type} {l : List α} {f : α → Text} {key : Text} {a : α}
    (h : l.find? (fun a => key == f a) = some a) :
    ∃ i, l[i]? = some a ∧
      (l.zipIdx.map fun (a, i) => (f a, UInt16.ofNat i)).lookup key = some (UInt16.ofNat i) := by
  have hgeneral : ∀ (l : List α) (n : Nat), l.find? (fun a => key == f a) = some a →
      ∃ i, l[i]? = some a ∧
        ((l.zipIdx n).map fun (a, i) => (f a, UInt16.ofNat i)).lookup key =
          some (UInt16.ofNat (n + i)) := by
    intro l
    induction l with
    | nil => simp
    | cons first rest ih =>
        intro n hfind
        rw [List.zipIdx_cons, List.map_cons, List.lookup_cons]
        cases hkey : key == f first with
        | true =>
            simp only [List.find?_cons, hkey] at hfind
            exact ⟨0, hfind, rfl⟩
        | false =>
            simp only [List.find?_cons, hkey] at hfind
            obtain ⟨i, hi, hlookup⟩ := ih (n + 1) hfind
            refine ⟨i + 1, hi, ?_⟩
            simp only
            rw [hlookup]
            congr 2
            omega
  obtain ⟨i, hi, hlookup⟩ := hgeneral l 0 h
  rw [Nat.zero_add] at hlookup
  exact ⟨i, hi, hlookup⟩

/-! ## The pass over the cities -/

theorem known_cities_append (first second : List CityIn) (countries : List CountryIn) :
    knownCities (first ++ second) countries =
      knownCities first countries ++ knownCities second countries := List.filterMap_append

theorem index_entries_snoc [CharTables] {countries : List CountryIn} {done : List CityIn}
    {c : CityIn} {k : CountryIn} (h : c.country countries = some k) :
    indexEntries (done ++ [c]) countries = indexEntries done countries ++
      c.keys.map fun key => (key, UInt32.ofNat (knownCities done countries).length) := by
  have hknown : knownCities [c] countries = [(c, k)] := by
    simp [knownCities, h]
  rw [indexEntries, known_cities_append, hknown, List.zipIdx_append, List.flatMap_append]
  simp [indexEntries]

section Pass

variable [Degrees] (countries : List CountryIn) (admin1 : List Admin1In)

/-- A record of a known city. -/
def RecordOf (bytes : Bytes) (known : CityIn × CountryIn) (e : Bytes) : Prop :=
  ∃ ci, (countryIdx countries).lookup known.1.countryIso2.toAsciiUppercase = some ci ∧
    EntryOf known.1.name (u16Bytes ci ++ (u16Bytes (known.1.admin1Index (admin1Idx admin1)) ++
      (i32Bytes (Degrees.coordE4 known.1.lat) ++ (i32Bytes (Degrees.coordE4 known.1.lon) ++
        u32Bytes known.1.population)))) bytes e

variable {countries admin1}

theorem RecordOf.extend {bytes bytes' e : Bytes} {known : CityIn × CountryIn}
    (h : RecordOf countries admin1 bytes known e) (hextends : bytes <+: bytes') :
    RecordOf countries admin1 bytes' known e := by
  obtain ⟨ci, hci, hentry⟩ := h
  exact ⟨ci, hci, hentry.extend hextends⟩

variable [CharTables]

variable (countries admin1) in
/-- What the pass has made of the cities so far. -/
structure Covers (pass : CityPass) (done : List CityIn) : Prop where
  pool : pass.pool.WellFormed
  next : pass.next.toNat = (knownCities done countries).length
  records : List.Forall₂ (RecordOf countries admin1 pass.pool.bytes) (knownCities done countries)
    pass.records
  index : pass.index = indexEntries done countries

theorem encode_city_spec {pass pass' : CityPass} {done : List CityIn} {c : CityIn}
    (h : Covers countries admin1 pass done)
    (hcity : pass.encodeCity (countryIdx countries) (admin1Idx admin1) c = .ok pass') :
    Covers countries admin1 pass' (done ++ [c]) ∧ pass.pool.bytes <+: pass'.pool.bytes := by
  unfold CityPass.encodeCity at hcity
  cases hcountry : c.country countries with
  | none =>
      -- a city of an unknown country is dropped
      have hlookup : (countryIdx countries).lookup c.countryIso2.toAsciiUppercase = none :=
        lookup_first_none hcountry
      rw [hlookup] at hcity
      obtain rfl := Except.ok.inj hcity
      have hknown : knownCities [c] countries = [] := by
        simp [knownCities, hcountry]
      have hsame : knownCities (done ++ [c]) countries = knownCities done countries := by
        rw [known_cities_append, hknown, List.append_nil]
      refine ⟨⟨h.pool, ?_, ?_, ?_⟩, List.prefix_rfl⟩
      · rw [hsame]
        exact h.next
      · rw [hsame]
        exact h.records
      · rw [indexEntries, hsame]
        exact h.index
  | some k =>
      obtain ⟨i, -, hlookup⟩ := lookup_first_some hcountry
      have hci : (countryIdx countries).lookup c.countryIso2.toAsciiUppercase =
          some (UInt16.ofNat i) := hlookup
      rw [hci] at hcity
      obtain ⟨⟨pool, off, len⟩, hadd, hcity⟩ := Checked.bind_ok hcity
      obtain ⟨next, hnext, hcity⟩ := Checked.bind_ok hcity
      obtain rfl := Except.ok.inj hcity
      obtain ⟨hpool, hextends, hholds⟩ := Pool.add_spec h.pool hadd
      have hknown : knownCities (done ++ [c]) countries =
          knownCities done countries ++ [(c, k)] := by
        rw [known_cities_append]
        simp [knownCities, hcountry]
      refine ⟨⟨hpool, ?_, ?_, ?_⟩, hextends⟩
      · rw [hknown, List.length_append, List.length_singleton, ← h.next]
        exact to_u32_eq_ok hnext
      · rw [hknown]
        refine List.rel_append (h.records.imp fun _ _ hrecord => hrecord.extend hextends) ?_
        refine .cons ⟨_, hci, off, len, hholds, ?_⟩ .nil
        simp only [List.append_assoc]
      · rw [index_entries_snoc hcountry, ← h.index, ← h.next, UInt32.ofNat_toNat]

theorem encode_cities_spec {cities done : List CityIn} {pass pass' : CityPass}
    (h : Covers countries admin1 pass done)
    (hcities : cities.foldlM (CityPass.encodeCity (countryIdx countries) (admin1Idx admin1)) pass =
      .ok pass') :
    Covers countries admin1 pass' (done ++ cities) ∧ pass.pool.bytes <+: pass'.pool.bytes := by
  induction cities generalizing pass done with
  | nil =>
      obtain rfl := Except.ok.inj hcities
      rw [List.append_nil]
      exact ⟨h, List.prefix_rfl⟩
  | cons c rest ih =>
      rw [List.foldlM_cons] at hcities
      obtain ⟨middle, hcity, hrest⟩ := Checked.bind_ok hcities
      obtain ⟨hmiddle, hextends⟩ := encode_city_spec h hcity
      obtain ⟨hlast, hextends'⟩ := ih hmiddle hrest
      rw [List.append_assoc] at hlast
      exact ⟨hlast, hextends.trans hextends'⟩

end Pass

/-! ## Reading tables -/

theorem length_padded_upper (n : Nat) (s : Text) : (paddedUpper n s).length = n := by
  rw [paddedUpper, List.length_append, List.length_replicate, List.length_take]
  omega

theorem length_table_entry (off : UInt32) (len : UInt8) (rest : Bytes) :
    (u32Bytes off ++ [len] ++ rest).length = 5 + rest.length := by
  rw [List.length_append, List.length_append, length_u32_bytes]
  rfl

/-- What is read of the `i`-th entry of a table. -/
theorem entry_read {records : List Bytes} {width i : Nat}
    (hwidth : ∀ record ∈ records, record.length = width) (hsmall : i * width + width < 2 ^ 64)
    {off : UInt32} {len : UInt8} {rest : Bytes}
    (hi : records[i]? = some (u32Bytes off ++ [len] ++ rest)) :
    u32le records.flatten (i * width) = Reads.total (some off) ∧
      byteAt records.flatten (i * width + 4) = Reads.total (some len) ∧
      slice records.flatten (i * width + 5) (i * width + width) = some rest := by
  have hlength := hwidth _ (List.mem_of_getElem? hi)
  rw [length_table_entry] at hlength
  have hslice : ∀ lo hi' : Nat, hi' ≤ width →
      slice records.flatten (i * width + lo) (i * width + hi') =
        slice (u32Bytes off ++ [len] ++ rest) lo hi' :=
    fun lo hi' hle => slice_record hwidth hi hle
  refine ⟨u32le_found (by omega) ?_, ?_, ?_⟩
  · have hfirst := hslice 0 4 (by omega)
    rw [Nat.add_zero] at hfirst
    rw [hfirst, List.append_assoc]
    have hnone : ([] : Bytes).length = 0 := rfl
    exact slice_part hnone (p := u32Bytes off) (by rw [length_u32_bytes]) _
  · rw [byte_at_eq (by omega), get_record hwidth hi (by omega), List.append_assoc,
      List.getElem?_append_right (by rw [length_u32_bytes]), length_u32_bytes]
    rfl
  · rw [hslice 5 width (Nat.le_refl _)]
    have hbefore : (u32Bytes off ++ [len]).length = 5 := by
      rw [List.length_append, length_u32_bytes]
      rfl
    have hpart := slice_part hbefore hlength []
    rw [List.append_nil] at hpart
    exact hpart

/-- A string is read where the pool holds it. -/
theorem pool_str_held {db : GeoDb} {off : UInt32} {len : UInt8} {s : Text}
    (h : Holds db.stringPool.bytes (off, len) s) : db.poolStr off len = Reads.total (some s) := by
  have hoff := off.toNat_lt
  have hlen := len.toNat_lt
  have hget : get db.stringPool.bytes off.toNat (off.toNat + len.toNat) =
      Reads.total (some s.toBytes) := by
    rw [get_eq (by omega) (by omega)]
    exact congrArg Reads.total h
  unfold GeoDb.poolStr
  rw [hget, Reads.total_some_bind, Text.from_utf8_to_bytes]

theorem forall₂_get {α β : Type} {related : α → β → Prop} {l : List α} {l' : List β}
    (h : List.Forall₂ related l l') {i : Nat} {a : α} (hi : l[i]? = some a) :
    ∃ b, l'[i]? = some b ∧ related a b := by
  induction h generalizing i with
  | nil => simp at hi
  | cons hab _ ih =>
      cases i with
      | zero =>
          obtain rfl : _ = a := by simpa using hi
          exact ⟨_, rfl, hab⟩
      | succ i => exact ih hi

theorem forall₂_mem {α β : Type} {related : α → β → Prop} {l : List α} {l' : List β}
    (h : List.Forall₂ related l l') {b : β} (hb : b ∈ l') : ∃ a, related a b := by
  induction h with
  | nil => simp at hb
  | cons hab _ ih =>
      rcases List.mem_cons.mp hb with rfl | hb
      · exact ⟨_, hab⟩
      · exact ih hb

/-! ## Codes -/

/-- A text of ASCII characters. -/
def IsAscii (s : Text) : Prop := ∀ c ∈ s, c.toNat < 0x80

theorem is_ascii_of_all {s : Text} (h : (s.all fun c => decide (c.toNat < 0x80)) = true) :
    IsAscii s := fun c hc => of_decide_eq_true (List.all_eq_true.mp h c hc)

theorem to_ascii_upper_char : ∀ n < 128, toAsciiUpper (UInt8.ofNat n) =
    UInt8.ofNat (Char.ofNat n).toUpper.toNat ∧ (Char.ofNat n).toUpper.toNat < 128 := by
  decide

theorem IsAscii.take {s : Text} (h : IsAscii s) (n : Nat) : IsAscii (s.take n) :=
  fun c hc => h c (List.mem_of_mem_take hc)

/-- The bytes of an ASCII text are put into upper case as its characters are. -/
theorem IsAscii.uppercase {s : Text} (h : IsAscii s) : IsAscii s.toAsciiUppercase ∧
    s.toBytes.map toAsciiUpper = s.toAsciiUppercase.toBytes := by
  have hchar : ∀ c ∈ s, toAsciiUpper (UInt8.ofNat c.toNat) = UInt8.ofNat c.toUpper.toNat ∧
      c.toUpper.toNat < 128 := by
    intro c hc
    have hupper := to_ascii_upper_char c.toNat (h c hc)
    rw [Char.ofNat_toNat] at hupper
    exact hupper
  have hascii : IsAscii s.toAsciiUppercase := by
    intro d hd
    obtain ⟨c, hc, rfl⟩ := List.mem_map.mp hd
    exact (hchar c hc).2
  refine ⟨hascii, ?_⟩
  rw [Text.to_bytes_ascii h, Text.to_bytes_ascii hascii, Text.toAsciiUppercase, List.map_map,
    List.map_map]
  exact List.map_congr_left fun c hc => (hchar c hc).1

/-- A number of bytes of an ASCII text is as many characters. -/
theorem IsAscii.take_bytes {s : Text} (h : IsAscii s) (n : Nat) :
    s.toBytes.take n = Text.toBytes (s.take n) ∧
      (Text.toBytes (s.take n)).length = (s.take n).length := by
  constructor
  · rw [Text.to_bytes_ascii h, Text.to_bytes_ascii (h.take n), List.map_take]
  · rw [Text.to_bytes_ascii (h.take n), List.length_map]

theorem replicate_spaces (n : Nat) :
    List.replicate n (32 : UInt8) = Text.toBytes (List.replicate n ' ') := by
  rw [Text.to_bytes_ascii, List.map_replicate]
  · rfl
  · intro c hc
    rw [List.eq_of_mem_replicate hc]
    decide

/-- The padded code is the code in upper case, cut and padded. -/
theorem from_utf8_padded_upper {n : Nat} {s : Text} (h : IsAscii s) :
    Text.fromUtf8 (paddedUpper n s) = some (s.toAsciiUppercase.take n ++
      List.replicate (n - (s.toAsciiUppercase.take n).length) ' ') := by
  obtain ⟨hascii, hbytes⟩ := h.uppercase
  obtain ⟨htake, hlength⟩ := hascii.take_bytes n
  rw [paddedUpper, hbytes, htake, hlength, replicate_spaces, ← Text.to_bytes_append,
    Text.from_utf8_to_bytes]

/-- Trimming the padding leaves the code without the spaces it ends in. -/
theorem trim_padding (s : Text) (n : Nat) :
    (s ++ List.replicate n ' ').rdropWhile (· == ' ') = s.rdropWhile (· == ' ') := by
  induction n with
  | zero => simp
  | succ n ih =>
      rw [List.replicate_succ', ← List.append_assoc, List.rdropWhile_concat_pos _ _ _ rfl, ih]

/-- A country of an ASCII code can be read. -/
theorem CountryIn.stored_ascii {k : CountryIn} (hascii : IsAscii k.iso2)
    (hlength : k.iso2.length = 2) :
    k.stored = some (k.iso2.toAsciiUppercase, clampTo255 k.name) := by
  have hupper : k.iso2.toAsciiUppercase.length = 2 := by
    rw [Text.toAsciiUppercase, List.length_map, hlength]
  rw [CountryIn.stored, from_utf8_padded_upper hascii, List.take_of_length_le (by omega), hupper]
  simp

/-- A region of an ASCII code can be read. -/
theorem Admin1In.stored_ascii {a : Admin1In} (hascii : IsAscii a.sub) : a.stored = some a.ref := by
  rw [Admin1In.stored, from_utf8_padded_upper hascii, Option.map_some, trim_padding]
  rfl

/-! ## Countries and regions -/

theorem length_country_entries {bytes : Bytes} {sorted : List CountryIn} {entries : List Bytes}
    (h : List.Forall₂ (CountryEntry bytes) sorted entries) :
    ∀ e ∈ entries, e.length = COUNTRY_ENTRY_LEN := by
  intro e he
  obtain ⟨c, off, len, -, rfl⟩ := forall₂_mem h he
  rw [length_table_entry, length_padded_upper]
  rfl

theorem length_admin1_entries {bytes : Bytes} {sorted : List Admin1In} {entries : List Bytes}
    (h : List.Forall₂ (Admin1Entry bytes) sorted entries) :
    ∀ e ∈ entries, e.length = ADMIN1_ENTRY_LEN := by
  intro e he
  obtain ⟨c, off, len, -, rfl⟩ := forall₂_mem h he
  rw [length_table_entry, length_padded_upper]
  rfl

section Tables

variable {db : GeoDb}

theorem u16_of_nat {n : Nat} (h : n < 65536) : (UInt16.ofNat n).toNat = n :=
  UInt16.toNat_ofNat_of_lt' h

/-- A country is read from its entry. -/
theorem country_read {sorted : List CountryIn} {entries : List Bytes}
    (htable : db.countryTable.bytes = entries.flatten)
    (hentries : List.Forall₂ (CountryEntry db.stringPool.bytes) sorted entries)
    {i : Nat} {k : CountryIn} (hi : sorted[i]? = some k) (hsmall : i < 65536) :
    db.country (UInt16.ofNat i) = Reads.total k.stored := by
  have hwidth := length_country_entries hentries
  have hseven : COUNTRY_ENTRY_LEN = 7 := rfl
  have hbase : i * COUNTRY_ENTRY_LEN < 2 ^ 40 := base_lt (by omega) (by decide)
  obtain ⟨e, he, off, len, hholds, rfl⟩ := forall₂_get hentries hi
  obtain ⟨hoff, hlen, hrest⟩ := entry_read hwidth (by omega) he
  have hget : get db.countryTable.bytes (i * COUNTRY_ENTRY_LEN + 5) (i * COUNTRY_ENTRY_LEN + 7) =
      Reads.total (some (paddedUpper 2 k.iso2)) := by
    rw [get_eq (by omega) (by omega), htable]
    exact congrArg Reads.total hrest
  unfold GeoDb.country
  rw [u16_of_nat hsmall, usize_ok (by omega), Reads.checked_ok, Reads.total_some_bind]
  simp only [htable] at hget ⊢
  rw [hoff, Reads.total_some_bind, hlen, Reads.total_some_bind, pool_str_held hholds,
    Reads.total_some_bind, hget, Reads.total_some_bind]
  exact total_map _ _

/-- A region is read from its entry. -/
theorem admin1_read {sorted : List Admin1In} {entries : List Bytes}
    (htable : db.admin1Table.bytes = entries.flatten)
    (hentries : List.Forall₂ (Admin1Entry db.stringPool.bytes) sorted entries)
    {i : Nat} {a : Admin1In} (hi : sorted[i]? = some a) (hsmall : i < 65536) :
    db.admin1 (UInt16.ofNat i) = Reads.total a.stored := by
  have hwidth := length_admin1_entries hentries
  have height : ADMIN1_ENTRY_LEN = 8 := rfl
  have hbase : i * ADMIN1_ENTRY_LEN < 2 ^ 40 := base_lt (by omega) (by decide)
  obtain ⟨e, he, off, len, hholds, rfl⟩ := forall₂_get hentries hi
  obtain ⟨hoff, hlen, hrest⟩ := entry_read hwidth (by omega) he
  have hget : get db.admin1Table.bytes (i * ADMIN1_ENTRY_LEN + 5) (i * ADMIN1_ENTRY_LEN + 8) =
      Reads.total (some (paddedUpper 3 a.sub)) := by
    rw [get_eq (by omega) (by omega), htable]
    exact congrArg Reads.total hrest
  unfold GeoDb.admin1
  rw [u16_of_nat hsmall, usize_ok (by omega), Reads.checked_ok, Reads.total_some_bind]
  simp only [htable] at hget ⊢
  rw [hoff, Reads.total_some_bind, hlen, Reads.total_some_bind, pool_str_held hholds,
    Reads.total_some_bind, hget, Reads.total_some_bind]
  exact total_map _ _

end Tables

end OpenNtrip.Geodb
