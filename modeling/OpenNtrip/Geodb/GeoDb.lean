import OpenNtrip.Geodb.Format
import OpenNtrip.Rust.Strings
import OpenNtrip.Rust.Utf8

/-!
# The GEO1 reader

`GeoDb` of `geodb/src/lib.rs`: `from_bytes`, which validates an image, and `resolve`, which answers
a query from its sections in place. Offsets are `usize`, so every sum and product of them has to
stay below 2^64, and every range that is indexed without `get` has to exist.
-/

namespace OpenNtrip.Geodb

/-- Index entries examined for a query. -/
def SCAN_CAP : Nat := 500

/-- One result. `lat_e4` and `lon_e4` are the coordinates before the division by 1e4. -/
structure GeoHit where
  display : Text
  latE4 : Int32
  lonE4 : Int32
  population : UInt32
  deriving DecidableEq, Repr

inductive FormatError where
  | tooShort
  | badMagic
  | badVersion (found : UInt32)
  | badSectionCount (found : UInt32)
  | sectionOutOfBounds (sec : Nat)
  | sectionMisaligned (sec : Nat)
  deriving DecidableEq, Repr

/-! ## Reads -/

/-- A `usize`. -/
def usize (n : Nat) : Checked Nat := Checked.bounded (2 ^ 64) n

/-- `slice[lo..hi]`. -/
def index (b : Bytes) (lo hi : Nat) : Checked Bytes :=
  match slice b lo hi with
  | some part => .ok part
  | none => .error .outOfRange

/-- `slice.get(lo..hi)`. -/
def get (b : Bytes) (lo hi : Nat) : Reads Bytes := do
  let lo ← Reads.checked (usize lo)
  let hi ← Reads.checked (usize hi)
  Reads.total (slice b lo hi)

/-- `slice.get(i)`. -/
def byteAt (b : Bytes) (i : Nat) : Reads UInt8 := do
  let i ← Reads.checked (usize i)
  Reads.total b[i]?

/-- `u32le`. -/
def u32le (b : Bytes) (off : Nat) : Reads UInt32 := do
  let word ← get b off (off + 4)
  return UInt32.ofNat (leValue word)

/-- `i32le`. -/
def i32le (b : Bytes) (off : Nat) : Reads Int32 := do
  let word ← get b off (off + 4)
  return (UInt32.ofNat (leValue word)).toInt32

/-- `u16le`. -/
def u16le (b : Bytes) (off : Nat) : Reads UInt16 := do
  let word ← get b off (off + 2)
  return UInt16.ofNat (leValue word)

/-! ## Loading -/

/-- A section of an image: its length is a `u32` and a whole number of entries. -/
structure Section (width : Nat) where
  bytes : Bytes
  length_lt : bytes.length < 2 ^ 32
  whole : bytes.length % width = 0
  deriving DecidableEq, Repr

/-- A validated view of a database. -/
structure GeoDb where
  nameIndex : Section NAME_INDEX_ENTRY_LEN
  cityRecords : Section CITY_RECORD_LEN
  stringPool : Section 1
  admin1Table : Section ADMIN1_ENTRY_LEN
  countryTable : Section COUNTRY_ENTRY_LEN
  zipTable : Section ZIP_ENTRY_LEN
  deriving DecidableEq, Repr

/-- `off.checked_add(len).and_then(|end| data.get(off..end))`. -/
def checkedRange (data : Bytes) (off len : Nat) : Option Bytes :=
  if off + len < 2 ^ 64 then slice data off (off + len) else none

theorem checked_range_length {data part : Bytes} {off len : Nat}
    (h : checkedRange data off len = some part) : part.length = len := by
  unfold checkedRange at h
  split at h
  · rw [slice_length h]
    omega
  · simp at h

/-- One turn of the loop over the sections. -/
def readSection (data : Bytes) (i width : Nat) : Tries FormatError (Section width) := do
  let off ← Tries.checked (Checked.expect (u32le data (16 + i * 8)))
  let len ← Tries.checked (Checked.expect (u32le data (20 + i * 8)))
  match h : checkedRange data off.toNat len.toNat with
  | none => throw (.sectionOutOfBounds i)
  | some sec =>
    if hwhole : len.toNat % width = 0 then
      return {
        bytes := sec
        length_lt := by
          rw [checked_range_length h]
          exact len.toNat_lt
        whole := by rw [checked_range_length h, hwhole] }
    else throw (.sectionMisaligned i)

/-- `from_bytes`. The loop over the sections is written out. -/
def fromBytes (data : Bytes) : Tries FormatError GeoDb := do
  if data.length < HEADER_LEN then throw .tooShort
  let magic ← Tries.checked (index data 0 8)
  if magic ≠ MAGIC then throw .badMagic
  let version ← Tries.checked (Checked.expect (u32le data 8))
  if version.toNat ≠ VERSION then throw (.badVersion version)
  let count ← Tries.checked (Checked.expect (u32le data 12))
  if count.toNat ≠ SECTION_COUNT then throw (.badSectionCount count)
  let nameIndex ← readSection data 0 NAME_INDEX_ENTRY_LEN
  let cityRecords ← readSection data 1 CITY_RECORD_LEN
  let stringPool ← readSection data 2 1
  let admin1Table ← readSection data 3 ADMIN1_ENTRY_LEN
  let countryTable ← readSection data 4 COUNTRY_ENTRY_LEN
  let zipTable ← readSection data 5 ZIP_ENTRY_LEN
  return { nameIndex, cityRecords, stringPool, admin1Table, countryTable, zipTable }

/-! ## Records -/

/-- An admin-1 region as a city refers to it. -/
structure Admin1Ref where
  abbreviation : Text
  name : Text
  deriving DecidableEq, Repr

/-- A city record with all string references resolved. `record` is its number. -/
structure CityRef where
  record : UInt32
  name : Text
  iso2 : Text
  countryName : Text
  admin1 : Option Admin1Ref
  latE4 : Int32
  lonE4 : Int32
  pop : UInt32
  deriving DecidableEq, Repr

namespace GeoDb

/-- `pool_str`. -/
def poolStr (db : GeoDb) (off : UInt32) (len : UInt8) : Reads Text := do
  let bytes ← get db.stringPool.bytes off.toNat (off.toNat + len.toNat)
  Reads.total (Text.fromUtf8 bytes)

/-- `country`. -/
def country (db : GeoDb) (idx : UInt16) : Reads (Text × Text) := do
  let base ← Reads.checked (usize (idx.toNat * COUNTRY_ENTRY_LEN))
  let table := db.countryTable.bytes
  let name ← db.poolStr (← u32le table base) (← byteAt table (base + 4))
  let iso2 ← Reads.total (Text.fromUtf8 (← get table (base + 5) (base + 7)))
  return (iso2, name)

/-- `admin1`. -/
def admin1 (db : GeoDb) (idx : UInt16) : Reads Admin1Ref := do
  let base ← Reads.checked (usize (idx.toNat * ADMIN1_ENTRY_LEN))
  let table := db.admin1Table.bytes
  let name ← db.poolStr (← u32le table base) (← byteAt table (base + 4))
  let padded ← Reads.total (Text.fromUtf8 (← get table (base + 5) (base + 8)))
  return { abbreviation := padded.rdropWhile (· == ' '), name }

/-- `city`. -/
def city (db : GeoDb) (record : UInt32) : Reads CityRef := do
  let base ← Reads.total (usize (record.toNat * CITY_RECORD_LEN)).toOption
  let records := db.cityRecords.bytes
  let name ← db.poolStr (← u32le records base) (← byteAt records (base + 4))
  let countryIdx ← u16le records (base + 5)
  let admin1Idx ← u16le records (base + 7)
  let latE4 ← i32le records (base + 9)
  let lonE4 ← i32le records (base + 13)
  let pop ← u32le records (base + 17)
  let (iso2, countryName) ← db.country countryIdx
  -- a dangling index is as good as none
  let admin1 ← Reads.checked
    (if admin1Idx = ADMIN1_NONE then .ok none else (db.admin1 admin1Idx).run)
  return { record, name, iso2, countryName, admin1, latE4, lonE4, pop }

/-- `index_key`. -/
def indexKey (db : GeoDb) (i : Nat) : Checked Bytes := do
  let base ← usize (i * NAME_INDEX_ENTRY_LEN)
  match ← (u32le db.nameIndex.bytes base).run with
  | none => return []
  | some off =>
    match ← (byteAt db.nameIndex.bytes (base + 4)).run with
    | none => return []
    | some len =>
      return (← (get db.stringPool.bytes off.toNat (off.toNat + len.toNat)).run).getD []

end GeoDb

/-! ## What a city matches and shows -/

section Queries

variable [CharTables]

/-- `field_starts_with`. -/
def fieldStartsWith (field foldedQualifier : Text) : Bool :=
  (fold field).startsWith foldedQualifier

namespace CityRef

/-- `matches_qualifier`. -/
def matchesQualifier (c : CityRef) (foldedQualifier : Text) : Bool :=
  (match c.admin1 with
    | some a1 => fieldStartsWith a1.abbreviation foldedQualifier ||
        fieldStartsWith a1.name foldedQualifier
    | none => false) ||
  fieldStartsWith c.iso2 foldedQualifier || fieldStartsWith c.countryName foldedQualifier

/-- The label of a city. -/
def display (c : CityRef) : Text :=
  match c.admin1 with
  | some a1 =>
    if c.iso2 = "US".toList ∧ a1.abbreviation ≠ [] then
      c.name ++ ", ".toList ++ a1.abbreviation ++ ", ".toList ++ c.iso2
    else if a1.name ≠ [] then c.name ++ ", ".toList ++ a1.name ++ ", ".toList ++ c.iso2
    else c.name ++ ", ".toList ++ c.iso2
  | none => c.name ++ ", ".toList ++ c.iso2

/-- `to_hit`. -/
def toHit (c : CityRef) : GeoHit where
  display := c.display
  latE4 := c.latE4
  lonE4 := c.lonE4
  population := c.pop

/-- The order of the hits: by falling population, and by record where populations agree. -/
def ranked (a b : CityRef) : Bool := b.pop < a.pop || (a.pop == b.pop && a.record ≤ b.record)

end CityRef

/-! ## Queries -/

/-- The binary search of `prefix_scan` and `resolve_zip`: the first of the entries that is not
below. -/
def search (below : Nat → Checked Bool) (lo hi : Nat) : Checked Nat :=
  if lo < hi then do
    let mid := lo + (hi - lo) / 2
    let _ ← usize mid
    if ← below mid then search below (mid + 1) hi else search below lo mid
  else return lo
termination_by hi - lo

/-- Exactly five ASCII digits. -/
def isZip (q : Text) : Bool :=
  q.toBytes.length == 5 && q.toBytes.all fun b => 48 ≤ b && b ≤ 57

/-- The name and the qualifiers of a query, split at commas and folded. Empty qualifiers are
dropped. -/
def parseQuery (q : Text) : Text × List Text :=
  let (nameRaw, qualRaw) := match Text.splitOnce ',' q with
    | some (n, rest) => (n, some rest)
    | none => (q, none)
  let qualifiers := qualRaw.map fun s =>
    (s.splitOn ',').filterMap fun part =>
      let f := fold (Text.trim part)
      if f.isEmpty then none else some f
  (fold (Text.trim nameRaw), qualifiers.getD [])

namespace GeoDb

/-- The loop of `prefix_scan` over the entries from the lower bound on. -/
def scan (db : GeoDb) (wanted : Bytes) (recs : List UInt32) : List Nat → Checked (List UInt32)
  | [] => return recs
  | i :: rest => do
    if !wanted.isPrefixOf (← db.indexKey i) then return recs
    let off ← usize (i * NAME_INDEX_ENTRY_LEN + 6)
    match ← (u32le db.nameIndex.bytes off).run with
    | some record =>
      if recs.contains record then db.scan wanted recs rest
      else db.scan wanted (recs ++ [record]) rest
    | none => db.scan wanted recs rest

/-- The city records that are there. -/
def cities (db : GeoDb) : List UInt32 → Checked (List CityRef)
  | [] => return []
  | record :: rest => do
    let city ← (db.city record).run
    return city.toList ++ (← db.cities rest)

/-- `prefix_scan`. -/
def prefixScan (db : GeoDb) (wanted : Bytes) : Checked (List CityRef) := do
  let n := db.nameIndex.bytes.length / NAME_INDEX_ENTRY_LEN
  let lo ← search (fun i => return (← db.indexKey i) < wanted) 0 n
  let hi := min n (← usize (lo + SCAN_CAP))
  let recs ← db.scan wanted [] (List.range' lo (hi - lo))
  db.cities recs

/-- The label of a ZIP hit. -/
def zipDisplay (zip : Nat) : Text :=
  "ZIP ".toList ++ List.replicate (5 - (decimalText zip).length) '0' ++ decimalText zip

/-- `resolve_zip`. -/
def resolveZip (db : GeoDb) (zip : UInt32) (limit : Nat) : Checked (List GeoHit) := do
  let table := db.zipTable.bytes
  let n := table.length / ZIP_ENTRY_LEN
  let entry (i : Nat) : Checked (Option UInt32) := do
    let off ← usize (i * ZIP_ENTRY_LEN)
    (u32le table off).run
  let lo ← search (fun i => return (← entry i).getD 0xFFFFFFFF < zip) 0 n
  if n ≤ lo then return []
  if (← entry lo) ≠ some zip then return []
  let lat ← (i32le table (lo * ZIP_ENTRY_LEN + 4)).run
  let lon ← (i32le table (lo * ZIP_ENTRY_LEN + 8)).run
  match lat, lon with
  | some latE4, some lonE4 =>
    return [({ display := zipDisplay zip.toNat, latE4, lonE4, population := 0 } : GeoHit)].take
      limit
  | _, _ => return []

/-- The cities that answer a query, before they are shown. -/
def resolveCities (db : GeoDb) (name : Text) (qualifiers : List Text) (limit : Nat) :
    Checked (List CityRef) := do
  if name.isEmpty then return []
  let hits ← db.prefixScan name.toBytes
  let hits :=
    if qualifiers.isEmpty then hits
    else hits.filter fun c => qualifiers.all c.matchesQualifier
  return (hits.insertionSort fun a b => a.ranked b).take limit

/-- `resolve`. -/
def resolve (db : GeoDb) (query : Text) (limit : Nat) : Checked (List GeoHit) := do
  let q := query.trim
  if isZip q then db.resolveZip (UInt32.ofNat ((q.parseUnsigned (2 ^ 32)).getD 0)) limit
  else
    let (name, qualifiers) := parseQuery q
    return (← db.resolveCities name qualifiers limit).map CityRef.toHit

end GeoDb
end Queries
end OpenNtrip.Geodb
