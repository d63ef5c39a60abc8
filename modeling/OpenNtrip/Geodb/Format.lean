import Mathlib.Data.List.Sort
import OpenNtrip.Geodb.Fold
import OpenNtrip.Lib.ByteLayout
import OpenNtrip.Lib.Checked
import OpenNtrip.Rust.Float

/-!
# The GEO1 encoder

`encode` of `geodb/src/format.rs` with the string pool it fills on the way. What panics in the
source is a fault here, so that an image is accepted by `encode` if there is one.
-/

namespace OpenNtrip

/-- How degrees are converted for an image. What is said of images holds for any conversion, and so
for the program's own, `sourceDegrees`. -/
class Degrees where
  coordE4 : F64 → Int32

namespace Geodb

/-! ## Degrees -/

/-- `coord_e4`: degrees in units of 1e-4, rounded and clamped to an `i32`. -/
def coordE4 (deg : F64) : Int32 :=
  (((deg.mul (.finite 10000)).round).clamp (-2 ^ 31) (2 ^ 31 - 1)).toI32

/-- The conversion of the program. -/
@[reducible] def sourceDegrees : Degrees := ⟨coordE4⟩

/-- A whole number of units is kept, up to the bounds of an `i32`. -/
theorem coord_e4_units {n : Int} (hlow : -2 ^ 31 ≤ n) (hhigh : n < 2 ^ 31) :
    coordE4 (.finite (n / 10000)) = Int32.ofInt n := by
  have hproduct : F64.mul (.finite (n / 10000)) (.finite 10000) = .finite n := by
    have hexact : (n : Rat) / 10000 * 10000 = n := div_mul_cancel₀ _ (by norm_num)
    rw [F64.mul, hexact]
    exact F64.nearest_intCast (abs_lt.mpr ⟨by omega, by omega⟩)
  have hlow' : ¬ (n : Rat) < -2 ^ 31 := not_lt.mpr (by exact_mod_cast hlow)
  have hhigh' : ¬ (2 : Rat) ^ 31 - 1 < n := by
    rw [not_lt, le_sub_iff_add_le]
    exact_mod_cast hhigh
  rw [coordE4, hproduct, F64.round_intCast, F64.clamp, if_neg hlow', if_neg hhigh', F64.toI32]
  have hneg : (-(n : Rat)).floor = -n := by exact_mod_cast Rat.floor_intCast (-n)
  simp only [hneg, neg_neg, Rat.floor_intCast, ite_self]
  congr 1
  omega

/-- Half a unit is rounded away from zero. -/
example : coordE4 (.finite (-5 / 131072)) = 0 ∧ coordE4 (.finite (-157 / 2)) = -785000 ∧
    coordE4 (.finite (1 / 32)) = 313 := by decide +kernel

/-! ## The layout -/

/-- `b"ONCGEO1\0"`. -/
def MAGIC : Bytes := ascii "ONCGEO1" ++ [0]

def VERSION : Nat := 1

def SECTION_COUNT : Nat := 6

/-- Magic, version, section count and section table. -/
def HEADER_LEN : Nat := 8 + 4 + 4 + SECTION_COUNT * 8

def NAME_INDEX_ENTRY_LEN : Nat := 10

def CITY_RECORD_LEN : Nat := 21

def ADMIN1_ENTRY_LEN : Nat := 8

def COUNTRY_ENTRY_LEN : Nat := 7

def ZIP_ENTRY_LEN : Nat := 12

/-- The admin-1 index of a city without an admin-1 region. -/
def ADMIN1_NONE : UInt16 := 0xFFFF

/-! ## What is encoded -/

structure CityIn where
  name : Text
  asciiName : Text
  countryIso2 : Text
  admin1Code : Text
  lat : F64
  lon : F64
  population : UInt32
  deriving DecidableEq, Repr

structure Admin1In where
  code : Text
  name : Text
  deriving DecidableEq, Repr

structure CountryIn where
  iso2 : Text
  name : Text
  deriving DecidableEq, Repr

structure ZipIn where
  zip : UInt32
  lat : F64
  lon : F64
  deriving DecidableEq, Repr

/-! ## Integers -/

/-- `u32::try_from(n).expect(..)`, or a counter that must stay one. -/
def toU32 (n : Nat) : Checked UInt32 :=
  if n < 2 ^ 32 then .ok (UInt32.ofNat n) else .error .panic

/-- `u32::to_le_bytes`. -/
def u32Bytes (n : UInt32) : Bytes := leBytes 4 n.toNat

/-- `i32::to_le_bytes`. -/
def i32Bytes (n : Int32) : Bytes := leBytes 4 n.toUInt32.toNat

/-- `u16::to_le_bytes`. -/
def u16Bytes (n : UInt16) : Bytes := leBytes 2 n.toNat

/-! ## The string pool -/

/-- `str::is_char_boundary`, up to the length of the string. -/
def isCharBoundary (s : Text) (i : Nat) : Bool :=
  s.inits.any fun start => (Text.toBytes start).length == i

/-- The loop of `clamp_to_255`. -/
def floorBoundary (s : Text) : Nat → Nat
  | 0 => 0
  | stop + 1 => if isCharBoundary s (stop + 1) then stop + 1 else floorBoundary s stop

/-- `&s[..end]` at a character boundary. -/
def upTo (s : Text) (stop : Nat) : Text :=
  (s.inits.find? fun start => (Text.toBytes start).length == stop).getD []

/-- `clamp_to_255`. -/
def clampTo255 (s : Text) : Text :=
  if s.toBytes.length ≤ 255 then s else upTo s (floorBoundary s 255)

/-- The pool: its bytes, and for each string in it where it starts and how long it is. -/
structure Pool where
  bytes : Bytes := []
  seen : List (Text × UInt32 × UInt8) := []
  deriving DecidableEq, Repr

/-- `Pool::add`. -/
def Pool.add (pool : Pool) (s : Text) : Checked (Pool × UInt32 × UInt8) := do
  let s := clampTo255 s
  match pool.seen.lookup s with
  | some v => return (pool, v)
  | none =>
    let off ← toU32 pool.bytes.length
    let v := (off, UInt8.ofNat s.toBytes.length)
    return ({ bytes := pool.bytes ++ s.toBytes, seen := (s, v) :: pool.seen }, v)

/-- A pass over some items, each of which may add to the pool and yields an entry. -/
def encodeAll {α : Type} (entry : Pool → α → Checked (Pool × Bytes)) (pool : Pool) :
    List α → Checked (Pool × List Bytes)
  | [] => .ok (pool, [])
  | item :: rest => do
    let (pool, bytes) ← entry pool item
    let (pool, entries) ← encodeAll entry pool rest
    return (pool, bytes :: entries)

/-- `padded_upper`. -/
def paddedUpper (n : Nat) (s : Text) : Bytes :=
  let upper := (s.toBytes.map toAsciiUpper).take n
  upper ++ List.replicate (n - upper.length) 32

/-! ## The tables -/

/-- The countries by their code. -/
def sortCountries (countries : List CountryIn) : List CountryIn :=
  countries.insertionSort fun a b => a.iso2.toBytes ≤ b.iso2.toBytes

/-- The first index of each country code. -/
def countryIdx (countries : List CountryIn) : List (Text × UInt16) :=
  (sortCountries countries).zipIdx.map fun (c, i) => (c.iso2.toAsciiUppercase, UInt16.ofNat i)

def encodeCountry (pool : Pool) (c : CountryIn) : Checked (Pool × Bytes) := do
  let (pool, off, len) ← pool.add c.name
  return (pool, u32Bytes off ++ [len] ++ paddedUpper 2 c.iso2)

/-- The admin-1 regions by their code. -/
def sortAdmin1 (admin1 : List Admin1In) : List Admin1In :=
  admin1.insertionSort fun a b => a.code.toBytes ≤ b.code.toBytes

/-- The first index of each admin-1 code. -/
def admin1Idx (admin1 : List Admin1In) : List (Text × UInt16) :=
  (sortAdmin1 admin1).zipIdx.map fun (a, i) => (a.code.toAsciiUppercase, UInt16.ofNat i)

/-- What follows the country in an admin-1 code. -/
def Admin1In.sub (a : Admin1In) : Text :=
  match Text.splitOnce '.' a.code with
  | some (_, s) => s
  | none => a.code

def encodeAdmin1 (pool : Pool) (a : Admin1In) : Checked (Pool × Bytes) := do
  let (pool, off, len) ← pool.add a.name
  return (pool, u32Bytes off ++ [len] ++ paddedUpper 3 a.sub)

/-! ## Cities -/

variable [CharTables] [Degrees]

/-- The pass over the cities: the records so far, their (key, record) pairs, and the next record. -/
structure CityPass where
  pool : Pool
  records : List Bytes := []
  index : List (Text × UInt32) := []
  next : UInt32 := 0
  deriving DecidableEq, Repr

/-- The admin-1 index of a city: none without a code, and for an unknown one. -/
def CityIn.admin1Index (c : CityIn) (admin1 : List (Text × UInt16)) : UInt16 :=
  if c.admin1Code.isEmpty then ADMIN1_NONE
  else (admin1.lookup
    (c.countryIso2.toAsciiUppercase ++ '.' :: c.admin1Code.toAsciiUppercase)).getD ADMIN1_NONE

/-- The keys of a city: its folded name, and its folded ASCII name if that is another. -/
def CityIn.keys (c : CityIn) : List Text :=
  let k1 := clampTo255 (fold c.name)
  let k2 := clampTo255 (fold c.asciiName)
  (if !k1.isEmpty then [k1] else []) ++ (if k2 != k1 && !k2.isEmpty then [k2] else [])

/-- One turn of the loop over the cities. A city of an unknown country is dropped. -/
def CityPass.encodeCity (countries admin1 : List (Text × UInt16)) (pass : CityPass) (c : CityIn) :
    Checked CityPass :=
  match countries.lookup c.countryIso2.toAsciiUppercase with
  | none => .ok pass
  | some ci => do
    let (pool, off, len) ← pass.pool.add c.name
    let record := u32Bytes off ++ [len] ++ u16Bytes ci ++ u16Bytes (c.admin1Index admin1) ++
      i32Bytes (Degrees.coordE4 c.lat) ++ i32Bytes (Degrees.coordE4 c.lon) ++
      u32Bytes c.population
    let next ← toU32 (pass.next.toNat + 1)
    return {
      pool
      records := pass.records ++ [record]
      index := pass.index ++ c.keys.map fun key => (key, pass.next)
      next }

/-! ## The name index and the ZIP table -/

/-- The order of the name index: by key, and by record where keys agree. -/
def indexBefore (a b : Text × UInt32) : Bool :=
  a.1.toBytes < b.1.toBytes || (a.1.toBytes == b.1.toBytes && a.2 ≤ b.2)

def sortIndex (index : List (Text × UInt32)) : List (Text × UInt32) :=
  index.insertionSort fun a b => indexBefore a b

def encodeKey (pool : Pool) (entry : Text × UInt32) : Checked (Pool × Bytes) := do
  let (pool, off, len) ← pool.add entry.1
  return (pool, u32Bytes off ++ [len] ++ [0] ++ u32Bytes entry.2)

/-- The loop over the sorted ZIP codes. Of equal ones the first is kept. -/
def encodeZips (prev : Option UInt32) : List ZipIn → List Bytes
  | [] => []
  | z :: rest =>
    if prev = some z.zip then encodeZips prev rest
    else (u32Bytes z.zip ++ i32Bytes (Degrees.coordE4 z.lat) ++ i32Bytes (Degrees.coordE4 z.lon)) ::
      encodeZips (some z.zip) rest

/-! ## The image -/

/-- The section table: offset and length of each section. -/
def sectionTable (off : Nat) : List Bytes → List Bytes
  | [] => []
  | s :: rest =>
    (u32Bytes (UInt32.ofNat off) ++ u32Bytes (UInt32.ofNat s.length)) ::
      sectionTable (off + s.length) rest

/-- `assemble`. -/
def assemble (sections : List Bytes) : Checked Bytes := do
  Checked.ensure (decide (HEADER_LEN + (sections.map List.length).sum < 2 ^ 32))
  return MAGIC ++ u32Bytes (UInt32.ofNat VERSION) ++ u32Bytes (UInt32.ofNat SECTION_COUNT) ++
    (sectionTable HEADER_LEN sections).flatten ++ sections.flatten

/-- `encode`. -/
def encode (cities : List CityIn) (admin1 : List Admin1In) (countries : List CountryIn)
    (zips : List ZipIn) : Checked Bytes := do
  Checked.ensure (decide (countries.length ≤ 65536))
  Checked.ensure (decide (admin1.length < 65535))
  let (pool, countryEntries) ← encodeAll encodeCountry {} (sortCountries countries)
  let (pool, admin1Entries) ← encodeAll encodeAdmin1 pool (sortAdmin1 admin1)
  let pass ← cities.foldlM
    (CityPass.encodeCity (countryIdx countries) (admin1Idx admin1)) { pool }
  let (pool, indexEntries) ← encodeAll encodeKey pass.pool (sortIndex pass.index)
  let zipEntries := encodeZips none (zips.insertionSort fun a b => a.zip ≤ b.zip)
  assemble [indexEntries.flatten, pass.records.flatten, pool.bytes, admin1Entries.flatten,
    countryEntries.flatten, zipEntries.flatten]

/-! ## A city -/

/-- The case mapping of ASCII letters. -/
@[reducible] def asciiCase : CharTables := ⟨fun c => [c.toLower]⟩

/-- A city whose ASCII name is missing. -/
def quito : CityIn where
  name := "Quito".toList
  asciiName := []
  countryIso2 := "EC".toList
  admin1Code := []
  lat := .finite (-2299 / 10000)
  lon := .finite (-785250 / 10000)
  population := 1000

def ecuador : CountryIn := { iso2 := "EC".toList, name := "Ecuador".toList }

end Geodb
end OpenNtrip
