import OpenNtrip.Geodb.GeoDb

/-!
# The catalog behind an image

What a database is for, without an image: the cities of known countries with all they refer to, the
keys they are found under, and `naiveScan`, which answers a query by looking at each of them.
-/

namespace OpenNtrip.Geodb

/-- The country of a city: the first with its code. -/
def CityIn.country (c : CityIn) (countries : List CountryIn) : Option CountryIn :=
  (sortCountries countries).find? fun k =>
    c.countryIso2.toAsciiUppercase == k.iso2.toAsciiUppercase

/-- The full code of the admin-1 region of a city. -/
def CityIn.fullCode (c : CityIn) : Text :=
  c.countryIso2.toAsciiUppercase ++ '.' :: c.admin1Code.toAsciiUppercase

/-- The admin-1 region of a city: the first with its full code. -/
def CityIn.region (c : CityIn) (admin1 : List Admin1In) : Option Admin1In :=
  if c.admin1Code.isEmpty then none
  else (sortAdmin1 admin1).find? fun a => c.fullCode == a.code.toAsciiUppercase

/-- The cities of known countries, in the order of the input. -/
def knownCities (cities : List CityIn) (countries : List CountryIn) :
    List (CityIn × CountryIn) :=
  cities.filterMap fun c => (c.country countries).map fun k => (c, k)

/-- A region as it is shown: its abbreviation is what follows the country in its code, cut to three
characters. -/
def Admin1In.ref (a : Admin1In) : Admin1Ref where
  abbreviation := (a.sub.toAsciiUppercase.take 3).rdropWhile (· == ' ')
  name := clampTo255 a.name

/-- What an image keeps of a country, nothing where its two code bytes are no UTF-8. -/
def CountryIn.stored (k : CountryIn) : Option (Text × Text) :=
  (Text.fromUtf8 (paddedUpper 2 k.iso2)).map fun iso2 => (iso2, clampTo255 k.name)

/-- What an image keeps of a region, nothing where its three code bytes are no UTF-8. -/
def Admin1In.stored (a : Admin1In) : Option Admin1Ref :=
  (Text.fromUtf8 (paddedUpper 3 a.sub)).map fun padded =>
    { abbreviation := padded.rdropWhile (· == ' '), name := clampTo255 a.name }

variable [CharTables] [Degrees]

/-- A city with all it refers to. -/
def CityIn.ref (c : CityIn) (country : CountryIn) (region : Option Admin1In) (record : UInt32) :
    CityRef where
  record
  name := clampTo255 c.name
  iso2 := country.iso2.toAsciiUppercase
  countryName := clampTo255 country.name
  admin1 := region.map Admin1In.ref
  latE4 := Degrees.coordE4 c.lat
  lonE4 := Degrees.coordE4 c.lon
  pop := c.population

/-- What an image keeps of a city, nothing where that is so of its country. -/
def CityIn.stored (c : CityIn) (country : CountryIn) (region : Option Admin1In)
    (record : UInt32) : Option CityRef :=
  country.stored.map fun (iso2, countryName) => {
    record
    name := clampTo255 c.name
    iso2
    countryName
    admin1 := region.bind Admin1In.stored
    latE4 := Degrees.coordE4 c.lat
    lonE4 := Degrees.coordE4 c.lon
    pop := c.population }

/-- The cities that can be read, in the order of the input. -/
def storedCities (cities : List CityIn) (admin1 : List Admin1In) (countries : List CountryIn) :
    List CityRef :=
  (knownCities cities countries).zipIdx.filterMap fun ((c, k), i) =>
    c.stored k (c.region admin1) (UInt32.ofNat i)

/-- The city records, in the order of the input. -/
def catalog (cities : List CityIn) (admin1 : List Admin1In) (countries : List CountryIn) :
    List CityRef :=
  (knownCities cities countries).zipIdx.map fun ((c, k), i) =>
    c.ref k (c.region admin1) (UInt32.ofNat i)

/-- The keys of the cities, each with the number of its city. -/
def indexEntries (cities : List CityIn) (countries : List CountryIn) : List (Text × UInt32) :=
  (knownCities cities countries).zipIdx.flatMap fun ((c, _), i) =>
    c.keys.map fun key => (key, UInt32.ofNat i)

/-- A folded name of the city, clamped, starts with the text. -/
def CityIn.named (c : CityIn) (wanted : Text) : Bool :=
  (clampTo255 (fold c.name)).startsWith wanted || (clampTo255 (fold c.asciiName)).startsWith wanted

/-- A folded name of the city, clamped, is the text. -/
def CityIn.exactlyNamed (c : CityIn) (wanted : Text) : Bool :=
  clampTo255 (fold c.name) == wanted || clampTo255 (fold c.asciiName) == wanted

/-- The cities that a query names, found by looking at every city: by falling population, then in
the order of the input. -/
def naiveScan (cities : List CityIn) (admin1 : List Admin1In) (countries : List CountryIn)
    (query : Text) (limit : Nat) : List GeoHit :=
  let (name, qualifiers) := parseQuery query.trim
  let found := (knownCities cities countries).zipIdx.filterMap fun ((c, k), i) =>
    let ref := c.ref k (c.region admin1) (UInt32.ofNat i)
    if c.named name && qualifiers.all ref.matchesQualifier then some ref else none
  ((found.insertionSort fun a b => a.ranked b).take limit).map CityRef.toHit

end OpenNtrip.Geodb
