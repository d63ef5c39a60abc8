import OpenNtrip.Geodb.InputOrder

/-!
# The generator of the image

`tools/geodb-gen`: it reads four dumps, tells which rows it skipped, and writes the image of the
rest. `arguments_iff` says which command lines it takes, and `generated_answers` what an image that
it wrote answers: every query from the well-formed rows of the dumps, whatever else they hold.
-/

namespace OpenNtrip.Geodb.Generate

/-! ## The command line -/

/-- A flag of the command line. -/
inductive Flag where
  | cities
  | admin1
  | countries
  | zips
  | out
  deriving DecidableEq, Repr

def Flag.all : List Flag := [.cities, .admin1, .countries, .zips, .out]

def Flag.text : Flag → Text
  | .cities => "--cities".toList
  | .admin1 => "--admin1".toList
  | .countries => "--countries".toList
  | .zips => "--zips".toList
  | .out => "--out".toList

def Flag.ofText (arg : Text) : Option Flag := Flag.all.find? fun flag => flag.text == arg

structure Args where
  cities : Text
  admin1 : Text
  countries : Text
  zips : Text
  out : Text
  deriving DecidableEq, Repr

/-- The value of a flag. -/
def Args.value (args : Args) : Flag → Text
  | .cities => args.cities
  | .admin1 => args.admin1
  | .countries => args.countries
  | .zips => args.zips
  | .out => args.out

/-- The loop of `Args::parse`. `slots` are the flags so far. -/
def parseSlots (slots : Flag → Option Text) : List Text → Except Text (Flag → Option Text)
  | [] => .ok slots
  | arg :: rest =>
    match Flag.ofText arg with
    | none => .error ("unknown argument '".toList ++ arg ++ "'".toList)
    | some flag =>
      match rest with
      | [] => .error ("missing value for ".toList ++ arg)
      | value :: rest =>
        if (slots flag).isSome then .error ("duplicate ".toList ++ arg)
        else parseSlots (Function.update slots flag (some value)) rest

/-- `Args::parse`. -/
def parseArgs (args : List Text) : Except Text Args := do
  let slots ← parseSlots (fun _ => none) args
  let required (flag : Flag) : Except Text Text :=
    match slots flag with
    | some value => .ok value
    | none => .error ("missing ".toList ++ flag.text)
  return {
    cities := ← required .cities
    admin1 := ← required .admin1
    countries := ← required .countries
    zips := ← required .zips
    out := ← required .out }

/-- A flag is known by its text. -/
theorem of_text_iff {arg : Text} {flag : Flag} : Flag.ofText arg = some flag ↔ arg = flag.text := by
  constructor
  · intro h
    unfold Flag.ofText at h
    have hfound := List.find?_some h
    exact (beq_iff_eq.mp hfound).symm
  · rintro rfl
    cases flag with
    | _ => decide

/-- A command line of flags with their values. -/
def commandLine (given : List (Flag × Text)) : List Text :=
  given.flatMap fun (flag, value) => [flag.text, value]

theorem command_line_cons (flag : Flag) (value : Text) (given : List (Flag × Text)) :
    commandLine ((flag, value) :: given) = flag.text :: value :: commandLine given := rfl

theorem lookup_absent {given : List (Flag × Text)} {flag : Flag} (h : ∀ g ∈ given, g.1 ≠ flag) :
    given.lookup flag = none :=
  List.lookup_eq_none_iff.mpr fun g hg => bne_iff_ne.mpr (h g hg).symm

/-- The loop takes flags with their values, each once. -/
theorem parse_slots_iff {slots final : Flag → Option Text} {args : List Text} :
    parseSlots slots args = .ok final ↔
      ∃ given, args = commandLine given ∧ (given.map Prod.fst).Nodup ∧
        (∀ g ∈ given, slots g.1 = none) ∧
          ∀ flag, final flag = (given.lookup flag).or (slots flag) := by
  fun_induction parseSlots slots args with
  | case1 slots =>
      constructor
      · intro h
        obtain rfl := Except.ok.inj h
        exact ⟨[], rfl, List.nodup_nil, by simp, fun flag => rfl⟩
      · rintro ⟨given, hargs, -, -, hfinal⟩
        cases given with
        | nil => exact congrArg _ (funext fun flag => (hfinal flag).symm)
        | cons g given => simp [commandLine] at hargs
  | case2 slots arg rest hunknown =>
      refine iff_of_false (by simp) ?_
      rintro ⟨given, hargs, -⟩
      cases given with
      | nil => simp [commandLine] at hargs
      | cons g given =>
          obtain ⟨harg, -⟩ := List.cons.inj hargs
          rw [of_text_iff.mpr harg] at hunknown
          simp at hunknown
  | case3 slots arg flag hflag =>
      refine iff_of_false (by simp) ?_
      rintro ⟨given, hargs, -⟩
      cases given with
      | nil => simp [commandLine] at hargs
      | cons g given => simp [commandLine] at hargs
  | case4 slots arg flag hflag value rest htaken =>
      refine iff_of_false (by simp) ?_
      rintro ⟨given, hargs, -, hfree, -⟩
      cases given with
      | nil => simp [commandLine] at hargs
      | cons g given =>
          obtain ⟨harg, -⟩ := List.cons.inj hargs
          rw [of_text_iff.mpr harg] at hflag
          have hnone := hfree g List.mem_cons_self
          rw [Option.some.inj hflag] at hnone
          simp [hnone] at htaken
  | case5 slots arg flag hflag value rest htaken ih =>
      have harg := of_text_iff.mp hflag
      have hnone : slots flag = none := by simpa using htaken
      rw [ih]
      constructor
      · rintro ⟨given, rfl, hnodup, hfree, hfinal⟩
        have hother : ∀ g ∈ given, g.1 ≠ flag := by
          intro g hg heq
          have htwice := hfree g hg
          rw [heq, Function.update_self] at htwice
          simp at htwice
        refine ⟨(flag, value) :: given, by rw [command_line_cons, harg], ?_, ?_, fun other => ?_⟩
        · refine List.nodup_cons.mpr ⟨fun hmem => ?_, hnodup⟩
          obtain ⟨g, hg, heq⟩ := List.mem_map.mp hmem
          exact hother g hg heq
        · intro g hg
          rcases List.mem_cons.mp hg with rfl | hg
          · exact hnone
          · rw [← hfree g hg, Function.update_of_ne (hother g hg)]
        · rw [hfinal, List.lookup_cons]
          by_cases heq : other = flag
          · subst heq
            rw [lookup_absent hother, Function.update_self, beq_self_eq_true]
            rfl
          · rw [Function.update_of_ne heq, beq_eq_false_iff_ne.mpr heq]
      · rintro ⟨given, hargs, hnodup, hfree, hfinal⟩
        cases given with
        | nil => simp [commandLine] at hargs
        | cons g given =>
            obtain ⟨flag', value'⟩ := g
            rw [command_line_cons] at hargs
            obtain ⟨hflags, hargs⟩ := List.cons.inj hargs
            obtain ⟨rfl, rfl⟩ := List.cons.inj hargs
            obtain rfl : flag = flag' :=
              Option.some.inj (hflag.symm.trans (of_text_iff.mpr hflags))
            obtain ⟨hnew, hnodup⟩ := List.nodup_cons.mp hnodup
            have hother : ∀ g ∈ given, g.1 ≠ flag := fun g hg heq =>
              hnew (List.mem_map.mpr ⟨g, hg, heq⟩)
            refine ⟨given, rfl, hnodup, fun g hg => ?_, fun other => ?_⟩
            · rw [Function.update_of_ne (hother g hg)]
              exact hfree g (List.mem_cons_of_mem _ hg)
            · rw [hfinal, List.lookup_cons]
              by_cases heq : other = flag
              · subst heq
                rw [lookup_absent hother, Function.update_self, beq_self_eq_true]
                rfl
              · rw [Function.update_of_ne heq, beq_eq_false_iff_ne.mpr heq]

/-- A flag that is given once has the value that is looked up. -/
theorem mem_given {given : List (Flag × Text)} (hnodup : (given.map Prod.fst).Nodup) {flag : Flag}
    {value : Text} : (flag, value) ∈ given ↔ given.lookup flag = some value := by
  induction given with
  | nil => simp
  | cons g given ih =>
      obtain ⟨flag', value'⟩ := g
      obtain ⟨hnew, hnodup⟩ := List.nodup_cons.mp hnodup
      rw [List.mem_cons, List.lookup_cons, ih hnodup]
      by_cases heq : flag = flag'
      · subst heq
        have habsent : given.lookup flag = none :=
          lookup_absent fun g hg heq => hnew (List.mem_map.mpr ⟨g, hg, heq⟩)
        simp [habsent, eq_comm]
      · simp [heq, beq_eq_false_iff_ne.mpr heq]

/-- The flags of an accepted command line are the five, each once, in any order. -/
theorem given_perm {given : List (Flag × Text)} {a : Args} :
    ((given.map Prod.fst).Nodup ∧ ∀ flag, given.lookup flag = some (a.value flag)) ↔
      given.Perm (Flag.all.map fun flag => (flag, a.value flag)) := by
  have hall : ∀ flag, flag ∈ Flag.all := by
    intro flag
    cases flag with
    | _ => decide
  constructor
  · rintro ⟨hnodup, hvalues⟩
    have hpairs : (Flag.all.map fun flag => (flag, a.value flag)).Nodup :=
      List.Nodup.map (fun _ _ heq => (Prod.mk.inj heq).1) (by decide)
    refine (List.perm_ext_iff_of_nodup hnodup.of_map hpairs).mpr fun (flag, value) => ?_
    rw [mem_given hnodup, hvalues, List.mem_map]
    constructor
    · intro heq
      exact ⟨flag, hall flag, Prod.ext rfl (Option.some.inj heq)⟩
    · rintro ⟨flag', -, heq⟩
      obtain ⟨rfl, rfl⟩ := Prod.mk.inj heq
      rfl
  · intro hperm
    have hnodup : (given.map Prod.fst).Nodup := by
      refine (hperm.map Prod.fst).nodup_iff.mpr ?_
      rw [List.map_map]
      show (Flag.all.map id).Nodup
      decide
    refine ⟨hnodup, fun flag => (mem_given hnodup).mp ?_⟩
    exact hperm.mem_iff.mpr (List.mem_map_of_mem (hall flag))

/-- The slots make up the arguments if each is filled. -/
theorem required_iff {slots : Flag → Option Text} {args : List Text}
    (h : parseSlots (fun _ => none) args = .ok slots) {a : Args} :
    parseArgs args = .ok a ↔ ∀ flag, slots flag = some (a.value flag) := by
  unfold parseArgs
  rw [h]
  constructor
  · intro hargs
    cases hcities : slots .cities with
    | none => simp [hcities, bind, Except.bind] at hargs
    | some cities =>
        cases hadmin1 : slots .admin1 with
        | none => simp [hcities, hadmin1, bind, Except.bind] at hargs
        | some admin1 =>
            cases hcountries : slots .countries with
            | none => simp [hcities, hadmin1, hcountries, bind, Except.bind] at hargs
            | some countries =>
                cases hzips : slots .zips with
                | none => simp [hcities, hadmin1, hcountries, hzips, bind, Except.bind] at hargs
                | some zips =>
                    cases hout : slots .out with
                    | none =>
                        simp [hcities, hadmin1, hcountries, hzips, hout, bind, Except.bind]
                          at hargs
                    | some out =>
                        simp only [hcities, hadmin1, hcountries, hzips, hout, bind, Except.bind]
                          at hargs
                        obtain rfl := Except.ok.inj hargs
                        intro flag
                        cases flag with
                        | _ => assumption
  · intro hslots
    simp only [hslots, bind, Except.bind]
    rfl

/-- A command line is accepted if it is made of the five flags with their values, each once, in any
order. -/
theorem arguments_iff {args : List Text} {a : Args} :
    parseArgs args = .ok a ↔ ∃ given : List (Flag × Text), args = commandLine given ∧
      given.Perm (Flag.all.map fun flag => (flag, a.value flag)) := by
  constructor
  · intro h
    cases hslots : parseSlots (fun _ => none) args with
    | error e =>
        unfold parseArgs at h
        rw [hslots] at h
        exact absurd h (by simp [bind, Except.bind])
    | ok slots =>
        obtain ⟨given, hargs, hnodup, -, hfinal⟩ := parse_slots_iff.mp hslots
        have hvalues := (required_iff hslots).mp h
        refine ⟨given, hargs, given_perm.mp ⟨hnodup, fun flag => ?_⟩⟩
        rw [← hvalues flag, hfinal flag, Option.or_none]
  · rintro ⟨given, rfl, hperm⟩
    obtain ⟨hnodup, hvalues⟩ := given_perm.mpr hperm
    have hslots : parseSlots (fun _ => none) (commandLine given) =
        .ok fun flag => some (a.value flag) := by
      refine parse_slots_iff.mpr ⟨given, rfl, hnodup, fun _ _ => rfl, fun flag => ?_⟩
      rw [hvalues flag]
      rfl
    exact (required_iff hslots).mpr fun _ => rfl

/-! ## Rows -/

/-- `Skipped`. -/
structure Skipped where
  count : Nat := 0
  firstLines : List Nat := []
  deriving DecidableEq, Repr

def Skipped.note (s : Skipped) (lineNo : Nat) : Skipped where
  count := s.count + 1
  firstLines := if s.firstLines.length < 5 then s.firstLines ++ [lineNo] else s.firstLines

/-- `Skipped::report`. -/
def Skipped.report (s : Skipped) (what : Text) : List Text :=
  if s.count > 0 then
    ["warning: skipped ".toList ++ decimalText s.count ++ " malformed ".toList ++ what ++
      " rows (first at lines [".toList ++
      ((s.firstLines.map decimalText).intersperse ", ".toList).flatten ++ "])".toList]
  else []

/-- What a line of a dump is. -/
inductive Row (α : Type) where
  | blank
  | good (row : α)
  | malformed
  deriving Repr

def Row.ofOption {α : Type} : Option α → Row α
  | some row => .good row
  | none => .malformed

def Row.good? {α : Type} : Row α → Option α
  | .good row => some row
  | _ => none

def Row.isMalformed {α : Type} : Row α → Bool
  | .malformed => true
  | _ => false

/-- The loop over the lines of a dump, each with its index. -/
def readRows {α : Type} (read : Text → Row α) (lines : List (Text × Nat)) : List α × Skipped :=
  lines.foldl (fun (out, skipped) (line, i) =>
    match read line with
    | .blank => (out, skipped)
    | .good row => (out ++ [row], skipped)
    | .malformed => (out, skipped.note (i + 1))) ([], {})

section

variable (parseF64 : Text → Option F64)

/-- `(-90.0..=90.0).contains(&lat)` and `(-180.0..=180.0).contains(&lon)`. -/
def onEarth (lat lon : F64) : Bool := lat.within 90 && lon.within 180

/-- `parse_city`. -/
def parseCity (line : Text) : Option CityIn := do
  let f := line.splitOn '\t'
  guard (15 ≤ f.length)
  let col (i : Nat) : Text := f.getD i []
  let name := if (col 1).isEmpty then col 2 else col 1
  guard !name.isEmpty
  let asciiName := if (col 2).isEmpty then name else col 2
  let lat ← parseF64 (col 4).trim
  let lon ← parseF64 (col 5).trim
  guard (onEarth lat lon)
  let country := (col 8).trim
  guard (country.toBytes.length = 2)
  let population ← match (col 14).trim with
    | [] => some 0
    | s => (Text.parseU64 s).map fun n => min n (2 ^ 32 - 1)
  return {
    name
    asciiName
    countryIso2 := country
    admin1Code := (col 10).trim
    lat
    lon
    population := UInt32.ofNat population }

def cityRow (line : Text) : Row CityIn :=
  if line.isEmpty then .blank else .ofOption (parseCity parseF64 line)

/-- A row in `load_admin1`. -/
def admin1Row (line : Text) : Row Admin1In :=
  if line.isEmpty then .blank
  else
    match line.splitOn '\t' with
    | code :: name :: _ =>
      if code.contains '.' && !name.isEmpty then
        .good { code := Text.trim code, name := Text.trim name }
      else .malformed
    | _ => .malformed

/-- A row in `load_countries`. -/
def countryRow (line : Text) : Row CountryIn :=
  if line.isEmpty || line.startsWith ['#'] then .blank
  else
    let f := line.splitOn '\t'
    let col (i : Nat) : Text := Text.trim (f.getD i [])
    if 5 ≤ f.length ∧ (col 0).toBytes.length = 2 ∧ !(col 4).isEmpty then
      .good { iso2 := col 0, name := col 4 }
    else .malformed

/-- The columns of the gazetteer. -/
structure ZipColumns where
  geoid : Nat
  lat : Nat
  lon : Nat
  deriving DecidableEq, Repr

def ZipColumns.last (cols : ZipColumns) : Nat := max (max cols.geoid cols.lat) cols.lon

/-- `parse_zip`. -/
def parseZip (cols : ZipColumns) (line : Text) : Option ZipIn := do
  let f := line.splitOn '\t'
  guard (cols.last < f.length)
  let col (i : Nat) : Text := Text.trim (f.getD i [])
  let zip ← Text.parseU32 (col cols.geoid)
  guard (zip.toNat ≤ 99999)
  let lat ← parseF64 (col cols.lat)
  let lon ← parseF64 (col cols.lon)
  guard (onEarth lat lon)
  return { zip, lat, lon }

def zipRow (cols : ZipColumns) (line : Text) : Row ZipIn :=
  if line.trim.isEmpty then .blank else .ofOption (parseZip parseF64 cols line)

end

/-! ## The run -/

/-- Why there is no image. -/
inductive GenError where
  | message (text : Text)
  | panic
  deriving DecidableEq, Repr

/-- A part of the run: what it prints to the error stream, and what comes of it. -/
structure Logged (α : Type) where
  stderr : List Text
  result : Except GenError α

namespace Logged

variable {α β : Type}

def fail (text : Text) : Logged α := ⟨[], .error (.message text)⟩

def ofChecked : Checked α → Logged α
  | .ok a => ⟨[], .ok a⟩
  | .error _ => ⟨[], .error .panic⟩

def say (lines : List Text) : Logged Unit := ⟨lines, .ok ()⟩

protected def bind (part : Logged α) (rest : α → Logged β) : Logged β :=
  match part.result with
  | .ok a => ⟨part.stderr ++ (rest a).stderr, (rest a).result⟩
  | .error e => ⟨part.stderr, .error e⟩

instance : Monad Logged where
  pure a := ⟨[], .ok a⟩
  bind := Logged.bind

/-- What is printed before a result is printed by the parts in turn. -/
theorem bind_ok {part : Logged α} {rest : α → Logged β} {lines : List Text} {b : β}
    (h : part >>= rest = ⟨lines, .ok b⟩) :
    ∃ first a second, part = ⟨first, .ok a⟩ ∧ rest a = ⟨second, .ok b⟩ ∧
      lines = first ++ second := by
  obtain ⟨first, result⟩ := part
  cases result with
  | ok a =>
      have hlines : first ++ (rest a).stderr = lines := congrArg stderr h
      have hresult : (rest a).result = .ok b := congrArg result h
      exact ⟨first, a, (rest a).stderr, rfl, congrArg (mk (rest a).stderr) hresult, hlines.symm⟩
  | error e =>
      have hresult : (Except.error e : Except GenError β) = .ok b := congrArg result h
      simp at hresult

theorem of_checked_ok {c : Checked α} {lines : List Text} {a : α}
    (h : ofChecked c = ⟨lines, .ok a⟩) : c = .ok a ∧ lines = [] := by
  cases c with
  | ok a' =>
      obtain ⟨rfl, hresult⟩ := Logged.mk.inj h
      exact ⟨congrArg _ (Except.ok.inj hresult), rfl⟩
  | error fault => simp [ofChecked] at h

theorem pure_ok {a a' : α} {lines : List Text} (h : (pure a : Logged α) = ⟨lines, .ok a'⟩) :
    a' = a ∧ lines = [] := by
  obtain ⟨rfl, hresult⟩ := Logged.mk.inj h
  exact ⟨(Except.ok.inj hresult).symm, rfl⟩

theorem fail_ne {text : Text} {lines : List Text} {a : α} :
    (fail text : Logged α) ≠ ⟨lines, .ok a⟩ := by simp [fail]

theorem say_ok {said lines : List Text} {u : Unit} (h : say said = ⟨lines, .ok u⟩) :
    lines = said := (Logged.mk.inj h).1.symm

end Logged

/-- The files as the run meets them: what a read returns, and whether the image can be written. -/
structure Files where
  read : Text → Except Text Bytes
  written : Except Text Unit

/-- `read_lossy`. -/
def Files.readLossy (files : Files) (path : Text) : Logged Text :=
  match files.read path with
  | .ok raw => pure (fromUtf8Lossy raw)
  | .error e => .fail ("read ".toList ++ path ++ ": ".toList ++ e)

/-- What a loader does with the rows it has read. -/
def usable {α : Type} (what : String) (path : Text) (rows : List α × Skipped) :
    Logged (List α) := do
  Logged.say (rows.2.report what.toList)
  if rows.1.isEmpty then
    .fail (path ++ ": no usable ".toList ++ what.toList ++ " rows".toList)
  else pure rows.1

/-- A loader without a header row. -/
def Files.load {α : Type} (files : Files) (what : String) (read : Text → Row α) (path : Text) :
    Logged (List α) := do
  let text ← files.readLossy path
  usable what path (readRows read text.lines.zipIdx)

section

variable (parseF64 : Text → Option F64) (files : Files)

/-- `load_cities`. -/
def loadCities (path : Text) : Logged (List CityIn) := files.load "city" (cityRow parseF64) path

/-- `load_admin1`. -/
def loadAdmin1 (path : Text) : Logged (List Admin1In) := files.load "admin1" admin1Row path

/-- `load_countries`. -/
def loadCountries (path : Text) : Logged (List CountryIn) := files.load "country" countryRow path

/-- The column with a name in the header of the gazetteer. -/
def column? (header : Text) (name : String) : Option Nat :=
  ((header.splitOn '\t').map Text.trim).findIdx? fun c => Text.eqIgnoreCase c name.toList

def findColumn (path header : Text) (name : String) : Logged Nat :=
  match column? header name with
  | some i => pure i
  | none => .fail (path ++ ": header lacks column ".toList ++ name.toList)

/-- `load_zips`. -/
def loadZips (path : Text) : Logged (List ZipIn) := do
  let text ← files.readLossy path
  match text.lines.zipIdx with
  | [] => .fail (path ++ ": empty file".toList)
  | (header, _) :: lines =>
    let geoid ← findColumn path header "GEOID"
    let lat ← findColumn path header "INTPTLAT"
    let lon ← findColumn path header "INTPTLONG"
    usable "zip" path (readRows (zipRow parseF64 ⟨geoid, lat, lon⟩) lines)

/-- The cities whose country is in the dump of the countries. -/
def retained (cities : List CityIn) (countries : List CountryIn) : List CityIn :=
  let known := countries.map fun k => k.iso2.toAsciiUppercase
  cities.filter fun c => known.contains c.countryIso2.toAsciiUppercase

/-- The lengths of the sections as `print_sections` reads them from the image. -/
def sectionLengths (image : Bytes) : Checked (List UInt32) :=
  (List.range SECTION_COUNT).mapM fun i => Checked.expect (u32le image (20 + i * 8))

/-- What a run leaves: the image in the file `out`, and the sizes that it prints. -/
structure Generated where
  image : Bytes
  counts : Nat × Nat × Nat × Nat
  sections : List UInt32
  total : Nat
  deriving DecidableEq, Repr

variable [CharTables] [Degrees]

/-- `run`. -/
def run (args : Args) : Logged Generated := do
  let countries ← loadCountries files args.countries
  let admin1 ← loadAdmin1 files args.admin1
  let cities ← loadCities parseF64 files args.cities
  let zips ← loadZips parseF64 files args.zips
  let kept := retained cities countries
  Logged.say (if kept.length < cities.length then
    ["warning: dropped ".toList ++ decimalText (cities.length - kept.length) ++
      " cities with country codes absent from countryInfo".toList] else [])
  let image ← .ofChecked (encode kept admin1 countries zips)
  match files.written with
  | .error e => .fail ("write ".toList ++ args.out ++ ": ".toList ++ e)
  | .ok () =>
    let sections ← .ofChecked (sectionLengths image)
    return {
      image
      counts := (kept.length, admin1.length, countries.length, zips.length)
      sections
      total := image.length }

end

/-! ## What is read -/

/-- The tally of the lines with these numbers. -/
def Skipped.ofLines (numbers : List Nat) : Skipped where
  count := numbers.length
  firstLines := numbers.take 5

theorem Skipped.note_of_lines (numbers : List Nat) (lineNo : Nat) :
    (Skipped.ofLines numbers).note lineNo = Skipped.ofLines (numbers ++ [lineNo]) := by
  unfold note ofLines
  rw [List.length_take, List.take_append]
  by_cases hfew : numbers.length < 5
  · have hroom : [lineNo].length ≤ 5 - numbers.length := by
      show 1 ≤ 5 - numbers.length
      omega
    rw [if_pos (by omega), List.take_of_length_le hroom, List.length_append]
    rfl
  · rw [if_neg (by omega), Nat.sub_eq_zero_of_le (by omega), List.take_zero, List.append_nil,
      List.length_append]
    rfl

/-- The rows are the well-formed lines, and the tally is of the malformed ones. -/
theorem read_rows_eq {α : Type} (read : Text → Row α) (lines : List (Text × Nat)) :
    readRows read lines =
      (lines.filterMap fun (line, _) => (read line).good?,
        .ofLines ((lines.filter fun (line, _) => (read line).isMalformed).map fun (_, i) =>
          i + 1)) := by
  induction lines using List.reverseRecOn with
  | nil => rfl
  | append_singleton lines last ih =>
      obtain ⟨line, i⟩ := last
      unfold readRows at ih ⊢
      rw [List.foldl_append, ih, List.foldl_cons, List.foldl_nil, List.filterMap_append,
        List.filter_append, List.map_append]
      cases hrow : read line with
      | blank => simp [hrow, Row.good?, Row.isMalformed]
      | good row => simp [hrow, Row.good?, Row.isMalformed]
      | malformed =>
          simp only [Skipped.note_of_lines]
          simp [hrow, Row.good?, Row.isMalformed]

theorem usable_ok {α : Type} {what : String} {path : Text} {rows : List α × Skipped}
    {lines : List Text} {out : List α} (h : usable what path rows = ⟨lines, .ok out⟩) :
    out = rows.1 ∧ lines = rows.2.report what.toList := by
  obtain ⟨first, _, second, hsaid, hout, rfl⟩ := Logged.bind_ok h
  split at hout
  · exact absurd hout Logged.fail_ne
  · obtain ⟨rfl, rfl⟩ := Logged.pure_ok hout
    exact ⟨rfl, by rw [Logged.say_ok hsaid, List.append_nil]⟩

theorem read_lossy_ok {files : Files} {path text : Text} {lines : List Text}
    (h : files.readLossy path = ⟨lines, .ok text⟩) :
    ∃ raw, files.read path = .ok raw ∧ text = fromUtf8Lossy raw ∧ lines = [] := by
  unfold Files.readLossy at h
  split at h
  · next raw hraw =>
      obtain ⟨rfl, rfl⟩ := Logged.pure_ok h
      exact ⟨raw, hraw, rfl, rfl⟩
  · exact absurd h Logged.fail_ne

/-- What the lines of a dump come to: the well-formed rows, and the tally of the malformed ones.
`first` is the number of the first line. -/
def dump {α : Type} (read : Text → Row α) (first : Nat) (lines : List Text) : List α × Skipped :=
  (lines.filterMap fun line => (read line).good?,
    .ofLines (((lines.zipIdx first).filter fun (line, _) => (read line).isMalformed).map Prod.snd))

theorem read_rows_dump {α : Type} (read : Text → Row α) (first : Nat) (lines : List Text) :
    readRows read (lines.zipIdx first) = dump read (first + 1) lines := by
  rw [read_rows_eq, dump, List.zipIdx_succ, List.filter_map, List.map_map]
  congr 1
  show List.filterMap ((fun line => (read line).good?) ∘ Prod.fst) _ = _
  rw [← List.filterMap_map, List.zipIdx_map_fst]

/-- The lines of a dump. -/
def linesOf (raw : Bytes) : List Text := (fromUtf8Lossy raw).lines

theorem load_ok {α : Type} {files : Files} {what : String} {read : Text → Row α} {path : Text}
    {said : List Text} {out : List α} (h : files.load what read path = ⟨said, .ok out⟩) :
    ∃ raw, files.read path = .ok raw ∧ out = (dump read 1 (linesOf raw)).1 ∧
      said = (dump read 1 (linesOf raw)).2.report what.toList := by
  obtain ⟨first, text, second, htext, hout, rfl⟩ := Logged.bind_ok h
  obtain ⟨raw, hraw, rfl, rfl⟩ := read_lossy_ok htext
  rw [read_rows_dump] at hout
  obtain ⟨hrows, hsaid⟩ := usable_ok hout
  exact ⟨raw, hraw, hrows, hsaid⟩

/-- The columns that the header of the gazetteer names. -/
def zipColumns (header : Text) : Option ZipColumns := do
  let geoid ← column? header "GEOID"
  let lat ← column? header "INTPTLAT"
  let lon ← column? header "INTPTLONG"
  return { geoid, lat, lon }

/-- What the lines of the gazetteer come to: nothing without the columns. -/
def zipDump (parseF64 : Text → Option F64) : List Text → List ZipIn × Skipped
  | [] => ([], {})
  | header :: lines =>
    (zipColumns header).elim ([], {}) fun cols => dump (zipRow parseF64 cols) 2 lines

theorem find_column_ok {path header : Text} {name : String} {said : List Text} {i : Nat}
    (h : findColumn path header name = ⟨said, .ok i⟩) :
    column? header name = some i ∧ said = [] := by
  unfold findColumn at h
  split at h
  · next found hfound =>
      obtain ⟨rfl, rfl⟩ := Logged.pure_ok h
      exact ⟨hfound, rfl⟩
  · exact absurd h Logged.fail_ne

theorem load_zips_ok {parseF64 : Text → Option F64} {files : Files} {path : Text}
    {said : List Text} {out : List ZipIn} (h : loadZips parseF64 files path = ⟨said, .ok out⟩) :
    ∃ raw, files.read path = .ok raw ∧ out = (zipDump parseF64 (linesOf raw)).1 ∧
      said = (zipDump parseF64 (linesOf raw)).2.report "zip".toList := by
  obtain ⟨first, text, second, htext, hout, rfl⟩ := Logged.bind_ok h
  obtain ⟨raw, hraw, rfl, rfl⟩ := read_lossy_ok htext
  refine ⟨raw, hraw, ?_⟩
  unfold linesOf
  cases hlines : (fromUtf8Lossy raw).lines with
  | nil =>
      rw [hlines] at hout
      exact absurd hout Logged.fail_ne
  | cons header lines =>
      rw [hlines, List.zipIdx_cons] at hout
      -- that the columns are found prints nothing
      obtain ⟨_, geoid, _, hgeoid, hout, hfirst⟩ := Logged.bind_ok hout
      obtain ⟨_, lat, _, hlat, hout, hsecond⟩ := Logged.bind_ok hout
      obtain ⟨_, lon, _, hlon, hout, hthird⟩ := Logged.bind_ok hout
      obtain ⟨hgeoid', rfl⟩ := find_column_ok hgeoid
      obtain ⟨hlat', rfl⟩ := find_column_ok hlat
      obtain ⟨hlon', rfl⟩ := find_column_ok hlon
      have hcols : zipColumns header = some ⟨geoid, lat, lon⟩ := by
        rw [zipColumns, hgeoid', hlat', hlon']
        rfl
      rw [read_rows_dump] at hout
      obtain ⟨hrows, hsaid⟩ := usable_ok hout
      simp only [zipDump, hcols]
      refine ⟨hrows, ?_⟩
      rw [hfirst, hsecond, hthird, hsaid]
      rfl

/-! ## What is written -/

/-- Items that a loop passes over can be left out. -/
theorem fold_filter {α β : Type} {step : β → α → Checked β} {kept : α → Bool}
    (hpass : ∀ b a, kept a = false → step b a = .ok b) (items : List α) (b : β) :
    (items.filter kept).foldlM step b = items.foldlM step b := by
  induction items generalizing b with
  | nil => rfl
  | cons a rest ih =>
      cases hkept : kept a with
      | true =>
          rw [List.filter_cons_of_pos hkept, List.foldlM_cons, List.foldlM_cons]
          exact congrArg _ (funext ih)
      | false =>
          rw [List.filter_cons_of_neg (by rw [hkept]; simp), List.foldlM_cons, hpass b a hkept]
          exact ih b

theorem lookup_unknown {countries : List CountryIn} {code : Text}
    (h : (countries.map fun k => k.iso2.toAsciiUppercase).contains code = false) :
    (countryIdx countries).lookup code = none := by
  refine List.lookup_eq_none_iff.mpr fun entry hentry => ?_
  obtain ⟨⟨k, i⟩, hmem, rfl⟩ := List.mem_map.mp hentry
  have hk : k ∈ countries :=
    (List.perm_insertionSort _ countries).subset (List.fst_mem_of_mem_zipIdx hmem)
  refine bne_iff_ne.mpr fun heq => ?_
  rw [List.contains_eq_mem, decide_eq_false_iff_not] at h
  exact h (List.mem_map.mpr ⟨k, hk, heq.symm⟩)

variable [CharTables] [Degrees]

/-- Leaving out the cities of unknown countries beforehand does not change the image. -/
theorem encode_retained (cities : List CityIn) (admin1 : List Admin1In)
    (countries : List CountryIn) (zips : List ZipIn) :
    encode (retained cities countries) admin1 countries zips =
      encode cities admin1 countries zips := by
  have hpass : ∀ (pass : CityPass) (c : CityIn),
      (countries.map fun k => k.iso2.toAsciiUppercase).contains c.countryIso2.toAsciiUppercase =
        false →
      pass.encodeCity (countryIdx countries) (admin1Idx admin1) c = .ok pass := by
    intro pass c hunknown
    unfold CityPass.encodeCity
    rw [lookup_unknown hunknown]
  unfold encode
  simp only [retained, fold_filter hpass]

omit [CharTables] [Degrees] in
/-- A computation at each of some numbers yields the items of a list if it yields each of them. -/
theorem map_range_ok {α : Type} {f : Nat → Checked α} {items : List α}
    (h : ∀ i a, items[i]? = some a → f i = .ok a) :
    (List.range items.length).mapM f = .ok items := by
  induction items using List.reverseRecOn with
  | nil => rfl
  | append_singleton items last ih =>
      have hitems : (List.range items.length).mapM f = .ok items := by
        refine ih fun i a hi => h i a ?_
        rw [List.getElem?_append_left (List.getElem?_eq_some_iff.mp hi).1, hi]
      have hlast : f items.length = .ok last := h _ _ (by simp)
      rw [List.length_append, List.length_singleton, List.range_succ, List.mapM_append, hitems,
        Checked.ok_bind, List.mapM_cons, hlast]
      rfl

omit [CharTables] [Degrees] in
/-- The lengths that are printed are those of the sections. -/
theorem section_lengths_eq {sections : List Bytes} {image : Bytes}
    (h : Assembled sections image) :
    sectionLengths image = .ok (sections.map fun s => UInt32.ofNat s.length) := by
  have hcount : SECTION_COUNT = (sections.map fun s => UInt32.ofNat s.length).length := by
    rw [List.length_map, h.count]
  unfold sectionLengths
  rw [hcount]
  refine map_range_ok fun i n hi => ?_
  rw [List.getElem?_map] at hi
  obtain ⟨s, hs, rfl⟩ := Option.map_eq_some_iff.mp hi
  rw [(h.table hs).2]
  rfl

omit [CharTables] [Degrees] in
/-- The header and the lengths that are printed make up the file. -/
theorem section_lengths_total {sections : List Bytes} {image : Bytes}
    (h : Assembled sections image) :
    HEADER_LEN + ((sections.map fun s => UInt32.ofNat s.length).map UInt32.toNat).sum =
      image.length := by
  have hfit : ∀ s ∈ sections, (UInt32.ofNat s.length).toNat = s.length := by
    intro s hs
    have hle : s.length ≤ (sections.map List.length).sum :=
      List.single_le_sum (fun _ _ => Nat.zero_le _) _ (List.mem_map_of_mem hs)
    exact u32_of_nat (by have := h.short; omega)
  rw [h.length, List.map_map]
  congr 2
  exact List.map_congr_left hfit

/-! ## Runs -/

/-- What a dump with a loader comes to. -/
structure Dumps where
  countries : List CountryIn × Skipped
  admin1 : List Admin1In × Skipped
  cities : List CityIn × Skipped
  zips : List ZipIn × Skipped

/-- What the dumps hold. -/
def dumps (parseF64 : Text → Option F64) (countries admin1 cities zips : Bytes) : Dumps where
  countries := dump countryRow 1 (linesOf countries)
  admin1 := dump admin1Row 1 (linesOf admin1)
  cities := dump (cityRow parseF64) 1 (linesOf cities)
  zips := zipDump parseF64 (linesOf zips)

/-- What is printed about rows that are not in the image. -/
def Dumps.warnings (d : Dumps) : List Text :=
  let lost := d.cities.1.length - (retained d.cities.1 d.countries.1).length
  d.countries.2.report "country".toList ++ d.admin1.2.report "admin1".toList ++
    d.cities.2.report "city".toList ++ d.zips.2.report "zip".toList ++
    if 0 < lost then
      ["warning: dropped ".toList ++ decimalText lost ++
        " cities with country codes absent from countryInfo".toList]
    else []

/-- A run that comes to an end has written the image of the dumps, and said what it left out. -/
theorem run_ok {parseF64 : Text → Option F64} {files : Files} {args : Args} {said : List Text}
    {out : Generated} (h : run parseF64 files args = ⟨said, .ok out⟩) :
    ∃ countries admin1 cities zips,
      files.read args.countries = .ok countries ∧ files.read args.admin1 = .ok admin1 ∧
      files.read args.cities = .ok cities ∧ files.read args.zips = .ok zips ∧
      let d := dumps parseF64 countries admin1 cities zips
      said = d.warnings ∧
      encode d.cities.1 d.admin1.1 d.countries.1 d.zips.1 = .ok out.image ∧
      sectionLengths out.image = .ok out.sections ∧ out.total = out.image.length := by
  obtain ⟨_, _, _, hcountries, h₁, rfl⟩ := Logged.bind_ok h
  obtain ⟨_, _, _, hadmin1, h₂, rfl⟩ := Logged.bind_ok h₁
  obtain ⟨_, _, _, hcities, h₃, rfl⟩ := Logged.bind_ok h₂
  obtain ⟨_, _, _, hzips, h₄, rfl⟩ := Logged.bind_ok h₃
  obtain ⟨_, _, _, hdropped, h₅, rfl⟩ := Logged.bind_ok h₄
  obtain ⟨_, image, _, hencoded, h₆, rfl⟩ := Logged.bind_ok h₅
  obtain ⟨rawCountries, hreadCountries, rfl, rfl⟩ := load_ok hcountries
  obtain ⟨rawAdmin1, hreadAdmin1, rfl, rfl⟩ := load_ok hadmin1
  obtain ⟨rawCities, hreadCities, rfl, rfl⟩ := load_ok hcities
  obtain ⟨rawZips, hreadZips, rfl, rfl⟩ := load_zips_ok hzips
  obtain ⟨himage, rfl⟩ := Logged.of_checked_ok hencoded
  obtain rfl := Logged.say_ok hdropped
  refine ⟨rawCountries, rawAdmin1, rawCities, rawZips, hreadCountries, hreadAdmin1, hreadCities,
    hreadZips, ?_⟩
  cases hwritten : files.written with
  | error e =>
      rw [hwritten] at h₆
      exact absurd h₆ Logged.fail_ne
  | ok done =>
      rw [hwritten] at h₆
      obtain ⟨_, sections, _, hsections, h₇, rfl⟩ := Logged.bind_ok h₆
      obtain ⟨hlengths, rfl⟩ := Logged.of_checked_ok hsections
      obtain ⟨rfl, rfl⟩ := Logged.pure_ok h₇
      rw [encode_retained] at himage
      refine ⟨?_, himage, hlengths, rfl⟩
      simp only [dumps, Dumps.warnings, List.append_nil, List.append_assoc, Nat.sub_pos_iff_lt]

/-- A run that comes to an end has said what it left out of the image, and printed the sizes of its
parts. The image is loaded, and answers every query by what there is to be found for it in the
well-formed rows of the dumps, by falling population, where the cap of the search does not cut. -/
theorem generated_answers {parseF64 : Text → Option F64} {files : Files} {args : Args}
    {said : List Text} {out : Generated} (h : run parseF64 files args = ⟨said, .ok out⟩) :
    ∃ countries admin1 cities zips,
      files.read args.countries = .ok countries ∧ files.read args.admin1 = .ok admin1 ∧
      files.read args.cities = .ok cities ∧ files.read args.zips = .ok zips ∧
      let d := dumps parseF64 countries admin1 cities zips
      said = d.warnings ∧ out.total = out.image.length ∧
      HEADER_LEN + (out.sections.map UInt32.toNat).sum = out.total ∧
      ∃ db : GeoDb, (fromBytes out.image).run = .ok (.ok db) ∧
        ∀ query : Text, (matchingEntries d.cities.1 d.countries.1 query).length ≤ SCAN_CAP →
          ∃ hits : List GeoHit,
            hits.Perm (wantedHits d.cities.1 d.admin1.1 d.countries.1 d.zips.1 query) ∧
            GeoDb.Descending hits ∧ ∀ limit, db.resolve query limit = .ok (hits.take limit) := by
  obtain ⟨countries, admin1, cities, zips, hcountries, hadmin1, hcities, hzips, hsaid, hencoded,
    hlengths, htotal⟩ := run_ok h
  refine ⟨countries, admin1, cities, zips, hcountries, hadmin1, hcities, hzips, hsaid, htotal, ?_,
    ?_⟩
  · obtain ⟨passes⟩ := encode_eq_ok hencoded
    have hsections := section_lengths_eq passes.assembled
    rw [hlengths] at hsections
    rw [Except.ok.inj hsections, htotal]
    exact section_lengths_total passes.assembled
  · obtain ⟨db, hload, hqueries⟩ := resolve_wanted hencoded
    refine ⟨db, hload, fun query hcap => ?_⟩
    obtain ⟨hits, hperm, hresolve⟩ := hqueries query hcap
    refine ⟨hits, hperm, ?_, hresolve⟩
    -- all hits are what the query finds without a limit that cuts
    obtain ⟨found, hfound, -, hdescending⟩ := db.resolve_safe query hits.length
    rw [hresolve, List.take_length] at hfound
    rw [Except.ok.inj hfound]
    exact hdescending

/-- Four dumps, one of them with a malformed row. -/
def sampleFiles : Files where
  read path :=
    if path = "countries".toList then .ok (ascii "#ISO\nEC\t\t\t\tEcuador\n")
    else if path = "admin1".toList then .ok (ascii "EC.18\tPichincha\nno code\n")
    else if path = "cities".toList then
      .ok (ascii "1\tQuito\tQuito\t\t0\t0\tP\tPPLC\tEC\t\t18\t\t\t\t1399814\n")
    else if path = "zips".toList then .ok (ascii "GEOID\tINTPTLAT\tINTPTLONG \n00501\t0\t0 \n")
    else .error "not found".toList
  written := .ok ()

def sampleArgs : Args where
  cities := "cities".toList
  admin1 := "admin1".toList
  countries := "countries".toList
  zips := "zips".toList
  out := "geo.bin".toList

/-- `from_str` at what the sample holds. -/
def sampleF64 (s : Text) : Option F64 := if s = ['0'] then some (.finite 0) else none

omit [CharTables] [Degrees] in
theorem sample_runs : ∃ said out,
    @run sampleF64 sampleFiles asciiCase sourceDegrees sampleArgs = ⟨said, .ok out⟩ := by
  have hok :
      (@run sampleF64 sampleFiles asciiCase sourceDegrees sampleArgs).result.toBool = true := by
    decide +kernel
  generalize @run sampleF64 sampleFiles asciiCase sourceDegrees sampleArgs = part at hok
  obtain ⟨said, result⟩ := part
  cases result with
  | ok out => exact ⟨said, out, rfl⟩
  | error e => exact absurd hok (by simp [Except.toBool])

omit [CharTables] [Degrees] in
/-- The malformed row is reported, and the others are found. -/
theorem generated_answers_sample : ∃ said out,
    @run sampleF64 sampleFiles asciiCase sourceDegrees sampleArgs = ⟨said, .ok out⟩ ∧
      said = ["warning: skipped 1 malformed admin1 rows (first at lines [2])".toList] ∧
      ∃ db : GeoDb, (fromBytes out.image).run = .ok (.ok db) ∧ ∃ hits : List GeoHit,
        @GeoDb.resolve asciiCase db "quito, pichincha".toList 10 = .ok (hits.take 10) ∧
          hits.length = 1 := by
  obtain ⟨said, out, hrun⟩ := sample_runs
  obtain ⟨countries, admin1, cities, zips, hcountries, hadmin1, hcities, hzips, hsaid, -, -, db,
    hload, hqueries⟩ := @generated_answers asciiCase sourceDegrees _ _ _ _ _ hrun
  obtain rfl := Except.ok.inj hcountries
  obtain rfl := Except.ok.inj hadmin1
  obtain rfl := Except.ok.inj hcities
  obtain rfl := Except.ok.inj hzips
  obtain ⟨hits, hperm, -, hresolve⟩ := hqueries "quito, pichincha".toList (by decide +kernel)
  refine ⟨said, out, hrun, hsaid.trans ?_, db, hload, hits, hresolve 10, ?_⟩
  · decide +kernel
  · rw [hperm.length_eq]
    decide +kernel

end OpenNtrip.Geodb.Generate
