import OpenNtrip.Geodb.Labels
import OpenNtrip.Geodb.ZipLookup
import OpenNtrip.Lib.Substitution
import OpenNtrip.Rust.Lowercase

/-!
# Folded names as queries

`fold` with the lowercase mapping of Unicode. The table of letters comes before the mapping, so what
the mapping makes of a character is not looked up in it. That matters for two characters, which have
a letter of the table as their lower case. `resolve_of_fold` says that a query is answered by its
folding alone, and `normal_form_iff` that a text folds to a normal form exactly if it has neither of
the two.
-/

namespace OpenNtrip.Geodb

namespace Unicode

scoped instance unicodeCase : CharTables := ⟨toLowercase⟩

end Unicode

open Unicode

/-! ## Single characters -/

/-- The sign for the unit of length, whose lower case is U+00E5. -/
def angstromSign : Char := Char.ofNat 0x212B

/-- The capital Eszett, whose lower case is U+00DF. -/
def capitalSharpS : Char := Char.ofNat 0x1E9E

/-- What a query is split at, or read by: white space, commas and digits. -/
def separates (c : Char) : Bool := isWhitespace c || c == ',' || c.isDigit

/-- Stretches of code points without letters that have another case. All that separates is in one of
them. -/
def caseless : List (Nat × Nat) :=
  [(0, 0x40), (0x7B, 0xA0), (0x1680, 0x1680), (0x2000, 0x205F), (0x3000, 0x3000)]

/-- The separators are in stretches without case. -/
theorem separates_bounds {c : Char} (h : separates c = true) :
    ∃ stretch ∈ caseless, stretch.1 ≤ c.toNat ∧ c.toNat ≤ stretch.2 := by
  have hstretch : c.toNat ≤ 0x40 ∨ (0x7B ≤ c.toNat ∧ c.toNat ≤ 0xA0) ∨ c.toNat = 0x1680 ∨
      (0x2000 ≤ c.toNat ∧ c.toNat ≤ 0x205F) ∨ c.toNat = 0x3000 := by
    simp only [separates, isWhitespace, Bool.or_eq_true, Bool.and_eq_true, decide_eq_true_eq,
      beq_iff_eq, is_digit_iff] at h
    rcases h with (hspace | rfl) | hdigit
    · omega
    · exact Or.inl (by decide)
    · omega
  rcases hstretch with h | h | h | h | h
  · exact ⟨(0, 0x40), by decide, Nat.zero_le _, h⟩
  · exact ⟨(0x7B, 0xA0), by decide, h⟩
  · exact ⟨(0x1680, 0x1680), by decide, h.ge, h.le⟩
  · exact ⟨(0x2000, 0x205F), by decide, h⟩
  · exact ⟨(0x3000, 0x3000), by decide, h.ge, h.le⟩

/-- No run of capitals touches those stretches. -/
theorem runs_caseless : (lowerRuns.all fun run =>
    caseless.all fun stretch => run.avoids stretch.1 stretch.2) = true := by
  decide

/-- Neither the capital letters nor the small letters of a run separate. -/
theorem run_not_separates {run : CaseRun} (hrun : run ∈ lowerRuns) {c : Char}
    (h : run.covers c.toNat = true) :
    separates c = false ∧ separates (Char.ofNat (run.lower c.toNat)) = false := by
  have havoids : ∀ stretch ∈ caseless, _ := fun stretch hstretch => CaseRun.avoids_spec
    (List.all_eq_true.mp (List.all_eq_true.mp runs_caseless run hrun) stretch hstretch) h
  constructor
  · rw [Bool.eq_false_iff]
    intro hseparates
    obtain ⟨stretch, hstretch, hlow, hhigh⟩ := separates_bounds hseparates
    have := (havoids stretch hstretch).1
    omega
  · rw [Bool.eq_false_iff]
    intro hseparates
    obtain ⟨stretch, hstretch, hlow, hhigh⟩ := separates_bounds hseparates
    have := (havoids stretch hstretch).2
    rw [CaseRun.scalar_spec (List.all_eq_true.mp runs_scalar run hrun) h] at hlow hhigh
    omega

/-! ### Up to the last letter of the table -/

/-- The character is not folded to nothing, what it is folded to is its own folding and separates
like the character, and what separates stays. -/
def foldsOnce (c : Char) : Bool :=
  foldChar c != [] && ((foldChar c).all fun d => foldChar d == [d] && separates d == separates c) &&
    (!separates c || foldChar c == [c])

/-- The characters below 0x180 fold once, by the table. -/
theorem folds_once_low : ((List.range 0x180).all fun n => foldsOnce (Char.ofNat n)) = true := by
  decide +kernel

/-- A character folds once if it folds to what is kept by another fold. -/
theorem folds_once_iff {c : Char} : foldsOnce c = true ↔ foldChar c ≠ [] ∧
    (∀ d ∈ foldChar c, foldChar d = [d] ∧ separates d = separates c) ∧
      (separates c = true → foldChar c = [c]) := by
  simp only [foldsOnce, Bool.and_eq_true, bne_iff_ne, List.all_eq_true, beq_iff_eq, and_assoc,
    Bool.or_eq_true, Bool.not_eq_true', ← imp_iff_not_or, Bool.eq_false_iff]

theorem folds_once_of_low {c : Char} (h : c.toNat < 0x180) : foldsOnce c = true := by
  have hlow := List.all_eq_true.mp folds_once_low c.toNat (List.mem_range.mpr h)
  rwa [Char.ofNat_toNat] at hlow

/-! ### Above the table -/

/-- The ranges of the fold are below 0x180. -/
theorem fold_ranges_low : (foldRanges.all fun range => range.2.1 < 0x180) = true := by decide

/-- From there on, folding is lowering. -/
theorem fold_char_high {c : Char} (h : 0x180 ≤ c.toNat) : foldChar c = toLowercase c := by
  have hnone : (foldRanges.find? fun range => range.1 ≤ c.toNat && c.toNat ≤ range.2.1) = none := by
    rw [List.find?_eq_none]
    intro range hrange
    have hlow := of_decide_eq_true (List.all_eq_true.mp fold_ranges_low range hrange)
    rw [Bool.and_eq_true, decide_eq_true_eq, decide_eq_true_eq]
    omega
  rw [foldChar, if_neg (by omega)]
  unfold foldNonAscii
  rw [hnone]
  rfl

/-- A capital letter above the table has its small letter above the table, but for three. -/
theorem runs_above : (lowerRuns.all fun run => run.last < 0x180 || 0x180 ≤ run.image ||
    (run.first == run.last && [0x212A, 0x212B, 0x1E9E].contains run.first)) = true := by
  decide

theorem fold_kelvin : foldsOnce (Char.ofNat 0x212A) = true := by decide

/-- A high character folds once if its lowercase is high as well. -/
theorem folds_once_of_high {c : Char} (h : 0x180 ≤ c.toNat)
    (hsmall : ∀ run ∈ lowerRuns, run.covers c.toNat = true → 0x180 ≤ run.image) :
    foldsOnce c = true := by
  have hfold := fold_char_high h
  rw [folds_once_iff, hfold]
  have hdot : c.toNat ≠ 0x130 := by omega
  rcases to_lowercase_cases hdot with ⟨run, hrun, hcovers, hlower⟩ | hstays
  · obtain ⟨hcapital, hsmall'⟩ := run_not_separates hrun hcovers
    rw [hlower]
    refine ⟨List.cons_ne_nil _ _, ?_, fun hseparates => ?_⟩
    · intro d hd
      -- the small letter is above the table too, and is its own lower case
      have hagain : toLowercase d = [d] := to_lowercase_idempotent c d (hlower ▸ hd)
      have hd' := List.mem_singleton.mp hd
      have habove : 0x180 ≤ d.toNat := by
        rw [hd', CaseRun.scalar_spec (List.all_eq_true.mp runs_scalar run hrun) hcovers]
        exact (hsmall run hrun hcovers).trans (CaseRun.lower_bounds hcovers).1
      rw [fold_char_high habove, hcapital, hd', hsmall', ← hd']
      exact ⟨hagain, rfl⟩
    · rw [hcapital] at hseparates
      exact absurd hseparates Bool.false_ne_true
  · rw [hstays]
    refine ⟨List.cons_ne_nil _ _, ?_, fun _ => rfl⟩
    intro d hd
    rw [List.mem_singleton.mp hd, hfold]
    exact ⟨hstays, rfl⟩

/-- Every character but the two is folded once. -/
theorem folds_once {c : Char} (hangstrom : c ≠ angstromSign) (hsharp : c ≠ capitalSharpS) :
    foldsOnce c = true := by
  have hnat : ∀ n : Nat, c.toNat = n → c = Char.ofNat n := by
    intro n hn
    rw [← hn, Char.ofNat_toNat]
  by_cases hlow : c.toNat < 0x180
  · exact folds_once_of_low hlow
  · by_cases hkelvin : c.toNat = 0x212A
    · rw [hnat _ hkelvin]
      exact fold_kelvin
    · refine folds_once_of_high (by omega) fun run hrun hcovers => ?_
      obtain ⟨hfirst, hlast, -⟩ := CaseRun.covers_iff.mp hcovers
      have habove := List.all_eq_true.mp runs_above run hrun
      simp only [Bool.or_eq_true, Bool.and_eq_true, decide_eq_true_eq, beq_iff_eq,
        List.contains_iff_mem, List.mem_cons, List.not_mem_nil, or_false] at habove
      rcases habove with (hbelow | habove) | ⟨hone, hthree⟩
      · omega
      · exact habove
      · rcases hthree with hthree | hthree | hthree
        · omega
        · exact absurd (hnat 0x212B (by omega)) hangstrom
        · exact absurd (hnat 0x1E9E (by omega)) hsharp

/-! ## The two characters -/

/-- The angstrom sign folds to a letter that is folded further. -/
theorem fold_angstrom : foldChar angstromSign = [Char.ofNat 0xE5] := by decide

/-- So does the capital sharp s. -/
theorem fold_sharp : foldChar capitalSharpS = [Char.ofNat 0xDF] := by decide

/-- What the two are folded to is folded again. -/
theorem not_folds_once : ∀ c ∈ [angstromSign, capitalSharpS],
    ∃ d ∈ foldChar c, foldChar d ≠ [d] := by
  intro c hc
  rcases List.mem_pair.mp hc with rfl | rfl
  · exact ⟨Char.ofNat 0xE5, by rw [fold_angstrom]; exact List.mem_cons_self, by decide⟩
  · exact ⟨Char.ofNat 0xDF, by rw [fold_sharp]; exact List.mem_cons_self, by decide⟩

/-- Folding keeps the separators, and makes none. -/
theorem keeps_separators : KeepsLetters separates foldChar := by
  -- the two characters are letters and stay letters
  have hletter : ∀ {c e}, foldChar c = [e] → separates c = false → separates e = false →
      foldChar c ≠ [] ∧ (∀ d ∈ foldChar c, separates d = separates c) ∧
        (separates c = true → foldChar c = [c]) := by
    intro c e hfold hc he
    rw [hfold, hc]
    refine ⟨List.cons_ne_nil _ _, ?_, fun h => absurd h Bool.false_ne_true⟩
    intro d hd
    rw [List.mem_singleton.mp hd, he]
  have hall : ∀ c, foldChar c ≠ [] ∧ (∀ d ∈ foldChar c, separates d = separates c) ∧
      (separates c = true → foldChar c = [c]) := by
    intro c
    by_cases hangstrom : c = angstromSign
    · rw [hangstrom]
      exact hletter fold_angstrom (by decide) (by decide)
    · by_cases hsharp : c = capitalSharpS
      · rw [hsharp]
        exact hletter fold_sharp (by decide) (by decide)
      · obtain ⟨hne, hword, hkept⟩ := folds_once_iff.mp (folds_once hangstrom hsharp)
        exact ⟨hne, fun d hd => (hword d hd).2, hkept⟩
  refine ⟨fun hc => (hall _).2.2 hc, fun _ => (hall _).1, ?_⟩
  intro c hc d hd
  rw [(hall c).2.1 d hd, hc]

/-! ## Texts -/

/-- Texts in a row are folded in a row. -/
theorem fold_append (s t : Text) : fold (s ++ t) = fold s ++ fold t := List.flatMap_append

/-- A text is trimmed before it is folded or afterwards. -/
theorem fold_trim (s : Text) : (fold s).trim = fold s.trim := by
  have hspace : KeepsLetters isWhitespace foldChar := keeps_separators.mono fun c hc => by
    simp [separates, hc]
  rw [Text.trim, Text.trimStart, Text.trimEnd, fold, hspace.drop_while, hspace.rdrop_while]
  rfl

/-- The parts between commas are folded one by one. -/
theorem fold_split (s : Text) : (fold s).splitOn ',' = (s.splitOn ',').map fold :=
  (keeps_separators.mono fun c hc => by simp [separates, hc]).split_on s

/-- Folding keeps the digits, and makes none. -/
theorem keeps_digits : KeepsLetters Char.isDigit foldChar :=
  keeps_separators.mono fun c hc => by simp [separates, hc]

/-- A text of digits stays, and no other text becomes one. -/
theorem is_zip_fold (s : Text) : isZip (fold s) = isZip s := by
  have hdigits : (fold s).all Char.isDigit = s.all Char.isDigit := keeps_digits.all_flat_map s
  rw [Bool.eq_iff_iff, is_zip_iff, is_zip_iff, ← List.all_eq_true, ← List.all_eq_true, hdigits]
  refine and_congr_left fun hall => ?_
  rw [fold, keeps_digits.all_kept hall]

/-- A ZIP code is folded already. -/
theorem fold_zip {s : Text} (h : isZip s = true) : fold s = s :=
  keeps_digits.all_kept (List.all_eq_true.mpr (is_zip_iff.mp h).2)

/-- A query is split and trimmed the same before and after it is folded. -/
theorem folded_parts_eq (s : Text) : foldedParts s = ((fold s).splitOn ',').map Text.trim := by
  rw [fold_split, foldedParts, List.map_map, List.map_map]
  exact List.map_congr_left fun part _ => (fold_trim part).symm

/-! ## Queries -/

/-- The index entries that a query is looked up in. A ZIP code and a query without a name have
none. -/
def entriesFor (index : List (Text × UInt32)) (query : Text) : List (Text × UInt32) :=
  let (name, _) := parseQuery query.trim
  if isZip query.trim || name.isEmpty then [] else examined index name

/-- The cities that answer a query are those of its entries that satisfy the qualifiers. -/
theorem resolve_entries {db : GeoDb} {refs : List CityRef} {index : List (Text × UInt32)}
    (h : Represents db refs index) {query : Text} (hzip : isZip query.trim = false) (limit : Nat) :
    db.resolve query limit = .ok
      ((((refs.filter fun ref => ((entriesFor index query).any fun e => e.2 == ref.record) &&
        (parseQuery query.trim).2.all ref.matchesQualifier).insertionSort
          fun a b => a.ranked b).take limit).map CityRef.toHit) := by
  have hparse : parseQuery query.trim =
      ((parseQuery query.trim).1, (parseQuery query.trim).2) := rfl
  rw [resolve_eq hzip hparse]
  by_cases hname : (parseQuery query.trim).1 = []
  · have hnone : entriesFor index query = [] := by
      simp [entriesFor, hname]
    have hanswer : db.resolveCities (parseQuery query.trim).1 (parseQuery query.trim).2 limit =
        .ok [] := by
      rw [hname]
      rfl
    rw [hanswer, hnone]
    simp only [List.any_nil, Bool.false_and, List.filter_false, List.insertionSort_nil,
      List.take_nil, List.map_nil]
    rfl
  · have hsome : entriesFor index query = examined index (parseQuery query.trim).1 := by
      simp [entriesFor, hname, hzip]
    rw [hsome, resolve_cities_eq h hname, Checked.ok_bind]
    rfl

section SameFolding

variable {s t : Text} (h : fold s = fold t)
include h

/-- Queries with the same fold are parsed alike. -/
theorem parse_of_fold : parseQuery s.trim = parseQuery t.trim := by
  rw [parse_query_eq, parse_query_eq, folded_parts_trim, folded_parts_trim, folded_parts_eq,
    folded_parts_eq, h]

/-- Queries with the same fold are both ZIP codes or neither is. -/
theorem is_zip_of_fold : isZip s.trim = isZip t.trim := by
  have htrim : ∀ q : Text, isZip (fold q).trim = isZip q.trim := by
    intro q
    rw [fold_trim, is_zip_fold]
  rw [← htrim s, h, htrim t]

/-- Queries that are folded to the same text look at the same index entries. -/
theorem entries_of_fold (index : List (Text × UInt32)) :
    entriesFor index s = entriesFor index t := by
  unfold entriesFor
  rw [parse_of_fold h, is_zip_of_fold h]

/-- Queries that are folded to the same text have the same answer. -/
theorem resolve_of_fold (db : GeoDb) (limit : Nat) : db.resolve s limit = db.resolve t limit := by
  have hzip := is_zip_of_fold h
  unfold GeoDb.resolve
  simp only
  rw [parse_of_fold h, hzip]
  cases hisZip : isZip t.trim with
  | false => rfl
  | true =>
      rw [hisZip] at hzip
      rw [← fold_zip hzip, ← fold_zip hisZip, ← fold_trim, ← fold_trim, h]

end SameFolding

/-! ## Normal forms -/

/-- What the folding of a text promises. -/
structure NormalForm (s : Text) : Prop where
  folded : fold (fold s) = fold s
  appended : ∀ t, fold (s ++ t) = fold s ++ fold t
  entries : ∀ index, entriesFor index (fold s) = entriesFor index s
  answers : ∀ (db : GeoDb) (limit : Nat), db.resolve (fold s) limit = db.resolve s limit

/-- No character is folded to one of the two. -/
theorem fold_char_ne (c : Char) : ∀ d ∈ foldChar c, d ≠ angstromSign ∧ d ≠ capitalSharpS := by
  intro d hd
  by_cases hangstrom : c = angstromSign
  · rw [hangstrom, fold_angstrom, List.mem_singleton] at hd
    rw [hd]
    decide
  · by_cases hsharp : c = capitalSharpS
    · rw [hsharp, fold_sharp, List.mem_singleton] at hd
      rw [hd]
      decide
    · -- what is folded once stays, and the two do not stay
      obtain ⟨-, hword, -⟩ := folds_once_iff.mp (folds_once hangstrom hsharp)
      have hstays := (hword d hd).1
      constructor
      · rintro rfl
        rw [fold_angstrom] at hstays
        revert hstays
        decide
      · rintro rfl
        rw [fold_sharp] at hstays
        revert hstays
        decide

/-- Whatever is folded to the second time stays. -/
theorem fold_fold_stays {s : Text} {d : Char} (hd : d ∈ fold (fold s)) : foldChar d = [d] := by
  obtain ⟨e, he, hde⟩ := List.mem_flatMap.mp hd
  obtain ⟨c, -, hec⟩ := List.mem_flatMap.mp he
  obtain ⟨hangstrom, hsharp⟩ := fold_char_ne c e hec
  exact ((folds_once_iff.mp (folds_once hangstrom hsharp)).2.1 d hde).1

/-- A text is folded in one go unless one of two characters is in it. -/
theorem fold_fold_iff {s : Text} :
    fold (fold s) = fold s ↔ angstromSign ∉ s ∧ capitalSharpS ∉ s := by
  constructor
  · intro hfolded
    have hnot : ∀ c ∈ [angstromSign, capitalSharpS], c ∉ s := by
      intro c hc hmem
      obtain ⟨d, hd, hagain⟩ := not_folds_once c hc
      have hfold : d ∈ fold s := List.mem_flatMap.mpr ⟨c, hmem, hd⟩
      exact hagain (fold_fold_stays (hfolded.symm ▸ hfold))
    exact ⟨hnot _ (List.mem_pair.mpr (Or.inl rfl)), hnot _ (List.mem_pair.mpr (Or.inr rfl))⟩
  · rintro ⟨hangstrom, hsharp⟩
    refine flat_map_twice fun c hc d hd => ?_
    have honce := folds_once (fun h => hangstrom (h ▸ hc)) fun h => hsharp (h ▸ hc)
    exact ((folds_once_iff.mp honce).2.1 d hd).1

/-- **Folding.** A text has a folding that is a normal form, and that as a query looks at the same
index entries and has the same answer, exactly if it has neither of the two characters. -/
theorem normal_form_iff (s : Text) : NormalForm s ↔ angstromSign ∉ s ∧ capitalSharpS ∉ s := by
  constructor
  · intro h
    exact fold_fold_iff.mp h.folded
  · intro h
    have hfolded := fold_fold_iff.mpr h
    exact ⟨hfolded, fold_append s, entries_of_fold hfolded, resolve_of_fold hfolded⟩

/-! ### Which names are looked up again -/

/-- The name that a query asks for, before it is folded. -/
def queryName (query : Text) : Text := Text.trim ((query.splitOn ',').headD [])

/-- The name of a query is the fold of its first part. -/
theorem parse_name (s : Text) : (parseQuery s.trim).1 = fold (queryName s) := by
  rw [parse_query_eq, folded_parts_trim, foldedParts, queryName]
  cases hparts : s.splitOn ',' with
  | nil => exact absurd hparts (List.splitOn_ne_nil ',' s)
  | cons part parts => rfl

/-- The first part of a folded query is the fold of the first part. -/
theorem query_name_fold (s : Text) : queryName (fold s) = fold (queryName s) := by
  rw [queryName, queryName, fold_split, ← fold_trim]
  cases hparts : s.splitOn ',' with
  | nil => exact absurd hparts (List.splitOn_ne_nil ',' s)
  | cons part parts => rfl

/-- A fold shortens no text. -/
theorem length_le_fold (s : Text) : s.length ≤ (fold s).length := by
  induction s with
  | nil => exact Nat.le_refl _
  | cons c rest ih =>
      have hword := List.length_pos_iff.mpr (keeps_separators.ne_nil c)
      rw [fold] at ih
      rw [fold, List.flatMap_cons, List.length_append, List.length_cons]
      omega

/-- A ZIP code is its own name. -/
theorem fold_name_zip {s : Text} (h : isZip s.trim = true) : fold (queryName s) = s.trim := by
  have hcomma : ',' ∉ s.trim := by
    intro hmem
    have hdigit := (is_zip_iff.mp h).2 _ hmem
    revert hdigit
    decide
  rw [← parse_name, parse_query_eq, folded_parts_single hcomma, Text.trim_trimmed s]
  exact fold_zip h

/-- The folding of a query looks at other entries exactly if the name in it has one of the two
characters. -/
theorem entries_same_iff (s : Text) :
    (∀ index, entriesFor index (fold s) = entriesFor index s) ↔
      angstromSign ∉ queryName s ∧ capitalSharpS ∉ queryName s := by
  rw [← fold_fold_iff]
  have hzip : isZip (fold s).trim = isZip s.trim := by rw [fold_trim, is_zip_fold]
  constructor
  · intro hentries
    cases hisZip : isZip s.trim with
    | true => rw [fold_name_zip hisZip, fold_zip hisZip]
    | false =>
        by_cases hempty : fold (queryName s) = []
        · rw [hempty]
          rfl
        · -- an index with the name alone: the folded name has to be how it starts
          have hindex := hentries [(fold (queryName s), 0)]
          have hlonger := length_le_fold (fold (queryName s))
          have hagain : fold (fold (queryName s)) ≠ [] := by
            have hpos := List.length_pos_iff.mpr hempty
            exact List.length_pos_iff.mp (by omega)
          simp only [entriesFor, parse_name, query_name_fold, hzip, hisZip, Bool.false_or,
            List.isEmpty_iff, hempty, hagain, if_false] at hindex
          have hself : examined [(fold (queryName s), 0)] (fold (queryName s)) =
              [(fold (queryName s), 0)] := by
            simp [examined, starts_self, SCAN_CAP]
          rw [hself] at hindex
          have hmem : (fold (queryName s), 0) ∈
              examined [(fold (queryName s), 0)] (fold (fold (queryName s))) := by
            rw [hindex]
            exact List.mem_cons_self
          have hstarts := (List.mem_filter.mp (List.mem_of_mem_take hmem)).2
          have hprefix := List.isPrefixOf_iff_prefix.mp hstarts
          exact hprefix.eq_of_length_le hlonger
  · intro hfolded index
    simp only [entriesFor, parse_name, query_name_fold, hzip, hfolded]

/-- A city whose name is the sign for the unit of length. -/
def angstromCity : CityIn :=
  { quito with name := [angstromSign], asciiName := "A".toList }

/-- The name of the city is the key of an entry, and the folded name looks at another. -/
theorem angstrom_city_entries :
    fold (fold angstromCity.name) ≠ fold angstromCity.name ∧
      entriesFor (sortIndex (indexEntries [angstromCity] [ecuador])) angstromCity.name =
        [([Char.ofNat 0xE5], 0)] ∧
      entriesFor (sortIndex (indexEntries [angstromCity] [ecuador])) (fold angstromCity.name) =
        [("a".toList, 0)] := by
  decide

end OpenNtrip.Geodb
