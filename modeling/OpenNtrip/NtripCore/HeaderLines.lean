import OpenNtrip.Lib.Register
import OpenNtrip.NtripCore.ResponseHeader
import OpenNtrip.Rust.Strings

/-!
# The lines of a response

What the lines of a response look like that the session tells apart: the first line announces a
dialect (`status_kind_iff`), a field of an HTTP header counts if it is the last of its name
(`parse_header_reads`), and a line of an ICY prelude has the shape of a field (`header_shaped_iff`).
-/

namespace OpenNtrip

/-! ## The first line -/

/-- A line starts with the words, in letters of either case and behind blanks. -/
def Announces (words : String) (line : Text) : Prop :=
  ∃ blanks written rest, line = blanks ++ written ++ rest ∧
    (∀ c ∈ blanks, isAsciiWhitespaceChar c = true) ∧ written.map Char.toUpper = words.toList

theorem to_upper_white {c : Char} (h : isAsciiWhitespaceChar c = true) : c.toUpper = c := by
  simp only [isAsciiWhitespaceChar, Bool.or_eq_true, beq_iff_eq] at h
  rcases h with (((rfl | rfl) | rfl) | rfl) | rfl
  all_goals rfl

/-- What is written in either case is no white space if the words are none. -/
theorem written_not_white {written words : Text} (hwritten : written.map Char.toUpper = words)
    (hwords : ∀ c ∈ words.head?.toList ++ words.getLast?.toList, isAsciiWhitespaceChar c = false) :
    ∀ c ∈ written.head?.toList ++ written.getLast?.toList, isAsciiWhitespaceChar c = false := by
  intro c hc
  by_contra hwhite
  rw [Bool.not_eq_false] at hwhite
  have hupper : c.toUpper ∈ words.head?.toList ++ words.getLast?.toList := by
    rw [← hwritten, List.head?_map, List.getLast?_map]
    rcases List.mem_append.mp hc with hc | hc
    · refine List.mem_append_left _ ?_
      rw [Option.mem_toList] at hc ⊢
      exact Option.mem_map_of_mem _ hc
    · refine List.mem_append_right _ ?_
      rw [Option.mem_toList] at hc ⊢
      exact Option.mem_map_of_mem _ hc
  have hnot := hwords _ hupper
  rw [to_upper_white hwhite, hwhite] at hnot
  exact absurd hnot (by simp)

/-- Trimming the end leaves what comes up to a character that is kept. -/
theorem prefix_rdrop_while {p : Char → Bool} {front : Text}
    (h : ∀ c ∈ front.getLast?.toList, p c = false) (rest : Text) :
    front <+: (front ++ rest).rdropWhile p := by
  induction rest using List.reverseRecOn with
  | nil =>
      have hself : front.rdropWhile p = front := by
        rw [List.rdropWhile_eq_self_iff]
        intro hne
        rw [h _ (by rw [List.getLast?_eq_some_getLast hne]; simp)]
        exact Bool.false_ne_true
      exact ⟨[], by rw [List.append_nil, hself]⟩
  | append_singleton rest c ih =>
      rw [← List.append_assoc, List.rdropWhile_concat]
      split
      · exact ih
      · rw [List.append_assoc]
        exact List.prefix_append _ _

/-- Words that neither start nor end with white space are announced if the trimmed line, in
capitals, starts with them. -/
theorem announces_iff {words : String} (hne : words.toList ≠ [])
    (hwords : ((words.toList.head?.toList ++ words.toList.getLast?.toList).all
      fun c => !isAsciiWhitespaceChar c) = true) {line : Text} :
    Text.startsWith (Text.toAsciiUppercase (Text.trimAscii line)) words.toList = true ↔
      Announces words line := by
  rw [Text.startsWith, List.isPrefixOf_iff_prefix, Text.toAsciiUppercase]
  constructor
  · rintro ⟨more, hmore⟩
    obtain ⟨written, tail, htrimmed, hwritten, -⟩ := List.map_eq_append_iff.mp hmore.symm
    obtain ⟨spare, hspare⟩ := List.rdropWhile_prefix isAsciiWhitespaceChar
      (line.dropWhile isAsciiWhitespaceChar)
    refine ⟨line.takeWhile isAsciiWhitespaceChar, written, tail ++ spare, ?_,
      fun c hc => List.mem_takeWhile_imp hc, hwritten⟩
    have hkept : line.dropWhile isAsciiWhitespaceChar = written ++ tail ++ spare := by
      rw [← hspare]
      exact congrArg (· ++ spare) htrimmed
    rw [List.append_assoc, ← List.append_assoc written, ← hkept,
      List.takeWhile_append_dropWhile]
  · rintro ⟨blanks, written, rest, rfl, hblanks, hwritten⟩
    have hedges := written_not_white hwritten fun c hc => by
      simpa using List.all_eq_true.mp hwords c hc
    have hstart :
        (blanks ++ written ++ rest).dropWhile isAsciiWhitespaceChar = written ++ rest := by
      rw [List.append_assoc, List.dropWhile_append_of_pos hblanks]
      cases written with
      | nil => exact absurd hwritten.symm hne
      | cons c tail =>
          rw [List.cons_append, List.dropWhile_cons_of_neg]
          rw [hedges c (by simp)]
          exact Bool.false_ne_true
    rw [Text.trimAscii, hstart, ← hwritten]
    exact (prefix_rdrop_while (fun c hc => hedges c (List.mem_append_right _ hc)) rest).map _

/-- The dialects, by the words that the first line starts with. -/
theorem status_kind_iff (line : Text) :
    (NtripSession.statusKind line = .icy ↔ Announces "ICY 200" line) ∧
      (NtripSession.statusKind line = .sourcetable ↔ Announces "SOURCETABLE 200" line) ∧
      (NtripSession.statusKind line = .http ↔ Announces "HTTP/1." line) := by
  rw [← announces_iff (by decide) (by decide), ← announces_iff (by decide) (by decide),
    ← announces_iff (by decide) (by decide), NtripSession.statusKind]
  -- the first letter tells the three apart
  generalize Text.toAsciiUppercase (Text.trimAscii line) = upper
  have hfirst : ∀ {c : Char} {words : Text}, Text.startsWith upper (c :: words) = true →
      upper.head? = some c := by
    intro c words h
    obtain ⟨rest, rfl⟩ := List.isPrefixOf_iff_prefix.mp h
    rfl
  split
  · next hicy =>
      have hhead := hfirst hicy
      refine ⟨iff_of_true rfl hicy, iff_of_false (by simp) ?_, iff_of_false (by simp) ?_⟩
      · intro h
        exact absurd (hhead.symm.trans (hfirst h)) (by decide)
      · intro h
        exact absurd (hhead.symm.trans (hfirst h)) (by decide)
  · next hicy =>
      split
      · next htable =>
          have hhead := hfirst htable
          refine ⟨iff_of_false (by simp) hicy, iff_of_true rfl htable, iff_of_false (by simp) ?_⟩
          intro h
          exact absurd (hhead.symm.trans (hfirst h)) (by decide)
      · next htable =>
          split
          · next hhttp =>
              exact ⟨iff_of_false (by simp) hicy, iff_of_false (by simp) htable,
                iff_of_true rfl hhttp⟩
          · next hhttp =>
              exact ⟨iff_of_false (by simp) hicy, iff_of_false (by simp) htable,
                iff_of_false (by simp) hhttp⟩

/-! ## Fields -/

/-- The value of a field of this name, which is compared in lower case: what follows the first
colon. Blanks around the name and the value do not count. -/
def fieldValue (name : String) (line : Text) : Option Text :=
  if ':' ∈ line ∧
      (Text.trimAscii (line.takeWhile (· ≠ ':'))).map Char.toLower = name.toList then
    some (Text.trimAscii (line.dropWhile (· ≠ ':')).tail)
  else none

theorem split_once_eq (c : Char) (s : Text) :
    Text.splitOnce c s =
      if c ∈ s then some (s.takeWhile (· ≠ c), (s.dropWhile (· ≠ c)).tail) else none := by
  induction s with
  | nil => rfl
  | cons d rest ih =>
      rw [Text.splitOnce]
      by_cases hd : d = c
      · subst hd
        simp
      · have hmem : c ∈ d :: rest ↔ c ∈ rest := by simp [Ne.symm hd]
        rw [if_neg hd, ih, List.takeWhile_cons_of_pos (by simp [hd]),
          List.dropWhile_cons_of_pos (by simp [hd])]
        simp only [hmem]
        split
        · rfl
        · rfl

/-- What a line of the header block changes: what its field says, if it is one of three. -/
theorem header_line_fields (info : HttpInfo) (line : Text) :
    (info.headerLine line).status = info.status ∧
      (info.headerLine line).contentType =
        ((fieldValue "content-type" line).map Text.toAsciiLowercase).getD info.contentType ∧
      (info.headerLine line).contentLength =
        ((fieldValue "content-length" line).map Text.parseU64).getD info.contentLength ∧
      (info.headerLine line).chunked =
        ((fieldValue "transfer-encoding" line).map fun value =>
          Text.contains (Text.toAsciiLowercase value) "chunked".toList).getD info.chunked := by
  rw [HttpInfo.headerLine, split_once_eq]
  unfold fieldValue
  by_cases hcolon : ':' ∈ line
  · simp only [hcolon, if_true, true_and, Text.toAsciiLowercase]
    obtain ⟨name, hname⟩ : ∃ name,
        (Text.trimAscii (line.takeWhile (· ≠ ':'))).map Char.toLower = name := ⟨_, rfl⟩
    simp only [hname]
    by_cases htype : name = "content-type".toList
    · have hlength : name ≠ "content-length".toList := by rw [htype]; decide
      have hencoding : name ≠ "transfer-encoding".toList := by rw [htype]; decide
      simp only [if_pos htype, if_neg hlength, if_neg hencoding]
      exact ⟨trivial, rfl, rfl, rfl⟩
    · by_cases hlength : name = "content-length".toList
      · have hencoding : name ≠ "transfer-encoding".toList := by rw [hlength]; decide
        simp only [if_neg htype, if_pos hlength, if_neg hencoding]
        exact ⟨trivial, rfl, rfl, rfl⟩
      · simp only [if_neg htype, if_neg hlength]
        split
        · exact ⟨rfl, rfl, rfl, rfl⟩
        · exact ⟨rfl, rfl, rfl, rfl⟩
  · simp [hcolon]

/-- The header block read from its lines: of the fields of a name the last one counts. -/
structure HttpInfo.Reads (info : HttpInfo) (lines : List Text) : Prop where
  status : lines.head? = some info.status
  contentType : info.contentType =
    ((lines.tail.filterMap (fieldValue "content-type")).getLast?.map
      Text.toAsciiLowercase).getD []
  contentLength : info.contentLength =
    (lines.tail.filterMap (fieldValue "content-length")).getLast?.bind Text.parseU64
  chunked : info.chunked =
    ((lines.tail.filterMap (fieldValue "transfer-encoding")).getLast?.map fun value =>
      Text.contains (Text.toAsciiLowercase value) "chunked".toList).getD false

/-- The last field of a name, with its value converted. -/
theorem last_field {ρ : Type} (name : String) (convert : Text → ρ) (lines : List Text) :
    (lines.filterMap fun line => (fieldValue name line).map convert).getLast? =
      (lines.filterMap (fieldValue name)).getLast?.map convert := by
  rw [← List.getLast?_map, List.map_filterMap]

theorem fold_reads (status : Text) (lines : List Text) :
    (lines.foldl HttpInfo.headerLine { status }).Reads (status :: lines) where
  status := by
    let never : Text → Option Text := fun _ => none
    have hkept : ∀ info line, (HttpInfo.headerLine info line).status =
        (never line).getD info.status := fun info line => (header_line_fields info line).1
    rw [Register.last_set HttpInfo.status hkept]
    simp [never]
  contentType := by
    have htype := Register.last_set HttpInfo.contentType
      (fun info line => (header_line_fields info line).2.1) { status } lines
    rw [htype, last_field]
    rfl
  contentLength := by
    have hlength := Register.last_set HttpInfo.contentLength
      (fun info line => (header_line_fields info line).2.2.1) { status } lines
    rw [hlength, last_field, List.tail_cons]
    cases (lines.filterMap (fieldValue "content-length")).getLast? with
    | none => rfl
    | some value => rfl
  chunked := by
    have hchunked := Register.last_set HttpInfo.chunked
      (fun info line => (header_line_fields info line).2.2.2) { status } lines
    rw [hchunked, last_field]
    rfl

/-- A block that is complete is its lines, one after the other. -/
theorem parse_block_fold {info info' : HttpInfo} {bytes : Bytes}
    (h : (parseBlock info bytes).outcome = .complete (.http info')) :
    info' = (parseBlock info bytes).lines.foldl HttpInfo.headerLine info := by
  fun_induction parseBlock info bytes with
  | case1 info bytes hsplit => simp at h
  | case2 info bytes raw rest hsplit hblank =>
      simpa using h.symm
  | case3 info bytes raw rest hsplit hblank ih => exact ih h

/-- The header of an HTTP response is read from the lines that are shown of it. -/
theorem parse_header_reads {bytes : Bytes} {info : HttpInfo}
    (h : (parseHeader bytes).outcome = .complete (.http info)) :
    info.Reads (parseHeader bytes).lines := by
  unfold parseHeader at h ⊢
  cases hsplit : splitLine bytes with
  | none => simp [hsplit] at h
  | some pair =>
      obtain ⟨raw, rest⟩ := pair
      simp only [hsplit] at h ⊢
      cases hkind : NtripSession.statusKind (lineText raw) with
      | icy => simp [hkind] at h
      | sourcetable => simp [hkind] at h
      | unknown => simp [hkind] at h
      | http =>
          simp only [hkind, ParsedHeader.after] at h ⊢
          rw [parse_block_fold h]
          exact fold_reads _ _

/-! ## Prelude lines -/

/-- The characters of a field name. -/
def nameBytes : Bytes :=
  ascii "!#$%&'*+-.^_\x60|~0123456789ABCDEFGHIJKLMNOPQRSTUVWXYZabcdefghijklmnopqrstuvwxyz"

theorem is_tchar_iff (b : UInt8) : isTchar b = true ↔ b ∈ nameBytes := by
  have hall : ∀ n < 256, isTchar (UInt8.ofNat n) = true ↔ UInt8.ofNat n ∈ nameBytes := by
    decide +kernel
  have hb := hall b.toNat b.toNat_lt
  rwa [UInt8.ofNat_toNat] at hb

/-- A line has the shape of a field: a name, and a colon right behind it. -/
theorem header_shaped_iff {txt : Bytes} :
    headerShaped txt = true ↔ ∃ name value, txt = name ++ 58 :: value ∧ name ≠ [] ∧
      ∀ b ∈ name, b ∈ nameBytes := by
  simp only [headerShaped, Bool.and_eq_true, decide_eq_true_eq, List.all_eq_true, is_tchar_iff]
  constructor
  · rintro ⟨⟨hlt, hpos⟩, hname⟩
    refine ⟨txt.takeWhile (· != 58), (txt.dropWhile (· != 58)).tail, ?_,
      List.length_pos_iff.mp hpos, hname⟩
    have hsplit := List.takeWhile_append_dropWhile (p := (· != 58)) (l := txt)
    cases hrest : txt.dropWhile (· != 58) with
    | nil =>
        rw [hrest, List.append_nil] at hsplit
        rw [hsplit] at hlt
        exact absurd hlt (Nat.lt_irrefl _)
    | cons b value =>
        have hb : (b != 58) = false := by
          have hhead := List.head?_dropWhile_not (· != 58) txt
          rw [hrest] at hhead
          simpa using hhead
        obtain rfl : b = 58 := by simpa using hb
        rw [List.tail_cons, ← hrest, hsplit]
  · rintro ⟨name, value, rfl, hne, hname⟩
    have hkeep : ∀ b ∈ name, (b != 58) = true := by
      intro b hb
      rw [bne_iff_ne]
      rintro rfl
      exact absurd (hname 58 hb) (by decide)
    have htake : (name ++ 58 :: value).takeWhile (· != 58) = name := by
      rw [List.takeWhile_append_of_pos hkeep, List.takeWhile_cons_of_neg (by simp),
        List.append_nil]
    rw [htake]
    refine ⟨⟨?_, List.length_pos_iff.mpr hne⟩, hname⟩
    simp only [List.length_append, List.length_cons]
    omega

end OpenNtrip
