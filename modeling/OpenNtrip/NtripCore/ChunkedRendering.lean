import OpenNtrip.NtripCore.BodyReference

/-!
# Chunked bodies and what is wrong with them

The framing of RFC 9112 as a relation between chunks and bytes: `Renders` holds of the bytes that
frame a list of chunks, `Malformed` of those that break the framing, with the payload before that
and the error. `chunked_exact` says that the decoder decides both, for every split of the bytes.
-/

namespace OpenNtrip.Chunked

/-! ## Size lines -/

/-- The number that hexadecimal digits of either case write, continuing from `n`. -/
def hexFrom : Nat → Bytes → Option Nat
  | n, [] => some n
  | n, b :: rest => (digitValue b).bind fun digit => hexFrom (n * 16 + digit) rest

/-- The number that hexadecimal digits write. -/
def hexValue (digits : Bytes) : Option Nat := hexFrom 0 digits

/-- TAB, LF, FF, CR and the space. -/
def isBlank (b : UInt8) : Bool := b ∈ ([9, 10, 12, 13, 32] : Bytes)

/-- The size of a size line, without a carriage return, extensions and surrounding whitespace. -/
def sizeField (line : Bytes) : Bytes :=
  ((((if line.getLast? = some 13 then line.dropLast else line).takeWhile
    fun b => b != 59).dropWhile isBlank).rdropWhile isBlank)

/-- The line states a size. -/
structure HasSize (line : Bytes) (size : Nat) : Prop where
  present : sizeField line ≠ []
  value : hexValue (sizeField line) = some size
  fits : size < 2 ^ 64

/-- What is wrong with the size of a line: there is none, a character that is no digit comes before
any overflow, or the digits before any such character overflow. -/
inductive BadSize : Bytes → Text → Prop where
  | empty : BadSize [] "empty chunk size line".toList
  | character (digits : Bytes) (b : UInt8) (rest : Bytes) (n : Nat)
      (hvalue : hexValue digits = some n) (hfits : n < 2 ^ 64) (hb : digitValue b = none) :
      BadSize (digits ++ b :: rest) ("invalid chunk size character 0x".toList ++ hexByte b)
  | overflow (digits rest : Bytes) (n : Nat) (hvalue : hexValue digits = some n)
      (hlarge : 2 ^ 64 ≤ n) : BadSize (digits ++ rest) "chunk size overflows u64".toList

/-- A size line as the standard has it, of a size that a `u64` holds: hexadecimal digits, blanks,
extensions after a semicolon and the carriage return of the line end. -/
structure SizeLine (size : Nat) (line : Bytes) : Prop where
  parts : ∃ digits blanks extension cr : Bytes, line = digits ++ blanks ++ extension ++ cr ∧
    digits ≠ [] ∧ hexValue digits = some size ∧ (∀ b ∈ blanks, b = 32 ∨ b = 9) ∧
    (extension = [] ∨ extension.head? = some 59) ∧ (cr = [] ∨ cr = [CR])
  whole : LF ∉ line
  bounded : line.length ≤ 4096
  fits : size < 2 ^ 64

/-- A line of a trailer field. -/
structure TrailerLine (line : Bytes) : Prop where
  present : line ≠ [] ∧ line ≠ [CR]
  whole : LF ∉ line
  bounded : line.length ≤ 4096

/-! ## Bodies -/

/-- The bytes frame the chunks: each after its size line and before a line end, then the size line
of the terminal chunk, trailer fields and a blank line. -/
inductive Renders : List Bytes → Bytes → Prop where
  | terminal (zero : Bytes) (trailers : List Bytes) (blank : Bytes) (hzero : SizeLine 0 zero)
      (htrailers : ∀ trailer ∈ trailers, TrailerLine trailer) (hblank : isLineEnd blank = true) :
      Renders [] (zero ++ LF :: (trailers.flatMap (· ++ [LF]) ++ blank))
  | chunk (line data lineEnd : Bytes) (chunks : List Bytes) (bytes : Bytes)
      (hline : SizeLine data.length line) (hdata : data ≠ []) (hend : isLineEnd lineEnd = true)
      (hrest : Renders chunks bytes) :
      Renders (data :: chunks) (line ++ LF :: (data ++ (lineEnd ++ bytes)))

/-- Bytes that run over the bound of a framing line. -/
def OverLong (bytes : Bytes) : Prop :=
  ∃ line rest, bytes = line ++ rest ∧ LF ∉ line ∧ 4096 < line.length

/-- The trailer fields break the framing: after some of them a line is over the bound. -/
inductive MalformedTrailers : Bytes → Prop where
  | overLong (bytes : Bytes) (h : OverLong bytes) : MalformedTrailers bytes
  | trailer (line bytes : Bytes) (hline : TrailerLine line) (h : MalformedTrailers bytes) :
      MalformedTrailers (line ++ LF :: bytes)

/-- The bytes break the framing, after this payload and with this error. -/
inductive Malformed : Bytes → Bytes → Text → Prop where
  | overLong (bytes : Bytes) (h : OverLong bytes) :
      Malformed bytes [] "chunk framing line exceeds 4096 bytes".toList
  | size (line rest : Bytes) (e : Text) (hwhole : LF ∉ line) (hbounded : line.length ≤ 4096)
      (hbad : BadSize (sizeField line) e) : Malformed (line ++ LF :: rest) [] e
  | lineEnd (line data : Bytes) (cr : Bytes) (b : UInt8) (rest : Bytes) (hwhole : LF ∉ line)
      (hbounded : line.length ≤ 4096) (hsize : HasSize line data.length) (hdata : data ≠ [])
      (hbad : cr = [] ∧ b ≠ CR ∧ b ≠ LF ∨ cr = [CR] ∧ b ≠ LF) :
      Malformed (line ++ LF :: (data ++ (cr ++ b :: rest))) data
        ("expected CRLF after chunk data, got byte 0x".toList ++ hexByte b)
  | trailers (line bytes : Bytes) (hwhole : LF ∉ line) (hbounded : line.length ≤ 4096)
      (hsize : HasSize line 0) (h : MalformedTrailers bytes) :
      Malformed (line ++ LF :: bytes) [] "chunk framing line exceeds 4096 bytes".toList
  | chunk (line data lineEnd bytes payload : Bytes) (e : Text) (hwhole : LF ∉ line)
      (hbounded : line.length ≤ 4096) (hsize : HasSize line data.length) (hdata : data ≠ [])
      (hend : isLineEnd lineEnd = true) (h : Malformed bytes payload e) :
      Malformed (line ++ LF :: (data ++ (lineEnd ++ bytes))) (data ++ payload) e

/-- Feed the blocks in order, up to the first error: a decoder that failed is not fed again. -/
def Decoder.feedAll (d : Decoder) : List Bytes → Bytes × Except Text Decoder
  | [] => ([], .ok d)
  | block :: rest =>
    match d.feed block with
    | (payload, .error e) => (payload, .error e)
    | (payload, .ok d) => prepend payload (d.feedAll rest)

/-- Only the concatenation of the blocks matters. -/
theorem Decoder.feed_all_eq (d : Decoder) (blocks : List Bytes) :
    d.feedAll blocks = d.feed blocks.flatten := by
  induction blocks generalizing d with
  | nil => rw [List.flatten_nil, Decoder.feed_nil, Decoder.feedAll]
  | cons block rest ih =>
      rw [List.flatten_cons, Decoder.feed_append, Decoder.feedAll]
      obtain ⟨payload, result⟩ := d.feed block
      cases result with
      | error e => rfl
      | ok d' => exact congrArg (prepend payload) (ih d')

/-! ## Sizes -/

/-- The decoder reads the digits of either case, and nothing else, as the standard numbers them. -/
theorem hex_digit_eq (b : UInt8) : hexDigit b = digitValue b := by
  have hall : ∀ n < 256, hexDigit (UInt8.ofNat n) = digitValue (UInt8.ofNat n) := by
    decide +kernel
  have hb := hall b.toNat b.toNat_lt
  rwa [UInt8.ofNat_toNat] at hb

/-- It trims the blanks of a size line. -/
theorem is_ascii_whitespace_eq : isAsciiWhitespace = isBlank := by
  have hall : ∀ n < 256, isAsciiWhitespace (UInt8.ofNat n) = isBlank (UInt8.ofNat n) := by
    decide +kernel
  funext b
  have hb := hall b.toNat b.toNat_lt
  rwa [UInt8.ofNat_toNat] at hb

/-- Further digits make a number no smaller. -/
theorem hex_from_mono {n m : Nat} {digits : Bytes} (h : hexFrom n digits = some m) : n ≤ m := by
  induction digits generalizing n with
  | nil => exact Nat.le_of_eq (Option.some.inj h)
  | cons b rest ih =>
      rw [hexFrom] at h
      obtain ⟨digit, -, h⟩ := Option.bind_eq_some_iff.mp h
      have hle := ih h
      omega

/-- The accumulation ends with the number, if it fits. -/
theorem hex_size_ok {n size : Nat} {digits : Bytes} (hn : n < 2 ^ 64) :
    hexSize n digits = .ok size ↔ hexFrom n digits = some size ∧ size < 2 ^ 64 := by
  induction digits generalizing n with
  | nil =>
      simp only [hexSize, hexFrom, Except.ok.injEq, Option.some.injEq]
      exact ⟨fun h => ⟨h, h ▸ hn⟩, fun h => h.1⟩
  | cons b rest ih =>
      rw [hexSize, hexFrom, hex_digit_eq]
      cases hdigit : digitValue b with
      | none => simp
      | some digit =>
          simp only [Option.bind_some]
          split
          · next hfits => exact ih hfits
          · next hlarge =>
              refine iff_of_false (by simp) ?_
              rintro ⟨hvalue, hfits⟩
              have hle := hex_from_mono hvalue
              omega

/-- Digits whose number fits are taken in. -/
theorem hex_size_front {n m : Nat} {front : Bytes} (h : hexFrom n front = some m)
    (hfits : m < 2 ^ 64) (rest : Bytes) : hexSize n (front ++ rest) = hexSize m rest := by
  induction front generalizing n with
  | nil =>
      obtain rfl := Option.some.inj h
      rfl
  | cons b front ih =>
      rw [hexFrom] at h
      obtain ⟨digit, hdigit, h⟩ := Option.bind_eq_some_iff.mp h
      have hle := hex_from_mono h
      rw [List.cons_append, hexSize, hex_digit_eq, hdigit]
      simp only
      rw [if_pos (by omega), ih h]

/-- Digits whose number does not fit overflow. -/
theorem hex_size_overflow {n m : Nat} {front : Bytes} (h : hexFrom n front = some m)
    (hn : n < 2 ^ 64) (hlarge : 2 ^ 64 ≤ m) (rest : Bytes) :
    hexSize n (front ++ rest) = .error "chunk size overflows u64".toList := by
  induction front generalizing n with
  | nil =>
      obtain rfl := Option.some.inj h
      omega
  | cons b front ih =>
      rw [hexFrom] at h
      obtain ⟨digit, hdigit, h⟩ := Option.bind_eq_some_iff.mp h
      rw [List.cons_append, hexSize, hex_digit_eq, hdigit]
      simp only
      split
      · next hfits => exact ih h hfits
      · rfl

/-- What a failing accumulation has met. -/
theorem hex_size_error {n : Nat} {digits : Bytes} {e : Text} (h : hexSize n digits = .error e)
    (hn : n < 2 ^ 64) :
    (∃ front b rest m, digits = front ++ b :: rest ∧ hexFrom n front = some m ∧ m < 2 ^ 64 ∧
      digitValue b = none ∧ e = "invalid chunk size character 0x".toList ++ hexByte b) ∨
    (∃ front rest m, digits = front ++ rest ∧ hexFrom n front = some m ∧ 2 ^ 64 ≤ m ∧
      e = "chunk size overflows u64".toList) := by
  induction digits generalizing n with
  | nil => simp [hexSize] at h
  | cons b rest ih =>
      rw [hexSize, hex_digit_eq] at h
      cases hdigit : digitValue b with
      | none =>
          rw [hdigit] at h
          exact .inl ⟨[], b, rest, n, rfl, rfl, hn, hdigit, (Except.error.inj h).symm⟩
      | some digit =>
          rw [hdigit] at h
          simp only at h
          have hfrom : ∀ front, hexFrom n (b :: front) = hexFrom (n * 16 + digit) front := by
            intro front
            rw [hexFrom, hdigit, Option.bind_some]
          split at h
          · next hfits =>
              rcases ih h hfits with ⟨front, c, tail, m, rfl, hvalue, hrest⟩ |
                ⟨front, tail, m, rfl, hvalue, hrest⟩
              · exact .inl ⟨b :: front, c, tail, m, rfl, (hfrom front).trans hvalue, hrest⟩
              · exact .inr ⟨b :: front, tail, m, rfl, (hfrom front).trans hvalue, hrest⟩
          · next hlarge =>
              exact .inr ⟨[b], rest, _, rfl, hfrom [], by omega, (Except.error.inj h).symm⟩

theorem parse_size_line_eq (line : Bytes) :
    parseSizeLine line =
      if (sizeField line).isEmpty then .error "empty chunk size line".toList
      else hexSize 0 (sizeField line) := by
  rw [parseSizeLine, trimAscii, is_ascii_whitespace_eq]
  rfl

/-- A line parses to the size that it states. -/
theorem parse_size_line_ok {line : Bytes} {size : Nat} :
    parseSizeLine line = .ok size ↔ HasSize line size := by
  rw [parse_size_line_eq]
  split
  · next hempty =>
      refine iff_of_false (by simp) fun h => h.present (List.isEmpty_iff.mp hempty)
  · next hpresent =>
      rw [hex_size_ok (by omega)]
      exact ⟨fun h => ⟨fun hnil => hpresent (List.isEmpty_iff.mpr hnil), h.1, h.2⟩,
        fun h => ⟨h.value, h.fits⟩⟩

/-- And fails with what is wrong with its size. -/
theorem parse_size_line_error {line : Bytes} {e : Text} :
    parseSizeLine line = .error e ↔ BadSize (sizeField line) e := by
  rw [parse_size_line_eq]
  constructor
  · intro h
    split at h
    · next hempty =>
        rw [List.isEmpty_iff.mp hempty, ← Except.error.inj h]
        exact .empty
    · rcases hex_size_error h (by omega) with ⟨front, b, rest, m, heq, hvalue, hfits, hb, rfl⟩ |
        ⟨front, rest, m, heq, hvalue, hlarge, rfl⟩
      · rw [heq]
        exact .character front b rest m hvalue hfits hb
      · rw [heq]
        exact .overflow front rest m hvalue hlarge
  · intro h
    generalize hfield : sizeField line = field at h
    cases h with
    | empty => rfl
    | character front b rest m hvalue hfits hb =>
        rw [if_neg (by simp), hex_size_front hvalue hfits, hexSize, hex_digit_eq, hb]
    | overflow front rest m hvalue hlarge =>
        have hpresent : (front ++ rest).isEmpty = false := by
          cases front with
          | nil =>
              obtain rfl := Option.some.inj hvalue
              omega
          | cons b front => rfl
        rw [hpresent, if_neg Bool.false_ne_true, hex_size_overflow hvalue (by omega) hlarge]

/-- A hexadecimal digit is neither blank nor a semicolon nor a carriage return. -/
theorem hex_digit_plain {b : UInt8} {digit : Nat} (h : digitValue b = some digit) :
    isBlank b = false ∧ b ≠ 59 ∧ b ≠ CR := by
  have hall : ∀ n < 256, (digitValue (UInt8.ofNat n)).isSome = true →
      isBlank (UInt8.ofNat n) = false ∧ UInt8.ofNat n ≠ 59 ∧ UInt8.ofNat n ≠ CR := by
    decide +kernel
  have hb := hall b.toNat b.toNat_lt
  rw [UInt8.ofNat_toNat] at hb
  exact hb (Option.isSome_of_eq_some h)

theorem hex_from_digits {n m : Nat} {digits : Bytes} (h : hexFrom n digits = some m) :
    ∀ b ∈ digits, isBlank b = false ∧ b ≠ 59 ∧ b ≠ CR := by
  induction digits generalizing n with
  | nil => exact List.forall_mem_nil _
  | cons b rest ih =>
      rw [hexFrom] at h
      obtain ⟨digit, hdigit, h⟩ := Option.bind_eq_some_iff.mp h
      exact List.forall_mem_cons.mpr ⟨hex_digit_plain hdigit, ih h⟩

/-- What follows the size, extensions and a carriage return, is dropped. -/
theorem take_while_strip_cr {front extension cr : Bytes} (hfront : ∀ b ∈ front, b ≠ 59 ∧ b ≠ CR)
    (hextension : extension = [] ∨ extension.head? = some 59) (hcr : cr = [] ∨ cr = [CR]) :
    (stripCr (front ++ extension ++ cr)).takeWhile (fun b => b != 59) = front := by
  have hkeep : front.takeWhile (fun b => b != 59) = front := by
    rw [List.takeWhile_eq_self_iff]
    exact fun b hb => bne_iff_ne.mpr (hfront b hb).1
  have hcut : ∀ tail : Bytes, (front ++ 59 :: tail).takeWhile (fun b => b != 59) = front := by
    intro tail
    rw [List.takeWhile_append_of_pos fun b hb => bne_iff_ne.mpr (hfront b hb).1,
      List.takeWhile_cons_of_neg (by simp), List.append_nil]
  have hlast : front.getLast? ≠ some CR := fun h => (hfront CR (List.mem_of_getLast? h)).2 rfl
  have hconcat : ∀ line : Bytes, stripCr (line ++ [CR]) = line := by
    intro line
    rw [stripCr, List.getLast?_concat, if_pos rfl, List.dropLast_concat]
  cases extension with
  | nil =>
      rw [List.append_nil]
      rcases hcr with rfl | rfl
      · rw [List.append_nil, stripCr, if_neg hlast, hkeep]
      · rw [hconcat, hkeep]
  | cons c tail =>
      obtain rfl : c = 59 := by simpa using hextension
      rcases hcr with rfl | rfl
      · rw [List.append_nil, stripCr]
        split
        · next hend =>
            cases tail using List.reverseRecOn with
            | nil => simp [CR] at hend
            | append_singleton tail b =>
                rw [← List.cons_append, ← List.append_assoc, List.dropLast_concat, hcut]
        · exact hcut tail
      · rw [hconcat, hcut]

theorem trim_digits {digits blanks : Bytes} (hdigits : digits ≠ [])
    (hplain : ∀ b ∈ digits, isBlank b = false)
    (hblanks : ∀ b ∈ blanks, isBlank b = true) :
    ((digits ++ blanks).dropWhile isBlank).rdropWhile isBlank = digits := by
  have hstart : (digits ++ blanks).dropWhile isBlank = digits ++ blanks := by
    obtain ⟨b, rest, rfl⟩ := List.exists_cons_of_ne_nil hdigits
    rw [List.cons_append, List.dropWhile_cons_of_neg]
    simp [hplain b List.mem_cons_self]
  have hend : (digits ++ blanks).rdropWhile isBlank =
      digits.rdropWhile isBlank := by
    rw [List.rdropWhile, List.reverse_append, List.dropWhile_append_of_pos]
    · rfl
    · simpa using hblanks
  rw [hstart, hend, List.rdropWhile_eq_self_iff]
  intro hne
  simp [hplain _ (List.getLast_mem hne)]

theorem size_field_eq (line : Bytes) : sizeField line =
    (((stripCr line).takeWhile fun b => b != 59).dropWhile isBlank).rdropWhile isBlank := rfl

/-- A size line of the standard states its size. -/
theorem SizeLine.has_size {size : Nat} {line : Bytes} (h : SizeLine size line) :
    HasSize line size := by
  obtain ⟨digits, blanks, extension, cr, hline, hdigits, hvalue, hblanks, hextension, hcr⟩ :=
    h.parts
  have hplain := hex_from_digits hvalue
  have hfront : ∀ b ∈ digits ++ blanks, b ≠ 59 ∧ b ≠ CR := by
    intro b hb
    rcases List.mem_append.mp hb with hb | hb
    · exact (hplain b hb).2
    · rcases hblanks b hb with rfl | rfl
      · decide
      · decide
  have hspace : ∀ b ∈ blanks, isBlank b = true := by
    intro b hb
    rcases hblanks b hb with rfl | rfl
    · rfl
    · rfl
  have hfield : sizeField line = digits := by
    rw [size_field_eq, hline, take_while_strip_cr hfront hextension hcr]
    exact trim_digits hdigits (fun b hb => (hplain b hb).1) hspace
  exact ⟨by rwa [hfield], by rwa [hfield], h.fits⟩

/-! ## The decoder on a body -/

/-- A decoder that starts a framing line takes it from the input. -/
theorem Decoder.feed_fresh_line (trailers : Bool) (bytes : Bytes) :
    Decoder.feed ⟨lineState trailers, []⟩ bytes = afterLine trailers (takeLine [] bytes) := by
  cases bytes with
  | nil => rw [Decoder.feed_nil]; rfl
  | cons b tail => exact Decoder.feed_line trailers [] b tail

theorem take_line_whole {line : Bytes} (hwhole : LF ∉ line) (hbounded : line.length ≤ 4096)
    (rest : Bytes) : takeLine [] (line ++ LF :: rest) = .ok (.complete line rest) := by
  rw [takeLine, split_line_eq_some.mpr ⟨rfl, hwhole⟩, show MAX_LINE = 4096 from rfl]
  simp only [List.nil_append, if_neg (Nat.not_lt.mpr hbounded)]

/-- The lines over the bound are those that fail. -/
theorem take_line_error {bytes : Bytes} {e : Text} :
    takeLine [] bytes = .error e ↔ OverLong bytes ∧ e = lineTooLong := by
  rw [takeLine, show MAX_LINE = 4096 from rfl]
  cases hsplit : splitLine bytes with
  | none =>
      have hwhole := split_line_eq_none.mp hsplit
      simp only [List.nil_append]
      split
      · next hlong =>
          refine ⟨fun h => ⟨⟨bytes, [], by simp, hwhole, hlong⟩, (Except.error.inj h).symm⟩, ?_⟩
          rintro ⟨-, rfl⟩
          rfl
      · next hshort =>
          refine iff_of_false (by simp) ?_
          rintro ⟨⟨line, rest, rfl, -, hlong⟩, -⟩
          rw [List.length_append] at hshort
          omega
  | some pair =>
      obtain ⟨pre, after⟩ := pair
      obtain ⟨rfl, hwhole⟩ := split_line_eq_some.mp hsplit
      simp only [List.nil_append]
      split
      · next hlong =>
          refine ⟨fun h => ⟨⟨pre, _, rfl, hwhole, hlong⟩, (Except.error.inj h).symm⟩, ?_⟩
          rintro ⟨-, rfl⟩
          rfl
      · next hshort =>
          refine iff_of_false (by simp) ?_
          rintro ⟨⟨line, rest, heq, hnot, hlong⟩, -⟩
          -- a line without a line feed ends before the first one
          rcases List.append_eq_append_iff.mp heq with ⟨tail, rfl, htail⟩ | ⟨tail, rfl, -⟩
          · cases tail with
            | nil =>
                rw [List.append_nil] at hlong
                exact hshort hlong
            | cons b tail =>
                obtain ⟨rfl, -⟩ := List.cons.inj htail
                simp at hnot
          · rw [List.length_append] at hshort
            omega

theorem take_line_complete {bytes line rest : Bytes}
    (h : takeLine [] bytes = .ok (.complete line rest)) :
    bytes = line ++ LF :: rest ∧ LF ∉ line ∧ line.length ≤ 4096 := by
  rw [takeLine] at h
  cases hsplit : splitLine bytes with
  | none =>
      rw [hsplit] at h
      simp only at h
      split at h <;> simp at h
  | some pair =>
      obtain ⟨pre, after⟩ := pair
      obtain ⟨rfl, hwhole⟩ := split_line_eq_some.mp hsplit
      rw [hsplit] at h
      simp only [List.nil_append] at h
      split at h
      · simp at h
      · next hshort =>
          obtain ⟨rfl, rfl⟩ : pre = line ∧ after = rest := by simpa using h
          exact ⟨rfl, hwhole, Nat.not_lt.mp hshort⟩

/-- A size line opens its chunk, or the trailers. -/
theorem Decoder.feed_size {line : Bytes} {size : Nat} (hwhole : LF ∉ line)
    (hbounded : line.length ≤ 4096) (hsize : HasSize line size) (rest : Bytes) :
    Decoder.feed {} (line ++ LF :: rest) = Decoder.feed ⟨dataState size .trailers, []⟩ rest := by
  have hline := Decoder.feed_fresh_line false (line ++ LF :: rest)
  rw [take_line_whole hwhole hbounded] at hline
  simp only [afterLine, lineEnd, Bool.false_eq_true, if_false,
    parse_size_line_ok.mpr hsize] at hline
  exact hline

/-- The data of a chunk is payload. -/
theorem Decoder.feed_chunk_data {data : Bytes} (hdata : data ≠ []) (rest : Bytes) :
    Decoder.feed ⟨dataState data.length .trailers, []⟩ (data ++ rest) =
      prepend data (Decoder.feed ⟨.crlfAfterData false, []⟩ rest) := by
  have hpos : 0 < data.length := List.length_pos_iff.mpr hdata
  rw [dataState, dif_pos hpos, Decoder.feed_data, List.take_left, List.drop_left,
    List.length_append, Nat.sub_eq_zero_of_le (Nat.le_add_right _ _)]
  rfl

/-- After the line end the next size line is due. -/
theorem Decoder.feed_line_end {lineEnd : Bytes} (h : isLineEnd lineEnd = true) (rest : Bytes) :
    Decoder.feed ⟨.crlfAfterData false, []⟩ (lineEnd ++ rest) = Decoder.feed {} rest := by
  simp only [isLineEnd, Bool.or_eq_true, beq_iff_eq] at h
  rcases h with rfl | rfl
  · rw [List.singleton_append, Decoder.feed]
    rfl
  · rw [List.cons_append, List.singleton_append, Decoder.feed]
    show Decoder.feed ⟨.crlfAfterData true, []⟩ (LF :: rest) = _
    rw [Decoder.feed]
    rfl

/-- Anything else is an error. -/
theorem Decoder.feed_bad_end {cr : Bytes} {b : UInt8} {rest : Bytes}
    (h : cr = [] ∧ b ≠ CR ∧ b ≠ LF ∨ cr = [CR] ∧ b ≠ LF) :
    Decoder.feed ⟨.crlfAfterData false, []⟩ (cr ++ b :: rest) = ([], .error (expectedCrlf b)) := by
  rcases h with ⟨rfl, hcr, hlf⟩ | ⟨rfl, hlf⟩
  · rw [List.nil_append, Decoder.feed]
    simp only [hcr, hlf, and_false, if_false]
  · rw [List.singleton_append, Decoder.feed]
    show Decoder.feed ⟨.crlfAfterData true, []⟩ (b :: rest) = _
    rw [Decoder.feed]
    simp only [Bool.not_true, Bool.false_eq_true, false_and, if_false, hlf]

theorem blank_trailer_iff {line : Bytes} :
    blankTrailer line = true ↔ line = [] ∨ line = [CR] := by
  cases line using List.reverseRecOn with
  | nil => simp [blankTrailer]
  | append_singleton front b =>
      rw [blankTrailer, List.getLast?_concat]
      simp only [List.dropLast_concat, decide_eq_true_eq]
      constructor
      · rintro ⟨rfl, rfl⟩
        exact .inr rfl
      · rintro (h | h)
        · simp at h
        · have heq : front ++ [b] = [] ++ [CR] := h
          obtain ⟨rfl, hb⟩ := List.append_inj' heq rfl
          exact ⟨(List.cons.inj hb).1, rfl⟩

/-- A line in the trailers ends the body if it is blank. -/
theorem Decoder.feed_trailer {line : Bytes} (hwhole : LF ∉ line)
    (hbounded : line.length ≤ 4096) (rest : Bytes) :
    Decoder.feed ⟨.trailers, []⟩ (line ++ LF :: rest) =
      Decoder.feed ⟨if blankTrailer line then .done else .trailers, []⟩ rest := by
  have hline := Decoder.feed_fresh_line true (line ++ LF :: rest)
  rw [take_line_whole hwhole hbounded] at hline
  exact hline

/-- Trailer fields are skipped. -/
theorem Decoder.feed_trailer_lines {trailers : List Bytes}
    (h : ∀ trailer ∈ trailers, TrailerLine trailer) (rest : Bytes) :
    Decoder.feed ⟨.trailers, []⟩ (trailers.flatMap (· ++ [LF]) ++ rest) =
      Decoder.feed ⟨.trailers, []⟩ rest := by
  induction trailers with
  | nil => rfl
  | cons line tail ih =>
      obtain ⟨hline, htail⟩ := List.forall_mem_cons.mp h
      have hskip : blankTrailer line = false := by
        rw [Bool.eq_false_iff, ne_eq, blank_trailer_iff, not_or]
        exact hline.present
      rw [List.flatMap_cons, List.append_assoc, List.append_assoc, List.singleton_append,
        Decoder.feed_trailer hline.whole hline.bounded, hskip]
      exact ih htail

/-- The blank line ends the body, and its line feed is what does. -/
theorem Decoder.feed_blank {blank : Bytes} (h : isLineEnd blank = true) (later : Bytes) :
    Decoder.feed ⟨.trailers, []⟩ (blank ++ later) = ([], .ok ⟨.done, []⟩) ∧
      ∃ begun, blank = begun ++ [LF] ∧
        Decoder.feed ⟨.trailers, []⟩ begun = ([], .ok ⟨.trailers, begun⟩) := by
  simp only [isLineEnd, Bool.or_eq_true, beq_iff_eq] at h
  rcases h with rfl | rfl
  · refine ⟨?_, [], rfl, Decoder.feed_nil _⟩
    have hwhole : LF ∉ ([] : Bytes) := List.not_mem_nil
    exact (Decoder.feed_trailer hwhole (by decide) later).trans (Decoder.feed_done _ _)
  · refine ⟨?_, [CR], rfl, ?_⟩
    · have hwhole : LF ∉ [CR] := by decide
      exact (Decoder.feed_trailer hwhole (by decide) later).trans (Decoder.feed_done _ _)
    · exact Decoder.feed_fresh_line true [CR]

theorem prepend_append (left right : Bytes) (result : Bytes × Except Text Decoder) :
    prepend left (prepend right result) = prepend (left ++ right) result := by
  rw [prepend, prepend, prepend, List.append_assoc]

/-- Up to its blank line, the framing of chunks decodes to the chunks. -/
theorem Renders.before_blank {chunks : List Bytes} {bytes : Bytes} (h : Renders chunks bytes) :
    ∃ front blank, bytes = front ++ blank ∧ isLineEnd blank = true ∧
      ∀ rest, Decoder.feed {} (front ++ rest) =
        prepend chunks.flatten (Decoder.feed ⟨.trailers, []⟩ rest) := by
  induction h with
  | terminal zero trailers blank hzero htrailers hblank =>
      refine ⟨zero ++ LF :: trailers.flatMap (· ++ [LF]), blank, by simp, hblank, fun rest => ?_⟩
      rw [List.append_assoc, List.cons_append,
        Decoder.feed_size hzero.whole hzero.bounded hzero.has_size]
      exact Decoder.feed_trailer_lines htrailers rest
  | chunk line data lineEnd chunks bytes hline hdata hend hrest ih =>
      obtain ⟨front, blank, rfl, hblank, hfeed⟩ := ih
      refine ⟨line ++ LF :: (data ++ (lineEnd ++ front)), blank, by simp, hblank, fun rest => ?_⟩
      rw [List.append_assoc, List.cons_append, List.append_assoc, List.append_assoc,
        Decoder.feed_size hline.whole hline.bounded hline.has_size,
        Decoder.feed_chunk_data hdata, Decoder.feed_line_end hend, hfeed, prepend_append]
      rfl

/-- A framed body decodes to its chunks, and what follows it changes nothing. -/
theorem Renders.feed {chunks : List Bytes} {bytes : Bytes} (h : Renders chunks bytes)
    (later : Bytes) :
    Decoder.feed {} (bytes ++ later) = (chunks.flatten, .ok ⟨.done, []⟩) := by
  obtain ⟨front, blank, rfl, hblank, hfeed⟩ := h.before_blank
  rw [List.append_assoc, hfeed, (Decoder.feed_blank hblank later).1, prepend, List.append_nil]

/-- Before its last byte the decoder is not done, and has delivered nothing but its chunks. -/
theorem Renders.feed_before {chunks : List Bytes} {bytes rest : Bytes} (h : Renders chunks bytes)
    (hrest : rest ≠ []) {begun : Bytes} (heq : begun ++ rest = bytes) :
    ∃ payload d, Decoder.feed {} begun = (payload, .ok d) ∧ d.isDone = false ∧
      payload <+: chunks.flatten := by
  obtain ⟨front, blank, rfl, hblank, hfeed⟩ := h.before_blank
  obtain ⟨-, start, rfl, hstart⟩ := Decoder.feed_blank hblank []
  -- all but the last byte leaves the decoder in the trailers
  obtain ⟨missing, hmissing⟩ : ∃ missing, begun ++ missing = front ++ start := by
    cases rest using List.reverseRecOn with
    | nil => exact absurd rfl hrest
    | append_singleton missing b =>
        rw [← List.append_assoc, ← List.append_assoc] at heq
        exact ⟨missing, (List.append_inj' heq rfl).1⟩
  have hnear : Decoder.feed {} (begun ++ missing) =
      (chunks.flatten, .ok ⟨.trailers, start⟩) := by
    rw [hmissing, hfeed, hstart, prepend, List.append_nil]
  rw [Decoder.feed_append] at hnear
  cases hbegun : Decoder.feed {} begun with
  | mk payload result =>
      rw [hbegun] at hnear
      cases result with
      | error e => exact absurd (Prod.mk.inj hnear).2 (by simp)
      | ok d =>
          simp only [andThen, prepend] at hnear
          obtain ⟨hpayload, hlast⟩ := Prod.mk.inj hnear
          refine ⟨payload, d, rfl, ?_, ⟨_, hpayload⟩⟩
          rw [Decoder.isDone, decide_eq_false_iff_not]
          intro hdone
          obtain ⟨state, line⟩ := d
          obtain rfl : state = .done := hdone
          rw [Decoder.feed_done] at hlast
          simp at hlast

/-! ## The decoder on malformed bytes -/

/-- A decoder in the trailers fails exactly on a line over the bound. -/
theorem Decoder.feed_trailers_error {bytes payload : Bytes} {e : Text} :
    Decoder.feed ⟨.trailers, []⟩ bytes = (payload, .error e) ↔
      MalformedTrailers bytes ∧ payload = [] ∧ e = lineTooLong := by
  constructor
  · intro h
    induction hn : bytes.length using Nat.strong_induction_on generalizing bytes with
    | _ n ih =>
    subst hn
    have hfeed := Decoder.feed_fresh_line true bytes
    rw [show lineState true = .trailers from rfl, h] at hfeed
    cases hread : takeLine [] bytes with
    | error e' =>
        rw [hread] at hfeed
        obtain ⟨rfl, he⟩ := Prod.mk.inj hfeed
        obtain rfl := Except.error.inj he
        obtain ⟨hlong, rfl⟩ := take_line_error.mp hread
        exact ⟨.overLong bytes hlong, rfl, rfl⟩
    | ok read =>
        rw [hread] at hfeed
        cases read with
        | more line => exact absurd (Prod.mk.inj hfeed).2 (by simp)
        | complete line rest =>
            obtain ⟨rfl, hwhole, hbounded⟩ := take_line_complete hread
            rw [Decoder.feed_trailer hwhole hbounded] at h
            split at h
            · rw [Decoder.feed_done] at h
              exact absurd (Prod.mk.inj h).2 (by simp)
            · next hskip =>
                have hlength : rest.length < (line ++ LF :: rest).length := by
                  simp only [List.length_append, List.length_cons]
                  omega
                obtain ⟨hmalformed, hpayload, he⟩ := ih _ hlength h rfl
                rw [blank_trailer_iff, not_or] at hskip
                exact ⟨.trailer line rest ⟨hskip, hwhole, hbounded⟩ hmalformed, hpayload, he⟩
  · rintro ⟨h, rfl, rfl⟩
    induction h with
    | overLong bytes hlong =>
        have hfeed := Decoder.feed_fresh_line true bytes
        rw [take_line_error.mpr ⟨hlong, rfl⟩] at hfeed
        exact hfeed
    | trailer line bytes hline hrest ih =>
        have hskip : ¬ blankTrailer line = true := by
          rw [blank_trailer_iff, not_or]
          exact hline.present
        rw [Decoder.feed_trailer hline.whole hline.bounded, if_neg hskip]
        exact ih

/-- A decoder that fails after the data of a chunk has met no line end, or it fails later. -/
theorem Decoder.feed_after_data_error {bytes payload : Bytes} {e : Text}
    (h : Decoder.feed ⟨.crlfAfterData false, []⟩ bytes = (payload, .error e)) :
    (∃ lineEnd next, isLineEnd lineEnd = true ∧ bytes = lineEnd ++ next ∧
      Decoder.feed {} next = (payload, .error e)) ∨
    (∃ cr b next, (cr = [] ∧ b ≠ CR ∧ b ≠ LF ∨ cr = [CR] ∧ b ≠ LF) ∧
      bytes = cr ++ b :: next ∧ payload = [] ∧ e = expectedCrlf b) := by
  have hlater : ∀ lineEnd next, isLineEnd lineEnd = true → bytes = lineEnd ++ next →
      Decoder.feed {} next = (payload, .error e) := by
    rintro lineEnd next hend rfl
    rwa [Decoder.feed_line_end hend] at h
  have hnow : ∀ cr b next, (cr = [] ∧ b ≠ CR ∧ b ≠ LF ∨ cr = [CR] ∧ b ≠ LF) →
      bytes = cr ++ b :: next → payload = [] ∧ e = expectedCrlf b := by
    rintro cr b next hbad rfl
    rw [Decoder.feed_bad_end hbad] at h
    obtain ⟨rfl, he⟩ := Prod.mk.inj h
    exact ⟨rfl, (Except.error.inj he).symm⟩
  cases bytes with
  | nil => simp [Decoder.feed_nil] at h
  | cons b rest =>
      by_cases hlf : b = LF
      · subst hlf
        exact .inl ⟨[LF], rest, rfl, rfl, hlater [LF] rest rfl rfl⟩
      · by_cases hcr : b = CR
        · subst hcr
          cases rest with
          | nil =>
              rw [Decoder.feed] at h
              simp [Decoder.feed_nil] at h
          | cons c next =>
              by_cases hc : c = LF
              · subst hc
                exact .inl ⟨[CR, LF], next, rfl, rfl, hlater [CR, LF] next rfl rfl⟩
              · have hbad : ([CR] : Bytes) = [] ∧ c ≠ CR ∧ c ≠ LF ∨ [CR] = [CR] ∧ c ≠ LF :=
                  .inr ⟨rfl, hc⟩
                exact .inr ⟨[CR], c, next, hbad, rfl, hnow [CR] c next hbad rfl⟩
        · have hbad : ([] : Bytes) = [] ∧ b ≠ CR ∧ b ≠ LF ∨ [] = [CR] ∧ b ≠ LF :=
            .inl ⟨rfl, hcr, hlf⟩
          exact .inr ⟨[], b, rest, hbad, rfl, hnow [] b rest hbad rfl⟩

/-- Malformed bytes fail with their error, after their payload. -/
theorem Malformed.feed {bytes payload : Bytes} {e : Text} (h : Malformed bytes payload e) :
    Decoder.feed {} bytes = (payload, .error e) := by
  induction h with
  | overLong bytes hlong =>
      have hfeed := Decoder.feed_fresh_line false bytes
      rw [take_line_error.mpr ⟨hlong, rfl⟩] at hfeed
      exact hfeed
  | size line rest e hwhole hbounded hbad =>
      have hfeed := Decoder.feed_fresh_line false (line ++ LF :: rest)
      rw [take_line_whole hwhole hbounded] at hfeed
      simp only [afterLine, Chunked.lineEnd, Bool.false_eq_true, if_false,
        parse_size_line_error.mpr hbad] at hfeed
      exact hfeed
  | lineEnd line data cr b rest hwhole hbounded hsize hdata hbad =>
      show _ = (data, Except.error (expectedCrlf b))
      rw [Decoder.feed_size hwhole hbounded hsize, Decoder.feed_chunk_data hdata,
        Decoder.feed_bad_end hbad, prepend, List.append_nil]
  | trailers line bytes hwhole hbounded hsize htrailers =>
      rw [Decoder.feed_size hwhole hbounded hsize]
      exact Decoder.feed_trailers_error.mpr ⟨htrailers, rfl, rfl⟩
  | chunk line data lineEnd bytes payload e hwhole hbounded hsize hdata hend hrest ih =>
      rw [Decoder.feed_size hwhole hbounded hsize, Decoder.feed_chunk_data hdata,
        Decoder.feed_line_end hend, ih]
      rfl

/-- Bytes that make the decoder fail are malformed. -/
theorem malformed_of_feed {bytes payload : Bytes} {e : Text}
    (h : Decoder.feed {} bytes = (payload, .error e)) : Malformed bytes payload e := by
  induction hn : bytes.length using Nat.strong_induction_on generalizing bytes payload with
  | _ n ih =>
  subst hn
  have hfeed := Decoder.feed_fresh_line false bytes
  rw [show (⟨lineState false, []⟩ : Decoder) = {} from rfl, h] at hfeed
  cases hread : takeLine [] bytes with
  | error e' =>
      rw [hread] at hfeed
      obtain ⟨rfl, he⟩ := Prod.mk.inj hfeed
      obtain rfl := Except.error.inj he
      obtain ⟨hlong, rfl⟩ := take_line_error.mp hread
      exact .overLong bytes hlong
  | ok read =>
      rw [hread] at hfeed
      cases read with
      | more line => exact absurd (Prod.mk.inj hfeed).2 (by simp)
      | complete line rest =>
          obtain ⟨rfl, hwhole, hbounded⟩ := take_line_complete hread
          cases hparse : parseSizeLine line with
          | error e' =>
              simp only [afterLine, lineEnd, Bool.false_eq_true, if_false, hparse,
                Except.map] at hfeed
              obtain ⟨rfl, he⟩ := Prod.mk.inj hfeed
              obtain rfl := Except.error.inj he
              exact .size line rest e hwhole hbounded (parse_size_line_error.mp hparse)
          | ok size =>
              have hsize := parse_size_line_ok.mp hparse
              rw [Decoder.feed_size hwhole hbounded hsize] at h
              rcases Nat.eq_zero_or_pos size with rfl | hpos
              · obtain ⟨htrailers, rfl, rfl⟩ := Decoder.feed_trailers_error.mp h
                exact .trailers line rest hwhole hbounded hsize htrailers
              · rcases Nat.lt_or_ge rest.length size with hshort | henough
                · -- the chunk is not complete, so nothing has failed yet
                  rw [dataState, dif_pos hpos, Decoder.feed_data,
                    List.drop_eq_nil_of_le (Nat.le_of_lt hshort), Decoder.feed_nil] at h
                  exact absurd (Prod.mk.inj h).2 (by simp)
                · obtain ⟨data, after, rfl, rfl⟩ : ∃ data after, rest = data ++ after ∧
                      data.length = size :=
                    ⟨rest.take size, rest.drop size, (List.take_append_drop _ _).symm,
                      List.length_take_of_le henough⟩
                  have hdata : data ≠ [] := List.length_pos_iff.mp hpos
                  rw [Decoder.feed_chunk_data hdata] at h
                  cases hafter : Decoder.feed ⟨.crlfAfterData false, []⟩ after with
                  | mk tail result =>
                      rw [hafter] at h
                      obtain ⟨rfl, rfl⟩ := Prod.mk.inj h
                      rcases Decoder.feed_after_data_error hafter with
                        ⟨lineEnd, next, hend, rfl, hnext⟩ | ⟨cr, b, next, hbad, rfl, rfl, rfl⟩
                      · have hlength : next.length <
                            (line ++ LF :: (data ++ (lineEnd ++ next))).length := by
                          simp only [List.length_append, List.length_cons]
                          omega
                        exact .chunk line data lineEnd next tail e hwhole hbounded hsize hdata hend
                          (ih _ hlength hnext rfl)
                      · rw [List.append_nil]
                        exact .lineEnd line data cr b next hwhole hbounded hsize hdata hbad

/-- For every split of the bytes into blocks, a framed body decodes to its chunks and the bytes
after it change nothing, the decoder is done exactly from its blank line on, and it fails exactly on
malformed bytes, with their error and after their payload. -/
theorem chunked_exact :
    (∀ (chunks : List Bytes) (bytes : Bytes), Renders chunks bytes →
      (∀ (blocks : List Bytes) (later : Bytes), blocks.flatten = bytes ++ later →
        Decoder.feedAll {} blocks = (chunks.flatten, .ok ⟨.done, []⟩)) ∧
      ∀ (blocks : List Bytes) (rest : Bytes), rest ≠ [] → blocks.flatten ++ rest = bytes →
        ∃ payload d, Decoder.feedAll {} blocks = (payload, .ok d) ∧ d.isDone = false ∧
          payload <+: chunks.flatten) ∧
    ∀ (blocks : List Bytes) (payload : Bytes) (e : Text),
      Decoder.feedAll {} blocks = (payload, .error e) ↔ Malformed blocks.flatten payload e := by
  refine ⟨fun chunks bytes h => ⟨fun blocks later hsplit => ?_, fun blocks rest hrest hsplit => ?_⟩,
    fun blocks payload e => ?_⟩
  · rw [Decoder.feed_all_eq, hsplit, h.feed]
  · rw [Decoder.feed_all_eq]
    exact h.feed_before hrest hsplit
  · rw [Decoder.feed_all_eq]
    exact ⟨malformed_of_feed, Malformed.feed⟩

/-- A size line without blanks, extensions or a carriage return. -/
theorem plain_size_line {size : Nat} {digits : Bytes} (hdigits : digits ≠ [])
    (hvalue : hexValue digits = some size) (hwhole : LF ∉ digits) (hbounded : digits.length ≤ 4096)
    (hfits : size < 2 ^ 64) : SizeLine size digits where
  parts := ⟨digits, [], [], [], by simp, hdigits, hvalue, by simp, .inl rfl, .inl rfl⟩
  whole := hwhole
  bounded := hbounded
  fits := hfits

/-- A chunk of ten bytes sized in lower case with a leading zero, one of eleven bytes sized in upper
case with an extension, line ends of either kind and a trailer field. -/
theorem renders_letters : Renders [ascii "0123456789", ascii "ABCDEFGHIJK"]
    (ascii "0a\n0123456789\r\nB ;x=y\r\nABCDEFGHIJK\n00\nX: 1\r\n\r\n") := by
  have hlower : SizeLine 10 (ascii "0a") :=
    plain_size_line (by decide) (by decide) (by decide) (by decide) (by decide)
  have hupper : SizeLine 11 (ascii "B ;x=y\r") :=
    ⟨⟨ascii "B", [32], ascii ";x=y", [CR], by decide, by decide, by decide,
      fun b hb => .inl (List.mem_singleton.mp hb), by decide, by decide⟩,
      by decide, by decide, by decide⟩
  have hzero : SizeLine 0 (ascii "00") :=
    plain_size_line (by decide) (by decide) (by decide) (by decide) (by decide)
  have htrailers : ∀ trailer ∈ [ascii "X: 1\r"], TrailerLine trailer := by
    intro trailer h
    rw [List.mem_singleton.mp h]
    exact ⟨by decide, by decide, by decide⟩
  exact .chunk _ (ascii "0123456789") [CR, LF] _ _ hlower (by decide) rfl
    (.chunk _ (ascii "ABCDEFGHIJK") [LF] [] _ hupper (by decide) rfl
      (.terminal _ [ascii "X: 1\r"] [CR, LF] hzero htrailers rfl))

/-- The body fed in three blocks, with a byte behind it; cut off before its last byte; and a size
line with a letter that is no digit. -/
theorem chunked_exact_letters :
    Decoder.feedAll {} [ascii "0", ascii "a\n0123456789\r",
        ascii "\nB ;x=y\r\nABCDEFGHIJK\n00\nX: 1\r\n\r\n!"] =
      (ascii "0123456789ABCDEFGHIJK", .ok ⟨.done, []⟩) ∧
    (∃ payload d, Decoder.feedAll {} [ascii "0a\n0123456789\r\nB ;x=y\r\nABCDEFGHIJK\n",
        ascii "00\nX: 1\r\n\r"] = (payload, .ok d) ∧ d.isDone = false ∧
      payload <+: ascii "0123456789ABCDEFGHIJK") ∧
    Decoder.feedAll {} [ascii "f", ascii "G\n"] =
      ([], .error "invalid chunk size character 0x47".toList) := by
  obtain ⟨hwhole, hpart⟩ := chunked_exact.1 _ _ renders_letters
  refine ⟨hwhole _ (ascii "!") (by decide), hpart _ [LF] (by decide) (by decide), ?_⟩
  refine (chunked_exact.2 _ _ _).mpr ?_
  exact .size (ascii "fG") [] _ (by decide) (by decide)
    (.character (ascii "f") 71 [] 15 (by decide) (by decide) (by decide))

end OpenNtrip.Chunked
