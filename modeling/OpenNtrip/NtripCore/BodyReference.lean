import OpenNtrip.NtripCore.BodySplit

/-!
# What a body should yield

Two reference readings of a whole body, written without buffers or feeds: `stripPrelude` takes
the header lines an ICY caster may send off the front of the corrections, `dechunk` reads
HTTP chunked framing. `consume_prelude_reference` and `feed_reference` say that the scanner
and the decoder compute them.
-/

namespace OpenNtrip

/-! ## The ICY prelude -/

/-- Printable ASCII or TAB. -/
def isPreludeChar (b : UInt8) : Bool := b == 9 || (0x20 ≤ b && b ≤ 0x7e)

/-- A line, with its optional carriage return, that may stand in the prelude. -/
def isPreludeLine (raw : Bytes) : Bool :=
  (stripCr raw).all isPreludeChar && (stripCr raw).length ≤ PRELUDE_LINE_CAP

/-- A body without its prelude: the corrections, the header lines removed, and a partial line that
is still undecided. -/
structure Stripped where
  payload : Bytes
  removed : List Bytes
  held : Bytes
  deriving DecidableEq, Repr

/-- Remove the leading run of at most `budget` header lines, with the blank line that may end it. -/
def stripPrelude (budget : Nat) (bytes : Bytes) : Stripped :=
  match _h : splitLine bytes with
  | none => if isPreludeLine bytes then ⟨[], [], bytes⟩ else ⟨bytes, [], []⟩
  | some (raw, rest) =>
    if (stripCr raw).isEmpty then ⟨rest, [], []⟩
    else if 0 < budget ∧ isPreludeLine raw ∧ headerShaped (stripCr raw) then
      let later := stripPrelude (budget - 1) rest
      { later with removed := stripCr raw :: later.removed }
    else ⟨bytes, [], []⟩
termination_by bytes.length
decreasing_by
  have := split_line_length ‹_›
  omega

/-- One line of the reference. -/
theorem strip_prelude_line (budget : Nat) {bytes raw rest : Bytes}
    (h : splitLine bytes = some (raw, rest)) :
    stripPrelude budget bytes =
      if (stripCr raw).isEmpty then ⟨rest, [], []⟩
      else if 0 < budget ∧ isPreludeLine raw ∧ headerShaped (stripCr raw) then
        { stripPrelude (budget - 1) rest with
          removed := stripCr raw :: (stripPrelude (budget - 1) rest).removed }
      else ⟨bytes, [], []⟩ := by
  rw [stripPrelude]
  split
  · next hnone => simp [h] at hnone
  · next hsome =>
      rw [h] at hsome
      obtain ⟨rfl, rfl⟩ := Prod.mk.inj (Option.some.inj hsome)
      rfl

theorem strip_prelude_open (budget : Nat) {bytes : Bytes} (h : splitLine bytes = none) :
    stripPrelude budget bytes =
      if isPreludeLine bytes then ⟨[], [], bytes⟩ else ⟨bytes, [], []⟩ := by
  rw [stripPrelude]
  split
  · rfl
  · next hsome => simp [h] at hsome

/-! ### Partial lines -/

/-- A carriage return is stripped from the end of the line only. -/
theorem strip_cr_append (front : Bytes) {back : Bytes} (h : back ≠ []) :
    stripCr (front ++ back) = front ++ stripCr back := by
  unfold stripCr
  rw [List.getLast?_append_of_ne_nil _ h]
  split
  · rw [List.dropLast_append_of_ne_nil h]
  · rfl

theorem strip_cr_cons {b : UInt8} (h : b ≠ CR) (rest : Bytes) :
    stripCr (b :: rest) = b :: stripCr rest := by
  cases rest with
  | nil => simp [stripCr, h]
  | cons c rest => exact strip_cr_append [b] (List.cons_ne_nil c rest)

/-- What makes a byte break a line, other than a line feed. -/
theorem breaks_line_iff {line : Bytes} {b : UInt8} (hb : b ≠ LF) :
    breaksLine line b = true ↔
      line.getLast? = some CR ∨
        b ≠ CR ∧ (isPreludeChar b = false ∨ PRELUDE_LINE_CAP ≤ line.length) := by
  unfold breaksLine
  rw [if_neg hb]
  by_cases hlast : line.getLast? = some CR
  · simp [hlast]
  · by_cases hcr : b = CR
    · simp [hcr, hlast]
    · rw [if_neg hlast, if_neg hcr]
      simp only [isPreludeChar, Bool.or_eq_true, Bool.not_eq_true', decide_eq_true_eq, hlast, hcr,
        false_or, ne_eq, not_false_eq_true, true_and]

/-- A byte that breaks the partial line keeps every line that starts so out of the prelude. -/
theorem breaks_line_reject {line : Bytes} {b : UInt8} (hb : b ≠ LF)
    (hbreak : breaksLine line b = true) (tail : Bytes) :
    isPreludeLine (line ++ b :: tail) = false := by
  unfold isPreludeLine
  rw [Bool.and_eq_false_iff, strip_cr_append line (List.cons_ne_nil b tail)]
  rcases (breaks_line_iff hb).mp hbreak with hlast | ⟨hcr, hchar | hlong⟩
  · left
    have hmem : CR ∈ line ++ stripCr (b :: tail) :=
      List.mem_append_left _ (List.mem_of_getLast? hlast)
    exact List.all_eq_false.mpr ⟨CR, hmem, by decide⟩
  · left
    rw [strip_cr_cons hcr]
    exact List.all_eq_false.mpr ⟨b, by simp, by simp [hchar]⟩
  · right
    rw [strip_cr_cons hcr, decide_eq_false_iff_not, List.length_append, List.length_cons]
    omega

/-- A byte that does not break a partial line continues it. -/
theorem breaks_line_accept {line : Bytes} {b : UInt8} (hline : isPreludeLine line = true)
    (hb : b ≠ LF) (hbreak : breaksLine line b = false) : isPreludeLine (line ++ [b]) = true := by
  have hnot := (not_congr (breaks_line_iff hb)).mp (Bool.eq_false_iff.mp hbreak)
  obtain ⟨hlast, hnext⟩ := not_or.mp hnot
  have hstrip : stripCr line = line := if_neg hlast
  unfold isPreludeLine at hline ⊢
  rw [hstrip, Bool.and_eq_true, decide_eq_true_eq] at hline
  rw [strip_cr_append line (List.cons_ne_nil b []), Bool.and_eq_true, decide_eq_true_eq]
  by_cases hcr : b = CR
  · subst hcr
    simpa [stripCr] using hline
  · obtain ⟨hchar, hshort⟩ := not_or.mp (not_and.mp hnext hcr)
    rw [strip_cr_cons hcr]
    refine ⟨?_, ?_⟩
    · simpa [stripCr, hline.1] using hchar
    · show (line ++ [b]).length ≤ PRELUDE_LINE_CAP
      rw [List.length_append, List.length_singleton]
      omega

/-- A blank line is a prelude line. -/
theorem is_prelude_line_of_blank {raw : Bytes} (h : (stripCr raw).isEmpty = true) :
    isPreludeLine raw = true := by
  rw [List.isEmpty_iff] at h
  simp [isPreludeLine, h]

/-- Bytes whose first line is broken are all payload. -/
theorem strip_prelude_reject (budget : Nat) {line : Bytes} {b : UInt8} (hnot : LF ∉ line)
    (hb : b ≠ LF) (hbreak : breaksLine line b = true) (rest : Bytes) :
    stripPrelude budget (line ++ b :: rest) = ⟨line ++ b :: rest, [], []⟩ := by
  have hreject := breaks_line_reject hb hbreak
  have hopen : splitLine (line ++ [b]) = none :=
    split_line_eq_none.mpr (by simp [hnot, Ne.symm hb])
  have hsplit := split_line_append_of_none hopen rest
  rw [List.append_assoc, List.singleton_append] at hsplit
  cases hrest : splitLine rest with
  | none =>
      rw [hrest] at hsplit
      rw [strip_prelude_open budget hsplit, hreject rest]
      rfl
  | some pair =>
      obtain ⟨tail, after⟩ := pair
      rw [hrest] at hsplit
      have hraw : isPreludeLine (line ++ [b] ++ tail) = false := by
        rw [List.append_assoc]
        exact hreject tail
      rw [strip_prelude_line budget hsplit]
      split
      · next hblank => rw [is_prelude_line_of_blank hblank] at hraw; simp at hraw
      · rw [hraw]
        simp

/-- A frame's preamble is no prelude character: nothing is removed in front of it. -/
theorem strip_prelude_preamble (budget : Nat) (rest : Bytes) :
    stripPrelude budget (0xD3 :: rest) = ⟨0xD3 :: rest, [], []⟩ := by
  have hbreak : breaksLine [] 0xD3 = true := by decide
  exact strip_prelude_reject budget List.not_mem_nil (by decide) hbreak rest

/-- A line held back or removed is made of prelude characters, up to a carriage return at its end.
-/
theorem strip_prelude_lines (budget : Nat) (bytes : Bytes) :
    isPreludeLine (stripPrelude budget bytes).held = true ∧
      ∀ raw ∈ (stripPrelude budget bytes).removed, raw.all isPreludeChar = true := by
  fun_induction stripPrelude budget bytes with
  | case1 budget bytes hsplit hline => exact ⟨hline, by simp⟩
  | case2 budget bytes hsplit hline => exact ⟨rfl, by simp⟩
  | case3 budget bytes raw rest hsplit hblank => exact ⟨rfl, by simp⟩
  | case4 budget bytes raw rest hsplit hblank hheader later ih =>
      refine ⟨ih.1, ?_⟩
      intro line hmem
      rcases List.mem_cons.mp hmem with rfl | hmem
      · obtain ⟨-, hline, -⟩ := hheader
        exact (Bool.and_eq_true _ _ ▸ hline : _ ∧ _).1
      · exact ih.2 line hmem
  | case5 budget bytes raw rest hsplit hblank hheader => exact ⟨rfl, by simp⟩

/-- What a prelude line may end with. -/
def isLineEnd (lineEnd : Bytes) : Bool := lineEnd == [LF] || lineEnd == [CR, LF]

/-- A completed line is its text and its line end. -/
theorem strip_cr_line_end (raw : Bytes) :
    ∃ lineEnd, isLineEnd lineEnd = true ∧ raw ++ [LF] = stripCr raw ++ lineEnd := by
  unfold stripCr
  split
  · next hlast =>
      obtain ⟨front, rfl⟩ := List.getLast?_eq_some_iff.mp hlast
      exact ⟨[CR, LF], rfl, by simp⟩
  · exact ⟨[LF], rfl, rfl⟩

/-- A removed line has the shape of a header field, and is not over the bound. -/
theorem strip_prelude_shaped {budget : Nat} {bytes raw : Bytes}
    (h : raw ∈ (stripPrelude budget bytes).removed) :
    headerShaped raw = true ∧ raw.length ≤ PRELUDE_LINE_CAP := by
  fun_induction stripPrelude budget bytes with
  | case1 budget bytes hsplit hline => exact absurd h List.not_mem_nil
  | case2 budget bytes hsplit hline => exact absurd h List.not_mem_nil
  | case3 budget bytes line rest hsplit hblank => exact absurd h List.not_mem_nil
  | case4 budget bytes line rest hsplit hblank hheader later ih =>
      rcases List.mem_cons.mp h with rfl | hmem
      · obtain ⟨-, hline, hshaped⟩ := hheader
        rw [isPreludeLine, Bool.and_eq_true, decide_eq_true_eq] at hline
        exact ⟨hshaped, hline.2⟩
      · exact ih hmem
  | case5 budget bytes line rest hsplit hblank hheader => exact absurd h List.not_mem_nil

/-- Nothing is lost or doubled: the body is the removed lines with their line ends, at most one
blank line, the payload and the bytes held back. No more lines are removed than the budget allows.
-/
theorem strip_prelude_decompose (budget : Nat) (bytes : Bytes) :
    ∃ ends blank, ends.length = (stripPrelude budget bytes).removed.length ∧
      (∀ lineEnd ∈ ends, isLineEnd lineEnd = true) ∧ (blank = [] ∨ isLineEnd blank = true) ∧
      bytes = (List.zipWith (· ++ ·) (stripPrelude budget bytes).removed ends).flatten ++ blank ++
        (stripPrelude budget bytes).payload ++ (stripPrelude budget bytes).held ∧
      (stripPrelude budget bytes).removed.length ≤ budget := by
  fun_induction stripPrelude budget bytes with
  | case1 budget bytes hsplit hline => exact ⟨[], [], rfl, by simp, .inl rfl, by simp, by simp⟩
  | case2 budget bytes hsplit hline => exact ⟨[], [], rfl, by simp, .inl rfl, by simp, by simp⟩
  | case3 budget bytes raw rest hsplit hblank =>
      obtain ⟨lineEnd, hend, hraw⟩ := strip_cr_line_end raw
      obtain ⟨rfl, -⟩ := split_line_eq_some.mp hsplit
      rw [List.isEmpty_iff] at hblank
      rw [hblank, List.nil_append] at hraw
      refine ⟨[], lineEnd, rfl, by simp, .inr hend, ?_, by simp⟩
      simp [← hraw]
  | case4 budget bytes raw rest hsplit hblank hheader later ih =>
      obtain ⟨ends, blank, hlength, hends, hblank', hbytes, hbudget⟩ := ih
      obtain ⟨lineEnd, hend, hraw⟩ := strip_cr_line_end raw
      obtain ⟨rfl, -⟩ := split_line_eq_some.mp hsplit
      refine ⟨lineEnd :: ends, blank, by simp [later, hlength], ?_, hblank', ?_, ?_⟩
      · intro other hmem
        rcases List.mem_cons.mp hmem with rfl | hmem
        · exact hend
        · exact hends other hmem
      · have hfront : raw ++ LF :: rest = stripCr raw ++ lineEnd ++ rest := by
          rw [← hraw]
          simp
        rw [hfront]
        conv_lhs => rw [hbytes]
        simp [later]
      · obtain ⟨hpos, -⟩ := hheader
        simp only [List.length_cons, later]
        omega
  | case5 budget bytes raw rest hsplit hblank hheader =>
      exact ⟨[], [], rfl, by simp, .inl rfl, by simp, by simp⟩

theorem prelude_char_ascii {b : UInt8} (h : isPreludeChar b = true) : b < 0x80 := by
  simp only [isPreludeChar, Bool.or_eq_true, beq_iff_eq, Bool.and_eq_true, decide_eq_true_eq] at h
  rcases h with rfl | ⟨-, hle⟩
  · decide
  · exact UInt8.lt_of_le_of_lt hle (by decide)

/-- A removed header line is shown verbatim. -/
theorem removed_verbatim {raw : Bytes} (h : raw.all isPreludeChar = true) :
    (fromUtf8Lossy raw).toBytes = raw :=
  to_bytes_from_utf8_lossy fun b hb => prelude_char_ascii (List.all_eq_true.mp h b hb)

/-- A line held back is shown verbatim, its carriage return included. -/
theorem held_verbatim {raw : Bytes} (h : isPreludeLine raw = true) :
    (fromUtf8Lossy raw).toBytes = raw := by
  refine to_bytes_from_utf8_lossy fun b hb => ?_
  have hchars := (Bool.and_eq_true _ _ ▸ h : _ ∧ _).1
  unfold stripCr at hchars
  split at hchars
  · next hlast =>
      obtain ⟨front, rfl⟩ := List.getLast?_eq_some_iff.mp hlast
      rw [List.dropLast_concat] at hchars
      rcases List.mem_append.mp hb with hb | hb
      · exact prelude_char_ascii (List.all_eq_true.mp hchars b hb)
      · rw [List.mem_singleton.mp hb]
        decide
  · exact prelude_char_ascii (List.all_eq_true.mp hchars b hb)

/-- The scanner's outcome is what the reference says about the same bytes. -/
def PreludeMatches (ref : Stripped) (scanned : PreludeStep × List Output) : Prop :=
  (scanned.2 = ref.removed.map fun raw => .protocolRx (fromUtf8Lossy raw)) ∧
    match scanned.1 with
    | .needMore line _ => ref.payload = [] ∧ ref.held = line
    | .payload replay rest => ref.payload = replay ++ rest ∧ ref.held = []

/-- The scanner with a partial line removes what the reference removes. -/
theorem consume_prelude_reference {line : Bytes} (hline : isPreludeLine line = true)
    (hnot : LF ∉ line) (lines : Nat) (data : Bytes) :
    PreludeMatches (stripPrelude (PRELUDE_MAX_LINES - lines) (line ++ data))
      (consumePrelude line lines data) := by
  induction data generalizing line lines with
  | nil =>
      rw [List.append_nil, strip_prelude_open _ (split_line_eq_none.mpr hnot), if_pos hline]
      exact ⟨rfl, rfl, rfl⟩
  | cons b rest ih =>
      rw [consumePrelude]
      by_cases hb : b = LF
      · -- the line is complete
        subst hb
        have hsplit : splitLine (line ++ LF :: rest) = some (line, rest) :=
          split_line_eq_some.mpr ⟨rfl, hnot⟩
        have hopen : breaksLine line LF = false := rfl
        rw [hopen, strip_prelude_line _ hsplit]
        simp only [Bool.false_eq_true, if_false, ne_eq, not_true_eq_false, hline, true_and,
          Nat.sub_pos_iff_lt]
        split
        · exact ⟨rfl, rfl, rfl⟩
        · split
          · next hheader =>
              have hempty : isPreludeLine [] = true := rfl
              have hnext := ih hempty List.not_mem_nil (lines + 1)
              rw [List.nil_append, Nat.sub_add_eq] at hnext
              obtain ⟨hout, hstep⟩ := hnext
              exact ⟨by rw [hout]; rfl, hstep⟩
          · refine ⟨rfl, ?_, rfl⟩
            simp
      · by_cases hbreak : breaksLine line b = true
        · -- every line that starts so is payload
          rw [if_pos hbreak, strip_prelude_reject _ hnot hb hbreak]
          exact ⟨rfl, rfl, rfl⟩
        · have hopen := Bool.eq_false_iff.mpr hbreak
          have hstep := ih (breaks_line_accept hline hb hopen) (by simp [hnot, Ne.symm hb]) lines
          rw [if_neg hbreak, if_pos hb]
          simpa using hstep

/-! ## Chunked framing -/

/-- What follows the line end, CRLF or LF, that must follow chunk data. -/
def afterChunkData : Bytes → Option Bytes
  | [] => none
  | b :: rest =>
    if b = LF then some rest
    else if b = CR then
      match rest with
      | [] => none
      | c :: rest => if c = LF then some rest else none
    else none

theorem after_chunk_data_length {bytes rest : Bytes} (h : afterChunkData bytes = some rest) :
    rest.length < bytes.length := by
  unfold afterChunkData at h
  split at h
  · simp at h
  · split at h
    · obtain rfl := Option.some.inj h
      exact Nat.lt_succ_self _
    · split at h
      · split at h
        · simp at h
        · split at h
          · obtain rfl := Option.some.inj h
            simp only [List.length_cons]
            omega
          · simp at h
      · simp at h

/-- The payload of a chunked body, up to its terminal chunk, its first framing error or its end. -/
def dechunk (bytes : Bytes) : Bytes :=
  match _hline : splitLine bytes with
  | none => []
  | some (line, rest) =>
    if Chunked.MAX_LINE < line.length then []
    else
      match Chunked.parseSizeLine line with
      | .error _ => []
      | .ok size =>
        if size = 0 then []
        else
          match _hdata : afterChunkData (rest.drop size) with
          | none => rest.take size
          | some next => rest.take size ++ dechunk next
termination_by bytes.length
decreasing_by
  have hline := split_line_length _hline
  have hdata := after_chunk_data_length _hdata
  rw [List.length_drop] at hdata
  omega

/-- One chunk of the reference. -/
theorem dechunk_line {bytes line rest : Bytes} (h : splitLine bytes = some (line, rest)) :
    dechunk bytes =
      if Chunked.MAX_LINE < line.length then []
      else
        match Chunked.parseSizeLine line with
        | .error _ => []
        | .ok size =>
          if size = 0 then []
          else
            match afterChunkData (rest.drop size) with
            | none => rest.take size
            | some next => rest.take size ++ dechunk next := by
  rw [dechunk]
  split
  · next hnone => simp [h] at hnone
  · next hsome =>
      rw [h] at hsome
      obtain ⟨rfl, rfl⟩ := Prod.mk.inj (Option.some.inj hsome)
      split
      · rfl
      · cases Chunked.parseSizeLine line with
        | error e => rfl
        | ok size =>
            simp only
            split
            · rfl
            · split
              · next hdata => simp only [hdata]
              · next hdata => simp only [hdata]

theorem dechunk_open {bytes : Bytes} (h : splitLine bytes = none) : dechunk bytes = [] := by
  rw [dechunk]
  split
  · rfl
  · next hsome => simp [h] at hsome

namespace Chunked

/-- Trailers carry no payload. -/
theorem Decoder.feed_trailers (line bytes : Bytes) :
    (Decoder.feed ⟨.trailers, line⟩ bytes).1 = [] := by
  induction hn : bytes.length using Nat.strong_induction_on generalizing line bytes with
  | _ n ih =>
  subst hn
  cases bytes with
  | nil => rw [Decoder.feed_nil]
  | cons b tail =>
      have hline := Decoder.feed_line true line b tail
      simp only [lineState, if_true] at hline
      rw [hline]
      cases hread : takeLine line (b :: tail) with
      | error e => rfl
      | ok read =>
          cases read with
          | more line' => rfl
          | complete ended rest =>
              simp only [afterLine, lineEnd, if_true]
              split
              · rw [Decoder.feed_done]
              · exact ih rest.length (take_line_length hread) [] rest rfl

/-- After chunk data the decoder expects one line end. -/
theorem Decoder.feed_crlf (bytes : Bytes) :
    (Decoder.feed ⟨.crlfAfterData false, []⟩ bytes).1 =
      match afterChunkData bytes with
      | none => []
      | some rest => (Decoder.feed ⟨.sizeLine, []⟩ rest).1 := by
  cases bytes with
  | nil => rw [Decoder.feed_nil]; rfl
  | cons b tail =>
      rw [Decoder.feed]
      simp only [afterChunkData]
      by_cases hlf : b = LF
      · subst hlf
        simp [show LF ≠ CR by decide]
      · by_cases hcr : b = CR
        · subst hcr
          simp only [hlf, if_false, Bool.not_false, true_and, if_true]
          cases tail with
          | nil => rw [Decoder.feed_nil]
          | cons c rest =>
              rw [Decoder.feed]
              simp only [Bool.not_true, Bool.false_eq_true, false_and, if_false]
              split
              · rfl
              · rfl
        · simp [hlf, hcr]

/-- The decoder's payload for one chunk: its data and what follows its line end. -/
theorem Decoder.feed_chunk {size : Nat} (pos : 0 < size) (rest : Bytes) :
    (Decoder.feed ⟨.data size pos, []⟩ rest).1 =
      match afterChunkData (rest.drop size) with
      | none => rest.take size
      | some next => rest.take size ++ (Decoder.feed {} next).1 := by
  rw [Decoder.feed_data, prepend]
  rcases Nat.lt_or_ge rest.length size with hlt | hge
  · rw [List.drop_eq_nil_of_le (Nat.le_of_lt hlt), Decoder.feed_nil]
    exact List.append_nil _
  · rw [Nat.sub_eq_zero_of_le hge]
    show rest.take size ++ (Decoder.feed ⟨.crlfAfterData false, []⟩ (rest.drop size)).1 = _
    rw [Decoder.feed_crlf]
    cases afterChunkData (rest.drop size) with
    | none => exact List.append_nil _
    | some next => rfl

/-- The decoder's payload is the reference's. -/
theorem Decoder.feed_reference (bytes : Bytes) :
    (Decoder.feed {} bytes).1 = dechunk bytes := by
  induction hn : bytes.length using Nat.strong_induction_on generalizing bytes with
  | _ n ih =>
  subst hn
  cases bytes with
  | nil => rw [Decoder.feed_nil, dechunk_open rfl]
  | cons b tail =>
      have hfeed := Decoder.feed_line false [] b tail
      simp only [lineState, Bool.false_eq_true, if_false] at hfeed
      rw [hfeed]
      cases hsplit : splitLine (b :: tail) with
      | none =>
          rw [dechunk_open hsplit, takeLine, hsplit]
          simp only
          split
          · rfl
          · rfl
      | some pair =>
          obtain ⟨line, rest⟩ := pair
          have hlen := split_line_length hsplit
          rw [dechunk_line hsplit, takeLine, hsplit]
          simp only [List.nil_append]
          split
          · rfl
          · simp only [afterLine, lineEnd, Bool.false_eq_true, if_false]
            cases parseSizeLine line with
            | error e => rfl
            | ok size =>
                simp only [Except.map]
                by_cases hzero : size = 0
                · subst hzero
                  rw [if_pos rfl]
                  exact Decoder.feed_trailers [] rest
                · have hpos : 0 < size := Nat.pos_of_ne_zero hzero
                  rw [if_neg hzero, dataState, dif_pos hpos, Decoder.feed_chunk hpos]
                  cases hdata : afterChunkData (rest.drop size) with
                  | none => rfl
                  | some next =>
                      have hnext := after_chunk_data_length hdata
                      rw [List.length_drop] at hnext
                      simp only
                      rw [ih next.length (by omega) next rfl]

end Chunked

end OpenNtrip
