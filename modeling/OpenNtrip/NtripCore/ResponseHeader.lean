import OpenNtrip.NtripCore.Session

/-!
# The response header

What a caster's first bytes say, as a function of the bytes alone: `parseHeader` reads the
status line and, for HTTP, the header block through its blank line. `drive_header_eq` ties
`driveHeader`, which works on the session's buffer, to this parser, and `parse_from_append`
says that parsing can be interrupted after any byte.
-/

namespace OpenNtrip

/-! ## The parser -/

/-- What a complete response header announces. -/
inductive Answer where
  | icy
  | sourcetable
  | http (info : HttpInfo)
  | unknown
  deriving DecidableEq, Repr

/-- Whether the header goes on, and in which phase, or is complete. -/
inductive HeaderOutcome where
  | more (phase : Phase)
  | complete (answer : Answer)
  deriving DecidableEq, Repr

/-- The header lines found in some bytes: what they amount to, the lines shown to the user and the
number of bytes in complete lines. -/
structure ParsedHeader where
  outcome : HeaderOutcome
  lines : List Text
  used : Nat
  deriving DecidableEq, Repr

/-- The text of a header line without its line end. -/
def lineText (raw : Bytes) : Text := fromUtf8Lossy (stripCr raw)

/-- The parsed header with earlier lines, of `n` bytes, in front. -/
def ParsedHeader.after (before : List Text) (n : Nat) (p : ParsedHeader) : ParsedHeader :=
  { p with lines := before ++ p.lines, used := n + p.used }

/-- Parse the lines of an HTTP header block up to its blank line. -/
def parseBlock (info : HttpInfo) (bytes : Bytes) : ParsedHeader :=
  match _h : splitLine bytes with
  | none => ⟨.more (.httpHeaders info), [], 0⟩
  | some (raw, rest) =>
    if (Text.trimAscii (lineText raw)).isEmpty then ⟨.complete (.http info), [], raw.length + 1⟩
    else (parseBlock (info.headerLine (lineText raw)) rest).after [lineText raw] (raw.length + 1)
termination_by bytes.length
decreasing_by
  have := split_line_length ‹_›
  omega

/-- Parse a response header from its first byte. -/
def parseHeader (bytes : Bytes) : ParsedHeader :=
  match splitLine bytes with
  | none => ⟨.more .statusLine, [], 0⟩
  | some (raw, rest) =>
    match NtripSession.statusKind (lineText raw) with
    | .icy => ⟨.complete .icy, [lineText raw], raw.length + 1⟩
    | .sourcetable => ⟨.complete .sourcetable, [lineText raw], raw.length + 1⟩
    | .http => (parseBlock { status := lineText raw } rest).after [lineText raw] (raw.length + 1)
    | .unknown => ⟨.complete .unknown, [], raw.length + 1⟩

/-- Parse on in the phase that the bytes before have led to. -/
def parseFrom (phase : Phase) (bytes : Bytes) : ParsedHeader :=
  match phase with
  | .statusLine => parseHeader bytes
  | .httpHeaders info => parseBlock info bytes
  | phase => ⟨.more phase, [], 0⟩

/-- The number of bytes in the response header that `bytes` starts with, when it is complete:
through the blank line for HTTP, through the first line otherwise. -/
def headerLength (bytes : Bytes) : Option Nat :=
  match (parseHeader bytes).outcome with
  | .complete _ => some (parseHeader bytes).used
  | .more _ => none

/-! ## Interrupting the parser -/

/-- One step of parsing a header block. -/
theorem parse_block_line {info : HttpInfo} {bytes raw rest : Bytes}
    (h : splitLine bytes = some (raw, rest)) :
    parseBlock info bytes =
      if (Text.trimAscii (lineText raw)).isEmpty then
        ⟨.complete (.http info), [], raw.length + 1⟩
      else
        (parseBlock (info.headerLine (lineText raw)) rest).after [lineText raw]
          (raw.length + 1) := by
  rw [parseBlock]
  split
  · next hnone => simp [h] at hnone
  · next hsome =>
      rw [h] at hsome
      obtain ⟨rfl, rfl⟩ := Prod.mk.inj (Option.some.inj hsome)
      rfl

/-- A header block without a complete line. -/
theorem parse_block_open {info : HttpInfo} {bytes : Bytes} (h : splitLine bytes = none) :
    parseBlock info bytes = ⟨.more (.httpHeaders info), [], 0⟩ := by
  rw [parseBlock]
  split
  · rfl
  · next hsome => simp [h] at hsome

/-- What parsing the first bytes means for a longer input: a complete header stays, an unfinished
one is parsed on from the end of its last complete line. -/
def ParsedHeader.extend (p : ParsedHeader) (first more : Bytes) : ParsedHeader :=
  match p.outcome with
  | .complete _ => p
  | .more phase => (parseFrom phase (first.drop p.used ++ more)).after p.lines p.used

@[simp] theorem ParsedHeader.after_nil (p : ParsedHeader) : p.after [] 0 = p := by
  simp [ParsedHeader.after]

/-- Extending a parse that has lines in front. -/
theorem ParsedHeader.extend_after (p : ParsedHeader) (before : List Text)
    (front first more : Bytes) :
    (p.after before front.length).extend (front ++ first) more =
      (p.extend first more).after before front.length := by
  unfold extend
  cases houtcome : p.outcome with
  | complete answer => simp [after, houtcome]
  | more phase =>
      have hdrop : (front ++ first).drop (front.length + p.used) = first.drop p.used := by simp
      simp only [after, houtcome, hdrop, List.append_assoc, Nat.add_assoc]

/-- A header block can be parsed in two parts. -/
theorem parse_block_append (info : HttpInfo) (first more : Bytes) :
    parseBlock info (first ++ more) = (parseBlock info first).extend first more := by
  induction hn : first.length using Nat.strong_induction_on generalizing info first with
  | _ n ih =>
  subst hn
  cases hsplit : splitLine first with
  | none =>
      rw [parse_block_open hsplit]
      simp [ParsedHeader.extend, parseFrom]
  | some pair =>
      obtain ⟨raw, rest⟩ := pair
      rw [parse_block_line hsplit, parse_block_line (split_line_append_of_some hsplit more)]
      split
      · rfl
      · have hlen := split_line_length hsplit
        obtain ⟨rfl, -⟩ := split_line_eq_some.mp hsplit
        rw [ih rest.length (by omega) _ _ rfl]
        have hafter := ParsedHeader.extend_after
          (parseBlock (info.headerLine (lineText raw)) rest) [lineText raw] (raw ++ [LF]) rest more
        simpa using hafter.symm

/-- A response header can be parsed in two parts. -/
theorem parse_header_append (first more : Bytes) :
    parseHeader (first ++ more) = (parseHeader first).extend first more := by
  cases hsplit : splitLine first with
  | none => simp [parseHeader, hsplit, ParsedHeader.extend, parseFrom]
  | some pair =>
      obtain ⟨raw, rest⟩ := pair
      unfold parseHeader
      rw [split_line_append_of_some hsplit, hsplit]
      simp only
      obtain ⟨rfl, -⟩ := split_line_eq_some.mp hsplit
      cases NtripSession.statusKind (lineText raw) with
      | icy => rfl
      | sourcetable => rfl
      | unknown => rfl
      | http =>
          have hafter := ParsedHeader.extend_after
            (parseBlock { status := lineText raw } rest) [lineText raw] (raw ++ [LF]) rest more
          simp only [parse_block_append]
          simpa using hafter.symm

/-- Parsing can be interrupted in any phase. -/
theorem parse_from_append (phase : Phase) (first more : Bytes) :
    parseFrom phase (first ++ more) = (parseFrom phase first).extend first more := by
  cases phase with
  | statusLine => exact parse_header_append first more
  | httpHeaders info => exact parse_block_append info first more
  | table t => simp [parseFrom, ParsedHeader.extend]
  | streaming st => simp [parseFrom, ParsedHeader.extend]
  | done => simp [parseFrom, ParsedHeader.extend]

/-! ## Bounds -/

theorem parse_block_used_le (info : HttpInfo) (bytes : Bytes) :
    (parseBlock info bytes).used ≤ bytes.length := by
  fun_induction parseBlock info bytes with
  | case1 info bytes hsplit => simp
  | case2 info bytes raw rest hsplit hblank =>
      have := split_line_length hsplit
      simp only
      omega
  | case3 info bytes raw rest hsplit hblank ih =>
      have := split_line_length hsplit
      simp only [ParsedHeader.after]
      omega

/-- A header does not reach past the bytes. -/
theorem parse_header_used_le (bytes : Bytes) : (parseHeader bytes).used ≤ bytes.length := by
  unfold parseHeader
  split
  · simp
  · next raw rest hsplit =>
      have hlen := split_line_length hsplit
      have hblock := parse_block_used_le { status := lineText raw } rest
      cases NtripSession.statusKind (lineText raw) <;> simp only [ParsedHeader.after] <;> omega

theorem parse_from_used_le (phase : Phase) (bytes : Bytes) :
    (parseFrom phase bytes).used ≤ bytes.length := by
  cases phase with
  | statusLine => exact parse_header_used_le bytes
  | httpHeaders info => exact parse_block_used_le info bytes
  | _ => simp [parseFrom]

theorem parse_block_more_isHeader {info : HttpInfo} {bytes : Bytes} {phase : Phase}
    (h : (parseBlock info bytes).outcome = .more phase) : phase.isHeader = true := by
  fun_induction parseBlock info bytes with
  | case1 info bytes hsplit =>
      obtain rfl : Phase.httpHeaders info = phase := by simpa using h
      rfl
  | case2 info bytes raw rest hsplit hblank => simp at h
  | case3 info bytes raw rest hsplit hblank ih => exact ih h

/-- An unfinished header leaves the session in a header phase. -/
theorem parse_header_more_isHeader {bytes : Bytes} {phase : Phase}
    (h : (parseHeader bytes).outcome = .more phase) : phase.isHeader = true := by
  unfold parseHeader at h
  split at h
  · obtain rfl : Phase.statusLine = phase := by simpa using h
    rfl
  · next raw rest hsplit =>
      split at h
      · simp at h
      · simp at h
      · exact parse_block_more_isHeader h
      · simp at h

theorem header_length_eq_some {bytes : Bytes} {n : Nat} :
    headerLength bytes = some n ↔
      (∃ answer, (parseHeader bytes).outcome = .complete answer) ∧
        (parseHeader bytes).used = n := by
  unfold headerLength
  cases (parseHeader bytes).outcome <;> simp

theorem header_length_eq_none {bytes : Bytes} :
    headerLength bytes = none ↔ ∃ phase, (parseHeader bytes).outcome = .more phase := by
  unfold headerLength
  cases (parseHeader bytes).outcome <;> simp

/-- A complete header parses the same whatever follows it. -/
theorem parse_header_append_of_complete {bytes : Bytes} {answer : Answer}
    (h : (parseHeader bytes).outcome = .complete answer) (more : Bytes) :
    parseHeader (bytes ++ more) = parseHeader bytes := by
  rw [parse_header_append]
  simp only [ParsedHeader.extend, h]

/-- A complete header keeps its length when more bytes follow. -/
theorem header_length_append {bytes : Bytes} {n : Nat} (h : headerLength bytes = some n)
    (more : Bytes) : headerLength (bytes ++ more) = some n := by
  obtain ⟨⟨answer, hanswer⟩, hused⟩ := header_length_eq_some.mp h
  rw [header_length_eq_some, parse_header_append_of_complete hanswer]
  exact ⟨⟨answer, hanswer⟩, hused⟩

/-- A header is no longer than the bytes it was found in. -/
theorem header_length_le {bytes : Bytes} {n : Nat} (h : headerLength bytes = some n) :
    n ≤ bytes.length := by
  obtain ⟨-, rfl⟩ := header_length_eq_some.mp h
  exact parse_header_used_le bytes

/-- Cutting the bytes behind a line does not change the line. -/
theorem split_line_take {bytes raw rest : Bytes} (h : splitLine bytes = some (raw, rest))
    (m : Nat) : splitLine (bytes.take (raw.length + 1 + m)) = some (raw, rest.take m) := by
  obtain ⟨rfl, hnot⟩ := split_line_eq_some.mp h
  refine split_line_eq_some.mpr ⟨?_, hnot⟩
  rw [show raw ++ LF :: rest = (raw ++ [LF]) ++ rest by simp,
    show raw.length + 1 + m = (raw ++ [LF]).length + m by simp, List.take_length_add_append]
  simp

/-- A complete header block is complete without the bytes behind it. -/
theorem parse_block_take {info : HttpInfo} {bytes : Bytes} {answer : Answer}
    (h : (parseBlock info bytes).outcome = .complete answer) :
    parseBlock info (bytes.take (parseBlock info bytes).used) = parseBlock info bytes := by
  induction hn : bytes.length using Nat.strong_induction_on generalizing info bytes with
  | _ n ih =>
  subst hn
  cases hsplit : splitLine bytes with
  | none => rw [parse_block_open hsplit] at h; simp at h
  | some pair =>
      obtain ⟨raw, rest⟩ := pair
      have hlen := split_line_length hsplit
      rw [parse_block_line hsplit] at h ⊢
      split
      · next hblank =>
          have htake := split_line_take hsplit 0
          rw [Nat.add_zero] at htake
          simp only
          rw [parse_block_line htake, if_pos hblank]
      · next hblank =>
          rw [if_neg hblank] at h
          simp only [ParsedHeader.after] at h
          simp only [ParsedHeader.after]
          rw [parse_block_line (split_line_take hsplit _), if_neg hblank,
            ih rest.length (by omega) h rfl]
          rfl

/-- A complete header is complete without the bytes behind it. -/
theorem header_length_take {bytes : Bytes} {n : Nat} (h : headerLength bytes = some n) :
    headerLength (bytes.take n) = some n := by
  obtain ⟨⟨answer, hanswer⟩, rfl⟩ := header_length_eq_some.mp h
  suffices hsame : parseHeader (bytes.take (parseHeader bytes).used) = parseHeader bytes by
    rw [header_length_eq_some, hsame]
    exact ⟨⟨answer, hanswer⟩, rfl⟩
  unfold parseHeader at hanswer ⊢
  cases hsplit : splitLine bytes with
  | none => simp [hsplit] at hanswer
  | some pair =>
      obtain ⟨raw, rest⟩ := pair
      have htake := split_line_take hsplit 0
      rw [Nat.add_zero] at htake
      simp only [hsplit] at hanswer ⊢
      cases hkind : NtripSession.statusKind (lineText raw) with
      | http =>
          simp only [hkind, ParsedHeader.after] at hanswer ⊢
          rw [split_line_take hsplit]
          simp only [hkind, parse_block_take hanswer]
      | _ => simp only [htake, hkind]

/-- Nothing shorter than the header is a complete header. -/
theorem header_length_take_lt {bytes : Bytes} {n k : Nat} (h : headerLength bytes = some n)
    (hlt : k < n) : headerLength (bytes.take k) = none := by
  cases hlen : headerLength (bytes.take k) with
  | none => rfl
  | some m =>
      have hle := header_length_le hlen
      have happend := header_length_append hlen (bytes.drop k)
      rw [List.take_append_drop, h, Option.some.injEq] at happend
      rw [List.length_take] at hle
      omega

end OpenNtrip
