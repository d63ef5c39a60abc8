import OpenNtrip.Rust.Std

/-!
# The incremental chunked-transfer decoder

`chunked.rs`: partial size lines and split line ends are carried in the decoder, so that any
packetization of a stream decodes to the same payload. `Decoder.feed` returns the payload
decoded from one block together with the next decoder, or with the error after which the
decoder is dead. `Decoder.feed_append` is the split invariance.
-/

namespace OpenNtrip.Chunked

/-- Hard bound on one size or trailer line. -/
def MAX_LINE : Nat := 4096

/-- Where the decoder stands in the framing. A chunk whose data is being read has data left. -/
inductive State where
  | sizeLine
  | data (left : Nat) (pos : 0 < left)
  | crlfAfterData (crSeen : Bool)
  | trailers
  | done
  deriving DecidableEq, Repr

/-- The decoder: its framing state and the partial size or trailer line carried across feeds. -/
structure Decoder where
  state : State := .sizeLine
  line : Bytes := []
  deriving DecidableEq, Repr

/-- The terminal chunk and its trailers have been consumed. -/
def Decoder.isDone (d : Decoder) : Bool := d.state = .done

/-- The error for a framing line over the bound. -/
def lineTooLong : Text := "chunk framing line exceeds 4096 bytes".toList

/-- The error for a byte other than a line end after chunk data. -/
def expectedCrlf (b : UInt8) : Text :=
  "expected CRLF after chunk data, got byte 0x".toList ++ hexByte b

/-- The value of a hexadecimal digit of either case. -/
def hexDigit (b : UInt8) : Option Nat :=
  if 48 ≤ b ∧ b ≤ 57 then some (b.toNat - 48)
  else if 97 ≤ b ∧ b ≤ 102 then some (b.toNat - 97 + 10)
  else if 65 ≤ b ∧ b ≤ 70 then some (b.toNat - 65 + 10)
  else none

/-- Accumulate hexadecimal digits into a `u64`. -/
def hexSize : Nat → Bytes → Except Text Nat
  | size, [] => .ok size
  | size, b :: rest =>
    match hexDigit b with
    | none => .error ("invalid chunk size character 0x".toList ++ hexByte b)
    | some digit =>
      if size * 16 + digit < 2 ^ 64 then hexSize (size * 16 + digit) rest
      else .error "chunk size overflows u64".toList

/-- Parse a size line: an optional carriage return, extensions after `;` and surrounding
whitespace are dropped, the rest is the size in hexadecimal. -/
def parseSizeLine (line : Bytes) : Except Text Nat :=
  let hex := trimAscii ((stripCr line).takeWhile fun b => b != 59)
  if hex.isEmpty then .error "empty chunk size line".toList else hexSize 0 hex

/-- A trailer line that ends the body: nothing, or a lone carriage return. -/
def blankTrailer (line : Bytes) : Bool :=
  match line.getLast? with
  | none => true
  | some b => b = CR ∧ line.dropLast = []

/-- The outcome of reading a framing line: more input is needed, or the completed line and the
input after it. -/
inductive LineRead where
  | more (line : Bytes)
  | complete (line rest : Bytes)
  deriving DecidableEq, Repr

/-- Accumulate bytes up to and excluding the line feed onto the carried line. -/
def takeLine (line input : Bytes) : Except Text LineRead :=
  match splitLine input with
  | none =>
    if (line ++ input).length > MAX_LINE then .error lineTooLong else .ok (.more (line ++ input))
  | some (pre, rest) =>
    if (line ++ pre).length > MAX_LINE then .error lineTooLong
    else .ok (.complete (line ++ pre) rest)

theorem take_line_length {line input ended rest : Bytes}
    (h : takeLine line input = .ok (.complete ended rest)) : rest.length < input.length := by
  unfold takeLine at h
  split at h
  · split at h <;> simp at h
  · next pre after hsplit =>
      split at h
      · simp at h
      · obtain ⟨-, rfl⟩ : _ ∧ after = rest := by simpa using h
        have := split_line_length hsplit
        omega

/-- The state in which `left` bytes of the current chunk are missing. -/
def dataState (left : Nat) (exhausted : State) : State :=
  if h : 0 < left then .data left h else exhausted

/-- Put payload in front of what the rest of the input decodes to. -/
def prepend (payload : Bytes) (result : Bytes × Except Text Decoder) :
    Bytes × Except Text Decoder :=
  (payload ++ result.1, result.2)

/-- Decode a block of input: the payload bytes, and the next decoder or the framing error. -/
def Decoder.feed (d : Decoder) (input : Bytes) : Bytes × Except Text Decoder :=
  match input with
  | [] => ([], .ok d)
  | b :: tail =>
    match d.state with
    | .sizeLine =>
      match _hread : takeLine d.line (b :: tail) with
      | .error e => ([], .error e)
      | .ok (.more line) => ([], .ok { d with line })
      | .ok (.complete line rest) =>
        match parseSizeLine line with
        | .error e => ([], .error e)
        | .ok size => Decoder.feed { state := dataState size .trailers, line := [] } rest
    | .data left _ =>
      let take := min left (b :: tail).length
      prepend ((b :: tail).take take)
        (Decoder.feed { d with state := dataState (left - take) (.crlfAfterData false) }
          ((b :: tail).drop take))
    | .crlfAfterData crSeen =>
      if !crSeen ∧ b = CR then Decoder.feed { d with state := .crlfAfterData true } tail
      else if b = LF then Decoder.feed { d with state := .sizeLine } tail
      else ([], .error (expectedCrlf b))
    | .trailers =>
      match _hread : takeLine d.line (b :: tail) with
      | .error e => ([], .error e)
      | .ok (.more line) => ([], .ok { d with line })
      | .ok (.complete line rest) =>
        Decoder.feed { state := if blankTrailer line then .done else .trailers, line := [] } rest
    | .done => ([], .ok d)
termination_by input.length
decreasing_by
  · exact take_line_length ‹_›
  · simp only [List.length_drop, List.length_cons]
    omega
  · simp
  · simp
  · exact take_line_length ‹_›

/-- What a second block adds to the answer for a first: nothing after an error, otherwise the
payload and the result of feeding it to the decoder the first block left. -/
def andThen (first : Bytes × Except Text Decoder) (second : Bytes) : Bytes × Except Text Decoder :=
  match first with
  | (payload, .error e) => (payload, .error e)
  | (payload, .ok d) => prepend payload (d.feed second)

/-- An over-long line stays an error when more input follows. -/
theorem take_line_append_of_error {line input : Bytes} {e : Text}
    (h : takeLine line input = .error e) (more : Bytes) :
    takeLine line (input ++ more) = .error e := by
  unfold takeLine at h ⊢
  cases hsplit : splitLine input with
  | none =>
      rw [split_line_append_of_none hsplit]
      simp only [hsplit] at h
      split at h
      · next hlong =>
          cases hmore : splitLine more with
          | none =>
              simp only [Option.map_none]
              rw [if_pos (by simp only [List.length_append] at hlong ⊢; omega)]
              exact h
          | some pair =>
              simp only [Option.map_some]
              rw [if_pos (by simp only [List.length_append] at hlong ⊢; omega)]
              exact h
      · simp at h
  | some pair =>
      rw [split_line_append_of_some hsplit]
      simp only [hsplit] at h ⊢
      split at h
      · next hlong => rw [if_pos hlong]; exact h
      · simp at h

/-- A line that has not ended is continued by the input that follows. -/
theorem take_line_append_of_more {line input line' : Bytes}
    (h : takeLine line input = .ok (.more line')) (more : Bytes) :
    takeLine line (input ++ more) = takeLine line' more := by
  unfold takeLine at h
  cases hsplit : splitLine input with
  | some pair =>
      simp only [hsplit] at h
      split at h <;> simp at h
  | none =>
      simp only [hsplit] at h
      split at h
      · simp at h
      · obtain rfl : line ++ input = line' := by simpa using h
        unfold takeLine
        rw [split_line_append_of_none hsplit]
        cases splitLine more <;> simp

/-- A completed line stays completed when more input follows. -/
theorem take_line_append_of_complete {line input ended rest : Bytes}
    (h : takeLine line input = .ok (.complete ended rest)) (more : Bytes) :
    takeLine line (input ++ more) = .ok (.complete ended (rest ++ more)) := by
  unfold takeLine at h ⊢
  cases hsplit : splitLine input with
  | none =>
      simp only [hsplit] at h
      split at h <;> simp at h
  | some pair =>
      rw [split_line_append_of_some hsplit]
      simp only [hsplit] at h ⊢
      split at h
      · simp at h
      · next hshort =>
          rw [if_neg hshort]
          obtain ⟨rfl, rfl⟩ : _ = ended ∧ _ = rest := by simpa using h
          rfl

@[simp] theorem Decoder.feed_nil (d : Decoder) : d.feed [] = ([], .ok d) := by
  rw [Decoder.feed]

/-- What a framing line does to the state that reads lines: a size line opens a chunk or the
trailers, a blank trailer ends the body. -/
def lineEnd (trailers : Bool) (line : Bytes) : Except Text State :=
  if trailers then .ok (if blankTrailer line then .done else .trailers)
  else (parseSizeLine line).map fun size => dataState size .trailers

/-- The state that reads a size line or a trailer line. -/
def lineState (trailers : Bool) : State := if trailers then .trailers else .sizeLine

/-- What a completed or unfinished framing line leads to. -/
def afterLine (trailers : Bool) : Except Text LineRead → Bytes × Except Text Decoder
  | .error e => ([], .error e)
  | .ok (.more line) => ([], .ok ⟨lineState trailers, line⟩)
  | .ok (.complete line rest) =>
    match lineEnd trailers line with
    | .error e => ([], .error e)
    | .ok state => Decoder.feed ⟨state, []⟩ rest

/-- Feeding a decoder that reads a size line or a trailer line. -/
theorem Decoder.feed_line (trailers : Bool) (line : Bytes) (b : UInt8) (tail : Bytes) :
    Decoder.feed ⟨lineState trailers, line⟩ (b :: tail) =
      afterLine trailers (takeLine line (b :: tail)) := by
  cases trailers with
  | false =>
      simp only [lineState, Bool.false_eq_true, if_false]
      rw [Decoder.feed]
      simp only
      split
      · next h => simp [h, afterLine]
      · next h => simp [h, afterLine, lineState]
      · next line' rest h =>
          simp only [h, afterLine, lineEnd, Bool.false_eq_true, if_false]
          cases parseSizeLine line' <;> rfl
  | true =>
      simp only [lineState, if_true]
      rw [Decoder.feed]
      simp only
      split
      · next h => simp [h, afterLine]
      · next h => simp [h, afterLine, lineState]
      · next h => simp only [h, afterLine, lineEnd, if_true]

/-- Feeding a decoder in the middle of a chunk passes the input through. -/
theorem Decoder.feed_data (left : Nat) (pos : 0 < left) (line input : Bytes) :
    Decoder.feed ⟨.data left pos, line⟩ input =
      prepend (input.take left)
        (Decoder.feed ⟨dataState (left - input.length) (.crlfAfterData false), line⟩
          (input.drop left)) := by
  cases input with
  | nil => simp [prepend, dataState, pos]
  | cons b tail =>
      rw [Decoder.feed]
      simp only
      rcases Nat.le_total left (b :: tail).length with hle | hle
      · rw [Nat.min_eq_left hle, Nat.sub_self, Nat.sub_eq_zero_of_le hle]
      · rw [Nat.min_eq_right hle, List.take_length, List.drop_length, List.take_of_length_le hle,
          List.drop_eq_nil_of_le hle]

/-- A finished decoder ignores its input. -/
theorem Decoder.feed_done (line input : Bytes) :
    Decoder.feed ⟨.done, line⟩ input = ([], .ok ⟨.done, line⟩) := by
  cases input <;> simp [Decoder.feed]

/-- Payload in front of a first block's answer stays in front. -/
theorem and_then_prepend (payload : Bytes) (first : Bytes × Except Text Decoder)
    (second : Bytes) : andThen (prepend payload first) second =
      prepend payload (andThen first second) := by
  obtain ⟨out, result⟩ := first
  cases result <;> simp [andThen, prepend]

/-- The line states carry an unfinished line over to the next block. -/
theorem Decoder.feed_carried (trailers : Bool) (line second : Bytes) (b : UInt8) (tail : Bytes)
    {line' : Bytes} (h : takeLine line (b :: tail) = .ok (.more line')) :
    afterLine trailers (takeLine line' second) =
      prepend [] (Decoder.feed ⟨lineState trailers, line'⟩ second) := by
  cases second with
  | cons c rest => rw [Decoder.feed_line]; rfl
  | nil =>
      have hread := take_line_append_of_more h []
      rw [List.append_nil, h] at hread
      rw [← hread]
      simp [afterLine, prepend]

/-- A first block that is chunk data as a whole leaves the rest of the chunk to the next one. -/
theorem Decoder.feed_missing {left : Nat} {first : Bytes} (hlt : first.length < left)
    (pos : 0 < left) (line second : Bytes) :
    Decoder.feed ⟨.data left pos, line⟩ (first ++ second) =
      andThen (Decoder.feed ⟨.data left pos, line⟩ first) second := by
  have hle := Nat.le_of_lt hlt
  have hmissing : 0 < left - first.length := by omega
  have hstate : dataState (left - first.length) (.crlfAfterData false) = .data _ hmissing :=
    dif_pos hmissing
  rw [Decoder.feed_data, Decoder.feed_data, and_then_prepend, List.drop_eq_nil_of_le hle,
    List.take_of_length_le hle, Decoder.feed_nil, hstate]
  simp only [andThen]
  rw [Decoder.feed_data, List.take_append, List.drop_append, List.take_of_length_le hle,
    List.drop_eq_nil_of_le hle, List.length_append, Nat.sub_add_eq]
  simp [prepend]

/-- Feeding two blocks one after the other is feeding their concatenation. -/
theorem Decoder.feed_append (d : Decoder) (first second : Bytes) :
    d.feed (first ++ second) = andThen (d.feed first) second := by
  induction hn : first.length using Nat.strong_induction_on generalizing d first with
  | _ n ih =>
  subst hn
  cases first with
  | nil => simp [andThen, prepend]
  | cons b tail =>
      obtain ⟨state, line⟩ := d
      have hline : ∀ trailers,
          Decoder.feed ⟨lineState trailers, line⟩ (b :: tail ++ second) =
            andThen (Decoder.feed ⟨lineState trailers, line⟩ (b :: tail)) second := by
        intro trailers
        rw [List.cons_append, Decoder.feed_line, Decoder.feed_line, ← List.cons_append]
        cases hread : takeLine line (b :: tail) with
        | error e => rw [take_line_append_of_error hread]; rfl
        | ok read =>
            cases read with
            | more line' =>
                rw [take_line_append_of_more hread]
                exact Decoder.feed_carried trailers line second b tail hread
            | complete ended rest =>
                rw [take_line_append_of_complete hread]
                simp only [afterLine]
                cases lineEnd trailers ended with
                | error e => rfl
                | ok state => exact ih _ (take_line_length hread) _ _ rfl
      cases state with
      | sizeLine => exact hline false
      | trailers => exact hline true
      | done => simp only [Decoder.feed_done, andThen, prepend, List.nil_append]
      | crlfAfterData crSeen =>
          rw [List.cons_append, Decoder.feed, Decoder.feed]
          simp only
          split
          · exact ih _ (by simp) _ _ rfl
          · split
            · exact ih _ (by simp) _ _ rfl
            · rfl
      | data left pos =>
          rcases Nat.lt_or_ge (b :: tail).length left with hlt | hle
          · exact Decoder.feed_missing hlt pos line second
          · -- the chunk ends inside the first block
            rw [Decoder.feed_data, Decoder.feed_data, and_then_prepend,
              List.take_append_of_le_length hle, List.drop_append_of_le_length hle,
              Nat.sub_eq_zero_of_le hle, Nat.sub_eq_zero_of_le (by simp at hle ⊢; omega)]
            congr 1
            refine ih _ ?_ _ _ rfl
            simp only [List.length_cons, List.length_drop] at hle ⊢
            omega

end OpenNtrip.Chunked
