import OpenNtrip.NtripCore.ResponseHeader

/-!
# Driving the header

`driveHeader` reads lines out of the session's buffer until the header is complete.
`drive_header_eq` splits that into the parser of `ResponseHeader` and `takeAnswer`, what the
session does about the parsed header. From it follow what driving the header leaves behind
(`drive_header_status`, `drive_header_headers`) and that it can be interrupted
(`drive_header_extend`).
-/

namespace OpenNtrip

/-! ## The header buffer -/

namespace HdrBuf

/-- The buffer with `n` more bytes parsed. -/
def advance (b : HdrBuf) (n : Nat) : HdrBuf where
  hdr := b.hdr
  hdrPos := min (b.hdrPos + n) b.hdr.length
  hdrPos_le := Nat.min_le_right _ _

@[simp] theorem hdr_advance (b : HdrBuf) (n : Nat) : (b.advance n).hdr = b.hdr := rfl

@[simp] theorem hdr_extend (b : HdrBuf) (more : Bytes) : (b.extend more).hdr = b.hdr ++ more := rfl

@[simp] theorem hdr_pos_extend (b : HdrBuf) (more : Bytes) :
    (b.extend more).hdrPos = b.hdrPos := rfl

@[simp] theorem unparsed_extend (b : HdrBuf) (more : Bytes) :
    (b.extend more).unparsed = b.unparsed ++ more :=
  List.drop_append_of_le_length b.hdrPos_le

theorem unparsed_length (b : HdrBuf) : b.unparsed.length = b.hdr.length - b.hdrPos := by
  simp [unparsed]

/-- Parsing lines that are in the buffer moves the cursor by their length. -/
theorem hdr_pos_advance {b : HdrBuf} {n : Nat} (h : n ≤ b.unparsed.length) :
    (b.advance n).hdrPos = b.hdrPos + n := by
  have hle := b.hdrPos_le
  rw [unparsed_length] at h
  show min (b.hdrPos + n) b.hdr.length = b.hdrPos + n
  omega

theorem unparsed_advance {b : HdrBuf} {n : Nat} (h : n ≤ b.unparsed.length) :
    (b.advance n).unparsed = b.unparsed.drop n := by
  show List.drop (b.advance n).hdrPos b.hdr = _
  rw [hdr_pos_advance h, unparsed, List.drop_drop]

/-- Buffers are equal when their bytes and cursors are. -/
theorem eq_of_fields {b b' : HdrBuf} (hhdr : b.hdr = b'.hdr) (hpos : b.hdrPos = b'.hdrPos) :
    b = b' := by
  cases b
  cases b'
  simp_all

@[simp] theorem advance_zero (b : HdrBuf) : b.advance 0 = b :=
  eq_of_fields rfl (Nat.min_eq_left b.hdrPos_le)

theorem advance_advance (b : HdrBuf) (n m : Nat) :
    (b.advance n).advance m = b.advance (n + m) := by
  refine eq_of_fields rfl ?_
  show min (min (b.hdrPos + n) b.hdr.length + m) b.hdr.length =
      min (b.hdrPos + (n + m)) b.hdr.length
  omega

@[simp] theorem extend_append (b : HdrBuf) (first second : Bytes) :
    b.extend (first ++ second) = (b.extend first).extend second := by
  simp [extend]

/-- Lines that are in the buffer are parsed the same when more bytes have been received. -/
theorem advance_extend {b : HdrBuf} {n : Nat} (h : n ≤ b.unparsed.length) (more : Bytes) :
    (b.extend more).advance n = (b.advance n).extend more := by
  have hle : n ≤ (b.extend more).unparsed.length := by
    rw [unparsed_extend, List.length_append]
    omega
  refine eq_of_fields rfl ?_
  rw [hdr_pos_advance hle, hdr_pos_extend, hdr_pos_extend, hdr_pos_advance h]

/-- Without a line feed no line is read. -/
theorem next_line_of_none {b : HdrBuf} (h : splitLine b.unparsed = none) : b.nextLine = none := by
  unfold nextLine
  split
  · rfl
  · next hsome => simp [h] at hsome

/-- Behind a line is what the line was split from. -/
theorem unparsed_after_line {b : HdrBuf} {raw rest : Bytes}
    (h : splitLine b.unparsed = some (raw, rest)) :
    (b.advance (raw.length + 1)).unparsed = rest := by
  have hlen := split_line_length h
  rw [unparsed_advance (by omega), (split_line_eq_some.mp h).1]
  simp

/-- What `nextLine` reads and how far it moves the cursor. -/
theorem next_line_of_split {b : HdrBuf} {raw rest : Bytes}
    (h : splitLine b.unparsed = some (raw, rest)) :
    b.nextLine = some (lineText raw, b.advance (raw.length + 1)) := by
  have hle : raw.length + 1 ≤ b.unparsed.length := by
    have := split_line_length h
    omega
  unfold nextLine
  split
  · next hnone => simp [hnone] at h
  · next hsome =>
      rw [hsome] at h
      obtain ⟨rfl, rfl⟩ := Prod.mk.inj (Option.some.inj h)
      rw [lineText]
      congr 2
      exact eq_of_fields rfl (hdr_pos_advance hle).symm

end HdrBuf

namespace NtripSession

/-! ## The parser and the session's answer -/

/-- The user sees each header line as it was received. -/
def rxLines (lines : List Text) : List Output := lines.map .protocolRx

/-- Only a stream holds bytes back. -/
theorem held_line_of_header {s : NtripSession} (h : s.phase.isHeader = true) :
    s.heldLine = [] := by
  obtain ⟨_, phase, _, _, _, _, _, _⟩ := s
  cases phase with
  | statusLine => rfl
  | httpHeaders info => rfl
  | _ => simp [Phase.isHeader] at h

/-- Refuse the response: close with the header lines parsed so far. -/
def refuse (s : NtripSession) (out : List Output) : NtripSession × Option Bytes × List Output :=
  let (raw, buf) := s.buf.takeHdrConsumed
  let (s, out') := { s with buf }.emitClose (.unknownResponse raw)
  (s, none, out ++ out')

/-- What the session does about the header lines parsed out of its buffer. -/
def takeAnswer (s : NtripSession) (now : Instant) (p : ParsedHeader) :
    NtripSession × Option Bytes × List Output :=
  let s := { s with buf := s.buf.advance p.used, phase := .statusLine }
  let out := rxLines p.lines
  match p.outcome with
  | .more phase => ({ s with phase }, none, out)
  | .complete .icy =>
    if s.mountpointRequested then
      ({ s with buf := {} }.enterStreaming now (.headers [] 0) none, some s.buf.unparsed, out)
    else s.refuse out
  | .complete .sourcetable =>
    ({ s with buf := {} }.enterTable now (.direct none), some s.buf.unparsed, out)
  | .complete .unknown => s.refuse out
  | .complete (.http info) =>
    let (s, leftover, out') := s.classifyHttp info now
    (s, leftover, out ++ out')

/-- Without header lines the session stays as it is. -/
theorem take_answer_none {s : NtripSession} {phase : Phase} (h : s.phase = phase)
    (now : Instant) : takeAnswer s now ⟨.more phase, [], 0⟩ = (s, none, []) := by
  subst h
  simp [takeAnswer, rxLines]

/-- Lines parsed earlier are shown earlier. -/
theorem take_answer_after (s : NtripSession) (now : Instant) (p : ParsedHeader)
    (before : List Text) (n : Nat) :
    takeAnswer s now (p.after before n) =
      let (s, leftover, out) := takeAnswer { s with buf := s.buf.advance n } now p
      (s, leftover, rxLines before ++ out) := by
  obtain ⟨outcome, lines, used⟩ := p
  simp only [takeAnswer, ParsedHeader.after, HdrBuf.advance_advance, rxLines, List.map_append]
  cases outcome with
  | more phase => rfl
  | complete answer =>
      cases answer with
      | icy =>
          simp only
          split
          · rfl
          · simp [refuse]
      | sourcetable => rfl
      | http info => simp
      | unknown => simp [refuse]

/-- What one line of the HTTP header block decides. -/
def onHeaderLine (s : NtripSession) (info : HttpInfo) (line : Text) (now : Instant) :
    NtripSession × Option Bytes × List Output :=
  if !(Text.trimAscii line).isEmpty then
    let (s, leftover, out) :=
      driveHeader { s with phase := .httpHeaders (info.headerLine line) } now
    (s, leftover, .protocolRx line :: out)
  else s.classifyHttp info now

/-- What the status line decides. -/
def onStatusLine (s : NtripSession) (line : Text) (now : Instant) :
    NtripSession × Option Bytes × List Output :=
  match statusKind line with
  | .icy =>
    if s.mountpointRequested then
      ({ s with buf := {} }.enterStreaming now (.headers [] 0) none, some s.buf.unparsed,
        [.protocolRx line])
    else s.refuse [.protocolRx line]
  | .sourcetable =>
    ({ s with buf := {} }.enterTable now (.direct none), some s.buf.unparsed, [.protocolRx line])
  | .http =>
    let (s, leftover, out) := driveHeader { s with phase := .httpHeaders { status := line } } now
    (s, leftover, .protocolRx line :: out)
  | .unknown => s.refuse []

/-- Without a complete line the header waits. -/
theorem drive_header_of_none {s : NtripSession} (hline : s.buf.nextLine = none) (now : Instant) :
    driveHeader s now = (s, none, []) := by
  rw [driveHeader]
  split
  · split
    · rfl
    · next h => simp [hline] at h
  · split
    · rfl
    · next h => simp [hline] at h
  · rfl

theorem drive_header_status {s : NtripSession} {line : Text} {buf : HdrBuf}
    (h : s.phase = .statusLine) (hline : s.buf.nextLine = some (line, buf)) (now : Instant) :
    driveHeader s now = onStatusLine { s with buf } line now := by
  rw [driveHeader]
  simp only [h]
  split
  · next hnone => simp [hline] at hnone
  · next hsome =>
      rw [hline] at hsome
      obtain ⟨rfl, rfl⟩ := Prod.mk.inj (Option.some.inj hsome)
      unfold onStatusLine
      cases statusKind line with
      | icy =>
          cases hmount : s.mountpointRequested with
          | true => rfl
          | false => rfl
      | sourcetable => rfl
      | http => rfl
      | unknown => rfl

theorem drive_header_headers {s : NtripSession} {info : HttpInfo} {line : Text} {buf : HdrBuf}
    (h : s.phase = .httpHeaders info) (hline : s.buf.nextLine = some (line, buf))
    (now : Instant) : driveHeader s now = onHeaderLine { s with buf } info line now := by
  rw [driveHeader]
  simp only [h]
  split
  · next hnone => simp [hline] at hnone
  · next hsome =>
      rw [hline] at hsome
      obtain ⟨rfl, rfl⟩ := Prod.mk.inj (Option.some.inj hsome)
      rfl

/-- Classifying a header block does not depend on the phase that is left. -/
theorem classify_http_phase {s : NtripSession} (h : s.phase.isHeader = true) (info : HttpInfo)
    (now : Instant) :
    classifyHttp { s with phase := .statusLine } info now = classifyHttp s info now := by
  obtain ⟨_, phase, _, _, _, _, _, _⟩ := s
  cases phase with
  | statusLine => rfl
  | httpHeaders _ => rfl
  | _ => simp [Phase.isHeader] at h

/-- Reading a header block out of the buffer is parsing it. -/
theorem drive_header_block (s : NtripSession) (info : HttpInfo) (now : Instant)
    (h : s.phase = .httpHeaders info) :
    driveHeader s now = s.takeAnswer now (parseBlock info s.buf.unparsed) := by
  induction hn : s.buf.unparsed.length using Nat.strong_induction_on generalizing s info with
  | _ n ih =>
  subst hn
  cases hsplit : splitLine s.buf.unparsed with
  | none =>
      rw [drive_header_of_none (HdrBuf.next_line_of_none hsplit), parse_block_open hsplit]
      exact (take_answer_none h now).symm
  | some pair =>
      obtain ⟨raw, rest⟩ := pair
      have hlen := split_line_length hsplit
      have hrest := HdrBuf.unparsed_after_line hsplit
      rw [drive_header_headers h (HdrBuf.next_line_of_split hsplit), parse_block_line hsplit,
        onHeaderLine]
      by_cases hblank : (Text.trimAscii (lineText raw)).isEmpty = true
      · rw [if_pos hblank, if_neg (by simp [hblank])]
        show classifyHttp _ info now = _
        rw [← classify_http_phase (by rw [h]; rfl)]
        rfl
      · rw [if_neg hblank, if_pos (by simpa using hblank)]
        rw [ih rest.length (by omega) _ (info.headerLine (lineText raw)) rfl (by rw [← hrest])]
        rw [take_answer_after]
        simp only [hrest]
        rfl

/-- Reading a response header out of the buffer is parsing it. -/
theorem drive_header_first (s : NtripSession) (now : Instant) (h : s.phase = .statusLine) :
    driveHeader s now = s.takeAnswer now (parseHeader s.buf.unparsed) := by
  unfold parseHeader
  cases hsplit : splitLine s.buf.unparsed with
  | none =>
      rw [drive_header_of_none (HdrBuf.next_line_of_none hsplit)]
      exact (take_answer_none h now).symm
  | some pair =>
      obtain ⟨raw, rest⟩ := pair
      have hrest := HdrBuf.unparsed_after_line hsplit
      rw [drive_header_status h (HdrBuf.next_line_of_split hsplit), onStatusLine]
      simp only
      cases statusKind (lineText raw) with
      | icy => simp only [takeAnswer, rxLines, List.map_cons, List.map_nil, ← h]
      | sourcetable => rfl
      | http =>
          simp only
          rw [drive_header_block _ { status := lineText raw } now rfl, take_answer_after]
          simp only [hrest]
          rfl
      | unknown => simp only [takeAnswer, rxLines, List.map_nil, ← h]

/-- Driving the header is parsing what is left of the buffer and answering it. -/
theorem drive_header_eq (s : NtripSession) (now : Instant) :
    driveHeader s now = s.takeAnswer now (parseFrom s.phase s.buf.unparsed) := by
  cases hphase : s.phase with
  | statusLine => exact drive_header_first s now hphase
  | httpHeaders info => exact drive_header_block s info now hphase
  | _ =>
      rw [parseFrom, driveHeader]
      · simp only [hphase]
        exact (take_answer_none hphase now).symm
      all_goals simp

/-! ## What a caller can tell apart -/

/-- The session as its caller can observe it: nothing reads the header buffer of a session that is
done. -/
def visible (s : NtripSession) : NtripSession :=
  if s.phase = .done then { s with buf := {} } else s

/-- Two sessions that no caller can tell apart. -/
def Indistinguishable (s s' : NtripSession) : Prop := s.visible = s'.visible

theorem indistinguishable_equivalence : Equivalence Indistinguishable where
  refl _ := rfl
  symm h := h.symm
  trans h h' := h.trans h'

/-- The buffer of a session that is done can be anything. -/
theorem indistinguishable_of_done {s : NtripSession} (h : s.phase = .done) (buf : HdrBuf) :
    Indistinguishable s { s with buf } := by
  simp [Indistinguishable, visible, h]

/-- Sessions that no caller can tell apart are equal or both done and equal but for the buffer. -/
theorem Indistinguishable.cases {s s' : NtripSession} (h : Indistinguishable s s') :
    s = s' ∨ s.phase = .done ∧ s' = { s with buf := s'.buf } := by
  unfold Indistinguishable visible at h
  split at h
  · next hdone =>
      split at h
      · next hdone' =>
          refine .inr ⟨hdone, ?_⟩
          cases s
          cases s'
          simp_all
      · next hdone' => rw [← h] at hdone'; exact absurd hdone hdone'
  · next hdone =>
      split at h
      · next hdone' => rw [h] at hdone; exact absurd hdone' hdone
      · exact .inl h

/-! ## Interrupting the header -/

/-- What a further block adds to the outcome of driving the header over a first one. -/
def thenDrive (more : Bytes) (now : Instant) :
    NtripSession × Option Bytes × List Output → NtripSession × Option Bytes × List Output
  | (s, some leftover, out) => (s, some (leftover ++ more), out)
  | (s, none, out) =>
    if s.phase.isHeader then
      let (s, leftover, out') := driveHeader { s with buf := s.buf.extend more } now
      (s, leftover, out ++ out')
    else (s, none, out)

/-- Outcomes of driving the header that no caller can tell apart. -/
def DriveAgree (left right : NtripSession × Option Bytes × List Output) : Prop :=
  Indistinguishable left.1 right.1 ∧ left.2 = right.2

theorem DriveAgree.of_eq {left right : NtripSession × Option Bytes × List Output}
    (h : left = right) : DriveAgree left right := by
  subst h
  exact ⟨rfl, rfl⟩

/-- A close forgets the header buffer. -/
theorem indistinguishable_emit_close (s : NtripSession) (buf : HdrBuf) (reason : CloseReason) :
    Indistinguishable ({ s with buf }.emitClose reason).1 (s.emitClose reason).1 := rfl

/-- A complete header is answered the same whatever follows it. -/
theorem take_answer_extend {s : NtripSession} {p : ParsedHeader} {answer : Answer}
    (hcomplete : p.outcome = .complete answer) (hused : p.used ≤ s.buf.unparsed.length)
    (now : Instant) (more : Bytes) :
    DriveAgree (takeAnswer { s with buf := s.buf.extend more } now p)
      (thenDrive more now (takeAnswer s now p)) := by
  obtain ⟨outcome, lines, used⟩ := p
  subst hcomplete
  simp only at hused
  have hconsumed : ((s.buf.advance used).extend more).takeHdrConsumed =
      (s.buf.advance used).takeHdrConsumed := by
    have hle : (s.buf.advance used).hdrPos ≤ s.buf.hdr.length := (s.buf.advance used).hdrPos_le
    simp [HdrBuf.takeHdrConsumed, List.take_append_of_le_length hle]
  have hleftover : ((s.buf.advance used).extend more).takeHdrLeftover =
      ((s.buf.advance used).unparsed ++ more, {}) := by
    simp [HdrBuf.takeHdrLeftover]
  cases answer with
  | icy =>
      simp only [takeAnswer, HdrBuf.advance_extend hused, refuse, hconsumed, HdrBuf.unparsed_extend]
      split
      · exact .of_eq rfl
      · exact .of_eq rfl
  | sourcetable =>
      simp only [takeAnswer, HdrBuf.advance_extend hused, HdrBuf.unparsed_extend]
      exact .of_eq rfl
  | unknown =>
      simp only [takeAnswer, HdrBuf.advance_extend hused, refuse, hconsumed]
      exact .of_eq rfl
  | http info =>
      simp only [takeAnswer, HdrBuf.advance_extend hused, classifyHttp, hconsumed, hleftover]
      split
      · -- the only close that leaves the buffer filled
        exact ⟨indistinguishable_emit_close
          { s with buf := s.buf.advance used, phase := .statusLine } _ .unauthorized, rfl⟩
      · split
        · exact .of_eq rfl
        · split
          · exact .of_eq rfl
          · exact .of_eq rfl

/-- The answer to a complete header leaves the header phases. -/
theorem take_answer_complete (s : NtripSession) (now : Instant) {p : ParsedHeader} {answer : Answer}
    (h : p.outcome = .complete answer) : (takeAnswer s now p).1.phase.isHeader = false := by
  cases answer with
  | icy =>
      simp only [takeAnswer, h]
      split
      · rfl
      · rfl
  | sourcetable => simp only [takeAnswer, h]; rfl
  | unknown => simp only [takeAnswer, h]; rfl
  | http info =>
      simp only [takeAnswer, h, classifyHttp]
      split
      · rfl
      · split
        · rfl
        · split
          · rfl
          · rfl

theorem parse_from_more_isHeader {phase phase' : Phase} {bytes : Bytes}
    (hphase : phase.isHeader = true) (h : (parseFrom phase bytes).outcome = .more phase') :
    phase'.isHeader = true := by
  cases phase with
  | statusLine => exact parse_header_more_isHeader h
  | httpHeaders info => exact parse_block_more_isHeader h
  | _ => simp [Phase.isHeader] at hphase

/-- Driving the header over two blocks one after the other is driving it over both. -/
theorem drive_header_extend {s : NtripSession} (hphase : s.phase.isHeader = true)
    (now : Instant) (more : Bytes) :
    DriveAgree (driveHeader { s with buf := s.buf.extend more } now)
      (thenDrive more now (driveHeader s now)) := by
  have hused := parse_from_used_le s.phase s.buf.unparsed
  rw [drive_header_eq s, drive_header_eq]
  simp only [HdrBuf.unparsed_extend]
  rw [parse_from_append]
  cases houtcome : (parseFrom s.phase s.buf.unparsed).outcome with
  | complete answer =>
      simp only [ParsedHeader.extend, houtcome]
      exact take_answer_extend houtcome hused now more
  | more phase =>
      have hheader := parse_from_more_isHeader hphase houtcome
      refine .of_eq ?_
      generalize hp : parseFrom s.phase s.buf.unparsed = p at hused houtcome
      obtain ⟨outcome, lines, used⟩ := p
      simp only at houtcome hused
      subst houtcome
      simp only [ParsedHeader.extend]
      rw [take_answer_after, HdrBuf.advance_extend hused, ← HdrBuf.unparsed_advance hused,
        ← HdrBuf.unparsed_extend]
      simp only [takeAnswer, thenDrive, hheader, if_true]
      rw [drive_header_eq]
      rfl

end NtripSession
end OpenNtrip
