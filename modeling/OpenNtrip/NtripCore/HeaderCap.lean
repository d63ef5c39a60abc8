import OpenNtrip.NtripCore.SessionSplit

/-!
# The header cap

`on_bytes_eq` takes `onBytes` apart into `absorb` and the cap check. `AwaitsHeader` is the
invariant of a session whose response header is unfinished: its buffer holds everything
received and its phase is the parser's. With it the cap is decided by lengths: it trips in
a feed that leaves more than `HDR_CAP` bytes without a complete header.
-/

namespace OpenNtrip
namespace NtripSession

/-! ## The cap check -/

/-- The header is unfinished and longer than the cap. -/
def overCap (s : NtripSession) : Bool := s.phase.isHeader && decide (HDR_CAP < s.buf.hdr.length)

/-- Close a session that is over the cap. -/
def capClose (answer : NtripSession × List Output) : NtripSession × List Output :=
  let (s, out) := answer
  if s.overCap then
    let (raw, buf) := s.buf.takeHdrAll
    let (s, out') := { s with buf }.emitClose (.unknownResponse raw)
    (s, out ++ out')
  else (s, out)

theorem cap_close_of_not {s : NtripSession} (h : s.overCap = false) (out : List Output) :
    capClose (s, out) = (s, out) := by
  simp only [capClose, h, Bool.false_eq_true, if_false]

/-- Outputs emitted before the cap check stay in front. -/
theorem cap_close_append (s : NtripSession) (before out : List Output) :
    capClose (s, before ++ out) = ((capClose (s, out)).1, before ++ (capClose (s, out)).2) := by
  cases hcap : s.overCap with
  | false => rw [cap_close_of_not hcap, cap_close_of_not hcap]
  | true => simp only [capClose, hcap, if_true, List.append_assoc]

theorem over_cap_of_not_header {s : NtripSession} (h : s.phase.isHeader = false) :
    s.overCap = false := by
  simp [overCap, h]

/-- Bytes that finish the header lead to a body or to the end of the session. -/
theorem absorb_not_header (now : Instant) {s : NtripSession} (h : s.phase.isHeader = false)
    (data : Bytes) : (absorb now s data).1.phase.isHeader = false := by
  cases hbody : s.phase.isBody with
  | false =>
      rw [absorb, h, hbody]
      exact h
  | true =>
      obtain ⟨phase, closed, hspec, hphase⟩ := ingest_body_spec { s with lastRx := now } data
      rw [absorb, h, hbody]
      simp only [Bool.false_eq_true, if_false, if_true]
      rw [hspec]
      exact hphase h

/-- A block received in a header phase is driven through the header and, when that is complete, goes
on to the body. -/
theorem absorb_header {s : NtripSession} (h : s.phase.isHeader = true) (data : Bytes)
    (now : Instant) :
    (∃ s' out, driveHeader (s.buffering data now) now =
        (s', none, out) ∧ absorb now s data = (s', out)) ∨
      ∃ s' leftover out, driveHeader (s.buffering data now) now =
          (s', some leftover, out) ∧
        absorb now s data =
          ((s'.ingestBody leftover).1, out ++ (s'.ingestBody leftover).2) ∧
        (absorb now s data).1.phase.isHeader = false := by
  have habsorb : absorb now s data =
      enterBody (driveHeader (s.buffering data now) now) := by
    simp only [absorb, h, if_true]
  have hrx : (s.buffering data now).lastRx = now := rfl
  obtain ⟨phase, buf, closed, gga, hstate, hnext⟩ := drive_header_spec hrx h
  rw [habsorb]
  generalize driveHeader (s.buffering data now) now = outcome at hstate hnext ⊢
  obtain ⟨s', leftover, out⟩ := outcome
  simp only at hstate hnext
  cases leftover with
  | none => exact .inl ⟨s', out, rfl, rfl⟩
  | some leftover =>
      refine .inr ⟨s', leftover, out, rfl, rfl, ?_⟩
      have hbody : phase.isBody = true := by simpa using hnext
      have hnot : s'.phase.isHeader = false := by
        rw [hstate]
        exact Phase.not_isHeader_of_isBody hbody
      obtain ⟨phase', closed', hspec, hphase'⟩ := ingest_body_spec s' leftover
      show (s'.ingestBody leftover).1.phase.isHeader = false
      rw [hspec]
      exact hphase' hnot

/-- What `onBytes` does in a header phase. -/
theorem on_bytes_header {s : NtripSession} (h : s.phase.isHeader = true) (data : Bytes)
    (now : Instant) :
    s.onBytes data now =
      match driveHeader (s.flushPending.1.buffering data now) now with
      | (s', some leftover, out) =>
        ((s'.ingestBody leftover).1, s.pending ++ out ++ (s'.ingestBody leftover).2)
      | (s', none, out) => capClose (s', s.pending ++ out) := by
  unfold onBytes capClose overCap
  simp only [Bool.and_eq_true, decide_eq_true_eq]
  cases hphase : s.phase with
  | statusLine =>
      simp only [flushPending, buffering, hphase]
      rcases driveHeader _ now with ⟨s', leftover, out⟩
      cases leftover with
      | none => rfl
      | some leftover => rfl
  | httpHeaders info =>
      simp only [flushPending, buffering, hphase]
      rcases driveHeader _ now with ⟨s', leftover, out⟩
      cases leftover with
      | none => rfl
      | some leftover => rfl
  | _ => simp [hphase, Phase.isHeader] at h

/-- `onBytes` flushes the request lines, absorbs the bytes and checks the cap. -/
theorem on_bytes_eq (s : NtripSession) (data : Bytes) (now : Instant) :
    s.onBytes data now =
      capClose ((absorb now s.flushPending.1 data).1,
        s.pending ++ (absorb now s.flushPending.1 data).2) := by
  cases hheader : s.phase.isHeader with
  | false =>
      have hnot := absorb_not_header now (s := s.flushPending.1) hheader data
      rw [cap_close_of_not (over_cap_of_not_header hnot)]
      cases hphase : s.phase with
      | done => simp [onBytes, flushPending, absorb, hphase, Phase.isHeader, Phase.isBody]
      | table t => simp [onBytes, flushPending, absorb, hphase, Phase.isHeader, Phase.isBody]
      | streaming st => simp [onBytes, flushPending, absorb, hphase, Phase.isHeader, Phase.isBody]
      | _ => simp [hphase, Phase.isHeader] at hheader
  | true =>
      rw [on_bytes_header hheader]
      rcases absorb_header (s := s.flushPending.1) hheader data now with
        ⟨s', out, hdrive, habsorb⟩ | ⟨s', leftover, out, hdrive, habsorb, hnot⟩
      · rw [hdrive, habsorb]
      · rw [hdrive, cap_close_of_not (over_cap_of_not_header hnot), habsorb]
        simp only [List.append_assoc]

/-- The request lines are flushed in front of what the block brings. -/
theorem on_bytes_flush (s : NtripSession) (data : Bytes) (now : Instant) :
    s.onBytes data now =
      ((s.flushPending.1.onBytes data now).1,
        s.pending ++ (s.flushPending.1.onBytes data now).2) := by
  rw [on_bytes_eq, on_bytes_eq, cap_close_append]
  rfl

/-- A session that is done ignores its input. -/
theorem on_bytes_done {s : NtripSession} (h : s.phase = .done) (data : Bytes) (now : Instant) :
    s.onBytes data now = (s.flushPending.1, s.pending) := by
  simp [onBytes, flushPending, h]

/-- Past the header a block is part of the body. -/
theorem on_bytes_body {s : NtripSession} (hpending : s.pending = []) (h : s.phase.isBody = true)
    (data : Bytes) (now : Instant) :
    s.onBytes data now = { s with lastRx := now }.ingestBody data := by
  have hflush : s.flushPending.1 = s := by rw [flushPending, ← hpending]
  have hheader := Phase.not_isHeader_of_isBody h
  have hnot := absorb_not_header now hheader data
  have hbody : absorb now s data = { s with lastRx := now }.ingestBody data := by
    simp only [absorb, hheader, h, Bool.false_eq_true, if_false, if_true]
  have heq := on_bytes_eq s data now
  rw [hflush, hpending, List.nil_append, cap_close_of_not (over_cap_of_not_header hnot)] at heq
  exact heq.trans hbody

/-! ## The unfinished header -/

/-- The session waits for the rest of a response header of which it has received `received`. -/
structure AwaitsHeader (s : NtripSession) (received : Bytes) : Prop where
  buffered : s.buf.hdr = received
  parsed : s.buf.hdrPos = (parseHeader received).used
  phase : (parseHeader received).outcome = .more s.phase

namespace AwaitsHeader

variable {s : NtripSession} {received : Bytes}

theorem isHeader (h : AwaitsHeader s received) : s.phase.isHeader = true :=
  parse_header_more_isHeader h.phase

/-- The invariant is about the header buffer and the phase only. -/
theorem congr (h : AwaitsHeader s received) {s' : NtripSession} (hbuf : s'.buf = s.buf)
    (hphase : s'.phase = s.phase) : AwaitsHeader s' received :=
  ⟨hbuf ▸ h.buffered, hbuf ▸ h.parsed, hphase ▸ h.phase⟩

/-- Parsing on in the session's phase is parsing everything received. -/
theorem parse_append (h : AwaitsHeader s received) (data : Bytes) :
    parseHeader (received ++ data) =
      (parseFrom s.phase (s.buf.unparsed ++ data)).after (parseHeader received).lines
        s.buf.hdrPos := by
  rw [parse_header_append]
  simp only [ParsedHeader.extend, h.phase]
  rw [HdrBuf.unparsed, h.buffered, h.parsed]

/-- A block is parsed on and the header, when it is complete, answered. -/
theorem absorb_eq (h : AwaitsHeader s received) (data : Bytes) (now : Instant) :
    absorb now s data =
      enterBody (takeAnswer (s.buffering data now) now
        (parseFrom s.phase (s.buf.unparsed ++ data))) := by
  simp only [absorb, h.isHeader, if_true, drive_header_eq, buffering, HdrBuf.unparsed_extend]

/-- The lines of the header are shown before what the answer brings. -/
theorem enter_body_prepend (first : List Output)
    (outcome : NtripSession × Option Bytes × List Output) :
    enterBody (outcome.1, outcome.2.1, first ++ outcome.2.2) =
      ((enterBody outcome).1, first ++ (enterBody outcome).2) := by
  obtain ⟨s', leftover, rest⟩ := outcome
  cases leftover with
  | none => rfl
  | some leftover =>
      simp only [enterBody]
      rw [List.append_assoc]

/-- A block that finishes the header: its lines are shown, and the session answers with the body
before it. -/
theorem absorb_complete (h : AwaitsHeader s received) {data : Bytes} {answer : Answer}
    (hanswer : (parseHeader (received ++ data)).outcome = .complete answer) (now : Instant) :
    ∃ (s' : NtripSession) (lines : List Text),
      s'.phase = .statusLine ∧ s'.pending = s.pending ∧
        s'.mountpointRequested = s.mountpointRequested ∧
        s'.buf.unparsed = (received ++ data).drop (parseHeader (received ++ data)).used ∧
        (parseHeader (received ++ data)).lines = (parseHeader received).lines ++ lines ∧
        absorb now s data =
          ((enterBody (takeAnswer s' now ⟨.complete answer, [], 0⟩)).1,
            rxLines lines ++ (enterBody (takeAnswer s' now ⟨.complete answer, [], 0⟩)).2) := by
  have hparse := h.parse_append data
  have hused := parse_from_used_le s.phase (s.buf.unparsed ++ data)
  rw [h.absorb_eq]
  generalize parseFrom s.phase (s.buf.unparsed ++ data) = p at hparse hused
  obtain ⟨outcome, lines, used⟩ := p
  rw [hparse] at hanswer
  obtain rfl : outcome = .complete answer := hanswer
  refine ⟨{ s.buffering data now with
      phase := .statusLine, buf := (s.buf.extend data).advance used }, lines, rfl, rfl, rfl,
    ?_, ?_, ?_⟩
  · have hused' : used ≤ (s.buf.extend data).unparsed.length := by
      rw [HdrBuf.unparsed_extend]
      exact hused
    show ((s.buf.extend data).advance used).unparsed = _
    rw [HdrBuf.unparsed_advance hused', HdrBuf.unparsed, List.drop_drop, hparse]
    show (s.buf.hdr ++ data).drop (s.buf.hdrPos + used) =
        (received ++ data).drop (s.buf.hdrPos + used)
    rw [h.buffered]
  · rw [hparse]
    rfl
  · have hafter := take_answer_after (s.buffering data now) now ⟨.complete answer, [], 0⟩ lines used
    simp only [ParsedHeader.after, List.append_nil, Nat.add_zero] at hafter
    rw [hafter, enter_body_prepend]
    rfl

/-- A block that does not finish the header is buffered, and its lines are shown. -/
theorem absorb_unfinished (h : AwaitsHeader s received) {data : Bytes}
    (hlen : headerLength (received ++ data) = none) (now : Instant) :
    ∃ phase buf lines,
      absorb now s data = ({ s with lastRx := now, phase, buf }, rxLines lines) ∧
        (parseHeader (received ++ data)).lines = (parseHeader received).lines ++ lines ∧
        AwaitsHeader (absorb now s data).1 (received ++ data) := by
  have hparse := h.parse_append data
  have hused := parse_from_used_le s.phase (s.buf.unparsed ++ data)
  obtain ⟨phase, hmore⟩ := header_length_eq_none.mp hlen
  rw [h.absorb_eq]
  generalize parseFrom s.phase (s.buf.unparsed ++ data) = p at hparse hused
  obtain ⟨outcome, lines, used⟩ := p
  rw [hparse] at hmore
  simp only [ParsedHeader.after] at hmore
  subst hmore
  refine ⟨phase, (s.buf.extend data).advance used, lines, rfl, by rw [hparse]; rfl, ?_, ?_, ?_⟩
  · show s.buf.hdr ++ data = received ++ data
    rw [h.buffered]
  · show ((s.buf.extend data).advance used).hdrPos = _
    rw [HdrBuf.hdr_pos_advance (by rw [HdrBuf.unparsed_extend]; exact hused), hparse]
    rfl
  · rw [hparse]
    rfl

/-- A block that finishes the header ends the header phases. -/
theorem absorb_finished (h : AwaitsHeader s received) {data : Bytes} {n : Nat}
    (hlen : headerLength (received ++ data) = some n) (now : Instant) :
    (absorb now s data).1.phase.isHeader = false := by
  have hparse := h.parse_append data
  obtain ⟨⟨answer, hanswer⟩, -⟩ := header_length_eq_some.mp hlen
  rw [hparse] at hanswer
  rw [h.absorb_eq]
  have hdone := take_answer_complete (s.buffering data now) now
    (p := parseFrom s.phase (s.buf.unparsed ++ data)) hanswer
  generalize takeAnswer (s.buffering data now) now _ = outcome at hdone ⊢
  obtain ⟨s', leftover, out⟩ := outcome
  cases leftover with
  | none => exact hdone
  | some leftover =>
      obtain ⟨phase, closed, hspec, hphase⟩ := ingest_body_spec s' leftover
      simp only [enterBody]
      rw [hspec]
      exact hphase hdone

end AwaitsHeader

/-- A new session for a response has received nothing. -/
theorem new_awaits_header {cfg : SessionConfig} (h : cfg.transport = .ntrip) (t0 : Instant) :
    AwaitsHeader (new cfg t0).1 [] := by
  have hnew : (new cfg t0).1.buf = {} ∧ (new cfg t0).1.phase = .statusLine := by
    simp [new, h]
  refine ⟨?_, ?_, ?_⟩
  · rw [hnew.1]
  · rw [hnew.1]; rfl
  · rw [hnew.2]; rfl

/-- The session waits for the rest of a header that is within the cap. -/
def AwaitsWithinCap (s : NtripSession) (received : Bytes) : Prop :=
  AwaitsHeader s received ∧ received.length ≤ HDR_CAP

/-- A block that leaves the header unfinished closes the session, with all that was received, or is
buffered. -/
theorem on_bytes_unfinished {s : NtripSession} {received : Bytes} (h : AwaitsHeader s received)
    {data : Bytes} (hlen : headerLength (received ++ data) = none) (now : Instant) :
    (HDR_CAP < (received ++ data).length ∧ (s.onBytes data now).1.phase = .done ∧
        ∃ lines, (s.onBytes data now).2 =
          s.pending ++ rxLines lines ++ [.close (.unknownResponse (received ++ data))]) ∨
      AwaitsWithinCap (s.onBytes data now).1 (received ++ data) ∧
        ∃ lines, (s.onBytes data now).2 = s.pending ++ rxLines lines := by
  have hflush : AwaitsHeader s.flushPending.1 received := h.congr rfl rfl
  obtain ⟨phase, buf, lines, habsorb, -, hawaits⟩ := hflush.absorb_unfinished hlen now
  have hcap : (absorb now s.flushPending.1 data).1.overCap =
      decide (HDR_CAP < (received ++ data).length) := by
    rw [overCap, hawaits.isHeader, hawaits.buffered, Bool.true_and]
  rw [on_bytes_eq]
  by_cases hlt : HDR_CAP < (received ++ data).length
  · have hheld : heldLine { (absorb now s.flushPending.1 data).1 with buf := {} } = [] :=
      held_line_of_header hawaits.isHeader
    have hbuf : (absorb now s.flushPending.1 data).1.buf.hdr = received ++ data := hawaits.buffered
    refine .inl ⟨hlt, ?_⟩
    rw [decide_eq_true hlt] at hcap
    simp only [capClose, hcap, if_true, HdrBuf.takeHdrAll, emitClose, hheld, hbuf]
    refine ⟨trivial, lines, ?_⟩
    rw [habsorb]
    rfl
  · rw [decide_eq_false hlt] at hcap
    rw [cap_close_of_not hcap]
    exact .inr ⟨⟨hawaits, Nat.le_of_not_lt hlt⟩, lines, by rw [habsorb]⟩

/-- A block that completes the header ends the header phases. -/
theorem on_bytes_finished {s : NtripSession} {received : Bytes} (h : AwaitsHeader s received)
    {data : Bytes} {n : Nat} (hlen : headerLength (received ++ data) = some n) (now : Instant) :
    s.onBytes data now = ((absorb now s.flushPending.1 data).1,
      s.pending ++ (absorb now s.flushPending.1 data).2) ∧
      (s.onBytes data now).1.phase.isHeader = false := by
  have hflush : AwaitsHeader s.flushPending.1 received := h.congr rfl rfl
  have hnot := hflush.absorb_finished hlen now
  rw [on_bytes_eq, cap_close_of_not (over_cap_of_not_header hnot)]
  exact ⟨rfl, hnot⟩

/-! ## When the cap trips -/

/-- The cap check of `onBytes` fires in this feed: the header is still unfinished after the parser
has seen the data, and the buffer is over the cap. -/
def capTrips (s : NtripSession) (data : Bytes) (now : Instant) : Bool :=
  s.phase.isHeader &&
    let (s, leftover, _) :=
      driveHeader (s.flushPending.1.buffering data now) now
    leftover.isNone && s.phase.isHeader && decide (HDR_CAP < s.buf.hdr.length)

/-- Some feed of the run closes the session because the header is over the cap. -/
def closedByCap (now : Instant) : NtripSession → List Bytes → Bool
  | _, [] => false
  | s, data :: rest => s.capTrips data now || closedByCap now (s.onBytes data now).1 rest

theorem cap_trips_eq (s : NtripSession) (data : Bytes) (now : Instant) :
    s.capTrips data now = (absorb now s.flushPending.1 data).1.overCap := by
  unfold capTrips
  cases hheader : s.phase.isHeader with
  | false =>
      rw [over_cap_of_not_header (absorb_not_header now (s := s.flushPending.1) hheader data)]
      rfl
  | true =>
      rcases absorb_header (s := s.flushPending.1) hheader data now with
        ⟨s', out, hdrive, habsorb⟩ | ⟨s', leftover, out, hdrive, habsorb, hnot⟩
      · rw [hdrive, habsorb]
        simp [overCap]
      · rw [hdrive, over_cap_of_not_header hnot]
        rfl

/-- The cap trips when what was received is over the cap and holds no complete header. -/
theorem cap_trips_iff {s : NtripSession} {received : Bytes} (h : AwaitsHeader s received)
    (data : Bytes) (now : Instant) : s.capTrips data now = true ↔
      headerLength (received ++ data) = none ∧ HDR_CAP < (received ++ data).length := by
  have hflush : AwaitsHeader s.flushPending.1 received := h.congr rfl rfl
  rw [cap_trips_eq]
  cases hlen : headerLength (received ++ data) with
  | some n =>
      rw [over_cap_of_not_header (hflush.absorb_finished hlen now)]
      simp
  | none =>
      obtain ⟨-, -, -, -, -, hawaits⟩ := hflush.absorb_unfinished hlen now
      rw [overCap, hawaits.isHeader, hawaits.buffered, Bool.true_and, decide_eq_true_eq]
      simp

/-- Once the header phases are over the cap never trips. -/
theorem closed_by_cap_not_header {s : NtripSession} (h : s.phase.isHeader = false)
    (now : Instant) (blocks : List Bytes) : closedByCap now s blocks = false := by
  induction blocks generalizing s with
  | nil => rfl
  | cons data rest ih =>
      have hnot := absorb_not_header now (s := s.flushPending.1) h data
      have hcap := over_cap_of_not_header hnot
      rw [closedByCap, cap_trips_eq, hcap, Bool.false_or]
      refine ih ?_
      rw [on_bytes_eq, cap_close_of_not hcap]
      exact hnot

/-- The cap trips exactly when some feed leaves more than `HDR_CAP` bytes of unfinished header. -/
theorem closed_by_cap_iff {s : NtripSession} {received : Bytes} (h : AwaitsHeader s received)
    (hle : received.length ≤ HDR_CAP) (now : Instant) (blocks : List Bytes) :
    closedByCap now s blocks = true ↔
      ∃ before after, blocks = before ++ after ∧
        headerLength (received ++ before.flatten) = none ∧
        HDR_CAP < (received ++ before.flatten).length := by
  induction blocks generalizing s received with
  | nil =>
      simp only [closedByCap, Bool.false_eq_true, false_iff]
      rintro ⟨before, after, hblocks, -, hlt⟩
      obtain ⟨rfl, -⟩ := List.append_eq_nil_iff.mp hblocks.symm
      simp only [List.flatten_nil, List.append_nil] at hlt
      omega
  | cons data rest ih =>
      have hflush : AwaitsHeader s.flushPending.1 received := h.congr rfl rfl
      have hsplit : (∃ before after, data :: rest = before ++ after ∧
            headerLength (received ++ before.flatten) = none ∧
            HDR_CAP < (received ++ before.flatten).length) ↔
          ∃ before after, rest = before ++ after ∧
            headerLength (received ++ data ++ before.flatten) = none ∧
            HDR_CAP < (received ++ data ++ before.flatten).length := by
        constructor
        · rintro ⟨before, after, hblocks, hnone, hlt⟩
          cases before with
          | nil =>
              simp only [List.flatten_nil, List.append_nil] at hlt
              omega
          | cons first before =>
              obtain ⟨rfl, rfl⟩ := List.cons.inj hblocks
              refine ⟨before, after, rfl, ?_, ?_⟩
              · simpa using hnone
              · simpa using hlt
        · rintro ⟨before, after, rfl, hnone, hlt⟩
          refine ⟨data :: before, after, rfl, ?_, ?_⟩
          · simpa using hnone
          · simpa using hlt
      rw [hsplit, closedByCap, Bool.or_eq_true, cap_trips_iff h]
      cases hlen : headerLength (received ++ data) with
      | some n =>
          -- the header is complete, for this feed and for every later one
          rw [closed_by_cap_not_header (on_bytes_finished h hlen now).2]
          simp only [reduceCtorEq, false_and, Bool.false_eq_true, or_self, false_iff]
          rintro ⟨before, after, -, hnone, -⟩
          rw [header_length_append hlen] at hnone
          simp at hnone
      | none =>
          by_cases hlt : HDR_CAP < (received ++ data).length
          · simp only [hlt, and_self, true_or, true_iff]
            exact ⟨[], rest, rfl, by simpa using hlen, by simpa using hlt⟩
          · rcases on_bytes_unfinished h hlen now with ⟨hover, -⟩ | ⟨⟨hnext, hle'⟩, -⟩
            · exact absurd hover hlt
            · rw [ih hnext hle']
              simp only [hlt, and_false, false_or]

/-- A feed in which the cap trips closes the session with everything received. -/
theorem cap_trips_close {s : NtripSession} {received : Bytes} (h : AwaitsHeader s received)
    {data : Bytes} {now : Instant} (htrips : s.capTrips data now = true) :
    (s.onBytes data now).1.phase = .done ∧
      ∃ out, (s.onBytes data now).2 = out ++ [.close (.unknownResponse (received ++ data))] := by
  obtain ⟨hlen, hover⟩ := (cap_trips_iff h data now).mp htrips
  rcases on_bytes_unfinished h hlen now with ⟨-, hdone, lines, hout⟩ | ⟨⟨-, hle⟩, -⟩
  · exact ⟨hdone, _, hout⟩
  · omega

/-- A header that is complete in one feed never trips the cap: parsing has the first look. -/
theorem closed_by_cap_one {s : NtripSession} (h : AwaitsHeader s []) (now : Instant)
    {bytes : Bytes} {n : Nat} (hlen : headerLength bytes = some n) :
    closedByCap now s [bytes] = false := by
  rw [← Bool.not_eq_true, closed_by_cap_iff h (Nat.zero_le _)]
  rintro ⟨before, after, hblocks, hnone, hcap⟩
  cases before with
  | nil => exact absurd hcap (Nat.not_lt_zero _)
  | cons first before =>
      obtain ⟨rfl, hnil⟩ := List.cons.inj hblocks
      obtain ⟨rfl, rfl⟩ := List.append_eq_nil_iff.mp hnil.symm
      simp [hlen] at hnone

/-- A header that the bytes do not complete trips the cap by its length, however it is cut. -/
theorem closed_by_cap_unfinished {s : NtripSession} (h : AwaitsHeader s []) (now : Instant)
    {bytes : Bytes} (hlen : headerLength bytes = none) {blocks : List Bytes}
    (hblocks : blocks.flatten = bytes) :
    closedByCap now s blocks = true ↔ HDR_CAP < bytes.length := by
  subst hblocks
  rw [closed_by_cap_iff h (Nat.zero_le _)]
  simp only [List.nil_append]
  constructor
  · rintro ⟨before, after, rfl, -, hlt⟩
    rw [List.flatten_append, List.length_append]
    omega
  · intro hlt
    exact ⟨blocks, [], (List.append_nil _).symm, hlen, hlt⟩

/-- A header that the bytes complete trips the cap only when more than `HDR_CAP` bytes come before
its last. -/
theorem closed_by_cap_finished {s : NtripSession} (h : AwaitsHeader s []) (now : Instant)
    {blocks : List Bytes} {n : Nat} (hlen : headerLength blocks.flatten = some n)
    (hclosed : closedByCap now s blocks = true) : HDR_CAP + 1 < n := by
  obtain ⟨before, after, rfl, hnone, hlt⟩ := (closed_by_cap_iff h (Nat.zero_le _) _ _).mp hclosed
  rw [List.nil_append] at hnone hlt
  by_contra hle
  -- the header would end inside the first feeds
  have htake : (before ++ after).flatten.take n = before.flatten.take n := by
    rw [List.flatten_append, List.take_append_of_le_length (by omega)]
  have hshort := header_length_take hlen
  rw [htake] at hshort
  have hcomplete := header_length_append hshort (before.flatten.drop n)
  rw [List.take_append_drop, hnone] at hcomplete
  simp at hcomplete

/-- The cap is decided by the bytes, whatever the feed sizes, exactly when the header is not
complete in them or ends within one byte of the cap: a longer complete header is accepted from one
feed and refused from two. -/
theorem closed_by_cap_split_iff {cfg : SessionConfig} (h : cfg.transport = .ntrip)
    (t0 now : Instant) (bytes : Bytes) :
    (∀ blocks blocks' : List Bytes, blocks.flatten = bytes → blocks'.flatten = bytes →
      closedByCap now (new cfg t0).1 blocks = closedByCap now (new cfg t0).1 blocks') ↔
      ¬ ∃ n, headerLength bytes = some n ∧ HDR_CAP + 1 < n := by
  have hnew := new_awaits_header h t0
  constructor
  · rintro hsame ⟨n, hlen, hlt⟩
    have hle := header_length_le hlen
    have hone := closed_by_cap_one hnew now hlen
    have htwo : closedByCap now (new cfg t0).1 [bytes.take (n - 1), bytes.drop (n - 1)] = true := by
      rw [closed_by_cap_iff hnew (Nat.zero_le _)]
      refine ⟨[bytes.take (n - 1)], [bytes.drop (n - 1)], rfl, ?_, ?_⟩
      · simpa using header_length_take_lt hlen (by omega)
      · simp only [List.flatten_cons, List.flatten_nil, List.append_nil, List.nil_append,
          List.length_take]
        omega
    rw [hsame [bytes] [bytes.take (n - 1), bytes.drop (n - 1)] (by simp) (by simp), htwo] at hone
    simp at hone
  · intro hfits blocks blocks' hblocks hblocks'
    rw [Bool.eq_iff_iff]
    cases hlen : headerLength bytes with
    | none =>
        rw [closed_by_cap_unfinished hnew now hlen hblocks,
          closed_by_cap_unfinished hnew now hlen hblocks']
    | some n =>
        have hopen : ∀ cut : List Bytes, cut.flatten = bytes →
            ¬ closedByCap now (new cfg t0).1 cut = true := by
          intro cut hcut hclosed
          subst hcut
          exact hfits ⟨n, hlen, closed_by_cap_finished hnew now hlen hclosed⟩
        exact iff_of_false (hopen blocks hblocks) (hopen blocks' hblocks')

/-- A request for a stream, as a user would configure it. -/
def exampleConfig : SessionConfig where
  host := "caster.example".toList
  port := 2101
  mountpoint := "MOUNT".toList
  username := []
  password := []
  version := .v2
  transport := .ntrip
  userAgent := "NTRIP client".toList
  gga := .always

theorem closed_by_cap_split_short :
    (∀ blocks blocks' : List Bytes, blocks.flatten = ascii "ICY 200 OK\r\n" →
      blocks'.flatten = ascii "ICY 200 OK\r\n" →
      closedByCap 0 (new exampleConfig 0).1 blocks =
        closedByCap 0 (new exampleConfig 0).1 blocks') ↔
      ¬ ∃ n, headerLength (ascii "ICY 200 OK\r\n") = some n ∧ HDR_CAP + 1 < n :=
  closed_by_cap_split_iff rfl 0 0 (ascii "ICY 200 OK\r\n")

/-- A line that begins with a letter is not blank. -/
theorem line_text_not_blank (rest : Bytes) :
    (Text.trimAscii (lineText (120 :: rest))).isEmpty = false := by
  have hstrip : ∃ tail, stripCr (120 :: rest) = 120 :: tail := by
    unfold stripCr
    split
    · cases rest with
      | nil => next h => simp [CR] at h
      | cons b rest => exact ⟨_, rfl⟩
    · exact ⟨rest, rfl⟩
  obtain ⟨tail, hstrip⟩ := hstrip
  have hline : lineText (120 :: rest) = 'x' :: fromUtf8Lossy tail := by
    rw [lineText, hstrip]
    rfl
  rw [hline, List.isEmpty_eq_false_iff, Text.trimAscii,
    List.dropWhile_cons_of_neg (by decide), Ne, List.rdropWhile_eq_nil_iff]
  intro hblank
  exact absurd (hblank 'x' List.mem_cons_self) (by decide)

/-- The response header with one header line `x...x` between the status line and the rest. -/
theorem parse_long_header (k : Nat) (rest : Bytes) :
    ∃ info,
      parseHeader (ascii "HTTP/1.1 200 OK" ++ LF :: (120 :: List.replicate k 120 ++ LF :: rest)) =
        ((parseBlock info rest).after [lineText (120 :: List.replicate k 120)] (k + 2)).after
          [lineText (ascii "HTTP/1.1 200 OK")] 16 := by
  have hstatus : ∀ after, splitLine (ascii "HTTP/1.1 200 OK" ++ LF :: after) =
      some (ascii "HTTP/1.1 200 OK", after) :=
    fun after => split_line_eq_some.mpr ⟨rfl, by decide⟩
  have hline : splitLine (120 :: List.replicate k 120 ++ LF :: rest) =
      some (120 :: List.replicate k 120, rest) := by
    refine split_line_eq_some.mpr ⟨rfl, fun hmem => ?_⟩
    have := List.eq_of_mem_replicate (n := k + 1) hmem
    exact absurd this (by decide)
  have hkind : statusKind (lineText (ascii "HTTP/1.1 200 OK")) = .http := by decide
  refine ⟨HttpInfo.headerLine { status := lineText (ascii "HTTP/1.1 200 OK") }
    (lineText (120 :: List.replicate k 120)), ?_⟩
  rw [parseHeader, hstatus]
  simp only [hkind]
  rw [parse_block_line hline, if_neg (by rw [line_text_not_blank]; decide)]
  simp only [List.length_cons, List.length_replicate]
  rfl

/-- A stream response that HTTP allows, with a header line longer than the cap. -/
def longHeader : Bytes :=
  ascii "HTTP/1.1 200 OK" ++ LF :: (120 :: List.replicate HDR_CAP 120 ++ LF :: [])

/-- Fed at once the response is accepted; with its blank line in a second feed the cap refuses it.
-/
theorem closed_by_cap_split_long :
    closedByCap 0 (new exampleConfig 0).1 [longHeader ++ [LF]] = false ∧
      closedByCap 0 (new exampleConfig 0).1 [longHeader, [LF]] = true := by
  have hnew : AwaitsHeader (new exampleConfig 0).1 [] := new_awaits_header rfl 0
  have hlong : headerLength longHeader = none := by
    obtain ⟨info, hparse⟩ := parse_long_header HDR_CAP []
    rw [longHeader, headerLength, hparse, parse_block_open rfl]
    rfl
  have hwhole : headerLength (longHeader ++ [LF]) = some (HDR_CAP + 19) := by
    obtain ⟨info, hparse⟩ := parse_long_header HDR_CAP [LF]
    rw [show longHeader ++ [LF] = ascii "HTTP/1.1 200 OK" ++
      LF :: (120 :: List.replicate HDR_CAP 120 ++ LF :: [LF]) by simp [longHeader]]
    rw [headerLength, hparse, parse_block_line rfl]
    rfl
  have hlength : HDR_CAP < longHeader.length := by
    rw [longHeader, List.length_append, List.length_cons, List.length_append, List.length_cons,
      List.length_replicate]
    omega
  constructor
  · exact closed_by_cap_one hnew 0 hwhole
  · rw [closed_by_cap_iff hnew (Nat.zero_le _)]
    exact ⟨[longHeader], [[LF]], rfl, by simpa using hlong, by simpa using hlength⟩

end NtripSession
end OpenNtrip
