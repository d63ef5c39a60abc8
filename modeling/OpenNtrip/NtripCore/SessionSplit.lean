import OpenNtrip.NtripCore.BodySplit
import OpenNtrip.NtripCore.DriveHeader

/-!
# Feeding a session block by block

`absorb` is `onBytes` without the request lines still pending and without the header cap: what
the session makes of the bytes themselves. `absorb_split_invariant` says that it does not
matter how the bytes are cut into blocks, up to joining adjacent corrections and up to the
unread header buffer of a session that is already done.
-/

namespace OpenNtrip

/-- Receiving a table or a correction stream. -/
def Phase.isBody : Phase → Bool
  | .table _ | .streaming _ => true
  | _ => false

theorem Phase.not_isHeader_of_isBody {phase : Phase} (h : phase.isBody = true) :
    phase.isHeader = false := by
  cases phase with
  | table t => rfl
  | streaming st => rfl
  | _ => simp [Phase.isBody] at h

namespace NtripSession

/-! ## Body bytes -/

/-- The answer of a session to what its table made of a block. -/
def applyTable (s : NtripSession) (answer : TableState × BodyEvent) : NtripSession × List Output :=
  applyBodyEvent { s with phase := .table answer.1 } answer.2

theorem ingest_body_table {s : NtripSession} {t : TableState} (h : s.phase = .table t)
    (data : Bytes) : s.ingestBody data = s.applyTable (feedTable t data) := by
  unfold ingestBody applyTable
  simp only [h]

/-- The answer of a session to what its stream made of a block. -/
def applyStream (s : NtripSession) (answer : StreamState × BodyEvent × List Output) :
    NtripSession × List Output :=
  let (s, out) := applyBodyEvent { s with phase := .streaming answer.1 } answer.2.1
  (s, answer.2.2 ++ out)

theorem ingest_body_streaming {s : NtripSession} {st : StreamState} (h : s.phase = .streaming st)
    (data : Bytes) : s.ingestBody data = s.applyStream (feedStream st data) := by
  unfold ingestBody applyStream
  simp only [h]

/-- Outside the body phases body bytes are ignored. -/
theorem ingest_body_ignored {s : NtripSession} (h : s.phase.isBody = false) (data : Bytes) :
    s.ingestBody data = (s, []) := by
  unfold ingestBody
  split
  · next hphase => simp [hphase, Phase.isBody] at h
  · next hphase => simp [hphase, Phase.isBody] at h
  · rfl

/-- A table that wants more keeps the session open. -/
theorem apply_table_open (s : NtripSession) {answer : TableState × BodyEvent}
    (h : answer.2 = .none) : s.applyTable answer = ({ s with phase := .table answer.1 }, []) := by
  rw [applyTable, h]
  rfl

/-- Any event of a table but `none` ends the session. -/
theorem apply_table_done (s : NtripSession) {answer : TableState × BodyEvent}
    (h : answer.2 ≠ .none) : (s.applyTable answer).1.phase = .done := by
  obtain ⟨t, event⟩ := answer
  cases event with
  | none => exact absurd rfl h
  | corrupt detail => rfl
  | chunkStreamEnd => rfl
  | tableComplete =>
      simp only [applyTable, applyBodyEvent, finalizeTable]
      split
      · rfl
      · rfl

/-- Tables that agree are answered the same. -/
theorem apply_table_congr (s : NtripSession) {left right : TableState × BodyEvent}
    (h : TableAgree left right) : s.applyTable left = s.applyTable right := by
  obtain ⟨t, event⟩ := left
  obtain ⟨t', event'⟩ := right
  obtain ⟨rfl, hbody, hstate⟩ : event = event' ∧ t.body = t'.body ∧ (event = .none → t = t') := h
  cases event with
  | none => rw [hstate rfl]
  | tableComplete => simp only [applyTable, applyBodyEvent, finalizeTable, hbody]
  | corrupt detail => rfl
  | chunkStreamEnd => rfl

/-- A stream that has ended resolved its prelude, and is not a table. -/
def Ended (answer : StreamState × BodyEvent × List Output) : Prop :=
  answer.2.1 = .none ∨ answer.2.1 ≠ .tableComplete ∧ answer.1.prelude = .resolved

theorem feed_payload_ended {st : StreamState} (h : st.prelude = .resolved) (payload : Bytes) :
    Ended (feedPayload st payload) := by
  cases payload with
  | nil => exact .inl rfl
  | cons b rest =>
      cases hchunked : st.chunked with
      | none => rw [feed_payload_plain hchunked]; exact .inl rfl
      | some dec =>
          rw [feed_payload_chunked hchunked (List.cons_ne_nil _ _), streamAnswer]
          cases (dec.feed (b :: rest)).2 with
          | error detail => exact .inr ⟨by simp, h⟩
          | ok dec' =>
              refine .inr ⟨?_, h⟩
              simp only
              split
              · simp
              · simp

theorem feed_stream_ended (st : StreamState) (data : Bytes) : Ended (feedStream st data) := by
  cases hprelude : st.prelude with
  | resolved => rw [feed_stream_resolved hprelude]; exact feed_payload_ended hprelude data
  | headers line lines =>
      rw [feed_stream_headers hprelude]
      generalize consumePrelude line lines data = scanned
      obtain ⟨step, out⟩ := scanned
      cases step with
      | needMore line' lines' => exact .inl rfl
      | payload replay rest => exact feed_payload_ended rfl (replay ++ rest)

/-- A stream with a resolved prelude holds nothing back when it closes. -/
theorem emit_close_resolved (s : NtripSession) {st : StreamState} (h : st.prelude = .resolved)
    (reason : CloseReason) :
    emitClose { s with phase := .streaming st } reason =
      ({ s with closed := true, phase := .done }, [.close reason]) := by
  obtain ⟨prelude, chunked⟩ := st
  subst h
  rfl

/-- The reason a stream closes for. -/
def closeReason : BodyEvent → CloseReason
  | .corrupt detail => .streamCorrupt detail
  | _ => .remoteClosed

/-- A stream that goes on keeps the session open. -/
theorem apply_stream_open (s : NtripSession) {answer : StreamState × BodyEvent × List Output}
    (h : answer.2.1 = .none) :
    s.applyStream answer = ({ s with phase := .streaming answer.1 }, answer.2.2) := by
  simp only [applyStream, h, applyBodyEvent, List.append_nil]

/-- Any event of a stream but `none` closes the session. -/
theorem apply_stream_ended (s : NtripSession) {answer : StreamState × BodyEvent × List Output}
    (hended : Ended answer) (h : answer.2.1 ≠ .none) :
    s.applyStream answer =
      ({ s with closed := true, phase := .done },
        answer.2.2 ++ [.close (closeReason answer.2.1)]) := by
  obtain ⟨st, event, out⟩ := answer
  obtain ⟨hevent, hprelude⟩ : event ≠ .tableComplete ∧ st.prelude = .resolved :=
    hended.resolve_left h
  cases event with
  | none => exact absurd rfl h
  | tableComplete => exact absurd rfl hevent
  | corrupt detail =>
      simp only [applyStream, applyBodyEvent]
      rw [emit_close_resolved s hprelude]
      rfl
  | chunkStreamEnd =>
      simp only [applyStream, applyBodyEvent]
      rw [emit_close_resolved s hprelude]
      rfl

/-- Streams that agree are answered the same, up to joining corrections. -/
theorem apply_stream_congr (s : NtripSession) {left right : StreamState × BodyEvent × List Output}
    (hleft : Ended left) (hright : Ended right) (h : StreamAgree left right) :
    (s.applyStream left).1 = (s.applyStream right).1 ∧
      SameOutputs (s.applyStream left).2 (s.applyStream right).2 := by
  obtain ⟨hevent, hout, hstate⟩ := h
  by_cases hnone : left.2.1 = .none
  · have hst := hstate hnone
    unfold applyStream
    rw [← hst, ← hevent, hnone]
    exact ⟨rfl, hout.append rfl⟩
  · rw [apply_stream_ended s hleft hnone, apply_stream_ended s hright (hevent ▸ hnone), hevent]
    exact ⟨rfl, hout.append rfl⟩

/-- Feeding a body in two blocks is feeding it at once. -/
theorem ingest_body_append {s : NtripSession} (hbody : s.phase.isBody = true)
    (first second : Bytes) :
    (s.ingestBody (first ++ second)).1 = ((s.ingestBody first).1.ingestBody second).1 ∧
      SameOutputs (s.ingestBody (first ++ second)).2
        ((s.ingestBody first).2 ++ ((s.ingestBody first).1.ingestBody second).2) := by
  cases hphase : s.phase with
  | table t =>
      rw [ingest_body_table hphase, ingest_body_table hphase]
      by_cases hopen : (feedTable t first).2 = .none
      · rw [apply_table_open s hopen]
        simp only
        rw [ingest_body_table rfl,
          apply_table_congr s (feed_table_append_of_open t first second hopen)]
        exact ⟨rfl, rfl⟩
      · rw [apply_table_congr s (feed_table_append_of_closed t first second hopen),
          ingest_body_ignored (by rw [apply_table_done s hopen]; rfl), List.append_nil]
        exact ⟨rfl, rfl⟩
  | streaming st =>
      rw [ingest_body_streaming hphase, ingest_body_streaming hphase]
      have hended := feed_stream_ended st (first ++ second)
      by_cases hopen : (feedStream st first).2.1 = .none
      · have hagree := feed_stream_append_of_open st first second hopen
        have hended' := feed_stream_ended (feedStream st first).1 second
        rw [apply_stream_open s hopen]
        simp only
        rw [ingest_body_streaming rfl]
        have hcongr := apply_stream_congr s hended (by exact hended') hagree
        refine ⟨hcongr.1, hcongr.2.trans ?_⟩
        simp [applyStream, afterOutputs]
      · have hagree := feed_stream_append_of_closed st first second hopen
        have hfirst := feed_stream_ended st first
        have hdone := apply_stream_ended s hfirst hopen
        rw [ingest_body_ignored (by rw [hdone]; rfl), List.append_nil]
        exact apply_stream_congr s hended hfirst hagree
  | _ => simp [hphase, Phase.isBody] at hbody

/-- Feeding a body changes nothing but the phase and the closed flag, and never goes back to a
header. -/
theorem ingest_body_spec (s : NtripSession) (data : Bytes) :
    ∃ phase closed, (s.ingestBody data).1 = { s with phase, closed } ∧
      (s.phase.isHeader = false → phase.isHeader = false) := by
  cases hphase : s.phase with
  | table t =>
      rw [ingest_body_table hphase]
      generalize feedTable t data = answer
      obtain ⟨t', event⟩ := answer
      cases event with
      | none => exact ⟨_, _, rfl, fun _ => rfl⟩
      | corrupt detail => exact ⟨_, _, rfl, fun _ => rfl⟩
      | chunkStreamEnd => exact ⟨_, _, rfl, fun _ => rfl⟩
      | tableComplete =>
          simp only [applyTable, applyBodyEvent, finalizeTable]
          split
          · exact ⟨_, _, rfl, fun _ => rfl⟩
          · exact ⟨_, _, rfl, fun _ => rfl⟩
  | streaming st =>
      rw [ingest_body_streaming hphase]
      by_cases hopen : (feedStream st data).2.1 = .none
      · rw [apply_stream_open s hopen]
        exact ⟨_, _, rfl, fun _ => rfl⟩
      · rw [apply_stream_ended s (feed_stream_ended st data) hopen]
        exact ⟨_, _, rfl, fun _ => rfl⟩
  | _ =>
      rw [ingest_body_ignored (by rw [hphase]; rfl)]
      exact ⟨s.phase, s.closed, rfl, fun h => hphase ▸ h⟩

/-! ## All bytes -/

/-- What the header leads to: the bytes behind it belong to the body. -/
def enterBody : NtripSession × Option Bytes × List Output → NtripSession × List Output
  | (s, some leftover, out) =>
    let (s, out') := s.ingestBody leftover
    (s, out ++ out')
  | (s, none, out) => (s, out)

/-- The session with a block put behind the header bytes received so far. -/
def buffering (s : NtripSession) (data : Bytes) (now : Instant) : NtripSession :=
  { s with lastRx := now, buf := s.buf.extend data }

/-- `onBytes` without the pending request lines and without the header cap. -/
def absorb (now : Instant) (s : NtripSession) (data : Bytes) : NtripSession × List Output :=
  if s.phase.isHeader then enterBody (driveHeader (s.buffering data now) now)
  else if s.phase.isBody then { s with lastRx := now }.ingestBody data
  else (s, [])

theorem absorb_done {now : Instant} {s : NtripSession} (h : s.phase = .done) (data : Bytes) :
    absorb now s data = (s, []) := by
  simp [absorb, h, Phase.isHeader, Phase.isBody]

/-- Past the header a block received at the same instant goes to the body. -/
theorem absorb_ingest {now : Instant} {s : NtripSession} (hrx : s.lastRx = now)
    (h : s.phase.isHeader = false) (data : Bytes) : absorb now s data = s.ingestBody data := by
  subst hrx
  cases hbody : s.phase.isBody with
  | true => simp [absorb, h, hbody]
  | false => simp [absorb, h, hbody, ingest_body_ignored hbody]

/-- How driving the header leaves a session that was last fed at the same instant: with the
body entered if there are leftover bytes, waiting for more or done otherwise. -/
theorem drive_header_spec {s : NtripSession} {now : Instant} (hrx : s.lastRx = now)
    (h : s.phase.isHeader = true) :
    ∃ phase buf closed gga,
      (driveHeader s now).1 = { s with phase, buf, closed, gga } ∧
        (((driveHeader s now).2.1 = none ∧ (phase.isHeader = true ∨ phase = .done)) ∨
          (∃ leftover, (driveHeader s now).2.1 = some leftover) ∧ phase.isBody = true) := by
  subst hrx
  rw [drive_header_eq]
  cases houtcome : (parseFrom s.phase s.buf.unparsed).outcome with
  | more phase =>
      have hheader := parse_from_more_isHeader h houtcome
      simp only [takeAnswer, houtcome]
      exact ⟨_, _, _, _, rfl, .inl ⟨trivial, .inl hheader⟩⟩
  | complete answer =>
      cases answer with
      | icy =>
          simp only [takeAnswer, houtcome]
          split
          · exact ⟨_, _, _, _, rfl, .inr ⟨⟨_, rfl⟩, rfl⟩⟩
          · exact ⟨_, _, _, _, rfl, .inl ⟨rfl, .inr rfl⟩⟩
      | sourcetable =>
          simp only [takeAnswer, houtcome]
          exact ⟨_, _, _, _, rfl, .inr ⟨⟨_, rfl⟩, rfl⟩⟩
      | unknown =>
          simp only [takeAnswer, houtcome]
          exact ⟨_, _, _, _, rfl, .inl ⟨rfl, .inr rfl⟩⟩
      | http info =>
          simp only [takeAnswer, houtcome, classifyHttp]
          split
          · exact ⟨_, _, _, _, rfl, .inl ⟨rfl, .inr rfl⟩⟩
          · split
            · exact ⟨_, _, _, _, rfl, .inl ⟨rfl, .inr rfl⟩⟩
            · split
              · exact ⟨_, _, _, _, rfl, .inr ⟨⟨_, rfl⟩, rfl⟩⟩
              · exact ⟨_, _, _, _, rfl, .inr ⟨⟨_, rfl⟩, rfl⟩⟩

/-- What bytes lead to changes neither the request nor the lines still pending, and it restarts the
silence timer. -/
theorem absorb_spec (now : Instant) (s : NtripSession) (data : Bytes) :
    ∃ phase buf lastRx closed gga,
      (absorb now s data).1 = { s with phase, buf, lastRx, closed, gga } ∧
        (s.phase ≠ .done → lastRx = now) := by
  cases hheader : s.phase.isHeader with
  | true =>
      have hrx : (s.buffering data now).lastRx = now := rfl
      obtain ⟨phase, buf, closed, gga, hstate, -⟩ := drive_header_spec hrx hheader
      simp only [absorb, hheader, if_true]
      generalize driveHeader (s.buffering data now) now = outcome at hstate ⊢
      obtain ⟨s', leftover, out⟩ := outcome
      simp only at hstate
      subst hstate
      cases leftover with
      | none => exact ⟨phase, buf, now, closed, gga, rfl, fun _ => rfl⟩
      | some leftover =>
          obtain ⟨phase', closed', hspec, -⟩ :=
            ingest_body_spec { s.buffering data now with phase, buf, closed, gga } leftover
          exact ⟨phase', buf, now, closed', gga, hspec, fun _ => rfl⟩
  | false =>
      cases hbody : s.phase.isBody with
      | true =>
          obtain ⟨phase, closed, hspec, -⟩ := ingest_body_spec { s with lastRx := now } data
          simp only [absorb, hheader, hbody, Bool.false_eq_true, if_false, if_true]
          exact ⟨phase, s.buf, now, closed, s.gga, hspec, fun _ => rfl⟩
      | false =>
          simp only [absorb, hheader, hbody, Bool.false_eq_true, if_false]
          refine ⟨s.phase, s.buf, s.lastRx, s.closed, s.gga, rfl, ?_⟩
          intro hopen
          cases hphase : s.phase with
          | done => exact absurd hphase hopen
          | _ => simp [hphase, Phase.isHeader, Phase.isBody] at hheader hbody

/-- Outcomes that agree lead to bodies that agree. -/
theorem enter_body_congr {left right : NtripSession × Option Bytes × List Output}
    (h : DriveAgree left right) :
    Transducer.Agree Indistinguishable SameOutputs (enterBody left) (enterBody right) := by
  obtain ⟨s, leftover, out⟩ := left
  obtain ⟨s', leftover', out'⟩ := right
  obtain ⟨hstate, hrest⟩ := h
  obtain ⟨rfl, rfl⟩ := Prod.mk.inj hrest
  cases leftover with
  | none => exact ⟨hstate, rfl⟩
  | some leftover =>
      rcases hstate.cases with heq | ⟨hdone, hbuf⟩
      · simp only at heq
        subst heq
        exact ⟨rfl, rfl⟩
      · simp only at hdone hbuf
        have hdone' : s'.phase = .done := by rw [hbuf]; exact hdone
        simp only [enterBody]
        rw [ingest_body_ignored (by rw [hdone]; rfl), ingest_body_ignored (by rw [hdone']; rfl)]
        exact ⟨hstate, rfl⟩

/-- A block that arrives while the header is unfinished or just complete. -/
theorem enter_body_append {s : NtripSession} {now : Instant} (hrx : s.lastRx = now)
    (hheader : s.phase.isHeader = true) (more : Bytes) :
    Transducer.Agree Indistinguishable SameOutputs
      (enterBody (thenDrive more now (driveHeader s now)))
      ((absorb now (enterBody (driveHeader s now)).1 more).1,
        (enterBody (driveHeader s now)).2 ++
          (absorb now (enterBody (driveHeader s now)).1 more).2) := by
  subst hrx
  obtain ⟨phase, buf, closed, gga, hstate, hnext⟩ := drive_header_spec rfl hheader
  generalize driveHeader s s.lastRx = outcome at hstate hnext ⊢
  obtain ⟨s', leftover, out⟩ := outcome
  simp only at hstate hnext
  have hrx' : s'.lastRx = s.lastRx := by rw [hstate]
  rcases hnext with ⟨rfl, hphase | hphase⟩ | ⟨⟨leftover, rfl⟩, hphase⟩
  · -- the header goes on
    have hheader' : s'.phase.isHeader = true := by rw [hstate]; exact hphase
    have hsame : s'.buffering more s.lastRx = { s' with buf := s'.buf.extend more } := by
      rw [buffering, ← hrx']
    simp only [thenDrive, enterBody, absorb, hheader', if_true, hsame]
    generalize driveHeader { s' with buf := s'.buf.extend more } s.lastRx = outcome
    obtain ⟨s'', leftover, out'⟩ := outcome
    cases leftover with
    | none => exact ⟨rfl, rfl⟩
    | some leftover =>
        simp only [List.append_assoc]
        exact ⟨rfl, rfl⟩
  · -- the session closed
    have hdone : s'.phase = .done := by rw [hstate]; exact hphase
    simp only [thenDrive, enterBody]
    rw [absorb_done hdone, hdone]
    simp only [Phase.isHeader, Bool.false_eq_true, if_false, List.append_nil]
    exact ⟨rfl, rfl⟩
  · -- the body has begun
    have hbody : s'.phase.isBody = true := by rw [hstate]; exact hphase
    have hnot := Phase.not_isHeader_of_isBody hbody
    simp only [thenDrive, enterBody]
    obtain ⟨phase', closed', hspec, hphase'⟩ := ingest_body_spec s' leftover
    rw [absorb_ingest (by rw [hspec]; exact hrx') (by rw [hspec]; exact hphase' hnot)]
    obtain ⟨hlast, hout⟩ := ingest_body_append hbody leftover more
    refine ⟨congrArg visible hlast, ?_⟩
    rw [List.append_assoc]
    exact SameOutputs.append rfl hout

/-- Absorbing two blocks at one instant is absorbing them at once. -/
theorem absorb_append (now : Instant) (s : NtripSession) (first second : Bytes) :
    Transducer.Agree Indistinguishable SameOutputs (absorb now s (first ++ second))
      ((absorb now (absorb now s first).1 second).1,
        (absorb now s first).2 ++ (absorb now (absorb now s first).1 second).2) := by
  cases hheader : s.phase.isHeader with
  | false =>
      cases hbody : s.phase.isBody with
      | false =>
          have hignored : ∀ data, absorb now s data = (s, []) := by
            intro data
            simp [absorb, hheader, hbody]
          rw [hignored, hignored, hignored]
          exact ⟨rfl, rfl⟩
      | true =>
          have hfed : ∀ data, absorb now s data = { s with lastRx := now }.ingestBody data := by
            intro data
            simp [absorb, hheader, hbody]
          rw [hfed, hfed]
          obtain ⟨phase, closed, hspec, hphase⟩ :=
            ingest_body_spec { s with lastRx := now } first
          rw [absorb_ingest (by rw [hspec]) (by rw [hspec]; exact hphase hheader)]
          obtain ⟨hstate, hout⟩ := ingest_body_append
            (s := { s with lastRx := now }) hbody first second
          exact ⟨congrArg visible hstate, hout⟩
  | true =>
      have hdriven : ∀ data, absorb now s data =
          enterBody (driveHeader (s.buffering data now) now) := by
        intro data
        simp [absorb, hheader]
      have hextend := drive_header_extend (s := s.buffering first now) hheader now second
      obtain ⟨hstate, hout⟩ := enter_body_congr hextend
      obtain ⟨hstate', hout'⟩ := enter_body_append (s := s.buffering first now) rfl hheader second
      have happend : s.buffering (first ++ second) now =
          { s.buffering first now with buf := (s.buffering first now).buf.extend second } := by
        simp [buffering]
      rw [hdriven, hdriven first, happend]
      exact ⟨hstate.trans hstate', hout.trans hout'⟩

theorem absorb_congr (now : Instant) {s s' : NtripSession} (h : Indistinguishable s s')
    (data : Bytes) :
    Transducer.Agree Indistinguishable SameOutputs (absorb now s data) (absorb now s' data) := by
  rcases h.cases with rfl | ⟨hdone, hbuf⟩
  · exact ⟨rfl, rfl⟩
  · have hdone' : s'.phase = .done := by rw [hbuf]; exact hdone
    rw [absorb_done hdone, absorb_done hdone']
    exact ⟨h, rfl⟩

/-- Only the concatenation of the blocks absorbed at one instant matters. -/
theorem absorb_split_invariant (now : Instant) :
    Transducer.SplitInvariant (absorb now) Indistinguishable SameOutputs where
  state_equivalence := indistinguishable_equivalence
  output_equivalence := same_outputs_equivalence
  output_append := SameOutputs.append
  feed_congr := fun block h => absorb_congr now h block
  feed_append := absorb_append now

end NtripSession
end OpenNtrip
