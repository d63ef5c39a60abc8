import OpenNtrip.NtripCore.Packetization

/-!
# The life of a session

A session emits its request lines, then what it receives, and at most one ending. `Ending` lists
the endings, `Turn` says what one call may add to the outputs of a session that is not done, and
`step_turned` that every call adds no more. `run_lifecycle` is the consequence for whole runs.
-/

namespace OpenNtrip

/-- What a call meets: whether the session is in a header phase, whether it streams meanwhile,
whether the call is a tick, a remote close or a cancellation, and whether a mountpoint was
requested. -/
structure Terms where
  header : Bool
  streaming : Bool
  ticking : Bool
  remote : Bool
  cancelling : Bool
  requested : Bool

/-- What a call may emit on the way: the lines shown, corrections from a session that streams, and
from its ticks position requests. Corrections are never empty. -/
def Output.midway (terms : Terms) : Output → Bool
  | .protocolRx _ => true
  | .corrections payload => terms.streaming && !payload.isEmpty
  | .ggaDue => terms.streaming && terms.ticking
  | _ => false

/-- The outputs that belong to the streaming phase. -/
def Output.needsStream : Output → Bool
  | .ggaDue | .corrections _ => true
  | _ => false

/-- The outputs that are the end of a session. -/
def Output.isEnding : Output → Bool
  | .sourcetable _ | .close _ => true
  | _ => false

theorem Output.midway_needs_stream {o : Output} {terms : Terms} (h : o.midway terms = true)
    (hneeds : o.needsStream = true) : terms.streaming = true := by
  cases o with
  | ggaDue =>
      rw [midway, Bool.and_eq_true] at h
      exact h.1
  | corrections payload =>
      rw [midway, Bool.and_eq_true] at h
      exact h.1
  | _ => simp [needsStream] at hneeds

/-- What is emitted on the way is neither a request line nor the end. -/
theorem Output.midway_not {o : Output} {terms : Terms} (h : o.midway terms = true) :
    o.isEnding = false ∧ ∀ line, o ≠ .protocolTx line := by
  cases o with
  | protocolRx line => exact ⟨rfl, by simp⟩
  | corrections payload => exact ⟨rfl, by simp⟩
  | ggaDue => exact ⟨rfl, by simp⟩
  | _ => simp [midway] at h

/-- The closes that a call may lead to. -/
def CloseReason.allowed (terms : Terms) : CloseReason → Bool
  | .mountpointNotFound _ => terms.requested
  | .unknownResponse _ => terms.header
  | .cancelled => terms.cancelling
  | _ => true

namespace NtripSession

/-- The calls that hand the pending request lines to the caller. -/
def Call.flushes : Call → Bool
  | .ggaSent _ | .ggaMissed _ => false
  | _ => true

def Call.isTick : Call → Bool
  | .onTick _ => true
  | _ => false

def Call.isRemoteClose : Call → Bool
  | .onRemoteClose => true
  | _ => false

def Call.isCancel : Call → Bool
  | .cancel => true
  | _ => false

/-- The session streams when the call is made or once the call has completed the header. -/
def streamingDuring (s : NtripSession) : Call → Bool
  | .onBytes data now =>
    if s.phase.isHeader then
      (driveHeader (s.flushPending.1.buffering data now) now).1.phase.isStreaming
    else s.phase.isStreaming
  | _ => s.phase.isStreaming

def terms (s : NtripSession) (call : Call) : Terms where
  header := s.phase.isHeader
  streaming := s.streamingDuring call
  ticking := call.isTick
  remote := call.isRemoteClose
  cancelling := call.isCancel
  requested := s.mountpointRequested

/-! ## One call -/

/-- The last outputs of a session: a close, a table, or a table that the remote close cut off. -/
inductive Ending (terms : Terms) : List Output → Prop where
  | close (reason : CloseReason) (hreason : reason.allowed terms = true) :
      Ending terms [.close reason]
  | table (body : Bytes) (hrequested : terms.requested = false)
      (hstreaming : terms.streaming = false) : Ending terms [.sourcetable body]
  | forced (body : Bytes) (hrequested : terms.requested = false)
      (hstreaming : terms.streaming = false) (hremote : terms.remote = true) :
      Ending terms [.sourcetable body, .close .remoteClosed]

/-- What a call may answer when the session is not done: it goes on, or it ends with an ending. -/
inductive Turn (terms : Terms) (answer : NtripSession × List Output) : Prop where
  | goesOn (hopen : answer.1.phase ≠ .done) (hmid : ∀ o ∈ answer.2, o.midway terms = true)
  | ends (mid tail : List Output) (hdone : answer.1.phase = .done)
      (hout : answer.2 = mid ++ tail) (hmid : ∀ o ∈ mid, o.midway terms = true)
      (htail : Ending terms tail)

section Turns

variable {terms : Terms}

/-- What happened earlier in the call stays in front. -/
theorem Turn.prepend {answer : NtripSession × List Output} (h : Turn terms answer)
    {before : List Output} (hbefore : ∀ o ∈ before, o.midway terms = true) :
    Turn terms (answer.1, before ++ answer.2) := by
  have hboth : ∀ mid, (∀ o ∈ mid, o.midway terms = true) →
      ∀ o ∈ before ++ mid, o.midway terms = true := by
    intro mid hmid o ho
    rcases List.mem_append.mp ho with ho | ho
    · exact hbefore o ho
    · exact hmid o ho
  cases h with
  | goesOn hopen hmid => exact .goesOn hopen (hboth _ hmid)
  | ends mid tail hdone hout hmid htail =>
      refine .ends (before ++ mid) tail hdone ?_ (hboth _ hmid) htail
      rw [hout, List.append_assoc]

/-- A close is an ending, behind the line that was held back. -/
theorem emit_close_turn (s : NtripSession) {reason : CloseReason}
    (h : reason.allowed terms = true) : Turn terms (s.emitClose reason) := by
  refine .ends _ _ rfl rfl ?_ (.close reason h)
  intro o ho
  split at ho
  · simp at ho
  · obtain rfl := List.mem_singleton.mp ho
    rfl

/-- An unknown response is closed in a header phase. -/
theorem emit_unknown_turn (hheader : terms.header = true) (s : NtripSession) (raw : Bytes) :
    Turn terms (s.emitClose (.unknownResponse raw)) :=
  emit_close_turn s hheader

/-- A finished table is the diagnosis of a mountpoint request or the answer to a table request. -/
theorem finalize_table_turn {s : NtripSession} (h : s.phase ≠ .done)
    (hrequested : s.mountpointRequested = terms.requested)
    (hstreaming : ∀ t, s.phase = .table t → terms.streaming = false)
    {closeAfter : Option CloseReason}
    (hclose : closeAfter = none ∨ closeAfter = some .remoteClosed ∧ terms.remote = true) :
    Turn terms (s.finalizeTable closeAfter) := by
  unfold finalizeTable
  split
  · next t ht =>
      have hnot := hstreaming t ht
      simp only
      cases hmount : s.mountpointRequested with
      | true => exact emit_close_turn _ (hrequested.symm.trans hmount)
      | false =>
          rw [hmount] at hrequested
          rcases hclose with rfl | ⟨rfl, hremote⟩
          · exact .ends [] _ rfl rfl (by simp) (.table _ hrequested.symm hnot)
          · exact .ends [] _ rfl rfl (by simp) (.forced _ hrequested.symm hnot hremote)
  · exact .goesOn h (by simp)

/-- Every event of a body lets the session go on or ends it. -/
theorem apply_body_event_turn {s : NtripSession} (h : s.phase ≠ .done)
    (hrequested : s.mountpointRequested = terms.requested)
    (hstreaming : ∀ t, s.phase = .table t → terms.streaming = false) (event : BodyEvent) :
    Turn terms (s.applyBodyEvent event) := by
  cases event with
  | none => exact .goesOn h (by simp [applyBodyEvent])
  | tableComplete => exact finalize_table_turn h hrequested hstreaming (.inl rfl)
  | corrupt detail => exact emit_close_turn s rfl
  | chunkStreamEnd => exact emit_close_turn s rfl

theorem consume_prelude_midway (terms : Terms) (line : Bytes) (lines : Nat) (data : Bytes) :
    ∀ o ∈ (consumePrelude line lines data).2, o.midway terms = true := by
  fun_induction consumePrelude line lines data with
  | case5 line lines b rest hb hlf txt htxt hheader step out hscanned ih =>
      intro o ho
      rcases List.mem_cons.mp ho with rfl | ho
      · rfl
      · exact ih o (by rw [hscanned]; exact ho)
  | case3 line lines b rest hb hlf ih => exact ih
  | _ => simp

theorem feed_payload_midway (hstreaming : terms.streaming = true) (st : StreamState)
    (payload : Bytes) : ∀ o ∈ (feedPayload st payload).2.2, o.midway terms = true := by
  have hcorrections : ∀ decoded, ∀ o ∈ correctionsOf decoded, o.midway terms = true := by
    intro decoded o ho
    unfold correctionsOf at ho
    split at ho
    · simp at ho
    · next hne =>
        obtain rfl := List.mem_singleton.mp ho
        rw [Output.midway, hstreaming]
        simpa using hne
  cases payload with
  | nil => simp [feedPayload]
  | cons b rest =>
      cases hchunked : st.chunked with
      | none =>
          rw [feed_payload_plain hchunked]
          exact hcorrections (b :: rest)
      | some dec =>
          rw [feed_payload_chunked hchunked (List.cons_ne_nil _ _), streamAnswer]
          cases (dec.feed (b :: rest)).2 with
          | error detail => exact hcorrections _
          | ok dec' => exact hcorrections _

theorem feed_stream_midway (hstreaming : terms.streaming = true) (st : StreamState)
    (data : Bytes) : ∀ o ∈ (feedStream st data).2.2, o.midway terms = true := by
  cases hprelude : st.prelude with
  | resolved =>
      rw [feed_stream_resolved hprelude]
      exact feed_payload_midway hstreaming st data
  | headers line lines =>
      rw [feed_stream_headers hprelude]
      have hscanned := consume_prelude_midway terms line lines data
      generalize consumePrelude line lines data = scanned at hscanned ⊢
      obtain ⟨step, out⟩ := scanned
      cases step with
      | needMore line' lines' => exact hscanned
      | payload replay rest =>
          intro o ho
          rcases List.mem_append.mp ho with ho | ho
          · exact hscanned o ho
          · exact feed_payload_midway hstreaming _ _ o ho

/-- Body bytes. -/
theorem ingest_body_turn {s : NtripSession} (h : s.phase ≠ .done)
    (hrequested : s.mountpointRequested = terms.requested)
    (hstreaming : s.phase.isStreaming = terms.streaming) (data : Bytes) :
    Turn terms (s.ingestBody data) := by
  cases hphase : s.phase with
  | table t =>
      rw [hphase] at hstreaming
      rw [ingest_body_table hphase]
      exact apply_body_event_turn (s := { s with phase := .table _ }) (by simp) hrequested
        (fun _ _ => hstreaming.symm) _
  | streaming st =>
      rw [hphase] at hstreaming
      rw [ingest_body_streaming hphase]
      have hturn : Turn terms (applyBodyEvent { s with phase := .streaming (feedStream st data).1 }
          (feedStream st data).2.1) :=
        apply_body_event_turn (s := { s with phase := .streaming (feedStream st data).1 })
          (by simp) hrequested (by simp) _
      exact hturn.prepend (feed_stream_midway hstreaming.symm st data)
  | _ =>
      rw [ingest_body_ignored (by rw [hphase]; rfl)]
      exact .goesOn h (by simp)

theorem rx_lines_midway (lines : List Text) : ∀ o ∈ rxLines lines, o.midway terms = true := by
  intro o ho
  obtain ⟨line, -, rfl⟩ := List.mem_map.mp ho
  rfl

/-- Refusing a response closes the session. -/
theorem refuse_turn (hheader : terms.header = true) (s : NtripSession) (lines : List Text) :
    (s.refuse (rxLines lines)).2.1 = none ∧
      Turn terms ((s.refuse (rxLines lines)).1, (s.refuse (rxLines lines)).2.2) :=
  ⟨rfl, (emit_unknown_turn hheader { s with buf := {} } _).prepend (rx_lines_midway lines)⟩

/-- The header is unfinished, or it is refused, or its lines are shown and the body begins. -/
theorem drive_header_turn {s : NtripSession} (h : s.phase.isHeader = true)
    (hterms : terms.header = true) (now : Instant) :
    ((driveHeader s now).2.1 = none ∧
        Turn terms ((driveHeader s now).1, (driveHeader s now).2.2)) ∨
      (∃ leftover, (driveHeader s now).2.1 = some leftover) ∧
        ∀ o ∈ (driveHeader s now).2.2, o.midway terms = true := by
  rw [drive_header_eq]
  have hlines : ∀ o ∈ rxLines (parseFrom s.phase s.buf.unparsed).lines, o.midway terms = true :=
    rx_lines_midway _
  cases houtcome : (parseFrom s.phase s.buf.unparsed).outcome with
  | more phase =>
      have hheader := parse_from_more_isHeader h houtcome
      simp only [takeAnswer, houtcome]
      refine .inl ⟨trivial, .goesOn ?_ hlines⟩
      rintro rfl
      simp [Phase.isHeader] at hheader
  | complete answer =>
      cases answer with
      | icy =>
          simp only [takeAnswer, houtcome]
          split
          · exact .inr ⟨⟨_, rfl⟩, hlines⟩
          · exact .inl (refuse_turn hterms _ _)
      | sourcetable =>
          simp only [takeAnswer, houtcome]
          exact .inr ⟨⟨_, rfl⟩, hlines⟩
      | unknown =>
          simp only [takeAnswer, houtcome]
          exact .inl (refuse_turn hterms _ _)
      | http info =>
          simp only [takeAnswer, houtcome, classifyHttp]
          split
          · exact .inl ⟨rfl, Turn.prepend (emit_close_turn _ rfl) hlines⟩
          · split
            · exact .inl ⟨rfl, Turn.prepend (emit_unknown_turn hterms _ _) hlines⟩
            · split
              · simp only [List.append_nil]
                exact .inr ⟨⟨_, rfl⟩, hlines⟩
              · simp only [List.append_nil]
                exact .inr ⟨⟨_, rfl⟩, hlines⟩

/-! ## Bytes -/

theorem cap_close_turn {answer : NtripSession × List Output} (h : Turn terms answer)
    (hheader : answer.1.phase.isHeader = true → terms.header = true) :
    Turn terms (capClose answer) := by
  obtain ⟨s, out⟩ := answer
  cases hcap : s.overCap with
  | false =>
      rw [cap_close_of_not hcap]
      exact h
  | true =>
      cases h with
      | goesOn hopen hmid =>
          rw [overCap, Bool.and_eq_true] at hcap
          have hterms := hheader hcap.1
          simp only [capClose, overCap, hcap.1, hcap.2, Bool.and_self, if_true]
          exact Turn.prepend (emit_unknown_turn hterms _ _) hmid
      | ends mid tail hdone =>
          -- a session that is done is not over the cap
          simp only at hdone
          simp [overCap, hdone, Phase.isHeader] at hcap

end Turns

/-- Bytes for a session whose header is complete. -/
theorem absorb_body_turn {s : NtripSession} (h : s.phase ≠ .done)
    (hheader : s.phase.isHeader = false) (data : Bytes) (now : Instant) :
    Turn (s.terms (.onBytes data now)) (absorb now s.flushPending.1 data) := by
  have hbody : s.phase.isBody = true := by
    cases hphase : s.phase with
    | done => exact absurd hphase h
    | table t => rfl
    | streaming st => rfl
    | _ => simp [hphase, Phase.isHeader] at hheader
  have habsorb : absorb now s.flushPending.1 data =
      ingestBody { s.flushPending.1 with lastRx := now } data := by
    show (if s.phase.isHeader then _ else if s.phase.isBody then _ else _) = _
    rw [hheader, hbody]
    rfl
  rw [habsorb]
  refine ingest_body_turn (s := { s.flushPending.1 with lastRx := now }) h rfl ?_ data
  show s.phase.isStreaming = s.streamingDuring (.onBytes data now)
  simp only [streamingDuring, hheader, Bool.false_eq_true, if_false]

/-- Bytes for a session that awaits its header. What is left of them behind the header is body. -/
theorem absorb_header_turn {s : NtripSession} (hheader : s.phase.isHeader = true) (data : Bytes)
    (now : Instant) : Turn (s.terms (.onBytes data now)) (absorb now s.flushPending.1 data) := by
  have hheader' : (s.flushPending.1.buffering data now).phase.isHeader = true := hheader
  have hstreaming :
      (driveHeader (s.flushPending.1.buffering data now) now).1.phase.isStreaming =
      (s.terms (.onBytes data now)).streaming := by
    show _ = s.streamingDuring (.onBytes data now)
    simp only [streamingDuring, hheader, if_true]
  have habsorb : absorb now s.flushPending.1 data =
      enterBody (driveHeader (s.flushPending.1.buffering data now) now) := by
    show (if s.phase.isHeader then _ else _) = _
    rw [hheader]
    rfl
  rw [habsorb]
  have hterms : (s.terms (.onBytes data now)).header = true := hheader
  have hturn := drive_header_turn hheader' hterms now
  have hrx : (s.flushPending.1.buffering data now).lastRx = now := rfl
  obtain ⟨phase, buf, closed, gga, hstate, hnext⟩ := drive_header_spec hrx hheader'
  generalize driveHeader (s.flushPending.1.buffering data now) now = outcome
    at hturn hstate hnext hstreaming ⊢
  obtain ⟨s', leftover, out⟩ := outcome
  cases leftover with
  | none =>
      rcases hturn with ⟨-, hturn⟩ | ⟨⟨_, hsome⟩, -⟩
      · exact hturn
      · simp at hsome
  | some leftover =>
      rcases hturn with ⟨hnone, -⟩ | ⟨-, hmid⟩
      · simp at hnone
      · simp only at hstate
        have hopen : s'.phase ≠ .done := by
          rw [hstate]
          intro hdone
          simp only at hdone
          simp [hdone, Phase.isBody] at hnext
        have hrequested : s'.mountpointRequested = (s.terms (.onBytes data now)).requested := by
          rw [hstate]
          rfl
        exact (ingest_body_turn hopen hrequested hstreaming leftover).prepend hmid

/-- Bytes for a session that is not done. -/
theorem on_bytes_turn {s : NtripSession} (h : s.phase ≠ .done) (data : Bytes) (now : Instant) :
    ∃ out, (s.onBytes data now).2 = s.pending ++ out ∧
      Turn (s.terms (.onBytes data now)) ((s.onBytes data now).1, out) := by
  have hcapHeader : (absorb now s.flushPending.1 data).1.phase.isHeader = true →
      s.phase.isHeader = true := by
    intro hafter
    by_contra hbefore
    rw [Bool.not_eq_true] at hbefore
    have hnot := absorb_not_header now (s := s.flushPending.1) hbefore data
    rw [hnot] at hafter
    exact absurd hafter (by simp)
  rw [on_bytes_eq, cap_close_append]
  refine ⟨_, rfl, cap_close_turn ?_ hcapHeader⟩
  cases hheader : s.phase.isHeader with
  | false => exact absorb_body_turn h hheader data now
  | true => exact absorb_header_turn hheader data now

/-! ## Every call -/

/-- What a call adds, behind the request lines it flushes. -/
structure Turned (s : NtripSession) (call : Call) (out : List Output) : Prop where
  outputs : (step s call).2 = (if call.flushes then s.pending else []) ++ out
  pending : (step s call).1.pending = if call.flushes then [] else s.pending
  requested : (step s call).1.mountpointRequested = s.mountpointRequested
  silent : call.flushes = false → out = []
  done : s.phase = .done → (step s call).1.phase = .done ∧ out = []
  turn : s.phase ≠ .done → Turn (s.terms call) ((step s call).1, out)

/-- An acknowledgement only sets the GGA timer. -/
theorem step_acknowledge (s : NtripSession) (call : Call) (h : call.flushes = false) :
    ∃ gga, step s call = ({ s with gga }, []) := by
  cases call with
  | ggaSent now =>
      simp only [step, ggaSent]
      split
      · exact ⟨s.gga, rfl⟩
      · exact ⟨_, rfl⟩
  | ggaMissed now =>
      simp only [step, ggaMissed]
      split
      · exact ⟨s.gga, rfl⟩
      · exact ⟨_, rfl⟩
  | _ => simp [Call.flushes] at h

/-- A session that is done only hands over the request lines. -/
theorem step_done {s : NtripSession} (hdone : s.phase = .done) {call : Call}
    (h : call.flushes = true) : step s call = s.flushPending := by
  cases call with
  | ggaSent now => simp [Call.flushes] at h
  | ggaMissed now => simp [Call.flushes] at h
  | onBytes data now => simp [step, onBytes, flushPending, hdone]
  | onTick now => simp [step, onTick, flushPending, hdone]
  | onRemoteClose => simp [step, onRemoteClose, flushPending, hdone]
  | cancel => simp [step, cancel, flushPending, hdone]

/-- A tick closes the session or lets it go on, with a position request when one is due. -/
theorem on_tick_turn {s : NtripSession} (h : s.phase ≠ .done) (now : Instant) :
    ∃ out, (s.onTick now).2 = s.pending ++ out ∧
      Turn (s.terms (.onTick now)) ((s.onTick now).1, out) := by
  have hgoesOn : Turn (s.terms (.onTick now)) ({ s with pending := [] }, []) :=
    .goesOn h (by simp)
  cases hphase : s.phase with
  | done => exact absurd hphase h
  | statusLine =>
      simp only [onTick, flushPending, hphase]
      rw [← hphase]
      split
      · exact ⟨_, rfl, emit_close_turn _ rfl⟩
      · exact ⟨[], (List.append_nil _).symm, hgoesOn⟩
  | httpHeaders info =>
      simp only [onTick, flushPending, hphase]
      rw [← hphase]
      split
      · exact ⟨_, rfl, emit_close_turn _ rfl⟩
      · exact ⟨[], (List.append_nil _).symm, hgoesOn⟩
  | table t =>
      simp only [onTick, flushPending, hphase]
      rw [← hphase]
      split
      · exact ⟨_, rfl, emit_close_turn _ rfl⟩
      · exact ⟨[], (List.append_nil _).symm, hgoesOn⟩
  | streaming st =>
      simp only [onTick, flushPending, hphase]
      rw [← hphase]
      split
      · exact ⟨_, rfl, emit_close_turn _ rfl⟩
      · split
        · split
          · refine ⟨[.ggaDue], rfl, .goesOn h ?_⟩
            intro o ho
            obtain rfl := List.mem_singleton.mp ho
            show (s.phase.isStreaming && true) = true
            rw [hphase]
            rfl
          · exact ⟨[], (List.append_nil _).symm, hgoesOn⟩
        · exact ⟨[], (List.append_nil _).symm, hgoesOn⟩

theorem on_remote_close_turn {s : NtripSession} (h : s.phase ≠ .done) :
    ∃ out, s.onRemoteClose.2 = s.pending ++ out ∧
      Turn (s.terms .onRemoteClose) (s.onRemoteClose.1, out) := by
  cases hphase : s.phase with
  | done => exact absurd hphase h
  | statusLine =>
      have hheader : (s.terms .onRemoteClose).header = true := by
        show s.phase.isHeader = true
        rw [hphase]
        rfl
      simp only [onRemoteClose, flushPending, hphase]
      exact ⟨_, rfl, emit_unknown_turn hheader _ _⟩
  | httpHeaders info =>
      have hheader : (s.terms .onRemoteClose).header = true := by
        show s.phase.isHeader = true
        rw [hphase]
        rfl
      simp only [onRemoteClose, flushPending, hphase]
      exact ⟨_, rfl, emit_unknown_turn hheader _ _⟩
  | table t =>
      have hstreaming : (s.terms .onRemoteClose).streaming = false := by
        show s.phase.isStreaming = false
        rw [hphase]
        rfl
      simp only [onRemoteClose, flushPending, hphase]
      exact ⟨_, rfl, finalize_table_turn (s := { s with phase := .table t, pending := [] })
        (by simp) rfl (fun _ _ => hstreaming) (.inr ⟨rfl, rfl⟩)⟩
  | streaming st =>
      simp only [onRemoteClose, flushPending, hphase]
      exact ⟨_, rfl, emit_close_turn _ rfl⟩

theorem cancel_turn {s : NtripSession} (h : s.phase ≠ .done) :
    ∃ out, s.cancel.2 = s.pending ++ out ∧ Turn (s.terms .cancel) (s.cancel.1, out) := by
  simp only [cancel, flushPending, h, ne_eq, not_false_eq_true, if_true]
  exact ⟨_, rfl, emit_close_turn _ rfl⟩

theorem cap_close_frame (answer : NtripSession × List Output) :
    (capClose answer).1.pending = answer.1.pending ∧
      (capClose answer).1.mountpointRequested = answer.1.mountpointRequested := by
  obtain ⟨s, out⟩ := answer
  cases hcap : s.overCap with
  | true =>
      simp only [capClose, hcap, if_true]
      exact ⟨rfl, rfl⟩
  | false =>
      rw [cap_close_of_not hcap]
      exact ⟨rfl, rfl⟩

/-- A call hands over the request lines and leaves the request as it is. -/
theorem step_frame (s : NtripSession) (call : Call) :
    (step s call).1.pending = (if call.flushes then [] else s.pending) ∧
      (step s call).1.mountpointRequested = s.mountpointRequested := by
  cases call with
  | onBytes data now =>
      show (s.onBytes data now).1.pending = [] ∧
        (s.onBytes data now).1.mountpointRequested = s.mountpointRequested
      obtain ⟨phase, buf, lastRx, closed, gga, hspec, -⟩ := absorb_spec now s.flushPending.1 data
      rw [on_bytes_eq, (cap_close_frame _).1, (cap_close_frame _).2, hspec]
      exact ⟨rfl, rfl⟩
  | onTick now =>
      obtain ⟨phase, closed, gga, hspec, -⟩ := on_tick_spec s now
      show (s.onTick now).1.pending = [] ∧
        (s.onTick now).1.mountpointRequested = s.mountpointRequested
      rw [hspec]
      exact ⟨rfl, rfl⟩
  | ggaSent now =>
      obtain ⟨gga, hstep⟩ := step_acknowledge s (.ggaSent now) rfl
      rw [hstep]
      exact ⟨rfl, rfl⟩
  | ggaMissed now =>
      obtain ⟨gga, hstep⟩ := step_acknowledge s (.ggaMissed now) rfl
      rw [hstep]
      exact ⟨rfl, rfl⟩
  | onRemoteClose =>
      simp only [step, onRemoteClose, flushPending]
      cases hphase : s.phase with
      | table t =>
          simp only [finalizeTable]
          split
          · exact ⟨rfl, rfl⟩
          · exact ⟨rfl, rfl⟩
      | _ => exact ⟨rfl, rfl⟩
  | cancel =>
      by_cases hdone : s.phase = .done
      · rw [step_done hdone rfl]
        exact ⟨rfl, rfl⟩
      · simp only [step, cancel, flushPending, hdone, ne_eq, not_false_eq_true, if_true]
        exact ⟨rfl, rfl⟩

/-- Every call takes its turn. -/
theorem step_turned (s : NtripSession) (call : Call) : ∃ out, Turned s call out := by
  obtain ⟨hpending, hrequested⟩ := step_frame s call
  cases hflushes : call.flushes with
  | false =>
      obtain ⟨gga, hstep⟩ := step_acknowledge s call hflushes
      refine ⟨[], ?_, hpending, hrequested, fun _ => rfl, ?_, ?_⟩
      · rw [hstep, hflushes]
        rfl
      · intro hdone
        rw [hstep]
        exact ⟨hdone, rfl⟩
      · intro hopen
        rw [hstep]
        exact .goesOn hopen (by simp)
  | true =>
      by_cases hdone : s.phase = .done
      · have hstep := step_done hdone hflushes
        refine ⟨[], ?_, hpending, hrequested, fun _ => rfl, ?_, fun hopen => absurd hdone hopen⟩
        · rw [hstep, hflushes]
          exact (List.append_nil _).symm
        · intro _
          rw [hstep]
          exact ⟨hdone, rfl⟩
      · have hturn : ∃ out, (step s call).2 = s.pending ++ out ∧
            Turn (s.terms call) ((step s call).1, out) := by
          cases call with
          | onBytes data now => exact on_bytes_turn hdone data now
          | onTick now => exact on_tick_turn hdone now
          | onRemoteClose => exact on_remote_close_turn hdone
          | cancel => exact cancel_turn hdone
          | _ => simp [Call.flushes] at hflushes
        obtain ⟨out, hout, hturn⟩ := hturn
        refine ⟨out, ?_, hpending, hrequested, ?_, fun h => absurd h hdone, fun _ => hturn⟩
        · rw [hflushes]
          exact hout
        · intro hnot
          rw [hflushes] at hnot
          exact absurd hnot (by simp)

/-! ## Every run -/

/-- A session that is done and has nothing to flush stays silent. -/
theorem run_done {s : NtripSession} (hdone : s.phase = .done) (hpending : s.pending = [])
    (calls : List Call) : (run s calls).2 = [] := by
  induction calls generalizing s with
  | nil => rfl
  | cons call rest ih =>
      obtain ⟨out, hturned⟩ := step_turned s call
      obtain ⟨hdone', rfl⟩ := hturned.done hdone
      have hpending' : (step s call).1.pending = [] := by
        rw [hturned.pending, hpending, ite_self]
      rw [run_cons, hturned.outputs, ih hdone' hpending', hpending, ite_self]
      rfl

/-- The run ends with `tail`, the last outputs of one of its calls. -/
def EndsWith (s : NtripSession) (calls : List Call) (tail : List Output) : Prop :=
  ∃ earlier call later before, calls = earlier ++ call :: later ∧
    (step (run s earlier).1 call).2 = before ++ tail ∧
    Ending ((run s earlier).1.terms call) tail

/-- The outputs of a run: the request lines, what was received, and the ending if there is one. -/
theorem run_shape {s : NtripSession} (hopen : s.phase ≠ .done) (calls : List Call) :
    ∃ mid tail, (run s calls).2 =
        (if calls.any Call.flushes then s.pending else []) ++ (mid ++ tail) ∧
      (∀ o ∈ mid, o.isEnding = false ∧ ∀ line, o ≠ .protocolTx line) ∧
      (tail = [] ∨ EndsWith s calls tail) ∧
      (calls.any Call.flushes = false → mid ++ tail = []) := by
  induction calls generalizing s with
  | nil => exact ⟨[], [], rfl, by simp, .inl rfl, fun _ => rfl⟩
  | cons call rest ih =>
      obtain ⟨out, hturned⟩ := step_turned s call
      have hflush : ∀ later : List Output,
          (step s call).2 ++ ((if rest.any Call.flushes then (step s call).1.pending else []) ++
            later) =
            (if (call :: rest).any Call.flushes then s.pending else []) ++ (out ++ later) := by
        intro later
        rw [hturned.outputs, hturned.pending, List.any_cons]
        cases hflushes : call.flushes with
        | true => simp
        | false => simp [hturned.silent hflushes]
      cases hturned.turn hopen with
      | goesOn hopen' hmid =>
          obtain ⟨mid, tail, hout, hmid', htail, hsilent⟩ := ih hopen'
          refine ⟨out ++ mid, tail, ?_, ?_, ?_, ?_⟩
          · rw [run_cons, hout, hflush, List.append_assoc]
          · intro o ho
            rcases List.mem_append.mp ho with ho | ho
            · exact Output.midway_not (hmid o ho)
            · exact hmid' o ho
          · rcases htail with hnone | ⟨earlier, last, later, before, hcalls, hlast, hending⟩
            · exact .inl hnone
            · refine .inr ⟨call :: earlier, last, later, before, ?_, hlast, hending⟩
              rw [hcalls, List.cons_append]
          · intro hnone
            rw [List.any_cons, Bool.or_eq_false_iff] at hnone
            rw [hturned.silent hnone.1]
            exact hsilent hnone.2
      | ends mid tail hdone hout hmid htail =>
          simp only at hdone hout
          have hflushes : call.flushes = true := by
            cases hflushes : call.flushes with
            | true => rfl
            | false =>
                obtain ⟨gga, hstep⟩ := step_acknowledge s call hflushes
                rw [hstep] at hdone
                exact absurd hdone hopen
          have hpending : (step s call).1.pending = [] := by rw [hturned.pending, if_pos hflushes]
          have hrest := run_done hdone hpending rest
          refine ⟨mid, tail, ?_, ?_, .inr ?_, ?_⟩
          · have hall := hflush []
            rw [hpending, ite_self, List.append_nil, List.append_nil, List.append_nil] at hall
            rw [run_cons, hrest, List.append_nil, hall, hout]
          · intro o ho
            exact Output.midway_not (hmid o ho)
          · refine ⟨[], call, rest, (if call.flushes then s.pending else []) ++ mid, rfl, ?_, htail⟩
            show (step s call).2 = _
            rw [hturned.outputs, hout, List.append_assoc]
          · intro hnone
            rw [List.any_cons, hflushes] at hnone
            exact absurd hnone (by simp)

/-- An output that does not occur in front is found behind. -/
theorem split_behind {front tail before after : List Output} {o : Output} (hnot : o ∉ front)
    (h : front ++ tail = before ++ o :: after) : ∃ rest, tail = rest ++ o :: after := by
  rcases List.append_eq_append_iff.mp h with ⟨rest, -, htail⟩ | ⟨rest, hfront, hrest⟩
  · exact ⟨rest, htail⟩
  · cases rest with
    | nil => exact ⟨[], hrest.symm⟩
    | cons o' rest =>
        obtain ⟨rfl, -⟩ := List.cons.inj hrest
        exact absurd (by rw [hfront]; simp) hnot

/-- Nothing follows a close. -/
theorem Ending.close_last {terms : Terms} {tail before after : List Output}
    {reason : CloseReason} (h : Ending terms tail)
    (hout : tail = before ++ .close reason :: after) : after = [] := by
  cases h with
  | close reason' =>
      cases before with
      | nil => exact (List.cons.inj hout).2.symm
      | cons o before => simp at hout
  | table body =>
      cases before with
      | nil => simp at hout
      | cons o before => simp at hout
  | forced body =>
      cases before with
      | nil => simp at hout
      | cons o before =>
          have hlast := (List.cons.inj hout).2
          cases before with
          | nil => exact (List.cons.inj hlast).2.symm
          | cons o' before => simp at hlast

/-- A table is the answer to a table request. It comes first, and a remote close may follow. -/
theorem Ending.table_first {terms : Terms} {tail before after : List Output}
    {body : Bytes} (h : Ending terms tail)
    (hout : tail = before ++ .sourcetable body :: after) :
    terms.requested = false ∧ terms.streaming = false ∧ before = [] ∧
      (after = [] ∨ after = [.close .remoteClosed] ∧ terms.remote = true) := by
  cases h with
  | close reason =>
      cases before with
      | nil => simp at hout
      | cons o before => simp at hout
  | table body' hrequested hstreaming =>
      cases before with
      | nil => exact ⟨hrequested, hstreaming, rfl, .inl (List.cons.inj hout).2.symm⟩
      | cons o before => simp at hout
  | forced body' hrequested hstreaming hremote =>
      cases before with
      | nil => exact ⟨hrequested, hstreaming, rfl, .inr ⟨(List.cons.inj hout).2.symm, hremote⟩⟩
      | cons o before =>
          have hlast := (List.cons.inj hout).2
          cases before with
          | nil => simp at hlast
          | cons o' before => simp at hlast

/-- A close is one that the call may lead to. -/
theorem Ending.close_allowed {terms : Terms} {tail : List Output} {reason : CloseReason}
    (h : Ending terms tail) (hmem : .close reason ∈ tail) : reason.allowed terms = true := by
  cases h with
  | close reason' hreason =>
      have heq := List.mem_singleton.mp hmem
      obtain rfl : reason = reason' := by simpa using heq
      exact hreason
  | table body => simp at hmem
  | forced body =>
      rcases List.mem_pair.mp hmem with heq | heq
      · simp at heq
      · obtain rfl : reason = .remoteClosed := by simpa using heq
        rfl

/-- What a call closes with is one of the closes it may lead to. -/
theorem Turn.close_allowed {terms : Terms} {answer : NtripSession × List Output}
    {reason : CloseReason} (h : Turn terms answer) (hmem : .close reason ∈ answer.2) :
    reason.allowed terms = true := by
  cases h with
  | goesOn _ hmid => exact absurd (Output.midway_not (hmid _ hmem)).1 (by simp [Output.isEnding])
  | ends mid tail _ hout hmid htail =>
      rw [hout] at hmem
      rcases List.mem_append.mp hmem with hmem | hmem
      · exact absurd (Output.midway_not (hmid _ hmem)).1 (by simp [Output.isEnding])
      · exact htail.close_allowed hmem

/-- The lines for the connection log that a new session has pending. -/
def requestLog (cfg : SessionConfig) : List Output :=
  match cfg.transport with
  | .rawTcp => []
  | .ntrip => (Request.build cfg).1.map .protocolTx

theorem new_pending (cfg : SessionConfig) (t0 : Instant) :
    (new cfg t0).1.pending = requestLog cfg ∧ (new cfg t0).1.phase ≠ .done ∧
      (new cfg t0).1.mountpointRequested = !cfg.mountpoint.isEmpty := by
  unfold new requestLog
  cases cfg.transport with
  | rawTcp => simp
  | ntrip => simp

theorem request_log_tx (cfg : SessionConfig) :
    ∀ o ∈ requestLog cfg, ∃ line, o = .protocolTx line := by
  intro o ho
  unfold requestLog at ho
  split at ho
  · simp at ho
  · obtain ⟨line, -, rfl⟩ := List.mem_map.mp ho
    exact ⟨line, rfl⟩

/-- An ending is made of tables and closes. -/
theorem Ending.is_ending {terms : Terms} {tail : List Output} (h : Ending terms tail) :
    ∀ o ∈ tail, o.isEnding = true := by
  cases h with
  | _ => simp [Output.isEnding]

/-- The outputs of a call: request lines and what is emitted on the way, and the ending if the call
ends the session. -/
theorem step_outputs {s : NtripSession} (hpending : ∀ o ∈ s.pending, ∃ line, o = .protocolTx line)
    (call : Call) :
    ∃ before tail, (step s call).2 = before ++ tail ∧
      (∀ o ∈ before, (∃ line, o = .protocolTx line) ∨
        s.phase ≠ .done ∧ o.midway (s.terms call) = true) ∧
      (tail = [] ∨ s.phase ≠ .done ∧ (step s call).1.phase = .done ∧
        Ending (s.terms call) tail) := by
  obtain ⟨out, hturned⟩ := step_turned s call
  have hfront : ∀ mid : List Output, (∀ o ∈ mid, s.phase ≠ .done ∧ o.midway (s.terms call) = true) →
      ∀ o ∈ (if call.flushes then s.pending else []) ++ mid, (∃ line, o = .protocolTx line) ∨
        s.phase ≠ .done ∧ o.midway (s.terms call) = true := by
    intro mid hmid o ho
    rcases List.mem_append.mp ho with ho | ho
    · split at ho
      · exact .inl (hpending o ho)
      · simp at ho
    · exact .inr (hmid o ho)
  by_cases hopen : s.phase = .done
  · refine ⟨_, [], ?_, hfront [] (by simp), .inl rfl⟩
    rw [hturned.outputs, (hturned.done hopen).2, List.append_nil, List.append_nil]
  · cases hturned.turn hopen with
    | goesOn _ hmid =>
        refine ⟨_, [], ?_, hfront out (fun o ho => ⟨hopen, hmid o ho⟩), .inl rfl⟩
        rw [hturned.outputs, List.append_nil]
    | ends mid tail hdone hsplit hmid htail =>
        refine ⟨_, tail, ?_, hfront mid (fun o ho => ⟨hopen, hmid o ho⟩),
          .inr ⟨hopen, hdone, htail⟩⟩
        simp only at hsplit
        rw [hturned.outputs, hsplit, List.append_assoc]

/-- Corrections and position requests are emitted on the way. -/
theorem step_midway {s : NtripSession} (hpending : ∀ o ∈ s.pending, ∃ line, o = .protocolTx line)
    {call : Call} {o : Output} (ho : o ∈ (step s call).2) (hneeds : o.needsStream = true) :
    o.midway (s.terms call) = true := by
  obtain ⟨before, tail, hout, hbefore, htail⟩ := step_outputs hpending call
  rw [hout] at ho
  rcases List.mem_append.mp ho with ho | ho
  · rcases hbefore o ho with ⟨line, rfl⟩ | ⟨-, hmid⟩
    · simp [Output.needsStream] at hneeds
    · exact hmid
  · rcases htail with rfl | ⟨-, -, hending⟩
    · simp at ho
    · have hends := hending.is_ending o ho
      cases o with
      | sourcetable body => simp [Output.needsStream] at hneeds
      | close reason => simp [Output.needsStream] at hneeds
      | _ => simp [Output.isEnding] at hends

/-- An output that ends the session belongs to an ending. -/
theorem step_ending {s : NtripSession} (hpending : ∀ o ∈ s.pending, ∃ line, o = .protocolTx line)
    {call : Call} {o : Output} (ho : o ∈ (step s call).2) (hends : o.isEnding = true) :
    s.phase ≠ .done ∧ (step s call).1.phase = .done ∧
      ∃ before tail, (step s call).2 = before ++ tail ∧ o ∈ tail ∧
        (∀ o' ∈ before, (∃ line, o' = .protocolTx line) ∨ o'.midway (s.terms call) = true) ∧
        Ending (s.terms call) tail := by
  obtain ⟨before, tail, hout, hbefore, htail⟩ := step_outputs hpending call
  have hmem : o ∈ tail := by
    rw [hout] at ho
    refine (List.mem_append.mp ho).resolve_left ?_
    intro hfront
    rcases hbefore o hfront with ⟨line, rfl⟩ | ⟨-, hmid⟩
    · simp [Output.isEnding] at hends
    · rw [(Output.midway_not hmid).1] at hends
      exact absurd hends (by simp)
  rcases htail with rfl | ⟨hopen, hdone, hending⟩
  · simp at hmem
  · exact ⟨hopen, hdone, before, tail, hout, hmem,
      fun o' ho' => (hbefore o' ho').imp_right And.right, hending⟩

/-- What is pending is still all of the request lines, or nothing. -/
theorem run_pending (s : NtripSession) (calls : List Call) :
    (run s calls).1.pending = if calls.any Call.flushes then [] else s.pending := by
  induction calls generalizing s with
  | nil => rfl
  | cons call rest ih =>
      rw [run_cons, ih, (step_frame s call).1, List.any_cons]
      cases call.flushes with
      | true => simp
      | false => simp

/-- What was requested is settled once and for all. -/
theorem run_requested (s : NtripSession) (calls : List Call) :
    (run s calls).1.mountpointRequested = s.mountpointRequested :=
  Transducer.run_invariant (·.mountpointRequested = s.mountpointRequested)
    (fun s' call _ h => (step_frame s' call).2.trans h) rfl

/-- Only request lines are ever pending. -/
theorem run_pending_tx (cfg : SessionConfig) (t0 : Instant) (calls : List Call) :
    ∀ o ∈ (run (new cfg t0).1 calls).1.pending, ∃ line, o = .protocolTx line := by
  intro o ho
  rw [run_pending, (new_pending cfg t0).1] at ho
  split at ho
  · simp at ho
  · exact request_log_tx cfg o ho

/-- The request lines come first, with the first call that is not an acknowledgement, and are not
repeated. Before that call nothing is emitted. -/
theorem run_requests (cfg : SessionConfig) (t0 : Instant) (calls : List Call) :
    ∃ rest, (run (new cfg t0).1 calls).2 =
        (if calls.any Call.flushes then requestLog cfg else []) ++ rest ∧
      (∀ line, .protocolTx line ∉ rest) ∧ (calls.any Call.flushes = false → rest = []) := by
  obtain ⟨hpending, hopen, -⟩ := new_pending cfg t0
  obtain ⟨mid, tail, hout, hmid, htail, hsilent⟩ := run_shape hopen calls
  rw [hpending] at hout
  refine ⟨mid ++ tail, hout, ?_, hsilent⟩
  intro line hline
  rcases List.mem_append.mp hline with hline | hline
  · exact (hmid _ hline).2 line rfl
  · rcases htail with rfl | ⟨_, _, _, _, -, -, hending⟩
    · simp at hline
    · have hfalse := hending.is_ending _ hline
      simp [Output.isEnding] at hfalse

/-- A table or a close is one of the last outputs of a call, and what follows it in the run
follows it in the call. -/
theorem run_ending (cfg : SessionConfig) (t0 : Instant) {calls : List Call} {o : Output}
    {before after : List Output} (hending : o.isEnding = true)
    (h : (run (new cfg t0).1 calls).2 = before ++ o :: after) :
    ∃ rest, EndsWith (new cfg t0).1 calls (rest ++ o :: after) := by
  obtain ⟨hpending, hopen, -⟩ := new_pending cfg t0
  obtain ⟨mid, tail, hout, hmid, htail, -⟩ := run_shape hopen calls
  rw [hpending] at hout
  -- neither the request lines nor what is received is an ending
  have hfront : o ∉ (if calls.any Call.flushes then requestLog cfg else []) ++ mid := by
    intro ho
    rcases List.mem_append.mp ho with ho | ho
    · split at ho
      · obtain ⟨line, rfl⟩ := request_log_tx cfg o ho
        simp [Output.isEnding] at hending
      · simp at ho
    · rw [(hmid o ho).1] at hending
      simp at hending
  have hwhole : ((if calls.any Call.flushes then requestLog cfg else []) ++ mid) ++ tail =
      before ++ o :: after := by
    rw [List.append_assoc, ← hout]
    exact h
  obtain ⟨rest, rfl⟩ := split_behind hfront hwhole
  exact ⟨rest, htail.resolve_left (by simp)⟩

/-- A mountpoint is requested in every call if and only if the configuration has one. -/
theorem terms_requested (cfg : SessionConfig) (t0 : Instant) (earlier : List Call) (call : Call) :
    ((run (new cfg t0).1 earlier).1.terms call).requested = !cfg.mountpoint.isEmpty :=
  (run_requested (new cfg t0).1 earlier).trans (new_pending cfg t0).2.2

theorem run_after_close (cfg : SessionConfig) (t0 : Instant) {calls : List Call}
    {before after : List Output} {reason : CloseReason}
    (h : (run (new cfg t0).1 calls).2 = before ++ .close reason :: after) : after = [] := by
  obtain ⟨rest, _, _, _, _, -, -, hending⟩ := run_ending cfg t0 rfl h
  exact hending.close_last rfl

/-- A table is the last output, or the call that emits it is the remote close that forced it. -/
theorem run_after_table (cfg : SessionConfig) (t0 : Instant) {calls : List Call}
    {before after : List Output} {body : Bytes}
    (h : (run (new cfg t0).1 calls).2 = before ++ .sourcetable body :: after) :
    after = [] ∨ after = [.close .remoteClosed] ∧
      ∃ earlier later first, calls = earlier ++ .onRemoteClose :: later ∧
        (step (run (new cfg t0).1 earlier).1 .onRemoteClose).2 =
          first ++ .sourcetable body :: after := by
  obtain ⟨rest, earlier, call, later, first, hcalls, hlast, hending⟩ := run_ending cfg t0 rfl h
  obtain ⟨-, -, rfl, hafter⟩ := hending.table_first rfl
  rcases hafter with hnone | ⟨hclose, hremote⟩
  · exact .inl hnone
  · have hcall : call = .onRemoteClose := by
      cases call with
      | onRemoteClose => rfl
      | _ => simp [terms, Call.isRemoteClose] at hremote
    subst hcall
    exact .inr ⟨hclose, earlier, later, first, hcalls, hlast⟩

theorem run_table_requested (cfg : SessionConfig) (t0 : Instant) {calls : List Call}
    {body : Bytes} (h : .sourcetable body ∈ (run (new cfg t0).1 calls).2) :
    cfg.mountpoint = [] := by
  obtain ⟨before, after, hsplit⟩ := List.append_of_mem h
  obtain ⟨rest, earlier, call, _, _, -, -, hending⟩ := run_ending cfg t0 rfl hsplit
  have hfalse := (hending.table_first rfl).1
  rw [terms_requested] at hfalse
  simpa using hfalse

theorem run_missing_requested (cfg : SessionConfig) (t0 : Instant) {calls : List Call}
    {body : Bytes} (h : .close (.mountpointNotFound body) ∈ (run (new cfg t0).1 calls).2) :
    cfg.mountpoint ≠ [] := by
  obtain ⟨before, after, hsplit⟩ := List.append_of_mem h
  obtain ⟨rest, earlier, call, _, _, -, -, hending⟩ := run_ending cfg t0 rfl hsplit
  have hmem : .close (.mountpointNotFound body) ∈
      rest ++ .close (.mountpointNotFound body) :: after := by simp
  have htrue : ((run (new cfg t0).1 earlier).1.terms call).requested = true :=
    hending.close_allowed hmem
  rw [terms_requested] at htrue
  simpa using htrue

/-- The life of a session, for every configuration and every sequence of calls. The request lines
come first, all at once, with the first call that is not an acknowledgement, and are not
repeated. Nothing follows a close, so there is at most one. A table is followed by nothing,
or by the remote close that forced it, so there is at most one. A table answers a table
request, a missing mountpoint a mountpoint request. Corrections and position requests come
from calls during which the session streams. -/
theorem run_lifecycle (cfg : SessionConfig) (t0 : Instant) (calls : List Call) :
    let s := (new cfg t0).1
    let out := (run s calls).2
    (∃ rest, out = (if calls.any Call.flushes then requestLog cfg else []) ++ rest ∧
        (∀ line, .protocolTx line ∉ rest) ∧ (calls.any Call.flushes = false → rest = [])) ∧
      (∀ before reason after, out = before ++ .close reason :: after → after = []) ∧
      (∀ before body after, out = before ++ .sourcetable body :: after →
        after = [] ∨ after = [.close .remoteClosed] ∧
          ∃ earlier later first, calls = earlier ++ .onRemoteClose :: later ∧
            (step (run s earlier).1 .onRemoteClose).2 = first ++ .sourcetable body :: after) ∧
      (∀ body, .sourcetable body ∈ out → cfg.mountpoint = []) ∧
      (∀ body, .close (.mountpointNotFound body) ∈ out → cfg.mountpoint ≠ []) ∧
      ∀ earlier call later, calls = earlier ++ call :: later →
        ∀ o ∈ (step (run s earlier).1 call).2, o.needsStream = true →
          (run s earlier).1.streamingDuring call = true := by
  intro s out
  refine ⟨run_requests cfg t0 calls, fun _ _ _ => run_after_close cfg t0,
    fun _ _ _ => run_after_table cfg t0, fun _ => run_table_requested cfg t0,
    fun _ => run_missing_requested cfg t0, ?_⟩
  intro earlier call later _ o ho hneeds
  exact Output.midway_needs_stream (step_midway (run_pending_tx cfg t0 earlier) ho hneeds) hneeds

/-- The request lines wait for the first call: without one they are not emitted. -/
theorem run_lifecycle_no_call :
    (run (new exampleConfig 0).1 []).2 = [] ∧ requestLog exampleConfig ≠ [] := by
  refine ⟨rfl, ?_⟩
  decide

end NtripSession
end OpenNtrip
