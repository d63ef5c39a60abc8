import OpenNtrip.NtripCore.ChunkedRendering
import OpenNtrip.NtripCore.HeaderLines
import OpenNtrip.NtripCore.Packetization

/-!
# Conservation of the correction bytes

`ledger` says, from the bytes received alone, which of them are corrections, which header lines
are shown, and which bytes are held back as an undecided line. `Booked` is the invariant that
a session's outputs so far agree with the ledger of the bytes it has received, in each phase
with what is needed to go on; `run_booked` carries it through every run.
-/

namespace OpenNtrip

/-! ## Reading outputs -/

/-- The bytes of all corrections, in order. -/
def correctionBytes (out : List Output) : Bytes :=
  out.flatMap fun
    | .corrections payload => payload
    | _ => []

/-- The lines shown as received, in order. -/
def rxTexts (out : List Output) : List Text :=
  out.filterMap fun
    | .protocolRx line => some line
    | _ => none

@[simp] theorem correction_bytes_append (left right : List Output) :
    correctionBytes (left ++ right) = correctionBytes left ++ correctionBytes right :=
  List.flatMap_append

@[simp] theorem rx_texts_append (left right : List Output) :
    rxTexts (left ++ right) = rxTexts left ++ rxTexts right :=
  List.filterMap_append

@[simp] theorem correction_bytes_corrections_of (payload : Bytes) :
    correctionBytes (correctionsOf payload) = payload := by
  cases payload with
  | nil => rfl
  | cons b rest => simp [correctionsOf, correctionBytes]

@[simp] theorem rx_texts_corrections_of (payload : Bytes) :
    rxTexts (correctionsOf payload) = [] := by
  cases payload with
  | nil => rfl
  | cons b rest => rfl

@[simp] theorem rx_texts_map (lines : List Bytes) :
    rxTexts (lines.map fun raw => .protocolRx (fromUtf8Lossy raw)) = lines.map fromUtf8Lossy := by
  simp [rxTexts, List.filterMap_map]

@[simp] theorem correction_bytes_map (lines : List Bytes) :
    correctionBytes (lines.map fun raw => .protocolRx (fromUtf8Lossy raw)) = [] := by
  simp [correctionBytes, List.flatMap_map]

@[simp] theorem rx_texts_rx_lines (lines : List Text) :
    rxTexts (NtripSession.rxLines lines) = lines := by
  simp [rxTexts, NtripSession.rxLines, List.filterMap_map]

@[simp] theorem correction_bytes_rx_lines (lines : List Text) :
    correctionBytes (NtripSession.rxLines lines) = [] := by
  simp [correctionBytes, NtripSession.rxLines, List.flatMap_map]

/-- Joining adjacent corrections keeps their bytes. -/
theorem SameOutputs.correction_bytes {left right : List Output} (h : SameOutputs left right) :
    correctionBytes left = correctionBytes right := by
  have hmeasure : ∀ l, correctionBytes (coalesce joinCorrections l) = correctionBytes l :=
    coalesce_measure correctionBytes
    (fun a l l' hl => by simpa [correctionBytes] using hl)
    (fun a b joined l hjoin => by
      cases a <;> cases b <;> simp [joinCorrections] at hjoin
      subst hjoin
      simp [correctionBytes])
  rw [← hmeasure left, ← hmeasure right, show coalesce joinCorrections left = _ from h]

/-- Joining adjacent corrections keeps the lines. -/
theorem SameOutputs.rx_texts {left right : List Output} (h : SameOutputs left right) :
    rxTexts left = rxTexts right := by
  have hmeasure : ∀ l, rxTexts (coalesce joinCorrections l) = rxTexts l :=
    coalesce_measure rxTexts
    (fun a l l' hl => by
      cases a <;> simpa [rxTexts] using hl)
    (fun a b joined l hjoin => by
      cases a <;> cases b <;> simp [joinCorrections] at hjoin
      subst hjoin
      rfl)
  rw [← hmeasure left, ← hmeasure right, show coalesce joinCorrections left = _ from h]

/-! ## The ledger -/

/-- What the bytes received should have become. -/
structure Ledger where
  payload : Bytes
  lines : List Text
  held : Bytes
  deriving DecidableEq, Repr

/-- An HTTP answer that is a correction stream: status 200 to a mountpoint request, and not a table.
-/
def httpStream (cfg : SessionConfig) (info : HttpInfo) : Bool :=
  let status := Text.toAsciiUppercase (Text.trimAscii info.status)
  !Text.contains status " 401".toList && Text.contains status " 200".toList &&
    !cfg.mountpoint.isEmpty && !Text.contains info.contentType "gnss/sourcetable".toList

/-- The ledger of a connection: raw bytes are corrections; behind an ICY header they are, minus the
prelude; behind an HTTP stream header they are, de-chunked if need be; and no other answer
brings corrections. -/
def ledger (cfg : SessionConfig) (received : Bytes) : Ledger :=
  match cfg.transport with
  | .rawTcp => { payload := received, lines := [], held := [] }
  | .ntrip =>
    let header := parseHeader received
    let body := received.drop header.used
    match header.outcome with
    | .complete .icy =>
      if cfg.mountpoint.isEmpty then { payload := [], lines := header.lines, held := [] }
      else
        let stripped := stripPrelude PRELUDE_MAX_LINES body
        { payload := stripped.payload
          lines := header.lines ++ stripped.removed.map fromUtf8Lossy
          held := stripped.held }
    | .complete (.http info) =>
      if httpStream cfg info then
        { payload := if info.chunked then dechunk body else body
          lines := header.lines
          held := [] }
      else { payload := [], lines := header.lines, held := [] }
    | _ => { payload := [], lines := header.lines, held := [] }

/-- Whatever is held back is a partial prelude line. -/
theorem ledger_held (cfg : SessionConfig) (received : Bytes) :
    isPreludeLine (ledger cfg received).held = true := by
  have hempty : isPreludeLine [] = true := rfl
  unfold ledger
  split
  · exact hempty
  · simp only
    split
    · split
      · exact hempty
      · exact (strip_prelude_lines _ _).1
    · split
      · exact hempty
      · exact hempty
    · exact hempty

/-! ### Streams from their first byte -/

/-- A stream that has received no body yet. -/
structure FreshStream (st : StreamState) : Prop where
  prelude : st.prelude = .headers [] 0 ∨ st.prelude = .resolved
  chunked : st.chunked = none ∨ st.chunked = some {}

/-- The ledger of a stream from its first body byte, behind header lines already shown. -/
def streamLedger (lines : List Text) (st : StreamState) (body : Bytes) : Ledger :=
  let stripped := match st.prelude with
    | .headers _ _ => stripPrelude PRELUDE_MAX_LINES body
    | .resolved => ⟨body, [], []⟩
  { payload := if st.chunked.isSome then dechunk stripped.payload else stripped.payload
    lines := lines ++ stripped.removed.map fromUtf8Lossy
    held := stripped.held }

/-- The bytes a stream holds back. -/
def StreamState.heldLine (st : StreamState) : Bytes :=
  match st.prelude with
  | .headers line _ => line
  | .resolved => []

/-- Payload fed to a fresh resolved stream is emitted, de-chunked if need be. -/
theorem feed_payload_ledger {st : StreamState} (hchunked : st.chunked = none ∨ st.chunked = some {})
    (payload : Bytes) :
    correctionBytes (feedPayload st payload).2.2 =
        (if st.chunked.isSome then dechunk payload else payload) ∧
      rxTexts (feedPayload st payload).2.2 = [] := by
  cases payload with
  | nil =>
      rw [feed_payload_nil, dechunk_open rfl]
      simp [correctionBytes, rxTexts]
  | cons b rest =>
      rcases hchunked with hnone | hsome
      · rw [feed_payload_plain hnone, hnone]
        simp
      · rw [feed_payload_chunked hsome (List.cons_ne_nil _ _), hsome, streamAnswer,
          ← Chunked.Decoder.feed_reference]
        cases (Chunked.Decoder.feed {} (b :: rest)).2 with
        | error detail => simp
        | ok dec => simp

/-- A fresh stream turns its whole body into what the ledger says. -/
theorem feed_stream_ledger {st : StreamState} (hfresh : FreshStream st) (lines : List Text)
    (body : Bytes) :
    correctionBytes (feedStream st body).2.2 = (streamLedger lines st body).payload ∧
      lines ++ rxTexts (feedStream st body).2.2 = (streamLedger lines st body).lines ∧
      (feedStream st body).1.heldLine = (streamLedger lines st body).held := by
  rcases hfresh.prelude with hprelude | hprelude
  · have hempty : isPreludeLine [] = true := rfl
    have hmatch := consume_prelude_reference hempty List.not_mem_nil 0 body
    rw [List.nil_append, Nat.sub_zero] at hmatch
    rw [feed_stream_headers hprelude]
    simp only [streamLedger, hprelude]
    generalize consumePrelude [] 0 body = scanned at hmatch
    obtain ⟨step, out⟩ := scanned
    obtain ⟨rfl, hstep⟩ := hmatch
    cases step with
    | needMore line count =>
        obtain ⟨hpayload, hheld⟩ := hstep
        simp only [preludeAnswer, hpayload, hheld, correction_bytes_map, rx_texts_map,
          dechunk_open split_line_nil, ite_self]
        exact ⟨trivial, trivial, rfl⟩
    | payload replay rest =>
        obtain ⟨hpayload, hheld⟩ := hstep
        have hresolved : ({ st with prelude := .resolved } : StreamState).chunked = none ∨
            ({ st with prelude := .resolved } : StreamState).chunked = some {} := hfresh.chunked
        obtain ⟨hcorrections, htexts⟩ := feed_payload_ledger hresolved (replay ++ rest)
        simp only [preludeAnswer, afterOutputs, hpayload, hheld, correction_bytes_append,
          rx_texts_append, correction_bytes_map, rx_texts_map, hcorrections, htexts,
          List.nil_append, List.append_nil]
        refine ⟨trivial, trivial, ?_⟩
        rw [StreamState.heldLine, feed_payload_prelude]
  · have hpayload := feed_payload_ledger hfresh.chunked body
    rw [feed_stream_resolved hprelude]
    simp only [streamLedger, hprelude, List.map_nil, List.append_nil]
    refine ⟨hpayload.1, by rw [hpayload.2, List.append_nil], ?_⟩
    rw [StreamState.heldLine, feed_payload_prelude, hprelude]

/-- The ledger behind a complete header, by what the header announces. -/
def answerLedger (cfg : SessionConfig) (lines : List Text) (body : Bytes) : Answer → Ledger
  | .icy =>
    if cfg.mountpoint.isEmpty then ⟨[], lines, []⟩
    else streamLedger lines { prelude := .headers [] 0, chunked := none } body
  | .http info =>
    if httpStream cfg info then
      streamLedger lines
        { prelude := .resolved, chunked := if info.chunked then some {} else none } body
    else ⟨[], lines, []⟩
  | _ => ⟨[], lines, []⟩

/-- Behind a complete header the ledger is that of the body. -/
theorem ledger_complete {cfg : SessionConfig} (hntrip : cfg.transport = .ntrip) {received : Bytes}
    {answer : Answer} (h : (parseHeader received).outcome = .complete answer) (more : Bytes) :
    ledger cfg (received ++ more) =
      answerLedger cfg (parseHeader received).lines
        (received.drop (parseHeader received).used ++ more) answer := by
  have hdrop : (received ++ more).drop (parseHeader received).used =
      received.drop (parseHeader received).used ++ more :=
    List.drop_append_of_le_length (parse_header_used_le received)
  rw [ledger, hntrip]
  simp only [parse_header_append_of_complete h, h, hdrop]
  cases answer with
  | icy => rfl
  | sourcetable => rfl
  | unknown => rfl
  | http info =>
      simp only [answerLedger, streamLedger, List.map_nil, List.append_nil]
      cases info.chunked with
      | true => rfl
      | false => rfl

/-! ## The invariant -/

namespace NtripSession

/-- The bytes delivered to a session that was not done at the time. -/
def receivedWhileOpen : NtripSession → List Call → Bytes
  | _, [] => []
  | s, call :: rest =>
    (match call with
      | .onBytes data _ => if s.phase = .done then [] else data
      | _ => []) ++ receivedWhileOpen (step s call).1 rest

theorem held_line_streaming {s : NtripSession} {st : StreamState} (h : s.phase = .streaming st) :
    s.heldLine = st.heldLine := by
  obtain ⟨prelude, chunked⟩ := st
  rw [heldLine, h]
  cases prelude with
  | headers line lines => rfl
  | resolved => rfl

/-- Outputs that bring neither corrections nor received lines. -/
def Quiet (out : List Output) : Prop := correctionBytes out = [] ∧ rxTexts out = []

/-- The line that a close shows for the bytes held back. -/
def heldTexts (held : Bytes) : List Text := if held.isEmpty then [] else [fromUtf8Lossy held]

/-- The outputs of a session agree with the ledger of the bytes it has received, in each phase with
what later bytes need. -/
inductive Booked (cfg : SessionConfig) : NtripSession → Bytes → List Output → Prop where
  | header {s received out} (hawaits : AwaitsHeader s received) (hntrip : cfg.transport = .ntrip)
      (hmount : s.mountpointRequested = !cfg.mountpoint.isEmpty) 
      (hpending : Quiet s.pending) (hpayload : correctionBytes out = [])
      (hlines : rxTexts out = (parseHeader received).lines) : Booked cfg s received out
  | table {s received out t lines} (hphase : s.phase = .table t) (hpending : Quiet s.pending)
      (hledger : ∀ more, ledger cfg (received ++ more) = ⟨[], lines, []⟩)
      (hpayload : correctionBytes out = []) (hlines : rxTexts out = lines) :
      Booked cfg s received out
  | streaming {s received out st start body lines} (hphase : s.phase = .streaming st)
      (hpending : Quiet s.pending) (hfresh : FreshStream start)
      (hledger : ∀ more, ledger cfg (received ++ more) = streamLedger lines start (body ++ more))
      (hopen : (feedStream start body).2.1 = .none) (hst : (feedStream start body).1 = st)
      (hpayload : correctionBytes out = correctionBytes (feedStream start body).2.2)
      (hlines : rxTexts out = lines ++ rxTexts (feedStream start body).2.2) :
      Booked cfg s received out
  | done {s received out} (hphase : s.phase = .done) (hpending : s.pending = [])
      (hpayload : correctionBytes out = (ledger cfg received).payload)
      (hlines : rxTexts out =
        (ledger cfg received).lines ++ heldTexts (ledger cfg received).held)
      (hheld : (ledger cfg received).held ≠ [] → ∃ before reason,
        out = before ++ [.protocolRx (fromUtf8Lossy (ledger cfg received).held), .close reason]) :
      Booked cfg s received out

/-- A table that ends brings neither corrections nor lines. -/
theorem apply_table_quiet (s : NtripSession) {answer : TableState × BodyEvent}
    (h : answer.2 ≠ .none) : Quiet (s.applyTable answer).2 := by
  obtain ⟨t, event⟩ := answer
  cases event with
  | none => exact absurd rfl h
  | corrupt detail => exact ⟨rfl, rfl⟩
  | chunkStreamEnd => exact ⟨rfl, rfl⟩
  | tableComplete =>
      simp only [applyTable, applyBodyEvent, finalizeTable]
      split
      · exact ⟨rfl, rfl⟩
      · exact ⟨rfl, rfl⟩

namespace Booked

variable {cfg : SessionConfig} {s : NtripSession} {received : Bytes} {out : List Output}

/-- Up to any point the corrections are those of the ledger. -/
theorem payload (h : Booked cfg s received out) :
    correctionBytes out = (ledger cfg received).payload := by
  cases h with
  | header hawaits hntrip hmount hpending hpayload hlines =>
      rw [hpayload, ledger, hntrip]
      simp only [hawaits.phase]
  | table hphase hpending hledger hpayload hlines =>
      have hnow := hledger []
      rw [List.append_nil] at hnow
      rw [hpayload, hnow]
  | streaming hphase hpending hfresh hledger hopen hst hpayload hlines =>
      have hnow := hledger []
      rw [List.append_nil, List.append_nil] at hnow
      rw [hpayload, hnow, (feed_stream_ledger hfresh _ _).1]
  | done hphase hpending hpayload hlines hheld => exact hpayload

/-- Up to any point the lines shown are those of the ledger, and at the end the bytes held back. -/
theorem texts (h : Booked cfg s received out) :
    rxTexts out = (ledger cfg received).lines ++
      (if s.phase = .done then heldTexts (ledger cfg received).held else []) := by
  cases h with
  | header hawaits hntrip hmount hpending hpayload hlines =>
      have hopen : s.phase ≠ .done := by
        intro hdone
        have hheader := hawaits.isHeader
        simp [hdone, Phase.isHeader] at hheader
      rw [hlines, if_neg hopen, List.append_nil, ledger, hntrip]
      simp only [hawaits.phase]
  | table hphase hpending hledger hpayload hlines =>
      have hnow := hledger []
      rw [List.append_nil] at hnow
      rw [hlines, hnow, if_neg (by simp [hphase]), List.append_nil]
  | streaming hphase hpending hfresh hledger hopen hst hpayload hlines =>
      have hnow := hledger []
      rw [List.append_nil, List.append_nil] at hnow
      rw [hlines, hnow, if_neg (by simp [hphase]), List.append_nil,
        (feed_stream_ledger hfresh _ _).2.1]
  | done hphase hpending hpayload hlines hheld => rw [hlines, if_pos hphase]

/-- What an open session holds back is what the ledger holds. -/
theorem held (h : Booked cfg s received out) (hopen : s.phase ≠ .done) :
    s.heldLine = (ledger cfg received).held := by
  cases h with
  | header hawaits hntrip hmount hpending hpayload hlines =>
      rw [held_line_of_header hawaits.isHeader, ledger, hntrip]
      simp only [hawaits.phase]
  | table hphase hpending hledger hpayload hlines =>
      have hnow := hledger []
      rw [List.append_nil] at hnow
      rw [hnow, heldLine, hphase]
  | streaming hphase hpending hfresh hledger hopen hst hpayload hlines =>
      have hnow := hledger []
      rw [List.append_nil, List.append_nil] at hnow
      rw [hnow, ← (feed_stream_ledger hfresh _ _).2.2, hst, held_line_streaming hphase]
  | done hphase => exact absurd hphase hopen

/-- Flushing the request lines keeps the books. -/
theorem flush (h : Booked cfg s received out) :
    Booked cfg s.flushPending.1 received (out ++ s.pending) := by
  have hquiet : Quiet (flushPending s).1.pending := ⟨rfl, rfl⟩
  cases h with
  | header hawaits hntrip hmount hpending hpayload hlines =>
      refine .header (hawaits.congr rfl rfl) hntrip hmount hquiet ?_ ?_
      · rw [correction_bytes_append, hpayload, hpending.1, List.append_nil]
      · rw [rx_texts_append, hlines, hpending.2, List.append_nil]
  | table hphase hpending hledger hpayload hlines =>
      refine .table hphase hquiet hledger ?_ ?_
      · rw [correction_bytes_append, hpayload, hpending.1, List.append_nil]
      · rw [rx_texts_append, hlines, hpending.2, List.append_nil]
  | streaming hphase hpending hfresh hledger hopen hst hpayload hlines =>
      refine .streaming hphase hquiet hfresh hledger hopen hst ?_ ?_
      · rw [correction_bytes_append, hpayload, hpending.1, List.append_nil]
      · rw [rx_texts_append, hlines, hpending.2, List.append_nil]
  | done hphase hpending hpayload hlines hheld =>
      rw [hpending, List.append_nil]
      exact .done hphase rfl hpayload hlines hheld

/-- Outputs that bring nothing end the books of a session that holds nothing back. -/
theorem finish (h : Booked cfg s received out) (hopen : s.phase ≠ .done)
    (hheld : s.heldLine = []) {s' : NtripSession} (hdone : s'.phase = .done)
    (hpending : s'.pending = []) {more : List Output} (hquiet : Quiet more) :
    Booked cfg s' received (out ++ more) := by
  have hnone : (ledger cfg received).held = [] := by rw [← h.held hopen, hheld]
  have htexts := h.texts
  rw [if_neg hopen, List.append_nil] at htexts
  refine .done hdone hpending ?_ ?_ (fun hne => absurd hnone hne)
  · rw [correction_bytes_append, hquiet.1, List.append_nil, h.payload]
  · rw [rx_texts_append, hquiet.2, htexts, hnone]
    rfl

/-- A close books the bytes held back as its last line. -/
theorem close (h : Booked cfg s received out) (hopen : s.phase ≠ .done) {s' : NtripSession}
    (hphase : s'.phase = s.phase) (hpending : s'.pending = []) (reason : CloseReason) :
    Booked cfg (s'.emitClose reason).1 received (out ++ (s'.emitClose reason).2) := by
  have hsame : s'.heldLine = s.heldLine := by rw [heldLine, hphase]; rfl
  by_cases hnone : s.heldLine = []
  · refine h.finish hopen hnone ?_ ?_ ?_
    · rfl
    · exact hpending
    · rw [emitClose, hsame, hnone]
      exact ⟨rfl, rfl⟩
  · have hheld := h.held hopen
    have htexts := h.texts
    rw [if_neg hopen, List.append_nil] at htexts
    have hout : (s'.emitClose reason).2 =
        [.protocolRx (fromUtf8Lossy (ledger cfg received).held), .close reason] := by
      rw [emitClose, hsame, ← hheld]
      simp [hnone]
    rw [hout]
    refine .done rfl hpending ?_ ?_ (fun _ => ⟨out, reason, rfl⟩)
    · rw [correction_bytes_append, h.payload]
      exact List.append_nil _
    · rw [rx_texts_append, htexts, heldTexts, if_neg (by simpa [← hheld] using hnone)]
      rfl

/-! ### Body bytes -/

/-- A stream books the answer to a block that follows what it was fed before. -/
theorem applyStream {start : StreamState} {body : Bytes} {lines : List Text}
    {prior : List Output} {answer : StreamState × BodyEvent × List Output}
    (hpending : s.pending = []) (hfresh : FreshStream start)
    (hledger : ∀ more, ledger cfg (received ++ more) = streamLedger lines start (body ++ more))
    (hagree : StreamAgree (feedStream start body) (afterOutputs prior answer))
    (hended : Ended answer) (hpayload : correctionBytes out = correctionBytes prior)
    (hlines : rxTexts out = lines ++ rxTexts prior) :
    Booked cfg (s.applyStream answer).1 received (out ++ (s.applyStream answer).2) := by
  obtain ⟨hevent, hout, hstate⟩ := hagree
  have hcorrections := hout.correction_bytes
  have htexts := hout.rx_texts
  simp only [afterOutputs, correction_bytes_append, rx_texts_append] at hcorrections htexts
  by_cases hopen : answer.2.1 = .none
  · have hnone : (feedStream start body).2.1 = .none := hevent.trans hopen
    rw [apply_stream_open s hopen]
    refine .streaming rfl ?_ hfresh hledger hnone (hstate hnone) ?_ ?_
    · rw [show NtripSession.pending _ = [] from hpending]
      exact ⟨rfl, rfl⟩
    · rw [correction_bytes_append, hpayload, hcorrections]
    · rw [rx_texts_append, hlines, htexts, List.append_assoc]
  · have hclosed : (feedStream start body).2.1 ≠ .none := fun hnone => hopen (hevent ▸ hnone)
    obtain ⟨hpay, htext, hheld⟩ := feed_stream_ledger hfresh lines body
    have hnow := hledger []
    rw [List.append_nil, List.append_nil] at hnow
    have hnoheld : (ledger cfg received).held = [] := by
      have hprelude := ((feed_stream_ended start body).resolve_left hclosed).2
      rw [hnow, ← hheld, StreamState.heldLine, hprelude]
    rw [apply_stream_ended s hended hopen]
    refine .done rfl hpending ?_ ?_ (fun hne => absurd hnoheld hne)
    · rw [correction_bytes_append, correction_bytes_append, hpayload, hnow, ← hpay, hcorrections]
      show _ ++ (_ ++ []) = _
      rw [List.append_nil]
    · rw [rx_texts_append, rx_texts_append, hlines, hnoheld, hnow, ← htext, htexts]
      show _ ++ (_ ++ []) = _ ++ []
      simp only [List.append_nil, List.append_assoc]

/-- A table books nothing but its end. -/
theorem ingestTable {t : TableState} {lines : List Text} (hphase : s.phase = .table t)
    (hpending : s.pending = [])
    (hledger : ∀ more, ledger cfg (received ++ more) = ⟨[], lines, []⟩)
    (hpayload : correctionBytes out = []) (hlines : rxTexts out = lines) (data : Bytes) :
    Booked cfg (s.ingestBody data).1 received (out ++ (s.ingestBody data).2) := by
  have hquiet : Quiet s.pending := by rw [hpending]; exact ⟨rfl, rfl⟩
  have htable : Booked cfg s received out := .table hphase hquiet hledger hpayload hlines
  rw [ingest_body_table hphase]
  by_cases hopen : (feedTable t data).2 = .none
  · rw [apply_table_open s hopen, List.append_nil]
    exact .table rfl hquiet hledger hpayload hlines
  · refine htable.finish (by simp [hphase]) ?_ (apply_table_done s hopen) ?_ ?_
    · rw [heldLine, hphase]
    · obtain ⟨phase, closed, hspec, -⟩ := ingest_body_spec s data
      rw [← ingest_body_table hphase, hspec]
      exact hpending
    · exact apply_table_quiet s hopen

/-! ### Blocks -/

/-- A session that ends without a stream. -/
theorem ended {lines : List Text} (hdone : s.phase = .done) (hpending : s.pending = [])
    (hledger : ledger cfg received = ⟨[], lines, []⟩) (hpayload : correctionBytes out = [])
    (hlines : rxTexts out = lines) : Booked cfg s received out := by
  refine .done hdone hpending ?_ ?_ ?_
  · rw [hpayload, hledger]
  · rw [hlines, hledger]
    exact (List.append_nil _).symm
  · intro hne
    rw [hledger] at hne
    exact absurd rfl hne

/-- A refusal closes a session without a stream. -/
theorem refused {lines : List Text} {reason : CloseReason} (hdone : s.phase = .done)
    (hpending : s.pending = []) (hledger : ledger cfg received = ⟨[], lines, []⟩)
    (hpayload : correctionBytes out = [])
    (hlines : rxTexts out = lines) : Booked cfg s received (out ++ [.close reason]) := by
  refine ended hdone hpending hledger ?_ ?_
  · rw [correction_bytes_append, hpayload]
    rfl
  · rw [rx_texts_append, hlines]
    exact List.append_nil _

/-- A session that enters a stream books its first bytes. -/
theorem enterStream {start : StreamState} {body : Bytes} {lines : List Text}
    (hphase : s.phase = .streaming start) (hpending : s.pending = []) (hfresh : FreshStream start)
    (hledger : ∀ more, ledger cfg (received ++ more) = streamLedger lines start (body ++ more))
    (hpayload : correctionBytes out = []) (hlines : rxTexts out = lines) :
    Booked cfg (s.ingestBody body).1 received (out ++ (s.ingestBody body).2) := by
  rw [ingest_body_streaming hphase]
  have hagree : StreamAgree (feedStream start body) (afterOutputs [] (feedStream start body)) :=
    .of_eq rfl
  refine applyStream hpending hfresh hledger hagree (feed_stream_ended start body) hpayload ?_
  rw [hlines]
  exact (List.append_nil _).symm

/-- An HTTP answer is refused, or what follows it is a table or a stream. -/
theorem http {lines : List Text} {info : HttpInfo} {now : Instant} (hphase : s.phase = .statusLine)
    (hmount : s.mountpointRequested = !cfg.mountpoint.isEmpty) (hpending : s.pending = [])
    (hledger : ∀ more, ledger cfg (received ++ more) =
      answerLedger cfg lines (s.buf.unparsed ++ more) (.http info))
    (hpayload : correctionBytes out = []) (hlines : rxTexts out = lines) :
    Booked cfg (enterBody (s.classifyHttp info now)).1 received
      (out ++ (enterBody (s.classifyHttp info now)).2) := by
  have hheld : s.heldLine = [] := by rw [heldLine, hphase]
  have hnow := hledger []
  rw [List.append_nil] at hnow
  unfold classifyHttp
  simp only
  split
  · next hunauthorized =>
      have hout : (s.emitClose .unauthorized).2 = [.close .unauthorized] := by
        rw [emitClose, hheld]
        rfl
      simp only [enterBody, hout]
      refine refused rfl hpending ?_ hpayload hlines
      simp only [hnow, answerLedger, httpStream, hunauthorized]
      rfl
  · next hauthorized =>
      split
      · next hother =>
          have hout : ∀ buf reason, (emitClose { s with buf } reason).2 = [.close reason] := by
            intro buf reason
            have hheld' : heldLine { s with buf } = [] := hheld
            rw [emitClose, hheld']
            rfl
          simp only [HdrBuf.takeHdrConsumed, enterBody, hout]
          refine refused rfl hpending ?_ hpayload hlines
          simp only [Bool.not_eq_true'] at hother
          simp only [hnow, answerLedger, httpStream, hother, Bool.and_false, Bool.false_and,
            Bool.false_eq_true, if_false]
      · next haccepted =>
          have hstream : httpStream cfg info = !(!s.mountpointRequested ||
              Text.contains info.contentType "gnss/sourcetable".toList) := by
            simp only [Bool.not_eq_true', Bool.not_eq_false] at haccepted
            rw [Bool.not_eq_true] at hauthorized
            rw [httpStream, hmount]
            simp only [hauthorized, haccepted, Bool.not_false, Bool.true_and, Bool.not_not,
              Bool.not_or]
          split
          · next htable =>
              have hnotstream : httpStream cfg info = false := by
                rw [hstream, Bool.not_eq_false']
                exact htable
              simp only [answerLedger, hnotstream, Bool.false_eq_true, if_false] at hledger
              generalize hentered : enterTable _ now _ = s'
              have hpending' : s'.pending = [] := by
                rw [← hentered]
                exact hpending
              simp only [enterBody, List.nil_append]
              exact ingestTable (by rw [← hentered]; rfl) hpending' hledger hpayload hlines _
          · next htable =>
              have hisstream : httpStream cfg info = true := by
                rw [hstream, Bool.not_eq_true', ← Bool.not_eq_true]
                exact htable
              simp only [answerLedger, hisstream, if_true] at hledger
              simp only [enterBody, HdrBuf.takeHdrLeftover, List.nil_append]
              refine enterStream rfl hpending ⟨.inr rfl, ?_⟩ hledger hpayload hlines
              cases info.chunked with
              | true => exact .inr rfl
              | false => exact .inl rfl

/-- The header is complete: the session answers it and what follows it is the body. -/
theorem answer {received data : Bytes} (hawaits : AwaitsHeader s received)
    (hntrip : cfg.transport = .ntrip) (hmount : s.mountpointRequested = !cfg.mountpoint.isEmpty)
    (hpending : s.pending = []) (hpayload : correctionBytes out = [])
    (hlines : rxTexts out = (parseHeader received).lines) {answer : Answer}
    (hanswer : (parseHeader (received ++ data)).outcome = .complete answer) (now : Instant) :
    Booked cfg (absorb now s data).1 (received ++ data) (out ++ (absorb now s data).2) := by
  have hledger := ledger_complete hntrip hanswer
  have hnow := hledger []
  rw [List.append_nil, List.append_nil] at hnow
  obtain ⟨s', lines, hphase, hpend, hmount', hbody, hheader, habsorb⟩ :=
    hawaits.absorb_complete hanswer now
  rw [hpending] at hpend
  rw [hmount] at hmount'
  have hbefore : correctionBytes (out ++ rxLines lines) = [] := by
    rw [correction_bytes_append, hpayload, correction_bytes_rx_lines]
    rfl
  have htexts : rxTexts (out ++ rxLines lines) = (parseHeader (received ++ data)).lines := by
    rw [hheader, rx_texts_append, hlines, rx_texts_rx_lines]
  rw [habsorb, ← List.append_assoc]
  cases answer with
  | icy =>
      cases hempty : cfg.mountpoint.isEmpty with
      | true =>
          have hrequested : s'.mountpointRequested = false := by rw [hmount', hempty]; rfl
          simp only [takeAnswer, hrequested, Bool.false_eq_true, if_false, enterBody, refuse]
          show Booked cfg _ _ (out ++ rxLines lines ++ [.close _])
          refine refused rfl hpend ?_ hbefore htexts
          simp only [hnow, answerLedger, hempty, if_true]
      | false =>
          have hrequested : s'.mountpointRequested = true := by rw [hmount', hempty]; rfl
          simp only [takeAnswer, hrequested, if_true, enterBody, HdrBuf.advance_zero, hbody]
          refine enterStream rfl hpend ⟨.inl rfl, .inl rfl⟩ ?_ hbefore htexts
          simpa only [answerLedger, hempty, Bool.false_eq_true, if_false] using hledger
  | sourcetable =>
      simp only [takeAnswer, enterBody]
      generalize hentered : enterTable _ now (.direct none) = s''
      have hpending' : s''.pending = [] := by rw [← hentered]; exact hpend
      exact ingestTable (by rw [← hentered]; rfl) hpending' hledger hbefore htexts _
  | unknown =>
      simp only [takeAnswer, enterBody, refuse]
      show Booked cfg _ _ (out ++ rxLines lines ++ [.close _])
      exact refused rfl hpend hnow hbefore htexts
  | http info =>
      rw [← hbody] at hledger
      simp only [takeAnswer, HdrBuf.advance_zero]
      exact http rfl hmount' hpend hledger hbefore htexts

/-- A block that leaves the header unfinished is booked, even if it trips the cap. -/
theorem unfinished {received data : Bytes} (hawaits : AwaitsHeader s received)
    (hntrip : cfg.transport = .ntrip) (hmount : s.mountpointRequested = !cfg.mountpoint.isEmpty)
    (hpending : s.pending = []) (hpayload : correctionBytes out = [])
    (hlines : rxTexts out = (parseHeader received).lines)
    (hlen : headerLength (received ++ data) = none) (now : Instant) :
    Booked cfg (capClose (absorb now s data)).1 (received ++ data)
      (out ++ (capClose (absorb now s data)).2) := by
  obtain ⟨phase, buf, lines, habsorb, htexts, hnext⟩ := hawaits.absorb_unfinished hlen now
  rw [habsorb] at hnext ⊢
  generalize hs' : ({ s with lastRx := now, phase, buf } : NtripSession) = s' at hnext ⊢
  have hpending' : s'.pending = [] := by rw [← hs']; exact hpending
  have hbooked : Booked cfg s' (received ++ data) (out ++ rxLines lines) := by
    refine .header hnext hntrip ?_ ?_ ?_ ?_
    · rw [← hs']; exact hmount
    · rw [hpending']; exact ⟨rfl, rfl⟩
    · rw [correction_bytes_append, hpayload, correction_bytes_rx_lines]; rfl
    · rw [rx_texts_append, hlines, htexts, rx_texts_rx_lines]
  cases hcap : s'.overCap with
  | false => rw [cap_close_of_not hcap]; exact hbooked
  | true =>
      have hopen' : s'.phase ≠ .done := by
        intro hdone
        have hheader := hnext.isHeader
        simp [hdone, Phase.isHeader] at hheader
      have hphase : ({ s' with buf := {} } : NtripSession).phase = s'.phase := rfl
      simp only [capClose, hcap, if_true]
      rw [← List.append_assoc]
      exact hbooked.close hopen' hphase hpending' _

/-- A block received while the session is open is booked. -/
theorem onBytes (h : Booked cfg s received out) (hopen : s.phase ≠ .done)
    (hpending : s.pending = []) (data : Bytes) (now : Instant) :
    Booked cfg (s.onBytes data now).1 (received ++ data) (out ++ (s.onBytes data now).2) := by
  have hflush : s.flushPending.1 = s := by rw [flushPending, ← hpending]
  cases h with
  | header hawaits hntrip hmount hquiet hpayload hlines =>
      rw [on_bytes_eq, hflush, hpending, List.nil_append]
      cases hlen : headerLength (received ++ data) with
      | some n =>
          have hnot := hawaits.absorb_finished hlen now
          obtain ⟨⟨answer, hanswer⟩, -⟩ := header_length_eq_some.mp hlen
          rw [cap_close_of_not (over_cap_of_not_header hnot)]
          exact Booked.answer hawaits hntrip hmount hpending hpayload hlines hanswer now
      | none => exact unfinished hawaits hntrip hmount hpending hpayload hlines hlen now
  | table hphase hquiet hledger hpayload hlines =>
      have hbody : s.phase.isBody = true := by rw [hphase]; rfl
      rw [on_bytes_body hpending hbody]
      generalize hs' : ({ s with lastRx := now } : NtripSession) = s'
      refine ingestTable (by rw [← hs']; exact hphase) (by rw [← hs']; exact hpending) ?_ hpayload
        hlines data
      intro more
      rw [List.append_assoc]
      exact hledger (data ++ more)
  | @streaming st start body lines hphase hquiet hfresh hledger hfed hst hpayload hlines =>
      have hbody : s.phase.isBody = true := by rw [hphase]; rfl
      rw [on_bytes_body hpending hbody]
      generalize hs' : ({ s with lastRx := now } : NtripSession) = s'
      have hphase' : s'.phase = .streaming st := by rw [← hs']; exact hphase
      have hpending' : s'.pending = [] := by rw [← hs']; exact hpending
      have hagree := feed_stream_append_of_open start body data hfed
      rw [hst] at hagree
      rw [ingest_body_streaming hphase']
      refine applyStream hpending' hfresh ?_ hagree (feed_stream_ended st data) hpayload hlines
      intro more
      rw [List.append_assoc, List.append_assoc]
      exact hledger (data ++ more)
  | done hphase => exact absurd hphase hopen

/-! ### Other calls -/

/-- Timers and quiet outputs keep the books of an open session. -/
theorem frame (h : Booked cfg s received out) {s' : NtripSession} (hphase : s'.phase = s.phase)
    (hbuf : s'.buf = s.buf) (hpending : s'.pending = s.pending)
    (hmount : s'.mountpointRequested = s.mountpointRequested) {more : List Output}
    (hquiet : Quiet more) (hdone : s.phase = .done → more = []) :
    Booked cfg s' received (out ++ more) := by
  cases h with
  | header hawaits hntrip hrequested hpend hpayload hlines =>
      refine .header (hawaits.congr hbuf hphase) hntrip (hmount.trans hrequested) (hpending ▸ hpend)
        ?_ ?_
      · rw [correction_bytes_append, hpayload, hquiet.1]; rfl
      · rw [rx_texts_append, hlines, hquiet.2, List.append_nil]
  | table htable hpend hledger hpayload hlines =>
      refine .table (hphase.trans htable) (hpending ▸ hpend) hledger ?_ ?_
      · rw [correction_bytes_append, hpayload, hquiet.1]; rfl
      · rw [rx_texts_append, hlines, hquiet.2, List.append_nil]
  | streaming hstream hpend hfresh hledger hopen hst hpayload hlines =>
      refine .streaming (hphase.trans hstream) (hpending ▸ hpend) hfresh hledger hopen hst ?_ ?_
      · rw [correction_bytes_append, hpayload, hquiet.1, List.append_nil]
      · rw [rx_texts_append, hlines, hquiet.2, List.append_nil]
  | done hend hpend hpayload hlines hheld =>
      rw [hdone hend, List.append_nil]
      exact .done (hphase.trans hend) (hpending.trans hpend) hpayload hlines hheld

/-- A tick is booked. -/
theorem onTick (h : Booked cfg s received out) (now : Instant) :
    Booked cfg (s.onTick now).1 received (out ++ (s.onTick now).2) := by
  have hflush := h.flush
  have hclose : ∀ reason, s.phase ≠ .done →
      Booked cfg (s.flushPending.1.emitClose reason).1 received
        (out ++ (s.pending ++ (s.flushPending.1.emitClose reason).2)) := by
    intro reason hopen
    rw [← List.append_assoc]
    exact hflush.close hopen (rfl : s.flushPending.1.phase = s.flushPending.1.phase) rfl reason
  unfold NtripSession.onTick
  cases hphase : s.phase with
  | done =>
      simp only [flushPending, hphase] at hflush ⊢
      exact hflush
  | statusLine =>
      simp only [flushPending, hphase] at hflush hclose ⊢
      split
      · exact hclose _ (by simp)
      · exact hflush
  | httpHeaders info =>
      simp only [flushPending, hphase] at hflush hclose ⊢
      split
      · exact hclose _ (by simp)
      · exact hflush
  | table t =>
      simp only [flushPending, hphase] at hflush hclose ⊢
      split
      · exact hclose _ (by simp)
      · exact hflush
  | streaming st =>
      simp only [flushPending, hphase] at hflush hclose ⊢
      split
      · exact hclose _ (by simp)
      · split
        · split
          · rw [← List.append_assoc]
            exact hflush.frame (by rfl) (by rfl) (by rfl) (by rfl) ⟨rfl, rfl⟩ (by simp)
          · exact hflush
        · exact hflush

/-- A remote close is booked. -/
theorem onRemoteClose (h : Booked cfg s received out) :
    Booked cfg s.onRemoteClose.1 received (out ++ s.onRemoteClose.2) := by
  have hflush := h.flush
  have hclose : ∀ (buf : HdrBuf) reason, s.phase ≠ .done →
      Booked cfg ({ s.flushPending.1 with buf }.emitClose reason).1 received
        (out ++ (s.pending ++ ({ s.flushPending.1 with buf }.emitClose reason).2)) := by
    intro buf reason hopen
    have hphase : ({ s.flushPending.1 with buf } : NtripSession).phase =
        s.flushPending.1.phase := rfl
    rw [← List.append_assoc]
    exact hflush.close hopen hphase rfl reason
  unfold NtripSession.onRemoteClose
  cases hphase : s.phase with
  | done =>
      simp only [flushPending, hphase] at hflush ⊢
      exact hflush
  | statusLine =>
      simp only [flushPending, hphase] at hclose ⊢
      exact hclose _ _ (by simp)
  | httpHeaders info =>
      simp only [flushPending, hphase] at hclose ⊢
      exact hclose _ _ (by simp)
  | table t =>
      simp only [flushPending, hphase] at hflush ⊢
      rw [← List.append_assoc]
      refine hflush.finish (by simp) rfl ?_ ?_ ?_
      · simp only [finalizeTable]
        split
        · rfl
        · rfl
      · simp only [finalizeTable]
        split
        · rfl
        · rfl
      · simp only [finalizeTable]
        split
        · exact ⟨rfl, rfl⟩
        · exact ⟨rfl, rfl⟩
  | streaming st =>
      have hstream := hclose s.buf .remoteClosed (by rw [hphase]; simp)
      simp only [flushPending, hphase] at hstream ⊢
      exact hstream

/-- A cancellation is booked. -/
theorem cancel (h : Booked cfg s received out) :
    Booked cfg s.cancel.1 received (out ++ s.cancel.2) := by
  have hflush := h.flush
  unfold NtripSession.cancel
  by_cases hdone : s.phase = .done
  · simp only [flushPending, hdone, ne_eq, not_true_eq_false, if_false] at hflush ⊢
    exact hflush
  · have hopen : s.flushPending.1.phase ≠ .done := hdone
    simp only [hopen, ne_eq, not_false_eq_true, if_true]
    rw [← List.append_assoc]
    exact hflush.close hopen (rfl : s.flushPending.1.phase = s.flushPending.1.phase) rfl .cancelled

/-- An acknowledgement is booked. -/
theorem acknowledge (h : Booked cfg s received out) (gga : Gga) :
    Booked cfg { s with gga } received out := by
  have hnone : Quiet [] := ⟨rfl, rfl⟩
  have hframe : Booked cfg { s with gga } received (out ++ []) :=
    h.frame (by rfl) (by rfl) (by rfl) (by rfl) hnone (fun _ => rfl)
  rwa [List.append_nil] at hframe

/-- Every call is booked, with the bytes it delivers to an open session. -/
theorem step (h : Booked cfg s received out) (call : Call) :
    Booked cfg (NtripSession.step s call).1 (received ++ receivedWhileOpen s [call])
      (out ++ (NtripSession.step s call).2) := by
  cases call with
  | onBytes data now =>
      have hcall : receivedWhileOpen s [.onBytes data now] =
          if s.phase = .done then [] else data := by
        simp [receivedWhileOpen]
      rw [hcall]
      show Booked cfg (s.onBytes data now).1 _ (out ++ (s.onBytes data now).2)
      split
      · next hdone =>
          rw [on_bytes_done hdone, List.append_nil]
          exact h.flush
      · next hopen =>
          rw [on_bytes_flush, ← List.append_assoc]
          exact Booked.onBytes h.flush hopen rfl data now
  | onTick now =>
      rw [show receivedWhileOpen s [.onTick now] = [] from rfl, List.append_nil]
      exact h.onTick now
  | ggaSent now =>
      rw [show receivedWhileOpen s [.ggaSent now] = [] from rfl, List.append_nil]
      show Booked cfg (s.ggaSent now) received (out ++ [])
      rw [List.append_nil, NtripSession.ggaSent]
      split
      · exact h
      · exact h.acknowledge _
  | ggaMissed now =>
      rw [show receivedWhileOpen s [.ggaMissed now] = [] from rfl, List.append_nil]
      show Booked cfg (s.ggaMissed now) received (out ++ [])
      rw [List.append_nil, NtripSession.ggaMissed]
      split
      · exact h
      · exact h.acknowledge _
  | onRemoteClose =>
      rw [show receivedWhileOpen s [.onRemoteClose] = [] from rfl, List.append_nil]
      exact h.onRemoteClose
  | cancel =>
      rw [show receivedWhileOpen s [.cancel] = [] from rfl, List.append_nil]
      exact h.cancel

end Booked

/-! ## Runs -/

/-- A new session has received and emitted nothing. -/
theorem new_booked (cfg : SessionConfig) (t0 : Instant) : Booked cfg (new cfg t0).1 [] [] := by
  cases htransport : cfg.transport with
  | ntrip =>
      refine .header (new_awaits_header htransport t0) htransport ?_ ?_ rfl rfl
      · simp [new, htransport]
      · simp only [new, htransport]
        simp [Quiet, correctionBytes, rxTexts, List.flatMap_map, List.filterMap_map]
  | rawTcp =>
      have hphase : (new cfg t0).1.phase =
          .streaming { prelude := .resolved, chunked := none } := by
        simp [new, htransport]
      have hpending : (new cfg t0).1.pending = [] := by simp [new, htransport]
      have hquiet : Quiet (new cfg t0).1.pending := by rw [hpending]; exact ⟨rfl, rfl⟩
      have hledger : ∀ more, ledger cfg ([] ++ more) =
          streamLedger [] { prelude := .resolved, chunked := none } ([] ++ more) := by
        intro more
        simp [ledger, htransport, streamLedger]
      exact .streaming hphase hquiet ⟨.inr rfl, .inl rfl⟩ hledger rfl rfl rfl rfl

/-- Every run is booked. -/
theorem run_booked {cfg : SessionConfig} {s : NtripSession} {received : Bytes}
    {out : List Output} (h : Booked cfg s received out) (calls : List Call) :
    Booked cfg (run s calls).1 (received ++ receivedWhileOpen s calls)
      (out ++ (run s calls).2) := by
  induction calls generalizing s received out with
  | nil => simpa [receivedWhileOpen] using h
  | cons call rest ih =>
      have hnext := ih (h.step call)
      rw [List.append_assoc, List.append_assoc] at hnext
      have hreceived : receivedWhileOpen s [call] ++ receivedWhileOpen (step s call).1 rest =
          receivedWhileOpen s (call :: rest) := by
        simp [receivedWhileOpen]
      rw [hreceived] at hnext
      exact hnext

/-- The answer that some bytes announce, said by the lines themselves: the first line decides the
dialect, and of the fields of an HTTP header the last one of a name counts. -/
structure Announced (received : Bytes) : Prop where
  dialect : ∀ raw rest, splitLine received = some (raw, rest) →
    ((parseHeader received).outcome = .complete .icy ↔ Announces "ICY 200" (lineText raw)) ∧
    ((parseHeader received).outcome = .complete .sourcetable ↔
      Announces "SOURCETABLE 200" (lineText raw))
  http : ∀ info, (parseHeader received).outcome = .complete (.http info) →
    (∃ line, (parseHeader received).lines.head? = some line ∧ Announces "HTTP/1." line) ∧
      info.Reads (parseHeader received).lines

/-- What the reference removes from a body: a run of fields, each with its line end, and at most one
blank line. The rest is payload, or held back. -/
structure PreludeRemoved (body : Bytes) : Prop where
  whole : ∃ ends blank,
    ends.length = (stripPrelude PRELUDE_MAX_LINES body).removed.length ∧
    (∀ lineEnd ∈ ends, isLineEnd lineEnd = true) ∧ (blank = [] ∨ isLineEnd blank = true) ∧
    body = (List.zipWith (· ++ ·) (stripPrelude PRELUDE_MAX_LINES body).removed ends).flatten ++
      blank ++ (stripPrelude PRELUDE_MAX_LINES body).payload ++
      (stripPrelude PRELUDE_MAX_LINES body).held
  few : (stripPrelude PRELUDE_MAX_LINES body).removed.length ≤ 32
  fields : ∀ raw ∈ (stripPrelude PRELUDE_MAX_LINES body).removed, raw.length ≤ 256 ∧
    ∃ name value, raw = name ++ 58 :: value ∧ name ≠ [] ∧ ∀ b ∈ name, b ∈ nameBytes
  verbatim : ∀ raw ∈ (stripPrelude PRELUDE_MAX_LINES body).removed,
    (fromUtf8Lossy raw).toBytes = raw

/-- What is read out of chunks: their data, and of malformed ones the data before that. -/
structure Dechunked : Prop where
  rendered : ∀ chunks bytes later, Chunked.Renders chunks bytes →
    dechunk (bytes ++ later) = chunks.flatten
  malformed : ∀ bytes payload e, Chunked.Malformed bytes payload e → dechunk bytes = payload

theorem announced (received : Bytes) : Announced received where
  dialect raw rest hsplit := by
    obtain ⟨hicy, htable, -⟩ := status_kind_iff (lineText raw)
    rw [← hicy, ← htable, parseHeader, hsplit]
    simp only
    cases hkind : statusKind (lineText raw) with
    | icy => simp
    | sourcetable => simp
    | unknown => simp
    | http =>
        -- a header block ends in an HTTP answer, if it does
        have hblock : ∀ (info : HttpInfo) (bytes : Bytes) (answer : Answer),
            (parseBlock info bytes).outcome = .complete answer → ∃ info', answer = .http info' := by
          intro info bytes answer h
          fun_induction parseBlock info bytes with
          | case1 info bytes hsplit => simp at h
          | case2 info bytes raw rest hsplit hblank =>
              exact ⟨info, (HeaderOutcome.complete.inj h).symm⟩
          | case3 info bytes raw rest hsplit hblank ih => exact ih h
        refine ⟨iff_of_false (fun h => ?_) (by simp), iff_of_false (fun h => ?_) (by simp)⟩
        · obtain ⟨info, hinfo⟩ := hblock _ _ _ h
          simp at hinfo
        · obtain ⟨info, hinfo⟩ := hblock _ _ _ h
          simp at hinfo
  http info h := by
    refine ⟨?_, parse_header_reads h⟩
    unfold parseHeader at h ⊢
    cases hsplit : splitLine received with
    | none => simp [hsplit] at h
    | some pair =>
        obtain ⟨raw, rest⟩ := pair
        simp only [hsplit] at h ⊢
        cases hkind : statusKind (lineText raw) with
        | icy => simp [hkind] at h
        | sourcetable => simp [hkind] at h
        | unknown => simp [hkind] at h
        | http => exact ⟨lineText raw, rfl, (status_kind_iff (lineText raw)).2.2.mp hkind⟩

theorem prelude_removed (body : Bytes) : PreludeRemoved body where
  whole := by
    obtain ⟨ends, blank, hlength, hends, hblank, hbody, -⟩ :=
      strip_prelude_decompose PRELUDE_MAX_LINES body
    exact ⟨ends, blank, hlength, hends, hblank, hbody⟩
  few := by
    obtain ⟨-, -, -, -, -, -, hfew⟩ := strip_prelude_decompose PRELUDE_MAX_LINES body
    exact hfew
  fields raw hraw := by
    obtain ⟨hshaped, hshort⟩ := strip_prelude_shaped hraw
    exact ⟨hshort, header_shaped_iff.mp hshaped⟩
  verbatim raw hraw := removed_verbatim ((strip_prelude_lines _ body).2 raw hraw)

theorem dechunked : Dechunked where
  rendered chunks bytes later h := by
    rw [← Chunked.Decoder.feed_reference, h.feed later]
  malformed bytes payload e h := by
    rw [← Chunked.Decoder.feed_reference, h.feed]

/-- Conservation of the correction bytes, up to any point of any run. The corrections emitted are
the ledger's payload of the bytes received while the session was open. The lines shown are the
ledger's, each removed prelude line once and verbatim, and after the end the bytes held back, in
front of the close. Nothing is removed in front of a frame. The parts of the ledger are described by
the bytes alone: what is announced, what is removed and what chunks hold. -/
theorem correction_conservation (cfg : SessionConfig) (t0 : Instant) (calls : List Call) :
    let s := run (new cfg t0).1 calls
    let received := receivedWhileOpen (new cfg t0).1 calls
    let held := (ledger cfg received).held
    correctionBytes s.2 = (ledger cfg received).payload ∧
      rxTexts s.2 = (ledger cfg received).lines ++
        (if s.1.phase = .done then heldTexts held else []) ∧
      (s.1.phase = .done → held ≠ [] → ∃ before reason,
        s.2 = before ++ [.protocolRx (fromUtf8Lossy held), .close reason]) ∧
      (fromUtf8Lossy held).toBytes = held ∧
      (∀ body, ∀ raw ∈ (stripPrelude PRELUDE_MAX_LINES body).removed,
        (fromUtf8Lossy raw).toBytes = raw) ∧
      (∀ rest, cfg.transport = .ntrip → cfg.mountpoint ≠ [] →
        (parseHeader received).outcome = .complete .icy →
        received.drop (parseHeader received).used = 0xD3 :: rest →
        correctionBytes s.2 = 0xD3 :: rest) ∧
      Announced received ∧ (∀ body, PreludeRemoved body) ∧ Dechunked := by
  intro s received held
  have hbooked : Booked cfg s.1 received s.2 := run_booked (new_booked cfg t0) calls
  have hpayload := hbooked.payload
  refine ⟨hpayload, hbooked.texts, ?_, ?_, ?_, ?_, announced received, prelude_removed,
    dechunked⟩
  · intro hdone hheld
    cases hbooked with
    | header hawaits =>
        have hheader := hawaits.isHeader
        simp [hdone, Phase.isHeader] at hheader
    | table hphase => simp [hdone] at hphase
    | streaming hphase => simp [hdone] at hphase
    | done hphase hpending hpay hlines hlast => exact hlast hheld
  · exact held_verbatim (ledger_held cfg received)
  · intro body
    exact (prelude_removed body).verbatim
  · intro rest hntrip hmount hicy hbody
    rw [hpayload, ledger, hntrip]
    simp only [hicy, hbody, strip_prelude_preamble]
    rw [if_neg (by simpa using hmount)]

end NtripSession

end OpenNtrip
