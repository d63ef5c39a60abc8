import OpenNtrip.NtripCore.Chunked
import OpenNtrip.NtripCore.Request
import OpenNtrip.Lib.Transducer

/-!
# The sans-IO session state machine

`session.rs`, function by function. A method that takes `&mut self` and pushes onto `out`
becomes a function from the session to the session after the call and the outputs pushed
by it. `NtripSession.step` is one call of the caller's interface and `NtripSession.run` a
sequence of calls.
-/

namespace OpenNtrip

/-- Status and header accumulation cap. -/
def HDR_CAP : Nat := 16 * 1024

def FIRST_RESPONSE_TIMEOUT : Duration := fromSecs 30
def TABLE_TIMEOUT : Duration := fromSecs 10
def SILENCE_TIMEOUT : Duration := fromSecs 30
def GGA_FIRST_DELAY : Duration := fromMillis 300
def GGA_INTERVAL : Duration := fromSecs 10

/-- Retry slot after a miss, when the caller had no position to send. -/
def GGA_RETRY_DELAY : Duration := fromSecs 2

/-- Prelude bounds: anything past these caps is treated as payload. -/
def PRELUDE_LINE_CAP : Nat := 256
def PRELUDE_MAX_LINES : Nat := 32

/-! ## State -/

/-- A cursor at the start of an empty buffer. -/
theorem nothing_scanned : 0 ≤ ([] : Bytes).length := Nat.zero_le _

/-- The pre-classification receive buffer with the cursor to its next unparsed line. -/
structure HdrBuf where
  hdr : Bytes := []
  hdrPos : Nat := 0
  hdrPos_le : hdrPos ≤ hdr.length := by first | exact nothing_scanned | simp
  deriving DecidableEq, Repr

/-- What the HTTP header block has said so far. -/
structure HttpInfo where
  status : Text
  contentType : Text := []
  contentLength : Option Nat := none
  chunked : Bool := false
  deriving DecidableEq, Repr

/-- How a table body is delimited: by Content-Length, by its last line or the close, or by
chunked framing. -/
inductive TableMode where
  | direct (remaining : Option Nat)
  | chunked (dec : Chunked.Decoder)
  deriving DecidableEq, Repr

/-- The table body received so far, with the scan cursor at the start of its unfinished line. -/
structure TableState where
  body : Bytes := []
  scan : Nat := 0
  scan_le : scan ≤ body.length := by first | exact nothing_scanned | simp
  mode : TableMode
  deadline : Instant
  deriving DecidableEq, Repr

/-- What an ICY caster may send between its status line and the corrections: header lines still
being scanned, or nothing any more. -/
inductive Prelude where
  | headers (line : Bytes) (lines : Nat)
  | resolved
  deriving DecidableEq, Repr

structure StreamState where
  prelude : Prelude
  chunked : Option Chunked.Decoder
  deriving DecidableEq, Repr

/-- Where the session stands in the response. -/
inductive Phase where
  | statusLine
  | httpHeaders (info : HttpInfo)
  | table (t : TableState)
  | streaming (s : StreamState)
  | done
  deriving DecidableEq, Repr

/-- The GGA timer. `awaitSent` waits for the caller's `ggaSent` or `ggaMissed`. -/
inductive Gga where
  | disabled
  | idle
  | due (at_ : Instant)
  | awaitSent
  deriving DecidableEq, Repr

/-- A session. `closed` is the source's tripwire for the exactly-once close. -/
structure NtripSession where
  mountpointRequested : Bool
  phase : Phase
  pending : List Output
  buf : HdrBuf
  firstDeadline : Instant
  lastRx : Instant
  gga : Gga
  closed : Bool
  deriving DecidableEq, Repr

/-- Waiting for a status line or for the rest of an HTTP header block. -/
def Phase.isHeader : Phase → Bool
  | .statusLine | .httpHeaders _ => true
  | _ => false

def Phase.isStreaming : Phase → Bool
  | .streaming _ => true
  | _ => false

/-- The outcome of feeding body bytes, applied after the phase has been updated. -/
inductive BodyEvent where
  | none
  | tableComplete
  | corrupt (detail : Text)
  | chunkStreamEnd
  deriving DecidableEq, Repr

/-! ## The header buffer -/

namespace HdrBuf

/-- `hdr.extend_from_slice(data)`. -/
def extend (b : HdrBuf) (data : Bytes) : HdrBuf where
  hdr := b.hdr ++ data
  hdrPos := b.hdrPos
  hdrPos_le := Nat.le_trans b.hdrPos_le (by simp)

/-- The bytes past the parsed header lines. -/
def unparsed (b : HdrBuf) : Bytes := b.hdr.drop b.hdrPos

/-- `next_line`: the next complete line, without its line end, and the buffer past it. -/
def nextLine (b : HdrBuf) : Option (Text × HdrBuf) :=
  match h : splitLine b.unparsed with
  | none => none
  | some (line, _) =>
    some (fromUtf8Lossy (stripCr line),
      { hdr := b.hdr
        hdrPos := b.hdrPos + line.length + 1
        hdrPos_le := by
          have := split_line_length h
          have := b.hdrPos_le
          simp only [unparsed, List.length_drop] at *
          omega })

/-- `take_hdr_all`: everything received. -/
def takeHdrAll (b : HdrBuf) : Bytes × HdrBuf := (b.hdr, {})

/-- `take_hdr_consumed`: the header lines parsed so far. -/
def takeHdrConsumed (b : HdrBuf) : Bytes × HdrBuf := (b.hdr.take b.hdrPos, {})

/-- `take_hdr_leftover`: the bytes past the parsed header lines. -/
def takeHdrLeftover (b : HdrBuf) : Bytes × HdrBuf := (b.unparsed, {})

/-- A parsed line leaves fewer unparsed bytes. -/
theorem next_line_length {b b' : HdrBuf} {line : Text} (h : b.nextLine = some (line, b')) :
    b'.unparsed.length < b.unparsed.length := by
  unfold nextLine at h
  split at h
  · simp at h
  · next raw rest hsplit =>
      have hlen := split_line_length hsplit
      obtain ⟨-, rfl⟩ := Prod.mk.inj (Option.some.inj h)
      simp only [unparsed, List.length_drop] at *
      omega

end HdrBuf

/-! ## The ICY prelude -/

/-- HTTP token character (RFC 7230 tchar). -/
def isTchar (c : UInt8) : Bool := isAsciiAlphanumeric c || (ascii "!#$%&'*+-.^_\x60|~").contains c

/-- RFC 7230 field-line shape: token characters immediately followed by a colon. -/
def headerShaped (txt : Bytes) : Bool :=
  let name := txt.takeWhile fun c => c != 58
  name.length < txt.length && 1 ≤ name.length && name.all isTchar

/-- Whether byte `b` cannot continue the partial prelude line `line`. -/
def breaksLine (line : Bytes) (b : UInt8) : Bool :=
  if b = LF then false
  else if line.getLast? = some CR then true
  else if b = CR then false
  else !(b == 9 || (0x20 ≤ b && b ≤ 0x7e)) || PRELUDE_LINE_CAP ≤ line.length

/-- Outcome of one `consumePrelude` feed: every byte was consumed into a possibly partial line, or
the prelude is over, with the buffered bytes that turned out to be payload and the data that
follows them. -/
inductive PreludeStep where
  | needMore (line : Bytes) (lines : Nat)
  | payload (replay rest : Bytes)
  deriving DecidableEq, Repr

/-- Scan the ICY prelude for header-shaped lines, carrying the partial line and the number of
headers accepted so far. -/
def consumePrelude (line : Bytes) (lines : Nat) : Bytes → PreludeStep × List Output
  | [] => (.needMore line lines, [])
  | b :: rest =>
    if breaksLine line b then (.payload line (b :: rest), [])
    else if b ≠ LF then consumePrelude (line ++ [b]) lines rest
    else
      let txt := stripCr line
      if txt.isEmpty then (.payload [] rest, [])
      else if lines < PRELUDE_MAX_LINES ∧ headerShaped txt then
        let (step, out) := consumePrelude [] (lines + 1) rest
        (step, .protocolRx (fromUtf8Lossy txt) :: out)
      else (.payload (line ++ [LF]) rest, [])

/-! ## Body bytes -/

/-- A complete line equal to ENDSOURCETABLE, up to surrounding whitespace and case. -/
def isEndLine (line : Bytes) : Bool :=
  eqIgnoreAsciiCase (trimAscii (stripCr line)) (ascii "ENDSOURCETABLE")

/-- `scan_end_line`: search the body from the cursor for a complete ENDSOURCETABLE line. Returns the
index just past it, if found, and the cursor. -/
def scanEndLine (body : Bytes) (scan : Nat) : Option Nat × Nat :=
  match _h : splitLine (body.drop scan) with
  | none => (none, scan)
  | some (line, _) =>
    if isEndLine line then (some (scan + line.length + 1), scan)
    else scanEndLine body (scan + line.length + 1)
termination_by body.length - scan
decreasing_by
  have := split_line_length ‹_›
  simp only [List.length_drop] at this
  omega

/-- The scan does not run past the body. -/
theorem scan_end_line_le {body : Bytes} {scan : Nat} (h : scan ≤ body.length) :
    (scanEndLine body scan).2 ≤ body.length := by
  fun_induction scanEndLine body scan with
  | case1 scan hsplit => exact h
  | case2 scan line rest hsplit hend => exact h
  | case3 scan line rest hsplit hend ih =>
      apply ih
      have := split_line_length hsplit
      simp only [List.length_drop] at this
      omega

/-- The cursor stays before the end line that was found, inside the body. -/
theorem scan_end_line_stop {body : Bytes} {scan stop scan' : Nat}
    (h : scanEndLine body scan = (some stop, scan')) : scan' ≤ stop ∧ stop ≤ body.length := by
  fun_induction scanEndLine body scan with
  | case1 scan hsplit => simp at h
  | case2 scan line rest hsplit hend =>
      obtain ⟨rfl, rfl⟩ : scan + line.length + 1 = stop ∧ scan = scan' := by simpa using h
      have := split_line_length hsplit
      simp only [List.length_drop] at this
      omega
  | case3 scan line rest hsplit hend ih => exact ih h

/-- The scan of a table stays inside its body when that grows. -/
theorem TableState.scan_le_append (t : TableState) (data : Bytes) :
    t.scan ≤ (t.body ++ data).length :=
  Nat.le_trans t.scan_le (by simp)

/-- The table after `data` has joined its body and the lines in it have been scanned, cut at the
end line if there is one. -/
def TableState.absorb (t : TableState) (data : Bytes) (mode : TableMode) : TableState × Bool :=
  match h : scanEndLine (t.body ++ data) t.scan with
  | (some stop, scan) =>
    ({ body := (t.body ++ data).take stop, scan, mode, deadline := t.deadline
       scan_le := by
        have := scan_end_line_stop h
        simp only [List.length_take]
        omega }, true)
  | (none, scan) =>
    ({ body := t.body ++ data, scan, mode, deadline := t.deadline
       scan_le := by
        have := scan_end_line_le (t.scan_le_append data)
        simpa only [h] using this }, false)

/-- How many of `n` body bytes a table still takes: no more than its Content-Length has left. -/
def tableTake (remaining : Option Nat) (n : Nat) : Nat :=
  match remaining with
  | some left => min left n
  | none => n

/-- `feed_table`. A framing error surfaces only after the bytes decoded before it have joined the
body, which they may complete. -/
def feedTable (t : TableState) (data : Bytes) : TableState × BodyEvent :=
  match t.mode with
  | .direct remaining =>
    let take := tableTake remaining data.length
    let remaining := remaining.map fun left => left - take
    match t.absorb (data.take take) (.direct remaining) with
    | (t, true) => (t, .tableComplete)
    | (t, false) => (t, if remaining = some 0 then .tableComplete else .none)
  | .chunked dec =>
    let (decoded, result) := dec.feed data
    match result with
    | .error detail =>
      match t.absorb decoded t.mode with
      | (t, true) => (t, .tableComplete)
      | (t, false) => (t, .corrupt detail)
    | .ok dec =>
      match t.absorb decoded (.chunked dec) with
      | (t, true) => (t, .tableComplete)
      | (t, false) => (t, if dec.isDone then .tableComplete else .none)

/-- The part of `feed_stream` after the prelude: payload is emitted as it is or de-chunked. -/
def feedPayload (s : StreamState) (payload : Bytes) : StreamState × BodyEvent × List Output :=
  if payload.isEmpty then (s, .none, [])
  else
    match s.chunked with
    | none => (s, .none, [.corrections payload])
    | some dec =>
      let (decoded, result) := dec.feed payload
      let out := if decoded.isEmpty then [] else [.corrections decoded]
      match result with
      | .error detail => (s, .corrupt detail, out)
      | .ok dec =>
        ({ s with chunked := some dec }, if dec.isDone then .chunkStreamEnd else .none, out)

/-- `feed_stream`. -/
def feedStream (s : StreamState) (data : Bytes) : StreamState × BodyEvent × List Output :=
  match s.prelude with
  | .headers line lines =>
    match consumePrelude line lines data with
    | (.needMore line lines, out) => ({ s with prelude := .headers line lines }, .none, out)
    | (.payload replay rest, out) =>
      let (s, event, out') := feedPayload { s with prelude := .resolved } (replay ++ rest)
      (s, event, out ++ out')
  | .resolved => feedPayload s data

/-! ## HTTP headers -/

/-- One line of the HTTP header block. -/
def HttpInfo.headerLine (info : HttpInfo) (line : Text) : HttpInfo :=
  match Text.splitOnce ':' line with
  | none => info
  | some (name, value) =>
    let value := Text.trimAscii value
    let name := Text.toAsciiLowercase (Text.trimAscii name)
    if name = "content-type".toList then { info with contentType := Text.toAsciiLowercase value }
    else if name = "content-length".toList then { info with contentLength := Text.parseU64 value }
    else if name = "transfer-encoding".toList then
      { info with chunked := Text.contains (Text.toAsciiLowercase value) "chunked".toList }
    else info

/-! ## The session -/

namespace NtripSession

/-- `NtripSession::new`: the session and the request bytes to write to the socket. -/
def new (cfg : SessionConfig) (now : Instant) : NtripSession × Bytes :=
  let ggaEnabled := cfg.transport = .ntrip ∧ (cfg.gga = .always ∨ cfg.gga = .whenRequired true)
  let session : NtripSession :=
    { mountpointRequested := !cfg.mountpoint.isEmpty
      phase := .statusLine
      pending := []
      buf := {}
      firstDeadline := now + FIRST_RESPONSE_TIMEOUT
      lastRx := now
      gga := if ggaEnabled then .idle else .disabled
      closed := false }
  match cfg.transport with
  | .rawTcp =>
    ({ session with phase := .streaming { prelude := .resolved, chunked := none } }, [])
  | .ntrip =>
    let (lines, wire) := Request.build cfg
    ({ session with pending := lines.map .protocolTx }, wire)

/-- `flush_pending`. -/
def flushPending (s : NtripSession) : NtripSession × List Output :=
  ({ s with pending := [] }, s.pending)

/-- The bytes the ICY prelude scanner holds back: a partial line that never resolved. -/
def heldLine (s : NtripSession) : Bytes :=
  match s.phase with
  | .streaming { prelude := .headers line _, .. } => line
  | _ => []

/-- `emit_close`: the single funnel for `Close`. -/
def emitClose (s : NtripSession) (reason : CloseReason) : NtripSession × List Output :=
  let held := s.heldLine
  ({ s with closed := true, phase := .done },
    (if held.isEmpty then [] else [.protocolRx (fromUtf8Lossy held)]) ++ [.close reason])

/-- `enter_streaming`. -/
def enterStreaming (s : NtripSession) (now : Instant) (prelude : Prelude)
    (chunked : Option Chunked.Decoder) : NtripSession :=
  { s with
    phase := .streaming { prelude, chunked }
    lastRx := now
    gga := if s.gga = .disabled then .disabled else .due (now + GGA_FIRST_DELAY) }

/-- Enter the table phase with an empty body. -/
def enterTable (s : NtripSession) (now : Instant) (mode : TableMode) : NtripSession :=
  { s with phase := .table { mode, deadline := now + TABLE_TIMEOUT } }

/-- `finalize_table`: a mountpoint request is answered by the diagnosis, a table request by the
table; `closeAfter` is the abnormal-close reason of a finalization forced by a remote close. -/
def finalizeTable (s : NtripSession) (closeAfter : Option CloseReason) :
    NtripSession × List Output :=
  match s.phase with
  | .table t =>
    let s := { s with phase := .done }
    if s.mountpointRequested then s.emitClose (.mountpointNotFound t.body)
    else
      match closeAfter with
      | some reason =>
        let (s, out) := s.emitClose reason
        (s, .sourcetable t.body :: out)
      | none => (s, [.sourcetable t.body])
  | _ => (s, [])

/-- Apply the outcome of feeding body bytes. -/
def applyBodyEvent (s : NtripSession) : BodyEvent → NtripSession × List Output
  | .none => (s, [])
  | .tableComplete => s.finalizeTable none
  | .corrupt detail => s.emitClose (.streamCorrupt detail)
  | .chunkStreamEnd => s.emitClose .remoteClosed

/-- `ingest_body`: feed body bytes to the table or streaming phase. -/
def ingestBody (s : NtripSession) (data : Bytes) : NtripSession × List Output :=
  match s.phase with
  | .table t =>
    let (t, event) := feedTable t data
    { s with phase := .table t }.applyBodyEvent event
  | .streaming st =>
    let (st, event, out) := feedStream st data
    let (s, out') := { s with phase := .streaming st }.applyBodyEvent event
    (s, out ++ out')
  | _ => (s, [])

/-- `classify_http`: the header block is complete. Returns the body bytes received after it when the
session entered the table or streaming phase. -/
def classifyHttp (s : NtripSession) (info : HttpInfo) (now : Instant) :
    NtripSession × Option Bytes × List Output :=
  let status := Text.toAsciiUppercase (Text.trimAscii info.status)
  let isTable := !s.mountpointRequested ||
    Text.contains info.contentType "gnss/sourcetable".toList
  if Text.contains status " 401".toList then
    let (s, out) := s.emitClose .unauthorized
    (s, none, out)
  else if !Text.contains status " 200".toList then
    let (raw, buf) := s.buf.takeHdrConsumed
    let (s, out) := { s with buf }.emitClose (.unknownResponse raw)
    (s, none, out)
  else
    let (leftover, buf) := s.buf.takeHdrLeftover
    let s := { s with buf }
    if isTable then
      let mode := match info.contentLength with
        | some n => TableMode.direct (some n)
        | none => if info.chunked then .chunked {} else .direct none
      (s.enterTable now mode, some leftover, [])
    else
      let chunked := if info.chunked then some ({} : Chunked.Decoder) else none
      (s.enterStreaming now .resolved chunked, some leftover, [])

/-- The response dialects the first line selects between. -/
inductive StatusLine where
  | icy
  | sourcetable
  | http
  | unknown
  deriving DecidableEq, Repr

/-- Which dialect the status line announces. -/
def statusKind (line : Text) : StatusLine :=
  let upper := Text.toAsciiUppercase (Text.trimAscii line)
  if Text.startsWith upper "ICY 200".toList then .icy
  else if Text.startsWith upper "SOURCETABLE 200".toList then .sourcetable
  else if Text.startsWith upper "HTTP/1.".toList then .http
  else .unknown

/-- `drive_header`: parse status and header lines out of the buffer. Returns the leftover body bytes
when the session entered the table or streaming phase; nothing when more input is needed or
the session closed. -/
def driveHeader (s : NtripSession) (now : Instant) : NtripSession × Option Bytes × List Output :=
  match s.phase with
  | .statusLine =>
    match _hline : s.buf.nextLine with
    | none => (s, none, [])
    | some (line, buf) =>
      let s := { s with buf }
      match statusKind line with
      | .icy =>
        if !s.mountpointRequested then
          let (raw, buf) := s.buf.takeHdrConsumed
          let (s, out) := { s with buf }.emitClose (.unknownResponse raw)
          (s, none, .protocolRx line :: out)
        else
          let (leftover, buf) := s.buf.takeHdrLeftover
          ({ s with buf }.enterStreaming now (.headers [] 0) none, some leftover,
            [.protocolRx line])
      | .sourcetable =>
        let (leftover, buf) := s.buf.takeHdrLeftover
        ({ s with buf }.enterTable now (.direct none), some leftover, [.protocolRx line])
      | .http =>
        let (s, leftover, out) :=
          driveHeader { s with phase := .httpHeaders { status := line } } now
        (s, leftover, .protocolRx line :: out)
      | .unknown =>
        let (raw, buf) := s.buf.takeHdrConsumed
        let (s, out) := { s with buf }.emitClose (.unknownResponse raw)
        (s, none, out)
  | .httpHeaders info =>
    match _hline : s.buf.nextLine with
    | none => (s, none, [])
    | some (line, buf) =>
      let s := { s with buf }
      if !(Text.trimAscii line).isEmpty then
        let (s, leftover, out) :=
          driveHeader { s with phase := .httpHeaders (info.headerLine line) } now
        (s, leftover, .protocolRx line :: out)
      else s.classifyHttp info now
  | _ => (s, none, [])
termination_by s.buf.unparsed.length
decreasing_by
  · exact HdrBuf.next_line_length ‹_›
  · exact HdrBuf.next_line_length ‹_›

/-- `on_bytes`. The cap is checked only on bytes that stayed unclassified: parsing has the first
look at every feed. -/
def onBytes (s : NtripSession) (data : Bytes) (now : Instant) : NtripSession × List Output :=
  let (s, out) := s.flushPending
  match s.phase with
  | .done => (s, out)
  | .statusLine | .httpHeaders _ =>
    let (s, leftover, out₁) :=
      driveHeader { s with lastRx := now, buf := s.buf.extend data } now
    match leftover with
    | some leftover =>
      let (s, out₂) := s.ingestBody leftover
      (s, out ++ out₁ ++ out₂)
    | none =>
      if s.phase.isHeader ∧ s.buf.hdr.length > HDR_CAP then
        let (raw, buf) := s.buf.takeHdrAll
        let (s, out₂) := { s with buf }.emitClose (.unknownResponse raw)
        (s, out ++ out₁ ++ out₂)
      else (s, out ++ out₁)
  | .table _ | .streaming _ =>
    let (s, out₁) := { s with lastRx := now }.ingestBody data
    (s, out ++ out₁)

/-- `on_tick`: all deadlines are checked here, so that a silent socket still times out. -/
def onTick (s : NtripSession) (now : Instant) : NtripSession × List Output :=
  let (s, out) := s.flushPending
  match s.phase with
  | .done => (s, out)
  | .statusLine | .httpHeaders _ =>
    if s.firstDeadline ≤ now then
      let (s, out₁) := s.emitClose .firstResponseTimeout
      (s, out ++ out₁)
    else (s, out)
  | .table t =>
    if t.deadline ≤ now then
      let (s, out₁) := s.emitClose .sourcetableTimeout
      (s, out ++ out₁)
    else (s, out)
  | .streaming _ =>
    if SILENCE_TIMEOUT ≤ now - s.lastRx then
      let (s, out₁) := s.emitClose .streamSilence
      (s, out ++ out₁)
    else
      match s.gga with
      | .due at_ => if at_ ≤ now then ({ s with gga := .awaitSent }, out ++ [.ggaDue]) else (s, out)
      | _ => (s, out)

/-- `gga_sent`: the caller wrote a GGA sentence to its socket. -/
def ggaSent (s : NtripSession) (now : Instant) : NtripSession :=
  if s.gga = .disabled then s else { s with gga := .due (now + GGA_INTERVAL) }

/-- `gga_missed`: the caller had nothing to send for a due GGA. -/
def ggaMissed (s : NtripSession) (now : Instant) : NtripSession :=
  if s.gga = .disabled then s else { s with gga := .due (now + GGA_RETRY_DELAY) }

/-- `on_remote_close`. -/
def onRemoteClose (s : NtripSession) : NtripSession × List Output :=
  let (s, out) := s.flushPending
  match s.phase with
  | .done => (s, out)
  | .statusLine | .httpHeaders _ =>
    let (raw, buf) := s.buf.takeHdrAll
    let (s, out₁) := { s with buf }.emitClose (.unknownResponse raw)
    (s, out ++ out₁)
  | .table _ =>
    let (s, out₁) := s.finalizeTable (some .remoteClosed)
    (s, out ++ out₁)
  | .streaming _ =>
    let (s, out₁) := s.emitClose .remoteClosed
    (s, out ++ out₁)

/-- `cancel`. -/
def cancel (s : NtripSession) : NtripSession × List Output :=
  let (s, out) := s.flushPending
  if s.phase ≠ .done then
    let (s, out₁) := s.emitClose .cancelled
    (s, out ++ out₁)
  else (s, out)

/-! ## Runs -/

/-- One call of the session's interface. -/
inductive Call where
  | onBytes (data : Bytes) (now : Instant)
  | onTick (now : Instant)
  | ggaSent (now : Instant)
  | ggaMissed (now : Instant)
  | onRemoteClose
  | cancel
  deriving DecidableEq, Repr

/-- The session after one call, and what the call emits. -/
def step (s : NtripSession) : Call → NtripSession × List Output
  | .onBytes data now => s.onBytes data now
  | .onTick now => s.onTick now
  | .ggaSent now => (s.ggaSent now, [])
  | .ggaMissed now => (s.ggaMissed now, [])
  | .onRemoteClose => s.onRemoteClose
  | .cancel => s.cancel

/-- The session after a sequence of calls, and everything they emit. -/
def run (s : NtripSession) (calls : List Call) : NtripSession × List Output :=
  Transducer.run step s calls

@[simp] theorem run_nil (s : NtripSession) : run s [] = (s, []) := rfl

/-- A run makes its first call, and goes on from there. -/
theorem run_cons (s : NtripSession) (call : Call) (rest : List Call) :
    run s (call :: rest) =
      ((run (step s call).1 rest).1, (step s call).2 ++ (run (step s call).1 rest).2) := rfl

/-- Running two lists of calls one after the other is running their concatenation. -/
theorem run_append (s : NtripSession) (first second : List Call) :
    run s (first ++ second) =
      ((run (run s first).1 second).1, (run s first).2 ++ (run (run s first).1 second).2) :=
  Transducer.run_append step s first second

end NtripSession
end OpenNtrip
