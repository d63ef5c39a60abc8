import OpenNtrip.App.Logger
import OpenNtrip.App.Verdict

/-!
# The reports of the worker

What `workers/ntrip.rs` tells the hub, beside the worker of `OpenNtrip.App.NtripWorker`: the lines
of the two logs, the verdicts about positions, the captures and the posts, in the order in which
they are sent. Each function follows its model there, takes the worker as it is before the call, and
returns the notes that it keeps and what it reports. What the reports read besides, clocks and texts
of errors, is an argument of them.
-/

namespace OpenNtrip

/-- A line of the event log or the connection log. -/
inductive Line where
  | connecting (host : Text) (port : UInt16) (attempt : Nat)
  | failed (message : Text)
  | tlsComplete (protocol cipher : Text) (verified : Bool)
  | tlsFailed (message : Text)
  | rawConnected (host : Text) (port : UInt16)
  | ggaAssumed (mountpoint : Text)
  | ggaOff (mountpoint : Text)
  | ggaOffWarning
  | mountEncoded (escaped : Text)
  | connected
  | tx (line : Text)
  | rx (line : Text)
  | ggaMissed (source : GgaSource)
  | ggaRemedy (source : GgaSource)
  | ggaStillMissed
  | ggaFailed (error : Text)
  | receiving (after : Duration) (plan : Text)
  | overrun (total : Nat)
  | milestone (mark : Mark) (frames crcFailures : Nat)
  | sourcetable (what : Text) (streams casters networks : Nat)
  | socketError (error : Text)
  | closed (reason : CloseReason) (mountpoint : Text) (after : Duration) (bytes : Nat)
  | ggaHint (text : Text)
  | trouble (kind : PositionTrouble)
  | alertFailed (error : Text)
  | noReconnect (text : Text)
  | reconnecting (notice : Text)
  deriving DecidableEq, Repr

/-- The text of a line. -/
def Line.text {F32 : Type} [Inhabited F32] (render : Rendering F32) : Line → Text
  | .connecting host port attempt =>
    "Connecting to ".toList ++ host ++ ':' :: (decimalText port.toNat ++ " (attempt ".toList ++
      decimalText attempt ++ ")".toList)
  | .failed message => message
  | .tlsComplete protocol cipher verified =>
    "TLS handshake complete: ".toList ++ protocol ++ ", ".toList ++ cipher ++ ", ".toList ++
      if verified then "certificate verified".toList
      else "certificate NOT verified (diagnostic mode)".toList
  | .tlsFailed message => "TLS handshake failed: ".toList ++ message
  | .rawConnected host port =>
    "TCP connected ".toList ++ host ++ ':' :: (decimalText port.toNat ++
      " - raw, no NTRIP handshake".toList)
  | .ggaAssumed mountpoint =>
    "No sourcetable entry for '".toList ++ mountpoint ++
      "'; will send GGA in case it is required".toList
  | .ggaOff mountpoint =>
    "The sourcetable marks '".toList ++ mountpoint ++
      "' as requiring NMEA GGA, but Send GGA is off".toList
  | .ggaOffWarning => "The caster may disconnect this position-silent connection".toList
  | .mountEncoded escaped =>
    "Mountpoint '".toList ++ escaped ++
      "' contains spaces or control characters; sending it percent-encoded".toList
  | .connected => "Connected. Waiting for data...".toList
  | .tx line => "> ".toList ++ line
  | .rx line => "< ".toList ++ line
  | .ggaMissed .receiver =>
    "No receiver GGA available; position not sent (no GPS receiver is connected)".toList
  | .ggaMissed .manual =>
    "No manual position set; GGA not sent (the profile has no usable coordinates)".toList
  | .ggaRemedy .receiver =>
    "Connect one on the Serial side, or switch the position source to manual".toList
  | .ggaRemedy .manual =>
    "Set the manual position in the profile, or switch the source to receiver".toList
  | .ggaStillMissed =>
    "Still no position to send; the caster may be waiting for a GGA".toList
  | .ggaFailed error => "Failed to send GGA: ".toList ++ error
  | .receiving after plan =>
    "Receiving data (first data ".toList ++ render.duration after ++ " after connect; ".toList ++
      plan ++ ")".toList
  | .overrun total =>
    "Serial overrun: receiver link too slow, oldest corrections dropped (".toList ++
      decimalText total ++ " total)".toList
  | .milestone mark frames crcFailures => mark.line frames crcFailures
  | .sourcetable what streams casters networks =>
    what ++ ": ".toList ++ decimalText streams ++ " streams, ".toList ++ decimalText casters ++
      " casters, ".toList ++ decimalText networks ++ " networks".toList
  | .socketError error => "Socket error: ".toList ++ error
  | .closed reason mountpoint after bytes => closeEventLine render reason mountpoint after bytes
  | .ggaHint text => text
  | .trouble kind => kind.hint
  | .alertFailed error => "Audio alert failed: ".toList ++ error
  | .noReconnect text => text
  | .reconnecting notice => notice

/-- What is sent to the hub. A post goes where the worker's model says. -/
inductive Report (D F32 : Type) where
  | event (line : Line)
  | conn (line : Line)
  | post (post : Post)
  | lastClose (summary : Text)
  | sourcetableReady (host : Text) (port : UInt16) (table : Sourcetable.SourceTable F32)
  | unknownResponse (raw : Bytes)
  | trouble (trouble : Option PositionTrouble)
  | capture (cmd : LogCmd D)
  | stopped (summary : Text) (failed : Bool)
  deriving Repr

/-- The post that a report is. -/
def Report.post? {D F32 : Type} : Report D F32 → Option Post
  | .post p => some p
  | _ => none

/-- What a run keeps of its reports. -/
structure RunNotes where
  ggaAssumptionLogged : Bool := false
  ggaOffWarningLogged : Bool := false
  mountEncodingLogged : Bool := false
  starvedLogged : Bool := false
  refusedLogged : Bool := false
  lastOverrunEvent : Option Instant := none
  deriving DecidableEq, Repr

/-- What a connection keeps of its reports. -/
structure ConnNotes where
  connectedAt : Instant
  bytesAtConnect : Nat
  lastMissNote : Option Instant := none
  answeredAt : Option Instant := none
  starveNoted : Bool := false
  deriving DecidableEq, Repr

structure Notes where
  run : RunNotes
  conn : ConnNotes
  deriving DecidableEq, Repr

/-- What the reports about one output read: the clock, the clock at an overrun, and the error of a
write that fails. -/
structure Readings where
  clock : Instant
  overrunAt : Instant
  writeError : Text

/-- What the reports of one turn of the loop read: the error of a read that fails, the clock at the
check of the silence, and what the outputs read. -/
structure TurnReadings where
  socketError : Text
  clock : Instant
  outputs : Nat → Readings

/-- What the reports of one connection read. -/
structure ConnectionReadings where
  timeoutError : Text
  tlsProtocol : Text
  tlsCipher : Text
  tlsError : Text
  requestError : Text
  connectedAt : Instant
  outputs : Nat → Readings
  turns : Nat → TurnReadings

/-- What the reports of one attempt read. -/
structure AttemptReadings where
  connectError : Text
  alertError : Option Text
  connection : ConnectionReadings

/-- `char::escape_default`. -/
def escapeDefault (c : Char) : Text :=
  match c with
  | '\t' => "\\t".toList
  | '\r' => "\\r".toList
  | '\n' => "\\n".toList
  | '\'' => "\\'".toList
  | '"' => "\\\"".toList
  | '\\' => "\\\\".toList
  | c =>
    if 0x20 ≤ c.toNat ∧ c.toNat ≤ 0x7e then [c]
    else "\\u\x7b".toList ++ Nat.toDigits 16 c.toNat ++ "\x7d".toList

section

variable {D F32 : Type} [Inhabited F32] (render : Rendering F32) (target : Option (CaptureTarget D))

/-- Whether the hint of a trouble was logged. -/
def RunNotes.logged (n : RunNotes) : PositionTrouble → Bool
  | .starved => n.starvedLogged
  | .refused => n.refusedLogged

def RunNotes.log (n : RunNotes) : PositionTrouble → RunNotes
  | .starved => { n with starvedLogged := true }
  | .refused => { n with refusedLogged := true }

/-- `report_trouble`. -/
def RunNotes.reportTrouble (n : RunNotes) (trouble : PositionTrouble) :
    RunNotes × List (Report D F32) :=
  (n.log trouble,
    .trouble (some trouble) :: if n.logged trouble then [] else [.event (.trouble trouble)])

/-- `MISS_NOTE_INTERVAL`. -/
def MISS_NOTE_INTERVAL : Duration := fromSecs 10

/-- `note_gga_miss`. -/
def ConnNotes.noteGgaMiss (n : ConnNotes) (streaming : Bool) (source : GgaSource) (now : Instant) :
    ConnNotes × List (Report D F32) :=
  match n.lastMissNote with
  | none =>
    ({ n with lastMissNote := some now }, [.event (.ggaMissed source), .event (.ggaRemedy source)])
  | some prev =>
    if !streaming ∧ MISS_NOTE_INTERVAL ≤ now - prev then
      ({ n with lastMissNote := some now }, [.event .ggaStillMissed])
    else (n, [])

namespace Worker

/-- What `on_gga_due` reports. -/
def ggaReports (w : Worker) (n : ConnNotes) (around : Surroundings) (readings : Readings) :
    ConnNotes × List (Report D F32) :=
  match sentence w.cx.job around with
  | none => n.noteGgaMiss w.conn.streaming w.cx.job.ggaSource readings.clock
  | some sentence =>
    if around.written then
      (n, .post (.gga sentence) :: (if w.conn.ggaSent = 0 then [.trouble none] else []) ++
        [.conn (.tx sentence.trimEnd)])
    else (n, [.event (.ggaFailed readings.writeError)])

/-- What the first corrections of a connection lead to. -/
def firstReports (w : Worker) (n : ConnNotes) (around : Surroundings) (readings : Readings) :
    List (Report D F32) :=
  if w.conn.streaming then []
  else
    [.event (.receiving (readings.clock - n.connectedAt)
        (ggaPlan w.cx.job.transport w.cx.job.ggaMode w.cx.job.streamRequiresGga w.cx.job.ggaSource
          around.lastGga.isSome (manualPositionSet w.cx.job.manualLat w.cx.job.manualLon))),
      .post (.status .streaming)]

/-- What an answer of the queue leads to. -/
def overrunReports (n : RunNotes) (pushed : PushOutcome) (now : Instant) :
    RunNotes × List (Report D F32) :=
  match pushed with
  | .droppedOldest total =>
    if n.lastOverrunEvent.all fun t => fromSecs 1 ≤ now - t then
      ({ n with lastOverrunEvent := some now },
        [.post (.overruns total), .event (.overrun total)])
    else (n, [.post (.overruns total)])
  | _ => (n, [])

/-- What `on_corrections` reports. -/
def correctionReports (w : Worker) (n : Notes) (bytes : Bytes) (around : Surroundings)
    (readings : Readings) : Notes × List (Report D F32) :=
  let first := w.firstReports n.conn around readings
  let totalBytes := w.cx.totalBytes + bytes.length
  let (run, overruns) := overrunReports n.run around.pushed readings.overrunAt
  let captured := if target.isSome then [.capture (.captureData bytes)] else []
  let (deframer, frames) := deframe w.conn.deframer bytes
  let batch : RtcmBatch :=
    { frames
      crcFailures := w.cx.crcBase + deframer.crcFailures
      garbageBytes := w.cx.garbageBase + deframer.garbageBytes }
  let completed := (frames.map fun (_, n, _) => n).sum
  let milestone := (trafficMark w.cx.totalBytes totalBytes).toList.map fun mark =>
    .event (.milestone mark (w.cx.framesTotal + completed) batch.crcFailures)
  let due := !frames.isEmpty || (batch.crcFailures, batch.garbageBytes) != w.cx.lastHealthPosted
  ({ n with run },
    first ++ [.post (.push bytes)] ++ overruns ++ captured ++ milestone ++
      (if due then [.post (.rtcm batch)] else []) ++ [.post (.rxBytes totalBytes)])

/-- `on_sourcetable`. -/
def tableReports (job : NtripJob) (raw : Bytes) (what : Text) : List (Report D F32) :=
  let table := Sourcetable.parse render.parseF32 raw
  [.event (.sourcetable what table.strs.length table.casters.length table.networks.length),
    .sourcetableReady job.host job.port table]

/-- A line for both logs. -/
def both (line : Line) : List (Report D F32) := [.event line, .conn line]

/-- What is reported of the answer of a caster that led to the close. -/
def answerReports (job : NtripJob) : CloseReason → List (Report D F32)
  | .mountpointNotFound sourcetable =>
    tableReports render job sourcetable "Caster answered with its sourcetable".toList
  | .unknownResponse raw => if raw.isEmpty then [] else [.unknownResponse raw]
  | _ => []

/-- The lines of a hint. -/
def hintReports : Option (Text × Text) → List (Report D F32)
  | some (diagnosis, remedy) => both (.ggaHint diagnosis) ++ both (.ggaHint remedy)
  | none => []

/-- A verdict is reported, or withdrawn. -/
def verdictReports (n : RunNotes) : Option PositionTrouble → RunNotes × List (Report D F32)
  | some trouble => n.reportTrouble trouble
  | none => (n, [.trouble none])

/-- What `dispatch` reports of a close. -/
def closeReports (w : Worker) (n : Notes) (reason : CloseReason) (around : Surroundings)
    (readings : Readings) : Notes × List (Report D F32) :=
  let job := w.cx.job
  let connectedFor := readings.clock - n.conn.connectedAt
  let closed := both (.closed reason job.mountpoint connectedFor
    (w.cx.totalBytes - n.conn.bytesAtConnect))
  let hint := hintReports (ggaHint reason job.transport job.mountpoint job.streamRequiresGga
    w.conn.ggaSent connectedFor)
  let (run, verdict) := verdictReports n.run (positionVerdict reason job.transport job.mountpoint
    job.streamRequiresGga w.conn.ggaSent connectedFor (job.positionReady around.lastGga))
  ({ n with run }, answerReports render job reason ++ closed ++ hint ++ verdict)

/-- What `dispatch` reports of one output. -/
def oneReports (w : Worker) (n : Notes) (output : Output) (around : Surroundings)
    (readings : Readings) : Notes × List (Report D F32) :=
  match output with
  | .protocolTx line => (n, both (.tx line))
  | .protocolRx line =>
    ({ n with conn := { n.conn with
        answeredAt := some (n.conn.answeredAt.getD readings.clock) } }, both (.rx line))
  | .ggaDue =>
    let (conn, reports) := w.ggaReports n.conn around readings
    ({ n with conn }, reports)
  | .corrections bytes => w.correctionReports target n bytes around readings
  | .sourcetable raw => (n, tableReports render w.cx.job raw "Downloaded sourcetable".toList)
  | .close reason => w.closeReports render n reason around readings

/-- What `dispatch` reports. -/
def dispatchReports (w : Worker) (n : Notes) (outs : List Output) (around : Nat → Surroundings)
    (readings : Nat → Readings) : Notes × List (Report D F32) :=
  match outs with
  | [] => (n, [])
  | output :: rest =>
    let (n, first) := w.oneReports render target n output (around 0) (readings 0)
    let (n, more) := dispatchReports (w.dispatchOne output (around 0)) n rest
      (fun i => around (i + 1)) fun i => readings (i + 1)
    (n, first ++ more)

/-- What a read of the socket leads to. -/
def readReports (w : Worker) (turn : LoopTurn) (readings : TurnReadings) : List (Report D F32) :=
  match turn.read with
  | .error =>
    if (w.cx.observe turn.cancelledRead).cancel then []
    else [.event (.socketError readings.socketError)]
  | _ => []

/-- What a turn of the loop reports. -/
def turnReports (w : Worker) (n : Notes) (turn : LoopTurn) (readings : TurnReadings) :
    Notes × List (Report D F32) :=
  let w := { w with cx := w.cx.observe turn.cancelled }
  if w.cx.cancel then (n, [])
  else
    let read := w.readReports turn readings
    if !n.conn.starveNoted && starving (n.conn.answeredAt.map fun t => readings.clock - t)
        w.conn.streaming w.conn.ggaSent w.cx.job.positionMatters then
      let (run, trouble) := n.run.reportTrouble .starved
      ({ run, conn := { n.conn with starveNoted := true } }, read ++ trouble)
    else (n, read)

/-- What the loop of `drive_connection` reports, from the outputs to dispatch on. -/
def loopReports (w : Worker) (n : Notes) (outs : List Output) (around : Nat → Surroundings)
    (readings : Nat → Readings) (turns : List LoopTurn) (turnReadings : Nat → TurnReadings) :
    Notes × List (Report D F32) :=
  let (n, first) := w.dispatchReports render target n outs around readings
  let w := w.dispatch outs around
  match w.conn.terminal with
  | some _ => (n, first ++ if target.isSome then [.capture .captureEnd] else [])
  | none =>
    match turns with
    | [] => (n, first)
    | next :: rest =>
      let (n, between) := w.turnReports n next (turnReadings 0)
      let (w, outs) := w.turn next
      let (n, more) := loopReports w n outs next.around (turnReadings 0).outputs rest
        fun i => turnReadings (i + 1)
      (n, first ++ between ++ more)

end Worker

namespace Cx

/-- What `establish` reports, and the message of a failure. -/
def establishReports (cx : Cx) (allowInvalidCerts : Bool) (tls : TlsOutcome)
    (readings : ConnectionReadings) : List (Report D F32) × Text :=
  let message := (Line.tlsFailed readings.tlsError).text render
  if !cx.job.tls then ([], [])
  else
    match tls with
    | .established =>
      (Worker.both (.tlsComplete readings.tlsProtocol readings.tlsCipher !allowInvalidCerts), [])
    | .cancelled => ([], [])
    | .rejected => (Worker.both (.tlsFailed readings.tlsError), message)
    | .io => ([.conn (.tlsFailed readings.tlsError)], message)

/-- What `drive_connection` reports of the job before it connects. -/
def jobReports (cx : Cx) (n : RunNotes) : RunNotes × List (Report D F32) :=
  let job := cx.job
  let stream := job.transport = .ntrip ∧ job.mountpoint ≠ []
  let raw := if job.transport = .rawTcp then [.conn (.rawConnected job.host job.port)] else []
  let assume := job.ggaMode = .whenRequired ∧ job.streamRequiresGga = none ∧ stream ∧
    ¬ n.ggaAssumptionLogged
  let warn := job.ggaMode = .off ∧ job.streamRequiresGga = some true ∧ stream ∧
    ¬ n.ggaOffWarningLogged
  let encode := mountpointNeedsEncoding job.mountpoint ∧ ¬ n.mountEncodingLogged
  ({ n with
      ggaAssumptionLogged := n.ggaAssumptionLogged || assume
      ggaOffWarningLogged := n.ggaOffWarningLogged || warn
      mountEncodingLogged := n.mountEncodingLogged || encode },
    raw ++ (if assume then [.event (.ggaAssumed job.mountpoint)] else []) ++
      (if warn then [.event (.ggaOff job.mountpoint), .event .ggaOffWarning] else []) ++
      if encode then [.event (.mountEncoded (job.mountpoint.flatMap escapeDefault))] else [])

/-- What `drive_connection` reports, with the message of a failure outside the session. -/
def connectionReports (cx : Cx) (allowInvalidCerts : Bool) (n : RunNotes)
    (script : ConnectionScript) (readings : ConnectionReadings) :
    RunNotes × List (Report D F32) × Text :=
  if !script.timeoutSet then (n, [], "set_read_timeout: ".toList ++ readings.timeoutError)
  else
    let (tls, message) := cx.establishReports render allowInvalidCerts script.tls readings
    match cx.establish script.tls with
    | (_, some _) => (n, tls, message)
    | (cx, none) =>
      let (n, job) := cx.jobReports n
      let request := (NtripSession.new cx.job.sessionConfig script.openedAt).2
      if !request.isEmpty && !script.requestWritten then
        (n, tls ++ job, "Send request failed: ".toList ++ readings.requestError)
      else
        let (w, outs) := (cx.connected script.openedAt).call (.onTick script.firstTick)
        let opened := [.event .connected, .post (.status .waitingForData)] ++
          target.toList.map fun target => .capture (.captureBegin target cx.job.mountpoint)
        let (n, session) := w.loopReports render target
          ⟨n, { connectedAt := readings.connectedAt, bytesAtConnect := cx.totalBytes }⟩ outs
          script.around readings.outputs script.turns readings.turns
        (n.run, tls ++ job ++ opened ++ session, [])

/-- What an attempt reports once its connection has ended, and the summary of it. -/
def endReports (cx : Cx) (ended : SessionEnd) (message : Text) (attempt : Attempt)
    (readings : AttemptReadings) : List (Report D F32) × Text :=
  match ended with
  | .tableDone => ([], "Sourcetable downloaded".toList)
  | .closed .cancelled => ([], CANCEL_SUMMARY)
  | ended =>
    let summary := match ended with
      | .closed reason => closeSummary render reason cx.job.mountpoint
      | _ => message
    let failed := if ended = .failed then [.event (.failed message)] else []
    let reconnectable := cx.reconnectable ended
    if (cx.observe attempt.cancelledAfter).cancel then (failed, CANCEL_SUMMARY)
    else
      let alert := if cx.alertArmed then
          readings.alertError.toList.map fun error => .event (.alertFailed error)
        else []
      let cx := cx.countDrop
      let closed := failed ++ [.lastClose summary] ++ alert
      if !reconnectable then
        (closed ++ Worker.both (.noReconnect (noReconnectLine (transientEnd ended) cx.job.reconnect
          cx.job.isTableRequest cx.job.maxAttempts)), summary)
      else
        (closed ++ Worker.both (.reconnecting (reconnectNotice cx.drops (cx.attemptsDone + 1)
            cx.job.maxAttempts)) ++
          [.post (.status (.reconnectWait (cx.attemptsDone + 1)))], CANCEL_SUMMARY)

/-- What an attempt reports, and the summary of it. -/
def attemptReports (cx : Cx) (allowInvalidCerts : Bool) (n : RunNotes) (attempt : Attempt)
    (readings : AttemptReadings) : RunNotes × List (Report D F32) × Text :=
  let cx := { cx with attemptsDone := cx.attemptsDone + 1 }
  let connecting := [.post (.status (.connecting cx.attemptsDone)),
    .event (.connecting cx.job.host cx.job.port cx.attemptsDone)]
  let cx := cx.post [.status (.connecting cx.attemptsDone)]
  match attempt.connect with
  | .cancelled => (n, connecting, CANCEL_SUMMARY)
  | .failed =>
    let (ended, summary) := endReports render cx .failed
      ("Connect failed: ".toList ++ readings.connectError) attempt readings
    (n, connecting ++ ended, summary)
  | .connected script =>
    let (n, driven, message) := cx.connectionReports render target allowInvalidCerts n script
      readings.connection
    match cx.driveConnection script with
    | (_, none) => (n, connecting ++ driven, [])
    | (cx, some ended) =>
      let (after, summary) := endReports render cx ended message attempt readings
      (n, connecting ++ driven ++ after, summary)

/-- What `supervise` reports, and the terminal status that `spawn` posts behind it. -/
def superviseReports (cx : Cx) (allowInvalidCerts : Bool) (n : RunNotes) (attempts : List Attempt)
    (readings : Nat → AttemptReadings) : List (Report D F32) :=
  match attempts with
  | [] => []
  | attempt :: rest =>
    let cx := cx.observe attempt.cancelledTop
    if cx.cancel then [.stopped CANCEL_SUMMARY false]
    else
      let (n, reports, summary) :=
        cx.attemptReports render target allowInvalidCerts n attempt (readings 0)
      match cx.attemptOnce attempt with
      | (cx, _, .again) =>
        reports ++ superviseReports cx allowInvalidCerts n rest fun i => readings (i + 1)
      | (_, _, .stopped failed) => reports ++ [.stopped summary failed]
      | (_, _, .connected) => reports

end Cx

end

end OpenNtrip
