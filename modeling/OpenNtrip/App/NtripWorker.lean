import OpenNtrip.App.CorrQueue
import OpenNtrip.App.Settings
import OpenNtrip.Gnss.Frame
import OpenNtrip.NtripCore.Session

/-!
# The NTRIP worker

`workers/ntrip.rs`: `dispatch` and its handlers, the loop of `drive_connection` and the loop of
`supervise`. What the code reads from its surroundings (the clock, the socket, the cancel flag,
the answers of the queue) is an argument, for one output, one turn of the loop or one attempt
at a time, so that the two loops recurse on a script. A script that ends early leaves the loop
where it is.
-/

namespace OpenNtrip

/-! ## The job -/

/-- Whether, and why not, a job reconnects after transient closes. -/
inductive ReconnectPolicy where
  | auto
  | optionsOff
  | oneShot
  deriving DecidableEq, Repr

def ReconnectPolicy.enabled : ReconnectPolicy → Bool
  | .auto => true
  | _ => false

/-- Everything one run of the worker needs, resolved by its caller. -/
structure NtripJob where
  host : Text
  port : UInt16
  mountpoint : Text
  username : Text
  password : Text
  version : NtripVersion
  transport : Transport
  tls : Bool
  ggaMode : GgaMode
  ggaSource : GgaSource
  manualLat : F64
  manualLon : F64
  streamRequiresGga : Option Bool
  reconnect : ReconnectPolicy
  maxAttempts : Nat
  userAgent : Text
  deriving DecidableEq, Repr

/-- `gga_policy`: an unknown requirement counts as a requirement. -/
def ggaPolicy (mode : GgaMode) (streamRequires : Option Bool) : GgaPolicy :=
  match mode with
  | .off => .off
  | .always => .always
  | .whenRequired => .whenRequired (streamRequires.getD true)

/-- `manual_position_set`: both coordinates are in range, and not both zero. -/
def manualPositionSet (lat lon : F64) : Bool :=
  lat.within 90 && lon.within 180 && (lat != .finite 0 || lon != .finite 0)

/-- `mountpoint_needs_encoding`: whether the request builder percent-encodes the mountpoint. -/
def mountpointNeedsEncoding (mount : Text) : Bool :=
  (Text.toBytes mount).any fun b => b ≤ 0x20 || 0x7f ≤ b

/-- The session configuration that `drive_connection` builds. -/
def NtripJob.sessionConfig (job : NtripJob) : SessionConfig where
  host := job.host
  port := job.port
  mountpoint := job.mountpoint
  username := job.username
  password := job.password
  version := job.version
  transport := job.transport
  userAgent := job.userAgent
  gga := ggaPolicy job.ggaMode job.streamRequiresGga

/-- `transient`: the closes that a reconnect can ride out. An unknown response is one when it holds
no complete line. -/
def transient : CloseReason → Bool
  | .unknownResponse raw => !raw.contains LF
  | reason => reason.autoReconnect

/-- `should_reconnect`. -/
def shouldReconnect (reason : CloseReason) (autoReconnect : Bool)
    (attemptsDone maxAttempts : Nat) : Bool :=
  transient reason && autoReconnect && decide (attemptsDone < maxAttempts)

/-! ## State -/

/-- How one connection ended. -/
inductive SessionEnd where
  | tableDone
  | closed (reason : CloseReason)
  | failed
  | failedPermanent
  deriving DecidableEq, Repr

/-- The status the worker reports. -/
inductive NtripStatus where
  | connecting (attempt : Nat)
  | waitingForData
  | streaming
  | reconnectWait (nextAttempt : Nat)
  deriving DecidableEq, Repr

/-- One report of the deframer: the frames of a block by message type, with their number and the
wire size of the last one, and the totals of the worker's run. -/
structure RtcmBatch where
  frames : List (UInt16 × Nat × Nat)
  crcFailures : Nat
  garbageBytes : Nat
  deriving DecidableEq, Repr

/-- What the worker hands out: a status, a position to the caster, corrections to the queue, and
what it reports about them. -/
inductive Post where
  | status (status : NtripStatus)
  | gga (sentence : Text)
  | push (block : Bytes)
  | overruns (total : Nat)
  | rtcm (batch : RtcmBatch)
  | rxBytes (total : Nat)
  deriving DecidableEq, Repr

/-- The state of a worker's run across its connections. `cancel` is the cancel flag as far as the
worker has read it, which is never taken back. -/
structure Cx where
  job : NtripJob
  cancel : Bool := false
  attemptsDone : Nat := 0
  /-- A `u32` of the source: the two differ from the drop of number `2 ^ 32` on. -/
  drops : Nat := 0
  alertArmed : Bool := false
  totalBytes : Nat := 0
  framesTotal : Nat := 0
  crcBase : Nat := 0
  garbageBase : Nat := 0
  lastHealthPosted : Nat × Nat := (0, 0)
  posts : List Post := []
  deriving DecidableEq, Repr

/-- The state of one connection. -/
structure ConnState where
  deframer : Deframer := {}
  streaming : Bool := false
  ggaSent : Nat := 0
  terminal : Option SessionEnd := none
  deriving DecidableEq, Repr

/-- What `dispatch` works on. `calls` are the calls made on the session so far. -/
structure Worker where
  cx : Cx
  session : NtripSession
  conn : ConnState
  calls : List NtripSession.Call
  deriving DecidableEq, Repr

/-- Read the cancel flag. -/
def Cx.observe (cx : Cx) (flag : Bool) : Cx := { cx with cancel := cx.cancel || flag }

def Cx.post (cx : Cx) (posts : List Post) : Cx := { cx with posts := cx.posts ++ posts }

namespace Worker

/-- Make a call on the session. -/
def call (w : Worker) (c : NtripSession.Call) : Worker × List Output :=
  ({ w with session := (w.session.step c).1, calls := w.calls ++ [c] }, (w.session.step c).2)

/-! ## Dispatch -/

/-- What the handling of one output meets: the clock, the receiver's last GGA sentence, the sentence
that `fabricate` renders for the manual position at that moment, whether the write to the
socket succeeds, and the answer of the queue. -/
structure Surroundings where
  now : Instant
  lastGga : Option Text
  fabricated : Text
  written : Bool
  pushed : PushOutcome
  deriving DecidableEq, Repr

/-- The sentence that answers a position request, if there is a position. -/
def sentence (job : NtripJob) (around : Surroundings) : Option Text :=
  match job.ggaSource with
  | .manual =>
    if !manualPositionSet job.manualLat job.manualLon then none else some around.fabricated
  | .receiver => around.lastGga.map fun raw => raw ++ "\r\n".toList

/-- `on_gga_due`. -/
def onGgaDue (w : Worker) (around : Surroundings) : Worker :=
  match sentence w.cx.job around with
  | none => (w.call (.ggaMissed around.now)).1
  | some sentence =>
    if around.written then
      let w := { w with
        conn := { w.conn with ggaSent := w.conn.ggaSent + 1 }
        cx := w.cx.post [.gga sentence] }
      (w.call (.ggaSent around.now)).1
    else (w.call (.ggaMissed around.now)).1

/-- Count a frame under its message type. -/
def countFrame (frames : List (UInt16 × Nat × Nat)) (msgType : UInt16) (wireLen : Nat) :
    List (UInt16 × Nat × Nat) :=
  match frames with
  | [] => [(msgType, 1, wireLen)]
  | (t, n, last) :: rest =>
    if t = msgType then (t, n + 1, wireLen) :: rest
    else (t, n, last) :: countFrame rest msgType wireLen

/-- `deframe`: feed the deframer and count the frames. A frame has 6 bytes besides its payload. -/
def deframe (deframer : Deframer) (bytes : Bytes) : Deframer × List (UInt16 × Nat × Nat) :=
  let (deframer, events) := deframer.feed bytes
  (deframer, events.foldl (fun frames event =>
    match event with
    | .frame msgType payload => countFrame frames msgType (payload.length + 6)
    | _ => frames) [])

/-- The first corrections of a connection end the outage: the attempt budget is restored and the
drop alert armed. -/
def beginStream (w : Worker) : Worker :=
  if w.conn.streaming then w
  else { w with
    conn := { w.conn with streaming := true }
    cx := { w.cx with attemptsDone := 0, alertArmed := true }.post [.status .streaming] }

/-- `on_corrections`. -/
def onCorrections (w : Worker) (bytes : Bytes) (around : Surroundings) : Worker :=
  let w := w.beginStream
  let totalBytes := w.cx.totalBytes + bytes.length
  let overruns := match around.pushed with
    | .droppedOldest n => [Post.overruns n]
    | _ => []
  let (deframer, frames) := deframe w.conn.deframer bytes
  let batch : RtcmBatch :=
    { frames
      crcFailures := w.cx.crcBase + deframer.crcFailures
      garbageBytes := w.cx.garbageBase + deframer.garbageBytes }
  let completed := (frames.map fun (_, n, _) => n).sum
  let health := (batch.crcFailures, batch.garbageBytes)
  let due := !frames.isEmpty || health != w.cx.lastHealthPosted
  let cx := { w.cx with
    totalBytes
    framesTotal := w.cx.framesTotal + completed
    lastHealthPosted := if due then health else w.cx.lastHealthPosted }
  { w with
    conn := { w.conn with deframer }
    cx := cx.post ([.push bytes] ++ overruns ++ (if due then [.rtcm batch] else []) ++
      [.rxBytes totalBytes]) }

/-- The first ending is the one that counts. -/
def finish (w : Worker) (ended : SessionEnd) : Worker :=
  { w with conn := { w.conn with terminal := some (w.conn.terminal.getD ended) } }

/-- One output in `dispatch`. -/
def dispatchOne (w : Worker) (output : Output) (around : Surroundings) : Worker :=
  match output with
  | .protocolTx _ | .protocolRx _ => w
  | .ggaDue => w.onGgaDue around
  | .corrections bytes => w.onCorrections bytes around
  | .sourcetable _ => w.finish .tableDone
  | .close reason => w.finish (.closed reason)

/-- `dispatch`. `around i` is what the `i`-th output meets. -/
def dispatch (w : Worker) (outs : List Output) (around : Nat → Surroundings) : Worker :=
  match outs with
  | [] => w
  | output :: rest => dispatch (w.dispatchOne output (around 0)) rest fun i => around (i + 1)

/-! ## One connection -/

/-- What a read of the socket returns. -/
inductive ReadResult where
  | eof
  | bytes (data : Bytes)
  | wouldBlock
  | unexpectedEof
  | error
  deriving DecidableEq, Repr

/-- What one turn of the loop meets: the cancel flag, what the read returns, the flag again when the
read ended or failed, the clock after the read and at the tick, and what the outputs meet. -/
structure LoopTurn where
  cancelled : Bool
  read : ReadResult
  cancelledRead : Bool
  readAt : Instant
  tickAt : Instant
  around : Nat → Surroundings

/-- The read of a turn and the call it leads to. -/
def onRead (w : Worker) (turn : LoopTurn) : Worker × List Output :=
  match turn.read with
  | .bytes data => w.call (.onBytes data turn.readAt)
  | .wouldBlock => (w, [])
  | .eof | .unexpectedEof | .error =>
    let w := { w with cx := w.cx.observe turn.cancelledRead }
    if w.cx.cancel then w.call .cancel else w.call .onRemoteClose

/-- One turn of the loop after `dispatch` has left the connection open. -/
def turn (w : Worker) (turn : LoopTurn) : Worker × List Output :=
  let w := { w with cx := w.cx.observe turn.cancelled }
  if w.cx.cancel then w.call .cancel
  else
    let (w, outs) := w.onRead turn
    let (w, outs') := w.call (.onTick turn.tickAt)
    (w, outs ++ outs')

/-- The totals of the connection's deframer join those of the run. -/
def disconnect (w : Worker) : Worker :=
  { w with cx := { w.cx with
      crcBase := w.cx.crcBase + w.conn.deframer.crcFailures
      garbageBase := w.cx.garbageBase + w.conn.deframer.garbageBytes } }

/-- The loop of `drive_connection`, from the outputs to dispatch on. -/
def driveLoop (w : Worker) (outs : List Output) (around : Nat → Surroundings)
    (turns : List LoopTurn) : Worker × Option SessionEnd :=
  let w := w.dispatch outs around
  match w.conn.terminal with
  | some ended => (w.disconnect, some ended)
  | none =>
    match turns with
    | [] => (w, none)
    | next :: rest =>
      let (w, outs) := w.turn next
      driveLoop w outs next.around rest

end Worker

/-- The outcome of a TLS handshake. It is cancelled only when the cancel flag was read. -/
inductive TlsOutcome where
  | established
  | cancelled
  | rejected
  | io
  deriving DecidableEq, Repr

/-- What one connection meets: whether the read timeout can be set, the TLS handshake, whether the
request can be written, the clock, and the turns of the loop. -/
structure ConnectionScript where
  timeoutSet : Bool
  tls : TlsOutcome
  requestWritten : Bool
  openedAt : Instant
  firstTick : Instant
  around : Nat → Worker.Surroundings
  turns : List Worker.LoopTurn

namespace Cx

/-- `establish`. -/
def establish (cx : Cx) (tls : TlsOutcome) : Cx × Option SessionEnd :=
  if !cx.job.tls then (cx, none)
  else
    match tls with
    | .established => (cx, none)
    | .cancelled => (cx.observe true, some (.closed .cancelled))
    | .rejected => (cx, some .failedPermanent)
    | .io => (cx, some .failed)

/-- The session of a fresh connection. -/
def connected (cx : Cx) (openedAt : Instant) : Worker where
  cx := cx.post [.status .waitingForData]
  session := (NtripSession.new cx.job.sessionConfig openedAt).1
  conn := {}
  calls := []

/-- `drive_connection`. -/
def driveConnection (cx : Cx) (script : ConnectionScript) : Cx × Option SessionEnd :=
  if !script.timeoutSet then (cx, some .failed)
  else
    match cx.establish script.tls with
    | (cx, some ended) => (cx, some ended)
    | (cx, none) =>
      let request := (NtripSession.new cx.job.sessionConfig script.openedAt).2
      if !request.isEmpty && !script.requestWritten then (cx, some .failed)
      else
        let (w, outs) := (cx.connected script.openedAt).call (.onTick script.firstTick)
        let (w, ended) := w.driveLoop outs script.around script.turns
        (w.cx, ended)

/-! ## The supervisor -/

/-- The outcome of the connect phase. -/
inductive ConnectOutcome where
  | connected (script : ConnectionScript)
  | cancelled
  | failed

/-- What one attempt meets: the connect phase and the cancel flag at the top of the loop, once the
connection has ended, and during the wait. -/
structure Attempt where
  cancelledTop : Bool
  connect : ConnectOutcome
  cancelledAfter : Bool
  cancelledWait : Bool

/-- Where an attempt leaves the supervisor: it is over, with a failure or without, it tries again,
or the connection is still open. -/
inductive Course where
  | stopped (failed : Bool)
  | again
  | connected
  deriving DecidableEq, Repr

/-- The ends that a reconnect can ride out. -/
def transientEnd : SessionEnd → Bool
  | .closed reason => transient reason
  | .failed => true
  | .tableDone | .failedPermanent => false

/-- The reconnect decision of the supervisor. -/
def reconnectable (cx : Cx) : SessionEnd → Bool
  | .closed reason =>
    shouldReconnect reason cx.job.reconnect.enabled cx.attemptsDone cx.job.maxAttempts
  | .failed => cx.job.reconnect.enabled && decide (cx.attemptsDone < cx.job.maxAttempts)
  | .tableDone | .failedPermanent => false

/-- A stream that was established and dropped is counted. -/
def countDrop (cx : Cx) : Cx :=
  if cx.alertArmed then { cx with alertArmed := false, drops := cx.drops + 1 } else cx

/-- The loop body of `supervise` once the connection has ended. -/
def afterConnection (cx : Cx) (ended : SessionEnd) (attempt : Attempt) : Cx × Course :=
  match ended with
  | .tableDone | .closed .cancelled => (cx, .stopped false)
  | ended =>
    let reconnectable := cx.reconnectable ended
    let cx := cx.observe attempt.cancelledAfter
    if cx.cancel then (cx, .stopped false)
    else
      let cx := cx.countDrop
      if !reconnectable then (cx, .stopped true)
      else
        let cx := cx.post [.status (.reconnectWait (cx.attemptsDone + 1))]
        let cx := cx.observe attempt.cancelledWait
        if cx.cancel then (cx, .stopped false) else (cx, .again)

/-- How far an attempt came: it was cancelled in the connect phase, its connection is still open, or
its connection ended. -/
inductive Reached where
  | cancelled
  | connected
  | ended (ended : SessionEnd)
  deriving DecidableEq, Repr

/-- The connect phase and the connection. -/
def connectOnce (cx : Cx) : ConnectOutcome → Cx × Reached
  | .cancelled => (cx, .cancelled)
  | .failed => (cx, .ended .failed)
  | .connected script =>
    match cx.driveConnection script with
    | (cx, none) => (cx, .connected)
    | (cx, some ended) => (cx, .ended ended)

/-- What is on record of an attempt: whether correction bytes were delivered, how far it came, and
whether a cancellation had been requested before it, by the end of its connection, and by the
end of the wait after it. -/
structure AttemptRecord where
  cancelledBefore : Bool
  delivered : Bool
  reached : Reached
  cancelledThen : Bool
  cancelledWait : Bool
  deriving DecidableEq, Repr

/-- The loop body of `supervise` from the connect phase on. -/
def attemptOnce (cx : Cx) (attempt : Attempt) : Cx × AttemptRecord × Course :=
  let cx := { cx with attemptsDone := cx.attemptsDone + 1 }
  let cx := cx.post [.status (.connecting cx.attemptsDone)]
  let (next, reached) := cx.connectOnce attempt.connect
  let record : AttemptRecord :=
    { cancelledBefore := cx.cancel
      delivered := decide (cx.totalBytes < next.totalBytes)
      reached
      cancelledThen := next.cancel || attempt.cancelledAfter
      cancelledWait := next.cancel || attempt.cancelledAfter || attempt.cancelledWait }
  match reached with
  | .cancelled => (next, record, .stopped false)
  | .connected => (next, record, .connected)
  | .ended ended =>
    let (next, course) := next.afterConnection ended attempt
    (next, record, course)

/-- `supervise`, with a record of the attempts made. -/
def supervise (cx : Cx) : List Attempt → Cx × List AttemptRecord × Course
  | [] => (cx, [], .again)
  | attempt :: rest =>
    let cx := cx.observe attempt.cancelledTop
    if cx.cancel then (cx, [], .stopped false)
    else
      let (cx, record, course) := cx.attemptOnce attempt
      match course with
      | .again =>
        let (cx, records, course) := supervise cx rest
        (cx, record :: records, course)
      | course => (cx, [record], course)

end Cx
end OpenNtrip
