import OpenNtrip.App.NtripWorker
import OpenNtrip.NtripCore.Sourcetable

/-!
# What the worker says of a connection

The functions of `workers/ntrip.rs` that word what becomes of a connection: the plan for positions,
the hint and the verdict at a close, the summary of a close, the milestones of the traffic, and the
decisions of the supervisor. How a duration and a number of bytes are written is left to a
`Rendering`, with the reading of a coordinate in a sourcetable.
-/

namespace OpenNtrip

/-- `PositionTrouble`. -/
inductive PositionTrouble where
  | starved
  | refused
  deriving DecidableEq, Repr

/-- `hint`. -/
def PositionTrouble.hint : PositionTrouble → Text
  | .starved =>
    ("The caster may want your position: turn on GGA (a nearby manual point " ++
      "is fine) and reconnect.").toList
  | .refused =>
    ("The caster may only serve users near it: send a manual GGA position " ++
      "near the base and reconnect.").toList

/-- `fmt_duration`, `fmt_bytes` and the parser of a coordinate. -/
structure Rendering (F32 : Type) where
  duration : Duration → Text
  byteCount : Nat → Text
  parseF32 : Text → Option F32

/-! ## Positions -/

/-- Whether a policy sends positions. -/
def GgaPolicy.enabled : GgaPolicy → Bool
  | .off => false
  | .always => true
  | .whenRequired streamRequires => streamRequires

/-- `gga_plan`. -/
def ggaPlan (transport : Transport) (mode : GgaMode) (streamRequires : Option Bool)
    (source : GgaSource) (receiverGgaReady manualSet : Bool) : Text :=
  if transport = .rawTcp then "GGA not applicable (raw TCP)".toList
  else if !(ggaPolicy mode streamRequires).enabled then "GGA off".toList
  else
    match source with
    | .manual =>
      if manualSet then "sending GGA every 10 s (manual position)".toList
      else "GGA wanted but the manual position is not set - edit the profile".toList
    | .receiver =>
      if receiverGgaReady then "sending GGA every 10 s (receiver passthrough)".toList
      else "will send receiver GGA every 10 s (none until the receiver supplies a fix)".toList

/-- The diagnosis and the remedy of `gga_hint`. -/
def hintLines : Option Bool → Text × Text
  | some true =>
    ("This mount requests NMEA GGA (sourcetable nmea=1) and none was sent".toList,
      "Enable Send GGA in the profile and check the position source".toList)
  | none =>
    ("If this mount requires NMEA GGA, casters drop silent clients".toList,
      "Check Send GGA is on and a position source exists (receiver or manual)".toList)
  | some false =>
    ("The cached sourcetable says this mount needs no GGA (nmea=0)".toList,
      "If that table is old it may be wrong - refetch it (Sourcetable tab > Refresh)".toList)

/-- `gga_hint`. -/
def ggaHint (reason : CloseReason) (transport : Transport) (mountpoint : Text)
    (streamRequires : Option Bool) (ggaSent : Nat) (connectedFor : Duration) :
    Option (Text × Text) :=
  let kickShaped := reason = .remoteClosed ∨ reason = .streamSilence
  if ¬ kickShaped ∨ 0 < ggaSent ∨ transport ≠ .ntrip ∨ mountpoint = [] then none
  else
    let diedFast := connectedFor < fromSecs 60
    match streamRequires with
    | some true => some (hintLines streamRequires)
    | _ => if diedFast then some (hintLines streamRequires) else none

/-- `STARVE_HINT_AFTER`. -/
def STARVE_HINT_AFTER : Duration := fromSecs 5

/-- `position_matters`. -/
def positionMatters (transport : Transport) (mountpoint : Text) (streamRequires : Option Bool) :
    Bool :=
  transport = .ntrip && !mountpoint.isEmpty && streamRequires ≠ some false

/-- `starving`. -/
def starving (answeredFor : Option Duration) (streaming : Bool) (ggaSent : Nat) (matter : Bool) :
    Bool :=
  matter && !streaming && ggaSent = 0 && answeredFor.any fun d => STARVE_HINT_AFTER ≤ d

/-- `str::split_whitespace`. -/
def Text.splitWhitespace (s : Text) : List Text := (s.splitOnP isWhitespace).filter (· ≠ [])

/-- `status_code`. -/
def statusCode (raw : Bytes) : Option UInt16 := do
  let line := raw.takeWhile (· ≠ LF)
  let code ← (← Text.fromUtf8 line).splitWhitespace[1]?
  if code.toBytes.length = 3 then Text.parseU16 code else none

/-- `position_verdict`. -/
def positionVerdict (reason : CloseReason) (transport : Transport) (mountpoint : Text)
    (streamRequires : Option Bool) (ggaSent : Nat) (connectedFor : Duration)
    (positionReady : Bool) : Option PositionTrouble :=
  if !positionMatters transport mountpoint streamRequires then none
  else if (ggaHint reason transport mountpoint streamRequires ggaSent connectedFor).isSome then
    some .starved
  else
    let forbidden := match reason with
      | .unknownResponse raw => statusCode raw == some 403
      | _ => false
    if forbidden && !positionReady then some .refused else none

/-- `position_matters` of the job. -/
def NtripJob.positionMatters (job : NtripJob) : Bool :=
  OpenNtrip.positionMatters job.transport job.mountpoint job.streamRequiresGga

/-- `position_ready`, where `lastGga` is the receiver's last sentence. -/
def NtripJob.positionReady (job : NtripJob) (lastGga : Option Text) : Bool :=
  (ggaPolicy job.ggaMode job.streamRequiresGga).enabled &&
    match job.ggaSource with
    | .manual => manualPositionSet job.manualLat job.manualLon
    | .receiver => lastGga.isSome

/-- `is_table_request`. -/
def NtripJob.isTableRequest (job : NtripJob) : Bool :=
  job.transport = .ntrip && job.mountpoint.isEmpty

/-! ## Traffic -/

/-- `mib_crossed`. -/
def mibCrossed (before after : Nat) : Option Nat :=
  let a := after / 2 ^ 20
  if before / 2 ^ 20 < a then some a else none

/-- A mark of the traffic. -/
inductive Mark where
  | mib (n : Nat)
  | kb100
  | kb10
  deriving DecidableEq, Repr

def Mark.text : Mark → Text
  | .mib n => decimalText n ++ " MiB".toList
  | .kb100 => "100 kB".toList
  | .kb10 => "10 kB".toList

/-- The mark that `traffic_milestone` reports. -/
def trafficMark (before after : Nat) : Option Mark :=
  match mibCrossed before after with
  | some mib => some (.mib mib)
  | none =>
    if before < 100000 ∧ 100000 ≤ after then some .kb100
    else if before < 10000 ∧ 10000 ≤ after then some .kb10
    else none

/-- What it says of the frames. -/
def framingVerdict (frames crcFailures : Nat) : Text :=
  match frames, crcFailures with
  | 0, _ => " - no RTCM3 frames yet".toList
  | _, 0 => " - RTCM3 framing clean".toList
  | _, _ => []

/-- The line of a mark. -/
def Mark.line (mark : Mark) (frames crcFailures : Nat) : Text :=
  "Received ".toList ++ mark.text ++ framingVerdict frames crcFailures

/-- `traffic_milestone`. -/
def trafficMilestone (before after frames crcFailures : Nat) : Option Text :=
  (trafficMark before after).map fun mark => mark.line frames crcFailures

/-! ## Summaries -/

section

variable {F32 : Type} [Inhabited F32] (render : Rendering F32)

/-- `lists`. -/
def lists (sourcetable : Bytes) (mountpoint : Text) : Bool :=
  (Sourcetable.parse render.parseF32 sourcetable).strs.any fun s =>
    s.mountpoint.eqIgnoreCase mountpoint

/-- `close_summary`. -/
def closeSummary (reason : CloseReason) (mountpoint : Text) : Text :=
  match reason with
  | .unauthorized => "Invalid username or password".toList
  | .mountpointNotFound sourcetable =>
    if lists render sourcetable mountpoint then
      "The caster answered with its sourcetable, not the stream. '".toList ++ mountpoint ++
        "' is listed, so check User and Password.".toList
    else
      "Mountpoint '".toList ++ mountpoint ++
        "' not found: the caster returned its sourcetable instead".toList
  | .unknownResponse raw =>
    if raw.isEmpty then "Connection closed before any response from the caster".toList
    else
      "Unexpected response from caster (".toList ++ decimalText raw.length ++ " bytes)".toList
  | .firstResponseTimeout => "Connection timed out: no response from the caster".toList
  | .sourcetableTimeout => "Sourcetable download timed out".toList
  | .streamSilence => "Data timeout: no data received for 30 seconds".toList
  | .streamCorrupt detail => "Stream corrupted: ".toList ++ detail
  | .remoteClosed => "Connection closed by the caster".toList
  | .cancelled => "Disconnected by user".toList

/-- `close_event_line`. -/
def closeEventLine (reason : CloseReason) (mountpoint : Text) (connectedFor : Duration)
    (bytesReceived : Nat) : Text :=
  let base := closeSummary render reason mountpoint
  if 0 < bytesReceived then
    base ++ " (after ".toList ++ render.duration connectedFor ++ ", ".toList ++
      render.byteCount bytesReceived ++ " received)".toList
  else base ++ " (after ".toList ++ render.duration connectedFor ++ ")".toList

end

/-! ## The supervisor -/

/-- `CANCEL_SUMMARY`. -/
def CANCEL_SUMMARY : Text := "Disconnected by user".toList

/-- `no_reconnect_line`. -/
def noReconnectLine (wasTransient : Bool) (policy : ReconnectPolicy) (isTable : Bool)
    (maxAttempts : Nat) : Text :=
  if !wasTransient then
    "Not reconnecting: this failure would repeat until the settings change".toList
  else
    match policy with
    | .oneShot =>
      if isTable then "Sourcetable fetches are one-shot - use Get sourcetable to retry".toList
      else "This run is one-shot - not reconnecting".toList
    | .optionsOff =>
      ("Auto-reconnect is off - staying disconnected " ++
        "(enable it in Options to ride outages)").toList
    | .auto =>
      "Reconnect attempt limit reached (".toList ++ decimalText maxAttempts ++
        " attempts) - staying disconnected".toList

/-- `ordinal_times`. -/
def ordinalTimes (n : Nat) : Text :=
  let suffix :=
    if 11 ≤ n % 100 ∧ n % 100 ≤ 13 then "th"
    else
      match n % 10 with
      | 1 => "st"
      | 2 => "nd"
      | 3 => "rd"
      | _ => "th"
  decimalText n ++ suffix.toList ++ " time".toList

/-- `reconnect_notice`. -/
def reconnectNotice (drops nextAttempt maxAttempts : Nat) : Text :=
  let budget := "(attempt ".toList ++ decimalText nextAttempt ++ " of ".toList ++
    decimalText maxAttempts ++ ")".toList
  if drops = 0 then "Reconnecting in 10 s ".toList ++ budget
  else
    "Stream dropped (".toList ++ ordinalTimes drops ++
      " this session) - reconnecting in 10 s ".toList ++ budget

end OpenNtrip
