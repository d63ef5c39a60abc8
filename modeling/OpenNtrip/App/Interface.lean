import OpenNtrip.App.PlotSeries
import OpenNtrip.App.Reports
import OpenNtrip.App.State
import OpenNtrip.Gnss.Nmea
import OpenNtrip.Lib.Register

/-!
# The state of the interface

`AppState` of `state.rs`: everything that the windows show, changed by the events of the bus and by
a few gestures of the user. `Interface.Shows` says what each part is, read off the history of
events and gestures, and `interface_shows` that it is so after every history.
-/

namespace OpenNtrip

/-- `SerialStatus`. -/
inductive SerialStatus where
  | connected (port detail : Text)
  | disconnected (reason : Text)
  deriving DecidableEq, Repr

/-! ## Lines -/

/-- `Ring`, by its capacity. -/
structure Ring (cap : Nat) where
  buf : List Text
  cap_pos : 0 < cap
  fits : buf.length ≤ cap

namespace Ring

variable {cap : Nat}

/-- `Ring::new`. -/
def new (h : 0 < cap) : Ring cap where
  buf := []
  cap_pos := h
  fits := Nat.zero_le cap

theorem push_fits (r : Ring cap) (line : Text) :
    ((if r.buf.length = cap then r.buf.tail else r.buf) ++ [line]).length ≤ cap := by
  have hpos := r.cap_pos
  have hfits := r.fits
  rw [List.length_append, List.length_singleton]
  split
  · rw [List.length_tail]
    omega
  · omega

/-- `push`. -/
def push (r : Ring cap) (line : Text) : Ring cap where
  buf := (if r.buf.length = cap then r.buf.tail else r.buf) ++ [line]
  cap_pos := r.cap_pos
  fits := push_fits r line

/-- `clear`. -/
def clear (r : Ring cap) : Ring cap := new r.cap_pos

end Ring

/-- `EVENT_RING_CAP`. -/
def EVENT_RING_CAP : Nat := 10000

/-- `CONN_RING_CAP`. -/
def CONN_RING_CAP : Nat := 5000

/-- `PLOT_POINT_CAP`. -/
def PLOT_POINT_CAP : Nat := 50000

/-! ## The receiver -/

/-- `GnssState`, without the averages of the speed. -/
structure GnssState (Single Double : Type) where
  quality : UInt8 := 0
  sats : UInt8 := 0
  hdop : Option Single := none
  vdop : Option Single := none
  pdop : Option Single := none
  altM : Option Single := none
  ageS : Option Single := none
  stationId : Option UInt16 := none
  speedKnots : Option Single := none
  headingDeg : Option Single := none
  latDeg : Option Double := none
  lonDeg : Option Double := none
  hasFixData : Bool := false
  nmeaSeen : Bool := false
  lastNmea : Option Instant := none

variable {Single Double : Type}

/-- `GnssState::apply`. -/
def GnssState.apply (g : GnssState Single Double) (sentence : Nmea.Sentence Single Double)
    (now : Instant) : GnssState Single Double :=
  let g := { g with nmeaSeen := true, lastNmea := some now }
  match sentence with
  | .gga s =>
    let g := { g with
      hasFixData := true
      quality := s.quality
      sats := s.sats
      hdop := s.hdop
      altM := s.altM
      ageS := s.ageS
      stationId := s.stationId }
    match s.latDeg, s.lonDeg with
    | some lat, some lon => { g with latDeg := some lat, lonDeg := some lon }
    | _, _ => g
  | .rmc s => { g with speedKnots := s.speedKnots, headingDeg := s.trackDeg }
  | .gsa s => { g with pdop := s.pdop, vdop := s.vdop }
  | .other _ _ => g

/-! ## The caster -/

/-- The events of the bus, `AppEvent`. Those that move the numbers of a stream are a type of their
own, and the last status of a worker is an event of its own. -/
inductive HubEvent (Single Double : Type) where
  | eventLine (line : Text)
  | connLine (line : Text)
  | stream (event : AppEvent)
  | stopped (summary : Text) (failed : Bool)
  | lastClose (summary : Text)
  | sourcetableReady (host : Text) (port : UInt16) (table : Sourcetable.SourceTable Single)
  | unknownResponse (raw : Bytes)
  | positionTrouble (trouble : Option PositionTrouble)
  | nmea (sentence : Nmea.Sentence Single Double)
  | serial (status : SerialStatus)

/-- `NtripUi`. Its numbers are those of `OpenNtrip.NtripUi`. Where these have no status, `stopped`
tells a worker that stopped from none at all. -/
structure NtripPane (Single : Type) extends NtripUi where
  stopped : Option (Text × Bool)
  sourcetable : Option (Text × UInt16 × Sourcetable.SourceTable Single)
  lastUnknownResponse : Option Bytes
  unknownResponseGen : Nat
  positionTrouble : Option PositionTrouble
  lastClose : Option Text

/-- `ElevationChart`. -/
structure ElevationChart where
  series : PlotSeries
  recording : Bool
  t0 : Instant

/-- `AppState`. -/
structure Interface (Single Double : Type) where
  events : Ring EVENT_RING_CAP
  conn : Ring CONN_RING_CAP
  gnss : GnssState Single Double
  ntrip : NtripPane Single
  serial : SerialStatus
  chart : ElevationChart

/-- What the user does to the state, besides the connections: `reset_stream_stats` of a new session,
`on_profile_switched`, and the buttons of the log and the chart. -/
inductive Gesture where
  | newSession
  | profileSwitched (busy : Bool)
  | clearEvents
  | record (on : Bool)
  | clearChart
  deriving DecidableEq, Repr

/-- What changes the state: an event that is consumed at a time, or a gesture. -/
inductive Entry (Single Double : Type) where
  | event (ev : HubEvent Single Double) (now : Instant)
  | gesture (g : Gesture)

namespace NtripPane

/-- `reset_stream_stats`. -/
def resetStreamStats (pane : NtripPane Single) : NtripPane Single :=
  { pane with
    toNtripUi := pane.toNtripUi.resetStreamStats
    positionTrouble := none
    lastClose := none }

/-- The events of a stream. One that begins withdraws the verdict about positions. -/
def applyStream (pane : NtripPane Single) (event : AppEvent) (now : Instant) : NtripPane Single :=
  match event with
  | .ntrip status =>
    { pane with
      toNtripUi := pane.toNtripUi.apply event now
      stopped := none
      positionTrouble := if status = .streaming then none else pane.positionTrouble }
  | _ => { pane with toNtripUi := pane.toNtripUi.apply event now }

end NtripPane

namespace Interface

/-- `AppState::new`. -/
def new (now : Instant) : Interface Single Double where
  events := .new (by decide)
  conn := .new (by decide)
  gnss := {}
  ntrip :=
    { status := none
      statusSince := now
      totalBytes := 0
      lastRx := none
      rtcm := fun _ => none
      rtcmCrcFailures := 0
      rtcmGarbageBytes := 0
      overruns := 0
      stopped := none
      sourcetable := none
      lastUnknownResponse := none
      unknownResponseGen := 0
      positionTrouble := none
      lastClose := none }
  serial := .disconnected []
  chart := { series := .new PLOT_POINT_CAP, recording := true, t0 := now }

section

variable (widen : Single → F64) (seconds : Duration → F64)

/-- `AppState::apply`. -/
def apply (i : Interface Single Double) (ev : HubEvent Single Double) (now : Instant) :
    Interface Single Double :=
  match ev with
  | .eventLine line => { i with events := i.events.push line }
  | .connLine line => { i with conn := i.conn.push line }
  | .stream event => { i with ntrip := i.ntrip.applyStream event now }
  | .stopped summary failed =>
    { i with ntrip := { i.ntrip with
        status := none
        statusSince := now
        stopped := some (summary, failed) } }
  | .lastClose summary => { i with ntrip := { i.ntrip with lastClose := some summary } }
  | .sourcetableReady host port table =>
    { i with ntrip := { i.ntrip with sourcetable := some (host, port, table) } }
  | .unknownResponse raw =>
    { i with ntrip := { i.ntrip with
        lastUnknownResponse := some raw
        unknownResponseGen := i.ntrip.unknownResponseGen + 1 } }
  | .positionTrouble trouble =>
    { i with ntrip := { i.ntrip with positionTrouble := trouble } }
  | .nmea sentence =>
    let i := { i with gnss := i.gnss.apply sentence now }
    match i.chart.recording, sentence with
    | true, .gga s =>
      match s.altM with
      | some alt =>
        { i with chart := { i.chart with
            series := i.chart.series.push (seconds (now - i.chart.t0)) (widen alt) } }
      | none => i
    | _, _ => i
  | .serial status => { i with serial := status }

/-- What a gesture does. -/
def gesture (i : Interface Single Double) : Gesture → Interface Single Double
  | .newSession => { i with ntrip := i.ntrip.resetStreamStats }
  | .profileSwitched busy =>
    let ntrip := { i.ntrip with sourcetable := none }
    { i with
      ntrip := if busy then ntrip
        else { ntrip.resetStreamStats with status := none, stopped := none } }
  | .clearEvents => { i with events := i.events.clear }
  | .record on => { i with chart := { i.chart with recording := on } }
  | .clearChart => { i with chart := { i.chart with series := i.chart.series.clear } }

def step (i : Interface Single Double) : Entry Single Double → Interface Single Double
  | .event ev now => i.apply widen seconds ev now
  | .gesture g => i.gesture g

end

end Interface

/-! ## What is shown -/

namespace Entry

variable (entry : Entry Single Double)

def isNewSession : Entry Single Double → Bool
  | .gesture .newSession | .gesture (.profileSwitched false) => true
  | _ => false

def isClearEvents : Entry Single Double → Bool
  | .gesture .clearEvents => true
  | _ => false

def eventLine? : Entry Single Double → Option Text
  | .event (.eventLine line) _ => some line
  | _ => none

def connLine? : Entry Single Double → Option Text
  | .event (.connLine line) _ => some line
  | _ => none

/-- The total that is shown from this entry on. -/
def total? : Entry Single Double → Option Nat
  | .event (.stream (.rxBytes total)) _ => some total
  | entry => if entry.isNewSession then some 0 else none

/-- The health of the frames that is shown from this entry on. -/
def health? : Entry Single Double → Option (Nat × Nat)
  | .event (.stream (.rtcm batch)) _ => some (batch.crcFailures, batch.garbageBytes)
  | entry => if entry.isNewSession then some (0, 0) else none

/-- The frames of a type that the entry adds. -/
def framesOf (ty : UInt16) : Entry Single Double → Nat
  | .event (.stream (.rtcm batch)) _ => frameEntries batch.frames ty
  | _ => 0

def trouble? : Entry Single Double → Option (Option PositionTrouble)
  | .event (.positionTrouble trouble) _ => some trouble
  | .event (.stream (.ntrip .streaming)) _ => some none
  | entry => if entry.isNewSession then some none else none

def lastClose? : Entry Single Double → Option (Option Text)
  | .event (.lastClose summary) _ => some (some summary)
  | entry => if entry.isNewSession then some none else none

def unknownResponse? : Entry Single Double → Option (Option Bytes)
  | .event (.unknownResponse raw) _ => some (some raw)
  | _ => none

def table? : Entry Single Double →
    Option (Option (Text × UInt16 × Sourcetable.SourceTable Single))
  | .event (.sourcetableReady host port table) _ => some (some (host, port, table))
  | .gesture (.profileSwitched _) => some none
  | _ => none

/-- The position of a fix. -/
def position? : Entry Single Double → Option (Option Double × Option Double)
  | .event (.nmea (.gga s)) _ =>
    match s.latDeg, s.lonDeg with
    | some lat, some lon => some (some lat, some lon)
    | _, _ => none
  | _ => none

/-- When a sentence arrived. -/
def heardAt? : Entry Single Double → Option (Option Instant)
  | .event (.nmea _) now => some (some now)
  | _ => none

end Entry

/-- The interface shows what its history says: windows of the lines, numbers of the session, the
last word on everything else, and the last position even where the fix is lost. -/
structure Interface.Shows (log : List (Entry Single Double)) (i : Interface Single Double) :
    Prop where
  events : i.events.buf = ((log.rtakeWhile fun entry => !entry.isClearEvents).filterMap
    Entry.eventLine?).rtake EVENT_RING_CAP
  conn : i.conn.buf = (log.filterMap Entry.connLine?).rtake CONN_RING_CAP
  total : i.ntrip.totalBytes = (log.filterMap Entry.total?).getLast?.getD 0
  health : (i.ntrip.rtcmCrcFailures, i.ntrip.rtcmGarbageBytes) =
    (log.filterMap Entry.health?).getLast?.getD (0, 0)
  frames : ∀ ty, i.ntrip.frameCount ty =
    ((log.rtakeWhile fun entry => !entry.isNewSession).map (Entry.framesOf ty)).sum
  trouble : i.ntrip.positionTrouble = (log.filterMap Entry.trouble?).getLast?.getD none
  lastClose : i.ntrip.lastClose = (log.filterMap Entry.lastClose?).getLast?.getD none
  unknown : i.ntrip.lastUnknownResponse =
    (log.filterMap Entry.unknownResponse?).getLast?.getD none
  unknownCount : i.ntrip.unknownResponseGen = (log.filterMap Entry.unknownResponse?).length
  table : i.ntrip.sourcetable = (log.filterMap Entry.table?).getLast?.getD none
  position : (i.gnss.latDeg, i.gnss.lonDeg) =
    (log.filterMap Entry.position?).getLast?.getD (none, none)
  heard : i.gnss.lastNmea = (log.filterMap Entry.heardAt?).getLast?.getD none

namespace Interface

variable (widen : Single → F64) (seconds : Duration → F64)

/-- A sentence concerns the receiver and the chart. -/
theorem apply_nmea (i : Interface Single Double) (sentence : Nmea.Sentence Single Double)
    (now : Instant) :
    ∃ chart, i.apply widen seconds (.nmea sentence) now =
      { i with gnss := i.gnss.apply sentence now, chart } := by
  unfold apply
  simp only
  split
  · split
    · exact ⟨_, rfl⟩
    · exact ⟨_, rfl⟩
  · exact ⟨_, rfl⟩

/-- What an entry does to what is shown of the caster. -/
def stepPane (pane : NtripPane Single) : Entry Single Double → NtripPane Single
  | .event (.stream event) now => pane.applyStream event now
  | .event (.stopped summary failed) now =>
    { pane with status := none, statusSince := now, stopped := some (summary, failed) }
  | .event (.lastClose summary) _ => { pane with lastClose := some summary }
  | .event (.sourcetableReady host port table) _ =>
    { pane with sourcetable := some (host, port, table) }
  | .event (.unknownResponse raw) _ =>
    { pane with
      lastUnknownResponse := some raw
      unknownResponseGen := pane.unknownResponseGen + 1 }
  | .event (.positionTrouble trouble) _ => { pane with positionTrouble := trouble }
  | .gesture .newSession => pane.resetStreamStats
  | .gesture (.profileSwitched true) => { pane with sourcetable := none }
  | .gesture (.profileSwitched false) =>
    { NtripPane.resetStreamStats { pane with sourcetable := none } with
      status := none
      stopped := none }
  | _ => pane

/-- What an entry does to what is shown of the receiver. -/
def stepGnss (g : GnssState Single Double) : Entry Single Double → GnssState Single Double
  | .event (.nmea sentence) now => g.apply sentence now
  | _ => g

/-- What an entry does, part by part. -/
theorem step_parts (i : Interface Single Double) (entry : Entry Single Double) :
    (i.step widen seconds entry).ntrip = stepPane i.ntrip entry ∧
      (i.step widen seconds entry).gnss = stepGnss i.gnss entry ∧
      (i.step widen seconds entry).events =
        (if entry.isClearEvents then i.events.clear
        else entry.eventLine?.elim i.events i.events.push) ∧
      (i.step widen seconds entry).conn = entry.connLine?.elim i.conn i.conn.push := by
  cases entry with
  | event ev now =>
      cases ev with
      | nmea sentence =>
          obtain ⟨chart, hnmea⟩ := apply_nmea widen seconds i sentence now
          simp only [step, hnmea]
          exact ⟨rfl, rfl, rfl, rfl⟩
      | _ => exact ⟨rfl, rfl, rfl, rfl⟩
  | gesture g =>
      cases g with
      | profileSwitched busy =>
          cases busy with
          | true => exact ⟨rfl, rfl, rfl, rfl⟩
          | false => exact ⟨rfl, rfl, rfl, rfl⟩
      | _ => exact ⟨rfl, rfl, rfl, rfl⟩

theorem fold_parts (i : Interface Single Double) (log : List (Entry Single Double)) :
    (log.foldl (step widen seconds) i).ntrip = log.foldl stepPane i.ntrip ∧
      (log.foldl (step widen seconds) i).gnss = log.foldl stepGnss i.gnss :=
  ⟨(List.foldl_hom _ fun i entry => ((step_parts widen seconds i entry).1).symm).symm,
    (List.foldl_hom _ fun i entry => ((step_parts widen seconds i entry).2.1).symm).symm⟩

/-- Lines that are pushed one by one into an empty window. -/
theorem window_of_lines {cap : Nat} (hcap : 0 < cap) {line? : Entry Single Double → Option Text}
    (log : List (Entry Single Double)) :
    log.foldl (fun buf entry => (line? entry).elim buf (Register.pushBounded cap buf)) [] =
      (log.filterMap line?).rtake cap := by
  rw [← Register.window_last hcap]
  induction log using List.reverseRecOn with
  | nil => rfl
  | append_singleton log entry ih =>
      rw [List.foldl_append, ih, List.filterMap_append, List.foldl_append]
      cases hline : line? entry with
      | none => simp [hline]
      | some line => simp [hline]

/-- The lines that are shown are the last ones. -/
theorem lines_shown (now : Instant) (log : List (Entry Single Double)) :
    let i := log.foldl (step widen seconds) (new now)
    i.events.buf = ((log.rtakeWhile fun entry => !entry.isClearEvents).filterMap
        Entry.eventLine?).rtake EVENT_RING_CAP ∧
      i.conn.buf = (log.filterMap Entry.connLine?).rtake CONN_RING_CAP := by
  have hstep := fun i : Interface Single Double => step_parts widen seconds i
  constructor
  · rw [← window_of_lines (by decide)]
    refine Register.since_reset (fun i : Interface Single Double => i.events.buf)
      (fun i entry hclear => ?_) (fun i entry hkeep => ?_) rfl log
    · rw [(hstep i entry).2.2.1, if_pos hclear]
      rfl
    · rw [(hstep i entry).2.2.1, if_neg (by simp [hkeep])]
      cases entry.eventLine? with
      | none => rfl
      | some line => rfl
  · rw [← window_of_lines (by decide)]
    refine (List.foldl_hom (fun i : Interface Single Double => i.conn.buf)
      fun i entry => ?_).symm
    rw [(hstep i entry).2.2.2]
    cases entry.connLine? with
    | none => rfl
    | some line => rfl

/-! ### The caster -/

theorem fold_count_frames_total (ui : NtripUi) (frames : List (UInt16 × Nat × Nat))
    (now : Instant) :
    (frames.foldl (fun ui entry => ui.countFrames entry now) ui).totalBytes = ui.totalBytes := by
  induction frames generalizing ui with
  | nil => rfl
  | cons entry rest ih => exact ih _

/-- What each entry sets. -/
theorem step_pane_sets (pane : NtripPane Single) (entry : Entry Single Double) :
    (stepPane pane entry).totalBytes = entry.total?.getD pane.totalBytes ∧
      ((stepPane pane entry).rtcmCrcFailures, (stepPane pane entry).rtcmGarbageBytes) =
        entry.health?.getD (pane.rtcmCrcFailures, pane.rtcmGarbageBytes) ∧
      (stepPane pane entry).positionTrouble = entry.trouble?.getD pane.positionTrouble ∧
      (stepPane pane entry).lastClose = entry.lastClose?.getD pane.lastClose ∧
      (stepPane pane entry).lastUnknownResponse =
        entry.unknownResponse?.getD pane.lastUnknownResponse ∧
      (stepPane pane entry).sourcetable = entry.table?.getD pane.sourcetable := by
  cases entry with
  | event ev now =>
      cases ev with
      | stream event =>
          cases event with
          | rtcm batch =>
              exact ⟨fold_count_frames_total _ _ _, rfl, rfl, rfl, rfl, rfl⟩
          | ntrip status =>
              cases status with
              | _ => exact ⟨rfl, rfl, rfl, rfl, rfl, rfl⟩
          | _ => exact ⟨rfl, rfl, rfl, rfl, rfl, rfl⟩
      | _ => exact ⟨rfl, rfl, rfl, rfl, rfl, rfl⟩
  | gesture g =>
      cases g with
      | profileSwitched busy =>
          cases busy with
          | true => exact ⟨rfl, rfl, rfl, rfl, rfl, rfl⟩
          | false => exact ⟨rfl, rfl, rfl, rfl, rfl, rfl⟩
      | _ => exact ⟨rfl, rfl, rfl, rfl, rfl, rfl⟩

/-- The frames of a session are added up. -/
theorem frames_shown (now : Instant) (log : List (Entry Single Double)) (ty : UInt16) :
    ((log.foldl (step widen seconds) (new now)).ntrip.frameCount ty) =
      ((log.rtakeWhile fun entry => !entry.isNewSession).map (Entry.framesOf ty)).sum := by
  have hsum : ∀ (start : Nat) (entries : List (Entry Single Double)),
      entries.foldl (fun total entry => total + entry.framesOf ty) start =
        start + (entries.map (Entry.framesOf ty)).sum := by
    intro start entries
    induction entries generalizing start with
    | nil => rfl
    | cons entry rest ih => rw [List.foldl_cons, ih, List.map_cons, List.sum_cons, Nat.add_assoc]
  rw [(fold_parts widen seconds (new now) log).1, ← Nat.zero_add (List.sum _), ← hsum]
  refine Register.since_reset (fun pane : NtripPane Single => pane.frameCount ty)
    (fun pane entry hreset => ?_) (fun pane entry hkeep => ?_) rfl log
  · cases entry with
    | event ev now => simp [Entry.isNewSession] at hreset
    | gesture g =>
        cases g with
        | newSession => rfl
        | profileSwitched busy =>
            cases busy with
            | true => simp [Entry.isNewSession] at hreset
            | false => rfl
        | _ => simp [Entry.isNewSession] at hreset
  · cases entry with
    | event ev now =>
        cases ev with
        | stream event =>
            cases event with
            | rtcm batch => exact (NtripUi.apply_rtcm_spec pane.toNtripUi batch now).1 ty
            | _ => rfl
        | _ => rfl
    | gesture g =>
        cases g with
        | newSession => simp [Entry.isNewSession] at hkeep
        | profileSwitched busy =>
            cases busy with
            | true => rfl
            | false => simp [Entry.isNewSession] at hkeep
        | _ => rfl

theorem step_unknown_count (pane : NtripPane Single) (entry : Entry Single Double) :
    (stepPane pane entry).unknownResponseGen =
      pane.unknownResponseGen + if entry.unknownResponse?.isSome then 1 else 0 := by
  cases entry with
  | event ev now =>
      cases ev with
      | stream event =>
          cases event with
          | _ => rfl
      | _ => rfl
  | gesture g =>
      cases g with
      | profileSwitched busy =>
          cases busy with
          | true => rfl
          | false => rfl
      | _ => rfl

/-! ### The receiver -/

theorem step_gnss_sets (g : GnssState Single Double) (entry : Entry Single Double) :
    ((stepGnss g entry).latDeg, (stepGnss g entry).lonDeg) =
        entry.position?.getD (g.latDeg, g.lonDeg) ∧
      (stepGnss g entry).lastNmea = entry.heardAt?.getD g.lastNmea := by
  cases entry with
  | event ev now =>
      cases ev with
      | nmea sentence =>
          cases sentence with
          | gga s =>
              simp only [stepGnss, GnssState.apply, Entry.position?, Entry.heardAt?]
              split
              · exact ⟨rfl, rfl⟩
              · exact ⟨rfl, rfl⟩
          | _ => exact ⟨rfl, rfl⟩
      | _ => exact ⟨rfl, rfl⟩
  | gesture g => exact ⟨rfl, rfl⟩

/-- After every history the interface shows what the history says. -/
theorem interface_shows (now : Instant) (log : List (Entry Single Double)) :
    Shows log (log.foldl (step widen seconds) (new now)) := by
  obtain ⟨hevents, hconn⟩ := lines_shown widen seconds now log
  obtain ⟨hpane, hgnss⟩ := fold_parts widen seconds (new now) log
  have hsets := fun (pane : NtripPane Single) (entry : Entry Single Double) =>
    step_pane_sets pane entry
  have hgnssSets := fun (g : GnssState Single Double) (entry : Entry Single Double) =>
    step_gnss_sets g entry
  exact
    { events := hevents
      conn := hconn
      total := by
        rw [hpane]
        exact Register.last_set (·.totalBytes) (fun s e => (hsets s e).1) _ log
      health := by
        rw [hpane]
        exact Register.last_set (fun pane : NtripPane Single =>
          (pane.rtcmCrcFailures, pane.rtcmGarbageBytes)) (fun s e => (hsets s e).2.1) _ log
      frames := frames_shown widen seconds now log
      trouble := by
        rw [hpane]
        exact Register.last_set (·.positionTrouble) (fun s e => (hsets s e).2.2.1) _ log
      lastClose := by
        rw [hpane]
        exact Register.last_set (·.lastClose) (fun s e => (hsets s e).2.2.2.1) _ log
      unknown := by
        rw [hpane]
        exact Register.last_set (·.lastUnknownResponse) (fun s e => (hsets s e).2.2.2.2.1) _ log
      unknownCount := by
        rw [hpane, List.length_filterMap_eq_countP]
        exact (Register.counted (fun pane : NtripPane Single => pane.unknownResponseGen)
          step_unknown_count _ log).trans (Nat.zero_add _)
      table := by
        rw [hpane]
        exact Register.last_set (·.sourcetable) (fun s e => (hsets s e).2.2.2.2.2) _ log
      position := by
        rw [hgnss]
        exact Register.last_set (fun g : GnssState Single Double => (g.latDeg, g.lonDeg))
          (fun s e => (hgnssSets s e).1) _ log
      heard := by
        rw [hgnss]
        exact Register.last_set (·.lastNmea) (fun s e => (hgnssSets s e).2) _ log }

end Interface

end OpenNtrip
