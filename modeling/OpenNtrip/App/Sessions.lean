import OpenNtrip.App.Hub
import OpenNtrip.App.ReportRuns
import OpenNtrip.Lib.Mailbox

/-!
# Sessions of the window

The window of `main_window.rs` starts one worker after the other and shows what they post on the
bus, where a worker may still run when its handle is gone. `Move` is one step of the window, of a
worker or of the other threads, in any order. `sessions_apart` says that what is shown belongs to
one session, however the steps interleave.
-/

namespace OpenNtrip

variable {D Single Double : Type}

/-! ## The window -/

/-- What `str_record` and `log_mount_nmea_flag` look up: the entry of a mountpoint, or else the
first one that differs in case only. -/
def Sourcetable.SourceTable.record (table : Sourcetable.SourceTable Single) (mountpoint : Text) :
    Option (Sourcetable.StrRecord Single) :=
  (table.strs.find? fun s => s.mountpoint = mountpoint).or
    (table.strs.find? fun s => s.mountpoint.eqIgnoreCase mountpoint)

/-- `str_record`. -/
def NtripPane.strRecord (pane : NtripPane Single) (host : Text) (port : UInt16)
    (mountpoint : Text) : Option (Sourcetable.StrRecord Single) :=
  match pane.sourcetable with
  | none => none
  | some (h, p, table) => if h ≠ host ∨ p ≠ port then none else table.record mountpoint

/-- `NtripHandle`: the session it belongs to, and whether that fetches a table. -/
structure Handle where
  session : Nat
  tableRequest : Bool
  deriving DecidableEq, Repr

/-- `App`, as far as the connections to casters go. -/
structure Window (Single Double : Type) where
  state : Interface Single Double
  active : Profile
  ntrip : Option Handle := none
  serial : Bool := false
  insecureTlsActive : Bool := false
  receiverHintLogged : Bool := false
  sourcetableTab : Bool := false

/-- What `connect_ntrip` reads besides the profile. -/
structure ConnectOptions (D : Type) where
  autoReconnect : Bool
  maxReconnectAttempts : Nat
  captureCorrections : Bool
  capturesDir : D
  userAgent : Text
  deriving DecidableEq, Repr

/-- The job of a worker, with what is kept beside it. -/
structure Launch (D : Type) where
  job : NtripJob
  allowInvalidCerts : Bool
  capture : Option (CaptureTarget D)
  deriving DecidableEq, Repr

namespace Window

/-- The job that `connect_ntrip` builds, unless there is no host. -/
def launch (w : Window Single Double) (options : ConnectOptions D) (tableOnly : Bool) :
    Option (Launch D) :=
  let p := w.active
  let host := p.host.trim
  if host.isEmpty then none
  else
    let transport :=
      if tableOnly then Transport.ntrip
      else
        match p.protocol with
        | .ntrip => .ntrip
        | .tcp => .rawTcp
    let mountpoint := if tableOnly then [] else p.mountpoint.trim
    let isTable := transport = .ntrip && mountpoint.isEmpty
    some
      { job :=
          { host
            port := p.port
            mountpoint
            username := p.username
            password := p.password
            version := if p.ntripVersion = 2 then .v2 else .v1
            transport
            tls := p.tls
            ggaMode := p.ggaMode
            ggaSource := p.ggaSource
            manualLat := p.manualLat
            manualLon := p.manualLon
            streamRequiresGga :=
              (w.state.ntrip.strRecord host p.port mountpoint).map (·.nmeaRequired)
            reconnect :=
              if isTable then .oneShot else if options.autoReconnect then .auto else .optionsOff
            maxAttempts := options.maxReconnectAttempts
            userAgent := options.userAgent }
        allowInvalidCerts := p.allowInvalidCerts
        capture :=
          if options.captureCorrections && !isTable then some (.dir options.capturesDir)
          else none }

/-- What `connect_ntrip` does once it has a job, for a session. -/
def start (w : Window Single Double) (session : Nat) (launch : Launch D) :
    Window Single Double :=
  { w with
    insecureTlsActive := launch.job.tls && launch.allowInvalidCerts
    state := w.state.gesture .newSession
    receiverHintLogged := false
    ntrip := some { session, tableRequest := launch.job.isTableRequest } }

/-- `log_mount_nmea_flag`. -/
def mountNmeaFlag (w : Window Single Double) (host : Text) (port : UInt16)
    (table : Sourcetable.SourceTable Single) : List Text :=
  let p := w.active
  let mount := p.mountpoint.trim
  if mount.isEmpty || p.host.trim != host || p.port != port then []
  else
    match table.record mount with
    | some s =>
      let format := if s.format.isEmpty then "unknown".toList else s.format
      ["Sourcetable: mount ".toList ++ mount ++ " - format ".toList ++ format ++
        if s.nmeaRequired then ", nmea=1 (this stream requests NMEA GGA)".toList
        else ", nmea=0 (no GGA needed)".toList]
    | none =>
      ["Sourcetable: mount ".toList ++ mount ++ " is not listed by this caster".toList,
        "GGA requirement unknown; 'when required' sends a position anyway".toList]

/-- The line that says why the readouts of a receiver are empty. -/
def receiverHint : Text :=
  "Age, DOPs, elevation and speed need a GNSS receiver (2 Receiver).".toList

/-- Whether an event is the first frames of a session while no receiver is connected. -/
def wantsReceiverHint (w : Window Single Double) : HubEvent Single Double → Bool
  | .stream (.rtcm batch) => !batch.frames.isEmpty && !w.serial && !w.receiverHintLogged
  | _ => false

section

variable (widen : Single → F64) (seconds : Duration → F64)

/-- One event in `drain_events`, with the lines that it logs. -/
def consume (w : Window Single Double) (ev : HubEvent Single Double) (now : Instant) :
    Window Single Double × List Text :=
  let (w, lines) :=
    match ev with
    | .stopped _ _ => ({ w with ntrip := none, insecureTlsActive := false }, [])
    | .sourcetableReady host port table =>
      ({ w with
          sourcetableTab := w.sourcetableTab || w.ntrip.any Handle.tableRequest },
        w.mountNmeaFlag host port table)
    | ev =>
      if w.wantsReceiverHint ev then ({ w with receiverHintLogged := true }, [receiverHint])
      else (w, [])
  ({ w with state := w.state.apply widen seconds ev now }, lines)

/-- A profile was made the active one, `on_profile_switched`. -/
def switchProfile (w : Window Single Double) (p : Profile) : Window Single Double :=
  { w with active := p, state := w.state.gesture (.profileSwitched w.ntrip.isSome) }

end

end Window

/-! ## The window, its workers and the bus -/

/-- What a worker meets in its run, and the local times at which it posts. -/
structure WorkerScript where
  attempts : List Cx.Attempt
  readings : Nat → AttemptReadings
  stamps : Nat → LocalStamp

/-- A worker that was started, with what it posts on the bus in all. -/
structure Session (D Single Double : Type) where
  launch : Launch D
  script : List (HubEvent Single Double)

/-- What the other threads post. -/
inductive OtherEvent (Single Double : Type) where
  | eventLine (line : Text)
  | nmea (sentence : Nmea.Sentence Single Double)
  | serial (status : SerialStatus)

def OtherEvent.onBus : OtherEvent Single Double → HubEvent Single Double
  | .eventLine line => .eventLine line
  | .nmea sentence => .nmea sentence
  | .serial status => .serial status

/-- The window with the bus, and a record: the sessions so far, what was consumed of the last one
since its numbers were reset, the sessions whose hint about the receiver was logged and those that
took over the tab. The sender of a message is a session, or none. -/
structure Desk (D Single Double : Type) where
  window : Window Single Double
  bus : Mailbox (Option Nat) (HubEvent Single Double) := .empty
  sessions : List (Session D Single Double) := []
  shown : List (Entry Single Double) := []
  hinted : List Nat := []
  tookTab : List Nat := []

/-- A step: `connect_ntrip`, a post of a worker or of another thread, an event that the window
consumes, and what else the user does. A worker's reading of the cancel flag is part of its script.
-/
inductive Move (D Single Double : Type) where
  | connect (options : ConnectOptions D) (tableOnly : Bool) (script : WorkerScript)
    (sentAt : LocalStamp)
  | say (session : Nat)
  | other (ev : OtherEvent Single Double)
  | consume (now : Instant) (stamps : Nat → LocalStamp)
  | switchProfile (p : Profile)
  | edit (p : Profile)
  | serial (on : Bool)
  | tab (sourcetable : Bool)
  | clearEvents
  | record (on : Bool)
  | clearChart

/-- The event of an entry. -/
def Entry.event? : Entry Single Double → Option (HubEvent Single Double)
  | .event ev _ => some ev
  | .gesture _ => none

namespace Desk

variable [Inhabited Single] (render : Rendering Single) (widen : Single → F64)
  (seconds : Duration → F64)

/-- What a worker posts on the bus. -/
def posts (launch : Launch D) (script : WorkerScript) : List (HubEvent Single Double) :=
  (Cx.superviseReports render launch.capture { job := launch.job } launch.allowInvalidCerts {}
      script.attempts script.readings).zipIdx.filterMap fun (report, i) =>
    report.onBus render (script.stamps i)

/-- Lines that the window logs itself. -/
def log (bus : Mailbox (Option Nat) (HubEvent Single Double)) (lines : List Text)
    (stamps : Nat → LocalStamp) : Mailbox (Option Nat) (HubEvent Single Double) :=
  lines.zipIdx.foldl (fun bus (line, i) => bus.post none (.eventLine (stamp (stamps i) line))) bus

/-- The event at the head of the bus is consumed. -/
def consumed (d : Desk D Single Double) (sender : Option Nat) (ev : HubEvent Single Double)
    (bus : Mailbox (Option Nat) (HubEvent Single Double)) (now : Instant)
    (stamps : Nat → LocalStamp) : Desk D Single Double :=
  let (window, lines) := d.window.consume widen seconds ev now
  let last := d.sessions.length - 1
  { d with
    window
    bus := log bus lines stamps
    shown := if sender.isSome then d.shown ++ [.event ev now] else d.shown
    hinted := if d.window.wantsReceiverHint ev then last :: d.hinted else d.hinted
    tookTab :=
      if window.sourcetableTab && !d.window.sourcetableTab then last :: d.tookTab
      else d.tookTab }

def step (d : Desk D Single Double) : Move D Single Double → Desk D Single Double
  | .connect options tableOnly script sentAt =>
    if d.window.ntrip.isSome then d
    else
      match d.window.launch options tableOnly with
      | none => { d with bus := log d.bus ["No caster host configured".toList] fun _ => sentAt }
      | some launch =>
        let session := d.sessions.length
        let posts := posts render launch script
        { d with
          window := d.window.start session launch
          bus := d.bus.load (some session) posts
          sessions := d.sessions ++ [{ launch, script := posts }]
          shown := [] }
  | .say session => { d with bus := d.bus.send (some session) }
  | .other ev => { d with bus := d.bus.post none ev.onBus }
  | .consume now stamps =>
    match d.bus.take with
    | none => d
    | some ((sender, ev), bus) => d.consumed widen seconds sender ev bus now stamps
  | .switchProfile p =>
    { d with
      window := d.window.switchProfile p
      shown := if d.window.ntrip.isSome then d.shown else [] }
  | .edit p => { d with window := { d.window with active := p } }
  | .serial on => { d with window := { d.window with serial := on } }
  | .tab sourcetable => { d with window := { d.window with sourcetableTab := sourcetable } }
  | .clearEvents =>
    { d with window := { d.window with state := d.window.state.gesture .clearEvents } }
  | .record on =>
    { d with window := { d.window with state := d.window.state.gesture (.record on) } }
  | .clearChart =>
    { d with window := { d.window with state := d.window.state.gesture .clearChart } }

/-- The window as it opens. -/
def start (now : Instant) (active : Profile) : Desk D Single Double where
  window := { state := .new now, active }

end Desk

/-! ## What belongs to a session -/

/-- What `reset_stream_stats` resets: the total, when it grew, the frames, their health, the verdict
and the last close. -/
def NtripPane.ofSession (pane : NtripPane Single) :
    Nat × Option Instant × (UInt16 → Option RtcmTypeStat) × Nat × Nat ×
      Option PositionTrouble × Option Text :=
  (pane.totalBytes, pane.lastRx, pane.rtcm, pane.rtcmCrcFailures, pane.rtcmGarbageBytes,
    pane.positionTrouble, pane.lastClose)

/-- The last event of a worker. -/
def HubEvent.isStopped : HubEvent Single Double → Bool
  | .stopped _ _ => true
  | _ => false

/-- The events that concern no caster. -/
def HubEvent.isOther : HubEvent Single Double → Bool
  | .eventLine _ | .nmea _ | .serial _ => true
  | _ => false

/-- What holds at all times, however the steps interleave. -/
structure Desk.Apart (d : Desk D Single Double) : Prop where
  said : ∀ k s, d.sessions[k]? = some s → d.bus.saying (some k) = s.script
  current : ∀ h, d.window.ntrip = some h → h.session + 1 = d.sessions.length ∧
    ∃ s, d.sessions[h.session]? = some s ∧ h.tableRequest = s.launch.job.isTableRequest
  alone : ∀ k, d.bus.left (some k) ≠ [] → ∃ h, d.window.ntrip = some h ∧ h.session = k
  numbers : ∀ pane : NtripPane Single, d.window.state.ntrip.ofSession =
    (d.shown.foldl Interface.stepPane pane.resetStreamStats).ofSession
  shown : d.shown.map Entry.event? =
      (Mailbox.sentBy (some (d.sessions.length - 1)) d.bus.taken).map some ∨
    d.window.ntrip = none ∧ d.shown = []
  status : d.window.ntrip = none → d.window.state.ntrip.status = none
  banner : d.window.insecureTlsActive = d.window.ntrip.any fun h =>
    d.sessions[h.session]?.any fun s => s.launch.job.tls && s.launch.allowInvalidCerts
  hinted : d.hinted.Nodup
  tookTab : ∀ k ∈ d.tookTab, ∃ s, d.sessions[k]? = some s ∧
    s.launch.job.isTableRequest = true

/-! ### The parts of a session -/

theorem fold_count_frames_rtcm {ui ui' : NtripUi} (h : ui.rtcm = ui'.rtcm)
    (frames : List (UInt16 × Nat × Nat)) (now : Instant) :
    (frames.foldl (fun ui entry => ui.countFrames entry now) ui).rtcm =
        (frames.foldl (fun ui entry => ui.countFrames entry now) ui').rtcm ∧
      (frames.foldl (fun ui entry => ui.countFrames entry now) ui).totalBytes = ui.totalBytes ∧
      (frames.foldl (fun ui entry => ui.countFrames entry now) ui).lastRx = ui.lastRx := by
  induction frames generalizing ui ui' with
  | nil => exact ⟨h, rfl, rfl⟩
  | cons entry rest ih =>
      have hcount : (ui.countFrames entry now).rtcm = (ui'.countFrames entry now).rtcm := by
        obtain ⟨t, n, lastLen⟩ := entry
        simp only [NtripUi.countFrames, h]
      obtain ⟨hrtcm, htotal, hrx⟩ := ih hcount
      exact ⟨hrtcm, htotal, hrx⟩

/-- What an event makes of a session depends on the session only. -/
theorem step_of_session {pane pane' : NtripPane Single} (h : pane.ofSession = pane'.ofSession)
    (ev : HubEvent Single Double) (now : Instant) :
    (Interface.stepPane pane (.event ev now)).ofSession =
      (Interface.stepPane pane' (.event ev now)).ofSession := by
  simp only [NtripPane.ofSession, Prod.mk.injEq] at h
  obtain ⟨htotal, hrx, hrtcm, hcrc, hgarbage, htrouble, hclose⟩ := h
  cases ev with
  | stream event =>
      cases event with
      | rtcm batch =>
          obtain ⟨hframes, hkept, hkeptRx⟩ := fold_count_frames_rtcm hrtcm batch.frames now
          obtain ⟨-, hkept', hkeptRx'⟩ := fold_count_frames_rtcm hrtcm.symm batch.frames now
          simp only [NtripPane.ofSession, Interface.stepPane, NtripPane.applyStream, NtripUi.apply,
            hframes, hkept, hkeptRx, hkept', hkeptRx', htotal, hrx, htrouble, hclose]
      | _ =>
          simp only [NtripPane.ofSession, Interface.stepPane, NtripPane.applyStream, NtripUi.apply,
            htotal, hrx, hrtcm, hcrc, hgarbage, htrouble, hclose]
  | _ =>
      simp only [NtripPane.ofSession, Interface.stepPane, htotal, hrx, hrtcm, hcrc, hgarbage,
        htrouble, hclose]

/-- Events that concern no caster change nothing of it. -/
theorem step_pane_other {ev : HubEvent Single Double} (h : ev.isOther = true)
    (pane : NtripPane Single) (now : Instant) :
    Interface.stepPane pane (.event ev now) = pane := by
  cases ev with
  | eventLine line => rfl
  | nmea sentence => rfl
  | serial status => rfl
  | _ => simp [HubEvent.isOther] at h

/-! ### What a worker and the window post -/

section

variable [Inhabited Single] (render : Rendering Single)

theorem on_bus_stopped {report : Report D Single} {t : LocalStamp}
    {ev : HubEvent Single Double} (h : report.onBus render t = some ev) :
    ev.isStopped = report.isStopped := by
  cases report with
  | post p =>
      cases p with
      | gga sentence => exact absurd h (by simp [Report.onBus, Post.event])
      | push block => exact absurd h (by simp [Report.onBus, Post.event])
      | _ =>
          obtain rfl := Option.some.inj h
          rfl
  | capture cmd => exact absurd h (by simp [Report.onBus])
  | _ =>
      obtain rfl := Option.some.inj h
      rfl

/-- A worker posts nothing once it has posted that it stopped. -/
theorem posts_stopped_last (launch : Launch D) (script : WorkerScript) :
    (Desk.posts render launch script : List (HubEvent Single Double)).Pairwise
      fun ev _ => ev.isStopped = false := by
  have hlast := stopped_last render launch.capture { job := launch.job } launch.allowInvalidCerts
    {} script.attempts script.readings
  rw [Desk.posts, List.pairwise_filterMap]
  rw [← List.zipIdx_map_fst 0 (Cx.superviseReports _ _ _ _ _ _ _), List.pairwise_map] at hlast
  refine hlast.imp fun {a b} hab ev hev _ _ => ?_
  rw [on_bus_stopped render hev]
  exact hab

end

namespace Desk

/-- Lines of the window are no messages of a worker. -/
theorem log_spec (bus : Mailbox (Option Nat) (HubEvent Single Double)) (lines : List Text)
    (stamps : Nat → LocalStamp) :
    (∀ k, (log bus lines stamps).left (some k) = bus.left (some k)) ∧
      (log bus lines stamps).taken = bus.taken ∧
      ∀ message ∈ (log bus lines stamps).channel, message ∈ bus.channel ∨
        message.1 = none ∧ message.2.isOther = true := by
  unfold log
  generalize lines.zipIdx = numbered
  induction numbered generalizing bus with
  | nil => exact ⟨fun _ => rfl, rfl, fun _ hmem => .inl hmem⟩
  | cons first rest ih =>
      obtain ⟨hleft, htaken, hchannel⟩ := ih (bus.post none (.eventLine (stamp (stamps first.2)
        first.1)))
      refine ⟨fun k => ?_, htaken, fun message hmem => ?_⟩
      · exact (hleft k).trans (Mailbox.post_left (by simp) _)
      · rcases hchannel message hmem with hmem | hother
        · rcases List.mem_append.mp hmem with hmem | hmem
          · exact .inl hmem
          · obtain rfl := List.mem_singleton.mp hmem
            exact .inr ⟨rfl, rfl⟩
        · exact .inr hother

end Desk

section

variable (widen : Single → F64) (seconds : Duration → F64)

/-- What the window makes of an event, besides what it shows. -/
theorem consume_spec (w : Window Single Double) (ev : HubEvent Single Double) (now : Instant) :
    let w' := (w.consume widen seconds ev now).1
    w'.state.ntrip = Interface.stepPane w.state.ntrip (.event ev now) ∧
      w'.ntrip = (if ev.isStopped then none else w.ntrip) ∧
      w'.insecureTlsActive = (!ev.isStopped && w.insecureTlsActive) ∧
      w'.receiverHintLogged = (w.receiverHintLogged || w.wantsReceiverHint ev) ∧
      ((w'.sourcetableTab && !w.sourcetableTab) = true →
        w.ntrip.any Handle.tableRequest = true) := by
  have hpane : (w.state.apply widen seconds ev now).ntrip =
      Interface.stepPane w.state.ntrip (.event ev now) :=
    (Interface.step_parts widen seconds w.state (.event ev now)).1
  cases ev with
  | stopped summary failed => exact ⟨hpane, rfl, rfl, (Bool.or_false _).symm, by
      simp [Window.consume]⟩
  | sourcetableReady host port table =>
      refine ⟨hpane, rfl, (Bool.true_and _).symm, (Bool.or_false _).symm, fun htook => ?_⟩
      cases htab : w.sourcetableTab with
      | true => simp [htab] at htook
      | false => simpa [Window.consume, htab] using htook
  | stream event =>
      unfold Window.consume
      simp only
      split
      · next hwants =>
          exact ⟨hpane, rfl, (Bool.true_and _).symm, by simp [hwants], by simp⟩
      · next hwants =>
          exact ⟨hpane, rfl, (Bool.true_and _).symm, by simp [hwants], by simp⟩
  | _ => exact ⟨hpane, rfl, (Bool.true_and _).symm, (Bool.or_false _).symm, by
      simp [Window.consume, Window.wantsReceiverHint]⟩

end

/-! ### The invariant -/

namespace Desk

/-- What every step keeps. -/
structure Inv (d : Desk D Single Double) : Prop extends Apart d where
  last : ∀ s ∈ d.sessions, s.script.Pairwise fun ev _ => ev.isStopped = false
  unborn : ∀ k, d.sessions.length ≤ k → d.bus.saying (some k) = []
  hintedBy : ∀ k ∈ d.hinted, k + 1 < d.sessions.length ∨
    k + 1 = d.sessions.length ∧ d.window.receiverHintLogged = true
  others : ∀ ev, (none, ev) ∈ d.bus.channel → ev.isOther = true
  events : ∀ entry ∈ d.shown, entry.event?.isSome

variable {d : Desk D Single Double}

/-- A step that concerns no caster and no session. -/
theorem Inv.view (h : Inv d) {window : Window Single Double}
    (hstate : window.state.ntrip = d.window.state.ntrip) (hntrip : window.ntrip = d.window.ntrip)
    (hbanner : window.insecureTlsActive = d.window.insecureTlsActive)
    (hhint : window.receiverHintLogged = d.window.receiverHintLogged) :
    Inv { d with window } where
  said := h.said
  current := by
    rw [hntrip]
    exact h.current
  alone := by
    rw [hntrip]
    exact h.alone
  numbers := by
    rw [hstate]
    exact h.numbers
  shown := by
    rw [hntrip]
    exact h.shown
  status := by
    rw [hntrip, hstate]
    exact h.status
  banner := by
    rw [hntrip, hbanner]
    exact h.banner
  hinted := h.hinted
  tookTab := h.tookTab
  last := h.last
  unborn := h.unborn
  hintedBy := by
    rw [hhint]
    exact h.hintedBy
  others := h.others
  events := h.events

/-- A step of the bus that changes what no session says, and takes nothing. -/
theorem Inv.bus (h : Inv d) {bus : Mailbox (Option Nat) (HubEvent Single Double)}
    (hleft : ∀ k, bus.left (some k) = d.bus.left (some k)) (htaken : bus.taken = d.bus.taken)
    (hothers : ∀ ev, (none, ev) ∈ bus.channel → ev.isOther = true) : Inv { d with bus } := by
  have hsaying : ∀ k, bus.saying (some k) = d.bus.saying (some k) :=
    fun k => Mailbox.saying_eq (hleft k) htaken
  exact
    { h with
      said := fun k s hs => (hsaying k).trans (h.said k s hs)
      alone := fun k hk => h.alone k (by rwa [hleft] at hk)
      shown := by
        rw [htaken]
        exact h.shown
      unborn := fun k hk => (hsaying k).trans (h.unborn k hk)
      others := hothers }

theorem Inv.say (h : Inv d) (session : Nat) :
    Inv { d with bus := d.bus.send (some session) } := by
  refine h.bus (fun k => Mailbox.send_left _ _) (Mailbox.send_taken _) fun ev hmem => ?_
  unfold Mailbox.send at hmem
  split at hmem
  · exact h.others ev hmem
  · rcases List.mem_append.mp hmem with hmem | hmem
    · exact h.others ev hmem
    · simp at hmem

theorem Inv.other (h : Inv d) (ev : OtherEvent Single Double) :
    Inv { d with bus := d.bus.post none ev.onBus } := by
  refine h.bus (fun k => Mailbox.post_left (by simp) _) rfl fun ev' hmem => ?_
  rcases List.mem_append.mp hmem with hmem | hmem
  · exact h.others ev' hmem
  · obtain ⟨-, rfl⟩ := Prod.mk.inj (List.mem_singleton.mp hmem)
    cases ev with
    | eventLine line => rfl
    | nmea sentence => rfl
    | serial status => rfl

theorem Inv.log (h : Inv d) (lines : List Text) (stamps : Nat → LocalStamp) :
    Inv { d with bus := Desk.log d.bus lines stamps } := by
  obtain ⟨hleft, htaken, hchannel⟩ := log_spec d.bus lines stamps
  refine h.bus hleft htaken fun ev hmem => ?_
  rcases hchannel _ hmem with hmem | hother
  · exact h.others ev hmem
  · exact hother.2

/-- Where no worker runs, nobody has anything left to say. -/
theorem Inv.left_none (h : Inv d) (hnone : d.window.ntrip = none) (k : Nat) :
    d.bus.left (some k) = [] := by
  by_contra hk
  obtain ⟨handle, hhandle, -⟩ := h.alone k hk
  exact absurd (hnone.symm.trans hhandle) (by simp)

/-- A profile switch resets the numbers where no worker runs, and leaves them else. -/
theorem Inv.switch (h : Inv d) (p : Profile) :
    Inv { d with
      window := d.window.switchProfile p
      shown := if d.window.ntrip.isSome then d.shown else [] } := by
  have hntrip : (d.window.switchProfile p).ntrip = d.window.ntrip := rfl
  cases hhandle : d.window.ntrip with
  | some handle =>
      have hstate : (d.window.switchProfile p).state.ntrip =
          { d.window.state.ntrip with sourcetable := none } := by
        simp only [Window.switchProfile, hhandle]
        rfl
      exact
        { h with
          numbers := by
            rw [hstate]
            exact h.numbers
          status := fun hnone => absurd (hntrip.symm.trans hnone) (by simp [hhandle]) }
  | none =>
      have hstate : (d.window.switchProfile p).state.ntrip =
          { NtripPane.resetStreamStats { d.window.state.ntrip with sourcetable := none } with
            status := none
            stopped := none } := by
        simp only [Window.switchProfile, hhandle]
        rfl
      exact
        { h with
          numbers := by
            rw [hstate]
            exact fun pane => rfl
          shown := .inr ⟨hntrip.trans hhandle, rfl⟩
          status := fun _ => by rw [hstate]
          events := by simp }

theorem sessions_append {sessions : List (Session D Single Double)} {s : Session D Single Double}
    {k : Nat} {s' : Session D Single Double} (h : (sessions ++ [s])[k]? = some s') :
    sessions[k]? = some s' ∨ k = sessions.length ∧ s' = s := by
  rcases Nat.lt_trichotomy k sessions.length with hk | hk | hk
  · rw [List.getElem?_append_left hk] at h
    exact .inl h
  · subst hk
    rw [List.getElem?_concat_length] at h
    exact .inr ⟨rfl, (Option.some.inj h).symm⟩
  · rw [List.getElem?_eq_none (by simp; omega)] at h
    exact absurd h (by simp)

/-- A session is started only where the last one has nothing left to say. -/
theorem Inv.connect [Inhabited Single] (render : Rendering Single) (h : Inv d)
    (hnone : d.window.ntrip = none) (launch : Launch D) (script : WorkerScript) :
    let session := d.sessions.length
    let posts := posts render launch script
    Inv { d with
      window := d.window.start session launch
      bus := d.bus.load (some session) posts
      sessions := d.sessions ++ [{ launch, script := posts }]
      shown := [] } := by
  intro session posts
  have hborn : d.bus.saying (some session) = [] := h.unborn session (Nat.le_refl _)
  obtain ⟨htaken, hleft⟩ := List.append_eq_nil_iff.mp hborn
  have hother : ∀ k, k ≠ session → (d.bus.load (some session) posts).saying (some k) =
      d.bus.saying (some k) := by
    intro k hk
    exact Mailbox.saying_eq (Mailbox.load_left_other (by simpa using Ne.symm hk) _) rfl
  have hself : (d.bus.load (some session) posts).saying (some session) = posts := by
    rw [Mailbox.saying, Mailbox.load_left_self _ _ hleft]
    exact (congrArg (· ++ posts) htaken).trans (List.nil_append _)
  have hfound : (d.sessions ++ [{ launch, script := posts }])[session]? =
      some { launch, script := posts } := List.getElem?_concat_length
  have hlength : (d.sessions ++ [({ launch, script := posts } : Session D Single Double)]).length =
      session + 1 := by simp [session]
  refine
    { said := fun k s hs => ?_
      current := fun handle hhandle => ?_
      alone := fun k hk => ?_
      numbers := fun pane => rfl
      shown := .inl ?_
      status := fun hnot => absurd hnot (by simp [Window.start])
      banner := ?_
      hinted := h.hinted
      tookTab := fun k hk => ?_
      last := fun s hs => ?_
      unborn := fun k hk => ?_
      hintedBy := fun k hk => ?_
      others := h.others
      events := by simp }
  · rcases sessions_append hs with hs | ⟨rfl, rfl⟩
    · have hk : k < session := (List.getElem?_eq_some_iff.mp hs).1
      rw [hother k (by omega)]
      exact h.said k s hs
    · exact hself
  · obtain rfl := Option.some.inj hhandle
    exact ⟨hlength.symm, _, hfound, rfl⟩
  · refine ⟨_, rfl, ?_⟩
    by_contra hne
    rw [Mailbox.load_left_other (by simpa using hne)] at hk
    exact hk (h.left_none hnone k)
  · rw [hlength]
    exact (congrArg (List.map some) htaken).symm
  · show (launch.job.tls && launch.allowInvalidCerts) = Option.any _ (some _)
    rw [Option.any_some, hfound]
    rfl
  · obtain ⟨s, hs, htable⟩ := h.tookTab k hk
    refine ⟨s, ?_, htable⟩
    rw [List.getElem?_append_left (List.getElem?_eq_some_iff.mp hs).1]
    exact hs
  · rcases List.mem_append.mp hs with hs | hs
    · exact h.last s hs
    · rw [List.mem_singleton.mp hs]
      exact posts_stopped_last render launch script
  · rw [hlength] at hk
    rw [hother k (by omega)]
    exact h.unborn k (by omega)
  · rw [hlength]
    refine .inl ?_
    rcases h.hintedBy k hk with hk | ⟨hk, -⟩
    · omega
    · omega

section

variable (widen : Single → F64) (seconds : Duration → F64)
  {bus : Mailbox (Option Nat) (HubEvent Single Double)} {ev : HubEvent Single Double}

/-- An event of another thread concerns no session. -/
theorem Inv.consume_other (h : Inv d) (htake : d.bus.take = some ((none, ev), bus))
    (now : Instant) (stamps : Nat → LocalStamp) :
    Inv (d.consumed widen seconds none ev bus now stamps) := by
  obtain ⟨hchannel, htaken, -⟩ := Mailbox.take_some htake
  have hother : ev.isOther = true := h.others ev (by rw [hchannel]; exact List.mem_cons_self)
  have hstopped : ev.isStopped = false := by
    cases ev with
    | stopped summary failed => simp [HubEvent.isOther] at hother
    | _ => rfl
  have hwants : d.window.wantsReceiverHint ev = false := by
    cases ev with
    | stream event => simp [HubEvent.isOther] at hother
    | _ => rfl
  obtain ⟨hstate, hntrip, hbanner, hhint, -⟩ := consume_spec widen seconds d.window ev now
  rw [step_pane_other hother] at hstate
  rw [hstopped, if_neg (by simp)] at hntrip
  rw [hstopped] at hbanner
  rw [hwants, Bool.or_false] at hhint
  have htab : (d.window.consume widen seconds ev now).1.sourcetableTab =
      d.window.sourcetableTab := by
    cases ev with
    | eventLine line => rfl
    | nmea sentence => rfl
    | serial status => rfl
    | _ => simp [HubEvent.isOther] at hother
  have hdesk : d.consumed widen seconds none ev bus now stamps =
      { { d with window := (d.window.consume widen seconds ev now).1, bus } with
        bus := Desk.log bus (d.window.consume widen seconds ev now).2 stamps } := by
    unfold consumed
    simp [hwants, htab]
  rw [hdesk]
  refine Inv.log (Inv.view (d := { d with bus }) ?_ hstate hntrip hbanner hhint) _ _
  have hsaying := Mailbox.take_saying htake
  refine
    { h with
      said := fun k s hs => (hsaying _).trans (h.said k s hs)
      alone := fun k hk => h.alone k (by rwa [(Mailbox.take_left htake).2 _ (by simp)])
      shown := ?_
      unborn := fun k hk => (hsaying _).trans (h.unborn k hk)
      others := fun ev' hmem => h.others ev' (by
        rw [hchannel]
        exact List.mem_cons_of_mem _ hmem) }
  have hsame : Mailbox.sentBy (some (d.sessions.length - 1)) bus.taken =
      Mailbox.sentBy (some (d.sessions.length - 1)) d.bus.taken := by
    rw [htaken, Mailbox.sent_by_append, Mailbox.sent_by_other (by simp)]
    exact List.append_nil _
  rw [hsame]
  exact h.shown

/-- An event of a worker is one of the session that the window shows. -/
theorem Inv.consume_worker {k : Nat} (h : Inv d) (htake : d.bus.take = some ((some k, ev), bus))
    (now : Instant) (stamps : Nat → LocalStamp) :
    Inv (d.consumed widen seconds (some k) ev bus now stamps) := by
  obtain ⟨hchannel, htaken, -⟩ := Mailbox.take_some htake
  obtain ⟨hleft, hleftOther⟩ := Mailbox.take_left htake
  have hsaying := Mailbox.take_saying htake
  -- the sender is the session of the handle, which is the last one
  obtain ⟨handle, hhandle, rfl⟩ := h.alone k (by rw [hleft]; simp)
  obtain ⟨hlast, session, hsession, hrequest⟩ := h.current handle hhandle
  have hlast' : d.sessions.length - 1 = handle.session := by omega
  have hscript : (d.bus.saying (some handle.session)).Pairwise
      fun ev _ => ev.isStopped = false := by
    rw [h.said _ _ hsession]
    exact h.last session (List.mem_of_getElem? hsession)
  obtain ⟨hstate, hntrip, hbanner, hhint, htab⟩ := consume_spec widen seconds d.window ev now
  have hwants : d.window.wantsReceiverHint ev = true → d.window.receiverHintLogged = false := by
    cases ev with
    | stream event =>
        cases event with
        | rtcm batch =>
            intro hwants
            simp only [Window.wantsReceiverHint, Bool.and_eq_true, Bool.not_eq_true'] at hwants
            exact hwants.2
        | _ => simp [Window.wantsReceiverHint]
    | _ => simp [Window.wantsReceiverHint]
  refine Inv.log (d := { d with
    window := (d.window.consume widen seconds ev now).1
    bus := bus
    shown := d.shown ++ [.event ev now]
    hinted := if d.window.wantsReceiverHint ev then (d.sessions.length - 1) :: d.hinted
      else d.hinted
    tookTab :=
      if (d.window.consume widen seconds ev now).1.sourcetableTab && !d.window.sourcetableTab then
        (d.sessions.length - 1) :: d.tookTab
      else d.tookTab }) ?_ _ _
  refine
    { said := fun j s hs => (hsaying _).trans (h.said j s hs)
      current := fun handle' hhandle' => ?_
      alone := fun j hj => ?_
      numbers := fun pane => ?_
      shown := .inl ?_
      status := fun hnone => ?_
      banner := ?_
      hinted := ?_
      tookTab := fun j hj => ?_
      last := h.last
      unborn := fun j hj => (hsaying _).trans (h.unborn j hj)
      hintedBy := fun j hj => ?_
      others := fun ev' hmem => h.others ev' (by
        rw [hchannel]
        exact List.mem_cons_of_mem _ hmem)
      events := fun entry hentry => ?_ }
  · rw [hntrip] at hhandle'
    split at hhandle'
    · simp at hhandle'
    · exact h.current handle' hhandle'
  · by_cases hjk : handle.session = j
    · subst hjk
      refine ⟨handle, ?_, rfl⟩
      rw [hntrip, if_neg ?_, hhandle]
      exact fun hstopped => hj (Mailbox.finished htake hscript hstopped)
    · have hleft' : d.bus.left (some j) ≠ [] := by
        rw [hleftOther (some j) (by simpa using hjk)]
        exact hj
      obtain ⟨handle', hhandle', rfl⟩ := h.alone j hleft'
      obtain rfl := Option.some.inj (hhandle.symm.trans hhandle')
      exact absurd rfl hjk
  · rw [hstate, List.foldl_append]
    exact step_of_session (h.numbers pane) ev now
  · rcases h.shown with hshown | ⟨hnone, -⟩
    · rw [List.map_append, hshown, htaken, Mailbox.sent_by_append, List.map_append, hlast',
        Mailbox.sent_by_self]
      rfl
    · exact absurd (hnone.symm.trans hhandle) (by simp)
  · rw [hntrip] at hnone
    rw [hstate]
    cases ev with
    | stopped summary failed => rfl
    | _ => exact absurd (hhandle.symm.trans hnone) (by simp)
  · rw [hbanner, hntrip]
    cases ev.isStopped with
    | true => rfl
    | false => exact h.banner
  · split
    · next hhints =>
        refine List.nodup_cons.mpr ⟨fun hmem => ?_, h.hinted⟩
        rcases h.hintedBy _ hmem with hlt | ⟨-, hlogged⟩
        · omega
        · rw [hwants hhints] at hlogged
          exact absurd hlogged (by simp)
    · exact h.hinted
  · have hj' : j ∈ if (d.window.consume widen seconds ev now).1.sourcetableTab &&
        !d.window.sourcetableTab then (d.sessions.length - 1) :: d.tookTab else d.tookTab := hj
    split at hj'
    · next htook =>
        rcases List.mem_cons.mp hj' with rfl | hj
        · refine ⟨session, hlast' ▸ hsession, ?_⟩
          have hany := htab htook
          rw [hhandle, Option.any_some, hrequest] at hany
          exact hany
        · exact h.tookTab j hj
    · exact h.tookTab j hj'
  · have hj' : j ∈ if d.window.wantsReceiverHint ev then (d.sessions.length - 1) :: d.hinted
        else d.hinted := hj
    have hkept : j ∈ d.hinted → j + 1 < d.sessions.length ∨ j + 1 = d.sessions.length ∧
        (d.window.consume widen seconds ev now).1.receiverHintLogged = true := by
      intro hj
      refine (h.hintedBy j hj).imp_right fun ⟨heq, hlogged⟩ => ⟨heq, ?_⟩
      rw [hhint, hlogged, Bool.true_or]
    split at hj'
    · next hhints =>
        rcases List.mem_cons.mp hj' with rfl | hj
        · refine .inr ⟨?_, ?_⟩
          · show d.sessions.length - 1 + 1 = d.sessions.length
            omega
          · show (d.window.consume widen seconds ev now).1.receiverHintLogged = true
            rw [hhint, hhints, Bool.or_true]
        · exact hkept hj
    · exact hkept hj'
  · rcases List.mem_append.mp hentry with hentry | hentry
    · exact h.events entry hentry
    · rw [List.mem_singleton.mp hentry]
      rfl

end

theorem start_inv (now : Instant) (active : Profile) :
    Inv (start now active : Desk D Single Double) where
  said := by simp [start]
  current := by simp [start]
  alone := by simp [start, Mailbox.left, Mailbox.empty]
  numbers := fun _ => rfl
  shown := .inr ⟨rfl, rfl⟩
  status := fun _ => rfl
  banner := rfl
  hinted := List.nodup_nil
  tookTab := by simp [start]
  last := by simp [start]
  unborn := fun _ _ => rfl
  hintedBy := by simp [start]
  others := by simp [start, Mailbox.empty]
  events := by simp [start]

variable [Inhabited Single] (render : Rendering Single) (widen : Single → F64)
  (seconds : Duration → F64)

/-- Every step keeps the invariant. -/
theorem Inv.step (h : Inv d) (move : Move D Single Double) :
    Inv (d.step render widen seconds move) := by
  cases move with
  | connect options tableOnly script sentAt =>
      simp only [Desk.step]
      split
      · exact h
      · next hidle =>
          have hnone : d.window.ntrip = none := by
            cases hntrip : d.window.ntrip with
            | none => rfl
            | some handle => simp [hntrip] at hidle
          split
          · exact h.log _ _
          · exact h.connect render hnone _ script
  | say session => exact h.say session
  | other ev => exact h.other ev
  | consume now stamps =>
      simp only [Desk.step]
      split
      · exact h
      · next sender ev bus htake =>
          cases sender with
          | none => exact h.consume_other widen seconds htake now stamps
          | some k => exact h.consume_worker widen seconds htake now stamps
  | switchProfile p => exact h.switch p
  | edit p => exact h.view rfl rfl rfl rfl
  | serial on => exact h.view rfl rfl rfl rfl
  | tab sourcetable => exact h.view rfl rfl rfl rfl
  | clearEvents => exact h.view rfl rfl rfl rfl
  | record on => exact h.view rfl rfl rfl rfl
  | clearChart => exact h.view rfl rfl rfl rfl

end Desk

/-- Sessions stay apart, whatever the user, the workers and the other threads do in whatever
order. -/
theorem sessions_apart [Inhabited Single] (render : Rendering Single) (widen : Single → F64)
    (seconds : Duration → F64) (now : Instant) (active : Profile)
    (moves : List (Move D Single Double)) :
    (moves.foldl (Desk.step render widen seconds) (Desk.start now active)).Apart := by
  suffices hinv : ∀ d : Desk D Single Double, d.Inv →
      (moves.foldl (Desk.step render widen seconds) d).Inv from
    (hinv _ (Desk.start_inv now active)).toApart
  induction moves with
  | nil => exact fun _ h => h
  | cons move rest ih => exact fun d h => ih _ (h.step render widen seconds move)

end OpenNtrip
