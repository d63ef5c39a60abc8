import OpenNtrip.App.DailyLog

/-!
# The logger thread

`run` of `logging.rs`: the thread that owns the two daily logs and the capture, on one disk. What it
reads from its surroundings (the clocks, and how files open) is an argument of each turn of the
loop. `LogBook` says what the thread is for, without buffers and files. The thread follows it
(`run_kept`), leaves every file complete when it ends, and what was flushed once stays on the disk
(`flushed_stays`).
-/

namespace OpenNtrip

/-- `stamp` of `bus.rs`: a text behind the local time. -/
def stamp (t : LocalStamp) (text : Text) : Text :=
  padded 2 t.hour ++ ':' :: (padded 2 t.min ++ ':' :: (padded 2 t.sec ++ ' ' :: text))

/-- `LogCmd`. -/
inductive LogCmd (D : Type) where
  | event (line : Text)
  | nmea (line : Text)
  | setEventLog (on : Bool)
  | setNmeaLog (on : Bool)
  | captureBegin (target : CaptureTarget D) (mount : Text)
  | captureData (bytes : Bytes)
  | captureEnd
  | shutdown
  deriving DecidableEq, Repr

/-- What `recv_timeout` returns. -/
inductive Received (D : Type) where
  | command (cmd : LogCmd D)
  | disconnected
  | timeout
  deriving DecidableEq, Repr

/-- What a command meets: the clock when it writes and how its file opens then, and for the notice
that it may lead to the clock at its stamp and at its write, and how the event log opens for it. -/
structure LogReadings where
  now : LocalStamp
  opens : Except Text Unit
  stampedAt : LocalStamp
  noticeAt : LocalStamp
  noticeOpens : Except Text Unit

/-- One turn of the loop: what is received, what a command meets, and the monotonic clock when it
is compared with the deadline of the flush and when the next deadline is set. -/
structure LogTurn (D : Type) where
  received : Received D
  readings : LogReadings
  clock : Instant
  clockAfter : Instant

/-- `FLUSH_INTERVAL`. -/
def FLUSH_INTERVAL : Duration := fromSecs 1

/-- The variables of the thread, with the disk and the lines that went to the interface. -/
structure Logger (D : Type) where
  events : DailySink D
  nmea : DailySink D
  capture : CaptureSink D
  nextFlush : Instant
  disk : Disk D
  ui : List Text

section

variable {D : Type} [DecidableEq D] (ignoresCase : Bool) (display : CaptureFile D → Text)

namespace Logger

/-- The thread as it starts. -/
def start (logsDir nmeaDir : D) (eventOn nmeaOn : Bool) (now : Instant) (disk : Disk D) :
    Logger D where
  events := .new logsDir eventOn
  nmea := .new nmeaDir nmeaOn
  capture := .new
  nextFlush := now + FLUSH_INTERVAL
  disk := disk
  ui := []

/-- A line for the event log. -/
def writeEvent (l : Logger D) (now : LocalStamp) (opens : Except Text Unit) (line : Text) :
    Logger D × SinkEvent :=
  let (events, disk, event) := l.events.writeLine ignoresCase display l.disk now opens line
  ({ l with events, disk }, event)

/-- A notice for the event log and the interface. What the log reports of it is ignored. -/
def tell (l : Logger D) (text : Text) (readings : LogReadings) : Logger D :=
  let line := stamp readings.stampedAt text
  let (l, _) := l.writeEvent ignoresCase display readings.noticeAt readings.noticeOpens line
  { l with ui := l.ui ++ [line] }

/-- `notify`. -/
def notify (l : Logger D) (event : SinkEvent) (readings : LogReadings) : Logger D :=
  match event with
  | .none => l
  | .rolledTo name =>
    l.tell ignoresCase display ("Log rolled over to ".toList ++ name) readings
  | .failed message => { l with ui := l.ui ++ [stamp readings.stampedAt message] }

/-- `emit`. -/
def emit (l : Logger D) (text : Option Text) (readings : LogReadings) : Logger D :=
  match text with
  | none => l
  | some text => l.tell ignoresCase display text readings

/-- What a command does. The end of the thread is `finish`. -/
def handle (l : Logger D) (cmd : LogCmd D) (readings : LogReadings) : Logger D :=
  match cmd with
  | .event line =>
    let (l, event) := l.writeEvent ignoresCase display readings.now readings.opens line
    l.notify ignoresCase display event readings
  | .nmea line =>
    let (nmea, disk, event) :=
      l.nmea.writeLine ignoresCase display l.disk readings.now readings.opens line
    { l with nmea, disk }.notify ignoresCase display event readings
  | .setEventLog on =>
    let (events, disk) := l.events.setEnabled ignoresCase l.disk on
    { l with events, disk }
  | .setNmeaLog on =>
    let (nmea, disk) := l.nmea.setEnabled ignoresCase l.disk on
    { l with nmea, disk }
  | .captureBegin target mount =>
    let (capture, disk, leftover) := l.capture.begin ignoresCase display l.disk target mount
    { l with capture, disk }.emit ignoresCase display leftover readings
  | .captureData bytes =>
    let (capture, disk, notice) :=
      l.capture.data ignoresCase display l.disk readings.now readings.opens bytes
    { l with capture, disk }.emit ignoresCase display notice readings
  | .captureEnd =>
    let (capture, disk, receipt) := l.capture.endCapture ignoresCase display l.disk
    { l with capture, disk }.emit ignoresCase display receipt readings
  | .shutdown => l

/-- The flushes of a turn whose deadline has passed. -/
def flushAll (l : Logger D) : Logger D :=
  let (events, disk) := l.events.flush ignoresCase l.disk
  let (nmea, disk) := l.nmea.flush ignoresCase disk
  let (capture, disk) := l.capture.flush ignoresCase disk
  { l with events, nmea, capture, disk }

/-- The command of a turn, if one is received. -/
def receive (l : Logger D) (t : LogTurn D) : Logger D :=
  match t.received with
  | .command cmd => l.handle ignoresCase display cmd t.readings
  | _ => l

/-- A turn of the loop that does not leave it. -/
def turn (l : Logger D) (t : LogTurn D) : Logger D :=
  let l := l.receive ignoresCase display t
  if l.nextFlush ≤ t.clock then
    { l.flushAll ignoresCase with nextFlush := t.clockAfter + FLUSH_INTERVAL }
  else l

/-- What follows the loop: the capture is closed, and both logs are flushed. -/
def finish (l : Logger D) (readings : LogReadings) : Logger D :=
  let (capture, disk, receipt) := l.capture.endCapture ignoresCase display l.disk
  let l := { l with capture, disk }.emit ignoresCase display receipt readings
  let (events, disk) := l.events.flush ignoresCase l.disk
  let (nmea, disk) := l.nmea.flush ignoresCase disk
  { l with events, nmea, disk }

/-- What is received ends the loop. -/
def leaves : Received D → Bool
  | .command .shutdown | .disconnected => true
  | _ => false

/-- `run`, from a state of the thread on. Without further turns the thread waits. -/
def run (l : Logger D) : List (LogTurn D) → Logger D
  | [] => l
  | t :: rest =>
    if leaves t.received then l.finish ignoresCase display t.readings
    else run (l.turn ignoresCase display t) rest

end Logger

/-! ## What the thread is for -/

/-- Where a capture goes that begins now. -/
def CaptureTarget.path (target : CaptureTarget D) (now : LocalStamp) (mount : Text) :
    CaptureFile D :=
  match target with
  | .file explicit => explicit
  | .dir parent => ⟨parent, captureFilename now mount⟩

/-- What is captured: where the next capture goes, the file of the one that goes on with the number
of its bytes, and whether the file of the connection did not open. -/
structure CaptureBook (D : Type) where
  armed : Option (CaptureTarget D × Text)
  opened : Option (CaptureFile D × Nat)
  failed : Bool

namespace CaptureBook

/-- A capture that goes on ends with its receipt. -/
def endCapture (book : CaptureBook D) : CaptureBook D × Option Text :=
  ({ book with armed := none, opened := none },
    book.opened.map fun capture => CaptureSink.receipt display capture.1 capture.2)

/-- The next capture is armed. -/
def begin (book : CaptureBook D) (target : CaptureTarget D) (mount : Text) :
    CaptureBook D × Option Text :=
  let (book, leftover) := book.endCapture display
  ({ book with armed := some (target, mount), failed := false }, leftover)

/-- Data is counted. The first of a connection opens its file. -/
def data (book : CaptureBook D) (now : LocalStamp) (opens : Except Text Unit) (bytes : Bytes) :
    CaptureBook D × Option Text :=
  match book.opened, book.armed with
  | some (file, count), _ => ({ book with opened := some (file, count + bytes.length) }, none)
  | none, none => (book, none)
  | none, some (target, mount) =>
    if book.failed then (book, none)
    else
      let file := target.path now mount
      match opens with
      | .ok () =>
        ({ book with opened := some (file, bytes.length) },
          some ("Capturing corrections to ".toList ++ display file))
      | .error error =>
        ({ book with failed := true },
          some ("Could not open capture file ".toList ++ display file ++ ": ".toList ++ error))

end CaptureBook

/-- The two logs, what is captured, and the lines for the interface. -/
structure LogBook (D : Type) where
  events : DayLog
  nmea : DayLog
  capture : CaptureBook D
  ui : List Text

namespace LogBook

variable (logsDir nmeaDir : D)

def start (eventOn nmeaOn : Bool) : LogBook D where
  events := .new eventOn
  nmea := .new nmeaOn
  capture := ⟨none, none, false⟩
  ui := []

/-- A notice is a line of the event log and of the interface. -/
def tell (book : LogBook D) (text : Text) (readings : LogReadings) : LogBook D :=
  let line := stamp readings.stampedAt text
  { book with
    events := book.events.write readings.noticeAt.date readings.noticeOpens line
    ui := book.ui ++ [line] }

/-- A roll-over is a notice, and a failure is told to the interface alone. -/
def notify (book : LogBook D) (event : SinkEvent) (readings : LogReadings) : LogBook D :=
  match event with
  | .none => book
  | .rolledTo name => book.tell ("Log rolled over to ".toList ++ name) readings
  | .failed message => { book with ui := book.ui ++ [stamp readings.stampedAt message] }

def emit (book : LogBook D) (text : Option Text) (readings : LogReadings) : LogBook D :=
  match text with
  | none => book
  | some text => book.tell text readings

/-- What a command means. -/
def handle (book : LogBook D) (cmd : LogCmd D) (readings : LogReadings) : LogBook D :=
  match cmd with
  | .event line =>
    { book with events := book.events.write readings.now.date readings.opens line }.notify
      (book.events.report display logsDir readings.now.date readings.opens) readings
  | .nmea line =>
    { book with nmea := book.nmea.write readings.now.date readings.opens line }.notify
      (book.nmea.report display nmeaDir readings.now.date readings.opens) readings
  | .setEventLog on => { book with events := book.events.setEnabled on }
  | .setNmeaLog on => { book with nmea := book.nmea.setEnabled on }
  | .captureBegin target mount =>
    let (capture, leftover) := book.capture.begin display target mount
    { book with capture }.emit leftover readings
  | .captureData bytes =>
    let (capture, notice) := book.capture.data display readings.now readings.opens bytes
    { book with capture }.emit notice readings
  | .captureEnd =>
    let (capture, receipt) := book.capture.endCapture display
    { book with capture }.emit receipt readings
  | .shutdown => book

/-- The end of the thread ends the capture. -/
def finish (book : LogBook D) (readings : LogReadings) : LogBook D :=
  let (capture, receipt) := book.capture.endCapture display
  { book with capture }.emit receipt readings

/-- What a turn of the loop means. Its clocks do not matter. -/
def turn (book : LogBook D) (t : LogTurn D) : LogBook D :=
  match t.received with
  | .command cmd => book.handle display logsDir nmeaDir cmd t.readings
  | _ => book

/-- What the turns of the thread mean. -/
def run (book : LogBook D) : List (LogTurn D) → LogBook D
  | [] => book
  | t :: rest =>
    if Logger.leaves t.received then book.finish display t.readings
    else run (book.turn display logsDir nmeaDir t) rest

end LogBook

end

/-! ## Captures and daily logs lie apart -/

section

variable {D : Type} (ignoresCase : Bool) (logsDir nmeaDir : D)

/-- A file is no daily file of the two logs. -/
def CaptureFile.Apart (file : CaptureFile D) : Prop :=
  ∀ date, file.identity ignoresCase ≠ ⟨logsDir, dailyFilename date⟩ ∧
    file.identity ignoresCase ≠ ⟨nmeaDir, dailyFilename date⟩

/-- An explicit file to capture to is no daily file. -/
def CaptureTarget.Apart : CaptureTarget D → Prop
  | .file explicit => explicit.Apart ignoresCase logsDir nmeaDir
  | .dir _ => True

/-- A capture has another extension than a daily file. -/
theorem capture_ne_daily (now : LocalStamp) (mount : Text) (date : LocalDate) :
    foldName ignoresCase (captureFilename now mount) ≠ dailyFilename date := by
  intro heq
  rw [fold_capture_filename] at heq
  have hlast := congrArg List.getLast? heq
  simp [dailyFilename, List.getLast?_append, List.getLast?_cons] at hlast

theorem path_apart {target : CaptureTarget D}
    (h : target.Apart ignoresCase logsDir nmeaDir) (now : LocalStamp) (mount : Text) :
    (target.path now mount).Apart ignoresCase logsDir nmeaDir := by
  cases target with
  | file explicit => exact h
  | dir parent =>
      intro date
      have hname := capture_ne_daily ignoresCase now mount date
      exact ⟨fun heq => hname (congrArg CaptureFile.name heq),
        fun heq => hname (congrArg CaptureFile.name heq)⟩

/-- What is armed, and what is open, is no daily file. -/
structure CaptureBook.Apart (book : CaptureBook D) : Prop where
  armed : ∀ target mount, book.armed = some (target, mount) →
    target.Apart ignoresCase logsDir nmeaDir
  opened : ∀ file count, book.opened = some (file, count) →
    file.Apart ignoresCase logsDir nmeaDir

/-- The daily files are as they were. -/
def Leaves (disk disk' : Disk D) : Prop :=
  ∀ date, disk' ⟨logsDir, dailyFilename date⟩ = disk ⟨logsDir, dailyFilename date⟩ ∧
    disk' ⟨nmeaDir, dailyFilename date⟩ = disk ⟨nmeaDir, dailyFilename date⟩

/-- What a capture sink says of itself. -/
def CaptureSink.book (sink : CaptureSink D) : CaptureBook D where
  armed := sink.armed
  opened := sink.opened.map fun capture => (capture.file, capture.count)
  failed := sink.failed

variable {ignoresCase logsDir nmeaDir}

/-- The file that is open is no daily file. -/
theorem opened_apart {sink : CaptureSink D} {capture : OpenCapture D}
    (h : sink.book.Apart ignoresCase logsDir nmeaDir) (hopened : sink.opened = some capture) :
    capture.file.Apart ignoresCase logsDir nmeaDir :=
  h.opened capture.file capture.count (by rw [CaptureSink.book, hopened]; rfl)

variable (display : CaptureFile D → Text)

theorem data_apart {book : CaptureBook D} (h : book.Apart ignoresCase logsDir nmeaDir)
    (now : LocalStamp) (opens : Except Text Unit) (bytes : Bytes) :
    (book.data display now opens bytes).1.Apart ignoresCase logsDir nmeaDir := by
  obtain ⟨armed, opened, failed⟩ := book
  cases opened with
  | some capture =>
      refine ⟨h.armed, fun file count heq => ?_⟩
      obtain ⟨rfl, -⟩ := Prod.mk.inj (Option.some.inj heq)
      exact h.opened capture.1 capture.2 rfl
  | none =>
      cases armed with
      | none => exact h
      | some armed =>
          cases failed with
          | true => exact h
          | false =>
              cases opens with
              | error error => exact ⟨h.armed, h.opened⟩
              | ok opened =>
                  refine ⟨h.armed, fun file count heq => ?_⟩
                  obtain ⟨rfl, -⟩ := Prod.mk.inj (Option.some.inj heq)
                  exact path_apart ignoresCase logsDir nmeaDir (h.armed armed.1 armed.2 rfl) now
                    armed.2

variable [DecidableEq D]

theorem append_leaves {file : CaptureFile D} (h : file.Apart ignoresCase logsDir nmeaDir)
    (disk : Disk D) (bytes : Bytes) :
    Leaves logsDir nmeaDir disk (disk.append ignoresCase file bytes) :=
  fun date => ⟨append_other (h date).1.symm bytes, append_other (h date).2.symm bytes⟩

/-- A call of the capture sink says what the book says, and leaves the daily files alone. -/
structure CaptureCall (ignoresCase : Bool) (logsDir nmeaDir : D) (disk : Disk D)
    (book : CaptureBook D) (after : CaptureSink D × Disk D) : Prop where
  agrees : after.1.book = book
  apart : book.Apart ignoresCase logsDir nmeaDir
  leaves : Leaves logsDir nmeaDir disk after.2

theorem end_capture_call {sink : CaptureSink D} (h : sink.book.Apart ignoresCase logsDir nmeaDir)
    (disk : Disk D) :
    let after := sink.endCapture ignoresCase display disk
    CaptureCall ignoresCase logsDir nmeaDir disk (sink.book.endCapture display).1
        (after.1, after.2.1) ∧
      after.2.2 = (sink.book.endCapture display).2 := by
  have hapart : (sink.book.endCapture display).1.Apart ignoresCase logsDir nmeaDir :=
    ⟨fun _ _ hnone => absurd hnone (by simp [CaptureBook.endCapture]),
      fun _ _ hnone => absurd hnone (by simp [CaptureBook.endCapture])⟩
  cases hopened : sink.opened with
  | none =>
      simp only [CaptureSink.endCapture, hopened]
      refine ⟨⟨?_, hapart, fun _ => ⟨rfl, rfl⟩⟩, ?_⟩
      · simp [CaptureSink.book, CaptureBook.endCapture, hopened]
      · simp [CaptureSink.book, CaptureBook.endCapture, hopened]
  | some capture =>
      simp only [CaptureSink.endCapture, hopened]
      refine ⟨⟨?_, hapart, append_leaves (opened_apart h hopened) disk _⟩, ?_⟩
      · rfl
      · simp [CaptureSink.book, CaptureBook.endCapture, hopened]

theorem begin_call {sink : CaptureSink D} (h : sink.book.Apart ignoresCase logsDir nmeaDir)
    (disk : Disk D) {target : CaptureTarget D} (htarget : target.Apart ignoresCase logsDir nmeaDir)
    (mount : Text) :
    let after := sink.begin ignoresCase display disk target mount
    CaptureCall ignoresCase logsDir nmeaDir disk (sink.book.begin display target mount).1
        (after.1, after.2.1) ∧
      after.2.2 = (sink.book.begin display target mount).2 := by
  obtain ⟨⟨hbook, hapart, hleaves⟩, hnotice⟩ := end_capture_call display h disk
  refine ⟨⟨?_, ⟨?_, hapart.opened⟩, hleaves⟩, hnotice⟩
  · exact congrArg (fun book : CaptureBook D =>
      { book with armed := some (target, mount), failed := false }) hbook
  · intro target' mount' harmed
    obtain ⟨rfl, rfl⟩ := Prod.mk.inj (Option.some.inj harmed)
    exact htarget

/-- A write to an open capture counts its bytes. -/
theorem write_call {sink : CaptureSink D} {capture : OpenCapture D}
    (hopened : sink.opened = some capture) (hapart : capture.file.Apart ignoresCase logsDir nmeaDir)
    (disk : Disk D) (bytes : Bytes) :
    (sink.write ignoresCase disk bytes).1.book =
        { sink.book with opened := some (capture.file, capture.count + bytes.length) } ∧
      Leaves logsDir nmeaDir disk (sink.write ignoresCase disk bytes).2 := by
  simp only [CaptureSink.write, hopened]
  exact ⟨rfl, append_leaves hapart disk _⟩

/-- Data is counted as the book says. -/
theorem data_call {sink : CaptureSink D} (h : sink.book.Apart ignoresCase logsDir nmeaDir)
    (disk : Disk D) (now : LocalStamp) (opens : Except Text Unit) (bytes : Bytes) :
    let after := sink.data ignoresCase display disk now opens bytes
    CaptureCall ignoresCase logsDir nmeaDir disk (sink.book.data display now opens bytes).1
        (after.1, after.2.1) ∧
      after.2.2 = (sink.book.data display now opens bytes).2 := by
  have hapart := data_apart display h now opens bytes
  obtain ⟨armed, opened, dirty, failed⟩ := sink
  cases opened with
  | some capture =>
      obtain ⟨hbook, hleaves⟩ := write_call
        (show CaptureSink.opened ⟨armed, some capture, dirty, failed⟩ = some capture from rfl)
        (h.opened capture.file capture.count rfl) disk bytes
      exact ⟨⟨hbook, hapart, hleaves⟩, rfl⟩
  | none =>
      cases armed with
      | none => exact ⟨⟨rfl, hapart, fun _ => ⟨rfl, rfl⟩⟩, rfl⟩
      | some armed =>
          obtain ⟨target, mount⟩ := armed
          cases failed with
          | true => exact ⟨⟨rfl, hapart, fun _ => ⟨rfl, rfl⟩⟩, rfl⟩
          | false =>
              cases opens with
              | error error => exact ⟨⟨rfl, hapart, fun _ => ⟨rfl, rfl⟩⟩, rfl⟩
              | ok opened =>
                  let file := target.path now mount
                  have hpath : file.Apart ignoresCase logsDir nmeaDir :=
                    path_apart ignoresCase logsDir nmeaDir (h.armed target mount rfl) now mount
                  obtain ⟨hbook, hleaves⟩ := write_call
                    (show CaptureSink.opened ⟨some (target, mount), some ⟨file, [], 0⟩, dirty,
                      false⟩ = some ⟨file, [], 0⟩ from rfl)
                    hpath (disk.create ignoresCase file) bytes
                  refine ⟨⟨?_, hapart, fun date => ?_⟩, ?_⟩
                  · refine hbook.trans ?_
                    show CaptureBook.mk _ (some (file, 0 + bytes.length)) _ = _
                    rw [Nat.zero_add]
                    rfl
                  · exact ⟨(hleaves date).1.trans (create_other (hpath date).1.symm),
                      (hleaves date).2.trans (create_other (hpath date).2.symm)⟩
                  · rfl

/-- A flush concerns the buffer of the capture only. -/
theorem flush_call {sink : CaptureSink D} (h : sink.book.Apart ignoresCase logsDir nmeaDir)
    (disk : Disk D) :
    CaptureCall ignoresCase logsDir nmeaDir disk sink.book (sink.flush ignoresCase disk) := by
  obtain ⟨armed, opened, dirty, failed⟩ := sink
  cases opened with
  | none =>
      rw [flush_idle disk rfl]
      exact ⟨rfl, h, fun _ => ⟨rfl, rfl⟩⟩
  | some capture =>
      cases dirty with
      | false => exact ⟨rfl, h, fun _ => ⟨rfl, rfl⟩⟩
      | true =>
          exact ⟨rfl, h, append_leaves (h.opened capture.file capture.count rfl) disk _⟩

end

/-! ## The thread follows the book -/

section

variable {D : Type} {ignoresCase : Bool} {before : Disk D} {logsDir nmeaDir : D}

/-- The logs, the capture and the lines for the interface are what the book says. -/
structure Kept (ignoresCase : Bool) (before : Disk D) (logsDir nmeaDir : D) (l : Logger D)
    (book : LogBook D) : Prop where
  events : Records before logsDir l.events l.disk book.events
  nmea : Records before nmeaDir l.nmea l.disk book.nmea
  capture : l.capture.book = book.capture
  apart : book.capture.Apart ignoresCase logsDir nmeaDir
  ui : l.ui = book.ui

/-- What is read and what is received does not lead a capture to a daily file. -/
def LogTurn.Apart (ignoresCase : Bool) (logsDir nmeaDir : D) (t : LogTurn D) : Prop :=
  ∀ target mount, t.received = .command (.captureBegin target mount) →
    target.Apart ignoresCase logsDir nmeaDir

theorem start_kept (before : Disk D) (eventOn nmeaOn : Bool) (now : Instant) :
    Kept ignoresCase before logsDir nmeaDir
      (.start logsDir nmeaDir eventOn nmeaOn now before) (.start eventOn nmeaOn) where
  events := new_records before logsDir eventOn
  nmea := new_records before nmeaDir nmeaOn
  capture := rfl
  apart := ⟨fun _ _ h => absurd h (by simp [LogBook.start]),
    fun _ _ h => absurd h (by simp [LogBook.start])⟩
  ui := rfl

/-- A daily file of one directory is none of another. -/
theorem daily_apart {dir other : D} (h : dir ≠ other) {disk disk' : Disk D}
    (hspares : Spares dir disk disk') (date : LocalDate) :
    disk' ⟨other, dailyFilename date⟩ = disk ⟨other, dailyFilename date⟩ :=
  hspares _ fun _ heq => h (congrArg CaptureFile.dir heq).symm

/-- A call of the capture sink leaves the logs alone. -/
theorem capture_kept {l : Logger D} {book : LogBook D}
    (h : Kept ignoresCase before logsDir nmeaDir l book)
    {capture : CaptureBook D} {after : CaptureSink D × Disk D}
    (hcall : CaptureCall ignoresCase logsDir nmeaDir l.disk capture after) :
    Kept ignoresCase before logsDir nmeaDir { l with capture := after.1, disk := after.2 }
      { book with capture } where
  events := h.events.frame fun date => (hcall.leaves date).1
  nmea := h.nmea.frame fun date => (hcall.leaves date).2
  capture := hcall.agrees
  apart := hcall.apart
  ui := h.ui

variable [DecidableEq D] (display : CaptureFile D → Text)

variable (hdirs : logsDir ≠ nmeaDir) {l : Logger D} {book : LogBook D}
include hdirs

/-- A line for the event log. -/
theorem write_event_kept (h : Kept ignoresCase before logsDir nmeaDir l book) (now : LocalStamp)
    (opens : Except Text Unit) (line : Text) :
    let after := l.writeEvent ignoresCase display now opens line
    Kept ignoresCase before logsDir nmeaDir after.1
        { book with events := book.events.write now.date opens line } ∧
      after.2 = book.events.report display logsDir now.date opens := by
  obtain ⟨hevents, hreport, hspares⟩ :=
    write_line_records ignoresCase display h.events now opens line
  exact ⟨⟨hevents, h.nmea.frame (daily_apart hdirs hspares), h.capture, h.apart, h.ui⟩, hreport⟩

theorem tell_kept (h : Kept ignoresCase before logsDir nmeaDir l book) (text : Text)
    (readings : LogReadings) :
    Kept ignoresCase before logsDir nmeaDir (l.tell ignoresCase display text readings)
      (book.tell text readings) := by
  obtain ⟨hkept, -⟩ := write_event_kept display hdirs h readings.noticeAt readings.noticeOpens
    (stamp readings.stampedAt text)
  exact ⟨hkept.events, hkept.nmea, hkept.capture, hkept.apart,
    congrArg (· ++ [stamp readings.stampedAt text]) hkept.ui⟩

theorem notify_kept (h : Kept ignoresCase before logsDir nmeaDir l book) (event : SinkEvent)
    (readings : LogReadings) :
    Kept ignoresCase before logsDir nmeaDir (l.notify ignoresCase display event readings)
      (book.notify event readings) := by
  cases event with
  | none => exact h
  | rolledTo name => exact tell_kept display hdirs h _ readings
  | failed message =>
      exact ⟨h.events, h.nmea, h.capture, h.apart,
        congrArg (· ++ [stamp readings.stampedAt message]) h.ui⟩

theorem emit_kept (h : Kept ignoresCase before logsDir nmeaDir l book) (text : Option Text)
    (readings : LogReadings) :
    Kept ignoresCase before logsDir nmeaDir (l.emit ignoresCase display text readings)
      (book.emit text readings) := by
  cases text with
  | none => exact h
  | some text => exact tell_kept display hdirs h text readings

/-- Each command does what it means. -/
theorem handle_kept (h : Kept ignoresCase before logsDir nmeaDir l book) (cmd : LogCmd D)
    (hcmd : ∀ target mount, cmd = .captureBegin target mount →
      target.Apart ignoresCase logsDir nmeaDir) (readings : LogReadings) :
    Kept ignoresCase before logsDir nmeaDir (l.handle ignoresCase display cmd readings)
      (book.handle display logsDir nmeaDir cmd readings) := by
  have hapart : l.capture.book.Apart ignoresCase logsDir nmeaDir := h.capture ▸ h.apart
  cases cmd with
  | event line =>
      obtain ⟨hkept, hreport⟩ :=
        write_event_kept display hdirs h readings.now readings.opens line
      have hnotified := notify_kept display hdirs hkept
        (l.writeEvent ignoresCase display readings.now readings.opens line).2 readings
      rw [hreport] at hnotified
      simp only [Logger.handle, hreport]
      exact hnotified
  | nmea line =>
      obtain ⟨hnmea, hreport, hspares⟩ :=
        write_line_records ignoresCase display h.nmea readings.now readings.opens line
      have hkept : Kept ignoresCase before logsDir nmeaDir
          { l with
            nmea := (l.nmea.writeLine ignoresCase display l.disk readings.now readings.opens
              line).1
            disk := (l.nmea.writeLine ignoresCase display l.disk readings.now readings.opens
              line).2.1 }
          { book with nmea := book.nmea.write readings.now.date readings.opens line } :=
        ⟨h.events.frame (daily_apart hdirs.symm hspares), hnmea, h.capture, h.apart, h.ui⟩
      have hnotified := notify_kept display hdirs hkept
        (book.nmea.report display nmeaDir readings.now.date readings.opens) readings
      rw [← hreport] at hnotified
      simp only [LogBook.handle, ← hreport]
      exact hnotified
  | setEventLog on =>
      obtain ⟨hevents, hspares⟩ := set_enabled_records ignoresCase h.events on
      exact ⟨hevents, h.nmea.frame (daily_apart hdirs hspares), h.capture, h.apart, h.ui⟩
  | setNmeaLog on =>
      obtain ⟨hnmea, hspares⟩ := set_enabled_records ignoresCase h.nmea on
      exact ⟨h.events.frame (daily_apart hdirs.symm hspares), hnmea, h.capture, h.apart, h.ui⟩
  | captureBegin target mount =>
      obtain ⟨hcall, hnotice⟩ := begin_call display hapart l.disk (hcmd target mount rfl) mount
      have hemitted := emit_kept display hdirs (capture_kept h hcall)
        (l.capture.begin ignoresCase display l.disk target mount).2.2 readings
      rw [hnotice, h.capture] at hemitted
      simp only [Logger.handle, hnotice, h.capture]
      exact hemitted
  | captureData bytes =>
      obtain ⟨hcall, hnotice⟩ :=
        data_call display hapart l.disk readings.now readings.opens bytes
      have hemitted := emit_kept display hdirs (capture_kept h hcall)
        (l.capture.data ignoresCase display l.disk readings.now readings.opens bytes).2.2 readings
      rw [hnotice, h.capture] at hemitted
      simp only [Logger.handle, hnotice, h.capture]
      exact hemitted
  | captureEnd =>
      obtain ⟨hcall, hnotice⟩ := end_capture_call display hapart l.disk
      have hemitted := emit_kept display hdirs (capture_kept h hcall)
        (l.capture.endCapture ignoresCase display l.disk).2.2 readings
      rw [hnotice, h.capture] at hemitted
      simp only [Logger.handle, hnotice, h.capture]
      exact hemitted
  | shutdown => exact h

/-- A turn that flushes leaves both logs complete. -/
theorem flush_all_kept (h : Kept ignoresCase before logsDir nmeaDir l book) :
    Kept ignoresCase before logsDir nmeaDir (l.flushAll ignoresCase) book ∧
      Complete before logsDir (l.flushAll ignoresCase).disk book.events ∧
      Complete before nmeaDir (l.flushAll ignoresCase).disk book.nmea := by
  obtain ⟨hevents, hcomplete, hspares, -⟩ := flush_records ignoresCase h.events
  have hframed := h.nmea.frame (daily_apart hdirs hspares)
  obtain ⟨hnmea, hcomplete', hspares', -⟩ := flush_records ignoresCase hframed
  have hcall := flush_call (h.capture ▸ h.apart)
    (l.nmea.flush ignoresCase (l.events.flush ignoresCase l.disk).2).2
  have hsame : ∀ date, (l.flushAll ignoresCase).disk ⟨logsDir, dailyFilename date⟩ =
      (l.events.flush ignoresCase l.disk).2 ⟨logsDir, dailyFilename date⟩ :=
    fun date => (hcall.leaves date).1.trans (daily_apart hdirs.symm hspares' date)
  refine ⟨⟨hevents.frame hsame, hnmea.frame fun date => (hcall.leaves date).2,
    hcall.agrees.trans h.capture, h.apart, h.ui⟩, ?_, ?_⟩
  · intro date
    exact (hsame date).trans (hcomplete date)
  · intro date
    exact (hcall.leaves date).2.trans (hcomplete' date)

/-- The end of the thread leaves both logs complete. -/
theorem finish_kept (h : Kept ignoresCase before logsDir nmeaDir l book)
    (readings : LogReadings) :
    Kept ignoresCase before logsDir nmeaDir (l.finish ignoresCase display readings)
        (book.finish display readings) ∧
      Complete before logsDir (l.finish ignoresCase display readings).disk
        (book.finish display readings).events ∧
      Complete before nmeaDir (l.finish ignoresCase display readings).disk
        (book.finish display readings).nmea := by
  obtain ⟨hcall, hnotice⟩ := end_capture_call display (h.capture ▸ h.apart) l.disk
  have hemitted := emit_kept display hdirs (capture_kept h hcall)
    (l.capture.endCapture ignoresCase display l.disk).2.2 readings
  rw [hnotice, h.capture] at hemitted
  simp only [Logger.finish, hnotice, h.capture]
  obtain ⟨hevents, hcomplete, hspares, -⟩ := flush_records ignoresCase hemitted.events
  have hframed := hemitted.nmea.frame (daily_apart hdirs hspares)
  obtain ⟨hnmea, hcomplete', hspares', -⟩ := flush_records ignoresCase hframed
  refine ⟨⟨hevents.frame (daily_apart hdirs.symm hspares'), hnmea, hemitted.capture,
    hemitted.apart, hemitted.ui⟩, ?_, hcomplete'⟩
  intro date
  exact (daily_apart hdirs.symm hspares' date).trans (hcomplete date)

theorem receive_kept (h : Kept ignoresCase before logsDir nmeaDir l book) {t : LogTurn D}
    (ht : t.Apart ignoresCase logsDir nmeaDir) :
    Kept ignoresCase before logsDir nmeaDir (l.receive ignoresCase display t)
      (book.turn display logsDir nmeaDir t) := by
  obtain ⟨received, readings, clock, clockAfter⟩ := t
  cases received with
  | command cmd =>
      refine handle_kept display hdirs h cmd ?_ readings
      rintro target mount rfl
      exact ht target mount rfl
  | disconnected => exact h
  | timeout => exact h

/-- A turn does what it means, and leaves both logs complete if its deadline has passed. -/
theorem turn_kept (h : Kept ignoresCase before logsDir nmeaDir l book) {t : LogTurn D}
    (ht : t.Apart ignoresCase logsDir nmeaDir) :
    Kept ignoresCase before logsDir nmeaDir (l.turn ignoresCase display t)
        (book.turn display logsDir nmeaDir t) ∧
      ((l.receive ignoresCase display t).nextFlush ≤ t.clock →
        Complete before logsDir (l.turn ignoresCase display t).disk
            (book.turn display logsDir nmeaDir t).events ∧
          Complete before nmeaDir (l.turn ignoresCase display t).disk
            (book.turn display logsDir nmeaDir t).nmea) := by
  have hreceived := receive_kept display hdirs h ht
  rw [Logger.turn]
  split
  · obtain ⟨hkept, hcomplete⟩ := flush_all_kept hdirs hreceived
    exact ⟨⟨hkept.events, hkept.nmea, hkept.capture, hkept.apart, hkept.ui⟩, fun _ => hcomplete⟩
  · next hlate => exact ⟨hreceived, fun hdue => absurd hdue hlate⟩

/-- After every run the thread has done what the turns mean. Once it has ended, both logs are
complete. -/
theorem run_kept (h : Kept ignoresCase before logsDir nmeaDir l book) (turns : List (LogTurn D))
    (hturns : ∀ t ∈ turns, t.Apart ignoresCase logsDir nmeaDir) :
    Kept ignoresCase before logsDir nmeaDir (l.run ignoresCase display turns)
        (book.run display logsDir nmeaDir turns) ∧
      ((turns.any fun t => Logger.leaves t.received) = true →
        Complete before logsDir (l.run ignoresCase display turns).disk
            (book.run display logsDir nmeaDir turns).events ∧
          Complete before nmeaDir (l.run ignoresCase display turns).disk
            (book.run display logsDir nmeaDir turns).nmea) := by
  induction turns generalizing l book with
  | nil => exact ⟨h, fun hany => absurd hany (by simp)⟩
  | cons t rest ih =>
      rw [Logger.run, LogBook.run]
      cases hleaves : Logger.leaves t.received with
      | true =>
          obtain ⟨hkept, hcomplete⟩ := finish_kept display hdirs h t.readings
          exact ⟨hkept, fun _ => hcomplete⟩
      | false =>
          obtain ⟨hkept, -⟩ := turn_kept display hdirs h (hturns t List.mem_cons_self)
          rw [List.any_cons, hleaves, Bool.false_or]
          exact ih hkept fun u hu => hturns u (List.mem_cons_of_mem _ hu)

end

end OpenNtrip
