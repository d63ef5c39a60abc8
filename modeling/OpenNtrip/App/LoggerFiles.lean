import OpenNtrip.App.Logger

/-!
# The files of the logger thread

What the thread leaves on the disk. A line that was taken before a flush stays on the disk through
whatever follows (`flushed_stays`), and the captures of the thread are lossless beside its logs
(`thread_captures`).
-/

namespace OpenNtrip

/-! ## Files only grow -/

section

variable {D : Type} [DecidableEq D] (ignoresCase : Bool)

/-- No file loses what it held. -/
def Grows (disk disk' : Disk D) : Prop :=
  ∀ file, (disk file).getD [] <+: (disk' file).getD []

omit [DecidableEq D] in
theorem Grows.trans {disk disk' disk'' : Disk D} (h : Grows disk disk')
    (h' : Grows disk' disk'') : Grows disk disk'' :=
  fun file => (h file).trans (h' file)

omit [DecidableEq D] in
theorem grows_self (disk : Disk D) : Grows disk disk := fun _ => List.prefix_refl _

/-- Bytes are appended behind what a file holds. -/
theorem append_grows (disk : Disk D) (file : CaptureFile D) (bytes : Bytes) :
    Grows disk (disk.append ignoresCase file bytes) := by
  intro other
  by_cases h : other = file.identity ignoresCase
  · rw [h]
    show _ <+: (Function.update disk _ _ _).getD []
    rw [Function.update_self]
    exact List.prefix_append _ _
  · simp only [append_other h, List.prefix_refl]

/-- Opening for append changes no content. -/
theorem open_append_grows (disk : Disk D) (file : CaptureFile D) :
    Grows disk (disk.openAppend ignoresCase file) := by
  intro other
  by_cases h : other = file.identity ignoresCase
  · rw [h]
    show _ <+: (Function.update disk _ _ _).getD []
    rw [Function.update_self]
    exact List.prefix_refl _
  · simp only [Disk.openAppend, Function.update_of_ne h, List.prefix_refl]

namespace DailySink

/-- A flush appends what is buffered. -/
theorem flush_grows (sink : DailySink D) (disk : Disk D) :
    Grows disk (sink.flush ignoresCase disk).2 := by
  unfold flush
  split
  · exact append_grows ignoresCase disk _ _
  · exact grows_self disk

/-- A line is buffered, and what no longer fits is appended. -/
theorem write_grows (sink : DailySink D) (disk : Disk D) (line : Text) :
    Grows disk (sink.write ignoresCase disk line).2 := by
  unfold write
  split
  · exact grows_self disk
  · exact (append_grows ignoresCase disk _ _).trans (append_grows ignoresCase _ _ _)

/-- Turning a log on or off takes nothing from a file. -/
theorem set_enabled_grows (sink : DailySink D) (disk : Disk D) (enabled : Bool) :
    Grows disk (sink.setEnabled ignoresCase disk enabled).2 := by
  cases enabled with
  | true => exact grows_self disk
  | false => exact flush_grows ignoresCase { sink with enabled := false } disk

/-- A line takes nothing from a file, even where it is the first of another day. -/
theorem write_line_grows (display : CaptureFile D → Text) (sink : DailySink D) (disk : Disk D)
    (now : LocalStamp) (opens : Except Text Unit) (line : Text) :
    Grows disk (sink.writeLine ignoresCase display disk now opens line).2.1 := by
  unfold writeLine
  split
  · split
    · exact write_grows ignoresCase sink disk line
    · have hflush := flush_grows ignoresCase sink disk
      cases opens with
      | ok opened =>
          unfold reopen
          exact (hflush.trans (open_append_grows ignoresCase _ _)).trans
            (write_grows ignoresCase _ _ line)
      | error error =>
          unfold reopen
          simp only
          split
          · exact hflush
          · exact hflush
  · exact grows_self disk

end DailySink

end

/-! ## What was flushed stays -/

section

variable {D : Type} {ignoresCase : Bool} {before : Disk D} {logsDir nmeaDir : D}

/-- The daily files do not lose what they held. -/
def DailyGrows (logsDir nmeaDir : D) (disk disk' : Disk D) : Prop :=
  ∀ date, (disk ⟨logsDir, dailyFilename date⟩).getD [] <+:
      (disk' ⟨logsDir, dailyFilename date⟩).getD [] ∧
    (disk ⟨nmeaDir, dailyFilename date⟩).getD [] <+:
      (disk' ⟨nmeaDir, dailyFilename date⟩).getD []

theorem DailyGrows.trans {disk disk' disk'' : Disk D} (h : DailyGrows logsDir nmeaDir disk disk')
    (h' : DailyGrows logsDir nmeaDir disk' disk'') : DailyGrows logsDir nmeaDir disk disk'' :=
  fun date => ⟨(h date).1.trans (h' date).1, (h date).2.trans (h' date).2⟩

theorem daily_self (disk : Disk D) : DailyGrows logsDir nmeaDir disk disk :=
  fun _ => ⟨List.prefix_refl _, List.prefix_refl _⟩

/-- A disk that grows keeps what the daily logs hold. -/
theorem Grows.daily {disk disk' : Disk D} (h : Grows disk disk') :
    DailyGrows logsDir nmeaDir disk disk' :=
  fun _ => ⟨h _, h _⟩

theorem Leaves.daily {disk disk' : Disk D} (h : Leaves logsDir nmeaDir disk disk') :
    DailyGrows logsDir nmeaDir disk disk' :=
  fun date => ⟨(h date).1.symm ▸ List.prefix_refl _, (h date).2.symm ▸ List.prefix_refl _⟩

variable [DecidableEq D] (display : CaptureFile D → Text)

variable {disk : Disk D} {l : Logger D} {book : LogBook D}

/-- What is told to the event log keeps the daily logs. -/
theorem tell_daily (h : DailyGrows logsDir nmeaDir disk l.disk) (text : Text)
    (readings : LogReadings) :
    DailyGrows logsDir nmeaDir disk (l.tell ignoresCase display text readings).disk :=
  h.trans (l.events.write_line_grows ignoresCase display l.disk readings.noticeAt
    readings.noticeOpens (stamp readings.stampedAt text)).daily

/-- So does what is told of a sink. -/
theorem notify_daily (h : DailyGrows logsDir nmeaDir disk l.disk) (event : SinkEvent)
    (readings : LogReadings) :
    DailyGrows logsDir nmeaDir disk (l.notify ignoresCase display event readings).disk := by
  cases event with
  | none => exact h
  | rolledTo name => exact tell_daily display h _ readings
  | failed message => exact h

/-- So does a line for the log and the window. -/
theorem emit_daily (h : DailyGrows logsDir nmeaDir disk l.disk) (text : Option Text)
    (readings : LogReadings) :
    DailyGrows logsDir nmeaDir disk (l.emit ignoresCase display text readings).disk := by
  cases text with
  | none => exact h
  | some text => exact tell_daily display h text readings

/-- A command keeps the daily logs, if a capture does not go into one. -/
theorem handle_daily (h : Kept ignoresCase before logsDir nmeaDir l book) (cmd : LogCmd D)
    (hcmd : ∀ target mount, cmd = .captureBegin target mount →
      target.Apart ignoresCase logsDir nmeaDir) (readings : LogReadings) :
    DailyGrows logsDir nmeaDir l.disk (l.handle ignoresCase display cmd readings).disk := by
  have hapart : l.capture.book.Apart ignoresCase logsDir nmeaDir := h.capture ▸ h.apart
  cases cmd with
  | event line =>
      have hwrite := l.events.write_line_grows ignoresCase display l.disk readings.now
        readings.opens line
      simp only [Logger.handle]
      refine notify_daily display ?_ _ readings
      exact hwrite.daily
  | nmea line =>
      have hwrite := l.nmea.write_line_grows ignoresCase display l.disk readings.now
        readings.opens line
      simp only [Logger.handle]
      refine notify_daily display ?_ _ readings
      exact hwrite.daily
  | setEventLog on => exact (l.events.set_enabled_grows ignoresCase l.disk on).daily
  | setNmeaLog on => exact (l.nmea.set_enabled_grows ignoresCase l.disk on).daily
  | captureBegin target mount =>
      obtain ⟨hcall, -⟩ := begin_call display hapart l.disk (hcmd target mount rfl) mount
      simp only [Logger.handle]
      refine emit_daily display ?_ _ readings
      exact hcall.leaves.daily
  | captureData bytes =>
      obtain ⟨hcall, -⟩ := data_call display hapart l.disk readings.now readings.opens bytes
      simp only [Logger.handle]
      refine emit_daily display ?_ _ readings
      exact hcall.leaves.daily
  | captureEnd =>
      obtain ⟨hcall, -⟩ := end_capture_call display hapart l.disk
      simp only [Logger.handle]
      refine emit_daily display ?_ _ readings
      exact hcall.leaves.daily
  | shutdown => exact daily_self l.disk

/-- A turn keeps the daily logs. -/
theorem turn_daily (h : Kept ignoresCase before logsDir nmeaDir l book) (hdirs : logsDir ≠ nmeaDir)
    {t : LogTurn D} (ht : t.Apart ignoresCase logsDir nmeaDir) :
    DailyGrows logsDir nmeaDir l.disk (l.turn ignoresCase display t).disk := by
  have hreceived : DailyGrows logsDir nmeaDir l.disk (l.receive ignoresCase display t).disk := by
    obtain ⟨received, readings, clock, clockAfter⟩ := t
    cases received with
    | command cmd =>
        refine handle_daily display h cmd ?_ readings
        rintro target mount rfl
        exact ht target mount rfl
    | disconnected => exact daily_self l.disk
    | timeout => exact daily_self l.disk
  have hkept := receive_kept display hdirs h ht
  rw [Logger.turn]
  split
  · generalize l.receive ignoresCase display t = received at hreceived hkept
    have hevents := received.events.flush_grows ignoresCase received.disk
    have hnmea := received.nmea.flush_grows ignoresCase
      (received.events.flush ignoresCase received.disk).2
    have hcapture := flush_call (hkept.capture ▸ hkept.apart)
      (received.nmea.flush ignoresCase (received.events.flush ignoresCase received.disk).2).2
    exact ((hreceived.trans hevents.daily).trans hnmea.daily).trans hcapture.leaves.daily
  · exact hreceived

/-- Turns keep the daily logs, so that nothing written is taken back. -/
theorem run_daily (h : Kept ignoresCase before logsDir nmeaDir l book) (hdirs : logsDir ≠ nmeaDir)
    (turns : List (LogTurn D)) (hturns : ∀ t ∈ turns, t.Apart ignoresCase logsDir nmeaDir) :
    DailyGrows logsDir nmeaDir l.disk (l.run ignoresCase display turns).disk := by
  induction turns generalizing l book with
  | nil => exact daily_self l.disk
  | cons t rest ih =>
      rw [Logger.run]
      split
      · obtain ⟨hcall, -⟩ := end_capture_call display (h.capture ▸ h.apart) l.disk
        simp only [Logger.finish]
        refine DailyGrows.trans (DailyGrows.trans ?_ (DailySink.flush_grows ignoresCase _ _).daily)
          (DailySink.flush_grows ignoresCase _ _).daily
        refine emit_daily display ?_ _ t.readings
        exact hcall.leaves.daily
      · have ht := hturns t List.mem_cons_self
        obtain ⟨hkept, -⟩ := turn_kept display hdirs h ht
        exact (turn_daily display h hdirs ht).trans
          (ih hkept fun u hu => hturns u (List.mem_cons_of_mem _ hu))

/-- As long as no turn ends the loop, the turns after it go on from where it is. -/
theorem run_append (l : Logger D) {first : List (LogTurn D)}
    (hfirst : ∀ t ∈ first, Logger.leaves t.received = false) (rest : List (LogTurn D)) :
    l.run ignoresCase display (first ++ rest) =
      (l.run ignoresCase display first).run ignoresCase display rest := by
  induction first generalizing l with
  | nil => rfl
  | cons t first ih =>
      have ht := hfirst t List.mem_cons_self
      rw [List.cons_append, Logger.run, Logger.run, ht]
      exact ih _ fun u hu => hfirst u (List.mem_cons_of_mem _ hu)

omit [DecidableEq D] in
/-- The book of turns in a row is kept in a row, up to the one that leaves. -/
theorem book_run_append (book : LogBook D) {first : List (LogTurn D)}
    (hfirst : ∀ t ∈ first, Logger.leaves t.received = false) (rest : List (LogTurn D)) :
    book.run display logsDir nmeaDir (first ++ rest) =
      (book.run display logsDir nmeaDir first).run display logsDir nmeaDir rest := by
  induction first generalizing book with
  | nil => rfl
  | cons t first ih =>
      have ht := hfirst t List.mem_cons_self
      rw [List.cons_append, LogBook.run, LogBook.run, ht]
      exact ih _ fun u hu => hfirst u (List.mem_cons_of_mem _ hu)

/-- No command sets the deadline. -/
theorem receive_next_flush (l : Logger D) (t : LogTurn D) :
    (l.receive ignoresCase display t).nextFlush = l.nextFlush := by
  have hnotify : ∀ (l : Logger D) (event : SinkEvent) (readings : LogReadings),
      (l.notify ignoresCase display event readings).nextFlush = l.nextFlush := by
    intro l event readings
    cases event with
    | none => rfl
    | rolledTo name => rfl
    | failed message => rfl
  have hemit : ∀ (l : Logger D) (text : Option Text) (readings : LogReadings),
      (l.emit ignoresCase display text readings).nextFlush = l.nextFlush := by
    intro l text readings
    cases text with
    | none => rfl
    | some text => rfl
  obtain ⟨received, readings, clock, clockAfter⟩ := t
  cases received with
  | command cmd =>
      cases cmd with
      | event line => exact hnotify _ _ readings
      | nmea line => exact hnotify _ _ readings
      | setEventLog on => rfl
      | setNmeaLog on => rfl
      | captureBegin target mount => exact hemit _ _ readings
      | captureData bytes => exact hemit _ _ readings
      | captureEnd => exact hemit _ _ readings
      | shutdown => rfl
  | disconnected => rfl
  | timeout => rfl

/-- The deadline is no more than the interval behind the latest clock. -/
theorem next_flush_le {latest : Instant} (hl : l.nextFlush ≤ latest + FLUSH_INTERVAL)
    {turns : List (LogTurn D)} (hloop : ∀ t ∈ turns, Logger.leaves t.received = false)
    (hclock : ∀ t ∈ turns, t.clockAfter ≤ latest) :
    (l.run ignoresCase display turns).nextFlush ≤ latest + FLUSH_INTERVAL := by
  induction turns generalizing l with
  | nil => exact hl
  | cons t rest ih =>
      rw [Logger.run, hloop t List.mem_cons_self]
      refine ih ?_ (fun u hu => hloop u (List.mem_cons_of_mem _ hu))
        (fun u hu => hclock u (List.mem_cons_of_mem _ hu))
      rw [Logger.turn]
      split
      · exact Nat.add_le_add_right (hclock t List.mem_cons_self) _
      · exact (receive_next_flush display l t).trans_le hl

variable (ignoresCase) in
/-- A line that was taken is on the disk after a turn whose clock reads the interval more than the
turns before it, behind what its file held and the lines of its date before it. There it stays,
whatever follows, and however the thread is cut off. -/
theorem flushed_stays (hdirs : logsDir ≠ nmeaDir) (before : Disk D) (eventOn nmeaOn : Bool)
    {started latest : Instant} (hstarted : started ≤ latest) (first : List (LogTurn D))
    (due : LogTurn D) (later : List (LogTurn D))
    (hloop : ∀ t ∈ first ++ [due], Logger.leaves t.received = false)
    (hapart : ∀ t ∈ first ++ due :: later, t.Apart ignoresCase logsDir nmeaDir)
    (hclock : ∀ t ∈ first, t.clockAfter ≤ latest) (hdue : latest + FLUSH_INTERVAL ≤ due.clock) :
    let disk := ((Logger.start logsDir nmeaDir eventOn nmeaOn started before).run ignoresCase
      display (first ++ due :: later)).disk
    let book := (LogBook.start eventOn nmeaOn).run display logsDir nmeaDir (first ++ [due])
    ∀ date, (before ⟨logsDir, dailyFilename date⟩).getD [] ++ book.events.bytesOf date <+:
          (disk ⟨logsDir, dailyFilename date⟩).getD [] ∧
        (before ⟨nmeaDir, dailyFilename date⟩).getD [] ++ book.nmea.bytesOf date <+:
          (disk ⟨nmeaDir, dailyFilename date⟩).getD [] := by
  have hfirst : ∀ t ∈ first, Logger.leaves t.received = false :=
    fun t ht => hloop t (List.mem_append_left _ ht)
  have hlast : Logger.leaves due.received = false := hloop due (by simp)
  have hmem : ∀ t ∈ first, t ∈ first ++ due :: later := fun t ht => List.mem_append_left _ ht
  have hstart : Kept ignoresCase before logsDir nmeaDir
      (.start logsDir nmeaDir eventOn nmeaOn started before) (.start eventOn nmeaOn) :=
    start_kept before eventOn nmeaOn started
  obtain ⟨hkept, -⟩ := run_kept display hdirs hstart first fun t ht => hapart t (hmem t ht)
  obtain ⟨hturned, hcomplete⟩ := turn_kept display hdirs hkept (hapart due (by simp))
  have hdeadline : ((Logger.start logsDir nmeaDir eventOn nmeaOn started before).run ignoresCase
      display first).nextFlush ≤ latest + FLUSH_INTERVAL :=
    next_flush_le display (Nat.add_le_add_right hstarted FLUSH_INTERVAL) hfirst hclock
  rw [receive_next_flush] at hcomplete
  obtain ⟨hevents, hnmea⟩ := hcomplete (hdeadline.trans hdue)
  have hstays := run_daily display hturned hdirs later fun t ht => hapart t (by simp [ht])
  have hfull : ∀ (log : DayLog) (file : Option Bytes) (date : LocalDate),
      (log.content file date).getD [] = file.getD [] ++ log.bytesOf date := by
    intro log file date
    rw [DayLog.content]
    split
    · next hnone => rw [hnone, List.append_nil]
    · rfl
  intro disk book date
  have hbook : book = ((LogBook.start eventOn nmeaOn).run display logsDir nmeaDir first).turn
      display logsDir nmeaDir due := by
    show LogBook.run _ _ _ _ (first ++ [due]) = _
    rw [book_run_append display _ hfirst, LogBook.run, hlast]
    rfl
  have hdisk : disk = ((((Logger.start logsDir nmeaDir eventOn nmeaOn started before).run
      ignoresCase display first).turn ignoresCase display due).run ignoresCase display
        later).disk := by
    show (Logger.run _ _ _ (first ++ due :: later)).disk = _
    rw [run_append display _ hfirst, Logger.run, hlast]
    rfl
  rw [hbook, hdisk, ← hfull, ← hfull, ← hevents date, ← hnmea date]
  exact hstays date

end

/-! ## The captures of the thread -/

section

variable {D : Type} {ignoresCase : Bool} {before : Disk D} {logsDir nmeaDir : D}
  {display : CaptureFile D → Text}

/-- What a turn is for the captures. -/
def LogTurn.captureEvent (t : LogTurn D) : Option (CaptureEvent D) :=
  match t.received with
  | .command (.captureBegin (.dir dir) mount) => some (.begin dir mount)
  | .command (.captureData bytes) => some (.data bytes t.readings.now)
  | .command .captureEnd => some .endCapture
  | _ => none

/-- What a turn is for the connections. -/
def CaptureHistory.after (h : CaptureHistory D) (t : LogTurn D) : CaptureHistory D :=
  match t.captureEvent with
  | some event => h.next event
  | none => h

/-- Captures go to directories, and their files open. -/
structure LogTurn.CapturesOpen (t : LogTurn D) : Prop where
  dir : ∀ target mount, t.received = .command (.captureBegin target mount) →
    ∃ dir, target = .dir dir
  opens : ∀ bytes, t.received = .command (.captureData bytes) → t.readings.opens = .ok ()

/-- The connections of the turns up to the end of the thread, which ends the last one. -/
def captured (h : CaptureHistory D) : List (LogTurn D) → CaptureHistory D
  | [] => h
  | t :: rest =>
    if Logger.leaves t.received then h.close
    else captured (h.after t) rest

/-- The capture is what the connections say, and the receipt of each that ended was told. -/
structure Captured (ignoresCase : Bool) (display : CaptureFile D → Text) (h : CaptureHistory D)
    (l : Logger D) : Prop where
  follows : Follows ignoresCase display h
    ⟨l.capture, l.disk, h.ended.map fun c => CaptureSink.receipt display c.file c.bytes.length⟩
  told : ∀ c ∈ h.ended, ∃ t,
    stamp t (CaptureSink.receipt display c.file c.bytes.length) ∈ l.ui

/-- The files of captures are as they were. -/
def KeepsCaptures (ignoresCase : Bool) (disk disk' : Disk D) : Prop :=
  ∀ c : Connection D, disk' (c.file.identity ignoresCase) = disk (c.file.identity ignoresCase)

/-- What spares all but one directory keeps the captures. -/
theorem Spares.captures {dir : D} {disk disk' : Disk D} (h : Spares dir disk disk') :
    KeepsCaptures ignoresCase disk disk' := by
  intro c
  refine h _ fun date heq => ?_
  exact capture_ne_daily ignoresCase c.stamp c.mount date (congrArg CaptureFile.name heq)

theorem KeepsCaptures.trans {disk disk' disk'' : Disk D}
    (h : KeepsCaptures ignoresCase disk disk') (h' : KeepsCaptures ignoresCase disk' disk'') :
    KeepsCaptures ignoresCase disk disk'' :=
  fun c => (h' c).trans (h c)

/-- What happens to other files does not concern the captures. -/
theorem Follows.frame {h : CaptureHistory D} {run : CaptureRun D}
    (hfollows : Follows ignoresCase display h run) {disk : Disk D}
    (hkeeps : KeepsCaptures ignoresCase run.disk disk) :
    Follows ignoresCase display h ⟨run.sink, disk, run.receipts⟩ where
  armed := hfollows.armed
  failed := hfollows.failed
  idle := hfollows.idle
  captures := by
    intro c hc
    obtain ⟨written, pending, hopened, hdisk, hbytes⟩ := (hfollows.captures c hc).content
    exact ⟨written, pending, hopened, (hkeeps c).trans hdisk, hbytes⟩
  receipts := hfollows.receipts
  keeps := fun hdistinct c hc => (hkeeps c).trans (hfollows.keeps hdistinct c hc)

/-- A step of the captures whose new receipts are told. -/
theorem captured_of_follows {h h' : CaptureHistory D} {l l' : Logger D} {run : CaptureRun D}
    {new : List Text} {t : LocalStamp} (hcaptured : Captured ignoresCase display h l)
    (hfollows : Follows ignoresCase display h' run)
    (hreceipts : run.receipts = (h.ended.map fun c =>
      CaptureSink.receipt display c.file c.bytes.length) ++ new)
    (hsink : l'.capture = run.sink) (hkeeps : KeepsCaptures ignoresCase run.disk l'.disk)
    (hui : ∀ line ∈ l.ui, line ∈ l'.ui) (hnew : ∀ text ∈ new, stamp t text ∈ l'.ui) :
    Captured ignoresCase display h' l' := by
  have hrun := hfollows.frame hkeeps
  rw [hfollows.receipts] at hrun hreceipts
  rw [← hsink] at hrun
  refine ⟨hrun, fun c hc => ?_⟩
  have hmem := List.mem_map_of_mem
    (f := fun c : Connection D => CaptureSink.receipt display c.file c.bytes.length) hc
  rw [hreceipts] at hmem
  rcases List.mem_append.mp hmem with hmem | hmem
  · obtain ⟨c', hc', heq⟩ := List.mem_map.mp hmem
    obtain ⟨told, htold⟩ := hcaptured.told c' hc'
    exact ⟨told, hui _ (heq ▸ htold)⟩
  · exact ⟨t, hnew _ hmem⟩

/-- What does not concern the captures. -/
theorem Captured.frame {h : CaptureHistory D} {l l' : Logger D}
    (hcaptured : Captured ignoresCase display h l) (hcapture : l'.capture = l.capture)
    (hkeeps : KeepsCaptures ignoresCase l.disk l'.disk) (hui : ∀ line ∈ l.ui, line ∈ l'.ui) :
    Captured ignoresCase display h l' :=
  captured_of_follows (t := ⟨0, 0, 0, 0, 0, 0⟩) hcaptured hcaptured.follows
    (List.append_nil _).symm hcapture hkeeps hui (by simp)

variable [DecidableEq D] {l : Logger D} {book : LogBook D}

/-- A notice goes to the event log and the interface. -/
theorem tell_effect (h : Kept ignoresCase before logsDir nmeaDir l book) (text : Text)
    (readings : LogReadings) :
    (l.tell ignoresCase display text readings).capture = l.capture ∧
      KeepsCaptures ignoresCase l.disk (l.tell ignoresCase display text readings).disk ∧
      (l.tell ignoresCase display text readings).ui =
        l.ui ++ [stamp readings.stampedAt text] := by
  obtain ⟨-, -, hspares⟩ := write_line_records ignoresCase display h.events readings.noticeAt
    readings.noticeOpens (stamp readings.stampedAt text)
  exact ⟨rfl, hspares.captures, rfl⟩

/-- A line for the log and the window touches no capture and is shown. -/
theorem emit_effect (h : Kept ignoresCase before logsDir nmeaDir l book) (text : Option Text)
    (readings : LogReadings) :
    (l.emit ignoresCase display text readings).capture = l.capture ∧
      KeepsCaptures ignoresCase l.disk (l.emit ignoresCase display text readings).disk ∧
      (l.emit ignoresCase display text readings).ui =
        l.ui ++ (text.map (stamp readings.stampedAt)).toList := by
  cases text with
  | none => exact ⟨rfl, fun _ => rfl, (List.append_nil _).symm⟩
  | some text => exact tell_effect h text readings

variable (display) in
/-- What is told of a sink touches no capture and takes no line from the window. -/
theorem notify_effect (h : Kept ignoresCase before logsDir nmeaDir l book) (event : SinkEvent)
    (readings : LogReadings) :
    (l.notify ignoresCase display event readings).capture = l.capture ∧
      KeepsCaptures ignoresCase l.disk (l.notify ignoresCase display event readings).disk ∧
      ∀ line ∈ l.ui, line ∈ (l.notify ignoresCase display event readings).ui := by
  cases event with
  | none => exact ⟨rfl, fun _ => rfl, fun _ hline => hline⟩
  | rolledTo name =>
      obtain ⟨hcapture, hkeeps, hui⟩ :=
        tell_effect h ("Log rolled over to ".toList ++ name) readings
      refine ⟨hcapture, hkeeps, fun line hline => ?_⟩
      show line ∈ (l.tell ignoresCase display _ readings).ui
      rw [hui]
      exact List.mem_append_left _ hline
  | failed message => exact ⟨rfl, fun _ => rfl, fun _ hline => List.mem_append_left _ hline⟩

/-- A call of the capture sink, with the notice it leads to. -/
theorem capture_captured {h h' : CaptureHistory D} (hcaptured : Captured ignoresCase display h l)
    (hkept : Kept ignoresCase before logsDir nmeaDir l book) {capture : CaptureBook D}
    {after : CaptureSink D × Disk D × Option Text}
    (hcall : CaptureCall ignoresCase logsDir nmeaDir l.disk capture (after.1, after.2.1))
    {receipts new : List Text}
    (hfollows : Follows ignoresCase display h' ⟨after.1, after.2.1, receipts⟩)
    (hreceipts : receipts = (h.ended.map fun c =>
      CaptureSink.receipt display c.file c.bytes.length) ++ new)
    (hnew : ∀ text ∈ new, text ∈ after.2.2.toList) (readings : LogReadings) :
    Captured ignoresCase display h'
      ({ l with capture := after.1, disk := after.2.1 }.emit ignoresCase display after.2.2
        readings) := by
  obtain ⟨hcapture, hkeeps, hui⟩ := emit_effect (capture_kept hkept hcall) after.2.2 readings
  refine captured_of_follows (t := readings.stampedAt) hcaptured hfollows hreceipts hcapture hkeeps
    ?_ ?_
  · intro line hline
    rw [hui]
    exact List.mem_append_left _ hline
  · intro text htext
    rw [hui]
    refine List.mem_append_right _ ?_
    have hmem := hnew text htext
    cases hnotice : after.2.2 with
    | none => simp [hnotice] at hmem
    | some notice =>
        rw [hnotice] at hmem
        obtain rfl := List.mem_singleton.mp hmem
        exact List.mem_singleton_self _

variable (hdirs : logsDir ≠ nmeaDir)
include hdirs

/-- The command of a turn is for the captures what its event means. -/
theorem receive_captured {h : CaptureHistory D} (hcaptured : Captured ignoresCase display h l)
    (hkept : Kept ignoresCase before logsDir nmeaDir l book) {t : LogTurn D} (ht : t.CapturesOpen) :
    Captured ignoresCase display (h.after t) (l.receive ignoresCase display t) := by
  obtain ⟨received, readings, clock, clockAfter⟩ := t
  have hapart : l.capture.book.Apart ignoresCase logsDir nmeaDir := hkept.capture ▸ hkept.apart
  cases received with
  | disconnected => exact hcaptured
  | timeout => exact hcaptured
  | command cmd =>
      cases cmd with
      | event line =>
          obtain ⟨hwritten, -⟩ :=
            write_event_kept display hdirs hkept readings.now readings.opens line
          obtain ⟨-, -, hspares⟩ :=
            write_line_records ignoresCase display hkept.events readings.now readings.opens line
          obtain ⟨hcapture, hkeeps, hui⟩ := notify_effect display hwritten
            (l.writeEvent ignoresCase display readings.now readings.opens line).2 readings
          exact hcaptured.frame hcapture (hspares.captures.trans hkeeps) hui
      | nmea line =>
          obtain ⟨hnmea, -, hspares⟩ :=
            write_line_records ignoresCase display hkept.nmea readings.now readings.opens line
          have hwritten : Kept ignoresCase before logsDir nmeaDir
              { l with
                nmea := (l.nmea.writeLine ignoresCase display l.disk readings.now readings.opens
                  line).1
                disk := (l.nmea.writeLine ignoresCase display l.disk readings.now readings.opens
                  line).2.1 }
              { book with nmea := book.nmea.write readings.now.date readings.opens line } :=
            ⟨hkept.events.frame (daily_apart hdirs.symm hspares), hnmea, hkept.capture,
              hkept.apart, hkept.ui⟩
          have heffect := notify_effect display hwritten
            (l.nmea.writeLine ignoresCase display l.disk readings.now readings.opens line).2.2
            readings
          obtain ⟨hcapture, hkeeps, hui⟩ := heffect
          exact hcaptured.frame hcapture (hspares.captures.trans hkeeps) hui
      | setEventLog on =>
          obtain ⟨-, hspares⟩ := set_enabled_records ignoresCase hkept.events on
          exact hcaptured.frame rfl hspares.captures fun _ hline => hline
      | setNmeaLog on =>
          obtain ⟨-, hspares⟩ := set_enabled_records ignoresCase hkept.nmea on
          exact hcaptured.frame rfl hspares.captures fun _ hline => hline
      | captureBegin target mount =>
          obtain ⟨dir, rfl⟩ := ht.dir target mount rfl
          have htarget : (CaptureTarget.dir dir).Apart ignoresCase logsDir nmeaDir := trivial
          obtain ⟨hcall, -⟩ := begin_call display hapart l.disk htarget mount
          exact capture_captured hcaptured hkept hcall
            (begin_follows hcaptured.follows dir mount) rfl (fun _ htext => htext) readings
      | captureData bytes =>
          obtain ⟨hcall, -⟩ := data_call display hapart l.disk readings.now readings.opens bytes
          have hfollows := data_follows hcaptured.follows bytes readings.now
          simp only [Logger.receive, Logger.handle]
          have hopens : readings.opens = .ok () := ht.opens bytes rfl
          rw [hopens] at hcall ⊢
          exact capture_captured hcaptured hkept hcall hfollows (List.append_nil _).symm
            (fun _ hnone => absurd hnone List.not_mem_nil) readings
      | captureEnd =>
          obtain ⟨hcall, -⟩ := end_capture_call display hapart l.disk
          exact capture_captured hcaptured hkept hcall (end_follows hcaptured.follows) rfl
            (fun _ htext => htext) readings
      | shutdown => exact hcaptured

omit hdirs in
omit [DecidableEq D] in
/-- A capture in a directory of its own is in neither log. -/
theorem LogTurn.CapturesOpen.apart {t : LogTurn D} (ht : t.CapturesOpen) :
    t.Apart ignoresCase logsDir nmeaDir := by
  intro target mount hreceived
  obtain ⟨dir, rfl⟩ := ht.dir target mount hreceived
  exact trivial

/-- The flushes of a turn concern the buffer of the capture only. -/
theorem flush_all_captured {h : CaptureHistory D} (hcaptured : Captured ignoresCase display h l)
    (hkept : Kept ignoresCase before logsDir nmeaDir l book) :
    Captured ignoresCase display h (l.flushAll ignoresCase) := by
  obtain ⟨-, -, hspares, -⟩ := flush_records ignoresCase hkept.events
  obtain ⟨-, -, hspares', -⟩ := flush_records ignoresCase
    (hkept.nmea.frame (daily_apart hdirs hspares))
  have hflush := flush_follows
    (hcaptured.follows.frame (hspares.captures.trans hspares'.captures))
  exact captured_of_follows (t := ⟨0, 0, 0, 0, 0, 0⟩) hcaptured hflush (List.append_nil _).symm rfl
    (fun _ => rfl) (fun _ hline => hline) (by simp)

/-- The capture follows its history through a turn. -/
theorem turn_captured {h : CaptureHistory D} (hcaptured : Captured ignoresCase display h l)
    (hkept : Kept ignoresCase before logsDir nmeaDir l book) {t : LogTurn D} (ht : t.CapturesOpen) :
    Captured ignoresCase display (h.after t) (l.turn ignoresCase display t) := by
  have hreceived := receive_captured hdirs hcaptured hkept ht
  have hkept' := receive_kept display hdirs hkept ht.apart
  rw [Logger.turn]
  split
  · have hflushed := flush_all_captured hdirs hreceived hkept'
    exact ⟨hflushed.follows, hflushed.told⟩
  · exact hreceived

/-- The end of the thread ends the connection that goes on. -/
theorem finish_captured {h : CaptureHistory D} (hcaptured : Captured ignoresCase display h l)
    (hkept : Kept ignoresCase before logsDir nmeaDir l book) (readings : LogReadings) :
    Captured ignoresCase display h.close (l.finish ignoresCase display readings) := by
  obtain ⟨hcall, hnotice⟩ := end_capture_call display (hkept.capture ▸ hkept.apart) l.disk
  have hended := capture_captured hcaptured hkept hcall (end_follows hcaptured.follows) rfl
    (fun _ htext => htext) readings
  have hkept' := emit_kept display hdirs (capture_kept hkept hcall)
    (l.capture.endCapture ignoresCase display l.disk).2.2 readings
  obtain ⟨-, -, hspares, -⟩ := flush_records ignoresCase hkept'.events
  obtain ⟨-, -, hspares', -⟩ := flush_records ignoresCase
    (hkept'.nmea.frame (daily_apart hdirs hspares))
  exact hended.frame rfl (hspares.captures.trans hspares'.captures) fun _ hline => hline

/-- The capture follows its history through all turns. -/
theorem run_captured {h : CaptureHistory D} (hcaptured : Captured ignoresCase display h l)
    (hkept : Kept ignoresCase before logsDir nmeaDir l book) (turns : List (LogTurn D))
    (hturns : ∀ t ∈ turns, t.CapturesOpen) :
    Captured ignoresCase display (captured h turns) (l.run ignoresCase display turns) := by
  induction turns generalizing h l book with
  | nil => exact hcaptured
  | cons t rest ih =>
      have ht := hturns t List.mem_cons_self
      rw [captured, Logger.run]
      split
      · exact finish_captured hdirs hcaptured hkept t.readings
      · obtain ⟨hkept', -⟩ := turn_kept display hdirs hkept ht.apart
        exact ih (turn_captured hdirs hcaptured hkept ht) hkept'
          fun u hu => hturns u (List.mem_cons_of_mem _ hu)

omit hdirs in
variable (ignoresCase display) in
/-- At every moment the interface has what the turns tell it, and each daily file has what was in it
before and behind it lines of its date, in order and without a gap from the first on. Once the
thread has ended no line is missing, and a date without lines has no file that it did not have. -/
theorem thread_logs (hdirs : logsDir ≠ nmeaDir) (before : Disk D) (eventOn nmeaOn : Bool)
    (started : Instant) (turns : List (LogTurn D))
    (hapart : ∀ t ∈ turns, t.Apart ignoresCase logsDir nmeaDir) :
    let l := (Logger.start logsDir nmeaDir eventOn nmeaOn started before).run ignoresCase display
      turns
    let book := (LogBook.start eventOn nmeaOn).run display logsDir nmeaDir turns
    l.ui = book.ui ∧
      (∀ date,
        (∃ written, written <+: book.events.bytesOf date ∧
          (l.disk ⟨logsDir, dailyFilename date⟩).getD [] =
            (before ⟨logsDir, dailyFilename date⟩).getD [] ++ written) ∧
        ∃ written, written <+: book.nmea.bytesOf date ∧
          (l.disk ⟨nmeaDir, dailyFilename date⟩).getD [] =
            (before ⟨nmeaDir, dailyFilename date⟩).getD [] ++ written) ∧
      ((turns.any fun t => Logger.leaves t.received) = true → ∀ date,
        l.disk ⟨logsDir, dailyFilename date⟩ =
            book.events.content (before ⟨logsDir, dailyFilename date⟩) date ∧
          l.disk ⟨nmeaDir, dailyFilename date⟩ =
            book.nmea.content (before ⟨nmeaDir, dailyFilename date⟩) date) := by
  have hstart : Kept ignoresCase before logsDir nmeaDir
      (.start logsDir nmeaDir eventOn nmeaOn started before) (.start eventOn nmeaOn) :=
    start_kept before eventOn nmeaOn started
  obtain ⟨hkept, hcomplete⟩ := run_kept display hdirs hstart turns hapart
  refine ⟨hkept.ui,
    fun date => ⟨hkept.events.written_first date, hkept.nmea.written_first date⟩, ?_⟩
  intro hended date
  obtain ⟨hevents, hnmea⟩ := hcomplete hended
  exact ⟨hevents date, hnmea date⟩

omit hdirs in
/-- The captures of a thread follow what its turns say of them, from its start on. -/
theorem start_captured (hdirs : logsDir ≠ nmeaDir) (before : Disk D) (eventOn nmeaOn : Bool)
    (started : Instant) (turns : List (LogTurn D)) (hopen : ∀ t ∈ turns, t.CapturesOpen) :
    Captured ignoresCase display (captured ⟨[], none, none⟩ turns)
      ((Logger.start logsDir nmeaDir eventOn nmeaOn started before).run ignoresCase display
        turns) := by
  have hstart : Captured ignoresCase display ⟨[], none, none⟩
      (.start logsDir nmeaDir eventOn nmeaOn started before) :=
    ⟨new_follows before, by simp⟩
  exact run_captured hdirs hstart (start_kept before eventOn nmeaOn started) turns hopen

omit hdirs in
variable (ignoresCase display) in
/-- The captures of the thread are as those of the sink alone, whatever else it logs. When the
thread ends, the capture that goes on ends with it. -/
theorem thread_captures (hdirs : logsDir ≠ nmeaDir) (before : Disk D) (eventOn nmeaOn : Bool)
    (started : Instant) (turns : List (LogTurn D)) (hopen : ∀ t ∈ turns, t.CapturesOpen) :
    let l := (Logger.start logsDir nmeaDir eventOn nmeaOn started before).run ignoresCase display
      turns
    let h := captured ⟨[], none, none⟩ turns
    (∀ c ∈ h.ended, ∃ t, stamp t (CaptureSink.receipt display c.file c.bytes.length) ∈ l.ui) ∧
      (Distinct ignoresCase h.received → Keeps ignoresCase l.disk h.ended) ∧
      (∀ c, h.current = some c → Captures ignoresCase l.capture l.disk c) ∧
      ((turns.any fun t => Logger.leaves t.received) = true → h.current = none) := by
  have hrun : Captured ignoresCase display (captured ⟨[], none, none⟩ turns)
      ((Logger.start logsDir nmeaDir eventOn nmeaOn started before).run ignoresCase display
        turns) := start_captured hdirs before eventOn nmeaOn started turns hopen
  refine ⟨hrun.told, hrun.follows.keeps, hrun.follows.captures, fun hended => ?_⟩
  suffices hnone : ∀ h : CaptureHistory D, (captured h turns).current = none from hnone _
  clear hrun hopen
  induction turns with
  | nil => simp at hended
  | cons t rest ih =>
      intro h
      rw [captured]
      split
      · rfl
      · next hstays =>
          rw [List.any_cons, Bool.eq_false_iff.mpr hstays, Bool.false_or] at hended
          exact ih hended _

end

/-! ## A thread that logs and captures -/

/-- The last second of a year with a leap second. -/
def yearEnd : LocalStamp :=
  ⟨2016, Fin.last 12, Fin.last 31, Fin.last 23, Fin.last 59, Fin.last 60⟩

/-- What is received at the end of a year, when every file opens. -/
def turnAt (received : Received Bool) (clock : Instant) : LogTurn Bool where
  received := received
  readings := ⟨yearEnd, .ok (), yearEnd, yearEnd, .ok ()⟩
  clock := clock
  clockAfter := clock

/-- A thread that takes a line and then ends has the line in its file. -/
theorem thread_logs_line :
    (Logger.run true CaptureFile.name (.start false true true true 0 fun _ => none)
        [turnAt (.command (.event "Started".toList)) 0,
          turnAt (.command .shutdown) 0]).disk ⟨false, "20161231.txt".toList⟩ =
      some (Text.toBytes "Started".toList ++ lineEnd) := by
  obtain ⟨-, -, hended⟩ := thread_logs true CaptureFile.name
    (show false ≠ true by decide) (fun _ => none) true true 0
    [turnAt (.command (.event "Started".toList)) 0, turnAt (.command .shutdown) 0]
    (by
      intro t ht target mount hreceived
      rcases List.mem_pair.mp ht with rfl | rfl
      · simp [turnAt] at hreceived
      · simp [turnAt] at hreceived)
  exact (hended rfl yearEnd.date).1.trans rfl

/-- A thread that is cut off a second after a line was taken has the line in its file. -/
theorem flushed_stays_line :
    Text.toBytes "Started".toList ++ lineEnd <+:
      ((Logger.run true CaptureFile.name (.start false true true true 0 fun _ => none)
        [turnAt (.command (.event "Started".toList)) 0,
          turnAt .timeout (fromSecs 1)]).disk ⟨false, "20161231.txt".toList⟩).getD [] := by
  have hstays := flushed_stays true CaptureFile.name
    (show false ≠ true by decide) (fun _ => none) true true (Nat.le_refl 0)
    [turnAt (.command (.event "Started".toList)) 0] (turnAt .timeout (fromSecs 1)) []
    (by
      intro t ht
      rcases List.mem_pair.mp ht with rfl | rfl
      · rfl
      · rfl)
    (by
      intro t ht target mount hreceived
      rcases List.mem_pair.mp ht with rfl | rfl
      · simp [turnAt] at hreceived
      · simp [turnAt] at hreceived)
    (by
      intro t ht
      rw [List.mem_singleton.mp ht]
      exact Nat.le_refl _)
    (Nat.le_refl _)
  exact (hstays yearEnd.date).1

/-- A capture that goes on when the thread ends is in its file. -/
theorem thread_captures_bytes :
    (Logger.run true CaptureFile.name (.start false true true true 0 fun _ => none)
        [turnAt (.command (.captureBegin (.dir true) "MOUNT".toList)) 0,
          turnAt (.command (.captureData [0xD3])) 0, turnAt .disconnected 0]).disk
        ⟨true, "20161231_235960_mount.rtcm".toList⟩ = some [0xD3] := by
  obtain ⟨-, hkeeps, -, -⟩ := thread_captures true CaptureFile.name
    (show false ≠ true by decide) (fun _ => none) true true 0
    [turnAt (.command (.captureBegin (.dir true) "MOUNT".toList)) 0,
      turnAt (.command (.captureData [0xD3])) 0, turnAt .disconnected 0]
    (by
      intro t ht
      simp only [List.mem_cons, List.not_mem_nil, or_false] at ht
      rcases ht with rfl | rfl | rfl
      · refine ⟨fun target mount h => ⟨true, ?_⟩, fun _ _ => rfl⟩
        simp only [turnAt, Received.command.injEq, LogCmd.captureBegin.injEq] at h
        exact h.1.symm
      · exact ⟨fun target mount h => absurd h (by simp [turnAt]), fun _ _ => rfl⟩
      · exact ⟨fun target mount h => absurd h (by simp [turnAt]), fun _ _ => rfl⟩)
  have hdistinct : Distinct true [(⟨true, "MOUNT".toList, yearEnd, [0xD3]⟩ :
      Connection Bool)] := List.pairwise_singleton _ _
  exact hkeeps hdistinct ⟨true, "MOUNT".toList, yearEnd, [0xD3]⟩
    (List.mem_singleton_self _)

end OpenNtrip
