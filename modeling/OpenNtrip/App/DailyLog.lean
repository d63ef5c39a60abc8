import OpenNtrip.App.Capture
import OpenNtrip.Rust.Utf8

/-!
# Daily log files

`DailySink` of `logging.rs`, over the disk of the captures. What its calls mean is `DayLog`: the
lines that were taken, each with its local date. `Records` relates the two, and `Complete` says that
nothing is held back. Each call keeps `Records` and leaves every file alone that is not one of the
sink's.
-/

namespace OpenNtrip

/-- A local date: its year, its month and its day. -/
abbrev LocalDate := Nat × Fin 13 × Fin 32

def LocalStamp.date (t : LocalStamp) : LocalDate := (t.year, t.month, t.day)

/-- `daily_filename`, which reads no more of a stamp than its date. -/
def dailyFilename (date : LocalDate) : Text :=
  padded 4 date.1 ++ padded 2 date.2.1 ++ padded 2 date.2.2 ++ ".txt".toList

/-- What `write_line` reports. -/
inductive SinkEvent where
  | none
  | rolledTo (name : Text)
  | failed (message : Text)
  deriving DecidableEq, Repr

/-- `DailySink`. The file that is open has a name, and its `BufWriter` holds bytes back. -/
structure DailySink (D : Type) where
  dir : D
  enabled : Bool
  current : Option (Text × Bytes)
  dirty : Bool
  failed : Bool
  deriving DecidableEq, Repr

/-- The end of a line in a log file. -/
def lineEnd : Bytes := [CR, LF]

section

variable {D : Type} [DecidableEq D] (ignoresCase : Bool) (display : CaptureFile D → Text)

/-- A file opens to be appended to. One that exists keeps what it holds. -/
def Disk.openAppend (disk : Disk D) (file : CaptureFile D) : Disk D :=
  let file := file.identity ignoresCase
  Function.update disk file (some ((disk file).getD []))

namespace DailySink

/-- `DailySink::new`. -/
def new (dir : D) (enabled : Bool) : DailySink D where
  dir := dir
  enabled := enabled
  current := none
  dirty := false
  failed := false

/-- `flush`. -/
def flush (sink : DailySink D) (disk : Disk D) : DailySink D × Disk D :=
  match sink.dirty, sink.current with
  | true, some (name, held) =>
    ({ sink with dirty := false, current := some (name, []) },
      disk.append ignoresCase ⟨sink.dir, name⟩ held)
  | _, _ => ({ sink with dirty := false }, disk)

/-- `set_enabled`. -/
def setEnabled (sink : DailySink D) (disk : Disk D) (enabled : Bool) : DailySink D × Disk D :=
  let sink := { sink with enabled }
  if enabled then ({ sink with failed := false }, disk)
  else
    let (sink, disk) := sink.flush ignoresCase disk
    ({ sink with current := none, failed := false }, disk)

/-- The part of `write_line` that writes to the open file. -/
def write (sink : DailySink D) (disk : Disk D) (line : Text) : DailySink D × Disk D :=
  match sink.current with
  | none => (sink, disk)
  | some (name, held) =>
    let (first, held) := bufWrite held line.toBytes
    let (second, held) := bufWrite held lineEnd
    ({ sink with current := some (name, held), dirty := true },
      (disk.append ignoresCase ⟨sink.dir, name⟩ first).append ignoresCase ⟨sink.dir, name⟩ second)

/-- The part of `write_line` that opens a file and writes to it. -/
def reopen (sink : DailySink D) (disk : Disk D) (name : Text) (opens : Except Text Unit)
    (line : Text) : DailySink D × Disk D × SinkEvent :=
  let rolled := sink.current.isSome
  let (sink, disk) := sink.flush ignoresCase disk
  match opens with
  | .ok () =>
    let (sink, disk) :=
      { sink with current := some (name, []), failed := false }.write ignoresCase
        (disk.openAppend ignoresCase ⟨sink.dir, name⟩) line
    (sink, disk, if rolled then .rolledTo name else .none)
  | .error error =>
    if sink.failed then ({ sink with current := none }, disk, .none)
    else
      ({ sink with current := none, failed := true }, disk,
        .failed ("Could not open ".toList ++ display ⟨sink.dir, name⟩ ++ ": ".toList ++ error))

/-- `write_line`, where `opens` is how the file opens, if it comes to that. -/
def writeLine (sink : DailySink D) (disk : Disk D) (now : LocalStamp) (opens : Except Text Unit)
    (line : Text) : DailySink D × Disk D × SinkEvent :=
  if sink.enabled then
    if sink.current.map Prod.fst = some (dailyFilename now.date) then
      let (sink, disk) := sink.write ignoresCase disk line
      (sink, disk, .none)
    else sink.reopen ignoresCase display disk (dailyFilename now.date) opens line
  else (sink, disk, .none)

end DailySink

end

/-! ## What the calls mean -/

/-- A daily log: whether it is on, the date of the file that is open, whether the failure to open
one was reported, and the lines that were taken. -/
structure DayLog where
  enabled : Bool
  today : Option LocalDate
  warned : Bool
  lines : List (LocalDate × Text)
  deriving DecidableEq, Repr

namespace DayLog

def new (enabled : Bool) : DayLog := ⟨enabled, none, false, []⟩

/-- The log is switched on or off. -/
def setEnabled (log : DayLog) (enabled : Bool) : DayLog :=
  { log with enabled, warned := false, today := if enabled then log.today else none }

/-- A line is taken if the log is on and the file of its date is open, or opens. -/
def write (log : DayLog) (date : LocalDate) (opens : Except Text Unit) (line : Text) : DayLog :=
  if log.enabled then
    if log.today = some date then { log with lines := log.lines ++ [(date, line)] }
    else
      match opens with
      | .ok () =>
        { log with today := some date, warned := false, lines := log.lines ++ [(date, line)] }
      | .error _ => { log with today := none, warned := true }
  else log

/-- What is reported of a line: a file that follows another, or the first failure to open one. -/
def report {D : Type} (display : CaptureFile D → Text) (dir : D) (log : DayLog) (date : LocalDate)
    (opens : Except Text Unit) : SinkEvent :=
  if log.enabled then
    if log.today = some date then .none
    else
      match opens with
      | .ok () => if log.today.isSome then .rolledTo (dailyFilename date) else .none
      | .error error =>
        if log.warned then .none
        else
          .failed ("Could not open ".toList ++ display ⟨dir, dailyFilename date⟩ ++ ": ".toList ++
            error)
  else .none

/-- The bytes of the lines of a date. -/
def bytesOf (log : DayLog) (date : LocalDate) : Bytes :=
  (log.lines.filter fun entry => entry.1 = date).flatMap fun entry => entry.2.toBytes ++ lineEnd

/-- The file of a date: what was in it before, and the lines of the date. A date without lines
leaves the file as it was, and creates none. -/
def content (log : DayLog) (before : Option Bytes) (date : LocalDate) : Option Bytes :=
  if log.bytesOf date = [] then before else some (before.getD [] ++ log.bytesOf date)

theorem bytes_of_concat (log : DayLog) (date other : LocalDate) (line : Text) :
    bytesOf { log with lines := log.lines ++ [(date, line)] } other =
      log.bytesOf other ++ if date = other then line.toBytes ++ lineEnd else [] := by
  simp only [bytesOf, List.filter_append, List.flatMap_append]
  congr 1
  by_cases h : date = other
  · simp [h]
  · simp [h]

theorem content_of_bytes {log log' : DayLog} {date : LocalDate}
    (h : log'.bytesOf date = log.bytesOf date) (before : Option Bytes) :
    log'.content before date = log.content before date := by
  unfold content
  rw [h]

end DayLog

/-! ## The names of the files -/

/-- A file is named by its date. -/
theorem daily_filename_injective {date other : LocalDate}
    (h : dailyFilename date = dailyFilename other) : date = other := by
  obtain ⟨year, month, day⟩ := date
  obtain ⟨year', month', day'⟩ := other
  obtain ⟨rfl, hmonth, hday⟩ := padded_three_injective (by omega) (by omega) (by omega) (by omega)
    (List.append_cancel_right h)
  obtain rfl := Fin.ext hmonth
  obtain rfl := Fin.ext hday
  rfl

section

variable {D : Type} (ignoresCase : Bool)

/-- The name of a daily file has no letter that case could change. -/
theorem daily_identity (dir : D) (date : LocalDate) :
    (⟨dir, dailyFilename date⟩ : CaptureFile D).identity ignoresCase =
      ⟨dir, dailyFilename date⟩ := by
  have hname : foldName ignoresCase (dailyFilename date) = dailyFilename date := by
    have hdigits : ∀ width n, (padded width n).map Char.toLower = padded width n := by
      intro width n
      have hsame : ∀ c ∈ padded width n, c.toLower = id c :=
        fun c hc => to_lower_digit (padded_digit hc)
      exact (List.map_congr_left hsame).trans (List.map_id _)
    have hextension : ".txt".toList.map Char.toLower = ".txt".toList := rfl
    refine fold_name_same ignoresCase ?_
    rw [dailyFilename, List.map_append, List.map_append, List.map_append, hdigits, hdigits, hdigits,
      hextension]
  show CaptureFile.mk dir (foldName ignoresCase (dailyFilename date)) = _
  rw [hname]

end

/-! ## The sink records what was taken -/

section

variable {D : Type} {ignoresCase : Bool} {before : Disk D} {dir : D}

/-- The file of a date is open: the lines of the date are behind what was in the file before, up to
what the buffer holds back. -/
structure Open (before : Disk D) (dir : D) (sink : DailySink D) (disk : Disk D) (log : DayLog)
    (date : LocalDate) : Prop where
  file : ∃ written held, sink.current = some (dailyFilename date, held) ∧
    disk ⟨dir, dailyFilename date⟩ =
      some ((before ⟨dir, dailyFilename date⟩).getD [] ++ written) ∧
    written ++ held = log.bytesOf date ∧ (sink.dirty = false → held = [])
  lines : log.bytesOf date ≠ []

/-- The sink and the files of its directory are what the log says. -/
structure Records (before : Disk D) (dir : D) (sink : DailySink D) (disk : Disk D) (log : DayLog) :
    Prop where
  place : sink.dir = dir
  enabled : sink.enabled = log.enabled
  warned : sink.failed = log.warned
  closed : log.today = none → sink.current = none
  opened : ∀ date, log.today = some date → Open before dir sink disk log date
  kept : ∀ date, log.today ≠ some date →
    disk ⟨dir, dailyFilename date⟩ = log.content (before ⟨dir, dailyFilename date⟩) date

/-- Nothing is held back: the file of every date has all its lines. -/
def Complete (before : Disk D) (dir : D) (disk : Disk D) (log : DayLog) : Prop :=
  ∀ date, disk ⟨dir, dailyFilename date⟩ = log.content (before ⟨dir, dailyFilename date⟩) date

/-- Only daily files of the directory differ. -/
def Spares (dir : D) (disk disk' : Disk D) : Prop :=
  ∀ file, (∀ date, file ≠ ⟨dir, dailyFilename date⟩) → disk' file = disk file

theorem Spares.trans {disk disk' disk'' : Disk D} (h : Spares dir disk disk')
    (h' : Spares dir disk' disk'') : Spares dir disk disk'' :=
  fun file hfile => (h' file hfile).trans (h file hfile)

theorem new_records (before : Disk D) (dir : D) (enabled : Bool) :
    Records before dir (.new dir enabled) before (.new enabled) where
  place := rfl
  enabled := rfl
  warned := rfl
  closed := fun _ => rfl
  opened := fun _ h => absurd h (by simp [DayLog.new])
  kept := fun _ _ => rfl

/-- What happens to other files does not concern the sink. -/
theorem Records.frame {sink : DailySink D} {disk disk' : Disk D} {log : DayLog}
    (h : Records before dir sink disk log)
    (hframe : ∀ date, disk' ⟨dir, dailyFilename date⟩ = disk ⟨dir, dailyFilename date⟩) :
    Records before dir sink disk' log where
  place := h.place
  enabled := h.enabled
  warned := h.warned
  closed := h.closed
  opened := by
    intro date htoday
    obtain ⟨⟨written, held, hcurrent, hdisk, hrest⟩, hlines⟩ := h.opened date htoday
    exact ⟨⟨written, held, hcurrent, (hframe date).trans hdisk, hrest⟩, hlines⟩
  kept := fun date htoday => (hframe date).trans (h.kept date htoday)

/-- Whatever is on the disk of a date's file, what was there before comes first, and then lines of
the date in order. -/
theorem Records.written_first {sink : DailySink D} {disk : Disk D} {log : DayLog}
    (h : Records before dir sink disk log) (date : LocalDate) :
    ∃ written, written <+: log.bytesOf date ∧
      (disk ⟨dir, dailyFilename date⟩).getD [] =
        (before ⟨dir, dailyFilename date⟩).getD [] ++ written := by
  by_cases htoday : log.today = some date
  · obtain ⟨⟨written, held, -, hdisk, hbytes, -⟩, -⟩ := h.opened date htoday
    exact ⟨written, ⟨held, hbytes⟩, by rw [hdisk]; rfl⟩
  · refine ⟨log.bytesOf date, List.prefix_refl _, ?_⟩
    rw [h.kept date htoday, DayLog.content]
    split
    · next hnone => rw [hnone, List.append_nil]
    · rfl

theorem daily_other {dir : D} {date other : LocalDate} (h : other ≠ date) :
    (⟨dir, dailyFilename other⟩ : CaptureFile D) ≠ ⟨dir, dailyFilename date⟩ :=
  fun heq => h (daily_filename_injective (congrArg CaptureFile.name heq))

/-- What a log says of other dates does not change when a line is taken. -/
theorem bytes_of_other (log : DayLog) {date other : LocalDate} (h : other ≠ date) (line : Text) :
    DayLog.bytesOf { log with lines := log.lines ++ [(date, line)] } other = log.bytesOf other := by
  rw [DayLog.bytes_of_concat, if_neg (Ne.symm h), List.append_nil]

/-- The date of a sink's open file is the log's. -/
theorem Records.current_name {sink : DailySink D} {disk : Disk D} {log : DayLog}
    (h : Records before dir sink disk log) :
    sink.current.map Prod.fst = log.today.map dailyFilename := by
  cases htoday : log.today with
  | none =>
      rw [h.closed htoday]
      rfl
  | some date =>
      obtain ⟨⟨written, held, hcurrent, -⟩, -⟩ := h.opened date htoday
      rw [hcurrent]
      rfl

/-! ## The calls -/

variable [DecidableEq D] (ignoresCase)

theorem append_append (disk : Disk D) (file : CaptureFile D) (first second : Bytes) :
    (disk.append ignoresCase file first).append ignoresCase file second =
      disk.append ignoresCase file (first ++ second) := by
  simp [Disk.append, List.append_assoc]

theorem append_daily (disk : Disk D) (dir : D) (date : LocalDate) (bytes : Bytes) :
    disk.append ignoresCase ⟨dir, dailyFilename date⟩ bytes ⟨dir, dailyFilename date⟩ =
      some ((disk ⟨dir, dailyFilename date⟩).getD [] ++ bytes) := by
  simp [Disk.append, daily_identity]

theorem append_daily_other {dir : D} {date : LocalDate} {file : CaptureFile D}
    (h : file ≠ ⟨dir, dailyFilename date⟩) (disk : Disk D) (bytes : Bytes) :
    disk.append ignoresCase ⟨dir, dailyFilename date⟩ bytes file = disk file :=
  append_other (by rwa [daily_identity]) bytes

/-- A line passes through the buffer whole and in order. -/
theorem write_current {sink : DailySink D} {name : Text} {held : Bytes}
    (h : sink.current = some (name, held)) (disk : Disk D) (line : Text) :
    ∃ out held', out ++ held' = held ++ (line.toBytes ++ lineEnd) ∧
      sink.write ignoresCase disk line =
        ({ sink with current := some (name, held'), dirty := true },
          disk.append ignoresCase ⟨sink.dir, name⟩ out) := by
  have hline := buf_write_append held line.toBytes
  have hend := buf_write_append (bufWrite held line.toBytes).2 lineEnd
  refine ⟨(bufWrite held line.toBytes).1 ++ (bufWrite (bufWrite held line.toBytes).2 lineEnd).1,
    (bufWrite (bufWrite held line.toBytes).2 lineEnd).2, ?_, ?_⟩
  · rw [List.append_assoc, hend, ← List.append_assoc, hline, List.append_assoc]
  · simp only [DailySink.write, h, append_append]

/-- A line is written behind the lines of its date. -/
theorem write_open {sink : DailySink D} {disk : Disk D} {log : DayLog} {date : LocalDate}
    {written held : Bytes} {line : Text} (hplace : sink.dir = dir)
    (hcurrent : sink.current = some (dailyFilename date, held))
    (hdisk : disk ⟨dir, dailyFilename date⟩ =
      some ((before ⟨dir, dailyFilename date⟩).getD [] ++ written))
    (hbytes : log.bytesOf date = written ++ held ++ (line.toBytes ++ lineEnd)) :
    let after := sink.write ignoresCase disk line
    Open before dir after.1 after.2 log date ∧ after.1.dir = dir ∧
      after.1.enabled = sink.enabled ∧ after.1.failed = sink.failed ∧
      ∀ file, file ≠ ⟨dir, dailyFilename date⟩ → after.2 file = disk file := by
  obtain ⟨out, held', hout, hwrite⟩ := write_current ignoresCase hcurrent disk line
  rw [hwrite, hplace]
  refine ⟨⟨⟨written ++ out, held', rfl, ?_, ?_, fun h => absurd h (by simp)⟩, ?_⟩, rfl, rfl, rfl,
    fun file hfile => append_daily_other ignoresCase hfile disk out⟩
  · show disk.append ignoresCase ⟨dir, dailyFilename date⟩ out ⟨dir, dailyFilename date⟩ = _
    rw [append_daily, hdisk, Option.getD_some, List.append_assoc]
  · rw [hbytes, List.append_assoc, hout, List.append_assoc]
  · rw [hbytes]
    simp [lineEnd]

/-- A flush of an open file writes what the buffer holds back. -/
theorem flush_open {sink : DailySink D} {disk : Disk D} {log : DayLog} {date : LocalDate}
    (hplace : sink.dir = dir) (h : Open before dir sink disk log date) :
    (sink.flush ignoresCase disk).1 =
        { sink with current := some (dailyFilename date, []), dirty := false } ∧
      (sink.flush ignoresCase disk).2 ⟨dir, dailyFilename date⟩ =
        some ((before ⟨dir, dailyFilename date⟩).getD [] ++ log.bytesOf date) ∧
      ∀ file, file ≠ ⟨dir, dailyFilename date⟩ →
        (sink.flush ignoresCase disk).2 file = disk file := by
  obtain ⟨⟨written, held, hcurrent, hdisk, hbytes, hdirty⟩, -⟩ := h
  cases hd : sink.dirty with
  | false =>
      obtain rfl := hdirty hd
      have hflush : sink.flush ignoresCase disk = ({ sink with dirty := false }, disk) := by
        simp only [DailySink.flush, hd]
      rw [List.append_nil] at hbytes
      rw [hflush, hcurrent.symm, ← hbytes]
      exact ⟨rfl, hdisk, fun _ _ => rfl⟩
  | true =>
      have hflush : sink.flush ignoresCase disk =
          ({ sink with current := some (dailyFilename date, []), dirty := false },
            disk.append ignoresCase ⟨dir, dailyFilename date⟩ held) := by
        simp only [DailySink.flush, hd, hcurrent, hplace]
      rw [hflush]
      refine ⟨rfl, ?_, fun file hfile => append_daily_other ignoresCase hfile disk held⟩
      show disk.append ignoresCase ⟨dir, dailyFilename date⟩ held ⟨dir, dailyFilename date⟩ = _
      rw [append_daily, hdisk, Option.getD_some, List.append_assoc, hbytes]

/-- A flush without an open file does nothing to the disk. -/
theorem flush_closed {sink : DailySink D} (hcurrent : sink.current = none) (disk : Disk D) :
    sink.flush ignoresCase disk = ({ sink with dirty := false }, disk) := by
  obtain ⟨place, enabled, current, dirty, failed⟩ := sink
  obtain rfl : current = none := hcurrent
  cases dirty with
  | true => rfl
  | false => rfl

/-- A flush completes the file that is open. -/
theorem flush_records {sink : DailySink D} {disk : Disk D} {log : DayLog}
    (h : Records before dir sink disk log) :
    Records before dir (sink.flush ignoresCase disk).1 (sink.flush ignoresCase disk).2 log ∧
      Complete before dir (sink.flush ignoresCase disk).2 log ∧
      Spares dir disk (sink.flush ignoresCase disk).2 ∧
      (sink.flush ignoresCase disk).1.current.map Prod.fst = sink.current.map Prod.fst := by
  cases htoday : log.today with
  | none =>
      have hcurrent := h.closed htoday
      have hflush := flush_closed ignoresCase hcurrent disk
      have hnot : ∀ date, log.today ≠ some date := by simp [htoday]
      rw [hflush]
      refine ⟨⟨h.place, h.enabled, h.warned, fun _ => hcurrent, ?_, h.kept⟩,
        fun date => h.kept date (hnot date), fun _ _ => rfl, rfl⟩
      intro date hdate
      exact absurd hdate (hnot date)
  | some date =>
      have hopen := h.opened date htoday
      obtain ⟨hsink, hfile, hother⟩ := flush_open ignoresCase h.place hopen
      have hcomplete : Complete before dir (sink.flush ignoresCase disk).2 log := by
        intro other
        by_cases hne : other = date
        · rw [hne, hfile, DayLog.content, if_neg hopen.lines]
        · rw [hother _ (daily_other hne)]
          exact h.kept other fun heq => hne (Option.some.inj (heq.symm.trans htoday))
      refine ⟨⟨?_, ?_, ?_, ?_, ?_, fun other _ => hcomplete other⟩, hcomplete,
        fun file hspared => hother file (hspared date), ?_⟩
      · rw [hsink]
        exact h.place
      · rw [hsink]
        exact h.enabled
      · rw [hsink]
        exact h.warned
      · exact fun hnone => absurd (htoday.symm.trans hnone) (by simp)
      · intro other hdate
        obtain rfl := Option.some.inj (htoday.symm.trans hdate)
        exact ⟨⟨log.bytesOf date, [], by rw [hsink], hfile, List.append_nil _, fun _ => rfl⟩,
          hopen.lines⟩
      · obtain ⟨⟨written, held, hcurrent, -⟩, -⟩ := hopen
        rw [hsink, hcurrent]
        rfl

/-- A line of the date whose file is open. -/
theorem write_line_today {sink : DailySink D} {disk : Disk D} {log : DayLog} {date : LocalDate}
    (h : Records before dir sink disk log) (htoday : log.today = some date) (line : Text) :
    let after := sink.write ignoresCase disk line
    Records before dir after.1 after.2 { log with lines := log.lines ++ [(date, line)] } ∧
      Spares dir disk after.2 := by
  obtain ⟨⟨written, held, hcurrent, hdisk, hbytes, -⟩, -⟩ := h.opened date htoday
  have hnew : DayLog.bytesOf { log with lines := log.lines ++ [(date, line)] } date =
      written ++ held ++ (line.toBytes ++ lineEnd) := by
    rw [DayLog.bytes_of_concat, if_pos rfl, hbytes]
  obtain ⟨hopen, hplace, henabled, hfailed, hother⟩ :=
    write_open ignoresCase h.place hcurrent hdisk hnew
  refine ⟨⟨hplace, henabled.trans h.enabled, hfailed.trans h.warned, ?_, ?_, ?_⟩,
    fun file hfile => hother file (hfile date)⟩
  · exact fun hnone => absurd (htoday.symm.trans hnone) (by simp)
  · intro other hdate
    obtain rfl := Option.some.inj (htoday.symm.trans hdate)
    exact hopen
  · intro other hne
    have hapart : other ≠ date := fun heq => hne (heq ▸ htoday)
    rw [hother _ (daily_other hapart), h.kept other hne]
    exact (DayLog.content_of_bytes (bytes_of_other log hapart line) _).symm

/-- A line of a date whose file opens, once no file is open. -/
theorem write_line_opened {sink : DailySink D} {disk : Disk D} {log : DayLog} {date : LocalDate}
    (hplace : sink.dir = dir) (henabled : sink.enabled = log.enabled)
    (hfailed : sink.failed = false) (hcurrent : sink.current = some (dailyFilename date, []))
    (hcomplete : Complete before dir disk log) (line : Text) :
    let after := sink.write ignoresCase
      (disk.openAppend ignoresCase ⟨dir, dailyFilename date⟩) line
    Records before dir after.1 after.2
        { log with
          today := some date
          warned := false
          lines := log.lines ++ [(date, line)] } ∧
      Spares dir disk after.2 := by
  have hopened : disk.openAppend ignoresCase ⟨dir, dailyFilename date⟩ ⟨dir, dailyFilename date⟩ =
      some ((before ⟨dir, dailyFilename date⟩).getD [] ++ log.bytesOf date) := by
    rw [Disk.openAppend, daily_identity]
    show Function.update disk _ _ _ = _
    rw [Function.update_self, hcomplete date, DayLog.content]
    split
    · next hnone => rw [hnone, List.append_nil]
    · rfl
  have hspared : ∀ file, file ≠ ⟨dir, dailyFilename date⟩ →
      disk.openAppend ignoresCase ⟨dir, dailyFilename date⟩ file = disk file := by
    intro file hfile
    rw [Disk.openAppend, daily_identity]
    exact Function.update_of_ne hfile _ _
  have hnew : DayLog.bytesOf { log with
      today := some date, warned := false, lines := log.lines ++ [(date, line)] } date =
      log.bytesOf date ++ [] ++ (line.toBytes ++ lineEnd) := by
    rw [List.append_nil]
    exact (DayLog.bytes_of_concat log date date line).trans (by rw [if_pos rfl])
  obtain ⟨hopen, hplace', henabled', hfailed', hother⟩ :=
    write_open ignoresCase hplace hcurrent hopened hnew
  refine ⟨⟨hplace', henabled'.trans henabled, hfailed'.trans hfailed, ?_, ?_, ?_⟩,
    fun file hfile => (hother file (hfile date)).trans (hspared file (hfile date))⟩
  · exact fun hnone => absurd hnone (by simp)
  · intro other hdate
    obtain rfl := Option.some.inj hdate
    exact hopen
  · intro other hne
    have hapart : other ≠ date := fun heq => hne (heq ▸ rfl)
    rw [hother _ (daily_other hapart), hspared _ (daily_other hapart), hcomplete other]
    exact (DayLog.content_of_bytes (bytes_of_other log hapart line) _).symm

/-- A file that does not open leaves none open. -/
theorem reopen_fails (display : CaptureFile D → Text) {sink : DailySink D} {disk : Disk D}
    {log : DayLog} (h : Records before dir sink disk log) (date : LocalDate) (error line : Text) :
    let after := sink.reopen ignoresCase display disk (dailyFilename date) (.error error) line
    Records before dir after.1 after.2.1 { log with today := none, warned := true } ∧
      after.2.2 = (if log.warned then .none
        else .failed ("Could not open ".toList ++ display ⟨dir, dailyFilename date⟩ ++
          ": ".toList ++ error)) ∧
      Spares dir disk after.2.1 := by
  obtain ⟨hflushed, hcomplete, hspares, -⟩ := flush_records ignoresCase h
  unfold DailySink.reopen
  generalize sink.flush ignoresCase disk = after at hflushed hcomplete hspares
  obtain ⟨⟨place, enabled, current, dirty, failed⟩, disk'⟩ := after
  obtain rfl : place = dir := hflushed.place
  obtain rfl : failed = log.warned := hflushed.warned
  have hclosed : ∀ warned : Bool, warned = true →
      Records before place ⟨place, enabled, none, dirty, warned⟩ disk'
        { log with today := none, warned := true } := fun warned hwarned =>
    ⟨rfl, hflushed.enabled, hwarned, fun _ => rfl, fun _ hdate => absurd hdate (by simp),
      fun date _ => hcomplete date⟩
  cases hwarned : log.warned with
  | true => exact ⟨hclosed true rfl, rfl, hspares⟩
  | false => exact ⟨hclosed true rfl, rfl, hspares⟩

/-- A file that opens receives the line, and is announced if it follows another. -/
theorem reopen_succeeds (display : CaptureFile D → Text) {sink : DailySink D} {disk : Disk D}
    {log : DayLog} (h : Records before dir sink disk log) (date : LocalDate) (line : Text) :
    let after := sink.reopen ignoresCase display disk (dailyFilename date) (.ok ()) line
    Records before dir after.1 after.2.1
        { log with
          today := some date
          warned := false
          lines := log.lines ++ [(date, line)] } ∧
      after.2.2 = (if log.today.isSome then .rolledTo (dailyFilename date) else .none) ∧
      Spares dir disk after.2.1 := by
  obtain ⟨hflushed, hcomplete, hspares, -⟩ := flush_records ignoresCase h
  have hrolled : sink.current.isSome = log.today.isSome := by
    have hmapped := congrArg Option.isSome h.current_name
    simpa using hmapped
  rw [← hrolled]
  unfold DailySink.reopen
  generalize sink.flush ignoresCase disk = after at hflushed hcomplete hspares
  obtain ⟨⟨place, enabled, current, dirty, failed⟩, disk'⟩ := after
  obtain rfl : place = dir := hflushed.place
  obtain ⟨hrecords, hspares'⟩ := write_line_opened ignoresCase
    (show DailySink.dir ⟨place, enabled, some (dailyFilename date, []), dirty, false⟩ = place from
      rfl) hflushed.enabled rfl rfl hcomplete line
  exact ⟨hrecords, rfl, hspares.trans hspares'⟩

/-- `write_line` takes the line and reports as the log does. -/
theorem write_line_records (display : CaptureFile D → Text) {sink : DailySink D} {disk : Disk D}
    {log : DayLog} (h : Records before dir sink disk log) (now : LocalStamp)
    (opens : Except Text Unit) (line : Text) :
    let after := sink.writeLine ignoresCase display disk now opens line
    Records before dir after.1 after.2.1 (log.write now.date opens line) ∧
      after.2.2 = log.report display dir now.date opens ∧ Spares dir disk after.2.1 := by
  unfold DailySink.writeLine DayLog.write DayLog.report
  rw [h.enabled, h.current_name]
  by_cases henabled : log.enabled = true
  · rw [if_pos henabled, if_pos henabled, if_pos henabled]
    by_cases htoday : log.today = some now.date
    · obtain ⟨hrecords, hspares⟩ := write_line_today ignoresCase h htoday line
      rw [if_pos (by rw [htoday]; rfl), if_pos htoday, if_pos htoday]
      exact ⟨hrecords, rfl, hspares⟩
    · have hname : ¬ log.today.map dailyFilename = some (dailyFilename now.date) := by
        intro hsome
        obtain ⟨date, hdate, heq⟩ := Option.map_eq_some_iff.mp hsome
        exact htoday (daily_filename_injective heq ▸ hdate)
      rw [if_neg hname, if_neg htoday, if_neg htoday]
      cases opens with
      | ok opened => exact reopen_succeeds ignoresCase display h now.date line
      | error error => exact reopen_fails ignoresCase display h now.date error line
  · rw [if_neg henabled, if_neg henabled, if_neg henabled]
    exact ⟨h, rfl, fun _ _ => rfl⟩

/-- Switching the log off closes its file, complete. -/
theorem set_enabled_records {sink : DailySink D} {disk : Disk D} {log : DayLog}
    (h : Records before dir sink disk log) (enabled : Bool) :
    let after := sink.setEnabled ignoresCase disk enabled
    Records before dir after.1 after.2 (log.setEnabled enabled) ∧ Spares dir disk after.2 := by
  cases enabled with
  | true =>
      exact ⟨⟨h.place, rfl, rfl, h.closed,
        fun date hdate => ⟨(h.opened date hdate).file, (h.opened date hdate).lines⟩, h.kept⟩,
        fun _ _ => rfl⟩
  | false =>
      have hoff : Records before dir { sink with enabled := false } disk
          { log with enabled := false } :=
        ⟨h.place, rfl, h.warned, h.closed,
          fun date hdate => ⟨(h.opened date hdate).file, (h.opened date hdate).lines⟩, h.kept⟩
      obtain ⟨hflushed, hcomplete, hspares, -⟩ := flush_records ignoresCase hoff
      exact ⟨⟨hflushed.place, hflushed.enabled, rfl, fun _ => rfl,
        fun _ hdate => absurd hdate (by simp [DayLog.setEnabled]), fun date _ => hcomplete date⟩,
        hspares⟩

end

end OpenNtrip
