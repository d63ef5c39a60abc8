import OpenNtrip.Rust.Float
import Mathlib.Logic.Function.Basic

/-!
# Captures of corrections

`CaptureSink` and `capture_filename` of `logging.rs`, over a disk that several captures share. What
the calls of the sink mean is `CaptureHistory`: the connections that received data, each with its
bytes. The sink follows it (`run_follows`), but it truncates the file of an earlier connection that
began in the same second under the same name (`lossless_iff`).
-/

namespace OpenNtrip

/-- `LocalStamp`, as a local clock reads. -/
structure LocalStamp where
  year : Nat
  month : Fin 13
  day : Fin 32
  hour : Fin 24
  min : Fin 60
  sec : Fin 61
  deriving DecidableEq, Repr

/-- What `capture_filename` writes for the characters of a mountpoint. -/
def cleanChar (c : Char) : Char := if c.isAlphanum || c == '.' || c == '-' then c else '_'

/-- The part of `capture_filename` for the mountpoint. -/
def cleanMount (mount : Text) : Text :=
  let cleaned := mount.map cleanChar
  if cleaned = [] then "stream".toList else cleaned

/-- `capture_filename`. -/
def captureFilename (t : LocalStamp) (mount : Text) : Text :=
  padded 4 t.year ++ padded 2 t.month ++ padded 2 t.day ++ '_' ::
    (padded 2 t.hour ++ padded 2 t.min ++ padded 2 t.sec ++ '_' ::
      (cleanMount mount ++ ".rtcm".toList))

/-- A file: the directory that it is in, and its name there. -/
structure CaptureFile (D : Type) where
  dir : D
  name : Text
  deriving DecidableEq, Repr

/-- `CaptureTarget`. -/
inductive CaptureTarget (D : Type) where
  | dir (dir : D)
  | file (file : CaptureFile D)
  deriving DecidableEq, Repr

/-- The contents of the files on the disk. -/
abbrev Disk (D : Type) := CaptureFile D → Option Bytes

/-- A capture file that is open: what its `BufWriter` holds back, and the bytes counted. -/
structure OpenCapture (D : Type) where
  file : CaptureFile D
  pending : Bytes
  count : Nat
  deriving DecidableEq, Repr

/-- `CaptureSink`. -/
structure CaptureSink (D : Type) where
  armed : Option (CaptureTarget D × Text)
  opened : Option (OpenCapture D)
  dirty : Bool
  failed : Bool
  deriving DecidableEq, Repr

/-- The capacity of a `BufWriter`. -/
def bufCapacity : Nat := 8192

/-- `write_all` of a `BufWriter` that holds `pending`: what goes to the file, and what it holds
then. -/
def bufWrite (pending bytes : Bytes) : Bytes × Bytes :=
  let spare := bufCapacity - pending.length
  if bytes.length < spare then ([], pending ++ bytes)
  else
    let (flushed, held) := if spare < bytes.length then (pending, []) else ([], pending)
    if bufCapacity ≤ bytes.length then (flushed ++ bytes, held) else (flushed, held ++ bytes)

section

variable {D : Type} [DecidableEq D] (ignoresCase : Bool) (display : CaptureFile D → Text)

/-- A name as the file system compares it. -/
def foldName (name : Text) : Text := if ignoresCase then name.toAsciiLowercase else name

/-- Which file of the disk this is. -/
def CaptureFile.identity (file : CaptureFile D) : CaptureFile D :=
  { file with name := foldName ignoresCase file.name }

/-- `File::create`: a file that exists is truncated. -/
def Disk.create (disk : Disk D) (file : CaptureFile D) : Disk D :=
  Function.update disk (file.identity ignoresCase) (some [])

/-- A write at the end of a file. -/
def Disk.append (disk : Disk D) (file : CaptureFile D) (bytes : Bytes) : Disk D :=
  let file := file.identity ignoresCase
  Function.update disk file (some ((disk file).getD [] ++ bytes))

namespace CaptureSink

/-- `CaptureSink::new`. -/
def new : CaptureSink D where
  armed := none
  opened := none
  dirty := false
  failed := false

/-- The receipt of a capture. -/
def receipt (file : CaptureFile D) (count : Nat) : Text :=
  "Correction capture closed: ".toList ++ display file ++ " (".toList ++ decimalText count ++
    " bytes)".toList

/-- `end`. -/
def endCapture (sink : CaptureSink D) (disk : Disk D) : CaptureSink D × Disk D × Option Text :=
  match sink.opened with
  | none => ({ sink with armed := none, dirty := false }, disk, none)
  | some capture =>
    ({ sink with armed := none, dirty := false, opened := none },
      disk.append ignoresCase capture.file capture.pending,
      some (receipt display capture.file capture.count))

/-- `begin`. -/
def begin (sink : CaptureSink D) (disk : Disk D) (target : CaptureTarget D) (mount : Text) :
    CaptureSink D × Disk D × Option Text :=
  let (sink, disk, leftover) := sink.endCapture ignoresCase display disk
  ({ sink with armed := some (target, mount), failed := false }, disk, leftover)

/-- The part of `data` that writes to the open file. -/
def write (sink : CaptureSink D) (disk : Disk D) (bytes : Bytes) : CaptureSink D × Disk D :=
  match sink.opened with
  | none => (sink, disk)
  | some capture =>
    let (written, pending) := bufWrite capture.pending bytes
    ({ sink with
        opened := some { capture with pending, count := capture.count + bytes.length }
        dirty := true },
      disk.append ignoresCase capture.file written)

/-- `data`, where `now` is what the clock reads and `opens` is how the file opens, if it comes to
that. -/
def data (sink : CaptureSink D) (disk : Disk D) (now : LocalStamp) (opens : Except Text Unit)
    (bytes : Bytes) : CaptureSink D × Disk D × Option Text :=
  match sink.opened, sink.armed with
  | some _, _ =>
    let (sink, disk) := sink.write ignoresCase disk bytes
    (sink, disk, none)
  | none, none => (sink, disk, none)
  | none, some (target, mount) =>
    if sink.failed then (sink, disk, none)
    else
      let file := match target with
        | .file file => file
        | .dir dir => ⟨dir, captureFilename now mount⟩
      match opens with
      | .ok () =>
        let (sink, disk) := { sink with opened := some ⟨file, [], 0⟩ }.write ignoresCase
          (disk.create ignoresCase file) bytes
        (sink, disk, some ("Capturing corrections to ".toList ++ display file))
      | .error error =>
        ({ sink with failed := true }, disk,
          some ("Could not open capture file ".toList ++ display file ++ ": ".toList ++ error))

/-- `flush`. -/
def flush (sink : CaptureSink D) (disk : Disk D) : CaptureSink D × Disk D :=
  match sink.dirty, sink.opened with
  | true, some capture =>
    ({ sink with dirty := false, opened := some { capture with pending := [] } },
      disk.append ignoresCase capture.file capture.pending)
  | _, _ => ({ sink with dirty := false }, disk)

end CaptureSink

/-! ## Histories -/

/-- A call of the sink. With data comes what the clock reads then. -/
inductive CaptureEvent (D : Type) where
  | begin (dir : D) (mount : Text)
  | data (bytes : Bytes) (now : LocalStamp)
  | endCapture
  | flush
  deriving DecidableEq, Repr

/-- The sink, the disk, and what the sink has reported of captures that ended. -/
structure CaptureRun (D : Type) where
  sink : CaptureSink D
  disk : Disk D
  receipts : List Text

namespace CaptureRun

/-- One call, in which every file operation succeeds. -/
def next (run : CaptureRun D) : CaptureEvent D → CaptureRun D
  | .begin dir mount =>
    let (sink, disk, leftover) := run.sink.begin ignoresCase display run.disk (.dir dir) mount
    ⟨sink, disk, run.receipts ++ leftover.toList⟩
  | .data bytes now =>
    let (sink, disk, _) := run.sink.data ignoresCase display run.disk now (.ok ()) bytes
    { run with sink, disk }
  | .endCapture =>
    let (sink, disk, receipt) := run.sink.endCapture ignoresCase display run.disk
    ⟨sink, disk, run.receipts ++ receipt.toList⟩
  | .flush =>
    let (sink, disk) := run.sink.flush ignoresCase run.disk
    { run with sink, disk }

/-- The calls in order, from a new sink on. -/
def run (disk : Disk D) (history : List (CaptureEvent D)) : CaptureRun D :=
  history.foldl (next ignoresCase display) ⟨CaptureSink.new, disk, []⟩

end CaptureRun

end

/-! ## What the calls mean -/

/-- A connection that received data: where it is captured, its mountpoint, what the clock read at
its first data, and its bytes. -/
structure Connection (D : Type) where
  dir : D
  mount : Text
  stamp : LocalStamp
  bytes : Bytes
  deriving DecidableEq, Repr

/-- The connections that received data, those that ended and the one that goes on, and where the
next one is captured. -/
structure CaptureHistory (D : Type) where
  ended : List (Connection D)
  current : Option (Connection D)
  armed : Option (D × Text)
  deriving DecidableEq, Repr

namespace CaptureHistory

variable {D : Type}

/-- All connections that received data, in order. -/
def received (h : CaptureHistory D) : List (Connection D) := h.ended ++ h.current.toList

/-- The connection that goes on ends. -/
def close (h : CaptureHistory D) : CaptureHistory D := ⟨h.received, none, none⟩

/-- What one call means. -/
def next (h : CaptureHistory D) : CaptureEvent D → CaptureHistory D
  | .begin dir mount => { h.close with armed := some (dir, mount) }
  | .data bytes now =>
    match h.current, h.armed with
    | some c, _ => { h with current := some { c with bytes := c.bytes ++ bytes } }
    | none, some (dir, mount) => { h with current := some ⟨dir, mount, now, bytes⟩ }
    | none, none => h
  | .endCapture => h.close
  | .flush => h

/-- What a history means. -/
def of (history : List (CaptureEvent D)) : CaptureHistory D := history.foldl next ⟨[], none, none⟩

end CaptureHistory

namespace Connection

variable {D : Type} (ignoresCase : Bool)

/-- The file that the sink opens for a connection. -/
def file (c : Connection D) : CaptureFile D := ⟨c.dir, captureFilename c.stamp c.mount⟩

/-- Two connections in one directory that began in the same second, with mountpoints that are the
same when cleaned. -/
def Same (a b : Connection D) : Prop :=
  a.dir = b.dir ∧ a.stamp = b.stamp ∧
    foldName ignoresCase (cleanMount a.mount) = foldName ignoresCase (cleanMount b.mount)

end Connection

/-! ## The names of the files -/

theorem split_unique {c : Char} {s s' t t' : Text} (hs : c ∉ s) (hs' : c ∉ s')
    (h : s ++ c :: t = s' ++ c :: t') : s = s' ∧ t = t' := by
  have hsplit := congrArg (Text.splitOnce c) h
  rw [Text.split_once_append hs, Text.split_once_append hs'] at hsplit
  exact Prod.mk.inj (Option.some.inj hsplit)

theorem underscore_not_mem (width n a b : Nat) :
    '_' ∉ padded width n ++ padded 2 a ++ padded 2 b := by
  intro hmem
  have hdigit : Char.isDigit '_' = true := by
    rcases List.mem_append.mp hmem with hmem | hmem
    · exact (List.mem_append.mp hmem).elim padded_digit padded_digit
    · exact padded_digit hmem
  exact absurd hdigit (by decide)

/-- A number and two of two digits are told by their digits. -/
theorem padded_three_injective {width n n' a a' b b' : Nat} (ha : a < 100) (ha' : a' < 100)
    (hb : b < 100) (hb' : b' < 100)
    (h : padded width n ++ padded 2 a ++ padded 2 b =
      padded width n' ++ padded 2 a' ++ padded 2 b') : n = n' ∧ a = a' ∧ b = b' := by
  have hlength : ∀ m < 100, (padded 2 m).length = 2 := fun m hm => padded_length (by omega) hm
  obtain ⟨hfirst, hlast⟩ := List.append_inj' h ((hlength b hb).trans (hlength b' hb').symm)
  obtain ⟨hnumber, hmiddle⟩ := List.append_inj' hfirst ((hlength a ha).trans (hlength a' ha').symm)
  exact ⟨padded_injective hnumber, padded_injective hmiddle, padded_injective hlast⟩

section

variable (ignoresCase : Bool)

theorem fold_name_append (s t : Text) :
    foldName ignoresCase (s ++ t) = foldName ignoresCase s ++ foldName ignoresCase t := by
  unfold foldName
  split
  · exact List.map_append
  · rfl

theorem fold_name_same {s : Text} (h : s.map Char.toLower = s) : foldName ignoresCase s = s := by
  unfold foldName
  split
  · exact h
  · rfl

/-- Case matters in the mountpoint only. -/
theorem fold_capture_filename (t : LocalStamp) (mount : Text) :
    foldName ignoresCase (captureFilename t mount) =
      padded 4 t.year ++ padded 2 t.month ++ padded 2 t.day ++ '_' ::
        (padded 2 t.hour ++ padded 2 t.min ++ padded 2 t.sec ++ '_' ::
          (foldName ignoresCase (cleanMount mount) ++ ".rtcm".toList)) := by
  have hdigits : ∀ width n, foldName ignoresCase (padded width n) = padded width n := by
    intro width n
    have hsame : ∀ c ∈ padded width n, c.toLower = id c :=
      fun c hc => to_lower_digit (padded_digit hc)
    exact fold_name_same ignoresCase ((List.map_congr_left hsame).trans (List.map_id _))
  have hcons : ∀ rest, foldName ignoresCase ('_' :: rest) = '_' :: foldName ignoresCase rest := by
    intro rest
    rw [← List.singleton_append, fold_name_append, fold_name_same ignoresCase (s := ['_'])]
    · rfl
    · rfl
  have hextension : foldName ignoresCase ".rtcm".toList = ".rtcm".toList :=
    fold_name_same ignoresCase rfl
  rw [captureFilename]
  simp only [fold_name_append, hdigits, hcons, hextension]

/-- The name of a capture tells its second and its mountpoint, as far as that is left. -/
theorem fold_capture_filename_injective {t t' : LocalStamp} {mount mount' : Text}
    (h : foldName ignoresCase (captureFilename t mount) =
      foldName ignoresCase (captureFilename t' mount')) :
    t = t' ∧
      foldName ignoresCase (cleanMount mount) = foldName ignoresCase (cleanMount mount') := by
  rw [fold_capture_filename, fold_capture_filename] at h
  obtain ⟨hdate, hrest⟩ := split_unique (underscore_not_mem _ _ _ _)
    (underscore_not_mem _ _ _ _) h
  obtain ⟨htime, hmount⟩ := split_unique (underscore_not_mem _ _ _ _)
    (underscore_not_mem _ _ _ _) hrest
  obtain ⟨year, month, day, hour, min, sec⟩ := t
  obtain ⟨year', month', day', hour', min', sec'⟩ := t'
  obtain ⟨rfl, hmonth, hday⟩ := padded_three_injective (by omega) (by omega) (by omega) (by omega)
    hdate
  obtain ⟨hhour, hmin, hsec⟩ := padded_three_injective (by omega) (by omega) (by omega) (by omega)
    htime
  obtain rfl := Fin.ext hmonth
  obtain rfl := Fin.ext hday
  obtain rfl := Fin.ext hhour
  obtain rfl := Fin.ext hmin
  obtain rfl := Fin.ext hsec
  exact ⟨rfl, List.append_cancel_right hmount⟩

/-- Two connections are captured in one file exactly if they are the same. -/
theorem identity_eq_iff {D : Type} [DecidableEq D] {a b : Connection D} :
    a.file.identity ignoresCase = b.file.identity ignoresCase ↔ a.Same ignoresCase b := by
  constructor
  · intro h
    obtain ⟨hdir, hname⟩ := CaptureFile.mk.inj h
    obtain ⟨hstamp, hmount⟩ := fold_capture_filename_injective ignoresCase hname
    exact ⟨hdir, hstamp, hmount⟩
  · rintro ⟨hdir, hstamp, hmount⟩
    show CaptureFile.mk _ _ = CaptureFile.mk _ _
    congr 1
    show foldName ignoresCase (captureFilename a.stamp a.mount) =
      foldName ignoresCase (captureFilename b.stamp b.mount)
    rw [fold_capture_filename, fold_capture_filename, hstamp, hmount]

end

/-! ## The buffer -/

/-- Nothing is lost or reordered between the file and the buffer. -/
theorem buf_write_append (pending bytes : Bytes) :
    (bufWrite pending bytes).1 ++ (bufWrite pending bytes).2 = pending ++ bytes := by
  unfold bufWrite
  simp only
  split
  · rfl
  · next hfull =>
      by_cases hspare : bufCapacity - pending.length < bytes.length
      · rw [if_pos hspare]
        split
        · rw [List.append_nil]
        · rw [List.nil_append]
      · rw [if_neg hspare]
        split
        · -- a write past the buffer that is not flushed finds it empty
          next hbig =>
            have hpos : 0 < bufCapacity := by decide
            obtain rfl : pending = [] := List.length_eq_zero_iff.mp (by omega)
            rw [List.nil_append, List.append_nil]
        · rfl

section

variable {D : Type} [DecidableEq D] {ignoresCase : Bool} {disk : Disk D} {file : CaptureFile D}

theorem append_same {content : Bytes} (h : disk (file.identity ignoresCase) = some content)
    (bytes : Bytes) :
    disk.append ignoresCase file bytes (file.identity ignoresCase) = some (content ++ bytes) := by
  show Function.update disk _ _ _ = _
  rw [Function.update_self, h, Option.getD_some]

theorem append_other {other : CaptureFile D} (h : other ≠ file.identity ignoresCase)
    (bytes : Bytes) : disk.append ignoresCase file bytes other = disk other :=
  Function.update_of_ne h _ _

theorem create_same :
    disk.create ignoresCase file (file.identity ignoresCase) = some [] :=
  Function.update_self _ _ _

theorem create_other {other : CaptureFile D} (h : other ≠ file.identity ignoresCase) :
    disk.create ignoresCase file other = disk other :=
  Function.update_of_ne h _ _

end

/-! ## The sink follows the history -/

section

variable {D : Type} {ignoresCase : Bool} {display : CaptureFile D → Text}

/-- The connection is being captured: what is in its file and what the buffer holds are its
bytes. -/
structure Captures (ignoresCase : Bool) (sink : CaptureSink D) (disk : Disk D) (c : Connection D) :
    Prop where
  content : ∃ written pending, sink.opened = some ⟨c.file, pending, c.bytes.length⟩ ∧
    disk (c.file.identity ignoresCase) = some written ∧ written ++ pending = c.bytes

/-- The files of the connections that ended hold their bytes. -/
def Keeps (ignoresCase : Bool) (disk : Disk D) (ended : List (Connection D)) : Prop :=
  ∀ c ∈ ended, disk (c.file.identity ignoresCase) = some c.bytes

/-- No two connections are the same. -/
def Distinct (ignoresCase : Bool) (received : List (Connection D)) : Prop :=
  received.Pairwise fun a b => ¬ a.Same ignoresCase b

/-- The sink, the disk and the receipts are what the history says. The files of the connections that
ended are kept if no two connections are the same. -/
structure Follows (ignoresCase : Bool) (display : CaptureFile D → Text) (h : CaptureHistory D)
    (run : CaptureRun D) : Prop where
  armed : run.sink.armed = h.armed.map fun target => (.dir target.1, target.2)
  failed : run.sink.failed = false
  idle : h.current = none → run.sink.opened = none
  captures : ∀ c, h.current = some c → Captures ignoresCase run.sink run.disk c
  receipts : run.receipts =
    h.ended.map fun c => CaptureSink.receipt display c.file c.bytes.length
  keeps : Distinct ignoresCase h.received → Keeps ignoresCase run.disk h.ended

theorem received_none {h : CaptureHistory D} (hcurrent : h.current = none) :
    h.received = h.ended := by
  rw [CaptureHistory.received, hcurrent]
  exact List.append_nil _

theorem received_some {h : CaptureHistory D} {c : Connection D} (hcurrent : h.current = some c) :
    h.received = h.ended ++ [c] := by
  rw [CaptureHistory.received, hcurrent]
  rfl

/-- What is distinct stays so without the last connection. -/
theorem distinct_init {ended : List (Connection D)} {c : Connection D}
    (h : Distinct ignoresCase (ended ++ [c])) : Distinct ignoresCase ended :=
  (List.pairwise_append.mp h).1

/-- Whether connections are the same does not depend on their bytes. -/
theorem distinct_bytes {ended : List (Connection D)} {c : Connection D} (bytes : Bytes) :
    Distinct ignoresCase (ended ++ [{ c with bytes }]) ↔ Distinct ignoresCase (ended ++ [c]) := by
  unfold Distinct
  rw [List.pairwise_append, List.pairwise_append]
  simp only [List.pairwise_singleton, List.mem_singleton, forall_eq, Connection.Same]

theorem new_follows (disk : Disk D) :
    Follows ignoresCase display ⟨[], none, none⟩ ⟨CaptureSink.new, disk, []⟩ where
  armed := rfl
  failed := rfl
  idle := fun _ => rfl
  captures := fun c hc => absurd hc (by simp)
  receipts := rfl
  keeps := fun _ c hc => absurd hc (by simp)

variable [DecidableEq D]

/-- The last connection is not the same as one before it. -/
theorem distinct_concat {ended : List (Connection D)} {c : Connection D}
    (h : Distinct ignoresCase (ended ++ [c])) {a : Connection D} (ha : a ∈ ended) :
    a.file.identity ignoresCase ≠ c.file.identity ignoresCase := by
  intro heq
  have hnot := (List.pairwise_append.mp h).2.2 a ha c (List.mem_singleton_self c)
  exact hnot ((identity_eq_iff ignoresCase).mp heq)

/-- A write appends to the connection, and touches no other file. -/
theorem write_captures {sink : CaptureSink D} {disk : Disk D} {c : Connection D}
    (h : Captures ignoresCase sink disk c) (bytes : Bytes) :
    Captures ignoresCase (sink.write ignoresCase disk bytes).1
        (sink.write ignoresCase disk bytes).2 { c with bytes := c.bytes ++ bytes } ∧
      (sink.write ignoresCase disk bytes).1.armed = sink.armed ∧
      (sink.write ignoresCase disk bytes).1.failed = sink.failed ∧
      ∀ other, other ≠ c.file.identity ignoresCase →
        (sink.write ignoresCase disk bytes).2 other = disk other := by
  obtain ⟨written, pending, hopened, hdisk, hbytes⟩ := h.content
  have hwrite : sink.write ignoresCase disk bytes =
      ({ sink with
          opened := some ⟨c.file, (bufWrite pending bytes).2, c.bytes.length + bytes.length⟩
          dirty := true },
        disk.append ignoresCase c.file (bufWrite pending bytes).1) := by
    simp only [CaptureSink.write, hopened]
  rw [hwrite]
  refine ⟨⟨written ++ (bufWrite pending bytes).1, (bufWrite pending bytes).2, ?_, ?_, ?_⟩, rfl, rfl,
    fun other hother => append_other hother _⟩
  · rw [List.length_append]
    rfl
  · exact append_same hdisk _
  · rw [List.append_assoc, buf_write_append, ← List.append_assoc, hbytes]

/-- The first data of a connection creates its file, and touches no other. -/
theorem data_captures {sink : CaptureSink D} {disk : Disk D} {dir : D} {mount : Text}
    (hopened : sink.opened = none) (harmed : sink.armed = some (.dir dir, mount))
    (hfailed : sink.failed = false) (now : LocalStamp) (bytes : Bytes) :
    let after := sink.data ignoresCase display disk now (.ok ()) bytes
    let c : Connection D := ⟨dir, mount, now, bytes⟩
    Captures ignoresCase after.1 after.2.1 c ∧ after.1.armed = sink.armed ∧
      after.1.failed = false ∧
      ∀ other, other ≠ c.file.identity ignoresCase → after.2.1 other = disk other := by
  obtain ⟨armed, opened, dirty, failed⟩ := sink
  obtain rfl : opened = none := hopened
  obtain rfl : armed = some (.dir dir, mount) := harmed
  obtain rfl : failed = false := hfailed
  have hcreated : Captures ignoresCase
      ⟨some (.dir dir, mount), some ⟨⟨dir, captureFilename now mount⟩, [], 0⟩, dirty, false⟩
      (disk.create ignoresCase ⟨dir, captureFilename now mount⟩) ⟨dir, mount, now, []⟩ :=
    ⟨[], [], rfl, create_same, rfl⟩
  obtain ⟨hcaptures, harmed, hfailed, hother⟩ := write_captures hcreated bytes
  refine ⟨hcaptures, harmed, hfailed, fun other happart => ?_⟩
  exact (hother other happart).trans (create_other happart)

variable {h : CaptureHistory D} {run : CaptureRun D}

/-- The end of a connection completes its file, and is receipted. -/
theorem end_follows (hfollows : Follows ignoresCase display h run) :
    Follows ignoresCase display h.close (run.next ignoresCase display .endCapture) := by
  cases hcurrent : h.current with
  | none =>
      have hopened := hfollows.idle hcurrent
      have hreceived := received_none hcurrent
      have hnext : run.next ignoresCase display .endCapture =
          ⟨{ run.sink with armed := none, dirty := false }, run.disk, run.receipts⟩ := by
        simp only [CaptureRun.next, CaptureSink.endCapture, hopened, Option.toList_none,
          List.append_nil]
      rw [hnext, CaptureHistory.close, hreceived]
      refine ⟨rfl, hfollows.failed, fun _ => hopened, fun c hc => absurd hc (by simp),
        hfollows.receipts, fun hdistinct => hfollows.keeps ?_⟩
      rw [hreceived]
      simpa [CaptureHistory.received] using hdistinct
  | some c =>
      obtain ⟨written, pending, hopened, hdisk, hbytes⟩ := (hfollows.captures c hcurrent).content
      have hreceived := received_some hcurrent
      have hnext : run.next ignoresCase display .endCapture =
          ⟨{ run.sink with armed := none, dirty := false, opened := none },
            run.disk.append ignoresCase c.file pending,
            run.receipts ++ [CaptureSink.receipt display c.file c.bytes.length]⟩ := by
        simp only [CaptureRun.next, CaptureSink.endCapture, hopened, Option.toList_some]
      rw [hnext, CaptureHistory.close, hreceived]
      refine ⟨rfl, hfollows.failed, fun _ => rfl, fun c hc => absurd hc (by simp), ?_, ?_⟩
      · show run.receipts ++ _ = (h.ended ++ [c]).map _
        rw [hfollows.receipts, List.map_append]
        rfl
      · intro hdistinct a ha
        have hdistinct : Distinct ignoresCase (h.ended ++ [c]) := by
          simpa [CaptureHistory.received] using hdistinct
        rcases List.mem_append.mp ha with ha | ha
        · show run.disk.append ignoresCase c.file pending (a.file.identity ignoresCase) = _
          rw [append_other (distinct_concat hdistinct ha)]
          exact hfollows.keeps (hreceived ▸ hdistinct) a ha
        · obtain rfl := List.mem_singleton.mp ha
          show run.disk.append ignoresCase a.file pending (a.file.identity ignoresCase) = _
          rw [append_same hdisk, hbytes]

/-- A connection is armed after the one before it has ended. -/
theorem begin_follows (hfollows : Follows ignoresCase display h run) (dir : D) (mount : Text) :
    Follows ignoresCase display (h.next (.begin dir mount))
      (run.next ignoresCase display (.begin dir mount)) := by
  have hend := end_follows hfollows
  refine ⟨rfl, rfl, hend.idle, fun c hc => ?_, hend.receipts, hend.keeps⟩
  exact absurd (show none = some c from hc) (by simp)

/-- Data of a connection whose capture has begun. -/
theorem data_follows_later (hfollows : Follows ignoresCase display h run) {c : Connection D}
    (hcurrent : h.current = some c) (bytes : Bytes) (now : LocalStamp) :
    Follows ignoresCase display (h.next (.data bytes now))
      (run.next ignoresCase display (.data bytes now)) := by
  obtain ⟨_, _, hopened, _⟩ := (hfollows.captures c hcurrent).content
  obtain ⟨hcaptures, harmed, hfailed, hother⟩ :=
    write_captures (hfollows.captures c hcurrent) bytes
  have hnext : run.next ignoresCase display (.data bytes now) =
      ⟨(run.sink.write ignoresCase run.disk bytes).1,
        (run.sink.write ignoresCase run.disk bytes).2, run.receipts⟩ := by
    simp only [CaptureRun.next, CaptureSink.data, hopened]
  have hhistory : h.next (.data bytes now) =
      ⟨h.ended, some { c with bytes := c.bytes ++ bytes }, h.armed⟩ := by
    simp only [CaptureHistory.next, hcurrent]
  rw [hnext, hhistory]
  refine ⟨harmed.trans hfollows.armed, hfailed.trans hfollows.failed,
    fun hnone => absurd hnone (by simp), ?_, hfollows.receipts, ?_⟩
  · intro c' hc'
    obtain rfl := Option.some.inj hc'
    exact hcaptures
  · intro hdistinct a ha
    have hdistinct : Distinct ignoresCase (h.ended ++ [c]) := (distinct_bytes _).mp hdistinct
    exact (hother _ (distinct_concat hdistinct ha)).trans
      (hfollows.keeps (received_some hcurrent ▸ hdistinct) a ha)

/-- The first data of a connection. -/
theorem data_follows_first (hfollows : Follows ignoresCase display h run)
    (hcurrent : h.current = none) {dir : D} {mount : Text} (htarget : h.armed = some (dir, mount))
    (bytes : Bytes) (now : LocalStamp) :
    Follows ignoresCase display (h.next (.data bytes now))
      (run.next ignoresCase display (.data bytes now)) := by
  have harmed : run.sink.armed = some (.dir dir, mount) := by
    rw [hfollows.armed, htarget]
    rfl
  obtain ⟨hcaptures, harmed', hfailed', hother⟩ :=
    data_captures (hfollows.idle hcurrent) harmed hfollows.failed now bytes
  have hhistory : h.next (.data bytes now) =
      ⟨h.ended, some ⟨dir, mount, now, bytes⟩, some (dir, mount)⟩ := by
    simp only [CaptureHistory.next, hcurrent, htarget]
  rw [hhistory]
  refine ⟨harmed'.trans harmed, hfailed', fun hnone => absurd hnone (by simp), ?_,
    hfollows.receipts, ?_⟩
  · intro c hc
    obtain rfl := Option.some.inj hc
    exact hcaptures
  · intro hdistinct a ha
    refine (hother _ (distinct_concat hdistinct ha)).trans ?_
    exact hfollows.keeps (received_none hcurrent ▸ distinct_init hdistinct) a ha

/-- Data begins the capture of a connection, or goes on with it. Without a connection it is
ignored. -/
theorem data_follows (hfollows : Follows ignoresCase display h run) (bytes : Bytes)
    (now : LocalStamp) :
    Follows ignoresCase display (h.next (.data bytes now))
      (run.next ignoresCase display (.data bytes now)) := by
  cases hcurrent : h.current with
  | some c => exact data_follows_later hfollows hcurrent bytes now
  | none =>
      cases htarget : h.armed with
      | some target => exact data_follows_first hfollows hcurrent htarget bytes now
      | none =>
          have hopened := hfollows.idle hcurrent
          have harmed : run.sink.armed = none := by
            rw [hfollows.armed, htarget]
            rfl
          have hnext : run.next ignoresCase display (.data bytes now) = run := by
            simp only [CaptureRun.next, CaptureSink.data, hopened, harmed]
          have hhistory : h.next (.data bytes now) = h := by
            simp only [CaptureHistory.next, hcurrent, htarget]
          rw [hnext, hhistory]
          exact hfollows

/-- A flush without an open file does nothing to the disk. -/
theorem flush_idle {sink : CaptureSink D} (disk : Disk D) (hopened : sink.opened = none) :
    sink.flush ignoresCase disk = ({ sink with dirty := false }, disk) := by
  obtain ⟨armed, opened, dirty, failed⟩ := sink
  obtain rfl : opened = none := hopened
  cases dirty with
  | true => rfl
  | false => rfl

/-- A flush moves what the buffer holds to the file. -/
theorem flush_follows (hfollows : Follows ignoresCase display h run) :
    Follows ignoresCase display h (run.next ignoresCase display .flush) := by
  cases hcurrent : h.current with
  | none =>
      have hopened := hfollows.idle hcurrent
      have hnext : run.next ignoresCase display .flush =
          { run with sink := { run.sink with dirty := false } } := by
        rw [CaptureRun.next, flush_idle _ hopened]
      rw [hnext]
      refine ⟨hfollows.armed, hfollows.failed, fun _ => hopened, fun c hc => ?_, hfollows.receipts,
        hfollows.keeps⟩
      exact absurd (hcurrent.symm.trans hc) (by simp)
  | some c =>
      obtain ⟨written, pending, hopened, hdisk, hbytes⟩ := (hfollows.captures c hcurrent).content
      cases hdirty : run.sink.dirty with
      | false =>
          have hnext : run.next ignoresCase display .flush =
              { run with sink := { run.sink with dirty := false } } := by
            simp only [CaptureRun.next, CaptureSink.flush, hopened, hdirty]
          rw [hnext]
          refine ⟨hfollows.armed, hfollows.failed, hfollows.idle, fun c' hc' => ?_,
            hfollows.receipts, hfollows.keeps⟩
          obtain rfl := Option.some.inj (hcurrent.symm.trans hc')
          exact ⟨written, pending, hopened, hdisk, hbytes⟩
      | true =>
          have hnext : run.next ignoresCase display .flush =
              { run with
                sink := { run.sink with
                  dirty := false
                  opened := some ⟨c.file, [], c.bytes.length⟩ }
                disk := run.disk.append ignoresCase c.file pending } := by
            simp only [CaptureRun.next, CaptureSink.flush, hopened, hdirty]
          rw [hnext]
          refine ⟨hfollows.armed, hfollows.failed, fun hnone => ?_, fun c' hc' => ?_,
            hfollows.receipts, fun hdistinct a ha => ?_⟩
          · exact absurd (hcurrent.symm.trans hnone) (by simp)
          · obtain rfl := Option.some.inj (hcurrent.symm.trans hc')
            refine ⟨written ++ pending, [], rfl, append_same hdisk pending, ?_⟩
            rw [List.append_nil, hbytes]
          · have happart := distinct_concat (received_some hcurrent ▸ hdistinct) ha
            exact (append_other happart pending).trans (hfollows.keeps hdistinct a ha)

/-- After every history, the sink has done what the history means. -/
theorem run_follows (disk : Disk D) (history : List (CaptureEvent D)) :
    Follows ignoresCase display (.of history) (.run ignoresCase display disk history) := by
  induction history using List.reverseRecOn with
  | nil => exact new_follows disk
  | append_singleton history event ih =>
      have hrun : CaptureRun.run ignoresCase display disk (history ++ [event]) =
          (CaptureRun.run ignoresCase display disk history).next ignoresCase display event := by
        rw [CaptureRun.run, List.foldl_append]
        rfl
      have hhistory : CaptureHistory.of (history ++ [event]) =
          (CaptureHistory.of history).next event := by
        rw [CaptureHistory.of, List.foldl_append]
        rfl
      rw [hrun, hhistory]
      cases event with
      | begin dir mount => exact begin_follows ih dir mount
      | data bytes now => exact data_follows ih bytes now
      | endCapture => exact end_follows ih
      | flush => exact flush_follows ih

/-- Nothing of a capture is lost. Every connection that received data has a file of its own. Once it
has ended, its bytes are in this file and their number is receipted. While it goes on, they are in
the file and the buffer. -/
structure Lossless (ignoresCase : Bool) (display : CaptureFile D → Text) (h : CaptureHistory D)
    (run : CaptureRun D) : Prop where
  own : h.received.Pairwise fun a b => a.file.identity ignoresCase ≠ b.file.identity ignoresCase
  ended : Keeps ignoresCase run.disk h.ended
  current : ∀ c, h.current = some c → Captures ignoresCase run.sink run.disk c
  receipts : run.receipts =
    h.ended.map fun c => CaptureSink.receipt display c.file c.bytes.length

/-- Captures are lossless exactly if no two connections that received data are captured in one
directory, began in the same second, and have the same mountpoint when cleaned. -/
theorem lossless_iff (ignoresCase : Bool) (display : CaptureFile D → Text) (disk : Disk D)
    (history : List (CaptureEvent D)) :
    Lossless ignoresCase display (.of history) (.run ignoresCase display disk history) ↔
      Distinct ignoresCase (CaptureHistory.of history).received := by
  have hfollows : Follows ignoresCase display (.of history)
    (.run ignoresCase display disk history) := run_follows disk history
  have hown : (CaptureHistory.of history).received.Pairwise
      (fun a b => a.file.identity ignoresCase ≠ b.file.identity ignoresCase) ↔
        Distinct ignoresCase (CaptureHistory.of history).received := by
    simp only [ne_eq, identity_eq_iff, Distinct]
  constructor
  · intro h
    exact hown.mp h.own
  · intro hdistinct
    exact ⟨hown.mpr hdistinct, hfollows.keeps hdistinct, hfollows.captures, hfollows.receipts⟩

end

/-- A connection that begins in the second in which one with the same mountpoint began. -/
def sameSecond : List (CaptureEvent Unit) :=
  [.begin () "RTCM3".toList, .data [0xD3] ⟨2026, 10, 25, 2, 30, 0⟩, .endCapture,
    .begin () "RTCM3".toList, .data [0xD4] ⟨2026, 10, 25, 2, 30, 0⟩, .endCapture]

/-- Its capture destroys the one before it. -/
theorem same_second_destroys :
    ¬ Lossless false CaptureFile.name (.of sameSecond)
        (.run false CaptureFile.name (fun _ => none) sameSecond) ∧
      (CaptureRun.run false CaptureFile.name (fun _ => none) sameSecond).disk
        ⟨(), "20261025_023000_RTCM3.rtcm".toList⟩ = some [0xD4] := by
  have hdisk : (CaptureRun.run false CaptureFile.name (fun _ => none) sameSecond).disk
      ⟨(), "20261025_023000_RTCM3.rtcm".toList⟩ = some [0xD4] := by decide
  refine ⟨fun h => ?_, hdisk⟩
  have hfirst := h.ended ⟨(), "RTCM3".toList, ⟨2026, 10, 25, 2, 30, 0⟩, [0xD3]⟩ (by decide)
  exact absurd (hdisk.symm.trans hfirst) (by decide)

end OpenNtrip
