import OpenNtrip.App.Hub
import OpenNtrip.App.LoggerFiles
import OpenNtrip.App.ReportRuns

/-!
# Captures of a run

The worker tells the logger what to capture, beside handing the blocks on. `capture_commands` says
that the commands of a run are those of its connections, one capture for each with exactly the
blocks that were delivered on it. `delivered_captured` follows them through the logger thread to the
files.
-/

namespace OpenNtrip

open Observer

variable {D F32 : Type}

/-- What the reports tell of the captures: the blocks delivered on each connection that ended and on
the one that goes on, and the commands to the logger. -/
structure Tape (D : Type) where
  ended : List (List Bytes) := []
  current : Option (List Bytes) := none
  commands : List (LogCmd D) := []

namespace Tape

/-- The connections, in order. -/
def connections (t : Tape D) : List (List Bytes) := t.ended ++ t.current.toList

/-- What a report adds. -/
def note (t : Tape D) : Report D F32 → Tape D
  | .post (.status .waitingForData) => { t with ended := t.connections, current := some [] }
  | .post (.push block) => { t with current := t.current.map (· ++ [block]) }
  | .capture cmd => { t with commands := t.commands ++ [cmd] }
  | _ => t

end Tape

/-- The blocks that the reports deliver, connection by connection. -/
def delivered (reports : List (Report D F32)) : List (List Bytes) :=
  (reports.foldl Tape.note ({} : Tape D)).connections

/-- A report's command about a capture. -/
def Report.capture? : Report D F32 → Option (LogCmd D)
  | .capture cmd => some cmd
  | _ => none

/-- The commands that capture the blocks of a connection which goes on. -/
def openCapture (target : Option (CaptureTarget D)) (mount : Text) (blocks : List Bytes) :
    List (LogCmd D) :=
  target.toList.flatMap fun target => .captureBegin target mount :: blocks.map .captureData

/-- Those of a connection that ended. -/
def wholeCapture (target : Option (CaptureTarget D)) (mount : Text) (blocks : List Bytes) :
    List (LogCmd D) :=
  openCapture target mount blocks ++ target.toList.map fun _ => .captureEnd

namespace Tape

variable {target : Option (CaptureTarget D)} {mount : Text} {t : Tape D}

/-- No connection is open, and each was captured. -/
structure Idle (target : Option (CaptureTarget D)) (mount : Text) (cx : Cx) (t : Tape D) :
    Prop where
  job : cx.job.mountpoint = mount
  commands : t.commands = t.connections.flatMap (wholeCapture target mount)

/-- A connection is open, and captured as far as it came. -/
structure Live (target : Option (CaptureTarget D)) (mount : Text) (t : Tape D) : Prop where
  commands : ∃ blocks, t.current = some blocks ∧
    t.commands = t.ended.flatMap (wholeCapture target mount) ++ openCapture target mount blocks

/-- An open connection of the worker. -/
def Pending (target : Option (CaptureTarget D)) (mount : Text) (w : Worker) (_ : List Output)
    (t : Tape D) : Prop :=
  w.cx.job.mountpoint = mount ∧ t.Live target mount

theorem open_capture_append (blocks : List Bytes) (block : Bytes) :
    openCapture target mount (blocks ++ [block]) =
      openCapture target mount blocks ++ target.toList.map fun _ => .captureData block := by
  cases target with
  | none => rfl
  | some target => simp [openCapture]

/-- Reports that are neither deliveries nor captures nor about a connection. -/
theorem quiet_note {r : Report D F32} (h : r.quiet = true) (t : Tape D) : t.note r = t := by
  cases r with
  | post p =>
      cases p with
      | status status =>
          cases status with
          | waitingForData => simp [Report.quiet] at h
          | _ => rfl
      | push block => simp [Report.quiet] at h
      | _ => rfl
  | capture cmd => simp [Report.quiet] at h
  | _ => rfl

/-- A block is captured as it is delivered. -/
theorem live_push (block : Bytes) (h : t.Live target mount) {quiet quiet' : List (Report D F32)}
    (hquiet : ∀ t : Tape D, ∀ r ∈ quiet, t.note r = t)
    (hquiet' : ∀ t : Tape D, ∀ r ∈ quiet', t.note r = t) :
    Leads note (fun _ _ => True) (Live target mount) t
      (quiet ++ [.post (.push block)] ++ quiet' ++
        if target.isSome then [.capture (.captureData block)] else []) := by
  obtain ⟨blocks, hcurrent, hcommands⟩ := h.commands
  have hfirst : Leads note (fun _ _ => True) (· = t) t quiet :=
    leads_quiet (fun r hr => ⟨hquiet t r hr, trivial⟩) rfl
  let pushed : Tape D := { t with current := some (blocks ++ [block]) }
  have hpushed : t.note (.post (.push block) : Report D F32) = pushed := by
    simp only [note, hcurrent]
    rfl
  have hpush : Leads note (fun _ _ => True) (· = pushed) t
      (quiet ++ [.post (.push block)]) := by
    refine hfirst.append fun t' ht' => ?_
    subst ht'
    exact .cons trivial (.nil hpushed)
  have hquieted : Leads note (fun _ _ => True) (· = pushed) t
      (quiet ++ [.post (.push block)] ++ quiet') := by
    refine hpush.append fun t' ht' => ?_
    exact leads_quiet (fun r hr => ⟨hquiet' t' r hr, trivial⟩) ht'
  refine hquieted.append fun t' ht' => ?_
  subst ht'
  cases target with
  | none => exact .nil ⟨blocks ++ [block], rfl, hcommands⟩
  | some target =>
      refine .cons trivial (.nil ⟨blocks ++ [block], rfl, ?_⟩)
      show t.commands ++ [.captureData block] = _
      rw [hcommands, open_capture_append, List.append_assoc]
      rfl

theorem flat_map_whole (ended : List (List Bytes)) (blocks : List Bytes) :
    (ended ++ [blocks]).flatMap (wholeCapture target mount) =
      ended.flatMap (wholeCapture target mount) ++ wholeCapture target mount blocks := by
  simp

variable (target mount) in
/-- The tape is a reader of the run. -/
theorem reads : QuietReader target (@note D F32) (fun _ _ => True) (Idle target mount)
    (Pending target mount) (Live target mount)
    fun t => t.commands = t.connections.flatMap (wholeCapture target mount) where
  quiet b r hquiet := ⟨quiet_note hquiet b, trivial⟩
  kept w o rest around b _ h := by
    refine ⟨?_, h.2⟩
    rw [Worker.dispatch_one_job]
    exact h.1
  corrections w n bytes rest around readings b h := by
    have hjob := Worker.dispatch_one_job w (.corrections bytes) around
    obtain ⟨frames, crcFailures, due, batch, hparts⟩ :=
      @correction_reports_parts D F32 target w n bytes around readings
    have hfirst : ∀ t : Tape D, ∀ r ∈ (w.firstReports n.conn around readings :
        List (Report D F32)), t.note r = t := by
      intro t r hr
      unfold Worker.firstReports at hr
      split at hr
      · simp at hr
      · rcases List.mem_pair.mp hr with rfl | rfl
        · rfl
        · rfl
    have hrest : ∀ t : Tape D, ∀ r ∈ ((trafficMark w.cx.totalBytes
          (w.cx.totalBytes + bytes.length)).toList.map fun mark =>
        (.event (.milestone mark frames crcFailures) : Report D F32)) ++
          ((if due then [.post (.rtcm batch)] else []) ++
            [.post (.rxBytes (w.cx.totalBytes + bytes.length))]), t.note r = t := by
      intro t r hr
      rcases List.mem_append.mp hr with hr | hr
      · obtain ⟨mark, -, rfl⟩ := List.mem_map.mp hr
        rfl
      · rcases List.mem_append.mp hr with hr | hr
        · split at hr
          · rw [List.mem_singleton.mp hr]
            rfl
          · simp at hr
        · rw [List.mem_singleton.mp hr]
          rfl
    have hpush := live_push bytes h.2 hfirst fun t r hr =>
      quiet_note (Quiet.overrun n.run around.pushed readings.overrunAt r hr) t
    rw [hparts, List.append_assoc, List.append_assoc]
    refine hpush.append fun t' ht' => ?_
    exact leads_quiet (fun r hr => ⟨hrest t' r hr, trivial⟩)
      ⟨(congrArg NtripJob.mountpoint hjob).trans h.1, ht'⟩
  turned w next b h _ := by
    refine ⟨?_, h.2⟩
    rw [(Worker.turn_same w next).1.job]
    exact h.1
  close w b ended h _ := by
    obtain ⟨blocks, hcurrent, hcommands⟩ := h.2.commands
    have hconnections : b.connections = b.ended ++ [blocks] := by
      rw [connections, hcurrent]
      rfl
    cases target with
    | none =>
        refine .nil ⟨h.1, ?_⟩
        rw [hcommands, hconnections, flat_map_whole]
        rfl
    | some target =>
        refine .cons trivial (.nil ⟨h.1, ?_⟩)
        show b.commands ++ [.captureEnd] = b.connections.flatMap _
        rw [hcommands, hconnections, flat_map_whole, List.append_assoc]
        rfl
  same cx cx' b hkept h := ⟨by rw [hkept.job, h.job], h.commands⟩
  opened cx b openedAt firstTick h := by
    have hopened : Leads note (fun _ _ => True)
        (· = { b with ended := b.connections, current := some [] }) b
        [.event .connected, (.post (.status .waitingForData) : Report D F32)] :=
      .cons trivial (.cons trivial (.nil rfl))
    refine hopened.append fun t' ht' => ?_
    subst ht'
    cases target with
    | none => exact .nil ⟨h.job, [], rfl, h.commands.trans (List.append_nil _).symm⟩
    | some target =>
        refine .cons trivial (.nil ⟨h.job, [], rfl, ?_⟩)
        show b.commands ++ [.captureBegin target cx.job.mountpoint] = _
        rw [h.commands, h.job]
        rfl
  live w b h := h.2
  stopped cx b summary failed h := .cons trivial (.nil h.commands)

end Tape

/-- The commands among the reports are those on the tape. -/
theorem tape_commands (reports : List (Report D F32)) (t : Tape D) :
    (reports.foldl Tape.note t).commands = t.commands ++ reports.filterMap Report.capture? := by
  induction reports generalizing t with
  | nil => simp
  | cons r rest ih =>
      rw [List.foldl_cons, ih]
      cases r with
      | capture cmd => simp [Tape.note, Report.capture?]
      | post p =>
          cases p with
          | status status =>
              cases status with
              | _ => rfl
          | _ => rfl
      | _ => rfl

/-- The captures of a run are its connections: one for each, with the blocks that were delivered on
it, and all but one that goes on are ended. -/
theorem capture_commands [Inhabited F32] (render : Rendering F32)
    (target : Option (CaptureTarget D)) (job : NtripJob) (allowInvalidCerts : Bool)
    (attempts : List Cx.Attempt) (readings : Nat → AttemptReadings) :
    let reports := Cx.superviseReports render target { job } allowInvalidCerts {} attempts readings
    match ((Cx.supervise { job } attempts).2.2) with
    | .connected => ∃ ended blocks, delivered reports = ended ++ [blocks] ∧
      reports.filterMap Report.capture? =
        ended.flatMap (wholeCapture target job.mountpoint) ++
          openCapture target job.mountpoint blocks
    | _ => reports.filterMap Report.capture? =
      (delivered reports).flatMap (wholeCapture target job.mountpoint) := by
  intro reports
  have hidle : Tape.Idle target job.mountpoint { job } {} := ⟨rfl, rfl⟩
  obtain ⟨-, hend⟩ := ((@Tape.reads D F32 target job.mountpoint).reads render).supervise
    (n := {}) hidle allowInvalidCerts attempts readings
  have hcommands := tape_commands reports ({} : Tape D)
  rw [List.nil_append] at hcommands
  split
  · next hcourse =>
      rw [hcourse] at hend
      obtain ⟨blocks, hcurrent, hopen⟩ := hend.commands
      refine ⟨_, blocks, ?_, hcommands.symm.trans hopen⟩
      rw [delivered, Tape.connections, hcurrent]
      rfl
  · next hcourse =>
      rw [← hcommands]
      split at hend
      · next hconnected => exact absurd hconnected hcourse
      · exact hend
      · obtain ⟨cx', n', hidle'⟩ := hend
        exact hidle'.commands

/-! ## Through the logger -/

/-- A command that is about a capture. -/
def LogCmd.capture? : LogCmd D → Option (LogCmd D)
  | .captureBegin target mount => some (.captureBegin target mount)
  | .captureData bytes => some (.captureData bytes)
  | .captureEnd => some .captureEnd
  | _ => none

/-- The command about a capture that a turn of the logger thread takes. -/
def LogTurn.captureCommand? (t : LogTurn D) : Option (LogCmd D) :=
  match t.received with
  | .command cmd => cmd.capture?
  | _ => none

/-- What the hub tells the logger of a report is about a capture if the report is. -/
theorem to_logger_capture [Inhabited F32] (render : Rendering F32) (sentAt : LocalStamp)
    {r : Report D F32} (h : ∀ cmd, r = .capture cmd → cmd.capture? = some cmd) :
    (r.toLogger render sentAt).bind LogCmd.capture? = r.capture? := by
  cases r with
  | capture cmd => exact h cmd rfl
  | _ => rfl

/-- What is captured, without where and when. -/
structure Content where
  ended : List Bytes := []
  current : Option Bytes := none
  armed : Bool := false

namespace Content

def received (c : Content) : List Bytes := c.ended ++ c.current.toList

def next (c : Content) : LogCmd D → Content
  | .captureBegin _ _ => { ended := c.received, current := none, armed := true }
  | .captureData bytes =>
    match c.current, c.armed with
    | some before, _ => { c with current := some (before ++ bytes) }
    | none, true => { c with current := some bytes }
    | none, false => c
  | .captureEnd => { ended := c.received, current := none, armed := false }
  | _ => c

/-- What the blocks of a connection leave: nothing if there are none. -/
def ofBlocks (blocks : List Bytes) : Option Bytes :=
  if blocks = [] then none else some blocks.flatten

theorem blocks_of_capture (blocks : List Bytes) (c : Content) (harmed : c.armed = true) :
    (blocks.map LogCmd.captureData).foldl (next (D := D)) c =
      { c with current := match c.current with
          | some before => some (before ++ blocks.flatten)
          | none => ofBlocks blocks } := by
  induction blocks generalizing c with
  | nil =>
      obtain ⟨ended, current, armed⟩ := c
      cases current with
      | none => rfl
      | some before => simp
  | cons block rest ih =>
      obtain ⟨ended, current, armed⟩ := c
      obtain rfl : armed = true := harmed
      cases current with
      | none =>
          rw [List.map_cons, List.foldl_cons]
          refine (ih _ rfl).trans ?_
          simp [ofBlocks, next]
      | some before =>
          rw [List.map_cons, List.foldl_cons]
          refine (ih _ rfl).trans ?_
          simp [next]

variable (dir : D) (mount : Text)

theorem of_open (blocks : List Bytes) (c : Content) :
    (openCapture (some (.dir dir)) mount blocks).foldl next c =
      { ended := c.received, current := ofBlocks blocks, armed := true } := by
  have hblocks := blocks_of_capture (D := D) blocks
    { ended := c.received, current := none, armed := true } rfl
  simpa [openCapture, next] using hblocks

theorem of_whole (connections : List (List Bytes)) (c : Content) (hidle : c.current = none) :
    ((connections.flatMap (wholeCapture (some (.dir dir)) mount)).foldl next c).ended =
        c.ended ++ connections.filterMap ofBlocks ∧
      ((connections.flatMap (wholeCapture (some (.dir dir)) mount)).foldl next c).current =
        none := by
  induction connections generalizing c with
  | nil => simp [hidle]
  | cons blocks rest ih =>
      rw [List.flatMap_cons, List.foldl_append]
      let after : Content :=
        { ended := c.ended ++ (ofBlocks blocks).toList, current := none, armed := false }
      have hone : (wholeCapture (some (.dir dir)) mount blocks).foldl next c = after := by
        rw [wholeCapture, List.foldl_append, of_open]
        simp [received, hidle, next, after]
      rw [hone]
      obtain ⟨hended, hcurrent⟩ := ih after rfl
      refine ⟨?_, hcurrent⟩
      rw [hended, List.append_assoc]
      congr 1
      cases hblocks : ofBlocks blocks with
      | none => simp [hblocks]
      | some bytes => simp [hblocks]

/-- A history holds the contents, all captured in one directory for one mountpoint. -/
structure Holds (h : CaptureHistory D) (c : Content) : Prop where
  ended : h.ended.map Connection.bytes = c.ended
  current : h.current.map Connection.bytes = c.current
  armed : h.armed.isSome = c.armed
  placed : ∀ connection ∈ h.received, connection.dir = dir ∧ connection.mount = mount
  place : ∀ place, h.armed = some place → place = (dir, mount)

variable {dir mount} {h : CaptureHistory D} {c : Content}

theorem Holds.received (holds : Holds dir mount h c) :
    h.received.map Connection.bytes = c.received := by
  rw [CaptureHistory.received, List.map_append, Content.received, holds.ended, ← holds.current]
  cases h.current with
  | none => rfl
  | some connection => rfl

theorem Holds.data (holds : Holds dir mount h c) (bytes : Bytes) (now : LocalStamp) :
    Holds dir mount (h.next (.data bytes now)) (c.next (.captureData bytes : LogCmd D)) := by
  obtain ⟨hended, hcurrent, harmed, hplaced, hplace⟩ := holds
  obtain ⟨ended, current, armed⟩ := h
  obtain ⟨ended', current', armed'⟩ := c
  cases current with
  | some connection =>
      obtain rfl : some connection.bytes = current' := hcurrent
      refine ⟨hended, rfl, harmed, fun other hmem => ?_, hplace⟩
      rcases List.mem_append.mp hmem with hmem | hmem
      · exact hplaced other (List.mem_append_left _ hmem)
      · rw [List.mem_singleton.mp hmem]
        exact hplaced connection (List.mem_append_right _ (List.mem_singleton_self _))
  | none =>
      obtain rfl : none = current' := hcurrent
      obtain rfl : armed.isSome = armed' := harmed
      cases armed with
      | none => exact ⟨hended, rfl, rfl, hplaced, hplace⟩
      | some place =>
          obtain rfl := hplace place rfl
          refine ⟨hended, rfl, rfl, fun other hmem => ?_, hplace⟩
          rcases List.mem_append.mp hmem with hmem | hmem
          · exact hplaced other (List.mem_append_left _ hmem)
          · rw [List.mem_singleton.mp hmem]
            exact ⟨rfl, rfl⟩

/-- A capture command does to the history what it does to the contents. -/
theorem Holds.after (holds : Holds dir mount h c) {t : LogTurn D}
    (hbegin : ∀ target begun, t.received = .command (.captureBegin target begun) →
      target = .dir dir ∧ begun = mount) :
    Holds dir mount (h.after t) (t.captureCommand?.elim c c.next) := by
  have hother : t.captureEvent = none → t.captureCommand? = none →
      Holds dir mount (h.after t) (t.captureCommand?.elim c c.next) := by
    intro hevent hcommand
    rw [CaptureHistory.after, hevent, hcommand]
    exact holds
  cases hreceived : t.received with
  | command cmd =>
      cases cmd with
      | captureBegin target begun =>
          obtain ⟨rfl, rfl⟩ := hbegin target begun hreceived
          simp only [CaptureHistory.after, LogTurn.captureEvent, LogTurn.captureCommand?,
            LogCmd.capture?, hreceived]
          exact ⟨holds.received, rfl, rfl, fun connection hmem => holds.placed connection
            (by simpa [CaptureHistory.next, CaptureHistory.close, CaptureHistory.received]
              using hmem), fun place hplace => (Option.some.inj hplace).symm⟩
      | captureData bytes =>
          simp only [CaptureHistory.after, LogTurn.captureEvent, LogTurn.captureCommand?,
            LogCmd.capture?, hreceived]
          exact holds.data bytes t.readings.now
      | captureEnd =>
          simp only [CaptureHistory.after, LogTurn.captureEvent, LogTurn.captureCommand?,
            LogCmd.capture?, hreceived]
          exact ⟨holds.received, rfl, rfl, fun connection hmem => holds.placed connection
            (by simpa [CaptureHistory.next, CaptureHistory.close, CaptureHistory.received]
              using hmem), fun place hplace => absurd hplace (by
                simp [CaptureHistory.next, CaptureHistory.close])⟩
      | _ =>
          exact hother (by simp [LogTurn.captureEvent, hreceived])
            (by simp [LogTurn.captureCommand?, LogCmd.capture?, hreceived])
  | disconnected =>
      exact hother (by simp [LogTurn.captureEvent, hreceived])
        (by simp [LogTurn.captureCommand?, hreceived])
  | timeout =>
      exact hother (by simp [LogTurn.captureEvent, hreceived])
        (by simp [LogTurn.captureCommand?, hreceived])

end Content

/-- Over turns that take the commands of captures, in order and among others. -/
theorem holds_after {dir : D} {mount : Text} (turns : List (LogTurn D))
    (hbegin : ∀ t ∈ turns, ∀ target begun, t.received = .command (.captureBegin target begun) →
      target = .dir dir ∧ begun = mount) {h : CaptureHistory D} {c : Content}
    (holds : Content.Holds dir mount h c) :
    Content.Holds dir mount (turns.foldl CaptureHistory.after h)
      ((turns.filterMap LogTurn.captureCommand?).foldl Content.next c) := by
  induction turns generalizing h c with
  | nil => exact holds
  | cons t rest ih =>
      have hone := holds.after (hbegin t List.mem_cons_self)
      have hrest := ih (fun t' ht' => hbegin t' (List.mem_cons_of_mem _ ht')) hone
      rw [List.foldl_cons]
      cases hcommand : t.captureCommand? with
      | none =>
          rw [List.filterMap_cons_none hcommand]
          rwa [hcommand] at hrest
      | some cmd =>
          rw [List.filterMap_cons_some hcommand, List.foldl_cons]
          rwa [hcommand] at hrest

/-- The turns before the end of the thread, one by one. -/
theorem captured_served {served : List (LogTurn D)} {final : LogTurn D}
    (hserved : ∀ t ∈ served, Logger.leaves t.received = false)
    (hfinal : Logger.leaves final.received = true) (h : CaptureHistory D) :
    captured h (served ++ [final]) = (served.foldl CaptureHistory.after h).close := by
  induction served generalizing h with
  | nil =>
      rw [List.nil_append, captured, if_pos hfinal]
      rfl
  | cons t rest ih =>
      rw [List.cons_append, captured, if_neg (by simp [hserved t List.mem_cons_self]),
        ih fun t' ht' => hserved t' (List.mem_cons_of_mem _ ht'), List.foldl_cons]

/-- The commands of a run are about one directory and one mountpoint. -/
theorem commands_placed {dir : D} {mount : Text} {connections : List (List Bytes)}
    (blocks : List Bytes) {target : CaptureTarget D} {begun : Text}
    (h : .captureBegin target begun ∈ connections.flatMap
      (wholeCapture (some (.dir dir)) mount) ++ openCapture (some (.dir dir)) mount blocks) :
    target = .dir dir ∧ begun = mount := by
  have hopen : ∀ blocks : List Bytes, .captureBegin target begun ∈
      openCapture (some (.dir dir)) mount blocks → target = .dir dir ∧ begun = mount := by
    intro blocks hmem
    simpa [openCapture] using hmem
  rcases List.mem_append.mp h with hmem | hmem
  · obtain ⟨blocks, -, hmem⟩ := List.mem_flatMap.mp hmem
    rcases List.mem_append.mp hmem with hmem | hmem
    · exact hopen blocks hmem
    · simp at hmem
  · exact hopen blocks hmem

/-- The commands of a run are about captures. -/
theorem commands_about_captures {target : Option (CaptureTarget D)} {mount : Text}
    {connections : List (List Bytes)} (blocks : List Bytes) {cmd : LogCmd D}
    (h : cmd ∈ connections.flatMap (wholeCapture target mount) ++
      openCapture target mount blocks) : cmd.capture? = some cmd := by
  have hopen : ∀ blocks : List Bytes, cmd ∈ openCapture target mount blocks →
      cmd.capture? = some cmd := by
    intro blocks hmem
    obtain ⟨place, -, hmem⟩ := List.mem_flatMap.mp hmem
    rcases List.mem_cons.mp hmem with rfl | hmem
    · rfl
    · obtain ⟨block, -, rfl⟩ := List.mem_map.mp hmem
      rfl
  rcases List.mem_append.mp h with hmem | hmem
  · obtain ⟨blocks, -, hmem⟩ := List.mem_flatMap.mp hmem
    rcases List.mem_append.mp hmem with hmem | hmem
    · exact hopen blocks hmem
    · obtain ⟨place, -, rfl⟩ := List.mem_map.mp hmem
      rfl
  · exact hopen blocks hmem

/-- What the hub tells the logger of captures, from the reports of a run. -/
theorem told_commands [Inhabited F32] (render : Rendering F32) (told : List (Told D F32))
    (h : ∀ cmd ∈ (told.map Told.report).filterMap Report.capture?, cmd.capture? = some cmd) :
    told.filterMap (fun t => (t.report.toLogger render t.sentAt).bind LogCmd.capture?) =
      (told.map Told.report).filterMap Report.capture? := by
  rw [List.filterMap_map]
  refine List.filterMap_congr fun t ht => ?_
  refine to_logger_capture render t.sentAt fun cmd hcmd => h cmd ?_
  exact List.mem_filterMap.mpr ⟨t.report, List.mem_map_of_mem ht, by rw [hcmd]; rfl⟩

/-- What the commands of a run capture. -/
theorem capture_content [Inhabited F32] (render : Rendering F32) (dir : D) (job : NtripJob)
    (allowInvalidCerts : Bool) (attempts : List Cx.Attempt) (readings : Nat → AttemptReadings) :
    let reports :=
      Cx.superviseReports render (some (.dir dir)) { job } allowInvalidCerts {} attempts readings
    ((reports.filterMap Report.capture?).foldl Content.next {}).received =
        (delivered reports).filterMap Content.ofBlocks ∧
      (∀ target begun, .captureBegin target begun ∈ reports.filterMap Report.capture? →
        target = .dir dir ∧ begun = job.mountpoint) ∧
      ∀ cmd ∈ reports.filterMap Report.capture?, cmd.capture? = some cmd := by
  intro reports
  have hrun := capture_commands render (some (.dir dir)) job allowInvalidCerts attempts readings
  simp only at hrun
  split at hrun
  · obtain ⟨connections, blocks, hdelivered, hcommands⟩ := hrun
    obtain ⟨hended, hcurrent⟩ := Content.of_whole dir job.mountpoint connections {} rfl
    refine ⟨?_, fun target begun hmem => ?_, fun cmd hmem => ?_⟩
    · rw [hcommands, List.foldl_append, Content.of_open, hdelivered, List.filterMap_append]
      simp only [Content.received, hended, hcurrent, Option.toList_none, List.append_nil,
        List.nil_append]
      cases hblocks : Content.ofBlocks blocks with
      | none => simp [hblocks]
      | some bytes => simp [hblocks]
    · rw [hcommands] at hmem
      exact commands_placed blocks hmem
    · rw [hcommands] at hmem
      exact commands_about_captures blocks hmem
  · obtain ⟨hended, hcurrent⟩ := Content.of_whole dir job.mountpoint (delivered reports) {} rfl
    refine ⟨?_, fun target begun hmem => ?_, fun cmd hmem => ?_⟩
    · rw [hrun, Content.received, hended, hcurrent]
      simp
    · rw [hrun] at hmem
      exact commands_placed [] (List.mem_append_left _ hmem)
    · rw [hrun] at hmem
      exact commands_about_captures [] (List.mem_append_left _ hmem)

/-- Every block that a run delivers is in a capture. The hub tells the logger thread what the run
reports, among other things, and every capture file opens. The captures of the thread are then one
for each connection that delivered any, with its blocks in order, and each is in its file if no two
connections were captured in one. -/
theorem delivered_captured [DecidableEq D] [Inhabited F32] (render : Rendering F32)
    (ignoresCase : Bool) (display : CaptureFile D → Text) {logsDir nmeaDir : D}
    (hdirs : logsDir ≠ nmeaDir) (before : Disk D) (eventOn nmeaOn : Bool) (started : Instant)
    (dir : D) (job : NtripJob) (allowInvalidCerts : Bool) (attempts : List Cx.Attempt)
    (readings : Nat → AttemptReadings) (told : List (Told D F32)) (served : List (LogTurn D))
    (final : LogTurn D) (hserved : ∀ t ∈ served, Logger.leaves t.received = false)
    (hfinal : Logger.leaves final.received = true)
    (hopens : ∀ t ∈ served ++ [final], ∀ bytes, t.received = .command (.captureData bytes) →
      t.readings.opens = .ok ())
    (htold : told.map Told.report =
      Cx.superviseReports render (some (.dir dir)) { job } allowInvalidCerts {} attempts readings)
    (hcommands : served.filterMap LogTurn.captureCommand? =
      told.filterMap fun t => (t.report.toLogger render t.sentAt).bind LogCmd.capture?) :
    let l := (Logger.start logsDir nmeaDir eventOn nmeaOn started before).run ignoresCase display
      (served ++ [final])
    let captures := (captured ⟨[], none, none⟩ (served ++ [final])).ended
    captures.map Connection.bytes =
        (delivered (told.map Told.report)).filterMap Content.ofBlocks ∧
      (∀ c ∈ captures, c.dir = dir ∧ c.mount = job.mountpoint ∧
        ∃ t, stamp t (CaptureSink.receipt display c.file c.bytes.length) ∈ l.ui) ∧
      (Distinct ignoresCase captures → Keeps ignoresCase l.disk captures) := by
  intro l captures
  obtain ⟨hreceived, hplaced, habout⟩ :=
    capture_content render dir job allowInvalidCerts attempts readings
  rw [← htold] at hreceived hplaced habout
  rw [told_commands render told habout] at hcommands
  have hbegin : ∀ t ∈ served, ∀ target begun, t.received = .command (.captureBegin target begun) →
      target = .dir dir ∧ begun = job.mountpoint := by
    intro t ht target begun hbegun
    refine hplaced target begun ?_
    rw [← hcommands]
    exact List.mem_filterMap.mpr
      ⟨t, ht, by simp [LogTurn.captureCommand?, LogCmd.capture?, hbegun]⟩
  have hcaptures : ∀ t ∈ served ++ [final], t.CapturesOpen := by
    intro t ht
    refine ⟨fun target begun hbegun => ?_, hopens t ht⟩
    rcases List.mem_append.mp ht with ht | ht
    · exact ⟨dir, (hbegin t ht target begun hbegun).1⟩
    · rw [List.mem_singleton.mp ht] at hbegun
      rw [hbegun] at hfinal
      exact absurd hfinal (by simp [Logger.leaves])
  have hrun : Captured ignoresCase display (captured ⟨[], none, none⟩ (served ++ [final])) l :=
    start_captured hdirs before eventOn nmeaOn started (served ++ [final]) hcaptures
  have hstart : Content.Holds dir job.mountpoint (⟨[], none, none⟩ : CaptureHistory D) {} :=
    ⟨rfl, rfl, rfl, by simp [CaptureHistory.received], by simp⟩
  have hholds := holds_after served hbegin hstart
  rw [hcommands] at hholds
  -- the end of the thread ends the capture that goes on
  have hended : captured ⟨[], none, none⟩ (served ++ [final]) =
      (served.foldl CaptureHistory.after ⟨[], none, none⟩).close :=
    captured_served hserved hfinal _
  refine ⟨?_, fun c hc => ?_, fun hdistinct => hrun.follows.keeps ?_⟩
  · simp only [captures, hended]
    exact hholds.received.trans hreceived
  · have hc' := hc
    simp only [captures, hended] at hc'
    obtain ⟨hdir, hmount⟩ := hholds.placed c hc'
    exact ⟨hdir, hmount, hrun.told c hc⟩
  · rw [CaptureHistory.received, hended]
    simpa [captures, hended, CaptureHistory.close] using hdistinct

/-! ## A run that is captured -/

/-- A raw stream. -/
def rawJob : NtripJob where
  host := "caster".toList
  port := 2101
  mountpoint := "MOUNT".toList
  username := []
  password := []
  version := .v1
  transport := .rawTcp
  tls := false
  ggaMode := .off
  ggaSource := .receiver
  manualLat := .finite 0
  manualLon := .finite 0
  streamRequiresGga := none
  reconnect := .oneShot
  maxAttempts := 1
  userAgent := []

/-- A connection that delivers a block and ends. -/
def rawAttempt (block : Bytes) : Cx.Attempt where
  cancelledTop := false
  connect := .connected
    { timeoutSet := true
      tls := .established
      requestWritten := true
      openedAt := 0
      firstTick := 0
      around := fun _ => ⟨0, none, [], true, .inactive⟩
      turns :=
        [⟨false, .bytes block, false, 0, 0, fun _ => ⟨0, none, [], true, .inactive⟩⟩,
          ⟨false, .eof, false, 0, 0, fun _ => ⟨0, none, [], true, .inactive⟩⟩] }
  cancelledAfter := false
  cancelledWait := false

def rawReadings : AttemptReadings where
  connectError := []
  alertError := none
  connection :=
    { timeoutError := []
      tlsProtocol := []
      tlsCipher := []
      tlsError := []
      requestError := []
      connectedAt := 0
      outputs := fun _ => ⟨0, 0, []⟩
      turns := fun _ => ⟨[], 0, fun _ => ⟨0, 0, []⟩⟩ }

/-- A rendering that writes nothing. -/
def blankRendering : Rendering Unit where
  duration := fun _ => []
  byteCount := fun _ => []
  parseF32 := fun _ => none

/-- What the logger thread takes of such a run, among other things. -/
def rawTurns : List (LogTurn Bool) :=
  [turnAt (.command (.event "Started".toList)) 0,
    turnAt (.command (.captureBegin (.dir true) "MOUNT".toList)) 0, turnAt .timeout 0,
    turnAt (.command (.captureData [0xD3, 0])) 0, turnAt (.command .captureEnd) 0]

/-- What the hub is told of such a run. -/
def rawTold : List (Told Bool Unit) :=
  (Cx.superviseReports blankRendering (some (.dir true)) { job := rawJob } false {}
    [rawAttempt [0xD3, 0]] (fun _ => rawReadings)).map fun report => ⟨report, yearEnd, 0⟩

/-- The block that such a run delivers is in its file. -/
theorem delivered_captured_block :
    ((Logger.start false true true true 0 fun _ => none).run true CaptureFile.name
      (rawTurns ++ [turnAt (.command .shutdown) 0])).disk
        ⟨true, "20161231_235960_mount.rtcm".toList⟩ = some [0xD3, 0] ∧
    (delivered (rawTold.map Told.report)).filterMap Content.ofBlocks = [[0xD3, 0]] := by
  obtain ⟨hbytes, -, hkeeps⟩ := delivered_captured blankRendering true CaptureFile.name
    (show false ≠ true by decide) (fun _ => none) true true 0 true rawJob false
    [rawAttempt [0xD3, 0]] (fun _ => rawReadings) rawTold rawTurns
    (turnAt (.command .shutdown) 0) (by decide) rfl (fun t ht _ _ => by
      simp only [rawTurns, List.cons_append, List.nil_append, List.mem_cons, List.not_mem_nil,
        or_false] at ht
      rcases ht with rfl | rfl | rfl | rfl | rfl | rfl
      · rfl
      · rfl
      · rfl
      · rfl
      · rfl
      · rfl) (by rw [rawTold, List.map_map]; exact List.map_id _) (by decide +kernel)
  have hdistinct : Distinct true [(⟨true, "MOUNT".toList, yearEnd, [0xD3, 0]⟩ :
      Connection Bool)] := List.pairwise_singleton _ _
  exact ⟨hkeeps hdistinct ⟨true, "MOUNT".toList, yearEnd, [0xD3, 0]⟩ (List.mem_singleton_self _),
    hbytes.symm⟩

end OpenNtrip
