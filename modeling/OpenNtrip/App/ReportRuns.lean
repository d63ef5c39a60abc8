import OpenNtrip.App.Connection
import OpenNtrip.App.Reports
import OpenNtrip.Lib.Observer

/-!
# Readers of the reports

A reader of the reports is an observer. `LoopReader` says what it has to know of one output, one
turn of the loop and the end of a connection, and `RunReader` what it has to know of the rest of an
attempt. From these `RunReader.supervise` follows for every run. The posts among the reports are
those of the worker (`supervise_posts`).
-/

namespace OpenNtrip

open Observer

variable {D F32 : Type} [Inhabited F32] (render : Rendering F32) (target : Option (CaptureTarget D))

/-- The reports that are neither about the job nor part of a session. -/
def Report.aside : Report D F32 → Bool
  | .event (.connecting _ _ _) | .event (.failed _) | .event (.alertFailed _)
  | .event .connected | .conn (.rawConnected _ _) | .lastClose _
  | .event (.tlsComplete _ _ _) | .conn (.tlsComplete _ _ _)
  | .event (.tlsFailed _) | .conn (.tlsFailed _)
  | .event (.noReconnect _) | .conn (.noReconnect _)
  | .event (.reconnecting _) | .conn (.reconnecting _)
  | .post (.status (.connecting _)) | .post (.status (.reconnectWait _)) => true
  | _ => false

namespace Worker

variable {w : Worker} {outs : List Output} {around : Nat → Surroundings}

/-- Once a session has ended, the loop reports what it dispatches and stops. -/
theorem loop_reports_ended {ended : SessionEnd}
    (h : (w.dispatch outs around).conn.terminal = some ended) (n : Notes)
    (readings : Nat → Readings) (turns : List LoopTurn) (turnReadings : Nat → TurnReadings) :
    w.loopReports render target n outs around readings turns turnReadings =
      let first := w.dispatchReports render target n outs around readings
      (first.1, first.2 ++ if target.isSome then [.capture .captureEnd] else []) := by
  unfold loopReports
  simp only [h]

/-- Without another turn, the loop reports what it dispatches. -/
theorem loop_reports_nil (h : (w.dispatch outs around).conn.terminal = none) (n : Notes)
    (readings : Nat → Readings) (turnReadings : Nat → TurnReadings) :
    w.loopReports render target n outs around readings [] turnReadings =
      w.dispatchReports render target n outs around readings := by
  unfold loopReports
  simp only [h]

/-- Else it dispatches, takes a turn, and goes on with what the turn put out. -/
theorem loop_reports_cons (h : (w.dispatch outs around).conn.terminal = none) (n : Notes)
    (readings : Nat → Readings) (next : LoopTurn) (rest : List LoopTurn)
    (turnReadings : Nat → TurnReadings) :
    w.loopReports render target n outs around readings (next :: rest) turnReadings =
      let first := w.dispatchReports render target n outs around readings
      let between := (w.dispatch outs around).turnReports first.1 next (turnReadings 0)
      let more := ((w.dispatch outs around).turn next).1.loopReports render target between.1
        ((w.dispatch outs around).turn next).2 next.around (turnReadings 0).outputs rest
        fun i => turnReadings (i + 1)
      (more.1, first.2 ++ between.2 ++ more.2) := by
  rw [loopReports]
  simp only [h]

end Worker

section

variable {β : Type} (note : β → Report D F32 → β) (allows : β → Report D F32 → Prop)

/-- A reader of the loop: `pending` relates it to the worker, its notes and the outputs that are to
be dispatched, and `closed` to what is left when the connection has ended. -/
structure LoopReader (pending : Worker → Notes → List Output → β → Prop)
    (closed : Cx → RunNotes → β → Prop) : Prop where
  one : ∀ w n o rest around readings b, pending w n (o :: rest) b →
    Leads note allows
      (pending (w.dispatchOne o around) (w.oneReports render target n o around readings).1 rest) b
      (w.oneReports render target n o around readings).2
  turn : ∀ w n next readings b, pending w n [] b → w.conn.terminal = none →
    Leads note allows
      (pending (w.turn next).1 (w.turnReports n next readings : Notes × List (Report D F32)).1
        (w.turn next).2) b
      (w.turnReports n next readings).2
  close : ∀ w n b ended, pending w n [] b → w.conn.terminal = some ended →
    Leads note allows (closed w.disconnect.cx n.run) b
      (if target.isSome then [.capture .captureEnd] else [])

variable {render target note allows} {pending : Worker → Notes → List Output → β → Prop}
  {closed : Cx → RunNotes → β → Prop}

/-- The reports of a dispatch are accepted, output by output. -/
theorem LoopReader.dispatch (reader : LoopReader render target note allows pending closed)
    {w : Worker} {n : Notes} {outs : List Output} {b : β} (h : pending w n outs b)
    (around : Nat → Worker.Surroundings) (readings : Nat → Readings) :
    Leads note allows
      (pending (w.dispatch outs around)
        (w.dispatchReports render target n outs around readings).1 []) b
      (w.dispatchReports render target n outs around readings).2 := by
  induction outs generalizing w n b around readings with
  | nil => exact .nil h
  | cons o rest ih =>
      have hone := reader.one w n o rest (around 0) (readings 0) b h
      exact hone.append fun b' hb' => ih hb' _ _

/-- The reports of the loop are accepted, up to the end of the connection or as far as it came. -/
theorem LoopReader.loop (reader : LoopReader render target note allows pending closed)
    {w : Worker} {n : Notes} {outs : List Output} {b : β} (h : pending w n outs b)
    (around : Nat → Worker.Surroundings) (readings : Nat → Readings)
    (turns : List Worker.LoopTurn) (turnReadings : Nat → TurnReadings) :
    let driven := w.driveLoop outs around turns
    let reports := w.loopReports render target n outs around readings turns turnReadings
    Leads note allows
      (fun b' =>
        match driven.2 with
        | some _ => closed driven.1.cx reports.1.run b'
        | none => pending driven.1 reports.1 [] b') b reports.2 := by
  induction turns generalizing w n outs b around readings turnReadings with
  | nil =>
      have hdispatch := reader.dispatch h around readings
      cases hterminal : (w.dispatch outs around).conn.terminal with
      | some ended =>
          rw [Worker.drive_loop_ended hterminal, Worker.loop_reports_ended render target hterminal]
          exact hdispatch.append fun b' hb' => reader.close _ _ b' ended hb' hterminal
      | none =>
          rw [Worker.drive_loop_nil hterminal, Worker.loop_reports_nil render target hterminal]
          exact hdispatch
  | cons next rest ih =>
      have hdispatch := reader.dispatch h around readings
      cases hterminal : (w.dispatch outs around).conn.terminal with
      | some ended =>
          rw [Worker.drive_loop_ended hterminal, Worker.loop_reports_ended render target hterminal]
          exact hdispatch.append fun b' hb' => reader.close _ _ b' ended hb' hterminal
      | none =>
          rw [Worker.drive_loop_cons hterminal, Worker.loop_reports_cons render target hterminal]
          have hturn := hdispatch.append fun b' hb' =>
            reader.turn _ _ next (turnReadings 0) b' hb' hterminal
          exact hturn.append fun b' hb' => ih hb' _ _ _

end

/-- The job and the totals are as they were. -/
structure Cx.Carries (cx cx' : Cx) : Prop where
  job : cx'.job = cx.job
  totalBytes : cx'.totalBytes = cx.totalBytes
  framesTotal : cx'.framesTotal = cx.framesTotal
  lastHealthPosted : cx'.lastHealthPosted = cx.lastHealthPosted

section

variable {β : Type} (note : β → Report D F32 → β) (allows : β → Report D F32 → Prop)

/-- A reader of a run: `idle` relates it to the worker's run between connections, `live` holds of it
while a connection is open, and `past` once the run has stopped. -/
structure RunReader (idle : Cx → RunNotes → β → Prop)
    (pending : Worker → Notes → List Output → β → Prop) (live past : β → Prop) : Prop
    extends LoopReader render target note allows pending idle where
  aside : ∀ cx n b (r : Report D F32), idle cx n b → r.aside = true → note b r = b ∧ allows b r
  same : ∀ cx cx' n b, Cx.Carries cx cx' → idle cx n b → idle cx' n b
  job : ∀ cx n b, idle cx n b →
    Leads note allows (idle cx (cx.jobReports n : RunNotes × List (Report D F32)).1) b
      (cx.jobReports n).2
  opened : ∀ cx n b openedAt firstTick connectedAt, idle cx n b →
    Leads note allows
      (pending ((cx.connected openedAt).call (.onTick firstTick)).1
        ⟨n, { connectedAt, bytesAtConnect := cx.totalBytes }⟩
        ((cx.connected openedAt).call (.onTick firstTick)).2) b
      ([.event .connected, .post (.status .waitingForData)] ++
        target.toList.map fun target => .capture (.captureBegin target cx.job.mountpoint))
  live : ∀ w n b, pending w n [] b → live b
  stopped : ∀ cx n b summary failed, idle cx n b →
    Leads note allows past b [.stopped summary failed]

variable {render target note allows} {idle : Cx → RunNotes → β → Prop}
  {pending : Worker → Notes → List Output → β → Prop} {live past : β → Prop}

/-- Reports that are no part of a session change nothing. -/
theorem RunReader.skip (reader : RunReader render target note allows idle pending live past)
    {reports : List (Report D F32)} (haside : ∀ r ∈ reports, r.aside = true) {cx : Cx}
    {n : RunNotes} {b : β} (hidle : idle cx n b) {post : β → Prop} (h : post b) :
    Leads note allows post b reports :=
  leads_quiet (fun r hr => reader.aside cx n b r hidle (haside r hr)) h

variable (render) in
/-- What is reported of a TLS handshake is aside. -/
theorem establish_aside (cx : Cx) (allowInvalidCerts : Bool) (tls : TlsOutcome)
    (readings : ConnectionReadings) :
    ∀ r ∈ (cx.establishReports (D := D) render allowInvalidCerts tls readings).1,
      r.aside = true := by
  intro r hr
  unfold Cx.establishReports at hr
  split at hr
  · simp at hr
  · cases tls with
    | established =>
        rcases List.mem_pair.mp hr with rfl | rfl
        · rfl
        · rfl
    | cancelled => simp at hr
    | rejected =>
        rcases List.mem_pair.mp hr with rfl | rfl
        · rfl
        · rfl
    | io =>
        rw [List.mem_singleton.mp hr]
        rfl

/-- A handshake leaves the run as it is, up to the cancel flag. -/
theorem establish_same {cx cx' : Cx} {tls : TlsOutcome} {ended : Option SessionEnd}
    (h : cx.establish tls = (cx', ended)) :
    Cx.Carries cx cx' ∧ (ended = none → cx' = cx) := by
  unfold Cx.establish at h
  split at h
  · obtain ⟨rfl, rfl⟩ := Prod.mk.inj h
    exact ⟨⟨rfl, rfl, rfl, rfl⟩, fun _ => rfl⟩
  · cases tls with
    | established =>
        obtain ⟨rfl, rfl⟩ := Prod.mk.inj h
        exact ⟨⟨rfl, rfl, rfl, rfl⟩, fun _ => rfl⟩
    | cancelled =>
        obtain ⟨rfl, rfl⟩ := Prod.mk.inj h
        exact ⟨⟨rfl, rfl, rfl, rfl⟩, fun hnone => absurd hnone (by simp)⟩
    | rejected =>
        obtain ⟨rfl, rfl⟩ := Prod.mk.inj h
        exact ⟨⟨rfl, rfl, rfl, rfl⟩, fun hnone => absurd hnone (by simp)⟩
    | io =>
        obtain ⟨rfl, rfl⟩ := Prod.mk.inj h
        exact ⟨⟨rfl, rfl, rfl, rfl⟩, fun hnone => absurd hnone (by simp)⟩

/-- The reports of a connection are accepted. -/
theorem RunReader.connection (reader : RunReader render target note allows idle pending live past)
    {cx : Cx} {n : RunNotes} {b : β} (h : idle cx n b) (allowInvalidCerts : Bool)
    (script : ConnectionScript) (readings : ConnectionReadings) :
    let driven := cx.driveConnection script
    let reports := cx.connectionReports render target allowInvalidCerts n script readings
    Leads note allows
      (fun b' =>
        match driven.2 with
        | some _ => idle driven.1 reports.1 b'
        | none => live b') b reports.2.1 := by
  have htls := reader.skip (establish_aside render cx allowInvalidCerts script.tls readings) h h
  unfold Cx.driveConnection Cx.connectionReports
  cases script.timeoutSet with
  | false => exact .nil h
  | true =>
      simp only [Bool.not_true, Bool.false_eq_true, if_false]
      cases hest : cx.establish script.tls with
      | mk cx' ended =>
          obtain ⟨hkept, hcx⟩ := establish_same hest
          cases ended with
          | some ended => exact htls.imp fun b' hb' => reader.same cx cx' n b' hkept hb'
          | none =>
              obtain rfl := hcx rfl
              have hjobs := htls.append fun b' hb' => reader.job cx' n b' hb'
              by_cases hrequest : (!(NtripSession.new cx'.job.sessionConfig
                  script.openedAt).2.isEmpty && !script.requestWritten) = true
              · simp only [hrequest, if_true]
                exact hjobs
              · simp only [Bool.eq_false_iff.mpr hrequest, Bool.false_eq_true, if_false]
                have hopened := hjobs.append fun b' hb' =>
                  reader.opened cx' _ b' script.openedAt script.firstTick readings.connectedAt hb'
                have hloop := hopened.append fun b' hb' =>
                  reader.loop hb' script.around readings.outputs script.turns readings.turns
                refine hloop.imp fun b' hb' => ?_
                split
                · next heq =>
                    rw [heq] at hb'
                    exact hb'
                · next heq =>
                    rw [heq] at hb'
                    exact reader.live _ _ b' hb'

omit [Inhabited F32] in
/-- Reports aside stay aside one behind the other. -/
theorem aside_append {first second : List (Report D F32)} (h : ∀ r ∈ first, r.aside = true)
    (h' : ∀ r ∈ second, r.aside = true) : ∀ r ∈ first ++ second, r.aside = true := by
  intro r hr
  rcases List.mem_append.mp hr with hr | hr
  · exact h r hr
  · exact h' r hr

variable (render) in
/-- What is reported of the end of a connection is aside. -/
theorem end_aside (cx : Cx) (ended : SessionEnd) (message : Text) (attempt : Cx.Attempt)
    (readings : AttemptReadings) :
    ∀ r ∈ (cx.endReports (D := D) render ended message attempt readings).1, r.aside = true := by
  have hfailed : ∀ r ∈ (if ended = .failed then [.event (.failed message)] else [] :
      List (Report D F32)), r.aside = true := by
    intro r hr
    split at hr
    · rw [List.mem_singleton.mp hr]
      rfl
    · simp at hr
  have halert : ∀ r ∈ (if cx.alertArmed then
        readings.alertError.toList.map fun error => .event (.alertFailed error)
      else [] : List (Report D F32)), r.aside = true := by
    intro r hr
    split at hr
    · obtain ⟨error, -, rfl⟩ := List.mem_map.mp hr
      rfl
    · simp at hr
  have hone : ∀ report : Report D F32, report.aside = true → ∀ r ∈ [report], r.aside = true := by
    intro report h r hr
    rwa [List.mem_singleton.mp hr]
  have htwo : ∀ first second : Report D F32, first.aside = true → second.aside = true →
      ∀ r ∈ [first, second], r.aside = true := by
    intro first second h h' r hr
    rcases List.mem_pair.mp hr with rfl | rfl
    · exact h
    · exact h'
  unfold Cx.endReports
  split
  · simp
  · simp
  · simp only
    split
    · exact hfailed
    · have hclosed := fun summary : Text =>
        aside_append (aside_append hfailed (hone (.lastClose summary) rfl)) halert
      split
      · refine aside_append (hclosed _) (htwo _ _ rfl rfl)
      · refine aside_append (aside_append (hclosed _) (htwo _ _ rfl rfl)) (hone _ rfl)

/-- What follows a connection leaves the job and the totals as they are, and no connection open. -/
theorem after_connection_same (cx : Cx) (ended : SessionEnd) (attempt : Cx.Attempt) :
    Cx.Carries cx (cx.afterConnection ended attempt).1 ∧
      (cx.afterConnection ended attempt).2 ≠ .connected := by
  have hdropped : ∀ cx : Cx, Cx.Carries cx cx.countDrop := by
    intro cx
    unfold Cx.countDrop
    split
    · exact ⟨rfl, rfl, rfl, rfl⟩
    · exact ⟨rfl, rfl, rfl, rfl⟩
  obtain ⟨hjob, htotal, hframes, hhealth⟩ := hdropped (cx.observe attempt.cancelledAfter)
  unfold Cx.afterConnection
  split
  · exact ⟨⟨rfl, rfl, rfl, rfl⟩, by simp⟩
  · exact ⟨⟨rfl, rfl, rfl, rfl⟩, by simp⟩
  · simp only
    split
    · exact ⟨⟨rfl, rfl, rfl, rfl⟩, by simp⟩
    · split
      · exact ⟨⟨hjob, htotal, hframes, hhealth⟩, by simp⟩
      · split
        · exact ⟨⟨hjob, htotal, hframes, hhealth⟩, by simp⟩
        · exact ⟨⟨hjob, htotal, hframes, hhealth⟩, by simp⟩

/-- The reports of an attempt are accepted. -/
theorem RunReader.attempt (reader : RunReader render target note allows idle pending live past)
    {cx : Cx} {n : RunNotes} {b : β} (h : idle cx n b) (allowInvalidCerts : Bool)
    (attempt : Cx.Attempt) (readings : AttemptReadings) :
    let answer := cx.attemptOnce attempt
    let reports := cx.attemptReports render target allowInvalidCerts n attempt readings
    Leads note allows
      (fun b' =>
        match answer.2.2 with
        | .connected => live b'
        | _ => idle answer.1 reports.1 b') b reports.2.1 := by
  let begun := ({ cx with attemptsDone := cx.attemptsDone + 1 } : Cx).post
    [.status (.connecting (cx.attemptsDone + 1))]
  have hidle : idle begun n b := reader.same cx begun n b ⟨rfl, rfl, rfl, rfl⟩ h
  have hconnecting : Leads note allows (idle begun n) b
      [.post (.status (.connecting (cx.attemptsDone + 1))),
        .event (.connecting cx.job.host cx.job.port (cx.attemptsDone + 1))] := by
    refine reader.skip (fun r hr => ?_) hidle hidle
    rcases List.mem_pair.mp hr with rfl | rfl
    · rfl
    · rfl
  -- what follows a connection that ended
  have hend : ∀ (next : Cx) (n : RunNotes) (ended : SessionEnd) (message : Text) (b : β),
      idle next n b →
      Leads note allows
        (fun b' =>
          match (next.afterConnection ended attempt).2 with
          | .connected => live b'
          | _ => idle (next.afterConnection ended attempt).1 n b') b
        (next.endReports render ended message attempt readings).1 := by
    intro next n ended message b hb
    obtain ⟨hkept, hopen⟩ := after_connection_same next ended attempt
    refine reader.skip (end_aside render next ended message attempt readings) hb ?_
    have hafter := reader.same next _ n b hkept hb
    split
    · next heq => exact absurd heq hopen
    · exact hafter
  unfold Cx.attemptOnce Cx.attemptReports Cx.connectOnce
  cases attempt.connect with
  | cancelled => exact hconnecting
  | failed => exact hconnecting.append fun b' hb' => hend begun n _ _ b' hb'
  | connected script =>
      have hdriven := hconnecting.append fun b' hb' =>
        reader.connection hb' allowInvalidCerts script readings.connection
      simp only
      cases hdrive : begun.driveConnection script with
      | mk next ended =>
          rw [hdrive] at hdriven
          cases ended with
          | none => exact hdriven
          | some ended => exact hdriven.append fun b' hb' => hend next _ _ _ b' hb'

/-- The reports of a run are accepted. -/
theorem RunReader.supervise (reader : RunReader render target note allows idle pending live past)
    {cx : Cx} {n : RunNotes} {b : β} (h : idle cx n b) (allowInvalidCerts : Bool)
    (attempts : List Cx.Attempt) (readings : Nat → AttemptReadings) :
    Leads note allows
      (fun b' =>
        match (cx.supervise attempts).2.2 with
        | .connected => live b'
        | .stopped _ => past b'
        | .again => ∃ cx' n', idle cx' n' b') b
      (cx.superviseReports render target allowInvalidCerts n attempts readings) := by
  induction attempts generalizing cx n b readings with
  | nil => exact .nil ⟨cx, n, h⟩
  | cons attempt rest ih =>
      have hobserved : idle (cx.observe attempt.cancelledTop) n b :=
        reader.same cx _ n b ⟨rfl, rfl, rfl, rfl⟩ h
      unfold Cx.supervise Cx.superviseReports
      by_cases hcancel : (cx.observe attempt.cancelledTop).cancel = true
      · simp only [hcancel, if_true]
        exact reader.stopped _ _ _ _ _ hobserved
      · simp only [Bool.eq_false_iff.mpr hcancel, Bool.false_eq_true, if_false]
        have honce := reader.attempt hobserved allowInvalidCerts attempt (readings 0)
        cases hanswer : (cx.observe attempt.cancelledTop).attemptOnce attempt with
        | mk next recorded =>
            obtain ⟨record, course⟩ := recorded
            rw [hanswer] at honce
            cases course with
            | stopped failed => exact honce.append fun b' hb' => reader.stopped _ _ b' _ _ hb'
            | connected => exact honce
            | again => exact honce.append fun b' hb' => ih hb' _

end

omit [Inhabited F32] in
/-- A miss is reported in the event log. -/
theorem miss_lines (n : ConnNotes) (streaming : Bool) (source : GgaSource) (now : Instant) :
    ∀ r ∈ (n.noteGgaMiss streaming source now : ConnNotes × List (Report D F32)).2,
      r = .event (.ggaMissed source) ∨ r = .event (.ggaRemedy source) ∨
        r = .event .ggaStillMissed := by
  intro r hr
  unfold ConnNotes.noteGgaMiss at hr
  cases hlast : n.lastMissNote with
  | none =>
      rw [hlast] at hr
      rcases List.mem_pair.mp hr with rfl | rfl
      · exact .inl rfl
      · exact .inr (.inl rfl)
  | some prev =>
      simp only [hlast] at hr
      split at hr
      · exact .inr (.inr (List.mem_singleton.mp hr))
      · simp at hr

omit [Inhabited F32] in
/-- What is reported of a block, part by part. -/
theorem correction_reports_parts (w : Worker) (n : Notes) (bytes : Bytes)
    (around : Worker.Surroundings) (readings : Readings) :
    ∃ frames crcFailures, ∃ due : Bool, ∃ batch,
      (w.correctionReports target n bytes around readings : Notes × List (Report D F32)).2 =
        w.firstReports n.conn around readings ++ [.post (.push bytes)] ++
          (Worker.overrunReports n.run around.pushed readings.overrunAt).2 ++
          (if target.isSome then [.capture (.captureData bytes)] else []) ++
          ((trafficMark w.cx.totalBytes (w.cx.totalBytes + bytes.length)).toList.map fun mark =>
            .event (.milestone mark frames crcFailures)) ++
          (if due then [.post (.rtcm batch)] else []) ++
          [.post (.rxBytes (w.cx.totalBytes + bytes.length))] :=
  ⟨_, _, _, _, rfl⟩

/-! ## The posts are the worker's -/

/-- The posts among the reports. -/
def posted (reports : List (Report D F32)) : List Post := reports.filterMap Report.post?

omit [Inhabited F32] in
@[simp] theorem posted_nil : posted ([] : List (Report D F32)) = [] := rfl

omit [Inhabited F32] in
/-- The posts of reports in a row are posted in a row. -/
@[simp] theorem posted_append (first second : List (Report D F32)) :
    posted (first ++ second) = posted first ++ posted second :=
  List.filterMap_append

omit [Inhabited F32] in
@[simp] theorem posted_post (p : Post) (rest : List (Report D F32)) :
    posted (.post p :: rest) = p :: posted rest := rfl

omit [Inhabited F32] in
/-- Reports that are no posts. -/
theorem posted_none {reports : List (Report D F32)} (h : ∀ r ∈ reports, r.post? = none) :
    posted reports = [] :=
  List.filterMap_eq_nil_iff.mpr h

omit [Inhabited F32] in
/-- A change of the position trouble is no post. -/
theorem report_trouble_posted (n : RunNotes) (trouble : PositionTrouble) :
    posted (n.reportTrouble trouble : RunNotes × List (Report D F32)).2 = [] := by
  unfold RunNotes.reportTrouble
  cases n.logged trouble with
  | true => rfl
  | false => rfl

namespace Worker

omit [Inhabited F32] in
/-- What an acknowledgement posts is in its reports. -/
theorem gga_posted (w : Worker) (n : ConnNotes) (around : Surroundings) (readings : Readings) :
    (w.onGgaDue around).cx.posts =
      w.cx.posts ++
        posted (w.ggaReports n around readings : ConnNotes × List (Report D F32)).2 := by
  unfold onGgaDue ggaReports
  cases sentence w.cx.job around with
  | none =>
      have hmissed : posted (n.noteGgaMiss w.conn.streaming w.cx.job.ggaSource readings.clock :
          ConnNotes × List (Report D F32)).2 = [] := by
        refine posted_none fun r hr => ?_
        rcases miss_lines _ _ _ _ r hr with rfl | rfl | rfl
        · rfl
        · rfl
        · rfl
      simp only [hmissed, List.append_nil]
      rfl
  | some sentence =>
      cases around.written with
      | false => exact (List.append_nil _).symm
      | true =>
          by_cases hfirst : w.conn.ggaSent = 0
          · simp only [if_pos hfirst]
            rfl
          · simp only [if_neg hfirst]
            rfl

omit [Inhabited F32] in
/-- What becomes of the queue's answer. -/
theorem overrun_posted (n : RunNotes) (pushed : PushOutcome) (now : Instant) :
    posted (overrunReports n pushed now : RunNotes × List (Report D F32)).2 =
      match pushed with
      | .droppedOldest total => [.overruns total]
      | _ => [] := by
  unfold overrunReports
  cases pushed with
  | droppedOldest total =>
      simp only
      split
      · rfl
      · rfl
  | inactive => rfl
  | queued => rfl

omit [Inhabited F32] in
/-- What a block of corrections posts is in its reports. -/
theorem corrections_posted (w : Worker) (n : Notes) (bytes : Bytes) (around : Surroundings)
    (readings : Readings) :
    (w.onCorrections bytes around).cx.posts =
      w.cx.posts ++ posted (w.correctionReports target n bytes around readings :
        Notes × List (Report D F32)).2 := by
  have hfirst : w.beginStream.cx.posts =
      w.cx.posts ++ posted (w.firstReports n.conn around readings : List (Report D F32)) := by
    unfold beginStream firstReports
    cases w.conn.streaming with
    | true => exact (List.append_nil _).symm
    | false => rfl
  have hsame : w.beginStream.conn.deframer = w.conn.deframer ∧
      w.beginStream.cx.totalBytes = w.cx.totalBytes ∧
      w.beginStream.cx.crcBase = w.cx.crcBase ∧
      w.beginStream.cx.garbageBase = w.cx.garbageBase ∧
      w.beginStream.cx.lastHealthPosted = w.cx.lastHealthPosted := by
    unfold beginStream
    split
    · exact ⟨rfl, rfl, rfl, rfl, rfl⟩
    · exact ⟨rfl, rfl, rfl, rfl, rfl⟩
  obtain ⟨hdeframer, htotal, hcrc, hgarbage, hhealth⟩ := hsame
  have hcaptured : posted (if target.isSome then [.capture (.captureData bytes)] else [] :
      List (Report D F32)) = [] := by
    split
    · rfl
    · rfl
  have hmilestone : ∀ frames crcFailures, posted ((trafficMark w.cx.totalBytes
      (w.cx.totalBytes + bytes.length)).toList.map fun mark =>
        (.event (.milestone mark frames crcFailures) : Report D F32)) = [] := by
    intro frames crcFailures
    refine posted_none fun r hr => ?_
    obtain ⟨mark, -, rfl⟩ := List.mem_map.mp hr
    rfl
  have hbatch : ∀ (due : Bool) (batch : RtcmBatch),
      posted (if due then [.post (.rtcm batch)] else [] : List (Report D F32)) =
        if due then [.rtcm batch] else [] := by
    intro due batch
    cases due with
    | true => rfl
    | false => rfl
  simp only [onCorrections, correctionReports, Cx.post, hdeframer, htotal, hcrc, hgarbage, hhealth,
    hfirst, posted_append, posted_post, posted_nil, hcaptured, hmilestone, overrun_posted, hbatch,
    List.append_assoc]
  cases around.pushed with
  | inactive => rfl
  | queued => rfl
  | droppedOldest total => rfl

/-- The text of an unknown answer is no post. -/
theorem answer_posted (job : NtripJob) (reason : CloseReason) :
    posted (answerReports render job reason : List (Report D F32)) = [] := by
  cases reason with
  | unknownResponse raw =>
      simp only [answerReports]
      split
      · rfl
      · rfl
  | _ => rfl

omit [Inhabited F32] in
theorem hint_posted (hint : Option (Text × Text)) :
    posted (hintReports hint : List (Report D F32)) = [] := by
  cases hint with
  | none => rfl
  | some hint => rfl

omit [Inhabited F32] in
/-- A verdict on the position is no post. -/
theorem verdict_posted (n : RunNotes) (verdict : Option PositionTrouble) :
    posted (verdictReports n verdict : RunNotes × List (Report D F32)).2 = [] := by
  cases verdict with
  | none => rfl
  | some trouble => exact report_trouble_posted n trouble

/-- The reports of a close post nothing. -/
theorem close_posted (w : Worker) (n : Notes) (reason : CloseReason) (around : Surroundings)
    (readings : Readings) :
    posted (w.closeReports render n reason around readings : Notes × List (Report D F32)).2 =
      [] := by
  simp only [closeReports, posted_append, answer_posted, hint_posted, verdict_posted]
  rfl

/-- The posts of an output are the worker's. -/
theorem one_posted (w : Worker) (n : Notes) (o : Output) (around : Surroundings)
    (readings : Readings) :
    (w.dispatchOne o around).cx.posts =
      w.cx.posts ++ posted (w.oneReports render target n o around readings).2 := by
  cases o with
  | protocolTx line => exact (List.append_nil _).symm
  | protocolRx line => exact (List.append_nil _).symm
  | ggaDue => exact gga_posted w n.conn around readings
  | corrections bytes => exact corrections_posted target w n bytes around readings
  | sourcetable raw => exact (List.append_nil _).symm
  | close reason =>
      have hclose := close_posted (D := D) render w n reason around readings
      simp only [oneReports, hclose, List.append_nil]
      rfl

/-- What the dispatch of outputs posts is in its reports, in order. -/
theorem dispatch_posted (w : Worker) (n : Notes) (outs : List Output)
    (around : Nat → Surroundings) (readings : Nat → Readings) :
    (w.dispatch outs around).cx.posts =
      w.cx.posts ++ posted (w.dispatchReports render target n outs around readings).2 := by
  induction outs generalizing w n around readings with
  | nil => exact (List.append_nil _).symm
  | cons o rest ih =>
      have hone := one_posted render target w n o (around 0) (readings 0)
      have hrest := ih (w.dispatchOne o (around 0))
        (w.oneReports render target n o (around 0) (readings 0)).1 (fun i => around (i + 1))
        fun i => readings (i + 1)
      rw [hone] at hrest
      simp only [dispatch, dispatchReports, posted_append]
      rw [hrest, List.append_assoc]

omit [Inhabited F32] in
/-- A turn posts nothing by itself, and its reports neither. -/
theorem turn_posted (w : Worker) (n : Notes) (next : LoopTurn) (readings : TurnReadings) :
    posted (w.turnReports n next readings : Notes × List (Report D F32)).2 = [] ∧
      (w.turn next).1.cx.posts = w.cx.posts := by
  refine ⟨?_, ?_⟩
  · have hread : posted (({ w with cx := w.cx.observe next.cancelled } : Worker).readReports next
        readings : List (Report D F32)) = [] := by
      unfold readReports
      cases next.read with
      | error =>
          simp only
          split
          · rfl
          · rfl
      | _ => rfl
    unfold turnReports
    simp only
    split
    · rfl
    · split
      · rw [posted_append, hread, report_trouble_posted]
        rfl
      · exact hread
  · obtain ⟨flag, calls, hturn, -, -⟩ := turn_proceeds w next
    rw [hturn]
    rfl

/-- What the loop of a connection posts is in its reports, in order. -/
theorem loop_posted (w : Worker) (n : Notes) (outs : List Output) (around : Nat → Surroundings)
    (readings : Nat → Readings) (turns : List LoopTurn) (turnReadings : Nat → TurnReadings) :
    (w.driveLoop outs around turns).1.cx.posts =
      w.cx.posts ++
        posted (w.loopReports render target n outs around readings turns turnReadings).2 := by
  have hend : posted (if target.isSome then [.capture .captureEnd] else [] :
      List (Report D F32)) = [] := by
    split
    · rfl
    · rfl
  induction turns generalizing w n outs around readings turnReadings with
  | nil =>
      have hdispatch := dispatch_posted render target w n outs around readings
      cases hterminal : (w.dispatch outs around).conn.terminal with
      | some ended =>
          rw [drive_loop_ended hterminal, loop_reports_ended render target hterminal, posted_append,
            hend, List.append_nil]
          exact hdispatch
      | none =>
          rw [drive_loop_nil hterminal, loop_reports_nil render target hterminal]
          exact hdispatch
  | cons next rest ih =>
      have hdispatch := dispatch_posted render target w n outs around readings
      cases hterminal : (w.dispatch outs around).conn.terminal with
      | some ended =>
          rw [drive_loop_ended hterminal, loop_reports_ended render target hterminal, posted_append,
            hend, List.append_nil]
          exact hdispatch
      | none =>
          obtain ⟨hquiet, hturn⟩ := @turn_posted D F32 (w.dispatch outs around)
            (w.dispatchReports render target n outs around readings).1 next (turnReadings 0)
          rw [drive_loop_cons hterminal, loop_reports_cons render target hterminal, posted_append,
            posted_append, hquiet, List.append_nil, ih, hturn, hdispatch, List.append_assoc]

end Worker

namespace Cx

omit [Inhabited F32] in
theorem job_posted (cx : Cx) (n : RunNotes) :
    posted (cx.jobReports n : RunNotes × List (Report D F32)).2 = [] := by
  have hsome : ∀ (p : Prop) [Decidable p] (reports : List (Report D F32)), posted reports = [] →
      posted (if p then reports else []) = [] := by
    intro p _ reports h
    split
    · exact h
    · rfl
  simp only [jobReports, posted_append]
  rw [hsome _ _ rfl, hsome _ _ rfl, hsome _ _ rfl, hsome _ _ rfl]
  rfl

/-- The reports of a TLS handshake post nothing. -/
theorem establish_posted (cx : Cx) (allowInvalidCerts : Bool) (tls : TlsOutcome)
    (readings : ConnectionReadings) :
    posted (cx.establishReports (D := D) render allowInvalidCerts tls readings).1 = [] ∧
      (cx.establish tls).1.posts = cx.posts := by
  unfold establishReports establish
  split
  · exact ⟨rfl, rfl⟩
  · cases tls with
    | established => exact ⟨rfl, rfl⟩
    | cancelled => exact ⟨rfl, rfl⟩
    | rejected => exact ⟨rfl, rfl⟩
    | io => exact ⟨rfl, rfl⟩

/-- What a connection posts is in its reports, in order. -/
theorem connection_posted (cx : Cx) (allowInvalidCerts : Bool) (n : RunNotes)
    (script : ConnectionScript) (readings : ConnectionReadings) :
    (cx.driveConnection script).1.posts = cx.posts ++
      posted (cx.connectionReports render target allowInvalidCerts n script readings).2.1 := by
  obtain ⟨htls, hsame⟩ := establish_posted (D := D) render cx allowInvalidCerts script.tls readings
  unfold driveConnection connectionReports
  cases script.timeoutSet with
  | false => exact (List.append_nil _).symm
  | true =>
      simp only [Bool.not_true, Bool.false_eq_true, if_false]
      cases hest : cx.establish script.tls with
      | mk cx' ended =>
          rw [hest] at hsame
          cases ended with
          | some ended =>
              simp only [htls, List.append_nil]
              exact hsame
          | none =>
              obtain ⟨-, hcx⟩ := establish_same hest
              obtain rfl := hcx rfl
              have hjob := @job_posted D F32 cx' n
              have hbegin : posted (target.toList.map fun target =>
                  (.capture (.captureBegin target cx'.job.mountpoint) : Report D F32)) = [] := by
                refine posted_none fun r hr => ?_
                obtain ⟨target, -, rfl⟩ := List.mem_map.mp hr
                rfl
              by_cases hrequest : (!(NtripSession.new cx'.job.sessionConfig
                  script.openedAt).2.isEmpty && !script.requestWritten) = true
              · simp only [hrequest, if_true, posted_append, htls, hjob, List.append_nil]
              · simp only [Bool.eq_false_iff.mpr hrequest, Bool.false_eq_true, if_false,
                  posted_append, htls, hjob, hbegin, List.nil_append, List.append_nil,
                  ← List.append_assoc]
                exact Worker.loop_posted render target _ _ _ _ _ _ _

/-- What the end of a connection posts is in its reports. -/
theorem end_posted (cx : Cx) (ended : SessionEnd) (message : Text) (attempt : Attempt)
    (readings : AttemptReadings) :
    (cx.afterConnection ended attempt).1.posts = cx.posts ++
      posted (cx.endReports (D := D) render ended message attempt readings).1 := by
  have hdropped : ∀ cx : Cx, cx.countDrop.posts = cx.posts ∧
      cx.countDrop.attemptsDone = cx.attemptsDone := by
    intro cx
    unfold countDrop
    split
    · exact ⟨rfl, rfl⟩
    · exact ⟨rfl, rfl⟩
  obtain ⟨hposts, hattempts⟩ := hdropped (cx.observe attempt.cancelledAfter)
  have hdropped' := (hdropped cx).2
  have hfailed : posted (if ended = .failed then [.event (.failed message)] else [] :
      List (Report D F32)) = [] := by
    split
    · rfl
    · rfl
  have halert : posted (if cx.alertArmed then
        readings.alertError.toList.map fun error => .event (.alertFailed error)
      else [] : List (Report D F32)) = [] := by
    refine posted_none fun r hr => ?_
    split at hr
    · obtain ⟨error, -, rfl⟩ := List.mem_map.mp hr
      rfl
    · simp at hr
  unfold afterConnection endReports
  split
  · exact (List.append_nil _).symm
  · exact (List.append_nil _).symm
  · have hclosed : ∀ summary : Text, posted ((if ended = .failed then [.event (.failed message)]
        else [] : List (Report D F32)) ++ [.lastClose summary] ++
          if cx.alertArmed then
            readings.alertError.toList.map fun error => .event (.alertFailed error)
          else []) = [] := by
      intro summary
      rw [posted_append, posted_append, hfailed, halert]
      rfl
    simp only
    split
    · rw [hfailed, List.append_nil]
      rfl
    · split
      · rw [posted_append, hclosed, List.nil_append]
        exact hposts.trans (List.append_nil _).symm
      · have hwaiting : (cx.observe attempt.cancelledAfter).countDrop.posts ++
            [.status (.reconnectWait
              ((cx.observe attempt.cancelledAfter).countDrop.attemptsDone + 1))] =
            cx.posts ++ [.status (.reconnectWait (cx.countDrop.attemptsDone + 1))] := by
          rw [hposts, hattempts, hdropped']
          rfl
        rw [posted_append, posted_append, hclosed, List.nil_append]
        split
        · exact hwaiting
        · exact hwaiting

/-- What an attempt posts is in its reports, in order. -/
theorem attempt_posted (cx : Cx) (allowInvalidCerts : Bool) (n : RunNotes) (attempt : Attempt)
    (readings : AttemptReadings) :
    (cx.attemptOnce attempt).1.posts = cx.posts ++
      posted (cx.attemptReports render target allowInvalidCerts n attempt readings).2.1 := by
  let begun := ({ cx with attemptsDone := cx.attemptsDone + 1 } : Cx).post
    [.status (.connecting (cx.attemptsDone + 1))]
  let connecting : List (Report D F32) := [.post (.status (.connecting (cx.attemptsDone + 1))),
    .event (.connecting cx.job.host cx.job.port (cx.attemptsDone + 1))]
  have hbegun : begun.posts = cx.posts ++ posted connecting := rfl
  unfold attemptOnce attemptReports connectOnce
  cases attempt.connect with
  | cancelled => rfl
  | failed =>
      have hend := end_posted (D := D) render begun .failed
        ("Connect failed: ".toList ++ readings.connectError) attempt readings
      rw [hbegun, List.append_assoc, ← posted_append] at hend
      exact hend
  | connected script =>
      have hdriven := connection_posted render target begun allowInvalidCerts n script
        readings.connection
      rw [hbegun, List.append_assoc, ← posted_append] at hdriven
      simp only
      cases hdrive : begun.driveConnection script with
      | mk next ended =>
          rw [hdrive] at hdriven
          cases ended with
          | none => exact hdriven
          | some ended =>
              have hend := end_posted (D := D) render next ended
                (begun.connectionReports render target allowInvalidCerts n script
                  readings.connection).2.2 attempt readings
              rw [hdriven, List.append_assoc, ← posted_append] at hend
              exact hend

/-- The posts of a run are those of its reports, in order. -/
theorem supervise_posted (cx : Cx) (allowInvalidCerts : Bool) (n : RunNotes)
    (attempts : List Attempt) (readings : Nat → AttemptReadings) :
    (cx.supervise attempts).1.posts = cx.posts ++
      posted (cx.superviseReports render target allowInvalidCerts n attempts readings) := by
  induction attempts generalizing cx n readings with
  | nil => exact (List.append_nil _).symm
  | cons attempt rest ih =>
      have honce := attempt_posted render target (cx.observe attempt.cancelledTop)
        allowInvalidCerts n attempt (readings 0)
      unfold supervise superviseReports
      by_cases hcancel : (cx.observe attempt.cancelledTop).cancel = true
      · simp only [hcancel, if_true]
        exact (List.append_nil _).symm
      · simp only [Bool.eq_false_iff.mpr hcancel, Bool.false_eq_true, if_false]
        cases hanswer : (cx.observe attempt.cancelledTop).attemptOnce attempt with
        | mk next recorded =>
            obtain ⟨record, course⟩ := recorded
            rw [hanswer] at honce
            cases course with
            | stopped failed =>
                simp only [posted_append]
                exact honce.trans (congrArg (_ ++ ·) (List.append_nil _).symm)
            | connected => exact honce
            | again =>
                simp only [posted_append, ← List.append_assoc]
                rw [ih, honce]
                rfl

end Cx

/-! ## Quiet reports -/

namespace Worker

/-- No output changes the job. -/
theorem dispatch_one_job (w : Worker) (o : Output) (around : Surroundings) :
    (w.dispatchOne o around).cx.job = w.cx.job := by
  cases o with
  | ggaDue =>
      obtain ⟨posts, ggaSent, hgga⟩ := on_gga_due_spec w around
      show (w.onGgaDue around).cx.job = w.cx.job
      rw [hgga]
      rfl
  | corrections bytes =>
      show (w.onCorrections bytes around).cx.job = w.cx.job
      unfold onCorrections beginStream
      cases w.conn.streaming with
      | true => rfl
      | false => rfl
  | _ => rfl

/-- Only corrections change the totals. -/
theorem dispatch_one_kept (w : Worker) {o : Output} (ho : ∀ bytes, o ≠ .corrections bytes)
    (around : Surroundings) : Cx.Carries w.cx (w.dispatchOne o around).cx := by
  cases o with
  | ggaDue =>
      obtain ⟨posts, ggaSent, hgga⟩ := on_gga_due_spec w around
      show Cx.Carries w.cx (w.onGgaDue around).cx
      rw [hgga]
      exact ⟨rfl, rfl, rfl, rfl⟩
  | corrections bytes => exact absurd rfl (ho bytes)
  | _ => exact ⟨rfl, rfl, rfl, rfl⟩

/-- A turn leaves the connection as it is besides. -/
theorem turn_same (w : Worker) (next : LoopTurn) :
    Cx.Carries w.cx (w.turn next).1.cx ∧ (w.turn next).1.conn = w.conn := by
  obtain ⟨flag, calls, hturn, -, -⟩ := turn_proceeds w next
  rw [hturn]
  exact ⟨⟨rfl, rfl, rfl, rfl⟩, rfl⟩

end Worker

/-- The reports besides the statuses of a connection, the blocks that are delivered and what is
counted of them, the captures and the end of the run. -/
def Report.quiet : Report D F32 → Bool
  | .post (.status .waitingForData) | .post (.status .streaming)
  | .post (.push _) | .post (.rtcm _) | .post (.rxBytes _)
  | .event (.milestone _ _ _) | .capture _ | .stopped _ _ => false
  | _ => true

/-- The last report of a run. -/
def Report.isStopped : Report D F32 → Bool
  | .stopped _ _ => true
  | _ => false

def Quiet (reports : List (Report D F32)) : Prop := ∀ r ∈ reports, r.quiet = true

namespace Quiet

omit [Inhabited F32]

/-- Where there is no report, all are quiet. -/
theorem nil : Quiet ([] : List (Report D F32)) := fun _ hr => absurd hr List.not_mem_nil

/-- A quiet report in front of quiet ones. -/
theorem cons {r : Report D F32} {rest : List (Report D F32)} (h : r.quiet = true)
    (hrest : Quiet rest) : Quiet (r :: rest) := by
  intro r' hr
  rcases List.mem_cons.mp hr with rfl | hr
  · exact h
  · exact hrest r' hr

/-- Quiet reports one behind the other. -/
theorem append {first second : List (Report D F32)} (h : Quiet first) (h' : Quiet second) :
    Quiet (first ++ second) := by
  intro r hr
  rcases List.mem_append.mp hr with hr | hr
  · exact h r hr
  · exact h' r hr

/-- Reports that are made under a condition are quiet if they are quiet when made. -/
theorem ite {p : Prop} [Decidable p] {reports : List (Report D F32)} (h : Quiet reports) :
    Quiet (if p then reports else []) := by
  split
  · exact h
  · exact nil

/-- Reports made of items are quiet if each is. -/
theorem map {α : Type} {items : List α} {report : α → Report D F32}
    (h : ∀ item, (report item).quiet = true) : Quiet (items.map report) := by
  intro r hr
  obtain ⟨item, -, rfl⟩ := List.mem_map.mp hr
  exact h item

/-- A line for both logs is quiet if it is for one. -/
theorem both {line : Line} (h : (.event line : Report D F32).quiet = true) :
    Quiet (Worker.both line : List (Report D F32)) :=
  cons h (cons rfl nil)

/-- A change of the position trouble is quiet. -/
theorem trouble (n : RunNotes) (trouble : PositionTrouble) :
    Quiet (n.reportTrouble trouble : RunNotes × List (Report D F32)).2 := by
  refine cons rfl ?_
  split
  · exact nil
  · exact cons rfl nil

/-- What is reported of an overrun is quiet. -/
theorem overrun (n : RunNotes) (pushed : PushOutcome) (now : Instant) :
    Quiet (Worker.overrunReports n pushed now : RunNotes × List (Report D F32)).2 := by
  cases pushed with
  | droppedOldest total =>
      simp only [Worker.overrunReports]
      split
      · exact cons rfl (cons rfl nil)
      · exact cons rfl nil
  | inactive => exact nil
  | queued => exact nil

end Quiet

section

open Quiet

omit [Inhabited F32] in
/-- The reports of an acknowledgement are quiet. -/
theorem gga_quiet (w : Worker) (n : ConnNotes) (around : Worker.Surroundings)
    (readings : Readings) :
    Quiet (w.ggaReports n around readings : ConnNotes × List (Report D F32)).2 := by
  unfold Worker.ggaReports
  cases Worker.sentence w.cx.job around with
  | none =>
      intro r hr
      rcases miss_lines _ _ _ _ r hr with rfl | rfl | rfl
      · rfl
      · rfl
      · rfl
  | some sentence =>
      cases around.written with
      | true => exact cons rfl (append (ite (cons rfl nil)) (cons rfl nil))
      | false => exact cons rfl nil

/-- The reports of a close are quiet. -/
theorem close_quiet (w : Worker) (n : Notes) (reason : CloseReason)
    (around : Worker.Surroundings) (readings : Readings) :
    Quiet (w.closeReports render n reason around readings : Notes × List (Report D F32)).2 := by
  have hanswer : Quiet (Worker.answerReports (D := D) render w.cx.job reason) := by
    cases reason with
    | unknownResponse raw =>
        cases raw with
        | nil => exact nil
        | cons first raw => exact cons rfl nil
    | mountpointNotFound sourcetable => exact cons rfl (cons rfl nil)
    | _ => exact nil
  have hhint : ∀ hint, Quiet (Worker.hintReports hint : List (Report D F32)) := by
    intro hint
    cases hint with
    | none => exact nil
    | some hint => exact append (both rfl) (both rfl)
  have hverdict : ∀ verdict, Quiet
      (Worker.verdictReports n.run verdict : RunNotes × List (Report D F32)).2 := by
    intro verdict
    cases verdict with
    | none => exact cons rfl nil
    | some trouble => exact .trouble n.run trouble
  exact append (append (append hanswer (both rfl)) (hhint _)) (hverdict _)

/-- Only corrections lead to other reports within a session. -/
theorem one_quiet (w : Worker) (n : Notes) {o : Output} (ho : ∀ bytes, o ≠ .corrections bytes)
    (around : Worker.Surroundings) (readings : Readings) :
    Quiet (w.oneReports (D := D) render target n o around readings).2 := by
  cases o with
  | protocolTx line => exact both rfl
  | protocolRx line => exact both rfl
  | ggaDue => exact gga_quiet w n.conn around readings
  | corrections bytes => exact absurd rfl (ho bytes)
  | sourcetable body => exact cons rfl (cons rfl nil)
  | close reason => exact close_quiet render w n reason around readings

omit [Inhabited F32] in
/-- The reports of a turn are quiet. -/
theorem turn_quiet (w : Worker) (n : Notes) (next : Worker.LoopTurn)
    (readings : TurnReadings) :
    Quiet (w.turnReports n next readings : Notes × List (Report D F32)).2 := by
  have hread : ∀ w : Worker, Quiet (w.readReports next readings : List (Report D F32)) := by
    intro w
    unfold Worker.readReports
    split
    · split
      · exact nil
      · exact cons rfl nil
    · exact nil
  unfold Worker.turnReports
  simp only
  split
  · exact nil
  · split
    · exact append (hread _) (.trouble n.run .starved)
    · exact hread _

omit [Inhabited F32] in
theorem job_quiet (cx : Cx) (n : RunNotes) :
    Quiet (cx.jobReports n : RunNotes × List (Report D F32)).2 :=
  append (append (append (ite (cons rfl nil)) (ite (cons rfl nil))) (ite (cons rfl (cons rfl nil))))
    (ite (cons rfl nil))

end

omit [Inhabited F32] in
/-- A report aside is quiet. -/
theorem aside_quiet {r : Report D F32} (h : r.aside = true) : r.quiet = true := by
  cases r with
  | post p =>
      cases p with
      | status status =>
          cases status with
          | connecting attempt => rfl
          | reconnectWait next => rfl
          | waitingForData => exact h
          | streaming => exact h
      | push block => exact h
      | rtcm batch => exact h
      | rxBytes total => exact h
      | _ => rfl
  | event line =>
      cases line with
      | milestone mark frames crcFailures => exact h
      | _ => rfl
  | capture cmd => exact h
  | stopped summary failed => exact h
  | _ => rfl

section

variable {β : Type} (note : β → Report D F32 → β) (allows : β → Report D F32 → Prop)

/-- A reader that does not look at quiet reports. What it relates to the worker concerns neither the
notes nor what the outputs besides corrections change. -/
structure QuietReader (idle : Cx → β → Prop) (pending : Worker → List Output → β → Prop)
    (live past : β → Prop) : Prop where
  quiet : ∀ b (r : Report D F32), r.quiet = true → note b r = b ∧ allows b r
  kept : ∀ w o rest around b, (∀ bytes, o ≠ .corrections bytes) → pending w (o :: rest) b →
    pending (w.dispatchOne o around) rest b
  corrections : ∀ w n bytes rest around readings b, pending w (.corrections bytes :: rest) b →
    Leads note allows (pending (w.onCorrections bytes around) rest) b
      (w.correctionReports target n bytes around readings).2
  turned : ∀ w next b, pending w [] b → w.conn.terminal = none →
    pending (w.turn next).1 (w.turn next).2 b
  close : ∀ w b ended, pending w [] b → w.conn.terminal = some ended →
    Leads note allows (idle w.disconnect.cx) b
      (if target.isSome then [.capture .captureEnd] else [])
  same : ∀ cx cx' b, Cx.Carries cx cx' → idle cx b → idle cx' b
  opened : ∀ cx b openedAt firstTick, idle cx b →
    Leads note allows
      (pending ((cx.connected openedAt).call (.onTick firstTick)).1
        ((cx.connected openedAt).call (.onTick firstTick)).2) b
      ([.event .connected, .post (.status .waitingForData)] ++
        target.toList.map fun target => .capture (.captureBegin target cx.job.mountpoint))
  live : ∀ w b, pending w [] b → live b
  stopped : ∀ cx b summary failed, idle cx b →
    Leads note allows past b [.stopped summary failed]

variable {target note allows} {idle : Cx → β → Prop} {pending : Worker → List Output → β → Prop}
  {live past : β → Prop}

omit [Inhabited F32] in
/-- A quiet reader passes over quiet reports. -/
theorem QuietReader.skip (reader : QuietReader target note allows idle pending live past)
    {reports : List (Report D F32)} (hquiet : Quiet reports) {post : β → Prop} {b : β}
    (h : post b) : Leads note allows post b reports :=
  leads_quiet (fun r hr => reader.quiet b r (hquiet r hr)) h

/-- A reader that quiet reports leave alone has to be told of the others only. -/
theorem QuietReader.reads (reader : QuietReader target note allows idle pending live past) :
    RunReader render target note allows (fun cx _ b => idle cx b)
      (fun w _ outs b => pending w outs b) live past where
  one w n o rest around readings b h := by
    by_cases ho : ∀ bytes, o ≠ .corrections bytes
    · exact reader.skip (one_quiet render target w n ho around readings)
        (reader.kept w o rest around b ho h)
    · obtain ⟨bytes, rfl⟩ := not_forall_not.mp ho
      exact reader.corrections w n bytes rest around readings b h
  turn w n next readings b h hopen :=
    reader.skip (turn_quiet w n next readings) (reader.turned w next b h hopen)
  close w n b ended h hended := reader.close w b ended h hended
  aside cx n b r h haside := reader.quiet b r (aside_quiet haside)
  same cx cx' n b hkept h := reader.same cx cx' b hkept h
  job cx n b h := reader.skip (job_quiet cx n) h
  opened cx n b openedAt firstTick connectedAt h := reader.opened cx b openedAt firstTick h
  live w n b h := reader.live w b h
  stopped cx n b summary failed h := reader.stopped cx b summary failed h

end

/-! ## The end of a run -/

omit [Inhabited F32] in
/-- Nothing is said of the end of a run within it. -/
theorem unfinished_leads {reports : List (Report D F32)}
    (h : ∀ r ∈ reports, r.isStopped = false) :
    Leads (fun b r => b || r.isStopped) (fun b _ => b = false) (· = false) false reports := by
  refine leads_quiet (fun r hr => ⟨?_, rfl⟩) rfl
  rw [h r hr]
  rfl

omit [Inhabited F32] in
/-- A quiet report does not end a session. -/
theorem quiet_unfinished {r : Report D F32} (h : r.quiet = true) : r.isStopped = false := by
  cases r with
  | stopped summary failed => exact h.symm
  | _ => rfl

omit [Inhabited F32] in
/-- Nothing that is reported of corrections ends a session. -/
theorem corrections_unfinished (w : Worker) (n : Notes) (bytes : Bytes)
    (around : Worker.Surroundings) (readings : Readings) :
    ∀ r ∈ (w.correctionReports target n bytes around readings : Notes × List (Report D F32)).2,
      r.isStopped = false := by
  obtain ⟨frames, crcFailures, due, batch, hparts⟩ :=
    @correction_reports_parts D F32 target w n bytes around readings
  intro r hr
  rw [hparts] at hr
  simp only [List.mem_append] at hr
  rcases hr with (((((hr | hr) | hr) | hr) | hr) | hr) | hr
  · unfold Worker.firstReports at hr
    split at hr
    · simp at hr
    · rcases List.mem_pair.mp hr with rfl | rfl
      · rfl
      · rfl
  · rw [List.mem_singleton.mp hr]
    rfl
  · exact quiet_unfinished (Quiet.overrun _ _ _ r hr)
  · split at hr
    · rw [List.mem_singleton.mp hr]
      rfl
    · simp at hr
  · obtain ⟨mark, -, rfl⟩ := List.mem_map.mp hr
    rfl
  · split at hr
    · rw [List.mem_singleton.mp hr]
      rfl
    · simp at hr
  · rw [List.mem_singleton.mp hr]
    rfl

/-- A reader that looks out for the end of the run. -/
theorem end_reader : RunReader render target
    (fun b (r : Report D F32) => b || r.isStopped) (fun b _ => b = false)
    (fun _ _ b => b = false) (fun _ _ _ b => b = false) (· = false) (· = true) where
  one w n o rest around readings b h := by
    subst h
    by_cases ho : ∀ bytes, o ≠ .corrections bytes
    · exact unfinished_leads fun r hr =>
        quiet_unfinished (one_quiet render target w n ho around readings r hr)
    · obtain ⟨bytes, rfl⟩ := not_forall_not.mp ho
      exact unfinished_leads (corrections_unfinished target w n bytes around readings)
  turn w n next readings b h _ := by
    subst h
    exact unfinished_leads fun r hr => quiet_unfinished (turn_quiet w n next readings r hr)
  close w n b ended h _ := by
    subst h
    refine unfinished_leads fun r hr => ?_
    split at hr
    · rw [List.mem_singleton.mp hr]
      rfl
    · simp at hr
  aside cx n b r h haside := by
    subst h
    exact ⟨quiet_unfinished (aside_quiet haside), rfl⟩
  same cx cx' n b _ h := h
  job cx n b h := by
    subst h
    exact unfinished_leads fun r hr => quiet_unfinished (job_quiet cx n r hr)
  opened cx n b openedAt firstTick connectedAt h := by
    subst h
    refine unfinished_leads fun r hr => ?_
    rcases List.mem_append.mp hr with hr | hr
    · rcases List.mem_pair.mp hr with rfl | rfl
      · rfl
      · rfl
    · obtain ⟨target, -, rfl⟩ := List.mem_map.mp hr
      rfl
  live w n b h := h
  stopped cx n b summary failed h := by
    subst h
    exact .cons rfl (.nil rfl)

/-- A run says that it stopped at most once, and nothing after. -/
theorem stopped_last (cx : Cx) (allowInvalidCerts : Bool) (n : RunNotes)
    (attempts : List Cx.Attempt) (readings : Nat → AttemptReadings) :
    (cx.superviseReports render target allowInvalidCerts n attempts readings).Pairwise
      fun r _ => r.isStopped = false := by
  obtain ⟨haccepts, -⟩ := (end_reader render target).supervise (b := false) rfl allowInvalidCerts
    attempts readings
  exact haccepts.pairwise_last

end OpenNtrip
