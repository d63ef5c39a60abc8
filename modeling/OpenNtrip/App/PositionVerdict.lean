import OpenNtrip.App.Hub
import OpenNtrip.App.ReportRuns
import OpenNtrip.NtripCore.Lifecycle

/-!
# Verdicts about positions

When a run of the worker blames a missing position, and when it takes that back. `Band` reads both
off the reports, with the positions that were sent since the connection was made and the response
that was not understood. `position_verdict` is about the reports of every run.
-/

namespace OpenNtrip

open Observer

variable {D F32 : Type}

/-- What is read off the reports: the trouble shown, the number of positions sent on the connection,
whether a withdrawal is owed for the first of them, and the response to the connection that was not
understood. -/
structure Band where
  shown : Option PositionTrouble := none
  sent : Nat := 0
  owed : Bool := false
  raw : Option Bytes := none
  deriving DecidableEq, Repr

namespace Band

/-- What a report changes. The interface shows the last verdict, and none once a stream begins. -/
def note (b : Band) : Report D F32 → Band
  | .post (.status .waitingForData) => { b with sent := 0, raw := none }
  | .post (.status .streaming) => { b with shown := none }
  | .post (.gga _) => { b with sent := b.sent + 1, owed := b.sent = 0 }
  | .unknownResponse raw => { b with raw := some raw }
  | .trouble none => { b with shown := none, owed := false }
  | .trouble (some trouble) => { b with shown := some trouble }
  | _ => b

/-- What a report has to respect. -/
def Permits (job : NtripJob) (b : Band) : Report D F32 → Prop
  | .trouble (some .starved) => job.positionMatters = true ∧ b.sent = 0
  | .trouble (some .refused) =>
    job.positionMatters = true ∧ ∃ raw, b.raw = some raw ∧ statusCode raw = some 403
  | .post (.push _) => b.shown = none
  | _ => True

/-- Nothing comes between the first position and the withdrawal of the verdict. -/
def Allows (job : NtripJob) (b : Band) (r : Report D F32) : Prop :=
  (b.owed = true → r = .trouble none) ∧ b.Permits job r

end Band

/-- The reports that a band does not read. -/
def Report.plain : Report D F32 → Bool
  | .event _ | .conn _ | .lastClose _ | .sourcetableReady _ _ _ | .capture _ | .stopped _ _
  | .post (.status (.connecting _)) | .post (.status (.reconnectWait _))
  | .post (.overruns _) | .post (.rtcm _) | .post (.rxBytes _) => true
  | _ => false

namespace Band

variable {job : NtripJob} {b : Band}

theorem plain_quiet (howed : b.owed = false) {r : Report D F32} (h : r.plain = true) :
    b.note r = b ∧ b.Allows job r := by
  have hnothing : b.owed = true → r = .trouble none :=
    fun hnot => absurd (howed.symm.trans hnot) (by simp)
  cases r with
  | post p =>
      cases p with
      | status status =>
          cases status with
          | connecting attempt => exact ⟨rfl, hnothing, trivial⟩
          | reconnectWait next => exact ⟨rfl, hnothing, trivial⟩
          | waitingForData => simp [Report.plain] at h
          | streaming => simp [Report.plain] at h
      | overruns total => exact ⟨rfl, hnothing, trivial⟩
      | rtcm batch => exact ⟨rfl, hnothing, trivial⟩
      | rxBytes total => exact ⟨rfl, hnothing, trivial⟩
      | gga sentence => simp [Report.plain] at h
      | push block => simp [Report.plain] at h
  | unknownResponse raw => simp [Report.plain] at h
  | trouble trouble => simp [Report.plain] at h
  | _ => exact ⟨rfl, hnothing, trivial⟩

theorem plain_leads {post : Band → Prop} (howed : b.owed = false) (h : post b)
    {reports : List (Report D F32)} (hplain : ∀ r ∈ reports, r.plain = true) :
    Leads note (Allows job) post b reports :=
  leads_quiet (fun r hr => plain_quiet howed (hplain r hr)) h

end Band

theorem Report.aside_plain {r : Report D F32} (h : r.aside = true) : r.plain = true := by
  cases r with
  | post p =>
      cases p with
      | status status =>
          cases status with
          | connecting attempt => rfl
          | reconnectWait next => rfl
          | waitingForData => exact h
          | streaming => exact h
      | gga sentence => exact h
      | push block => exact h
      | _ => rfl
  | unknownResponse raw => exact h
  | trouble trouble => exact h
  | _ => rfl

/-! ## Verdicts -/

section

variable {reason : CloseReason} {transport : Transport} {mountpoint : Text}
  {streamRequires : Option Bool} {ggaSent : Nat} {connectedFor : Duration} {ready : Bool}

theorem hint_unsent
    (h : (ggaHint reason transport mountpoint streamRequires ggaSent connectedFor).isSome = true) :
    ggaSent = 0 := by
  unfold ggaHint at h
  simp only at h
  split at h
  · simp at h
  · next hkick =>
      have hsent : ¬ 0 < ggaSent := fun hpos => hkick (.inr (.inl hpos))
      omega

/-- A caster is blamed for starving a client only if a position matters and none was sent. -/
theorem starved_spec (h : positionVerdict reason transport mountpoint streamRequires ggaSent
    connectedFor ready = some .starved) :
    positionMatters transport mountpoint streamRequires = true ∧ ggaSent = 0 := by
  unfold positionVerdict at h
  split at h
  · simp at h
  · next hmatters =>
      refine ⟨by simpa using hmatters, ?_⟩
      split at h
      · next hhint => exact hint_unsent hhint
      · simp only at h
        split at h
        · simp at h
        · simp at h

theorem status_code_nil : statusCode [] = none := by decide

/-- It is blamed for refusing one only if a position matters and the response has the status 403.
-/
theorem refused_spec (h : positionVerdict reason transport mountpoint streamRequires ggaSent
    connectedFor ready = some .refused) :
    positionMatters transport mountpoint streamRequires = true ∧
      ∃ raw, reason = .unknownResponse raw ∧ statusCode raw = some 403 := by
  unfold positionVerdict at h
  split at h
  · simp at h
  · next hmatters =>
      refine ⟨by simpa using hmatters, ?_⟩
      split at h
      · simp at h
      · cases reason with
        | unknownResponse raw =>
            by_cases hstatus : statusCode raw = some 403
            · exact ⟨raw, rfl, hstatus⟩
            · simp [hstatus] at h
        | _ => simp at h

end

/-! ## One connection -/

/-- No corrections follow the end of a session. -/
def EndsLast (outs : List Output) : Prop :=
  ∀ before o after, outs = before ++ o :: after → o.isEnding = true →
    ∀ payload, .corrections payload ∉ after

theorem EndsLast.tail {o : Output} {rest : List Output} (h : EndsLast (o :: rest)) :
    EndsLast rest :=
  fun before o' after hsplit => h (o :: before) o' after (congrArg (o :: ·) hsplit)

/-- The outputs of what a worker does next. -/
theorem ends_last_proceeds {cfg : SessionConfig} {t0 : Instant} {w : Worker}
    {answer : Worker × List Output} (h : Worker.OnRecord cfg t0 w)
    (hproceeds : Worker.Proceeds w answer) : EndsLast answer.2 := by
  obtain ⟨flag, calls, rfl, -, -⟩ := hproceeds
  intro before o after hsplit hending payload hmem
  have hrun : (NtripSession.run (NtripSession.new cfg t0).1 (w.calls ++ calls)).2 =
      ((NtripSession.run (NtripSession.new cfg t0).1 w.calls).2 ++ before) ++ o :: after := by
    rw [NtripSession.run_append, ← h, List.append_assoc]
    exact congrArg (_ ++ ·) hsplit
  cases o with
  | close reason =>
      rw [NtripSession.run_after_close cfg t0 hrun] at hmem
      simp at hmem
  | sourcetable body =>
      rcases NtripSession.run_after_table cfg t0 hrun with hnone | ⟨hclose, -⟩
      · rw [hnone] at hmem
        simp at hmem
      · rw [hclose] at hmem
        simp at hmem
  | _ => simp [Output.isEnding] at hending

/-- The band agrees with a connection whose outputs are to be dispatched: once it streams or a
position was sent, no trouble is shown until it ends. -/
structure Band.Matches (job : NtripJob) (w : Worker) (outs : List Output) (b : Band) : Prop where
  same : w.cx.job = job
  owed : b.owed = false
  sent : b.sent = w.conn.ggaSent
  clear : w.conn.terminal = none → (w.conn.streaming = true ∨ 0 < w.conn.ggaSent) → b.shown = none
  session : ∃ t0, Worker.OnRecord job.sessionConfig t0 w
  last : EndsLast outs
  ended : w.conn.terminal ≠ none → ∀ payload, .corrections payload ∉ outs

namespace Band

variable {job : NtripJob} {b : Band} {w w' : Worker} {o : Output} {rest : List Output}

/-- An output that concerns neither the connection nor what is shown. -/
theorem Matches.tail (h : Matches job w (o :: rest) b) (hjob : w'.cx.job = w.cx.job)
    (hconn : w'.conn = w.conn) (hsession : w'.session = w.session) (hcalls : w'.calls = w.calls) :
    Matches job w' rest b := by
  obtain ⟨t0, hrecord⟩ := h.session
  refine ⟨hjob.trans h.same, h.owed, by rw [hconn, h.sent], by rw [hconn]; exact h.clear,
    ⟨t0, ?_⟩, h.last.tail, ?_⟩
  · rw [Worker.OnRecord, hsession, hcalls]
    exact hrecord
  · rw [hconn]
    exact fun hended payload hmem => h.ended hended payload (List.mem_cons_of_mem _ hmem)

/-- A position that was sent withdraws the verdict. -/
theorem gga_matches (h : Matches job w (.ggaDue :: rest) b) (n : ConnNotes)
    (around : Worker.Surroundings) (readings : Readings) :
    Leads note (Allows job) (Matches job (w.onGgaDue around) rest) b
      (w.ggaReports n around readings : ConnNotes × List (Report D F32)).2 := by
  obtain ⟨t0, hrecord⟩ := h.session
  have hrecord' : Worker.OnRecord job.sessionConfig t0 (w.onGgaDue around) :=
    hrecord.answers (Worker.dispatch_one_answers w .ggaDue around)
  have hended : w.conn.terminal ≠ none → ∀ payload, .corrections payload ∉ rest :=
    fun hended payload hmem => h.ended hended payload (List.mem_cons_of_mem _ hmem)
  have hkept : ∀ conn, (w.onGgaDue around).conn = conn → conn = w.conn →
      Matches job (w.onGgaDue around) rest b := by
    intro conn hconn hsame
    rw [hsame] at hconn
    refine ⟨?_, h.owed, by rw [hconn, h.sent], by rw [hconn]; exact h.clear, ⟨t0, hrecord'⟩,
      h.last.tail, by rw [hconn]; exact hended⟩
    obtain ⟨posts, sent, hgga⟩ := Worker.on_gga_due_spec w around
    rw [hgga]
    exact h.same
  cases hsentence : Worker.sentence w.cx.job around with
  | none =>
      simp only [Worker.ggaReports, hsentence]
      have hconn : (w.onGgaDue around).conn = w.conn := by
        simp only [Worker.onGgaDue, hsentence]
        rfl
      refine plain_leads h.owed (hkept _ hconn rfl) fun r hr => ?_
      rcases miss_lines _ _ _ _ r hr with rfl | rfl | rfl
      · rfl
      · rfl
      · rfl
  | some sentence =>
      cases hwritten : around.written with
      | false =>
          simp only [Worker.ggaReports, hsentence, hwritten, Bool.false_eq_true, if_false]
          have hconn : (w.onGgaDue around).conn = w.conn := by
            simp only [Worker.onGgaDue, hsentence, hwritten]
            rfl
          refine plain_leads h.owed (hkept _ hconn rfl) fun r hr => ?_
          rw [List.mem_singleton.mp hr]
          rfl
      | true =>
          have hconn : (w.onGgaDue around).conn =
              { w.conn with ggaSent := w.conn.ggaSent + 1 } := by
            simp only [Worker.onGgaDue, hsentence, hwritten]
            rfl
          have hjob : (w.onGgaDue around).cx.job = job := by
            simp only [Worker.onGgaDue, hsentence, hwritten]
            exact h.same
          -- the band behind the position, and behind the withdrawal if it was the first
          have hsent : ∀ shown, (w.conn.terminal = none → shown = none) →
              Matches job (w.onGgaDue around) rest
                { b with shown, sent := b.sent + 1, owed := false } := by
            intro shown hshown
            refine ⟨hjob, rfl, by rw [hconn, h.sent], fun hopen _ => ?_, ⟨t0, hrecord'⟩,
              h.last.tail, by rw [hconn]; exact hended⟩
            rw [hconn] at hopen
            exact hshown hopen
          have hallows : b.Allows job (.post (.gga sentence) : Report D F32) :=
            ⟨fun howed => absurd (h.owed.symm.trans howed) (by simp), trivial⟩
          by_cases hfirst : w.conn.ggaSent = 0
          · simp only [Worker.ggaReports, hsentence, hwritten, if_true, if_pos hfirst]
            refine .cons hallows (.cons ⟨fun _ => rfl, trivial⟩ ?_)
            refine plain_leads rfl (hsent none fun _ => rfl) fun r hr => ?_
            rw [List.mem_singleton.mp hr]
            rfl
          · simp only [Worker.ggaReports, hsentence, hwritten, if_true, if_neg hfirst]
            have howed : decide (b.sent = 0) = false := by
              rw [h.sent]
              exact decide_eq_false hfirst
            have hmatches := hsent b.shown fun hopen => h.clear hopen (.inr (by omega))
            rw [← howed] at hmatches
            refine .cons hallows (plain_leads howed hmatches fun r hr => ?_)
            rw [List.mem_singleton.mp hr]
            rfl

/-- Corrections concern neither the job nor the count of the positions. -/
theorem on_corrections_conn (w : Worker) (bytes : Bytes) (around : Worker.Surroundings) :
    (w.onCorrections bytes around).cx.job = w.cx.job ∧
      (w.onCorrections bytes around).conn.ggaSent = w.conn.ggaSent ∧
      (w.onCorrections bytes around).conn.terminal = w.conn.terminal := by
  unfold Worker.onCorrections Worker.beginStream
  cases w.conn.streaming with
  | true => exact ⟨rfl, rfl, rfl⟩
  | false => exact ⟨rfl, rfl, rfl⟩

theorem overrun_plain (n : RunNotes) (pushed : PushOutcome) (now : Instant) :
    ∀ r ∈ (Worker.overrunReports n pushed now : RunNotes × List (Report D F32)).2,
      r.plain = true := by
  intro r hr
  cases pushed with
  | droppedOldest total =>
      simp only [Worker.overrunReports] at hr
      split at hr
      · rcases List.mem_pair.mp hr with rfl | rfl
        · rfl
        · rfl
      · rw [List.mem_singleton.mp hr]
        rfl
  | inactive => exact absurd hr List.not_mem_nil
  | queued => exact absurd hr List.not_mem_nil

/-- Corrections are delivered while no trouble is shown. -/
theorem corrections_matches {bytes : Bytes} (h : Matches job w (.corrections bytes :: rest) b)
    (target : Option (CaptureTarget D)) (n : Notes) (around : Worker.Surroundings)
    (readings : Readings) :
    Leads note (Allows job) (Matches job (w.onCorrections bytes around) rest) b
      (w.correctionReports target n bytes around readings : Notes × List (Report D F32)).2 := by
  obtain ⟨t0, hrecord⟩ := h.session
  have hopen : w.conn.terminal = none := by
    by_contra hended
    exact h.ended hended bytes List.mem_cons_self
  obtain ⟨hjob, hsent, hterminal⟩ := on_corrections_conn w bytes around
  have hmatches : ∀ b' : Band, b'.owed = false → b'.sent = b.sent → b'.shown = none →
      Matches job (w.onCorrections bytes around) rest b' := by
    intro b' howed hsame hshown
    refine ⟨hjob.trans h.same, howed, by rw [hsame, hsent, h.sent], fun _ _ => hshown,
      ⟨t0, hrecord.answers (Worker.dispatch_one_answers w (.corrections bytes) around)⟩,
      h.last.tail, fun hended => ?_⟩
    rw [hterminal] at hended
    exact absurd hopen hended
  let Calm : Band → Prop := fun b' => b'.owed = false ∧ b'.sent = b.sent ∧ b'.shown = none
  have hfirst : Leads note (Allows job) Calm b
      (w.firstReports n.conn around readings : List (Report D F32)) := by
    unfold Worker.firstReports
    have hnot : ∀ r : Report D F32, b.owed = true → r = .trouble none :=
      fun _ howed => absurd (h.owed.symm.trans howed) (by simp)
    cases hstreaming : w.conn.streaming with
    | true => exact .nil ⟨h.owed, rfl, h.clear hopen (.inl hstreaming)⟩
    | false => exact .cons ⟨hnot _, trivial⟩ (.cons ⟨hnot _, trivial⟩ (.nil ⟨h.owed, rfl, rfl⟩))
  have hpush : ∀ b', Calm b' →
      Leads note (Allows job) Calm b' [(.post (.push bytes) : Report D F32)] := by
    intro b' hb'
    exact .cons ⟨fun howed => absurd (hb'.1.symm.trans howed) (by simp), hb'.2.2⟩ (.nil hb')
  have hplain : ∀ reports : List (Report D F32), (∀ r ∈ reports, r.plain = true) →
      ∀ b', Calm b' → Leads note (Allows job) Calm b' reports :=
    fun reports hplain b' hb' => plain_leads hb'.1 hb' hplain
  have hcaptured : ∀ r ∈ (if target.isSome then [.capture (.captureData bytes)] else [] :
      List (Report D F32)), r.plain = true := by
    intro r hr
    split at hr
    · rw [List.mem_singleton.mp hr]
      rfl
    · simp at hr
  obtain ⟨frames, crcFailures, due, batch, hparts⟩ :=
    @correction_reports_parts D F32 target w n bytes around readings
  have hmilestone : ∀ r ∈ (trafficMark w.cx.totalBytes
      (w.cx.totalBytes + bytes.length)).toList.map fun mark =>
        (.event (.milestone mark frames crcFailures) : Report D F32), r.plain = true := by
    intro r hr
    obtain ⟨mark, -, rfl⟩ := List.mem_map.mp hr
    rfl
  have hbatch : ∀ r ∈ (if due then [.post (.rtcm batch)] else [] : List (Report D F32)),
      r.plain = true := by
    intro r hr
    split at hr
    · rw [List.mem_singleton.mp hr]
      rfl
    · simp at hr
  have htotal : ∀ r ∈ [(.post (.rxBytes (w.cx.totalBytes + bytes.length)) : Report D F32)],
      r.plain = true := by
    intro r hr
    rw [List.mem_singleton.mp hr]
    rfl
  rw [hparts]
  have hblock := (((((hfirst.append hpush).append (hplain _ (overrun_plain n.run around.pushed
    readings.overrunAt))).append (hplain _ hcaptured)).append (hplain _ hmilestone)).append
      (hplain _ hbatch)).append (hplain _ htotal)
  exact hblock.imp fun b' hb' => hmatches b' hb'.1 hb'.2.1 hb'.2.2

section

variable [Inhabited F32] (render : Rendering F32)

theorem answer_matches (asked : NtripJob) (reason : CloseReason) (howed : b.owed = false) :
    Leads note (Allows job)
      (fun b' => b'.owed = false ∧ b'.sent = b.sent ∧ b'.shown = b.shown ∧
        ∀ raw, reason = .unknownResponse raw → raw ≠ [] → b'.raw = some raw) b
      (Worker.answerReports render asked reason : List (Report D F32)) := by
  have hnot : ∀ r : Report D F32, b.owed = true → r = .trouble none :=
    fun _ hnot => absurd (howed.symm.trans hnot) (by simp)
  cases reason with
  | unknownResponse raw =>
      cases raw with
      | nil =>
          refine .nil ⟨howed, rfl, rfl, fun raw heq hne => ?_⟩
          obtain rfl := CloseReason.unknownResponse.inj heq
          exact absurd rfl hne
      | cons first raw =>
          refine .cons ⟨hnot _, trivial⟩ (.nil ⟨howed, rfl, rfl, fun raw' heq _ => ?_⟩)
          obtain rfl := CloseReason.unknownResponse.inj heq
          rfl
  | mountpointNotFound sourcetable =>
      exact .cons ⟨hnot _, trivial⟩ (.cons ⟨hnot _, trivial⟩
        (.nil ⟨howed, rfl, rfl, fun raw heq => absurd heq (by simp)⟩))
  | unauthorized => exact .nil ⟨howed, rfl, rfl, fun raw heq => absurd heq (by simp)⟩
  | firstResponseTimeout => exact .nil ⟨howed, rfl, rfl, fun raw heq => absurd heq (by simp)⟩
  | sourcetableTimeout => exact .nil ⟨howed, rfl, rfl, fun raw heq => absurd heq (by simp)⟩
  | streamSilence => exact .nil ⟨howed, rfl, rfl, fun raw heq => absurd heq (by simp)⟩
  | streamCorrupt detail => exact .nil ⟨howed, rfl, rfl, fun raw heq => absurd heq (by simp)⟩
  | remoteClosed => exact .nil ⟨howed, rfl, rfl, fun raw heq => absurd heq (by simp)⟩
  | cancelled => exact .nil ⟨howed, rfl, rfl, fun raw heq => absurd heq (by simp)⟩

omit [Inhabited F32] in
/-- A trouble that may be reported, with its hint. -/
theorem trouble_matches (n : RunNotes) {trouble : PositionTrouble} (howed : b.owed = false)
    (hpermits : b.Permits job (.trouble (some trouble) : Report D F32)) :
    Leads note (Allows job) (fun b' => b'.owed = false ∧ b'.sent = b.sent) b
      (n.reportTrouble trouble : RunNotes × List (Report D F32)).2 := by
  let shown : Band := { b with shown := some trouble }
  have hshown : shown.owed = false ∧ shown.sent = b.sent := ⟨howed, rfl⟩
  refine .cons ⟨fun hnot => absurd (howed.symm.trans hnot) (by simp), hpermits⟩ ?_
  refine plain_leads (b := shown) hshown.1 hshown fun r hr => ?_
  split at hr
  · simp at hr
  · rw [List.mem_singleton.mp hr]
    rfl

omit [Inhabited F32] in
theorem verdict_matches {verdict : Option PositionTrouble} (n : RunNotes) (howed : b.owed = false)
    (hpermits : ∀ trouble, verdict = some trouble →
      b.Permits job (.trouble (some trouble) : Report D F32)) :
    Leads note (Allows job) (fun b' => b'.owed = false ∧ b'.sent = b.sent) b
      (Worker.verdictReports n verdict : RunNotes × List (Report D F32)).2 := by
  cases verdict with
  | none => exact .cons ⟨fun _ => rfl, trivial⟩ (.nil ⟨rfl, rfl⟩)
  | some trouble => exact trouble_matches n howed (hpermits trouble rfl)

/-- What a close has to report leaves the band where the next output finds it. -/
theorem closed_matches {reason : CloseReason} {b' : Band}
    (h : Matches job w (.close reason :: rest) b) (howed : b'.owed = false)
    (hsent : b'.sent = b.sent) : Matches job (w.finish (.closed reason)) rest b' := by
  obtain ⟨t0, hrecord⟩ := h.session
  refine ⟨h.same, howed, hsent.trans h.sent, fun hopen => absurd hopen (by simp [Worker.finish]),
    ⟨t0, hrecord⟩, h.last.tail, fun _ payload => ?_⟩
  exact h.last [] (.close reason) rest rfl rfl payload

/-- A close is blamed on the position if it may be. -/
theorem close_matches {reason : CloseReason} (h : Matches job w (.close reason :: rest) b)
    (n : Notes) (around : Worker.Surroundings) (readings : Readings) :
    Leads note (Allows job) (Matches job (w.finish (.closed reason)) rest) b
      (w.closeReports render n reason around readings : Notes × List (Report D F32)).2 := by
  have hboth : ∀ line, ∀ r ∈ (Worker.both line : List (Report D F32)), r.plain = true := by
    intro line r hr
    rcases List.mem_pair.mp hr with rfl | rfl
    · rfl
    · rfl
  have hhint : ∀ hint, ∀ r ∈ (Worker.hintReports hint : List (Report D F32)),
      r.plain = true := by
    intro hint r hr
    cases hint with
    | none => exact absurd hr List.not_mem_nil
    | some hint =>
        rcases List.mem_append.mp hr with hr | hr
        · exact hboth _ r hr
        · exact hboth _ r hr
  have hanswer :
      Leads note (Allows job) _ b (Worker.answerReports (D := D) render w.cx.job reason) :=
    answer_matches render w.cx.job reason h.owed
  have hclosed := hanswer.append fun b' hb' => plain_leads hb'.1 hb' (hboth
    (.closed reason w.cx.job.mountpoint (readings.clock - n.conn.connectedAt)
      (w.cx.totalBytes - n.conn.bytesAtConnect)))
  have hhinted := hclosed.append fun b' hb' => plain_leads hb'.1 hb' (hhint
    (ggaHint reason w.cx.job.transport w.cx.job.mountpoint w.cx.job.streamRequiresGga
      w.conn.ggaSent (readings.clock - n.conn.connectedAt)))
  have hverdict : Leads note (Allows job) (fun b' => b'.owed = false ∧ b'.sent = b.sent) b
      (w.closeReports render n reason around readings : Notes × List (Report D F32)).2 := by
    refine hhinted.append fun b' hb' => ?_
    refine (verdict_matches n.run hb'.1 fun trouble hverdict => ?_).imp
      fun b'' hb'' => ⟨hb''.1, hb''.2.trans hb'.2.1⟩
    cases trouble with
    | starved =>
        obtain ⟨hmatters, hnone⟩ := starved_spec hverdict
        rw [h.same] at hmatters
        exact ⟨hmatters, (hb'.2.1.trans h.sent).trans hnone⟩
    | refused =>
        obtain ⟨hmatters, raw, hreason, hstatus⟩ := refused_spec hverdict
        rw [h.same] at hmatters
        have hraw : raw ≠ [] := by
          rintro rfl
          exact absurd (status_code_nil.symm.trans hstatus) (by simp)
        exact ⟨hmatters, raw, hb'.2.2.2 raw hreason hraw, hstatus⟩
  exact hverdict.imp fun b' hb' => closed_matches h hb'.1 hb'.2

/-- An output leaves the band where the next one finds it. -/
theorem one_matches (h : Matches job w (o :: rest) b) (target : Option (CaptureTarget D))
    (n : Notes) (around : Worker.Surroundings) (readings : Readings) :
    Leads note (Allows job) (Matches job (w.dispatchOne o around) rest) b
      (w.oneReports render target n o around readings).2 := by
  have hboth : ∀ line, ∀ r ∈ (Worker.both line : List (Report D F32)), r.plain = true := by
    intro line r hr
    rcases List.mem_pair.mp hr with rfl | rfl
    · rfl
    · rfl
  cases o with
  | protocolTx line => exact plain_leads h.owed (h.tail rfl rfl rfl rfl) (hboth _)
  | protocolRx line => exact plain_leads h.owed (h.tail rfl rfl rfl rfl) (hboth _)
  | ggaDue => exact gga_matches h n.conn around readings
  | corrections bytes => exact corrections_matches h target n around readings
  | close reason => exact close_matches render h n around readings
  | sourcetable body =>
      have htable : Matches job (w.finish .tableDone) rest b := by
        refine ⟨h.same, h.owed, h.sent, fun hopen => absurd hopen (by simp [Worker.finish]),
          h.session, h.last.tail, fun _ payload => ?_⟩
        exact h.last [] (.sourcetable body) rest rfl rfl payload
      refine plain_leads h.owed htable fun r hr => ?_
      rcases List.mem_pair.mp hr with rfl | rfl
      · rfl
      · rfl

end

/-- A turn reports that a caster starves the client before the first position of a connection. -/
theorem turn_matches (h : Matches job w [] b) (hopen : w.conn.terminal = none) (n : Notes)
    (next : Worker.LoopTurn) (readings : TurnReadings) :
    Leads note (Allows job) (Matches job (w.turn next).1 (w.turn next).2) b
      (w.turnReports n next readings : Notes × List (Report D F32)).2 := by
  have hproceeds := Worker.turn_proceeds w next
  obtain ⟨t0, hrecord⟩ := h.session
  have hrecord' := hrecord.proceeds hproceeds
  have hends := ends_last_proceeds hrecord hproceeds
  obtain ⟨flag, calls, hturn, -, -⟩ := hproceeds
  have hconn : (w.turn next).1.conn = w.conn := by
    rw [hturn]
    rfl
  have hmatches : ∀ b' : Band, b'.owed = false → b'.sent = b.sent →
      ((w.conn.streaming = true ∨ 0 < w.conn.ggaSent) → b'.shown = none) →
      Matches job (w.turn next).1 (w.turn next).2 b' := by
    intro b' howed hsent hshown
    refine ⟨?_, howed, ?_, ?_, ⟨t0, hrecord'⟩, hends, ?_⟩
    · rw [hturn]
      exact h.same
    · rw [hconn, hsent, h.sent]
    · rw [hconn]
      exact fun _ => hshown
    · rw [hconn, hopen]
      exact fun hended => absurd rfl hended
  have hread : ∀ r ∈ ({ w with cx := w.cx.observe next.cancelled }.readReports next readings :
      List (Report D F32)), r.plain = true := by
    intro r hr
    unfold Worker.readReports at hr
    split at hr
    · split at hr
      · simp at hr
      · rw [List.mem_singleton.mp hr]
        rfl
    · simp at hr
  unfold Worker.turnReports
  simp only
  split
  · exact .nil (hmatches b h.owed rfl (h.clear hopen))
  · split
    · next hstarving =>
        obtain ⟨hmatters, hstreaming, hnone⟩ : job.positionMatters = true ∧
            w.conn.streaming = false ∧ w.conn.ggaSent = 0 := by
          simp only [starving, Cx.observe, Bool.and_eq_true, Bool.not_eq_true',
            decide_eq_true_eq] at hstarving
          rw [← h.same]
          exact ⟨hstarving.2.1.1.1, hstarving.2.1.1.2, hstarving.2.1.2⟩
        have hstarved : b.Permits job (.trouble (some .starved) : Report D F32) :=
          ⟨hmatters, h.sent.trans hnone⟩
        have hquiet : Leads note (Allows job) (· = b) b
            ({ w with cx := w.cx.observe next.cancelled }.readReports next readings :
              List (Report D F32)) := by
          refine plain_leads h.owed ?_ hread
          rfl
        refine hquiet.append fun b' hb' => ?_
        subst hb'
        refine (trouble_matches n.run h.owed hstarved).imp fun b'' hb'' => ?_
        refine hmatches b'' hb''.1 hb''.2 fun hbusy => ?_
        rcases hbusy with hbusy | hbusy
        · simp [hstreaming] at hbusy
        · omega
    · exact plain_leads h.owed (hmatches b h.owed rfl (h.clear hopen)) hread

/-! ## A run -/

/-- What is left of a connection that ended. -/
def Idle (job : NtripJob) (cx : Cx) (_ : RunNotes) (b : Band) : Prop :=
  cx.job = job ∧ b.owed = false

omit b w w' o rest in
theorem job_plain (cx : Cx) (n : RunNotes) :
    ∀ r ∈ (cx.jobReports n : RunNotes × List (Report D F32)).2, r.plain = true := by
  have hsome : ∀ (p : Prop) [Decidable p] (reports : List (Report D F32)),
      (∀ r ∈ reports, r.plain = true) → ∀ r ∈ (if p then reports else []), r.plain = true := by
    intro p _ reports h r hr
    split at hr
    · exact h r hr
    · simp at hr
  have hone : ∀ report : Report D F32, report.plain = true → ∀ r ∈ [report], r.plain = true := by
    intro report h r hr
    rwa [List.mem_singleton.mp hr]
  intro r hr
  simp only [Cx.jobReports, List.append_assoc] at hr
  rcases List.mem_append.mp hr with hr | hr
  · exact hsome _ _ (hone _ rfl) r hr
  · rcases List.mem_append.mp hr with hr | hr
    · exact hsome _ _ (hone _ rfl) r hr
    · rcases List.mem_append.mp hr with hr | hr
      · refine hsome _ _ (fun r hr => ?_) r hr
        rcases List.mem_pair.mp hr with rfl | rfl
        · rfl
        · rfl
      · exact hsome _ _ (hone _ rfl) r hr

variable [Inhabited F32] (render : Rendering F32) (target : Option (CaptureTarget D))

/-- The band is a reader of the run. -/
theorem reads (job : NtripJob) :
    RunReader render target (@note D F32) (Allows job) (Idle job)
      (fun w _ outs b => Matches job w outs b) (fun b => b.owed = false)
      fun b => b.owed = false where
  one w n o rest around readings b h := one_matches render h target n around readings
  turn w n next readings b h hopen := turn_matches h hopen n next readings
  close w n b ended h _ := by
    have hidle : Idle job w.disconnect.cx n.run b := ⟨h.same, h.owed⟩
    refine plain_leads h.owed hidle fun r hr => ?_
    split at hr
    · rw [List.mem_singleton.mp hr]
      rfl
    · simp at hr
  aside cx n b r h haside := plain_quiet h.2 (Report.aside_plain haside)
  same cx cx' n b hkept h := ⟨hkept.job.trans h.1, h.2⟩
  job cx n b h := plain_leads h.2 h (job_plain cx n)
  opened cx n b openedAt firstTick connectedAt h := by
    have hproceeds : Worker.Proceeds (cx.connected openedAt)
        ((cx.connected openedAt).call (.onTick firstTick)) := .plain rfl (by simp)
    have hfresh : Worker.OnRecord job.sessionConfig openedAt (cx.connected openedAt) := by
      rw [← h.1]
      rfl
    have hmatches : Matches job ((cx.connected openedAt).call (.onTick firstTick)).1
        ((cx.connected openedAt).call (.onTick firstTick)).2
        { b with sent := 0, raw := none } := by
      refine ⟨h.1, h.2, rfl, fun _ hbusy => ?_, ⟨openedAt, hfresh.proceeds hproceeds⟩,
        ends_last_proceeds hfresh hproceeds, fun hended => absurd rfl hended⟩
      rcases hbusy with hbusy | hbusy
      · exact absurd hbusy (by simp [Worker.call, Cx.connected])
      · exact absurd hbusy (by simp [Worker.call, Cx.connected])
    have hnot : ∀ r : Report D F32, b.owed = true → r = .trouble none :=
      fun _ howed => absurd (h.2.symm.trans howed) (by simp)
    refine .cons ⟨hnot _, trivial⟩ (.cons ⟨hnot _, trivial⟩ ?_)
    refine plain_leads (b := { b with sent := 0, raw := none }) h.2 hmatches fun r hr => ?_
    obtain ⟨target, -, rfl⟩ := List.mem_map.mp hr
    rfl
  live w n b h := h.owed
  stopped cx n b summary failed h := by
    refine plain_leads h.2 h.2 fun r hr => ?_
    rw [List.mem_singleton.mp hr]
    rfl

end Band

/-! ## What is reported -/

/-- A connection was made. -/
def Report.isConnected : Report D F32 → Bool
  | .post (.status .waitingForData) => true
  | _ => false

/-- The reports of the last connection. -/
def onConnection (reports : List (Report D F32)) : List (Report D F32) :=
  reports.rtakeWhile fun r => !r.isConnected

section

variable [Inhabited F32] (render : Rendering F32)

/-- What the reports of a run say about positions. A job is blamed only if a position matters to it,
for starving before it sent one on the connection, and for a refusal with the response that says
so. The first position of a connection takes the blame back at once, and while corrections arrive
the interface shows none. -/
structure Judged (job : NtripJob) (reports : List (Report D F32)) : Prop where
  matters : ∀ trouble, .trouble (some trouble) ∈ reports → job.positionMatters = true
  starved : ∀ before after, reports = before ++ .trouble (some .starved) :: after →
    ∀ sentence, .post (.gga sentence) ∉ onConnection before
  refused : ∀ before after, reports = before ++ .trouble (some .refused) :: after →
    ∃ raw, .unknownResponse raw ∈ onConnection before ∧ statusCode raw = some 403
  withdrawn : ∀ before sentence after, reports = before ++ .post (.gga sentence) :: after →
    (∀ earlier, .post (.gga earlier) ∉ onConnection before) →
    ∃ rest, after = .trouble none :: rest
  clear : ∀ before block after, reports = before ++ .post (.push block) :: after →
    ∀ (Double : Type) (widen : F32 → F64) (seconds : Duration → F64) (i : Interface F32 Double)
      (told : List (Told D F32)), i.ntrip.positionTrouble = none → told.map Told.report = before →
      (i.follow render widen seconds told).ntrip.positionTrouble = none

namespace Band

omit [Inhabited F32] in
/-- The verdict that is shown is what the interface makes of the reports. -/
theorem shown_follows (before : List (Report D F32)) :
    (before.foldl note {}).shown = (before.filterMap Interface.verdict?).getLast?.getD none := by
  refine Register.last_set (fun b : Band => b.shown) (fun b r => ?_) {} before
  cases r with
  | post p =>
      cases p with
      | status status =>
          cases status with
          | _ => rfl
      | _ => rfl
  | trouble trouble =>
      cases trouble with
      | none => rfl
      | some trouble => rfl
  | _ => rfl

omit [Inhabited F32] in
theorem on_connection_concat (before : List (Report D F32)) (r : Report D F32) :
    onConnection (before ++ [r]) = if r.isConnected then [] else onConnection before ++ [r] := by
  unfold onConnection
  rw [List.rtakeWhile_concat]
  cases r.isConnected with
  | true => rfl
  | false => rfl

omit [Inhabited F32] in
/-- The positions that were counted are those of the connection. -/
theorem sent_counts (before : List (Report D F32)) :
    (before.foldl note {}).sent = 0 ↔ ∀ sentence, .post (.gga sentence) ∉ onConnection before := by
  induction before using List.reverseRecOn with
  | nil => simp [onConnection]
  | append_singleton before r ih =>
      -- a report that is not a position and begins no connection
      have hkept : r.isConnected = false → (∀ sentence, r ≠ .post (.gga sentence)) →
          (note (before.foldl note {}) r).sent = (before.foldl note {}).sent →
          ((note (before.foldl note {}) r).sent = 0 ↔
            ∀ sentence, .post (.gga sentence) ∉ onConnection (before ++ [r])) := by
        intro hconnected hgga hsent
        rw [hsent, ih, on_connection_concat, hconnected]
        refine forall_congr' fun sentence => ?_
        have hother : Report.post (.gga sentence) ≠ r := Ne.symm (hgga sentence)
        simp [hother]
      rw [List.foldl_append, List.foldl_cons, List.foldl_nil]
      cases r with
      | post p =>
          cases p with
          | gga sentence =>
              rw [on_connection_concat]
              refine ⟨fun hzero => absurd hzero (by simp [note]), fun hnone => ?_⟩
              exact absurd (List.mem_append_right _ (List.mem_singleton_self _)) (hnone sentence)
          | status status =>
              cases status with
              | waitingForData =>
                  rw [on_connection_concat]
                  simp [note, Report.isConnected]
              | _ => exact hkept rfl (fun _ => by simp) rfl
          | _ => exact hkept rfl (fun _ => by simp) rfl
      | trouble trouble =>
          cases trouble with
          | none => exact hkept rfl (fun _ => by simp) rfl
          | some trouble => exact hkept rfl (fun _ => by simp) rfl
      | _ => exact hkept rfl (fun _ => by simp) rfl

omit [Inhabited F32] in
/-- The response that was kept is one of the connection. -/
theorem raw_answered {raw : Bytes} (before : List (Report D F32))
    (h : (before.foldl note {}).raw = some raw) :
    .unknownResponse raw ∈ onConnection before := by
  induction before using List.reverseRecOn with
  | nil => exact absurd h (by simp)
  | append_singleton before r ih =>
      have hkept : r.isConnected = false →
          (note (before.foldl note {}) r).raw = (before.foldl note {}).raw →
          .unknownResponse raw ∈ onConnection (before ++ [r]) := by
        intro hconnected hraw
        rw [on_connection_concat, hconnected]
        rw [List.foldl_append, List.foldl_cons, List.foldl_nil, hraw] at h
        exact List.mem_append_left _ (ih h)
      rw [List.foldl_append, List.foldl_cons, List.foldl_nil] at h
      cases r with
      | post p =>
          cases p with
          | status status =>
              cases status with
              | waitingForData => exact absurd h (by simp [note])
              | _ => exact hkept rfl rfl
          | _ => exact hkept rfl rfl
      | unknownResponse raw' =>
          obtain rfl := Option.some.inj h
          rw [on_connection_concat]
          exact List.mem_append_right _ (List.mem_singleton_self _)
      | trouble trouble =>
          cases trouble with
          | none => exact hkept rfl rfl
          | some trouble => exact hkept rfl rfl
      | _ => exact hkept rfl rfl

end Band

/-- Every run blames a missing position as it should. -/
theorem position_verdict (target : Option (CaptureTarget D)) (job : NtripJob)
    (allowInvalidCerts : Bool) (attempts : List Cx.Attempt) (readings : Nat → AttemptReadings) :
    Judged render job (Cx.superviseReports (D := D) render target { job } allowInvalidCerts {}
      attempts readings) := by
  have hidle : Band.Idle job { job } {} {} := ⟨rfl, rfl⟩
  obtain ⟨hbands, hend⟩ := (Band.reads (D := D) render target job).supervise hidle allowInvalidCerts
    attempts readings
  have hsettled : ((Cx.superviseReports (D := D) render target { job } allowInvalidCerts {} attempts
      readings).foldl Band.note {}).owed = false := by
    split at hend
    · exact hend
    · exact hend
    · obtain ⟨cx', n', hidle'⟩ := hend
      exact hidle'.2
  refine ⟨fun trouble hmem => ?_, fun before after h => ?_, fun before after h => ?_,
    fun before sentence after h hfirst => ?_,
    fun before block after h Double widen seconds i told hnone htold => ?_⟩
  · obtain ⟨before, after, h⟩ := List.append_of_mem hmem
    rw [h] at hbands
    have hpermits := hbands.split.2
    cases trouble with
    | starved => exact hpermits.1
    | refused => exact hpermits.1
  · rw [h] at hbands
    exact (Band.sent_counts before).mp hbands.split.2.2
  · rw [h] at hbands
    obtain ⟨-, raw, hraw, hstatus⟩ := hbands.split.2
    exact ⟨raw, Band.raw_answered before hraw, hstatus⟩
  · have howed : ((before ++ [Report.post (.gga sentence)]).foldl Band.note {}).owed = true := by
      have hzero := (Band.sent_counts before).mpr hfirst
      rw [List.foldl_append]
      exact decide_eq_true hzero
    cases after with
    | nil =>
        rw [h] at hsettled
        exact absurd (hsettled.symm.trans howed) (by simp)
    | cons r rest =>
        rw [h, List.append_cons] at hbands
        obtain rfl := hbands.split.1 howed
        exact ⟨rest, rfl⟩
  · rw [h] at hbands
    have hshown : (before.foldl Band.note {}).shown = none := hbands.split.2
    rw [Band.shown_follows, ← htold, List.filterMap_map] at hshown
    rw [Interface.follow_verdict, hnone]
    exact hshown

end

end OpenNtrip
