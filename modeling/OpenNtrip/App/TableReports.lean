import OpenNtrip.App.ReportRuns

/-!
# The caster of a table

Every sourcetable that a worker reports is reported for the caster of its job (`tables_of_job`).
-/

namespace OpenNtrip

open Observer

variable {D F32 : Type} [Inhabited F32]

/-- The caster that a table is reported for. -/
def Report.caster? : Report D F32 → Option (Text × UInt16)
  | .sourcetableReady host port _ => some (host, port)
  | _ => none

/-- A table is the caster's that the job names. -/
def Report.OfJob (job : NtripJob) (r : Report D F32) : Prop :=
  ∀ caster, r.caster? = some caster → caster = (job.host, job.port)

omit [Inhabited F32] in
/-- A report without a table is of every job. -/
theorem of_job_none {job : NtripJob} {r : Report D F32} (h : r.caster? = none) : r.OfJob job :=
  fun caster hcaster => absurd (h.symm.trans hcaster) (by simp)

variable (render : Rendering F32) (target : Option (CaptureTarget D)) {job : NtripJob}

section

omit [Inhabited F32]

/-- A change of the position trouble carries no table. -/
theorem trouble_tables (n : RunNotes) (trouble : PositionTrouble) :
    ∀ r ∈ (n.reportTrouble trouble : RunNotes × List (Report D F32)).2, r.caster? = none := by
  intro r hr
  rcases List.mem_cons.mp hr with rfl | hr
  · rfl
  · split at hr
    · exact absurd hr List.not_mem_nil
    · rw [List.mem_singleton.mp hr]
      rfl

/-- A line for both logs carries no table. -/
theorem both_tables (line : Line) :
    ∀ r ∈ (Worker.both line : List (Report D F32)), r.caster? = none := by
  intro r hr
  rcases List.mem_pair.mp hr with rfl | rfl
  · rfl
  · rfl

/-- An acknowledgement carries no table. -/
theorem gga_tables (w : Worker) (n : ConnNotes) (around : Worker.Surroundings)
    (readings : Readings) :
    ∀ r ∈ (w.ggaReports n around readings : ConnNotes × List (Report D F32)).2,
      r.caster? = none := by
  intro r hr
  unfold Worker.ggaReports at hr
  cases hsentence : Worker.sentence w.cx.job around with
  | none =>
      rw [hsentence] at hr
      rcases miss_lines _ _ _ _ r hr with rfl | rfl | rfl
      · rfl
      · rfl
      · rfl
  | some sentence =>
      simp only [hsentence] at hr
      split at hr
      · rcases List.mem_append.mp hr with hr | hr
        · rcases List.mem_cons.mp hr with rfl | hr
          · rfl
          · split at hr
            · rw [List.mem_singleton.mp hr]
              rfl
            · exact absurd hr List.not_mem_nil
        · rw [List.mem_singleton.mp hr]
          rfl
      · rw [List.mem_singleton.mp hr]
        rfl

/-- Corrections carry no table. -/
theorem corrections_tables (w : Worker) (n : Notes) (bytes : Bytes)
    (around : Worker.Surroundings) (readings : Readings) :
    ∀ r ∈ (w.correctionReports target n bytes around readings : Notes × List (Report D F32)).2,
      r.caster? = none := by
  obtain ⟨frames, crcFailures, due, batch, hparts⟩ :=
    @correction_reports_parts D F32 target w n bytes around readings
  intro r hr
  rw [hparts] at hr
  simp only [List.mem_append] at hr
  rcases hr with (((((hr | hr) | hr) | hr) | hr) | hr) | hr
  · unfold Worker.firstReports at hr
    split at hr
    · exact absurd hr List.not_mem_nil
    · rcases List.mem_pair.mp hr with rfl | rfl
      · rfl
      · rfl
  · rw [List.mem_singleton.mp hr]
    rfl
  · unfold Worker.overrunReports at hr
    split at hr
    · split at hr
      · rcases List.mem_pair.mp hr with rfl | rfl
        · rfl
        · rfl
      · rw [List.mem_singleton.mp hr]
        rfl
    · exact absurd hr List.not_mem_nil
  · split at hr
    · rw [List.mem_singleton.mp hr]
      rfl
    · exact absurd hr List.not_mem_nil
  · obtain ⟨mark, -, rfl⟩ := List.mem_map.mp hr
    rfl
  · split at hr
    · rw [List.mem_singleton.mp hr]
      rfl
    · exact absurd hr List.not_mem_nil
  · rw [List.mem_singleton.mp hr]
    rfl

/-- A turn carries no table. -/
theorem turn_tables (w : Worker) (n : Notes) (next : Worker.LoopTurn) (readings : TurnReadings) :
    ∀ r ∈ (w.turnReports n next readings : Notes × List (Report D F32)).2, r.caster? = none := by
  have hread : ∀ w : Worker, ∀ r ∈ (w.readReports next readings : List (Report D F32)),
      r.caster? = none := by
    intro w r hr
    unfold Worker.readReports at hr
    split at hr
    · split at hr
      · exact absurd hr List.not_mem_nil
      · rw [List.mem_singleton.mp hr]
        rfl
    · exact absurd hr List.not_mem_nil
  intro r hr
  unfold Worker.turnReports at hr
  simp only at hr
  split at hr
  · exact absurd hr List.not_mem_nil
  · split at hr
    · rcases List.mem_append.mp hr with hr | hr
      · exact hread _ r hr
      · exact trouble_tables n.run .starved r hr
    · exact hread _ r hr

/-- The start of a job carries no table. -/
theorem job_tables (cx : Cx) (n : RunNotes) :
    ∀ r ∈ (cx.jobReports n : RunNotes × List (Report D F32)).2, r.caster? = none := by
  intro r hr
  unfold Cx.jobReports at hr
  simp only [List.mem_append] at hr
  rcases hr with ((hr | hr) | hr) | hr
  · split at hr
    · rw [List.mem_singleton.mp hr]
      rfl
    · exact absurd hr List.not_mem_nil
  · split at hr
    · rw [List.mem_singleton.mp hr]
      rfl
    · exact absurd hr List.not_mem_nil
  · split at hr
    · rcases List.mem_pair.mp hr with rfl | rfl
      · rfl
      · rfl
    · exact absurd hr List.not_mem_nil
  · split at hr
    · rw [List.mem_singleton.mp hr]
      rfl
    · exact absurd hr List.not_mem_nil

/-- A report aside carries no table. -/
theorem aside_tables {r : Report D F32} (h : r.aside = true) : r.caster? = none := by
  cases r with
  | sourcetableReady host port table => exact absurd h Bool.false_ne_true
  | _ => rfl

end

/-- A table is reported as that of the caster of the job. -/
theorem table_reports_of_job (raw : Bytes) (what : Text) :
    ∀ r ∈ (Worker.tableReports render job raw what : List (Report D F32)), r.OfJob job := by
  intro r hr
  rcases List.mem_pair.mp hr with rfl | rfl
  · exact of_job_none rfl
  · intro caster hcaster
    exact (Option.some.inj hcaster).symm

/-- Whatever an output leads to, a table in it is the caster's of the job. -/
theorem one_of_job (w : Worker) (n : Notes) (o : Output) (around : Worker.Surroundings)
    (readings : Readings) :
    ∀ r ∈ (w.oneReports (D := D) render target n o around readings).2, r.OfJob w.cx.job := by
  intro r hr
  cases o with
  | protocolTx line => exact of_job_none (both_tables _ r hr)
  | protocolRx line => exact of_job_none (both_tables _ r hr)
  | ggaDue => exact of_job_none (gga_tables w n.conn around readings r hr)
  | corrections bytes =>
      exact of_job_none (corrections_tables target w n bytes around readings r hr)
  | sourcetable body => exact table_reports_of_job render body _ r hr
  | close reason =>
      change r ∈ Worker.answerReports render w.cx.job reason ++ _ ++ _ ++ _ at hr
      simp only [List.mem_append] at hr
      rcases hr with ((hr | hr) | hr) | hr
      · cases reason with
        | mountpointNotFound body => exact table_reports_of_job render body _ r hr
        | unknownResponse raw =>
            unfold Worker.answerReports at hr
            simp only at hr
            split at hr
            · exact absurd hr List.not_mem_nil
            · rw [List.mem_singleton.mp hr]
              exact of_job_none rfl
        | _ => exact absurd hr List.not_mem_nil
      · exact of_job_none (both_tables _ r hr)
      · unfold Worker.hintReports at hr
        split at hr
        · rcases List.mem_append.mp hr with hr | hr
          · exact of_job_none (both_tables _ r hr)
          · exact of_job_none (both_tables _ r hr)
        · exact absurd hr List.not_mem_nil
      · split at hr
        · exact of_job_none (trouble_tables n.run _ r hr)
        · rw [List.mem_singleton.mp hr]
          exact of_job_none rfl

omit [Inhabited F32] in
/-- Reports of a job keep the reader of tables going. -/
theorem of_job_leads {post : Unit → Prop} {reports : List (Report D F32)}
    (h : ∀ r ∈ reports, r.OfJob job) (hpost : post ()) :
    Leads (fun b _ => b) (fun _ r => r.OfJob job) post () reports :=
  leads_quiet (fun r hr => ⟨rfl, h r hr⟩) hpost

/-- A reader that looks at the tables. -/
theorem table_reader (job : NtripJob) : RunReader render target
    (fun (b : Unit) (_ : Report D F32) => b)
    (fun _ r => r.OfJob job) (fun cx _ _ => cx.job = job) (fun w _ _ _ => w.cx.job = job)
    (fun _ => True) (fun _ => True) where
  one w n o rest around readings _ h := by
    refine of_job_leads (fun r hr => ?_) ((w.dispatch_one_job o around).trans h)
    rw [← h]
    exact one_of_job render target w n o around readings r hr
  turn w n next readings _ h _ :=
    of_job_leads (fun r hr => of_job_none (turn_tables w n next readings r hr))
      ((w.turn_same next).1.job.trans h)
  close w n _ ended h _ := by
    refine of_job_leads (fun r hr => ?_) h
    split at hr
    · rw [List.mem_singleton.mp hr]
      exact of_job_none rfl
    · exact absurd hr List.not_mem_nil
  aside cx n _ r _ haside := ⟨rfl, of_job_none (aside_tables haside)⟩
  same cx cx' n _ hkept h := hkept.job.trans h
  job cx n _ h := of_job_leads (fun r hr => of_job_none (job_tables cx n r hr)) h
  opened cx n _ openedAt firstTick connectedAt h := by
    refine of_job_leads (fun r hr => ?_) h
    rcases List.mem_append.mp hr with hr | hr
    · rcases List.mem_pair.mp hr with rfl | rfl
      · exact of_job_none rfl
      · exact of_job_none rfl
    · obtain ⟨target, -, rfl⟩ := List.mem_map.mp hr
      exact of_job_none rfl
  live _ _ _ _ := trivial
  stopped cx n _ summary failed _ :=
    of_job_leads (fun r hr => by
      rw [List.mem_singleton.mp hr]
      exact of_job_none rfl) trivial

/-- Every table of a run is reported for the caster of its job. -/
theorem tables_of_job (cx : Cx) (allowInvalidCerts : Bool) (n : RunNotes)
    (attempts : List Cx.Attempt) (readings : Nat → AttemptReadings) :
    ∀ r ∈ cx.superviseReports render target allowInvalidCerts n attempts readings,
      r.OfJob cx.job := by
  intro r hr
  have haccepts : Accepts (fun (b : Unit) (_ : Report D F32) => b) (fun _ r => r.OfJob cx.job) ()
      (cx.superviseReports render target allowInvalidCerts n attempts readings) :=
    ((table_reader render target cx.job).supervise rfl allowInvalidCerts attempts readings).1
  obtain ⟨before, after, hsplit⟩ := List.append_of_mem hr
  rw [hsplit] at haccepts
  exact haccepts.split

end OpenNtrip
