import OpenNtrip.App.ReportRuns

/-!
# Marks of the traffic

A run announces how much it has received at 10 kB, 100 kB and every MiB. A block announces the
greatest mark that it reaches (`traffic_mark_spec`). Over a whole run the marks rise and leave none
behind, and what a mark says of the frames is what is posted with its block
(`milestones_announced`).
-/

namespace OpenNtrip

open Observer

variable {D F32 : Type}

/-! ## One block -/

/-- The total at which a mark lies. -/
def Mark.bytes : Mark → Nat
  | .mib n => n * 2 ^ 20
  | .kb100 => 100000
  | .kb10 => 10000

/-- No mark lies at nothing. -/
def Mark.Valid : Mark → Prop
  | .mib n => 0 < n
  | _ => True

/-- A mark is the greatest one up to `after`, and lies above `before`. -/
structure Mark.Reached (mark : Mark) (before after : Nat) : Prop where
  valid : mark.Valid
  above : before < mark.bytes
  reached : mark.bytes ≤ after
  greatest : ∀ other : Mark, other.Valid → other.bytes ≤ after → other.bytes ≤ mark.bytes

theorem mib_le_iff {n total : Nat} : n * 2 ^ 20 ≤ total ↔ n ≤ total / 2 ^ 20 :=
  (Nat.le_div_iff_mul_le (by decide)).symm

/-- A block announces the greatest mark that it reaches, and none if it reaches none. -/
theorem traffic_mark_spec {before after : Nat} (hle : before ≤ after) :
    match trafficMark before after with
    | some mark => mark.Reached before after
    | none => ∀ mark : Mark, mark.Valid → mark.bytes ≤ after → mark.bytes ≤ before := by
  have hdiv : before / 2 ^ 20 ≤ after / 2 ^ 20 := Nat.div_le_div_right hle
  unfold trafficMark mibCrossed
  simp only
  by_cases hmib : before / 2 ^ 20 < after / 2 ^ 20
  · rw [if_pos hmib]
    refine ⟨by show 0 < after / 2 ^ 20; omega, ?_, mib_le_iff.mpr (Nat.le_refl _), ?_⟩
    · show before < after / 2 ^ 20 * 2 ^ 20
      by_contra hnot
      have := mib_le_iff.mp (Nat.le_of_not_lt hnot)
      omega
    · intro other hvalid hother
      cases other with
      | mib n => exact Nat.mul_le_mul_right _ (mib_le_iff.mp hother)
      | kb100 => show 100000 ≤ after / 2 ^ 20 * 2 ^ 20; omega
      | kb10 => show 10000 ≤ after / 2 ^ 20 * 2 ^ 20; omega
  · rw [if_neg hmib]
    -- no MiB is reached, so that a MiB up to `after` lies up to `before`
    have hnone : ∀ n, (Mark.mib n).bytes ≤ after → (Mark.mib n).bytes ≤ before := by
      intro n hn
      exact mib_le_iff.mpr ((mib_le_iff.mp hn).trans (by omega))
    simp only
    by_cases hlarge : before < 100000 ∧ 100000 ≤ after
    · rw [if_pos hlarge]
      refine ⟨trivial, hlarge.1, hlarge.2, ?_⟩
      intro other hvalid hother
      cases other with
      | mib n => exact (hnone n hother).trans (Nat.le_of_lt hlarge.1)
      | kb100 => exact Nat.le_refl _
      | kb10 => show 10000 ≤ 100000; decide
    · rw [if_neg hlarge]
      by_cases hsmall : before < 10000 ∧ 10000 ≤ after
      · rw [if_pos hsmall]
        refine ⟨trivial, hsmall.1, hsmall.2, ?_⟩
        intro other hvalid hother
        cases other with
        | mib n => exact (hnone n hother).trans (Nat.le_of_lt hsmall.1)
        | kb100 => exact absurd ⟨by omega, hother⟩ hlarge
        | kb10 => exact Nat.le_refl _
      · rw [if_neg hsmall]
        intro mark _ hmark
        cases mark with
        | mib n => exact hnone n hmark
        | kb100 => show 100000 ≤ before; have : 100000 ≤ after := hmark; omega
        | kb10 => show 10000 ≤ before; have : 10000 ≤ after := hmark; omega

/-! ## What a run announces -/

/-- What the reports say of the traffic. `owed` is what a mark said of the frames, until its block
is counted. -/
structure Traffic where
  total : Nat := 0
  marks : List Mark := []
  frames : Nat := 0
  crcFailures : Nat := 0
  owed : Option (Nat × Nat) := none

namespace Traffic

def note (t : Traffic) : Report D F32 → Traffic
  | .post (.push block) => { t with total := t.total + block.length }
  | .event (.milestone mark frames crcFailures) =>
    { t with marks := t.marks ++ [mark], owed := some (frames, crcFailures) }
  | .post (.rtcm batch) =>
    { t with
      frames := t.frames + (batch.frames.map fun (_, n, _) => n).sum
      crcFailures := batch.crcFailures }
  | .post (.rxBytes _) => { t with owed := none }
  | _ => t

/-- The marks rise, and none up to the total is left behind. -/
structure Announced (total : Nat) (marks : List Mark) : Prop where
  rising : marks.Pairwise fun mark later => mark.bytes < later.bytes
  reached : ∀ mark ∈ marks, mark.Valid ∧ mark.bytes ≤ total
  complete : ∀ mark : Mark, mark.Valid → mark.bytes ≤ total →
    ∃ said ∈ marks, mark.bytes ≤ said.bytes

/-- A mark is announced between the counts of two blocks. When a block is counted, the total is what
was delivered, the marks up to it are announced, and what the last one said of the frames is what
was posted of them. -/
def Allows (t : Traffic) : Report D F32 → Prop
  | .event (.milestone _ _ _) => t.owed = none
  | .post (.rxBytes total) =>
    total = t.total ∧ Announced t.total t.marks ∧
      ∀ said, t.owed = some said → said = (t.frames, t.crcFailures)
  | _ => True

/-- The marks keep up with a block. -/
theorem Announced.block {before after : Nat} {marks : List Mark} (h : Announced before marks)
    (hle : before ≤ after) : Announced after (marks ++ (trafficMark before after).toList) := by
  have hspec := traffic_mark_spec hle
  cases hmark : trafficMark before after with
  | none =>
      rw [hmark] at hspec
      rw [Option.toList_none, List.append_nil]
      refine ⟨h.rising, fun mark hmem => ?_, fun mark hvalid hmark => ?_⟩
      · obtain ⟨hvalid, hreached⟩ := h.reached mark hmem
        exact ⟨hvalid, hreached.trans hle⟩
      · exact h.complete mark hvalid (hspec mark hvalid hmark)
  | some mark =>
      rw [hmark] at hspec
      obtain ⟨hvalid, habove, hreached, hgreatest⟩ := hspec
      rw [Option.toList_some]
      refine ⟨?_, fun other hmem => ?_, fun other hother hle => ?_⟩
      · refine List.pairwise_append.mpr ⟨h.rising, List.pairwise_singleton _ _, ?_⟩
        intro said hsaid later hlater
        rw [List.mem_singleton.mp hlater]
        exact (h.reached said hsaid).2.trans_lt habove
      · rcases List.mem_append.mp hmem with hmem | hmem
        · obtain ⟨hother, hbound⟩ := h.reached other hmem
          exact ⟨hother, hbound.trans hle⟩
        · rw [List.mem_singleton.mp hmem]
          exact ⟨hvalid, hreached⟩
      · exact ⟨mark, List.mem_append_right _ (List.mem_singleton_self _),
          hgreatest other hother hle⟩

/-- What a run has counted is what the reports say. -/
structure Kept (cx : Cx) (t : Traffic) : Prop where
  total : t.total = cx.totalBytes
  frames : t.frames = cx.framesTotal
  crcFailures : t.crcFailures = cx.lastHealthPosted.1
  owed : t.owed = none
  announced : Announced t.total t.marks

theorem Kept.congr {cx cx' : Cx} {t : Traffic} (h : Kept cx t) (hkept : Cx.Carries cx cx') :
    Kept cx' t := by
  refine ⟨?_, ?_, ?_, h.owed, h.announced⟩
  · rw [hkept.totalBytes, h.total]
  · rw [hkept.framesTotal, h.frames]
  · rw [hkept.lastHealthPosted, h.crcFailures]

/-- Reports that say nothing of the traffic. -/
theorem quiet_note {r : Report D F32} (h : r.quiet = true) (t : Traffic) :
    t.note r = t ∧ t.Allows r := by
  cases r with
  | post p =>
      cases p with
      | push block => simp [Report.quiet] at h
      | rtcm batch => simp [Report.quiet] at h
      | rxBytes total => simp [Report.quiet] at h
      | _ => exact ⟨rfl, trivial⟩
  | event line =>
      cases line with
      | milestone mark frames crcFailures => simp [Report.quiet] at h
      | _ => exact ⟨rfl, trivial⟩
  | _ => exact ⟨rfl, trivial⟩

/-- What the reports of a block say of the traffic, and what the worker has counted after it. -/
theorem block_counts (target : Option (CaptureTarget D)) (w : Worker) (n : Notes) (bytes : Bytes)
    (around : Worker.Surroundings) (readings : Readings) :
    ∃ (due : Bool) (batch : RtcmBatch),
      (w.correctionReports target n bytes around readings : Notes × List (Report D F32)).2 =
        w.firstReports n.conn around readings ++ [.post (.push bytes)] ++
          (Worker.overrunReports n.run around.pushed readings.overrunAt).2 ++
          (if target.isSome then [.capture (.captureData bytes)] else []) ++
          ((trafficMark w.cx.totalBytes (w.cx.totalBytes + bytes.length)).toList.map fun mark =>
            .event (.milestone mark (w.cx.framesTotal + (batch.frames.map fun (_, n, _) => n).sum)
              batch.crcFailures)) ++
          (if due then [.post (.rtcm batch)] else []) ++
          [.post (.rxBytes (w.cx.totalBytes + bytes.length))] ∧
      (due = false → batch.frames = [] ∧ batch.crcFailures = w.cx.lastHealthPosted.1) ∧
      (w.onCorrections bytes around).cx.totalBytes = w.cx.totalBytes + bytes.length ∧
      (w.onCorrections bytes around).cx.framesTotal =
        w.cx.framesTotal + (batch.frames.map fun (_, n, _) => n).sum ∧
      (w.onCorrections bytes around).cx.lastHealthPosted.1 = batch.crcFailures := by
  let batch : RtcmBatch :=
    { frames := (Worker.deframe w.conn.deframer bytes).2
      crcFailures := w.cx.crcBase + (w.conn.deframer.feed bytes).1.crcFailures
      garbageBytes := w.cx.garbageBase + (w.conn.deframer.feed bytes).1.garbageBytes }
  let health := (batch.crcFailures, batch.garbageBytes)
  let due := !batch.frames.isEmpty || health != w.cx.lastHealthPosted
  have hquiet : due = false → batch.frames = [] ∧ health = w.cx.lastHealthPosted := by
    intro hdue
    obtain ⟨hframes, hsame⟩ := Bool.or_eq_false_iff.mp hdue
    refine ⟨?_, ?_⟩
    · simpa using hframes
    · simpa using hsame
  -- that the stream begins with the block changes none of the totals
  obtain ⟨posts, alertArmed, attemptsDone, streaming, hbegun⟩ :
      ∃ posts alertArmed attemptsDone streaming, w.beginStream =
        { w with
          cx := { w.cx with posts, alertArmed, attemptsDone }
          conn := { w.conn with streaming } } := by
    unfold Worker.beginStream
    split
    · exact ⟨w.cx.posts, w.cx.alertArmed, w.cx.attemptsDone, w.conn.streaming, rfl⟩
    · exact ⟨_, _, _, _, rfl⟩
  refine ⟨due, batch, rfl, ?_, ?_, ?_, ?_⟩
  · intro hdue
    obtain ⟨hframes, hhealth⟩ := hquiet hdue
    exact ⟨hframes, congrArg Prod.fst hhealth⟩
  · unfold Worker.onCorrections
    rw [hbegun]
    rfl
  · unfold Worker.onCorrections
    rw [hbegun]
    rfl
  · unfold Worker.onCorrections
    rw [hbegun]
    show (if due then health else w.cx.lastHealthPosted).1 = batch.crcFailures
    cases hdue : due with
    | true => rfl
    | false => exact congrArg Prod.fst (hquiet hdue).2.symm

/-- The reports of a block are accepted, and the counts agree after it. -/
theorem block_accepted (target : Option (CaptureTarget D)) {w : Worker} {t : Traffic}
    (h : Kept w.cx t) (n : Notes) (bytes : Bytes) (around : Worker.Surroundings)
    (readings : Readings) :
    Leads note Allows (Kept (w.onCorrections bytes around).cx) t
      (w.correctionReports target n bytes around readings :
        Notes × List (Report D F32)).2 := by
  obtain ⟨due, batch, hreports, hdue, htotal, hframes, hcrc⟩ :=
    @block_counts D F32 target w n bytes around readings
  let pushed : Traffic := { t with total := t.total + bytes.length }
  let completed := (batch.frames.map fun (_, n, _) => n).sum
  let marks := (trafficMark w.cx.totalBytes (w.cx.totalBytes + bytes.length)).toList
  let marked : Traffic :=
    { pushed with
      marks := t.marks ++ marks
      owed := marks.head?.map fun _ => (w.cx.framesTotal + completed, batch.crcFailures) }
  let counted : Traffic :=
    { marked with frames := t.frames + completed, crcFailures := batch.crcFailures }
  have hfirst : Leads note Allows (· = t) t
      (w.firstReports n.conn around readings : List (Report D F32)) := by
    refine leads_quiet (fun r hr => ?_) rfl
    unfold Worker.firstReports at hr
    split at hr
    · simp at hr
    · rcases List.mem_pair.mp hr with rfl | rfl
      · exact ⟨rfl, trivial⟩
      · exact ⟨rfl, trivial⟩
  have hpush := hfirst.append fun t' ht' => show Leads note Allows (· = pushed) t'
      [(.post (.push bytes) : Report D F32)] by
    subst ht'
    exact .cons trivial (.nil rfl)
  have hoverrun := hpush.append fun t' ht' => leads_quiet
    (fun r hr => quiet_note (Quiet.overrun n.run around.pushed readings.overrunAt r hr) t') ht'
  have hcaptured := hoverrun.append fun t' ht' => show Leads note Allows (· = pushed) t'
      (if target.isSome then [.capture (.captureData bytes)] else [] : List (Report D F32)) by
    refine leads_quiet (fun r hr => ?_) ht'
    split at hr
    · rw [List.mem_singleton.mp hr]
      exact ⟨rfl, trivial⟩
    · simp at hr
  have hmarked := hcaptured.append fun t' ht' => show Leads note Allows (· = marked) t'
      (marks.map fun mark => (.event (.milestone mark (w.cx.framesTotal + completed)
        batch.crcFailures) : Report D F32)) by
    subst ht'
    cases hmark : trafficMark w.cx.totalBytes (w.cx.totalBytes + bytes.length) with
    | none =>
        have hmarks : marks = [] := by rw [show marks = Option.toList _ from rfl, hmark]; rfl
        have hsame : marked = pushed := by
          simp only [marked, hmarks, List.append_nil, List.head?_nil, Option.map_none]
          exact congrArg (fun owed => ({ pushed with owed } : Traffic)) h.owed.symm
        rw [hmarks, hsame]
        exact .nil rfl
    | some mark =>
        have hmarks : marks = [mark] := by rw [show marks = Option.toList _ from rfl, hmark]; rfl
        rw [hmarks]
        refine .cons h.owed (.nil ?_)
        simp only [marked, hmarks]
        rfl
  have hcounted := hmarked.append fun t' ht' => show Leads note Allows (· = counted) t'
      (if due then [.post (.rtcm batch)] else [] : List (Report D F32)) by
    subst ht'
    cases hposted : due with
    | true => exact .cons trivial (.nil rfl)
    | false =>
        -- a batch that is not posted holds no frames and changes no count
        obtain ⟨hempty, hsame⟩ := hdue hposted
        have hnone : completed = 0 := by simp only [completed, hempty]; rfl
        refine .nil ?_
        simp only [counted, marked, pushed, hnone, hsame, Nat.add_zero, ← h.crcFailures]
  have hannounced : Announced pushed.total (t.marks ++ marks) := by
    have hblock := h.announced.block (Nat.le_add_right t.total bytes.length)
    show Announced (t.total + bytes.length) (t.marks ++ Option.toList _)
    rw [← h.total]
    exact hblock
  rw [hreports]
  refine hcounted.append fun t' ht' => ?_
  subst ht'
  have hall : counted.total = w.cx.totalBytes + bytes.length := congrArg (· + _) h.total
  refine .cons ⟨hall.symm, hannounced, ?_⟩ (.nil ⟨?_, ?_, ?_, rfl, hannounced⟩)
  · intro said hsaid
    obtain ⟨-, -, rfl⟩ := Option.map_eq_some_iff.mp hsaid
    show (_, _) = (t.frames + completed, batch.crcFailures)
    rw [h.frames]
  · rw [htotal]
    exact hall
  · rw [hframes]
    exact congrArg (· + completed) h.frames
  · rw [hcrc]
    rfl

/-- The traffic is a reader of the run. -/
theorem reads (target : Option (CaptureTarget D)) : QuietReader target (@note D F32) Allows Kept
    (fun w _ t => Kept w.cx t) (fun t => t.owed = none) (fun t => t.owed = none) where
  quiet b r hquiet := quiet_note hquiet b
  kept w o rest around b ho h := h.congr (Worker.dispatch_one_kept w ho around)
  corrections w n bytes rest around readings b h := block_accepted target h n bytes around readings
  turned w next b h _ := h.congr (Worker.turn_same w next).1
  close w b ended h _ := by
    have hclosed : Kept w.disconnect.cx b := h.congr ⟨rfl, rfl, rfl, rfl⟩
    cases target with
    | none => exact .nil hclosed
    | some target => exact .cons trivial (.nil hclosed)
  same cx cx' b hkept h := h.congr hkept
  opened cx b openedAt firstTick h := by
    have hopened : Kept ((cx.connected openedAt).call (.onTick firstTick)).1.cx b :=
      h.congr ⟨rfl, rfl, rfl, rfl⟩
    cases target with
    | none => exact .cons trivial (.cons trivial (.nil hopened))
    | some target => exact .cons trivial (.cons trivial (.cons trivial (.nil hopened)))
  live w b h := h.owed
  stopped cx b summary failed h := .cons trivial (.nil h.owed)

end Traffic

/-- What the marks of a run say is right: whenever a block is counted, the total is what was
delivered, the marks have risen up to it with none left behind, and what the last one said of the
frames is what was posted of them. No mark is announced otherwise. -/
theorem milestones_announced [Inhabited F32] (render : Rendering F32)
    (target : Option (CaptureTarget D)) (job : NtripJob) (allowInvalidCerts : Bool)
    (attempts : List Cx.Attempt) (readings : Nat → AttemptReadings) :
    let reports := Cx.superviseReports render target { job } allowInvalidCerts {} attempts readings
    (∀ before r after, reports = before ++ r :: after →
        (before.foldl Traffic.note {}).Allows r) ∧
      (reports.foldl Traffic.note {}).owed = none := by
  intro reports
  have hstart : Traffic.Kept { job } {} := by
    refine ⟨rfl, rfl, rfl, rfl, List.Pairwise.nil, by simp, ?_⟩
    intro mark hvalid hmark
    cases mark with
    | mib n =>
        have hpos : 0 < n := hvalid
        have hzero : n * 2 ^ 20 ≤ 0 := hmark
        omega
    | kb100 => exact absurd hmark (by decide)
    | kb10 => exact absurd hmark (by decide)
  obtain ⟨haccepts, hend⟩ := ((@Traffic.reads D F32 target).reads render).supervise
    (n := {}) hstart allowInvalidCerts attempts readings
  refine ⟨fun before r after hsplit => ?_, ?_⟩
  · have haccepts : Accepts Traffic.note Traffic.Allows {} reports := haccepts
    rw [hsplit] at haccepts
    exact haccepts.split
  · split at hend
    · exact hend
    · exact hend
    · obtain ⟨cx', n', hkept⟩ := hend
      exact hkept.owed

end OpenNtrip
