import OpenNtrip.NtripCore.GgaCadence

/-!
# What an ending says about its session

Once a session streams it never receives a table, so a run that delivers corrections delivers
no table (`run_table_alone`). A session closes as cancelled only when it is cancelled
(`run_cancelled`).
-/

namespace OpenNtrip
namespace NtripSession

/-- The session streams or is done. -/
def Past (s : NtripSession) : Prop := s.phase.stage = .streaming ∨ s.phase.stage = .done

theorem past_step {s : NtripSession} (h : Past s) (hpending : PendingTx s) (call : Call) :
    Past (step s call).1 := by
  have hheader : s.phase.stage ≠ .header := by
    rcases h with hstage | hstage
    · simp [hstage]
    · simp [hstage]
  have hmoves := step_moves hpending call
  generalize step s call = answer at hmoves ⊢
  cases hmoves with
  | stays hsame => exact h.imp hsame.trans hsame.trans
  | table hstart => exact absurd hstart hheader
  | streams hstart => exact absurd hstart hheader
  | ended hdone => exact .inr hdone
  | asks _ _ hstage => exact .inl hstage
  | acknowledges _ hsame => exact h.imp hsame.trans hsame.trans

theorem past_cap_close {answer : NtripSession × List Output} (h : Past answer.1) :
    Past (capClose answer).1 := by
  obtain ⟨s, out⟩ := answer
  cases hcap : s.overCap with
  | true =>
      simp only [capClose, hcap, if_true]
      exact .inr rfl
  | false =>
      rw [cap_close_of_not hcap]
      exact h

/-- A session that streams during a call streams after it, or is done. -/
theorem streaming_during_past {s : NtripSession} (hpending : PendingTx s) {call : Call}
    (h : s.streamingDuring call = true) : Past (step s call).1 := by
  have hstreams : s.phase.isStreaming = true → Past (step s call).1 := fun hphase =>
    past_step (.inl (Phase.stage_streaming.mp hphase)) hpending call
  cases call with
  | onBytes data now =>
      rw [streamingDuring] at h
      split at h
      · next hheader =>
          -- the call completes the header, and what it received further is fed to the stream
          have habsorb : absorb now s.flushPending.1 data =
              enterBody (driveHeader (s.flushPending.1.buffering data now) now) := by
            show (if s.phase.isHeader then _ else _) = _
            rw [hheader]
            rfl
          show Past (s.onBytes data now).1
          rw [on_bytes_eq, habsorb]
          generalize driveHeader (s.flushPending.1.buffering data now) now = outcome at h
          obtain ⟨s', leftover, out⟩ := outcome
          have hstage := Phase.stage_streaming.mp h
          refine past_cap_close ?_
          cases leftover with
          | none => exact .inl hstage
          | some leftover =>
              rcases (ingest_body_stage s' leftover).2 with hsame | hdone
              · exact .inl (hsame.trans hstage)
              · exact .inr hdone
      · exact hstreams h
  | _ => exact hstreams h

theorem streaming_during_of_past {s : NtripSession} (h : Past s) (hopen : s.phase ≠ .done)
    (call : Call) : s.streamingDuring call = true := by
  have hstreams : s.phase.isStreaming = true := by
    refine Phase.stage_streaming.mpr (h.resolve_right ?_)
    intro hdone
    exact hopen (Phase.stage_done.mp hdone)
  cases call with
  | onBytes data now =>
      have hheader : s.phase.isHeader = false := by
        cases hphase : s.phase with
        | streaming st => rfl
        | _ => simp [hphase, Phase.isStreaming] at hstreams
      simp only [streamingDuring, hheader, Bool.false_eq_true, if_false]
      exact hstreams
  | _ => exact hstreams

/-- Corrections are not empty, and come from a session that streams. -/
theorem step_corrections {s : NtripSession} (hpending : PendingTx s) {call : Call}
    {payload : Bytes} (h : .corrections payload ∈ (step s call).2) :
    payload ≠ [] ∧ s.streamingDuring call = true := by
  have hmid := step_midway hpending h rfl
  rw [Output.midway, Bool.and_eq_true] at hmid
  refine ⟨?_, hmid.1⟩
  rintro rfl
  simp at hmid

/-- A call that delivers a table delivers no corrections, and finds a session that did not stream.
-/
theorem step_table {s : NtripSession} (hpending : PendingTx s) {call : Call} {body : Bytes}
    (h : .sourcetable body ∈ (step s call).2) :
    ¬ Past s ∧ (step s call).1.phase = .done ∧
      ∀ payload, .corrections payload ∉ (step s call).2 := by
  obtain ⟨hopen, hdone, before, tail, -, hmem, -, hending⟩ := step_ending hpending h rfl
  obtain ⟨rest, after, hsplit⟩ := List.append_of_mem hmem
  have hnot : s.streamingDuring call = false := (hending.table_first hsplit).2.1
  refine ⟨?_, hdone, ?_⟩
  · intro hpast
    rw [streaming_during_of_past hpast hopen call] at hnot
    exact absurd hnot (by simp)
  · intro payload hpayload
    rw [(step_corrections hpending hpayload).2] at hnot
    exact absurd hnot (by simp)

/-! ## Runs -/

theorem past_run {s : NtripSession} (h : Past s) (hpending : PendingTx s) (calls : List Call) :
    Past (run s calls).1 :=
  run_invariant Past (fun _ call _ hpending' hs => past_step hs hpending' call) hpending h

theorem run_corrections {s : NtripSession} (hpending : PendingTx s) {calls : List Call}
    {payload : Bytes} (h : .corrections payload ∈ (run s calls).2) :
    payload ≠ [] ∧ Past (run s calls).1 := by
  induction calls generalizing s with
  | nil => simp at h
  | cons call rest ih =>
      have hpending' := step_pending_tx hpending call
      rw [run_cons] at h ⊢
      rcases List.mem_append.mp h with hnow | hlater
      · obtain ⟨hne, hduring⟩ := step_corrections hpending hnow
        exact ⟨hne, past_run (streaming_during_past hpending hduring) hpending' rest⟩
      · exact ih hpending' hlater

/-- Nothing is delivered by a session that is done. -/
theorem run_done_corrections {s : NtripSession} (hdone : s.phase = .done) (hpending : PendingTx s)
    (calls : List Call) (payload : Bytes) : .corrections payload ∉ (run s calls).2 := by
  intro h
  obtain ⟨s', call, -, hpending', hdone', h⟩ := exists_step_of_mem_run (·.phase = .done)
    (fun _ call _ _ hs => step_done_stays hs call) hpending hdone h
  have hduring := (step_corrections hpending' h).2
  have hnot : s'.streamingDuring call = false := by
    cases call with
    | _ => simp [streamingDuring, hdone', Phase.isHeader, Phase.isStreaming]
  rw [hnot] at hduring
  exact absurd hduring (by simp)

/-- A run that delivers a table delivers no corrections, and starts from a session that did not
stream. -/
theorem run_table_alone {s : NtripSession} (hpending : PendingTx s) {calls : List Call}
    {body : Bytes} (h : .sourcetable body ∈ (run s calls).2) :
    ¬ Past s ∧ ∀ payload, .corrections payload ∉ (run s calls).2 := by
  induction calls generalizing s with
  | nil => simp at h
  | cons call rest ih =>
      have hpending' := step_pending_tx hpending call
      rw [run_cons] at h ⊢
      rcases List.mem_append.mp h with hnow | hlater
      · obtain ⟨hnot, hdone, hnone⟩ := step_table hpending hnow
        refine ⟨hnot, ?_⟩
        intro payload hpayload
        rcases List.mem_append.mp hpayload with hpayload | hpayload
        · exact hnone payload hpayload
        · exact run_done_corrections hdone hpending' rest payload hpayload
      · obtain ⟨hnot, hnone⟩ := ih hpending' hlater
        refine ⟨fun hpast => hnot (past_step hpast hpending call), ?_⟩
        intro payload hpayload
        rcases List.mem_append.mp hpayload with hpayload | hpayload
        · exact hnot (streaming_during_past hpending (step_corrections hpending hpayload).2)
        · exact hnone payload hpayload

/-- A session closes as cancelled only when it is cancelled. -/
theorem run_cancelled {s : NtripSession} (hpending : PendingTx s) {calls : List Call}
    (h : .close .cancelled ∈ (run s calls).2) : .cancel ∈ calls := by
  obtain ⟨s', call, hcall, hpending', -, h⟩ := exists_step_of_mem_run (fun _ => True)
    (fun _ _ _ _ _ => trivial) hpending trivial h
  obtain ⟨-, -, before, tail, -, hmem, -, hending⟩ := step_ending hpending' h rfl
  have hcancelling : call.isCancel = true := hending.close_allowed hmem
  cases call with
  | cancel => exact hcall
  | _ => simp [Call.isCancel] at hcancelling

end NtripSession
end OpenNtrip
