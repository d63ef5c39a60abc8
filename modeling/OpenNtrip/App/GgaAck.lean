import OpenNtrip.App.Connection

/-!
# Position requests and their answers

The session asks for a position and then waits for an acknowledgement. `gga_acknowledged` puts
the cadence of the session next to the worker's duty: every request that a dispatch hands on is
answered once, whatever becomes of the position, so that no dispatch leaves the session waiting.
-/

namespace OpenNtrip

namespace NtripSession

/-- Only a request makes the session wait for an acknowledgement. -/
theorem step_awaits {s : NtripSession} (hpending : PendingTx s) {call : Call}
    (h : (step s call).1.gga = .awaitSent) :
    s.gga = .awaitSent ∨ .ggaDue ∈ (step s call).2 := by
  have hmoves := step_moves hpending call
  generalize step s call = answer at h hmoves ⊢
  have hrearm : ∀ at_, answer.1.gga ≠ s.gga.rearm at_ := by
    intro at_ hgga
    rw [h] at hgga
    exact Gga.rearm_ne_awaitSent hgga.symm
  cases hmoves with
  | stays _ hgga => exact .inl (hgga.symm.trans h)
  | table _ _ hgga => exact .inl (hgga.symm.trans h)
  | streams _ _ hgga => exact absurd hgga (hrearm _)
  | ended _ hgga =>
      rcases hgga with hsame | ⟨at_, hgga⟩
      · exact .inl (hsame.symm.trans h)
      · exact absurd hgga (hrearm at_)
  | asks _ _ _ _ hask => exact .inr hask
  | acknowledges _ _ hgga => exact absurd hgga (hrearm _)

theorem run_awaits {s : NtripSession} (hpending : PendingTx s) {calls : List Call}
    (h : (run s calls).1.gga = .awaitSent) : s.gga = .awaitSent ∨ .ggaDue ∈ (run s calls).2 := by
  induction calls generalizing s with
  | nil => exact .inl h
  | cons call rest ih =>
      rw [run_cons]
      rcases ih (step_pending_tx hpending call) h with hwaits | hask
      · rcases step_awaits hpending hwaits with hwaits' | hask
        · exact .inl hwaits'
        · exact .inr (List.mem_append.mpr (.inl hask))
      · exact .inr (List.mem_append.mpr (.inr hask))

/-- After an acknowledgement the session does not wait for one. -/
theorem step_acknowledged (s : NtripSession) {call : Call}
    (hack : call.isAcknowledgement = true) : (step s call).1.gga ≠ .awaitSent := by
  cases call with
  | ggaSent a =>
      rw [step, gga_sent_eq]
      exact Gga.rearm_ne_awaitSent
  | ggaMissed a =>
      rw [step, gga_missed_eq]
      exact Gga.rearm_ne_awaitSent
  | _ => simp [Call.isAcknowledgement] at hack

theorem run_acknowledged {s : NtripSession} {acks : List Call}
    (hacks : ∀ call ∈ acks, call.isAcknowledgement = true)
    (h : acks = [] → s.gga ≠ .awaitSent) : (run s acks).1.gga ≠ .awaitSent := by
  cases acks with
  | nil => exact h rfl
  | cons ack rest =>
      show (run (step s ack).1 rest).1.gga ≠ .awaitSent
      exact Transducer.run_invariant (fun s : NtripSession => s.gga ≠ .awaitSent)
        (fun s' call hcall _ => step_acknowledged s' (hacks call (List.mem_cons_of_mem _ hcall)))
        (step_acknowledged s (hacks ack (by simp)))

end NtripSession

open NtripSession

namespace Worker

/-- The session waits for an acknowledgement only while its request is among the outputs still to be
dispatched. -/
def AsksOpenly (cfg : SessionConfig) (t0 : Instant) (w : Worker) (outs : List Output) : Prop :=
  OnRecord cfg t0 w ∧ (w.session.gga = .awaitSent → .ggaDue ∈ outs)

/-- The session does not wait for an acknowledgement. -/
def Acknowledged (cfg : SessionConfig) (t0 : Instant) (w : Worker) : Prop :=
  OnRecord cfg t0 w ∧ w.session.gga ≠ .awaitSent

variable {cfg : SessionConfig} {t0 : Instant}

theorem dispatch_acknowledged (w : Worker) (outs : List Output) (around : Nat → Surroundings)
    (h : AsksOpenly cfg t0 w outs) : Acknowledged cfg t0 (w.dispatch outs around) := by
  have hanswers := dispatch_answers w outs around
  refine ⟨h.1.answers hanswers, ?_⟩
  obtain ⟨acks, hacks, hcount, -, hsession⟩ := hanswers
  rw [hsession]
  refine run_acknowledged hacks ?_
  -- without an acknowledgement there was no request, so that the session was not waiting
  rintro rfl hwaits
  have hnone : outs.count .ggaDue = 0 := hcount.symm
  exact absurd (h.2 hwaits) (List.count_eq_zero.mp hnone)

/-- The calls of a turn make the session wait only with a request to dispatch. -/
theorem Proceeds.asks_openly {w : Worker} {answer : Worker × List Output}
    (hproceeds : Proceeds w answer) (h : Acknowledged cfg t0 w) :
    AsksOpenly cfg t0 answer.1 answer.2 := by
  refine ⟨h.1.proceeds hproceeds, ?_⟩
  have hpending := h.1.pending_tx
  obtain ⟨flag, calls, rfl, -⟩ := hproceeds
  intro hwaits
  exact (run_awaits hpending hwaits).resolve_left h.2

/-- The loop of a connection, from the worker that has just connected on. -/
theorem drive_loop_acknowledged {w : Worker} {outs : List Output} (h : AsksOpenly cfg t0 w outs)
    (around : Nat → Surroundings) (turns : List LoopTurn) :
    Acknowledged cfg t0 (w.driveLoop outs around turns).1 := by
  refine drive_loop_invariant dispatch_acknowledged ?_ ?_ h around turns
  · intro w next hafter _
    exact (turn_proceeds w next).asks_openly hafter
  · intro w hafter
    exact hafter

end Worker

/-- A new session does not wait for an acknowledgement. -/
theorem NtripSession.new_not_awaiting (cfg : SessionConfig) (t0 : Instant) :
    (new cfg t0).1.gga ≠ .awaitSent := by
  unfold new
  cases cfg.transport with
  | rawTcp =>
      simp only
      split
      · simp
      · simp
  | ntrip =>
      simp only
      split
      · simp
      · simp

open Worker in
/-- The cadence of position requests and deadlines, and the answers of the worker. A request is
answered by one acknowledgement on every branch, a dispatch answers as many requests as it
hands on, and in a connection of the worker, whose session is the run of the calls on record, no
dispatch leaves the session waiting. -/
theorem gga_acknowledged (cfg : SessionConfig) (t0 : Instant) {calls : List Call}
    (hinstants : NonDecreasing calls) :
    Cadence cfg t0 calls ∧
      (∀ (w : Worker) (around : Surroundings),
        (w.onGgaDue around).calls = w.calls ++ [w.acknowledgement around] ∧
          (w.onGgaDue around).session = (step w.session (w.acknowledgement around)).1) ∧
      (∀ (w : Worker) (outs : List Output) (around : Nat → Surroundings),
        Answers w (w.dispatch outs around) outs) ∧
      ∀ (cx : Cx) (openedAt firstTick : Instant) (around : Nat → Surroundings)
        (turns : List LoopTurn),
        let opened := (cx.connected openedAt).call (.onTick firstTick)
        Acknowledged cx.job.sessionConfig openedAt
          (opened.1.driveLoop opened.2 around turns).1 := by
  refine ⟨run_cadence cfg t0 hinstants, ?_, dispatch_answers, ?_⟩
  · intro w around
    obtain ⟨posts, ggaSent, hgga⟩ := on_gga_due_spec w around
    rw [hgga]
    exact ⟨rfl, rfl⟩
  · intro cx openedAt firstTick around turns opened
    have hconnected : Acknowledged cx.job.sessionConfig openedAt (cx.connected openedAt) :=
      ⟨rfl, new_not_awaiting _ _⟩
    have hproceeds : Proceeds (cx.connected openedAt) opened := .plain rfl (by simp)
    exact drive_loop_acknowledged (hproceeds.asks_openly hconnected) around turns

/-- A stream that is asked for a position, which is sent, and asked again. -/
def exampleCalls : List Call :=
  [.onBytes (ascii "ICY 200 OK\r\n\r\n") 0, .onTick (fromSecs 1), .ggaSent (fromSecs 1),
    .onTick (fromSecs 12)]

theorem gga_acknowledged_example :
    NonDecreasing exampleCalls ∧ Cadence exampleConfig 0 exampleCalls := by
  have hinstants : NonDecreasing exampleCalls := by
    unfold NonDecreasing exampleCalls
    decide
  exact ⟨hinstants, (gga_acknowledged exampleConfig 0 hinstants).1⟩

/-- The silence timer runs from the last call of `on_bytes`, and a call with no bytes restarts it:
30 s without received bytes need not close a stream. -/
theorem silence_restarted_without_bytes :
    ¬ ∀ (cfg : SessionConfig) (t0 now : Instant) (calls : List Call),
      NonDecreasing (calls ++ [.onTick now]) →
      (run (new cfg t0).1 calls).1.phase.isStreaming = true →
      (∀ data at_, .onBytes data at_ ∈ calls → data ≠ [] → at_ + SILENCE_TIMEOUT ≤ now) →
      t0 + SILENCE_TIMEOUT ≤ now →
        (step (run (new cfg t0).1 calls).1 (.onTick now)).1.phase = .done := by
  intro h
  have hclosed := h { exampleConfig with transport := .rawTcp } 0 (fromSecs 30)
    [.onBytes [] (fromSecs 20)] (by unfold NonDecreasing; decide) (by decide +kernel) ?_ (by decide)
  · revert hclosed
    decide +kernel
  · intro data at_ hmem hne
    have hempty : data = [] := by simp_all
    exact absurd hempty hne

end OpenNtrip
