import OpenNtrip.NtripCore.Lifecycle

/-!
# Position requests and deadlines

What the timers of a session do in a run. `Received` and `Ticked` say what bytes and ticks do to
them, and `Moves` what any call does. From them follow when a position request can be emitted
(`not_before_run`, `never_asks_run`) and what the deadlines are (`deadline_after_eq`).
`run_cadence` is the result for whole runs.
-/

namespace OpenNtrip

/-- The phase as the timers see it. -/
inductive Stage where
  | header
  | table (deadline : Instant)
  | streaming
  | done
  deriving DecidableEq, Repr

def Phase.stage : Phase → Stage
  | .statusLine | .httpHeaders _ => .header
  | .table t => .table t.deadline
  | .streaming _ => .streaming
  | .done => .done

theorem Phase.stage_header {phase : Phase} : phase.isHeader = true ↔ phase.stage = .header := by
  cases phase with
  | _ => simp [isHeader, stage]

theorem Phase.stage_done {phase : Phase} : phase.stage = .done ↔ phase = .done := by
  cases phase with
  | _ => simp [stage]

theorem Phase.stage_streaming {phase : Phase} :
    phase.isStreaming = true ↔ phase.stage = .streaming := by
  cases phase with
  | _ => simp [isStreaming, stage]

/-- The GGA timer set to `at_`, unless position requests are disabled. -/
def Gga.rearm (gga : Gga) (at_ : Instant) : Gga := if gga = .disabled then .disabled else .due at_

theorem Gga.rearm_eq_disabled {gga : Gga} {at_ : Instant} :
    gga.rearm at_ = .disabled ↔ gga = .disabled := by
  unfold rearm
  split
  · next h => simp [h]
  · next h => simp [h]

/-- A timer that was set is due at the instant it was set to. -/
theorem Gga.rearm_eq_due {gga : Gga} {at_ when_ : Instant} (h : gga.rearm at_ = .due when_) :
    when_ = at_ := by
  unfold rearm at h
  split at h
  · simp at h
  · simpa using h.symm

theorem Gga.rearm_ne_awaitSent {gga : Gga} {at_ : Instant} : gga.rearm at_ ≠ .awaitSent := by
  unfold rearm
  split
  · simp
  · simp

namespace NtripSession

/-! ## What bytes do to the timers -/

/-- The timers after bytes received at `now`: the session stays in its phase, enters a body, or
ends. -/
inductive Received (now : Instant) (s s' : NtripSession) : Prop where
  | stays (hstage : s'.phase.stage = s.phase.stage) (hgga : s'.gga = s.gga)
  | table (hheader : s.phase.stage = .header)
      (hstage : s'.phase.stage = .table (now + TABLE_TIMEOUT)) (hgga : s'.gga = s.gga)
  | streams (hheader : s.phase.stage = .header) (hstage : s'.phase.stage = .streaming)
      (hgga : s'.gga = s.gga.rearm (now + GGA_FIRST_DELAY))
  | ended (hstage : s'.phase.stage = .done)
      (hgga : s'.gga = s.gga ∨ s'.gga = s.gga.rearm (now + GGA_FIRST_DELAY))

/-- The timers are about the phase and the GGA state only. -/
theorem Received.start {now : Instant} {s s₀ s' : NtripSession} (h : Received now s s')
    (hphase : s.phase = s₀.phase) (hgga : s.gga = s₀.gga) : Received now s₀ s' := by
  cases h with
  | stays hstage hgga' => exact .stays (hphase ▸ hstage) (hgga ▸ hgga')
  | table hheader hstage hgga' => exact .table (hphase ▸ hheader) hstage (hgga ▸ hgga')
  | streams hheader hstage hgga' => exact .streams (hphase ▸ hheader) hstage (hgga ▸ hgga')
  | ended hstage hgga' => exact .ended hstage (hgga ▸ hgga')

/-- A body that is fed further goes on or ends. -/
theorem Received.body {now : Instant} {s s' s'' : NtripSession} (h : Received now s s')
    (hgga : s''.gga = s'.gga)
    (hstage : s''.phase.stage = s'.phase.stage ∨ s''.phase.stage = .done) :
    Received now s s'' := by
  rcases hstage with hsame | hdone
  · cases h with
    | stays hstage hgga' => exact .stays (hsame.trans hstage) (hgga.trans hgga')
    | table hheader hstage hgga' => exact .table hheader (hsame.trans hstage) (hgga.trans hgga')
    | streams hheader hstage hgga' => exact .streams hheader (hsame.trans hstage) (hgga.trans hgga')
    | ended hstage hgga' => exact .ended (hsame.trans hstage) (by rw [hgga]; exact hgga')
  · refine .ended hdone ?_
    rw [hgga]
    cases h with
    | stays hstage hgga' => exact .inl hgga'
    | table hheader hstage hgga' => exact .inl hgga'
    | streams hheader hstage hgga' => exact .inr hgga'
    | ended hstage hgga' => exact hgga'

theorem feed_table_deadline (t : TableState) (data : Bytes) :
    (feedTable t data).1.deadline = t.deadline := by
  cases hmode : t.mode with
  | direct remaining =>
      rw [feed_table_direct hmode]
      exact TableState.absorb_deadline _ _ _
  | chunked dec =>
      rw [feed_table_chunked hmode, chunkedAnswer]
      split
      · exact TableState.absorb_deadline _ _ _
      · exact TableState.absorb_deadline _ _ _

theorem apply_body_event_stage (s : NtripSession) (event : BodyEvent) :
    (s.applyBodyEvent event).1.gga = s.gga ∧
      ((s.applyBodyEvent event).1.phase.stage = s.phase.stage ∨
        (s.applyBodyEvent event).1.phase.stage = .done) := by
  cases event with
  | none => exact ⟨rfl, .inl rfl⟩
  | corrupt detail => exact ⟨rfl, .inr rfl⟩
  | chunkStreamEnd => exact ⟨rfl, .inr rfl⟩
  | tableComplete =>
      simp only [applyBodyEvent, finalizeTable]
      split
      · split
        · exact ⟨rfl, .inr rfl⟩
        · exact ⟨rfl, .inr rfl⟩
      · exact ⟨rfl, .inl rfl⟩

theorem ingest_body_stage (s : NtripSession) (data : Bytes) :
    (s.ingestBody data).1.gga = s.gga ∧
      ((s.ingestBody data).1.phase.stage = s.phase.stage ∨
        (s.ingestBody data).1.phase.stage = .done) := by
  cases hphase : s.phase with
  | table t =>
      have hspec := apply_body_event_stage { s with phase := .table (feedTable t data).1 }
        (feedTable t data).2
      rw [ingest_body_table hphase, applyTable]
      simp only [Phase.stage, feed_table_deadline] at hspec ⊢
      exact hspec
  | streaming st =>
      rw [ingest_body_streaming hphase]
      exact apply_body_event_stage { s with phase := .streaming (feedStream st data).1 } _
  | _ =>
      rw [ingest_body_ignored (by rw [hphase]; rfl)]
      exact ⟨rfl, .inl (by rw [hphase])⟩

/-- The header stays unfinished, or it is refused, or a body begins at `now`. -/
theorem drive_header_received {s : NtripSession} (h : s.phase.isHeader = true) (now : Instant) :
    Received now s (driveHeader s now).1 := by
  have hstage := Phase.stage_header.mp h
  rw [drive_header_eq]
  cases houtcome : (parseFrom s.phase s.buf.unparsed).outcome with
  | more phase =>
      have hheader := Phase.stage_header.mp (parse_from_more_isHeader h houtcome)
      simp only [takeAnswer, houtcome]
      exact .stays (hheader.trans hstage.symm) rfl
  | complete answer =>
      cases answer with
      | icy =>
          simp only [takeAnswer, houtcome]
          split
          · exact .streams hstage rfl rfl
          · exact .ended rfl (.inl rfl)
      | sourcetable =>
          simp only [takeAnswer, houtcome]
          exact .table hstage rfl rfl
      | unknown =>
          simp only [takeAnswer, houtcome]
          exact .ended rfl (.inl rfl)
      | http info =>
          simp only [takeAnswer, houtcome, classifyHttp]
          split
          · exact .ended rfl (.inl rfl)
          · split
            · exact .ended rfl (.inl rfl)
            · split
              · exact .table hstage rfl rfl
              · exact .streams hstage rfl rfl

theorem absorb_received (now : Instant) (s : NtripSession) (data : Bytes) :
    Received now s (absorb now s data).1 := by
  cases hheader : s.phase.isHeader with
  | true =>
      have hheader' : (s.buffering data now).phase.isHeader = true := hheader
      have hsame : Received now s (driveHeader (s.buffering data now) now).1 :=
        (drive_header_received hheader' now).start rfl rfl
      simp only [absorb, hheader, if_true]
      generalize driveHeader (s.buffering data now) now = outcome at hsame ⊢
      obtain ⟨s', leftover, out⟩ := outcome
      cases leftover with
      | none => exact hsame
      | some leftover =>
          obtain ⟨hgga, hstage⟩ := ingest_body_stage s' leftover
          exact hsame.body hgga hstage
  | false =>
      cases hbody : s.phase.isBody with
      | true =>
          obtain ⟨hgga, hstage⟩ := ingest_body_stage { s with lastRx := now } data
          have hrx : Received now s { s with lastRx := now } := .stays rfl rfl
          simp only [absorb, hheader, hbody, Bool.false_eq_true, if_false, if_true]
          exact hrx.body hgga hstage
      | false =>
          simp only [absorb, hheader, hbody, Bool.false_eq_true, if_false]
          exact .stays rfl rfl

/-- What a call of `onBytes` does to the timers. -/
theorem on_bytes_received (s : NtripSession) (data : Bytes) (now : Instant) :
    Received now s (s.onBytes data now).1 := by
  rw [on_bytes_eq]
  have hflush : Received now s (absorb now s.flushPending.1 data).1 :=
    (absorb_received now s.flushPending.1 data).start rfl rfl
  generalize absorb now s.flushPending.1 data = answer at hflush
  obtain ⟨s', out⟩ := answer
  cases hcap : s'.overCap with
  | false =>
      rw [cap_close_of_not hcap]
      exact hflush
  | true =>
      simp only [capClose, hcap, if_true]
      exact hflush.body rfl (.inr rfl)

/-- Bytes restart the silence timer and leave the first deadline alone. -/
theorem on_bytes_last_rx (s : NtripSession) (data : Bytes) (now : Instant) :
    (s.phase ≠ .done → (s.onBytes data now).1.lastRx = now) ∧
      (s.onBytes data now).1.firstDeadline = s.firstDeadline := by
  obtain ⟨phase, buf, lastRx, closed, gga, hspec, hrx⟩ := absorb_spec now s.flushPending.1 data
  have hcap : ∀ answer : NtripSession × List Output,
      (capClose answer).1.lastRx = answer.1.lastRx ∧
        (capClose answer).1.firstDeadline = answer.1.firstDeadline := by
    intro answer
    obtain ⟨s', out⟩ := answer
    cases hcap : s'.overCap with
    | true =>
        simp only [capClose, hcap, if_true]
        exact ⟨rfl, rfl⟩
    | false =>
        rw [cap_close_of_not hcap]
        exact ⟨rfl, rfl⟩
  rw [on_bytes_eq, (hcap _).1, (hcap _).2, hspec]
  exact ⟨hrx, rfl⟩

/-! ## What ticks do to the timers -/

/-- The deadline of the phase the session is in. -/
def deadline (s : NtripSession) : Option Instant :=
  match s.phase with
  | .done => none
  | .statusLine | .httpHeaders _ => some s.firstDeadline
  | .table t => some t.deadline
  | .streaming _ => some (s.lastRx + SILENCE_TIMEOUT)

/-- What a tick does: it closes the session at the deadline, asks for a position that is due, or
does nothing. -/
inductive Ticked (now : Instant) (s : NtripSession) : NtripSession × List Output → Prop where
  | closed {answer : NtripSession × List Output} {d : Instant} (reason : CloseReason)
      (hdeadline : s.deadline = some d) (hdue : d ≤ now) (hdone : answer.1.phase = .done)
      (hgga : answer.1.gga = s.gga) (hclose : .close reason ∈ answer.2)
      (hnone : .ggaDue ∉ answer.2) : Ticked now s answer
  | asks {at_ : Instant} (hstreams : s.phase.stage = .streaming) (hgga : s.gga = .due at_)
      (hdue : at_ ≤ now) (hearly : ∀ d, s.deadline = some d → now < d) :
      Ticked now s ({ s with pending := [], gga := .awaitSent }, s.pending ++ [.ggaDue])
  | quiet (hearly : ∀ d, s.deadline = some d → now < d) :
      Ticked now s ({ s with pending := [] }, s.pending)

/-- Closing in a tick. -/
theorem Ticked.close {now : Instant} {s : NtripSession} {d : Instant}
    (hpending : ∀ o ∈ s.pending, ∃ line, o = .protocolTx line) (hdeadline : s.deadline = some d)
    (hdue : d ≤ now) (reason : CloseReason) :
    Ticked now s ((emitClose { s with pending := [] } reason).1,
      s.pending ++ (emitClose { s with pending := [] } reason).2) := by
  refine .closed reason hdeadline hdue rfl rfl ?_ ?_
  · simp [emitClose]
  · intro hmem
    rcases List.mem_append.mp hmem with hmem | hmem
    · obtain ⟨line, hline⟩ := hpending _ hmem
      simp at hline
    · simp only [emitClose] at hmem
      split at hmem
      · simp at hmem
      · simp at hmem

/-- The silence timer counts from the last bytes. -/
theorem silence_iff (lastRx now : Instant) :
    SILENCE_TIMEOUT ≤ now - lastRx ↔ lastRx + SILENCE_TIMEOUT ≤ now := by
  have hpos : 0 < SILENCE_TIMEOUT := by decide
  have hnat : ∀ rx n d : Nat, 0 < d → (d ≤ n - rx ↔ rx + d ≤ n) := by
    intro rx n d hd
    omega
  exact hnat lastRx now SILENCE_TIMEOUT hpos

theorem on_tick_ticked {s : NtripSession}
    (hpending : ∀ o ∈ s.pending, ∃ line, o = .protocolTx line) (now : Instant) :
    Ticked now s (s.onTick now) := by
  have hclose : ∀ {d : Instant}, s.deadline = some d → d ≤ now → ∀ reason,
      Ticked now s ((emitClose { s with pending := [] } reason).1,
        s.pending ++ (emitClose { s with pending := [] } reason).2) :=
    fun hdeadline hdue reason => Ticked.close hpending hdeadline hdue reason
  have hquiet : ∀ {d : Instant}, s.deadline = some d → ¬ d ≤ now →
      Ticked now s ({ s with pending := [] }, s.pending) := by
    intro d hdeadline hearly
    refine .quiet ?_
    intro d' hd'
    rw [hdeadline] at hd'
    obtain rfl := Option.some.inj hd'
    exact Nat.lt_of_not_le hearly
  cases hphase : s.phase with
  | done =>
      simp only [onTick, flushPending, hphase]
      exact hphase ▸ .quiet (by simp [deadline, hphase])
  | statusLine =>
      have hdeadline : s.deadline = some s.firstDeadline := by rw [deadline, hphase]
      simp only [onTick, flushPending, hphase]
      rw [← hphase]
      split
      · next hdue => exact hclose hdeadline hdue _
      · next hearly => exact hquiet hdeadline hearly
  | httpHeaders info =>
      have hdeadline : s.deadline = some s.firstDeadline := by rw [deadline, hphase]
      simp only [onTick, flushPending, hphase]
      rw [← hphase]
      split
      · next hdue => exact hclose hdeadline hdue _
      · next hearly => exact hquiet hdeadline hearly
  | table t =>
      have hdeadline : s.deadline = some t.deadline := by rw [deadline, hphase]
      simp only [onTick, flushPending, hphase]
      rw [← hphase]
      split
      · next hdue => exact hclose hdeadline hdue _
      · next hearly => exact hquiet hdeadline hearly
  | streaming st =>
      have hdeadline : s.deadline = some (s.lastRx + SILENCE_TIMEOUT) := by rw [deadline, hphase]
      have hsilence := silence_iff s.lastRx now
      simp only [onTick, flushPending, hphase]
      rw [← hphase]
      split
      · next hdue => exact hclose hdeadline (hsilence.mp hdue) _
      · next hnot =>
          have hearly : ¬ s.lastRx + SILENCE_TIMEOUT ≤ now := fun h => hnot (hsilence.mpr h)
          split
          · next at_ hgga =>
              split
              · next hdue =>
                  refine .asks (by rw [hphase]; rfl) hgga hdue ?_
                  intro d hd
                  rw [hdeadline] at hd
                  obtain rfl := Option.some.inj hd
                  exact Nat.lt_of_not_le hearly
              · exact hquiet hdeadline hearly
          · exact hquiet hdeadline hearly

/-! ## One call -/

/-- `ggaSent` and `ggaMissed`. -/
def Call.isAcknowledgement : Call → Bool
  | .ggaSent _ | .ggaMissed _ => true
  | _ => false

/-- Only request lines are pending. -/
def PendingTx (s : NtripSession) : Prop := ∀ o ∈ s.pending, ∃ line, o = .protocolTx line

theorem step_pending_tx {s : NtripSession} (h : PendingTx s) (call : Call) :
    PendingTx (step s call).1 := by
  intro o ho
  rw [(step_frame s call).1] at ho
  split at ho
  · simp at ho
  · exact h o ho

/-- A position request comes from a tick that finds the timer due, and disarms it. -/
theorem gga_due_spec {s : NtripSession} (hpending : PendingTx s) {call : Call}
    (h : .ggaDue ∈ (step s call).2) :
    ∃ now at_, call = .onTick now ∧ s.phase.stage = .streaming ∧ s.gga = .due at_ ∧ at_ ≤ now ∧
      step s call = ({ s with pending := [], gga := .awaitSent }, s.pending ++ [.ggaDue]) := by
  have hmid := step_midway hpending h rfl
  cases call with
  | onTick now =>
      have hticked := on_tick_ticked hpending now
      show ∃ now' at_, Call.onTick now = .onTick now' ∧ _
      have hstep : step s (.onTick now) = s.onTick now := rfl
      rw [hstep] at h ⊢
      generalize s.onTick now = answer at h hticked
      cases hticked with
      | closed reason hdeadline hdue hdone hgga hclose hnone => exact absurd h hnone
      | asks hstreams hgga hdue hearly => exact ⟨now, _, rfl, hstreams, hgga, hdue, rfl⟩
      | quiet hearly =>
          obtain ⟨line, hline⟩ := hpending _ h
          simp at hline
  | _ => simp [Output.midway, terms, Call.isTick] at hmid

/-- The instant that an acknowledgement sets the timer to. -/
def Call.rearms : Call → Option Instant
  | .ggaSent a => some (a + GGA_INTERVAL)
  | .ggaMissed a => some (a + GGA_RETRY_DELAY)
  | _ => none

theorem gga_sent_eq (s : NtripSession) (a : Instant) :
    s.ggaSent a = { s with gga := s.gga.rearm (a + GGA_INTERVAL) } := by
  unfold ggaSent Gga.rearm
  split
  · next h => rw [← h]
  · rfl

theorem gga_missed_eq (s : NtripSession) (a : Instant) :
    s.ggaMissed a = { s with gga := s.gga.rearm (a + GGA_RETRY_DELAY) } := by
  unfold ggaMissed Gga.rearm
  split
  · next h => rw [← h]
  · rfl

/-- Ending a session leaves the timer alone. -/
theorem on_remote_close_gga (s : NtripSession) : s.onRemoteClose.1.gga = s.gga := by
  obtain ⟨buf, closed, hstate⟩ := on_remote_close_state s
  rw [hstate]

theorem cancel_gga (s : NtripSession) : s.cancel.1.gga = s.gga := by
  unfold cancel flushPending
  simp only
  split
  · rfl
  · rfl

/-- What a call does to the timers: nothing, or it begins a body or ends the session, or it asks for
a position or acknowledges a request. -/
inductive Moves (s : NtripSession) : Call → NtripSession × List Output → Prop where
  | stays {call : Call} {answer : NtripSession × List Output}
      (hstage : answer.1.phase.stage = s.phase.stage) (hgga : answer.1.gga = s.gga) :
      Moves s call answer
  | table {data : Bytes} {now : Instant} {answer : NtripSession × List Output}
      (hheader : s.phase.stage = .header)
      (hstage : answer.1.phase.stage = .table (now + TABLE_TIMEOUT)) (hgga : answer.1.gga = s.gga) :
      Moves s (.onBytes data now) answer
  | streams {data : Bytes} {now : Instant} {answer : NtripSession × List Output}
      (hheader : s.phase.stage = .header) (hstage : answer.1.phase.stage = .streaming)
      (hgga : answer.1.gga = s.gga.rearm (now + GGA_FIRST_DELAY)) :
      Moves s (.onBytes data now) answer
  | ended {call : Call} {answer : NtripSession × List Output}
      (hstage : answer.1.phase.stage = .done)
      (hgga : answer.1.gga = s.gga ∨ ∃ at_, answer.1.gga = s.gga.rearm at_) : Moves s call answer
  | asks {now at_ : Instant} {answer : NtripSession × List Output}
      (hstreams : s.phase.stage = .streaming) (hdue : s.gga = .due at_)
      (hstage : answer.1.phase.stage = .streaming) (hgga : answer.1.gga = .awaitSent)
      (hask : .ggaDue ∈ answer.2) : Moves s (.onTick now) answer
  | acknowledges {call : Call} {at_ : Instant} {answer : NtripSession × List Output}
      (hcall : call.rearms = some at_) (hstage : answer.1.phase.stage = s.phase.stage)
      (hgga : answer.1.gga = s.gga.rearm at_) : Moves s call answer

theorem step_moves {s : NtripSession} (hpending : PendingTx s) (call : Call) :
    Moves s call (step s call) := by
  cases call with
  | onBytes data now =>
      show Moves s _ (s.onBytes data now)
      cases on_bytes_received s data now with
      | stays hstage hgga => exact .stays hstage hgga
      | table hheader hstage hgga => exact .table hheader hstage hgga
      | streams hheader hstage hgga => exact .streams hheader hstage hgga
      | ended hdone hgga =>
          refine .ended hdone ?_
          rcases hgga with hsame | hrearm
          · exact .inl hsame
          · exact .inr ⟨_, hrearm⟩
  | onTick now =>
      show Moves s _ (s.onTick now)
      have hticked := on_tick_ticked hpending now
      generalize s.onTick now = answer at hticked
      cases hticked with
      | closed reason hdeadline hdue hdone hgga =>
          exact .ended (Phase.stage_done.mpr hdone) (.inl hgga)
      | asks hstreams hgga => exact .asks hstreams hgga hstreams rfl (by simp)
      | quiet hearly => exact .stays rfl rfl
  | ggaSent a =>
      rw [step, gga_sent_eq]
      exact .acknowledges rfl rfl rfl
  | ggaMissed a =>
      rw [step, gga_missed_eq]
      exact .acknowledges rfl rfl rfl
  | onRemoteClose =>
      refine .ended (Phase.stage_done.mpr (on_remote_close_done s)) (.inl ?_)
      show s.onRemoteClose.1.gga = s.gga
      exact on_remote_close_gga s
  | cancel =>
      refine .ended (Phase.stage_done.mpr (cancel_done s)) (.inl ?_)
      show s.cancel.1.gga = s.gga
      exact cancel_gga s

/-- The session is past the header and, if it streams, no request is due before `b`. -/
def NotBefore (b : Instant) (s : NtripSession) : Prop :=
  s.phase.stage ≠ .header ∧ (s.phase.stage = .streaming → ∀ at_, s.gga = .due at_ → b ≤ at_)

/-- The acknowledgements that keep to `b`. -/
def Call.AcksAfter (b : Instant) (call : Call) : Prop := ∀ at_, call.rearms = some at_ → b ≤ at_

/-- Outside the acknowledgements nothing sets the timer of a session past its header. -/
theorem not_before_step {b : Instant} {s : NtripSession} (h : NotBefore b s)
    (hpending : PendingTx s) {call : Call} (hack : call.AcksAfter b) :
    NotBefore b (step s call).1 := by
  obtain ⟨hstage, hdue⟩ := h
  have hmoves := step_moves hpending call
  generalize step s call = answer at hmoves ⊢
  cases hmoves with
  | stays hsame hgga =>
      refine ⟨hsame ▸ hstage, ?_⟩
      intro hstreams at_ hat
      exact hdue (hsame ▸ hstreams) at_ (hgga ▸ hat)
  | table hheader => exact absurd hheader hstage
  | streams hheader => exact absurd hheader hstage
  | ended hdone =>
      refine ⟨by simp [hdone], ?_⟩
      intro hstreams
      simp [hdone] at hstreams
  | asks hstreams _ hstage' hgga =>
      refine ⟨by simp [hstage'], ?_⟩
      intro _ at_ hat
      simp [hgga] at hat
  | acknowledges hcall hsame hgga =>
      refine ⟨hsame ▸ hstage, ?_⟩
      intro _ at_ hat
      rw [hgga] at hat
      rw [Gga.rearm_eq_due hat]
      exact hack _ hcall

/-! ## Runs -/

theorem run_pending_tx_of {s : NtripSession} (h : PendingTx s) (calls : List Call) :
    PendingTx (run s calls).1 :=
  Transducer.run_invariant PendingTx (fun _ call _ hs => step_pending_tx hs call) h

/-- The induction over the calls of a run. Only request lines are pending in any of its states. -/
theorem run_invariant (inv : NtripSession → Prop) {s : NtripSession} {calls : List Call}
    (hstep : ∀ s, ∀ call ∈ calls, PendingTx s → inv s → inv (step s call).1)
    (hpending : PendingTx s) (h : inv s) : inv (run s calls).1 := by
  refine (Transducer.run_invariant (fun s => PendingTx s ∧ inv s) ?_ ⟨hpending, h⟩).2
  intro s' call hcall ⟨hpending', h'⟩
  exact ⟨step_pending_tx hpending' call, hstep s' call hcall hpending' h'⟩

/-- What a run emits, it emits in a call on a session with the invariant. -/
theorem exists_step_of_mem_run (inv : NtripSession → Prop) {s : NtripSession} {calls : List Call}
    (hstep : ∀ s, ∀ call ∈ calls, PendingTx s → inv s → inv (step s call).1)
    (hpending : PendingTx s) (h : inv s) {o : Output} (ho : o ∈ (run s calls).2) :
    ∃ s', ∃ call ∈ calls, PendingTx s' ∧ inv s' ∧ o ∈ (step s' call).2 := by
  obtain ⟨s', call, hcall, ⟨hpending', h'⟩, hout⟩ :=
    Transducer.exists_step_of_mem_run (fun s => PendingTx s ∧ inv s)
      (fun s' call hcall hs' => ⟨step_pending_tx hs'.1 call, hstep s' call hcall hs'.1 hs'.2⟩)
      ⟨hpending, h⟩ ho
  exact ⟨s', call, hcall, hpending', h', hout⟩

/-- As long as the acknowledgements keep to `b`, no request is due before it. -/
theorem not_before_run {b : Instant} {s : NtripSession} (h : NotBefore b s)
    (hpending : PendingTx s) {calls : List Call} (hacks : ∀ call ∈ calls, call.AcksAfter b) :
    NotBefore b (run s calls).1 :=
  run_invariant (NotBefore b)
    (fun _ call hcall hpending' hs => not_before_step hs hpending' (hacks call hcall)) hpending h

/-- A request is not emitted before it is due. -/
theorem NotBefore.le_of_gga_due {b now : Instant} {s : NtripSession} (h : NotBefore b s)
    (hpending : PendingTx s) (hask : .ggaDue ∈ (step s (.onTick now)).2) : b ≤ now := by
  obtain ⟨now', at_, hcall, hstreams, hgga, hdue, -⟩ := gga_due_spec hpending hask
  obtain rfl : now = now' := by simpa using hcall
  exact Nat.le_trans (h.2 hstreams at_ hgga) hdue

/-- The session is past the header and, if it receives a table, its deadline is `d`. -/
def TableUntil (d : Instant) (s : NtripSession) : Prop :=
  s.phase.stage ≠ .header ∧ ∀ d', s.phase.stage = .table d' → d' = d

theorem table_until_step {d : Instant} {s : NtripSession} (h : TableUntil d s)
    (hpending : PendingTx s) (call : Call) : TableUntil d (step s call).1 := by
  have hmoves := step_moves hpending call
  generalize step s call = answer at hmoves ⊢
  -- a table begins only in the header phase, so that a stage that stays is the old one
  have hother : ∀ stage : Stage, answer.1.phase.stage = stage → stage ≠ .header →
      (∀ d', stage ≠ .table d') → TableUntil d answer.1 := by
    intro stage hstage hheader htable
    refine ⟨hstage ▸ hheader, ?_⟩
    intro d' hd'
    exact absurd (hstage.symm.trans hd') (htable d')
  cases hmoves with
  | stays hsame => exact ⟨hsame ▸ h.1, fun d' hd' => h.2 d' (hsame ▸ hd')⟩
  | table hheader => exact absurd hheader h.1
  | streams hheader => exact absurd hheader h.1
  | ended hdone => exact hother _ hdone (by simp) (by simp)
  | asks _ _ hstage => exact hother _ hstage (by simp) (by simp)
  | acknowledges _ hsame => exact ⟨hsame ▸ h.1, fun d' hd' => h.2 d' (hsame ▸ hd')⟩

/-- The deadline of a table is set once. -/
theorem table_until_run {d : Instant} {s : NtripSession} (h : TableUntil d s)
    (hpending : PendingTx s) (calls : List Call) : TableUntil d (run s calls).1 :=
  run_invariant (TableUntil d)
    (fun _ call _ hpending' hs => table_until_step hs hpending' call) hpending h

/-- The instant of the last bytes, when they were last received at `last` before the call. -/
def Call.rx (last : Instant) : Call → Instant
  | .onBytes _ now => now
  | _ => last

/-- The instant of the last bytes of a run. -/
def lastBytes (last : Instant) (calls : List Call) : Instant := calls.foldl Call.rx last

theorem step_done_stays {s : NtripSession} (h : s.phase = .done) (call : Call) :
    (step s call).1.phase = .done := by
  obtain ⟨out, hturned⟩ := step_turned s call
  exact (hturned.done h).1

/-- Only bytes move the silence timer, and nothing moves the first deadline. -/
theorem step_clock {s : NtripSession} {call : Call} (h : (step s call).1.phase ≠ .done) :
    (step s call).1.lastRx = call.rx s.lastRx ∧
      (step s call).1.firstDeadline = s.firstDeadline := by
  have hopen : s.phase ≠ .done := fun hdone => h (step_done_stays hdone call)
  cases call with
  | onBytes data now =>
      obtain ⟨hrx, hfirst⟩ := on_bytes_last_rx s data now
      exact ⟨hrx hopen, hfirst⟩
  | onTick now =>
      obtain ⟨phase, closed, gga, hspec, -⟩ := on_tick_spec s now
      have hstep : (step s (.onTick now)).1 = { s with pending := [], phase, closed, gga } := hspec
      rw [hstep]
      exact ⟨rfl, rfl⟩
  | ggaSent a =>
      rw [step, gga_sent_eq]
      exact ⟨rfl, rfl⟩
  | ggaMissed a =>
      rw [step, gga_missed_eq]
      exact ⟨rfl, rfl⟩
  | onRemoteClose => exact absurd (on_remote_close_done s) h
  | cancel => exact absurd (cancel_done s) h

theorem run_done_stays {s : NtripSession} (h : s.phase = .done) (calls : List Call) :
    (run s calls).1.phase = .done :=
  Transducer.run_invariant (fun s : NtripSession => s.phase = .done)
    (fun _ call _ hs => step_done_stays hs call) h

theorem run_clock {s : NtripSession} {calls : List Call} (h : (run s calls).1.phase ≠ .done) :
    (run s calls).1.lastRx = lastBytes s.lastRx calls ∧
      (run s calls).1.firstDeadline = s.firstDeadline := by
  induction calls generalizing s with
  | nil => exact ⟨rfl, rfl⟩
  | cons call rest ih =>
      have hopen : (step s call).1.phase ≠ .done := fun hdone => h (run_done_stays hdone rest)
      obtain ⟨hrx, hfirst⟩ := step_clock hopen
      have hlater : (run (step s call).1 rest).1.phase ≠ .done := h
      obtain ⟨hrx', hfirst'⟩ := ih hlater
      refine ⟨hrx'.trans ?_, hfirst'.trans hfirst⟩
      rw [hrx]
      rfl

/-- The session never asks for a position. -/
def NeverAsks (s : NtripSession) : Prop := s.gga = .disabled ∨ s.phase = .done

theorem never_asks_step {s : NtripSession} (h : NeverAsks s) (hpending : PendingTx s)
    (call : Call) : NeverAsks (step s call).1 := by
  rcases h with hdisabled | hdone
  · have hmoves := step_moves hpending call
    generalize step s call = answer at hmoves ⊢
    cases hmoves with
    | stays _ hgga => exact .inl (hgga.trans hdisabled)
    | table _ _ hgga => exact .inl (hgga.trans hdisabled)
    | streams _ _ hgga => exact .inl (hgga.trans (Gga.rearm_eq_disabled.mpr hdisabled))
    | ended hdone => exact .inr (Phase.stage_done.mp hdone)
    | asks _ hdue =>
        rw [hdisabled] at hdue
        exact absurd hdue (by simp)
    | acknowledges _ _ hgga => exact .inl (hgga.trans (Gga.rearm_eq_disabled.mpr hdisabled))
  · exact .inr (step_done_stays hdone call)

theorem never_asks_run {s : NtripSession} (h : NeverAsks s) (hpending : PendingTx s)
    (calls : List Call) : .ggaDue ∉ (run s calls).2 := by
  intro hask
  obtain ⟨s', call, -, hpending', hnever, hask⟩ := exists_step_of_mem_run NeverAsks
    (fun _ call _ hpending' hs => never_asks_step hs hpending' call) hpending h hask
  obtain ⟨now, at_, -, hstreams, hgga, -⟩ := gga_due_spec hpending' hask
  rcases hnever with hdisabled | hdone
  · rw [hdisabled] at hgga
    exact absurd hgga (by simp)
  · rw [hdone] at hstreams
    exact absurd hstreams (by simp [Phase.stage])

/-! ## The cadence -/

/-- The instant a call is made at. -/
def Call.instant : Call → Option Instant
  | .onBytes _ now | .onTick now | .ggaSent now | .ggaMissed now => some now
  | .onRemoteClose | .cancel => none

/-- The calls are made at instants that never go back. -/
def NonDecreasing (calls : List Call) : Prop :=
  (calls.filterMap Call.instant).Pairwise (· ≤ ·)

/-- A call after `earlier` emits a position request. -/
def AsksAfter (cfg : SessionConfig) (t0 : Instant) (earlier : List Call) (call : Call) : Prop :=
  .ggaDue ∈ (step (run (new cfg t0).1 earlier).1 call).2

/-- The deadline after `calls`, from the instants of the calls: 30 s for the response header, 10 s
for a table from the call that brought the header to its end, 30 s for a stream from the last
call of `onBytes`. -/
inductive DeadlineAfter (cfg : SessionConfig) (t0 : Instant) (calls : List Call) :
    Instant → Prop where
  | firstResponse (h : (run (new cfg t0).1 calls).1.phase.isHeader = true) :
      DeadlineAfter cfg t0 calls (t0 + FIRST_RESPONSE_TIMEOUT)
  | table {first rest : List Call} {data : Bytes} {at_ d : Instant}
      (hcalls : calls = first ++ .onBytes data at_ :: rest)
      (hbefore : (run (new cfg t0).1 first).1.phase.isHeader = true)
      (hafter : (run (new cfg t0).1 (first ++ [.onBytes data at_])).1.phase.isHeader = false)
      (htable : (run (new cfg t0).1 calls).1.phase.stage = .table d) :
      DeadlineAfter cfg t0 calls (at_ + TABLE_TIMEOUT)
  | silence (h : (run (new cfg t0).1 calls).1.phase.isStreaming = true) :
      DeadlineAfter cfg t0 calls (lastBytes t0 calls + SILENCE_TIMEOUT)

/-- When a run asks for a position, and when its ticks close the session. -/
structure Cadence (cfg : SessionConfig) (t0 : Instant) (calls : List Call) : Prop where
  /-- Only ticks ask, once each. -/
  ticks : ∀ earlier call later, calls = earlier ++ call :: later → AsksAfter cfg t0 earlier call →
    (∃ now, call = .onTick now) ∧
      (step (run (new cfg t0).1 earlier).1 call).2.count .ggaDue = 1
  /-- Between two requests there is an acknowledgement. -/
  acknowledged : ∀ earlier first between second later,
    calls = earlier ++ first :: (between ++ second :: later) → AsksAfter cfg t0 earlier first →
    AsksAfter cfg t0 (earlier ++ first :: between) second →
      ∃ call ∈ between, call.isAcknowledgement = true
  /-- Nothing is asked for when the policy or the transport has no position requests. -/
  disabled : (cfg.transport = .rawTcp ∨ cfg.gga = .off ∨ cfg.gga = .whenRequired false) →
    .ggaDue ∉ (run (new cfg t0).1 calls).2
  /-- The first request is at least 300 ms after the call that began the stream. -/
  afterStart : ∀ earlier now later, calls = earlier ++ .onTick now :: later →
    AsksAfter cfg t0 earlier (.onTick now) →
    ∀ first data at_ rest, earlier = first ++ .onBytes data at_ :: rest →
      (run (new cfg t0).1 first).1.phase.isHeader = true →
      (run (new cfg t0).1 (first ++ [.onBytes data at_])).1.phase.isStreaming = true →
        at_ + GGA_FIRST_DELAY ≤ now
  /-- The next request is at least 10 s after a position was sent. -/
  afterSent : ∀ earlier now later, calls = earlier ++ .onTick now :: later →
    AsksAfter cfg t0 earlier (.onTick now) →
    ∀ first a rest, earlier = first ++ .ggaSent a :: rest →
      (run (new cfg t0).1 first).1.phase.isStreaming = true →
      (∀ call ∈ rest, call.isAcknowledgement = false) → a + GGA_INTERVAL ≤ now
  /-- The next request is at least 2 s after a position was missed. -/
  afterMissed : ∀ earlier now later, calls = earlier ++ .onTick now :: later →
    AsksAfter cfg t0 earlier (.onTick now) →
    ∀ first a rest, earlier = first ++ .ggaMissed a :: rest →
      (run (new cfg t0).1 first).1.phase.isStreaming = true →
      (∀ call ∈ rest, call.isAcknowledgement = false) → a + GGA_RETRY_DELAY ≤ now
  /-- A tick at or after the deadline closes the session. -/
  closes : ∀ earlier now later, calls = earlier ++ .onTick now :: later →
    ∀ d, DeadlineAfter cfg t0 earlier d → d ≤ now →
      (step (run (new cfg t0).1 earlier).1 (.onTick now)).1.phase = .done ∧
        ∃ reason, .close reason ∈ (step (run (new cfg t0).1 earlier).1 (.onTick now)).2

/-- A call that acknowledges nothing keeps to every instant. -/
theorem acks_after_of_not {call : Call} (h : call.isAcknowledgement = false) (b : Instant) :
    call.AcksAfter b := by
  cases call with
  | ggaSent a => simp [Call.isAcknowledgement] at h
  | ggaMissed a => simp [Call.isAcknowledgement] at h
  | _ => simp [Call.AcksAfter, Call.rearms]

/-- Requests wait for `b` when the first call after which they have to is followed by
acknowledgements that keep to it. -/
theorem asks_not_before {s : NtripSession} (hpending : PendingTx s) {b now : Instant}
    {first rest : List Call} {call : Call}
    (hstart : NotBefore b (run s (first ++ [call])).1)
    (hacks : ∀ later ∈ rest, later.AcksAfter b)
    (hask : .ggaDue ∈ (step (run s (first ++ call :: rest)).1 (.onTick now)).2) : b ≤ now := by
  have hsplit : first ++ call :: rest = (first ++ [call]) ++ rest := by simp
  have hbefore := run_pending_tx_of hpending (first ++ [call])
  rw [hsplit, run_append] at hask
  have hrest := not_before_run hstart hbefore hacks
  exact hrest.le_of_gga_due (run_pending_tx_of hbefore rest) hask

theorem run_snoc (s : NtripSession) (calls : List Call) (call : Call) :
    (run s (calls ++ [call])).1 = (step (run s calls).1 call).1 := by
  rw [run_append]
  rfl

/-- An acknowledgement while streaming sets the timer. -/
theorem not_before_rearm {s : NtripSession} (h : s.phase.isStreaming = true) (at_ : Instant) :
    NotBefore at_ { s with gga := s.gga.rearm at_ } := by
  refine ⟨by simp [Phase.stage_streaming.mp h], ?_⟩
  intro _ when_ hwhen
  rw [Gga.rearm_eq_due hwhen]

/-- In a run at instants that never go back the acknowledgements come later than what precedes
them. -/
theorem acks_after_of_non_decreasing {first rest : List Call} {data : Bytes} {at_ : Instant}
    (h : NonDecreasing (first ++ .onBytes data at_ :: rest)) :
    ∀ call ∈ rest, call.AcksAfter (at_ + GGA_FIRST_DELAY) := by
  have hdelays : GGA_FIRST_DELAY ≤ GGA_INTERVAL ∧ GGA_FIRST_DELAY ≤ GGA_RETRY_DELAY := by decide
  unfold NonDecreasing at h
  have hat : (Call.onBytes data at_).instant = some at_ := rfl
  rw [List.filterMap_append, List.filterMap_cons_some hat] at h
  have hlater := (List.pairwise_cons.mp (List.pairwise_append.mp h).2.1).1
  intro call hcall
  cases call with
  | ggaSent a =>
      have hle : at_ ≤ a := hlater a (List.mem_filterMap.mpr ⟨_, hcall, rfl⟩)
      intro when_ hwhen
      obtain rfl := Option.some.inj hwhen
      exact Nat.add_le_add hle hdelays.1
  | ggaMissed a =>
      have hle : at_ ≤ a := hlater a (List.mem_filterMap.mpr ⟨_, hcall, rfl⟩)
      intro when_ hwhen
      obtain rfl := Option.some.inj hwhen
      exact Nat.add_le_add hle hdelays.2
  | _ => simp [Call.AcksAfter, Call.rearms]

theorem non_decreasing_left {first rest : List Call} (h : NonDecreasing (first ++ rest)) :
    NonDecreasing first := by
  unfold NonDecreasing at h
  rw [List.filterMap_append] at h
  exact (List.pairwise_append.mp h).1

/-- A configuration without position requests starts with the timer disabled. -/
theorem new_disabled {cfg : SessionConfig}
    (h : cfg.transport = .rawTcp ∨ cfg.gga = .off ∨ cfg.gga = .whenRequired false)
    (t0 : Instant) : (new cfg t0).1.gga = .disabled := by
  have hnot : ¬ (cfg.transport = .ntrip ∧ (cfg.gga = .always ∨ cfg.gga = .whenRequired true)) := by
    rintro ⟨hntrip, hpolicy⟩
    rcases h with hraw | hoff | hnone
    · simp [hraw] at hntrip
    · simp [hoff] at hpolicy
    · simp [hnone] at hpolicy
  unfold new
  simp only [hnot, if_false]
  split
  · rfl
  · rfl

/-- A table that a call enters is to end `TABLE_TIMEOUT` after the call. -/
theorem table_entered {s : NtripSession} {data : Bytes} {at_ : Instant}
    (hbefore : s.phase.isHeader = true)
    (hafter : (step s (.onBytes data at_)).1.phase.isHeader = false) :
    TableUntil (at_ + TABLE_TIMEOUT) (step s (.onBytes data at_)).1 := by
  have hnot : (step s (.onBytes data at_)).1.phase.stage ≠ .header := by
    intro hheader
    rw [Phase.stage_header.mpr hheader] at hafter
    exact absurd hafter (by simp)
  refine ⟨hnot, ?_⟩
  intro d hd
  have hreceived : Received at_ s (step s (.onBytes data at_)).1 := on_bytes_received s data at_
  cases hreceived with
  | stays hsame => exact absurd (hsame.trans (Phase.stage_header.mp hbefore)) hnot
  | table _ hstage =>
      rw [hstage] at hd
      simpa using hd.symm
  | streams _ hstage =>
      rw [hstage] at hd
      exact absurd hd (by simp)
  | ended hdone =>
      rw [hdone] at hd
      exact absurd hd (by simp)

/-- The deadline that the session keeps is the one of its history. -/
theorem deadline_after_eq {cfg : SessionConfig} {t0 d : Instant} {calls : List Call}
    (h : DeadlineAfter cfg t0 calls d) : (run (new cfg t0).1 calls).1.deadline = some d := by
  have hfirst : (new cfg t0).1.firstDeadline = t0 + FIRST_RESPONSE_TIMEOUT ∧
      (new cfg t0).1.lastRx = t0 := by
    unfold new
    cases cfg.transport with
    | _ => exact ⟨rfl, rfl⟩
  cases h with
  | firstResponse h =>
      have hopen : (run (new cfg t0).1 calls).1.phase ≠ .done := by
        intro hdone
        simp [hdone, Phase.isHeader] at h
      obtain ⟨-, hclock⟩ := run_clock hopen
      rw [← hfirst.1, ← hclock]
      cases hphase : (run (new cfg t0).1 calls).1.phase with
      | statusLine => rw [deadline, hphase]
      | httpHeaders info => rw [deadline, hphase]
      | _ => simp [hphase, Phase.isHeader] at h
  | silence h =>
      have hopen : (run (new cfg t0).1 calls).1.phase ≠ .done := by
        intro hdone
        simp [hdone, Phase.isStreaming] at h
      obtain ⟨hclock, -⟩ := run_clock hopen
      rw [hfirst.2] at hclock
      rw [← hclock]
      cases hphase : (run (new cfg t0).1 calls).1.phase with
      | streaming st => rw [deadline, hphase]
      | _ => simp [hphase, Phase.isStreaming] at h
  | @table first rest data at_ d' hcalls hbefore hafter htable =>
      have hentered : TableUntil (at_ + TABLE_TIMEOUT)
          (run (new cfg t0).1 (first ++ [.onBytes data at_])).1 := by
        rw [run_snoc] at hafter ⊢
        exact table_entered hbefore hafter
      have huntil := table_until_run hentered (run_pending_tx cfg t0 _) rest
      have hsplit : calls = (first ++ [.onBytes data at_]) ++ rest := by simp [hcalls]
      have hd' : d' = at_ + TABLE_TIMEOUT := by
        refine huntil.2 d' ?_
        rw [hsplit, run_append] at htable
        exact htable
      rw [← hd']
      cases hphase : (run (new cfg t0).1 calls).1.phase with
      | table t =>
          rw [hphase] at htable
          simp only [deadline, hphase]
          simpa [Phase.stage] using htable
      | _ => simp [hphase, Phase.stage] at htable

/-! ## The parts of the cadence -/

/-- A call that asks is a tick and asks once. -/
theorem asks_on_tick {cfg : SessionConfig} {t0 : Instant} {earlier : List Call} {call : Call}
    (hask : AsksAfter cfg t0 earlier call) :
    (∃ now, call = .onTick now) ∧
      (step (run (new cfg t0).1 earlier).1 call).2.count .ggaDue = 1 := by
  have hpending := run_pending_tx cfg t0 earlier
  obtain ⟨now, at_, hcall, -, -, -, hstep⟩ := gga_due_spec hpending hask
  refine ⟨⟨now, hcall⟩, ?_⟩
  have hnone : .ggaDue ∉ (run (new cfg t0).1 earlier).1.pending := by
    intro hmem
    obtain ⟨line, hline⟩ := hpending _ hmem
    simp at hline
  rw [hstep]
  simp only
  rw [List.count_append, List.count_eq_zero.mpr hnone]
  rfl

/-- A session that has asked asks again only after an acknowledgement. -/
theorem acknowledged_between {cfg : SessionConfig} {t0 : Instant} {earlier between : List Call}
    {first second : Call} (hask : AsksAfter cfg t0 earlier first)
    (hask' : AsksAfter cfg t0 (earlier ++ first :: between) second) :
    ∃ call ∈ between, call.isAcknowledgement = true := by
  by_contra hnone
  have hacks : ∀ call ∈ between, call.isAcknowledgement = false := by
    intro call hcall
    by_contra hack
    exact hnone ⟨call, hcall, by simpa using hack⟩
  obtain ⟨now, at_, -, hstreams, -, -, hstep⟩ :=
    gga_due_spec (run_pending_tx cfg t0 earlier) hask
  obtain ⟨now', -, rfl, -⟩ := gga_due_spec (run_pending_tx cfg t0 _) hask'
  -- after the first request the timer is not set, so that every instant is a bound
  have hstart : NotBefore (now' + 1) (run (new cfg t0).1 (earlier ++ [first])).1 := by
    rw [run_snoc, hstep]
    refine ⟨?_, fun _ at_ hat => absurd hat (by simp)⟩
    show (run (new cfg t0).1 earlier).1.phase.stage ≠ .header
    rw [hstreams]
    simp
  have hle := asks_not_before (run_pending_tx cfg t0 []) hstart
    (fun call hcall => acks_after_of_not (hacks call hcall) _) hask'
  exact absurd hle (Nat.not_succ_le_self now')

/-- The call that begins the stream sets the timer. -/
theorem not_before_started {s : NtripSession} {data : Bytes} {at_ : Instant}
    (hheader : s.phase.isHeader = true)
    (hstreaming : (step s (.onBytes data at_)).1.phase.isStreaming = true) :
    NotBefore (at_ + GGA_FIRST_DELAY) (step s (.onBytes data at_)).1 := by
  have hstage := Phase.stage_header.mp hheader
  have hstage' := Phase.stage_streaming.mp hstreaming
  have hreceived : Received at_ s (step s (.onBytes data at_)).1 := on_bytes_received s data at_
  cases hreceived with
  | stays hsame =>
      rw [hsame, hstage] at hstage'
      exact absurd hstage' (by simp)
  | table _ htable =>
      rw [htable] at hstage'
      exact absurd hstage' (by simp)
  | streams _ hs hgga =>
      refine ⟨by rw [hs]; simp, ?_⟩
      intro _ when_ hwhen
      rw [hgga] at hwhen
      rw [Gga.rearm_eq_due hwhen]
  | ended hdone =>
      rw [hdone] at hstage'
      exact absurd hstage' (by simp)

/-- A request that follows the call that begins the stream waits for the first delay. -/
theorem asks_after_start {cfg : SessionConfig} {t0 at_ now : Instant} {first rest : List Call}
    {data : Bytes} (hinstants : NonDecreasing (first ++ .onBytes data at_ :: rest))
    (hheader : (run (new cfg t0).1 first).1.phase.isHeader = true)
    (hstreaming : (run (new cfg t0).1 (first ++ [.onBytes data at_])).1.phase.isStreaming = true)
    (hask : AsksAfter cfg t0 (first ++ .onBytes data at_ :: rest) (.onTick now)) :
    at_ + GGA_FIRST_DELAY ≤ now := by
  have hstart : NotBefore (at_ + GGA_FIRST_DELAY)
      (run (new cfg t0).1 (first ++ [.onBytes data at_])).1 := by
    rw [run_snoc] at hstreaming ⊢
    exact not_before_started hheader hstreaming
  exact asks_not_before (run_pending_tx cfg t0 []) hstart
    (acks_after_of_non_decreasing hinstants) hask

/-- A request waits for the instant that the last acknowledgement sets. -/
theorem asks_after_acknowledgement {cfg : SessionConfig} {t0 b now : Instant}
    {first rest : List Call} {ack : Call}
    (hrearm : ∀ s : NtripSession, (step s ack).1 = { s with gga := s.gga.rearm b })
    (hstreaming : (run (new cfg t0).1 first).1.phase.isStreaming = true)
    (hacks : ∀ call ∈ rest, call.isAcknowledgement = false)
    (hask : AsksAfter cfg t0 (first ++ ack :: rest) (.onTick now)) : b ≤ now := by
  have hstart : NotBefore b (run (new cfg t0).1 (first ++ [ack])).1 := by
    rw [run_snoc, hrearm]
    exact not_before_rearm hstreaming b
  exact asks_not_before (run_pending_tx cfg t0 []) hstart
    (fun call hcall => acks_after_of_not (hacks call hcall) _) hask

/-- A tick at the deadline or later closes the session. -/
theorem closes_when_due {cfg : SessionConfig} {t0 now d : Instant} {earlier : List Call}
    (hdeadline : DeadlineAfter cfg t0 earlier d) (hdue : d ≤ now) :
    (step (run (new cfg t0).1 earlier).1 (.onTick now)).1.phase = .done ∧
      ∃ reason, .close reason ∈ (step (run (new cfg t0).1 earlier).1 (.onTick now)).2 := by
  have hticked := on_tick_ticked (run_pending_tx cfg t0 earlier) now
  have hsome := deadline_after_eq hdeadline
  show (onTick _ now).1.phase = .done ∧ ∃ reason, .close reason ∈ (onTick _ now).2
  generalize onTick _ now = answer at hticked
  cases hticked with
  | closed reason _ _ hdone _ hclose => exact ⟨hdone, reason, hclose⟩
  | asks _ _ _ hearly => exact absurd hdue (Nat.not_le_of_lt (hearly d hsome))
  | quiet hearly => exact absurd hdue (Nat.not_le_of_lt (hearly d hsome))

/-- The session half of the cadence: requests, acknowledgements and deadlines of every run. -/
theorem run_cadence (cfg : SessionConfig) (t0 : Instant) {calls : List Call}
    (hinstants : NonDecreasing calls) : Cadence cfg t0 calls where
  ticks := by
    intro earlier call later _ hask
    exact asks_on_tick hask
  acknowledged := by
    intro earlier first between second later _ hask hask'
    exact acknowledged_between hask hask'
  disabled := by
    intro hcfg
    exact never_asks_run (.inl (new_disabled hcfg t0)) (run_pending_tx cfg t0 []) calls
  afterStart := by
    intro earlier now later hcalls hask first data at_ rest hearlier hheader hstreaming
    subst hearlier
    exact asks_after_start (non_decreasing_left (hcalls ▸ hinstants)) hheader hstreaming hask
  afterSent := by
    intro earlier now later hcalls hask first a rest hearlier hstreaming hacks
    subst hearlier
    have hrearm (s : NtripSession) : (step s (.ggaSent a)).1 =
        { s with gga := s.gga.rearm (a + GGA_INTERVAL) } := gga_sent_eq s a
    exact asks_after_acknowledgement hrearm hstreaming hacks hask
  afterMissed := by
    intro earlier now later hcalls hask first a rest hearlier hstreaming hacks
    subst hearlier
    have hrearm (s : NtripSession) : (step s (.ggaMissed a)).1 =
        { s with gga := s.gga.rearm (a + GGA_RETRY_DELAY) } := gga_missed_eq s a
    exact asks_after_acknowledgement hrearm hstreaming hacks hask
  closes := by
    intro earlier now later _ d hdeadline hdue
    exact closes_when_due hdeadline hdue

end NtripSession
end OpenNtrip
