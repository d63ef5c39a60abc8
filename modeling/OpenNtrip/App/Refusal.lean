import OpenNtrip.App.NtripWorker
import OpenNtrip.NtripCore.GgaCadence

/-!
# Drops and refusals

The worker tells a dropped connection from a refused response by the bytes attached to
`UnknownResponse`. `unknown_response_spec` says which bytes the session attaches, and
`transient_iff_dropped` when the worker's reading of them is right.
-/

namespace OpenNtrip
namespace NtripSession

/-- The bytes of a call. -/
def Call.data : Call → Bytes
  | .onBytes data _ => data
  | _ => []

/-- The bytes received in a run. -/
def receivedBytes (calls : List Call) : Bytes := calls.flatMap Call.data

/-! ## The response header over a run -/

/-- A session that is past its header stays so. -/
theorem step_past_header {s : NtripSession} (h : s.phase.isHeader = false)
    (hpending : PendingTx s) (call : Call) : (step s call).1.phase.isHeader = false := by
  have hstage : s.phase.stage ≠ .header := by
    intro hheader
    rw [Phase.stage_header.mpr hheader] at h
    exact absurd h (by simp)
  rw [← Bool.not_eq_true, Phase.stage_header]
  have hmoves := step_moves hpending call
  generalize step s call = answer at hmoves ⊢
  cases hmoves with
  | stays hsame => exact hsame ▸ hstage
  | table hheader => exact absurd hheader hstage
  | streams hheader => exact absurd hheader hstage
  | ended hdone => simp [hdone]
  | asks _ _ hstreams => simp [hstreams]
  | acknowledges _ hsame => exact hsame ▸ hstage

theorem step_awaits_within_cap {s : NtripSession} {received : Bytes}
    (h : AwaitsWithinCap s received) (hpending : PendingTx s) {call : Call}
    (hheader : (step s call).1.phase.isHeader = true) :
    AwaitsWithinCap (step s call).1 (received ++ call.data) := by
  have hsame : ∀ s' : NtripSession, s'.buf = s.buf → s'.phase = s.phase →
      AwaitsWithinCap s' (received ++ []) := by
    intro s' hbuf hphase
    rw [List.append_nil]
    exact ⟨h.1.congr hbuf hphase, h.2⟩
  cases call with
  | onBytes data now =>
      have hheader' : (s.onBytes data now).1.phase.isHeader = true := hheader
      show AwaitsWithinCap (s.onBytes data now).1 (received ++ data)
      cases hlen : headerLength (received ++ data) with
      | some n =>
          rw [(on_bytes_finished h.1 hlen now).2] at hheader'
          exact absurd hheader' (by simp)
      | none =>
          rcases on_bytes_unfinished h.1 hlen now with ⟨-, hdone, -⟩ | ⟨hawaits, -⟩
          · rw [hdone] at hheader'
            exact absurd hheader' (by simp [Phase.isHeader])
          · exact hawaits
  | onTick now =>
      have hheader' : (s.onTick now).1.phase.isHeader = true := hheader
      show AwaitsWithinCap (s.onTick now).1 (received ++ [])
      have hticked := on_tick_ticked hpending now
      generalize s.onTick now = answer at hheader' hticked
      cases hticked with
      | closed reason _ _ hdone =>
          rw [hdone] at hheader'
          exact absurd hheader' (by simp [Phase.isHeader])
      | asks => exact hsame _ rfl rfl
      | quiet => exact hsame _ rfl rfl
  | ggaSent a =>
      rw [step, gga_sent_eq]
      exact hsame _ rfl rfl
  | ggaMissed a =>
      rw [step, gga_missed_eq]
      exact hsame _ rfl rfl
  | onRemoteClose =>
      have hdone : (step s .onRemoteClose).1.phase = .done := on_remote_close_done s
      rw [hdone] at hheader
      exact absurd hheader (by simp [Phase.isHeader])
  | cancel =>
      have hdone : (step s .cancel).1.phase = .done := cancel_done s
      rw [hdone] at hheader
      exact absurd hheader (by simp [Phase.isHeader])

/-- In a header phase the session has all that it received in its buffer, within the cap. -/
theorem run_awaits_within_cap {s : NtripSession} {received : Bytes}
    (h : s.phase.isHeader = true → AwaitsWithinCap s received) (hpending : PendingTx s)
    {calls : List Call} (hheader : (run s calls).1.phase.isHeader = true) :
    AwaitsWithinCap (run s calls).1 (received ++ receivedBytes calls) := by
  induction calls generalizing s received with
  | nil =>
      rw [receivedBytes, List.flatMap_nil, List.append_nil]
      exact h hheader
  | cons call rest ih =>
      have hstart : s.phase.isHeader = true := by
        by_contra hnot
        have hpast : (run s (call :: rest)).1.phase.isHeader = false :=
          run_invariant (·.phase.isHeader = false)
            (fun _ call _ hpending' hs => step_past_header hs hpending' call) hpending
            (by simpa using hnot)
        rw [hpast] at hheader
        exact absurd hheader (by simp)
      have hnext := ih (step_awaits_within_cap (h hstart) hpending)
        (step_pending_tx hpending call) hheader
      rw [List.append_assoc] at hnext
      exact hnext

theorem new_awaits_within_cap (cfg : SessionConfig) (t0 : Instant)
    (hheader : (new cfg t0).1.phase.isHeader = true) : AwaitsWithinCap (new cfg t0).1 [] := by
  have hntrip : cfg.transport = .ntrip := by
    cases htransport : cfg.transport with
    | ntrip => rfl
    | rawTcp => simp [new, htransport, Phase.isHeader] at hheader
  exact ⟨new_awaits_header hntrip t0, Nat.zero_le _⟩

/-! ## The bytes of a refusal -/

/-- Why a session closes with `UnknownResponse`: the remote closed the connection, the header went
over the cap, or the session rejected a header, which has a complete line. -/
inductive Refused (received : Bytes) (call : Call) (raw : Bytes) : Prop where
  | dropped (hcall : call = .onRemoteClose) (hraw : raw = received)
      (hle : received.length ≤ HDR_CAP)
  | overCap (hcall : call ≠ .onRemoteClose) (hraw : raw = received)
      (hlt : HDR_CAP < received.length)
  | rejected (hcall : call ≠ .onRemoteClose) (hline : LF ∈ raw) (hsub : raw ⊆ received)

theorem emit_close_mem {s : NtripSession} {reason reason' : CloseReason}
    (h : .close reason ∈ (s.emitClose reason').2) : reason = reason' := by
  simp only [emitClose] at h
  split at h
  · simpa using h
  · simpa using h

theorem close_not_mem_rx_lines (reason : CloseReason) (lines : List Text) :
    .close reason ∉ rxLines lines := by
  intro h
  obtain ⟨line, -, hline⟩ := List.mem_map.mp h
  simp at hline

theorem PendingTx.close_not_mem {s : NtripSession} (h : PendingTx s) (reason : CloseReason) :
    .close reason ∉ s.pending := by
  intro hmem
  obtain ⟨line, hline⟩ := h _ hmem
  simp at hline

/-- A complete header has a complete line. -/
theorem header_length_line {bytes : Bytes} {n : Nat} (h : headerLength bytes = some n) :
    LF ∈ bytes.take n := by
  have htake := header_length_take h
  by_contra hnot
  rw [headerLength, parseHeader, split_line_eq_none.mpr hnot] at htake
  simp at htake

/-- A header that is rejected is attached without the bytes behind it. -/
theorem take_answer_refused {s : NtripSession} {now : Instant} {p : ParsedHeader} {answer : Answer}
    {raw : Bytes} (h : p.outcome = .complete answer)
    (hmem : .close (.unknownResponse raw) ∈ (takeAnswer s now p).2.2) :
    raw = (s.buf.advance p.used).hdr.take (s.buf.advance p.used).hdrPos := by
  have hrefuse : ∀ s' : NtripSession, .close (.unknownResponse raw) ∈ rxLines p.lines ++
      (s'.emitClose (.unknownResponse (s.buf.advance p.used).takeHdrConsumed.1)).2 →
        raw = (s.buf.advance p.used).hdr.take (s.buf.advance p.used).hdrPos := by
    intro s' hmem
    rcases List.mem_append.mp hmem with hlines | hclose
    · exact absurd hlines (close_not_mem_rx_lines _ _)
    · exact CloseReason.unknownResponse.inj (emit_close_mem hclose)
  have hlines := close_not_mem_rx_lines (.unknownResponse raw) p.lines
  cases answer with
  | icy =>
      simp only [takeAnswer, h] at hmem
      split at hmem
      · exact absurd hmem hlines
      · exact hrefuse _ hmem
  | sourcetable =>
      simp only [takeAnswer, h] at hmem
      exact absurd hmem hlines
  | unknown =>
      simp only [takeAnswer, h] at hmem
      exact hrefuse _ hmem
  | http info =>
      simp only [takeAnswer, h, classifyHttp] at hmem
      split at hmem
      · rcases List.mem_append.mp hmem with hmem | hmem
        · exact absurd hmem hlines
        · exact absurd (emit_close_mem hmem) (by simp)
      · split at hmem
        · exact hrefuse _ hmem
        · split at hmem
          · simp only [List.append_nil] at hmem
            exact absurd hmem hlines
          · simp only [List.append_nil] at hmem
            exact absurd hmem hlines

/-- Body bytes do not lead to an unknown response. -/
theorem ingest_body_known (s : NtripSession) (data raw : Bytes) :
    .close (.unknownResponse raw) ∉ (s.ingestBody data).2 := by
  intro hmem
  by_cases hdone : s.phase = .done
  · rw [ingest_body_ignored (by rw [hdone]; rfl)] at hmem
    simp at hmem
  · -- seen as a call that does not find a header
    have hturn : Turn ⟨false, s.phase.isStreaming, false, false, false, s.mountpointRequested⟩
        (s.ingestBody data) := ingest_body_turn hdone rfl rfl data
    exact absurd (hturn.close_allowed hmem) (by simp [CloseReason.allowed])

/-- A header that completes in a block is attached up to its end if it is rejected. -/
theorem finished_refused {s : NtripSession} {received : Bytes} (h : AwaitsHeader s received)
    {data : Bytes} {n : Nat} (hlen : headerLength (received ++ data) = some n) {now : Instant}
    {raw : Bytes} (hmem : .close (.unknownResponse raw) ∈ (absorb now s data).2) :
    raw = (received ++ data).take n := by
  have hparse := h.parse_append data
  have hused := parse_from_used_le s.phase (s.buf.unparsed ++ data)
  obtain ⟨⟨answer, hanswer⟩, hn⟩ := header_length_eq_some.mp hlen
  rw [h.absorb_eq] at hmem
  generalize parseFrom s.phase (s.buf.unparsed ++ data) = p at hparse hused hmem
  rw [hparse] at hanswer hn
  have hpos : ((s.buffering data now).buf.advance p.used).hdrPos = n := by
    rw [← hn]
    exact HdrBuf.hdr_pos_advance (by
      show p.used ≤ (s.buf.extend data).unparsed.length
      rw [HdrBuf.unparsed_extend]
      exact hused)
  have hhdr : ((s.buffering data now).buf.advance p.used).hdr = received ++ data := by
    show s.buf.hdr ++ data = _
    rw [h.buffered]
  have hrefused : .close (.unknownResponse raw) ∈ (takeAnswer (s.buffering data now) now p).2.2 →
      raw = (received ++ data).take n := by
    intro hmem
    rw [← hhdr, ← hpos]
    exact take_answer_refused hanswer hmem
  generalize takeAnswer (s.buffering data now) now p = outcome at hmem hrefused
  obtain ⟨s', leftover, out⟩ := outcome
  cases leftover with
  | none => exact hrefused hmem
  | some leftover =>
      rcases List.mem_append.mp hmem with hmem | hmem
      · exact hrefused hmem
      · exact absurd hmem (ingest_body_known s' leftover raw)

/-- A received block that leads to an unknown response broke the cap, or its header is refused. -/
theorem on_bytes_refused {s : NtripSession} {received data raw : Bytes} {now : Instant}
    (hawaits : AwaitsHeader s received) (hnot : .close (.unknownResponse raw) ∉ s.pending)
    (hclose : .close (.unknownResponse raw) ∈ (s.onBytes data now).2) :
    Refused (received ++ data) (.onBytes data now) raw := by
  cases hlen : headerLength (received ++ data) with
  | none =>
      rcases on_bytes_unfinished hawaits hlen now with ⟨hlt, -, lines, hout⟩ | ⟨-, lines, hout⟩
      · rw [hout] at hclose
        rcases List.mem_append.mp hclose with hfront | hlast
        · rcases List.mem_append.mp hfront with hfront | hfront
          · exact absurd hfront hnot
          · exact absurd hfront (close_not_mem_rx_lines _ _)
        · have hraw : raw = received ++ data := by simpa using hlast
          exact .overCap (by simp) hraw hlt
      · rw [hout] at hclose
        rcases List.mem_append.mp hclose with hfront | hfront
        · exact absurd hfront hnot
        · exact absurd hfront (close_not_mem_rx_lines _ _)
  | some n =>
      rw [(on_bytes_finished hawaits hlen now).1] at hclose
      have habsorbed := (List.mem_append.mp hclose).resolve_left hnot
      have hflush : AwaitsHeader s.flushPending.1 received := hawaits.congr rfl rfl
      have hraw := finished_refused hflush hlen habsorbed
      subst hraw
      exact .rejected (by simp) (header_length_line hlen) (List.take_subset n _)

/-- The bytes attached to an unknown response, by what led to it. -/
theorem unknown_response_spec {s : NtripSession} {received : Bytes}
    (h : s.phase.isHeader = true → AwaitsWithinCap s received) (hpending : PendingTx s)
    {call : Call} {raw : Bytes} (hclose : .close (.unknownResponse raw) ∈ (step s call).2) :
    Refused (received ++ call.data) call raw := by
  obtain ⟨hopen, -, before, tail, -, hmem, -, hending⟩ := step_ending hpending hclose rfl
  have hheader : s.phase.isHeader = true := hending.close_allowed hmem
  obtain ⟨hawaits, hle⟩ := h hheader
  have hnot := hpending.close_not_mem (.unknownResponse raw)
  have hemitted : ∀ (s' : NtripSession) (reason : CloseReason),
      .close (.unknownResponse raw) ∈ s.pending ++ (s'.emitClose reason).2 →
        .unknownResponse raw = reason := by
    intro s' reason hclose
    exact emit_close_mem ((List.mem_append.mp hclose).resolve_left hnot)
  cases call with
  | ggaSent a => simp [step] at hclose
  | ggaMissed a => simp [step] at hclose
  | cancel =>
      simp only [step, cancel, flushPending, hopen, ne_eq, not_false_eq_true, if_true] at hclose
      exact absurd (hemitted _ _ hclose) (by simp)
  | onTick now =>
      have htick : .close (.unknownResponse raw) ∈
          (if s.firstDeadline ≤ now then
            ((emitClose { s with pending := [] } .firstResponseTimeout).1,
              s.pending ++ (emitClose { s with pending := [] } .firstResponseTimeout).2)
          else ({ s with pending := [] }, s.pending)).2 := by
        cases hphase : s.phase with
        | statusLine => simpa only [step, onTick, flushPending, hphase] using hclose
        | httpHeaders info => simpa only [step, onTick, flushPending, hphase] using hclose
        | _ => simp [hphase, Phase.isHeader] at hheader
      split at htick
      · exact absurd (hemitted _ _ htick) (by simp)
      · exact absurd htick hnot
  | onRemoteClose =>
      have hremote : .close (.unknownResponse raw) ∈
          s.pending ++ (emitClose { s with pending := [], buf := s.buf.takeHdrAll.2 }
            (.unknownResponse s.buf.takeHdrAll.1)).2 := by
        cases hphase : s.phase with
        | statusLine => simpa only [step, onRemoteClose, flushPending, hphase] using hclose
        | httpHeaders info => simpa only [step, onRemoteClose, flushPending, hphase] using hclose
        | _ => simp [hphase, Phase.isHeader] at hheader
      have hraw := CloseReason.unknownResponse.inj (hemitted _ _ hremote)
      show Refused (received ++ []) _ raw
      rw [List.append_nil]
      exact .dropped rfl (hraw.trans hawaits.buffered) hle
  | onBytes data now =>
      show Refused (received ++ data) _ raw
      exact on_bytes_refused hawaits hnot hclose

end NtripSession

open NtripSession

/-- The worker and the session agree on a close: it counts as transient exactly when the remote
dropped the connection before a complete line, and what the session refused itself is not retried.
-/
def AgreesOnDrop (received : Bytes) (call : Call) (raw : Bytes) : Prop :=
  (transient (.unknownResponse raw) = true ↔ call = .onRemoteClose ∧ LF ∉ received) ∧
    (call ≠ .onRemoteClose → ∀ autoReconnect attemptsDone maxAttempts,
      shouldReconnect (.unknownResponse raw) autoReconnect attemptsDone maxAttempts = false)

theorem transient_unknown (raw : Bytes) :
    transient (.unknownResponse raw) = true ↔ LF ∉ raw := by
  simp [transient]

/-- The worker reads the bytes right exactly when they were not refused by the cap for want of a
line. -/
theorem NtripSession.Refused.agrees_iff {received raw : Bytes} {call : Call}
    (h : Refused received call raw) :
    AgreesOnDrop received call raw ↔ LF ∈ received ∨ received.length ≤ HDR_CAP := by
  have hretried : LF ∈ raw → ∀ autoReconnect attemptsDone maxAttempts,
      shouldReconnect (.unknownResponse raw) autoReconnect attemptsDone maxAttempts = false := by
    intro hline autoReconnect attemptsDone maxAttempts
    have hnot : transient (.unknownResponse raw) = false := by
      rw [← Bool.not_eq_true, transient_unknown]
      exact not_not.mpr hline
    rw [shouldReconnect, hnot, Bool.false_and, Bool.false_and]
  cases h with
  | dropped hcall hraw hle =>
      subst hraw
      refine iff_of_true ⟨?_, fun hne => absurd hcall hne⟩ (.inr hle)
      rw [transient_unknown]
      exact (and_iff_right hcall).symm
  | overCap hcall hraw hlt =>
      subst hraw
      constructor
      · rintro ⟨htransient, -⟩
        by_contra hnot
        have hdropped := htransient.mp ((transient_unknown raw).mpr fun hline => hnot (.inl hline))
        exact hcall hdropped.1
      · intro hcase
        have hline : LF ∈ raw := hcase.resolve_right (Nat.not_le_of_lt hlt)
        refine ⟨?_, fun _ => hretried hline⟩
        rw [transient_unknown]
        exact iff_of_false (not_not.mpr hline) fun hdropped => hcall hdropped.1
  | rejected hcall hline hsub =>
      refine iff_of_true ⟨?_, fun _ => hretried hline⟩ (.inl (hsub hline))
      rw [transient_unknown]
      exact iff_of_false (not_not.mpr hline) fun hdropped => hcall hdropped.1

/-- For every run that closes with an unknown response, the worker and the session agree exactly
when a complete line was received or the bytes received are within the cap. -/
theorem transient_iff_dropped {cfg : SessionConfig} {t0 : Instant} {earlier : List Call}
    {call : Call} {raw : Bytes}
    (hclose : .close (.unknownResponse raw) ∈ (step (run (new cfg t0).1 earlier).1 call).2) :
    AgreesOnDrop (receivedBytes (earlier ++ [call])) call raw ↔
      LF ∈ receivedBytes (earlier ++ [call]) ∨
        (receivedBytes (earlier ++ [call])).length ≤ HDR_CAP := by
  have hnew : PendingTx (new cfg t0).1 := run_pending_tx cfg t0 []
  have hawaits : (run (new cfg t0).1 earlier).1.phase.isHeader = true →
      AwaitsWithinCap (run (new cfg t0).1 earlier).1 ([] ++ receivedBytes earlier) :=
    run_awaits_within_cap (new_awaits_within_cap cfg t0) hnew
  have hrefused := unknown_response_spec hawaits (run_pending_tx cfg t0 earlier) hclose
  have hreceived : [] ++ receivedBytes earlier ++ call.data =
      receivedBytes (earlier ++ [call]) := by
    simp [receivedBytes]
  rw [hreceived] at hrefused
  exact hrefused.agrees_iff

/-- A caster that drops the connection in its status line. -/
theorem transient_iff_dropped_partial_line :
    AgreesOnDrop (receivedBytes ([.onBytes (ascii "ICY 2") 0] ++ [.onRemoteClose])) .onRemoteClose
        (ascii "ICY 2") ↔
      LF ∈ receivedBytes ([.onBytes (ascii "ICY 2") 0] ++ [.onRemoteClose]) ∨
        (receivedBytes ([.onBytes (ascii "ICY 2") 0] ++ [.onRemoteClose])).length ≤ HDR_CAP :=
  @transient_iff_dropped exampleConfig 0 _ _ _ (by decide +kernel)

/-- A flood of 16 KiB and one byte without a line is refused by the session, and retried by the
worker. -/
theorem flood_not_agreed :
    ¬ ∀ (cfg : SessionConfig) (t0 : Instant) (earlier : List Call) (call : Call) (raw : Bytes),
      .close (.unknownResponse raw) ∈ (step (run (new cfg t0).1 earlier).1 call).2 →
        AgreesOnDrop (receivedBytes (earlier ++ [call])) call raw := by
  intro h
  have hlines : LF ∉ List.replicate (HDR_CAP + 1) (120 : UInt8) := by
    intro hmem
    exact absurd (List.eq_of_mem_replicate hmem) (by decide)
  have hlen : headerLength ([] ++ List.replicate (HDR_CAP + 1) (120 : UInt8)) = none := by
    rw [List.nil_append, headerLength, parseHeader, split_line_eq_none.mpr hlines]
  have hnew : AwaitsHeader (new exampleConfig 0).1 [] := new_awaits_header rfl 0
  have hflood : .close (.unknownResponse (List.replicate (HDR_CAP + 1) 120)) ∈
      (step (run (new exampleConfig 0).1 []).1
        (.onBytes (List.replicate (HDR_CAP + 1) 120) 0)).2 := by
    rcases on_bytes_unfinished hnew hlen 0 with ⟨-, -, lines, hout⟩ | ⟨⟨-, hle⟩, -⟩
    · show _ ∈ (onBytes _ _ 0).2
      rw [run_nil, hout]
      simp
    · rw [List.nil_append, List.length_replicate] at hle
      omega
  obtain ⟨hagrees, -⟩ := h _ _ _ _ _ hflood
  have hdropped := hagrees.mp ((transient_unknown _).mpr hlines)
  exact absurd hdropped.1 (by simp)

end OpenNtrip
