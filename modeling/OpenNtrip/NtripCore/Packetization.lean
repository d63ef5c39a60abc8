import OpenNtrip.NtripCore.HeaderCap

/-!
# Packetization invariance of the session

A caster's stream reaches the session in whatever pieces TCP delivers. `Packetizes stream calls`
says that `calls` deliver the bytes of each instant of `stream` in one or more `onBytes` calls,
with the other calls at their places. `packetization_invariant` is the module's result: two
packetizations of one stream get the same outputs, up to joining adjacent corrections, and
leave sessions that no continuation can tell apart.
-/

namespace OpenNtrip
namespace NtripSession

/-! ## Packetizations -/

def Call.isBytes : Call → Bool
  | .onBytes _ _ => true
  | _ => false

/-- The blocks delivered by one call each, at one instant. -/
def deliver (now : Instant) (blocks : List Bytes) : List Call :=
  blocks.map fun block => .onBytes block now

/-- The calls deliver the stream, cutting the bytes that share an instant into one or more
blocks. -/
inductive Packetizes : List Call → List Call → Prop where
  | nil : Packetizes [] []
  | bytes {stream calls : List Call} (data : Bytes) (now : Instant) (blocks : List Bytes)
      (hne : blocks ≠ []) (hflat : blocks.flatten = data) (rest : Packetizes stream calls) :
      Packetizes (.onBytes data now :: stream) (deliver now blocks ++ calls)
  | control {stream calls : List Call} (call : Call) (hcall : call.isBytes = false)
      (rest : Packetizes stream calls) : Packetizes (call :: stream) (call :: calls)

/-- The bytes received before a remote close, a cancellation or a tick at the first-response
deadline cuts the response header off. -/
def bytesBeforeCutOff (deadline : Instant) : List Call → Bytes
  | [] => []
  | .onBytes data _ :: rest => data ++ bytesBeforeCutOff deadline rest
  | .onTick now :: rest => if deadline ≤ now then [] else bytesBeforeCutOff deadline rest
  | .ggaSent _ :: rest => bytesBeforeCutOff deadline rest
  | .ggaMissed _ :: rest => bytesBeforeCutOff deadline rest
  | .onRemoteClose :: _ => []
  | .cancel :: _ => []

/-- The header completes within the first `HDR_CAP` bytes or is cut off before more are received. -/
def HeaderFits (received : Bytes) : Prop :=
  (headerLength (received.take HDR_CAP)).isSome = true ∨ received.length ≤ HDR_CAP

/-- A header that fits never fills more than the cap while it is unfinished. -/
theorem HeaderFits.unfinished_le {received more : Bytes} (h : HeaderFits (received ++ more))
    (hnone : headerLength received = none) : received.length ≤ HDR_CAP := by
  rcases h with hcomplete | hshort
  · by_contra hlong
    obtain ⟨n, hn⟩ := Option.isSome_iff_exists.mp hcomplete
    rw [List.take_append_of_le_length (by omega)] at hn
    have hprefix := header_length_append hn (received.drop HDR_CAP)
    rw [List.take_append_drop, hnone] at hprefix
    simp at hprefix
  · rw [List.length_append] at hshort
    omega

/-! ## One call on sessions that cannot be told apart -/

/-- Sessions that cannot be told apart answer every call alike and stay so. -/
theorem step_congr {s s' : NtripSession} (h : Indistinguishable s s') (call : Call) :
    (step s call).2 = (step s' call).2 ∧ Indistinguishable (step s call).1 (step s' call).1 := by
  rcases h.cases with rfl | ⟨hdone, hbuf⟩
  · exact ⟨rfl, rfl⟩
  · rw [hbuf]
    cases call with
    | onBytes data now => simp [step, onBytes, flushPending, hdone, Indistinguishable, visible]
    | onTick now => simp [step, onTick, flushPending, hdone, Indistinguishable, visible]
    | ggaSent now =>
        simp only [step, ggaSent, true_and]
        split
        · exact indistinguishable_of_done hdone _
        · exact indistinguishable_of_done (s := { s with gga := .due (now + GGA_INTERVAL) }) hdone _
    | ggaMissed now =>
        simp only [step, ggaMissed, true_and]
        split
        · exact indistinguishable_of_done hdone _
        · exact indistinguishable_of_done (s := { s with gga := .due (now + GGA_RETRY_DELAY) })
            hdone _
    | onRemoteClose =>
        simp [step, onRemoteClose, flushPending, hdone, Indistinguishable, visible]
    | cancel => simp [step, cancel, flushPending, hdone, Indistinguishable, visible]

/-- Every continuation finds sessions that cannot be told apart answering alike. -/
theorem run_congr {s s' : NtripSession} (h : Indistinguishable s s') (calls : List Call) :
    (run s calls).2 = (run s' calls).2 ∧ Indistinguishable (run s calls).1 (run s' calls).1 := by
  induction calls generalizing s s' with
  | nil => exact ⟨rfl, h⟩
  | cons call rest ih =>
      obtain ⟨hout, hstate⟩ := step_congr h call
      obtain ⟨hlater, hlast⟩ := ih hstate
      refine ⟨?_, hlast⟩
      show (step s call).2 ++ _ = (step s' call).2 ++ _
      rw [hout]
      exact congrArg _ hlater

/-! ## One instant -/

/-- While the header is unfinished it fits, whatever of `more` is still to come. -/
def Guarded (s : NtripSession) (more : Bytes) : Prop :=
  s.phase.isHeader = true → ∃ received, AwaitsHeader s received ∧ HeaderFits (received ++ more)

theorem guarded_of_not_header {s : NtripSession} (h : s.phase.isHeader = false) (more : Bytes) :
    Guarded s more := by
  intro hheader
  rw [h] at hheader
  exact absurd hheader Bool.false_ne_true

theorem Guarded.congr {s s' : NtripSession} {more : Bytes} (h : Guarded s more)
    (hsame : Indistinguishable s s') : Guarded s' more := by
  rcases hsame.cases with rfl | ⟨hdone, hbuf⟩
  · exact h
  · exact guarded_of_not_header (by rw [hbuf]; simp [hdone, Phase.isHeader]) more

/-- The guard is about the header buffer and the phase only. -/
theorem Guarded.frame {s s' : NtripSession} {more : Bytes} (h : Guarded s more)
    (hbuf : s'.buf = s.buf) (hphase : s'.phase = s.phase) : Guarded s' more := by
  intro hheader
  rw [hphase] at hheader
  obtain ⟨received, hawaits, hfits⟩ := h hheader
  exact ⟨received, hawaits.congr hbuf hphase, hfits⟩

/-- Absorbing bytes leaves the request lines and the first deadline alone. -/
theorem absorb_frame (now : Instant) (s : NtripSession) (data : Bytes) :
    (absorb now s data).1.pending = s.pending ∧
      (absorb now s data).1.firstDeadline = s.firstDeadline := by
  obtain ⟨phase, buf, lastRx, closed, gga, hspec, -⟩ := absorb_spec now s data
  rw [hspec]
  exact ⟨rfl, rfl⟩

/-- A guarded session takes a block without tripping the cap, and stays guarded. -/
theorem on_bytes_guarded {s : NtripSession} (hpending : s.pending = []) {data more : Bytes}
    (hguard : Guarded s (data ++ more)) (now : Instant) :
    s.onBytes data now = absorb now s data ∧ Guarded (absorb now s data).1 more := by
  have hflush : s.flushPending.1 = s := by
    rw [flushPending, ← hpending]
  have heq := on_bytes_eq s data now
  rw [hflush, hpending, List.nil_append] at heq
  cases hheader : s.phase.isHeader with
  | false =>
      have hnot := absorb_not_header now hheader data
      rw [heq, cap_close_of_not (over_cap_of_not_header hnot)]
      exact ⟨rfl, guarded_of_not_header hnot more⟩
  | true =>
      obtain ⟨received, hawaits, hfits⟩ := hguard hheader
      rw [← List.append_assoc] at hfits
      cases hlen : headerLength (received ++ data) with
      | some n =>
          have hnot := hawaits.absorb_finished hlen now
          rw [heq, cap_close_of_not (over_cap_of_not_header hnot)]
          exact ⟨rfl, guarded_of_not_header hnot more⟩
      | none =>
          obtain ⟨phase, buf, lines, -, -, hnext⟩ := hawaits.absorb_unfinished hlen now
          have hcap : (absorb now s data).1.overCap = false := by
            rw [overCap, hnext.isHeader, hnext.buffered, Bool.true_and, decide_eq_false_iff_not,
              Nat.not_lt]
            exact hfits.unfinished_le hlen
          rw [heq, cap_close_of_not hcap]
          exact ⟨rfl, fun _ => ⟨_, hnext, hfits⟩⟩

/-- Guarded sessions take the blocks of one instant as `absorb` does. -/
theorem run_deliver {s : NtripSession} (hpending : s.pending = []) (now : Instant)
    {blocks : List Bytes} {more : Bytes} (hguard : Guarded s (blocks.flatten ++ more)) :
    run s (deliver now blocks) = Transducer.run (absorb now) s blocks ∧
      Guarded (Transducer.run (absorb now) s blocks).1 more ∧
      (Transducer.run (absorb now) s blocks).1.firstDeadline = s.firstDeadline := by
  induction blocks generalizing s with
  | nil => exact ⟨rfl, hguard, rfl⟩
  | cons data rest ih =>
      rw [List.flatten_cons, List.append_assoc] at hguard
      obtain ⟨heq, hnext⟩ := on_bytes_guarded hpending hguard now
      obtain ⟨hpending', hdeadline'⟩ := absorb_frame now s data
      obtain ⟨hrest, hguard', hdeadline⟩ := ih (hpending'.trans hpending) hnext
      refine ⟨?_, hguard', hdeadline.trans hdeadline'⟩
      have hstep : step s (.onBytes data now) = absorb now s data := heq
      show run s (.onBytes data now :: deliver now rest) = _
      rw [run_cons, Transducer.run_cons, hstep, hrest]

/-- A call that flushes the request lines flushes them in front of what it does without them. -/
theorem run_deliver_flush {s : NtripSession} (now : Instant) {blocks : List Bytes}
    (hne : blocks ≠ []) :
    run s (deliver now blocks) =
      ((run s.flushPending.1 (deliver now blocks)).1,
        s.pending ++ (run s.flushPending.1 (deliver now blocks)).2) := by
  cases blocks with
  | nil => exact absurd rfl hne
  | cons data rest =>
      have hflush : step s (.onBytes data now) =
          ((step s.flushPending.1 (.onBytes data now)).1,
            s.pending ++ (step s.flushPending.1 (.onBytes data now)).2) :=
        on_bytes_flush s data now
      show run s (.onBytes data now :: deliver now rest) =
        ((run s.flushPending.1 (.onBytes data now :: deliver now rest)).1,
          s.pending ++ (run s.flushPending.1 (.onBytes data now :: deliver now rest)).2)
      rw [run_cons, run_cons, hflush]
      simp only [List.append_assoc]

/-! ## Whole streams -/

/-- A tick leaves the phase or ends the session; in a header phase it ends it at the deadline. -/
theorem on_tick_spec (s : NtripSession) (now : Instant) :
    ∃ phase closed gga, (s.onTick now).1 = { s with pending := [], phase, closed, gga } ∧
      (phase = .done ∨ phase = s.phase ∧ (s.phase.isHeader = true → now < s.firstDeadline)) := by
  unfold onTick flushPending
  simp only
  cases hphase : s.phase with
  | done => exact ⟨.done, s.closed, s.gga, rfl, .inl rfl⟩
  | statusLine =>
      simp only
      split
      · exact ⟨_, _, _, rfl, .inl rfl⟩
      · next hlt =>
          exact ⟨_, _, _, rfl, .inr ⟨rfl, fun _ => Nat.lt_of_not_le hlt⟩⟩
  | httpHeaders info =>
      simp only
      split
      · exact ⟨_, _, _, rfl, .inl rfl⟩
      · next hlt =>
          exact ⟨_, _, _, rfl, .inr ⟨rfl, fun _ => Nat.lt_of_not_le hlt⟩⟩
  | table t =>
      simp only
      split
      · exact ⟨_, _, _, rfl, .inl rfl⟩
      · exact ⟨_, _, _, rfl, .inr ⟨rfl, by simp [Phase.isHeader]⟩⟩
  | streaming st =>
      simp only
      split
      · exact ⟨_, _, _, rfl, .inl rfl⟩
      · split
        · split
          · exact ⟨_, _, _, rfl, .inr ⟨rfl, by simp [Phase.isHeader]⟩⟩
          · exact ⟨_, _, _, rfl, .inr ⟨rfl, by simp [Phase.isHeader]⟩⟩
        · exact ⟨_, _, _, rfl, .inr ⟨rfl, by simp [Phase.isHeader]⟩⟩

/-- A remote close ends the session, and leaves its configuration and its timer alone. -/
theorem on_remote_close_state (s : NtripSession) :
    ∃ buf closed, s.onRemoteClose.1 = { s with buf, closed, pending := [], phase := .done } := by
  obtain ⟨mountpointRequested, phase, _, _, _, _, _, _⟩ := s
  cases phase with
  | table t =>
      cases mountpointRequested with
      | true => exact ⟨_, _, rfl⟩
      | false => exact ⟨_, _, rfl⟩
  | _ => exact ⟨_, _, rfl⟩

theorem on_remote_close_done (s : NtripSession) : s.onRemoteClose.1.phase = .done := by
  obtain ⟨buf, closed, hstate⟩ := on_remote_close_state s
  rw [hstate]

/-- After a cancellation the session is done. -/
theorem cancel_done (s : NtripSession) : s.cancel.1.phase = .done := by
  unfold cancel flushPending
  simp only
  split
  · rfl
  · next hdone => exact not_not.mp hdone

/-- A control call keeps a guarded session guarded. -/
theorem step_guarded {s : NtripSession} {call : Call} {stream : List Call}
    (hcall : call.isBytes = false)
    (h : Guarded s (bytesBeforeCutOff s.firstDeadline (call :: stream))) :
    Guarded (step s call).1 (bytesBeforeCutOff (step s call).1.firstDeadline stream) := by
  cases call with
  | onBytes data now => exact absurd hcall (by simp [Call.isBytes])
  | onTick now =>
      obtain ⟨phase, closed, gga, hspec, hphase⟩ := on_tick_spec s now
      show Guarded (s.onTick now).1 (bytesBeforeCutOff (s.onTick now).1.firstDeadline stream)
      rw [hspec]
      rcases hphase with rfl | ⟨rfl, hdeadline⟩
      · exact guarded_of_not_header rfl _
      · intro hheader
        have hlt := hdeadline hheader
        rw [bytesBeforeCutOff, if_neg (Nat.not_le_of_gt hlt)] at h
        exact Guarded.frame (s := s) h rfl rfl hheader
  | ggaSent now =>
      simp only [step, ggaSent]
      split
      · exact h
      · exact h.frame rfl rfl
  | ggaMissed now =>
      simp only [step, ggaMissed]
      split
      · exact h
      · exact h.frame rfl rfl
  | onRemoteClose =>
      exact guarded_of_not_header (by rw [step, on_remote_close_done]; rfl) _
  | cancel => exact guarded_of_not_header (by rw [step, cancel_done]; rfl) _

/-- Two packetizations of one stream, from sessions that cannot be told apart. -/
theorem packetizes_agree {stream calls calls' : List Call} (hcalls : Packetizes stream calls)
    (hcalls' : Packetizes stream calls') {s s' : NtripSession} (hsame : Indistinguishable s s')
    (hguard : Guarded s (bytesBeforeCutOff s.firstDeadline stream)) :
    SameOutputs (run s calls).2 (run s' calls').2 ∧
      Indistinguishable (run s calls).1 (run s' calls').1 := by
  induction hcalls generalizing calls' s s' with
  | nil =>
      cases hcalls'
      exact ⟨rfl, hsame⟩
  | control call hcall rest ih =>
      cases hcalls' with
      | bytes => exact absurd hcall (by simp [Call.isBytes])
      | control _ _ rest' =>
          obtain ⟨hout, hstate⟩ := step_congr hsame call
          obtain ⟨hlater, hlast⟩ := ih rest' hstate (step_guarded hcall hguard)
          rw [run_cons, run_cons, hout]
          exact ⟨SameOutputs.append rfl hlater, hlast⟩
  | bytes data now blocks hne hflat rest ih =>
      cases hcalls' with
      | control _ hcall => exact absurd hcall (by simp [Call.isBytes])
      | bytes _ _ blocks' hne' hflat' rest' =>
          have hsame₀ : Indistinguishable s.flushPending.1 s'.flushPending.1 ∧
              s.pending = s'.pending := by
            rcases hsame.cases with rfl | ⟨hdone, hbuf⟩
            · exact ⟨rfl, rfl⟩
            · rw [hbuf]
              exact ⟨indistinguishable_of_done (s := s.flushPending.1) hdone _, rfl⟩
          obtain ⟨hsame₀, hpending⟩ := hsame₀
          have hguard₀ : Guarded s.flushPending.1
              (blocks.flatten ++ bytesBeforeCutOff s.firstDeadline _) :=
            (hflat ▸ hguard : Guarded s _).frame rfl rfl
          obtain ⟨hrun, hguard₁, hdeadline⟩ := run_deliver rfl now hguard₀
          have hguard₀' := hguard₀.congr hsame₀
          rw [hflat, ← hflat'] at hguard₀'
          obtain ⟨hrun', -, -⟩ := run_deliver rfl now hguard₀'
          -- the two cuts of this instant, absorbed from the same session and then from either
          have hsplit := absorb_split_invariant now
          obtain ⟨hstate, hout⟩ := hsplit.run_eq_of_flatten_eq s.flushPending.1 hne hne'
            (hflat.trans hflat'.symm)
          obtain ⟨hstate', hout'⟩ := hsplit.run_congr hsame₀ blocks'
          have hnext := hguard₁
          rw [← show _ = s.firstDeadline from hdeadline] at hnext
          obtain ⟨hlater, hlast⟩ := ih rest' (hstate.trans hstate') hnext
          rw [run_append, run_append, run_deliver_flush now hne, run_deliver_flush now hne', hrun,
            hrun', hpending]
          exact ⟨((SameOutputs.append rfl (hout.trans hout')).append hlater), hlast⟩

/-- Packetization invariance: when the response header fits, two ways of cutting a stream give the
same outputs, up to joining adjacent corrections, and sessions that answer every continuation
alike. -/
theorem packetization_invariant (cfg : SessionConfig) (t0 : Instant)
    {stream calls calls' : List Call} (hcalls : Packetizes stream calls)
    (hcalls' : Packetizes stream calls')
    (hfits : cfg.transport = .ntrip →
      HeaderFits (bytesBeforeCutOff (t0 + FIRST_RESPONSE_TIMEOUT) stream)) :
    SameOutputs (run (new cfg t0).1 calls).2 (run (new cfg t0).1 calls').2 ∧
      ∀ continuation,
        (run (run (new cfg t0).1 calls).1 continuation).2 =
          (run (run (new cfg t0).1 calls').1 continuation).2 := by
  have hguard : Guarded (new cfg t0).1 (bytesBeforeCutOff (new cfg t0).1.firstDeadline stream) := by
    cases htransport : cfg.transport with
    | rawTcp => exact guarded_of_not_header (by simp [new, htransport, Phase.isHeader]) _
    | ntrip =>
        have hdeadline : (new cfg t0).1.firstDeadline = t0 + FIRST_RESPONSE_TIMEOUT := by
          simp [new, htransport]
        rw [hdeadline]
        exact fun _ => ⟨[], new_awaits_header htransport t0, hfits htransport⟩
  obtain ⟨hout, hlast⟩ := packetizes_agree hcalls hcalls' rfl hguard
  exact ⟨hout, fun continuation => (run_congr hlast continuation).1⟩

/-- Corrections in the segment of their status line, against the same bytes in three segments. -/
theorem packetization_invariant_coalesced :
    let whole : List Call := [.onBytes (ascii "ICY 200 OK\r\n" ++ [0xD3, 0x00]) 5, .onTick 6]
    let pieces : List Call :=
      [.onBytes (ascii "ICY 200") 5, .onBytes (ascii " OK\r") 5, .onBytes [10, 0xD3, 0x00] 5,
        .onTick 6]
    SameOutputs (run (new exampleConfig 0).1 whole).2 (run (new exampleConfig 0).1 pieces).2 ∧
      ∀ continuation,
        (run (run (new exampleConfig 0).1 whole).1 continuation).2 =
          (run (run (new exampleConfig 0).1 pieces).1 continuation).2 := by
  have htail : Packetizes [.onTick 6] [.onTick 6] := .control (.onTick 6) rfl .nil
  have hwhole : Packetizes _ _ :=
    .bytes (ascii "ICY 200 OK\r\n" ++ [0xD3, 0x00]) 5 [ascii "ICY 200 OK\r\n" ++ [0xD3, 0x00]]
      (by simp) rfl htail
  have hpieces : Packetizes _ _ :=
    .bytes (ascii "ICY 200 OK\r\n" ++ [0xD3, 0x00]) 5
      [ascii "ICY 200", ascii " OK\r", [10, 0xD3, 0x00]] (by simp) rfl htail
  exact packetization_invariant exampleConfig 0 hwhole hpieces fun _ => .inr (by decide)

end NtripSession
end OpenNtrip
