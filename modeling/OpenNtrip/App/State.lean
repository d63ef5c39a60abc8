import Mathlib.Logic.Function.Basic
import OpenNtrip.App.NtripWorker

/-!
# The numbers the interface shows

`AppState::apply` for the events of the NTRIP worker that move its numbers. The frames of a batch
are added to those of their type, and the totals of a batch replace the ones shown.
-/

namespace OpenNtrip

/-- The events of the bus that the worker posts about a stream. -/
inductive AppEvent where
  | ntrip (status : NtripStatus)
  | rxBytes (total : Nat)
  | rtcm (batch : RtcmBatch)
  | overruns (total : Nat)
  deriving DecidableEq, Repr

/-- The event a post is, if it goes to the bus. -/
def Post.event : Post → Option AppEvent
  | .status now => some (.ntrip now)
  | .rxBytes total => some (.rxBytes total)
  | .rtcm batch => some (.rtcm batch)
  | .overruns total => some (.overruns total)
  | .gga _ | .push _ => none

/-- What is shown for one message type. -/
structure RtcmTypeStat where
  count : Nat
  lastFrameLen : Nat
  lastSeen : Instant
  deriving DecidableEq, Repr

/-- `NtripUi`, with the overruns of `SerialUi`. The map of the message types is the function that
looks them up. No status is shown where no worker runs. -/
structure NtripUi where
  status : Option NtripStatus
  statusSince : Instant
  totalBytes : Nat
  lastRx : Option Instant
  rtcm : UInt16 → Option RtcmTypeStat
  rtcmCrcFailures : Nat
  rtcmGarbageBytes : Nat
  overruns : Nat

namespace NtripUi

/-- `reset_stream_stats`, which every run of the worker begins with. -/
def resetStreamStats (ui : NtripUi) : NtripUi :=
  { ui with
    totalBytes := 0
    lastRx := none
    rtcm := fun _ => none
    rtcmCrcFailures := 0
    rtcmGarbageBytes := 0 }

/-- One entry of a batch. -/
def countFrames (ui : NtripUi) (entry : UInt16 × Nat × Nat) (now : Instant) : NtripUi :=
  let (ty, n, lastLen) := entry
  let stat := (ui.rtcm ty).getD { count := 0, lastFrameLen := 0, lastSeen := now }
  { ui with
    rtcm := Function.update ui.rtcm ty
      (some { count := stat.count + n, lastFrameLen := lastLen, lastSeen := now }) }

/-- `apply`. -/
def apply (ui : NtripUi) (event : AppEvent) (now : Instant) : NtripUi :=
  match event with
  | .ntrip status => { ui with status := some status, statusSince := now }
  | .rxBytes total =>
    { ui with
      lastRx := if ui.totalBytes < total then some now else ui.lastRx
      totalBytes := total }
  | .rtcm batch =>
    let ui := batch.frames.foldl (fun ui entry => ui.countFrames entry now) ui
    { ui with rtcmCrcFailures := batch.crcFailures, rtcmGarbageBytes := batch.garbageBytes }
  | .overruns total => { ui with overruns := total }

/-- Consume events in order. `clock i` is the time at which the `i`-th is consumed. -/
def applyAll (ui : NtripUi) (events : List AppEvent) (clock : Nat → Instant) : NtripUi :=
  match events with
  | [] => ui
  | event :: rest => applyAll (ui.apply event (clock 0)) rest fun i => clock (i + 1)

/-- The number shown for a message type. -/
def frameCount (ui : NtripUi) (ty : UInt16) : Nat := ((ui.rtcm ty).map (·.count)).getD 0

end NtripUi

/-- The frames of a type in the entries of a batch. -/
def frameEntries (frames : List (UInt16 × Nat × Nat)) (ty : UInt16) : Nat :=
  ((frames.filter fun entry => entry.1 = ty).map fun entry => entry.2.1).sum

/-- The frames of a type are those of the first entry and of the others. -/
theorem frame_entries_cons (entry : UInt16 × Nat × Nat) (frames : List (UInt16 × Nat × Nat))
    (ty : UInt16) :
    frameEntries (entry :: frames) ty =
      (if entry.1 = ty then entry.2.1 else 0) + frameEntries frames ty := by
  unfold frameEntries
  by_cases h : entry.1 = ty
  · simp [h]
  · simp [h]

namespace NtripUi

/-- An entry adds its frames to its type, and to no other. -/
theorem count_frames_count (ui : NtripUi) (entry : UInt16 × Nat × Nat) (now : Instant)
    (ty : UInt16) :
    (ui.countFrames entry now).frameCount ty =
      ui.frameCount ty + if entry.1 = ty then entry.2.1 else 0 := by
  obtain ⟨t, n, lastLen⟩ := entry
  by_cases h : t = ty
  · subst h
    simp only [countFrames, frameCount, Function.update_self, if_true, Option.map_some,
      Option.getD_some]
    cases ui.rtcm t with
    | none => simp
    | some stat => simp
  · simp only [countFrames, frameCount, if_neg h, Nat.add_zero]
    rw [Function.update_of_ne (Ne.symm h)]

/-- A batch adds its frames type by type. -/
theorem fold_count_frames (ui : NtripUi) (frames : List (UInt16 × Nat × Nat)) (now : Instant)
    (ty : UInt16) :
    (frames.foldl (fun ui entry => ui.countFrames entry now) ui).frameCount ty =
      ui.frameCount ty + frameEntries frames ty := by
  induction frames generalizing ui with
  | nil => rfl
  | cons entry rest ih =>
      rw [List.foldl_cons, ih, count_frames_count, frame_entries_cons, Nat.add_assoc]

/-- A batch adds to the numbers of its types and replaces the totals. -/
theorem apply_rtcm_spec (ui : NtripUi) (batch : RtcmBatch) (now : Instant) :
    (∀ ty, (ui.apply (.rtcm batch) now).frameCount ty =
        ui.frameCount ty + frameEntries batch.frames ty) ∧
      (ui.apply (.rtcm batch) now).rtcmCrcFailures = batch.crcFailures ∧
      (ui.apply (.rtcm batch) now).rtcmGarbageBytes = batch.garbageBytes := by
  refine ⟨?_, rfl, rfl⟩
  intro ty
  exact fold_count_frames ui batch.frames now ty

end NtripUi
end OpenNtrip
