import OpenNtrip.Gnss.FrameResync

/-!
# The accounts of the deframer

Every byte that is fed is in an emitted frame, counted as garbage, or held for the next feed. The
events tell the same numbers as the counters, and less than one frame is held.
-/

namespace OpenNtrip

namespace FrameEvent

/-- The bytes of the stream that an emitted frame takes, header and CRC included. -/
def frameSize : FrameEvent → Nat
  | .frame _ payload => 3 + payload.length + 3
  | _ => 0

/-- The bytes that a garbage event reports. -/
def garbageLength : FrameEvent → Nat
  | .garbage n => n
  | _ => 0

/-- One for a CRC failure. -/
def crcErrorCount : FrameEvent → Nat
  | .crcError => 1
  | _ => 0

end FrameEvent

open FrameEvent

/-- The total of a number that joined garbage adds up is the same for the same events. -/
theorem sum_same_events (amount : FrameEvent → Nat)
    (hjoin : ∀ n m, amount (.garbage (n + m)) = amount (.garbage n) + amount (.garbage m))
    {left right : List FrameEvent} (h : SameEvents left right) :
    (left.map amount).sum = (right.map amount).sum := by
  have hcons : ∀ (event : FrameEvent) (l l' : List FrameEvent),
      (l.map amount).sum = (l'.map amount).sum →
        ((event :: l).map amount).sum = ((event :: l').map amount).sum := by
    intro event l l' heq
    rw [List.map_cons, List.map_cons, List.sum_cons, List.sum_cons, heq]
  have hjoined : ∀ (a b joined : FrameEvent) (l : List FrameEvent),
      joinGarbage a b = some joined →
        ((a :: b :: l).map amount).sum = ((joined :: l).map amount).sum := by
    intro a b joined l heq
    obtain ⟨n, m, rfl, rfl, rfl⟩ := join_garbage_eq_some heq
    simp only [List.map_cons, List.sum_cons]
    rw [hjoin, Nat.add_assoc]
  rw [← coalesce_measure (fun l => (l.map amount).sum) hcons hjoined left,
    ← coalesce_measure (fun l => (l.map amount).sum) hcons hjoined right, h]

namespace FrameToken

/-- The events of the tokens report as garbage what the tokens discard. -/
theorem garbage_events (ts : List FrameToken) :
    ((ts.flatMap events).map garbageLength).sum = garbage ts := by
  induction ts with
  | nil => rfl
  | cons t ts ih =>
      rw [List.flatMap_cons, List.map_append, List.sum_append, ih]
      cases t with
      | skip => exact Nat.add_comm 1 _
      | reject => exact Nat.add_comm 1 _
      | accept payload => exact Nat.zero_add _

/-- The events of the tokens report the CRC failures of the tokens. -/
theorem crc_error_events (ts : List FrameToken) :
    ((ts.flatMap events).map crcErrorCount).sum = failures ts := by
  induction ts with
  | nil => rfl
  | cons t ts ih =>
      rw [List.flatMap_cons, List.map_append, List.sum_append, ih]
      cases t with
      | skip => exact Nat.zero_add _
      | reject => exact Nat.add_comm 1 _
      | accept payload => exact Nat.zero_add _

/-- What the tokens take is in the frames of their events or discarded. -/
theorem frame_events (ts : List FrameToken) :
    ((ts.flatMap events).map frameSize).sum + garbage ts = frameTokenizer.width ts := by
  induction ts with
  | nil => rfl
  | cons t ts ih =>
      rw [List.flatMap_cons, List.map_append, List.sum_append, Tokenizer.width_cons, ← ih]
      cases t with
      | skip =>
          show 0 + _ + (garbage ts + 1) = 1 + _
          omega
      | reject =>
          show 0 + _ + (garbage ts + 1) = 1 + _
          omega
      | accept payload =>
          show 3 + payload.length + 3 + _ + garbage ts = payload.length + 6 + _
          omega

/-- Bytes that decide no token are less than the longest frame. -/
theorem length_of_next_none {bytes : Bytes} (h : next bytes = none) : bytes.length ≤ 1028 := by
  have hdecides := decides_next bytes
  rw [h] at hdecides
  cases hdecides with
  | nil => exact Nat.zero_le _
  | sync => exact Nat.le_of_ble_eq_true rfl
  | noLength hafter => exact Nat.le_of_ble_eq_true rfl
  | @incomplete after low rest hafter hshort =>
      obtain ⟨hlt, hlen⟩ := payload_length_eq hafter low
      have hlow := low.toNat_lt
      show rest.length + 1 + 1 + 1 ≤ 1028
      omega

end FrameToken

open FrameToken

namespace Deframer

/-- What a run reports in one kind of number is what its tokens report. -/
theorem run_total (amount : FrameEvent → Nat)
    (hjoin : ∀ n m, amount (.garbage (n + m)) = amount (.garbage n) + amount (.garbage m))
    (blocks : List Bytes) :
    ((Transducer.run feed {} blocks).2.map amount).sum =
      (((frameTokenizer.tokens blocks.flatten).1.flatMap events).map amount).sum := by
  have hfresh : Waits {} := rfl
  exact sum_same_events amount hjoin (run_feed_events hfresh blocks)

theorem run_waits (blocks : List Bytes) : (Transducer.run feed {} blocks).1.Waits := by
  have hfresh : Waits {} := rfl
  rw [run_feed_state hfresh]
  exact frameTokenizer.next_rest _

/-- After every sequence of feeds of a fresh deframer the bytes fed are those of the emitted frames,
the garbage and the bytes held. The garbage events add up to the garbage counter, the CRC failures
are counted one by one, and at most 1028 bytes are held. -/
theorem deframer_accounts (blocks : List Bytes) :
    let d := (Transducer.run feed {} blocks).1
    let out := (Transducer.run feed {} blocks).2
    blocks.flatten.length = (out.map frameSize).sum + d.garbageBytes + d.buf.length ∧
      (out.map garbageLength).sum = d.garbageBytes ∧
      d.crcFailures = (out.filter fun event => event = .crcError).length ∧
      d.buf.length ≤ 1028 := by
  intro d out
  have hfresh : Waits {} := rfl
  have hstate : d = _ := run_feed_state hfresh blocks
  have hgarbage : d.garbageBytes = garbage (frameTokenizer.tokens blocks.flatten).1 := by
    rw [hstate]
    exact Nat.zero_add _
  have hfailures : d.crcFailures = failures (frameTokenizer.tokens blocks.flatten).1 := by
    rw [hstate]
    exact Nat.zero_add _
  refine ⟨?_, ?_, ?_, length_of_next_none (run_waits blocks)⟩
  · have hheld : _ + d.buf.length = _ := held_run blocks
    rw [run_total frameSize (fun n m => rfl), hgarbage, frame_events]
    exact hheld.symm
  · rw [run_total garbageLength (fun n m => rfl), garbage_events, hgarbage]
  · have hcount : ∀ l : List FrameEvent,
        (l.filter fun event => event = .crcError).length = (l.map crcErrorCount).sum := by
      intro l
      induction l with
      | nil => rfl
      | cons event l ih =>
          rw [List.filter_cons, List.map_cons, List.sum_cons, ← ih]
          cases event with
          | crcError => exact Nat.add_comm _ 1
          | _ => exact (Nat.zero_add _).symm
    rw [hcount, run_total crcErrorCount (fun n m => rfl), crc_error_events, hfailures]

end Deframer

end OpenNtrip
