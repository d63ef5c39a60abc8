import OpenNtrip.Gnss.Frame
import OpenNtrip.Lib.Bits
import OpenNtrip.Lib.Coalesce

/-!
# Resynchronisation of the deframer

A run of `feed` over blocks takes the tokens of the concatenated bytes (`run_feed_state`,
`run_feed_events`). So neither the state nor, up to joining adjacent garbage, the events
depend on how the bytes are cut, and every intact frame is found at its place
(`frames_resync`).
-/

namespace OpenNtrip

/-- Adjacent garbage can be reported at once. -/
def joinGarbage : FrameEvent → FrameEvent → Option FrameEvent
  | .garbage n, .garbage m => some (.garbage (n + m))
  | _, _ => none

theorem join_garbage_eq_some {a b joined : FrameEvent} (h : joinGarbage a b = some joined) :
    ∃ n m, a = .garbage n ∧ b = .garbage m ∧ joined = .garbage (n + m) := by
  cases a with
  | garbage n =>
      cases b with
      | garbage m => exact ⟨n, m, rfl, rfl, (Option.some.inj h).symm⟩
      | _ => simp [joinGarbage] at h
  | _ => simp [joinGarbage] at h

theorem join_garbage_assoc : MergeAssoc joinGarbage where
  reject := by
    intro a b c joined hab hbc
    obtain ⟨n, m, rfl, rfl, rfl⟩ := join_garbage_eq_some hab
    cases c with
    | garbage k => simp [joinGarbage] at hbc
    | _ => rfl
  accept := by
    intro a b c joined later hab hbc
    obtain ⟨n, m, rfl, rfl, rfl⟩ := join_garbage_eq_some hab
    obtain ⟨m', k, hb, rfl, rfl⟩ := join_garbage_eq_some hbc
    obtain rfl : m = m' := by simpa using hb
    refine ⟨.garbage (n + m + k), rfl, ?_⟩
    rw [Nat.add_assoc]
    rfl

/-- The same events up to joining adjacent garbage. -/
def SameEvents (left right : List FrameEvent) : Prop :=
  coalesce joinGarbage left = coalesce joinGarbage right

theorem SameEvents.append {left left' right right' : List FrameEvent}
    (hleft : SameEvents left left') (hright : SameEvents right right') :
    SameEvents (left ++ right) (left' ++ right') :=
  coalesce_append_congr join_garbage_assoc hleft hright

namespace FrameToken

/-- The events of one token on its own. -/
def events : FrameToken → List FrameEvent
  | .skip => [.garbage 1]
  | .reject => [.crcError, .garbage 1]
  | .accept payload => [.frame (msgType payload) payload]

/-- One more byte of pending garbage. -/
theorem flushed_succ (run : Nat) :
    SameEvents (flushed (run + 1)) (flushed run ++ [.garbage 1]) := by
  cases run with
  | zero => rfl
  | succ run =>
      have hjoin : joinGarbage (.garbage (run + 1)) (.garbage 1) =
          some (.garbage (run + 1 + 1)) := rfl
      exact (coalesce_join join_garbage_assoc hjoin [] []).symm

/-- Pending the garbage only joins the events of the tokens. -/
theorem render_same (run : Nat) (ts : List FrameToken) :
    SameEvents (render run ts) (flushed run ++ ts.flatMap events) := by
  have hrefl : ∀ out : List FrameEvent, SameEvents out out := fun _ => rfl
  induction ts generalizing run with
  | nil =>
      rw [render, List.flatMap_nil, List.append_nil]
      exact hrefl (flushed run)
  | cons t ts ih =>
      cases t with
      | skip =>
          have hstep := (flushed_succ run).append (hrefl (ts.flatMap events))
          rw [List.append_assoc] at hstep
          exact (ih (run + 1)).trans hstep
      | reject =>
          exact (hrefl (flushed run)).append ((hrefl [.crcError]).append (ih 1))
      | accept payload =>
          exact (hrefl (flushed run)).append
            ((hrefl [.frame (msgType payload) payload]).append (ih 0))

theorem failures_append (ts ts' : List FrameToken) :
    failures (ts ++ ts') = failures ts + failures ts' := by
  induction ts with
  | nil => simp [failures]
  | cons t ts ih =>
      cases t with
      | skip => simpa only [List.cons_append, failures] using ih
      | reject =>
          simp only [List.cons_append, failures]
          omega
      | accept payload => simpa only [List.cons_append, failures] using ih

theorem garbage_append (ts ts' : List FrameToken) :
    garbage (ts ++ ts') = garbage ts + garbage ts' := by
  induction ts with
  | nil => simp [garbage]
  | cons t ts ih =>
      cases t with
      | skip =>
          simp only [List.cons_append, garbage]
          omega
      | reject =>
          simp only [List.cons_append, garbage]
          omega
      | accept payload => simpa only [List.cons_append, garbage] using ih

end FrameToken

open FrameToken

namespace Deframer

/-! ## Runs -/

/-- The deframer waits: what it holds has no token at its head. -/
def Waits (d : Deframer) : Prop := next d.buf = none

theorem feed_waits (d : Deframer) (block : Bytes) : (d.feed block).1.Waits := by
  rw [feed, scan_eq]
  exact frameTokenizer.next_rest _

/-- The tokens that a run over the blocks takes. -/
def taken (d : Deframer) (blocks : List Bytes) : List FrameToken × Bytes :=
  frameTokenizer.tokens (d.buf ++ blocks.flatten)

theorem taken_nil {d : Deframer} (h : d.Waits) : d.taken [] = ([], d.buf) := by
  rw [taken, List.flatten_nil, List.append_nil]
  exact frameTokenizer.tokens_of_none h

theorem taken_cons (d : Deframer) (block : Bytes) (rest : List Bytes) :
    d.taken (block :: rest) =
      ((frameTokenizer.tokens (d.buf ++ block)).1 ++ ((d.feed block).1.taken rest).1,
        ((d.feed block).1.taken rest).2) := by
  rw [taken, List.flatten_cons, ← List.append_assoc,
    Tokenizer.tokens_append frame_tokenizer_stable]
  simp only [taken, feed, scan_eq]

/-- The state after a run is that of its tokens. -/
theorem run_feed_state {d : Deframer} (h : d.Waits) (blocks : List Bytes) :
    (Transducer.run feed d blocks).1 =
      { crcFailures := d.crcFailures + failures (d.taken blocks).1
        garbageBytes := d.garbageBytes + garbage (d.taken blocks).1
        buf := (d.taken blocks).2 } := by
  induction blocks generalizing d with
  | nil =>
      rw [taken_nil h]
      rfl
  | cons block rest ih =>
      rw [Transducer.run_cons, ih (feed_waits d block), taken_cons]
      simp only [failures_append, garbage_append]
      rw [feed, scan_eq]
      simp only [Nat.add_zero, Nat.add_assoc]

/-- The events of a run are those of its tokens. -/
theorem run_feed_events {d : Deframer} (h : d.Waits) (blocks : List Bytes) :
    SameEvents (Transducer.run feed d blocks).2 ((d.taken blocks).1.flatMap events) := by
  induction blocks generalizing d with
  | nil =>
      rw [taken_nil h]
      rfl
  | cons block rest ih =>
      have hfirst : SameEvents (d.feed block).2
          ((frameTokenizer.tokens (d.buf ++ block)).1.flatMap events) := by
        rw [feed, scan_eq]
        exact render_same 0 _
      rw [Transducer.run_cons, taken_cons, List.flatMap_append]
      exact hfirst.append (ih (feed_waits d block))

/-! ## What a caller sees -/

/-- The frames and CRC failures in order: the garbage before the first of them, and each with the
garbage reported after it. -/
def tally : List FrameEvent → Nat × List (FrameEvent × Nat)
  | [] => (0, [])
  | .garbage n :: rest => (n + (tally rest).1, (tally rest).2)
  | event :: rest => (0, (event, (tally rest).1) :: (tally rest).2)

theorem tally_congr {left right : List FrameEvent} (h : SameEvents left right) :
    tally left = tally right := by
  have hcons : ∀ (event : FrameEvent) (l l' : List FrameEvent), tally l = tally l' →
      tally (event :: l) = tally (event :: l') := by
    intro event l l' heq
    cases event with
    | _ => simp only [tally, heq]
  have hjoin : ∀ (a b joined : FrameEvent) (l : List FrameEvent), joinGarbage a b = some joined →
      tally (a :: b :: l) = tally (joined :: l) := by
    intro a b joined l heq
    obtain ⟨n, m, rfl, rfl, rfl⟩ := join_garbage_eq_some heq
    simp only [tally, Nat.add_assoc]
  rw [← coalesce_measure tally hcons hjoin left, ← coalesce_measure tally hcons hjoin right, h]

/-- However a byte sequence is cut into feeds of a fresh deframer, the frames and CRC failures, the
garbage between them, both counters and the held bytes are the same. -/
theorem deframer_packetization {blocks blocks' : List Bytes}
    (hflat : blocks.flatten = blocks'.flatten) :
    tally (Transducer.run feed {} blocks).2 = tally (Transducer.run feed {} blocks').2 ∧
      (Transducer.run feed {} blocks).1 = (Transducer.run feed {} blocks').1 := by
  have hfresh : Waits {} := rfl
  have htaken : taken {} blocks = taken {} blocks' := by rw [taken, taken, hflat]
  refine ⟨tally_congr ?_, ?_⟩
  · have hevents := run_feed_events hfresh blocks
    rw [htaken] at hevents
    exact hevents.trans (run_feed_events hfresh blocks').symm
  · rw [run_feed_state hfresh, run_feed_state hfresh, htaken]

/-- A false sync byte in front of a frame, cut inside the frame's header and not cut at all. -/
theorem deframer_packetization_cut :
    tally (Transducer.run feed {} [[SYNC, SYNC], [], [0, 0, 0x47], [0xEA, 0x4B]]).2 =
        tally (Transducer.run feed {} [[SYNC, SYNC, 0, 0, 0x47, 0xEA, 0x4B]]).2 ∧
      (Transducer.run feed {} [[SYNC, SYNC], [], [0, 0, 0x47], [0xEA, 0x4B]]).1 =
        (Transducer.run feed {} [[SYNC, SYNC, 0, 0, 0x47, 0xEA, 0x4B]]).1 :=
  deframer_packetization rfl

/-! ## Frames at their places -/

/-- A frame that was emitted, with the position of its first byte in the stream. -/
structure Emitted where
  start : Nat
  msgType : UInt16
  payload : Bytes
  deriving DecidableEq, Repr

/-- The position behind the frame. -/
def Emitted.stop (e : Emitted) : Nat := e.start + (e.payload.length + 6)

/-- The frames among the events of a stream from position `p` on. The other events account for the
bytes that are not part of a frame. -/
def emitted : List FrameEvent → Nat → List Emitted
  | [], _ => []
  | .garbage n :: rest, p => emitted rest (p + n)
  | .crcError :: rest, p => emitted rest p
  | .frame msgType payload :: rest, p =>
    ⟨p, msgType, payload⟩ :: emitted rest (p + (payload.length + 6))

/-- A complete frame of the payload starts at position `p` of the stream. -/
def FrameAt (stream : Bytes) (p : Nat) (payload : Bytes) : Prop :=
  payload.length ≤ 1023 ∧ ∃ later, stream.drop p = buildFrame payload ++ later

theorem emitted_congr {left right : List FrameEvent} (h : SameEvents left right) :
    emitted left = emitted right := by
  have hcons : ∀ (event : FrameEvent) (l l' : List FrameEvent), emitted l = emitted l' →
      emitted (event :: l) = emitted (event :: l') := by
    intro event l l' heq
    funext p
    cases event with
    | _ => simp only [emitted, heq]
  have hjoin : ∀ (a b joined : FrameEvent) (l : List FrameEvent), joinGarbage a b = some joined →
      emitted (a :: b :: l) = emitted (joined :: l) := by
    intro a b joined l heq
    obtain ⟨n, m, rfl, rfl, rfl⟩ := join_garbage_eq_some heq
    funext p
    simp only [emitted, Nat.add_assoc]
  rw [← coalesce_measure emitted hcons hjoin left, ← coalesce_measure emitted hcons hjoin right, h]

/-- The frame of a token at position `p`, if it is one. -/
def tokenFrame (p : Nat) : FrameToken → List Emitted
  | .accept payload => [⟨p, msgType payload, payload⟩]
  | _ => []

/-- The frames among the tokens of a stream from position `p` on. -/
def accepted : List FrameToken → Nat → List Emitted
  | [], _ => []
  | t :: ts, p => tokenFrame p t ++ accepted ts (p + t.size)

theorem emitted_events (ts : List FrameToken) (p : Nat) :
    emitted (ts.flatMap events) p = accepted ts p := by
  induction ts generalizing p with
  | nil => rfl
  | cons t ts ih =>
      rw [List.flatMap_cons, accepted, ← ih]
      cases t with
      | skip => rfl
      | reject => rfl
      | accept payload => rfl

theorem mem_token_frame {p : Nat} {t : FrameToken} {e : Emitted} :
    e ∈ tokenFrame p t ↔ t = .accept e.payload ∧ e.start = p ∧ e.msgType = msgType e.payload := by
  obtain ⟨start, kind, payload⟩ := e
  cases t with
  | skip => simp [tokenFrame]
  | reject => simp [tokenFrame]
  | accept payload' =>
      simp only [tokenFrame, List.mem_singleton, Emitted.mk.injEq, FrameToken.accept.injEq]
      constructor
      · rintro ⟨rfl, rfl, rfl⟩
        exact ⟨rfl, rfl, rfl⟩
      · rintro ⟨rfl, rfl, rfl⟩
        exact ⟨rfl, rfl, rfl⟩

/-- Each accepted frame is a token, behind the tokens before it. -/
theorem mem_accepted {ts : List FrameToken} {p : Nat} {e : Emitted} :
    e ∈ accepted ts p ↔ ∃ before after, ts = before ++ .accept e.payload :: after ∧
      e.start = p + frameTokenizer.width before ∧ e.msgType = msgType e.payload := by
  induction ts generalizing p with
  | nil => simp [accepted]
  | cons t ts ih =>
      rw [accepted, List.mem_append, mem_token_frame, ih]
      constructor
      · rintro (⟨rfl, hstart, hkind⟩ | ⟨before, after, rfl, hstart, hkind⟩)
        · exact ⟨[], ts, rfl, hstart, hkind⟩
        · refine ⟨t :: before, after, rfl, ?_, hkind⟩
          rw [hstart, Tokenizer.width_cons, ← Nat.add_assoc]
          rfl
      · rintro ⟨before, after, hsplit, hstart, hkind⟩
        cases before with
        | nil =>
            obtain ⟨rfl, rfl⟩ := List.cons.inj hsplit
            exact .inl ⟨rfl, hstart, hkind⟩
        | cons t' before =>
            obtain ⟨rfl, rfl⟩ := List.cons.inj hsplit
            refine .inr ⟨before, after, rfl, ?_, hkind⟩
            rw [hstart, Tokenizer.width_cons, ← Nat.add_assoc]
            rfl

theorem start_le_of_mem_accepted {ts : List FrameToken} {p : Nat} {e : Emitted}
    (h : e ∈ accepted ts p) : p ≤ e.start := by
  obtain ⟨before, after, -, hstart, -⟩ := mem_accepted.mp h
  omega

/-- Accepted frames follow each other. -/
theorem accepted_disjoint (ts : List FrameToken) (p : Nat) :
    (accepted ts p).Pairwise fun e e' => e.stop ≤ e'.start := by
  induction ts generalizing p with
  | nil => exact .nil
  | cons t ts ih =>
      rw [accepted]
      refine List.pairwise_append.mpr ⟨?_, ih _, ?_⟩
      · cases t with
        | accept payload => exact List.pairwise_singleton _ _
        | _ => exact .nil
      · intro e he e' he'
        obtain ⟨rfl, hstart, -⟩ := mem_token_frame.mp he
        have hle := start_le_of_mem_accepted he'
        rw [Emitted.stop, hstart]
        exact hle

/-- The frames that a run emits are the ones its tokens accept. -/
theorem emitted_run (blocks : List Bytes) :
    emitted (Transducer.run feed {} blocks).2 0 =
      accepted (frameTokenizer.tokens blocks.flatten).1 0 := by
  have hfresh : Waits {} := rfl
  rw [emitted_congr (run_feed_events hfresh blocks), emitted_events]
  rfl

/-- A frame that a run emits is accepted at its place in the stream. -/
theorem next_of_mem_emitted {blocks : List Bytes} {e : Emitted}
    (he : e ∈ emitted (Transducer.run feed {} blocks).2 0) :
    next (blocks.flatten.drop e.start) = some (.accept e.payload) := by
  rw [emitted_run] at he
  obtain ⟨before, after, hsplit, hstart, -⟩ := mem_accepted.mp he
  rw [hstart, Nat.zero_add]
  exact Tokenizer.next_at hsplit

/-- What a run holds is what its tokens do not take. -/
theorem held_run (blocks : List Bytes) :
    frameTokenizer.width (frameTokenizer.tokens blocks.flatten).1 +
        (Transducer.run feed {} blocks).1.buf.length = blocks.flatten.length := by
  have hfresh : Waits {} := rfl
  obtain ⟨hle, hrest⟩ := frameTokenizer.tokens_rest blocks.flatten
  rw [run_feed_state hfresh]
  show _ + (frameTokenizer.tokens blocks.flatten).2.length = _
  rw [hrest, List.length_drop]
  omega

/-! ## Streams of frames -/

/-- Bytes other than the sync byte are skipped. -/
theorem tokens_gap {gap : Bytes} (hgap : ∀ b ∈ gap, b ≠ SYNC) (later : Bytes) :
    frameTokenizer.tokens (gap ++ later) =
      (List.replicate gap.length .skip ++ (frameTokenizer.tokens later).1,
        (frameTokenizer.tokens later).2) := by
  induction gap with
  | nil => rfl
  | cons b gap ih =>
      have hb : b ≠ SYNC := hgap b (by simp)
      have hnext : frameTokenizer.next (b :: (gap ++ later)) = some .skip :=
        Decides.next_eq (.notSync (gap ++ later) hb)
      have hrest := ih (fun b' hb' => hgap b' (List.mem_cons_of_mem _ hb'))
      rw [List.cons_append, Tokenizer.tokens_of_some _ hnext]
      show (_ :: (frameTokenizer.tokens (gap ++ later)).1,
          (frameTokenizer.tokens (gap ++ later)).2) = _
      rw [hrest]
      rfl

/-- A frame at the head of the stream is accepted. -/
theorem tokens_frame {payload : Bytes} (h : payload.length ≤ 1023) (later : Bytes) :
    frameTokenizer.tokens (buildFrame payload ++ later) =
      (.accept payload :: (frameTokenizer.tokens later).1, (frameTokenizer.tokens later).2) := by
  have hnext : frameTokenizer.next (buildFrame payload ++ later) = some (.accept payload) :=
    next_build_frame h later
  have hdrop : (buildFrame payload ++ later).drop (frameTokenizer.size (.accept payload)) =
      later := by
    have hsize : frameTokenizer.size (.accept payload) = (buildFrame payload).length :=
      (build_frame_length payload).symm
    rw [hsize, List.drop_left]
  rw [Tokenizer.tokens_of_some _ hnext, hdrop]

/-- Frames with other bytes in front of each. -/
def framedStream (frames : List (Bytes × Bytes)) : Bytes :=
  frames.flatMap fun (gap, payload) => gap ++ buildFrame payload

/-- The tokens of such a stream: nothing waits. -/
theorem tokens_framed_stream {frames : List (Bytes × Bytes)}
    (hgap : ∀ f ∈ frames, ∀ b ∈ f.1, b ≠ SYNC) (hlen : ∀ f ∈ frames, f.2.length ≤ 1023) :
    frameTokenizer.tokens (framedStream frames) =
      (frames.flatMap fun (gap, payload) => List.replicate gap.length .skip ++ [.accept payload],
        []) := by
  induction frames with
  | nil => exact Tokenizer.tokens_of_none _ rfl
  | cons f frames ih =>
      obtain ⟨gap, payload⟩ := f
      have hrest := ih (fun f hf => hgap f (List.mem_cons_of_mem _ hf))
        (fun f hf => hlen f (List.mem_cons_of_mem _ hf))
      have hfirst : framedStream ((gap, payload) :: frames) =
          gap ++ (buildFrame payload ++ framedStream frames) := by
        simp [framedStream]
      rw [hfirst, tokens_gap (hgap (gap, payload) (by simp)),
        tokens_frame (hlen (gap, payload) (by simp)), hrest]
      simp

theorem accepted_append (ts ts' : List FrameToken) (p : Nat) :
    accepted (ts ++ ts') p = accepted ts p ++ accepted ts' (p + frameTokenizer.width ts) := by
  induction ts generalizing p with
  | nil => rfl
  | cons t ts ih =>
      rw [List.cons_append, accepted, accepted, ih, List.append_assoc, Tokenizer.width_cons,
        ← Nat.add_assoc]
      rfl

theorem accepted_skips (n p : Nat) : accepted (List.replicate n .skip) p = [] := by
  induction n generalizing p with
  | zero => rfl
  | succ n ih =>
      rw [List.replicate_succ, accepted, ih]
      rfl

/-- Such a stream is emitted exactly and in order. -/
theorem accepted_framed_stream (frames : List (Bytes × Bytes)) (p : Nat) :
    (accepted (frames.flatMap fun (gap, payload) =>
        List.replicate gap.length .skip ++ [.accept payload]) p).map
        (fun e => (e.msgType, e.payload)) =
      frames.map fun f => (msgType f.2, f.2) := by
  induction frames generalizing p with
  | nil => rfl
  | cons f frames ih =>
      obtain ⟨gap, payload⟩ := f
      rw [List.flatMap_cons, accepted_append, accepted_append, accepted_skips, List.map_append, ih]
      rfl

/-- An intact frame within what the tokens take is accepted, or starts strictly inside an accepted
one. -/
theorem frame_accepted {stream payload : Bytes} {p : Nat} (h : FrameAt stream p payload)
    (hstop : p + (payload.length + 6) ≤ frameTokenizer.width (frameTokenizer.tokens stream).1) :
    ⟨p, msgType payload, payload⟩ ∈ accepted (frameTokenizer.tokens stream).1 0 ∨
      ∃ e ∈ accepted (frameTokenizer.tokens stream).1 0, e.start < p ∧ p < e.stop := by
  obtain ⟨hlen, later, hstream⟩ := h
  -- the token that takes the byte at `p`
  have hp : p < frameTokenizer.width (frameTokenizer.tokens stream).1 := by omega
  obtain ⟨before, t, after, hsplit, hle, hlt⟩ := frameTokenizer.exists_token_at _ hp
  have hnext : next (stream.drop (frameTokenizer.width before)) = some t :=
    Tokenizer.next_at hsplit
  by_cases hstart : frameTokenizer.width before = p
  · rw [hstart, hstream, next_build_frame hlen] at hnext
    obtain rfl := Option.some.inj hnext
    refine .inl (mem_accepted.mpr ⟨before, after, hsplit, ?_, rfl⟩)
    show p = 0 + frameTokenizer.width before
    omega
  · have hsize : 1 < frameTokenizer.size t := by omega
    cases t with
    | skip => exact absurd hsize (Nat.lt_irrefl 1)
    | reject => exact absurd hsize (Nat.lt_irrefl 1)
    | accept payload' =>
        refine .inr ⟨⟨frameTokenizer.width before, msgType payload', payload'⟩, ?_, ?_, hlt⟩
        · refine mem_accepted.mpr ⟨before, after, hsplit, ?_, rfl⟩
          show frameTokenizer.width before = 0 + frameTokenizer.width before
          omega
        · show frameTokenizer.width before < p
          omega

/-- A frame that a run emits is an intact one of the stream. -/
theorem emitted_intact {blocks : List Bytes} {e : Emitted}
    (he : e ∈ emitted (Transducer.run feed {} blocks).2 0) :
    FrameAt blocks.flatten e.start e.payload ∧ e.msgType = msgType e.payload ∧
      e.stop ≤ frameTokenizer.width (frameTokenizer.tokens blocks.flatten).1 := by
  have hnext := next_of_mem_emitted he
  rw [emitted_run] at he
  obtain ⟨before, after, hsplit, hstart, hkind⟩ := mem_accepted.mp he
  rw [Nat.zero_add] at hstart
  refine ⟨next_accept hnext, hkind, ?_⟩
  rw [hsplit, Tokenizer.width_append, Tokenizer.width_cons, Emitted.stop, hstart]
  show _ ≤ _ + (e.payload.length + 6 + _)
  omega

/-! ## Types -/

/-- The number that the first 12 bits of a payload write, or 0 if it has fewer than 2 bytes. -/
def leadingType (payload : Bytes) : Nat :=
  if payload.length < 2 then 0 else Bits.toNat ((Bits.ofBytes payload).take 12)

/-- The first 12 bits are the first byte and the upper half of the second. -/
theorem leading_type_cons (first second : UInt8) (rest : Bytes) :
    leadingType (first :: second :: rest) = first.toNat * 2 ^ 4 + second.toNat / 2 ^ 4 := by
  have htake : (Bits.ofBytes (first :: second :: rest)).take 12 =
      Bits.ofByte first ++ (Bits.ofByte second).take 4 := by
    rw [Bits.of_bytes_cons, Bits.of_bytes_cons, List.take_append, Bits.length_of_byte,
      List.take_of_length_le (by rw [Bits.length_of_byte]; omega),
      List.take_append_of_le_length (by rw [Bits.length_of_byte]; omega)]
  have hlength : ((Bits.ofByte second).take 4).length = 4 := by
    rw [List.length_take, Bits.length_of_byte]
    rfl
  rw [leadingType, if_neg (by simp), htake, Bits.to_nat_append, hlength, Bits.to_nat_of_byte,
    Bits.to_nat_take, Bits.length_of_byte, Bits.to_nat_of_byte, Nat.mul_comm]

/-- The type of a frame is the number that its first 12 bits write. -/
theorem msg_type_eq (payload : Bytes) : (msgType payload).toNat = leadingType payload := by
  match payload with
  | [] => rfl
  | [_] => rfl
  | first :: second :: rest =>
    have hfirst := first.toNat_lt
    have hsecond := second.toNat_lt
    have hhigh : (first.toUInt16 <<< 4).toNat = first.toNat <<< 4 := by
      rw [UInt16.toNat_shiftLeft, UInt8.toNat_toUInt16]
      show first.toNat <<< 4 % 2 ^ 16 = _
      rw [Nat.shiftLeft_eq, Nat.mod_eq_of_lt (by omega)]
    have hlow : (second >>> 4).toUInt16.toNat = second.toNat / 2 ^ 4 := by
      rw [UInt8.toNat_toUInt16, UInt8.toNat_shiftRight]
      exact Nat.shiftRight_eq_div_pow _ _
    show ((first.toUInt16 <<< 4) ||| (second >>> 4).toUInt16).toNat = _
    rw [UInt16.toNat_or, hhigh, hlow, leading_type_cons,
      ← Nat.shiftLeft_add_eq_or_of_lt (by omega), Nat.shiftLeft_eq]

/-- Resynchronisation, for a fresh deframer fed the bytes of `stream` in any pieces. Every intact
frame that lies in front of the held bytes is emitted with its payload and its first 12 bits as
type, or starts strictly inside an emitted frame. What is emitted is an intact frame of the stream,
and the emitted frames do not overlap. A stream of frames with other bytes in front of each is
emitted exactly, and nothing is held. -/
theorem frames_resync (blocks : List Bytes) :
    let stream := blocks.flatten
    let held := (Transducer.run feed {} blocks).1.buf
    let frames := emitted (Transducer.run feed {} blocks).2 0
    (∀ p payload, FrameAt stream p payload →
        p + (payload.length + 6) ≤ stream.length - held.length →
        (∃ e ∈ frames, e.start = p ∧ e.msgType.toNat = leadingType payload ∧
          e.payload = payload) ∨ ∃ e ∈ frames, e.start < p ∧ p < e.stop) ∧
      (∀ e ∈ frames, FrameAt stream e.start e.payload ∧
        e.msgType.toNat = leadingType e.payload ∧ e.stop ≤ stream.length - held.length) ∧
      (frames.Pairwise fun e e' => e.stop ≤ e'.start) ∧
      ∀ sent : List (Bytes × Bytes), (∀ f ∈ sent, ∀ b ∈ f.1, b ≠ SYNC) →
        (∀ f ∈ sent, f.2.length ≤ 1023) → stream = framedStream sent →
        frames.map (fun e => (e.msgType.toNat, e.payload)) =
            sent.map (fun f => (leadingType f.2, f.2)) ∧
          held = [] := by
  intro stream held frames
  have hframes : frames = accepted (frameTokenizer.tokens stream).1 0 := emitted_run blocks
  have hheld : frameTokenizer.width (frameTokenizer.tokens stream).1 + held.length =
      stream.length := held_run blocks
  refine ⟨?_, ?_, ?_, ?_⟩
  · intro p payload hframe hstop
    rw [hframes]
    refine (frame_accepted hframe (by omega)).imp_left fun hmem => ?_
    exact ⟨_, hmem, rfl, msg_type_eq payload, rfl⟩
  · intro e he
    obtain ⟨hframe, hkind, hwidth⟩ := emitted_intact he
    have hstop : e.stop ≤ frameTokenizer.width (frameTokenizer.tokens stream).1 := hwidth
    exact ⟨hframe, hkind ▸ msg_type_eq e.payload, by omega⟩
  · rw [hframes]
    exact accepted_disjoint _ 0
  · intro sent hgap hlen hstream
    have htokens := tokens_framed_stream hgap hlen
    rw [← hstream] at htokens
    refine ⟨?_, ?_⟩
    · have hsent := congrArg (List.map fun f : UInt16 × Bytes => (f.1.toNat, f.2))
        (accepted_framed_stream sent 0)
      rw [List.map_map, List.map_map] at hsent
      rw [hframes, htokens]
      refine hsent.trans (List.map_congr_left fun f _ => ?_)
      exact congrArg (·, f.2) (msg_type_eq f.2)
    · have hfresh : Waits {} := rfl
      show (Transducer.run feed {} blocks).1.buf = []
      rw [run_feed_state hfresh]
      show (frameTokenizer.tokens stream).2 = []
      rw [htokens]

end Deframer
end OpenNtrip
