import OpenNtrip.Gnss.Crc24q
import OpenNtrip.Lib.Tokenizer
import OpenNtrip.Lib.Transducer

/-!
# RTCM 3 deframing

`Deframer.feed` as the source has it: one scan over the held bytes and the new ones, with the
garbage before the scan position pending until it is flushed. `FrameToken` and `frameTokenizer`
say what the scan decides at one position, and `scan_eq` that the scan takes one token after
the other. A frame is what `buildFrame` builds.
-/

namespace OpenNtrip

/-- The sync byte of an RTCM 3 frame. -/
def SYNC : UInt8 := 0xD3

/-- One deframing outcome. -/
inductive FrameEvent where
  | frame (msgType : UInt16) (payload : Bytes)
  | crcError
  | garbage (n : Nat)
  deriving DecidableEq, Repr

/-- The incremental deframer: the counters since construction and the bytes held. -/
structure Deframer where
  crcFailures : Nat := 0
  garbageBytes : Nat := 0
  buf : Bytes := []
  deriving DecidableEq, Repr

/-- The message type: the first 12 bits of the payload, 0 if it is shorter than 2 bytes. -/
def msgType : Bytes → UInt16
  | first :: second :: _ => (first.toUInt16 <<< 4) ||| (second >>> 4).toUInt16
  | _ => 0

/-- The payload length from the two bytes after the sync byte. -/
def payloadLength (after low : UInt8) : Nat := ((after &&& 0x03).toNat <<< 8) ||| low.toNat

/-- The CRC stated by the last three bytes of a frame. -/
def statedCrc (high mid low : UInt8) : UInt32 :=
  (high.toUInt32 <<< 16) ||| (mid.toUInt32 <<< 8) ||| low.toUInt32

namespace Deframer

/-- Report the pending garbage. -/
def flush (d : Deframer) (run : Nat) : Deframer × List FrameEvent :=
  if 0 < run then ({ d with garbageBytes := d.garbageBytes + run }, [.garbage run]) else (d, [])

/-- The end of `feed`: report the pending garbage and hold the bytes from the scan position on. -/
def finish (d : Deframer) (run : Nat) (bytes : Bytes) : Deframer × List FrameEvent :=
  let (d, out) := d.flush run
  ({ d with buf := bytes }, out)

/-- The loop of `feed`: `bytes` are the bytes from the scan position on, behind `run` bytes of
pending garbage. -/
def scan (d : Deframer) (run : Nat) (bytes : Bytes) : Deframer × List FrameEvent :=
  match bytes with
  | [] => d.finish run []
  | [b] => if b ≠ SYNC then scan d (run + 1) [] else d.finish run [b]
  | b :: after :: rest =>
    if b ≠ SYNC then scan d (run + 1) (after :: rest)
    else if after &&& 0xFC ≠ 0 then scan d (run + 1) (after :: rest)
    else
      let (d, out) := d.flush run
      match rest with
      | [] => ({ d with buf := [b, after] }, out)
      | low :: rest =>
        let len := payloadLength after low
        match _hlater : rest.drop len with
        | c₁ :: c₂ :: c₃ :: later =>
          let payload := rest.take len
          if crc24q (b :: after :: low :: payload) = statedCrc c₁ c₂ c₃ then
            let (d, out') := scan d 0 later
            (d, out ++ .frame (msgType payload) payload :: out')
          else
            let (d, out') :=
              scan { d with crcFailures := d.crcFailures + 1 } 1 (after :: low :: rest)
            (d, out ++ .crcError :: out')
        | _ => ({ d with buf := b :: after :: low :: rest }, out)
termination_by bytes.length
decreasing_by
  · simp
  · simp
  · simp
  · have hlen : rest.length - len = later.length + 3 := by
      rw [← List.length_drop, _hlater]
      rfl
    simp only [List.length_cons]
    omega
  · simp

/-- `feed`. -/
def feed (d : Deframer) (bytes : Bytes) : Deframer × List FrameEvent := d.scan 0 (d.buf ++ bytes)

end Deframer

/-! ## Tokens -/

/-- What the scan decides at one position: the byte is not the start of a frame, or the frame it
starts fails its CRC, or the frame is intact. -/
inductive FrameToken where
  | skip
  | reject
  | accept (payload : Bytes)
  deriving DecidableEq, Repr

namespace FrameToken

/-- The bytes a token consumes. After a failed CRC the scan goes on one byte further. -/
def size : FrameToken → Nat
  | .skip => 1
  | .reject => 1
  | .accept payload => payload.length + 6

/-- The token at the head of the bytes, if they decide it. -/
def next : Bytes → Option FrameToken
  | [] => none
  | [b] => if b ≠ SYNC then some .skip else none
  | b :: after :: rest =>
    if b ≠ SYNC then some .skip
    else if after &&& 0xFC ≠ 0 then some .skip
    else
      match rest with
      | [] => none
      | low :: rest =>
        let len := payloadLength after low
        match rest.drop len with
        | c₁ :: c₂ :: c₃ :: _ =>
          if crc24q (b :: after :: low :: rest.take len) = statedCrc c₁ c₂ c₃ then
            some (.accept (rest.take len))
          else some .reject
        | _ => none

/-- The ways a scan position can be decided, or wait for more bytes. -/
inductive Decides : Bytes → Option FrameToken → Prop where
  | nil : Decides [] none
  | notSync {b : UInt8} (rest : Bytes) (hb : b ≠ SYNC) : Decides (b :: rest) (some .skip)
  | sync : Decides [SYNC] none
  | reserved {after : UInt8} (rest : Bytes) (hafter : after &&& 0xFC ≠ 0) :
      Decides (SYNC :: after :: rest) (some .skip)
  | noLength {after : UInt8} (hafter : after &&& 0xFC = 0) : Decides [SYNC, after] none
  | incomplete {after low : UInt8} {rest : Bytes} (hafter : after &&& 0xFC = 0)
      (hshort : rest.length < payloadLength after low + 3) :
      Decides (SYNC :: after :: low :: rest) none
  | failed {after low c₁ c₂ c₃ : UInt8} {payload : Bytes} (later : Bytes)
      (hafter : after &&& 0xFC = 0) (hlen : payload.length = payloadLength after low)
      (hcrc : crc24q (SYNC :: after :: low :: payload) ≠ statedCrc c₁ c₂ c₃) :
      Decides (SYNC :: after :: low :: (payload ++ c₁ :: c₂ :: c₃ :: later)) (some .reject)
  | intact {after low c₁ c₂ c₃ : UInt8} {payload : Bytes} (later : Bytes)
      (hafter : after &&& 0xFC = 0) (hlen : payload.length = payloadLength after low)
      (hcrc : crc24q (SYNC :: after :: low :: payload) = statedCrc c₁ c₂ c₃) :
      Decides (SYNC :: after :: low :: (payload ++ c₁ :: c₂ :: c₃ :: later))
        (some (.accept payload))

/-- Three bytes can be taken from a long enough list. -/
theorem exists_three {bytes : Bytes} (h : 3 ≤ bytes.length) :
    ∃ c₁ c₂ c₃ later, bytes = c₁ :: c₂ :: c₃ :: later := by
  match bytes, h with
  | c₁ :: c₂ :: c₃ :: later, _ => exact ⟨c₁, c₂, c₃, later, rfl⟩

/-- `next` decides as the frame format says. -/
theorem decides_next (bytes : Bytes) : Decides bytes (next bytes) := by
  cases bytes with
  | nil => exact .nil
  | cons b rest =>
      by_cases hb : b = SYNC
      · subst hb
        cases rest with
        | nil => exact .sync
        | cons after rest =>
            by_cases hafter : after &&& 0xFC = 0
            · cases rest with
              | nil =>
                  simp only [next, hafter, ne_eq, not_true_eq_false, if_false]
                  exact .noLength hafter
              | cons low rest =>
                  simp only [next, hafter, ne_eq, not_true_eq_false, if_false]
                  split
                  · next c₁ c₂ c₃ later hlater =>
                      have hdrop := List.take_append_drop (payloadLength after low) rest
                      rw [hlater] at hdrop
                      have hlen : (rest.take (payloadLength after low)).length =
                          payloadLength after low := by
                        have hrest := congrArg List.length hlater
                        rw [List.length_drop, List.length_cons] at hrest
                        rw [List.length_take]
                        omega
                      split
                      · next hcrc =>
                          have h := Decides.intact later hafter hlen hcrc
                          rw [hdrop] at h
                          exact h
                      · next hcrc =>
                          have h := Decides.failed later hafter hlen hcrc
                          rw [hdrop] at h
                          exact h
                  · next hshort =>
                      refine .incomplete hafter ?_
                      by_contra hlong
                      have hthree : 3 ≤ (rest.drop (payloadLength after low)).length := by
                        rw [List.length_drop]
                        omega
                      obtain ⟨c₁, c₂, c₃, later, hlater⟩ := exists_three hthree
                      exact hshort c₁ c₂ c₃ later hlater
            · have h : next (SYNC :: after :: rest) = some .skip := by
                simp [next, hafter]
              rw [h]
              exact .reserved rest hafter
      · have h : next (b :: rest) = some .skip := by
          cases rest with
          | nil => simp [next, hb]
          | cons after rest => simp [next, hb]
        rw [h]
        exact .notSync rest hb

/-- The frame format leaves no choice. -/
theorem Decides.next_eq {bytes : Bytes} {t : Option FrameToken} (h : Decides bytes t) :
    next bytes = t := by
  cases h with
  | nil => rfl
  | notSync rest hb =>
      cases rest with
      | nil => simp [next, hb]
      | cons after rest => simp [next, hb]
  | sync => simp [next]
  | reserved rest hafter => simp [next, hafter]
  | noLength hafter => simp [next, hafter]
  | @incomplete after low rest hafter hshort =>
      simp only [next, hafter, ne_eq, not_true_eq_false, if_false]
      split
      · next c₁ c₂ c₃ later hlater =>
          have hrest := congrArg List.length hlater
          simp only [List.length_drop, List.length_cons] at hrest
          omega
      · rfl
  | @failed after low c₁ c₂ c₃ payload later hafter hlen hcrc =>
      simp only [next, hafter, ne_eq, not_true_eq_false, if_false, ← hlen,
        List.drop_left, List.take_left, hcrc]
  | @intact after low c₁ c₂ c₃ payload later hafter hlen hcrc =>
      simp only [next, hafter, ne_eq, not_true_eq_false, if_false, ← hlen,
        List.drop_left, List.take_left, hcrc, if_true]

/-- A token takes at least one byte. -/
theorem size_pos (t : FrameToken) : 0 < t.size := by
  cases t with
  | skip => exact Nat.one_pos
  | reject => exact Nat.one_pos
  | accept payload =>
      rw [size]
      omega

/-- A token takes no more bytes than there are. -/
theorem size_le {bytes : Bytes} {t : FrameToken} (h : next bytes = some t) :
    t.size ≤ bytes.length := by
  have hdecides := decides_next bytes
  rw [h] at hdecides
  cases hdecides with
  | notSync rest hb => simp [size]
  | reserved rest hafter => simp [size]
  | failed later hafter hlen hcrc => simp [size]
  | intact later hafter hlen hcrc => simp [size]

end FrameToken

/-- The scan as a tokenizer. -/
def frameTokenizer : Tokenizer UInt8 FrameToken where
  next := FrameToken.next
  size := FrameToken.size
  size_pos := FrameToken.size_pos
  size_le := FrameToken.size_le

/-- What the scan decides does not depend on the bytes that follow. -/
theorem frame_tokenizer_stable : frameTokenizer.Stable := by
  intro bytes t h more
  have hdecides := FrameToken.decides_next bytes
  have hnext : FrameToken.next bytes = some t := h
  rw [hnext] at hdecides
  show FrameToken.next (bytes ++ more) = some t
  refine FrameToken.Decides.next_eq ?_
  cases hdecides with
  | notSync rest hb => exact .notSync (rest ++ more) hb
  | reserved rest hafter => exact .reserved (rest ++ more) hafter
  | failed later hafter hlen hcrc =>
      have hmore := FrameToken.Decides.failed (later ++ more) hafter hlen hcrc
      simpa using hmore
  | intact later hafter hlen hcrc =>
      have hmore := FrameToken.Decides.intact (later ++ more) hafter hlen hcrc
      simpa using hmore

/-! ## The scan, token by token -/

namespace FrameToken

/-- The pending garbage as an event. -/
def flushed (run : Nat) : List FrameEvent := if 0 < run then [.garbage run] else []

/-- The events of a list of tokens behind `run` bytes of pending garbage. -/
def render : Nat → List FrameToken → List FrameEvent
  | run, [] => flushed run
  | run, .skip :: ts => render (run + 1) ts
  | run, .reject :: ts => flushed run ++ .crcError :: render 1 ts
  | run, .accept payload :: ts =>
    flushed run ++ .frame (msgType payload) payload :: render 0 ts

/-- The CRC failures among the tokens. -/
def failures : List FrameToken → Nat
  | [] => 0
  | .reject :: ts => failures ts + 1
  | .skip :: ts | .accept _ :: ts => failures ts

/-- The bytes that the tokens discard. -/
def garbage : List FrameToken → Nat
  | [] => 0
  | .skip :: ts | .reject :: ts => garbage ts + 1
  | .accept _ :: ts => garbage ts

end FrameToken

open FrameToken

namespace Deframer

theorem flush_eq (d : Deframer) (run : Nat) :
    d.flush run = ({ d with garbageBytes := d.garbageBytes + run }, flushed run) := by
  unfold flush flushed
  split
  · rfl
  · next h =>
      obtain rfl : run = 0 := by omega
      rfl

/-- Where the scan waits, it reports the pending garbage and holds the rest. -/
theorem scan_of_none {bytes : Bytes} (h : next bytes = none) (d : Deframer) (run : Nat) :
    d.scan run bytes = d.finish run bytes := by
  have hdecides := decides_next bytes
  rw [h] at hdecides
  cases hdecides with
  | nil => rw [scan]
  | sync => rw [scan]; simp
  | noLength hafter =>
      rw [scan]
      simp [hafter, finish]
  | @incomplete after low rest hafter hshort =>
      rw [scan]
      simp only [ne_eq, not_true_eq_false, if_false, hafter]
      split
      · next c₁ c₂ c₃ later hlater =>
          have hrest := congrArg List.length hlater
          simp only [List.length_drop, List.length_cons] at hrest
          omega
      · rfl

/-- A byte that starts no frame joins the run of garbage. -/
theorem scan_of_skip {bytes : Bytes} (h : next bytes = some .skip) (d : Deframer) (run : Nat) :
    d.scan run bytes = d.scan (run + 1) (bytes.drop 1) := by
  have hdecides := decides_next bytes
  rw [h] at hdecides
  cases hdecides with
  | @notSync b rest hb =>
      cases rest with
      | nil => rw [scan]; simp [hb]
      | cons after rest => rw [scan]; simp [hb]
  | @reserved after rest hafter =>
      rw [scan]
      simp [hafter]

/-- A frame with a wrong checksum ends the run and is counted, and its first byte alone begins the
next run. -/
theorem scan_of_reject {bytes : Bytes} (h : next bytes = some .reject) (d : Deframer) (run : Nat) :
    d.scan run bytes =
      let s := scan { d with
          garbageBytes := d.garbageBytes + run
          crcFailures := d.crcFailures + 1 } 1 (bytes.drop 1)
      (s.1, flushed run ++ .crcError :: s.2) := by
  have hdecides := decides_next bytes
  rw [h] at hdecides
  cases hdecides with
  | @failed after low c₁ c₂ c₃ payload later hafter hlen hcrc =>
      rw [scan]
      simp only [ne_eq, not_true_eq_false, if_false, hafter, flush_eq]
      split
      · next hlater =>
          rw [← hlen, List.drop_left] at hlater
          simp only [List.cons.injEq] at hlater
          obtain ⟨rfl, rfl, rfl, rfl⟩ := hlater
          rw [← hlen, List.take_left, if_neg hcrc]
          rfl
      · next hshort =>
          rw [← hlen, List.drop_left] at hshort
          exact absurd rfl (hshort c₁ c₂ c₃ later)

/-- A frame ends the run, and the scan goes on behind it. -/
theorem scan_of_accept {bytes payload : Bytes} (h : next bytes = some (.accept payload))
    (d : Deframer) (run : Nat) :
    d.scan run bytes =
      let s := scan { d with garbageBytes := d.garbageBytes + run } 0
        (bytes.drop (size (.accept payload)))
      (s.1, flushed run ++ .frame (msgType payload) payload :: s.2) := by
  have hdecides := decides_next bytes
  rw [h] at hdecides
  cases hdecides with
  | @intact after low c₁ c₂ c₃ _ later hafter hlen hcrc =>
      have hdrop : (SYNC :: after :: low :: (payload ++ c₁ :: c₂ :: c₃ :: later)).drop
          (size (.accept payload)) = later := by
        show (payload ++ c₁ :: c₂ :: c₃ :: later).drop (payload.length + 3) = later
        rw [← List.drop_drop, List.drop_left]
        rfl
      rw [scan, hdrop]
      simp only [ne_eq, not_true_eq_false, if_false, hafter, flush_eq]
      split
      · next hlater =>
          rw [← hlen, List.drop_left] at hlater
          simp only [List.cons.injEq] at hlater
          obtain ⟨rfl, rfl, rfl, rfl⟩ := hlater
          rw [← hlen, List.take_left, if_pos hcrc]
      · next hshort =>
          rw [← hlen, List.drop_left] at hshort
          exact absurd rfl (hshort c₁ c₂ c₃ later)

/-- The scan takes one token after the other. -/
theorem scan_eq (d : Deframer) (run : Nat) (bytes : Bytes) :
    d.scan run bytes =
      ({ crcFailures := d.crcFailures + failures (frameTokenizer.tokens bytes).1
         garbageBytes := d.garbageBytes + run + garbage (frameTokenizer.tokens bytes).1
         buf := (frameTokenizer.tokens bytes).2 },
        render run (frameTokenizer.tokens bytes).1) := by
  induction bytes using Tokenizer.tokens.induct (k := frameTokenizer) generalizing d run with
  | case1 bytes hnext =>
      rw [Tokenizer.tokens_of_none _ hnext, scan_of_none hnext, finish, flush_eq]
      rfl
  | case2 bytes t hnext later rest hlater ih =>
      rw [Tokenizer.tokens_of_some _ hnext]
      cases t with
      | skip =>
          rw [scan_of_skip hnext]
          refine (ih d (run + 1)).trans ?_
          simp only [failures, garbage, render]
          congr 2
          omega
      | reject =>
          rw [scan_of_reject hnext]
          have hrest := ih { d with
              garbageBytes := d.garbageBytes + run
              crcFailures := d.crcFailures + 1 } 1
          simp only
          rw [show bytes.drop 1 = bytes.drop (frameTokenizer.size .reject) from rfl, hrest]
          simp only [failures, garbage, render]
          congr 2
          · omega
          · omega
      | accept payload =>
          rw [scan_of_accept hnext]
          have hrest := ih { d with garbageBytes := d.garbageBytes + run } 0
          simp only
          rw [show bytes.drop (size (.accept payload)) =
            bytes.drop (frameTokenizer.size (.accept payload)) from rfl, hrest]
          simp only [failures, garbage, render, Nat.add_zero]

end Deframer
/-! ## Frames on the wire -/

/-- A CRC as the last three bytes of a frame. -/
def crcBytes (crc : UInt32) : Bytes := [(crc >>> 16).toUInt8, (crc >>> 8).toUInt8, crc.toUInt8]

/-- `build`: the frame of a payload of at most 1023 bytes. -/
def buildFrame (payload : Bytes) : Bytes :=
  let body := SYNC :: UInt8.ofNat (payload.length >>> 8) :: UInt8.ofNat payload.length :: payload
  body ++ crcBytes (crc24q body)

/-- A frame has three bytes in front of its payload and three behind it. -/
theorem build_frame_length (payload : Bytes) :
    (buildFrame payload).length = payload.length + 6 := by
  simp [buildFrame, crcBytes]

/-- The checksum that a frame states is big-endian. -/
theorem stated_crc_toNat (high mid low : UInt8) :
    (statedCrc high mid low).toNat = high.toNat * 65536 + mid.toNat * 256 + low.toNat := by
  have hhigh := high.toNat_lt
  have hmid := mid.toNat_lt
  have hlow := low.toNat_lt
  have h16 : (high.toUInt32 <<< 16).toNat = high.toNat <<< 16 := by
    rw [UInt32.toNat_shiftLeft]
    simp only [UInt8.toNat_toUInt32, UInt32.reduceToNat, Nat.reducePow, Nat.reduceMod]
    rw [Nat.shiftLeft_eq]
    omega
  have h8 : (mid.toUInt32 <<< 8).toNat = mid.toNat <<< 8 := by
    rw [UInt32.toNat_shiftLeft]
    simp only [UInt8.toNat_toUInt32, UInt32.reduceToNat, Nat.reducePow, Nat.reduceMod]
    rw [Nat.shiftLeft_eq]
    omega
  have hfirst : high.toNat <<< 16 ||| mid.toNat <<< 8 = (high.toNat * 256 + mid.toNat) <<< 8 := by
    rw [← Nat.shiftLeft_add_eq_or_of_lt (by rw [Nat.shiftLeft_eq]; omega)]
    simp only [Nat.shiftLeft_eq]
    omega
  rw [statedCrc, UInt32.toNat_or, UInt32.toNat_or, h16, h8, UInt8.toNat_toUInt32, hfirst,
    ← Nat.shiftLeft_add_eq_or_of_lt (by omega), Nat.shiftLeft_eq]
  omega

/-- The three bytes of a checksum are its digits to the base 256. -/
theorem crc_bytes_toNat (crc : UInt32) :
    (crc >>> 16).toUInt8.toNat = crc.toNat / 65536 % 256 ∧
      (crc >>> 8).toUInt8.toNat = crc.toNat / 256 % 256 ∧ crc.toUInt8.toNat = crc.toNat % 256 := by
  simp [UInt32.toNat_shiftRight, Nat.shiftRight_eq_div_pow]

/-- The CRC bytes state the CRC. -/
theorem stated_crc_eq {crc : UInt32} (h : crc.toNat < 2 ^ 24) {c₁ c₂ c₃ : UInt8} :
    crc = statedCrc c₁ c₂ c₃ ↔ [c₁, c₂, c₃] = crcBytes crc := by
  obtain ⟨h₁, h₂, h₃⟩ := crc_bytes_toNat crc
  have hstated := stated_crc_toNat c₁ c₂ c₃
  have hc₁ := c₁.toNat_lt
  have hc₂ := c₂.toNat_lt
  have hc₃ := c₃.toNat_lt
  constructor
  · intro heq
    rw [← heq] at hstated
    have hbytes : c₁ = (crc >>> 16).toUInt8 ∧ c₂ = (crc >>> 8).toUInt8 ∧ c₃ = crc.toUInt8 := by
      refine ⟨UInt8.toNat_inj.mp ?_, UInt8.toNat_inj.mp ?_, UInt8.toNat_inj.mp ?_⟩
      · omega
      · omega
      · omega
    rw [crcBytes, hbytes.1, hbytes.2.1, hbytes.2.2]
  · intro hbytes
    simp only [crcBytes, List.cons.injEq, and_true] at hbytes
    obtain ⟨rfl, rfl, rfl⟩ := hbytes
    apply UInt32.toNat_inj.mp
    omega

/-- With six zero bits in front the two bytes are a number below 1024. -/
theorem payload_length_eq {after : UInt8} (h : after &&& 0xFC = 0) (low : UInt8) :
    after.toNat < 4 ∧ payloadLength after low = after.toNat * 256 + low.toNat := by
  have hlow := low.toNat_lt
  have hbits : ∀ a : BitVec 8, a &&& 0xFC#8 = 0#8 → a.toNat < 4 := by decide +kernel
  have hlt : after.toNat < 4 := by
    have hvec := congrArg UInt8.toBitVec h
    exact hbits after.toBitVec (by simpa using hvec)
  refine ⟨hlt, ?_⟩
  have hmask : (after &&& 0x03).toNat = after.toNat := by
    have hmod : after.toNat &&& 3 = after.toNat % 4 := Nat.and_two_pow_sub_one_eq_mod after.toNat 2
    rw [UInt8.toNat_and]
    show after.toNat &&& 3 = after.toNat
    omega
  rw [payloadLength, hmask, ← Nat.shiftLeft_add_eq_or_of_lt (by omega), Nat.shiftLeft_eq]

/-- The length bytes of a payload of at most 1023 bytes. -/
theorem build_length_bytes {n : Nat} (h : n ≤ 1023) :
    UInt8.ofNat (n >>> 8) &&& 0xFC = 0 ∧
      payloadLength (UInt8.ofNat (n >>> 8)) (UInt8.ofNat n) = n := by
  have hbits : ∀ a : Fin 4, UInt8.ofNat a &&& 0xFC = 0 := by decide
  have hshift : n >>> 8 = n / 256 := Nat.shiftRight_eq_div_pow n 8
  have hafter := hbits ⟨n >>> 8, by omega⟩
  refine ⟨hafter, ?_⟩
  have hhigh : (UInt8.ofNat (n >>> 8)).toNat = n / 256 := by
    rw [UInt8.toNat_ofNat', hshift]
    omega
  have hlow : (UInt8.ofNat n).toNat = n % 256 := UInt8.toNat_ofNat'
  rw [(payload_length_eq hafter _).2, hhigh, hlow]
  omega

namespace FrameToken

/-- The scan accepts a frame. -/
theorem next_build_frame {payload : Bytes} (h : payload.length ≤ 1023) (later : Bytes) :
    next (buildFrame payload ++ later) = some (.accept payload) := by
  obtain ⟨hafter, hlen⟩ := build_length_bytes h
  have hcrc := (stated_crc_eq (crc24q_lt (SYNC :: UInt8.ofNat (payload.length >>> 8) ::
    UInt8.ofNat payload.length :: payload))).mpr rfl
  have hdecides := Decides.intact later hafter hlen.symm hcrc
  refine Decides.next_eq ?_
  simpa [buildFrame, crcBytes] using hdecides

/-- What the scan accepts is a frame. -/
theorem next_accept {bytes payload : Bytes} (h : next bytes = some (.accept payload)) :
    payload.length ≤ 1023 ∧ ∃ later, bytes = buildFrame payload ++ later := by
  have hdecides := decides_next bytes
  rw [h] at hdecides
  cases hdecides with
  | @intact after low c₁ c₂ c₃ _ later hafter hlen hcrc =>
      obtain ⟨hlt, hnat⟩ := payload_length_eq hafter low
      have hlow := low.toNat_lt
      rw [hnat] at hlen
      have hshift : payload.length >>> 8 = payload.length / 256 :=
        Nat.shiftRight_eq_div_pow payload.length 8
      have hhead : after = UInt8.ofNat (payload.length >>> 8) ∧
          low = UInt8.ofNat payload.length := by
        refine ⟨UInt8.toNat_inj.mp ?_, UInt8.toNat_inj.mp ?_⟩
        · rw [UInt8.toNat_ofNat', hshift]
          omega
        · rw [UInt8.toNat_ofNat']
          omega
      have hcrc' := (stated_crc_eq (crc24q_lt _)).mp hcrc
      refine ⟨by omega, later, ?_⟩
      rw [buildFrame]
      simp only [← hhead.1, ← hhead.2, ← hcrc']
      simp

end FrameToken

end OpenNtrip
