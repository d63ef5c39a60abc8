import OpenNtrip.Gnss.Nmea
import OpenNtrip.Lib.Transducer

/-!
# What the serial worker receives

`on_rx_bytes` and `on_line` of `workers/serial.rs`, with the `NmeaWatch` that reports changes. The
bytes are taken one by one, so reads may cut the stream anywhere; the lines handed on are those of
the stream, each cut to what the buffer keeps of it (`receive_lines`).
-/

namespace OpenNtrip

open Nmea

/-! ## Changes of the fix -/

/-- A single-precision number that the watch compares and prints. `tenths` is
`(f64::from(x) * 10.0).round() as i32`, `oneDecimal` is `{:.1}`. -/
class WatchedFloat (Single : Type) extends FloatType Single where
  tenths : Single → Int
  oneDecimal : Single → Text

/-- `quality_name`. -/
def qualityName (q : UInt8) : Text :=
  String.toList <| match q.toNat with
    | 0 => "Invalid"
    | 1 => "GPS"
    | 2 => "DGPS"
    | 3 => "PPS"
    | 4 => "RTK Fixed"
    | 5 => "RTK Float"
    | 6 => "Estimated"
    | 7 => "Manual"
    | 8 => "Simulation"
    | 9 => "WAAS"
    | _ => "Unknown"

/-- The values last reported. -/
structure NmeaWatch where
  quality : Option UInt8 := none
  sats : Option UInt8 := none
  hdopTenths : Option Int := none
  station : Option UInt16 := none
  deriving DecidableEq, Repr

/-- `{:.1}` of a number of tenths. -/
def tenthsText (t : Int) : Text :=
  (if t < 0 then ['-'] else []) ++ decimalText (t.natAbs / 10) ++ '.' :: decimalText (t.natAbs % 10)

namespace NmeaWatch

variable {Single Double : Type} [WatchedFloat Single] [FloatType Double]

/-- The lines about the fix quality. -/
def qualityLines (prevQ : UInt8) (g : Nmea.Gga Single Double) : List Text :=
  if g.quality = prevQ then []
  else
    let wasRtk := prevQ = 4 || prevQ = 5
    let degraded := if g.quality = 4 then false else if g.quality = 5 then prevQ = 4 else true
    (qualityName prevQ ++ " -> ".toList ++ qualityName g.quality) ::
      if wasRtk && degraded then
        [match g.ageS with
          | some age =>
            "RTK degraded; correction data age was ".toList ++ WatchedFloat.oneDecimal age ++
              " s".toList
          | none => "RTK degraded; correction data age unknown".toList]
      else []

/-- A value that is reported when it changes, and how the change is worded. -/
def change {A : Type} [DecidableEq A] (last : Option A) (now : Option A)
    (word : Option A → A → List Text) : Option A × List Text :=
  match now with
  | none => (last, [])
  | some value => if last = some value then (last, []) else (some value, word last value)

/-- `on_gga`. -/
def onGga (watch : NmeaWatch) (g : Nmea.Gga Single Double) : NmeaWatch × List Text :=
  let quality := qualityLines (watch.quality.getD 0) g
  let (sats, satsLines) := change watch.sats (some g.sats) fun last now =>
    last.toList.map fun prev =>
      "Satellites: ".toList ++ decimalText prev.toNat ++ " -> ".toList ++ decimalText now.toNat
  let (hdopTenths, hdopLines) :=
    change watch.hdopTenths (g.hdop.map WatchedFloat.tenths) fun last now =>
      last.toList.map fun prev =>
        "HDOP: ".toList ++ tenthsText prev ++ " -> ".toList ++ tenthsText now
  let (station, stationLines) := change watch.station g.stationId fun last now =>
    ["Base station ID: ".toList ++ (match last with
      | some prev => decimalText prev.toNat ++ " -> ".toList ++ decimalText now.toNat
      | none => decimalText now.toNat)]
  ({ quality := some g.quality, sats, hdopTenths, station },
    quality ++ satsLines ++ hdopLines ++ stationLines)

end NmeaWatch

/-! ## Receiving -/

/-- `LINE_CAP`. -/
def LINE_CAP : Nat := 1024

/-- What the receive path keeps between bytes: the line so far, the watch, and the slot that the
NTRIP worker reads. -/
structure SerialRx where
  lineBuf : Bytes
  watch : NmeaWatch
  lastGga : Option Text
  deriving DecidableEq, Repr

/-- What the receive path does. `line` is the call of `on_line`, the others are calls of the hub. -/
inductive RxOutput (Single Double : Type) where
  | line (text : Text)
  | record (raw : Text)
  | event (text : Text)
  | data (sentence : Sentence Single Double)
  deriving DecidableEq, Repr

namespace SerialRx

/-- A worker starts with an empty line and a new watch, and the slot as it is. -/
def start (lastGga : Option Text) : SerialRx where
  lineBuf := []
  watch := {}
  lastGga

section

variable {Single Double : Type} [WatchedFloat Single] [FloatType Double]

/-- `on_line`. -/
def onLine (rx : SerialRx) (text : Text) : SerialRx × List (RxOutput Single Double) :=
  if !text.startsWith ['$'] then (rx, [])
  else
    match (parse text : Except NmeaError (Sentence Single Double)) with
    | .error _ => (rx, [])
    | .ok (.gga g) =>
      let (watch, events) := rx.watch.onGga g
      ({ rx with watch, lastGga := some g.raw },
        .record g.raw :: events.map .event ++ [.data (.gga g)])
    | .ok sentence => (rx, [.data sentence])

/-- `on_rx_bytes`, for one byte. -/
def onRxByte (rx : SerialRx) (b : UInt8) : SerialRx × List (RxOutput Single Double) :=
  if b = LF then
    let text := (fromUtf8Lossy rx.lineBuf).trim
    let rx := { rx with lineBuf := [] }
    if text.isEmpty then (rx, [])
    else
      let (rx, outputs) := onLine rx text
      (rx, .line text :: outputs)
  else
    let kept := if LINE_CAP ≤ rx.lineBuf.length then [] else rx.lineBuf
    ({ rx with lineBuf := kept ++ [b] }, [])

/-- `on_rx_bytes`. -/
def onRxBytes (rx : SerialRx) (data : Bytes) : SerialRx × List (RxOutput Single Double) :=
  Transducer.run onRxByte rx data

/-- One byte of a line joins the buffer, which starts again when it is full. -/
def pushByte (buf : Bytes) (b : UInt8) : Bytes :=
  (if LINE_CAP ≤ buf.length then [] else buf) ++ [b]

end

/-! ## The lines of a stream -/

/-- What the buffer keeps of a line: all of it, or what is left after whole buffers. -/
def keep (line : Bytes) : Bytes := line.drop (LINE_CAP * ((line.length - 1) / LINE_CAP))

/-- The text of a buffer that is handed on, unless it is blank. -/
def bufText (buf : Bytes) : Option Text :=
  let text := (fromUtf8Lossy buf).trim
  if text.isEmpty then none else some text

/-- The text of a line that is handed on. -/
def lineText (line : Bytes) : Option Text := bufText (keep line)

/-- The lines of a stream that a line feed ends. -/
def completeLines (stream : Bytes) : List Bytes := (stream.splitOn LF).dropLast

/-- The calls of `on_line` among the outputs. -/
def handed {Single Double : Type} (outputs : List (RxOutput Single Double)) : List Text :=
  outputs.filterMap fun output => match output with
    | .line text => some text
    | _ => none

/-! ### The buffer -/

theorem keep_suffix (line : Bytes) : keep line <:+ line := List.drop_suffix _ _

theorem keep_length (line : Bytes) : (keep line).length ≤ LINE_CAP := by
  rw [keep, List.length_drop, LINE_CAP]
  omega

theorem keep_short {line : Bytes} (h : line.length ≤ LINE_CAP) : keep line = line := by
  have hzero : LINE_CAP * ((line.length - 1) / LINE_CAP) = 0 := by
    rw [LINE_CAP] at h ⊢
    omega
  rw [keep, hzero, List.drop_zero]

/-- The buffer holds what is kept of the line so far. -/
theorem keep_push (line : Bytes) (b : UInt8) : keep (line ++ [b]) = pushByte (keep line) b := by
  have hlength : (keep line).length = line.length - LINE_CAP * ((line.length - 1) / LINE_CAP) :=
    List.length_drop
  rw [pushByte, hlength, keep, List.length_append, List.length_singleton, Nat.add_sub_cancel]
  rw [LINE_CAP] at hlength ⊢
  by_cases hfull : 1024 ≤ line.length - 1024 * ((line.length - 1) / 1024)
  · have hall : 1024 * (line.length / 1024) = line.length := by omega
    rw [if_pos hfull, hall, List.drop_left]
    rfl
  · have hsame : 1024 * (line.length / 1024) = 1024 * ((line.length - 1) / 1024) := by omega
    rw [if_neg hfull, hsame, List.drop_append_of_le_length (by omega)]
    rfl

theorem keep_eq_fold (line : Bytes) : line.foldl pushByte [] = keep line := by
  induction line using List.reverseRecOn with
  | nil => rfl
  | append_singleton line b ih => rw [List.foldl_concat, ih, keep_push]

/-! ### Streams -/

theorem complete_lines_cons {line : Bytes} (h : LF ∉ line) (rest : Bytes) :
    completeLines (line ++ LF :: rest) = line :: completeLines rest := by
  rw [completeLines, List.splitOn_append_cons_self, List.splitOn_eq_singleton h,
    List.singleton_append, List.dropLast_cons_of_ne_nil (List.splitOn_ne_nil _ _)]
  rfl

theorem complete_lines_open {stream : Bytes} (h : LF ∉ stream) : completeLines stream = [] := by
  rw [completeLines, List.splitOn_eq_singleton h]
  rfl

/-! ### One call, one byte -/

section

variable {Single Double : Type}

theorem handed_append (first second : List (RxOutput Single Double)) :
    handed (first ++ second) = handed first ++ handed second := List.filterMap_append

theorem handed_line (text : Text) (outputs : List (RxOutput Single Double)) :
    handed (.line text :: outputs) = text :: handed outputs := rfl

theorem handed_events (raw : Text) (events : List Text) (sentence : Sentence Single Double) :
    handed (.record raw :: events.map .event ++ [.data sentence]) = [] := by
  induction events with
  | nil => rfl
  | cons event rest ih => exact ih

variable [WatchedFloat Single] [FloatType Double]

/-- A line leaves the buffer alone, hands nothing on, and changes the slot only if it is accepted as
fix data. -/
theorem on_line_eq {rx rx' : SerialRx} {text : Text} {outputs : List (RxOutput Single Double)}
    (h : onLine rx text = (rx', outputs)) :
    rx'.lineBuf = rx.lineBuf ∧ handed outputs = [] ∧
      (rx'.lastGga = rx.lastGga ∨ ∃ g : Nmea.Gga Single Double,
        parse text = .ok (.gga g) ∧ rx'.lastGga = some g.raw) := by
  unfold onLine at h
  split at h
  · obtain ⟨rfl, rfl⟩ := Prod.mk.inj h
    exact ⟨rfl, rfl, .inl rfl⟩
  split at h
  · obtain ⟨rfl, rfl⟩ := Prod.mk.inj h
    exact ⟨rfl, rfl, .inl rfl⟩
  · next g hparse =>
      obtain ⟨rfl, rfl⟩ := Prod.mk.inj h
      exact ⟨rfl, handed_events _ _ _, .inr ⟨g, hparse, rfl⟩⟩
  · obtain ⟨rfl, rfl⟩ := Prod.mk.inj h
    exact ⟨rfl, rfl, .inl rfl⟩

/-- Any other byte than a line feed joins the buffer. -/
theorem on_rx_byte_push {b : UInt8} (h : b ≠ LF) (rx : SerialRx) :
    (onRxByte rx b : SerialRx × List (RxOutput Single Double)) =
      ({ rx with lineBuf := pushByte rx.lineBuf b }, []) := if_neg h

/-- A line feed empties the buffer, and hands on its text unless it is blank. -/
theorem on_rx_byte_lf {rx rx' : SerialRx} {outputs : List (RxOutput Single Double)}
    (h : onRxByte rx LF = (rx', outputs)) :
    rx'.lineBuf = [] ∧ handed outputs = (bufText rx.lineBuf).toList ∧
      (rx'.lastGga = rx.lastGga ∨ ∃ text, bufText rx.lineBuf = some text ∧
        ∃ g : Nmea.Gga Single Double, parse text = .ok (.gga g) ∧ rx'.lastGga = some g.raw) := by
  unfold onRxByte at h
  rw [if_pos rfl] at h
  simp only at h
  rw [bufText]
  split at h
  · next hblank =>
      obtain ⟨rfl, rfl⟩ := Prod.mk.inj h
      rw [if_pos hblank]
      exact ⟨rfl, rfl, .inl rfl⟩
  · next htext =>
      obtain ⟨called, outputs', hcall⟩ : ∃ called, ∃ outputs' : List (RxOutput Single Double),
          onLine { rx with lineBuf := [] } (fromUtf8Lossy rx.lineBuf).trim = (called, outputs') :=
        ⟨_, _, rfl⟩
      rw [hcall] at h
      obtain ⟨rfl, rfl⟩ := Prod.mk.inj h
      obtain ⟨hbuf, hhanded, hslot⟩ := on_line_eq hcall
      rw [if_neg htext]
      refine ⟨hbuf, ?_, hslot.imp_right fun hgga => ⟨_, rfl, hgga⟩⟩
      rw [handed_line, hhanded]
      rfl

/-! ### Whole streams -/

/-- The receive path over a stream. -/
def receive (rx : SerialRx) (stream : Bytes) : SerialRx × List (RxOutput Single Double) :=
  Transducer.run onRxByte rx stream

theorem receive_append (rx : SerialRx) (first second : Bytes) :
    (receive rx (first ++ second) : SerialRx × List (RxOutput Single Double)) =
      let (rx', outputs) : SerialRx × List (RxOutput Single Double) := receive rx first
      let (rx'', outputs') : SerialRx × List (RxOutput Single Double) := receive rx' second
      (rx'', outputs ++ outputs') := Transducer.run_append _ _ _ _

/-- An unfinished line only fills the buffer. -/
theorem receive_open {line : Bytes} (h : LF ∉ line) (rx : SerialRx) :
    (receive rx line : SerialRx × List (RxOutput Single Double)) =
      ({ rx with lineBuf := line.foldl pushByte rx.lineBuf }, []) := by
  induction line generalizing rx with
  | nil => rfl
  | cons b rest ih =>
      have hb : b ≠ LF := fun heq => h (heq ▸ List.mem_cons_self)
      have hrest := ih (fun hmem => h (List.mem_cons_of_mem _ hmem))
        { rx with lineBuf := pushByte rx.lineBuf b }
      rw [receive, Transducer.run_cons, on_rx_byte_push hb]
      rw [receive] at hrest
      rw [hrest]
      rfl

/-- What is handed on are the lines of the stream, in order and once. -/
theorem receive_lines {rx rx' : SerialRx} {stream : Bytes}
    {outputs : List (RxOutput Single Double)} (hbuf : rx.lineBuf = [])
    (h : receive rx stream = (rx', outputs)) :
    handed outputs = (completeLines stream).filterMap lineText := by
  induction hlength : stream.length using Nat.strong_induction_on
    generalizing rx rx' stream outputs with
  | _ length ih =>
      by_cases hmem : LF ∈ stream
      · obtain ⟨line, rest, rfl, hline⟩ := List.eq_append_cons_of_mem hmem
        have hshorter : rest.length < length := by
          rw [← hlength, List.length_append, List.length_cons]
          omega
        obtain ⟨rx₁, first, hfirst⟩ : ∃ rx₁, ∃ first : List (RxOutput Single Double),
            onRxByte { rx with lineBuf := keep line } LF = (rx₁, first) := ⟨_, _, rfl⟩
        obtain ⟨rx₂, later, hlater⟩ : ∃ rx₂, ∃ later : List (RxOutput Single Double),
            receive rx₁ rest = (rx₂, later) := ⟨_, _, rfl⟩
        obtain ⟨hempty, hhanded, _⟩ := on_rx_byte_lf hfirst
        have hrest := ih rest.length hshorter hempty hlater rfl
        have hrun : (receive rx (line ++ LF :: rest) : SerialRx × List (RxOutput Single Double)) =
            (rx₂, first ++ later) := by
          rw [receive_append, receive_open hline, hbuf, keep_eq_fold]
          simp only
          rw [receive, Transducer.run_cons, hfirst]
          simp only
          rw [receive] at hlater
          rw [hlater]
          rfl
        rw [hrun] at h
        rw [← (Prod.mk.inj h).2, handed_append, hhanded, hrest, complete_lines_cons hline,
          List.filterMap_cons]
        show (bufText (keep line)).toList ++ _ = _
        rw [lineText]
        cases bufText (keep line) with
        | none => rfl
        | some text => rfl
      · rw [receive_open hmem] at h
        rw [← (Prod.mk.inj h).2, complete_lines_open hmem]
        rfl

/-! ### The slot -/

variable (Single Double) in
/-- The slot is unset, or a text without line feed that is parsed as fix data with the text itself
as its sentence. -/
def GgaSlot (slot : Option Text) : Prop :=
  ∀ raw ∈ slot, '\n' ∉ raw ∧ ∃ g : Nmea.Gga Single Double, parse raw = .ok (.gga g) ∧ g.raw = raw

variable (Single Double) in
/-- The buffer is within its bound and holds no line feed, and the slot is as promised. -/
structure Sound (rx : SerialRx) : Prop where
  buf_le : rx.lineBuf.length ≤ LINE_CAP
  buf_open : LF ∉ rx.lineBuf
  slot : GgaSlot Single Double rx.lastGga

theorem start_sound {slot : Option Text} (h : GgaSlot Single Double slot) :
    Sound Single Double (start slot) :=
  ⟨Nat.zero_le _, List.not_mem_nil, h⟩

/-- What a buffer without a line feed hands on is trimmed and has none either. -/
theorem buf_text_trimmed {buf : Bytes} {text : Text} (hbuf : LF ∉ buf)
    (h : bufText buf = some text) : text.Trimmed ∧ '\n' ∉ text := by
  rw [bufText] at h
  split at h
  · exact absurd h (by simp)
  · obtain rfl := Option.some.inj h
    refine ⟨Text.trim_trimmed _, fun hmem => hbuf ?_⟩
    have hdecoded : '\n' ∈ fromUtf8Lossy buf :=
      (List.dropWhile_suffix _).subset ((List.rdropWhile_prefix _ _).subset hmem)
    exact Text.mem_decode_lossy hdecoded (by decide)

/-- Every byte keeps the receive path sound, and the slot changes only by a line that is accepted.
-/
theorem on_rx_byte_sound {rx rx' : SerialRx} {b : UInt8}
    {outputs : List (RxOutput Single Double)} (hsound : Sound Single Double rx)
    (h : onRxByte rx b = (rx', outputs)) :
    Sound Single Double rx' ∧ (rx'.lastGga = rx.lastGga ∨ ∃ text ∈ handed outputs,
      rx'.lastGga = some text ∧ text.Trimmed ∧
        ∃ g : Nmea.Gga Single Double, parse text = .ok (.gga g)) := by
  by_cases hlf : b = LF
  · subst hlf
    obtain ⟨hempty, hhanded, hslot⟩ := on_rx_byte_lf h
    have hbuf : rx'.lineBuf.length ≤ LINE_CAP ∧ LF ∉ rx'.lineBuf := by
      rw [hempty]
      exact ⟨Nat.zero_le _, List.not_mem_nil⟩
    rcases hslot with hsame | ⟨text, htext, g, hparse, hnew⟩
    · exact ⟨⟨hbuf.1, hbuf.2, hsame ▸ hsound.slot⟩, .inl hsame⟩
    · obtain ⟨htrimmed, hopen⟩ := buf_text_trimmed hsound.buf_open htext
      have hraw : g.raw = text := (parse_gga_raw hparse).trans htrimmed
      rw [hraw] at hnew
      refine ⟨⟨hbuf.1, hbuf.2, ?_⟩, .inr ⟨text, ?_, hnew, htrimmed, g, hparse⟩⟩
      · rw [hnew]
        intro raw hmem
        obtain rfl := Option.mem_some.mp hmem
        exact ⟨hopen, g, hparse, hraw⟩
      · rw [hhanded, htext]
        exact List.mem_cons_self
  · rw [on_rx_byte_push hlf] at h
    obtain ⟨rfl, rfl⟩ := Prod.mk.inj h
    refine ⟨⟨?_, ?_, hsound.slot⟩, .inl rfl⟩
    · show (pushByte rx.lineBuf b).length ≤ LINE_CAP
      have hle := hsound.buf_le
      rw [pushByte, List.length_append, List.length_singleton]
      split
      · exact Nat.le_of_ble_eq_true rfl
      · next hroom => omega
    · show LF ∉ pushByte rx.lineBuf b
      rw [pushByte, List.mem_append, List.mem_singleton, not_or]
      refine ⟨?_, fun heq => hlf heq.symm⟩
      split
      · exact List.not_mem_nil
      · exact hsound.buf_open

theorem receive_sound {rx : SerialRx} (hsound : Sound Single Double rx) (stream : Bytes) :
    Sound Single Double (receive rx stream : SerialRx × List (RxOutput Single Double)).1 :=
  Transducer.run_invariant (Sound Single Double)
    (fun _ _ _ h => (on_rx_byte_sound h rfl).1) hsound

theorem receive_blocks (rx : SerialRx) (blocks : List Bytes) :
    (Transducer.run onRxBytes rx blocks : SerialRx × List (RxOutput Single Double)) =
      receive rx blocks.flatten := Transducer.run_blocks _ _ _

variable (Single Double) in
/-- The slot after the worker has been started and stopped any number of times. -/
def slotAfter (sessions : List (List Bytes)) : Option Text :=
  sessions.foldl (fun slot blocks =>
    (Transducer.run onRxBytes (start slot) blocks :
      SerialRx × List (RxOutput Single Double)).1.lastGga) none

theorem slot_after_sound (sessions : List (List Bytes)) :
    GgaSlot Single Double (slotAfter Single Double sessions) := by
  induction sessions using List.reverseRecOn with
  | nil => exact fun raw hraw => absurd hraw (Option.not_mem_none raw)
  | append_singleton sessions blocks ih =>
      rw [slotAfter, List.foldl_concat, receive_blocks]
      exact (receive_sound (start_sound ih) blocks.flatten).slot

/-- Whatever the worker has received in earlier sessions and however its reads cut the stream: it
hands on the lines of the stream, each of which is cut to at most the size of the buffer and does
not affect the lines after it, the buffer stays within its bound, and the slot is as promised and
changes only by a line whose checksum holds. -/
theorem receive_assembles (sessions : List (List Bytes)) :
    let rx := start (slotAfter Single Double sessions)
    (∀ blocks : List Bytes,
      (Transducer.run onRxBytes rx blocks : SerialRx × List (RxOutput Single Double)) =
        receive rx blocks.flatten) ∧
    (∀ stream, let (rx', outputs) : SerialRx × List (RxOutput Single Double) := receive rx stream
      handed outputs = (completeLines stream).filterMap lineText ∧
      rx'.lineBuf.length ≤ LINE_CAP ∧
      (∀ raw ∈ rx'.lastGga, '\n' ∉ raw ∧
        ∃ g : Nmea.Gga Single Double, parse raw = .ok (.gga g) ∧ g.raw = raw) ∧
      ∀ b, let (rx'', more) : SerialRx × List (RxOutput Single Double) := onRxByte rx' b
        rx''.lastGga = rx'.lastGga ∨ ∃ text ∈ handed more, rx''.lastGga = some text ∧
          ∃ body hi lo, Framed text body hi lo) ∧
    (∀ line, keep line <:+ line ∧ (keep line).length ≤ LINE_CAP ∧
      (line.length ≤ LINE_CAP → keep line = line)) ∧
    ∀ line rest, LF ∉ line → completeLines (line ++ LF :: rest) = line :: completeLines rest := by
  intro rx
  have hstart : Sound Single Double rx := start_sound (slot_after_sound sessions)
  refine ⟨receive_blocks rx, fun stream => ?_,
    fun line => ⟨keep_suffix line, keep_length line, keep_short⟩,
    fun line rest hline => complete_lines_cons hline rest⟩
  have hsound := receive_sound hstart stream
  refine ⟨receive_lines rfl rfl, hsound.buf_le, hsound.slot, fun b => ?_⟩
  refine (on_rx_byte_sound hsound rfl).2.imp_right ?_
  rintro ⟨text, hmem, hslot, htrimmed, g, hparse⟩
  obtain ⟨body, hi, lo, hframed, _⟩ := parse_eq_ok.mp hparse
  rw [htrimmed] at hframed
  exact ⟨text, hmem, hslot, body, hi, lo, hframed⟩

end

end SerialRx
end OpenNtrip
