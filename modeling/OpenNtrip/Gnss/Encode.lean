import OpenNtrip.Gnss.Decode
import OpenNtrip.Rust.Utf8

/-!
# RTCM encoding and its round trip

`BitWriter` is the encoder of the decoder's tests. A `Message` holds every field of a supported
message, those that the decoder does not show included, each in as many bits as it has on the wire.
-/

namespace OpenNtrip

/-- The bytes written, the last one filled up with zeros, and the number of bits. -/
structure BitWriter where
  bytes : Bytes := []
  lenBits : Nat := 0
  deriving DecidableEq, Repr

namespace BitWriter

/-- One bit of the loop of `put`. -/
def putBit (w : BitWriter) (bit : Bool) : BitWriter :=
  let bytes := if w.lenBits % 8 = 0 then w.bytes ++ [0] else w.bytes
  let idx := w.lenBits / 8
  { bytes := bytes.modify idx (· ||| (bit.toUInt8 <<< UInt8.ofNat (7 - w.lenBits % 8)))
    lenBits := w.lenBits + 1 }

/-- The lowest bits of `v`, msb first. -/
def put (w : BitWriter) : Nat → Nat → BitWriter
  | 0, _ => w
  | bits + 1, v => (w.putBit (v.testBit bits)).put bits v

/-- The bits of the writer, in front of the zeros that fill up the last byte. -/
structure Writes (w : BitWriter) (bits : List Bool) : Prop where
  length : w.lenBits = bits.length
  fits : w.bytes.length = (bits.length + 7) / 8
  written : Bits.ofBytes w.bytes =
    bits ++ List.replicate (8 * w.bytes.length - bits.length) false

/-- A new writer has written nothing. -/
theorem writes_new : Writes {} [] := ⟨rfl, rfl, rfl⟩

/-- A bit that is shifted into a byte is at that place, and all others are clear. -/
theorem shifted_bit : ∀ (bit : Bool) (k i : Fin 8),
    (bit.toUInt8 <<< UInt8.ofNat k).toNat.testBit i = (decide (i = k) && bit) := by
  decide

/-- A bit that is put into a byte. -/
theorem or_bit (b : UInt8) (bit : Bool) {k i : Nat} (hk : k < 8) (hi : i < 8) :
    (b ||| (bit.toUInt8 <<< UInt8.ofNat (7 - k))).toNat.testBit (7 - i) =
      if k = i then b.toNat.testBit (7 - i) || bit else b.toNat.testBit (7 - i) := by
  have hshifted := shifted_bit bit ⟨7 - k, by omega⟩ ⟨7 - i, by omega⟩
  rw [UInt8.toNat_or, Nat.testBit_or, hshifted]
  split
  · next h =>
      subst h
      simp
  · next h =>
      have hne : ¬ 7 - i = 7 - k := by omega
      simp [hne]

/-- A bit that is put into a byte string. -/
theorem bits_modify (data : Bytes) {n : Nat} (h : n < 8 * data.length) (bit : Bool) :
    Bits.ofBytes (data.modify (n / 8) (· ||| (bit.toUInt8 <<< UInt8.ofNat (7 - n % 8)))) =
      (Bits.ofBytes data).modify n (· || bit) := by
  apply List.ext_getElem?
  intro p
  rw [Bits.get_of_bytes, List.getElem?_modify, List.getElem?_modify, Bits.get_of_bytes]
  by_cases hbyte : n / 8 = p / 8
  · have hindex : p / 8 < data.length := by omega
    obtain ⟨b, hb⟩ : ∃ b, data[p / 8]? = some b := ⟨_, List.getElem?_eq_getElem hindex⟩
    have hor := or_bit b bit (k := n % 8) (i := p % 8) (by omega) (by omega)
    have hsame : n % 8 = p % 8 ↔ n = p := by omega
    simp only [hsame] at hor
    rw [hb]
    simp only [hbyte, if_true, Option.map_eq_map, Option.map_some, hor]
  · have hne : n ≠ p := by
      rintro rfl
      exact hbyte rfl
    simp only [hbyte, hne, if_false, Option.map_eq_map, Option.map_map]
    rfl

/-- A bit is appended to what was written. -/
theorem Writes.put_bit {w : BitWriter} {bits : List Bool} (h : w.Writes bits) (bit : Bool) :
    (w.putBit bit).Writes (bits ++ [bit]) := by
  obtain ⟨hlength, hfits, hwritten⟩ := h
  -- the byte of the new bit is there, and holds a zero at its place
  obtain ⟨data, hdata, hlen, hbits⟩ : ∃ data : Bytes,
      data = (if w.lenBits % 8 = 0 then w.bytes ++ [0] else w.bytes) ∧
      data.length = (bits.length + 1 + 7) / 8 ∧
      Bits.ofBytes data =
        bits ++ false :: List.replicate (8 * data.length - (bits.length + 1)) false := by
    refine ⟨_, rfl, ?_, ?_⟩
    · split
      · rw [List.length_append, List.length_singleton]
        omega
      · omega
    · have hzeros : ∀ n, n ≠ 0 →
          List.replicate n false = false :: List.replicate (n - 1) false := by
        intro n hn
        obtain ⟨m, rfl⟩ : ∃ m, n = m + 1 := ⟨n - 1, by omega⟩
        rfl
      split
      · have hnone : 8 * w.bytes.length - bits.length = 0 := by omega
        rw [Bits.of_bytes_append, hwritten, hnone, List.replicate_zero, List.append_nil,
          List.length_append, List.length_singleton]
        have hseven : 8 * (w.bytes.length + 1) - (bits.length + 1) = 7 := by omega
        rw [hseven]
        rfl
      · rw [hwritten, hzeros _ (by omega)]
        congr 3
  have hput : w.putBit bit = ⟨data.modify (bits.length / 8)
      (· ||| (bit.toUInt8 <<< UInt8.ofNat (7 - bits.length % 8))), bits.length + 1⟩ := by
    rw [putBit, hdata, hlength]
  rw [hput]
  refine ⟨?_, ?_, ?_⟩
  · rw [List.length_append]
    rfl
  · show (data.modify _ _).length = _
    rw [List.length_modify, hlen, List.length_append]
    rfl
  · show Bits.ofBytes (data.modify _ _) = _ ++ List.replicate (8 * (data.modify _ _).length - _) _
    rw [bits_modify data (by omega), List.length_modify, hbits, List.length_append,
      List.length_singleton, List.append_assoc]
    rw [List.modify_eq_take_drop, List.take_left, List.drop_left]
    rfl

/-- A field is appended with the highest of its bits first. -/
theorem Writes.put {w : BitWriter} {bits : List Bool} (h : w.Writes bits) (width v : Nat) :
    (w.put width v).Writes (bits ++ Bits.ofNat width v) := by
  induction width generalizing w bits with
  | zero =>
      rw [BitWriter.put, Bits.ofNat, List.append_nil]
      exact h
  | succ width ih =>
      have hnext := ih (h.put_bit (v.testBit width))
      rw [List.append_assoc] at hnext
      exact hnext

/-- Put numbers in order, each with its width. -/
def putAll (w : BitWriter) (fields : List (Nat × Nat)) : BitWriter :=
  fields.foldl (fun w field => w.put field.1 field.2) w

/-- The bits of the numbers. -/
def fieldBits (fields : List (Nat × Nat)) : List Bool :=
  fields.flatMap fun field => Bits.ofNat field.1 field.2

/-- Fields are appended one behind the other. -/
theorem Writes.put_all {w : BitWriter} {bits : List Bool} (h : w.Writes bits)
    (fields : List (Nat × Nat)) : (w.putAll fields).Writes (bits ++ fieldBits fields) := by
  induction fields generalizing w bits with
  | nil =>
      rw [fieldBits, List.flatMap_nil, List.append_nil]
      exact h
  | cons field fields ih =>
      have hnext := ih (h.put field.1 field.2)
      rw [List.append_assoc] at hnext
      exact hnext

end BitWriter

/-! ## Messages -/

/-- A text whose bytes are counted by a number of 8 bits. -/
structure ShortText where
  val : Text
  short : val.toBytes.length ≤ 255

/-- The fields of a supported message, in the order of the wire. Where a bit or an indicator is
not shown by the decoder it is kept as its bits. -/
inductive Message where
  | base (station : BitVec 12) (indicators : BitVec 10) (x : BitVec 38) (oscillator : BitVec 2)
      (y : BitVec 38) (quarterCycle : BitVec 2) (z : BitVec 38) (height : Option (BitVec 16))
  | antenna (station : BitVec 12) (name : ShortText) (setup : BitVec 8) (serial : ShortText)
  | textMessage (station : BitVec 12) (mjd : BitVec 16) (seconds : BitVec 17) (numChars : BitVec 7)
      (text : ShortText)
  | receiver (station : BitVec 12) (name : ShortText) (setup : BitVec 8)
      (serial kind firmware receiverSerial : ShortText)
  | biases (station : BitVec 12) (indicator : Bool) (reserved : BitVec 3)
      (l1ca l1p l2ca l2p : Option (BitVec 16))
  | msm (constellation : Constellation) (kind : Fin 7) (station : BitVec 12) (epoch : BitVec 30)
      (indicators : BitVec 19) (satMask : BitVec 64) (sigMask : BitVec 32)
      (cellMask : BitVec (Decode.countOnes satMask.toNat * Decode.countOnes sigMask.toNat))

namespace Message

/-- The first MSM number of a constellation, minus one. -/
def msmBase : Constellation → Nat
  | .gps => 1070
  | .glonass => 1080
  | .galileo => 1090
  | .sbas => 1100
  | .qzss => 1110
  | .beiDou => 1120
  | .navIc => 1130

/-- The message number. -/
def msgType : Message → UInt16
  | base _ _ _ _ _ _ _ none => 1005
  | base _ _ _ _ _ _ _ (some _) => 1006
  | antenna .. => 1008
  | textMessage .. => 1029
  | receiver .. => 1033
  | biases .. => 1230
  | msm constellation kind .. => UInt16.ofNat (msmBase constellation + kind + 1)

/-- A field of a number of bits. -/
def bitsField {width : Nat} (x : BitVec width) : Nat × Nat := (width, x.toNat)

/-- The fields of a text: the number of its bytes, and the bytes. -/
def textFields (s : ShortText) : List (Nat × Nat) :=
  (8, s.val.toBytes.length) :: s.val.toBytes.map fun b => (8, b.toNat)

/-- The mask of the biases that are present, msb first. -/
def biasMask (biases : List (Option (BitVec 16))) : Nat := Bits.toNat (biases.map Option.isSome)

/-- The fields behind the message number. -/
def body : Message → List (Nat × Nat)
  | base station indicators x oscillator y quarterCycle z height =>
    [bitsField station, bitsField indicators, bitsField x, bitsField oscillator, bitsField y,
      bitsField quarterCycle, bitsField z] ++ height.toList.map bitsField
  | antenna station name setup serial =>
    bitsField station :: (textFields name ++ bitsField setup :: textFields serial)
  | textMessage station mjd seconds numChars text =>
    [bitsField station, bitsField mjd, bitsField seconds, bitsField numChars] ++ textFields text
  | receiver station name setup serial kind firmware receiverSerial =>
    bitsField station :: (textFields name ++ bitsField setup :: (textFields serial ++
      (textFields kind ++ (textFields firmware ++ textFields receiverSerial))))
  | biases station indicator reserved l1ca l1p l2ca l2p =>
    [bitsField station, (1, indicator.toNat), bitsField reserved,
      (4, biasMask [l1ca, l1p, l2ca, l2p])] ++
        ([l1ca, l1p, l2ca, l2p].filterMap id).map bitsField
  | msm _ _ station epoch indicators satMask sigMask cellMask =>
    [bitsField station, bitsField epoch, bitsField indicators, bitsField satMask,
      bitsField sigMask, bitsField cellMask]

/-- The bit-exact encoding. -/
def encode (m : Message) : Bytes :=
  (({} : BitWriter).putAll ((12, m.msgType.toNat) :: m.body)).bytes

/-- A counted text, absent if it is empty. -/
def optional (s : ShortText) : Option Text := if s.val = [] then none else some s.val

/-- What the decoder shows of a message. -/
def shown : Message → Decoded
  | base station _ x _ y _ z height =>
    .basePosition (UInt16.ofNat station.toNat) height.isSome (Int64.ofInt x.toInt)
      (Int64.ofInt y.toInt) (Int64.ofInt z.toInt) (height.map fun h => UInt64.ofNat h.toNat)
      (if x = 0 ∧ y = 0 ∧ z = 0 then none
        else some (Int64.ofInt x.toInt, Int64.ofInt y.toInt, Int64.ofInt z.toInt))
  | antenna station name setup serial =>
    .antennaInfo (UInt16.ofNat station.toNat) name.val (UInt8.ofNat setup.toNat)
      (optional serial) none none none
  | textMessage station mjd seconds _ text =>
    .textMessage (UInt16.ofNat station.toNat) (UInt16.ofNat mjd.toNat) (UInt32.ofNat seconds.toNat)
      text.val
  | receiver station name setup serial kind firmware receiverSerial =>
    .antennaInfo (UInt16.ofNat station.toNat) name.val (UInt8.ofNat setup.toNat)
      (optional serial) (optional kind) (optional firmware) (optional receiverSerial)
  | biases station indicator _ l1ca l1p l2ca l2p =>
    .glonassBiases (UInt16.ofNat station.toNat) indicator
      ([(0, l1ca), (1, l1p), (2, l2ca), (3, l2p)].filterMap fun (signal, bias) =>
        bias.map fun raw => (signal, Int64.ofInt raw.toInt))
  | msm constellation kind station epoch _ satMask sigMask _ =>
    .msmHeader constellation (UInt16.ofNat (msmBase constellation + kind + 1))
      (UInt16.ofNat station.toNat) (UInt32.ofNat epoch.toNat)
      (UInt8.ofNat (Decode.countOnes satMask.toNat)) (UInt8.ofNat (Decode.countOnes sigMask.toNat))
      (((List.range 32).filter fun i => sigMask.getMsbD i).map fun i => UInt8.ofNat (i + 1))

/-! ## Reading a message back -/

open BitReader SizedParser Decode BitWriter

theorem to_u16_ofNat (n : Nat) : (UInt64.ofNat n).toUInt16 = UInt16.ofNat n := by
  apply UInt16.toNat_inj.mp
  rw [UInt64.toNat_toUInt16, UInt64.toNat_ofNat', UInt16.toNat_ofNat',
    Nat.mod_mod_of_dvd n (Nat.pow_dvd_pow 2 (by omega))]

theorem to_u32_ofNat (n : Nat) : (UInt64.ofNat n).toUInt32 = UInt32.ofNat n := by
  apply UInt32.toNat_inj.mp
  rw [UInt64.toNat_toUInt32, UInt64.toNat_ofNat', UInt32.toNat_ofNat',
    Nat.mod_mod_of_dvd n (Nat.pow_dvd_pow 2 (by omega))]

theorem to_u8_ofNat (n : Nat) : (UInt64.ofNat n).toUInt8 = UInt8.ofNat n := by
  apply UInt8.toNat_inj.mp
  rw [UInt64.toNat_toUInt8, UInt64.toNat_ofNat', UInt8.toNat_ofNat',
    Nat.mod_mod_of_dvd n (Nat.pow_dvd_pow 2 (by omega))]

section Fields

variable {width : Nat} (x : BitVec width)

/-- An unsigned field is read back as its value. -/
theorem gives_field : (number width).Gives (Bits.ofNat width x.toNat) (UInt64.ofNat x.toNat) :=
  gives_number x.isLt

/-- A skipped field is passed over, whatever its value. -/
theorem gives_skipped_field : (skipped width).Gives (Bits.ofNat width x.toNat) () :=
  gives_skipped (Bits.length_of_nat width x.toNat)

/-- A signed field is read back as the value of its two's complement. -/
theorem gives_signed_field (hpos : 0 < width) (hle : width ≤ 64) :
    (signed width).Gives (Bits.ofNat width x.toNat) (Int64.ofInt x.toInt) := by
  have hgives := (gives_field x).map (signExtend width)
  rw [sign_extend_eq hpos hle] at hgives
  exact hgives

end Fields

/-- Bytes are read back as they are. -/
theorem gives_bytes (data : Bytes) : (bytes data.length).Gives (Bits.ofBytes data) data := by
  induction data with
  | nil => exact gives_pure []
  | cons b data ih =>
      refine Gives.bind (gives_number b.toNat_lt) ?_
      have hbyte : (UInt64.ofNat b.toNat).toUInt8 = b := by rw [to_u8_ofNat, UInt8.ofNat_toNat]
      show (map ((UInt64.ofNat b.toNat).toUInt8 :: ·) (bytes data.length)).Gives _ (b :: data)
      rw [hbyte]
      exact ih.map (b :: ·)

/-- The bits of the bytes of a text. -/
theorem gives_text (s : Text) : (text s.toBytes.length).Gives (Bits.ofBytes s.toBytes) s := by
  have hgives := (gives_bytes s.toBytes).map fromUtf8Lossy
  rw [Text.from_utf8_lossy_to_bytes] at hgives
  exact hgives

/-- A counted string is written as the number of its bytes and its bytes. -/
theorem field_bits_text (s : ShortText) :
    fieldBits (textFields s) = Bits.ofNat 8 s.val.toBytes.length ++ Bits.ofBytes s.val.toBytes := by
  rw [textFields, fieldBits, List.flatMap_cons, List.flatMap_map]
  rfl

/-- The number of bytes of a short text survives the way through its field. -/
theorem text_length (s : ShortText) : (UInt64.ofNat s.val.toBytes.length).toNat =
    s.val.toBytes.length := by
  have hle := s.short
  rw [UInt64.toNat_ofNat']
  omega

theorem gives_length (s : ShortText) :
    (number 8).Gives (Bits.ofNat 8 s.val.toBytes.length) (UInt64.ofNat s.val.toBytes.length) :=
  gives_number (Nat.lt_succ_of_le s.short)

/-- A text behind its length, in front of another parser. -/
theorem gives_text_bind {α : Type} (s : ShortText) {f : Text → SizedParser Bool α}
    {later : List Bool} {a : α} (h : (f s.val).Gives later a) :
    ((number 8).bind fun n => (text n.toNat).bind f).Gives
      (fieldBits (textFields s) ++ later) a := by
  rw [field_bits_text, List.append_assoc]
  refine (gives_length s).bind ?_
  rw [text_length]
  exact (gives_text s.val).bind h

/-- A short text is read back, whatever is made of it. -/
theorem gives_text_map {α : Type} (s : ShortText) (f : Text → α) :
    ((number 8).bind fun n => map f (text n.toNat)).Gives (fieldBits (textFields s))
      (f s.val) := by
  rw [field_bits_text]
  refine (gives_length s).bind ?_
  rw [text_length]
  exact (gives_text s.val).map f

/-- A text without bytes is empty. -/
theorem to_bytes_eq_nil {s : Text} (h : s.toBytes.length = 0) : s = [] := by
  have hnil : s.toBytes = Text.toBytes [] := List.eq_nil_of_length_eq_zero h
  exact Text.to_bytes_injective hnil

/-- A counted string is read back, an empty one as none. -/
theorem gives_counted_text (s : ShortText) :
    countedText.Gives (fieldBits (textFields s)) (optional s) := by
  rw [field_bits_text]
  refine (gives_length s).bind ?_
  split
  · next hzero =>
      have hlen := text_length s
      rw [hzero] at hlen
      have hnil := to_bytes_eq_nil hlen.symm
      rw [optional, if_pos hnil, hnil]
      exact gives_pure none
  · next hsome =>
      have hnil : s.val ≠ [] := by
        intro h
        rw [h] at hsome
        exact hsome rfl
      rw [optional, if_neg hnil, text_length]
      exact (gives_text s.val).map some

/-- The first field is written in front of the others. -/
theorem field_bits_cons (field : Nat × Nat) (fields : List (Nat × Nat)) :
    fieldBits (field :: fields) = Bits.ofNat field.1 field.2 ++ fieldBits fields := rfl

/-- What is written of two lists of fields is written in a row. -/
theorem field_bits_append (first second : List (Nat × Nat)) :
    fieldBits (first ++ second) = fieldBits first ++ fieldBits second := List.flatMap_append

/-- A coordinate is read as zero if all of its bits are. -/
theorem int_eq_zero_iff (x : BitVec 38) : Int64.ofInt x.toInt = 0 ↔ x = 0 := by
  constructor
  · intro h
    have hle := BitVec.le_toInt x
    have hlt := BitVec.toInt_lt (x := x)
    have hint := congrArg Int64.toInt h
    rw [Int64.toInt_ofInt_of_le (by omega) (by omega)] at hint
    exact BitVec.eq_of_toInt_eq (hint.trans rfl)
  · rintro rfl
    rfl

/-- A position is shown unless all of its coordinates are zero. -/
theorem lla_eq (x y z : BitVec 38) :
    lla (Int64.ofInt x.toInt) (Int64.ofInt y.toInt) (Int64.ofInt z.toInt) =
      if x = 0 ∧ y = 0 ∧ z = 0 then none
      else some (Int64.ofInt x.toInt, Int64.ofInt y.toInt, Int64.ofInt z.toInt) := by
  rw [lla]
  simp only [int_eq_zero_iff]

/-- A base position is read back, with or without a height. -/
theorem gives_base (station : BitVec 12) (indicators : BitVec 10) (x : BitVec 38)
    (oscillator : BitVec 2) (y : BitVec 38) (quarterCycle : BitVec 2) (z : BitVec 38)
    (height : Option (BitVec 16)) :
    (baseLayout height.isSome).Gives
      (fieldBits (base station indicators x oscillator y quarterCycle z height).body)
      (base station indicators x oscillator y quarterCycle z height).shown := by
  simp only [body, shown, List.cons_append, List.nil_append, field_bits_cons]
  refine (gives_field station).bind ?_
  refine (gives_skipped_field indicators).bind ?_
  refine (gives_signed_field x (by omega) (by omega)).bind ?_
  refine (gives_skipped_field oscillator).bind ?_
  refine (gives_signed_field y (by omega) (by omega)).bind ?_
  refine (gives_skipped_field quarterCycle).bind ?_
  refine (gives_signed_field z (by omega) (by omega)).bind ?_
  rw [lla_eq, to_u16_ofNat]
  cases height with
  | none => exact (gives_pure none).bind (gives_pure _)
  | some h => exact ((gives_field h).map some).bind (gives_pure _)

/-- An antenna descriptor is read back. -/
theorem gives_antenna (station : BitVec 12) (name : ShortText) (setup : BitVec 8)
    (serial : ShortText) :
    layout1008.Gives (fieldBits (antenna station name setup serial).body)
      (antenna station name setup serial).shown := by
  simp only [body, shown, field_bits_cons, field_bits_append]
  refine (gives_field station).bind ?_
  refine gives_text_bind name ?_
  refine (gives_field setup).bind ?_
  have hserial : optional serial = nonEmpty serial.val := by
    rw [optional, nonEmpty]
    simp only [List.isEmpty_iff]
  rw [to_u16_ofNat, to_u8_ofNat, hserial]
  exact gives_text_map serial _

/-- A text message is read back. -/
theorem gives_text_message (station : BitVec 12) (mjd : BitVec 16) (seconds : BitVec 17)
    (numChars : BitVec 7) (text : ShortText) :
    layout1029.Gives (fieldBits (textMessage station mjd seconds numChars text).body)
      (textMessage station mjd seconds numChars text).shown := by
  simp only [body, shown, List.cons_append, List.nil_append, field_bits_cons]
  refine (gives_field station).bind ?_
  refine (gives_field mjd).bind ?_
  refine (gives_field seconds).bind ?_
  refine (gives_field numChars).bind ?_
  rw [to_u16_ofNat, to_u16_ofNat, to_u32_ofNat]
  exact gives_text_map text _

/-- A receiver descriptor is read back with all of its five strings. -/
theorem gives_receiver (station : BitVec 12) (name : ShortText) (setup : BitVec 8)
    (serial kind firmware receiverSerial : ShortText) :
    layout1033.Gives
      (fieldBits (receiver station name setup serial kind firmware receiverSerial).body)
      (receiver station name setup serial kind firmware receiverSerial).shown := by
  simp only [body, shown, field_bits_cons, field_bits_append]
  refine (gives_field station).bind ?_
  refine gives_text_bind name ?_
  refine (gives_field setup).bind ?_
  refine (gives_counted_text serial).bind ?_
  refine (gives_counted_text kind).bind ?_
  refine (gives_counted_text firmware).bind ?_
  rw [to_u16_ofNat, to_u8_ofNat]
  exact (gives_counted_text receiverSerial).map _

/-- The biases of the signals that are in the mask. -/
theorem gives_signals {mask : UInt8} {signals : List (UInt8 × Option (BitVec 16))}
    (hmask : ∀ p ∈ signals, (mask &&& ((0x8 : UInt8) >>> p.1) ≠ 0 ↔ p.2.isSome)) :
    (biasesLayout mask (signals.map Prod.fst)).Gives
      (fieldBits (((signals.map Prod.snd).filterMap id).map bitsField))
      (signals.filterMap fun (signal, bias) =>
        bias.map fun raw => (signal, Int64.ofInt raw.toInt)) := by
  induction signals with
  | nil => exact gives_pure []
  | cons p signals ih =>
      obtain ⟨signal, bias⟩ := p
      have hrest := ih fun p hp => hmask p (List.mem_cons_of_mem _ hp)
      have hbit := hmask (signal, bias) List.mem_cons_self
      rw [List.map_cons, biasesLayout]
      cases bias with
      | none =>
          rw [if_neg (fun h => absurd (hbit.mp h) (by simp))]
          exact hrest
      | some raw =>
          rw [if_pos (hbit.mpr rfl)]
          exact (gives_signed_field raw (by omega) (by omega)).bind (hrest.map _)

/-- The mask has a bit for each bias that is present. -/
theorem bias_mask_bits : ∀ a b c d : Bool, Bits.toNat [a, b, c, d] < 16 ∧
    [0, 1, 2, 3].map (fun signal => decide ((UInt64.ofNat (Bits.toNat [a, b, c, d])).toUInt8 &&&
      ((0x8 : UInt8) >>> signal) ≠ 0)) = [a, b, c, d] := by
  decide

/-- GLONASS biases are read back, those that the mask leaves out as none. -/
theorem gives_biases (station : BitVec 12) (indicator : Bool) (reserved : BitVec 3)
    (l1ca l1p l2ca l2p : Option (BitVec 16)) :
    layout1230.Gives (fieldBits (biases station indicator reserved l1ca l1p l2ca l2p).body)
      (biases station indicator reserved l1ca l1p l2ca l2p).shown := by
  obtain ⟨hlt, hbits⟩ := bias_mask_bits l1ca.isSome l1p.isSome l2ca.isSome l2p.isSome
  have hmask : ∀ p ∈ [(0, l1ca), (1, l1p), (2, l2ca), (3, l2p)],
      ((UInt64.ofNat (biasMask [l1ca, l1p, l2ca, l2p])).toUInt8 &&& ((0x8 : UInt8) >>> p.1) ≠ 0 ↔
        p.2.isSome) := by
    simp only [List.map_cons, List.map_nil, List.cons.injEq, and_true] at hbits
    obtain ⟨h0, h1, h2, h3⟩ := hbits
    simp only [List.forall_mem_cons, List.not_mem_nil, false_implies, implies_true, and_true]
    refine ⟨?_, ?_, ?_, ?_⟩
    · exact decide_eq_true_iff.symm.trans (Bool.eq_iff_iff.mp h0)
    · exact decide_eq_true_iff.symm.trans (Bool.eq_iff_iff.mp h1)
    · exact decide_eq_true_iff.symm.trans (Bool.eq_iff_iff.mp h2)
    · exact decide_eq_true_iff.symm.trans (Bool.eq_iff_iff.mp h3)
  simp only [body, shown, List.cons_append, List.nil_append, field_bits_cons]
  refine (gives_field station).bind ?_
  have hindicator : indicator.toNat < 2 ^ 1 := Nat.lt_succ_of_le indicator.toNat_le
  refine (gives_number hindicator).bind ?_
  refine (gives_skipped_field reserved).bind ?_
  refine (gives_number hlt).bind ?_
  have hshown : (UInt64.ofNat indicator.toNat == 1) = indicator := by
    cases indicator with
    | false => rfl
    | true => rfl
  rw [hshown, to_u16_ofNat]
  exact (gives_signals hmask).map _

/-- The set bits of a signal mask. -/
theorem signal_ids_eq (sigMask : BitVec 32) :
    signalIds (UInt32.ofNat sigMask.toNat) =
      ((List.range 32).filter fun i => sigMask.getMsbD i).map fun i => UInt8.ofNat (i + 1) := by
  have hmask : ∀ i : Fin 32, (0x80000000 >>> UInt32.ofNat i).toNat = 2 ^ (31 - i.val) := by decide
  rw [signalIds]
  refine congrArg (List.map _) (List.filter_congr fun i hi => ?_)
  have hlt : i < 32 := List.mem_range.mp hi
  have hzero : UInt32.ofNat sigMask.toNat &&& (0x80000000 >>> UInt32.ofNat i) = 0 ↔
      sigMask.toNat &&& 2 ^ (31 - i) = 0 := by
    rw [← UInt32.toNat_inj, UInt32.toNat_and, hmask ⟨i, hlt⟩, UInt32.toNat_ofNat',
      Nat.mod_eq_of_lt sigMask.isLt]
    rfl
  have hbit : sigMask.getMsbD i = sigMask.toNat.testBit (31 - i) := by
    rw [BitVec.getMsbD_eq_getLsbD, BitVec.testBit_toNat]
    simp [hlt]
  rw [hbit, Bool.eq_iff_iff, decide_eq_true_iff, ne_eq, hzero, Nat.and_two_pow]
  cases sigMask.toNat.testBit (31 - i) with
  | false => simp
  | true => simp

/-- An MSM header is read back up to its cell mask, whose bits are counted. -/
theorem gives_msm (constellation : Constellation) (kind : Fin 7) (station : BitVec 12)
    (epoch : BitVec 30) (indicators : BitVec 19) (satMask : BitVec 64) (sigMask : BitVec 32)
    (cellMask : BitVec (countOnes satMask.toNat * countOnes sigMask.toNat)) :
    (msmLayout (UInt16.ofNat (msmBase constellation + kind + 1)) constellation).Gives
      (fieldBits (msm constellation kind station epoch indicators satMask sigMask cellMask).body)
      (msm constellation kind station epoch indicators satMask sigMask cellMask).shown := by
  have hsat : (UInt64.ofNat satMask.toNat).toNat = satMask.toNat := by
    rw [UInt64.toNat_ofNat']
    exact Nat.mod_eq_of_lt satMask.isLt
  have hsig : (UInt64.ofNat sigMask.toNat).toUInt32.toNat = sigMask.toNat := by
    rw [to_u32_ofNat, UInt32.toNat_ofNat']
    exact Nat.mod_eq_of_lt sigMask.isLt
  simp only [body, shown, field_bits_cons]
  refine (gives_field station).bind ?_
  refine (gives_field epoch).bind ?_
  refine (gives_skipped_field indicators).bind ?_
  refine (gives_field satMask).bind ?_
  refine (gives_field sigMask).bind ?_
  rw [hsat, hsig, count_ones_byte, count_ones_byte, to_u16_ofNat, to_u32_ofNat, to_u32_ofNat,
    signal_ids_eq]
  have hcell := (gives_skipped_field cellMask).map fun _ => Decoded.msmHeader constellation
    (UInt16.ofNat (msmBase constellation + kind + 1)) (UInt16.ofNat station.toNat)
    (UInt32.ofNat epoch.toNat) (UInt8.ofNat (countOnes satMask.toNat))
    (UInt8.ofNat (countOnes sigMask.toNat))
    (((List.range 32).filter fun i => sigMask.getMsbD i).map fun i => UInt8.ofNat (i + 1))
  have hnil : fieldBits [] = [] := rfl
  rw [hnil, List.append_nil]
  exact hcell

/-- An MSM number belongs to its constellation and is no other message's. -/
theorem msm_number : ∀ (constellation : Constellation) (kind : Fin 7),
    msmConstellation (UInt16.ofNat (msmBase constellation + kind + 1)) = some constellation ∧
      UInt16.ofNat (msmBase constellation + kind + 1) ∉ [1005, 1006, 1008, 1029, 1033, 1230] := by
  intro constellation
  cases constellation with
  | _ => decide

/-- The layout of a message reads it from its fields. -/
theorem gives_body (m : Message) :
    ∃ parser, layout m.msgType = some parser ∧ parser.Gives (fieldBits m.body) m.shown := by
  cases m with
  | base station indicators x oscillator y quarterCycle z height =>
      refine ⟨_, ?_, gives_base station indicators x oscillator y quarterCycle z height⟩
      cases height with
      | none => rfl
      | some h => rfl
  | antenna station name setup serial =>
      exact ⟨_, rfl, gives_antenna station name setup serial⟩
  | textMessage station mjd seconds numChars text =>
      exact ⟨_, rfl, gives_text_message station mjd seconds numChars text⟩
  | receiver station name setup serial kind firmware receiverSerial =>
      exact ⟨_, rfl, gives_receiver station name setup serial kind firmware receiverSerial⟩
  | biases station indicator reserved l1ca l1p l2ca l2p =>
      exact ⟨_, rfl, gives_biases station indicator reserved l1ca l1p l2ca l2p⟩
  | msm constellation kind station epoch indicators satMask sigMask cellMask =>
      refine ⟨_, ?_, gives_msm constellation kind station epoch indicators satMask sigMask cellMask⟩
      obtain ⟨hfound, hnot⟩ := msm_number constellation kind
      simp only [List.mem_cons, List.not_mem_nil, or_false, not_or] at hnot
      obtain ⟨h1005, h1006, h1008, h1029, h1033, h1230⟩ := hnot
      rw [msgType, layout, if_neg h1005, if_neg h1006, if_neg h1008, if_neg h1029, if_neg h1033,
        if_neg h1230, hfound]
      rfl

/-- The number of a message fits its twelve bits. -/
theorem msg_type_lt (m : Message) : m.msgType.toNat < 2 ^ 12 := by
  have hmsm : ∀ (constellation : Constellation) (kind : Fin 7),
      (UInt16.ofNat (msmBase constellation + kind + 1)).toNat < 2 ^ 12 := by
    intro constellation
    cases constellation with
    | _ => decide
  cases m with
  | base station indicators x oscillator y quarterCycle z height =>
      cases height with
      | none => exact Nat.le_of_ble_eq_true rfl
      | some h => exact Nat.le_of_ble_eq_true rfl
  | msm constellation kind station epoch indicators satMask sigMask cellMask =>
      exact hmsm constellation kind
  | _ => exact Nat.le_of_ble_eq_true rfl

/-- Decoding undoes encoding: the bit-exact encoding of any message, followed by any other bytes, is
decoded to the fields of the message. -/
theorem message_round_trip (m : Message) (more : Bytes) :
    decode m.msgType (m.encode ++ more) = Reads.total (some m.shown) := by
  obtain ⟨parser, hlayout, hbody⟩ := gives_body m
  have hwritten := (writes_new.put_all ((12, m.msgType.toNat) :: m.body)).written
  have hgives : (numbered parser).Gives (fieldBits ((12, m.msgType.toNat) :: m.body))
      (UInt64.ofNat m.msgType.toNat, m.shown) :=
    (gives_number (msg_type_lt m)).bind (hbody.map _)
  have hnumber : (UInt64.ofNat m.msgType.toNat).toUInt16 = m.msgType := by
    rw [to_u16_ofNat, UInt16.ofNat_toNat]
  rw [List.nil_append] at hwritten
  rw [decode_eq, hlayout, Option.bind_some, Bits.of_bytes_append, encode, hwritten,
    List.append_assoc, hgives.run, Option.bind_some]
  exact congrArg Reads.total (if_pos hnumber)

/-- The example of the documentation: a 1005 message of 19 bytes. -/
example : (base 2003 8 11141045999 0 226370609836 0 39755214643 none).encode =
    [0x3E, 0xD7, 0xD3, 0x02, 0x02, 0x98, 0x0E, 0xDE, 0xEF, 0x34, 0xB4, 0xBD, 0x62, 0xAC, 0x09,
      0x41, 0x98, 0x6F, 0x33] := by
  decide +kernel

end Message
end OpenNtrip
