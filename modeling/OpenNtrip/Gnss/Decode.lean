import OpenNtrip.Gnss.BitReader

/-!
# RTCM diagnostic decode

`decode` of `rtcm/decode.rs`. Scaled quantities are kept in the units of the message, before the
multiplication by 1e-4 m or 0.02 m. A layout is what a message takes from its bits, and the code
implements it (`decode_eq`).
-/

namespace OpenNtrip

inductive Constellation where
  | gps
  | glonass
  | galileo
  | sbas
  | qzss
  | beiDou
  | navIc
  deriving DecidableEq, Repr

/-- A decoded diagnostic message. `lla` stands for the geodetic equivalent of the position it
holds. -/
inductive Decoded where
  | basePosition (stationId : UInt16) (is1006 : Bool) (ecefX ecefY ecefZ : Int64)
      (antennaHeight : Option UInt64) (lla : Option (Int64 × Int64 × Int64))
  | antennaInfo (stationId : UInt16) (antenna : Text) (setupId : UInt8)
      (antennaSerial receiver firmware receiverSerial : Option Text)
  | textMessage (stationId mjd : UInt16) (secondsOfDay : UInt32) (text : Text)
  | glonassBiases (stationId : UInt16) (biasIndicator : Bool) (biases : List (UInt8 × Int64))
  | msmHeader (constellation : Constellation) (msgType stationId : UInt16) (epoch : UInt32)
      (numSats numSignals : UInt8) (signalIds : List UInt8)
  deriving DecidableEq, Repr

namespace Decode

open BitReader

/-- `lla` of a position: none when the base broadcasts all zeros. -/
def lla (x y z : Int64) : Option (Int64 × Int64 × Int64) :=
  if x = 0 ∧ y = 0 ∧ z = 0 then none else some (x, y, z)

/-- Present if it is not empty. -/
def nonEmpty (s : Text) : Option Text := if s.isEmpty then none else some s

/-- `count_ones` of a number of at most 64 bits. -/
def countOnes (n : Nat) : Nat := ((List.range 64).filter n.testBit).length

/-- The number of ones of a mask fits the byte it is counted in. -/
theorem count_ones_byte (n : Nat) : (UInt8.ofNat (countOnes n)).toNat = countOnes n := by
  have hle : countOnes n ≤ 64 := List.length_filter_le _ _
  rw [UInt8.toNat_ofNat']
  omega

/-- The 1-based positions of the set bits of a signal mask, msb first. -/
def signalIds (sigMask : UInt32) : List UInt8 :=
  ((List.range 32).filter fun i => sigMask &&& (0x80000000 >>> UInt32.ofNat i) ≠ 0).map
    fun i => UInt8.ofNat (i + 1)

/-- Only 1006 carries an antenna height. -/
def readHeight (is1006 : Bool) : Reader (Option UInt64) :=
  if is1006 then do
    let height ← readU 16
    return some height
  else return none

/-- 1005 body; 1006 appends the antenna height. -/
def decodeBase (is1006 : Bool) : Reader Decoded := do
  let stationId ← readU 12
  skip (6 + 1 + 1 + 1 + 1)
  let ecefX ← readS 38
  skip (1 + 1)
  let ecefY ← readS 38
  skip 2
  let ecefZ ← readS 38
  let antennaHeight ← readHeight is1006
  return .basePosition stationId.toUInt16 is1006 ecefX ecefY ecefZ antennaHeight
    (lla ecefX ecefY ecefZ)

def decode1008 : Reader Decoded := do
  let stationId ← readU 12
  let n ← readU 8
  let antenna ← readString n.toNat
  let setupId ← readU 8
  let m ← readU 8
  let serial ← readString m.toNat
  return .antennaInfo stationId.toUInt16 antenna setupId.toUInt8 (nonEmpty serial) none none none

def decode1029 : Reader Decoded := do
  let stationId ← readU 12
  let mjd ← readU 16
  let secondsOfDay ← readU 17
  let _numChars ← readU 7
  let numBytes ← readU 8
  let text ← readString numBytes.toNat
  return .textMessage stationId.toUInt16 mjd.toUInt16 secondsOfDay.toUInt32 text

def decode1033 : Reader Decoded := do
  let stationId ← readU 12
  let n ← readU 8
  let antenna ← readString n.toNat
  let setupId ← readU 8
  let antennaSerial ← readCountedString
  let receiver ← readCountedString
  let firmware ← readCountedString
  let receiverSerial ← readCountedString
  return .antennaInfo stationId.toUInt16 antenna setupId.toUInt8 antennaSerial receiver firmware
    receiverSerial

/-- The loop of `decode_1230`: the biases of the signals in the mask. -/
def readBiases (mask : UInt8) : List UInt8 → Reader (List (UInt8 × Int64))
  | [] => return []
  | signal :: rest =>
    if mask &&& (0x8 >>> signal) ≠ 0 then do
      let raw ← readS 16
      let biases ← readBiases mask rest
      return (signal, raw) :: biases
    else readBiases mask rest

def decode1230 : Reader Decoded := do
  let stationId ← readU 12
  let indicator ← readU 1
  skip 3
  let mask ← readU 4
  let biases ← readBiases mask.toUInt8 [0, 1, 2, 3]
  return .glonassBiases stationId.toUInt16 (indicator == 1) biases

def decodeMsmHeader (msgType : UInt16) (constellation : Constellation) : Reader Decoded := do
  let stationId ← readU 12
  let epoch ← readU 30
  skip (1 + 3 + 7 + 2 + 2 + 1 + 3)
  let satMask ← readU 64
  let sigMask ← readU 32
  let numSats := UInt8.ofNat (countOnes satMask.toNat)
  let numSignals := UInt8.ofNat (countOnes sigMask.toUInt32.toNat)
  skip (numSats.toNat * numSignals.toNat)
  return .msmHeader constellation msgType stationId.toUInt16 epoch.toUInt32 numSats numSignals
    (signalIds sigMask.toUInt32)

/-- Constellation for an MSM message number. -/
def msmConstellation (t : UInt16) : Option Constellation :=
  if ¬ (1 ≤ t % 10 ∧ t % 10 ≤ 7) then none
  else if t / 10 = 107 then some .gps
  else if t / 10 = 108 then some .glonass
  else if t / 10 = 109 then some .galileo
  else if t / 10 = 110 then some .sbas
  else if t / 10 = 111 then some .qzss
  else if t / 10 = 112 then some .beiDou
  else if t / 10 = 113 then some .navIc
  else none

/-- The `match` of `decode`. -/
def decodeBody (msgType : UInt16) : Reader Decoded :=
  if msgType = 1005 then decodeBase false
  else if msgType = 1006 then decodeBase true
  else if msgType = 1008 then decode1008
  else if msgType = 1029 then decode1029
  else if msgType = 1033 then decode1033
  else if msgType = 1230 then decode1230
  else do
    let constellation ← StateT.lift (Reads.total (msmConstellation msgType))
    decodeMsmHeader msgType constellation

end Decode

open Decode BitReader

/-- Decode one message. The payload's own message number must agree with `msgType`. -/
def decode (msgType : UInt16) (payload : Bytes) : Reads Decoded := do
  let (number, r) ← readU 12 (BitReader.new payload)
  if number.toUInt16 ≠ msgType then Reads.total none
  else
    let (decoded, _) ← decodeBody msgType r
    return decoded

namespace Decode

/-! ## Layouts -/

open SizedParser

def baseLayout (is1006 : Bool) : SizedParser Bool Decoded :=
  (number 12).bind fun stationId =>
  (skipped 10).bind fun _ =>
  (signed 38).bind fun ecefX =>
  (skipped 2).bind fun _ =>
  (signed 38).bind fun ecefY =>
  (skipped 2).bind fun _ =>
  (signed 38).bind fun ecefZ =>
  (if is1006 then map some (number 16) else pure none).bind fun antennaHeight =>
  pure (.basePosition stationId.toUInt16 is1006 ecefX ecefY ecefZ antennaHeight
    (lla ecefX ecefY ecefZ))

def layout1008 : SizedParser Bool Decoded :=
  (number 12).bind fun stationId =>
  (number 8).bind fun n =>
  (text n.toNat).bind fun antenna =>
  (number 8).bind fun setupId =>
  (number 8).bind fun m =>
  map (fun serial => .antennaInfo stationId.toUInt16 antenna setupId.toUInt8 (nonEmpty serial) none
    none none) (text m.toNat)

def layout1029 : SizedParser Bool Decoded :=
  (number 12).bind fun stationId =>
  (number 16).bind fun mjd =>
  (number 17).bind fun secondsOfDay =>
  (number 7).bind fun _ =>
  (number 8).bind fun numBytes =>
  map (.textMessage stationId.toUInt16 mjd.toUInt16 secondsOfDay.toUInt32) (text numBytes.toNat)

def layout1033 : SizedParser Bool Decoded :=
  (number 12).bind fun stationId =>
  (number 8).bind fun n =>
  (text n.toNat).bind fun antenna =>
  (number 8).bind fun setupId =>
  countedText.bind fun antennaSerial =>
  countedText.bind fun receiver =>
  countedText.bind fun firmware =>
  map (.antennaInfo stationId.toUInt16 antenna setupId.toUInt8 antennaSerial receiver firmware)
    countedText

def biasesLayout (mask : UInt8) : List UInt8 → SizedParser Bool (List (UInt8 × Int64))
  | [] => pure []
  | signal :: rest =>
    if mask &&& (0x8 >>> signal) ≠ 0 then
      (signed 16).bind fun raw => map ((signal, raw) :: ·) (biasesLayout mask rest)
    else biasesLayout mask rest

def layout1230 : SizedParser Bool Decoded :=
  (number 12).bind fun stationId =>
  (number 1).bind fun indicator =>
  (skipped 3).bind fun _ =>
  (number 4).bind fun mask =>
  map (.glonassBiases stationId.toUInt16 (indicator == 1)) (biasesLayout mask.toUInt8 [0, 1, 2, 3])

def msmLayout (msgType : UInt16) (constellation : Constellation) : SizedParser Bool Decoded :=
  (number 12).bind fun stationId =>
  (number 30).bind fun epoch =>
  (skipped 19).bind fun _ =>
  (number 64).bind fun satMask =>
  (number 32).bind fun sigMask =>
  map (fun _ => .msmHeader constellation msgType stationId.toUInt16 epoch.toUInt32
    (UInt8.ofNat (countOnes satMask.toNat)) (UInt8.ofNat (countOnes sigMask.toUInt32.toNat))
    (signalIds sigMask.toUInt32))
    (skipped ((UInt8.ofNat (countOnes satMask.toNat)).toNat *
      (UInt8.ofNat (countOnes sigMask.toUInt32.toNat)).toNat))

/-- The layout behind the message number, for a supported type. -/
def layout (msgType : UInt16) : Option (SizedParser Bool Decoded) :=
  if msgType = 1005 then some (baseLayout false)
  else if msgType = 1006 then some (baseLayout true)
  else if msgType = 1008 then some layout1008
  else if msgType = 1029 then some layout1029
  else if msgType = 1033 then some layout1033
  else if msgType = 1230 then some layout1230
  else (msmConstellation msgType).map (msmLayout msgType)

/-! ## The code implements the layouts -/

/-- The decoder of a base position reads its layout. -/
theorem implements_base (is1006 : Bool) : Implements (decodeBase is1006) (baseLayout is1006) := by
  refine (implements_read_u 12).bind fun stationId => ?_
  refine (implements_skip 10).bind fun _ => ?_
  refine (implements_read_s 38).bind fun ecefX => ?_
  refine (implements_skip 2).bind fun _ => ?_
  refine (implements_read_s 38).bind fun ecefY => ?_
  refine (implements_skip 2).bind fun _ => ?_
  refine (implements_read_s 38).bind fun ecefZ => ?_
  refine Implements.bind ?_ fun antennaHeight => implements_pure _
  cases is1006 with
  | false => exact implements_pure none
  | true => exact (implements_read_u 16).map some

/-- The decoder of an antenna descriptor reads its layout. -/
theorem implements_1008 : Implements decode1008 layout1008 := by
  refine (implements_read_u 12).bind fun stationId => ?_
  refine (implements_read_u 8).bind fun n => ?_
  refine (implements_read_string n.toNat).bind fun antenna => ?_
  refine (implements_read_u 8).bind fun setupId => ?_
  refine (implements_read_u 8).bind fun m => ?_
  exact (implements_read_string m.toNat).map _

/-- The decoder of a text message reads its layout. -/
theorem implements_1029 : Implements decode1029 layout1029 := by
  refine (implements_read_u 12).bind fun stationId => ?_
  refine (implements_read_u 16).bind fun mjd => ?_
  refine (implements_read_u 17).bind fun secondsOfDay => ?_
  refine (implements_read_u 7).bind fun _ => ?_
  refine (implements_read_u 8).bind fun numBytes => ?_
  exact (implements_read_string numBytes.toNat).map _

/-- The decoder of the receiver and antenna descriptors reads its layout. -/
theorem implements_1033 : Implements decode1033 layout1033 := by
  refine (implements_read_u 12).bind fun stationId => ?_
  refine (implements_read_u 8).bind fun n => ?_
  refine (implements_read_string n.toNat).bind fun antenna => ?_
  refine (implements_read_u 8).bind fun setupId => ?_
  refine implements_read_counted_string.bind fun antennaSerial => ?_
  refine implements_read_counted_string.bind fun receiver => ?_
  refine implements_read_counted_string.bind fun firmware => ?_
  exact implements_read_counted_string.map _

/-- The biases are read signal by signal, those that the mask leaves out as none. -/
theorem implements_read_biases (mask : UInt8) (signals : List UInt8) :
    Implements (readBiases mask signals) (biasesLayout mask signals) := by
  induction signals with
  | nil => exact implements_pure []
  | cons signal rest ih =>
      rw [readBiases, biasesLayout]
      split
      · exact (implements_read_s 16).bind fun raw => ih.map ((signal, raw) :: ·)
      · exact ih

/-- The decoder of the GLONASS biases reads its layout. -/
theorem implements_1230 : Implements decode1230 layout1230 := by
  refine (implements_read_u 12).bind fun stationId => ?_
  refine (implements_read_u 1).bind fun indicator => ?_
  refine (implements_skip 3).bind fun _ => ?_
  refine (implements_read_u 4).bind fun mask => ?_
  exact (implements_read_biases mask.toUInt8 [0, 1, 2, 3]).map _

/-- The decoder of an MSM header reads its layout up to the cell mask. -/
theorem implements_msm_header (msgType : UInt16) (constellation : Constellation) :
    Implements (decodeMsmHeader msgType constellation) (msmLayout msgType constellation) := by
  refine (implements_read_u 12).bind fun stationId => ?_
  refine (implements_read_u 30).bind fun epoch => ?_
  refine (implements_skip 19).bind fun _ => ?_
  refine (implements_read_u 64).bind fun satMask => ?_
  refine (implements_read_u 32).bind fun sigMask => ?_
  exact (implements_skip _).map _

/-- A reader implements a layout, or reads nothing where there is none. -/
def ImplementsLayout (m : Reader Decoded) : Option (SizedParser Bool Decoded) → Prop
  | some parser => Implements m parser
  | none => ∀ r, m r = Reads.total none

/-- Behind the message number, every decoder reads the layout of its type. -/
theorem implements_body (msgType : UInt16) :
    ImplementsLayout (decodeBody msgType) (layout msgType) := by
  rw [decodeBody, layout]
  by_cases h1005 : msgType = 1005
  · rw [if_pos h1005, if_pos h1005]
    exact implements_base false
  rw [if_neg h1005, if_neg h1005]
  by_cases h1006 : msgType = 1006
  · rw [if_pos h1006, if_pos h1006]
    exact implements_base true
  rw [if_neg h1006, if_neg h1006]
  by_cases h1008 : msgType = 1008
  · rw [if_pos h1008, if_pos h1008]
    exact implements_1008
  rw [if_neg h1008, if_neg h1008]
  by_cases h1029 : msgType = 1029
  · rw [if_pos h1029, if_pos h1029]
    exact implements_1029
  rw [if_neg h1029, if_neg h1029]
  by_cases h1033 : msgType = 1033
  · rw [if_pos h1033, if_pos h1033]
    exact implements_1033
  rw [if_neg h1033, if_neg h1033]
  by_cases h1230 : msgType = 1230
  · rw [if_pos h1230, if_pos h1230]
    exact implements_1230
  rw [if_neg h1230, if_neg h1230]
  cases msmConstellation msgType with
  | none => exact fun r => rfl
  | some constellation => exact implements_msm_header msgType constellation

/-! ## The whole message -/

/-- A message with its number in front. -/
def numbered (parser : SizedParser Bool Decoded) : SizedParser Bool (UInt64 × Decoded) :=
  (number 12).bind fun n => map (Prod.mk n) parser

/-- A reader of a payload starts inside it. -/
theorem in_range_new (payload : Bytes) : (BitReader.new payload).InRange := Nat.zero_le _

/-- A reader of a payload has all of its bits ahead. -/
theorem rest_new (payload : Bytes) : (BitReader.new payload).rest = Bits.ofBytes payload := rfl

/-- The number comes first, then the layout. -/
theorem run_numbered (parser : SizedParser Bool Decoded) (bits : List Bool) :
    (numbered parser).run bits = ((number 12).run bits).bind fun found =>
      (parser.run found.2).map fun decoded => ((found.1, decoded.1), decoded.2) := by
  rw [numbered, run_bind]
  congr 1
  funext found
  exact run_map _ _ _

/-- Decoding reads the number and the layout, and compares the number. -/
theorem decode_eq (msgType : UInt16) (payload : Bytes) :
    decode msgType payload = Reads.total ((layout msgType).bind fun parser =>
      ((numbered parser).run (Bits.ofBytes payload)).bind fun (found, _) =>
        if found.1.toUInt16 = msgType then some found.2 else none) := by
  have hbody := implements_body msgType
  have hdecode : decode msgType payload = (readU 12 (BitReader.new payload) >>= fun found =>
      if found.1.toUInt16 ≠ msgType then Reads.total none
      else (decodeBody msgType found.2 >>= fun decoded =>
        Reads.total (some decoded.1))) := rfl
  rw [hdecode, implements_read_u 12 _ (in_range_new payload), rest_new]
  simp only [run_numbered]
  by_cases hshort : 12 ≤ (Bits.ofBytes payload).length
  · have hrun : (number 12).run (Bits.ofBytes payload) =
        some ((number 12).value (Bits.ofBytes payload), (Bits.ofBytes payload).drop 12) :=
      if_pos hshort
    rw [hrun, Option.map_some, Reads.total_some_bind]
    simp only [Option.bind_some]
    by_cases hnumber : ((number 12).value (Bits.ofBytes payload)).toUInt16 = msgType
    · rw [if_neg (not_not.mpr hnumber)]
      cases hlayout : layout msgType with
      | none =>
          rw [hlayout] at hbody
          rw [hbody]
          rfl
      | some parser =>
          rw [hlayout] at hbody
          have hrange : InRange { BitReader.new payload with pos := 0 + 12 } := by
            rw [Bits.length_of_bytes] at hshort
            exact hshort
          have hrest : ({ BitReader.new payload with pos := 0 + 12 } : BitReader).rest =
              (Bits.ofBytes payload).drop 12 := rfl
          have hread := hbody _ hrange
          rw [hrest] at hread
          show (decodeBody msgType { BitReader.new payload with pos := 0 + 12 } >>= _) = _
          rw [hread, Option.bind_some]
          cases parser.run ((Bits.ofBytes payload).drop 12) with
          | none => rfl
          | some found =>
              simp only [Option.map_some, Option.bind_some, if_pos hnumber]
              rfl
    · rw [if_pos hnumber]
      cases layout msgType with
      | none => rfl
      | some parser =>
          rw [Option.bind_some]
          cases parser.run ((Bits.ofBytes payload).drop 12) with
          | none => rfl
          | some found =>
              simp only [Option.map_some, Option.bind_some, if_neg hnumber]
  · have hrun : (number 12).run (Bits.ofBytes payload) = none := if_neg hshort
    rw [hrun]
    cases layout msgType with
    | none => rfl
    | some parser => rfl

end Decode

end OpenNtrip
