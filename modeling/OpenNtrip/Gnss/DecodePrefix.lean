import OpenNtrip.Gnss.Decode

/-!
# How much of a payload is decoded

The fields of a payload determine how many bits its message takes. Decoding fails on a payload
that is shorter or has another message number, and nothing behind the message matters.
-/

namespace OpenNtrip

namespace Decode

open BitReader SizedParser

/-- The message types that are decoded. -/
def Supported (msgType : UInt16) : Prop :=
  msgType ∈ [1005, 1006, 1008, 1029, 1033, 1230] ∨ (msmConstellation msgType).isSome

/-- The bits of a message, its number included, as its fields determine them. -/
def lengthBits (msgType : UInt16) (payload : Bytes) : Nat :=
  if msgType = 1005 then 152
  else if msgType = 1006 then 168
  else if msgType = 1008 then countedStop payload (countedStop payload 24 + 8)
  else if msgType = 1029 then countedStop payload 64
  else if msgType = 1033 then
    countedStop payload (countedStop payload (countedStop payload
      (countedStop payload (countedStop payload 24 + 8))))
  else if msgType = 1230 then 32 + 16 * countOnes (fieldAt payload 28 4)
  else 169 + countOnes (fieldAt payload 73 64) * countOnes (fieldAt payload 137 32)

section Lengths

variable (payload : Bytes)

/-- Behind the message number, a message takes what its layout takes. -/
theorem stop_numbered (parser : SizedParser Bool Decoded) :
    (numbered parser).size (Bits.ofBytes payload) = parser.stop (Bits.ofBytes payload) 12 := by
  rw [← stop_zero, numbered, stop_bind, stop_number, stop_map]

/-- A base position stops at a fixed place, a height further on. -/
theorem stop_base (is1006 : Bool) :
    (baseLayout is1006).stop (Bits.ofBytes payload) 12 = if is1006 then 168 else 152 := by
  simp only [baseLayout, stop_bind, stop_number, stop_skipped, stop_signed, stop_pure]
  cases is1006 with
  | false => rfl
  | true => rfl

/-- An antenna descriptor stops behind its second string. -/
theorem stop_1008 : layout1008.stop (Bits.ofBytes payload) 12 =
    countedStop payload (countedStop payload 24 + 8) := by
  simp only [layout1008, stop_bind, stop_number, stop_text, stop_map, value_number, Nat.reduceAdd,
    Nat.reduceLeDiff, countedStop]

/-- A text message stops behind its text. -/
theorem stop_1029 : layout1029.stop (Bits.ofBytes payload) 12 = countedStop payload 64 := by
  simp only [layout1029, stop_bind, stop_number, stop_text, stop_map, value_number, Nat.reduceAdd,
    Nat.reduceLeDiff, countedStop]

/-- A receiver descriptor stops behind its fifth string. -/
theorem stop_1033 : layout1033.stop (Bits.ofBytes payload) 12 =
    countedStop payload (countedStop payload (countedStop payload
      (countedStop payload (countedStop payload 24 + 8)))) := by
  simp only [layout1033, stop_bind, stop_number, stop_text, stop_map, stop_counted_text,
    value_number, Nat.reduceAdd, Nat.reduceLeDiff]
  rfl

/-- The biases take 16 bits for every signal in the mask. -/
theorem stop_biases (mask : UInt8) (signals : List UInt8) (k : Nat) :
    (biasesLayout mask signals).stop (Bits.ofBytes payload) k =
      k + 16 * (signals.filter fun signal => mask &&& ((0x8 : UInt8) >>> signal) ≠ 0).length := by
  induction signals generalizing k with
  | nil => rfl
  | cons signal rest ih =>
      rw [biasesLayout, List.filter_cons]
      by_cases h : mask &&& (0x8 >>> signal) ≠ 0
      · rw [if_pos h, if_pos (decide_eq_true h), stop_bind, stop_signed, stop_map, ih,
          List.length_cons]
        omega
      · rw [if_neg h, if_neg (by simpa using h), ih]

/-- The four signals of a bias mask are its four bits. -/
theorem biases_in_mask : ∀ mask : Fin 16,
    ([0, 1, 2, 3].filter fun signal =>
      (UInt64.ofNat mask).toUInt8 &&& ((0x8 : UInt8) >>> signal) ≠ 0).length = countOnes mask := by
  decide

/-- The GLONASS biases stop behind the signals of their mask. -/
theorem stop_1230 : layout1230.stop (Bits.ofBytes payload) 12 =
    32 + 16 * countOnes (fieldAt payload 28 4) := by
  have hmask := biases_in_mask ⟨fieldAt payload 28 4, field_at_lt payload 28 4⟩
  simp only [layout1230, stop_bind, stop_number, stop_skipped, stop_map, stop_biases]
  rw [← hmask]
  rfl

/-- An MSM header stops behind a cell mask of satellites times signals. -/
theorem stop_msm (msgType : UInt16) (constellation : Constellation) :
    (msmLayout msgType constellation).stop (Bits.ofBytes payload) 12 =
      169 + countOnes (fieldAt payload 73 64) * countOnes (fieldAt payload 137 32) := by
  have hsat : ((number 64).value ((Bits.ofBytes payload).drop 73)).toNat =
      fieldAt payload 73 64 := value_number payload 73 (Nat.le_refl 64)
  have hsig : ((number 32).value ((Bits.ofBytes payload).drop 137)).toUInt32.toNat =
      fieldAt payload 137 32 := by
    rw [UInt64.toNat_toUInt32, value_number payload 137 (by omega)]
    exact Nat.mod_eq_of_lt (field_at_lt payload 137 32)
  simp only [msmLayout, stop_bind, stop_number, stop_skipped, stop_map, Nat.reduceAdd,
    count_ones_byte, hsat, hsig]

/-- The layout of a supported type has the length that the fields determine. -/
theorem size_numbered {msgType : UInt16} {parser : SizedParser Bool Decoded}
    (h : layout msgType = some parser) :
    (numbered parser).size (Bits.ofBytes payload) = lengthBits msgType payload := by
  rw [stop_numbered]
  rw [layout] at h
  rw [lengthBits]
  by_cases h1005 : msgType = 1005
  · rw [if_pos h1005] at h ⊢
    obtain rfl := Option.some.inj h
    exact stop_base payload false
  rw [if_neg h1005] at h ⊢
  by_cases h1006 : msgType = 1006
  · rw [if_pos h1006] at h ⊢
    obtain rfl := Option.some.inj h
    exact stop_base payload true
  rw [if_neg h1006] at h ⊢
  by_cases h1008 : msgType = 1008
  · rw [if_pos h1008] at h ⊢
    obtain rfl := Option.some.inj h
    exact stop_1008 payload
  rw [if_neg h1008] at h ⊢
  by_cases h1029 : msgType = 1029
  · rw [if_pos h1029] at h ⊢
    obtain rfl := Option.some.inj h
    exact stop_1029 payload
  rw [if_neg h1029] at h ⊢
  by_cases h1033 : msgType = 1033
  · rw [if_pos h1033] at h ⊢
    obtain rfl := Option.some.inj h
    exact stop_1033 payload
  rw [if_neg h1033] at h ⊢
  by_cases h1230 : msgType = 1230
  · rw [if_pos h1230] at h ⊢
    obtain rfl := Option.some.inj h
    exact stop_1230 payload
  rw [if_neg h1230] at h ⊢
  obtain ⟨constellation, -, rfl⟩ := Option.map_eq_some_iff.mp h
  exact stop_msm payload msgType constellation

end Lengths

/-- Every supported type has a layout. -/
theorem layout_is_some {msgType : UInt16} (h : Supported msgType) :
    ∃ parser, layout msgType = some parser := by
  rw [layout]
  split
  · exact ⟨_, rfl⟩
  · split
    · exact ⟨_, rfl⟩
    · split
      · exact ⟨_, rfl⟩
      · split
        · exact ⟨_, rfl⟩
        · split
          · exact ⟨_, rfl⟩
          · split
            · exact ⟨_, rfl⟩
            · obtain hlisted | hmsm := h
              · simp_all
              · obtain ⟨constellation, hc⟩ := Option.isSome_iff_exists.mp hmsm
                rw [hc]
                exact ⟨_, rfl⟩

/-- The message number of a payload. -/
theorem number_value (payload : Bytes) {msgType : UInt16} :
    ((number 12).value (Bits.ofBytes payload)).toUInt16 = msgType ↔
      fieldAt payload 0 12 = msgType.toNat := by
  have hvalue := value_number payload 0 (show 12 ≤ 64 by omega)
  have hlt := field_at_lt payload 0 12
  rw [List.drop_zero] at hvalue
  rw [← UInt16.toNat_inj, UInt64.toNat_toUInt16, hvalue, Nat.mod_eq_of_lt (by omega)]

/-- Decoding a supported type compares the number and the length. -/
theorem decode_of_layout {msgType : UInt16} {parser : SizedParser Bool Decoded}
    (h : layout msgType = some parser) (payload : Bytes) :
    decode msgType payload = Reads.total
      (if fieldAt payload 0 12 = msgType.toNat ∧ lengthBits msgType payload ≤ 8 * payload.length
        then some ((numbered parser).value (Bits.ofBytes payload)).2 else none) := by
  have hnumber : ((numbered parser).value (Bits.ofBytes payload)).1 =
      (number 12).value (Bits.ofBytes payload) := rfl
  rw [decode_eq, h, Option.bind_some, SizedParser.run, size_numbered payload h,
    Bits.length_of_bytes]
  by_cases hlen : lengthBits msgType payload ≤ 8 * payload.length
  · rw [if_pos hlen, Option.bind_some]
    simp only [hnumber, number_value, hlen, and_true]
  · rw [if_neg hlen, if_neg (fun hboth => hlen hboth.2)]
    rfl

/-- A type without a layout is not decoded, and that is no fault. -/
theorem decode_unsupported {msgType : UInt16} (h : layout msgType = none) (payload : Bytes) :
    decode msgType payload = Reads.total none := by
  rw [decode_eq, h]
  rfl

/-- Decoding depends on a prefix that the payload determines. A message that is decoded is
decoded in front of any other bytes. For a supported type nothing is decoded exactly when the
payload's own number is another or the payload is shorter than its fields determine, and every
truncation below that length is rejected. No read faults. -/
theorem decode_determined (msgType : UInt16) :
    (∀ p q decoded, decode msgType p = Reads.total (some decoded) →
      decode msgType (p ++ q) = Reads.total (some decoded)) ∧
    (Supported msgType → ∀ p, (decode msgType p = Reads.total none ↔
      fieldAt p 0 12 ≠ msgType.toNat ∨ 8 * p.length < lengthBits msgType p) ∧
      ∀ k, 8 * k < lengthBits msgType p → decode msgType (p.take k) = Reads.total none) ∧
    ∀ p, Reads.Safe (decode msgType p) := by
  refine ⟨?_, ?_, ?_⟩
  · intro p q decoded hdecoded
    cases hlayout : layout msgType with
    | none =>
        rw [decode_unsupported hlayout] at hdecoded
        cases Reads.total_injective hdecoded
    | some parser =>
        rw [decode_eq, hlayout] at hdecoded ⊢
        have hfound := Reads.total_injective hdecoded
        rw [Option.bind_some] at hfound
        obtain ⟨⟨found, rest⟩, hrun, hnumber⟩ := Option.bind_eq_some_iff.mp hfound
        rw [Option.bind_some, Bits.of_bytes_append, run_append hrun, Option.bind_some, hnumber]
  · intro hsupported p
    obtain ⟨parser, hlayout⟩ := layout_is_some hsupported
    refine ⟨?_, ?_⟩
    · rw [decode_of_layout hlayout]
      split
      · next hboth =>
          constructor
          · intro h
            cases Reads.total_injective h
          · rintro (hnumber | hshort)
            · exact absurd hboth.1 hnumber
            · omega
      · next hnot =>
          refine ⟨fun _ => ?_, fun _ => rfl⟩
          by_contra hneither
          obtain ⟨hnumber, hlen⟩ := not_or.mp hneither
          exact hnot ⟨not_not.mp hnumber, Nat.le_of_not_lt hlen⟩
    · intro k hk
      rw [decode_of_layout hlayout]
      refine congrArg Reads.total (if_neg ?_)
      rintro ⟨-, hlen⟩
      -- the fields that are there determine the same length as in the whole payload
      have hsame : lengthBits msgType p = lengthBits msgType (p.take k) := by
        rw [← size_numbered _ hlayout, ← Bits.length_of_bytes] at hlen
        have hstable := (numbered parser).size_append hlen (Bits.ofBytes (p.drop k))
        rw [← Bits.of_bytes_append, List.take_append_drop, size_numbered _ hlayout,
          size_numbered _ hlayout] at hstable
        exact hstable
      have htake : (p.take k).length ≤ k := List.length_take_le k p
      omega
  · intro p
    rw [decode_eq]
    exact Reads.Safe.total _

/-- A 1230 message with no biases, with a byte behind it and cut in its last byte. -/
theorem decode_determined_biases :
    decode 1230 ([0x4C, 0xE0, 0x07, 0x00] ++ [0xFF]) =
        Reads.total (some (.glonassBiases 7 false [])) ∧
      decode 1230 [0x4C, 0xE0, 0x07] = Reads.total none := by
  refine ⟨(decode_determined 1230).1 [0x4C, 0xE0, 0x07, 0x00] [0xFF] _ rfl, ?_⟩
  have hlen : 8 * 3 < lengthBits 1230 [0x4C, 0xE0, 0x07, 0x00] := Nat.le_of_ble_eq_true rfl
  have hsupported : Supported 1230 := .inl (by decide)
  exact ((decode_determined 1230).2.1 hsupported [0x4C, 0xE0, 0x07, 0x00]).2 3 hlen

end Decode

end OpenNtrip
