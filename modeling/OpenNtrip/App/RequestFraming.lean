import OpenNtrip.App.NtripWorker
import OpenNtrip.NtripCore.RequestWire

/-!
# The framing of a request

No field of the configuration can change how the request is cut into lines or tokens
(`request_framed`). The target decodes to the mountpoint, and the worker knows when it differs
from it.
-/

namespace OpenNtrip.Request

/-- A space. -/
def SPACE : UInt8 := 32

/-- Percent-decoding: `%` and two hexadecimal digits are one byte. -/
def percentDecode : Bytes → Bytes
  | [] => []
  | 37 :: high :: low :: rest =>
    match digitValue high, digitValue low with
    | some i, some j => UInt8.ofNat (i * 16 + j) :: percentDecode rest
    | _, _ => 37 :: percentDecode (high :: low :: rest)
  | b :: rest => b :: percentDecode rest

/-- The bytes of an encoded mountpoint. -/
def target (mount : Text) : Bytes := (encodeMountpoint mount).toBytes

/-- The bytes that encode one byte of the mountpoint. -/
def targetByte (b : UInt8) : Bytes :=
  if b ≤ 0x20 ∨ 0x7f ≤ b then
    [37, UInt8.ofNat (hexUpper (b.toNat / 16)).toNat, UInt8.ofNat (hexUpper (b.toNat % 16)).toNat]
  else [b]

theorem target_eq (mount : Text) : target mount = mount.toBytes.flatMap targetByte := by
  have hhex : ∀ n < 16, (hexUpper n).toNat < 0x80 := by decide
  have hbyte : ∀ b : UInt8, Text.toBytes
      (if b ≤ 0x20 ∨ 0x7f ≤ b then '%' :: hexByte b else [Char.ofNat b.toNat]) = targetByte b := by
    intro b
    have hlt := b.toNat_lt
    unfold targetByte
    split
    · rw [Text.to_bytes_ascii]
      · rfl
      · intro c hc
        simp only [hexByte, List.mem_cons, List.not_mem_nil, or_false] at hc
        rcases hc with rfl | rfl | rfl
        · decide
        · exact hhex _ (by omega)
        · exact hhex _ (by omega)
    · next hgraphic =>
        simp only [UInt8.le_iff_toNat_le, not_or] at hgraphic
        have hhigh : ¬ 0x7f ≤ b.toNat := hgraphic.2
        have hnat : (Char.ofNat b.toNat).toNat = b.toNat := char_of_nat (by omega)
        rw [Text.to_bytes_ascii]
        · rw [List.map_singleton, hnat, UInt8.ofNat_toNat]
        · intro c hc
          obtain rfl := List.mem_singleton.mp hc
          omega
  rw [target, encodeMountpoint, Text.toBytes, List.flatMap_assoc]
  exact congrArg (mount.toBytes.flatMap ·) (funext hbyte)

/-- The target consists of graphic ASCII. -/
theorem target_graphic {mount : Text} {b : UInt8} (h : b ∈ target mount) : 0x21 ≤ b ∧ b ≤ 0x7e := by
  rw [target, Text.to_bytes_ascii] at h
  · obtain ⟨c, hc, rfl⟩ := List.mem_map.mp h
    have hgraphic := encode_mountpoint_mem hc
    simp only [isTargetChar, Bool.and_eq_true, decide_eq_true_eq] at hgraphic
    rw [UInt8.le_iff_toNat_le, UInt8.le_iff_toNat_le, UInt8.toNat_ofNat',
      Nat.mod_eq_of_lt (by omega)]
    exact hgraphic
  · intro c hc
    have hgraphic := encode_mountpoint_mem hc
    simp only [isTargetChar, Bool.and_eq_true, decide_eq_true_eq] at hgraphic
    omega

/-- The encoding of a byte other than `%` is read back. -/
theorem percent_decode_byte {b : UInt8} (h : b ≠ 37) (rest : Bytes) :
    percentDecode (targetByte b ++ rest) = b :: percentDecode rest := by
  have hhex : ∀ n < 16, digitValue (UInt8.ofNat (hexUpper n).toNat) = some n := by decide
  have hlt := b.toNat_lt
  unfold targetByte
  split
  · rw [List.cons_append, List.cons_append, List.cons_append, List.nil_append, percentDecode,
      hhex _ (by omega), hhex _ (by omega)]
    have hbyte : b.toNat / 16 * 16 + b.toNat % 16 = b.toNat := by omega
    simp only [hbyte, UInt8.ofNat_toNat]
  · rw [List.singleton_append, percentDecode]
    intro high low more hb
    exact absurd hb h

theorem percent_decode_target {mount : Text} (h : '%' ∉ mount) :
    percentDecode (target mount) = mount.toBytes := by
  have hnot : (37 : UInt8) ∉ mount.toBytes := by
    rw [Text.mem_to_bytes (by decide)]
    exact h
  rw [target_eq]
  generalize mount.toBytes = bytes at hnot
  induction bytes with
  | nil => rfl
  | cons b rest ih =>
      rw [List.flatMap_cons, percent_decode_byte (fun hb => hnot (hb ▸ List.mem_cons_self)),
        ih fun hmem => hnot (List.mem_cons_of_mem _ hmem)]

/-- The mountpoint is its own target exactly if it needs no encoding. -/
theorem target_eq_self_iff (mount : Text) :
    target mount = mount.toBytes ↔ mountpointNeedsEncoding mount = false := by
  rw [mountpointNeedsEncoding, List.any_eq_false]
  constructor
  · intro h b hb
    rw [← h] at hb
    have hgraphic := target_graphic hb
    simp only [UInt8.le_iff_toNat_le] at hgraphic
    simp only [Bool.or_eq_true, decide_eq_true_eq, UInt8.le_iff_toNat_le, not_or]
    have hlow : 0x21 ≤ b.toNat := hgraphic.1
    have hhigh : b.toNat ≤ 0x7e := hgraphic.2
    exact ⟨by show ¬ b.toNat ≤ 0x20; omega, by show ¬ 0x7f ≤ b.toNat; omega⟩
  · intro h
    have hbyte : ∀ b ∈ mount.toBytes, targetByte b = [b] := by
      intro b hb
      have hgraphic := h b hb
      simp only [Bool.or_eq_true, decide_eq_true_eq] at hgraphic
      rw [targetByte, if_neg hgraphic]
    rw [target_eq, List.flatMap_congr hbyte]
    exact List.flatMap_singleton' _

/-- The HTTP version of a request. -/
def httpVersion : NtripVersion → Bytes
  | .v1 => ascii "HTTP/1.0"
  | .v2 => ascii "HTTP/1.1"

/-- The request line has three tokens. -/
theorem request_line_tokens (cfg : SessionConfig) :
    (requestLine cfg).toBytes.splitOn SPACE =
      [ascii "GET", 47 :: target cfg.mountpoint, httpVersion cfg.version] := by
  have hline : (requestLine cfg).toBytes =
      ascii "GET" ++ SPACE ::
        (47 :: target cfg.mountpoint ++ SPACE :: httpVersion cfg.version) := by
    have hget : Text.toBytes "GET /".toList = ascii "GET" ++ [SPACE, 47] := by decide
    rw [requestLine, Text.to_bytes_append, Text.to_bytes_append, hget]
    cases cfg.version with
    | v1 =>
        have hversion : Text.toBytes " HTTP/1.0".toList = SPACE :: httpVersion .v1 := by decide
        simp only [hversion, target, List.append_assoc, List.cons_append, List.nil_append]
    | v2 =>
        have hversion : Text.toBytes " HTTP/1.1".toList = SPACE :: httpVersion .v2 := by decide
        simp only [hversion, target, List.append_assoc, List.cons_append, List.nil_append]
  have htarget : SPACE ∉ 47 :: target cfg.mountpoint := by
    intro hmem
    rcases List.mem_cons.mp hmem with heq | hmem
    · exact absurd heq (by decide)
    · exact absurd (target_graphic hmem).1 (by decide)
  have hversion : SPACE ∉ httpVersion cfg.version := by
    cases cfg.version with
    | v1 => decide
    | v2 => decide
  rw [hline, List.splitOn_append_cons_self, List.splitOn_append_cons_self,
    List.splitOn_eq_singleton htarget,
    List.splitOn_eq_singleton hversion, List.splitOn_eq_singleton (by decide)]
  rfl

/-- For every configuration, the wire bytes are the expected lines, each ended by CRLF, and an
empty one. No line holds a line end, an empty line is found at the end only, and the request line
has three tokens of which the second is the target: it decodes to a mountpoint without `%`, and it
is the mountpoint itself exactly if the worker sees no need to encode it. -/
theorem request_framed (cfg : SessionConfig) :
    terminatedLines CR LF (build cfg).2 = ((expectedLines cfg).map Text.toBytes ++ [[]], []) ∧
    (∀ line ∈ (expectedLines cfg).map Text.toBytes, CR ∉ line ∧ LF ∉ line) ∧
    (∀ before after, (build cfg).2 = before ++ [CR, LF, CR, LF] ++ after → after = []) ∧
    (expectedLines cfg).head? = some (requestLine cfg) ∧
    (requestLine cfg).toBytes.splitOn SPACE =
      [ascii "GET", 47 :: target cfg.mountpoint, httpVersion cfg.version] ∧
    (∀ b ∈ target cfg.mountpoint, 0x21 ≤ b ∧ b ≤ 0x7e) ∧
    ('%' ∉ cfg.mountpoint → percentDecode (target cfg.mountpoint) = cfg.mountpoint.toBytes) ∧
    (target cfg.mountpoint = cfg.mountpoint.toBytes ↔
      mountpointNeedsEncoding cfg.mountpoint = false) := by
  refine ⟨wire_lines cfg, fun line hline => ?_, fun _ _ => wire_double cfg, rfl,
    request_line_tokens cfg, fun _ => target_graphic, percent_decode_target,
    target_eq_self_iff cfg.mountpoint⟩
  obtain ⟨s, hs, rfl⟩ := List.mem_map.mp hline
  exact (expected_lines_single cfg s hs).to_bytes

/-- A mountpoint with a space in it. -/
theorem request_framed_example :
    percentDecode (target "MY MOUNT".toList) = ascii "MY MOUNT" :=
  (request_framed exampleConfig).2.2.2.2.2.2.1 (by decide)

end OpenNtrip.Request
