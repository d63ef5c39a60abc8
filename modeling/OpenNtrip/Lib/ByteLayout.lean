import Mathlib.Data.List.Basic
import Mathlib.Data.Nat.ModEq

/-!
# Bytes laid out in a row

`slice` is a range of a list, if the list has it. The lemmas find a range in a concatenation: in
its left or right part, or in one record of a list of records of one length. `leBytes` and
`leValue` are numbers in little-endian order.
-/

namespace OpenNtrip

universe u

variable {α : Type u}

/-! ## Ranges -/

/-- The elements from `lo` up to `hi`, if the list reaches so far. -/
def slice (l : List α) (lo hi : Nat) : Option (List α) :=
  if lo ≤ hi ∧ hi ≤ l.length then some ((l.drop lo).take (hi - lo)) else none

theorem slice_eq_some {l part : List α} {lo hi : Nat} (h : slice l lo hi = some part) :
    lo ≤ hi ∧ hi ≤ l.length ∧ part = (l.drop lo).take (hi - lo) := by
  unfold slice at h
  split at h
  · next hrange => exact ⟨hrange.1, hrange.2, (Option.some.inj h).symm⟩
  · simp at h

theorem slice_length {l part : List α} {lo hi : Nat} (h : slice l lo hi = some part) :
    part.length = hi - lo := by
  obtain ⟨hlo, hhi, rfl⟩ := slice_eq_some h
  rw [List.length_take, List.length_drop]
  omega

theorem slice_all (l : List α) : slice l 0 l.length = some l := by
  simp [slice]

/-- A range of the left part of a concatenation. -/
theorem slice_append_left {l : List α} {lo hi : Nat} (h : hi ≤ l.length) (later : List α) :
    slice (l ++ later) lo hi = slice l lo hi := by
  unfold slice
  by_cases hlo : lo ≤ hi
  · have hlong : hi ≤ (l ++ later).length := by
      rw [List.length_append]
      omega
    rw [if_pos ⟨hlo, hlong⟩, if_pos ⟨hlo, h⟩, List.drop_append_of_le_length (by omega),
      List.take_append_of_le_length (by rw [List.length_drop]; omega)]
  · rw [if_neg fun hrange => hlo hrange.1, if_neg fun hrange => hlo hrange.1]

/-- A range of the right part. -/
theorem slice_append_right (l later : List α) (lo hi : Nat) :
    slice (l ++ later) (l.length + lo) (l.length + hi) = slice later lo hi := by
  have hiff : (l.length + lo ≤ l.length + hi ∧ l.length + hi ≤ (l ++ later).length) ↔
      lo ≤ hi ∧ hi ≤ later.length := by
    rw [List.length_append]
    omega
  have hwidth : l.length + hi - (l.length + lo) = hi - lo := by omega
  unfold slice
  simp only [hiff, List.drop_length_add_append, hwidth]

/-- The part between two others. -/
theorem slice_part {before p : List α} {lo hi : Nat} (hlo : before.length = lo)
    (hhi : lo + p.length = hi) (later : List α) :
    slice (before ++ (p ++ later)) lo hi = some p := by
  have hright := slice_append_right before (p ++ later) 0 p.length
  rw [Nat.add_zero, hlo, hhi] at hright
  rw [hright, slice_append_left (Nat.le_refl _), slice_all]

/-- A range of a part that is extended is one of the whole. -/
theorem slice_of_extends {l longer part : List α} {lo hi : Nat} (hextends : l <+: longer)
    (h : slice l lo hi = some part) : slice longer lo hi = some part := by
  obtain ⟨later, rfl⟩ := hextends
  obtain ⟨-, hhi, -⟩ := slice_eq_some h
  rw [slice_append_left hhi, h]

/-- A range of a range. -/
theorem slice_within {l p : List α} {lo hi : Nat} (h : slice l lo hi = some p) {a b : Nat}
    (hb : b ≤ p.length) : slice l (lo + a) (lo + b) = slice p a b := by
  obtain ⟨hlo, hhi, rfl⟩ := slice_eq_some h
  rw [List.length_take, List.length_drop] at hb
  unfold slice
  by_cases hab : a ≤ b
  · rw [if_pos ⟨by omega, by omega⟩, if_pos ⟨hab, by
      rw [List.length_take, List.length_drop]
      omega⟩, List.drop_take, List.drop_drop, List.take_take, Nat.min_eq_left (by omega)]
    congr 2
    omega
  · rw [if_neg fun hrange => hab (by omega), if_neg fun hrange => hab hrange.1]

/-! ## Records of one length -/

theorem length_flatten_records {records : List (List α)} {width : Nat}
    (h : ∀ record ∈ records, record.length = width) :
    records.flatten.length = records.length * width := by
  rw [List.length_flatten, List.map_congr_left h]
  simp [Nat.mul_comm]

/-- The records before the `i`-th, the `i`-th, and those behind it. -/
theorem flatten_at {records : List (List α)} {width : Nat}
    (h : ∀ record ∈ records, record.length = width) {i : Nat} {record : List α}
    (hi : records[i]? = some record) :
    ∃ before later, records.flatten = before ++ (record ++ later) ∧ before.length = i * width ∧
      record.length = width := by
  obtain ⟨hlt, rfl⟩ := List.getElem?_eq_some_iff.mp hi
  refine ⟨(records.take i).flatten, (records.drop (i + 1)).flatten, ?_, ?_, ?_⟩
  · rw [← List.flatten_cons, ← List.drop_eq_getElem_cons hlt, ← List.flatten_append,
      List.take_append_drop]
  · rw [length_flatten_records fun record hrecord => h record (List.mem_of_mem_take hrecord),
      List.length_take, Nat.min_eq_left (by omega)]
  · exact h _ (List.getElem_mem hlt)

/-- A range of the `i`-th record. -/
theorem slice_record {records : List (List α)} {width : Nat}
    (h : ∀ record ∈ records, record.length = width) {i : Nat} {record : List α}
    (hi : records[i]? = some record) {lo hi' : Nat} (hhi : hi' ≤ width) :
    slice records.flatten (i * width + lo) (i * width + hi') = slice record lo hi' := by
  obtain ⟨before, later, hsplit, hbefore, hwidth⟩ := flatten_at h hi
  rw [hsplit, ← hbefore, slice_append_right, slice_append_left (by omega)]

/-- An element of the `i`-th record. -/
theorem get_record {records : List (List α)} {width : Nat}
    (h : ∀ record ∈ records, record.length = width) {i : Nat} {record : List α}
    (hi : records[i]? = some record) {k : Nat} (hk : k < width) :
    records.flatten[i * width + k]? = record[k]? := by
  obtain ⟨before, later, hsplit, hbefore, hwidth⟩ := flatten_at h hi
  rw [hsplit, List.getElem?_append_right (by omega), List.getElem?_append_left (by omega),
    ← hbefore]
  congr 1
  omega

/-! ## Little-endian numbers -/

/-- The lowest `width` bytes of a number, the lowest first. -/
def leBytes : Nat → Nat → List UInt8
  | 0, _ => []
  | width + 1, n => UInt8.ofNat n :: leBytes width (n / 256)

/-- The number of some bytes, the lowest first. -/
def leValue : List UInt8 → Nat
  | [] => 0
  | b :: rest => b.toNat + 256 * leValue rest

@[simp] theorem length_le_bytes (width n : Nat) : (leBytes width n).length = width := by
  induction width generalizing n with
  | zero => rfl
  | succ width ih => rw [leBytes, List.length_cons, ih]

/-- A number that fits is read back. -/
theorem le_value_le_bytes {width n : Nat} (h : n < 256 ^ width) :
    leValue (leBytes width n) = n := by
  induction width generalizing n with
  | zero =>
      rw [Nat.pow_zero] at h
      show 0 = n
      omega
  | succ width ih =>
      rw [Nat.pow_succ] at h
      have hlow : (UInt8.ofNat n).toNat = n % 256 := UInt8.toNat_ofNat'
      rw [leBytes, leValue, ih (by omega), hlow]
      omega

end OpenNtrip
