import Mathlib.Data.List.Chain

/-!
# Keeping fewer and fewer of a sequence

A sequence is recorded in a buffer of bounded length. Positions are kept at a stride. When the
buffer is full, every other one is dropped and the stride doubles. `Spaced` is what this keeps: the
positions that are left stand between one and one and a half strides apart.
-/

namespace OpenNtrip.Decimation

universe u v

variable {α : Type u} {β : Type v}

/-- The first element, the third, and so on. -/
def alternate : List α → List α
  | [] => []
  | [a] => [a]
  | a :: _ :: rest => a :: alternate rest

/-- What is left of a list is in its order. -/
theorem alternate_sublist (l : List α) : (alternate l).Sublist l := by
  fun_induction alternate l with
  | case1 => exact List.Sublist.refl _
  | case2 a => exact List.Sublist.refl _
  | case3 a b rest ih => exact (ih.cons b).cons_cons a

/-- Half of a list is left, of an odd one the larger half. -/
theorem alternate_length (l : List α) : (alternate l).length = (l.length + 1) / 2 := by
  fun_induction alternate l with
  | case1 => simp
  | case2 a => simp
  | case3 a b rest ih =>
      simp only [List.length_cons, ih]
      omega

theorem alternate_map (f : α → β) (l : List α) : alternate (l.map f) = (alternate l).map f := by
  fun_induction alternate l with
  | case1 => rfl
  | case2 a => rfl
  | case3 a b rest ih => simp only [List.map_cons, alternate, ih]

/-- The first element is kept. -/
theorem alternate_head? (l : List α) : (alternate l).head? = l.head? := by
  fun_cases alternate l with
  | case1 => rfl
  | case2 a => rfl
  | case3 a b rest => rfl

/-- Of an odd number of elements the last stays. -/
theorem alternate_concat_odd (l : List α) (a : α) (h : l.length % 2 = 0) :
    (alternate (l ++ [a])).getLast? = some a := by
  fun_induction alternate l with
  | case1 => rfl
  | case2 b => exact absurd h (by simp)
  | case3 b c rest ih =>
      have hlast := ih (by simp only [List.length_cons] at h; omega)
      rw [List.cons_append, List.cons_append, alternate, List.getLast?_cons, hlast]
      rfl

/-- Of an even number of elements the last goes. -/
theorem alternate_concat_even (l : List α) (a : α) (h : l.length % 2 = 1) :
    (alternate (l ++ [a])).getLast? = l.getLast? := by
  fun_induction alternate l with
  | case1 => exact absurd h (by simp)
  | case2 b => rfl
  | case3 b c rest ih =>
      have hodd : rest.length % 2 = 1 := by simp only [List.length_cons] at h; omega
      have hne : rest ≠ [] := List.length_pos_iff.mp (by omega)
      rw [List.cons_append, List.cons_append, alternate, List.getLast?_cons, ih hodd,
        List.getLast?_cons_of_ne_nil (List.cons_ne_nil _ _), List.getLast?_cons_of_ne_nil hne,
        List.getLast?_eq_some_getLast hne]
      rfl

/-- Two positions that may follow each other: between one and one and a half strides apart. -/
def Gap (stride i j : Nat) : Prop := i + stride ≤ j ∧ 2 * j ≤ 2 * i + 3 * stride

/-- Two gaps in a row are one of twice the stride. -/
theorem Gap.trans {stride i j k : Nat} (hij : Gap stride i j) (hjk : Gap stride j k) :
    Gap (2 * stride) i k := by
  obtain ⟨hij, hij'⟩ := hij
  obtain ⟨hjk, hjk'⟩ := hjk
  constructor
  · omega
  · omega

/-- Dropping every other position doubles the stride. -/
theorem alternate_gaps {stride : Nat} {l : List Nat} (h : l.IsChain (Gap stride)) :
    (alternate l).IsChain (Gap (2 * stride)) := by
  fun_induction alternate l with
  | case1 => exact .nil
  | case2 i => exact .singleton i
  | case3 i j rest ih =>
      have hrest := ih h.tail.tail
      refine List.isChain_cons.mpr ⟨fun k hk => ?_, hrest⟩
      rw [alternate_head?] at hk
      obtain ⟨hij, htail⟩ := List.isChain_cons_cons.mp h
      exact hij.trans ((List.isChain_cons.mp htail).1 k hk)

/-! ## The recording -/

/-- The positions that are in the buffer, the stride, and the next position to keep. -/
structure Schedule where
  kept : List Nat
  stride : Nat
  next : Nat
  deriving DecidableEq, Repr

namespace Schedule

/-- Before the first position. -/
def start : Schedule := ⟨[], 1, 0⟩

/-- Keep the next position. A buffer that is full is thinned. -/
def keep (cap : Nat) (s : Schedule) : Schedule :=
  if cap ≤ s.kept.length + 1 then
    ⟨alternate (s.kept ++ [s.next]), 2 * s.stride, s.next + 2 * s.stride⟩
  else ⟨s.kept ++ [s.next], s.stride, s.next + s.stride⟩

/-- What the recording keeps. The next position follows the last one at the stride. Only the first
one after a thinning of an even number of positions comes half a stride later. -/
structure Spaced (cap : Nat) (s : Schedule) : Prop where
  first : s.kept.head? = some 0
  gaps : s.kept.IsChain (Gap s.stride)
  room : s.kept.length < cap
  ahead : ∃ last, s.kept.getLast? = some last ∧ (2 < cap → s.next = last + s.stride ∨
    2 * s.next = 2 * last + 3 * s.stride ∧ 2 * s.kept.length = cap)
  stride_pos : 1 ≤ s.stride
  stride_le : 2 * s.stride ≤ s.next + 1

variable {cap : Nat} {s : Schedule}

theorem spaced_start (hcap : 2 ≤ cap) : Spaced cap (start.keep cap) := by
  have hroom : ¬ cap ≤ 0 + 1 := by omega
  have hkeep : start.keep cap = ⟨[0], 1, 1⟩ := if_neg hroom
  rw [hkeep]
  exact ⟨rfl, .singleton 0, hcap, ⟨0, rfl, fun _ => .inl rfl⟩, Nat.le_refl 1, Nat.le_refl 2⟩

/-- The next position may follow the last one. -/
theorem Spaced.gaps_concat (h : Spaced cap s) (hcap : 2 < cap) :
    (s.kept ++ [s.next]).IsChain (Gap s.stride) := by
  obtain ⟨last, hlast, hahead⟩ := h.ahead
  refine List.isChain_append.mpr ⟨h.gaps, .singleton _, ?_⟩
  intro i hi j hj
  obtain rfl : last = i := Option.some.inj (hlast.symm.trans hi)
  obtain rfl : s.next = j := Option.some.inj hj
  rcases hahead hcap with hnext | ⟨hnext, _⟩
  · constructor
    · omega
    · omega
  · constructor
    · omega
    · omega

/-- A recording that is not full grows. -/
theorem Spaced.grow (h : Spaced cap s) (hcap : 2 ≤ cap) (hroom : s.kept.length + 1 < cap) :
    Spaced cap ⟨s.kept ++ [s.next], s.stride, s.next + s.stride⟩ := by
  have hne : s.kept ≠ [] := by
    rintro hnil
    have hfirst := h.first
    rw [hnil] at hfirst
    exact absurd hfirst (by simp)
  have hpos := List.length_pos_iff.mpr hne
  have hle := h.stride_le
  refine ⟨?_, h.gaps_concat (by omega), ?_, ⟨s.next, List.getLast?_concat, fun _ => .inl rfl⟩,
    h.stride_pos, ?_⟩
  · show (s.kept ++ [s.next]).head? = some 0
    rw [List.head?_append_of_ne_nil _ hne]
    exact h.first
  · show (s.kept ++ [s.next]).length < cap
    rw [List.length_append, List.length_singleton]
    exact hroom
  · show 2 * s.stride ≤ s.next + s.stride + 1
    omega

/-- A recording that is full is thinned. -/
theorem Spaced.thin (h : Spaced cap s) (hcap : 2 ≤ cap) (hfull : cap ≤ s.kept.length + 1) :
    Spaced cap ⟨alternate (s.kept ++ [s.next]), 2 * s.stride, s.next + 2 * s.stride⟩ := by
  have hlength : s.kept.length + 1 = cap := by
    have := h.room
    omega
  have hne : s.kept ≠ [] := List.length_pos_iff.mp (by omega)
  have hhalf : (alternate (s.kept ++ [s.next])).length = (cap + 1) / 2 := by
    rw [alternate_length, List.length_append, List.length_singleton, hlength]
  have hpos := h.stride_pos
  have hle := h.stride_le
  refine ⟨?_, ?_, ?_, ?_, ?_, ?_⟩
  · show (alternate (s.kept ++ [s.next])).head? = some 0
    rw [alternate_head?, List.head?_append_of_ne_nil _ hne]
    exact h.first
  · show (alternate (s.kept ++ [s.next])).IsChain (Gap (2 * s.stride))
    by_cases htwo : 2 < cap
    · exact alternate_gaps (h.gaps_concat htwo)
    · -- a buffer of two is thinned to its first position
      obtain ⟨i, hi⟩ := List.length_eq_one_iff.mp (show s.kept.length = 1 by omega)
      rw [hi]
      exact .singleton i
  · show (alternate (s.kept ++ [s.next])).length < cap
    omega
  · rcases Nat.mod_two_eq_zero_or_one s.kept.length with heven | hodd
    · exact ⟨s.next, alternate_concat_odd _ _ heven, fun _ => .inl rfl⟩
    · obtain ⟨last, hlast, hahead⟩ := h.ahead
      refine ⟨last, (alternate_concat_even _ _ hodd).trans hlast, fun htwo => .inr ?_⟩
      show 2 * (s.next + 2 * s.stride) = 2 * last + 3 * (2 * s.stride) ∧
        2 * (alternate (s.kept ++ [s.next])).length = cap
      -- a thinning that comes right after another leaves room for two positions only
      rcases hahead htwo with hnext | ⟨_, hshort⟩
      · constructor
        · omega
        · omega
      · omega
  · show 1 ≤ 2 * s.stride
    omega
  · show 2 * (2 * s.stride) ≤ s.next + 2 * s.stride + 1
    omega

/-- Another sample keeps what is held spaced, if need be at twice the stride. -/
theorem Spaced.keep (h : Spaced cap s) (hcap : 2 ≤ cap) : Spaced cap (s.keep cap) := by
  unfold Schedule.keep
  split
  · next hfull => exact h.thin hcap hfull
  · next hroom => exact h.grow hcap (by omega)

end Schedule

end OpenNtrip.Decimation
