import OpenNtrip.Lib.Decimation
import OpenNtrip.Rust.Float

/-!
# The strip chart of the elevation

`PlotSeries` of `state.rs`. The series follows the recording of `Lib/Decimation` for as long as its
32-bit counters suffice (`push_follows`), and its smallest, largest and latest value are those of
all samples (`decimated`).
-/

namespace OpenNtrip

open Decimation

/-- `PlotSeries`. A point is a time and a value. -/
structure PlotSeries where
  points : List (F64 × F64)
  cap : Nat
  stride : UInt32
  skip : UInt32
  min : Option F64
  max : Option F64
  current : Option F64
  cap_ge : 2 ≤ cap
  deriving Repr

/-- The `retain` of `push`, with the counter of its closure. -/
def retainOdd {α : Type} : Int32 → List α → List α
  | _, [] => []
  | keep, point :: rest =>
    if (keep + 1) % 2 = 1 then point :: retainOdd (keep + 1) rest else retainOdd (keep + 1) rest

namespace PlotSeries

/-- `PlotSeries::new`. -/
def new (cap : Nat) : PlotSeries where
  points := []
  cap := Nat.max cap 2
  stride := 1
  skip := 0
  min := none
  max := none
  current := none
  cap_ge := Nat.le_max_right cap 2

/-- `push`. The counters wrap, as they do in a release. -/
def push (s : PlotSeries) (t v : F64) : PlotSeries :=
  let s := { s with
    current := some v
    min := some (s.min.elim v (·.min v))
    max := some (s.max.elim v (·.max v)) }
  if 0 < s.skip then { s with skip := s.skip - 1 }
  else
    let points := s.points ++ [(t, v)]
    if s.cap ≤ points.length then
      { s with points := retainOdd 0 points, stride := s.stride * 2, skip := s.stride * 2 - 1 }
    else { s with points, skip := s.stride - 1 }

/-- `clear`. -/
def clear (s : PlotSeries) : PlotSeries :=
  { s with points := [], stride := 1, skip := 0, min := none, max := none, current := none }

/-- The series after these samples, in order. -/
def record (cap : Nat) (samples : List (F64 × F64)) : PlotSeries :=
  samples.foldl (fun s sample => s.push sample.1 sample.2) (new cap)

/-- Another sample is pushed behind the others. -/
theorem record_concat (cap : Nat) (samples : List (F64 × F64)) (sample : F64 × F64) :
    record cap (samples ++ [sample]) = (record cap samples).push sample.1 sample.2 := by
  rw [record, List.foldl_append]
  rfl

end PlotSeries

/-! ## The `retain` of `push` -/

section

variable {α : Type} {keep : Int32}

/-- The counter goes up by one while there is room. -/
theorem count_succ (hkeep : 0 ≤ keep.toInt) (hroom : keep.toInt + 1 < 2 ^ 31) :
    (keep + 1).toInt = keep.toInt + 1 := by
  rw [Int32.toInt_add]
  show (keep.toInt + 1).bmod (2 ^ 32) = keep.toInt + 1
  exact Int.bmod_eq_of_le (by omega) (by omega)

/-- The counter is odd if the number it stands for is. -/
theorem count_odd_iff (hkeep : 0 ≤ keep.toInt) : keep % 2 = 1 ↔ keep.toInt % 2 = 1 := by
  rw [← Int32.toInt_inj, Int32.toInt_mod]
  show keep.toInt.tmod 2 = 1 ↔ keep.toInt % 2 = 1
  rw [Int.tmod_eq_emod_of_nonneg hkeep]

/-- As long as its counter suffices, `retain` keeps every other point. -/
theorem retain_odd_eq (l : List α) (hkeep : 0 ≤ keep.toInt) (heven : keep.toInt % 2 = 0)
    (hroom : keep.toInt + l.length < 2 ^ 31) : retainOdd keep l = alternate l := by
  fun_induction alternate l generalizing keep with
  | case1 => rfl
  | case2 a =>
      have hfirst := count_succ hkeep hroom
      rw [retainOdd, if_pos ((count_odd_iff (by omega)).mpr (by omega)), retainOdd]
  | case3 a b rest ih =>
      simp only [List.length_cons, Nat.cast_add, Nat.cast_one] at hroom
      have hfirst := count_succ hkeep (by omega)
      have hsecond : (keep + 1 + 1).toInt = (keep + 1).toInt + 1 :=
        count_succ (by omega) (by omega)
      have hnot : ¬ (keep + 1 + 1) % 2 = 1 := by
        rw [count_odd_iff (by omega)]
        omega
      rw [retainOdd, if_pos ((count_odd_iff (by omega)).mpr (by omega)), retainOdd, if_neg hnot,
        ih (by omega) (by omega) (by omega)]

end

/-! ## The positions of the points -/

/-- These are the samples at these positions. -/
def Picks {α : Type} (samples : List α) (kept : List Nat) (points : List α) : Prop :=
  points.map some = kept.map (samples[·]?)

section

variable {α : Type} {samples points : List α} {kept : List Nat}

theorem Picks.length_eq (h : Picks samples kept points) : points.length = kept.length := by
  have hlength := congrArg List.length h
  rwa [List.length_map, List.length_map] at hlength

/-- Every other point is that of every other kept place. -/
theorem Picks.alternate (h : Picks samples kept points) :
    Picks samples (alternate kept) (alternate points) := by
  rw [Picks, ← alternate_map, ← alternate_map, h]

/-- More samples change nothing. -/
theorem Picks.more (h : Picks samples kept points) (sample : α) :
    Picks (samples ++ [sample]) kept points := by
  refine h.trans (List.map_congr_left fun i hi => ?_)
  have hmem : samples[i]? ∈ points.map some := by
    rw [h]
    exact List.mem_map_of_mem hi
  obtain ⟨point, _, hpoint⟩ := List.mem_map.mp hmem
  obtain ⟨hlt, _⟩ := List.getElem?_eq_some_iff.mp hpoint.symm
  exact (List.getElem?_append_left hlt).symm

/-- A sample that is kept is the last of the points. -/
theorem Picks.concat (h : Picks samples kept points) (sample : α) :
    Picks (samples ++ [sample]) (kept ++ [samples.length]) (points ++ [sample]) := by
  rw [Picks, List.map_append, List.map_append, h.more sample]
  simp

end

namespace PlotSeries

/-- The series keeps the samples of a recording, and waits for its next position. -/
structure Follows (samples : List (F64 × F64)) (s : PlotSeries) (schedule : Schedule) : Prop where
  points : Picks samples schedule.kept s.points
  stride : s.stride.toNat = schedule.stride
  next : samples.length + s.skip.toNat = schedule.next
  sublist : s.points.Sublist samples

variable {samples : List (F64 × F64)} {s : PlotSeries} {schedule : Schedule}

/-- A new series has kept nothing. -/
theorem new_follows (cap : Nat) : Follows [] (new cap) .start :=
  ⟨rfl, rfl, rfl, List.Sublist.refl _⟩

/-- The number that is skipped after a point. -/
theorem skip_stride {stride : UInt32} (hpos : 1 ≤ stride.toNat) :
    (stride - 1).toNat + 1 = stride.toNat := by
  have hone : (1 : UInt32) ≤ stride := UInt32.le_iff_toNat_le.mpr hpos
  rw [UInt32.toNat_sub_of_le _ _ hone]
  exact Nat.sub_add_cancel hpos

/-- A push keeps the next position of the recording, or waits for it. -/
theorem push_follows (h : Follows samples s schedule) (hpos : 1 ≤ schedule.stride)
    (hstride : 2 * schedule.stride ≤ schedule.next + 2) (hlength : samples.length + 1 < 2 ^ 31)
    (t v : F64) :
    Follows (samples ++ [(t, v)]) (s.push t v)
      (if 0 < s.skip then schedule else schedule.keep s.cap) := by
  have hstep : (samples ++ [(t, v)]).length = samples.length + 1 := by simp
  have hshort := h.sublist.length_le
  by_cases hskip : 0 < s.skip
  · have hone : 1 ≤ s.skip.toNat := UInt32.lt_iff_toNat_lt.mp hskip
    have hnext := h.next
    have hless := skip_stride hone
    rw [if_pos hskip, push, if_pos hskip]
    refine ⟨h.points.more _, h.stride, ?_, h.sublist.trans (List.sublist_append_left _ _)⟩
    show (samples ++ [(t, v)]).length + (s.skip - 1).toNat = schedule.next
    omega
  · have hzero : s.skip.toNat = 0 := by
      rw [UInt32.lt_iff_toNat_lt] at hskip
      exact Nat.eq_zero_of_not_pos hskip
    have hnext := h.next
    have hindex : samples.length = schedule.next := by omega
    have hpicks := h.points.concat (t, v)
    have hkept := h.points.length_eq
    have hpoints := h.sublist.append_right [(t, v)]
    have hlen : (s.points ++ [(t, v)]).length = schedule.kept.length + 1 := by simp [hkept]
    rw [hindex] at hpicks
    rw [if_neg hskip, push, if_neg hskip]
    by_cases hfull : s.cap ≤ schedule.kept.length + 1
    · have hdouble : (s.stride * 2).toNat = 2 * schedule.stride := by
        rw [UInt32.toNat_mul, h.stride, show (2 : UInt32).toNat = 2 from rfl, Nat.mul_comm,
          Nat.mod_eq_of_lt (by omega)]
      have hless := skip_stride (show 1 ≤ (s.stride * 2).toNat by omega)
      have hretain : retainOdd 0 (s.points ++ [(t, v)]) = alternate (s.points ++ [(t, v)]) :=
        retain_odd_eq _ (by decide) (by decide) (by
          show (0 : Int) + _ < _
          omega)
      rw [Schedule.keep, if_pos hfull, if_pos (hlen ▸ hfull), hretain]
      refine ⟨hpicks.alternate, hdouble, ?_, (alternate_sublist _).trans hpoints⟩
      show (samples ++ [(t, v)]).length + (s.stride * 2 - 1).toNat =
        schedule.next + 2 * schedule.stride
      omega
    · have hstride' := h.stride
      have hless := skip_stride (show 1 ≤ s.stride.toNat by omega)
      rw [Schedule.keep, if_neg hfull, if_neg (hlen ▸ hfull)]
      refine ⟨hpicks, h.stride, ?_, hpoints⟩
      show (samples ++ [(t, v)]).length + (s.stride - 1).toNat = schedule.next + schedule.stride
      omega

/-- A sample does not change the capacity. -/
theorem push_cap (s : PlotSeries) (t v : F64) : (s.push t v).cap = s.cap := by
  unfold push
  simp only
  split
  · rfl
  · split
    · rfl
    · rfl

theorem record_cap (cap : Nat) (samples : List (F64 × F64)) :
    (record cap samples).cap = Nat.max cap 2 := by
  induction samples using List.reverseRecOn with
  | nil => rfl
  | append_singleton samples sample ih =>
      rw [record_concat, push_cap]
      exact ih

/-- After every push, the series follows a recording that is spaced. -/
theorem record_follows (cap : Nat) (samples : List (F64 × F64)) (hne : samples ≠ [])
    (hlength : samples.length < 2 ^ 31) :
    ∃ schedule, Follows samples (record cap samples) schedule ∧
      schedule.Spaced (Nat.max cap 2) := by
  induction samples using List.reverseRecOn with
  | nil => exact absurd rfl hne
  | append_singleton samples sample ih =>
      have hcap : 2 ≤ Nat.max cap 2 := Nat.le_max_right cap 2
      rw [List.length_append, List.length_singleton] at hlength
      rw [record_concat]
      by_cases hfirst : samples = []
      · subst hfirst
        have hfollows := push_follows (new_follows cap) (Nat.le_refl 1) (by decide) hlength
          sample.1 sample.2
        exact ⟨_, hfollows, Schedule.spaced_start hcap⟩
      · obtain ⟨schedule, hfollows, hspaced⟩ := ih hfirst (by omega)
        have hle := hspaced.stride_le
        have hpush := push_follows hfollows hspaced.stride_pos (by omega) hlength sample.1 sample.2
        refine ⟨_, hpush, ?_⟩
        rw [record_cap]
        split
        · exact hspaced
        · exact hspaced.keep hcap

/-! ## The values -/

/-- What the series says of the values of its samples. -/
structure Summary (values : List F64) (s : PlotSeries) : Prop where
  min : ∃ m, s.min = some m ∧ F64.IsLeast values m
  max : ∃ m, s.max = some m ∧ F64.IsGreatest values m
  current : s.current = values.getLast?

/-- A sample counts in the least, the greatest and the current value. -/
theorem push_summary (s : PlotSeries) (t v : F64) :
    (s.push t v).min = some (s.min.elim v (·.min v)) ∧
      (s.push t v).max = some (s.max.elim v (·.max v)) ∧ (s.push t v).current = some v := by
  unfold push
  simp only
  split
  · exact ⟨rfl, rfl, rfl⟩
  · split
    · exact ⟨rfl, rfl, rfl⟩
    · exact ⟨rfl, rfl, rfl⟩

/-- Every sample counts for the values, also one that is not kept. -/
theorem record_summary (cap : Nat) (samples : List (F64 × F64)) (hne : samples ≠ [])
    (hnan : ∀ sample ∈ samples, sample.2 ≠ .nan) :
    Summary (samples.map Prod.snd) (record cap samples) := by
  induction samples using List.reverseRecOn with
  | nil => exact absurd rfl hne
  | append_singleton samples sample ih =>
      have hv : sample.2 ≠ .nan := hnan sample (by simp)
      have hbefore : ∀ sample ∈ samples, sample.2 ≠ .nan := fun earlier hmem =>
        hnan earlier (List.mem_append_left _ hmem)
      obtain ⟨hmin, hmax, hcurrent⟩ := push_summary (record cap samples) sample.1 sample.2
      rw [record_concat, List.map_append, List.map_singleton]
      by_cases hfirst : samples = []
      · subst hfirst
        refine ⟨⟨sample.2, hmin, ?_⟩, ⟨sample.2, hmax, ?_⟩, hcurrent⟩
        · exact ⟨List.mem_singleton_self _, fun w hw => by
            rw [List.mem_singleton.mp hw]
            exact F64.le_refl hv⟩
        · exact ⟨List.mem_singleton_self _, fun w hw => by
            rw [List.mem_singleton.mp hw]
            exact F64.le_refl hv⟩
      · obtain ⟨⟨low, hlow, hleast⟩, ⟨high, hhigh, hgreatest⟩, _⟩ := ih hfirst hbefore
        have hreal : ∀ value ∈ samples.map Prod.snd, value ≠ .nan := by
          intro value hvalue
          obtain ⟨earlier, hmem, rfl⟩ := List.mem_map.mp hvalue
          exact hbefore earlier hmem
        rw [hlow] at hmin
        rw [hhigh] at hmax
        refine ⟨⟨_, hmin, ?_⟩, ⟨_, hmax, ?_⟩, ?_⟩
        · exact F64.is_least_min hleast (hreal low hleast.1) hv
        · exact F64.is_greatest_max hgreatest (hreal high hgreatest.1) hv
        · rw [hcurrent, List.getLast?_concat]

/-- After each of fewer than 2^31 pushes, the series holds fewer points than its capacity allows.
They are samples in the order of the pushes, from the first one on, and any two that follow each
other are between one and one and a half strides apart. The smallest, the largest and the latest
value are those of all samples. -/
theorem decimated (cap : Nat) (samples : List (F64 × F64)) (hne : samples ≠ [])
    (hlength : samples.length < 2 ^ 31) (hnan : ∀ sample ∈ samples, sample.2 ≠ .nan) :
    (record cap samples).points.length < Nat.max cap 2 ∧
      (record cap samples).points.Sublist samples ∧
      (∃ kept, Picks samples kept (record cap samples).points ∧ kept.head? = some 0 ∧
        kept.IsChain (Gap (record cap samples).stride.toNat)) ∧
      Summary (samples.map Prod.snd) (record cap samples) := by
  obtain ⟨schedule, hfollows, hspaced⟩ := record_follows cap samples hne hlength
  refine ⟨?_, hfollows.sublist, ⟨schedule.kept, hfollows.points, hspaced.first, ?_⟩,
    record_summary cap samples hne hnan⟩
  · rw [hfollows.points.length_eq]
    exact hspaced.room
  · rw [hfollows.stride]
    exact hspaced.gaps

/-- Five samples in a series of four points: only the first and the third are kept. -/
theorem decimated_five :
    (record 4 [(.finite 0, .finite 7), (.finite 1, .finite 3), (.finite 2, .finite 5),
      (.finite 3, .finite 9), (.finite 4, .finite 4)]).points.length < 4 ∧
    Summary [.finite 7, .finite 3, .finite 5, .finite 9, .finite 4]
      (record 4 [(.finite 0, .finite 7), (.finite 1, .finite 3), (.finite 2, .finite 5),
        (.finite 3, .finite 9), (.finite 4, .finite 4)]) := by
  obtain ⟨hroom, _, _, hsummary⟩ := decimated 4 [(.finite 0, .finite 7), (.finite 1, .finite 3),
    (.finite 2, .finite 5), (.finite 3, .finite 9), (.finite 4, .finite 4)] (by simp) (by simp)
    (by simp)
  exact ⟨hroom, hsummary⟩

end PlotSeries
end OpenNtrip
