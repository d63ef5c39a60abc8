import Mathlib.Data.List.Pairwise
import Mathlib.Data.List.Sort
import Mathlib.Data.List.TakeWhile

/-!
# The range of a sorted index that starts with a key

`lowerBound` is the binary search for the first position that is not below a key, and the sort by a
key is stable (`sort_by_key_filter`) and blind to the order of different keys (`sort_by_key_perm`).
In an index that is sorted by its keys, a key that is there is at its lower bound
(`found_at_bound`). Where the keys are strings, those that start with a given one follow each other
from there on (`starts_range`), and those that are that very one come first (`equal_first`).
-/

namespace OpenNtrip

universe u v

/-! ## The search -/

/-- The first position in `[lo, hi)` that is not below, by halving. -/
def lowerBound (below : Nat → Bool) (lo hi : Nat) : Nat :=
  if lo < hi then
    let mid := lo + (hi - lo) / 2
    if below mid then lowerBound below (mid + 1) hi else lowerBound below lo mid
  else lo
termination_by hi - lo

/-- The search stays within its bounds, whatever it looks at. -/
theorem lower_bound_le (below : Nat → Bool) {lo hi : Nat} (h : lo ≤ hi) :
    lo ≤ lowerBound below lo hi ∧ lowerBound below lo hi ≤ hi := by
  fun_induction lowerBound below lo hi with
  | case1 lo hi hlt mid hbelow ih =>
      have := ih (by omega)
      omega
  | case2 lo hi hlt mid hbelow ih =>
      have := ih (by omega)
      omega
  | case3 lo hi hlt => omega

/-- Where being below ends once, it ends at the position found. -/
theorem lower_bound_spec {below : Nat → Bool} (hdown : ∀ i j, i ≤ j → below j = true →
    below i = true) {lo hi : Nat} (h : lo ≤ hi) :
    (∀ i, lo ≤ i → i < lowerBound below lo hi → below i = true) ∧
      ∀ i, lowerBound below lo hi ≤ i → i < hi → below i = false := by
  fun_induction lowerBound below lo hi with
  | case1 lo hi hlt mid hbelow ih =>
      obtain ⟨hbefore, hafter⟩ := ih (by omega)
      refine ⟨?_, hafter⟩
      intro i hi hfound
      by_cases hmid : i ≤ mid
      · exact hdown i mid hmid hbelow
      · exact hbefore i (by omega) hfound
  | case2 lo hi hlt mid hbelow ih =>
      obtain ⟨hbefore, hafter⟩ := ih (by omega)
      refine ⟨hbefore, ?_⟩
      intro i hi hlast
      by_cases hmid : mid ≤ i
      · cases hi' : below i with
        | false => rfl
        | true => exact absurd (hdown mid i hmid hi') hbelow
      · exact hafter i hi (by omega)
  | case3 lo hi hlt => exact ⟨fun i _ _ => by omega, fun i _ _ => by omega⟩

/-! ## Sorting by a key -/

section Sorting

variable {α : Type u} {ι : Type v} [LE α] [DecidableLE α] [Std.IsLinearOrder α] {key : ι → α}

theorem sort_by_key_sorted (key : ι → α) (l : List ι) :
    (l.insertionSort fun a b => key a ≤ key b).Pairwise fun a b => key a ≤ key b := by
  have htotal : Std.Total fun a b : ι => key a ≤ key b := ⟨fun a b => Std.le_total⟩
  have htrans : IsTrans ι fun a b => key a ≤ key b := ⟨fun _ _ _ hab hbc => Std.le_trans hab hbc⟩
  exact List.pairwise_insertionSort (fun a b => key a ≤ key b) l

/-- The sort is stable: it keeps the order of the entries with one key. -/
theorem sort_by_key_filter [DecidableEq α] (l : List ι) (wanted : α) :
    (l.insertionSort fun a b => key a ≤ key b).filter (fun e => decide (key e = wanted)) =
      l.filter fun e => decide (key e = wanted) := by
  have htotal : Std.Total fun a b : ι => key a ≤ key b := ⟨fun a b => Std.le_total⟩
  have htrans : IsTrans ι fun a b => key a ≤ key b := ⟨fun _ _ _ hab hbc => Std.le_trans hab hbc⟩
  have hequal : (l.filter fun e => decide (key e = wanted)).Pairwise
      fun a b => key a ≤ key b := by
    refine List.pairwise_of_forall_mem_list ?_
    intro a ha b hb
    rw [of_decide_eq_true (List.mem_filter.mp ha).2, of_decide_eq_true (List.mem_filter.mp hb).2]
    exact Std.le_refl _
  have hsublist := (List.sublist_insertionSort hequal List.filter_sublist).filter
    fun e => decide (key e = wanted)
  rw [List.filter_filter] at hsublist
  simp only [Bool.and_self] at hsublist
  have hperm := (List.perm_insertionSort (fun a b => key a ≤ key b) l).filter
    fun e => decide (key e = wanted)
  exact (hsublist.eq_of_length hperm.length_eq.symm).symm

/-- Where every key is another, the order before the sort does not show. -/
theorem sort_by_key_perm {l l' : List ι} (hdistinct : (l.map key).Nodup) (h : l.Perm l') :
    (l.insertionSort fun a b => key a ≤ key b) = l'.insertionSort fun a b => key a ≤ key b := by
  refine List.Perm.eq_of_pairwise ?_ (sort_by_key_sorted key l) (sort_by_key_sorted key l')
    (((List.perm_insertionSort _ l).trans h).trans (List.perm_insertionSort _ l').symm)
  intro a b ha hb hab hba
  have ha' : a ∈ l := (List.mem_insertionSort _).mp ha
  have hb' : b ∈ l := h.mem_iff.mpr ((List.mem_insertionSort _).mp hb)
  exact List.inj_on_of_nodup_map hdistinct ha' hb' (Std.le_antisymm hab hba)

end Sorting

/-! ## A key that is there -/

/-- In a sorted index the first entry with a key is at the lower bound of the key, if there is one.
-/
theorem found_at_bound {α : Type u} {ι : Type v} [LT α] [LE α] [Std.IsLinearOrder α]
    [Std.LawfulOrderLT α] [DecidableEq α] {key : ι → α} {entries : List ι}
    (hsorted : entries.Pairwise fun e e' => key e ≤ key e') {wanted : α} {lo : Nat}
    (hbelow : ∀ e ∈ entries.take lo, key e < wanted)
    (habove : ∀ e ∈ entries.drop lo, ¬ key e < wanted) :
    entries.find? (fun e => decide (key e = wanted)) =
      entries[lo]?.filter fun e => decide (key e = wanted) := by
  have hbefore : (entries.take lo).find? (fun e => decide (key e = wanted)) = none := by
    rw [List.find?_eq_none]
    intro e he heq
    exact Std.Irrefl.irrefl wanted (of_decide_eq_true heq ▸ hbelow e he)
  have hsplit : entries.find? (fun e => decide (key e = wanted)) =
      (entries.drop lo).find? fun e => decide (key e = wanted) := by
    have happend := congrArg (List.find? fun e => decide (key e = wanted))
      (List.take_append_drop lo entries)
    rw [List.find?_append, hbefore, Option.none_or] at happend
    exact happend.symm
  rw [hsplit, ← List.head?_drop]
  have hrest := hsorted.sublist (List.drop_sublist lo entries)
  cases hfrom : entries.drop lo with
  | nil => rfl
  | cons e rest =>
      rw [hfrom] at hrest habove
      rw [List.head?_cons, List.find?_cons, Option.filter_some]
      cases hkey : decide (key e = wanted) with
      | true => rfl
      | false =>
          -- what follows an entry above the key is above it too
          simp only [Bool.false_eq_true, if_false]
          rw [List.find?_eq_none]
          intro e' he' heq
          have hle := (List.pairwise_cons.mp hrest).1 e' he'
          rw [of_decide_eq_true heq] at hle
          exact of_decide_eq_false hkey
            (Std.le_antisymm hle (Std.not_lt.mp (habove e List.mem_cons_self)))

/-! ## Keys that start with a key -/

section Keys

variable {α : Type u} {ι : Type v} [LT α] [LE α] [Std.IsLinearOrder α] [Std.LawfulOrderLT α]

/-- A key is not above the keys that start with it. -/
theorem le_of_starts {wanted key : List α} (h : wanted <+: key) : wanted ≤ key := by
  obtain ⟨rest, rfl⟩ := h
  induction wanted with
  | nil => exact List.nil_le rest
  | cons a wanted ih => exact List.cons_le_cons_iff.mpr (.inr ⟨rfl, ih⟩)

/-- What lies between a key and a key that starts with it starts with it too. -/
theorem starts_of_between {wanted key later : List α} (hle : wanted ≤ key) (hle' : key ≤ later)
    (hlater : wanted <+: later) : wanted <+: key := by
  obtain ⟨rest, rfl⟩ := hlater
  induction wanted generalizing key with
  | nil => exact List.nil_prefix
  | cons a wanted ih =>
      cases key with
      | nil => exact absurd List.Lex.nil hle
      | cons b key =>
          rcases List.cons_le_cons_iff.mp hle with hab | ⟨rfl, hrest⟩
          · -- a first element above `a` cannot be followed by one that is `a`
            rcases List.cons_le_cons_iff.mp hle' with hba | ⟨rfl, -⟩
            · exact absurd hba (Std.Asymm.asymm a b hab)
            · exact absurd hab (Std.Irrefl.irrefl b)
          · rcases List.cons_le_cons_iff.mp hle' with haa | ⟨-, hrest'⟩
            · exact absurd haa (Std.Irrefl.irrefl a)
            · exact (List.cons_prefix_cons).mpr ⟨rfl, ih hrest hrest'⟩

variable {key : ι → List α} {entries : List ι}

/-- In a sorted index from a key on, the entries that start with it come first. -/
theorem starts_first [DecidableEq α] (hsorted : entries.Pairwise fun e e' => key e ≤ key e')
    {wanted : List α} (habove : ∀ e ∈ entries, wanted ≤ key e) :
    entries.filter (fun e => wanted.isPrefixOf (key e)) =
      entries.takeWhile fun e => wanted.isPrefixOf (key e) := by
  induction entries with
  | nil => rfl
  | cons e rest ih =>
      obtain ⟨hfirst, hrest⟩ := List.pairwise_cons.mp hsorted
      cases hstarts : wanted.isPrefixOf (key e) with
      | true =>
          simp only [List.filter_cons, List.takeWhile_cons, hstarts, if_true]
          rw [ih hrest fun e' he' => habove e' (List.mem_cons_of_mem _ he')]
      | false =>
          have hnone : ∀ e' ∈ rest, ¬ wanted.isPrefixOf (key e') = true := by
            intro e' he' hlater
            have hbetween := starts_of_between (habove e List.mem_cons_self) (hfirst e' he')
              (List.isPrefixOf_iff_prefix.mp hlater)
            rw [List.isPrefixOf_iff_prefix.mpr hbetween] at hstarts
            simp at hstarts
          simp only [List.filter_cons, List.takeWhile_cons, hstarts, Bool.false_eq_true, if_false]
          exact List.filter_eq_nil_iff.mpr hnone

/-- The entries of a sorted index that start with a key follow each other from its lower bound on.
-/
theorem starts_range [DecidableEq α] (hsorted : entries.Pairwise fun e e' => key e ≤ key e')
    {wanted : List α} {lo : Nat} (hbelow : ∀ e ∈ entries.take lo, key e < wanted)
    (habove : ∀ e ∈ entries.drop lo, ¬ key e < wanted) :
    entries.filter (fun e => wanted.isPrefixOf (key e)) =
      (entries.drop lo).takeWhile fun e => wanted.isPrefixOf (key e) := by
  have hbefore : (entries.take lo).filter (fun e => wanted.isPrefixOf (key e)) = [] := by
    refine List.filter_eq_nil_iff.mpr ?_
    intro e he hstarts
    exact le_of_starts (List.isPrefixOf_iff_prefix.mp hstarts) (hbelow e he)
  rw [← starts_first (hsorted.sublist (List.drop_sublist lo entries))
    fun e he => List.not_lt.mp (habove e he)]
  calc entries.filter (fun e => wanted.isPrefixOf (key e))
      = (entries.take lo ++ entries.drop lo).filter (fun e => wanted.isPrefixOf (key e)) := by
        rw [List.take_append_drop]
    _ = (entries.drop lo).filter (fun e => wanted.isPrefixOf (key e)) := by
        rw [List.filter_append, hbefore, List.nil_append]

/-- The entries whose key is the wanted one come before the others that start with it. -/
theorem equal_first [DecidableEq α] (hsorted : entries.Pairwise fun e e' => key e ≤ key e')
    (wanted : List α) :
    entries.filter (fun e => key e = wanted) <+:
      entries.filter (fun e => wanted.isPrefixOf (key e)) := by
  induction entries with
  | nil => exact List.nil_prefix
  | cons e rest ih =>
      obtain ⟨hfirst, hrest⟩ := List.pairwise_cons.mp hsorted
      by_cases hequal : key e = wanted
      · have hstarts : wanted.isPrefixOf wanted = true :=
          List.isPrefixOf_iff_prefix.mpr List.prefix_rfl
        simp only [List.filter_cons, hequal, hstarts, if_true, decide_true]
        exact (List.cons_prefix_cons).mpr ⟨rfl, ih hrest⟩
      · simp only [List.filter_cons, hequal, decide_false, Bool.false_eq_true, if_false]
        cases hstarts : wanted.isPrefixOf (key e) with
        | false =>
            simp only [Bool.false_eq_true, if_false]
            exact ih hrest
        | true =>
            -- nothing after a longer key is as short as the wanted one
            have hnone : ∀ e' ∈ rest, ¬ (key e' = wanted) := by
              intro e' he' heq
              have hle := hfirst e' he'
              rw [heq] at hle
              exact hequal (List.le_antisymm hle
                (le_of_starts (List.isPrefixOf_iff_prefix.mp hstarts)))
            rw [List.filter_eq_nil_iff.mpr (by simpa using hnone)]
            exact List.nil_prefix

end Keys
end OpenNtrip
