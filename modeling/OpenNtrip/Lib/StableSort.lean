import Mathlib.Data.List.Sort

/-!
# Stable sorting

What a stable sort by a total preorder makes of a list that is in an order of its own: the one
arrangement of its elements where those that the preorder does not tell apart keep that order
(`stable_sort_iff`).
-/

namespace OpenNtrip

universe u

variable {α : Type u} {r s : α → α → Prop} [DecidableRel r] [Std.Total r] [IsTrans α r]

/-- The order after the sort: by `r`, and by `s` where `r` says both. -/
def StableOrder (r s : α → α → Prop) (a b : α) : Prop := r a b ∧ (r b a → s a b)

/-- An element that stood in front goes in front of those that it is not told apart from. -/
theorem stable_insert {a : α} {l : List α} (hl : l.Pairwise (StableOrder r s))
    (ha : ∀ b ∈ l, s a b) : (l.orderedInsert r a).Pairwise (StableOrder r s) := by
  induction l with
  | nil => exact List.pairwise_singleton _ a
  | cons b rest ih =>
      obtain ⟨hb, hrest⟩ := List.pairwise_cons.mp hl
      rw [List.orderedInsert_cons]
      by_cases hab : r a b
      · rw [if_pos hab]
        refine List.pairwise_cons.mpr ⟨?_, hl⟩
        intro c hc
        refine ⟨?_, fun _ => ha c hc⟩
        rcases List.mem_cons.mp hc with rfl | hmem
        · exact hab
        · exact IsTrans.trans a b c hab (hb c hmem).1
      · rw [if_neg hab]
        refine List.pairwise_cons.mpr ⟨?_, ih hrest fun c hc => ha c (List.mem_cons_of_mem b hc)⟩
        intro c hc
        rcases List.mem_cons.mp ((List.perm_orderedInsert r a rest).mem_iff.mp hc) with rfl | hmem
        · -- the new element stays behind, since it is above this one
          exact ⟨(Std.Total.total b c).resolve_right hab, fun hcb => absurd hcb hab⟩
        · exact hb c hmem

/-- A stable sort keeps the old order where the new one decides nothing. -/
theorem stable_sort {l : List α} (h : l.Pairwise s) :
    (l.insertionSort r).Pairwise (StableOrder r s) := by
  induction l with
  | nil => exact List.Pairwise.nil
  | cons a rest ih =>
      obtain ⟨ha, hrest⟩ := List.pairwise_cons.mp h
      exact stable_insert (ih hrest) fun b hb => ha b ((List.mem_insertionSort r).mp hb)

omit [DecidableRel r] [Std.Total r] [IsTrans α r] in
/-- There is one arrangement in this order. -/
theorem stable_order_unique (hs : ∀ a b, s a b → ¬ s b a) {l l' : List α} (h : l.Perm l')
    (hl : l.Pairwise (StableOrder r s)) (hl' : l'.Pairwise (StableOrder r s)) : l = l' := by
  refine List.Perm.eq_of_pairwise ?_ hl hl' h
  intro a b _ _ hab hba
  exact absurd (hba.2 hab.1) (hs a b (hab.2 hba.1))

/-- The sorted list is the one arrangement in the order after the sort. -/
theorem stable_sort_iff (hs : ∀ a b, s a b → ¬ s b a) {l l' : List α} (h : l.Pairwise s) :
    l' = l.insertionSort r ↔ l'.Perm l ∧ l'.Pairwise (StableOrder r s) := by
  constructor
  · rintro rfl
    exact ⟨List.perm_insertionSort r l, stable_sort h⟩
  · rintro ⟨hperm, hordered⟩
    exact stable_order_unique hs (hperm.trans (List.perm_insertionSort r l).symm) hordered
      (stable_sort h)

end OpenNtrip
