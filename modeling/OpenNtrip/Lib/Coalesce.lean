import Mathlib.Data.List.Basic

/-!
# Joining adjacent outputs

`coalesce merge` joins every run of neighbouring elements that the partial operation
`merge` accepts. When `merge` is associative in the sense of `MergeAssoc`, the normal form
does not depend on where a list was cut: `coalesce_append` computes it from the normal
forms of the two parts, so equality of normal forms is a congruence for `++`.
-/

namespace OpenNtrip

universe u

variable {α : Type u} (merge : α → α → Option α)

/-- Put one element in front of a list whose neighbours do not merge, joining it with the head
when `merge` accepts the two. -/
def coalesceCons (a : α) : List α → List α
  | [] => [a]
  | b :: rest =>
    match merge a b with
    | some joined => joined :: rest
    | none => a :: b :: rest

/-- Join all neighbours that `merge` accepts, from the right. -/
def coalesce : List α → List α
  | [] => []
  | a :: rest => coalesceCons merge a (coalesce rest)

/-- Joining is associative, and what a join accepts on its right is decided by its last part. -/
structure MergeAssoc : Prop where
  reject : ∀ {a b c joined : α}, merge a b = some joined → merge b c = none →
    merge joined c = none
  accept : ∀ {a b c joined later : α}, merge a b = some joined → merge b c = some later →
    ∃ all, merge joined c = some all ∧ merge a later = some all

variable {merge}

theorem coalesce_cons (a : α) (rest : List α) :
    coalesce merge (a :: rest) = coalesceCons merge a (coalesce merge rest) := rfl

/-- Two elements that merge may be replaced by their join in front of a normal form. -/
theorem coalesce_cons_cons (hassoc : MergeAssoc merge) {a b joined : α}
    (h : merge a b = some joined) (rest : List α) :
    coalesceCons merge a (coalesceCons merge b rest) = coalesceCons merge joined rest := by
  cases rest with
  | nil => simp [coalesceCons, h]
  | cons c rest =>
      cases hbc : merge b c with
      | none =>
          have hjoined := hassoc.reject h hbc
          simp only [coalesceCons, hbc, h, hjoined]
      | some later =>
          obtain ⟨all, hjoined, hlater⟩ := hassoc.accept h hbc
          simp only [coalesceCons, hbc, hjoined, hlater]

/-- Normalizing the right part of a list first changes nothing. -/
theorem coalesce_append_right (hassoc : MergeAssoc merge) (left right : List α) :
    coalesce merge (left ++ coalesce merge right) = coalesce merge (left ++ right) := by
  have hidem : ∀ l : List α, coalesce merge (coalesce merge l) = coalesce merge l := by
    intro l
    induction l with
    | nil => rfl
    | cons a rest ih =>
        rw [coalesce_cons]
        cases hrest : coalesce merge rest with
        | nil => rfl
        | cons b tail =>
            rw [hrest] at ih
            cases hab : merge a b with
            | none => rw [coalesceCons, hab, coalesce_cons, ih, coalesceCons, hab]
            | some joined =>
                -- the head of `rest`'s normal form is unmergeable with its successor, and so
                -- is its join with `a`
                rw [coalesceCons, hab]
                simp only
                rw [coalesce_cons, ← coalesce_cons_cons hassoc hab, ← coalesce_cons, ih,
                  coalesceCons, hab]
  induction left with
  | nil => exact hidem right
  | cons a left ih => rw [List.cons_append, List.cons_append, coalesce_cons, coalesce_cons, ih]

/-- Normalizing the left part of a list first changes nothing. -/
theorem coalesce_append_left (hassoc : MergeAssoc merge) (left right : List α) :
    coalesce merge (coalesce merge left ++ right) = coalesce merge (left ++ right) := by
  induction left with
  | nil => rfl
  | cons a left ih =>
      rw [List.cons_append, coalesce_cons, coalesce_cons, ← ih]
      cases hleft : coalesce merge left with
      | nil => rfl
      | cons b tail =>
          cases hab : merge a b with
          | none => simp only [coalesceCons, hab, List.cons_append, coalesce_cons]
          | some joined =>
              have hjoin := coalesce_cons_cons hassoc hab (coalesce merge (tail ++ right))
              simpa only [coalesceCons, hab, List.cons_append, coalesce_cons] using hjoin.symm

/-- The normal form of a concatenation is that of the concatenated normal forms. -/
theorem coalesce_append (hassoc : MergeAssoc merge) (left right : List α) :
    coalesce merge (left ++ right) =
      coalesce merge (coalesce merge left ++ coalesce merge right) := by
  rw [coalesce_append_right hassoc, coalesce_append_left hassoc]

/-- Having the same normal form is a congruence for concatenation. -/
theorem coalesce_append_congr (hassoc : MergeAssoc merge) {left left' right right' : List α}
    (hleft : coalesce merge left = coalesce merge left')
    (hright : coalesce merge right = coalesce merge right') :
    coalesce merge (left ++ right) = coalesce merge (left' ++ right') := by
  rw [coalesce_append hassoc, hleft, hright, ← coalesce_append hassoc]

/-- Two neighbours that merge may be replaced by their join anywhere in a list. -/
theorem coalesce_join (hassoc : MergeAssoc merge) {a b joined : α}
    (h : merge a b = some joined) (left right : List α) :
    coalesce merge (left ++ a :: b :: right) = coalesce merge (left ++ joined :: right) := by
  induction left with
  | nil => exact coalesce_cons_cons hassoc h _
  | cons c left ih => rw [List.cons_append, List.cons_append, coalesce_cons, coalesce_cons, ih]

/-- A measurement of lists that ignores joins is determined by the normal form. -/
theorem coalesce_measure {β : Type*} (measure : List α → β)
    (hcons : ∀ a l l', measure l = measure l' → measure (a :: l) = measure (a :: l'))
    (hjoin : ∀ a b joined l, merge a b = some joined →
      measure (a :: b :: l) = measure (joined :: l))
    (l : List α) : measure (coalesce merge l) = measure l := by
  induction l with
  | nil => rfl
  | cons a rest ih =>
      rw [coalesce_cons, ← hcons a _ _ ih]
      cases coalesce merge rest with
      | nil => rfl
      | cons b tail =>
          cases hab : merge a b with
          | none => simp [coalesceCons, hab]
          | some joined => simp [coalesceCons, hab, hjoin a b joined tail hab]

end OpenNtrip
