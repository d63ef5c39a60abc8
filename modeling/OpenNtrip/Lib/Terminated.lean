import Mathlib.Data.List.Basic

/-!
# Lines with a terminator of two symbols

`terminatedLines a b` cuts a list after each occurrence of `a` followed by `b`. It undoes the
concatenation of lines that do not contain `a` (`terminated_lines_join`), and a terminator that
follows another at once shows as an empty line (`terminated_lines_double`).
-/

namespace OpenNtrip

universe u

variable {α : Type u} [DecidableEq α]

/-- Put a symbol before the first line, or before the rest if there is no line. -/
def consLine (x : α) : List (List α) × List α → List (List α) × List α
  | ([], rest) => ([], x :: rest)
  | (line :: lines, rest) => ((x :: line) :: lines, rest)

/-- The lines that are ended by `a b`, without their terminators, and what follows the last one. -/
def terminatedLines (a b : α) : List α → List (List α) × List α
  | [] => ([], [])
  | [x] => ([], [x])
  | x :: y :: rest =>
    if x = a ∧ y = b then
      let (lines, after) := terminatedLines a b rest
      ([] :: lines, after)
    else consLine x (terminatedLines a b (y :: rest))

variable {a b : α}

theorem terminated_lines_end (rest : List α) :
    terminatedLines a b (a :: b :: rest) =
      ([] :: (terminatedLines a b rest).1, (terminatedLines a b rest).2) := by
  rw [terminatedLines, if_pos ⟨rfl, rfl⟩]

theorem terminated_lines_cons {x : α} (hx : x ≠ a) (rest : List α) :
    terminatedLines a b (x :: rest) = consLine x (terminatedLines a b rest) := by
  cases rest with
  | nil => rfl
  | cons y rest => rw [terminatedLines, if_neg fun h => hx h.1]

/-- The first terminator ends a line that does not contain its first symbol. -/
theorem terminated_lines_line {line : List α} (h : a ∉ line) (rest : List α) :
    terminatedLines a b (line ++ a :: b :: rest) =
      (line :: (terminatedLines a b rest).1, (terminatedLines a b rest).2) := by
  induction line with
  | nil => exact terminated_lines_end rest
  | cons x line ih =>
      have hx : x ≠ a := fun heq => h (heq ▸ List.mem_cons_self)
      rw [List.cons_append, terminated_lines_cons hx,
        ih fun hmem => h (List.mem_cons_of_mem _ hmem)]
      rfl

/-- Lines that do not contain the first symbol of the terminator are read back. -/
theorem terminated_lines_join {lines : List (List α)} (h : ∀ line ∈ lines, a ∉ line)
    (rest : List α) :
    terminatedLines a b (lines.flatMap (· ++ [a, b]) ++ rest) =
      (lines ++ (terminatedLines a b rest).1, (terminatedLines a b rest).2) := by
  induction lines with
  | nil => rfl
  | cons line lines ih =>
      rw [List.flatMap_cons, List.append_assoc, List.append_assoc, List.cons_append,
        List.cons_append, List.nil_append, terminated_lines_line (h line List.mem_cons_self),
        ih fun l hl => h l (List.mem_cons_of_mem _ hl)]
      rfl

/-- Nothing is left of a list without lines and without a rest. -/
theorem terminated_lines_eq_nil {list : List α} (h : terminatedLines a b list = ([], [])) :
    list = [] := by
  induction list using terminatedLines.induct a b with
  | case1 => rfl
  | case2 x => simp [terminatedLines] at h
  | case3 x y rest hend lines after heq ih =>
      rw [terminatedLines, if_pos hend] at h
      simp at h
  | case4 x y rest hnot ih =>
      rw [terminatedLines, if_neg hnot] at h
      cases hlines : terminatedLines a b (y :: rest) with
      | mk lines after =>
          rw [hlines] at h
          cases lines with
          | nil => simp [consLine] at h
          | cons line lines => simp [consLine] at h

/-- What is before a terminator does not change how the list after it is cut. -/
theorem terminated_lines_append (hab : a ≠ b) (before rest : List α) :
    ∃ lines, lines ≠ [] ∧ terminatedLines a b (before ++ a :: b :: rest) =
      (lines ++ (terminatedLines a b rest).1, (terminatedLines a b rest).2) := by
  induction before using terminatedLines.induct a b with
  | case1 => exact ⟨[[]], by simp, terminated_lines_end rest⟩
  | case2 x =>
      -- A lone first symbol does not pair with the one of the terminator.
      have hnot : ¬ (x = a ∧ a = b) := fun h => hab h.2
      refine ⟨[[x]], by simp, ?_⟩
      rw [List.cons_append, List.nil_append, terminatedLines, if_neg hnot, terminated_lines_end]
      rfl
  | case3 x y before hend lines after heq ih =>
      obtain ⟨lines', -, hlines⟩ := ih
      refine ⟨[] :: lines', by simp, ?_⟩
      rw [List.cons_append, List.cons_append, terminatedLines, if_pos hend, hlines]
      rfl
  | case4 x y before hnot ih =>
      obtain ⟨lines', hne, hlines⟩ := ih
      obtain ⟨line, lines'', rfl⟩ := List.exists_cons_of_ne_nil hne
      refine ⟨(x :: line) :: lines'', by simp, ?_⟩
      rw [List.cons_append] at hlines
      rw [List.cons_append, List.cons_append, terminatedLines, if_neg hnot, hlines]
      rfl

/-- In a list that is cut into lines that are not empty and a last one that is, two terminators
follow each other at the end only. -/
theorem terminated_lines_double (hab : a ≠ b) {lines : List (List α)}
    (hlines : ∀ line ∈ lines, line ≠ []) {before after : List α}
    (h : terminatedLines a b (before ++ a :: b :: a :: b :: after) = (lines ++ [[]], [])) :
    after = [] := by
  obtain ⟨first, -, hfirst⟩ := terminated_lines_append hab before (a :: b :: after)
  rw [hfirst, terminated_lines_end] at h
  obtain ⟨hcut, hrest⟩ := Prod.mk.inj h
  have hnone : (terminatedLines a b after).1 = [] := by
    rcases List.eq_nil_or_concat (terminatedLines a b after).1 with hnil | ⟨more, last, hmore⟩
    · exact hnil
    · -- Otherwise the empty line is one of those that are not.
      rw [hmore, List.concat_eq_append, ← List.cons_append, ← List.append_assoc] at hcut
      have hmem : [] ∈ lines := by
        rw [← (List.append_inj' hcut rfl).1]
        simp
      exact absurd rfl (hlines [] hmem)
  exact terminated_lines_eq_nil (Prod.ext hnone hrest)

end OpenNtrip
