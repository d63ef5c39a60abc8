import Mathlib.Data.List.DropRight

/-!
# Substitutions of words for letters

`s.flatMap f` writes the word `f c` for each letter `c`. A substitution that keeps the letters of a
set, and writes none of them for the others, commutes with what is done at those letters: dropping
them from the ends and splitting at one of them.
-/

namespace OpenNtrip

variable {α : Type*} {p : α → Bool} {f : α → List α}

/-- The letters of the set stay, and the words for the others have none of them. -/
structure KeepsLetters (p : α → Bool) (f : α → List α) : Prop where
  kept : ∀ {c}, p c = true → f c = [c]
  word_ne_nil : ∀ {c}, p c = false → f c ≠ []
  word : ∀ {c}, p c = false → ∀ d ∈ f c, p d = false

namespace KeepsLetters

/-- What keeps a set keeps its subsets. -/
theorem mono (h : KeepsLetters p f) {q : α → Bool} (hq : ∀ c, q c = true → p c = true) :
    KeepsLetters q f := by
  have houtside : ∀ {c}, p c = false → q c = false := by
    intro c hc
    cases hqc : q c with
    | false => rfl
    | true => exact absurd (hq c hqc) (by simp [hc])
  refine ⟨fun hc => h.kept (hq _ hc), ?_, ?_⟩
  · intro c _
    cases hc : p c with
    | true =>
        rw [h.kept hc]
        exact List.cons_ne_nil _ _
    | false => exact h.word_ne_nil hc
  · intro c hqc d hd
    cases hc : p c with
    | true =>
        rw [h.kept hc, List.mem_singleton] at hd
        rw [hd]
        exact hqc
    | false => exact houtside (h.word hc d hd)

/-- No element is replaced by nothing. -/
theorem ne_nil (h : KeepsLetters p f) (c : α) : f c ≠ [] := by
  cases hc : p c with
  | true =>
      rw [h.kept hc]
      exact List.cons_ne_nil _ _
  | false => exact h.word_ne_nil hc

/-- The same holds read from the end. -/
theorem reverse (h : KeepsLetters p f) : KeepsLetters p (List.reverse ∘ f) := by
  refine ⟨?_, ?_, ?_⟩
  · intro c hc
    rw [Function.comp_apply, h.kept hc]
    rfl
  · intro c hc hnil
    exact h.word_ne_nil hc (List.reverse_eq_nil_iff.mp hnil)
  · intro c hc d hd
    exact h.word hc d (List.mem_reverse.mp hd)

/-- What is dropped in front is dropped before the substitution or behind it. -/
theorem drop_while (h : KeepsLetters p f) (s : List α) :
    (s.flatMap f).dropWhile p = (s.dropWhile p).flatMap f := by
  induction s with
  | nil => rfl
  | cons c rest ih =>
      rw [List.flatMap_cons]
      cases hc : p c with
      | true =>
          rw [h.kept hc, List.singleton_append, List.dropWhile_cons_of_pos hc, ih,
            List.dropWhile_cons_of_pos hc]
      | false =>
          -- the word for the first letter begins with a letter that is not dropped
          obtain ⟨d, word, hword⟩ := List.exists_cons_of_ne_nil (h.word_ne_nil hc)
          have hd : p d = false := h.word hc d (hword ▸ List.mem_cons_self)
          have hkept : ¬ p d = true := by simp [hd]
          rw [List.dropWhile_cons_of_neg (by simp [hc]), List.flatMap_cons, hword,
            List.cons_append, List.dropWhile_cons_of_neg hkept]

/-- So is what is dropped at the end. -/
theorem rdrop_while (h : KeepsLetters p f) (s : List α) :
    (s.flatMap f).rdropWhile p = (s.rdropWhile p).flatMap f := by
  rw [List.rdropWhile, List.rdropWhile, List.reverse_flatMap, h.reverse.drop_while,
    List.reverse_flatMap]
  congr 1
  funext c
  exact List.reverse_reverse _

/-- A text of kept letters is left as it is. -/
theorem all_kept (h : KeepsLetters p f) {s : List α} (hs : s.all p = true) : s.flatMap f = s := by
  induction s with
  | nil => rfl
  | cons c rest ih =>
      rw [List.all_cons, Bool.and_eq_true] at hs
      rw [List.flatMap_cons, h.kept hs.1, ih hs.2, List.singleton_append]

/-- Only a text of kept letters becomes one. -/
theorem all_flat_map (h : KeepsLetters p f) (s : List α) : (s.flatMap f).all p = s.all p := by
  induction s with
  | nil => rfl
  | cons c rest ih =>
      rw [List.flatMap_cons, List.all_append, List.all_cons, ih]
      cases hc : p c with
      | true => simp [h.kept hc, hc]
      | false =>
          obtain ⟨d, word, hword⟩ := List.exists_cons_of_ne_nil (h.word_ne_nil hc)
          have hd : p d = false := h.word hc d (hword ▸ List.mem_cons_self)
          simp [hword, hd]

/-- What stands before the first place of a split grows by a word without the letter. -/
theorem split_on_append [BEq α] [LawfulBEq α] {a : α} {word : List α} (hword : a ∉ word)
    (t : List α) : (word ++ t).splitOn a = (t.splitOn a).modifyHead (word ++ ·) := by
  induction word with
  | nil => cases hparts : t.splitOn a <;> simp [hparts]
  | cons c rest ih =>
      have hc : ¬ (c == a) = true := by
        rw [beq_iff_eq]
        rintro rfl
        exact hword List.mem_cons_self
      rw [List.cons_append, List.splitOn_cons_eq_if_modifyHead, if_neg hc,
        ih fun ha => hword (List.mem_cons_of_mem _ ha), List.modifyHead_modifyHead]
      rfl

/-- The parts between separators are substituted one by one. -/
theorem split_on [BEq α] [LawfulBEq α] {a : α} (h : KeepsLetters (· == a) f) (s : List α) :
    (s.flatMap f).splitOn a = (s.splitOn a).map fun part => part.flatMap f := by
  induction s with
  | nil => rfl
  | cons c rest ih =>
      rw [List.flatMap_cons, List.splitOn_cons_eq_if_modifyHead]
      cases hc : c == a with
      | true =>
          rw [h.kept hc, List.singleton_append, List.splitOn_cons_eq_if_modifyHead, if_pos hc, ih]
          rfl
      | false =>
          have hword : a ∉ f c := by
            intro ha
            simpa using h.word hc a ha
          rw [split_on_append hword, ih]
          cases hparts : rest.splitOn a with
          | nil => exact absurd hparts (List.splitOn_ne_nil a rest)
          | cons part parts => simp

end KeepsLetters

/-- A substitution whose words it leaves alone need not be made twice. -/
theorem flat_map_twice {s : List α} (h : ∀ c ∈ s, ∀ d ∈ f c, f d = [d]) :
    (s.flatMap f).flatMap f = s.flatMap f := by
  rw [List.flatMap_assoc]
  refine List.flatMap_congr fun c hc => ?_
  rw [List.flatMap_congr (h c hc)]
  exact List.flatMap_singleton' _

end OpenNtrip
