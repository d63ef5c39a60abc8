import Mathlib.Algebra.GroupWithZero.Nat
import Mathlib.Data.List.Basic

/-!
# Incremental tokenizers

A tokenizer looks at the head of its input and either takes a token of one or more symbols
from it or waits for more. `Stable` says that a token that was taken does not depend on what
follows it. Then the tokens of a stream do not depend on how it is cut (`tokens_append`), and
each symbol of the stream lies in one token or in the rest that waits (`exists_token_at`).
-/

namespace OpenNtrip

universe u v

/-- A rule for the next token, and its size in symbols. -/
structure Tokenizer (α : Type u) (τ : Type v) where
  next : List α → Option τ
  size : τ → Nat
  size_pos : ∀ t, 0 < size t
  size_le : ∀ {input t}, next input = some t → size t ≤ input.length

namespace Tokenizer

variable {α : Type u} {τ : Type v} (k : Tokenizer α τ)

/-- The tokens at the head of the input, and the rest that waits for more. -/
def tokens (input : List α) : List τ × List α :=
  match _h : k.next input with
  | none => ([], input)
  | some t =>
    let (later, rest) := tokens (input.drop (k.size t))
    (t :: later, rest)
termination_by input.length
decreasing_by
  have hpos := k.size_pos t
  have hle := k.size_le _h
  rw [List.length_drop]
  omega

/-- Where no token starts, all of the input is left. -/
theorem tokens_of_none {input : List α} (h : k.next input = none) :
    k.tokens input = ([], input) := by
  rw [tokens]
  split
  · rfl
  · next t ht => rw [h] at ht; simp at ht

/-- Where one starts, the others are those behind it. -/
theorem tokens_of_some {input : List α} {t : τ} (h : k.next input = some t) :
    k.tokens input =
      (t :: (k.tokens (input.drop (k.size t))).1, (k.tokens (input.drop (k.size t))).2) := by
  rw [tokens]
  split
  · next hnone => rw [h] at hnone; simp at hnone
  · next t' ht =>
      rw [h] at ht
      obtain rfl := Option.some.inj ht
      rfl

/-- The symbols that a list of tokens takes. -/
def width (ts : List τ) : Nat := (ts.map k.size).sum

@[simp] theorem width_nil : k.width [] = 0 := rfl

@[simp] theorem width_cons (t : τ) (ts : List τ) : k.width (t :: ts) = k.size t + k.width ts := by
  simp [width]

/-- Tokens in a row are as wide as both lists of them. -/
@[simp] theorem width_append (ts ts' : List τ) :
    k.width (ts ++ ts') = k.width ts + k.width ts' := by
  simp [width]

/-- What the tokens do not take waits. -/
theorem tokens_rest (input : List α) :
    k.width (k.tokens input).1 ≤ input.length ∧
      (k.tokens input).2 = input.drop (k.width (k.tokens input).1) := by
  induction input using tokens.induct (k := k) with
  | case1 input hnext =>
      rw [tokens_of_none k hnext]
      exact ⟨Nat.zero_le _, rfl⟩
  | case2 input t hnext later rest hlater ih =>
      have hle := k.size_le hnext
      obtain ⟨hwidth, hrest⟩ := ih
      rw [List.length_drop] at hwidth
      rw [tokens_of_some k hnext]
      simp only [width_cons]
      refine ⟨by omega, ?_⟩
      rw [hrest, List.drop_drop]

/-- The rest waits: there is no token at its head. -/
theorem next_rest (input : List α) : k.next (k.tokens input).2 = none := by
  induction input using tokens.induct (k := k) with
  | case1 input hnext =>
      rw [tokens_of_none k hnext]
      exact hnext
  | case2 input t hnext later rest hlater ih =>
      rw [tokens_of_some k hnext]
      exact ih

/-- A token does not depend on what follows it. -/
def Stable : Prop :=
  ∀ {input : List α} {t : τ}, k.next input = some t → ∀ more, k.next (input ++ more) = some t

variable {k}

/-- The tokens of a stream are those of its first part, then those of what waited and the rest. -/
theorem tokens_append (hstable : k.Stable) (first second : List α) :
    k.tokens (first ++ second) =
      ((k.tokens first).1 ++ (k.tokens ((k.tokens first).2 ++ second)).1,
        (k.tokens ((k.tokens first).2 ++ second)).2) := by
  induction first using tokens.induct (k := k) with
  | case1 first hnext =>
      rw [tokens_of_none k hnext]
      rfl
  | case2 first t hnext later rest hlater ih =>
      rw [tokens_of_some k hnext, tokens_of_some k (hstable hnext second),
        List.drop_append_of_le_length (k.size_le hnext), ih]
      rfl

/-- Each token is what the rule takes at its place in the stream. -/
theorem next_at {input : List α} {before after : List τ} {t : τ}
    (h : (k.tokens input).1 = before ++ t :: after) :
    k.next (input.drop (k.width before)) = some t := by
  induction before generalizing input with
  | nil =>
      cases hnext : k.next input with
      | none => simp [tokens_of_none k hnext] at h
      | some t' =>
          rw [tokens_of_some k hnext] at h
          obtain rfl := (List.cons.inj h).1
          rw [width_nil, List.drop_zero]
          exact hnext
  | cons t₀ before ih =>
      cases hnext : k.next input with
      | none => simp [tokens_of_none k hnext] at h
      | some t' =>
          rw [tokens_of_some k hnext] at h
          obtain ⟨rfl, hlater⟩ := List.cons.inj h
          rw [width_cons, ← List.drop_drop]
          exact ih hlater

/-- Every position that does not wait lies in a token. -/
theorem exists_token_at (ts : List τ) {p : Nat} (h : p < k.width ts) :
    ∃ before t after, ts = before ++ t :: after ∧ k.width before ≤ p ∧
      p < k.width before + k.size t := by
  induction ts generalizing p with
  | nil => simp at h
  | cons t ts ih =>
      rw [width_cons] at h
      by_cases hfirst : p < k.size t
      · exact ⟨[], t, ts, rfl, Nat.zero_le _, by simpa using hfirst⟩
      · obtain ⟨before, t', after, hsplit, hle, hlt⟩ := ih (p := p - k.size t) (by omega)
        refine ⟨t :: before, t', after, by rw [hsplit]; rfl, ?_, ?_⟩
        · rw [width_cons]
          omega
        · rw [width_cons]
          omega

end Tokenizer
end OpenNtrip
