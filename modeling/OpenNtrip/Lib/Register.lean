import Mathlib.Data.List.DropRight

/-!
# What a state remembers of its log

A state that is a fold over a log keeps parts of it. A part that some entries reset is a fold over
the entries since the last of them (`since_reset`). A part that some entries set is what the last of
them set (`last_set`). A bounded window holds the last entries (`window_last`).
-/

namespace OpenNtrip.Register

universe u v w

variable {σ : Type u} {ε : Type v} {ρ : Type w} {step : σ → ε → σ} (part : σ → ρ)

/-- A part that is reset by some entries, and otherwise updated by `update`. -/
theorem since_reset {reset : ε → Bool} {update : ρ → ε → ρ} {fresh : ρ}
    (hreset : ∀ s e, reset e = true → part (step s e) = fresh)
    (hupdate : ∀ s e, reset e = false → part (step s e) = update (part s) e) {s : σ}
    (h : part s = fresh) (log : List ε) :
    part (log.foldl step s) = (log.rtakeWhile fun e => !reset e).foldl update fresh := by
  induction log using List.reverseRecOn with
  | nil => exact h
  | append_singleton log e ih =>
      rw [List.foldl_append, List.foldl_cons, List.foldl_nil, List.rtakeWhile_concat]
      cases hcase : reset e with
      | true => simpa using hreset _ e hcase
      | false =>
          rw [hupdate _ e hcase, ih]
          simp

/-- A part that some entries set, and no other changes. -/
theorem last_set {set : ε → Option ρ} (hset : ∀ s e, part (step s e) = (set e).getD (part s))
    (s : σ) (log : List ε) :
    part (log.foldl step s) = ((log.filterMap set).getLast?).getD (part s) := by
  induction log using List.reverseRecOn with
  | nil => rfl
  | append_singleton log e ih =>
      rw [List.foldl_append, List.foldl_cons, List.foldl_nil, hset, ih, List.filterMap_append]
      cases hcase : set e with
      | none => simp [hcase]
      | some r => simp [hcase]

/-- The number of the entries that a counter counts. -/
theorem counted (count : σ → Nat) {counts : ε → Bool}
    (hcount : ∀ s e, count (step s e) = count s + if counts e then 1 else 0) (s : σ)
    (log : List ε) : count (log.foldl step s) = count s + log.countP counts := by
  induction log generalizing s with
  | nil => rfl
  | cons e rest ih =>
      rw [List.foldl_cons, ih, hcount, List.countP_cons]
      omega

/-- Push an entry into a window of at most `cap` entries, dropping the oldest one if it is full. -/
def pushBounded (cap : Nat) (window : List ρ) (r : ρ) : List ρ :=
  (if window.length = cap then window.tail else window) ++ [r]

theorem push_bounded_last {cap : Nat} (hcap : 0 < cap) (log : List ρ) (r : ρ) :
    pushBounded cap (log.rtake cap) r = (log ++ [r]).rtake cap := by
  obtain ⟨n, rfl⟩ : ∃ n, cap = n + 1 := ⟨cap - 1, by omega⟩
  rw [List.rtake_concat_succ, pushBounded]
  congr 1
  have hlength : (log.rtake (n + 1)).length = log.length - (log.length - (n + 1)) := by
    rw [List.rtake, List.length_drop]
  split
  · next hfull =>
      rw [List.rtake, List.tail_drop, List.rtake]
      congr 1
      omega
  · next hroom =>
      rw [List.rtake, List.rtake]
      congr 1
      omega

/-- A window holds the last entries that were pushed into it. -/
theorem window_last {cap : Nat} (hcap : 0 < cap) (log : List ρ) :
    log.foldl (pushBounded cap) [] = log.rtake cap := by
  induction log using List.reverseRecOn with
  | nil => rw [List.foldl_nil, List.rtake_nil]
  | append_singleton log r ih =>
      rw [List.foldl_append, ih, List.foldl_cons, List.foldl_nil, push_bounded_last hcap]

end OpenNtrip.Register
