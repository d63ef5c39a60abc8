import Mathlib.Data.Option.Basic

/-!
# Systems that take one step after the other

A system is a partial function from a state and an event to the next state. `Reachable` holds of
the states it reaches by events that are allowed where they happen. `Reachable.invariant` is the
induction over its runs, `reachable_of_rank` finds a run to a goal, and `reachable_of_exec` replays
a run that is given as a list of events.
-/

namespace OpenNtrip.StepSystem

universe u v

variable {σ : Type u} {ε : Type v}

/-- The states that are reached from `start` by allowed events. -/
inductive Reachable (next : σ → ε → Option σ) (allowed : σ → ε → Bool) (start : σ) :
    σ → Prop where
  | refl : Reachable next allowed start start
  | step {s s' : σ} {e : ε} (h : Reachable next allowed start s) (hallowed : allowed s e = true)
      (hnext : next s e = some s') : Reachable next allowed start s'

/-- Run the events of a list in order, as long as they are allowed. -/
def exec (next : σ → ε → Option σ) (allowed : σ → ε → Bool) : σ → List ε → Option σ
  | s, [] => some s
  | s, e :: rest => if allowed s e then (next s e).bind (exec next allowed · rest) else none

variable {next : σ → ε → Option σ} {allowed : σ → ε → Bool} {start : σ}

/-- What holds at the start and is kept by every allowed event holds of every state reached. -/
theorem Reachable.invariant {inv : σ → Prop} (hstart : inv start)
    (hstep : ∀ s e s', inv s → allowed s e = true → next s e = some s' → inv s') {s : σ}
    (h : Reachable next allowed start s) : inv s := by
  induction h with
  | refl => exact hstart
  | step _ hallowed hnext ih => exact hstep _ _ _ ih hallowed hnext

theorem Reachable.trans {between s : σ} (h : Reachable next allowed start between)
    (hrest : Reachable next allowed between s) : Reachable next allowed start s := by
  induction hrest with
  | refl => exact h
  | step _ hallowed hnext ih => exact ih.step hallowed hnext

/-- A goal is reached if an event leads to it, or to a state of smaller rank, as long as the
invariant holds. -/
theorem reachable_of_rank (rank : σ → Nat) (inv goal : σ → Prop)
    (hstep : ∀ s, inv s → ∃ e s', allowed s e = true ∧ next s e = some s' ∧
      (goal s' ∨ inv s' ∧ rank s' < rank s)) (s : σ) (hs : inv s) :
    ∃ s', Reachable next allowed s s' ∧ goal s' := by
  induction h : rank s using Nat.strongRecOn generalizing s with
  | ind n ih =>
      obtain ⟨e, s', hallowed, hnext, hgoal | ⟨hinv, hrank⟩⟩ := hstep s hs
      · exact ⟨s', Reachable.refl.step hallowed hnext, hgoal⟩
      · obtain ⟨t, hreach, hgoal⟩ := ih (rank s') (by omega) s' hinv rfl
        exact ⟨t, (Reachable.refl.step hallowed hnext).trans hreach, hgoal⟩

/-- A list of events leads from a state that is reached to another. -/
theorem Reachable.exec {s s' : σ} {events : List ε} (h : Reachable next allowed start s)
    (hexec : exec next allowed s events = some s') : Reachable next allowed start s' := by
  induction events generalizing s with
  | nil =>
      obtain rfl := Option.some.inj hexec
      exact h
  | cons e rest ih =>
      rw [StepSystem.exec] at hexec
      split at hexec
      · next hallowed =>
          obtain ⟨between, hnext, hrest⟩ := Option.bind_eq_some_iff.mp hexec
          exact ih (h.step hallowed hnext) hrest
      · simp at hexec

/-- A run that ends in a state with a property shows that such a state is reached. -/
theorem reachable_of_exec (next : σ → ε → Option σ) (allowed : σ → ε → Bool) (start : σ)
    (events : List ε) {p : σ → Bool} (h : (exec next allowed start events).any p = true) :
    ∃ s, Reachable next allowed start s ∧ p s = true := by
  cases hexec : exec next allowed start events with
  | none => simp [hexec] at h
  | some s =>
      rw [hexec, Option.any_some] at h
      exact ⟨s, Reachable.refl.exec hexec, h⟩

end OpenNtrip.StepSystem
