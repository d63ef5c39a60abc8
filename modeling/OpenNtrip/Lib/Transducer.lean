import Mathlib.Order.Defs.Unbundled
import Mathlib.Logic.Relation

/-!
# Transducers and split invariance

A transducer answers each input with its next state and a list of outputs; `Transducer.run`
feeds it a list of inputs and concatenates the answers. When the inputs are themselves
lists (blocks of a stream), `SplitInvariant feed stateEq outputEq` says that feeding two
blocks one after the other is, up to the two equivalences, feeding their concatenation.
`SplitInvariant.run_eq_of_flatten_eq` is the consequence for whole runs: only the
concatenation of the blocks matters.
-/

namespace OpenNtrip.Transducer

universe u v w

variable {σ : Type u} {ι : Type v} {β : Type w}

/-- Feed the inputs in order, threading the state and concatenating the outputs. -/
def run (step : σ → ι → σ × List β) : σ → List ι → σ × List β
  | s, [] => (s, [])
  | s, i :: rest =>
    let (next, out) := step s i
    let (last, later) := run step next rest
    (last, out ++ later)

section Runs

variable (step : σ → ι → σ × List β)

@[simp] theorem run_nil (s : σ) : run step s [] = (s, []) := rfl

@[simp] theorem run_cons (s : σ) (i : ι) (rest : List ι) :
    run step s (i :: rest) =
      ((run step (step s i).1 rest).1, (step s i).2 ++ (run step (step s i).1 rest).2) := rfl

/-- Running two lists of inputs one after the other is running their concatenation. -/
theorem run_append (s : σ) (first second : List ι) :
    run step s (first ++ second) =
      ((run step (run step s first).1 second).1,
        (run step s first).2 ++ (run step (run step s first).1 second).2) := by
  induction first generalizing s with
  | nil => simp
  | cons i first ih => simp [ih, List.append_assoc]

/-- Running each block of a stream is running the stream. -/
theorem run_blocks (s : σ) (blocks : List (List ι)) :
    run (run step) s blocks = run step s blocks.flatten := by
  induction blocks generalizing s with
  | nil => rfl
  | cons block rest ih => rw [run_cons, ih, List.flatten_cons, run_append]

variable {step}

/-- A property that holds at the start and that every step keeps holds after every run. -/
theorem run_invariant (inv : σ → Prop) {s : σ} {inputs : List ι}
    (hstep : ∀ s, ∀ i ∈ inputs, inv s → inv (step s i).1) (hs : inv s) :
    inv (run step s inputs).1 := by
  induction inputs generalizing s with
  | nil => exact hs
  | cons i rest ih =>
      exact ih (fun s' i' hi' => hstep s' i' (List.mem_cons_of_mem _ hi')) (hstep s i (by simp) hs)

/-- Every output of a run is the output of a step from a state with the invariant. -/
theorem exists_step_of_mem_run (inv : σ → Prop) {s : σ} {inputs : List ι}
    (hstep : ∀ s, ∀ i ∈ inputs, inv s → inv (step s i).1) (hs : inv s) {b : β}
    (hb : b ∈ (run step s inputs).2) : ∃ s', ∃ i ∈ inputs, inv s' ∧ b ∈ (step s' i).2 := by
  induction inputs generalizing s with
  | nil => simp at hb
  | cons i rest ih =>
      rcases List.mem_append.mp hb with hnow | hlater
      · exact ⟨s, i, by simp, hs, hnow⟩
      · obtain ⟨s', i', hi', hs', hout⟩ :=
          ih (fun s' i' hi' => hstep s' i' (List.mem_cons_of_mem _ hi')) (hstep s i (by simp) hs)
            hlater
        exact ⟨s', i', List.mem_cons_of_mem _ hi', hs', hout⟩

end Runs

/-- Two answers agree when their states are related and their outputs are. -/
def Agree (stateEq : σ → σ → Prop) (outputEq : List β → List β → Prop)
    (left right : σ × List β) : Prop :=
  stateEq left.1 right.1 ∧ outputEq left.2 right.2

/-- Feeding blocks of a stream of `α` depends only on their concatenation, up to an equivalence
of states that feeding respects and a congruence of outputs. -/
structure SplitInvariant {α : Type v} (feed : σ → List α → σ × List β)
    (stateEq : σ → σ → Prop) (outputEq : List β → List β → Prop) : Prop where
  state_equivalence : Equivalence stateEq
  output_equivalence : Equivalence outputEq
  output_append : ∀ {a a' b b' : List β}, outputEq a a' → outputEq b b' →
    outputEq (a ++ b) (a' ++ b')
  feed_congr : ∀ {s s' : σ} (block : List α), stateEq s s' →
    Agree stateEq outputEq (feed s block) (feed s' block)
  feed_append : ∀ (s : σ) (first second : List α),
    Agree stateEq outputEq (feed s (first ++ second))
      ((feed (feed s first).1 second).1, (feed s first).2 ++ (feed (feed s first).1 second).2)

namespace SplitInvariant

variable {α : Type v} {feed : σ → List α → σ × List β}
variable {stateEq : σ → σ → Prop} {outputEq : List β → List β → Prop}

/-- Related states stay related, and answer with related outputs, along every run. -/
theorem run_congr (h : SplitInvariant feed stateEq outputEq) {s s' : σ} (hs : stateEq s s')
    (blocks : List (List α)) : Agree stateEq outputEq (run feed s blocks) (run feed s' blocks) := by
  induction blocks generalizing s s' with
  | nil => exact ⟨hs, h.output_equivalence.refl _⟩
  | cons block rest ih =>
      obtain ⟨hstate, hout⟩ := h.feed_congr block hs
      obtain ⟨hlast, hlater⟩ := ih hstate
      exact ⟨hlast, h.output_append hout hlater⟩

/-- Feeding at least one block is feeding the concatenation of the blocks. -/
theorem run_flatten (h : SplitInvariant feed stateEq outputEq) (s : σ)
    (blocks : List (List α)) (hne : blocks ≠ []) :
    Agree stateEq outputEq (run feed s blocks) (feed s blocks.flatten) := by
  induction blocks generalizing s with
  | nil => exact absurd rfl hne
  | cons block rest ih =>
      cases rest with
      | nil =>
          simp only [run_cons, run_nil, List.append_nil, List.flatten_cons, List.flatten_nil]
          exact ⟨h.state_equivalence.refl _, h.output_equivalence.refl _⟩
      | cons next rest =>
          obtain ⟨hstate, hout⟩ := ih (feed s block).1 (List.cons_ne_nil _ _)
          obtain ⟨hstate', hout'⟩ := h.feed_append s block (next :: rest).flatten
          exact ⟨h.state_equivalence.trans hstate (h.state_equivalence.symm hstate'),
            h.output_equivalence.trans
              (h.output_append (h.output_equivalence.refl _) hout)
              (h.output_equivalence.symm hout')⟩

/-- Two ways of cutting the same stream into at least one block each give agreeing runs. -/
theorem run_eq_of_flatten_eq (h : SplitInvariant feed stateEq outputEq) (s : σ)
    {blocks blocks' : List (List α)} (hne : blocks ≠ []) (hne' : blocks' ≠ [])
    (hflat : blocks.flatten = blocks'.flatten) :
    Agree stateEq outputEq (run feed s blocks) (run feed s blocks') := by
  obtain ⟨hstate, hout⟩ := h.run_flatten s blocks hne
  obtain ⟨hstate', hout'⟩ := h.run_flatten s blocks' hne'
  rw [hflat] at hstate hout
  exact ⟨h.state_equivalence.trans hstate (h.state_equivalence.symm hstate'),
    h.output_equivalence.trans hout (h.output_equivalence.symm hout')⟩

end SplitInvariant

end OpenNtrip.Transducer
