import Mathlib.Tactic.TypeStar

/-!
# Parsers that know how much they take

A `SizedParser` says of every input how many symbols it takes and what value it reads, and both
depend on the symbols taken alone. So it fails exactly on inputs that are too short, and a longer
input changes nothing. `Gives` says what a parser reads from its own encoding; `pure` and `bind`
keep all of this.
-/

namespace OpenNtrip

structure SizedParser (σ : Type*) (α : Type*) where
  size : List σ → Nat
  value : List σ → α
  size_append {input : List σ} (h : size input ≤ input.length) (more : List σ) :
    size (input ++ more) = size input
  value_append {input : List σ} (h : size input ≤ input.length) (more : List σ) :
    value (input ++ more) = value input

namespace SizedParser

variable {σ α β : Type*}

/-- The value and the symbols left over, if there are enough. -/
def run (p : SizedParser σ α) (input : List σ) : Option (α × List σ) :=
  if p.size input ≤ input.length then some (p.value input, input.drop (p.size input)) else none

/-- Take a fixed number of symbols. -/
def take (n : Nat) (f : List σ → α) : SizedParser σ α where
  size _ := n
  value input := f (input.take n)
  size_append _ _ := rfl
  value_append h more := by rw [List.take_append_of_le_length h]

/-- Take nothing. -/
def pure (a : α) : SizedParser σ α where
  size _ := 0
  value _ := a
  size_append _ _ := rfl
  value_append _ _ := rfl

/-- One parser behind the other, which may depend on the first value. -/
def bind (p : SizedParser σ α) (f : α → SizedParser σ β) : SizedParser σ β where
  size input := p.size input + (f (p.value input)).size (input.drop (p.size input))
  value input := (f (p.value input)).value (input.drop (p.size input))
  size_append {input} h more := by
    have hfirst : p.size input ≤ input.length := by omega
    rw [p.size_append hfirst, p.value_append hfirst, List.drop_append_of_le_length hfirst]
    rw [(f (p.value input)).size_append (by rw [List.length_drop]; omega)]
  value_append {input} h more := by
    have hfirst : p.size input ≤ input.length := by omega
    rw [p.size_append hfirst, p.value_append hfirst, List.drop_append_of_le_length hfirst]
    exact (f (p.value input)).value_append (by rw [List.length_drop]; omega) more

/-- Change the value. -/
def map (f : α → β) (p : SizedParser σ α) : SizedParser σ β where
  size := p.size
  value input := f (p.value input)
  size_append := p.size_append
  value_append h more := congrArg f (p.value_append h more)

/-- A fixed take is of its own size, whatever the input. -/
@[simp] theorem size_take (n : Nat) (f : List σ → α) (input : List σ) : (take n f).size input = n :=
  rfl

@[simp] theorem size_pure (a : α) (input : List σ) : (pure a).size input = 0 := rfl

@[simp] theorem size_map (f : α → β) (p : SizedParser σ α) (input : List σ) :
    (map f p).size input = p.size input := rfl

/-- The sizes add up: the second parser counts from where the first ended. -/
@[simp] theorem size_bind (p : SizedParser σ α) (f : α → SizedParser σ β) (input : List σ) :
    (p.bind f).size input =
      p.size input + (f (p.value input)).size (input.drop (p.size input)) := rfl

@[simp] theorem value_take (n : Nat) (f : List σ → α) (input : List σ) :
    (take n f).value input = f (input.take n) := rfl

@[simp] theorem value_pure (a : α) (input : List σ) : (pure a).value input = a := rfl

@[simp] theorem value_map (f : α → β) (p : SizedParser σ α) (input : List σ) :
    (map f p).value input = f (p.value input) := rfl

/-- The second parser reads what the first left over, and is told the first value. -/
@[simp] theorem value_bind (p : SizedParser σ α) (f : α → SizedParser σ β) (input : List σ) :
    (p.bind f).value input = (f (p.value input)).value (input.drop (p.size input)) := rfl

/-- A fixed take fails on an input that is too short, and only there. -/
theorem run_take (n : Nat) (f : List σ → α) (input : List σ) :
    (take n f).run input =
      if n ≤ input.length then some (f (input.take n), input.drop n) else none := rfl

/-- Parsers in a row run in a row. The first fails on what it needs, the second on the rest. -/
theorem run_bind (p : SizedParser σ α) (f : α → SizedParser σ β) (input : List σ) :
    (p.bind f).run input = (p.run input).bind fun (a, rest) => (f a).run rest := by
  by_cases h : p.size input ≤ input.length
  · have hiff : (p.bind f).size input ≤ input.length ↔
        (f (p.value input)).size (input.drop (p.size input)) ≤
          (input.drop (p.size input)).length := by
      rw [size_bind, List.length_drop]
      omega
    have hhead : p.run input = some (p.value input, input.drop (p.size input)) := if_pos h
    rw [hhead, Option.bind_some]
    show _ = (f (p.value input)).run (input.drop (p.size input))
    rw [run, run]
    simp only [hiff]
    rw [value_bind, size_bind, List.drop_drop]
  · have hnot : ¬ (p.bind f).size input ≤ input.length := by
      rw [size_bind]
      omega
    rw [run, run, if_neg h, if_neg hnot, Option.bind_none]

/-- A change of the value changes neither what is taken nor what fails. -/
theorem run_map (f : α → β) (p : SizedParser σ α) (input : List σ) :
    (map f p).run input = (p.run input).map fun (a, rest) => (f a, rest) := by
  rw [run, run, size_map, value_map]
  split
  · rfl
  · rfl

/-- What follows the symbols taken is left over. -/
theorem run_append {p : SizedParser σ α} {input rest : List σ} {a : α}
    (h : p.run input = some (a, rest)) (more : List σ) :
    p.run (input ++ more) = some (a, rest ++ more) := by
  rw [run] at h
  split at h
  · next hsize =>
      obtain ⟨rfl, rfl⟩ := Prod.mk.inj (Option.some.inj h)
      have hlonger : p.size input ≤ (input ++ more).length := by
        rw [List.length_append]
        omega
      rw [run, p.size_append hsize, p.value_append hsize, if_pos hlonger,
        List.drop_append_of_le_length hsize]
  · cases h

/-! ## Positions -/

/-- The position behind what a parser takes from a position on. -/
def stop (p : SizedParser σ α) (input : List σ) (k : Nat) : Nat := k + p.size (input.drop k)

/-- From the start of the input, the stop of a parser is its size. -/
theorem stop_zero (p : SizedParser σ α) (input : List σ) : p.stop input 0 = p.size input :=
  Nat.zero_add _

/-- What takes nothing stops where it starts. -/
theorem stop_pure (a : α) (input : List σ) (k : Nat) : (pure a).stop input k = k := rfl

theorem stop_map (f : α → β) (p : SizedParser σ α) (input : List σ) (k : Nat) :
    (map f p).stop input k = p.stop input k := rfl

/-- The stops chain: the second parser starts where the first stopped. -/
theorem stop_bind (p : SizedParser σ α) (f : α → SizedParser σ β) (input : List σ) (k : Nat) :
    (p.bind f).stop input k = (f (p.value (input.drop k))).stop input (p.stop input k) := by
  rw [stop, stop, stop, size_bind, List.drop_drop, Nat.add_assoc]

/-! ## Reading an encoding -/

/-- The parser takes the symbols and reads the value. -/
def Gives (p : SizedParser σ α) (symbols : List σ) (a : α) : Prop :=
  p.size symbols = symbols.length ∧ p.value symbols = a

/-- An encoding in front of more input is read back, and the rest is left over. -/
theorem Gives.run {p : SizedParser σ α} {symbols : List σ} {a : α} (h : p.Gives symbols a)
    (more : List σ) : p.run (symbols ++ more) = some (a, more) := by
  have hrun : p.run symbols = some (a, []) := by
    rw [SizedParser.run, if_pos (Nat.le_of_eq h.1), h.1, h.2, List.drop_length]
  exact run_append hrun more

/-- The empty encoding gives the value of the parser that takes nothing. -/
theorem gives_pure (a : α) : (pure a : SizedParser σ α).Gives [] a := ⟨rfl, rfl⟩

/-- A fixed take reads back as many symbols as it takes. -/
theorem gives_take (f : List σ → α) (symbols : List σ) :
    (take symbols.length f).Gives symbols (f symbols) := by
  refine ⟨rfl, ?_⟩
  rw [value_take, List.take_length]

/-- Encodings are written one behind the other as their parsers are run. -/
theorem Gives.bind {p : SizedParser σ α} {f : α → SizedParser σ β} {first second : List σ}
    {a : α} {b : β} (hp : p.Gives first a) (hf : (f a).Gives second b) :
    (p.bind f).Gives (first ++ second) b := by
  have hle : p.size first ≤ first.length := Nat.le_of_eq hp.1
  have hsize := p.size_append hle second
  have hvalue := p.value_append hle second
  rw [hp.1] at hsize
  rw [hp.2] at hvalue
  refine ⟨?_, ?_⟩
  · rw [size_bind, hsize, hvalue, List.drop_left, hf.1, List.length_append]
  · rw [value_bind, hsize, hvalue, List.drop_left, hf.2]

/-- A changed value has the encoding of the value it was made from. -/
theorem Gives.map {p : SizedParser σ α} {symbols : List σ} {a : α} (h : p.Gives symbols a)
    (f : α → β) : (map f p).Gives symbols (f a) :=
  ⟨h.1, congrArg f h.2⟩

end SizedParser
end OpenNtrip
