import Mathlib.Logic.Basic

/-!
# Computations that can fault

A computation in `Checked` yields a value or stops at a fault: an overflow of an offset, a range
outside of what is indexed, or a failed assertion. `Safe` says that it yields a value. A computation
in `Reads` may also come to nothing without a fault, and one in `Tries` may be refused; `Safe` is
asked of what they run as.
-/

namespace OpenNtrip

universe u

/-- What stops a computation. -/
inductive Fault where
  | overflow
  | outOfRange
  | panic
  deriving DecidableEq, Repr

/-- A computation that yields a value or stops at a fault. -/
abbrev Checked (α : Type u) : Type u := Except Fault α

/-- A computation that may also come to nothing. -/
abbrev Reads (α : Type u) : Type u := OptionT Checked α

/-- A computation that may also be refused. -/
abbrev Tries (ε α : Type u) : Type u := ExceptT ε Checked α

namespace Checked

variable {α β : Type u}

/-- A number that has to be below a bound. -/
def bounded (bound n : Nat) : Checked Nat := if n < bound then .ok n else .error .overflow

/-- `assert!`. -/
def ensure (condition : Bool) : Checked Unit := if condition then .ok () else .error .panic

/-- `expect`. -/
def expect : Reads α → Checked α := fun r => do
  match ← r.run with
  | some value => .ok value
  | none => .error .panic

/-- The computation yields a value. -/
def Safe (c : Checked α) : Prop := ∃ value, c = .ok value

/-- A value is a safe computation. -/
theorem Safe.ok (value : α) : Safe (.ok value) := ⟨value, rfl⟩

theorem Safe.pure (value : α) : Safe (Pure.pure value) := ⟨value, rfl⟩

/-- Steps are safe in a row if each is safe after what the one before yields. -/
theorem Safe.bind {c : Checked α} {f : α → Checked β} (h : Safe c)
    (hf : ∀ value, c = .ok value → Safe (f value)) : Safe (c >>= f) := by
  obtain ⟨value, hvalue⟩ := h
  obtain ⟨result, hresult⟩ := hf value hvalue
  refine ⟨result, ?_⟩
  rw [hvalue]
  exact hresult

theorem ok_bind (value : α) (f : α → Checked β) : (Except.ok value >>= f) = f value := rfl

/-- A number below its bound passes. -/
theorem bounded_ok {bound n : Nat} (h : n < bound) : bounded bound n = .ok n := if_pos h

/-- What yields a value in the end has yielded one at every step. -/
theorem bind_ok {c : Checked α} {f : α → Checked β} {result : β} (h : (c >>= f) = .ok result) :
    ∃ value, c = .ok value ∧ f value = .ok result := by
  cases c with
  | error fault => exact absurd h (by simp [bind, Except.bind])
  | ok value => exact ⟨value, rfl, h⟩

/-- What is past an assertion met it. -/
theorem ensure_eq_ok {condition : Bool} {done : Unit} (h : ensure condition = .ok done) :
    condition = true := by
  unfold ensure at h
  split at h
  · next hcondition => exact hcondition
  · simp at h

end Checked

namespace Reads

variable {α β : Type u}

/-- A value, or nothing, without a fault. -/
def total (value : Option α) : Reads α := OptionT.mk (.ok value)

/-- Run a checked computation among reads. -/
def checked (c : Checked α) : Reads α := OptionT.mk (some <$> c)

theorem run_total (value : Option α) : (total value).run = .ok value := rfl

/-- A total read says what it yields. -/
theorem total_injective {value value' : Option α} (h : total value = total value') :
    value = value' := Except.ok.inj h

theorem checked_ok (value : α) : checked (.ok value) = total (some value) := rfl

theorem total_some_bind (value : α) (f : α → Reads β) : (total (some value) >>= f) = f value := rfl

/-- What is there in the end was there at every step. -/
theorem bind_some {r : Reads α} {f : α → Reads β} {result : β}
    (h : (r >>= f) = total (some result)) :
    ∃ value, r = total (some value) ∧ f value = total (some result) := by
  have hrun : (r.run >>= fun found => match found with
      | some value => (f value).run
      | none => pure none) = .ok (some result) := h
  obtain ⟨found, hfound, hcont⟩ := Checked.bind_ok hrun
  cases found with
  | none => simp [pure, Except.pure] at hcont
  | some value => exact ⟨value, hfound, hcont⟩

/-- The computation yields a value or nothing. -/
def Safe (r : Reads α) : Prop := ∃ value, r = total value

theorem Safe.total (value : Option α) : Safe (total value) := ⟨value, rfl⟩

theorem Safe.pure (value : α) : Safe (Pure.pure value : Reads α) := ⟨some value, rfl⟩

/-- Reads are safe in a row if the next is safe where the one before found something. -/
theorem Safe.bind {r : Reads α} {f : α → Reads β} (h : Safe r)
    (hf : ∀ value, r = Reads.total (some value) → Safe (f value)) : Safe (r >>= f) := by
  obtain ⟨value, rfl⟩ := h
  cases value with
  | none => exact ⟨none, rfl⟩
  | some value => exact hf value rfl

/-- A safe read is a safe computation of what is found. -/
theorem Safe.run {r : Reads α} (h : Safe r) : Checked.Safe r.run := by
  obtain ⟨value, rfl⟩ := h
  exact ⟨value, rfl⟩

/-- What is there can be expected. -/
theorem expect_total (value : α) : Checked.expect (Reads.total (some value)) = .ok value := rfl

/-- What is expected was there. -/
theorem expect_eq_ok {r : Reads α} {value : α} (h : Checked.expect r = .ok value) :
    r = Reads.total (some value) := by
  obtain ⟨found, hfound, hvalue⟩ := Checked.bind_ok h
  cases found with
  | none => simp at hvalue
  | some found =>
      obtain rfl := Except.ok.inj hvalue
      exact hfound

end Reads

namespace Tries

variable {ε α β : Type u}

/-- Run a checked computation among tries. -/
def checked (c : Checked α) : Tries ε α := ExceptT.lift c

theorem checked_ok_bind (value : α) (f : α → Tries ε β) :
    (checked (.ok value) >>= f) = f value := rfl

/-- The computation yields a value or is refused. -/
def Safe (t : Tries ε α) : Prop := Checked.Safe t.run

theorem Safe.pure (value : α) : Safe (Pure.pure value : Tries ε α) := ⟨.ok value, rfl⟩

/-- A refusal is no fault. -/
theorem Safe.throw (refusal : ε) : Safe (MonadExcept.throw refusal : Tries ε α) :=
  ⟨.error refusal, rfl⟩

/-- A safe computation is a safe try, which refuses nothing. -/
theorem Safe.checked {c : Checked α} (h : Checked.Safe c) : Safe (checked c : Tries ε α) := by
  obtain ⟨value, rfl⟩ := h
  exact ⟨.ok value, rfl⟩

/-- Tries are safe in a row if the next is safe where the one before is not refused. -/
theorem Safe.bind {t : Tries ε α} {f : α → Tries ε β} (h : Safe t)
    (hf : ∀ value, t.run = .ok (.ok value) → Safe (f value)) : Safe (t >>= f) := by
  obtain ⟨answer, hanswer⟩ := h
  have hrun : (t >>= f).run = ExceptT.bindCont f answer := by
    show (t.run >>= ExceptT.bindCont f) = _
    rw [hanswer]
    rfl
  cases answer with
  | error refusal => exact ⟨.error refusal, hrun⟩
  | ok value =>
      obtain ⟨result, hresult⟩ := hf value hanswer
      exact ⟨result, hrun.trans hresult⟩

/-- A refusal on a condition is safe if what follows it is. -/
theorem Safe.unless {condition : Prop} [Decidable condition] {refusal : ε}
    {f : PUnit → Tries ε β} {rest : Tries ε β} (h : Safe rest) :
    Safe (if condition then (MonadExcept.throw refusal : Tries ε PUnit) >>= f else rest) := by
  split
  · exact ⟨.error refusal, rfl⟩
  · exact h

/-- What was not refused did not meet the condition of a refusal. -/
theorem unless_ok {condition : Prop} [Decidable condition] {refusal : ε}
    {f : PUnit → Tries ε β} {rest : Tries ε β} {result : β}
    (h : (if condition then (MonadExcept.throw refusal : Tries ε PUnit) >>= f else rest).run =
      .ok (.ok result)) : ¬ condition ∧ rest.run = .ok (.ok result) := by
  split at h
  · have hrefused : (.ok (.error refusal) : Checked (Except ε β)) = .ok (.ok result) := h
    simp at hrefused
  · next hnot => exact ⟨hnot, h⟩

/-- What was not refused was not refused at any step. -/
theorem bind_ok {t : Tries ε α} {f : α → Tries ε β} {result : β}
    (h : (t >>= f).run = .ok (.ok result)) :
    ∃ value, t.run = .ok (.ok value) ∧ (f value).run = .ok (.ok result) := by
  have hrun : (t.run >>= ExceptT.bindCont f) = .ok (.ok result) := h
  obtain ⟨answer, hanswer, hcont⟩ := Checked.bind_ok hrun
  cases answer with
  | error refusal => simp [ExceptT.bindCont, pure, Except.pure] at hcont
  | ok value => exact ⟨value, hanswer, hcont⟩

/-- A checked computation among tries yields what it yields alone. -/
theorem checked_eq_ok {c : Checked α} {value : α}
    (h : (checked c : Tries ε α).run = .ok (.ok value)) : c = .ok value := by
  cases c with
  | error fault => exact absurd h (by simp [checked, ExceptT.lift, ExceptT.run, ExceptT.mk,
      Functor.map, Except.map])
  | ok found =>
      obtain rfl := Except.ok.inj (Except.ok.inj h)
      rfl

end Tries
end OpenNtrip
