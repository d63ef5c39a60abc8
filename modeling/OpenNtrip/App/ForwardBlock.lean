import OpenNtrip.Rust.Std
import Mathlib.Data.List.Basic

/-!
# Forwarding one block

`forward_block` of `workers/serial.rs` beside `Write::write_all`. A writer is the sequence of its
answers. Both advance by what the writer accepts and fail where it makes no progress
(`forward_block_forwards`), but `write_all` goes on after an interruption and `forward_block` does
not (`forward_block_agrees_iff`).
-/

namespace OpenNtrip

/-- `io::ErrorKind`, as far as anyone looks at it. -/
inductive ErrorKind where
  | interrupted
  | writeZero
  | wouldBlock
  | timedOut
  | other (code : Nat)
  deriving DecidableEq, Repr

/-- `io::Error`. -/
structure IoError where
  kind : ErrorKind
  message : Text
  deriving DecidableEq, Repr

/-- The error for a write that accepts nothing. -/
def writeZeroError : IoError where
  kind := .writeZero
  message := "failed to write whole buffer".toList

/-- The answer of a writer: how many bytes it would accept, or an error. -/
inductive WriteResult where
  | accepts (n : Nat)
  | fails (error : IoError)
  deriving DecidableEq, Repr

/-- What came of forwarding: the bytes that the writer accepted, the number of calls, and the
result. `true` says that the block is done, `false` that it was cancelled. -/
structure Forwarded where
  accepted : Bytes
  calls : Nat
  result : Except IoError Bool
  deriving DecidableEq, Repr

/-- `forward_block`, where call `k` of the writer is the next one and the cancel flag is loaded
before each. A write that would accept more than there is accepts what there is. -/
def forwardBlock (write : Nat → WriteResult) (cancel : Nat → Bool) (k : Nat) (rest : Bytes) :
    Forwarded :=
  if rest = [] then ⟨[], 0, .ok true⟩
  else if cancel k then ⟨[], 0, .ok false⟩
  else
    match write k with
    | .accepts 0 => ⟨[], 1, .error writeZeroError⟩
    | .accepts (n + 1) =>
      let after := forwardBlock write cancel (k + 1) (rest.drop (n + 1))
      ⟨rest.take (n + 1) ++ after.accepted, after.calls + 1, after.result⟩
    | .fails error => ⟨[], 1, .error error⟩
termination_by rest.length
decreasing_by
  have hpos : 0 < rest.length := List.length_pos_iff.mpr ‹_›
  rw [List.length_drop]
  omega

/-- `write_all` of the standard library, for at most `fuel` calls of the writer. `none` says that it
is still going on. -/
def writeAll (write : Nat → WriteResult) : Nat → Nat → Bytes → Option (Bytes × Except IoError Unit)
  | fuel, k, rest =>
    if rest = [] then some ([], .ok ())
    else
      match fuel with
      | 0 => none
      | fuel + 1 =>
        match write k with
        | .accepts 0 => some ([], .error writeZeroError)
        | .accepts (n + 1) =>
          (writeAll write fuel (k + 1) (rest.drop (n + 1))).map fun (accepted, result) =>
            (rest.take (n + 1) ++ accepted, result)
        | .fails error =>
          if error.kind = .interrupted then writeAll write fuel (k + 1) rest
          else some ([], .error error)

section

variable {write : Nat → WriteResult} {cancel : Nat → Bool} {k : Nat} {rest : Bytes}

/-- An empty block is forwarded without a write. -/
theorem forward_block_nil : forwardBlock write cancel k [] = ⟨[], 0, .ok true⟩ := by
  rw [forwardBlock, if_pos rfl]

/-- A write of nothing is an error. -/
theorem forward_block_zero (hne : rest ≠ []) (hcancel : cancel k = false)
    (hwrite : write k = .accepts 0) :
    forwardBlock write cancel k rest = ⟨[], 1, .error writeZeroError⟩ := by
  rw [forwardBlock, if_neg hne, if_neg (by rw [hcancel]; exact Bool.false_ne_true), hwrite]

/-- A failed write fails the block, whatever was written before. -/
theorem forward_block_fails (hne : rest ≠ []) (hcancel : cancel k = false) {error : IoError}
    (hwrite : write k = .fails error) :
    forwardBlock write cancel k rest = ⟨[], 1, .error error⟩ := by
  rw [forwardBlock, if_neg hne, if_neg (by rw [hcancel]; exact Bool.false_ne_true), hwrite]

/-- A write of a part goes on with the rest. -/
theorem forward_block_accepts (hne : rest ≠ []) (hcancel : cancel k = false) {n : Nat}
    (hwrite : write k = .accepts (n + 1)) :
    forwardBlock write cancel k rest =
      let after := forwardBlock write cancel (k + 1) (rest.drop (n + 1))
      ⟨rest.take (n + 1) ++ after.accepted, after.calls + 1, after.result⟩ := by
  rw [forwardBlock, if_neg hne, if_neg (by rw [hcancel]; exact Bool.false_ne_true), hwrite]

/-- What is left after a write is shorter. -/
theorem drop_shorter (hne : rest ≠ []) (n : Nat) : (rest.drop (n + 1)).length < rest.length := by
  have hpos := List.length_pos_iff.mpr hne
  rw [List.length_drop]
  omega

end

/-- What forwarding promises: what was accepted starts the block, there is at most one call for each
byte, a block that is done was accepted whole, and one that was cancelled was not. -/
structure Forwards (cancel : Nat → Bool) (k : Nat) (rest : Bytes) (forwarded : Forwarded) :
    Prop where
  starts : forwarded.accepted <+: rest
  calls_le : forwarded.calls ≤ rest.length
  done : forwarded.result = .ok true → forwarded.accepted = rest
  cancelled : forwarded.result = .ok false →
    cancel (k + forwarded.calls) = true ∧ forwarded.accepted ≠ rest

/-- What was written is a prefix of the block, and all of it on success. -/
theorem forward_block_forwards (write : Nat → WriteResult) (cancel : Nat → Bool) (k : Nat)
    (rest : Bytes) : Forwards cancel k rest (forwardBlock write cancel k rest) := by
  fun_induction forwardBlock write cancel k rest with
  | case1 k => exact ⟨List.nil_prefix, Nat.zero_le _, fun _ => rfl, fun h => absurd h (by simp)⟩
  | case2 k rest hne hcancel =>
      exact ⟨List.nil_prefix, Nat.zero_le _, fun h => absurd h (by simp),
        fun _ => ⟨hcancel, fun heq => hne heq.symm⟩⟩
  | case3 k rest hne hcancel hwrite =>
      exact ⟨List.nil_prefix, List.length_pos_iff.mpr hne, fun h => absurd h (by simp),
        fun h => absurd h (by simp)⟩
  | case4 k rest hne hcancel n hwrite after ih =>
      have hshorter := drop_shorter hne n
      refine ⟨?_, ?_, ?_, ?_⟩
      · show rest.take (n + 1) ++ after.accepted <+: rest
        conv_rhs => rw [← List.take_append_drop (n + 1) rest]
        exact (List.prefix_append_right_inj _).mpr ih.starts
      · have hle : after.calls ≤ (rest.drop (n + 1)).length := ih.calls_le
        show after.calls + 1 ≤ rest.length
        omega
      · intro hdone
        show rest.take (n + 1) ++ after.accepted = rest
        rw [ih.done hdone, List.take_append_drop]
      · intro hcancelled
        obtain ⟨hflag, hrest⟩ := ih.cancelled hcancelled
        refine ⟨?_, fun heq => hrest ?_⟩
        · show cancel (k + (after.calls + 1)) = true
          rw [← Nat.add_assoc, Nat.add_right_comm]
          exact hflag
        · have hall : rest.take (n + 1) ++ after.accepted =
              rest.take (n + 1) ++ rest.drop (n + 1) := heq.trans (List.take_append_drop _ _).symm
          exact List.append_cancel_left hall
  | case5 k rest hne hcancel error hwrite =>
      exact ⟨List.nil_prefix, List.length_pos_iff.mpr hne, fun h => absurd h (by simp),
        fun h => absurd h (by simp)⟩

/-! ## Agreement with `write_all` -/

/-- The number of bytes that an answer accepts. -/
def WriteResult.count : WriteResult → Nat
  | .accepts n => n
  | .fails _ => 0

/-- The number of bytes that so many calls from call `k` on accept. -/
def progress (write : Nat → WriteResult) : Nat → Nat → Nat
  | _, 0 => 0
  | k, i + 1 => (write k).count + progress write (k + 1) i

/-- No call is interrupted before the block is accepted or the writer has failed otherwise. -/
def Uninterrupted (write : Nat → WriteResult) (k : Nat) (block : Bytes) : Prop :=
  ∀ i error, (∀ j < i, ∃ n, write (k + j) = .accepts (n + 1)) →
    progress write k i < block.length → write (k + i) = .fails error → error.kind ≠ .interrupted

/-- `write_all` ends, with the bytes and the result of `forward_block`. -/
def Agrees (write : Nat → WriteResult) (k : Nat) (block : Bytes) : Prop :=
  let forwarded := forwardBlock write (fun _ => false) k block
  ∃ fuel, writeAll write fuel k block =
    some (forwarded.accepted, forwarded.result.map fun _ => ())

section

variable {write : Nat → WriteResult}

/-- `write_all` never ends in an interruption. -/
theorem write_all_not_interrupted {fuel k : Nat} {rest accepted : Bytes} {error : IoError}
    (h : writeAll write fuel k rest = some (accepted, .error error)) :
    error.kind ≠ .interrupted := by
  induction fuel generalizing k rest accepted with
  | zero =>
      rw [writeAll] at h
      split at h
      · simp at h
      · simp at h
  | succ fuel ih =>
      rw [writeAll] at h
      split at h
      · simp at h
      simp only at h
      split at h
      · simp only [Option.some.injEq, Prod.mk.injEq, Except.error.injEq] at h
        rw [← h.2]
        decide
      · obtain ⟨⟨accepted', result⟩, hrest, heq⟩ := Option.map_eq_some_iff.mp h
        obtain ⟨_, rfl⟩ := Prod.mk.inj heq
        exact ih hrest
      · split at h
        · exact ih h
        · next hkind =>
            simp only [Option.some.injEq, Prod.mk.injEq, Except.error.injEq] at h
            rw [← h.2]
            exact hkind

/-- The first call after those that make progress decides what `forward_block` returns. -/
theorem forward_block_fails_at {i k : Nat} {block : Bytes} {error : IoError}
    (hprogress : ∀ j < i, ∃ n, write (k + j) = .accepts (n + 1))
    (hroom : progress write k i < block.length) (hfails : write (k + i) = .fails error) :
    (forwardBlock write (fun _ => false) k block).result = .error error := by
  have hne : block ≠ [] := List.length_pos_iff.mp (Nat.zero_lt_of_lt hroom)
  induction i generalizing k block with
  | zero =>
      rw [Nat.add_zero] at hfails
      rw [forward_block_fails hne rfl hfails]
  | succ i ih =>
      obtain ⟨n, hfirst⟩ := hprogress 0 (Nat.succ_pos i)
      rw [Nat.add_zero] at hfirst
      have hroom' : progress write (k + 1) i < (block.drop (n + 1)).length := by
        rw [progress, hfirst] at hroom
        rw [List.length_drop]
        simp only [WriteResult.count] at hroom
        omega
      have hprogress' : ∀ j < i, ∃ n, write (k + 1 + j) = .accepts (n + 1) := by
        intro j hj
        have hnext := hprogress (j + 1) (Nat.succ_lt_succ hj)
        rwa [Nat.add_right_comm, Nat.add_assoc]
      have hfails' : write (k + 1 + i) = .fails error := by
        rw [Nat.add_right_comm, Nat.add_assoc]
        exact hfails
      rw [forward_block_accepts hne rfl hfirst]
      exact ih hprogress' hroom' hfails' (List.length_pos_iff.mp (Nat.zero_lt_of_lt hroom'))

/-- A block whose first write makes progress is uninterrupted if the rest is. -/
theorem uninterrupted_rest {k n : Nat} {block : Bytes} (hwrite : write k = .accepts (n + 1))
    (h : Uninterrupted write k block) : Uninterrupted write (k + 1) (block.drop (n + 1)) := by
  intro i error hprogress hroom hfails
  refine h (i + 1) error ?_ ?_ ?_
  · intro j hj
    cases j with
    | zero => exact ⟨n, hwrite⟩
    | succ j =>
        obtain ⟨m, hm⟩ := hprogress j (Nat.lt_of_succ_lt_succ hj)
        rw [Nat.add_right_comm] at hm
        exact ⟨m, hm⟩
  · rw [List.length_drop] at hroom
    rw [progress, hwrite]
    show n + 1 + progress write (k + 1) i < block.length
    omega
  · rw [Nat.add_right_comm] at hfails
    exact hfails

/-- Without an interrupted call the loop does what `write_all` does. -/
theorem agrees_of_uninterrupted {k : Nat} {block : Bytes} (h : Uninterrupted write k block) :
    Agrees write k block := by
  induction hlength : block.length using Nat.strong_induction_on generalizing k block with
  | _ length ih =>
    by_cases hne : block = []
    · subst hne
      refine ⟨0, ?_⟩
      rw [forward_block_nil, writeAll, if_pos rfl]
      rfl
    cases hwrite : write k with
    | accepts n =>
        cases n with
        | zero =>
            refine ⟨1, ?_⟩
            rw [forward_block_zero hne rfl hwrite, writeAll, if_neg hne]
            simp only [hwrite]
            rfl
        | succ n =>
            have hshorter := drop_shorter hne n
            obtain ⟨fuel, hrest⟩ := ih _ (by omega) (uninterrupted_rest hwrite h) rfl
            refine ⟨fuel + 1, ?_⟩
            rw [forward_block_accepts hne rfl hwrite, writeAll, if_neg hne]
            simp only [hwrite, hrest]
            rfl
    | fails error =>
        have hkind : error.kind ≠ .interrupted :=
          h 0 error (fun j hj => absurd hj (Nat.not_lt_zero j)) (List.length_pos_iff.mpr hne) hwrite
        refine ⟨1, ?_⟩
        rw [forward_block_fails hne rfl hwrite, writeAll, if_neg hne]
        simp only [hwrite, if_neg hkind]
        rfl

/-- Without a cancellation, forwarding a block agrees with `write_all` exactly if no call is
interrupted before the block is accepted or the writer has failed otherwise. -/
theorem forward_block_agrees_iff (write : Nat → WriteResult) (block : Bytes) :
    Agrees write 0 block ↔ Uninterrupted write 0 block := by
  constructor
  · rintro ⟨fuel, hall⟩ i error hprogress hroom hfails
    rw [forward_block_fails_at hprogress hroom hfails] at hall
    exact write_all_not_interrupted hall
  · exact agrees_of_uninterrupted

end

/-- A writer that is interrupted once and then accepts anything. -/
def interruptedOnce : Nat → WriteResult
  | 0 => .fails ⟨.interrupted, "interrupted".toList⟩
  | _ + 1 => .accepts 8192

/-- Forwarding gives up where `write_all` writes the block. -/
theorem interrupted_disagrees :
    ¬ Agrees interruptedOnce 0 [0xD3] ∧ (forwardBlock interruptedOnce (fun _ => false) 0 [0xD3]) =
      ⟨[], 1, .error ⟨.interrupted, "interrupted".toList⟩⟩ ∧
      writeAll interruptedOnce 2 0 [0xD3] = some ([0xD3], .ok ()) := by
  have hforward : forwardBlock interruptedOnce (fun _ => false) 0 [0xD3] =
      ⟨[], 1, .error ⟨.interrupted, "interrupted".toList⟩⟩ :=
    forward_block_fails (List.cons_ne_nil _ _) rfl rfl
  refine ⟨?_, hforward, by decide⟩
  rintro ⟨fuel, hall⟩
  rw [hforward] at hall
  exact write_all_not_interrupted hall rfl

end OpenNtrip
