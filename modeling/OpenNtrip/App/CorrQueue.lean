import OpenNtrip.Rust.Std

/-!
# The corrections queue

`CorrQueue`: the bounded queue between the NTRIP worker and the serial worker. The flag is
atomic and the blocks are behind a lock, so `set_active(false)` takes two steps, `storeActive`
and `clear`, and everything else takes one.
-/

namespace OpenNtrip

/-- The answer to a push. -/
inductive PushOutcome where
  | inactive
  | queued
  | droppedOldest (overruns : Nat)
  deriving DecidableEq, Repr

/-- The queue: its blocks, which never exceed its capacity, whether a serial worker drains it, and
the number of blocks dropped so far. -/
structure CorrQueue where
  q : List Bytes
  cap : Nat
  active : Bool
  overruns : Nat
  cap_pos : 0 < cap
  q_le : q.length ≤ cap
  deriving Repr

namespace CorrQueue

theorem eq_iff {a b : CorrQueue} : (a.q = b.q ∧ a.cap = b.cap ∧ a.active = b.active ∧
    a.overruns = b.overruns) ↔ a = b := by
  cases a
  cases b
  simp

instance : DecidableEq CorrQueue := fun _ _ => decidable_of_iff _ eq_iff

/-- `CorrQueue::new`. -/
def new (cap : Nat) : CorrQueue where
  q := []
  cap := max cap 1
  active := false
  overruns := 0
  cap_pos := by omega
  q_le := by simp

/-- The store of the flag in `set_active`. -/
def storeActive (queue : CorrQueue) (active : Bool) : CorrQueue := { queue with active }

/-- The clear under the lock in `set_active(false)`. -/
def clear (queue : CorrQueue) : CorrQueue := { queue with q := [], q_le := by simp }

/-- `push`. The flag is loaded under the lock. -/
def push (queue : CorrQueue) (bytes : Bytes) : CorrQueue × PushOutcome :=
  if !queue.active then (queue, .inactive)
  else if h : queue.cap ≤ queue.q.length then
    ({ queue with
        q := queue.q.tail ++ [bytes]
        overruns := queue.overruns + 1
        q_le := by
          have := queue.cap_pos
          have := queue.q_le
          simp only [List.length_append, List.length_tail, List.length_singleton]
          omega },
      .droppedOldest (queue.overruns + 1))
  else
    ({ queue with
        q := queue.q ++ [bytes]
        q_le := by
          simp only [List.length_append, List.length_singleton]
          omega }, .queued)

/-- `try_pop`, and `pop_timeout` once it stops waiting. -/
def tryPop (queue : CorrQueue) : CorrQueue × Option Bytes :=
  match h : queue.q with
  | [] => (queue, none)
  | block :: rest =>
    ({ queue with
        q := rest
        q_le := by
          have := queue.q_le
          rw [h, List.length_cons] at this
          omega }, some block)

/-- What `push` does once it has found the queue active. -/
def enqueue (queue : CorrQueue) (bytes : Bytes) : CorrQueue × PushOutcome :=
  if h : queue.cap ≤ queue.q.length then
    ({ queue with
        q := queue.q.tail ++ [bytes]
        overruns := queue.overruns + 1
        q_le := by
          have := queue.cap_pos
          have := queue.q_le
          simp only [List.length_append, List.length_tail, List.length_singleton]
          omega },
      .droppedOldest (queue.overruns + 1))
  else
    ({ queue with
        q := queue.q ++ [bytes]
        q_le := by
          simp only [List.length_append, List.length_singleton]
          omega }, .queued)

/-- A push looks at the flag and then enqueues. -/
theorem push_eq (queue : CorrQueue) (bytes : Bytes) :
    queue.push bytes = if queue.active then queue.enqueue bytes else (queue, .inactive) := by
  unfold push enqueue
  cases queue.active with
  | false => rfl
  | true => rfl

/-- What enqueuing does to the blocks: the oldest goes first if the queue is full. -/
theorem enqueue_cases (queue : CorrQueue) (bytes : Bytes) :
    (queue.enqueue bytes).1.cap = queue.cap ∧ (queue.enqueue bytes).1.active = queue.active ∧
      ((queue.enqueue bytes).1.q = queue.q ++ [bytes] ∧
          (queue.enqueue bytes).1.overruns = queue.overruns ∨
        ∃ oldest rest, queue.q = oldest :: rest ∧
          (queue.enqueue bytes).1.q = rest ++ [bytes] ∧
          (queue.enqueue bytes).1.overruns = queue.overruns + 1) := by
  unfold enqueue
  split
  · next hfull =>
      refine ⟨rfl, rfl, .inr ?_⟩
      have hpos : 0 < queue.q.length := Nat.lt_of_lt_of_le queue.cap_pos hfull
      obtain ⟨oldest, rest, hq⟩ := List.exists_cons_of_length_pos hpos
      exact ⟨oldest, rest, hq, by simp [hq], rfl⟩
  · exact ⟨rfl, rfl, .inl ⟨rfl, rfl⟩⟩

/-- A pop without a block leaves the queue as it is. -/
theorem try_pop_none {queue queue' : CorrQueue} (h : queue.tryPop = (queue', none)) :
    queue' = queue := by
  unfold tryPop at h
  split at h
  · exact (Prod.mk.inj h).1.symm
  · cases h

/-- A block that is popped was the oldest, and nothing else changes. -/
theorem try_pop_some {queue queue' : CorrQueue} {block : Bytes}
    (h : queue.tryPop = (queue', some block)) :
    queue.q = block :: queue'.q ∧ queue'.cap = queue.cap ∧ queue'.active = queue.active ∧
      queue'.overruns = queue.overruns := by
  unfold tryPop at h
  split at h
  · cases h
  · next hq =>
      obtain ⟨rfl, hblock⟩ := Prod.mk.inj h
      obtain rfl := Option.some.inj hblock
      exact ⟨hq, rfl, rfl, rfl⟩

/-- A push is discarded exactly while the queue is inactive. -/
theorem push_inactive_iff (queue : CorrQueue) (bytes : Bytes) :
    (queue.push bytes).2 = .inactive ↔ queue.active = false := by
  unfold push
  cases queue.active with
  | false => simp
  | true =>
      simp only [Bool.not_true, Bool.false_eq_true, if_false]
      split
      · simp
      · simp

/-- A push leaves the flag alone. -/
theorem push_active (queue : CorrQueue) (bytes : Bytes) :
    (queue.push bytes).1.active = queue.active := by
  unfold push
  split
  · rfl
  · split
    · rfl
    · rfl

/-- A push to an active queue leaves a block in it. -/
theorem push_ne_nil (queue : CorrQueue) (bytes : Bytes) (h : queue.active = true) :
    (queue.push bytes).1.q ≠ [] := by
  simp only [push, h, Bool.not_true, Bool.false_eq_true, if_false]
  split
  · simp
  · simp

theorem try_pop_active (queue : CorrQueue) : queue.tryPop.1.active = queue.active := by
  unfold tryPop
  split
  · rfl
  · rfl

end CorrQueue
end OpenNtrip
