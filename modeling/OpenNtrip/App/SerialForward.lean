import OpenNtrip.App.ForwardBlock
import OpenNtrip.App.SerialWorker
import OpenNtrip.Lib.StepSystem

/-!
# What the serial port is sent

One serial worker, its port, and a queue that others fill, empty and switch meanwhile. The bytes
that the port accepts are the popped blocks one after the other (`forwarded_reachable`), up to the
first failure or cancellation, after which nothing more is written (`stopped_next`).
`worker_forwards` ties the steps of the worker to `forward_block`.
-/

namespace OpenNtrip

open StepSystem

/-- A serial worker and the queue. What has happened is kept beside them: the blocks that were
queued and those that the worker popped, in order, the bytes that its port accepted, and the number
of calls of the port for the block popped last. -/
structure ForwardRun where
  worker : SerialWorker
  queue : CorrQueue
  queued : List Bytes
  popped : List Bytes
  accepted : Bytes
  calls : Nat
  deriving DecidableEq, Repr

/-- What can happen: the worker takes a step, its cancel flag is raised, a block is pushed, the flag
of the queue is stored, or someone else clears the queue or pops a block. -/
inductive ForwardEvent where
  | work (outcome : PortOutcome)
  | cancel
  | push (bytes : Bytes)
  | store (active : Bool)
  | clear
  | take
  deriving DecidableEq, Repr

namespace ForwardRun

/-- A worker that is started, with whatever is in the queue. -/
def start (autoconfig : Bool) (queue : CorrQueue) : ForwardRun where
  worker := SerialWorker.spawn autoconfig
  queue
  queued := queue.q
  popped := []
  accepted := []
  calls := 0

/-- What a step of the worker does to the record. A write accepts at most what there is. -/
def note (s : ForwardRun) (outcome : PortOutcome) : ForwardRun :=
  match s.worker.point with
  | .popping =>
    match s.queue.tryPop.2 with
    | some block => { s with popped := s.popped ++ [block], calls := 0 }
    | none => s
  | .sending rest =>
    match outcome with
    | .ok n => { s with accepted := s.accepted ++ rest.take n, calls := s.calls + 1 }
    | .error => { s with calls := s.calls + 1 }
  | _ => s

/-- One step. -/
def next (s : ForwardRun) : ForwardEvent → Option ForwardRun
  | .work outcome =>
    (s.worker.step s.queue outcome).map fun (worker, queue) => { s.note outcome with worker, queue }
  | .cancel => some { s with worker := { s.worker with cancel := true } }
  | .push bytes =>
    match s.queue.push bytes with
    | (queue, .inactive) => some { s with queue }
    | (queue, _) => some { s with queue, queued := s.queued ++ [bytes] }
  | .store active => some { s with queue := s.queue.storeActive active }
  | .clear => some { s with queue := s.queue.clear }
  | .take => some { s with queue := s.queue.tryPop.1 }

/-- Every order of the steps is allowed. -/
def anyOrder (_ : ForwardRun) (_ : ForwardEvent) : Bool := true

/-- What is left of the block that the worker is writing. -/
def pending (s : ForwardRun) : Option Bytes :=
  match s.worker.point with
  | .writing rest | .sending rest => some rest
  | _ => none

/-- Nothing keeps the worker from going on. -/
def goesOn (s : ForwardRun) : Prop := s.worker.cancel = false ∧ s.worker.failed = false

/-- The worker has come to its end: nothing more is written. A cancelled worker may still be in the
call of the port that it was in. -/
def stopped (s : ForwardRun) : Prop :=
  s.worker.failed = true ∨
    (s.worker.cancel = true ∧ ∀ rest, s.worker.point ≠ .sending rest)

/-- Inside a block, what was accepted and what is left make up the popped blocks. Between blocks
nothing is left, unless the worker was stopped. -/
structure Faithful (s : ForwardRun) : Prop where
  starts : s.accepted <+: s.popped.flatten
  inside : ∀ rest, s.pending = some rest → s.popped.flatten = s.accepted ++ rest
  whole : s.pending = none → s.goesOn ∨ s.worker.point = .popping → s.accepted = s.popped.flatten
  calls_le : s.calls + (s.pending.getD []).length ≤ (s.popped.getLast?.getD []).length
  sending_ne : ∀ rest, s.worker.point = .sending rest → rest ≠ []
  failed_point : s.worker.failed = true →
    s.worker.point ∈ [.looping, .deactivating, .clearing, .ended]

/-! ## The queue -/

/-- What was popped and what is still queued was queued, in this order. -/
def Ordered (s : ForwardRun) : Prop := (s.popped ++ s.queue.q).Sublist s.queued

theorem start_ordered (autoconfig : Bool) (queue : CorrQueue) : (start autoconfig queue).Ordered :=
  List.Sublist.refl _

theorem try_pop_sublist (queue : CorrQueue) : queue.tryPop.1.q.Sublist queue.q := by
  cases hpop : queue.tryPop with
  | mk queue' popped =>
      cases popped with
      | none => rw [CorrQueue.try_pop_none hpop]
      | some block =>
          rw [(CorrQueue.try_pop_some hpop).1]
          exact List.sublist_cons_self _ _

/-- A block that is enqueued comes last, and the oldest may go. -/
theorem enqueue_sublist (queue : CorrQueue) (bytes : Bytes) :
    (queue.enqueue bytes).1.q.Sublist (queue.q ++ [bytes]) := by
  obtain ⟨_, _, ⟨hq, _⟩ | ⟨oldest, rest, hold, hq, _⟩⟩ := CorrQueue.enqueue_cases queue bytes
  · rw [hq]
  · rw [hq, hold, List.cons_append]
    exact List.sublist_cons_self _ _

/-- A push adds its block to those that were queued, unless the queue is inactive. -/
theorem push_next (s : ForwardRun) (bytes : Bytes) :
    (s.next (.push bytes)) = some (if s.queue.active
      then { s with queue := (s.queue.enqueue bytes).1, queued := s.queued ++ [bytes] }
      else s) := by
  have heq := CorrQueue.push_eq s.queue bytes
  have hkind := CorrQueue.push_inactive_iff s.queue bytes
  cases hpush : s.queue.push bytes with
  | mk queue outcome =>
      rw [hpush] at heq hkind
      cases hactive : s.queue.active with
      | false =>
          rw [hactive] at heq
          obtain ⟨rfl, rfl⟩ := Prod.mk.inj heq
          simp only [next, hpush]
          rfl
      | true =>
          rw [hactive] at heq hkind
          have hqueue : queue = (s.queue.enqueue bytes).1 := congrArg Prod.fst heq
          cases outcome with
          | inactive => exact absurd (hkind.mp rfl) (by simp)
          | queued =>
              simp only [next, hpush, hqueue]
              rfl
          | droppedOldest total =>
              simp only [next, hpush, hqueue]
              rfl

/-! ## One step -/

section

variable {queue left : CorrQueue} {cancel failed : Bool} {commands calls : Nat}
  {queued popped : List Bytes} {accepted : Bytes} {outcome : PortOutcome}

theorem note_popping_none (hpop : queue.tryPop = (left, none)) :
    note ⟨⟨.popping, cancel, failed, commands⟩, queue, queued, popped, accepted, calls⟩ outcome =
      ⟨⟨.popping, cancel, failed, commands⟩, queue, queued, popped, accepted, calls⟩ := by
  simp only [note, hpop]

theorem note_popping_some {block : Bytes} (hpop : queue.tryPop = (left, some block)) :
    note ⟨⟨.popping, cancel, failed, commands⟩, queue, queued, popped, accepted, calls⟩ outcome =
      ⟨⟨.popping, cancel, failed, commands⟩, queue, queued, popped ++ [block], accepted, 0⟩ := by
  simp only [note, hpop]

end

/-- A step of the worker between two blocks that pops none: where it goes, whether it has failed,
and what it leaves of the queue. -/
structure Between (s : ForwardRun) (point : SerialPoint) (failed : Bool) (queue : CorrQueue) :
    Prop where
  pending : s.pending = none
  leads : ∀ rest, point ≠ .writing rest ∧ point ≠ .sending rest
  pops : point = .popping → s.worker.point = .draining ∧ s.worker.cancel = false
  fails : s.worker.failed = true → failed = true
  ends : failed = true → point ∈ [.looping, .deactivating, .clearing, .ended] ∨
    (s.worker.failed = true ∧ s.worker.point ∉ [.looping, .deactivating, .clearing, .ended])
  left : queue.q.Sublist s.queue.q

/-- What a step of the worker can do. -/
inductive Works (s : ForwardRun) : ForwardRun → Prop where
  | between {point : SerialPoint} {failed : Bool} {queue : CorrQueue}
      (h : Between s point failed queue) :
      Works s { s with worker := { s.worker with point, failed }, queue }
  | pop {block : Bytes} {queue : CorrQueue} (hpoint : s.worker.point = .popping)
      (hpop : s.queue.tryPop = (queue, some block)) :
      Works s { s with
        worker := { s.worker with point := .writing block }
        queue
        popped := s.popped ++ [block]
        calls := 0 }
  | write {rest : Bytes} (hpoint : s.worker.point = .writing rest) :
      Works s { s with worker := { s.worker with
        point := if rest.isEmpty || s.worker.cancel then .draining else .sending rest } }
  | accept {rest : Bytes} (hpoint : s.worker.point = .sending rest) (n : Nat) :
      Works s { s with
        worker := { s.worker with point := .writing (rest.drop (n + 1)) }
        accepted := s.accepted ++ rest.take (n + 1)
        calls := s.calls + 1 }
  | fail {rest : Bytes} (hpoint : s.worker.point = .sending rest) :
      Works s { s with
        worker := { s.worker with point := .deactivating, failed := true }
        calls := s.calls + 1 }

theorem work_cases {s s' : ForwardRun} {outcome : PortOutcome}
    (hnext : s.next (.work outcome) = some s') : Works s s' := by
  obtain ⟨⟨w', queue'⟩, hstep, rfl⟩ := Option.map_eq_some_iff.mp hnext
  obtain ⟨⟨point, cancel, failed, commands⟩, queue, queued, popped, accepted, calls⟩ := s
  have hsame : queue.q.Sublist queue.q := List.Sublist.refl _
  cases point with
  | opening =>
      cases outcome with
      | ok n =>
          obtain ⟨rfl, rfl⟩ := Prod.mk.inj (Option.some.inj hstep)
          exact .between ⟨rfl, by simp, by simp, id, fun hf => .inr ⟨hf, by simp⟩, hsame⟩
      | error =>
          obtain ⟨rfl, rfl⟩ := Prod.mk.inj (Option.some.inj hstep)
          exact .between ⟨rfl, by simp, by simp, id, fun _ => .inl (by simp), hsame⟩
  | opened =>
      obtain ⟨rfl, rfl⟩ := Prod.mk.inj (Option.some.inj hstep)
      exact .between ⟨rfl, by simp, by simp, id, fun hf => .inr ⟨hf, by simp⟩, hsame⟩
  | configuring left =>
      cases left with
      | zero =>
          obtain ⟨rfl, rfl⟩ := Prod.mk.inj (Option.some.inj hstep)
          exact .between ⟨rfl, by simp, by simp, id, fun _ => .inl (by simp), hsame⟩
      | succ left =>
          cases outcome with
          | ok n =>
              obtain ⟨rfl, rfl⟩ := Prod.mk.inj (Option.some.inj hstep)
              exact .between ⟨rfl, by simp, by simp, id, fun hf => .inr ⟨hf, by simp⟩, hsame⟩
          | error =>
              obtain ⟨rfl, rfl⟩ := Prod.mk.inj (Option.some.inj hstep)
              exact .between ⟨rfl, by simp, by simp, fun _ => rfl, fun _ => .inl (by simp), hsame⟩
  | looping =>
      obtain ⟨rfl, rfl⟩ := Prod.mk.inj (Option.some.inj hstep)
      refine .between ⟨rfl, ?_, ?_, id, fun hf => .inl ?_, hsame⟩
      · intro rest
        cases failed || cancel <;> simp
      · cases failed || cancel <;> simp
      · have hfailed : failed = true := hf
        simp [hfailed]
  | draining =>
      obtain ⟨rfl, rfl⟩ := Prod.mk.inj (Option.some.inj hstep)
      refine .between ⟨rfl, ?_, ?_, id, fun hf => .inr ⟨hf, by simp⟩, hsame⟩
      · intro rest
        cases cancel <;> simp
      · cases cancel <;> simp
  | popping =>
      cases hpop : queue.tryPop with
      | mk left found =>
          cases found with
          | none =>
              simp only [SerialWorker.step, hpop, Option.some.injEq, Prod.mk.injEq] at hstep
              obtain ⟨rfl, rfl⟩ := hstep
              rw [note_popping_none hpop, CorrQueue.try_pop_none hpop]
              exact .between ⟨rfl, by simp, by simp, id, fun hf => .inr ⟨hf, by simp⟩, hsame⟩
          | some block =>
              simp only [SerialWorker.step, hpop, Option.some.injEq, Prod.mk.injEq] at hstep
              obtain ⟨rfl, rfl⟩ := hstep
              rw [note_popping_some hpop]
              exact .pop rfl hpop
  | writing rest =>
      obtain ⟨rfl, rfl⟩ := Prod.mk.inj (Option.some.inj hstep)
      exact .write rfl
  | sending rest =>
      cases outcome with
      | ok n =>
          cases n with
          | zero =>
              obtain ⟨rfl, rfl⟩ := Prod.mk.inj (Option.some.inj hstep)
              simp only [note, List.take_zero, List.append_nil]
              exact .fail rfl
          | succ n =>
              obtain ⟨rfl, rfl⟩ := Prod.mk.inj (Option.some.inj hstep)
              exact .accept rfl n
      | error =>
          obtain ⟨rfl, rfl⟩ := Prod.mk.inj (Option.some.inj hstep)
          exact .fail rfl
  | reading =>
      cases outcome with
      | ok n =>
          obtain ⟨rfl, rfl⟩ := Prod.mk.inj (Option.some.inj hstep)
          exact .between ⟨rfl, by simp, by simp, id, fun _ => .inl (by simp), hsame⟩
      | error =>
          obtain ⟨rfl, rfl⟩ := Prod.mk.inj (Option.some.inj hstep)
          exact .between ⟨rfl, by simp, by simp, fun _ => rfl, fun _ => .inl (by simp), hsame⟩
  | deactivating =>
      obtain ⟨rfl, rfl⟩ := Prod.mk.inj (Option.some.inj hstep)
      exact .between ⟨rfl, by simp, by simp, id, fun _ => .inl (by simp), hsame⟩
  | clearing =>
      obtain ⟨rfl, rfl⟩ := Prod.mk.inj (Option.some.inj hstep)
      exact .between ⟨rfl, by simp, by simp, id, fun _ => .inl (by simp), List.nil_sublist _⟩
  | ended => exact absurd hstep (by simp [SerialWorker.step])

/-! ## What the record keeps -/

theorem Faithful.running {s : ForwardRun} (h : Faithful s)
    (hpoint : s.worker.point ∉ [.looping, .deactivating, .clearing, .ended]) :
    s.worker.failed = false := by
  cases hfailed : s.worker.failed with
  | false => rfl
  | true => exact absurd (h.failed_point hfailed) hpoint

/-- Popping a block begins it. -/
theorem faithful_pop {s : ForwardRun} (h : Faithful s) (hpoint : s.worker.point = .popping)
    (block : Bytes) (queue : CorrQueue) :
    Faithful { s with
      worker := { s.worker with point := .writing block }
      queue
      popped := s.popped ++ [block]
      calls := 0 } := by
  have hpending : s.pending = none := by rw [pending, hpoint]
  have hall := h.whole hpending (.inr hpoint)
  have hrunning := h.running (by simp [hpoint])
  refine ⟨?_, ?_, ?_, ?_, ?_, fun hfailed => absurd (hrunning.symm.trans hfailed) (by simp)⟩
  · show s.accepted <+: (s.popped ++ [block]).flatten
    rw [List.flatten_concat, ← hall]
    exact List.prefix_append _ _
  · intro rest hrest
    obtain rfl : block = rest := Option.some.inj hrest
    show (s.popped ++ [block]).flatten = s.accepted ++ block
    rw [List.flatten_concat, ← hall]
  · intro hnone
    exact absurd hnone (by simp [pending])
  · show 0 + block.length ≤ ((s.popped ++ [block]).getLast?.getD []).length
    rw [List.getLast?_concat, Nat.zero_add]
    exact Nat.le_refl _
  · intro rest hrest
    exact absurd hrest (by simp)

theorem faithful_writing {s : ForwardRun} (h : Faithful s) {rest : Bytes}
    (hpoint : s.worker.point = .writing rest) :
    Faithful { s with worker := { s.worker with
      point := if rest.isEmpty || s.worker.cancel then .draining else .sending rest } } := by
  have hpending : s.pending = some rest := by rw [pending, hpoint]
  have hinside := h.inside rest hpending
  have hle := h.calls_le
  rw [hpending, Option.getD_some] at hle
  have hrunning := h.running (by simp [hpoint])
  split
  · next hend =>
      refine ⟨h.starts, fun _ hrest => absurd hrest (by simp [pending]), ?_, ?_,
        fun _ hrest => absurd hrest (by simp),
        fun hfailed => absurd (hrunning.symm.trans hfailed) (by simp)⟩
      · intro _ hon
        rcases hon with ⟨hcancel, _⟩ | hpopping
        · -- only a block that is done is left without a cancellation
          have hempty : rest = [] := by simpa [show s.worker.cancel = false from hcancel] using hend
          rw [hempty, List.append_nil] at hinside
          exact hinside.symm
        · exact absurd hpopping (by simp)
      · exact Nat.le_trans (Nat.add_le_add_left (Nat.zero_le _) _) hle
  · next hsend =>
      refine ⟨h.starts, ?_, fun hnone => absurd hnone (by simp [pending]), hle, ?_,
        fun hfailed => absurd (hrunning.symm.trans hfailed) (by simp)⟩
      · intro rest' hrest
        obtain rfl : rest = rest' := Option.some.inj hrest
        exact hinside
      · intro rest' hrest
        obtain rfl : rest = rest' := SerialPoint.sending.inj hrest
        rintro rfl
        exact hsend rfl

/-- A write that makes progress leaves what it did not accept. -/
theorem faithful_accepted {s : ForwardRun} (h : Faithful s) {rest : Bytes}
    (hpoint : s.worker.point = .sending rest) (n : Nat) :
    Faithful { s with
      worker := { s.worker with point := .writing (rest.drop (n + 1)) }
      accepted := s.accepted ++ rest.take (n + 1)
      calls := s.calls + 1 } := by
  have hpending : s.pending = some rest := by rw [pending, hpoint]
  have hinside := h.inside rest hpending
  have hle := h.calls_le
  rw [hpending, Option.getD_some] at hle
  have hshorter := drop_shorter (h.sending_ne rest hpoint) n
  have hrunning := h.running (by simp [hpoint])
  have hsplit : s.popped.flatten = s.accepted ++ rest.take (n + 1) ++ rest.drop (n + 1) := by
    rw [hinside, List.append_assoc, List.take_append_drop]
  refine ⟨?_, ?_, fun hnone => absurd hnone (by simp [pending]), ?_,
    fun _ hrest => absurd hrest (by simp),
    fun hfailed => absurd (hrunning.symm.trans hfailed) (by simp)⟩
  · show s.accepted ++ rest.take (n + 1) <+: s.popped.flatten
    rw [hsplit]
    exact List.prefix_append _ _
  · intro rest' hrest
    obtain rfl : rest.drop (n + 1) = rest' := Option.some.inj hrest
    exact hsplit
  · show s.calls + 1 + (rest.drop (n + 1)).length ≤ (s.popped.getLast?.getD []).length
    omega

/-- A write that fails, or that accepts nothing, leaves the block for good. -/
theorem faithful_failed {s : ForwardRun} (h : Faithful s) {rest : Bytes}
    (hpoint : s.worker.point = .sending rest) :
    Faithful { s with
      worker := { s.worker with point := .deactivating, failed := true }
      calls := s.calls + 1 } := by
  have hpending : s.pending = some rest := by rw [pending, hpoint]
  have hle := h.calls_le
  rw [hpending, Option.getD_some] at hle
  have hpos := List.length_pos_iff.mpr (h.sending_ne rest hpoint)
  refine ⟨h.starts, fun _ hrest => absurd hrest (by simp [pending]), ?_, ?_,
    fun _ hrest => absurd hrest (by simp), fun _ => by simp⟩
  · intro _ hon
    rcases hon with ⟨_, hfailed⟩ | hpopping
    · exact absurd hfailed (by simp)
    · exact absurd hpopping (by simp)
  · show s.calls + 1 + 0 ≤ (s.popped.getLast?.getD []).length
    omega

/-- Between blocks nothing is popped or accepted. -/
theorem faithful_between {s : ForwardRun} (h : Faithful s) {point : SerialPoint} {failed : Bool}
    {queue : CorrQueue} (hbetween : Between s point failed queue) :
    Faithful { s with worker := { s.worker with point, failed }, queue } := by
  have hpending : pending { s with worker := { s.worker with point, failed }, queue } = none := by
    cases point with
    | writing rest => exact absurd rfl (hbetween.leads rest).1
    | sending rest => exact absurd rfl (hbetween.leads rest).2
    | _ => rfl
  refine ⟨h.starts, ?_, ?_, ?_, ?_, ?_⟩
  · intro rest hrest
    exact absurd (hpending.symm.trans hrest) (by simp)
  · intro _ hon
    refine h.whole hbetween.pending (.inl ?_)
    rcases hon with ⟨hcancel, hgoing⟩ | hpopping
    · refine ⟨hcancel, Bool.eq_false_iff.mpr fun hfailed => ?_⟩
      exact absurd (hgoing.symm.trans (hbetween.fails hfailed)) (by simp)
    · obtain ⟨hdraining, hcancel⟩ := hbetween.pops hpopping
      exact ⟨hcancel, h.running (by simp [hdraining])⟩
  · have hle := h.calls_le
    rw [hbetween.pending] at hle
    rw [hpending]
    exact hle
  · intro rest hrest
    exact absurd hrest (hbetween.leads rest).2
  · intro hfailed
    rcases hbetween.ends hfailed with hend | ⟨hbefore, hout⟩
    · exact hend
    · exact absurd (h.failed_point hbefore) hout

/-- Every step of the worker keeps the record faithful. -/
theorem faithful_work {s s' : ForwardRun} {outcome : PortOutcome} (h : Faithful s)
    (hnext : s.next (.work outcome) = some s') : Faithful s' := by
  cases work_cases hnext with
  | between hbetween => exact faithful_between h hbetween
  | pop hpoint _ => exact faithful_pop h hpoint _ _
  | write hpoint => exact faithful_writing h hpoint
  | accept hpoint n => exact faithful_accepted h hpoint n
  | fail hpoint => exact faithful_failed h hpoint

/-- The others leave the worker alone, but for its cancel flag. -/
theorem faithful_next {s s' : ForwardRun} {e : ForwardEvent} (h : Faithful s)
    (hnext : s.next e = some s') : Faithful s' := by
  cases e with
  | work outcome => exact faithful_work h hnext
  | cancel =>
      obtain rfl := Option.some.inj hnext
      refine ⟨h.starts, h.inside, ?_, h.calls_le, h.sending_ne, h.failed_point⟩
      rintro hpending (⟨hcancel, _⟩ | hpopping)
      · exact absurd hcancel (by simp)
      · exact h.whole hpending (.inr hpopping)
  | push bytes =>
      rw [push_next] at hnext
      obtain rfl := Option.some.inj hnext
      split
      · exact ⟨h.starts, h.inside, h.whole, h.calls_le, h.sending_ne, h.failed_point⟩
      · exact h
  | store active =>
      obtain rfl := Option.some.inj hnext
      exact ⟨h.starts, h.inside, h.whole, h.calls_le, h.sending_ne, h.failed_point⟩
  | clear =>
      obtain rfl := Option.some.inj hnext
      exact ⟨h.starts, h.inside, h.whole, h.calls_le, h.sending_ne, h.failed_point⟩
  | take =>
      obtain rfl := Option.some.inj hnext
      exact ⟨h.starts, h.inside, h.whole, h.calls_le, h.sending_ne, h.failed_point⟩

/-- What a step of the worker keeps: the flags, the bytes that were accepted unless it was in a call
of the port, and the order of the blocks. It calls the port only if it was not cancelled before. -/
theorem work_keeps {s s' : ForwardRun} {outcome : PortOutcome}
    (hnext : s.next (.work outcome) = some s') :
    s'.worker.cancel = s.worker.cancel ∧ (s.worker.failed = true → s'.worker.failed = true) ∧
      (∀ rest, s'.worker.point = .sending rest → s.worker.cancel = false) ∧
      ((∀ rest, s.worker.point ≠ .sending rest) → s'.accepted = s.accepted) ∧
      s'.queued = s.queued ∧
      (s'.popped ++ s'.queue.q).Sublist (s.popped ++ s.queue.q) := by
  cases work_cases hnext with
  | between hbetween =>
      exact ⟨rfl, hbetween.fails, fun rest hrest => absurd hrest (hbetween.leads rest).2,
        fun _ => rfl, rfl, hbetween.left.append_left s.popped⟩
  | @pop block queue hpoint hpop =>
      refine ⟨rfl, id, by simp, fun _ => rfl, rfl, ?_⟩
      show ((s.popped ++ [block]) ++ queue.q).Sublist (s.popped ++ s.queue.q)
      rw [(CorrQueue.try_pop_some hpop).1, List.append_assoc, List.singleton_append]
  | write hpoint =>
      refine ⟨rfl, id, fun rest' hrest => ?_, fun _ => rfl, rfl, List.Sublist.refl _⟩
      cases hcancel : s.worker.cancel with
      | false => rfl
      | true => simp [hcancel] at hrest
  | accept hpoint n =>
      exact ⟨rfl, id, by simp, fun hall => absurd hpoint (hall _), rfl, List.Sublist.refl _⟩
  | fail hpoint =>
      exact ⟨rfl, fun _ => rfl, by simp, fun hall => absurd hpoint (hall _), rfl,
        List.Sublist.refl _⟩

theorem ordered_next {s s' : ForwardRun} {e : ForwardEvent} (h : Ordered s)
    (hnext : s.next e = some s') : Ordered s' := by
  cases e with
  | work outcome =>
      obtain ⟨_, _, _, _, hqueued, hsublist⟩ := work_keeps hnext
      rw [Ordered, hqueued]
      exact hsublist.trans h
  | push bytes =>
      rw [push_next] at hnext
      obtain rfl := Option.some.inj hnext
      split
      · show (s.popped ++ (s.queue.enqueue bytes).1.q).Sublist (s.queued ++ [bytes])
        refine ((enqueue_sublist s.queue bytes).append_left s.popped).trans ?_
        rw [← List.append_assoc]
        exact h.append_right [bytes]
      · exact h
  | cancel =>
      obtain rfl := Option.some.inj hnext
      exact h
  | store active =>
      obtain rfl := Option.some.inj hnext
      exact h
  | clear =>
      obtain rfl := Option.some.inj hnext
      exact ((List.nil_sublist s.queue.q).append_left s.popped).trans h
  | take =>
      obtain rfl := Option.some.inj hnext
      exact ((try_pop_sublist s.queue).append_left s.popped).trans h

/-- A worker that has come to its end stays there, and its port accepts nothing more. -/
theorem stopped_next {s s' : ForwardRun} {e : ForwardEvent} (h : Faithful s) (hstopped : s.stopped)
    (hnext : s.next e = some s') : s'.stopped ∧ s'.accepted = s.accepted := by
  cases e with
  | work outcome =>
      obtain ⟨hcancel, hfailed, hsending, haccepted, _⟩ := work_keeps hnext
      rcases hstopped with hfail | ⟨hflag, hpoint⟩
      · have hquiet : ∀ rest, s.worker.point ≠ .sending rest := by
          intro rest hrest
          have hmem := h.failed_point hfail
          rw [hrest] at hmem
          exact absurd hmem (by simp)
        exact ⟨.inl (hfailed hfail), haccepted hquiet⟩
      · refine ⟨.inr ⟨hcancel.trans hflag, fun rest hrest => ?_⟩, haccepted hpoint⟩
        exact absurd (hflag.symm.trans (hsending rest hrest)) (by simp)
  | cancel =>
      obtain rfl := Option.some.inj hnext
      rcases hstopped with hfail | ⟨_, hpoint⟩
      · exact ⟨.inl hfail, rfl⟩
      · exact ⟨.inr ⟨rfl, hpoint⟩, rfl⟩
  | push bytes =>
      rw [push_next] at hnext
      obtain rfl := Option.some.inj hnext
      split
      · exact ⟨hstopped, rfl⟩
      · exact ⟨hstopped, rfl⟩
  | store active =>
      obtain rfl := Option.some.inj hnext
      exact ⟨hstopped, rfl⟩
  | clear =>
      obtain rfl := Option.some.inj hnext
      exact ⟨hstopped, rfl⟩
  | take =>
      obtain rfl := Option.some.inj hnext
      exact ⟨hstopped, rfl⟩

/-! ## Whole runs -/

theorem start_faithful (autoconfig : Bool) (queue : CorrQueue) :
    Faithful (start autoconfig queue) where
  starts := List.prefix_refl _
  inside := fun _ hrest => absurd hrest (by simp [pending, start, SerialWorker.spawn])
  whole := fun _ _ => rfl
  calls_le := Nat.le_refl _
  sending_ne := fun _ hrest => absurd hrest (by simp [start, SerialWorker.spawn])
  failed_point := fun hfailed => absurd hfailed (by simp [start, SerialWorker.spawn])

theorem faithful_reachable {start s : ForwardRun} (hstart : Faithful start)
    (h : Reachable next anyOrder start s) : Faithful s :=
  h.invariant hstart fun _ _ _ hinv _ hnext => faithful_next hinv hnext

theorem ordered_reachable {start s : ForwardRun} (hstart : Ordered start)
    (h : Reachable next anyOrder start s) : Ordered s :=
  h.invariant hstart fun _ _ _ hinv _ hnext => ordered_next hinv hnext

/-- Once a worker has come to its end, its port accepts nothing more. -/
theorem stopped_reachable {s s' : ForwardRun} (hfaithful : Faithful s) (hstopped : s.stopped)
    (h : Reachable next anyOrder s s') : s'.accepted = s.accepted := by
  have hstep : ∀ t e t', Faithful t ∧ t.stopped ∧ t.accepted = s.accepted → anyOrder t e = true →
      next t e = some t' → Faithful t' ∧ t'.stopped ∧ t'.accepted = s.accepted := by
    intro t e t' hinv _ hnext
    obtain ⟨hstopped', haccepted⟩ := stopped_next hinv.1 hinv.2.1 hnext
    exact ⟨faithful_next hinv.1 hnext, hstopped', haccepted.trans hinv.2.2⟩
  exact (h.invariant ⟨hfaithful, hstopped, rfl⟩ hstep).2.2

/-! ## The block that the worker writes -/

section

variable {s : ForwardRun} {rest : Bytes}

theorem work_writing (hpoint : s.worker.point = .writing rest) (outcome : PortOutcome) :
    s.next (.work outcome) = some { s with worker := { s.worker with
      point := if rest.isEmpty || s.worker.cancel then .draining else .sending rest } } := by
  simp only [next, SerialWorker.step, note, hpoint, Option.map_some]

theorem work_accepted (hpoint : s.worker.point = .sending rest) (n : Nat) :
    s.next (.work (.ok (n + 1))) = some { s with
      worker := { s.worker with point := .writing (rest.drop (n + 1)) }
      accepted := s.accepted ++ rest.take (n + 1)
      calls := s.calls + 1 } := by
  simp only [next, SerialWorker.step, note, hpoint, Option.map_some]

/-- A write fails with an error, or by accepting nothing. -/
theorem work_failed (hpoint : s.worker.point = .sending rest) {outcome : PortOutcome}
    (hfails : outcome = .ok 0 ∨ outcome = .error) :
    s.next (.work outcome) = some { s with
      worker := { s.worker with point := .deactivating, failed := true }
      calls := s.calls + 1 } := by
  rcases hfails with rfl | rfl
  · simp only [next, SerialWorker.step, note, hpoint, Option.map_some, List.take_zero,
      List.append_nil]
  · simp only [next, SerialWorker.step, note, hpoint, Option.map_some]

/-- Without a cancellation the worker goes on to the next call. -/
theorem reachable_sending (hpoint : s.worker.point = .writing rest)
    (hcancel : s.worker.cancel = false) (hne : rest ≠ []) :
    Reachable next anyOrder s { s with worker := { s.worker with point := .sending rest } } := by
  have hsend : ¬ (rest.isEmpty || s.worker.cancel) = true := by simp [hne, hcancel]
  have hstep := work_writing hpoint .error
  rw [if_neg hsend] at hstep
  exact Reachable.refl.step rfl hstep

/-- A call that fails ends the block. -/
theorem reachable_failed (hpoint : s.worker.point = .writing rest)
    (hcancel : s.worker.cancel = false) (hne : rest ≠ []) {outcome : PortOutcome}
    (hfails : outcome = .ok 0 ∨ outcome = .error) :
    ∃ s', Reachable next anyOrder s s' ∧ s'.accepted = s.accepted ∧ s'.calls = s.calls + 1 ∧
      s'.worker.point = .deactivating :=
  ⟨_, (reachable_sending hpoint hcancel hne).step rfl (work_failed rfl hfails), rfl, rfl, rfl⟩

end

/-- The worker writes a block as `forward_block` does: some run of it accepts the same bytes in as
many calls, and goes on exactly where `forward_block` does not fail. -/
theorem worker_forwards (write : Nat → WriteResult) (cancel : Nat → Bool) (k : Nat) (rest : Bytes)
    (s : ForwardRun) (hpoint : s.worker.point = .writing rest) (hcancel : s.worker.cancel = false) :
    ∃ s', Reachable next anyOrder s s' ∧
      s'.accepted = s.accepted ++ (forwardBlock write cancel k rest).accepted ∧
      s'.calls = s.calls + (forwardBlock write cancel k rest).calls ∧
      s'.worker.point = match (forwardBlock write cancel k rest).result with
        | .ok _ => .draining
        | .error _ => .deactivating := by
  fun_induction forwardBlock write cancel k rest generalizing s with
  | case1 k =>
      exact ⟨_, Reachable.refl.step rfl (work_writing hpoint .error), (List.append_nil _).symm,
        rfl, rfl⟩
  | case2 k rest hne hflag =>
      -- the flag is raised before it is looked at
      have hraise : Reachable next anyOrder s
          { s with worker := { s.worker with cancel := true } } :=
        Reachable.refl.step (show anyOrder s .cancel = true from rfl) rfl
      have hpoint' : SerialWorker.point { s.worker with cancel := true } = .writing rest := hpoint
      have hstep := work_writing (s := { s with worker := { s.worker with cancel := true } })
        hpoint' .error
      refine ⟨_, hraise.step rfl hstep, (List.append_nil _).symm, rfl, ?_⟩
      exact if_pos (Bool.or_true _)
  | case3 k rest hne hflag hwrite =>
      obtain ⟨s', hreach, haccepted, hcalls, hpoint'⟩ :=
        reachable_failed hpoint hcancel hne (.inl rfl)
      exact ⟨s', hreach, haccepted.trans (List.append_nil _).symm, hcalls, hpoint'⟩
  | case4 k rest hne hflag n hwrite after ih =>
      have hsending := reachable_sending hpoint hcancel hne
      have hwriting : Reachable next anyOrder s { s with
          worker := { s.worker with point := .writing (rest.drop (n + 1)) }
          accepted := s.accepted ++ rest.take (n + 1)
          calls := s.calls + 1 } := hsending.step rfl (work_accepted rfl n)
      obtain ⟨s', hrest, haccepted, hcalls, hpoint'⟩ := ih { s with
        worker := { s.worker with point := .writing (rest.drop (n + 1)) }
        accepted := s.accepted ++ rest.take (n + 1)
        calls := s.calls + 1 } rfl hcancel
      refine ⟨s', hwriting.trans hrest, ?_, ?_, hpoint'⟩
      · rw [haccepted, List.append_assoc]
      · rw [hcalls, Nat.add_assoc, Nat.add_comm 1]
  | case5 k rest hne hflag error hwrite =>
      obtain ⟨s', hreach, haccepted, hcalls, hpoint'⟩ :=
        reachable_failed hpoint hcancel hne (.inr rfl)
      exact ⟨s', hreach, haccepted.trans (List.append_nil _).symm, hcalls, hpoint'⟩

/-- In every run, what the port accepted starts the popped blocks, which were queued in this order.
Inside a block only its rest is missing. Between blocks nothing is missing as long as nothing failed
and nobody cancelled. A block takes at most one call for each of its bytes. After a failure or a
cancellation nothing more is accepted. -/
theorem forwarded_reachable (autoconfig : Bool) (queue : CorrQueue) {s : ForwardRun}
    (h : Reachable next anyOrder (start autoconfig queue) s) :
    s.accepted <+: s.popped.flatten ∧ (s.popped ++ s.queue.q).Sublist s.queued ∧
      (∀ rest, s.pending = some rest → s.popped.flatten = s.accepted ++ rest) ∧
      (s.pending = none → s.goesOn → s.accepted = s.popped.flatten) ∧
      s.calls ≤ (s.popped.getLast?.getD []).length ∧
      (s.stopped → ∀ s', Reachable next anyOrder s s' → s'.accepted = s.accepted) := by
  have hfaithful := faithful_reachable (start_faithful autoconfig queue) h
  have hordered := ordered_reachable (start_ordered autoconfig queue) h
  refine ⟨hfaithful.starts, hordered, hfaithful.inside, ?_, ?_, ?_⟩
  · intro hpending hon
    exact hfaithful.whole hpending (.inl hon)
  · exact Nat.le_trans (Nat.le_add_right _ _) hfaithful.calls_le
  · intro hstopped s' hrest
    exact stopped_reachable hfaithful hstopped hrest

/-- A block of three bytes in an active queue. -/
def oneBlock : CorrQueue := (((CorrQueue.new 8).storeActive true).push [0xD3, 0x00, 0x01]).1

/-- The worker opens its port, pops the block and writes two of its bytes, and is cancelled before
the third. -/
def cancelledInside : List ForwardEvent :=
  .replicate 8 (.work (.ok 2)) ++ [.cancel, .work (.ok 2), .work (.ok 2)]

theorem forwarded_reachable_cancelled : ∃ s, s.accepted = [0xD3, 0x00] ∧
    s.popped = [[0xD3, 0x00, 0x01]] ∧ s.worker.cancel = true ∧ s.accepted <+: s.popped.flatten ∧
    s.calls ≤ (s.popped.getLast?.getD []).length ∧
    (s.stopped → ∀ s', Reachable next anyOrder s s' → s'.accepted = s.accepted) := by
  obtain ⟨s, hreach, hs⟩ := reachable_of_exec next anyOrder (start false oneBlock) cancelledInside
    (p := fun s => s.accepted = [0xD3, 0x00] && s.popped = [[0xD3, 0x00, 0x01]] && s.worker.cancel)
    (by decide)
  simp only [Bool.and_eq_true, decide_eq_true_eq] at hs
  obtain ⟨hstarts, _, _, _, hcalls, hstopped⟩ := forwarded_reachable false oneBlock hreach
  exact ⟨s, hs.1.1, hs.1.2, hs.2, hstarts, hcalls, hstopped⟩

end ForwardRun
end OpenNtrip
