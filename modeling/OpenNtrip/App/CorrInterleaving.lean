import OpenNtrip.App.CorrQueue
import OpenNtrip.Lib.StepSystem

/-!
# The corrections queue under concurrency

A producer, a consumer and an activator share one queue. Each step is one access to the flag or
one section under the lock, and the steps come in any order. `accounted_reachable` says that every
block that was accepted has one fate, in the order of acceptance, and that a deactivated queue is
empty.
-/

namespace OpenNtrip

open StepSystem

/-- Where a `push` stands. It holds the lock from `locked` on and has loaded the flag at
`loaded`. -/
inductive PushPoint where
  | idle
  | locked (bytes : Bytes)
  | loaded (bytes : Bytes) (active : Bool)
  deriving DecidableEq, Repr

/-- Where the activator stands: `set_active(false)` has stored the flag at `clearing` and is still
to clear the queue. -/
inductive ActivatorPoint where
  | idle
  | clearing
  deriving DecidableEq, Repr

/-- The queue and the threads that use it. What has happened is kept beside them: the blocks that
were accepted and popped, in order, the number of blocks that were cleared, and whether
`set_active(false)` has returned since the last `set_active(true)` began. -/
structure CorrSystem where
  queue : CorrQueue
  producer : PushPoint
  activator : ActivatorPoint
  accepted : List Bytes
  popped : List Bytes
  cleared : Nat
  detached : Bool
  deriving DecidableEq, Repr

/-- The steps. `lock`, `load` and `finish` are those of `push`, `attach` is the store of
`set_active(true)`, `detach` the store and `clear` the clear of `set_active(false)`. -/
inductive CorrEvent where
  | lock (bytes : Bytes)
  | load
  | finish
  | pop
  | attach
  | detach
  | clear
  deriving DecidableEq, Repr

namespace CorrSystem

def init (cap : Nat) : CorrSystem where
  queue := CorrQueue.new cap
  producer := .idle
  activator := .idle
  accepted := []
  popped := []
  cleared := 0
  detached := true

/-- One step. The lock is free while the producer is idle. -/
def next (s : CorrSystem) : CorrEvent → Option CorrSystem
  | .lock bytes =>
    match s.producer with
    | .idle => some { s with producer := .locked bytes }
    | _ => none
  | .load =>
    match s.producer with
    | .locked bytes => some { s with producer := .loaded bytes s.queue.active }
    | _ => none
  | .finish =>
    match s.producer with
    | .loaded _ false => some { s with producer := .idle }
    | .loaded bytes true =>
      some { s with
        queue := (s.queue.enqueue bytes).1
        producer := .idle
        accepted := s.accepted ++ [bytes] }
    | _ => none
  | .pop =>
    match s.producer, s.queue.tryPop with
    | .idle, (queue, some block) => some { s with queue, popped := s.popped ++ [block] }
    | .idle, (queue, none) => some { s with queue }
    | _, _ => none
  | .attach =>
    match s.activator with
    | .idle => some { s with queue := s.queue.storeActive true, detached := false }
    | .clearing => none
  | .detach =>
    match s.activator with
    | .idle => some { s with queue := s.queue.storeActive false, activator := .clearing }
    | .clearing => none
  | .clear =>
    match s.producer, s.activator with
    | .idle, .clearing =>
      some { s with
        queue := s.queue.clear
        activator := .idle
        cleared := s.cleared + s.queue.q.length
        detached := true }
    | _, _ => none

/-- Every order of the steps is allowed. -/
def anyOrder (_ : CorrSystem) (_ : CorrEvent) : Bool := true

/-- What becomes of a block that was accepted. -/
inductive Fate where
  | popped
  | dropped
  | cleared
  | queued
  deriving DecidableEq, Repr

/-- The blocks with one of the fates, in the order of acceptance. -/
def withFate (fate : Fate) (history : List (Bytes × Fate)) : List Bytes :=
  (history.filter (·.2 = fate)).map Prod.fst

theorem with_fate_append (fate : Fate) (first second : List (Bytes × Fate)) :
    withFate fate (first ++ second) = withFate fate first ++ withFate fate second := by
  simp [withFate]

/-- Blocks that share a fate. -/
theorem with_fate_map (fate fate' : Fate) (blocks : List Bytes) :
    withFate fate (blocks.map (·, fate')) = if fate' = fate then blocks else [] := by
  induction blocks with
  | nil => simp [withFate]
  | cons block rest ih =>
      by_cases hfate : fate' = fate
      · simp only [withFate, hfate, if_true] at ih ⊢
        simp [ih]
      · simp only [withFate, hfate, if_false] at ih ⊢
        simp [hfate]

/-- The fates divide the blocks among them. -/
theorem with_fate_total (history : List (Bytes × Fate)) :
    history.length = (withFate .popped history).length + (withFate .queued history).length +
      (withFate .dropped history).length + (withFate .cleared history).length := by
  induction history with
  | nil => rfl
  | cons entry rest ih =>
      obtain ⟨block, fate⟩ := entry
      simp only [withFate, List.length_map] at ih ⊢
      cases fate with
      | popped => simp; omega
      | dropped => simp; omega
      | cleared => simp; omega
      | queued => simp; omega

theorem with_fate_sublist (fate : Fate) (history : List (Bytes × Fate)) :
    (withFate fate history).Sublist (history.map Prod.fst) :=
  List.filter_sublist.map Prod.fst

/-- Every accepted block has one fate. -/
structure Accounted (s : CorrSystem) (history : List (Bytes × Fate)) : Prop where
  accepted : s.accepted = history.map Prod.fst
  popped : s.popped = withFate .popped history
  queued : s.queue.q = withFate .queued history
  overruns : s.queue.overruns = (withFate .dropped history).length
  cleared : s.cleared = (withFate .cleared history).length

/-- The blocks that left the queue came before those that are still in it. -/
def Ledger (s : CorrSystem) : Prop :=
  ∃ gone : List (Bytes × Fate), withFate .queued gone = [] ∧
    Accounted s (gone ++ s.queue.q.map (·, .queued))

/-- After a deactivation the queue is empty, and no push that is under way has found it active.
Between the store and the clear the flag is down. -/
structure Emptied (s : CorrSystem) : Prop where
  clearing : s.activator = .clearing → s.queue.active = false
  empty : s.detached = true → s.queue.q = []
  inactive : s.detached = true → s.queue.active = false
  unloaded : s.detached = true → ∀ bytes, s.producer ≠ .loaded bytes true

/-- The ledger is kept by a step that touches neither the blocks nor the counters. -/
theorem ledger_keep {s s' : CorrSystem} (h : Ledger s) (hq : s'.queue.q = s.queue.q)
    (hoverruns : s'.queue.overruns = s.queue.overruns) (haccepted : s'.accepted = s.accepted)
    (hpopped : s'.popped = s.popped) (hcleared : s'.cleared = s.cleared) : Ledger s' := by
  obtain ⟨gone, hgone, hs⟩ := h
  refine ⟨gone, hgone, ?_⟩
  rw [hq]
  exact ⟨haccepted ▸ hs.accepted, hpopped ▸ hs.popped, hq ▸ hs.queued, hoverruns ▸ hs.overruns,
    hcleared ▸ hs.cleared⟩

/-- The ledger after blocks at the head of the queue have met a fate and others were accepted. -/
theorem ledger_take {s s' : CorrSystem} {rest : List Bytes} (fate : Fate)
    (blocks new : List Bytes) (h : Ledger s) (hfate : fate ≠ .queued)
    (hq : s.queue.q = blocks ++ rest) (hq' : s'.queue.q = rest ++ new)
    (haccepted : s'.accepted = s.accepted ++ new)
    (hpopped : s'.popped = s.popped ++ if fate = .popped then blocks else [])
    (hoverruns : s'.queue.overruns =
      s.queue.overruns + if fate = .dropped then blocks.length else 0)
    (hcleared : s'.cleared = s.cleared + if fate = .cleared then blocks.length else 0) :
    Ledger s' := by
  obtain ⟨gone, hgone, hs⟩ := h
  rw [hq] at hs
  refine ⟨gone ++ blocks.map (·, fate), ?_, ?_, ?_, ?_, ?_, ?_⟩
  · rw [with_fate_append, hgone, with_fate_map, if_neg hfate]
    rfl
  · rw [haccepted, hs.accepted, hq']
    simp [Function.comp_def]
  · rw [hpopped, hs.popped]
    simp only [with_fate_append, with_fate_map, reduceCtorEq, if_false, List.append_nil]
  · rw [hq']
    simp only [with_fate_append, with_fate_map, hgone, if_neg hfate, if_true, List.nil_append]
  · rw [hoverruns, hs.overruns]
    simp only [with_fate_append, with_fate_map, reduceCtorEq, if_false, List.append_nil,
      List.length_append]
    split
    · rfl
    · rfl
  · rw [hcleared, hs.cleared]
    simp only [with_fate_append, with_fate_map, reduceCtorEq, if_false, List.append_nil,
      List.length_append]
    split
    · rfl
    · rfl

/-- What one step can do. -/
inductive Taken (s : CorrSystem) : CorrSystem → Prop where
  | locked (bytes : Bytes) (hproducer : s.producer = .idle) :
      Taken s { s with producer := .locked bytes }
  | loaded (bytes : Bytes) (hproducer : s.producer = .locked bytes) :
      Taken s { s with producer := .loaded bytes s.queue.active }
  | refused (bytes : Bytes) (hproducer : s.producer = .loaded bytes false) :
      Taken s { s with producer := .idle }
  | accepted (bytes : Bytes) (hproducer : s.producer = .loaded bytes true) :
      Taken s { s with
        queue := (s.queue.enqueue bytes).1
        producer := .idle
        accepted := s.accepted ++ [bytes] }
  | unchanged : Taken s s
  | popped (block : Bytes) (queue : CorrQueue) (hpop : s.queue.tryPop = (queue, some block)) :
      Taken s { s with queue, popped := s.popped ++ [block] }
  | attached (hactivator : s.activator = .idle) :
      Taken s { s with queue := s.queue.storeActive true, detached := false }
  | detaching (hactivator : s.activator = .idle) :
      Taken s { s with queue := s.queue.storeActive false, activator := .clearing }
  | cleared (hproducer : s.producer = .idle) (hactivator : s.activator = .clearing) :
      Taken s { s with
        queue := s.queue.clear
        activator := .idle
        cleared := s.cleared + s.queue.q.length
        detached := true }

theorem next_taken {s s' : CorrSystem} {e : CorrEvent} (h : s.next e = some s') : Taken s s' := by
  cases e with
  | lock bytes =>
      simp only [next] at h
      split at h
      · next hproducer =>
          obtain rfl := Option.some.inj h
          exact .locked bytes hproducer
      · simp at h
  | load =>
      simp only [next] at h
      split at h
      · next bytes hproducer =>
          obtain rfl := Option.some.inj h
          exact .loaded bytes hproducer
      · simp at h
  | finish =>
      simp only [next] at h
      split at h
      · next bytes hproducer =>
          obtain rfl := Option.some.inj h
          exact .refused bytes hproducer
      · next bytes hproducer =>
          obtain rfl := Option.some.inj h
          exact .accepted bytes hproducer
      · simp at h
  | pop =>
      simp only [next] at h
      split at h
      · next queue block _ hpop =>
          obtain rfl := Option.some.inj h
          exact .popped block queue hpop
      · next queue _ hpop =>
          obtain rfl := Option.some.inj h
          rw [CorrQueue.try_pop_none hpop]
          exact .unchanged
      · simp at h
  | attach =>
      simp only [next] at h
      split at h
      · next hactivator =>
          obtain rfl := Option.some.inj h
          exact .attached hactivator
      · simp at h
  | detach =>
      simp only [next] at h
      split at h
      · next hactivator =>
          obtain rfl := Option.some.inj h
          exact .detaching hactivator
      · simp at h
  | clear =>
      simp only [next] at h
      split at h
      · next hproducer hactivator =>
          obtain rfl := Option.some.inj h
          exact .cleared hproducer hactivator
      · simp at h

/-- A step keeps the ledger. -/
theorem next_ledger {s s' : CorrSystem} {e : CorrEvent} (h : Ledger s)
    (hnext : s.next e = some s') : Ledger s' := by
  cases next_taken hnext with
  | locked => exact ledger_keep h rfl rfl rfl rfl rfl
  | loaded => exact ledger_keep h rfl rfl rfl rfl rfl
  | refused => exact ledger_keep h rfl rfl rfl rfl rfl
  | accepted bytes =>
      -- The block joins the queue, and the oldest is dropped if there is no room for it.
      obtain ⟨-, -, ⟨hq, hoverruns⟩ | ⟨oldest, rest, hq, hq', hoverruns⟩⟩ :=
        s.queue.enqueue_cases bytes
      · exact ledger_take .dropped [] [bytes] h (by simp) rfl hq rfl (by simp)
          (by simp [hoverruns]) (by simp)
      · exact ledger_take .dropped [oldest] [bytes] h (by simp) hq hq' rfl (by simp)
          (by simp [hoverruns]) (by simp)
  | unchanged => exact h
  | popped block queue hpop =>
      obtain ⟨hq, -, -, hoverruns⟩ := CorrQueue.try_pop_some hpop
      exact ledger_take .popped [block] [] h (by simp) hq (List.append_nil _).symm (by simp)
        (by simp) (by simpa using hoverruns) (by simp)
  | attached => exact ledger_keep h rfl rfl rfl rfl rfl
  | detaching => exact ledger_keep h rfl rfl rfl rfl rfl
  | cleared =>
      exact ledger_take .cleared s.queue.q [] h (by simp) (List.append_nil _).symm rfl (by simp)
        (by simp) (by simp [CorrQueue.clear]) (by simp)

/-- A step keeps the queue empty until it is activated again. -/
theorem next_emptied {s s' : CorrSystem} {e : CorrEvent} (h : Emptied s)
    (hnext : s.next e = some s') : Emptied s' := by
  cases next_taken hnext with
  | locked => exact ⟨h.clearing, h.empty, h.inactive, fun _ _ => by simp⟩
  | loaded =>
      refine ⟨h.clearing, h.empty, h.inactive, fun hdetached bytes' heq => ?_⟩
      have hactive := (PushPoint.loaded.inj heq).2
      rw [h.inactive hdetached] at hactive
      simp at hactive
  | refused => exact ⟨h.clearing, h.empty, h.inactive, fun _ _ => by simp⟩
  | accepted bytes hproducer =>
      -- The push found the queue active, so no deactivation has returned since.
      have hdetached : s.detached = true → False := fun hd => h.unloaded hd bytes hproducer
      refine ⟨fun hclearing => ?_, fun hd => (hdetached hd).elim, fun hd => (hdetached hd).elim,
        fun hd => (hdetached hd).elim⟩
      rw [← h.clearing hclearing]
      exact (s.queue.enqueue_cases bytes).2.1
  | unchanged => exact h
  | popped block queue hpop =>
      obtain ⟨hq, -, hactive, -⟩ := CorrQueue.try_pop_some hpop
      have hdetached : s.detached = true → False := fun hd => by simp [h.empty hd] at hq
      exact ⟨fun hclearing => hactive.trans (h.clearing hclearing), fun hd => (hdetached hd).elim,
        fun hd => (hdetached hd).elim, h.unloaded⟩
  | attached hactivator =>
      exact ⟨fun hclearing => by simp [hactivator] at hclearing, by simp, by simp, by simp⟩
  | detaching => exact ⟨fun _ => rfl, h.empty, fun _ => rfl, h.unloaded⟩
  | cleared hproducer hactivator =>
      exact ⟨by simp, fun _ => rfl, fun _ => h.clearing hactivator,
        fun _ bytes heq => by simp [hproducer] at heq⟩

/-- No step changes the capacity. -/
theorem next_cap {s s' : CorrSystem} {e : CorrEvent} (hnext : s.next e = some s') :
    s'.queue.cap = s.queue.cap := by
  cases next_taken hnext with
  | accepted bytes => exact (s.queue.enqueue_cases bytes).1
  | popped block queue hpop => exact (CorrQueue.try_pop_some hpop).2.1
  | _ => rfl

/-- What every step keeps. -/
def Invariant (cap : Nat) (s : CorrSystem) : Prop :=
  Ledger s ∧ Emptied s ∧ s.queue.cap = max cap 1

/-- In every state that the threads reach, each accepted block has been popped, dropped or cleared
once or is still queued, the popped blocks come in the order of acceptance, the queue is within its
capacity, and it is empty from the return of `set_active(false)` to the next `set_active(true)`. -/
theorem accounted_reachable (cap : Nat) {s : CorrSystem}
    (h : Reachable next anyOrder (init cap) s) :
    (∃ history, Accounted s history) ∧ s.popped.Sublist s.accepted ∧
      s.queue.q.length ≤ max cap 1 ∧
      s.accepted.length =
        s.popped.length + s.queue.q.length + s.queue.overruns + s.cleared ∧
      (s.detached = true → s.queue.q = []) := by
  have hinv : Invariant cap s := by
    refine h.invariant ?_ ?_
    · have hledger : Ledger (init cap) := ⟨[], rfl, rfl, rfl, rfl, rfl, rfl⟩
      exact ⟨hledger, ⟨by simp [init], fun _ => rfl, fun _ => rfl, fun _ _ => by simp [init]⟩, rfl⟩
    · rintro s e s' ⟨hledger, hemptied, hcap⟩ - hnext
      exact ⟨next_ledger hledger hnext, next_emptied hemptied hnext, (next_cap hnext).trans hcap⟩
  obtain ⟨⟨gone, -, hs⟩, hemptied, hcap⟩ := hinv
  refine ⟨⟨_, hs⟩, ?_, ?_, ?_, hemptied.empty⟩
  · rw [hs.popped, hs.accepted]
    exact with_fate_sublist _ _
  · have := s.queue.q_le
    omega
  · have htotal := with_fate_total (gone ++ s.queue.q.map (·, .queued))
    rw [← hs.popped, ← hs.queued, ← hs.overruns, ← hs.cleared] at htotal
    rw [hs.accepted, List.length_map, htotal]

/-- A push that has loaded the flag straddles the store of a deactivation, is accepted, and is
cleared. -/
theorem accounted_reachable_example :
    ∃ s, Reachable next anyOrder (init 2) s ∧ s.accepted = [[7]] ∧ s.cleared = 1 ∧
      s.popped.Sublist s.accepted ∧ (s.detached = true → s.queue.q = []) := by
  obtain ⟨s, hreach, hs⟩ := reachable_of_exec next anyOrder (init 2)
    [.attach, .lock [7], .load, .detach, .finish, .clear]
    (p := fun s => s.accepted = [[7]] && s.cleared = 1) (by decide)
  simp only [Bool.and_eq_true, decide_eq_true_eq] at hs
  have haccounted := accounted_reachable 2 hreach
  exact ⟨s, hreach, hs.1, hs.2, haccounted.2.1, haccounted.2.2.2.2⟩

end CorrSystem
end OpenNtrip
