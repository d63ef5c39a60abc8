import OpenNtrip.App.SerialWorker
import OpenNtrip.Lib.StepSystem

/-!
# Handing the queue from one serial worker to the next

All serial workers share one queue with one flag, and a stop gives up on its worker after 2 s. So
a worker that hangs in a slow write can wake up in the session of its successor, and then it
switches off and clears the queue that the successor drains (`successor_disturbed`). The session of
a worker is undisturbed as long as every change of worker is `orderly`
(`undisturbed_of_orderly`).
-/

namespace OpenNtrip

open StepSystem

namespace SerialWorker

/-- The worker does not switch off the queue any more, unless it is still to open its port. -/
def detached (w : SerialWorker) : Bool := w.atRest || w.point = .clearing

/-- A worker that has not opened its port, or has ended, leaves the queue alone. -/
theorem step_at_rest {w w' : SerialWorker} {queue queue' : CorrQueue} {outcome : PortOutcome}
    (h : w.step queue outcome = some (w', queue')) (hrest : w.atRest = true) : queue' = queue := by
  obtain ⟨point, cancel, failed, commands⟩ := w
  simp only [atRest, Bool.or_eq_true, decide_eq_true_eq] at hrest
  rcases hrest with rfl | rfl
  · cases outcome with
    | ok n =>
        obtain ⟨-, rfl⟩ := Prod.mk.inj (Option.some.inj h)
        rfl
    | error =>
        obtain ⟨-, rfl⟩ := Prod.mk.inj (Option.some.inj h)
        rfl
  · simp [step] at h

/-- A detached worker whose port does not open is at rest after its step and leaves the flag
alone. -/
theorem step_detached {w w' : SerialWorker} {queue queue' : CorrQueue} {outcome : PortOutcome}
    (h : w.step queue outcome = some (w', queue')) (hdetached : w.detached = true)
    (hopen : w.point = .opening → outcome = .error) :
    w'.atRest = true ∧ queue'.active = queue.active := by
  obtain ⟨point, cancel, failed, commands⟩ := w
  simp only [detached, atRest, Bool.or_eq_true, decide_eq_true_eq] at hdetached
  rcases hdetached with (rfl | rfl) | rfl
  · obtain rfl := hopen rfl
    obtain ⟨rfl, rfl⟩ := Prod.mk.inj (Option.some.inj h)
    exact ⟨rfl, rfl⟩
  · simp [step] at h
  · obtain ⟨rfl, rfl⟩ := Prod.mk.inj (Option.some.inj h)
    exact ⟨rfl, rfl⟩

/-- A worker serves if it is configuring its receiver or forwarding, and nothing stops it. -/
theorem serves_iff (w : SerialWorker) :
    w.serves = true ↔ (w.forwards = true ∨ ∃ left, w.point = .configuring left) ∧
      w.cancel = false ∧ w.failed = false := by
  obtain ⟨point, cancel, failed, commands⟩ := w
  cases point <;> simp [serves, forwards]

/-- A step in the forwarding loop leaves the flags alone, unless the port fails. -/
theorem step_forwards {w w' : SerialWorker} {queue queue' : CorrQueue} {outcome : PortOutcome}
    (h : w.step queue outcome = some (w', queue')) (hforwards : w.forwards = true) :
    queue'.active = queue.active ∧ w'.cancel = w.cancel ∧
      (w'.failed = false → w.failed = false) := by
  obtain ⟨point, cancel, failed, commands⟩ := w
  cases point with
  | opening => simp [forwards] at hforwards
  | opened => simp [forwards] at hforwards
  | configuring left => simp [forwards] at hforwards
  | looping =>
      obtain ⟨rfl, rfl⟩ := Prod.mk.inj (Option.some.inj h)
      exact ⟨rfl, rfl, id⟩
  | draining =>
      obtain ⟨rfl, rfl⟩ := Prod.mk.inj (Option.some.inj h)
      exact ⟨rfl, rfl, id⟩
  | popping =>
      -- A pop keeps the flag, whether or not there is a block.
      have hpop := queue.try_pop_active
      simp only [step] at h
      split at h
      all_goals
        next heq =>
          obtain ⟨rfl, rfl⟩ := Prod.mk.inj (Option.some.inj h)
          rw [heq] at hpop
          exact ⟨hpop, rfl, id⟩
  | writing rest =>
      obtain ⟨rfl, rfl⟩ := Prod.mk.inj (Option.some.inj h)
      exact ⟨rfl, rfl, id⟩
  | sending rest =>
      cases outcome with
      | ok n =>
          cases n with
          | zero =>
              obtain ⟨rfl, rfl⟩ := Prod.mk.inj (Option.some.inj h)
              exact ⟨rfl, rfl, by simp⟩
          | succ n =>
              obtain ⟨rfl, rfl⟩ := Prod.mk.inj (Option.some.inj h)
              exact ⟨rfl, rfl, id⟩
      | error =>
          obtain ⟨rfl, rfl⟩ := Prod.mk.inj (Option.some.inj h)
          exact ⟨rfl, rfl, by simp⟩
  | reading =>
      cases outcome with
      | ok n =>
          obtain ⟨rfl, rfl⟩ := Prod.mk.inj (Option.some.inj h)
          exact ⟨rfl, rfl, id⟩
      | error =>
          obtain ⟨rfl, rfl⟩ := Prod.mk.inj (Option.some.inj h)
          exact ⟨rfl, rfl, by simp⟩
  | deactivating => simp [forwards] at hforwards
  | clearing => simp [forwards] at hforwards
  | ended => simp [forwards] at hforwards

/-- A step in the configuration leaves the queue alone, and enters the loop at its end or when the
port fails. -/
theorem step_configuring {w w' : SerialWorker} {queue queue' : CorrQueue} {outcome : PortOutcome}
    {left : Nat} (h : w.step queue outcome = some (w', queue'))
    (hpoint : w.point = .configuring left) :
    queue' = queue ∧ w'.cancel = w.cancel ∧ (w'.failed = false → w.failed = false ∧
      (w'.forwards = true → left = 0)) := by
  obtain ⟨point, cancel, failed, commands⟩ := w
  obtain rfl : point = .configuring left := hpoint
  cases left with
  | zero =>
      obtain ⟨rfl, rfl⟩ := Prod.mk.inj (Option.some.inj h)
      exact ⟨rfl, rfl, fun hfailed => ⟨hfailed, fun _ => rfl⟩⟩
  | succ left =>
      cases outcome with
      | ok n =>
          obtain ⟨rfl, rfl⟩ := Prod.mk.inj (Option.some.inj h)
          exact ⟨rfl, rfl, fun hfailed => ⟨hfailed, by simp [forwards]⟩⟩
      | error =>
          obtain ⟨rfl, rfl⟩ := Prod.mk.inj (Option.some.inj h)
          exact ⟨rfl, rfl, by simp⟩

/-- A worker that serves after a step has just activated the queue, or it served before and the
flag is as it was. It enters its loop only from the end of its configuration. -/
theorem step_serves {w w' : SerialWorker} {queue queue' : CorrQueue} {outcome : PortOutcome}
    (h : w.step queue outcome = some (w', queue')) (hserves : w'.serves = true) :
    w.point = .opened ∧ w.cancel = false ∧ w.failed = false ∧ queue'.active = true ∧
        w'.forwards = false ∨
      w.serves = true ∧ queue'.active = queue.active ∧
        (w'.forwards = true → w.forwards = true ∨ w.point = .configuring 0) := by
  obtain ⟨hwhere, hcancel', hfailed'⟩ := (serves_iff w').mp hserves
  by_cases hforwards : w.forwards = true
  · obtain ⟨hactive, hcancel, hfailed⟩ := step_forwards h hforwards
    rw [hcancel] at hcancel'
    have hbefore : w.serves = true :=
      (serves_iff w).mpr ⟨.inl hforwards, hcancel', hfailed hfailed'⟩
    exact .inr ⟨hbefore, hactive, fun _ => .inl hforwards⟩
  · by_cases hconfiguring : ∃ left, w.point = .configuring left
    · obtain ⟨left, hpoint⟩ := hconfiguring
      obtain ⟨rfl, hcancel, hfailed⟩ := step_configuring h hpoint
      rw [hcancel] at hcancel'
      have hbefore : w.serves = true :=
        (serves_iff w).mpr ⟨.inr ⟨left, hpoint⟩, hcancel', (hfailed hfailed').1⟩
      refine .inr ⟨hbefore, rfl, fun hloop => .inr ?_⟩
      rw [hpoint, (hfailed hfailed').2 hloop]
    · -- The other points do not serve after their step, but for the activation.
      obtain ⟨point, cancel, failed, commands⟩ := w
      cases point with
      | opened =>
          obtain ⟨rfl, rfl⟩ := Prod.mk.inj (Option.some.inj h)
          exact .inl ⟨rfl, hcancel', hfailed', rfl, rfl⟩
      | opening =>
          cases outcome with
          | ok n =>
              obtain ⟨rfl, rfl⟩ := Prod.mk.inj (Option.some.inj h)
              simp [forwards] at hwhere
          | error =>
              obtain ⟨rfl, rfl⟩ := Prod.mk.inj (Option.some.inj h)
              simp [forwards] at hwhere
      | deactivating =>
          obtain ⟨rfl, rfl⟩ := Prod.mk.inj (Option.some.inj h)
          simp [forwards] at hwhere
      | clearing =>
          obtain ⟨rfl, rfl⟩ := Prod.mk.inj (Option.some.inj h)
          simp [forwards] at hwhere
      | ended => simp [step] at h
      | configuring left => exact absurd ⟨left, rfl⟩ hconfiguring
      | _ => exact absurd rfl hforwards

end SerialWorker

namespace SerialSystem

/-- The change of worker is orderly. The newest worker, unless it is cancelled or has failed,
activates the queue only when no earlier worker is still to switch it off, and enters its loop only
when none is still to clear it. No earlier worker opens its port while the newest one serves. -/
def orderly (s : SerialSystem) : SerialEvent → Bool
  | .work i outcome =>
    match s.workers[i]?, s.workers.getLast? with
    | some w, some newest =>
      if i + 1 = s.workers.length then
        match w.point with
        | .opened => w.cancel || w.failed || s.workers.dropLast.all (·.detached)
        | .configuring 0 => w.cancel || w.failed || s.workers.dropLast.all (·.atRest)
        | _ => true
      else !(newest.serves && w.point = .opening && outcome ≠ .error)
    | _, _ => true
  | _ => true

/-- The newest worker, while it forwards and has neither been cancelled nor failed, has the queue
for itself: the queue is active, no push is discarded, and no step of an earlier worker changes
the flag or the blocks. -/
def Undisturbed (s : SerialSystem) : Prop :=
  ∀ n newest, n + 1 = s.workers.length → s.workers[n]? = some newest →
    newest.forwards = true → newest.cancel = false → newest.failed = false →
    s.queue.active = true ∧ (∀ bytes, (s.queue.push bytes).2 ≠ .inactive) ∧
      ∀ i outcome s', i < n → s.next (.work i outcome) = some s' →
        s'.queue.active = s.queue.active ∧ s'.queue.q = s.queue.q

/-- While the newest worker serves, the queue is active and the earlier workers are detached. Once
it forwards they are at rest. -/
def Sole (s : SerialSystem) : Prop :=
  ∀ n newest, n + 1 = s.workers.length → s.workers[n]? = some newest → newest.serves = true →
    s.queue.active = true ∧ ∀ i w, i < n → s.workers[i]? = some w →
      w.detached = true ∧ (newest.forwards = true → w.atRest = true)

/-- A worker that serves alone is undisturbed. -/
theorem Sole.undisturbed {s : SerialSystem} (h : Sole s) : Undisturbed s := by
  intro n newest hlength hnewest hforwards hcancel hfailed
  obtain ⟨hactive, hearlier⟩ :=
    h n newest hlength hnewest ((newest.serves_iff).mpr ⟨.inl hforwards, hcancel, hfailed⟩)
  refine ⟨hactive, fun bytes hpush => ?_, fun i outcome s' hi hnext => ?_⟩
  · rw [CorrQueue.push_inactive_iff, hactive] at hpush
    cases hpush
  · have hw : i < s.workers.length := by omega
    have hget := List.getElem?_eq_getElem hw
    have hrest := (hearlier i _ hi hget).2 hforwards
    simp only [next, hget, Option.map_eq_some_iff, Prod.exists] at hnext
    obtain ⟨w', queue', hstep, rfl⟩ := hnext
    rw [SerialWorker.step_at_rest hstep hrest]
    exact ⟨rfl, rfl⟩

/-- What the newest worker's own step needs to keep it alone. -/
theorem sole_newest {s : SerialSystem} {n : Nat} {w w' : SerialWorker} {queue' : CorrQueue}
    {outcome : PortOutcome} (h : Sole s) (hallowed : s.orderly (.work n outcome) = true)
    (hlength : n + 1 = s.workers.length) (hw : s.workers[n]? = some w)
    (hstep : w.step s.queue outcome = some (w', queue')) (hserves : w'.serves = true) :
    queue'.active = true ∧ ∀ i v, i < n → s.workers[i]? = some v →
      v.detached = true ∧ (w'.forwards = true → v.atRest = true) := by
  have hmem : ∀ {i v}, i < n → s.workers[i]? = some v → v ∈ s.workers.dropLast := by
    intro i v hi hv
    refine List.mem_of_getElem? (i := i) ?_
    rw [List.getElem?_dropLast, if_pos (by omega)]
    exact hv
  have hlast : s.workers.getLast? = some w := by
    rw [List.getLast?_eq_getElem?, ← hlength]
    exact hw
  simp only [orderly, hw, hlast, hlength, if_true] at hallowed
  rcases SerialWorker.step_serves hstep hserves with
    ⟨hopened, hcancel, hfailed, hactive, hforwards⟩ | ⟨hbefore, hactive, hforwards⟩
  · -- The worker activates the queue: the guard has looked at the others.
    simp only [hopened, hcancel, hfailed, Bool.false_or, List.all_eq_true] at hallowed
    refine ⟨hactive, fun i v hi hv => ⟨hallowed v (hmem hi hv), fun hf => ?_⟩⟩
    rw [hforwards] at hf
    cases hf
  · obtain ⟨hqueue, hearlier⟩ := h n w hlength hw hbefore
    refine ⟨hactive.trans hqueue, fun i v hi hv => ⟨(hearlier i v hi hv).1, fun hf => ?_⟩⟩
    rcases hforwards hf with hloop | hzero
    · exact (hearlier i v hi hv).2 hloop
    · -- The worker enters its loop: the guard has looked again.
      obtain ⟨-, hcancel, hfailed⟩ := (w.serves_iff).mp hbefore
      simp only [hzero, hcancel, hfailed, Bool.false_or, List.all_eq_true] at hallowed
      exact hallowed v (hmem hi hv)

/-- What an earlier worker's step leaves of the newest worker's session. -/
theorem sole_earlier {s : SerialSystem} {i n : Nat} {v v' newest : SerialWorker}
    {queue' : CorrQueue} {outcome : PortOutcome} (h : Sole s)
    (hallowed : s.orderly (.work i outcome) = true) (hlength : n + 1 = s.workers.length)
    (hi : i < n) (hv : s.workers[i]? = some v) (hnewest : s.workers[n]? = some newest)
    (hstep : v.step s.queue outcome = some (v', queue')) (hserves : newest.serves = true) :
    queue'.active = true ∧ v'.atRest = true := by
  obtain ⟨hqueue, hearlier⟩ := h n newest hlength hnewest hserves
  have hlast : s.workers.getLast? = some newest := by
    rw [List.getLast?_eq_getElem?, ← hlength]
    exact hnewest
  have hne : i + 1 ≠ s.workers.length := by omega
  have hopen : v.point = .opening → outcome = .error := by
    intro hpoint
    by_contra herror
    simp [orderly, hv, hlast, hne, hserves, hpoint, herror] at hallowed
  obtain ⟨hrest, hactive⟩ := SerialWorker.step_detached hstep (hearlier i v hi hv).1 hopen
  exact ⟨hactive.trans hqueue, hrest⟩

/-- What one event does to the workers and the queue: a worker is spawned, a cancel flag is set,
the workers stay as they are, or one of them takes a step. -/
theorem next_cases {s s' : SerialSystem} {e : SerialEvent} (h : s.next e = some s') :
    (∃ autoconfig, s'.workers = s.workers ++ [SerialWorker.spawn autoconfig]) ∨
      (∃ i w, s.workers[i]? = some w ∧ s'.workers = s.workers.set i { w with cancel := true } ∧
        s'.queue = s.queue) ∨
      (s'.workers = s.workers ∧ s'.queue.active = s.queue.active) ∨
      ∃ i outcome w w', e = .work i outcome ∧ s.workers[i]? = some w ∧
        w.step s.queue outcome = some (w', s'.queue) ∧ s'.workers = s.workers.set i w' := by
  cases e with
  | start autoconfig =>
      simp only [next] at h
      split at h
      · obtain rfl := Option.some.inj h
        exact .inl ⟨autoconfig, rfl⟩
      · cases h
  | stop =>
      simp only [next] at h
      split at h
      · split at h
        · next w hw =>
            obtain rfl := Option.some.inj h
            exact .inr (.inl ⟨_, w, hw, rfl, rfl⟩)
        · cases h
      · cases h
  | joined =>
      obtain ⟨_, _, rfl⟩ := Option.map_eq_some_iff.mp h
      exact .inr (.inr (.inl ⟨rfl, rfl⟩))
  | reap =>
      simp only [next] at h
      split at h
      · split at h
        · split at h
          · obtain rfl := Option.some.inj h
            exact .inr (.inr (.inl ⟨rfl, rfl⟩))
          · cases h
        · cases h
      · cases h
  | push bytes =>
      obtain rfl := Option.some.inj h
      exact .inr (.inr (.inl ⟨rfl, s.queue.push_active bytes⟩))
  | work i outcome =>
      simp only [next] at h
      split at h
      · next w hw =>
          obtain ⟨⟨w', queue'⟩, hstep, rfl⟩ := Option.map_eq_some_iff.mp h
          exact .inr (.inr (.inr ⟨i, outcome, w, w', rfl, hw, hstep, rfl⟩))
      · cases h

/-- An orderly event keeps the newest worker alone. -/
theorem sole_next {s s' : SerialSystem} {e : SerialEvent} (h : Sole s)
    (hallowed : s.orderly e = true) (hnext : s.next e = some s') : Sole s' := by
  intro n newest hlength hnewest hserves
  rcases next_cases hnext with ⟨autoconfig, hworkers⟩ | ⟨i, w, hw, hworkers, hqueue⟩ |
    ⟨hworkers, hqueue⟩ | ⟨i, outcome, w, w', rfl, hw, hstep, hworkers⟩
  · -- The newest worker has just been spawned and is still to open its port.
    rw [hworkers, List.length_append, List.length_singleton] at hlength
    obtain rfl : n = s.workers.length := by omega
    rw [hworkers, List.getElem?_concat_length] at hnewest
    obtain rfl := Option.some.inj hnewest
    simp [SerialWorker.serves_iff, SerialWorker.spawn, SerialWorker.forwards] at hserves
  · rw [hworkers, List.length_set] at hlength
    rw [hworkers] at hnewest ⊢
    have hi : i < s.workers.length := (List.getElem?_eq_some_iff.mp hw).1
    by_cases hin : i = n
    · -- The newest worker is cancelled.
      subst hin
      rw [List.getElem?_set_self hi] at hnewest
      obtain rfl := Option.some.inj hnewest
      simp [SerialWorker.serves_iff] at hserves
    · rw [List.getElem?_set_ne hin] at hnewest
      obtain ⟨hactive, hearlier⟩ := h n newest hlength hnewest hserves
      refine ⟨by rw [hqueue, hactive], fun j v hj hv => ?_⟩
      by_cases hij : i = j
      · subst hij
        rw [List.getElem?_set_self hi] at hv
        obtain rfl := Option.some.inj hv
        exact hearlier i w hj hw
      · rw [List.getElem?_set_ne hij] at hv
        exact hearlier j v hj hv
  · rw [hworkers] at hlength hnewest ⊢
    rw [hqueue]
    exact h n newest hlength hnewest hserves
  · rw [hworkers, List.length_set] at hlength
    rw [hworkers] at hnewest ⊢
    have hi : i < s.workers.length := (List.getElem?_eq_some_iff.mp hw).1
    by_cases hin : i = n
    · subst hin
      rw [List.getElem?_set_self hi] at hnewest
      obtain rfl := Option.some.inj hnewest
      obtain ⟨hactive, hearlier⟩ := sole_newest h hallowed hlength hw hstep hserves
      refine ⟨hactive, fun j v hj hv => ?_⟩
      rw [List.getElem?_set_ne (by omega)] at hv
      exact hearlier j v hj hv
    · rw [List.getElem?_set_ne hin] at hnewest
      obtain ⟨hactive, hrest⟩ :=
        sole_earlier h hallowed hlength (by omega) hw hnewest hstep hserves
      refine ⟨hactive, fun j v hj hv => ?_⟩
      by_cases hij : i = j
      · subst hij
        rw [List.getElem?_set_self hi] at hv
        obtain rfl := Option.some.inj hv
        exact ⟨by simp [SerialWorker.detached, hrest], fun _ => hrest⟩
      · rw [List.getElem?_set_ne hij] at hv
        exact (h n newest hlength hnewest hserves).2 j v hj hv

/-- In every run of orderly changes of worker, the newest worker is undisturbed. -/
theorem undisturbed_of_orderly {cap : Nat} {s : SerialSystem}
    (h : Reachable next orderly (init cap) s) : Undisturbed s := by
  have hinit : Sole (init cap) := by
    intro n newest hlength
    simp [init] at hlength
  exact (h.invariant hinit fun _ _ _ hs hallowed hnext => sole_next hs hallowed hnext).undisturbed

/-- A worker is stopped in its loop and ends, and its successor forwards a block. -/
def orderlyChange : List SerialEvent :=
  .start false :: List.replicate 3 (.work 0 (.ok 0)) ++ [.stop] ++
    List.replicate 3 (.work 0 (.ok 0)) ++ [.joined, .start false] ++
    List.replicate 5 (.work 1 (.ok 0)) ++ [.push [0xD3], .work 1 (.ok 0), .work 1 (.ok 0)]

theorem undisturbed_of_orderly_example :
    ∃ s : SerialSystem, Reachable next orderly (init 256) s ∧ Undisturbed s ∧
      s.workers.map (·.point) = [.ended, .sending [0xD3]] := by
  obtain ⟨s, hs, hpoints⟩ := reachable_of_exec next orderly (init 256) orderlyChange
    (p := fun s => s.workers.map (·.point) = [.ended, .sending [0xD3]]) (by decide)
  exact ⟨s, hs, undisturbed_of_orderly hs, of_decide_eq_true hpoints⟩

/-- The port of a worker takes longer to open than its stop waits. Its successor already forwards
when the port opens after all. -/
def slowOpen : List SerialEvent :=
  [.start false, .stop, .joined, .start false] ++ List.replicate 3 (.work 1 (.ok 0)) ++
    List.replicate 5 (.work 0 (.ok 0))

/-- The late worker switches the queue off while its successor forwards. -/
theorem successor_disturbed :
    ¬ ∀ cap s, Reachable next (fun _ _ => true) (init cap) s → Undisturbed s := by
  intro h
  obtain ⟨s, hs, hend⟩ := reachable_of_exec next (fun _ _ => true) (init 256) slowOpen
    (p := fun s => s.queue.active = false ∧ s.workers.length = 2 ∧
      s.workers[1]? = some ⟨.looping, false, false, 0⟩) (by decide)
  obtain ⟨hinactive, hlength, hnewest⟩ := of_decide_eq_true hend
  have hactive := (h 256 s hs 1 _ (by omega) hnewest rfl rfl rfl).1
  rw [hinactive] at hactive
  cases hactive

end SerialSystem
end OpenNtrip
