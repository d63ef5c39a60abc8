import OpenNtrip.App.SerialHandover

/-!
# What a disorderly change of worker leads to

`orderly` forbids no more than it must: after every event that it forbids, the workers can go on so
that the newest one is disturbed (`disturbed_of_disorderly`). The late worker switches the queue off
as soon as its port fails, and the newest one enters its loop.
-/

namespace OpenNtrip

open StepSystem

namespace SerialWorker

/-- A worker alone with the queue. -/
def turn (state : SerialWorker × CorrQueue) (outcome : PortOutcome) :
    Option (SerialWorker × CorrQueue) :=
  state.1.step state.2 outcome

/-- A bound on the steps a worker takes to `clearing` if every call of its port fails. The queue
counts, as a worker pops empty blocks without calling the port. -/
def toGo (state : SerialWorker × CorrQueue) : Nat :=
  match state.1.point with
  | .opening | .clearing | .ended => 0
  | .deactivating => 1
  | .sending _ => 2
  | .reading => 3
  | .popping => 5 + 3 * state.2.q.length
  | .draining => 6 + 3 * state.2.q.length
  | .writing _ => 7 + 3 * state.2.q.length
  | .looping => if state.1.failed then 2 else 8 + 3 * state.2.q.length
  | .configuring _ => 9 + 3 * state.2.q.length
  | .opened => 10 + 3 * state.2.q.length

/-- A worker whose port fails has switched the queue off, or comes closer to it. -/
theorem turn_closer (state : SerialWorker × CorrQueue) (h : state.1.detached = false) :
    ∃ state', turn state .error = some state' ∧
      ((state'.1.point = .clearing ∧ state'.2.active = false) ∨
        state'.1.detached = false ∧ toGo state' < toGo state) := by
  obtain ⟨⟨point, cancel, failed, commands⟩, queue⟩ := state
  cases point with
  | opening => simp [detached, atRest] at h
  | opened => exact ⟨_, rfl, .inr ⟨rfl, by simp [toGo, CorrQueue.storeActive]⟩⟩
  | configuring left =>
      cases left with
      | zero =>
          refine ⟨_, rfl, .inr ⟨rfl, ?_⟩⟩
          cases failed with
          | false => simp [toGo]
          | true => simp only [toGo, if_true]; omega
      | succ left => exact ⟨_, rfl, .inr ⟨rfl, by simp only [toGo, if_true]; omega⟩⟩
  | looping =>
      cases failed with
      | true => exact ⟨_, rfl, .inr ⟨rfl, by simp [toGo]⟩⟩
      | false =>
          cases cancel with
          | true => exact ⟨_, rfl, .inr ⟨rfl, by simp [toGo]; omega⟩⟩
          | false => exact ⟨_, rfl, .inr ⟨rfl, by simp [toGo]⟩⟩
  | draining =>
      cases cancel with
      | true => exact ⟨_, rfl, .inr ⟨rfl, by simp [toGo]; omega⟩⟩
      | false => exact ⟨_, rfl, .inr ⟨rfl, by simp [toGo]⟩⟩
  | popping =>
      cases hpop : queue.tryPop with
      | mk queue' block =>
          cases block with
          | none =>
              refine ⟨(⟨.reading, cancel, failed, commands⟩, queue'), ?_, .inr ⟨rfl, ?_⟩⟩
              · simp only [turn, step, hpop]
              · simp only [toGo]
                omega
          | some block =>
              -- The block may be empty, so only the shorter queue brings the worker closer.
              have hlength := congrArg List.length (CorrQueue.try_pop_some hpop).1
              rw [List.length_cons] at hlength
              refine ⟨(⟨.writing block, cancel, failed, commands⟩, queue'), ?_, .inr ⟨rfl, ?_⟩⟩
              · simp only [turn, step, hpop]
              · simp only [toGo]
                omega
  | writing rest =>
      cases hstop : rest.isEmpty || cancel with
      | true =>
          refine ⟨(⟨.draining, cancel, failed, commands⟩, queue), ?_, .inr ⟨rfl, ?_⟩⟩
          · simp only [turn, step, hstop, if_true]
          · simp only [toGo]
            omega
      | false =>
          refine ⟨(⟨.sending rest, cancel, failed, commands⟩, queue), ?_, .inr ⟨rfl, ?_⟩⟩
          · simp only [turn, step, hstop, Bool.false_eq_true, if_false]
          · simp only [toGo]
            omega
  | sending rest => exact ⟨_, rfl, .inr ⟨rfl, by simp [toGo]⟩⟩
  | reading => exact ⟨_, rfl, .inr ⟨rfl, by simp [toGo]⟩⟩
  | deactivating => exact ⟨_, rfl, .inl ⟨rfl, rfl⟩⟩
  | clearing => simp [detached] at h
  | ended => simp [detached, atRest] at h

/-- A worker that is not detached can switch the queue off. -/
theorem switches_off (w : SerialWorker) (queue : CorrQueue) (h : w.detached = false) :
    ∃ state, Reachable turn (fun _ _ => true) (w, queue) state ∧
      state.1.point = .clearing ∧ state.2.active = false := by
  refine reachable_of_rank toGo (·.1.detached = false)
    (fun state => state.1.point = .clearing ∧ state.2.active = false) ?_ (w, queue) h
  intro state hstate
  obtain ⟨state', hturn, hcloser⟩ := turn_closer state hstate
  exact ⟨.error, state', rfl, hturn, hcloser⟩

/-- A worker that serves can enter its loop. -/
theorem enters_loop (w : SerialWorker) (queue : CorrQueue) (h : w.serves = true) :
    ∃ w', Reachable turn (fun _ _ => true) (w, queue) (w', queue) ∧ w'.serves = true ∧
      w'.forwards = true := by
  obtain ⟨hforwards | ⟨left, hpoint⟩, hcancel, hfailed⟩ := (serves_iff w).mp h
  · exact ⟨w, .refl, h, hforwards⟩
  · induction left generalizing w with
    | zero =>
        have hstep : turn (w, queue) (.ok 0) = some ({ w with point := .looping }, queue) := by
          simp only [turn, step, hpoint]
        exact ⟨_, Reachable.refl.step rfl hstep,
          (serves_iff _).mpr ⟨.inl rfl, hcancel, hfailed⟩, rfl⟩
    | succ left ih =>
        obtain ⟨w', hreach, hloop⟩ := ih { w with point := .configuring left }
          ((serves_iff _).mpr ⟨.inr ⟨left, rfl⟩, hcancel, hfailed⟩) rfl hcancel hfailed
        have hstep : turn (w, queue) (.ok 0) =
            some ({ w with point := .configuring left }, queue) := by
          simp only [turn, step, hpoint]
        exact ⟨w', (Reachable.refl.step rfl hstep).trans hreach, hloop⟩

end SerialWorker

namespace SerialSystem

/-- What a worker does alone with the queue, it does as well among others. -/
theorem reachable_work {s : SerialSystem} {i : Nat} {w : SerialWorker}
    {state : SerialWorker × CorrQueue} (hw : s.workers[i]? = some w)
    (h : Reachable SerialWorker.turn (fun _ _ => true) (w, s.queue) state) :
    Reachable next (fun _ _ => true) s
      { s with workers := s.workers.set i state.1, queue := state.2 } := by
  have hi : i < s.workers.length := (List.getElem?_eq_some_iff.mp hw).1
  induction h with
  | refl =>
      have hset : s.workers.set i w = s.workers := by
        rw [← (List.getElem?_eq_some_iff.mp hw).2, List.set_getElem_self]
      simp only [hset]
      exact .refl
  | @step before after outcome _ _ hturn ih =>
      refine ih.step (e := .work i outcome) rfl ?_
      simp only [SerialWorker.turn] at hturn
      simp only [next, List.getElem?_set_self hi, hturn, Option.map_some, List.set_set]

/-- The newest worker serves and is at index `n`. -/
def NewestServes (s : SerialSystem) (n : Nat) (newest : SerialWorker) : Prop :=
  n + 1 = s.workers.length ∧ s.workers[n]? = some newest ∧ newest.serves = true

/-- A state is not undisturbed if its newest worker forwards from an inactive queue. -/
theorem disturbed_of_inactive {s : SerialSystem} {n : Nat} {newest : SerialWorker}
    (h : NewestServes s n newest) (hforwards : newest.forwards = true)
    (hinactive : s.queue.active = false) : ¬ Undisturbed s := by
  intro hs
  obtain ⟨hlength, hnewest, hserves⟩ := h
  obtain ⟨-, hcancel, hfailed⟩ := (newest.serves_iff).mp hserves
  have hactive := (hs n newest hlength hnewest hforwards hcancel hfailed).1
  rw [hinactive] at hactive
  cases hactive

/-- While the newest worker serves, an earlier one that is not detached can disturb it. -/
theorem disturbed_of_attached {s : SerialSystem} {i n : Nat} {v newest : SerialWorker}
    (h : NewestServes s n newest) (hi : i < n) (hv : s.workers[i]? = some v)
    (hattached : v.detached = false) :
    ∃ t, Reachable next (fun _ _ => true) s t ∧ ¬ Undisturbed t := by
  obtain ⟨hlength, hnewest, hserves⟩ := h
  obtain ⟨⟨v', queue'⟩, hoff, -, hinactive⟩ := v.switches_off s.queue hattached
  obtain ⟨newest', hloop, hserves', hforwards⟩ := newest.enters_loop queue' hserves
  have hlate := reachable_work hv hoff
  have hnewest' : (s.workers.set i v')[n]? = some newest := by
    rw [List.getElem?_set_ne (by omega), hnewest]
  have henter := reachable_work (s := { s with workers := s.workers.set i v', queue := queue' })
    hnewest' hloop
  refine ⟨_, hlate.trans henter, disturbed_of_inactive (n := n) ?_ hforwards
    hinactive⟩
  refine ⟨?_, ?_, hserves'⟩
  · simpa only [List.length_set] using hlength
  · exact List.getElem?_set_self (by rw [List.length_set]; omega)

/-- While the newest worker forwards, an earlier one that is still to clear the queue can disturb
it: it discards what is pushed before. -/
theorem disturbed_of_clearing {s : SerialSystem} {i n : Nat} {v newest : SerialWorker}
    (h : NewestServes s n newest) (hforwards : newest.forwards = true) (hi : i < n)
    (hv : s.workers[i]? = some v) (hclearing : v.point = .clearing) :
    ∃ t, Reachable next (fun _ _ => true) s t ∧ ¬ Undisturbed t := by
  cases hactive : s.queue.active with
  | false => exact ⟨s, .refl, disturbed_of_inactive h hforwards hactive⟩
  | true =>
      let t : SerialSystem := { s with queue := (s.queue.push [0]).1 }
      have hpush : s.next (.push [0]) = some t := rfl
      refine ⟨t, Reachable.refl.step rfl hpush, fun ht => ?_⟩
      obtain ⟨hlength, hnewest, hserves⟩ := h
      obtain ⟨-, hcancel, hfailed⟩ := (newest.serves_iff).mp hserves
      have hstep : t.next (.work i .error) =
          some { t with workers := t.workers.set i { v with point := .ended }
                        queue := t.queue.clear } := by
        simp only [next, t, hv, SerialWorker.step, hclearing, Option.map_some]
      have hq := ((ht n newest hlength hnewest hforwards hcancel hfailed).2.2 i _ _ hi hstep).2
      exact s.queue.push_ne_nil [0] hactive hq.symm

theorem earlier_of_mem_dropLast {s : SerialSystem} {n : Nat} {v : SerialWorker}
    (hlength : n + 1 = s.workers.length) (h : v ∈ s.workers.dropLast) :
    ∃ j, j < n ∧ s.workers[j]? = some v := by
  obtain ⟨j, hj⟩ := List.mem_iff_getElem?.mp h
  rw [List.getElem?_dropLast] at hj
  split at hj
  · exact ⟨j, by omega, hj⟩
  · cases hj

/-- The newest worker serves after its own step. -/
theorem newest_serves_set {s : SerialSystem} {n : Nat} {w : SerialWorker} (queue : CorrQueue)
    (hlength : n + 1 = s.workers.length) (h : w.serves = true) :
    NewestServes { s with workers := s.workers.set n w, queue } n w := by
  refine ⟨?_, ?_, h⟩
  · simpa only [List.length_set] using hlength
  · exact List.getElem?_set_self (by omega)

/-- The newest worker goes on while an earlier one is not at rest. -/
theorem disturbed_of_newest {s : SerialSystem} {j n : Nat} {v w : SerialWorker} (queue : CorrQueue)
    (hlength : n + 1 = s.workers.length) (hserves : w.serves = true) (hj : j < n)
    (hv : s.workers[j]? = some v) (hbusy : w.forwards = false ∧ v.detached = false ∨
      w.forwards = true ∧ v.atRest = false) :
    ∃ t, Reachable next (fun _ _ => true) { s with workers := s.workers.set n w, queue } t ∧
      ¬ Undisturbed t := by
  have hnewest := newest_serves_set queue hlength hserves
  have hv' : (s.workers.set n w)[j]? = some v := by
    rw [List.getElem?_set_ne (by omega), hv]
  cases hattached : v.detached with
  | false => exact disturbed_of_attached hnewest hj hv' hattached
  | true =>
      rcases hbusy with ⟨-, hbusy⟩ | ⟨hforwards, hbusy⟩
      · rw [hattached] at hbusy
        cases hbusy
      · simp only [SerialWorker.detached, hbusy, Bool.false_or, decide_eq_true_eq] at hattached
        exact disturbed_of_clearing hnewest hforwards hj hv' hattached

/-- The three disorderly steps: the newest worker activates the queue or enters its loop too early,
or an earlier one opens its port too late. -/
theorem disorderly_cases {s : SerialSystem} {e : SerialEvent} (h : s.orderly e = false) :
    ∃ i outcome w, e = .work i outcome ∧ s.workers[i]? = some w ∧
      (i + 1 = s.workers.length ∧ w.cancel = false ∧ w.failed = false ∧
          (∃ j v, j < i ∧ s.workers[j]? = some v ∧
            (w.point = .opened ∧ v.detached = false ∨
              w.point = .configuring 0 ∧ v.atRest = false)) ∨
        ∃ n newest, NewestServes s n newest ∧ i < n ∧ w.point = .opening ∧ outcome ≠ .error) := by
  cases e with
  | work i outcome =>
      simp only [orderly] at h
      split at h
      · next w newest hw hnewest =>
          refine ⟨i, outcome, w, rfl, hw, ?_⟩
          have hi : i < s.workers.length := (List.getElem?_eq_some_iff.mp hw).1
          split at h
          · next hlast =>
              split at h
              · next hpoint =>
                  simp only [Bool.or_eq_false_iff, List.all_eq_false] at h
                  obtain ⟨⟨hcancel, hfailed⟩, v, hv, hattached⟩ := h
                  obtain ⟨j, hj, hv⟩ := earlier_of_mem_dropLast hlast hv
                  exact .inl ⟨hlast, hcancel, hfailed, j, v, hj, hv,
                    .inl ⟨hpoint, Bool.eq_false_of_not_eq_true hattached⟩⟩
              · next hpoint =>
                  simp only [Bool.or_eq_false_iff, List.all_eq_false] at h
                  obtain ⟨⟨hcancel, hfailed⟩, v, hv, hbusy⟩ := h
                  obtain ⟨j, hj, hv⟩ := earlier_of_mem_dropLast hlast hv
                  exact .inl ⟨hlast, hcancel, hfailed, j, v, hj, hv,
                    .inr ⟨hpoint, Bool.eq_false_of_not_eq_true hbusy⟩⟩
              · cases h
          · next hearlier =>
              simp only [Bool.not_eq_false', Bool.and_eq_true, decide_eq_true_eq] at h
              obtain ⟨⟨hserves, hpoint⟩, hopen⟩ := h
              rw [List.getLast?_eq_getElem?] at hnewest
              exact .inr ⟨_, newest, ⟨by omega, hnewest, hserves⟩, by omega, hpoint, hopen⟩
      · cases h
  | _ => simp [orderly] at h

/-- After every disorderly event the newest worker can be disturbed. -/
theorem disturbed_of_disorderly {s s' : SerialSystem} {e : SerialEvent}
    (h : s.orderly e = false) (hnext : s.next e = some s') :
    ∃ t, Reachable next (fun _ _ => true) s' t ∧ ¬ Undisturbed t := by
  obtain ⟨i, outcome, w, rfl, hw, hcase⟩ := disorderly_cases h
  simp only [next, hw, Option.map_eq_some_iff, Prod.exists] at hnext
  obtain ⟨w', queue', hstep, rfl⟩ := hnext
  rcases hcase with ⟨hlast, hcancel, hfailed, j, v, hj, hv, hearly⟩ |
    ⟨n, newest, ⟨hlength, hnewest, hserves⟩, hi, hpoint, hopen⟩
  · rcases hearly with ⟨hpoint, hattached⟩ | ⟨hpoint, hbusy⟩
    · simp only [SerialWorker.step, hpoint] at hstep
      obtain ⟨rfl, rfl⟩ := Prod.mk.inj (Option.some.inj hstep)
      exact disturbed_of_newest _ hlast
        ((SerialWorker.serves_iff _).mpr ⟨.inr ⟨_, rfl⟩, hcancel, hfailed⟩) hj hv
        (.inl ⟨rfl, hattached⟩)
    · simp only [SerialWorker.step, hpoint] at hstep
      obtain ⟨rfl, rfl⟩ := Prod.mk.inj (Option.some.inj hstep)
      exact disturbed_of_newest _ hlast
        ((SerialWorker.serves_iff _).mpr ⟨.inl rfl, hcancel, hfailed⟩) hj hv (.inr ⟨rfl, hbusy⟩)
  · cases outcome with
    | ok count =>
        simp only [SerialWorker.step, hpoint] at hstep
        obtain ⟨rfl, rfl⟩ := Prod.mk.inj (Option.some.inj hstep)
        refine disturbed_of_attached (n := n) ⟨?_, ?_, hserves⟩ hi
          (List.getElem?_set_self (by omega)) rfl
        · simpa only [List.length_set] using hlength
        · rw [List.getElem?_set_ne (by omega), hnewest]
    | error => exact absurd rfl hopen

end SerialSystem
end OpenNtrip
