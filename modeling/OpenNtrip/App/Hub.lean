import OpenNtrip.App.Interface

/-!
# The hub

`Hub` of `bus.rs`: where a report goes. Lines are stamped with the local time, once, and the lines
of the event log go to the logger as well. `follow` is the interface that consumes reports, and
`follow_verdict` says which verdict it shows.
-/

namespace OpenNtrip

variable {D Single Double : Type} [Inhabited Single] (render : Rendering Single)

/-- The event that a report is on the bus, if it goes there. -/
def Report.onBus (sentAt : LocalStamp) : Report D Single → Option (HubEvent Single Double)
  | .event line => some (.eventLine (stamp sentAt (line.text render)))
  | .conn line => some (.connLine (stamp sentAt (line.text render)))
  | .post p => p.event.map .stream
  | .lastClose summary => some (.lastClose summary)
  | .sourcetableReady host port table => some (.sourcetableReady host port table)
  | .unknownResponse raw => some (.unknownResponse raw)
  | .trouble verdict => some (.positionTrouble verdict)
  | .capture _ => none
  | .stopped summary failed => some (.stopped summary failed)

/-- The command that a report is to the logger, if it goes there. -/
def Report.toLogger (sentAt : LocalStamp) : Report D Single → Option (LogCmd D)
  | .event line => some (.event (stamp sentAt (line.text render)))
  | .capture cmd => some cmd
  | _ => none

/-- A report, the local time at which it is sent and the time at which the interface consumes it. -/
structure Told (D Single : Type) where
  report : Report D Single
  sentAt : LocalStamp
  seenAt : Instant

/-- What the interface consumes of a report. -/
def Told.entry (t : Told D Single) : Option (Entry Single Double) :=
  (t.report.onBus render t.sentAt).map fun ev => .event ev t.seenAt

namespace Interface

variable (widen : Single → F64) (seconds : Duration → F64)

/-- The interface after it has consumed reports. -/
def follow (i : Interface Single Double) (told : List (Told D Single)) : Interface Single Double :=
  (told.filterMap (Told.entry render)).foldl (step widen seconds) i

theorem follow_append (i : Interface Single Double) (first second : List (Told D Single)) :
    i.follow render widen seconds (first ++ second) =
      (i.follow render widen seconds first).follow render widen seconds second := by
  unfold follow
  rw [List.filterMap_append, List.foldl_append]

/-- A part that each report sets, and no other changes. -/
theorem followed_sets {ρ : Type} (part : Interface Single Double → ρ)
    {set : Report D Single → Option ρ}
    (hset : ∀ i t, part (i.follow render widen seconds [t]) = (set t.report).getD (part i))
    (i : Interface Single Double) (told : List (Told D Single)) :
    part (i.follow render widen seconds told) =
      ((told.filterMap fun t => set t.report).getLast?).getD (part i) := by
  have hfold : ∀ i : Interface Single Double, i.follow render widen seconds told =
      told.foldl (fun i t => i.follow render widen seconds [t]) i := by
    induction told with
    | nil => exact fun _ => rfl
    | cons t rest ih =>
        intro i
        rw [List.foldl_cons, ← ih]
        exact follow_append render widen seconds i [t] rest
  rw [hfold]
  exact Register.last_set part hset i told

/-- What a report makes of the verdict that is shown. -/
def verdict? : Report D Single → Option (Option PositionTrouble)
  | .trouble trouble => some trouble
  | .post (.status .streaming) => some none
  | _ => none

/-- The verdict that is shown is the last one, unless a stream has begun since. -/
theorem follow_verdict (i : Interface Single Double) (told : List (Told D Single)) :
    (i.follow render widen seconds told).ntrip.positionTrouble =
      ((told.filterMap fun t => verdict? t.report).getLast?).getD i.ntrip.positionTrouble := by
  refine followed_sets render widen seconds (fun i => i.ntrip.positionTrouble) (fun i t => ?_) i
    told
  obtain ⟨report, sentAt, seenAt⟩ := t
  cases report with
  | post p =>
      cases p with
      | status status =>
          cases status with
          | _ => rfl
      | _ => rfl
  | _ => rfl

end Interface
end OpenNtrip
