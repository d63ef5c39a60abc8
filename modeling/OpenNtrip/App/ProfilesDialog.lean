import OpenNtrip.App.Profiles
import OpenNtrip.Lib.StepSystem

/-!
# The Profiles window

`ui/profiles_dialog.rs`: the commands of a frame, which name rows of the list, and the two actions
that keep a row beyond their frame, the inline rename and the delete confirmation. `DialogRun` keeps
beside the list which profile each row came from. A rename is always that of the profile it was
begun for. A confirmed delete is that of the profile it was asked for, unless another is moved into
its row meanwhile (`pending_actions_reachable`).
-/

namespace OpenNtrip

open StepSystem

/-- An inline rename in progress. -/
structure Rename where
  index : Nat
  buf : Text
  deriving DecidableEq, Repr

/-- `ViewState`: the selected row, a rename, the row that awaits the delete confirmation, and the
line of feedback. -/
structure ViewState where
  selected : Option Nat := none
  rename : Option Rename := none
  confirmDelete : Option Nat := none
  notice : Option Text := none
  deriving DecidableEq, Repr

/-- `Cmd`: what the widgets and keys of a frame ask for. -/
inductive Cmd where
  | select (i : Nat)
  | activate (i : Nat)
  | new
  | duplicate (i : Nat)
  | importFile
  | exportFile (i : Nat)
  | beginRename (i : Nat)
  | commitRename
  | cancelRename
  | askDelete (i : Nat)
  | move (source target : Nat)
  deriving DecidableEq, Repr

/-- How the user answers the delete confirmation. -/
inductive DeleteAnswer where
  | cancel
  | delete
  deriving DecidableEq, Repr

/-- `delete_block_reason`. -/
def deleteBlockReason (profileCount : Nat) (busy : Bool) : Option Text :=
  if profileCount ≤ 1 then some "The last profile can't be deleted".toList
  else if busy then some "Disconnect to delete profiles".toList
  else none

/-- `activate_block_reason`. -/
def activateBlockReason (busy selectedIsActive : Bool) : Option Text :=
  if selectedIsActive then some "Already the active profile".toList
  else if busy then some "Disconnect to switch profiles".toList
  else none

/-- `selection_after_remove`. -/
def selectionAfterRemove (selected : Option Nat) (removed newLen : Nat) : Option Nat :=
  selected.bind fun s =>
    if newLen = 0 then none
    else some (min (if removed < s then s - 1 else s) (newLen - 1))

namespace Cmd

/-- The rows that a command names. -/
def rows : Cmd → List Nat
  | .select i | .activate i | .duplicate i | .exportFile i | .beginRename i | .askDelete i => [i]
  | .move source target => [source, target]
  | .new | .importFile | .commitRename | .cancelRename => []

/-- A command after which the rest of the frame is dropped. -/
def reshapes : Cmd → Bool
  | .new | .duplicate _ | .move _ _ => true
  | _ => false

/-- A command that leaves a rename alone. -/
def finishesRename : Cmd → Bool
  | .commitRename | .cancelRename => true
  | _ => false

end Cmd

/-- The indices of the view, clamped as at the start of `body`. -/
def ViewState.clamp (view : ViewState) (settings : Settings) : ViewState :=
  let n := settings.profiles.length
  { view with
    selected := some ((view.selected.filter (· < n)).getD settings.activeIndex)
    rename := view.rename.filter (·.index < n)
    confirmDelete := view.confirmDelete.filter (· < n) }

/-- The `CommitRename` of `apply`. -/
def commitRename (settings : Settings) (view : ViewState) : Option (Settings × ViewState) :=
  match view.rename with
  | none => some (settings, view)
  | some r =>
    match checkName settings (some r.index) r.buf, settings.profiles[r.index]? with
    | .error _, _ => some (settings, view)
    | .ok _, none => none
    | .ok name, some p =>
      let view := { view with rename := none }
      if p.name = name then some (settings, view)
      else
        (rename settings r.index name).map fun (settings, renamed) =>
          (settings, if renamed then { view with
            notice := some ("Renamed \"".toList ++ p.name ++ "\" to \"".toList ++ name ++
              "\".".toList) } else view)

/-- `apply`. It panics, at `none`, on a row that the list does not have. -/
def applyCmd (settings : Settings) (view : ViewState) (busy : Bool) (cmd : Cmd) :
    Option (Settings × ViewState) :=
  let view := if cmd.finishesRename then view else { view with rename := none }
  match cmd with
  | .select i => some (settings, { view with selected := some i, notice := none })
  | .activate i =>
    (settings.profiles[i]?).map fun p =>
      let view := { view with selected := some i }
      match activateBlockReason busy (p.name = settings.activeProfile) with
      | some why => (settings, { view with notice := some why })
      | none =>
        let (settings, switched) := activate settings i
        (settings, if switched then { view with
          notice := some ("Now using \"".toList ++ p.name ++ "\".".toList) } else view)
  | .new | .importFile => some (settings, { view with notice := none })
  | .duplicate i | .exportFile i =>
    (settings.profiles[i]?).map fun _ =>
      (settings, { view with selected := some i, notice := none })
  | .beginRename i =>
    (settings.profiles[i]?).map fun p =>
      (settings, { view with
        selected := some i
        notice := none
        rename := some ⟨i, p.name⟩
        confirmDelete := none })
  | .commitRename => commitRename settings view
  | .cancelRename => some (settings, { view with rename := none })
  | .askDelete i =>
    let view := { view with selected := some i }
    some (settings, if (deleteBlockReason settings.profiles.length busy).isNone then
      { view with confirmDelete := some i } else view)
  | .move source target =>
    let (settings, moved) := moveProfile settings source target
    some (settings, if moved then { view with selected := some target } else view)

/-- `delete_modal`. The button that deletes is enabled unless there is a reason against it. -/
def deleteModal (settings : Settings) (view : ViewState) (busy : Bool)
    (answer : Option DeleteAnswer) : Settings × ViewState :=
  match view.confirmDelete with
  | none => (settings, view)
  | some i =>
    match settings.profiles[i]? with
    | none => (settings, { view with confirmDelete := none })
    | some p =>
      match answer, deleteBlockReason settings.profiles.length busy with
      | some .cancel, _ => (settings, { view with confirmDelete := none })
      | some .delete, none =>
        let view := { view with confirmDelete := none }
        let (after, removed) := remove settings i
        let deleted := "Deleted \"".toList ++ p.name ++ "\"".toList
        (after, if removed then { view with
          selected := selectionAfterRemove view.selected i after.profiles.length
          notice := some (if after.activeProfile = settings.activeProfile then
              deleted ++ ".".toList
            else deleted ++ " - now using \"".toList ++ after.activeProfile ++ "\".".toList) }
        else view)
      | _, _ => (settings, view)

/-- The row that the delete confirmation removes. -/
def removedRow (settings : Settings) (view : ViewState) (busy : Bool)
    (answer : Option DeleteAnswer) : Option Nat :=
  match view.confirmDelete, answer, deleteBlockReason settings.profiles.length busy with
  | some i, some .delete, none => if i < settings.profiles.length then some i else none
  | _, _, _ => none

/-! ## Runs -/

/-- The window, and what is told of it: the profile that each row came from, by its position at the
start, the profile that the pending delete was asked for and the one that the pending rename was
begun for, and for each delete and rename that was carried out the profile meant and the profile
affected. -/
structure DialogRun where
  settings : Settings
  view : ViewState
  rows : List Nat
  asked : Option Nat
  begun : Option Nat
  removals : List (Option Nat × Option Nat)
  renames : List (Option Nat × Option Nat)

/-- A frame: what the user types into the field of the rename, the commands, whether a connection is
live, the answer to the delete confirmation, and whether the window closes. -/
structure DialogFrame where
  typed : Option Text
  cmds : List Cmd
  busy : Bool
  answer : Option DeleteAnswer
  closes : Bool
  deriving DecidableEq, Repr

namespace DialogRun

/-- The window in any state. A delete that is pending was asked for the profile in its row, and so
was a rename begun, unless a delete is pending as well. -/
def start (settings : Settings) (view : ViewState) : DialogRun where
  settings
  view
  rows := List.range settings.profiles.length
  asked := view.confirmDelete.bind ((List.range settings.profiles.length)[·]?)
  begun :=
    if view.confirmDelete.isSome then none
    else view.rename.bind fun r => (List.range settings.profiles.length)[r.index]?
  removals := []
  renames := []

/-- The start of a frame. -/
def begin (s : DialogRun) (typed : Option Text) : DialogRun :=
  let view := s.view.clamp s.settings
  { s with
    view := { view with rename := view.rename.map fun r => { r with buf := typed.getD r.buf } } }

/-- The rows after a command. -/
def rowsAfter (s : DialogRun) : Cmd → List Nat
  | .move source target =>
    match s.rows[source]?, (moveProfile s.settings source target).2 with
    | some row, true => (s.rows.eraseIdx source).insertIdx target row
    | _, _ => s.rows
  | _ => s.rows

/-- The profile that a delete is asked for after a command. -/
def askedAfter (s : DialogRun) (busy : Bool) : Cmd → Option Nat
  | .askDelete i =>
    if (deleteBlockReason s.settings.profiles.length busy).isNone then s.rows[i]? else s.asked
  | _ => s.asked

/-- The profile that a rename is begun for after a command. -/
def begunAfter (s : DialogRun) : Cmd → Option Nat
  | .beginRename i => s.rows[i]?
  | _ => s.begun

/-- The renames that were carried out after a command. -/
def renamesAfter (s : DialogRun) : Cmd → List (Option Nat × Option Nat)
  | .commitRename =>
    match s.view.rename with
    | none => s.renames
    | some r =>
      match checkName s.settings (some r.index) r.buf with
      | .ok _ => s.renames ++ [(s.begun, s.rows[r.index]?)]
      | .error _ => s.renames
  | _ => s.renames

/-- One command. -/
def command (s : DialogRun) (busy : Bool) (cmd : Cmd) : Option DialogRun :=
  (applyCmd s.settings s.view busy cmd).map fun (settings, view) =>
    { s with
      settings
      view
      rows := s.rowsAfter cmd
      asked := s.askedAfter busy cmd
      begun := s.begunAfter cmd
      renames := s.renamesAfter cmd }

/-- The loop over the commands. -/
def commands (busy : Bool) : DialogRun → List Cmd → Option DialogRun
  | s, [] => some s
  | s, cmd :: rest =>
    (s.command busy cmd).bind fun s => if cmd.reshapes then some s else commands busy s rest

/-- The delete confirmation. -/
def answer (s : DialogRun) (busy : Bool) (answer : Option DeleteAnswer) : DialogRun :=
  let (settings, view) := deleteModal s.settings s.view busy answer
  match removedRow s.settings s.view busy answer with
  | some i =>
    { s with
      settings
      view
      rows := s.rows.eraseIdx i
      removals := s.removals ++ [(s.asked, s.rows[i]?)] }
  | none => { s with settings, view }

/-- The end of a frame. A window that closes starts afresh. -/
def close (s : DialogRun) (closes : Bool) : DialogRun :=
  if closes then { s with view := {}, asked := none, begun := none } else s

/-- A frame, whose commands name rows of the list as it is at its start. -/
def next (s : DialogRun) (frame : DialogFrame) : Option DialogRun :=
  if frame.cmds.all fun cmd => cmd.rows.all (· < s.settings.profiles.length) then
    ((s.begin frame.typed).commands frame.busy frame.cmds).map fun s =>
      (s.answer frame.busy frame.answer).close frame.closes
  else none

/-- The command moves no other profile into the row that awaits the delete confirmation. -/
def undisturbed (s : DialogRun) (cmd : Cmd) : Bool :=
  match s.view.confirmDelete, cmd with
  | some i, .move source target =>
    !(moveProfile s.settings source target).2 || KeyedList.moved source target i = i
  | _, _ => true

/-- No command of the loop moves another profile into that row. -/
def undisturbedAll (busy : Bool) : DialogRun → List Cmd → Bool
  | _, [] => true
  | s, cmd :: rest =>
    s.undisturbed cmd && (cmd.reshapes ||
      ((s.command busy cmd).map fun s => undisturbedAll busy s rest).getD true)

/-- No command of the frame does. -/
def undisturbedFrame (s : DialogRun) (frame : DialogFrame) : Bool :=
  undisturbedAll frame.busy (s.begin frame.typed) frame.cmds

/-- Any frame may follow. -/
def anyFrame (_ : DialogRun) (_ : DialogFrame) : Bool := true

end DialogRun

/-! ## What a command does -/

/-- What a command leaves of the two actions that are pending. -/
def LeavesPending (settings : Settings) (view view' : ViewState) (busy : Bool) : Cmd → Prop
  | .beginRename i => (∃ buf, view'.rename = some ⟨i, buf⟩) ∧ view'.confirmDelete = none
  | .commitRename => view'.confirmDelete = view.confirmDelete ∧
      (view'.rename = none ∨ view'.rename = view.rename)
  | .askDelete i => view'.rename = none ∧ view'.confirmDelete =
      if (deleteBlockReason settings.profiles.length busy).isNone then some i
      else view.confirmDelete
  | _ => view'.rename = none ∧ view'.confirmDelete = view.confirmDelete

/-- A profile apart from its name. -/
def unnamed (p : Profile) : Profile := { p with name := [] }

/-- What a command leaves of the list: it moves a profile, or changes a name. -/
def LeavesList (settings settings' : Settings) : Cmd → Prop
  | .move source target => settings' = (moveProfile settings source target).1
  | _ => settings'.profiles.map unnamed = settings.profiles.map unnamed

section

variable {settings settings' : Settings} {view view' : ViewState} {busy : Bool} {cmd : Cmd}

/-- What a commit does to the view: the rename stays only as it was. -/
theorem commit_rename_view (h : commitRename settings view = some (settings', view')) :
    view'.confirmDelete = view.confirmDelete ∧
      (view'.rename = none ∨ view'.rename = view.rename) := by
  unfold commitRename at h
  split at h
  · obtain ⟨_, rfl⟩ := Prod.mk.inj (Option.some.inj h)
    exact ⟨rfl, .inr rfl⟩
  · split at h
    · obtain ⟨_, rfl⟩ := Prod.mk.inj (Option.some.inj h)
      exact ⟨rfl, .inr rfl⟩
    · simp at h
    · simp only at h
      split at h
      · obtain ⟨_, rfl⟩ := Prod.mk.inj (Option.some.inj h)
        exact ⟨rfl, .inl rfl⟩
      · obtain ⟨⟨_, renamed⟩, _, hview⟩ := Option.map_eq_some_iff.mp h
        obtain ⟨_, rfl⟩ := Prod.mk.inj hview
        cases renamed with
        | true => exact ⟨rfl, .inl rfl⟩
        | false => exact ⟨rfl, .inl rfl⟩

/-- A command moves the pending actions as it moves their profiles. -/
theorem apply_cmd_pending (h : applyCmd settings view busy cmd = some (settings', view')) :
    LeavesPending settings view view' busy cmd := by
  cases cmd with
  | select i =>
      obtain ⟨_, rfl⟩ := Prod.mk.inj (Option.some.inj h)
      exact ⟨rfl, rfl⟩
  | activate i =>
      obtain ⟨p, _, hview⟩ := Option.map_eq_some_iff.mp h
      simp only at hview
      split at hview
      · obtain ⟨_, rfl⟩ := Prod.mk.inj hview
        exact ⟨rfl, rfl⟩
      · obtain ⟨_, rfl⟩ := Prod.mk.inj hview
        cases (activate settings i).2 with
        | true => exact ⟨rfl, rfl⟩
        | false => exact ⟨rfl, rfl⟩
  | new =>
      obtain ⟨_, rfl⟩ := Prod.mk.inj (Option.some.inj h)
      exact ⟨rfl, rfl⟩
  | duplicate i =>
      obtain ⟨p, _, hview⟩ := Option.map_eq_some_iff.mp h
      obtain ⟨_, rfl⟩ := Prod.mk.inj hview
      exact ⟨rfl, rfl⟩
  | importFile =>
      obtain ⟨_, rfl⟩ := Prod.mk.inj (Option.some.inj h)
      exact ⟨rfl, rfl⟩
  | exportFile i =>
      obtain ⟨p, _, hview⟩ := Option.map_eq_some_iff.mp h
      obtain ⟨_, rfl⟩ := Prod.mk.inj hview
      exact ⟨rfl, rfl⟩
  | beginRename i =>
      obtain ⟨p, _, hview⟩ := Option.map_eq_some_iff.mp h
      obtain ⟨_, rfl⟩ := Prod.mk.inj hview
      exact ⟨⟨p.name, rfl⟩, rfl⟩
  | commitRename => exact commit_rename_view h
  | cancelRename =>
      obtain ⟨_, rfl⟩ := Prod.mk.inj (Option.some.inj h)
      exact ⟨rfl, rfl⟩
  | askDelete i =>
      obtain ⟨_, rfl⟩ := Prod.mk.inj (Option.some.inj h)
      split
      · next hallowed => exact ⟨rfl, (if_pos hallowed).symm⟩
      · next hblocked => exact ⟨rfl, (if_neg hblocked).symm⟩
  | move source target =>
      simp only [applyCmd, Option.some.injEq, Prod.mk.injEq] at h
      obtain ⟨_, rfl⟩ := h
      split
      · exact ⟨rfl, rfl⟩
      · exact ⟨rfl, rfl⟩

/-- A rename changes a name only. -/
theorem rename_unnamed {i : Nat} {name : Text} {renamed : Bool}
    (h : rename settings i name = some (settings', renamed)) :
    settings'.profiles.map unnamed = settings.profiles.map unnamed := by
  unfold rename at h
  split at h
  · obtain ⟨rfl, _⟩ := Prod.mk.inj (Option.some.inj h)
    rfl
  · next p hp =>
      split at h
      · obtain ⟨rfl, _⟩ := Prod.mk.inj (Option.some.inj h)
        rfl
      · obtain ⟨_, _, hset⟩ := Option.map_eq_some_iff.mp h
        obtain ⟨rfl, _⟩ := Prod.mk.inj hset
        exact KeyedList.map_set_same unnamed hp rfl

/-- A commit changes a name only, of a row that the list has. -/
theorem commit_rename_unnamed (h : commitRename settings view = some (settings', view')) :
    settings'.profiles.map unnamed = settings.profiles.map unnamed := by
  unfold commitRename at h
  split at h
  · obtain ⟨rfl, _⟩ := Prod.mk.inj (Option.some.inj h)
    rfl
  · split at h
    · obtain ⟨rfl, _⟩ := Prod.mk.inj (Option.some.inj h)
      rfl
    · simp at h
    · simp only at h
      split at h
      · obtain ⟨rfl, _⟩ := Prod.mk.inj (Option.some.inj h)
        rfl
      · obtain ⟨⟨after, renamed⟩, hrename, hview⟩ := Option.map_eq_some_iff.mp h
        obtain ⟨rfl, _⟩ := Prod.mk.inj hview
        exact rename_unnamed hrename

/-- A command changes the list of profiles as its operation does. -/
theorem apply_cmd_list (h : applyCmd settings view busy cmd = some (settings', view')) :
    LeavesList settings settings' cmd := by
  cases cmd with
  | activate i =>
      obtain ⟨p, _, hview⟩ := Option.map_eq_some_iff.mp h
      simp only at hview
      split at hview
      · obtain ⟨rfl, _⟩ := Prod.mk.inj hview
        rfl
      · obtain ⟨rfl, _⟩ := Prod.mk.inj hview
        show (activate settings i).1.profiles.map unnamed = settings.profiles.map unnamed
        unfold activate
        split
        · rfl
        · split
          · rfl
          · rfl
  | commitRename => exact commit_rename_unnamed h
  | duplicate i =>
      obtain ⟨p, _, hview⟩ := Option.map_eq_some_iff.mp h
      obtain ⟨rfl, _⟩ := Prod.mk.inj hview
      rfl
  | exportFile i =>
      obtain ⟨p, _, hview⟩ := Option.map_eq_some_iff.mp h
      obtain ⟨rfl, _⟩ := Prod.mk.inj hview
      rfl
  | beginRename i =>
      obtain ⟨p, _, hview⟩ := Option.map_eq_some_iff.mp h
      obtain ⟨rfl, _⟩ := Prod.mk.inj hview
      rfl
  | select i =>
      obtain ⟨rfl, _⟩ := Prod.mk.inj (Option.some.inj h)
      rfl
  | new =>
      obtain ⟨rfl, _⟩ := Prod.mk.inj (Option.some.inj h)
      rfl
  | importFile =>
      obtain ⟨rfl, _⟩ := Prod.mk.inj (Option.some.inj h)
      rfl
  | cancelRename =>
      obtain ⟨rfl, _⟩ := Prod.mk.inj (Option.some.inj h)
      rfl
  | askDelete i =>
      obtain ⟨rfl, _⟩ := Prod.mk.inj (Option.some.inj h)
      rfl
  | move source target =>
      obtain ⟨rfl, _⟩ := Prod.mk.inj (Option.some.inj h)
      rfl

/-- A profile that is moved. -/
theorem move_profile_cases (settings : Settings) (source target : Nat) :
    moveProfile settings source target = (settings, false) ∨
      ∃ p, settings.profiles[source]? = some p ∧ target < settings.profiles.length ∧
        moveProfile settings source target =
          ({ settings with
              profiles := (settings.profiles.eraseIdx source).insertIdx target p }, true) := by
  unfold moveProfile
  split
  · exact .inl rfl
  · next p hp =>
      split
      · exact .inl rfl
      · next hroom => exact .inr ⟨p, hp, by omega, rfl⟩

/-- A removal that nothing is said against is carried out. -/
theorem remove_allowed {i : Nat} {p : Profile} (hp : settings.profiles[i]? = some p)
    (hblock : deleteBlockReason settings.profiles.length busy = none) :
    (remove settings i).1.profiles = settings.profiles.eraseIdx i ∧
      (remove settings i).2 = true := by
  have hlength : ¬ settings.profiles.length ≤ 1 := by
    intro hle
    rw [deleteBlockReason, if_pos hle] at hblock
    exact absurd hblock (by simp)
  have hremove : remove settings i =
      ({ settings with
          profiles := settings.profiles.eraseIdx i
          activeProfile :=
            if p.name = settings.activeProfile then
              ((settings.profiles.eraseIdx i).head?.map Profile.name).getD settings.activeProfile
            else settings.activeProfile }, true) := by
    simp only [remove, hp, if_neg hlength]
  rw [hremove]
  exact ⟨rfl, rfl⟩

/-- What the delete confirmation does to the row that it removes. -/
theorem delete_modal_removes {answer : Option DeleteAnswer} {i : Nat}
    (h : removedRow settings view busy answer = some i) :
    view.confirmDelete = some i ∧ i < settings.profiles.length ∧
      (deleteModal settings view busy answer).1.profiles = settings.profiles.eraseIdx i ∧
      (deleteModal settings view busy answer).2.rename = view.rename ∧
      (deleteModal settings view busy answer).2.confirmDelete = none := by
  unfold removedRow at h
  split at h
  · next j hconfirm hblock =>
      split at h
      · next hlt =>
          obtain rfl := Option.some.inj h
          have hp := List.getElem?_eq_getElem hlt
          obtain ⟨hprofiles, hremoved⟩ := remove_allowed hp hblock
          simp only [deleteModal, hconfirm, hp, hblock, hremoved, if_true]
          exact ⟨trivial, hlt, hprofiles, trivial, trivial⟩
      · simp at h
  · simp at h

/-- Otherwise it removes nothing. -/
theorem delete_modal_keeps {answer : Option DeleteAnswer}
    (h : removedRow settings view busy answer = none) :
    (deleteModal settings view busy answer).1 = settings ∧
      (deleteModal settings view busy answer).2.rename = view.rename ∧
      ((deleteModal settings view busy answer).2.confirmDelete = none ∨
        (deleteModal settings view busy answer).2.confirmDelete = view.confirmDelete) := by
  unfold deleteModal
  split
  · next hconfirm => exact ⟨rfl, rfl, .inr rfl⟩
  · next i hconfirm =>
      split
      · exact ⟨rfl, rfl, .inl rfl⟩
      · next p hp =>
          split
          · exact ⟨rfl, rfl, .inl rfl⟩
          · next hblock =>
              obtain ⟨hlt, _⟩ := List.getElem?_eq_some_iff.mp hp
              simp [removedRow, hconfirm, hblock, hlt] at h
          · exact ⟨rfl, rfl, .inr rfl⟩

end

namespace DialogRun

/-! ## What is kept -/

/-- Each row holds the profile that it came from, apart from its name. -/
def RowsFollow (start : Settings) (s : DialogRun) : Prop :=
  s.rows.map (fun row => (start.profiles[row]?).map unnamed) =
    s.settings.profiles.map fun p => some (unnamed p)

/-- A rename that is pending was begun for the profile in its row, and so was every one that was
carried out. -/
structure RenameTracked (s : DialogRun) : Prop where
  pending : ∀ r, s.view.rename = some r →
    s.begun = none ∨ s.view.confirmDelete = none ∧ s.begun = s.rows[r.index]?
  done : ∀ d ∈ s.renames, d.1 = none ∨ d.1 = d.2

/-- A delete that is pending was asked for the profile in its row, and so was every one that was
carried out. -/
structure DeleteTracked (s : DialogRun) : Prop where
  pending : ∀ i, s.view.confirmDelete = some i → s.asked = s.rows[i]?
  done : ∀ d ∈ s.removals, ∃ row, d = (some row, some row)

/-- There are as many rows as profiles. -/
theorem RowsFollow.length_eq {start : Settings} {s : DialogRun} (h : RowsFollow start s) :
    s.rows.length = s.settings.profiles.length := by
  have hlength := congrArg List.length h
  rwa [List.length_map, List.length_map] at hlength

section

variable {start : Settings} {s s' : DialogRun} {busy : Bool} {cmd : Cmd}

/-- A command of the run is one of the dialog. -/
theorem command_eq (h : s.command busy cmd = some s') :
    ∃ settings view, applyCmd s.settings s.view busy cmd = some (settings, view) ∧
      s' = { s with
        settings
        view
        rows := s.rowsAfter cmd
        asked := s.askedAfter busy cmd
        begun := s.begunAfter cmd
        renames := s.renamesAfter cmd } := by
  obtain ⟨⟨settings, view⟩, happly, heq⟩ := Option.map_eq_some_iff.mp h
  exact ⟨settings, view, happly, heq.symm⟩

/-- A move that is refused moves no row. -/
theorem rows_after_refused {source target : Nat}
    (h : moveProfile s.settings source target = (s.settings, false)) :
    s.rowsAfter (.move source target) = s.rows := by
  simp only [rowsAfter, h]
  split
  · next hmoved => exact absurd hmoved (by simp)
  · rfl

/-- A move takes its row along. -/
theorem rows_after_moved {source target row : Nat} (hrow : s.rows[source]? = some row)
    (h : (moveProfile s.settings source target).2 = true) :
    s.rowsAfter (.move source target) = (s.rows.eraseIdx source).insertIdx target row := by
  simp only [rowsAfter, hrow, h]

/-- A move takes the row and its profile to the same place. -/
theorem rows_follow_move (h : RowsFollow start s) (source target : Nat) :
    (s.rowsAfter (.move source target)).map (fun row => (start.profiles[row]?).map unnamed) =
      (moveProfile s.settings source target).1.profiles.map fun p => some (unnamed p) := by
  rcases move_profile_cases s.settings source target with hrefused | ⟨p, hp, htarget, hmoved⟩
  · rw [rows_after_refused hrefused, hrefused]
    exact h
  · obtain ⟨hlt, _⟩ := List.getElem?_eq_some_iff.mp hp
    obtain ⟨row, hrow⟩ : ∃ row, s.rows[source]? = some row :=
      ⟨_, List.getElem?_eq_getElem (h.length_eq ▸ hlt)⟩
    have hsame : (start.profiles[row]?).map unnamed = some (unnamed p) := by
      have hget := congrArg (·[source]?) h
      simp only [List.getElem?_map, hrow, hp, Option.map_some] at hget
      exact Option.some.inj hget
    rw [rows_after_moved hrow (by rw [hmoved]), hmoved, List.map_insertIdx, List.map_insertIdx,
      ← List.eraseIdx_map, ← List.eraseIdx_map, h, hsame]

/-- Rows follow their profiles through a command. -/
theorem rows_follow_command (h : RowsFollow start s) (hcommand : s.command busy cmd = some s') :
    RowsFollow start s' := by
  obtain ⟨settings, view, happly, rfl⟩ := command_eq hcommand
  have hlist := apply_cmd_list happly
  have hsame : settings.profiles.map unnamed = s.settings.profiles.map unnamed →
      s.rows.map (fun row => (start.profiles[row]?).map unnamed) =
        settings.profiles.map fun p => some (unnamed p) := by
    intro hunnamed
    have hmap := congrArg (List.map some) hunnamed
    rw [List.map_map, List.map_map] at hmap
    exact h.trans hmap.symm
  cases cmd with
  | move source target =>
      obtain rfl : settings = (moveProfile s.settings source target).1 := hlist
      exact rows_follow_move h source target
  | _ => exact hsame hlist

/-- A command that is no commit keeps what was renamed. -/
theorem rename_tracked_command (h : RenameTracked s) (hcommand : s.command busy cmd = some s') :
    RenameTracked s' := by
  obtain ⟨settings, view, happly, rfl⟩ := command_eq hcommand
  have hpending := apply_cmd_pending happly
  cases cmd with
  | beginRename i =>
      obtain ⟨⟨buf, hrename⟩, hconfirm⟩ := hpending
      refine ⟨fun r hr => .inr ⟨hconfirm, ?_⟩, h.done⟩
      obtain rfl := Option.some.inj (hrename.symm.trans hr)
      rfl
  | commitRename =>
      obtain ⟨hconfirm, hrename⟩ := hpending
      refine ⟨fun r hr => ?_, fun d hd => ?_⟩
      · rcases hrename with hnone | hsame
        · exact absurd (hnone.symm.trans hr) (by simp)
        · rcases h.pending r (hsame.symm.trans hr) with hbegun | ⟨hnone, hbegun⟩
          · exact .inl hbegun
          · exact .inr ⟨hconfirm.trans hnone, hbegun⟩
      · have hd : d ∈ s.renamesAfter .commitRename := hd
        simp only [renamesAfter] at hd
        split at hd
        · exact h.done d hd
        · next r hr =>
            split at hd
            · rcases List.mem_append.mp hd with hd | hd
              · exact h.done d hd
              · obtain rfl := List.mem_singleton.mp hd
                exact (h.pending r hr).imp id fun hbegun => hbegun.2
            · exact h.done d hd
  | _ => exact ⟨fun r hr => absurd (hpending.1.symm.trans hr) (by simp), h.done⟩

/-- A pending removal follows its profile through a command that does not disturb it. -/
theorem delete_tracked_command (hrows : RowsFollow start s) (h : DeleteTracked s)
    (hundisturbed : s.undisturbed cmd = true) (hcommand : s.command busy cmd = some s') :
    DeleteTracked s' := by
  obtain ⟨settings, view, happly, rfl⟩ := command_eq hcommand
  have hpending := apply_cmd_pending happly
  cases cmd with
  | beginRename i => exact ⟨fun j hj => absurd (hpending.2.symm.trans hj) (by simp), h.done⟩
  | askDelete i =>
      refine ⟨fun j hj => ?_, h.done⟩
      show s.askedAfter busy (.askDelete i) = s.rows[j]?
      have hconfirm := hpending.2.symm.trans hj
      rw [askedAfter]
      split
      · next hallowed =>
          rw [if_pos hallowed] at hconfirm
          rw [Option.some.inj hconfirm]
      · next hblocked =>
          rw [if_neg hblocked] at hconfirm
          exact h.pending j hconfirm
  | move source target =>
      refine ⟨fun i hi => ?_, h.done⟩
      have hconfirm : s.view.confirmDelete = some i := hpending.2.symm.trans hi
      show s.asked = (s.rowsAfter (.move source target))[i]?
      rw [h.pending i hconfirm]
      rcases move_profile_cases s.settings source target with hrefused | ⟨p, hp, htarget, hmoved⟩
      · rw [rows_after_refused hrefused]
      · obtain ⟨hlt, _⟩ := List.getElem?_eq_some_iff.mp hp
        have hrow := List.getElem?_eq_getElem (hrows.length_eq ▸ hlt)
        have hstays : KeyedList.moved source target i = i := by
          simpa [undisturbed, hconfirm, hmoved] using hundisturbed
        have hget := KeyedList.get_moved hrow (hrows.length_eq ▸ htarget) i
        rw [hstays] at hget
        rw [rows_after_moved hrow (by rw [hmoved]), hget]
  | commitRename => exact ⟨fun i hi => h.pending i (hpending.1.symm.trans hi), h.done⟩
  | _ => exact ⟨fun i hi => h.pending i (hpending.2.symm.trans hi), h.done⟩

/-! ## Frames -/

/-- What every command keeps, the commands of a frame keep. -/
theorem commands_keep {Holds : DialogRun → Prop} {cmds : List Cmd}
    (hstep : ∀ t cmd t', Holds t → t.command busy cmd = some t' → Holds t') (h : Holds s)
    (hcommands : commands busy s cmds = some s') : Holds s' := by
  induction cmds generalizing s with
  | nil =>
      obtain rfl := Option.some.inj hcommands
      exact h
  | cons cmd rest ih =>
      obtain ⟨t, hcommand, hrest⟩ := Option.bind_eq_some_iff.mp hcommands
      have ht := hstep s cmd t h hcommand
      split at hrest
      · obtain rfl := Option.some.inj hrest
        exact ht
      · exact ih ht hrest

/-- Rows follow their profiles through the commands of a frame. -/
theorem rows_follow_commands {cmds : List Cmd} (h : RowsFollow start s)
    (hcommands : commands busy s cmds = some s') : RowsFollow start s' :=
  commands_keep (fun _ _ _ ht hcommand => rows_follow_command ht hcommand) h hcommands

/-- A pending rename follows its profile through the commands of a frame. -/
theorem rename_tracked_commands {cmds : List Cmd} (h : RenameTracked s)
    (hcommands : commands busy s cmds = some s') : RenameTracked s' :=
  commands_keep (fun _ _ _ ht hcommand => rename_tracked_command ht hcommand) h hcommands

/-- So does a pending removal, if no command disturbs it. -/
theorem delete_tracked_commands {cmds : List Cmd} (hrows : RowsFollow start s)
    (h : DeleteTracked s) (hundisturbed : undisturbedAll busy s cmds = true)
    (hcommands : commands busy s cmds = some s') : DeleteTracked s' := by
  induction cmds generalizing s with
  | nil =>
      obtain rfl := Option.some.inj hcommands
      exact h
  | cons cmd rest ih =>
      obtain ⟨t, hcommand, hrest⟩ := Option.bind_eq_some_iff.mp hcommands
      rw [undisturbedAll, hcommand, Bool.and_eq_true] at hundisturbed
      have ht := delete_tracked_command hrows h hundisturbed.1 hcommand
      split at hrest
      · obtain rfl := Option.some.inj hrest
        exact ht
      · next hreshapes =>
          have hafter : undisturbedAll busy t rest = true := by
            simpa [hreshapes] using hundisturbed.2
          exact ih (rows_follow_command hrows hcommand) ht hafter hrest

/-- The answer to the delete confirmation takes the row and its profile away. -/
theorem rows_follow_answer (h : RowsFollow start s) (answer : Option DeleteAnswer) :
    RowsFollow start (s.answer busy answer) := by
  unfold DialogRun.answer
  simp only
  split
  · next i hremoved =>
      obtain ⟨_, _, hprofiles, _⟩ := delete_modal_removes hremoved
      show (s.rows.eraseIdx i).map _ = (deleteModal s.settings s.view busy answer).1.profiles.map _
      rw [hprofiles, ← List.eraseIdx_map, ← List.eraseIdx_map, h]
  · next hkept =>
      obtain ⟨hsettings, _⟩ := delete_modal_keeps hkept
      show s.rows.map _ = (deleteModal s.settings s.view busy answer).1.profiles.map _
      rw [hsettings]
      exact h

/-- The answer to a removal leaves a pending rename with its profile. -/
theorem rename_tracked_answer (h : RenameTracked s) (answer : Option DeleteAnswer) :
    RenameTracked (s.answer busy answer) := by
  unfold DialogRun.answer
  simp only
  split
  · next i hremoved =>
      obtain ⟨hconfirm, _, _, hrename, _⟩ := delete_modal_removes hremoved
      refine ⟨fun r hr => ?_, h.done⟩
      -- a rename and a delete are pending together only at the start
      rcases h.pending r (hrename.symm.trans hr) with hbegun | ⟨hnone, _⟩
      · exact .inl hbegun
      · exact absurd (hnone.symm.trans hconfirm) (by simp)
  · next hkept =>
      obtain ⟨_, hrename, hconfirm⟩ := delete_modal_keeps hkept
      refine ⟨fun r hr => ?_, h.done⟩
      rcases h.pending r (hrename.symm.trans hr) with hbegun | ⟨hnone, hbegun⟩
      · exact .inl hbegun
      · exact .inr ⟨hconfirm.elim id fun hsame => hsame.trans hnone, hbegun⟩

/-- An answer removes the profile that was asked about, or forgets it. -/
theorem delete_tracked_answer (hrows : RowsFollow start s) (h : DeleteTracked s)
    (answer : Option DeleteAnswer) : DeleteTracked (s.answer busy answer) := by
  unfold DialogRun.answer
  simp only
  split
  · next i hremoved =>
      obtain ⟨hconfirm, hlt, _, _, hnone⟩ := delete_modal_removes hremoved
      refine ⟨fun j hj => absurd (hnone.symm.trans hj) (by simp), fun d hd => ?_⟩
      rcases List.mem_append.mp hd with hd | hd
      · exact h.done d hd
      · obtain rfl := List.mem_singleton.mp hd
        rw [h.pending i hconfirm, List.getElem?_eq_getElem (hrows.length_eq ▸ hlt)]
        exact ⟨_, rfl⟩
  · next hkept =>
      obtain ⟨_, _, hconfirm⟩ := delete_modal_keeps hkept
      refine ⟨fun j hj => ?_, h.done⟩
      rcases hconfirm with hnone | hsame
      · exact absurd (hnone.symm.trans hj) (by simp)
      · exact h.pending j (hsame.symm.trans hj)

/-- The clamping and the typing at the start of a frame. -/
theorem begin_pending (s : DialogRun) (typed : Option Text) :
    (∀ r, (s.begin typed).view.rename = some r →
        ∃ r', s.view.rename = some r' ∧ r'.index = r.index) ∧
      ((s.begin typed).view.confirmDelete = none ∨
        (s.begin typed).view.confirmDelete = s.view.confirmDelete) := by
  constructor
  · intro r hr
    obtain ⟨r', hr', rfl⟩ := Option.map_eq_some_iff.mp hr
    exact ⟨r', (Option.filter_eq_some_iff.mp hr').1, rfl⟩
  · show s.view.confirmDelete.filter _ = none ∨ s.view.confirmDelete.filter _ = _
    cases s.view.confirmDelete with
    | none => exact .inl rfl
    | some i =>
        rw [Option.filter_some]
        split
        · exact .inr rfl
        · exact .inl rfl

/-- Typing in the field of a rename keeps it with its profile. -/
theorem rename_tracked_begin (h : RenameTracked s) (typed : Option Text) :
    RenameTracked (s.begin typed) := by
  obtain ⟨hrename, hconfirm⟩ := begin_pending s typed
  refine ⟨fun r hr => ?_, h.done⟩
  obtain ⟨r', hr', hindex⟩ := hrename r hr
  rcases h.pending r' hr' with hbegun | ⟨hnone, hbegun⟩
  · exact .inl hbegun
  · exact .inr ⟨hconfirm.elim id fun hsame => hsame.trans hnone, hindex ▸ hbegun⟩

/-- Typing keeps a pending removal with its profile. -/
theorem delete_tracked_begin (h : DeleteTracked s) (typed : Option Text) :
    DeleteTracked (s.begin typed) := by
  refine ⟨fun i hi => ?_, h.done⟩
  rcases (begin_pending s typed).2 with hnone | hsame
  · exact absurd (hnone.symm.trans hi) (by simp)
  · exact h.pending i (hsame.symm.trans hi)

/-- A frame is its start, its commands, the answer and the end. -/
theorem next_eq {frame : DialogFrame} (h : s.next frame = some s') :
    ∃ t, commands frame.busy (s.begin frame.typed) frame.cmds = some t ∧
      s' = (t.answer frame.busy frame.answer).close frame.closes := by
  unfold next at h
  split at h
  · obtain ⟨t, hcommands, heq⟩ := Option.map_eq_some_iff.mp h
    exact ⟨t, hcommands, heq.symm⟩
  · simp at h

/-- Rows follow their profiles through a frame. -/
theorem rows_follow_next {frame : DialogFrame} (h : RowsFollow start s)
    (hnext : s.next frame = some s') : RowsFollow start s' := by
  obtain ⟨t, hcommands, rfl⟩ := next_eq hnext
  have hbegin : RowsFollow start (s.begin frame.typed) := h
  have hanswer : RowsFollow start (t.answer frame.busy frame.answer) :=
    rows_follow_answer (rows_follow_commands hbegin hcommands) _
  unfold close
  split
  · exact hanswer
  · exact hanswer

/-- A pending rename follows its profile through every frame. -/
theorem rename_tracked_next {frame : DialogFrame} (h : RenameTracked s)
    (hnext : s.next frame = some s') : RenameTracked s' := by
  obtain ⟨t, hcommands, rfl⟩ := next_eq hnext
  have hanswer : RenameTracked (t.answer frame.busy frame.answer) :=
    rename_tracked_answer (rename_tracked_commands (rename_tracked_begin h _) hcommands) _
  unfold close
  split
  · exact ⟨fun r hr => absurd hr (by simp), hanswer.done⟩
  · exact hanswer

/-- A pending removal follows its profile through a frame that does not disturb it. -/
theorem delete_tracked_next {frame : DialogFrame} (hrows : RowsFollow start s)
    (h : DeleteTracked s) (hundisturbed : s.undisturbedFrame frame = true)
    (hnext : s.next frame = some s') : DeleteTracked s' := by
  obtain ⟨t, hcommands, rfl⟩ := next_eq hnext
  have hbegin : RowsFollow start (s.begin frame.typed) := hrows
  have hanswer : DeleteTracked (t.answer frame.busy frame.answer) :=
    delete_tracked_answer (rows_follow_commands hbegin hcommands)
      (delete_tracked_commands hbegin (delete_tracked_begin h _) hundisturbed hcommands) _
  unfold close
  split
  · exact ⟨fun i hi => absurd hi (by simp), hanswer.done⟩
  · exact hanswer

end

/-! ## Runs of frames -/

theorem rows_follow_start (settings : Settings) (view : ViewState) :
    RowsFollow settings (start settings view) := by
  refine List.ext_getElem? fun i => ?_
  show ((List.range settings.profiles.length).map _)[i]? = (settings.profiles.map _)[i]?
  rw [List.getElem?_map, List.getElem?_map]
  by_cases hi : i < settings.profiles.length
  · rw [List.getElem?_range hi, List.getElem?_eq_getElem hi]
    simp only [Option.map_some, List.getElem?_eq_getElem hi]
  · have hnone : settings.profiles[i]? = none := List.getElem?_eq_none (Nat.le_of_not_lt hi)
    have hrange : (List.range settings.profiles.length)[i]? = none :=
      List.getElem?_eq_none (by rw [List.length_range]; exact Nat.le_of_not_lt hi)
    rw [hnone, hrange]
    rfl

theorem rename_tracked_start (settings : Settings) (view : ViewState) :
    RenameTracked (start settings view) := by
  refine ⟨fun r hr => ?_, fun d hd => absurd hd (by simp [start])⟩
  have hr : view.rename = some r := hr
  cases hconfirm : view.confirmDelete with
  | some i =>
      left
      show (if view.confirmDelete.isSome then none else _) = none
      rw [hconfirm]
      rfl
  | none =>
      refine .inr ⟨hconfirm, ?_⟩
      show (if view.confirmDelete.isSome then none else _) = _
      rw [hconfirm, hr]
      rfl

theorem delete_tracked_start (settings : Settings) (view : ViewState) :
    DeleteTracked (start settings view) := by
  refine ⟨fun i hi => ?_, fun d hd => absurd hd (by simp [start])⟩
  have hi : view.confirmDelete = some i := hi
  show view.confirmDelete.bind _ = _
  rw [hi]
  rfl

/-- From any state of the window and over any frames, the rows follow their profiles, and a rename
is that of the profile it was begun for. As long as no frame moves another profile into the row that
awaits the delete confirmation, a delete is that of the profile it was asked for. -/
theorem pending_actions_reachable (settings : Settings) (view : ViewState) :
    (∀ s, Reachable next anyFrame (start settings view) s →
      RowsFollow settings s ∧ ∀ d ∈ s.renames, d.1 = none ∨ d.1 = d.2) ∧
    (∀ s, Reachable next undisturbedFrame (start settings view) s →
      ∀ d ∈ s.removals, ∃ row, d = (some row, some row)) := by
  constructor
  · intro s h
    have hstep : ∀ t frame t', RowsFollow settings t ∧ RenameTracked t → anyFrame t frame = true →
        next t frame = some t' → RowsFollow settings t' ∧ RenameTracked t' :=
      fun t frame t' ht _ hnext =>
        ⟨rows_follow_next ht.1 hnext, rename_tracked_next ht.2 hnext⟩
    have hinv := h.invariant ⟨rows_follow_start settings view, rename_tracked_start settings view⟩
      hstep
    exact ⟨hinv.1, hinv.2.done⟩
  · intro s h
    have hstep : ∀ t frame t', RowsFollow settings t ∧ DeleteTracked t →
        undisturbedFrame t frame = true → next t frame = some t' →
          RowsFollow settings t' ∧ DeleteTracked t' :=
      fun t frame t' ht hundisturbed hnext =>
        ⟨rows_follow_next ht.1 hnext, delete_tracked_next ht.1 ht.2 hundisturbed hnext⟩
    have hinv := h.invariant ⟨rows_follow_start settings view, delete_tracked_start settings view⟩
      hstep
    exact hinv.2.done

/-- Two profiles, the first of them active. -/
def twoProfiles : Settings :=
  { activeProfile := "A".toList, profiles := [{ name := "A".toList }, { name := "B".toList }] }

/-- A frame of a window that stays open. -/
def frame (cmds : List Cmd) (answer : Option DeleteAnswer) : DialogFrame :=
  ⟨none, cmds, false, answer, false⟩

theorem pending_actions_reachable_two :
    ∃ s, Reachable next undisturbedFrame (start twoProfiles {}) s ∧
      s.removals = [(some 0, some 0)] ∧ ∀ d ∈ s.removals, ∃ row, d = (some row, some row) := by
  obtain ⟨s, hreach, hs⟩ := reachable_of_exec next undisturbedFrame (start twoProfiles {})
    [frame [.askDelete 0] none, frame [] (some .delete)]
    (p := fun s => s.removals = [(some 0, some 0)]) (by decide)
  exact ⟨s, hreach, of_decide_eq_true hs, (pending_actions_reachable twoProfiles {}).2 s hreach⟩

/-- A delete is asked for the first profile, which is moved in the same frame. Confirmed, it takes
the second. -/
theorem moved_profile_removed : twoProfiles.WellFormed ∧
    ∃ s, Reachable next anyFrame (start twoProfiles {}) s ∧ (some 0, some 1) ∈ s.removals ∧
      s.settings.profiles.map Profile.name = ["A".toList] := by
  obtain ⟨s, hreach, hs⟩ := reachable_of_exec next anyFrame (start twoProfiles {})
    [frame [.askDelete 0, .move 0 1] none, frame [] (some .delete)]
    (p := fun s => decide ((some 0, some 1) ∈ s.removals) &&
      decide (s.settings.profiles.map Profile.name = ["A".toList])) (by decide)
  simp only [Bool.and_eq_true, decide_eq_true_eq] at hs
  exact ⟨by decide, s, hreach, hs.1, hs.2⟩

end DialogRun
end OpenNtrip
