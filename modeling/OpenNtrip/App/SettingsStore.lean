import OpenNtrip.App.LegacyImport
import OpenNtrip.App.SettingsLoad
import OpenNtrip.Lib.StepSystem
import OpenNtrip.Rust.Utf8

/-!
# The file of the settings

`load`, `save` and `load_or_import` of `settings.rs` over the files beside the program, and the
client that keeps the settings between a start and an exit. A call that meets an error leaves the
files as far as it came, so that a crash within a call is a call that fails and a crash behind it.

What the client writes is never found in part (`settings_whole`), what the user wrote is not lost to
it (`hand_edit_kept`), and the Save control tells whether the file has what the client shows
(`saved_control_honest`).
-/

namespace OpenNtrip

/-- The text format of the file. -/
structure Toml where
  toStringPretty : Settings → Except Text Text
  fromStr : Text → Except Text Settings

/-- What is written is read back. -/
def Toml.RoundTrip (toml : Toml) : Prop :=
  ∀ s text, toml.toStringPretty s = .ok text → toml.fromStr text = .ok s

namespace Settings

/-- `persistable_eq`. -/
def persistableEq (s t : Settings) : Bool :=
  s.activeProfile == t.activeProfile && s.app == t.app && s.display == t.display &&
    s.serial == t.serial && s.profiles.isEqv t.profiles Profile.eq

/-- The fields that a user edits are the same. -/
structure SamePersistable (s t : Settings) : Prop where
  activeProfile : s.activeProfile = t.activeProfile
  app : s.app = t.app
  display : s.display = t.display
  serial : s.serial = t.serial
  profiles : s.profiles = t.profiles

end Settings

/-! ## The files -/

/-- The files beside the program that hold settings. -/
structure SettingsDir where
  /-- `settings.toml` -/
  settings : Option Bytes := none
  /-- `settings.toml.tmp` -/
  tmp : Option Bytes := none
  /-- `settings.toml.bad` -/
  bad : Option Bytes := none
  deriving DecidableEq, Repr

/-- How far a save comes. -/
inductive SaveFate where
  /-- The temporary file cannot be written to its end. -/
  | torn (left : Option Bytes) (error : Text)
  | notRenamed (error : Text)
  | done
  deriving DecidableEq, Repr

/-- How far the copy of a file that cannot be loaded comes. -/
inductive CopyFate where
  | failed (left : Option Bytes) (error : Text)
  | done
  deriving DecidableEq, Repr

/-- What a start of the client meets: whether the file is seen, an error when it is read, how far a
copy and a save would come, and the files of the original client. -/
structure StartFate where
  visible : Bool := true
  readError : Option Text := none
  copy : CopyFate := .done
  ntripconfig : Option Text := none
  settingsTxt : Option Text := none
  save : SaveFate := .done
  deriving DecidableEq, Repr

section

variable (toml : Toml) (parseF64 : Text → Option F64) (path : Text)

/-- `save`. -/
def save (s : Settings) (dir : SettingsDir) (fate : SaveFate) : SettingsDir × Except Text Unit :=
  match toml.toStringPretty s with
  | .error e => (dir, .error ("serialize settings: ".toList ++ e))
  | .ok text =>
    match fate with
    | .torn left e =>
      ({ dir with tmp := left }, .error ("write ".toList ++ path ++ ".tmp: ".toList ++ e))
    | .notRenamed e =>
      ({ dir with tmp := some text.toBytes },
        .error ("rename ".toList ++ path ++ ".tmp: ".toList ++ e))
    | .done => ({ dir with settings := some text.toBytes, tmp := none }, .ok ())

/-- `load` of a file with these bytes. -/
def load (bytes : Bytes) (readError : Option Text) : Except Text Settings :=
  let read : Except Text Text :=
    match readError, Text.fromUtf8 bytes with
    | some e, _ => .error e
    | none, some text => .ok text
    | none, none => .error "stream did not contain valid UTF-8".toList
  match read with
  | .error e => .error ("read ".toList ++ path ++ ": ".toList ++ e)
  | .ok text =>
    match toml.fromStr text with
    | .error e => .error ("parse ".toList ++ path ++ ": ".toList ++ e)
    | .ok s => .ok s.normalize

/-- `load_or_import`. -/
def loadOrImport (dir : SettingsDir) (fate : StartFate) : SettingsDir × Settings × List Text :=
  match dir.settings.filter fun _ => fate.visible with
  | some bytes =>
    match load toml path bytes fate.readError with
    | .ok s => (dir, s, [])
    | .error e =>
      let failed := "Could not load settings.toml (".toList ++ e ++ "); using defaults".toList
      match fate.copy with
      | .done =>
        ({ dir with bad := some bytes }, {}, [failed,
          "The unparseable file was preserved as ".toList ++ path ++
            (".bad; fix it and rename it " ++
              "back to settings.toml to recover your profiles").toList])
      | .failed left e =>
        ({ dir with bad := left }, {}, [failed,
          "Could not preserve the unparseable file as ".toList ++ path ++ ".bad: ".toList ++ e])
  | none =>
    match Legacy.importLegacy parseF64 fate.ntripconfig fate.settingsTxt with
    | none => (dir, {}, [])
    | some (s, log) =>
      match save toml path s dir fate.save with
      | (dir, .ok ()) =>
        (dir, s, log ++ ["Imported settings saved to settings.toml".toList])
      | (dir, .error e) =>
        (dir, s, log ++ ["Could not save imported settings: ".toList ++ e])

/-! ## The client -/

/-- The settings of a client that runs, and those it saved or loaded last. -/
structure Client where
  settings : Settings
  lastSaved : Settings
  deriving DecidableEq, Repr

/-- `has_unsaved_changes`. -/
def Client.hasUnsavedChanges (c : Client) : Bool := !c.settings.persistableEq c.lastSaved

/-- `save_settings`, with what it says. -/
def Client.saveSettings (c : Client) (dir : SettingsDir) (fate : SaveFate) :
    Client × SettingsDir × Text :=
  match save toml path c.settings dir fate with
  | (dir, .ok ()) => ({ c with lastSaved := c.settings }, dir, "Settings saved".toList)
  | (dir, .error e) => (c, dir, "Could not save settings: ".toList ++ e)

/-- What happens to the files and the client. -/
inductive StoreMove where
  | start (fate : StartFate)
  | edit (settings : Settings)
  | save (fate : SaveFate)
  | exit (fate : SaveFate)
  | crash
  /-- The user replaces `settings.toml`. -/
  | byHand (bytes : Option Bytes)
  deriving Repr

/-- The files and the client. The fields behind these two are read by no function: they tell what
the user wrote, which settings were saved, and which contents were loaded; whether the client that
runs has loaded or copied what it found; and whether the file has what was saved or loaded last. -/
structure Store where
  dir : SettingsDir := {}
  client : Option Client := none
  written : List Bytes := []
  saved : List Settings := []
  loaded : List Bytes := []
  guarded : Bool := true
  synced : Bool := false

namespace Store

/-- Whether a save comes to its end. -/
def saves (s : Settings) (fate : SaveFate) : Bool :=
  (toml.toStringPretty s).toBool && fate == .done

/-- The file as a start sees it. -/
def seen (w : Store) (fate : StartFate) : Option Bytes :=
  w.dir.settings.filter fun _ => fate.visible

/-- A start. -/
def start (w : Store) (fate : StartFate) : Store :=
  let (dir, settings, _) := loadOrImport toml parseF64 path w.dir fate
  let loads := (w.seen fate).any fun bytes => (load toml path bytes fate.readError).toBool
  let imports := (w.seen fate).isNone && saves toml settings fate.save &&
    (Legacy.importLegacy parseF64 fate.ntripconfig fate.settingsTxt).isSome
  { w with
    dir
    client := some { settings, lastSaved := settings }
    saved := w.saved ++ if imports then [settings] else []
    loaded := w.loaded ++ if loads then (w.seen fate).toList else []
    guarded := loads || w.dir.settings.isNone || ((w.seen fate).isSome && fate.copy == .done)
    synced := loads || imports }

/-- A save of a client that runs, and what is left of the client. -/
def saveBy (w : Store) (c : Client) (fate : SaveFate) (left : Client → Option Client) : Store :=
  let (c', dir, _) := c.saveSettings toml path w.dir fate
  let done := saves toml c.settings fate
  { w with
    dir
    client := left c'
    saved := w.saved ++ if done then [c.settings] else []
    synced := w.synced || done }

/-- A step. Only a client that does not run can start, and only one that runs does the rest. -/
def step (w : Store) : StoreMove → Store
  | .start fate => if w.client.isNone then w.start toml parseF64 path fate else w
  | .edit settings => { w with client := w.client.map fun c => { c with settings } }
  | .save fate => w.client.elim w fun c => w.saveBy toml path c fate some
  | .exit fate => w.client.elim w fun c => w.saveBy toml path c fate fun _ => none
  | .crash => { w with client := none }
  | .byHand bytes =>
    { w with
      dir := { w.dir with settings := bytes }
      written := w.written ++ bytes.toList
      synced := false }

def run (w : Store) (moves : List StoreMove) : Store := moves.foldl (step toml parseF64 path) w

end Store

end

/-! ## What a save does -/

section

variable {toml : Toml} (path : Text) {s : Settings} (dir : SettingsDir) {fate : SaveFate}

/-- A save that comes to its end has the file hold the settings. -/
theorem save_done (h : Store.saves toml s fate = true) :
    ∃ text, toml.toStringPretty s = .ok text ∧
      save toml path s dir fate =
        ({ dir with settings := some text.toBytes, tmp := none }, .ok ()) := by
  unfold Store.saves at h
  unfold save
  cases htext : toml.toStringPretty s with
  | error e => simp [htext, Except.toBool] at h
  | ok text =>
      rw [htext] at h
      cases fate with
      | done => exact ⟨text, rfl, rfl⟩
      | _ => simp at h

/-- One that does not leaves the file, and the copy of another, as they are. -/
theorem save_failed (h : Store.saves toml s fate = false) :
    ∃ tmp e, save toml path s dir fate = ({ dir with tmp }, .error e) := by
  unfold Store.saves at h
  unfold save
  cases htext : toml.toStringPretty s with
  | error e => exact ⟨dir.tmp, _, rfl⟩
  | ok text =>
      rw [htext] at h
      cases fate with
      | torn left e => exact ⟨left, _, rfl⟩
      | notRenamed e => exact ⟨some text.toBytes, _, rfl⟩
      | done => simp [Except.toBool] at h

/-- What is saved is loaded again, repaired. -/
theorem load_saved (hround : toml.RoundTrip) {text : Text} (h : toml.toStringPretty s = .ok text) :
    load toml path text.toBytes none = .ok s.normalize := by
  unfold load
  simp only [Text.from_utf8_to_bytes, hround s text h]

/-- What is loaded was read, and is repaired. -/
theorem load_ok {bytes : Bytes} {readError : Option Text}
    (h : load toml path bytes readError = .ok s) :
    load toml path bytes none = .ok s ∧ ∃ t : Settings, s = t.normalize := by
  cases readError with
  | some e => simp [load] at h
  | none =>
      refine ⟨h, ?_⟩
      unfold load at h
      simp only at h
      split at h
      · simp at h
      · split at h
        · simp at h
        · next t _ => exact ⟨t, (Except.ok.inj h).symm⟩

end

namespace Store

variable {toml : Toml} {parseF64 : Text → Option F64} {path : Text} {w : Store}

/-! ## What a step does -/

variable (toml parseF64 path) in
/-- What a start does: it loads the file, or copies one that it cannot load, or finds none, where it
may import one and save it. -/
theorem start_cases (w : Store) (fate : StartFate) :
    (∃ bytes l, w.seen fate = some bytes ∧ load toml path bytes fate.readError = .ok l ∧
      w.start toml parseF64 path fate =
        { w with
          client := some ⟨l, l⟩
          loaded := w.loaded ++ [bytes]
          guarded := true
          synced := true }) ∨
    (∃ bytes e bad, w.seen fate = some bytes ∧ load toml path bytes fate.readError = .error e ∧
      (fate.copy = .done → bad = some bytes) ∧
      w.start toml parseF64 path fate =
        { w with
          dir := { w.dir with bad }
          client := some ⟨{}, {}⟩
          guarded := fate.copy == .done
          synced := false }) ∨
    (∃ s text, w.seen fate = none ∧ toml.toStringPretty s = .ok text ∧
      w.start toml parseF64 path fate =
        { w with
          dir := { w.dir with settings := some text.toBytes, tmp := none }
          client := some ⟨s, s⟩
          saved := w.saved ++ [s]
          guarded := w.dir.settings.isNone
          synced := true }) ∨
    ∃ s tmp, w.seen fate = none ∧
      w.start toml parseF64 path fate =
        { w with
          dir := { w.dir with tmp }
          client := some ⟨s, s⟩
          guarded := w.dir.settings.isNone
          synced := false } := by
  unfold start loadOrImport seen
  cases hseen : w.dir.settings.filter fun _ => fate.visible with
  | some bytes =>
      have hsome : w.dir.settings.isNone = false := by
        cases hsettings : w.dir.settings with
        | none => simp [hsettings] at hseen
        | some bytes => rfl
      cases hload : load toml path bytes fate.readError with
      | ok l =>
          refine .inl ⟨bytes, l, rfl, hload, ?_⟩
          simp [hload, Except.toBool]
      | error e =>
          refine .inr (.inl ?_)
          cases hcopy : fate.copy with
          | done =>
              refine ⟨bytes, e, some bytes, rfl, hload, fun _ => rfl, ?_⟩
              simp [hload, Except.toBool, hsome]
          | failed left e' =>
              refine ⟨bytes, e, left, rfl, hload, by simp, ?_⟩
              simp [hload, Except.toBool, hsome]
  | none =>
      refine .inr (.inr ?_)
      cases himport : Legacy.importLegacy parseF64 fate.ntripconfig fate.settingsTxt with
      | none =>
          refine .inr ⟨{}, w.dir.tmp, rfl, ?_⟩
          simp
      | some imported =>
          obtain ⟨s, log⟩ := imported
          cases hsaves : saves toml s fate.save with
          | true =>
              obtain ⟨text, htext, hsave⟩ := save_done path w.dir hsaves
              refine .inl ⟨s, text, rfl, htext, ?_⟩
              simp [hsave, hsaves]
          | false =>
              obtain ⟨tmp, e, hsave⟩ := save_failed path w.dir hsaves
              refine .inr ⟨s, tmp, rfl, ?_⟩
              simp [hsave, hsaves]

variable (toml path) in
/-- What a save does: it has the file hold the settings, or changes neither of the two others. -/
theorem save_by_cases (w : Store) (c : Client) (fate : SaveFate) (left : Client → Option Client) :
    (∃ text, saves toml c.settings fate = true ∧ toml.toStringPretty c.settings = .ok text ∧
      w.saveBy toml path c fate left =
        { w with
          dir := { w.dir with settings := some text.toBytes, tmp := none }
          client := left { c with lastSaved := c.settings }
          saved := w.saved ++ [c.settings]
          synced := true }) ∨
    ∃ tmp, w.saveBy toml path c fate left =
      { w with dir := { w.dir with tmp }, client := left c } := by
  unfold saveBy Client.saveSettings
  cases hsaves : saves toml c.settings fate with
  | true =>
      obtain ⟨text, htext, hsave⟩ := save_done path w.dir hsaves
      refine .inl ⟨text, rfl, htext, ?_⟩
      simp [hsave]
  | false =>
      obtain ⟨tmp, e, hsave⟩ := save_failed path w.dir hsaves
      refine .inr ⟨tmp, ?_⟩
      simp [hsave]

/-! ## What is in the file -/

/-- What is in the file was put there by hand, or is what was saved, from its start to its end. -/
def Whole (toml : Toml) (w : Store) : Prop :=
  ∀ bytes, w.dir.settings = some bytes → bytes ∈ w.written ∨
    ∃ s ∈ w.saved, ∃ text, toml.toStringPretty s = .ok text ∧ bytes = text.toBytes

theorem Whole.put {s : Settings} {text : Text} (h : toml.toStringPretty s = .ok text)
    (hsettings : w.dir.settings = some text.toBytes) (hsaved : s ∈ w.saved) : Whole toml w := by
  intro bytes hbytes
  rw [hsettings] at hbytes
  exact .inr ⟨s, hsaved, text, h, (Option.some.inj hbytes).symm⟩

theorem whole_step (h : Whole toml w) (m : StoreMove) :
    Whole toml (w.step toml parseF64 path m) := by
  have hsave : ∀ (c : Client) (fate : SaveFate) (left : Client → Option Client),
      Whole toml (w.saveBy toml path c fate left) := by
    intro c fate left
    rcases save_by_cases toml path w c fate left with
      ⟨text, -, htext, heq⟩ | ⟨tmp, heq⟩
    · rw [heq]
      exact .put htext rfl (List.mem_append_right _ (List.mem_singleton_self _))
    · rw [heq]
      exact h
  cases m with
  | start fate =>
      unfold step
      simp only
      split
      · rcases start_cases toml parseF64 path w fate with
          ⟨bytes, l, -, -, heq⟩ | ⟨bytes, e, bad, -, -, -, heq⟩ | ⟨s, text, -, htext, heq⟩ |
            ⟨s, tmp, -, heq⟩
        · rw [heq]
          exact h
        · rw [heq]
          exact h
        · rw [heq]
          exact .put htext rfl (List.mem_append_right _ (List.mem_singleton_self _))
        · rw [heq]
          exact h
      · exact h
  | edit settings => exact h
  | save fate =>
      unfold step
      cases w.client with
      | none => exact h
      | some c => exact hsave c fate some
  | exit fate =>
      unfold step
      cases w.client with
      | none => exact h
      | some c => exact hsave c fate fun _ => none
  | crash => exact h
  | byHand content =>
      intro bytes hbytes
      have hcontent : content = some bytes := hbytes
      exact .inl (List.mem_append_right _ (by rw [hcontent]; exact List.mem_singleton_self _))

/-- Whatever fails, and wherever the client crashes, what is in the file was put there by hand, or
is the text of one save from its start to its end, which is loaded again. -/
theorem settings_whole (hround : toml.RoundTrip) (dir : SettingsDir) (moves : List StoreMove) :
    let w := run toml parseF64 path { dir, written := dir.settings.toList } moves
    ∀ bytes, w.dir.settings = some bytes → bytes ∈ w.written ∨
      ∃ s ∈ w.saved, (∃ text, toml.toStringPretty s = .ok text ∧ bytes = text.toBytes) ∧
        load toml path bytes none = .ok s.normalize := by
  have hrun : ∀ w : Store, Whole toml w → Whole toml (run toml parseF64 path w moves) := by
    induction moves with
    | nil => exact fun w h => h
    | cons m rest ih => exact fun w h => ih _ (whole_step h m)
  intro w bytes hbytes
  have hstart : Whole toml { dir, written := dir.settings.toList } := by
    intro bytes hbytes
    have hdir : dir.settings = some bytes := hbytes
    exact .inl (by rw [hdir]; exact List.mem_singleton_self _)
  rcases hrun _ hstart bytes hbytes with hwritten | ⟨s, hs, text, htext, rfl⟩
  · exact .inl hwritten
  · exact .inr ⟨s, hs, ⟨text, htext, rfl⟩, load_saved path hround htext⟩

/-- The file of the default settings. -/
def defaultText : Text :=
  "schema = 1\nactive_profile = \"Default\"\n\n[app]\n".toList ++
    ("check_updates = \"weekly\"\naudio_alert_file = \"\"\nwrite_event_log = true\n" ++
      "write_nmea_log = true\ncapture_corrections = false\nauto_reconnect = true\n" ++
      "max_reconnect_attempts = 10000\n\n[window]\nsize = [\n    980.0,\n    860.0,\n]\n" ++
      "graph_open = false\ntab = \"events\"\ngga_open = false\nserial_open = false\n" ++
      "colorway = \"paper\"\n\n[display]\ncenter = \"elevation-feet\"\nright = \"data-age\"\n\n" ++
      "[serial]\nport = \"\"\nbaud = 115200\ndata_bits = 8\nstop_bits = 1\nparity = \"none\"\n" ++
      "novatel_autoconfig = false\nnovatel_format = \"rtcmv3\"\nnovatel_rate_hz = 5\n\n" ++
      "[state]\nlast_update_check = \"\"\nserial_connected = false\nntrip_connected = false\n\n" ++
      "[[profiles]]\nname = \"Default\"\nhost = \"\"\nport = 2101\ntls = false\n" ++
      "allow_invalid_certs = false\nntrip_version = 1\nprotocol = \"ntrip\"\n" ++
      "username = \"\"\npassword = \"\"\nmountpoint = \"\"\ngga_mode = \"when_required\"\n" ++
      "gga_source = \"receiver\"\nmanual_lat = 0.0\nmanual_lon = 0.0\n").toList

/-- The text format at the default settings. -/
def defaultToml : Toml where
  toStringPretty s := if s = {} then .ok defaultText else .error "other settings".toList
  fromStr text := if text = defaultText then .ok {} else .error "other text".toList

theorem default_round_trip : defaultToml.RoundTrip := by
  intro s text h
  unfold defaultToml at h ⊢
  simp only at h ⊢
  split at h
  · next hs =>
      obtain rfl := Except.ok.inj h
      rw [if_pos rfl, hs]
  · simp at h

/-- A first run that is left. -/
theorem settings_whole_default :
    let w := run defaultToml (fun _ => none) "settings.toml".toList {} [.start {}, .exit .done]
    w.dir.settings = some defaultText.toBytes ∧ ∃ s ∈ w.saved,
      (∃ text, defaultToml.toStringPretty s = .ok text ∧
        defaultText.toBytes = text.toBytes) ∧
      load defaultToml "settings.toml".toList defaultText.toBytes none = .ok s.normalize := by
  intro w
  have hfile : w.dir.settings = some defaultText.toBytes := rfl
  refine ⟨hfile, ?_⟩
  rcases settings_whole default_round_trip {} _ _ hfile with hwritten | hsaved
  · exact absurd hwritten (by simp [run, step, start, saveBy])
  · exact hsaved

/-! ## What the user wrote -/

/-- The user leaves the file alone, a start can see and read it, and no save comes to its end in a
client that could neither load nor copy what it found. -/
def cautious (toml : Toml) (w : Store) : StoreMove → Bool
  | .start fate => fate.visible && fate.readError.isNone
  | .save fate | .exit fate =>
    w.guarded || !(w.client.any fun c => saves toml c.settings fate)
  | .byHand _ => false
  | _ => true

/-- A content is still in the file, or the file is what a client wrote, and the content is in the
copy or was loaded. A client that runs and is guarded over the content has one of the two. -/
structure Held (toml : Toml) (bytes : Bytes) (w : Store) : Prop where
  found : w.dir.settings = some bytes ∨
    (∃ s text, toml.toStringPretty s = .ok text ∧ w.dir.settings = some text.toBytes) ∧
      (w.dir.bad = some bytes ∨ bytes ∈ w.loaded)
  guarded : w.dir.settings = some bytes → w.client.isSome = true → w.guarded = true →
    w.dir.bad = some bytes ∨ bytes ∈ w.loaded

variable {bytes : Bytes}

/-- A client that stops, and a change of its settings, hold on to the content. -/
theorem Held.client (h : Held toml bytes w) {tmp : Option Bytes} {client : Option Client}
    (hclient : client.isSome = true → w.client.isSome = true) :
    Held toml bytes { w with dir := { w.dir with tmp }, client } :=
  ⟨h.found, fun hsettings hsome => h.guarded hsettings (hclient hsome)⟩

/-- A save of a guarded client holds on to the content. -/
theorem Held.save (h : Held toml bytes w) {c : Client} (hc : w.client = some c) {fate : SaveFate}
    (hcautious : (w.guarded || !saves toml c.settings fate) = true)
    (left : Client → Option Client) : Held toml bytes (w.saveBy toml path c fate left) := by
  have hsome : w.client.isSome = true := by rw [hc]; rfl
  rcases save_by_cases toml path w c fate left with
    ⟨text, hsaves, htext, heq⟩ | ⟨tmp, heq⟩
  · rw [hsaves, Bool.not_true, Bool.or_false] at hcautious
    -- the content is replaced, and was loaded or copied before
    have hkept : w.dir.bad = some bytes ∨ bytes ∈ w.loaded := by
      rcases h.found with hsettings | ⟨-, hkept⟩
      · exact h.guarded hsettings hsome hcautious
      · exact hkept
    rw [heq]
    exact ⟨.inr ⟨⟨c.settings, text, htext, rfl⟩, hkept⟩, fun _ _ _ => hkept⟩
  · rw [heq]
    exact h.client fun _ => hsome

/-- A start that sees and reads the file holds on to the content. -/
theorem Held.start (hround : toml.RoundTrip) (h : Held toml bytes w) {fate : StartFate}
    (hvisible : fate.visible = true) (hread : fate.readError = none) :
    Held toml bytes (w.start toml parseF64 path fate) := by
  have hseen : w.seen fate = w.dir.settings := by
    unfold seen
    rw [hvisible]
    cases w.dir.settings with
    | none => rfl
    | some content => rfl
  have hsome : w.dir.settings ≠ none := by
    rcases h.found with hsettings | ⟨⟨s, text, -, hsettings⟩, -⟩
    · rw [hsettings]
      simp
    · rw [hsettings]
      simp
  rcases start_cases toml parseF64 path w fate with
    ⟨content, l, hcontent, hload, heq⟩ | ⟨content, e, bad, hcontent, hload, hcopy, heq⟩ |
      ⟨s, text, hnone, -, -⟩ | ⟨s, tmp, hnone, -⟩
  · -- it is loaded, and added to what was
    rw [hseen] at hcontent
    rw [heq]
    refine ⟨?_, fun hsettings _ _ => .inr ?_⟩
    · rcases h.found with hsettings | ⟨hwritten, hbad | hloaded⟩
      · exact .inl hsettings
      · exact .inr ⟨hwritten, .inl hbad⟩
      · exact .inr ⟨hwritten, .inr (List.mem_append_left _ hloaded)⟩
    · have hsettings : w.dir.settings = some bytes := hsettings
      rw [hcontent] at hsettings
      rw [Option.some.inj hsettings]
      exact List.mem_append_right _ (List.mem_singleton_self _)
  · rw [hseen] at hcontent
    rw [hread] at hload
    rcases h.found with hsettings | ⟨⟨s, text, htext, hsettings⟩, -⟩
    · -- it is not loaded: the client is guarded over it if it is copied
      rw [heq]
      refine ⟨.inl hsettings, fun _ _ hguarded => .inl ?_⟩
      have hdone : fate.copy = .done := by
        have hguarded : (fate.copy == .done) = true := hguarded
        exact beq_iff_eq.mp hguarded
      show bad = some bytes
      rw [hcopy hdone, ← hcontent, hsettings]
    · -- what a client wrote is loaded
      rw [hcontent] at hsettings
      rw [Option.some.inj hsettings, load_saved path hround htext] at hload
      simp at hload
  · exact absurd (hseen.symm.trans hnone) hsome
  · exact absurd (hseen.symm.trans hnone) hsome

theorem held_step (hround : toml.RoundTrip) (h : Held toml bytes w) {m : StoreMove}
    (hcautious : cautious toml w m = true) : Held toml bytes (w.step toml parseF64 path m) := by
  cases m with
  | start fate =>
      obtain ⟨hvisible, hread⟩ := Bool.and_eq_true_iff.mp hcautious
      unfold step
      simp only
      split
      · exact h.start hround hvisible (Option.isNone_iff_eq_none.mp hread)
      · exact h
  | edit settings =>
      refine h.client fun hsome => ?_
      simpa using hsome
  | save fate =>
      unfold step
      cases hc : w.client with
      | none => exact h
      | some c =>
          rw [cautious, hc] at hcautious
          exact h.save hc hcautious some
  | exit fate =>
      unfold step
      cases hc : w.client with
      | none => exact h
      | some c =>
          rw [cautious, hc] at hcautious
          exact h.save hc hcautious fun _ => none
  | crash => exact h.client fun hsome => absurd hsome (by simp)
  | byHand content => exact absurd hcautious (by simp [cautious])

/-- What the user put into the file while no client ran is not lost to any number of clients: it is
still there, or was loaded by one, or is in the copy. -/
theorem hand_edit_kept (hround : toml.RoundTrip) {w w' : Store}
    (hfile : w.dir.settings = some bytes) (hclient : w.client = none)
    (hrun : StepSystem.Reachable (fun w m => some (w.step toml parseF64 path m)) (cautious toml)
      w w') :
    w'.dir.settings = some bytes ∨ w'.dir.bad = some bytes ∨ bytes ∈ w'.loaded := by
  have hstart : Held toml bytes w := by
    refine ⟨.inl hfile, fun _ hsome _ => ?_⟩
    rw [hclient] at hsome
    simp at hsome
  have hheld : Held toml bytes w' := by
    refine hrun.invariant hstart fun w m next h hcautious hnext => ?_
    obtain rfl := Option.some.inj hnext
    exact held_step hround h hcautious
  rcases hheld.found with hsettings | ⟨-, hkept⟩
  · exact .inl hsettings
  · exact .inr hkept

/-- A file with a typo, which a client has found. -/
def typo : Store := { dir := { settings := some (ascii "schema =") } }

def typoStarted : Store :=
  typo.step defaultToml (fun _ => none) "settings.toml".toList (.start {})

def typoLeft : Store :=
  typoStarted.step defaultToml (fun _ => none) "settings.toml".toList (.exit .done)

/-- The client cannot load the file, and is left. -/
theorem hand_edit_kept_typo :
    typoLeft.dir.settings = some (ascii "schema =") ∨
      typoLeft.dir.bad = some (ascii "schema =") ∨ ascii "schema =" ∈ typoLeft.loaded := by
  let next : Store → StoreMove → Option Store := fun w m =>
    some (w.step defaultToml (fun _ => none) "settings.toml".toList m)
  have hstarted : StepSystem.Reachable next (cautious defaultToml) typo typoStarted :=
    .step (e := .start {}) .refl rfl rfl
  have hguarded : cautious defaultToml typoStarted (.exit .done) = true := by decide +kernel
  have hleft : StepSystem.Reachable next (cautious defaultToml) typo typoLeft :=
    hstarted.step hguarded rfl
  have hfile : typo.dir.settings = some (ascii "schema =") := rfl
  exact hand_edit_kept default_round_trip hfile rfl hleft

/-! ## What the Save control says -/

end Store

namespace Settings

theorem clamp_clamp {low high : Rat} (h : low ≤ high) (x : F64) :
    (x.clamp low high).clamp low high = x.clamp low high := by
  cases x with
  | finite value =>
      simp only [F64.clamp]
      split
      · rw [if_neg (lt_irrefl low), if_neg (not_lt.mpr h)]
      · split
        · rw [if_neg (not_lt.mpr h), if_neg (lt_irrefl high)]
        · rfl
  | infinite negative =>
      cases negative with
      | true => simp [F64.clamp, not_lt.mpr h]
      | false => simp [F64.clamp, not_lt.mpr h]
  | nan => rfl

theorem normalize_profile_twice (p : Profile) : p.normalize.normalize = p.normalize := by
  by_cases h : p.ntripVersion = 1 ∨ p.ntripVersion = 2
  · have hsame : p.normalize = p := if_pos h
    rw [hsame, hsame]
  · have hone : p.normalize = { p with ntripVersion := 1 } := if_neg h
    rw [hone]
    exact if_pos (.inl rfl)

/-- A value that is replaced by an allowed one needs no second replacement. -/
theorem replaced_twice {α : Type} (allowed : α → Prop) [DecidablePred allowed] {other : α}
    (h : allowed other) (x : α) :
    (if allowed (if allowed x then x else other) then (if allowed x then x else other) else other) =
      if allowed x then x else other := by
  by_cases hx : allowed x
  · rw [if_pos hx, if_pos hx]
  · rw [if_neg hx, if_pos h]

/-- What is repaired needs no repair. -/
theorem normalize_normalize (s : Settings) : s.normalize.normalize = s.normalize := by
  have hne : s.normalize.profiles ≠ [] := by
    intro hnil
    have hactive := normalize_active s
    rw [hnil] at hactive
    simp at hactive
  have hprofiles : s.normalize.normalize.profiles = s.normalize.profiles := by
    show (if s.normalize.profiles = [] then [{}]
      else s.normalize.profiles).map Profile.normalize = _
    rw [if_neg hne]
    show (s.atLeastOne.map Profile.normalize).map Profile.normalize = _
    rw [List.map_map]
    exact List.map_congr_left fun p _ => normalize_profile_twice p
  have hactive : s.normalize.normalize.activeProfile = s.normalize.activeProfile := by
    show (if (if s.normalize.profiles = [] then [{}] else s.normalize.profiles).any
        (·.name = s.normalize.activeProfile) then s.normalize.activeProfile else _) = _
    rw [if_neg hne, if_pos]
    obtain ⟨p, hp, hname⟩ := List.mem_map.mp (normalize_active s)
    exact List.any_eq_true.mpr ⟨p, hp, decide_eq_true hname⟩
  have hserial : s.normalize.normalize.serial = s.normalize.serial := by
    have hdata := replaced_twice (fun n : UInt8 => n = 7 ∨ n = 8) (.inr rfl) s.serial.dataBits
    have hstop := replaced_twice (fun n : UInt8 => n = 1 ∨ n = 2) (.inl rfl) s.serial.stopBits
    have hfive : (5 : UInt8) ∈ [1, 5, 10] := by decide
    have hrate := replaced_twice (fun n : UInt8 => n ∈ [1, 5, 10]) hfive s.serial.novatelRateHz
    simp only [normalize, SerialCfg.mk.injEq, true_and]
    exact ⟨hdata, hstop, hrate⟩
  have hwindow : s.normalize.normalize.window = s.normalize.window := by
    simp only [normalize, clamp_clamp (by norm_num : (700 : Rat) ≤ 4000),
      clamp_clamp (by norm_num : (480 : Rat) ≤ 3000)]
  show ({ s.normalize with
    activeProfile := s.normalize.normalize.activeProfile
    profiles := s.normalize.normalize.profiles
    serial := s.normalize.normalize.serial
    window := s.normalize.normalize.window } : Settings) = s.normalize
  rw [hprofiles, hactive, hserial, hwindow]

/-- The repair keeps the fields of a user the same. -/
theorem SamePersistable.normalize {s t : Settings} (h : s.SamePersistable t) :
    s.normalize.SamePersistable t.normalize := by
  obtain ⟨hactive, happ, hdisplay, hserial, hprofiles⟩ := h
  refine ⟨?_, happ, hdisplay, ?_, ?_⟩
  · simp only [Settings.normalize, hactive, hprofiles]
  · simp only [Settings.normalize, hserial]
  · simp only [Settings.normalize, hprofiles]

theorem profiles_of_eqv {profiles others : List Profile}
    (h : profiles.isEqv others Profile.eq = true) : profiles = others := by
  induction profiles generalizing others with
  | nil =>
      cases others with
      | nil => rfl
      | cons q others => simp at h
  | cons p profiles ih =>
      cases others with
      | nil => simp at h
      | cons q others =>
          obtain ⟨heq, hrest⟩ := Bool.and_eq_true_iff.mp h
          have hpq : p = q := by
            unfold Profile.eq at heq
            simp only [Bool.and_eq_true, beq_iff_eq] at heq
            exact heq.1.1
          rw [hpq, ih hrest]

/-- Settings that count as equal have the same fields. -/
theorem same_of_persistable_eq {s t : Settings} (h : s.persistableEq t = true) :
    s.SamePersistable t := by
  unfold persistableEq at h
  simp only [Bool.and_eq_true, beq_iff_eq] at h
  obtain ⟨⟨⟨⟨hactive, happ⟩, hdisplay⟩, hserial⟩, hprofiles⟩ := h
  exact ⟨hactive, happ, hdisplay, hserial, profiles_of_eqv hprofiles⟩

end Settings

namespace Store

variable {toml : Toml} {parseF64 : Text → Option F64} {path : Text} {w : Store}

/-- Where the file has what was saved or loaded last, it loads as that. -/
def Honest (toml : Toml) (path : Text) (w : Store) : Prop :=
  ∀ c, w.client = some c → w.synced = true →
    ∃ bytes, w.dir.settings = some bytes ∧ load toml path bytes none = .ok c.lastSaved.normalize

theorem Honest.saveBy (hround : toml.RoundTrip) (h : Honest toml path w) {c : Client}
    (hc : w.client = some c) (fate : SaveFate) {left : Client → Option Client}
    (hleft : ∀ c c', left c = some c' → c' = c) :
    Honest toml path (w.saveBy toml path c fate left) := by
  rcases save_by_cases toml path w c fate left with
    ⟨text, -, htext, heq⟩ | ⟨tmp, heq⟩
  · rw [heq]
    intro c' hc' _
    rw [hleft _ c' hc']
    exact ⟨text.toBytes, rfl, load_saved path hround htext⟩
  · rw [heq]
    intro c' hc' hsynced
    rw [hleft c c' hc']
    exact h c hc hsynced

theorem honest_step (hround : toml.RoundTrip) (h : Honest toml path w) (m : StoreMove) :
    Honest toml path (w.step toml parseF64 path m) := by
  cases m with
  | start fate =>
      unfold step
      simp only
      split
      · rcases start_cases toml parseF64 path w fate with
          ⟨bytes, l, hseen, hload, heq⟩ | ⟨bytes, e, bad, -, -, -, heq⟩ |
            ⟨s, text, -, htext, heq⟩ | ⟨s, tmp, -, heq⟩
        · rw [heq]
          intro c hc _
          obtain rfl := Option.some.inj hc
          obtain ⟨hagain, t, rfl⟩ := load_ok path hload
          refine ⟨bytes, ?_, ?_⟩
          · show w.dir.settings = some bytes
            exact (Option.filter_eq_some_iff.mp hseen).1
          · rw [hagain, Settings.normalize_normalize]
        · rw [heq]
          intro c _ hsynced
          simp at hsynced
        · rw [heq]
          intro c hc _
          obtain rfl := Option.some.inj hc
          exact ⟨text.toBytes, rfl, load_saved path hround htext⟩
        · rw [heq]
          intro c _ hsynced
          simp at hsynced
      · exact h
  | edit settings =>
      intro c hc hsynced
      obtain ⟨before, hbefore, rfl⟩ := Option.map_eq_some_iff.mp hc
      exact h before hbefore hsynced
  | save fate =>
      unfold step
      cases hc : w.client with
      | none => exact h
      | some c => exact h.saveBy hround hc fate fun _ _ heq => (Option.some.inj heq).symm
  | exit fate =>
      unfold step
      cases hc : w.client with
      | none => exact h
      | some c =>
          have hnone : ∀ c c' : Client, (fun _ => none : Client → Option Client) c = some c' →
              c' = c := fun _ _ heq => absurd heq (by simp)
          exact h.saveBy hround hc fate hnone
  | crash =>
      intro c hc
      exact absurd hc (by simp [step])
  | byHand content =>
      intro c _ hsynced
      exact absurd hsynced (by simp [step])

/-- A save that fails leaves the client and the file as they are. -/
theorem save_error {c : Client} (hc : w.client = some c) {fate : SaveFate} {e : Text}
    (h : (save toml path c.settings w.dir fate).2 = .error e) :
    (w.step toml parseF64 path (.save fate)).client = some c ∧
      (w.step toml parseF64 path (.save fate)).dir.settings = w.dir.settings := by
  have hstep : w.step toml parseF64 path (.save fate) = w.saveBy toml path c fate some := by
    unfold step
    rw [hc]
    rfl
  rw [hstep]
  rcases save_by_cases toml path w c fate some with ⟨text, hsaves, -, -⟩ | ⟨tmp, heq⟩
  · obtain ⟨_, -, hsave⟩ := save_done path w.dir hsaves
    rw [hsave] at h
    simp at h
  · rw [heq]
    exact ⟨rfl, rfl⟩

/-- When the Save control shows nothing to save, and the file was loaded or saved since the user
last wrote it, it loads as what the client shows, up to the repair of a load. A save that fails
leaves the control as it shows, and the file as it is. -/
theorem saved_control_honest (hround : toml.RoundTrip) (dir : SettingsDir)
    (moves : List StoreMove) {c : Client}
    (hc : (run toml parseF64 path { dir } moves).client = some c) :
    let w := run toml parseF64 path { dir } moves
    (w.synced = true → c.hasUnsavedChanges = false →
      ∃ bytes l, w.dir.settings = some bytes ∧
        load toml path bytes none = .ok l ∧ l.SamePersistable c.settings.normalize) ∧
    ∀ fate e, (save toml path c.settings w.dir fate).2 = .error e →
      ∃ c', (w.step toml parseF64 path (.save fate)).client = some c' ∧
        c'.hasUnsavedChanges = c.hasUnsavedChanges ∧
        (w.step toml parseF64 path (.save fate)).dir.settings = w.dir.settings := by
  intro w
  refine ⟨?_, fun fate e he => ?_⟩
  · intro hsynced hsaved
    have hrun : ∀ w : Store, Honest toml path w →
        Honest toml path (run toml parseF64 path w moves) := by
      clear hsynced w hc
      induction moves with
      | nil => exact fun w h => h
      | cons m rest ih => exact fun w h => ih _ (honest_step hround h m)
    have hstart : Honest toml path { dir } := fun c hc => absurd hc (by simp)
    obtain ⟨bytes, hbytes, hload⟩ := hrun _ hstart c hc hsynced
    refine ⟨bytes, _, hbytes, hload, ?_⟩
    have heq : c.settings.persistableEq c.lastSaved = true := by
      simpa [Client.hasUnsavedChanges] using hsaved
    obtain ⟨hactive, happ, hdisplay, hserial, hprofiles⟩ :=
      (Settings.same_of_persistable_eq heq).normalize
    exact ⟨hactive.symm, happ.symm, hdisplay.symm, hserial.symm, hprofiles.symm⟩
  · obtain ⟨hclient, hfile⟩ := save_error hc he
    exact ⟨c, hclient, rfl, hfile⟩

/-- A client that has saved its settings, and one with settings that cannot be written. -/
theorem saved_control_honest_default :
    (∃ bytes l, load defaultToml "settings.toml".toList bytes none = .ok l ∧
      l.SamePersistable (Settings.normalize {})) ∧
    ∃ c', ((run defaultToml (fun _ => none) "settings.toml".toList {}
        [.start {}, .edit { activeProfile := "A".toList }]).step defaultToml (fun _ => none)
          "settings.toml".toList (.save .done)).client = some c' ∧
      c'.hasUnsavedChanges = true := by
  obtain ⟨bytes, l, -, hload, hsame⟩ := (@saved_control_honest defaultToml (fun _ => none)
    "settings.toml".toList default_round_trip {} [.start {}, .save .done] ⟨{}, {}⟩ rfl).1 rfl
    (by decide)
  obtain ⟨c', hclient, hlit, -⟩ := (@saved_control_honest defaultToml (fun _ => none)
    "settings.toml".toList default_round_trip {}
    [.start {}, .edit { activeProfile := "A".toList }] ⟨{ activeProfile := "A".toList }, {}⟩
    rfl).2 .done "serialize settings: other settings".toList rfl
  exact ⟨⟨bytes, l, hload, hsame⟩, c', hclient, hlit⟩

end Store

end OpenNtrip
