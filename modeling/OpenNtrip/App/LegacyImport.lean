import OpenNtrip.App.Settings

/-!
# The legacy import

`settings.rs`: what `ntripconfig.txt` and `Settings.txt` of the original client set, and what their
keys leave in the log. Reading a number with a fraction is left to an argument.
-/

namespace OpenNtrip.Legacy

/-- The pair of one line in `legacy_pairs`. -/
def legacyPair (line : Text) : Option (Text × Text) :=
  let line := line.trim
  if line.toBytes.length < 3 || line.startsWith "#".toList then none
  else
    match line.splitOnce '=' with
    | none => none
    | some (key, value) => if key.toBytes.length < 2 then none else some (key, value)

/-- `legacy_pairs`. -/
def legacyPairs (text : Text) : List (Text × Text) := text.lines.filterMap legacyPair

/-- `legacy_bool`. -/
def legacyBool (value : Text) : Bool :=
  let v := value.trim
  v.eqIgnoreCase "yes".toList || v.eqIgnoreCase "true".toList || v == "1".toList

/-- `from_id` of a closed vocabulary, given its identifiers. -/
def fromId {α : Type} (ids : List (String × α)) (s : Text) : Option α :=
  (ids.find? fun (id, _) => Text.eqIgnoreCase s.trim id.toList).map Prod.snd

/-- The identifiers of `DisplayId`. -/
def displayIds : List (String × DisplayId) :=
  [("age", .age), ("hdop", .hdop), ("vdop", .vdop), ("pdop", .pdop),
    ("elevation-feet", .elevationFeet), ("elevation-meters", .elevationMeters),
    ("speed-mph", .speedMph), ("speed-mph-smoothed", .speedMphSmoothed),
    ("speed-kmh", .speedKmh), ("speed-kmh-smoothed", .speedKmhSmoothed), ("heading", .heading),
    ("data-age", .dataAge), ("data-rate", .dataRate), ("nothing", .nothing)]

/-- The identifiers of `NovatelFormat`. -/
def novatelFormats : List (String × NovatelFormat) :=
  [("rtcm", .rtcm), ("rtcmv3", .rtcmv3), ("cmr", .cmr), ("rtca", .rtca), ("omnistar", .omnistar),
    ("novatel", .novatel)]

/-- What a key of a legacy file does: it sets something, with or without a line in the log, its
value is invalid, it leaves a note, or it is not known. -/
inductive KeyEffect where
  | set (edit : Settings → Settings)
  | silent (edit : Settings → Settings)
  | invalid
  | note (text : Text)
  | unknown

/-- An edit of the first profile. -/
def onProfile (edit : Profile → Profile) (s : Settings) : Settings :=
  { s with profiles := s.profiles.modifyHead edit }

/-- The effect of a value that may not be readable. -/
def KeyEffect.ofOption {α : Type} (value : Option α) (edit : α → Settings → Settings) :
    KeyEffect :=
  match value with
  | some x => .set (edit x)
  | none => .invalid

/-- The match of `import_ntripconfig_key`. -/
def ntripconfigKey (key value : Text) : KeyEffect :=
  let name := key.toAsciiLowercase
  if name = "ntrip caster".toList then .set (onProfile ({ · with host := value.trim }))
  else if name = "ntrip caster port".toList then
    .ofOption (Text.parseUnsigned (2 ^ 16) value.trim) fun n =>
      onProfile ({ · with port := UInt16.ofNat n })
  else if name = "ntrip username".toList then .set (onProfile ({ · with username := value }))
  else if name = "ntrip password".toList then .set (onProfile ({ · with password := value }))
  else if name = "ntrip mountpoint".toList then
    .set (onProfile ({ · with mountpoint := value.trim }))
  else .unknown

/-- The match of `import_settings_key`. -/
def settingsKey (parseF64 : Text → Option F64) (key value : Text) : KeyEffect :=
  let v := value.trim
  let name := key.toAsciiLowercase
  if name = "serial port number".toList then
    .ofOption (Text.parseUnsigned (2 ^ 32) v) fun n s =>
      { s with serial := { s.serial with port := "COM".toList ++ decimalText n } }
  else if name = "serial port speed".toList then
    .ofOption (Text.parseUnsigned (2 ^ 32) v) fun n s =>
      { s with serial := { s.serial with baud := UInt32.ofNat n } }
  else if name = "serial port data bits".toList then
    .ofOption ((Text.parseUnsigned (2 ^ 8) v).filter fun n => n == 7 || n == 8) fun n s =>
      { s with serial := { s.serial with dataBits := UInt8.ofNat n } }
  else if name = "serial port stop bits".toList then
    -- the original's `None` drove the port with one stop bit
    .ofOption ((Text.parseUnsigned (2 ^ 8) v).filter fun n => n ≤ 2) fun n s =>
      { s with serial := { s.serial with stopBits := if n = 0 then 1 else UInt8.ofNat n } }
  else if name = "display center".toList then
    .ofOption (fromId displayIds v) fun id s =>
      { s with display := { s.display with center := id } }
  else if name = "display right".toList then
    .ofOption (fromId displayIds v) fun id s => { s with display := { s.display with right := id } }
  else if name = "audio alert file".toList then
    .set fun s => { s with app := { s.app with audioAlertFile := v } }
  else if name = "write events to file".toList then
    .set fun s => { s with app := { s.app with writeEventLog := legacyBool v } }
  else if name = "write nmea to file".toList then
    .set fun s => { s with app := { s.app with writeNmeaLog := legacyBool v } }
  else if name = "protocol".toList then
    .set (onProfile ({ · with
      protocol := if v.eqIgnoreCase "rawtcpip".toList then .tcp else .ntrip }))
  else if name = "ntrip use manual gga".toList then
    .set (onProfile ({ · with ggaSource := if legacyBool v then .manual else .receiver }))
  else if name = "ntrip manual latitude".toList then
    .ofOption (parseF64 v) fun x => onProfile ({ · with manualLat := x })
  else if name = "ntrip manual longitude".toList then
    .ofOption (parseF64 v) fun x => onProfile ({ · with manualLon := x })
  else if name = "ntrip only send gga once".toList then
    .note ("Note: 'NTRIP Only Send GGA Once' is handled automatically now; ".toList ++
      "nothing imported".toList)
  else if name = "receiver type".toList then
    .set fun s => { s with serial := { s.serial with
      novatelAutoconfig := v.eqIgnoreCase "novatel".toList } }
  else if name = "receiver correction format".toList then
    .ofOption (fromId novatelFormats v) fun f s =>
      { s with serial := { s.serial with novatelFormat := f } }
  else if name = "receiver message rate".toList then
    .ofOption ((Text.parseUnsigned (2 ^ 8) v).filter fun n => n == 1 || n == 5 || n == 10)
      fun n s => { s with serial := { s.serial with novatelRateHz := UInt8.ofNat n } }
  else if name = "check for updates".toList then
    .set fun s => { s with app := { s.app with
      checkUpdates := if legacyBool v then .startup else .off } }
  else if name = "check for updates interval".toList then
    .set fun s => { s with app := { s.app with
      checkUpdates := if v.eqIgnoreCase "weekly".toList then .weekly else .off } }
  else if name = "last checked for updates".toList then
    .silent fun s => { s with state := { s.state with lastUpdateCheck := v } }
  else if name = "serial should be connected".toList then
    .set fun s => { s with state := { s.state with serialConnected := legacyBool v } }
  else if name = "ntrip should be connected".toList then
    .set fun s => { s with state := { s.state with ntripConnected := legacyBool v } }
  else .unknown

/-- `format!("{message} {file}: {key}={value}")`. -/
def keyLine (message file : String) (key value : Text) : Text :=
  message.toList ++ " ".toList ++ file.toList ++ ": ".toList ++ key ++ "=".toList ++ value

/-- The settings after a key and its line in the log, which says what was `imported`. -/
def importKey (file : String) (imported : Text) (key value : Text) (effect : KeyEffect)
    (s : Settings) : Settings × List Text :=
  match effect with
  | .set edit => (edit s, [imported])
  | .silent edit => (edit s, [])
  | .invalid => (s, [keyLine "Ignored invalid value in" file key value])
  | .note text => (s, [text])
  | .unknown => (s, [keyLine "Ignored unknown key in" file key value])

/-- `import_ntripconfig_key`. The password stays out of the log. -/
def importNtripconfigKey (s : Settings) (key value : Text) : Settings × List Text :=
  let imported :=
    if key.eqIgnoreCase "ntrip password".toList then
      "Imported from ntripconfig.txt: NTRIP Password=****".toList
    else keyLine "Imported from" "ntripconfig.txt" key value
  importKey "ntripconfig.txt" imported key value (ntripconfigKey key value) s

/-- `import_settings_key`. -/
def importSettingsKey (parseF64 : Text → Option F64) (s : Settings) (key value : Text) :
    Settings × List Text :=
  importKey "Settings.txt" (keyLine "Imported from" "Settings.txt" key value) key value
    (settingsKey parseF64 key value) s

/-- The pairs of a file, one after the other. -/
def importPairs (importOne : Settings → Text → Text → Settings × List Text) :
    Settings → List (Text × Text) → Settings × List Text
  | s, [] => (s, [])
  | s, (key, value) :: rest =>
    let (s, line) := importOne s key value
    let (s, log) := importPairs importOne s rest
    (s, line ++ log)

/-- The import of a file that may be missing. -/
def importFile (importOne : Settings → Text → Text → Settings × List Text) (opening : String)
    (s : Settings) : Option Text → Settings × List Text
  | none => (s, [])
  | some text =>
    let (s, log) := importPairs importOne s (legacyPairs text)
    (s, opening.toList :: log)

/-- `import_legacy`, given the texts of the two files as far as they can be read. -/
def importLegacy (parseF64 : Text → Option F64) (ntripconfig settingsTxt : Option Text) :
    Option (Settings × List Text) :=
  if ntripconfig.isNone && settingsTxt.isNone then none
  else
    let s : Settings :=
      { activeProfile := "Imported".toList, profiles := [{ name := "Imported".toList }] }
    let (s, log) :=
      importFile importNtripconfigKey "Importing legacy ntripconfig.txt" s ntripconfig
    let (s, more) :=
      importFile (importSettingsKey parseF64) "Importing legacy Settings.txt" s settingsTxt
    some (s.normalize, log ++ more)

end OpenNtrip.Legacy
