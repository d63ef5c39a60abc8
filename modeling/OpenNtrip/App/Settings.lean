import OpenNtrip.Lib.KeyedList
import OpenNtrip.Rust.Strings

/-!
# Settings

`settings.rs`: the settings with their defaults, the repair after loading and the active profile.
Of the tables `[app]`, `[window]` and `[state]` the model keeps the fields that the repair or the
legacy import sets.
-/

namespace OpenNtrip

/-! ## Closed vocabularies -/

/-- Update-check cadence. -/
inductive CheckUpdates where
  | off
  | startup
  | weekly
  deriving DecidableEq, Repr

inductive ParityCfg where
  | none
  | even
  | odd
  deriving DecidableEq, Repr

inductive NovatelFormat where
  | rtcm
  | rtcmv3
  | cmr
  | rtca
  | omnistar
  | novatel
  deriving DecidableEq, Repr

inductive ProtocolCfg where
  | ntrip
  | tcp
  deriving DecidableEq, Repr

/-- The profile's choice when to send positions. -/
inductive GgaMode where
  | off
  | whenRequired
  | always
  deriving DecidableEq, Repr

/-- Where the positions come from. -/
inductive GgaSource where
  | manual
  | receiver
  deriving DecidableEq, Repr

/-- What a display slot shows. -/
inductive DisplayId where
  | age
  | hdop
  | vdop
  | pdop
  | elevationFeet
  | elevationMeters
  | speedMph
  | speedMphSmoothed
  | speedKmh
  | speedKmhSmoothed
  | heading
  | dataAge
  | dataRate
  | nothing
  deriving DecidableEq, Repr

/-! ## Tables -/

structure AppCfg where
  checkUpdates : CheckUpdates := .weekly
  audioAlertFile : Text := []
  writeEventLog : Bool := true
  writeNmeaLog : Bool := true
  deriving DecidableEq, Repr

/-- Bookkeeping the app writes for itself. -/
structure StateCfg where
  lastUpdateCheck : Text := []
  serialConnected : Bool := false
  ntripConnected : Bool := false
  deriving DecidableEq, Repr

structure WindowCfg where
  size : F64 × F64 := (.finite 980, .finite 860)
  deriving DecidableEq, Repr

structure DisplayCfg where
  center : DisplayId := .elevationFeet
  right : DisplayId := .dataAge
  deriving DecidableEq, Repr

structure SerialCfg where
  port : Text := []
  baud : UInt32 := 115200
  dataBits : UInt8 := 8
  stopBits : UInt8 := 1
  parity : ParityCfg := .none
  novatelAutoconfig : Bool := false
  novatelFormat : NovatelFormat := .rtcmv3
  novatelRateHz : UInt8 := 5
  deriving DecidableEq, Repr

structure Profile where
  name : Text := "Default".toList
  host : Text := []
  port : UInt16 := 2101
  tls : Bool := false
  allowInvalidCerts : Bool := false
  ntripVersion : UInt8 := 1
  protocol : ProtocolCfg := .ntrip
  username : Text := []
  password : Text := []
  mountpoint : Text := []
  ggaMode : GgaMode := .whenRequired
  ggaSource : GgaSource := .receiver
  manualLat : F64 := .finite 0
  manualLon : F64 := .finite 0
  deriving DecidableEq, Repr

structure Settings where
  schema : UInt32 := 1
  activeProfile : Text := "Default".toList
  app : AppCfg := {}
  window : WindowCfg := {}
  display : DisplayCfg := {}
  serial : SerialCfg := {}
  state : StateCfg := {}
  profiles : List Profile := [{}]
  deriving DecidableEq, Repr

/-- `f64::eq`: nothing equals NaN. -/
def F64.eq (x y : F64) : Bool := x == y && x != .nan

/-- `Profile::eq`, which the struct derives from its fields. -/
def Profile.eq (p q : Profile) : Bool :=
  p == q && p.manualLat.eq q.manualLat && p.manualLon.eq q.manualLon

/-- `Profile::normalize`. -/
def Profile.normalize (p : Profile) : Profile :=
  if p.ntripVersion = 1 ∨ p.ntripVersion = 2 then p else { p with ntripVersion := 1 }

namespace Settings

/-- `active_index`. -/
def activeIndex (s : Settings) : Nat := KeyedList.position Profile.name s.profiles s.activeProfile

/-- `active`, which panics at `none`. -/
def active (s : Settings) : Option Profile := s.profiles[s.activeIndex]?

/-- `Settings::normalize`. -/
def normalize (s : Settings) : Settings :=
  let profiles := if s.profiles = [] then [{}] else s.profiles
  let activeProfile :=
    if profiles.any (·.name = s.activeProfile) then s.activeProfile
    else (profiles.head?.map Profile.name).getD s.activeProfile
  let (w, h) := s.window.size
  { s with
    schema := 1
    activeProfile
    profiles := profiles.map Profile.normalize
    serial := { s.serial with
      dataBits := if s.serial.dataBits = 7 ∨ s.serial.dataBits = 8 then s.serial.dataBits else 8
      stopBits := if s.serial.stopBits = 1 ∨ s.serial.stopBits = 2 then s.serial.stopBits else 1
      novatelRateHz :=
        if s.serial.novatelRateHz ∈ [1, 5, 10] then s.serial.novatelRateHz else 5 }
    window := { s.window with size := (w.clamp 700 4000, h.clamp 480 3000) } }

end Settings
end OpenNtrip
