import OpenNtrip.Rust.Std

/-!
# The vocabulary of the protocol engine

The public types of `ntrip-core`: what a session is configured with, what it asks of its
caller, and why it closes.
-/

namespace OpenNtrip

/-- Protocol revision to request: the ICY-flavored dialect or the HTTP/1.1 mapping. -/
inductive NtripVersion where
  | v1
  | v2
  deriving DecidableEq, Repr

/-- `ntrip` performs the request/response handshake; `rawTcp` is a bare correction pipe. -/
inductive Transport where
  | ntrip
  | rawTcp
  deriving DecidableEq, Repr

/-- When the session asks its caller for an NMEA GGA position. -/
inductive GgaPolicy where
  | off
  | whenRequired (streamRequires : Bool)
  | always
  deriving DecidableEq, Repr

/-- The configuration of one session. An empty mountpoint requests the sourcetable; an empty
username sends no Authorization header. -/
structure SessionConfig where
  host : Text
  port : UInt16
  mountpoint : Text
  username : Text
  password : Text
  version : NtripVersion
  transport : Transport
  userAgent : Text
  gga : GgaPolicy
  deriving DecidableEq, Repr

/-- Why a session closed. -/
inductive CloseReason where
  | unauthorized
  | mountpointNotFound (sourcetable : Bytes)
  | unknownResponse (raw : Bytes)
  | firstResponseTimeout
  | sourcetableTimeout
  | streamSilence
  | streamCorrupt (detail : Text)
  | remoteClosed
  | cancelled
  deriving DecidableEq, Repr

/-- Everything a session can ask of its caller, emitted in order. -/
inductive Output where
  | protocolTx (line : Text)
  | protocolRx (line : Text)
  | ggaDue
  | corrections (payload : Bytes)
  | sourcetable (body : Bytes)
  | close (reason : CloseReason)
  deriving DecidableEq, Repr

/-- The closes that warrant a reconnect: transient, environment-shaped failures. -/
def CloseReason.autoReconnect : CloseReason → Bool
  | .firstResponseTimeout | .sourcetableTimeout | .streamSilence | .streamCorrupt _
  | .remoteClosed => true
  | _ => false

end OpenNtrip
