import OpenNtrip.NtripCore.Types

/-!
# Request construction

The wire bytes of a request and the per-line copies for the connection log, from
`request.rs` and `base64.rs`. The log copy of the Authorization line is masked.
-/

namespace OpenNtrip

namespace Base64

/-- The RFC 4648 alphabet. -/
def ALPHABET : Text :=
  "ABCDEFGHIJKLMNOPQRSTUVWXYZabcdefghijklmnopqrstuvwxyz0123456789+/".toList

/-- The alphabet character for the low six bits of a number. -/
def symbol (n : Nat) : Char := ALPHABET.getD (n % 64) '='

/-- `base64::encode`: three bytes at a time, padding the last group. -/
def encode : Bytes → Text
  | [] => []
  | [a] =>
    let n := a.toNat <<< 16
    [symbol (n >>> 18), symbol (n >>> 12), '=', '=']
  | [a, b] =>
    let n := a.toNat <<< 16 ||| b.toNat <<< 8
    [symbol (n >>> 18), symbol (n >>> 12), symbol (n >>> 6), '=']
  | a :: b :: c :: rest =>
    let n := a.toNat <<< 16 ||| b.toNat <<< 8 ||| c.toNat
    symbol (n >>> 18) :: symbol (n >>> 12) :: symbol (n >>> 6) :: symbol n :: encode rest

end Base64

namespace Request

/-- Percent-encode the bytes that would break the request line. -/
def encodeMountpoint (mount : Text) : Text :=
  (Text.toBytes mount).flatMap fun b =>
    if b ≤ 0x20 ∨ 0x7f ≤ b then '%' :: hexByte b else [Char.ofNat b.toNat]

/-- `char::is_ascii_control`. -/
def isAsciiControl (c : Char) : Bool := c.toNat ≤ 0x1f || c.toNat == 0x7f

/-- Strip every ASCII control character from a header value. -/
def cleanHeader (value : Text) : Text := value.filter fun c => !isAsciiControl c

/-- Strip carriage returns and line feeds from a credential. -/
def stripCrlf (value : Text) : Text := value.filter fun c => c != '\r' && c != '\n'

/-- The Authorization line that goes on the wire. -/
def authLine (cfg : SessionConfig) : Text :=
  let credentials := stripCrlf cfg.username ++ ":".toList ++ stripCrlf cfg.password
  "Authorization: Basic ".toList ++ Base64.encode (Text.toBytes credentials)

/-- The log copy of a wire line. -/
def maskAuth (line : Text) : Text :=
  if Text.startsWith line "Authorization:".toList then "Authorization: Basic ****".toList
  else line

/-- The request lines in the order they are sent. -/
def requestLines (cfg : SessionConfig) : List Text :=
  let mountpoint := encodeMountpoint cfg.mountpoint
  let host := cleanHeader cfg.host
  let userAgent := cleanHeader cfg.userAgent
  let auth := if cfg.username.isEmpty then [] else [authLine cfg]
  match cfg.version with
  | .v1 =>
    ["GET /".toList ++ mountpoint ++ " HTTP/1.0".toList,
      "User-Agent: ".toList ++ userAgent,
      "Accept: */*".toList,
      "Connection: close".toList] ++ auth
  | .v2 =>
    ["GET /".toList ++ mountpoint ++ " HTTP/1.1".toList,
      "Host: ".toList ++ host ++ ":".toList ++ decimalText cfg.port.toNat,
      "Ntrip-Version: Ntrip/2.0".toList,
      "User-Agent: ".toList ++ userAgent,
      "Accept: */*".toList] ++ auth ++ ["Connection: close".toList]

/-- `request::build`: the lines for the connection log and the bytes for the wire. -/
def build (cfg : SessionConfig) : List Text × Bytes :=
  let lines := requestLines cfg
  let wire := (lines.flatMap fun line => line ++ "\r\n".toList) ++ "\r\n".toList
  (lines.map maskAuth, Text.toBytes wire)

end Request

end OpenNtrip
