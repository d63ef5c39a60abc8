import OpenNtrip.NtripCore.Request
import OpenNtrip.Rust.Strings
import OpenNtrip.Rust.Utf8
import Mathlib.Data.List.GetD

/-!
# Reading Base64

The decoder of RFC 4648, which the program has no use for, as the reference for its encoder:
`decode_encode` says that an encoded byte string is read back. Credentials are therefore told apart
by the line that carries them (`auth_line_eq_iff`).
-/

namespace OpenNtrip
namespace Base64

/-- The number that a character stands for, without the encoder's table: the letters come first,
capitals before small ones, then the digits and two signs. -/
def value (c : Char) : Option Nat :=
  if 'A' ≤ c ∧ c ≤ 'Z' then some (c.toNat - 65)
  else if 'a' ≤ c ∧ c ≤ 'z' then some (26 + (c.toNat - 97))
  else if '0' ≤ c ∧ c ≤ '9' then some (52 + (c.toNat - 48))
  else if c = '+' then some 62
  else if c = '/' then some 63
  else none

/-- The decoder: four characters at a time, with padding in the last group only. -/
def decode : Text → Option Bytes
  | [] => some []
  | [a, b, '=', '='] => do
    let i ← value a
    let j ← value b
    some [UInt8.ofNat (i * 4 + j / 16)]
  | [a, b, c, '='] => do
    let i ← value a
    let j ← value b
    let k ← value c
    some [UInt8.ofNat (i * 4 + j / 16), UInt8.ofNat (j * 16 + k / 4)]
  | a :: b :: c :: d :: rest => do
    let i ← value a
    let j ← value b
    let k ← value c
    let l ← value d
    let bytes ← decode rest
    some (UInt8.ofNat (i * 4 + j / 16) :: UInt8.ofNat (j * 16 + k / 4) ::
      UInt8.ofNat (k * 64 + l) :: bytes)
  | _ => none

/-- The alphabet lists its symbols by what they stand for. -/
theorem alphabet_value {n : Nat} (h : n < 64) : value (ALPHABET.getD n '=') = some n := by
  have hall : ∀ m < 64, value (ALPHABET.getD m '=') = some m := by decide +kernel
  exact hall n h

/-- It has every character that stands for a number, and no other. -/
theorem mem_alphabet_iff {c : Char} : c ∈ ALPHABET ↔ (value c).isSome = true := by
  constructor
  · have hall : (ALPHABET.all fun d => (value d).isSome) = true := by decide
    exact List.all_eq_true.mp hall c
  · intro h
    have hall : ∀ n < 128, (value (Char.ofNat n)).isSome = true → Char.ofNat n ∈ ALPHABET := by
      decide +kernel
    have hlt : c.toNat < 128 := by
      by_contra hlarge
      have hbound : ∀ d : Char, d.toNat < 128 → ¬ c ≤ d := by
        intro d hd hle
        have hnat : c.toNat ≤ d.toNat := hle
        omega
      have hne : ∀ d : Char, d.toNat < 128 → c ≠ d := fun d hd heq => hlarge (heq ▸ hd)
      rw [value, if_neg fun h => hbound _ (by decide) h.2, if_neg fun h => hbound _ (by decide) h.2,
        if_neg fun h => hbound _ (by decide) h.2, if_neg (hne _ (by decide)),
        if_neg (hne _ (by decide))] at h
      simp at h
    rw [← Char.ofNat_toNat c] at h ⊢
    exact hall c.toNat hlt h

/-- A symbol stands for the six bits it was chosen for. -/
theorem value_symbol (n : Nat) : value (symbol n) = some (n % 64) :=
  alphabet_value (Nat.mod_lt n (by omega))

/-- Padding is not a symbol. -/
theorem symbol_ne_padding (n : Nat) : symbol n ≠ '=' := by
  intro h
  have hvalue := value_symbol n
  rw [h] at hvalue
  have hpadding : value '=' = none := by decide
  simp [hpadding] at hvalue

/-- The bits of a group of three bytes. -/
theorem group_eq (a b c : UInt8) :
    a.toNat <<< 16 ||| b.toNat <<< 8 ||| c.toNat =
      a.toNat * 65536 + b.toNat * 256 + c.toNat := by
  have hb : b.toNat < 256 := b.toNat_lt
  have hc : c.toNat < 256 := c.toNat_lt
  have hlow : b.toNat <<< 8 ||| c.toNat = b.toNat * 256 + c.toNat := by
    rw [← Nat.shiftLeft_add_eq_or_of_lt (by omega), Nat.shiftLeft_eq]
  rw [Nat.or_assoc, hlow, ← Nat.shiftLeft_add_eq_or_of_lt (by omega), Nat.shiftLeft_eq]
  omega

/-- The three bytes of a group, from its four symbols. -/
theorem first_byte (n : Nat) :
    UInt8.ofNat ((n >>> 18) % 64 * 4 + (n >>> 12) % 64 / 16) = UInt8.ofNat (n / 65536) := by
  rw [← UInt8.toNat_inj]
  simp only [UInt8.toNat_ofNat', Nat.shiftRight_eq_div_pow]
  omega

theorem second_byte (n : Nat) :
    UInt8.ofNat ((n >>> 12) % 64 * 16 + (n >>> 6) % 64 / 4) = UInt8.ofNat (n / 256) := by
  rw [← UInt8.toNat_inj]
  simp only [UInt8.toNat_ofNat', Nat.shiftRight_eq_div_pow]
  omega

theorem third_byte (n : Nat) :
    UInt8.ofNat ((n >>> 6) % 64 * 64 + n % 64) = UInt8.ofNat n := by
  rw [← UInt8.toNat_inj]
  simp only [UInt8.toNat_ofNat', Nat.shiftRight_eq_div_pow]
  omega

/-- A group that is not padded is read on its own. -/
theorem decode_group {a b c d : Char} {i j k l : Nat} (rest : Text) (ha : value a = some i)
    (hb : value b = some j) (hc : value c = some k) (hd : value d = some l) (hpad : d ≠ '=') :
    decode (a :: b :: c :: d :: rest) = (decode rest).map fun bytes =>
      UInt8.ofNat (i * 4 + j / 16) :: UInt8.ofNat (j * 16 + k / 4) ::
        UInt8.ofNat (k * 64 + l) :: bytes := by
  rw [decode.eq_4 a b c d rest (fun _ h _ => hpad h) (fun h _ => hpad h), ha, hb, hc, hd]
  cases decode rest with
  | none => rfl
  | some bytes => rfl

/-- A group of two bytes. -/
theorem decode_pair {a b c : Char} {i j k : Nat} (ha : value a = some i) (hb : value b = some j)
    (hc : value c = some k) (hpad : c ≠ '=') :
    decode [a, b, c, '='] =
      some [UInt8.ofNat (i * 4 + j / 16), UInt8.ofNat (j * 16 + k / 4)] := by
  rw [decode.eq_3 a b c hpad, ha, hb, hc]
  rfl

/-- An encoded byte string is read back. -/
theorem decode_encode (bytes : Bytes) : decode (encode bytes) = some bytes := by
  induction bytes using encode.induct with
  | case1 => rfl
  | case2 a =>
      have hn : a.toNat <<< 16 = a.toNat * 65536 := Nat.shiftLeft_eq _ _
      have ha : UInt8.ofNat (a.toNat * 65536 / 65536) = a := by
        rw [Nat.mul_div_cancel _ (by omega), UInt8.ofNat_toNat]
      simp only [encode, decode, value_symbol, Option.bind_eq_bind, Option.bind_some, first_byte,
        hn, ha]
  | case3 a b =>
      have ha := a.toNat_lt
      have hb := b.toNat_lt
      have hn := group_eq a b 0
      simp only [UInt8.toNat_zero, Nat.or_zero, Nat.add_zero] at hn
      have hfirst : (a.toNat * 65536 + b.toNat * 256) / 65536 = a.toNat := by omega
      have hsecond : UInt8.ofNat ((a.toNat * 65536 + b.toNat * 256) / 256) = b := by
        rw [← UInt8.toNat_inj, UInt8.toNat_ofNat']
        omega
      simp only [encode]
      rw [decode_pair (value_symbol _) (value_symbol _) (value_symbol _) (symbol_ne_padding _),
        first_byte, second_byte, hn, hfirst, hsecond, UInt8.ofNat_toNat]
  | case4 a b c rest ih =>
      have ha := a.toNat_lt
      have hb := b.toNat_lt
      have hc := c.toNat_lt
      have hfirst : UInt8.ofNat ((a.toNat * 65536 + b.toNat * 256 + c.toNat) / 65536) = a := by
        rw [← UInt8.toNat_inj, UInt8.toNat_ofNat']
        omega
      have hsecond : UInt8.ofNat ((a.toNat * 65536 + b.toNat * 256 + c.toNat) / 256) = b := by
        rw [← UInt8.toNat_inj, UInt8.toNat_ofNat']
        omega
      have hthird : UInt8.ofNat (a.toNat * 65536 + b.toNat * 256 + c.toNat) = c := by
        rw [← UInt8.toNat_inj, UInt8.toNat_ofNat']
        omega
      simp only [encode]
      rw [decode_group _ (value_symbol _) (value_symbol _) (value_symbol _) (value_symbol _)
        (symbol_ne_padding _), ih, first_byte, second_byte, third_byte, group_eq, hfirst, hsecond,
        hthird]
      rfl

/-- Byte strings are told apart by their encoding. -/
theorem encode_injective {a b : Bytes} (h : encode a = encode b) : a = b := by
  have hdecoded := congrArg decode h
  rw [decode_encode, decode_encode] at hdecoded
  exact Option.some.inj hdecoded

/-! ## The form of an encoded byte string -/

theorem symbol_mem (n : Nat) : symbol n ∈ ALPHABET := by
  have hlt : n % 64 < ALPHABET.length := Nat.mod_lt n (by omega)
  rw [symbol, List.getD_eq_getElem _ _ hlt]
  exact List.getElem_mem hlt

/-- Four characters for every three bytes that are begun. -/
theorem encode_length (bytes : Bytes) :
    (encode bytes).length = 4 * ((bytes.length + 2) / 3) := by
  induction bytes using encode.induct with
  | case1 => rfl
  | case2 a => simp [encode]
  | case3 a b => simp [encode]
  | case4 a b c rest ih =>
      simp only [encode, List.length_cons, ih]
      omega

/-- Symbols, and then as much padding as bytes are missing in the last group. -/
theorem encode_padded (bytes : Bytes) : ∃ symbols,
    encode bytes = symbols ++ List.replicate ((3 - bytes.length % 3) % 3) '=' ∧
      ∀ c ∈ symbols, c ∈ ALPHABET := by
  induction bytes using encode.induct with
  | case1 => exact ⟨[], rfl, fun c hc => absurd hc List.not_mem_nil⟩
  | case2 a =>
      let n := a.toNat <<< 16
      refine ⟨[symbol (n >>> 18), symbol (n >>> 12)], rfl, ?_⟩
      simp only [List.forall_mem_cons]
      exact ⟨symbol_mem _, symbol_mem _, fun c hc => absurd hc List.not_mem_nil⟩
  | case3 a b =>
      let n := a.toNat <<< 16 ||| b.toNat <<< 8
      refine ⟨[symbol (n >>> 18), symbol (n >>> 12), symbol (n >>> 6)], rfl, ?_⟩
      simp only [List.forall_mem_cons]
      exact ⟨symbol_mem _, symbol_mem _, symbol_mem _, fun c hc => absurd hc List.not_mem_nil⟩
  | case4 a b c rest ih =>
      obtain ⟨symbols, hrest, hsymbols⟩ := ih
      let n := a.toNat <<< 16 ||| b.toNat <<< 8 ||| c.toNat
      have hmissing : (a :: b :: c :: rest).length % 3 = rest.length % 3 := by
        simp only [List.length_cons]
        omega
      refine ⟨symbol (n >>> 18) :: symbol (n >>> 12) :: symbol (n >>> 6) :: symbol n :: symbols,
        ?_, ?_⟩
      · rw [hmissing, encode, hrest]
        rfl
      · simp only [List.forall_mem_cons]
        exact ⟨symbol_mem _, symbol_mem _, symbol_mem _, symbol_mem _, hsymbols⟩

end Base64

/-! ## Credentials -/

namespace Request

/-- A text without the carriage returns and line feeds in it. -/
def withoutLineEnds (s : Text) : Text := s.filter fun c => c ∉ ['\r', '\n']

/-- Line ends are what is stripped from a credential, and nothing else. -/
theorem strip_crlf_eq (value : Text) : stripCrlf value = withoutLineEnds value := by
  refine List.filter_congr fun c _ => ?_
  rw [Bool.eq_iff_iff]
  simp

theorem mem_without_line_ends {s : Text} {c : Char} :
    c ∈ withoutLineEnds s ↔ c ∈ s ∧ c ≠ '\r' ∧ c ≠ '\n' := by
  simp [withoutLineEnds]

/-- The credentials of a request: the username and the password without line ends, parted by a
colon. -/
def credentials (cfg : SessionConfig) : Text :=
  withoutLineEnds cfg.username ++ ':' :: withoutLineEnds cfg.password

theorem auth_line_credentials (cfg : SessionConfig) : authLine cfg =
    "Authorization: Basic ".toList ++ Base64.encode (Text.toBytes (credentials cfg)) := by
  have hcredentials : stripCrlf cfg.username ++ ":".toList ++ stripCrlf cfg.password =
      credentials cfg := by
    rw [credentials, strip_crlf_eq, strip_crlf_eq, List.append_assoc]
    rfl
  unfold authLine
  rw [hcredentials]

/-- Credentials are told apart by the Authorization line. -/
theorem auth_line_eq_iff {cfg cfg' : SessionConfig} :
    authLine cfg = authLine cfg' ↔ credentials cfg = credentials cfg' := by
  rw [auth_line_credentials, auth_line_credentials]
  constructor
  · intro h
    exact Text.to_bytes_injective (Base64.encode_injective (List.append_cancel_left h))
  · intro h
    rw [h]

/-- Credentials are a username and a password, unless the username has a colon. -/
theorem credentials_eq_iff {cfg cfg' : SessionConfig} (h : ':' ∉ cfg.username)
    (h' : ':' ∉ cfg'.username) : credentials cfg = credentials cfg' ↔
      withoutLineEnds cfg.username = withoutLineEnds cfg'.username ∧
        withoutLineEnds cfg.password = withoutLineEnds cfg'.password := by
  have hkept : ∀ {username : Text}, ':' ∉ username → ':' ∉ withoutLineEnds username :=
    fun hcolon hmem => hcolon (mem_without_line_ends.mp hmem).1
  constructor
  · intro heq
    have hsplit := congrArg (Text.splitOnce ':') heq
    rw [credentials, credentials, Text.split_once_append (hkept h),
      Text.split_once_append (hkept h')] at hsplit
    exact Prod.mk.inj (Option.some.inj hsplit)
  · rintro ⟨husername, hpassword⟩
    rw [credentials, credentials, husername, hpassword]

end Request

namespace Base64

/-- An encoded byte string has four characters for every three bytes that are begun: symbols of the
alphabet, which is the standard's, and padding at the end. The decoder reads it back. Byte strings
are told apart by their encoding, and credentials by the Authorization line, as usernames and
passwords are if the usernames have no colon. -/
theorem encode_decodable :
    (∀ c, c ∈ ALPHABET ↔ (value c).isSome = true) ∧
    (∀ bytes, (encode bytes).length = 4 * ((bytes.length + 2) / 3) ∧
      (∃ symbols, encode bytes = symbols ++ List.replicate ((3 - bytes.length % 3) % 3) '=' ∧
        ∀ c ∈ symbols, c ∈ ALPHABET) ∧
      decode (encode bytes) = some bytes) ∧
    (∀ a b, encode a = encode b → a = b) ∧
    ∀ cfg cfg' : SessionConfig,
      (Request.authLine cfg = Request.authLine cfg' ↔
        Request.credentials cfg = Request.credentials cfg') ∧
      (':' ∉ cfg.username → ':' ∉ cfg'.username →
        (Request.authLine cfg = Request.authLine cfg' ↔
          Request.withoutLineEnds cfg.username = Request.withoutLineEnds cfg'.username ∧
            Request.withoutLineEnds cfg.password =
              Request.withoutLineEnds cfg'.password)) := by
  refine ⟨fun c => mem_alphabet_iff, fun bytes => ?_, fun a b => encode_injective,
    fun cfg cfg' => ?_⟩
  · exact ⟨encode_length bytes, encode_padded bytes, decode_encode bytes⟩
  · refine ⟨Request.auth_line_eq_iff, fun h h' => ?_⟩
    exact Request.auth_line_eq_iff.trans (Request.credentials_eq_iff h h')

end Base64
end OpenNtrip
