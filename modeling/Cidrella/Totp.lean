import Cidrella.Lib.Framing
import Cidrella.DnsNames

/-!
# One-time passwords

`auth/totp.js`: six-digit codes of 30-second steps and one-time backup codes. The keyed
hash is the platform's and is a parameter; what is made of it is here.
-/

set_option autoImplicit false

namespace Cidrella

namespace Totp

/-- `BASE32_ALPHABET`. -/
def base32Alphabet : Text := "ABCDEFGHIJKLMNOPQRSTUVWXYZ234567".toList

/-- The loop of `base32Decode`: the accumulator is a 32-bit word, whatever is shifted out
of it is lost. -/
def base32DecodeLoop : Text → Nat → UInt32 → Bytes
  | [], _, _ => []
  | ch :: rest, bits, value =>
    let value := (value <<< 5) ||| UInt32.ofNat (base32Alphabet.idxOf ch)
    let bits := bits + 5
    if 8 ≤ bits then
      ((value >>> UInt32.ofNat (bits - 8)) &&& 255).toUInt8 :: base32DecodeLoop rest
        (bits - 8) value
    else base32DecodeLoop rest bits value

/-- What there is of ASCII in `toUpperCase` of a character. Some characters beyond ASCII have
it: the upper case of `ß` is `SS`. -/
def upperAscii (c : Char) : Text :=
  if c.toNat < 128 then [c.toUpper]
  else match c with
    | 'ß' => ['S', 'S']
    | 'ı' => ['I']
    | 'ŉ' => ['N']
    | 'ſ' => ['S']
    | 'ǰ' => ['J']
    | 'ẖ' => ['H']
    | 'ẗ' => ['T']
    | 'ẘ' => ['W']
    | 'ẙ' => ['Y']
    | 'ẚ' => ['A']
    | 'ﬀ' => ['F', 'F']
    | 'ﬁ' => ['F', 'I']
    | 'ﬂ' => ['F', 'L']
    | 'ﬃ' => ['F', 'F', 'I']
    | 'ﬄ' => ['F', 'F', 'L']
    | 'ﬅ' | 'ﬆ' => ['S', 'T']
    | _ => []

/-- `str.toUpperCase().replace(/[^A-Z2-7]/g, '')`. -/
def cleanBase32 (str : Text) : Text := (str.flatMap upperAscii).filter (· ∈ base32Alphabet)

/-- `base32Decode`. -/
def base32Decode (str : Text) : Bytes := base32DecodeLoop (cleanBase32 str) 0 0

/-- `TOTP_DIGITS`. -/
def totpDigits : Nat := 6

/-- `TOTP_STEP_SECONDS`. -/
def totpStepSeconds : Nat := 30

/-- `writeBigUInt64BE` of a counter. -/
def uint64BE (counter : Nat) : Bytes :=
  (List.range 8).map fun i => UInt8.ofNat (counter / 256 ^ (7 - i))

/-- `hotp`, with the HMAC of the platform. -/
def hotp (hmacSha1 : Bytes → Bytes → Bytes) (secretBytes : Bytes) (counter : Nat) : Text :=
  let mac := hmacSha1 secretBytes (uint64BE counter)
  let offset := (mac.getLastD 0 &&& 0x0f).toNat
  let byte := fun i => (mac.getD (offset + i) 0).toNat
  let code := (byte 0 % 128) * 256 ^ 3 + byte 1 * 256 ^ 2 + byte 2 * 256 + byte 3
  let digits := Nat.toDigits 10 (code % 10 ^ totpDigits)
  List.replicate (totpDigits - digits.length) '0' ++ digits

/-- `totpStep`. -/
def totpStep (nowMs : Nat) : Nat := nowMs / 1000 / totpStepSeconds

/-- `verifyTotp`: the step a code is for, of the current one and its neighbours, unless that
step is spent. -/
def verifyTotp (hmacSha1 : Bytes → Bytes → Bytes) (secret code : Text) (nowMs : Nat)
    (afterStep : Option Nat) : Option Nat :=
  let digits := code.filter fun c => !Address.isTrimmed c
  if digits.length ≠ totpDigits || !digits.all Char.isDigit then none
  else
    let key := base32Decode secret
    if key.length = 0 then none
    else
      let current := totpStep nowMs
      [current, current - 1, current + 1].find? fun step =>
        !afterStep.any (step ≤ ·) && hotp hmacSha1 key step = digits

/-- `normalizeBackupCode`. -/
def normalizeBackupCode (code : Text) : Text :=
  (DnsNames.toLowerCase code).filter fun c => c.isLower || c.isDigit

/-- `looksLikeBackupCode`. -/
def looksLikeBackupCode (code : Text) : Bool := (normalizeBackupCode code).length = 10

end Totp

end Cidrella
