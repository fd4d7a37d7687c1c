import Cidrella.Lib.Text

/-!
# Address texts

The address core of `utils/address.js`: reading a text as an IPv4 or IPv6 address
(`parseIp`), writing an address in its one canonical spelling (`formatIp`), and the two
together (`canonicalizeIp`).

Texts are lists of characters. An address is a value below `2 ^ bits`, where `bits` is
32 or 128. An IPv6 text in `::ffff:0:0/96` is read as the IPv4 address it maps to.
-/

set_option autoImplicit false

namespace Cidrella

namespace Address

open Text

/-- `IPV4_BITS` of the source. -/
def ipv4Bits : Nat := 32

/-- `IPV6_BITS` of the source. -/
def ipv6Bits : Nat := 128

/-! ## Reading -/

/-- The characters `String.prototype.trim` removes: white space and line terminators. -/
def isTrimmed (c : Char) : Bool :=
  c ∈ ['\t', '\n', '\x0b', '\x0c', '\r', ' ', '\u00a0', '\u1680', '\u2028', '\u2029', '\u202f',
    '\u205f', '\u3000', '\ufeff'] || ('\u2000' ≤ c && c ≤ '\u200a')

/-- `String.prototype.trim`. -/
def trim (text : Text) : Text :=
  ((text.dropWhile isTrimmed).reverse.dropWhile isTrimmed).reverse

/-- `V4_OCTET_RE`: one to three decimal digits. -/
def isOctet (text : Text) : Bool :=
  1 ≤ text.length && text.length ≤ 3 && text.all Char.isDigit

/-- `V6_GROUP_RE`: one to four hexadecimal digits. -/
def isGroup (text : Text) : Bool :=
  1 ≤ text.length && text.length ≤ 4 && text.all isHexDigit

/-- One octet of a dotted quad. -/
def parseOctet (text : Text) : Option Nat :=
  if isOctet text && readDigits 10 text ≤ 255 then some (readDigits 10 text) else none

/-- A dotted quad. Leading zeros are accepted. -/
def parseV4 (text : Text) : Option Nat := do
  let octets := text.splitOn '.'
  if octets.length ≠ 4 then none
  else
    let values ← octets.mapM parseOctet
    some (joinGroups 8 values)

/-- One hextet. -/
def parseGroup (text : Text) : Option Nat :=
  if isGroup text then some (readDigits 16 text) else none

/-- The hextets of a text without `::`; the empty text has none. -/
def colonParts (text : Text) : List Text :=
  if text = [] then [] else text.splitOn ':'

/-- A trailing dotted quad stands for the last two hextets. -/
def trailingQuad (parts : List Text) : Bool :=
  match parts.getLast? with
  | some last => '.' ∈ last
  | none => false

/-- The hextets with the ones `::` left out filled in, and the whole value. -/
def joinHextets (hasDoubleColon : Bool) (headCount : Nat) (parts : List Text)
    (trailing : Option Nat) : Option Nat := do
  let groupCount := if trailing.isNone then 8 else 6
  -- `::` stands for one or more zero groups, so there must be room for one.
  if hasDoubleColon && groupCount ≤ parts.length then none
  else
    let filled :=
      if hasDoubleColon then
        parts.take headCount ++ List.replicate (groupCount - parts.length) ['0'] ++
          parts.drop headCount
      else parts
    if filled.length ≠ groupCount then none
    else
      let values ← filled.mapM parseGroup
      let value := joinGroups 16 values
      some (match trailing with
        | some quad => (value <<< 32) + quad
        | none => value)

/-- An IPv6 text. `embeddedV4` allows a trailing dotted quad. -/
def parseV6 (text : Text) (embeddedV4 : Bool) : Option Nat :=
  let halves := splitDouble ':' text
  -- `indexOf('::') !== lastIndexOf('::')`: a second `::` starts after the first one.
  if (halves.any fun cut => (splitDouble ':' (':' :: cut.2)).isSome) then none
  else
    let hasDoubleColon := halves.isSome
    let headParts := colonParts (match halves with | some cut => cut.1 | none => text)
    let tailParts := colonParts (match halves with | some cut => cut.2 | none => [])
    let parts := headParts ++ tailParts
    if trailingQuad parts then
      if !embeddedV4 then none
      -- With `::` after it the quad does not stand last.
      else if hasDoubleColon && tailParts.isEmpty then none
      else do
        let quad ← parseV4 (parts.getLastD [])
        joinHextets hasDoubleColon headParts.length parts.dropLast (some quad)
    else joinHextets hasDoubleColon headParts.length parts none

/-- The first address of `::ffff:0:0/96`. -/
def v4MappedPrefix : Nat := 0xffff <<< 32

/-- The last address of `::ffff:0:0/96`. -/
def v4MappedLast : Nat := v4MappedPrefix + 0xffffffff

theorem v4MappedPrefix_eq : v4MappedPrefix = 0xffff * 2 ^ 32 := by decide

theorem v4MappedLast_eq : v4MappedLast = 0xffff * 2 ^ 32 + (2 ^ 32 - 1) := by decide

/-- `V4_MAPPED_MASK` of the source. -/
def v4MappedMask : Nat := (1 <<< 128) - (1 <<< 32)

/-- What `parseIp` returns: the value, its width, and the zone after `%`. -/
structure ParsedIp where
  value : Nat
  bits : Nat
  zoneId : Option Text := none
  deriving DecidableEq, Repr

/-- The options of `parseIp`, with its defaults. -/
structure ParseOptions where
  zoneId : Bool := true
  mapV4 : Bool := true
  embeddedV4 : Bool := true

/-- The text up to the first `%` and the zone after it, if there is a `%`. -/
def splitZone (text : Text) : Text × Option Text :=
  match text.dropWhile (· ≠ '%') with
  | [] => (text, none)
  | _ :: zone => (text.takeWhile (· ≠ '%'), some zone)

/-- Any address text. -/
def parseIp (text : Text) (options : ParseOptions := {}) : Option ParsedIp :=
  let trimmed := trim text
  if trimmed = [] then none
  else
    let (body, zone) := splitZone trimmed
    if zone.isSome && (!options.zoneId || zone = some []) then none
    else if ':' ∈ body then do
      let value ← parseV6 body (options.embeddedV4 || options.mapV4)
      if options.mapV4 && value &&& v4MappedMask == v4MappedPrefix then
        some ⟨value &&& 0xffffffff, ipv4Bits, zone⟩
      else some ⟨value, ipv6Bits, zone⟩
    -- A zone on an IPv4 text is meaningless.
    else if zone.isSome then none
    else do
      let value ← parseV4 body
      some ⟨value, ipv4Bits, none⟩

/-! ## Writing -/

/-- The length of the run of zero groups at the front. -/
def zeroRun (parts : List Text) : Nat := (parts.takeWhile (· = ['0'])).length

/-- The loop of `formatIp` that finds the longest run of zero groups: `i` is its
position and the pair is `bestStart`, `bestLen`. A later run must be longer to win. -/
def bestZeroRun (parts : List Text) : (fuel i : Nat) → Nat × Nat → Nat × Nat
  | 0, _, best => best
  | fuel + 1, i, best =>
    if 8 ≤ i then best
    else if parts.getD i [] ≠ ['0'] then bestZeroRun parts fuel (i + 1) best
    else
      let length := zeroRun (parts.drop i)
      bestZeroRun parts fuel (i + length) (if best.2 < length then (i, length) else best)

/-- An address in its canonical spelling: a dotted quad, or lower case hextets with the
first longest run of two or more zero groups replaced by `::`. -/
def formatIp (value bits : Nat) : Text :=
  if bits = ipv4Bits then
    ['.'].intercalate ((groups 8 4 value).map (Nat.toDigits 10))
  else
    let parts := (groups 16 8 value).map (Nat.toDigits 16)
    let best := bestZeroRun parts 8 0 (0, 0)
    if 2 ≤ best.2 then
      [':'].intercalate (parts.take best.1) ++ ':' :: ':' ::
        [':'].intercalate (parts.drop (best.1 + best.2))
    else [':'].intercalate parts

/-- Read, then write: the one canonical spelling. -/
def canonicalizeIp (text : Text) : Option Text := do
  let parsed ← parseIp text
  some (formatIp parsed.value parsed.bits)

end Address

end Cidrella
