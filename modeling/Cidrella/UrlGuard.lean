import Cidrella.AddressGrammar
import Cidrella.Cidr
import Cidrella.Lib.Leftmost
import Cidrella.RecordNames

/-!
# The outbound guard

`utils/url-guard.js`: `isBlockedAddress`, `validateOutboundUrl` and the options with which
`requestPinnedOutboundUrl` and `openPinnedOutboundStream` open their connection.

What Node provides is a parameter (`Node`): the URL parser, `net.isIP` and the resolver. What
one of the two readers of an address refuses counts as not blocked. `parseIp` is asked to
refuse a zone, and `net.isIP` refuses the leading zeros that `parseIp` reads. URLs are safe as
long as no zone stands at an address that should be blocked, and neither `new URL` nor the
resolver gives one; a literal is missed if one of the readers refuses it (`guard_iff`).
-/

set_option autoImplicit false

namespace Cidrella

namespace UrlGuard

open Address Text

/-! ## What Node provides -/

/-- The parts of a URL. `href` is the text of the whole. -/
structure Url where
  protocol : Text
  hostname : Text
  host : Text
  port : Text
  pathname : Text
  search : Text
  href : Text
  deriving DecidableEq

/-- An answer of the resolver. -/
structure Answer where
  address : Text
  family : Family
  deriving DecidableEq

/-- An IPv6 address, with its value, and perhaps a zone. -/
def IsIpv6Text (text : Text) (value : Nat) : Prop :=
  Ipv6Literal text value ∨ ∃ body zone, text = body ++ '%' :: zone ∧ Ipv6Literal body value

/-- `new URL`, `net.isIP` and `dns.promises.lookup`. What `isIP` accepts is an address of its
family, and it accepts every canonical dotted quad. An answer states the family of its
address, and is of the family that is asked for. -/
structure Node where
  newUrl : Text → Option Url
  isIP : Text → Option Family
  lookup : Text → Option Family → Except Text (List Answer)
  isIP_v4 : ∀ {text}, isIP text = some .v4 → ∃ value, DottedQuad text value
  isIP_v6 : ∀ {text}, isIP text = some .v6 → ∃ value, IsIpv6Text text value
  isIP_quad : ∀ {value}, value < 2 ^ 32 → isIP (formatIp value ipv4Bits) = some .v4
  lookup_family : ∀ {host wanted answers}, lookup host wanted = .ok answers → ∀ answer ∈ answers,
    isIP answer.address = some answer.family ∧ ∀ family, wanted = some family →
    answer.family = family

/-! ## Blocked addresses -/

/-- `BLOCKED_IPV4_RANGES`. -/
def blockedIpv4Ranges : List Text :=
  ["0.0.0.0/8".toList, "10.0.0.0/8".toList, "100.64.0.0/10".toList, "127.0.0.0/8".toList,
    "169.254.0.0/16".toList, "172.16.0.0/12".toList, "192.0.0.0/24".toList, "192.0.2.0/24".toList,
    "192.168.0.0/16".toList, "198.18.0.0/15".toList, "198.51.100.0/24".toList,
    "203.0.113.0/24".toList, "224.0.0.0/4".toList, "240.0.0.0/4".toList]

/-- `BLOCKED_IPV6_RANGES`. -/
def blockedIpv6Ranges : List Text :=
  ["::/128".toList, "::1/128".toList, "::ffff:0:0/96".toList, "64:ff9b::/96".toList,
    "2001::/32".toList, "2001:db8::/32".toList, "2002::/16".toList, "fc00::/7".toList,
    "fe80::/10".toList, "ff00::/8".toList]

/-- `networkContains`. Where it throws there is no answer. -/
def networkContains (cidr ip : Text) : Option Bool := do
  let net ← parseNetwork cidr
  let address ← addressToBig ip
  some (net.contains address)

section

variable (node : Node)

/-- `isBlockedIpv4`. -/
def isBlockedIpv4 (ip : Text) : Bool :=
  node.isIP ip = some .v4 && blockedIpv4Ranges.any fun range => networkContains range ip = some true

/-- `isBlockedIpv6`. -/
def isBlockedIpv6 (ip : Text) : Bool :=
  match parseIp ip { zoneId := false, mapV4 := false } with
  | none => false
  | some parsed =>
    if parsed.bits ≠ ipv6Bits then false
    else
      match (parseIp ip { zoneId := false }).filter (·.bits = ipv4Bits) with
      | some mapped => isBlockedIpv4 node (formatIp mapped.value ipv4Bits)
      | none => blockedIpv6Ranges.any fun range =>
        networkContains range (formatIp parsed.value ipv6Bits) = some true

/-- `isBlockedAddress`. -/
def isBlockedAddress (ip : Text) : Bool := isBlockedIpv4 node ip || isBlockedIpv6 node ip

/-! ## Validating a URL -/

/-- How the guard refuses: with a reason, or because something threw. -/
inductive Refusal where
  | reason (text : Text)
  | thrown
  deriving DecidableEq

/-- What `validateOutboundUrl` returns when the URL is fine. -/
structure Checked where
  url : Text
  hostname : Text
  ip : Text
  deriving DecidableEq

/-- `hostname.replace(/^\[(.*)\]$/, '$1')`. -/
def unbracket (hostname : Text) : Text :=
  match hostname with
  | '[' :: rest => if rest.getLast? = some ']' then rest.dropLast else hostname
  | _ => hostname

/-- The address of a host: itself, or the first answer of the resolver, IPv4 before IPv6. -/
def addressOf (ipv6 : Bool) (host : Text) : Except Refusal Text :=
  match node.isIP host with
  | some .v4 => .ok host
  | some .v6 => if ipv6 then .ok host
      else .error (.reason "IPv6 URLs need IPv6 support switched on".toList)
  | none =>
    let refused := fun code : Text => Refusal.reason ("Hostname does not resolve (".toList ++
      (if ipv6 then "IPv4 or IPv6".toList else "IPv4".toList) ++ "): ".toList ++ code)
    match node.lookup host (if ipv6 then none else some .v4) with
    | .error code => .error (refused code)
    | .ok answers =>
      match (answers.find? (·.family = .v4)).or (answers.find? (·.family = .v6)) with
      | none => .error (refused "ENOTFOUND".toList)
      | some chosen => .ok chosen.address

/-- The loop over the IPv4 ranges. -/
def checkIpv4 (ip : Text) : List Text → Except Refusal Unit
  | [] => .ok ()
  | range :: ranges =>
    match networkContains range ip with
    | none => .error .thrown
    | some true =>
      .error (.reason ("IP ".toList ++ ip ++ " is in blocked range ".toList ++ range))
    | some false => checkIpv4 ip ranges

/-- The check of the address. -/
def checkAddress (ip : Text) : Except Refusal Unit :=
  if node.isIP ip = some .v6 then
    if isBlockedIpv6 node ip then
      .error (.reason ("IP ".toList ++ ip ++ " is in a blocked IPv6 range".toList))
    else .ok ()
  else checkIpv4 ip blockedIpv4Ranges

/-- `validateOutboundUrl`. -/
def validateOutboundUrl (ipv6 : Bool) (rawUrl : Text) : Except Refusal Checked :=
  if rawUrl = [] then .error (.reason "URL must be a non-empty string".toList)
  else
    match node.newUrl rawUrl with
    | none => .error (.reason "Invalid URL".toList)
    | some parsed =>
      if parsed.protocol ≠ "http:".toList ∧ parsed.protocol ≠ "https:".toList then
        .error (.reason "URL must use http or https".toList)
      else if parsed.hostname = [] then .error (.reason "URL has no hostname".toList)
      else do
        let ip ← addressOf node ipv6 (unbracket parsed.hostname)
        checkAddress node ip
        .ok { url := parsed.href, hostname := parsed.hostname, ip := ip }

/-! ## Connecting -/

/-- The options of a request that say where it goes. -/
structure RequestOptions where
  hostname : Text
  port : Text
  path : Text
  hostHeader : Text
  servername : Option Text
  lookup : Text → List (Text × Option Family)

/-- `pinnedLookup`. -/
def pinnedLookup (ip : Text) : Text → List (Text × Option Family) := fun _ => [(ip, node.isIP ip)]

/-- What the two requests are given: a URL, or a URL that has been validated. -/
inductive Source where
  | raw (rawUrl : Text)
  | validated (checked : Checked)

/-- `check` of the two requests. -/
def check (ipv6 : Bool) : Source → Except Refusal Checked
  | .raw rawUrl => validateOutboundUrl node ipv6 rawUrl
  | .validated checked =>
    if checked.url ≠ [] ∧ checked.ip ≠ [] then .ok checked
    else .error (.reason "URL must be a non-empty string".toList)

/-- `reqOpts` of `requestPinnedOutboundUrl` and of `openPinnedOutboundStream`, which differ in
the method only. -/
def reqOpts (checked : Checked) (parsed : Url) : RequestOptions where
  hostname   := checked.ip
  port       :=
    if parsed.port ≠ [] then parsed.port
    else if parsed.protocol = "https:".toList then "443".toList else "80".toList
  path       := parsed.pathname ++ parsed.search
  hostHeader := parsed.host
  servername := if (node.isIP (unbracket parsed.hostname)).isSome then none
    else some parsed.hostname
  lookup     := pinnedLookup node checked.ip

/-- The request that is made, if one is. -/
def pinnedRequest (ipv6 : Bool) (source : Source) : Except Refusal RequestOptions := do
  let checked ← check node ipv6 source
  match node.newUrl checked.url with
  | none => .error .thrown
  | some parsed => .ok (reqOpts node checked parsed)

end

/-! ## The ranges -/

/-- A block of addresses: its first one, and how many bits they share with it. -/
structure Block where
  family : Family
  first : Nat
  prefixLen : Nat
  deriving DecidableEq

/-- A value is in a block. -/
def Block.Holds (block : Block) (family : Family) (value : Nat) : Prop :=
  block.family = family ∧
    value / 2 ^ (family.bits - block.prefixLen) = block.first / 2 ^ (family.bits - block.prefixLen)

/-- The value of four octets. -/
def octets (a b c d : Nat) : Nat := ((a * 256 + b) * 256 + c) * 256 + d

/-- The value of the highest two groups, followed by zeros. -/
def highGroups (a b : Nat) : Nat := (a * 65536 + b) * 2 ^ 96

/-- The blocks that are listed, by their numbers. -/
def blocks : List Block :=
  [⟨.v4, octets 0 0 0 0, 8⟩, ⟨.v4, octets 10 0 0 0, 8⟩, ⟨.v4, octets 100 64 0 0, 10⟩,
    ⟨.v4, octets 127 0 0 0, 8⟩, ⟨.v4, octets 169 254 0 0, 16⟩, ⟨.v4, octets 172 16 0 0, 12⟩,
    ⟨.v4, octets 192 0 0 0, 24⟩, ⟨.v4, octets 192 0 2 0, 24⟩, ⟨.v4, octets 192 168 0 0, 16⟩,
    ⟨.v4, octets 198 18 0 0, 15⟩, ⟨.v4, octets 198 51 100 0, 24⟩, ⟨.v4, octets 203 0 113 0, 24⟩,
    ⟨.v4, octets 224 0 0 0, 4⟩, ⟨.v4, octets 240 0 0 0, 4⟩,
    ⟨.v6, 0, 128⟩, ⟨.v6, 1, 128⟩, ⟨.v6, 0xffff * 2 ^ 32, 96⟩, ⟨.v6, highGroups 0x64 0xff9b, 96⟩,
    ⟨.v6, highGroups 0x2001 0, 32⟩, ⟨.v6, highGroups 0x2001 0xdb8, 32⟩,
    ⟨.v6, highGroups 0x2002 0, 16⟩, ⟨.v6, highGroups 0xfc00 0, 7⟩, ⟨.v6, highGroups 0xfe80 0, 10⟩,
    ⟨.v6, highGroups 0xff00 0, 8⟩]

/-- A listed block holds the value. -/
def InBlocks (family : Family) (value : Nat) : Prop := ∃ block ∈ blocks, block.Holds family value

/-- An address text: its family and value once the zone is dropped, and whether it has a zone. -/
inductive AddressText : Text → Bool → Family → Nat → Prop
  | v4 {text : Text} {value : Nat} : DottedQuad text value → AddressText text false .v4 value
  | v6 {text : Text} {value : Nat} : Ipv6Literal text value → AddressText text false .v6 value
  | zoned {body zone : Text} {value : Nat} : Ipv6Literal body value →
      AddressText (body ++ '%' :: zone) true .v6 value

/-- The address is blocked: its value, folded if it is IPv4-mapped, is in a listed block. -/
def Forbidden (family : Family) (value : Nat) : Prop :=
  if family = .v6 ∧ value / 2 ^ 32 = 0xffff then InBlocks .v4 (value % 2 ^ 32)
  else InBlocks family value

/-! ## Reading addresses -/

theorem parseIp_of_plain {text : Text} (plain : ∀ c ∈ trim text, isPlain c = true) (mapV4 : Bool) :
    parseIp text { zoneId := false, mapV4 := mapV4 } = parseIp text { mapV4 := mapV4 } := by
  simp only [parseIp, splitZone_of_isPlain plain, Option.isSome_none, Bool.false_and,
    Bool.false_eq_true, if_false]

theorem parseIp_quad {text : Text} {value : Nat} (dotted : DottedQuad (trim text) value)
    (mapV4 : Bool) :
    parseIp text { zoneId := false, mapV4 := mapV4 } = some ⟨value, ipv4Bits, none⟩ := by
  rw [parseIp_of_plain dotted.isPlain, parseIp_iff]
  refine ⟨_, .quad dotted, ?_⟩
  cases mapV4 with
  | false => rfl
  | true => exact (foldMapped_v4 value none).symm

theorem parseIp_groups {text : Text} {value : Nat} (literal : Ipv6Literal (trim text) value)
    (mapV4 : Bool) :
    parseIp text { zoneId := false, mapV4 := mapV4 } =
    some ((ParsedIp.mk value ipv6Bits none).asRead mapV4) := by
  rw [parseIp_of_plain literal.isPlain, parseIp_iff]
  exact ⟨_, .groups literal, rfl⟩

theorem trim_zoned {body : Text} (plain : ∀ c ∈ body, isPlain c = true) (some : body ≠ [])
    (zone : Text) :
    ∃ kept, trim (body ++ '%' :: zone) = body ++ '%' :: kept := by
  obtain ⟨c, rest, rfl⟩ := List.exists_cons_of_ne_nil some
  have first : isTrimmed c = false := isTrimmed_of_isPlain (plain c List.mem_cons_self)
  refine ⟨(zone.reverse.dropWhile isTrimmed).reverse, ?_⟩
  rw [trim, List.cons_append, List.dropWhile_cons_of_neg (by rw [first]; exact Bool.false_ne_true),
    ← List.cons_append, List.reverse_append, List.reverse_cons, List.append_assoc,
    List.singleton_append, Leftmost.dropWhile_append_stop (by decide), List.reverse_append,
    List.reverse_cons, List.reverse_reverse, List.append_assoc]
  rfl

/-- **A zone is refused**, whatever it is. -/
theorem parseIp_zoned {text body zone : Text} {value : Nat} (literal : Ipv6Literal body value)
    (trimmed : trim text = body ++ '%' :: zone) (mapV4 : Bool) :
    parseIp text { zoneId := false, mapV4 := mapV4 } = none := by
  have filled : ¬ body ++ '%' :: zone = [] := by simp
  simp only [parseIp, trimmed, filled, if_false, splitZone_append literal.isPlain,
    Option.isSome_some, Bool.not_false, Bool.true_or, Bool.and_true, if_true]

theorem ipv6_value_unique {text : Text} {value value' : Nat} (left : Ipv6Literal text value)
    (right : Ipv6Literal text value') : value = value' := by
  have same := (parseV6_eq_some_iff _ _).mpr left
  rw [(parseV6_eq_some_iff _ _).mpr right] at same
  exact (Option.some.inj same).symm

/-- **A text has one reading.** -/
theorem AddressText.unique {text : Text} {zoned zoned' : Bool} {family family' : Family}
    {value value' : Nat} (left : AddressText text zoned family value)
    (right : AddressText text zoned' family' value') :
    zoned = zoned' ∧ family = family' ∧ value = value' := by
  have percent {body zone : Text} (plain : ∀ c ∈ body ++ '%' :: zone, isPlain c = true) : False :=
    ne_percent_of_isPlain (plain '%' (by simp)) rfl
  cases left with
  | v4 dotted =>
    cases right with
    | v4 other =>
      have same := (parseV4_eq_some_iff _ _).mpr dotted
      rw [(parseV4_eq_some_iff _ _).mpr other] at same
      exact ⟨rfl, rfl, (Option.some.inj same).symm⟩
    | v6 other => exact absurd other.colon_mem dotted.colon_not_mem
    | zoned other => exact (percent dotted.isPlain).elim
  | v6 literal =>
    cases right with
    | v4 other => exact absurd literal.colon_mem other.colon_not_mem
    | v6 other => exact ⟨rfl, rfl, ipv6_value_unique literal other⟩
    | zoned other => exact (percent literal.isPlain).elim
  | @zoned body zone value literal =>
    generalize whole : body ++ '%' :: zone = text at right
    cases right with
    | v4 other => exact (percent (whole ▸ other.isPlain)).elim
    | v6 other => exact (percent (whole ▸ other.isPlain)).elim
    | @zoned body' zone' _ other =>
      have split := splitZone_append literal.isPlain zone
      rw [whole, splitZone_append other.isPlain] at split
      obtain rfl := (Prod.mk.inj split).1
      exact ⟨rfl, rfl, ipv6_value_unique literal other⟩

/-! ## What is in the ranges -/

/-- A parsed range by its numbers. -/
def blockOf (net : Network) : Block := ⟨net.family, net.networkBig, net.prefixLen⟩

theorem contains_iff_holds {net : Network} {addr : Addr} :
    net.contains addr = true ↔ (blockOf net).Holds addr.family addr.value := by
  rw [Network.contains_iff, Network.hasValue_iff, Block.Holds, eq_comm]
  refine and_congr_right fun same => ?_
  obtain ⟨count, first⟩ := net.aligned
  have positive : 0 < 2 ^ (net.family.bits - net.prefixLen) := Nat.two_pow_pos _
  have base : net.networkBig / 2 ^ (net.family.bits - net.prefixLen) = count := by
    rw [first, Nat.mul_div_cancel_left _ positive]
  rw [Network.sizeBig, Network.bits, blockOf, ← same, base, Nat.div_eq_iff positive, first,
    Nat.mul_comm count]
  generalize 2 ^ (net.family.bits - net.prefixLen) * count = start
  generalize 2 ^ (net.family.bits - net.prefixLen) = size at positive
  omega

theorem any_networkContains {ranges : List Text} {held : List Block}
    (read : ranges.map (fun range => (parseNetwork range).map blockOf) = held.map some) {ip : Text}
    {addr : Addr} (address : addressToBig ip = some addr) :
    (ranges.any fun range => networkContains range ip = some true) = true ↔
      ∃ block ∈ held, block.Holds addr.family addr.value := by
  induction ranges generalizing held with
  | nil =>
    cases held with
    | nil => simp
    | cons block held => cases read
  | cons range ranges ih =>
    cases held with
    | nil => cases read
    | cons block held =>
      obtain ⟨first, rest⟩ := List.cons.inj read
      obtain ⟨net, parsed, rfl⟩ := Option.map_eq_some_iff.mp first
      have here : networkContains range ip = some true ↔
          (blockOf net).Holds addr.family addr.value := by
        rw [networkContains, parsed, address]
        exact Option.some_inj.trans contains_iff_holds
      rw [List.any_cons, Bool.or_eq_true, decide_eq_true_eq, here, ih rest,
        List.exists_mem_cons_iff]

theorem inBlocks_v4_iff {value : Nat} :
    InBlocks .v4 value ↔ ∃ block ∈ blocks.take 14, block.Holds .v4 value := by
  constructor
  · rintro ⟨block, listed, holds⟩
    have all : ∀ block ∈ blocks, block.family = .v4 → block ∈ blocks.take 14 := by decide
    exact ⟨block, all block listed holds.1, holds⟩
  · rintro ⟨block, listed, holds⟩
    exact ⟨block, List.mem_of_mem_take listed, holds⟩

/-- **Whether an IPv4 address is in the ranges.** -/
theorem any_blockedIpv4Ranges {ip : Text} {addr : Addr} (address : addressToBig ip = some addr)
    (four : addr.family = .v4) :
    (blockedIpv4Ranges.any fun range => networkContains range ip = some true) = true ↔
      InBlocks .v4 addr.value := by
  have read : blockedIpv4Ranges.map (fun range => (parseNetwork range).map blockOf) =
      (blocks.take 14).map some := by decide
  rw [any_networkContains read address, inBlocks_v4_iff, four]

theorem any_blockedIpv6Ranges {ip : Text} {addr : Addr} (address : addressToBig ip = some addr)
    (six : addr.family = .v6) :
    (blockedIpv6Ranges.any fun range => networkContains range ip = some true) = true ↔
      InBlocks .v6 addr.value := by
  have read : blockedIpv6Ranges.map (fun range => (parseNetwork range).map blockOf) =
      (((blocks.drop 14).take 2 ++ ⟨.v4, 0, 0⟩ :: blocks.drop 17)).map some := by decide
  have cases : ∀ block ∈ blocks, block.family = .v4 ∨ block = ⟨.v6, 0xffff * 2 ^ 32, 96⟩ ∨
      block ∈ (blocks.drop 14).take 2 ++ ⟨.v4, 0, 0⟩ :: blocks.drop 17 := by decide
  have back : ∀ block ∈ (blocks.drop 14).take 2 ++ ⟨.v4, 0, 0⟩ :: blocks.drop 17,
      block = ⟨.v4, 0, 0⟩ ∨ block ∈ blocks := by decide
  rw [any_networkContains read address, six]
  constructor
  · rintro ⟨block, listed, holds⟩
    obtain rfl | listed := back block listed
    · cases holds.1
    · exact ⟨block, listed, holds⟩
  · rintro ⟨block, listed, holds⟩
    obtain four | rfl | listed := cases block listed
    · rw [Block.Holds, four] at holds
      cases holds.1
    · exact absurd holds.2 (addr.unmapped six)
    · exact ⟨block, listed, holds⟩

/-! ## Blocked addresses -/

section

variable (node : Node)

theorem addressAt_v6 {value : Nat} (fits : value < 2 ^ 128) (unmapped : ¬ value / 2 ^ 32 = 0xffff) :
    (addressAt .v6 value).family = .v6 ∧ (addressAt .v6 value).value = value := by
  have small : value % 2 ^ 128 = value := Nat.mod_eq_of_lt fits
  rw [addressAt, dif_neg (by rwa [small])]
  exact ⟨rfl, small⟩

theorem addressToBig_quad {text : Text} {value : Nat} (dotted : DottedQuad text value) :
    ∃ addr, addressToBig text = some addr ∧ addr.family = .v4 ∧ addr.value = value := by
  have fits := parseV4_lt ((parseV4_eq_some_iff _ _).mpr dotted)
  refine ⟨addressAt .v4 value, ?_, rfl, Nat.mod_eq_of_lt fits⟩
  rw [addressToBig, parseIp_quad dotted.trimmed true]
  rfl

theorem isBlockedIpv4_iff {text : Text} {addr : Addr} (known : node.isIP text = some .v4)
    (address : addressToBig text = some addr) (four : addr.family = .v4) :
    isBlockedIpv4 node text = true ↔ InBlocks .v4 addr.value := by
  rw [isBlockedIpv4, known, decide_eq_true rfl, Bool.true_and, any_blockedIpv4Ranges address four]

theorem isBlockedIpv6_of_quad {text : Text} {value : Nat} (dotted : DottedQuad (trim text) value) :
    isBlockedIpv6 node text = false := by
  rw [isBlockedIpv6, parseIp_quad dotted false]
  rfl

/-- **An IPv6 address without a zone** is judged by its value. -/
theorem isBlockedIpv6_of_literal {text : Text} {value : Nat}
    (literal : Ipv6Literal (trim text) value) :
    isBlockedIpv6 node text = true ↔ Forbidden .v6 value := by
  have fits : value < 2 ^ 128 := parseV6_lt ((parseV6_eq_some_iff _ _).mpr literal)
  rw [isBlockedIpv6, parseIp_groups literal false, parseIp_groups literal true]
  simp only [ParsedIp.asRead, Bool.false_eq_true, if_false, if_true, ne_eq, not_true_eq_false]
  by_cases mapped : value / 2 ^ 32 = 0xffff
  · have low : value % 2 ^ 32 < 2 ^ 32 := Nat.mod_lt _ (Nat.two_pow_pos 32)
    have folded : ((some (ParsedIp.mk value ipv6Bits none).foldMapped).filter (·.bits = ipv4Bits)) =
        some ⟨value % 2 ^ 32, ipv4Bits, none⟩ := by
      rw [ParsedIp.foldMapped, if_pos ⟨rfl, mapped⟩]
      rfl
    rw [folded, Forbidden, if_pos ⟨rfl, mapped⟩]
    have same : (addressAt .v4 (value % 2 ^ 32)).value = value % 2 ^ 32 := Nat.mod_eq_of_lt low
    have judged := isBlockedIpv4_iff node (node.isIP_quad low) (@addressToBig_formatIp .v4 _ low)
      rfl
    rwa [same] at judged
  · have kept : ((some (ParsedIp.mk value ipv6Bits none).foldMapped).filter (·.bits = ipv4Bits)) =
      none := by
      rw [ParsedIp.foldMapped, if_neg fun both => mapped both.2]
      rfl
    rw [kept, Forbidden, if_neg fun both => mapped both.2]
    obtain ⟨six, same⟩ := addressAt_v6 fits mapped
    have judged := any_blockedIpv6Ranges (@addressToBig_formatIp .v6 _ fits) six
    rwa [same] at judged

theorem isBlockedIpv6_of_zoned {text body zone : Text} {value : Nat}
    (literal : Ipv6Literal body value) (trimmed : trim text = body ++ '%' :: zone) :
    isBlockedIpv6 node text = false := by
  rw [isBlockedIpv6, parseIp_zoned literal trimmed false]

variable {node} in
/-- What `net.isIP` takes for IPv4 is read, and read as it stands. -/
theorem dotted_of_isIP {text : Text} (known : node.isIP text = some .v4) :
    ∃ value, DottedQuad text value ∧ trim text = text := by
  obtain ⟨value, dotted⟩ := node.isIP_v4 known
  exact ⟨value, dotted, trim_of_isPlain dotted.isPlain⟩

variable {node} in
theorem not_v4_of_colon {text : Text} (colon : ':' ∈ trim text) : node.isIP text ≠ some .v4 := by
  intro known
  obtain ⟨_, dotted, same⟩ := dotted_of_isIP known
  exact dotted.colon_not_mem (same ▸ colon)

theorem isBlockedAddress_of_quad {text : Text} {value : Nat}
    (dotted : DottedQuad (trim text) value) :
    isBlockedAddress node text = true ↔ InBlocks .v4 value ∧ node.isIP text = some .v4 := by
  rw [isBlockedAddress, isBlockedIpv6_of_quad node dotted, Bool.or_false]
  by_cases known : node.isIP text = some .v4
  · obtain ⟨_, _, same⟩ := dotted_of_isIP known
    rw [same] at dotted
    obtain ⟨addr, address, four, rfl⟩ := addressToBig_quad dotted
    rw [isBlockedIpv4_iff node known address four]
    simp [known]
  · simp [isBlockedIpv4, known]

theorem isBlockedAddress_of_groups {text : Text} {value : Nat}
    (literal : Ipv6Literal (trim text) value) :
    isBlockedAddress node text = true ↔ Forbidden .v6 value := by
  have other : node.isIP text ≠ some .v4 := not_v4_of_colon literal.colon_mem
  rw [isBlockedAddress, ← isBlockedIpv6_of_literal node literal]
  simp [isBlockedIpv4, other]

/-- **A literal without a zone is blocked exactly when its value is in a range, and one with a
zone never is.** -/
theorem isBlockedAddress_iff {text : Text} {zoned : Bool} {family : Family} {value : Nat}
    (known : node.isIP text = some family) (reads : AddressText text zoned family value) :
    isBlockedAddress node text = true ↔ zoned = false ∧ Forbidden family value := by
  cases reads with
  | v4 dotted =>
    have narrow : Forbidden .v4 value ↔ InBlocks .v4 value := by
      rw [Forbidden, if_neg fun both => Family.noConfusion both.1]
    rw [isBlockedAddress_of_quad node dotted.trimmed, narrow]
    simp [known]
  | v6 literal =>
    rw [isBlockedAddress_of_groups node literal.trimmed]
    simp
  | @zoned body zone value literal =>
    obtain ⟨kept, trimmed⟩ := trim_zoned literal.isPlain (List.ne_nil_of_mem literal.colon_mem) zone
    rw [isBlockedAddress, isBlockedIpv6_of_zoned node literal trimmed, isBlockedIpv4, known]
    simp

/-! ## The check of a URL -/

theorem exists_reading {text : Text} {family : Family} (known : node.isIP text = some family) :
    ∃ zoned value, AddressText text zoned family value := by
  cases family with
  | v4 =>
    obtain ⟨value, dotted⟩ := node.isIP_v4 known
    exact ⟨false, value, .v4 dotted⟩
  | v6 =>
    obtain ⟨value, literal | ⟨body, zone, rfl, literal⟩⟩ := node.isIP_v6 known
    · exact ⟨false, value, .v6 literal⟩
    · exact ⟨true, value, .zoned literal⟩

theorem checkIpv4_ok_iff {ip : Text} {ranges : List Text}
    (compared : ∀ range ∈ ranges, networkContains range ip ≠ none) :
    checkIpv4 ip ranges = .ok () ↔ (ranges.any fun range => networkContains range ip = some true) =
    false := by
  induction ranges with
  | nil => exact ⟨fun _ => rfl, fun _ => rfl⟩
  | cons range ranges ih =>
    rw [checkIpv4, List.any_cons]
    cases answer : networkContains range ip with
    | none => exact absurd answer (compared range List.mem_cons_self)
    | some inside =>
      cases inside with
      | true => simp
      | false => simpa using ih fun other later => compared other (List.mem_cons_of_mem _ later)

/-- **The check passes what is not blocked.** -/
theorem checkAddress_ok_iff {text : Text} {family : Family} (known : node.isIP text = some family) :
    checkAddress node text = .ok () ↔ isBlockedAddress node text = false := by
  rw [checkAddress, isBlockedAddress, Bool.or_eq_false_iff]
  cases family with
  | v4 =>
    obtain ⟨value, dotted⟩ := node.isIP_v4 known
    obtain ⟨addr, address, -, -⟩ := addressToBig_quad dotted
    have parsed : ∀ range ∈ blockedIpv4Ranges, parseNetwork range ≠ none := by decide
    have compared : ∀ range ∈ blockedIpv4Ranges, networkContains range text ≠ none := by
      intro range listed
      obtain ⟨net, parsed⟩ := Option.ne_none_iff_exists'.mp (parsed range listed)
      rw [networkContains, parsed, address]
      nofun
    rw [if_neg (by rw [known]; decide), checkIpv4_ok_iff compared,
      isBlockedIpv6_of_quad node dotted.trimmed, isBlockedIpv4, known]
    simp
  | v6 =>
    rw [if_pos known, isBlockedIpv4, known]
    cases isBlockedIpv6 node text <;> simp

/-- The host of a URL that is let through to the check of its address. -/
def HostOf (rawUrl host : Text) : Prop :=
  rawUrl ≠ [] ∧ ∃ parsed, node.newUrl rawUrl = some parsed ∧
    (parsed.protocol = "http:".toList ∨ parsed.protocol = "https:".toList) ∧ parsed.hostname ≠ [] ∧
    host = unbracket parsed.hostname

theorem validateOutboundUrl_ok_iff {ipv6 : Bool} {rawUrl ip : Text} :
    (∃ checked, validateOutboundUrl node ipv6 rawUrl = .ok checked ∧ checked.ip = ip) ↔
      ∃ host, HostOf node rawUrl host ∧ addressOf node ipv6 host = .ok ip ∧
      checkAddress node ip = .ok () := by
  constructor
  · rintro ⟨checked, fine, rfl⟩
    unfold validateOutboundUrl at fine
    split at fine
    · cases fine
    rename_i filled
    split at fine
    · cases fine
    rename_i parsed read
    split at fine
    · cases fine
    rename_i web
    split at fine
    · cases fine
    rename_i named
    obtain ⟨ip, address, fine⟩ := bind_eq_ok.mp fine
    obtain ⟨_, passed, fine⟩ := bind_eq_ok.mp fine
    obtain rfl := Except.ok.inj fine
    exact ⟨_, ⟨filled, parsed, read, by tauto, named, rfl⟩, address, passed⟩
  · rintro ⟨host, ⟨filled, parsed, read, web, named, rfl⟩, address, passed⟩
    refine ⟨⟨parsed.href, parsed.hostname, ip⟩, ?_, rfl⟩
    rw [validateOutboundUrl, if_neg filled, read]
    simp only []
    rw [if_neg (by tauto), if_neg named, address]
    refine bind_eq_ok.mpr ⟨ip, rfl, ?_⟩
    rw [passed]
    rfl

/-- What the address of a host may be. -/
theorem addressOf_ok_iff {ipv6 : Bool} {host ip : Text} :
    addressOf node ipv6 host = .ok ip ↔
      (node.isIP host = some .v4 ∧ ip = host) ∨
      (node.isIP host = some .v6 ∧ ipv6 = true ∧ ip = host) ∨
        (node.isIP host = none ∧ ∃ answers, node.lookup host (if ipv6 then none else some .v4) = .ok
          answers ∧ ∃ chosen, (answers.find? (·.family = .v4)).or (answers.find? (·.family = .v6)) =
          some chosen ∧ chosen.address = ip) := by
  unfold addressOf
  cases known : node.isIP host with
  | some family =>
    cases family with
    | v4 => simp [eq_comm]
    | v6 => cases ipv6 <;> simp [eq_comm]
  | none =>
    constructor
    · intro done
      refine .inr (.inr ⟨rfl, ?_⟩)
      cases looked : node.lookup host (if ipv6 then none else some .v4) with
      | error code =>
        rw [looked] at done
        cases done
      | ok answers =>
        simp only [looked] at done
        refine ⟨answers, rfl, ?_⟩
        cases chosen : (answers.find? (·.family = .v4)).or (answers.find? (·.family = .v6)) with
        | none =>
          rw [chosen] at done
          cases done
        | some answer =>
          rw [chosen] at done
          exact ⟨answer, rfl, Except.ok.inj done⟩
    · rintro (⟨wrong, -⟩ | ⟨wrong, -⟩ | ⟨-, answers, looked, answer, chosen, rfl⟩)
      · cases wrong
      · cases wrong
      · simp only [looked, chosen]

theorem isIP_of_addressOf {ipv6 : Bool} {host ip : Text}
    (address : addressOf node ipv6 host = .ok ip) :
    ∃ family, node.isIP ip = some family ∧ (ipv6 = false → family = .v4) := by
  obtain ⟨known, rfl⟩ | ⟨known, on, rfl⟩ | ⟨-, answers, looked, answer, chosen, rfl⟩ :=
    (addressOf_ok_iff node).mp address
  · exact ⟨.v4, known, fun _ => rfl⟩
  · refine ⟨.v6, known, fun off => ?_⟩
    rw [on] at off
    cases off
  · have listed : answer ∈ answers := by
      obtain found | ⟨-, found⟩ := Option.or_eq_some_iff.mp chosen
      · exact List.mem_of_find?_eq_some found
      · exact List.mem_of_find?_eq_some found
    obtain ⟨known, asked⟩ := node.lookup_family looked answer listed
    refine ⟨answer.family, known, fun off => asked .v4 ?_⟩
    rw [off]
    rfl

/-! ## What the guard lets through -/

/-- The value of an address text is blocked. -/
def IsForbidden (text : Text) : Prop :=
  ∃ zoned family value, AddressText text zoned family value ∧ Forbidden family value

/-- An IPv6 address with a zone. -/
def IsZoned (text : Text) : Prop := ∃ value, AddressText text true .v6 value

theorem AddressText.isZoned {text : Text} {family : Family} {value : Nat}
    (reads : AddressText text true family value) : family = .v6 ∧ IsZoned text := by
  cases reads with
  | zoned literal => exact ⟨rfl, _, .zoned literal⟩

/-- No URL that is fine leads to a blocked address, or to an IPv6 one while IPv6 support is
off, and a request for it, or for what the check returned, goes to that address only. -/
def Guarded (ipv6 : Bool) (rawUrl : Text) : Prop :=
  ∀ checked, validateOutboundUrl node ipv6 rawUrl = .ok checked →
    (∃ family, node.isIP checked.ip = some family ∧ (ipv6 = false → family = .v4)) ∧
    ¬ IsForbidden checked.ip ∧
    ∀ source ∈ [Source.raw rawUrl, Source.validated checked], ∀ options,
      pinnedRequest node ipv6 source = .ok options →
        options.hostname = checked.ip ∧ ∀ name, options.lookup name =
        [(checked.ip, node.isIP checked.ip)]

/-- With IPv6 support on, the URL stands for an IPv6 address: its host is one, or the host has
only IPv6 addresses and it is the first of them. -/
def LeadsToIpv6 (ipv6 : Bool) (rawUrl ip : Text) : Prop :=
  ipv6 = true ∧ ∃ host, HostOf node rawUrl host ∧
    (node.isIP host = some .v6 ∧ ip = host ∨
      node.isIP host = none ∧ ∃ answers, node.lookup host none = .ok answers ∧
        (∀ answer ∈ answers, answer.family = .v6) ∧ answers.head?.map (·.address) = some ip)

/-- What Node says of its own: the host of a URL has no zone, and the resolver gives none. -/
def Node.Plain (node : Node) : Prop :=
  (∀ {rawUrl host}, HostOf node rawUrl host → '%' ∉ host) ∧
  ∀ {host wanted answers}, node.lookup host wanted = .ok answers → ∀ answer ∈ answers,
    '%' ∉ answer.address

variable {node}

theorem isForbidden_iff {text : Text} {zoned : Bool} {family : Family} {value : Nat}
    (reads : AddressText text zoned family value) : IsForbidden text ↔ Forbidden family value := by
  constructor
  · rintro ⟨zoned', family', value', other, forbidden⟩
    obtain ⟨-, rfl, rfl⟩ := reads.unique other
    exact forbidden
  · exact fun forbidden => ⟨_, _, _, reads, forbidden⟩

/-! ## Literals -/

/-- The value a text is read to have, zone dropped and IPv4-mapped folded, is in a listed block. -/
def HasBlockedValue (text : Text) : Prop :=
  ∃ parsed family, parseIp text = some parsed ∧ parsed.bits = family.bits ∧
    InBlocks family parsed.value

variable (node) in
/-- One of the two readers refuses the text: it has a zone, or it is dotted and `net.isIP` takes
it for no address. -/
def Overlooked (text : Text) : Prop := '%' ∈ text ∨ ':' ∉ text ∧ node.isIP text ≠ some .v4

theorem mem_trim_iff {c : Char} (solid : isTrimmed c = false) {text : Text} : c ∈ trim text ↔
    c ∈ text := by
  rw [← List.count_pos_iff, DnsNames.count_trim solid, List.count_pos_iff]

theorem inBlocks_of_bits {family family' : Family} {value : Nat}
    (same : family.bits = family'.bits) :
    InBlocks family value ↔ InBlocks family' value := by
  have equal : family = family' := by
    revert same
    cases family <;> cases family' <;> decide
  rw [equal]

theorem hasBlockedValue_iff {text : Text} {value : Nat} {zone : Option Text} {family : Family}
    (read : parseIp text = some ⟨value, family.bits, zone⟩) : HasBlockedValue text ↔
    InBlocks family value := by
  constructor
  · rintro ⟨parsed, other, again, bits, blocked⟩
    rw [read] at again
    obtain rfl := Option.some.inj again
    exact (inBlocks_of_bits bits).mpr blocked
  · exact fun blocked => ⟨_, family, read, rfl, blocked⟩

theorem hasBlockedValue_of_quad {text : Text} {value : Nat}
    (dotted : DottedQuad (trim text) value) :
    HasBlockedValue text ↔ InBlocks .v4 value :=
  hasBlockedValue_iff (parseIp_of_zoneless (parseIp_quad dotted true))

theorem hasBlockedValue_of_groups {text : Text} {value : Nat}
    (literal : Ipv6Literal (trim text) value) :
    HasBlockedValue text ↔ Forbidden .v6 value := by
  have read := parseIp_of_zoneless (parseIp_groups literal true)
  by_cases mapped : value / 2 ^ 32 = 0xffff
  · rw [ParsedIp.asRead, if_pos rfl, ParsedIp.foldMapped, if_pos ⟨rfl, mapped⟩] at read
    rw [Forbidden, if_pos ⟨rfl, mapped⟩]
    exact @hasBlockedValue_iff _ _ _ .v4 read
  · rw [ParsedIp.asRead, if_pos rfl, ParsedIp.foldMapped, if_neg fun both => mapped both.2] at read
    rw [Forbidden, if_neg fun both => mapped both.2]
    exact @hasBlockedValue_iff _ _ _ .v6 read

theorem literal_of_isBlockedAddress {text : Text} (blocked : isBlockedAddress node text = true) :
    ∃ literal, Literal (trim text) literal := by
  rw [isBlockedAddress, Bool.or_eq_true] at blocked
  obtain four | six := blocked
  · rw [isBlockedIpv4, Bool.and_eq_true, decide_eq_true_eq] at four
    obtain ⟨value, dotted, -⟩ := dotted_of_isIP four.1
    exact ⟨_, .quad dotted.trimmed⟩
  · rw [isBlockedIpv6] at six
    cases read : parseIp text { zoneId := false, mapV4 := false } with
    | none =>
      rw [read] at six
      cases six
    | some parsed =>
      obtain ⟨literal, spelled, -⟩ := (parseIp_iff false text parsed).mp (parseIp_of_zoneless read)
      exact ⟨literal, spelled⟩

/-- **Literals**: those are blocked that have a value in a listed block and are not overlooked. -/
theorem isBlockedAddress_eq_true_iff {text : Text} :
    isBlockedAddress node text = true ↔ HasBlockedValue text ∧ ¬ Overlooked node text := by
  have colon := @mem_trim_iff ':' (by decide) text
  have percent := @mem_trim_iff '%' (by decide) text
  rw [Overlooked, ← colon, ← percent]
  by_cases read : ∃ literal, Literal (trim text) literal
  · obtain ⟨literal, spelled⟩ := read
    generalize whole : trim text = trimmed at spelled
    cases spelled with
    | quad dotted =>
      have bare : '%' ∉ trimmed := fun sign => ne_percent_of_isPlain (dotted.isPlain _ sign) rfl
      have flat : ':' ∉ trimmed := dotted.colon_not_mem
      rw [← whole] at dotted
      rw [isBlockedAddress_of_quad node dotted, hasBlockedValue_of_quad dotted]
      simp [bare, flat]
    | groups literal =>
      have bare : '%' ∉ trimmed := fun sign => ne_percent_of_isPlain (literal.isPlain _ sign) rfl
      have deep : ':' ∈ trimmed := literal.colon_mem
      rw [← whole] at literal
      rw [isBlockedAddress_of_groups node literal, hasBlockedValue_of_groups literal]
      simp [bare, deep]
    | zoned literal filled =>
      have other : node.isIP text ≠ some .v4 := not_v4_of_colon (by simp [whole, literal.colon_mem])
      simp [isBlockedAddress, isBlockedIpv4, other, isBlockedIpv6_of_zoned node literal whole]
  · refine iff_of_false (fun blocked => read (literal_of_isBlockedAddress blocked)) ?_
    rintro ⟨⟨parsed, family, done, -⟩, -⟩
    obtain ⟨literal, spelled, -⟩ := (parseIp_iff true text parsed).mp done
    exact read ⟨literal, spelled⟩

/-! ## What the guard lets through -/

theorem check_validated {ipv6 : Bool} {checked other : Checked}
    (accepted : check node ipv6 (.validated checked) = .ok other) : checked = other := by
  rw [check] at accepted
  split at accepted
  · exact Except.ok.inj accepted
  · cases accepted

theorem pinnedRequest_of_check {ipv6 : Bool} {source : Source} {checked : Checked}
    {options : RequestOptions} (same : ∀ other, check node ipv6 source = .ok other →
    other = checked) (made : pinnedRequest node ipv6 source = .ok options) :
    options.hostname = checked.ip ∧ ∀ name, options.lookup name =
    [(checked.ip, node.isIP checked.ip)] := by
  obtain ⟨other, accepted, made⟩ := bind_eq_ok.mp made
  obtain rfl := same other accepted
  cases read : node.newUrl other.url with
  | none =>
    rw [read] at made
    cases made
  | some parsed =>
    rw [read] at made
    obtain rfl := Except.ok.inj made
    exact ⟨rfl, fun _ => rfl⟩

theorem addressOf_of_leadsToIpv6 {ipv6 : Bool} {rawUrl ip : Text}
    (leads : LeadsToIpv6 node ipv6 rawUrl ip) :
    ∃ host, HostOf node rawUrl host ∧ addressOf node ipv6 host = .ok ip ∧
    node.isIP ip = some .v6 := by
  obtain ⟨rfl, host, isHost, ⟨known, rfl⟩ | ⟨unknown, answers, looked, all, first⟩⟩ := leads
  · exact ⟨ip, isHost, (addressOf_ok_iff node).mpr (.inr (.inl ⟨known, rfl, rfl⟩)), known⟩
  · cases answers with
    | nil => cases first
    | cons answer answers =>
      have six := all answer List.mem_cons_self
      have none : (answer :: answers).find? (·.family = .v4) = none := by
        refine List.find?_eq_none.mpr fun other listed => ?_
        rw [all other listed]
        decide
      have chosen : (answer :: answers).find? (·.family = .v6) = some answer :=
        List.find?_cons_of_pos (decide_eq_true six)
      have same : answer.address = ip := Option.some.inj first
      refine ⟨host, isHost,
        (addressOf_ok_iff node).mpr (.inr (.inr ⟨unknown, _, looked, answer, ?_, same⟩)), ?_⟩
      · rw [none, chosen, Option.none_or]
      · rw [← same, (node.lookup_family looked answer List.mem_cons_self).1, six]

/-- The URL leads to the address if that is IPv6 and what is checked. -/
theorem leadsToIpv6_of_addressOf {ipv6 : Bool} {rawUrl host ip : Text}
    (isHost : HostOf node rawUrl host) (address : addressOf node ipv6 host = .ok ip)
    (six : node.isIP ip = some .v6) :
    LeadsToIpv6 node ipv6 rawUrl ip := by
  have on : ipv6 = true := by
    obtain ⟨family, known, off⟩ := isIP_of_addressOf node address
    rw [six] at known
    obtain rfl := Option.some.inj known
    by_contra wrong
    cases off (Bool.not_eq_true _ ▸ wrong)
  obtain ⟨known, rfl⟩ | ⟨known, -, rfl⟩ | ⟨unknown, answers, looked, answer, chosen, rfl⟩ :=
    (addressOf_ok_iff node).mp address
  · rw [six] at known
    cases known
  · exact ⟨on, ip, isHost, .inl ⟨known, rfl⟩⟩
  · -- an IPv4 answer would have been taken, so there is none
    have none : answers.find? (·.family = .v4) = none := by
      cases found : answers.find? (·.family = .v4) with
      | none => rfl
      | some other =>
        rw [found, Option.some_or] at chosen
        obtain rfl := Option.some.inj chosen
        have known := (node.lookup_family looked other (List.mem_of_find?_eq_some found)).1
        have four : other.family = .v4 := by simpa using List.find?_some found
        rw [six, four] at known
        cases known
    have all : ∀ other ∈ answers, other.family = .v6 := by
      intro other listed
      have different := List.find?_eq_none.mp none other listed
      cases family : other.family with
      | v4 => exact absurd (decide_eq_true family) different
      | v6 => rfl
    rw [on, if_pos rfl] at looked
    rw [none, Option.none_or] at chosen
    refine ⟨on, host, isHost, .inr ⟨unknown, answers, looked, all, ?_⟩⟩
    cases answers with
    | nil => cases chosen
    | cons first rest =>
      have taken : (first :: rest).find? (·.family = .v6) = some first :=
        List.find?_cons_of_pos (decide_eq_true (all first List.mem_cons_self))
      rw [taken] at chosen
      rw [Option.some.inj chosen]
      rfl

theorem percent_mem_of_isZoned {ip : Text} (zoned : IsZoned ip) : '%' ∈ ip := by
  obtain ⟨value, reads⟩ := zoned
  cases reads with
  | zoned literal => exact List.mem_append_right _ List.mem_cons_self

theorem Node.Plain.not_leadsToIpv6 (plain : node.Plain) {ipv6 : Bool} {rawUrl ip : Text}
    (leads : LeadsToIpv6 node ipv6 rawUrl ip) : ¬ IsZoned ip := by
  intro zoned
  have sign := percent_mem_of_isZoned zoned
  obtain ⟨-, host, isHost, ⟨-, rfl⟩ | ⟨-, answers, looked, -, first⟩⟩ := leads
  · exact plain.1 isHost sign
  · obtain ⟨answer, head, rfl⟩ := Option.map_eq_some_iff.mp first
    exact plain.2 looked answer (List.mem_of_mem_head? head) sign

/-- **The guard** lets no blocked address through, unless the URL leads to an IPv6 address that
has a zone and should be blocked, which no URL does where Node gives no zones. Of a literal it
says the right thing unless that should be blocked and is overlooked. -/
theorem guard_iff (node : Node) (ipv6 : Bool) (rawUrl : Text) :
    (Guarded node ipv6 rawUrl ↔ ¬ ∃ ip, LeadsToIpv6 node ipv6 rawUrl ip ∧ IsZoned ip ∧
    IsForbidden ip) ∧ (node.Plain → Guarded node ipv6 rawUrl) ∧
    ∀ text, (isBlockedAddress node text = true ↔ HasBlockedValue text) ↔
      ¬ (HasBlockedValue text ∧ Overlooked node text) := by
  have judged : ∀ text, (isBlockedAddress node text = true ↔ HasBlockedValue text) ↔
      ¬ (HasBlockedValue text ∧ Overlooked node text) := by
    intro text
    rw [isBlockedAddress_eq_true_iff]
    tauto
  suffices exact : Guarded node ipv6 rawUrl ↔
      ¬ ∃ ip, LeadsToIpv6 node ipv6 rawUrl ip ∧ IsZoned ip ∧ IsForbidden ip from
    ⟨exact, fun plain => exact.mpr fun ⟨ip, leads, zoned, _⟩ => plain.not_leadsToIpv6 leads zoned,
      judged⟩
  refine ⟨?_, fun safe checked fine => ?_⟩
  · rintro guarded ⟨ip, leads, zoned, forbidden⟩
    obtain ⟨host, isHost, address, known⟩ := addressOf_of_leadsToIpv6 leads
    have passed : checkAddress node ip = .ok () := by
      rw [checkAddress_ok_iff node known, ← Bool.not_eq_true]
      obtain ⟨value, reads⟩ := zoned
      rw [isBlockedAddress_iff node known reads]
      exact fun both => Bool.noConfusion both.1
    obtain ⟨checked, fine, rfl⟩ :=
      (validateOutboundUrl_ok_iff node).mpr ⟨host, isHost, address, passed⟩
    exact (guarded checked fine).2.1 forbidden
  · obtain ⟨host, isHost, address, passed⟩ :=
      (validateOutboundUrl_ok_iff node).mp ⟨checked, fine, rfl⟩
    obtain ⟨family, known, off⟩ := isIP_of_addressOf node address
    refine ⟨⟨family, known, off⟩, fun forbidden => ?_, fun source listed options made => ?_⟩
    · rw [checkAddress_ok_iff node known, ← Bool.not_eq_true] at passed
      obtain ⟨zoned, value, reads⟩ := exists_reading node known
      rw [isBlockedAddress_iff node known reads] at passed
      cases zoned with
      | false => exact passed ⟨rfl, (isForbidden_iff reads).mp forbidden⟩
      | true =>
        obtain ⟨rfl, isZoned⟩ := reads.isZoned
        exact safe ⟨_, leadsToIpv6_of_addressOf isHost address known, isZoned, forbidden⟩
    · refine pinnedRequest_of_check (fun other accepted => ?_) made
      simp only [List.mem_cons, List.not_mem_nil, or_false] at listed
      obtain rfl | rfl := listed
      · have same : check node ipv6 (.raw rawUrl) = .ok checked := fine
        rw [same] at accepted
        exact (Except.ok.inj accepted).symm
      · exact (check_validated accepted).symm

end

/-! ## A leading zero -/

/-- A dotted quad as Node reads it, with no leading zero. -/
def strictQuad (text : Text) : Bool := (parseV4 text).any fun value =>
    formatIp value ipv4Bits = text

theorem exists_of_strictQuad {text : Text} (strict : strictQuad text = true) : ∃ value,
    DottedQuad text value := by
  rw [strictQuad] at strict
  cases read : parseV4 text with
  | none =>
    rw [read] at strict
    cases strict
  | some value => exact ⟨value, (parseV4_eq_some_iff text value).mp read⟩

/-- The family of an address text, whatever its zone. -/
def familyOf (text : Text) : Option Family :=
  let (body, zone) := splitZone text
  if strictQuad text then some .v4
  else if (parseV6 body true).isSome && zone ≠ some [] &&
      (colonParts body).all (fun part => '.' ∉ part || strictQuad part) then some .v6
  else none

/-- A resolver that knows one name, of a printer with a link-local address. -/
def printerNode : Node where
  newUrl _ :=
    some
      { protocol := "http:".toList
        hostname := "printer.lan".toList
        host     := "printer.lan".toList
        port     := []
        pathname := ['/']
        search   := []
        href     := "http://printer.lan/".toList }
  isIP := familyOf
  lookup _ wanted := if wanted = none then .ok [⟨"fe80::1".toList, .v6⟩]
    else .error "ENOTFOUND".toList
  isIP_v4 {text} known := by
    unfold familyOf at known
    split at known
    rename_i body zone cut
    split at known
    · rename_i strict
      exact exists_of_strictQuad strict
    · split at known <;> cases known
  isIP_v6 {text} known := by
    unfold familyOf at known
    split at known
    rename_i body zone cut
    split at known
    · cases known
    · split at known
      · rename_i read
        rw [Bool.and_eq_true, Bool.and_eq_true] at read
        obtain ⟨value, read⟩ := Option.isSome_iff_exists.mp read.1.1
        refine ⟨value, ?_⟩
        obtain ⟨whole, -⟩ | ⟨front, name, whole, joined⟩ := splitZone_eq text
        · obtain ⟨rfl, -⟩ := Prod.mk.inj (cut.symm.trans whole)
          exact .inl ((parseV6_eq_some_iff _ _).mp read)
        · obtain ⟨rfl, -⟩ := Prod.mk.inj (cut.symm.trans whole)
          exact .inr ⟨body, name, joined, (parseV6_eq_some_iff _ _).mp read⟩
      · cases known
  isIP_quad {value} fits := by
    have read : parseV4 (formatIp value ipv4Bits) = some value := by
      rw [formatIp, if_pos rfl, parseV4_quad, Nat.mod_eq_of_lt fits]
    have strict : strictQuad (formatIp value ipv4Bits) = true := by
      rw [strictQuad, read, Option.any_some, decide_eq_true rfl]
    rw [familyOf]
    simp only [strict, if_true]
  lookup_family {host wanted answers} looked answer listed := by
    split at looked
    · rename_i any
      obtain rfl := Except.ok.inj looked
      rw [List.mem_singleton] at listed
      subst listed
      refine ⟨by decide, fun family asked => ?_⟩
      rw [any] at asked
      cases asked
    · cases looked

theorem printerNode_plain : printerNode.Plain := by
  constructor
  · rintro rawUrl host ⟨-, parsed, read, -, -, rfl⟩
    obtain rfl := Option.some.inj read
    decide
  · intro host wanted answers looked answer listed
    simp only [printerNode] at looked
    split at looked
    · obtain rfl := Except.ok.inj looked
      rw [List.mem_singleton] at listed
      subst listed
      decide
    · cases looked

/-- The printer's URL is refused, and `::ffff:10.0.0.1` is blocked. -/
theorem guard_iff_printer :
    Guarded printerNode true "http://printer.lan/".toList ∧
    (isBlockedAddress printerNode "::ffff:10.0.0.1".toList = true ↔
    HasBlockedValue "::ffff:10.0.0.1".toList) :=
  ⟨(guard_iff printerNode true "http://printer.lan/".toList).2.1 printerNode_plain,
    ((guard_iff printerNode true []).2.2 "::ffff:10.0.0.1".toList).mpr fun missed =>
      absurd missed.2 (by unfold Overlooked; decide)⟩

theorem leading_zero_is_not_blocked :
    ¬ ∀ node : Node, node.Plain → (∀ ipv6 rawUrl, Guarded node ipv6 rawUrl) ∧
      ∀ text, (parseIp text { zoneId := false }).isSome = true →
        (isBlockedAddress node text = true ↔ HasBlockedValue text) := by
  intro guards
  have judged := (guards printerNode printerNode_plain).2 "010.0.0.1".toList (by decide)
  have ten : HasBlockedValue "010.0.0.1".toList :=
    ⟨⟨octets 10 0 0 1, ipv4Bits, none⟩, .v4, by decide, rfl,
      ⟨.v4, octets 10 0 0 0, 8⟩, by decide, by decide,
      by decide⟩
  exact absurd (judged.mpr ten) (by decide)

end UrlGuard

end Cidrella
