import Cidrella.Lib.Placeholders
import Cidrella.Lib.RenderedLines
import Cidrella.Network

/-!
# Names of networks

`networkNameFromTemplate` of `utils/cidr.js`. Placeholders are filled in one after another,
over the whole text each time. What is filled in has no `%`, so what a later replacement finds
is what the template had (`name_default`).

By the default template a network is named by its CIDR, but for an IPv6 network of at most 64
bits, which is named by the four groups that are all it has (`networkName_injective`).
-/

set_option autoImplicit false

namespace Cidrella

namespace NetworkNames

open Address Text Placeholders RenderedLines

/-- `[1-4]`. -/
def isGroup (c : Char) : Bool := '1' ≤ c && c ≤ '4'

/-- `%[1-4]` at the front. -/
def startsGroup : Text → Bool
  | '%' :: c :: _ => isGroup c
  | _ => false

/-- `template.replace(/(%[1-4])\.(?=%[1-4])/g, '$1:')`. -/
def colonsBetweenGroups : Text → Text
  | [] => []
  | '%' :: c :: '.' :: rest =>
    if isGroup c && startsGroup rest then '%' :: c :: ':' :: colonsBetweenGroups rest
    else '%' :: colonsBetweenGroups (c :: '.' :: rest)
  | c :: rest => c :: colonsBetweenGroups rest

/-- `network` of the parsed network. -/
def networkAddress (net : Network) : Text := formatIp net.networkBig net.bits

/-- `groups`: octets or hextets. -/
def groupTexts (net : Network) : List Text :=
  match net.family with
  | .v4 => (networkAddress net).splitOn '.'
  | .v6 => (groups 16 8 net.networkBig).map (Nat.toDigits 16)

/-- The placeholders filled in. -/
def fillIn (net : Network) (template : Text) : Text :=
  let parts := groupTexts net
  let named := replaceAll "%network".toList (networkAddress net) template
  let first := replaceAll "%1".toList (parts.getD 0 []) named
  let second := replaceAll "%2".toList (parts.getD 1 []) first
  let third := replaceAll "%3".toList (parts.getD 2 []) second
  let fourth := replaceAll "%4".toList (parts.getD 3 []) third
  replaceAll "%bitmask".toList (Nat.toDigits 10 net.prefixLen) fourth

/-- `networkNameFromTemplate`. It throws on a text that is no network. -/
def networkNameFromTemplate (template cidr : Text) : Option Text := do
  let net ← parseNetwork cidr
  let spelled := if net.family = .v6 then colonsBetweenGroups template else template
  let whole := if net.family = .v6 ∧ 64 < net.prefixLen then
      replaceAll "%1:%2:%3:%4".toList "%network".toList spelled
    else spelled
  some (fillIn net whole)

/-- The default template. -/
def defaultTemplate : Text := "%1.%2.%3.%4/%bitmask".toList

/-! ## The parts of a name -/

section

variable {net other : Network}

theorem percent_not_mem_address (net : Network) : '%' ∉ networkAddress net := fun member =>
  ne_percent_of_isPlain (isPlain_of_mem_formatIp '%' member) rfl

theorem octets_eq (four : net.family = .v4) :
    groupTexts net = (groups 8 4 net.networkBig).map (Nat.toDigits 10) := by
  have parts : networkAddress net = ['.'].intercalate
      ((groups 8 4 net.networkBig).map (Nat.toDigits 10)) := by
    rw [networkAddress, Network.bits, four, formatIp,
      if_pos (show Family.v4.bits = ipv4Bits from rfl)]
  have some : (groups 8 4 net.networkBig).map (Nat.toDigits 10) ≠ [] := List.cons_ne_nil _ _
  have free : ∀ part ∈ (groups 8 4 net.networkBig).map (Nat.toDigits 10), part.splitOn '.' =
      [part] := by
    intro part member
    obtain ⟨n, -, rfl⟩ := List.mem_map.mp member
    exact List.splitOn_eq_singleton fun dot => absurd (isDigit_of_mem_decimal dot) (by decide)
  rw [groupTexts, four]
  simp only
  rw [parts, splitOn_intercalate_flatMap some, List.flatMap_congr free, List.flatMap_singleton']

theorem percent_not_mem_groups (net : Network) : ∀ part ∈ groupTexts net, '%' ∉ part := by
  intro part member percent
  cases family : net.family with
  | v4 =>
    rw [octets_eq family] at member
    obtain ⟨n, -, rfl⟩ := List.mem_map.mp member
    exact absurd (isDigit_of_mem_decimal percent) (by decide)
  | v6 =>
    rw [groupTexts, family] at member
    exact absurd (isHexDigit_of_mem_hextets part member '%' percent) (by decide)

theorem exists_groups (net : Network) : ∃ a b c d rest, groupTexts net = a :: b :: c ::
    d :: rest := by
  cases family : net.family with
  | v4 =>
    rw [octets_eq family]
    exact ⟨_, _, _, _, _, rfl⟩
  | v6 =>
    rw [groupTexts, family]
    exact ⟨_, _, _, _, _, rfl⟩

/-- What the default template has after the last group. -/
def templateEnd : Text := '/' :: '%' :: "bitmask".toList

/-- What it has from the fourth group on. -/
def fourthOn (sep : Char) : Text := sep :: '%' :: '4' :: templateEnd

/-- What it has from the third group on. -/
def thirdOn (sep : Char) : Text := sep :: '%' :: '3' :: fourthOn sep

/-- What it has from the second group on. -/
def secondOn (sep : Char) : Text := sep :: '%' :: '2' :: thirdOn sep

/-- The default template with a separator. -/
def spelledWith (sep : Char) : Text := '%' :: '1' :: secondOn sep

theorem replaceAll_spelledWith {sep : Char} (plain : sep = '.' ∨ sep = ':') (text : Text) :
    replaceAll ('%' :: "network".toList) text (spelledWith sep) = spelledWith sep ∧
      replaceAll ['%', '1'] text (spelledWith sep) = text ++ secondOn sep ∧
      replaceAll ['%', '2'] text (secondOn sep) = sep :: (text ++ thirdOn sep) ∧
      replaceAll ['%', '3'] text (thirdOn sep) = sep :: (text ++ fourthOn sep) ∧
      replaceAll ['%', '4'] text (fourthOn sep) = sep :: (text ++ templateEnd) ∧
      replaceAll ('%' :: "bitmask".toList) text templateEnd = '/' :: (text ++ []) := by
  rcases plain with rfl | rfl
  · exact ⟨rfl, rfl, rfl, rfl, rfl, rfl⟩
  · exact ⟨rfl, rfl, rfl, rfl, rfl, rfl⟩

theorem fillIn_eq {a b c d : Text} {rest : List Text}
    (parts : groupTexts net = a :: b :: c :: d :: rest) (template : Text) :
    fillIn net template = replaceAll ('%' :: "bitmask".toList) (Nat.toDigits 10 net.prefixLen)
      (replaceAll ['%', '4'] d
        (replaceAll ['%', '3'] c
        (replaceAll ['%', '2'] b
        (replaceAll ['%', '1'] a (replaceAll ('%' :: "network".toList) (networkAddress net)
        template))))) := by
  rw [fillIn, parts]
  rfl

/-- **What is filled in is what the template had.** -/
theorem fillIn_spelledWith {sep : Char} (plain : sep = '.' ∨ sep = ':') {a b c d : Text}
    {rest : List Text} (parts : groupTexts net = a :: b :: c :: d :: rest) :
    fillIn net (spelledWith sep) =
      [sep].intercalate [a, b, c, d] ++ '/' :: Nat.toDigits 10 net.prefixLen := by
  have free := percent_not_mem_groups net
  simp only [parts, List.mem_cons, forall_eq_or_imp] at free
  obtain ⟨freeA, freeB, freeC, freeD, -⟩ := free
  have mark : sep ≠ '%' := by rcases plain with rfl | rfl <;> decide
  have joined : [sep].intercalate [a, b, c, d] ++ '/' :: Nat.toDigits 10 net.prefixLen =
      a ++ sep :: (b ++
      sep :: (c ++ sep :: (d ++ '/' :: (Nat.toDigits 10 net.prefixLen ++ [])))) := by
    simp [List.intercalate_cons_cons]
  obtain ⟨named, -⟩ := replaceAll_spelledWith plain (networkAddress net)
  obtain ⟨-, first, -⟩ := replaceAll_spelledWith plain a
  obtain ⟨-, -, second, -⟩ := replaceAll_spelledWith plain b
  obtain ⟨-, -, -, third, -⟩ := replaceAll_spelledWith plain c
  obtain ⟨-, -, -, -, fourth, -⟩ := replaceAll_spelledWith plain d
  obtain ⟨-, -, -, -, -, last⟩ := replaceAll_spelledWith plain (Nat.toDigits 10 net.prefixLen)
  -- Each placeholder comes after the texts filled in before it, which have no mark.
  rw [fillIn_eq parts, joined, named, first]
  rw [replaceAll_append freeA, second]
  rw [replaceAll_append freeA, replaceAll_cons mark, replaceAll_append freeB, third]
  rw [replaceAll_append freeA, replaceAll_cons mark, replaceAll_append freeB, replaceAll_cons mark,
    replaceAll_append freeC, fourth]
  rw [replaceAll_append freeA, replaceAll_cons mark, replaceAll_append freeB, replaceAll_cons mark,
    replaceAll_append freeC, replaceAll_cons mark, replaceAll_append freeD, last]

theorem fillIn_whole (net : Network) : fillIn net "%network/%bitmask".toList = net.cidr := by
  obtain ⟨a, b, c, d, rest, parts⟩ := exists_groups net
  have free := percent_not_mem_address net
  have named : replaceAll ('%' :: "network".toList) (networkAddress net) "%network/%bitmask".toList
      = networkAddress net ++ templateEnd := rfl
  have group {c : Char} {text : Text} (listed : c = '1' ∨ c = '2' ∨ c = '3' ∨ c = '4') :
      replaceAll ['%', c] text (templateEnd) = templateEnd := by
    rcases listed with rfl | rfl | rfl | rfl <;> rfl
  obtain ⟨-, -, -, -, -, last⟩ := replaceAll_spelledWith (.inl rfl) (Nat.toDigits 10 net.prefixLen)
  rw [fillIn_eq parts, named]
  rw [replaceAll_append free, group (.inl rfl), replaceAll_append free, group (.inr (.inl rfl)),
    replaceAll_append free, group (.inr (.inr (.inl rfl))), replaceAll_append free,
    group (.inr (.inr (.inr rfl))), replaceAll_append free, last, List.append_nil]
  rfl

/-! ## Names -/

/-- The name of a network: its CIDR, or its first four groups where those are all it has. -/
def defaultName (net : Network) : Text :=
  if net.family = .v6 ∧ net.prefixLen ≤ 64 then
    [':'].intercalate ((groupTexts net).take 4) ++ '/' :: Nat.toDigits 10 net.prefixLen
  else net.cidr

/-- **The name by the default template.** -/
theorem name_default {cidr : Text} (read : parseNetwork cidr = some net) :
    networkNameFromTemplate defaultTemplate cidr = some (defaultName net) := by
  obtain ⟨a, b, c, d, rest, parts⟩ := exists_groups net
  rw [networkNameFromTemplate, read, Option.bind_eq_bind, Option.bind_some, defaultName]
  cases family : net.family with
  | v4 =>
    have four : rest = [] := by
      have length := congrArg List.length (parts.symm.trans (octets_eq family))
      simpa [length_groups] using length
    have apart : ¬ (Family.v4 = Family.v6) := nofun
    simp only [apart, false_and, if_false]
    rw [show defaultTemplate = spelledWith '.' from rfl, fillIn_spelledWith (.inl rfl) parts]
    rw [Network.cidr, networkText, family, formatIp,
      if_pos (show Family.v4.bits = ipv4Bits from rfl)]
    rw [← octets_eq family, parts, four]
  | v6 =>
    simp only [true_and, if_true]
    rw [show colonsBetweenGroups defaultTemplate = spelledWith ':' by decide]
    by_cases long : 64 < net.prefixLen
    · rw [if_pos long, if_neg (by omega)]
      rw [show replaceAll "%1:%2:%3:%4".toList "%network".toList (spelledWith ':') =
        "%network/%bitmask".toList by decide, fillIn_whole]
    · rw [if_neg long, if_pos (by omega), fillIn_spelledWith (.inr rfl) parts, parts]
      rfl

/-! ## No name twice -/

theorem exists_front (net : Network) : ∃ front, defaultName net = front ++
    '/' :: Nat.toDigits 10 net.prefixLen := by
  rw [defaultName]
  split
  · exact ⟨_, rfl⟩
  · exact ⟨networkAddress net, rfl⟩

theorem prefixLen_eq (same : defaultName net = defaultName other) :
    net.prefixLen = other.prefixLen := by
  obtain ⟨front, spelled⟩ := exists_front net
  obtain ⟨back, spelled'⟩ := exists_front other
  have last := (takeWhile_reverse_of_not_mem front (slash_not_mem_decimal net.prefixLen)).1
  have last' := (takeWhile_reverse_of_not_mem back (slash_not_mem_decimal other.prefixLen)).1
  rw [← spelled, same, spelled', last'] at last
  have read := congrArg (readDigits 10) last
  rw [readDigits_toDigits (by decide) (by decide), readDigits_toDigits (by decide)
    (by decide)] at read
  exact read.symm

theorem networkBig_eq (six : net.family = .v6) (six' : other.family = .v6)
    (short : net.prefixLen ≤ 64) (short' : other.prefixLen ≤ 64)
    (same : (groupTexts net).take 4 = (groupTexts other).take 4) :
    net.networkBig = other.networkBig := by
  have injective : Function.Injective (Nat.toDigits 16) :=
    Function.LeftInverse.injective (g := readDigits 16)
      (readDigits_toDigits (by decide) (by decide))
  have texts {some : Network} (v6 : some.family = .v6) : (groupTexts some).take 4 =
      (groups 16 4 (some.networkBig >>> 64)).map (Nat.toDigits 16) := by
    rw [groupTexts, v6]
    exact List.map_take.symm.trans (congrArg _ (take_groups 16 4 4 some.networkBig))
  have high {some : Network} (v6 : some.family = .v6) : some.networkBig >>> 64 < 2 ^ (16 * 4) := by
    have fits := some.fits
    rw [v6] at fits
    rw [Nat.shiftRight_eq_div_pow]
    exact Nat.div_lt_of_lt_mul fits
  -- The host bits of a short prefix are zero, and with them the low half.
  have low {some : Network} (v6 : some.family = .v6) (few : some.prefixLen ≤ 64) :
      some.networkBig >>> 64 * 2 ^ 64 = some.networkBig := by
    have aligned := some.aligned
    rw [v6] at aligned
    rw [Nat.shiftRight_eq_div_pow]
    refine Nat.div_mul_cancel (dvd_trans (pow_dvd_pow 2 ?_) aligned)
    show 64 ≤ 128 - some.prefixLen
    omega
  rw [texts six, texts six'] at same
  have joined := congrArg (joinGroups 16) (injective.list_map same)
  rw [joinGroups_groups (high six), joinGroups_groups (high six')] at joined
  rw [← low six short, joined, low six' short']

theorem cidr_eq (family : net.family = other.family) (same : defaultName net = defaultName other) :
    net.cidr = other.cidr := by
  have len := prefixLen_eq same
  by_cases short : net.family = .v6 ∧ net.prefixLen ≤ 64
  · obtain ⟨six, few⟩ := short
    have six' : other.family = .v6 := family ▸ six
    have few' : other.prefixLen ≤ 64 := len ▸ few
    rw [defaultName, defaultName, if_pos ⟨six, few⟩, if_pos ⟨six', few'⟩, len] at same
    have parts {some : Network} (v6 : some.family = .v6) :
        ([':'].intercalate ((groupTexts some).take 4)).splitOn ':' = (groupTexts some).take 4 := by
      obtain ⟨a, b, c, d, rest, listed⟩ := exists_groups some
      rw [splitOn_intercalate_flatMap (by rw [listed]; exact List.cons_ne_nil _ _)]
      rw [List.flatMap_congr fun part member => ?_, List.flatMap_singleton']
      have hextet := List.mem_of_mem_take member
      rw [groupTexts, v6] at hextet
      exact List.splitOn_eq_singleton (colon_not_mem_hextets part hextet)
    have fronts := List.append_cancel_right same
    have taken := (parts six).symm.trans ((congrArg (·.splitOn ':') fronts).trans (parts six'))
    exact congrArg Network.cidr
      (Network.eq_of_fields family (networkBig_eq six six' few few' taken) len)
  · have long : ¬ (other.family = .v6 ∧ other.prefixLen ≤ 64) := by rwa [← family, ← len]
    rwa [defaultName, defaultName, if_neg short, if_neg long] at same

/-- **No name twice**: by the default template, networks of one family with different CIDRs have
different names. -/
theorem networkName_injective {left right : Text} (readLeft : parseNetwork left = some net)
    (readRight : parseNetwork right = some other) (family : net.family = other.family)
    (differs : net.cidr ≠ other.cidr) :
    ∃ name name', networkNameFromTemplate defaultTemplate left = some name ∧
      networkNameFromTemplate defaultTemplate right = some name' ∧ name ≠ name' :=
  ⟨_, _, name_default readLeft, name_default readRight, fun same => differs (cidr_eq family same)⟩

end

/-- Two links of a site, which differ beyond the groups they share. -/
def firstLink : Network :=
  ⟨.v6, 0x20010db8000000ff0000000000000000, 127, by decide, by decide, by decide, by decide⟩

def secondLink : Network :=
  ⟨.v6, 0x20010db8000000ff0000000000000002, 127, by decide, by decide, by decide, by decide⟩

theorem networkName_injective_at_links :
    ∃ name name', networkNameFromTemplate defaultTemplate firstLink.cidr = some name ∧
      networkNameFromTemplate defaultTemplate secondLink.cidr = some name' ∧ name ≠ name' :=
  networkName_injective (parseNetwork_cidr firstLink) (parseNetwork_cidr secondLink) rfl (by decide)

end NetworkNames

end Cidrella
