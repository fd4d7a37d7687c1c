import Cidrella.IpToLong
import Cidrella.ReverseNames
import Cidrella.SortKeys

/-!
# Reverse zones in the panel

`client/src/utils/reverseZone.js`: the address a `PTR` names and the network a reverse zone
covers, read from the labels of the names once more, apart from the server's
`ipForPtrRecord` and `reverseZoneNetwork`.

The labels of a zone are what stands in front of its ending, on both sides
(`ZoneName.zoneLabels`, `ZoneName.dropArpa`).
-/

set_option autoImplicit false

namespace Cidrella

open Address DnsNames Dns Text

namespace ReverseZone

/-! ## The panel's functions -/

/-- The ending of reverse names without its dot. -/
def suffix : Family → Text
  | .v4 => "in-addr.arpa".toList
  | .v6 => "ip6.arpa".toList

/-- `V4_SUFFIX.test(name)` and `V6_SUFFIX.test(name)`. -/
def hasSuffix (family : Family) (name : Text) : Bool := endsWith (toLowerCase (dropFinalDot name))
    (suffix family)

/-- `reverseZoneFamily(name)`. -/
def reverseZoneFamily (name : Text) : Option Family :=
  if hasSuffix .v4 name then some .v4 else if hasSuffix .v6 name then some .v6 else none

/-- `name.replace(V4_SUFFIX, '')`, and the same for IPv6. -/
def dropSuffix (family : Family) (name : Text) : Text :=
  let bare := dropFinalDot name
  if hasSuffix family name then dropFinalDot (bare.take (bare.length - (suffix family).length))
  else name

/-- `zoneLabels(name, family)`. -/
def zoneLabels (name : Text) (family : Family) : List Text :=
  let stripped := dropSuffix family name
  if stripped = [] then [] else (stripped.splitOn '.').reverse

/-- `/^[0-9a-f]$/i`. -/
def isNibble (label : Text) : Bool := label.length = 1 && label.all isHexDigit

/-- The nibbles joined by fours, and these by colons. -/
def hextetsOf (nibbles : List Text) : Text :=
  [':'].intercalate ((List.range 8).map fun i => ((nibbles.drop (4 * i)).take 4).flatten)

/-- `ptrRecordAddress(zoneName, recordName)`. -/
def ptrRecordAddress (zoneName recordName : Text) : Option Text :=
  match reverseZoneFamily zoneName with
  | none => none
  | some family =>
    let labels := zoneLabels zoneName family ++ (labelsOf recordName).reverse
    match family with
    | .v4 => if labels.length ≠ 4 then none else canonicalizeIp (dotted labels)
    | .v6 =>
      if labels.length ≠ 32 || labels.any (fun label => !isNibble label) then none
      else canonicalizeIp (hextetsOf labels)

/-- What `zoneNetwork` returns. -/
structure ZoneNetwork where
  family : Family
  address : Text
  prefixLen : Nat

/-- `zoneNetwork(name)`. -/
def zoneNetwork (name : Text) : Option ZoneNetwork :=
  (reverseZoneFamily name).map fun family =>
    let labels := zoneLabels name family
    let padded := (labels ++ List.replicate (family.labelCount - labels.length) ['0']).take
        family.labelCount
    match family with
    | .v4 => ⟨.v4, dotted padded, min labels.length 4 * 8⟩
    | .v6 => ⟨.v6, hextetsOf padded, min labels.length 32 * 4⟩

/-- `reverseZoneContains(name, ip)`. -/
def reverseZoneContains (name ip : Text) : Bool :=
  match zoneNetwork name, canonicalizeIp (trim ip) with
  | some network, some address =>
    match sortKey address, sortKey network.address with
    | some addressKey, some zoneKey =>
      if addressKey.head? ≠ zoneKey.head? then false
      else
        let start := if network.family = .v4 then 25 else 1
        let digits := network.prefixLen / 4
        (addressKey.drop start).take digits = (zoneKey.drop start).take digits
    | _, _ => false
  | _, _ => false

/-! ## Names of reverse zones -/

/-- A name of a reverse zone, in any case, with a dot behind it or without: what stands in
front of its ending. -/
def ZoneName (family : Family) (front zone : Text) : Prop :=
  ∃ ending dot, zone = front ++ '.' :: ending ++ dot ∧ toLowerCase ending = suffix family ∧
    (dot = [] ∨ dot = ['.'])

/-- The parts of a text between its dots. The empty text has none. -/
def partsOf (front : Text) : List Text := if front = [] then [] else front.splitOn '.'

section

variable {family : Family} {front zone : Text}

theorem ZoneName.bare (named : ZoneName family front zone) : ∃ ending,
    toLowerCase ending = suffix family ∧ dropFinalDot zone = front ++ '.' :: ending := by
  obtain ⟨ending, dot, rfl, lower, rfl | rfl⟩ := named
  · refine ⟨ending, lower, ?_⟩
    have some' : ending ≠ [] := by
      rintro rfl
      cases family <;> cases lower
    have split : front ++ '.' :: ending = (front ++ ['.']) ++ ending := by simp
    have ends : endsWith (front ++ '.' :: ending) ['.'] = false := by
      rw [Bool.eq_false_iff]
      intro dot
      have last := endsWith_dot_iff.mp dot
      rw [split, List.getLast?_append_of_ne_nil _ some'] at last
      have lowerLast : (suffix family).getLast? = some '.' := by
        rw [← lower, toLowerCase, List.getLast?_map, last]
        rfl
      exact absurd lowerLast (by cases family <;> decide)
    rw [List.append_nil, dropFinalDot_eq_self ends]
  · exact ⟨ending, lower, dropFinalDot_concat _⟩

theorem ZoneName.hasSuffix (named : ZoneName family front zone) (other : Family) :
    hasSuffix other zone = decide (other = family) := by
  obtain ⟨ending, lower, bare⟩ := named.bare
  have ends : endsWith (toLowerCase (dropFinalDot zone)) (suffix family) = true := by
    rw [bare, toLowerCase_append, endsWith_iff]
    refine ⟨toLowerCase front ++ ['.'], ?_⟩
    rw [List.append_assoc, ← lower]
    rfl
  by_cases same : other = family
  · rw [ReverseZone.hasSuffix, same, ends, decide_eq_true rfl]
  · rw [ReverseZone.hasSuffix, decide_eq_false same]
    refine endsWith_eq_false ends ?_
    cases other <;> cases family <;> first | exact absurd rfl same | decide

theorem ZoneName.reverseZoneFamily (named : ZoneName family front zone) :
    reverseZoneFamily zone = some family := by
  rw [ReverseZone.reverseZoneFamily, named.hasSuffix, named.hasSuffix]
  cases family <;> rfl

theorem ZoneName.dropSuffix (named : ZoneName family front zone) :
    dropSuffix family zone = front := by
  obtain ⟨ending, lower, bare⟩ := named.bare
  have length : (suffix family).length = ending.length := by rw [← lower, length_toLowerCase]
  have cut : (front ++ '.' :: ending).take ((front ++ '.' :: ending).length - ending.length) =
      front ++ ['.'] := by
    have split : front ++ '.' :: ending = (front ++ ['.']) ++ ending := by simp
    rw [split, List.length_append, Nat.add_sub_cancel, List.take_left]
  rw [ReverseZone.dropSuffix]
  simp only [named.hasSuffix, decide_true, if_true, bare, length, cut, dropFinalDot_concat]

theorem ZoneName.zoneLabels (named : ZoneName family front zone) :
    zoneLabels zone family = (partsOf front).reverse := by
  rw [ReverseZone.zoneLabels, named.dropSuffix, partsOf]
  split <;> rfl

theorem ZoneName.dropArpa (named : ZoneName family front zone) :
    dropArpa (suffix family) (toLowerCase zone) = toLowerCase front := by
  obtain ⟨ending, lower, bare⟩ := named.bare
  have lowered : dropFinalDot (toLowerCase zone) = toLowerCase front ++ '.' :: suffix family := by
    rw [dropFinalDot_toLowerCase, bare, toLowerCase_append, ← lower]
    rfl
  have split : toLowerCase front ++ '.' :: suffix family = (toLowerCase front ++ ['.']) ++
      suffix family := by simp
  have ends : endsWith (toLowerCase front ++ '.' :: suffix family) (suffix family) = true :=
    endsWith_iff.mpr ⟨_, split⟩
  rw [Dns.dropArpa]
  simp only [lowered, ends, if_true]
  rw [split, List.length_append, Nat.add_sub_cancel, List.take_left, dropFinalDot_concat]

theorem labelsOf_eq (text : Text) : labelsOf text = (partsOf text).filter (· ≠ []) := by
  rw [labelsOf, partsOf]
  split
  · rename_i empty
    rw [empty]
    rfl
  · rfl

theorem splitOn_toLowerCase (text : Text) :
    (toLowerCase text).splitOn '.' = (text.splitOn '.').map toLowerCase := by
  induction text with
  | nil => rfl
  | cons c text ih =>
    have cons : toLowerCase (c :: text) = c.toLower :: toLowerCase text := rfl
    rw [cons, List.splitOn_cons_eq_if_modifyHead, List.splitOn_cons_eq_if_modifyHead, ih]
    by_cases dot : c = '.'
    · rw [if_pos (by rw [dot]; rfl), if_pos (by rw [dot]; rfl)]
      rfl
    · have lower : c.toLower ≠ '.' := fun same => dot ((toLower_eq_mark (.inl rfl)).mp same)
      rw [if_neg (by simpa using lower), if_neg (by simpa using dot)]
      cases text.splitOn '.' with
      | nil => rfl
      | cons first rest => rfl

theorem labelsOf_toLowerCase (text : Text) : labelsOf (toLowerCase text) = (labelsOf text).map
    toLowerCase := by
  rw [labelsOf, splitOn_toLowerCase, labelsOf, List.filter_map]
  congr 1
  refine List.filter_congr fun label _ => ?_
  rw [Function.comp_apply, decide_eq_decide, toLowerCase]
  exact not_congr List.map_eq_nil_iff

end

/-! ## Nibbles -/

theorem readDigits_append (base : Nat) (front back : Text) :
    readDigits base (front ++ back) = readDigits base front * base ^ back.length + readDigits
    base back := by
  induction back using List.reverseRecOn with
  | nil => simp [readDigits]
  | append_singleton back c ih =>
    rw [← List.append_assoc, readDigits_append_singleton, ih, readDigits_append_singleton,
      List.length_append, List.length_singleton, pow_succ]
    ring

theorem positional_eq_readDigits {parts : List Text} (four : ∀ part ∈ parts, part.length = 4) :
    positional 16 65536 parts = readDigits 16 parts.flatten := by
  induction parts with
  | nil => rfl
  | cons part parts ih =>
    obtain ⟨-, rest⟩ := List.forall_mem_cons.mp four
    have length : parts.flatten.length = 4 * parts.length := by
      rw [List.length_flatten, List.map_congr_left rest, List.map_const', List.sum_replicate,
        smul_eq_mul, Nat.mul_comm]
    rw [List.flatten_cons, readDigits_append, positional, ih rest, length, pow_mul]
    norm_num

theorem flatMap_range_take {α : Type} (parts : List α) (width count : Nat) :
    ((List.range count).flatMap fun i => (parts.drop (width * i)).take width) = parts.take
    (width * count) := by
  induction count with
  | zero => simp
  | succ count ih => rw [List.range_succ, List.flatMap_append, ih, Nat.mul_succ,
      List.take_add]; simp

section

variable {nibbles : List Text}

theorem length_flatten_nibbles (single : ∀ label ∈ nibbles, isNibble label = true) :
    nibbles.flatten.length = nibbles.length := by
  have one : ∀ label ∈ nibbles, label.length = 1 := fun label member => by
    have both := single label member
    rw [isNibble, Bool.and_eq_true, decide_eq_true_eq] at both
    exact both.1
  rw [List.length_flatten, List.map_congr_left one, List.map_const', List.sum_replicate,
    smul_eq_mul, Nat.mul_one]

theorem isHexDigit_of_mem_nibbles (single : ∀ label ∈ nibbles, isNibble label = true) :
    ∀ c ∈ nibbles.flatten, isHexDigit c = true := by
  intro c member
  obtain ⟨label, listed, inside⟩ := List.mem_flatten.mp member
  have both := single label listed
  rw [isNibble, Bool.and_eq_true, List.all_eq_true] at both
  exact both.2 c inside

/-- **Joined by fours, 32 nibbles are read as the number they spell.** -/
theorem parseIp_hextetsOf (whole : nibbles.length = 32) (single : ∀ label ∈ nibbles,
    isNibble label = true) :
    parseIp (hextetsOf nibbles) = some (ParsedIp.mk (readDigits 16 nibbles.flatten) ipv6Bits
    none).foldMapped := by
  let parts := (List.range 8).map fun i => ((nibbles.drop (4 * i)).take 4).flatten
  have chunk (i : Nat) : ∀ label ∈ (nibbles.drop (4 * i)).take 4, isNibble label = true :=
    fun label member =>
    single label (List.mem_of_mem_drop (List.mem_of_mem_take member))
  have four : ∀ part ∈ parts, part.length = 4 := by
    intro part member
    obtain ⟨i, below, rfl⟩ := List.mem_map.mp member
    have inside := List.mem_range.mp below
    rw [length_flatten_nibbles (chunk i), List.length_take, List.length_drop, whole]
    omega
  have hex : ∀ part ∈ parts, IsGroupText part := by
    intro part member
    have length := four part member
    obtain ⟨i, -, rfl⟩ := List.mem_map.mp member
    exact ⟨by omega, by omega, isHexDigit_of_mem_nibbles (chunk i)⟩
  have flat : parts.flatten = nibbles.flatten := by
    have pieces := flatMap_range_take nibbles 4 8
    rw [List.take_of_length_le (by omega)] at pieces
    rw [← pieces, List.flatMap_def, List.flatten_flatten, List.map_map]
    rfl
  have literal : Ipv6Literal (hextetsOf nibbles) (readDigits 16 nibbles.flatten) := by
    rw [← flat, ← positional_eq_readDigits four]
    exact .full hex (by simp)
  have trimmed : trim (hextetsOf nibbles) = hextetsOf nibbles := trim_of_isPlain fun c =>
    literal.isPlain c
  exact ((parseIp_iff_literal _).2 _).mpr ⟨_, .groups (trimmed.symm ▸ literal), rfl⟩

theorem value_lt (whole : nibbles.length = 32) (single : ∀ label ∈ nibbles, isNibble label = true) :
    readDigits 16 nibbles.flatten < 2 ^ 128 := by
  have bound := @readDigits_lt 16 nibbles.flatten fun c member =>
    digitValue_lt_of_isHexDigit (isHexDigit_of_mem_nibbles single c member)
  rw [length_flatten_nibbles single, whole] at bound
  exact bound.trans_le (by norm_num)

end

end ReverseZone

end Cidrella
