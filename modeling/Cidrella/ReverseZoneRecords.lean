import Cidrella.ReverseZone

/-!
# One record in the panel and on the server

`ptrRecordAddress` of the panel and the server's `ipForPtrRecord` read the address that a
`PTR` names. The panel writes every address in its canonical spelling and takes the empty
labels of a zone for labels; the server passes octets on as they are spelled, leaves empty
labels out, and writes every 32 nibbles as an IPv6 address.

In a zone named as reverse zones are, the two read a record alike exactly when what it spells
is spelled plainly (`ptrRecordAddress_eq_iff`).
-/

set_option autoImplicit false

namespace Cidrella

open Address DnsNames Dns Text

namespace ReverseZone

/-! ## Octets -/

/-- A numeral without zeros in front. -/
def IsNumeral (label : Text) : Prop :=
  (∀ c ∈ label, c.isDigit = true) ∧ (label = ['0'] ∨ label.head? ≠ some '0')

theorem digitChar_digitValue {c : Char} (digit : c.isDigit = true) :
    (digitValue c).digitChar = c := by
  rw [Char.isDigit_iff_toNat] at digit
  have back := Char.ofNat_toNat c
  generalize c.toNat = n at digit back
  obtain ⟨low, high⟩ := digit
  subst back
  change 48 ≤ n at low
  change n ≤ 57 at high
  interval_cases n <;> decide

theorem toDigits_readDigits {label : Text} (numeral : IsNumeral label) (some' : label ≠ []) :
    Nat.toDigits 10 (readDigits 10 label) = label := by
  induction label using List.reverseRecOn with
  | nil => exact absurd rfl some'
  | append_singleton front c ih =>
    obtain ⟨digits, plain⟩ := numeral
    have last := digits c (by simp)
    have small := IpToLong.digitValue_lt_of_isDigit last
    rw [readDigits_append_singleton]
    rcases eq_or_ne front [] with rfl | more
    · have alone : 10 * readDigits 10 [] + digitValue c = digitValue c := Nat.zero_add _
      rw [alone, Nat.toDigits_eq_if (by decide), if_pos small, digitChar_digitValue last]
      rfl
    · have head : front.head? ≠ some '0' := by
        rcases plain with zero | head
        · have length := congrArg List.length zero
          simp only [List.length_append, List.length_singleton] at length
          exact absurd (List.length_eq_zero_iff.mp (by omega)) more
        · rwa [List.head?_append_of_ne_nil _ more] at head
      have before := ih ⟨fun d member => digits d (List.mem_append_left _ member), .inr head⟩ more
      have positive : readDigits 10 front ≠ 0 := by
        intro zero
        rw [zero] at before
        rw [← before] at head
        exact head rfl
      have high : (10 * readDigits 10 front + digitValue c) / 10 = readDigits 10 front := by omega
      have low : (10 * readDigits 10 front + digitValue c) % 10 = digitValue c := by omega
      rw [Nat.toDigits_eq_if (by decide), if_neg (by omega), high, low, before,
        digitChar_digitValue last]

theorem isNumeral_toDigits (n : Nat) : IsNumeral (Nat.toDigits 10 n) := by
  refine ⟨fun c member => isDigit_of_mem_decimal member, ?_⟩
  by_cases zero : n = 0
  · rw [zero]
    exact .inl rfl
  · exact .inr (Json.head?_toDigits zero)

section

variable {labels : List Text} {n : Nat}

/-- **Four octets are written as they were spelled exactly when they are numerals.** -/
theorem formatIp_eq_iff (whole : ∀ label ∈ labels, '.' ∉ label) (some' : labels ≠ [])
    (read : parseV4 (trim (dotted labels)) = some n) :
    formatIp n ipv4Bits = dotted labels ↔ ∀ label ∈ labels, IsNumeral label := by
  have cut : (dotted labels).splitOn '.' = labels := List.splitOn_intercalate '.' whole some'
  have written : formatIp n ipv4Bits = dotted ((groups 8 4 n).map (Nat.toDigits 10)) := rfl
  constructor
  · intro same label member
    have parts : (groups 8 4 n).map (Nat.toDigits 10) = labels := by
      rw [← cut, ← same, written]
      refine (List.splitOn_intercalate '.' (fun part listed => ?_) (by simp [groups])).symm
      obtain ⟨octet, -, rfl⟩ := List.mem_map.mp listed
      exact dot_not_mem_decimal octet
    obtain ⟨octet, -, rfl⟩ := List.mem_map.mp (parts ▸ member)
    exact isNumeral_toDigits octet
  · intro numerals
    have solid : trim (dotted labels) = dotted labels := by
      refine trim_eq_self fun c member => ?_
      rcases mem_intercalate_singleton member with rfl | ⟨label, listed, inside⟩
      · decide
      · have digit := (numerals label listed).1 c inside
        exact isTrimmed_of_isPlain (isPlain_of_isHexDigit (isHexDigit_of_isDigit digit))
    rw [solid] at read
    obtain ⟨four, octets, rfl⟩ := (IpToLong.parseV4_iff _ _).mp read
    rw [cut] at four octets written ⊢
    have small : ∀ octet ∈ labels.map (readDigits 10), octet < 2 ^ 8 := by
      intro octet member
      obtain ⟨label, listed, rfl⟩ := List.mem_map.mp member
      have bound := (octets label listed).2.2.2
      omega
    have back := groups_joinGroups small
    rw [List.length_map, four] at back
    rw [written, back, List.map_map]
    congr 1
    refine (List.map_congr_left fun label listed => ?_).trans (List.map_id labels)
    have positive := (octets label listed).1
    exact toDigits_readDigits (numerals label listed) (List.ne_nil_of_length_pos positive)

end

/-! ## What the server reads -/

/-- The labels of both names, most significant first. -/
def spelled (front record : Text) : List Text := (labelsOf record ++ labelsOf front).reverse

theorem toLowerCase_dotted (labels : List Text) :
    toLowerCase (dotted labels) = dotted (labels.map toLowerCase) := by
  induction labels with
  | nil => rfl
  | cons label labels ih =>
    rcases eq_or_ne labels [] with rfl | more
    · simp [dotted]
    · have split := dotted_append (List.cons_ne_nil label []) more
      have lower := dotted_append (List.cons_ne_nil (toLowerCase label) [])
        (fun none => more (List.map_eq_nil_iff.mp none) : labels.map toLowerCase ≠ [])
      rw [List.singleton_append] at split lower
      rw [List.map_cons, split, lower, toLowerCase_append, ← ih]
      simp [dotted, toLowerCase]

theorem mem_of_parseV4 {text : Text} {n : Nat} (read : parseV4 (trim text) = some n) :
    ∀ c ∈ text, isTrimmed c = true ∨ c.isDigit = true ∨ c = '.' := by
  intro c member
  obtain ⟨front, back, whole, pads⟩ := exists_padding isTrimmed text
  rw [whole, List.append_assoc, List.mem_append, List.mem_append] at member
  rcases member with before | inside | behind
  · exact .inl (pads c (List.mem_append_left _ before))
  · have quad := (parseV4_eq_some_iff _ _).mp read
    change c ∈ trim text at inside
    generalize trim text = core at inside quad
    obtain ⟨octets⟩ := quad
    rcases mem_quad inside with rfl | ⟨octet, listed, digit⟩
    · exact .inr (.inr rfl)
    · exact .inr (.inl ((octets octet listed).2.2.1 c digit))
  · exact .inl (pads c (List.mem_append_right _ behind))

theorem toLowerCase_of_parseV4 {text : Text} {n : Nat}
    (read : parseV4 (trim (toLowerCase text)) = some n ∨ parseV4 (trim text) = some n) :
    toLowerCase text = text := by
  refine toLowerCase_eq_self fun c member => ?_
  rcases toLower_eq_self_or_upper c with same | upper
  · exact same
  · have letter : ¬ (isTrimmed c.toLower = true ∨ c.toLower.isDigit = true ∨ c.toLower = '.') ∧
        ¬ (isTrimmed c = true ∨ c.isDigit = true ∨ c = '.') :=
      of_decide_eq_true (@upperLetters_all (fun c =>
        ¬ (isTrimmed c.toLower = true ∨ c.toLower.isDigit = true ∨ c.toLower = '.') ∧
          ¬ (isTrimmed c = true ∨ c.isDigit = true ∨ c = '.')) (by decide) c upper)
    rcases read with read | read
    · exact absurd (mem_of_parseV4 read c.toLower (List.mem_map_of_mem member)) letter.1
    · exact absurd (mem_of_parseV4 read c member) letter.2

theorem parseIp_noZone_iff {text : Text} {parsed : ParsedIp} :
    parseIp text { zoneId := false } = some parsed ↔ parseIp text = some parsed ∧
    parsed.zoneId = none := by
  refine ⟨parseIp_of_noZone, ?_⟩
  rintro ⟨read, noZone⟩
  simp only [parseIp] at read ⊢
  split at read
  · cases read
  · rename_i some'
    rw [if_neg some']
    cases zone : (splitZone (trim text)).2 with
    | none =>
      rw [zone] at read
      simpa using read
    | some name =>
      rw [zone] at read
      simp only [Option.isSome_some, Bool.not_true, Bool.false_or, Bool.true_and, decide_eq_true_eq,
        if_true] at read
      split at read
      · cases read
      · split at read
        · obtain ⟨value, -, written⟩ := Option.bind_eq_some_iff.mp read
          split at written <;> cases (congrArg ParsedIp.zoneId (Option.some.inj written)).trans
            noZone
        · cases read

theorem any_parseIp (text : Text) :
    ((parseIp text { zoneId := false }).any (·.bits = ipv4Bits) && decide (':' ∉ text)) =
      (parseV4 (trim text)).isSome := by
  rw [Bool.eq_iff_iff, Bool.and_eq_true, decide_eq_true_eq, Option.any_eq_true,
    Option.isSome_iff_exists]
  constructor
  · rintro ⟨⟨parsed, read, -⟩, plain⟩
    obtain ⟨n, quad, -⟩ := (IpToLong.parseIp_plain_iff plain _).mp (parseIp_noZone_iff.mp read).1
    exact ⟨n, quad⟩
  · rintro ⟨n, quad⟩
    have plain : ':' ∉ text := IpToLong.colon_not_mem_of_parseV4 quad
    have read := (IpToLong.parseIp_plain_iff plain ⟨n, ipv4Bits, none⟩).mpr ⟨n, quad, rfl⟩
    exact ⟨⟨_, parseIp_noZone_iff.mpr ⟨read, rfl⟩, decide_eq_true rfl⟩, plain⟩

/-- **What the server reads in an IPv4 zone** are the labels as they are spelled. -/
theorem ipForPtrRecord_of_v4 {front zone : Text} (named : ZoneName .v4 front zone) (record : Text) :
    ipForPtrRecord record zone =
      if (parseV4 (trim (dotted (spelled front record)))).isSome
        then some (dotted (spelled front record))
      else none := by
  have other := named.hasSuffix .v6
  rw [hasSuffix, ← dropFinalDot_toLowerCase] at other
  have front' := named.dropArpa
  have lower : dotted (labelsOf (toLowerCase record) ++ labelsOf (toLowerCase front)).reverse =
      toLowerCase (dotted (spelled front record)) := by
    rw [toLowerCase_dotted, spelled, labelsOf_toLowerCase, labelsOf_toLowerCase, List.map_reverse,
      List.map_append]
  rw [ipForPtrRecord]
  simp only
  rw [show "ip6.arpa".toList = suffix .v6 from rfl, other,
    show "in-addr.arpa".toList = suffix .v4 from rfl, front', if_neg (by decide), lower,
      any_parseIp]
  cases read : parseV4 (trim (dotted (spelled front record))) with
  | some n => rw [toLowerCase_of_parseV4 (.inr read), read]
  | none =>
    cases read' : parseV4 (trim (toLowerCase (dotted (spelled front record)))) with
    | none => rfl
    | some n =>
      rw [toLowerCase_of_parseV4 (.inl read'), read] at read'
      cases read'

theorem isHexDigit_toLower (c : Char) : isHexDigit c.toLower = isHexDigit c := by
  rcases toLower_eq_self_or_upper c with same | upper
  · rw [same]
  · exact of_decide_eq_true (@upperLetters_all (fun c => isHexDigit c.toLower = isHexDigit c)
      (by decide) c upper)

theorem isNibble_toLowerCase (label : Text) : isNibble (toLowerCase label) = isNibble label := by
  rw [isNibble, isNibble, length_toLowerCase, toLowerCase, List.all_map]
  congr 1
  exact congrArg (List.all label) (funext isHexDigit_toLower)

theorem digitValue_toLower {c : Char} (hex : isHexDigit c = true) :
    digitValue c.toLower = digitValue c := by
  rcases toLower_eq_self_or_upper c with same | upper
  · rw [same]
  · exact of_decide_eq_true (@upperLetters_all
      (fun c => isHexDigit c = true → digitValue c.toLower = digitValue c) (by decide) c upper) hex

theorem readDigits_toLowerCase {digits : Text} (hex : ∀ c ∈ digits, isHexDigit c = true) :
    readDigits 16 (toLowerCase digits) = readDigits 16 digits := by
  induction digits using List.reverseRecOn with
  | nil => rfl
  | append_singleton digits c ih =>
    have single : toLowerCase [c] = [c.toLower] := rfl
    rw [toLowerCase_append, single, readDigits_append_singleton, readDigits_append_singleton,
      ih fun d member => hex d (List.mem_append_left _ member),
      digitValue_toLower (hex c (by simp))]

/-- The labels are 32 nibbles. -/
def AreNibbles (labels : List Text) : Prop := labels.length = 32 ∧ ∀ label ∈ labels,
    isNibble label = true

instance (labels : List Text) : Decidable (AreNibbles labels) := inferInstanceAs (Decidable (_ ∧ _))

/-- **What the server reads in an IPv6 zone.** -/
theorem ipForPtrRecord_of_v6 {front zone : Text} (named : ZoneName .v6 front zone) (record : Text) :
    ipForPtrRecord record zone =
      if AreNibbles (spelled front record) then
        some (formatIp (readDigits 16 (spelled front record).flatten) ipv6Bits)
      else none := by
  have own := named.hasSuffix .v6
  rw [hasSuffix, ← dropFinalDot_toLowerCase] at own
  have front' := named.dropArpa
  have lower : (labelsOf (toLowerCase record) ++ labelsOf (toLowerCase front)).reverse =
      (spelled front record).map toLowerCase := by
    rw [spelled, labelsOf_toLowerCase, labelsOf_toLowerCase, List.map_reverse, List.map_append]
  have nibbles : (((spelled front record).map toLowerCase).length = 32 &&
      ((spelled front record).map toLowerCase).all fun label => label.length = 1 &&
      label.all isHexDigit) =
        decide (AreNibbles (spelled front record)) := by
    have same : ((spelled front record).map toLowerCase).all isNibble = (spelled front record).all
        isNibble := by
      rw [List.all_map]
      exact congrArg (List.all _) (funext isNibble_toLowerCase)
    rw [List.length_map, Bool.eq_iff_iff, Bool.and_eq_true, decide_eq_true_eq, decide_eq_true_eq]
    refine and_congr_right fun _ => ?_
    rw [show ((spelled front record).map toLowerCase).all (fun label => label.length = 1 &&
      label.all isHexDigit) = (spelled front record).all isNibble from same, List.all_eq_true]
  rw [ipForPtrRecord]
  simp only
  rw [show "ip6.arpa".toList = suffix .v6 from rfl, own, if_pos (by decide), front', lower, nibbles]
  by_cases are : AreNibbles (spelled front record)
  · have flat : ((spelled front record).map toLowerCase).flatten = toLowerCase
      (spelled front record).flatten :=
      List.map_flatten.symm
    rw [if_pos (decide_eq_true are), if_pos are, flat,
      readDigits_toLowerCase (isHexDigit_of_mem_nibbles are.2)]
  · rw [if_neg (by simpa using are), if_neg are]

/-! ## When the two agree -/

/-- The labels as the panel takes them, empty ones of the zone included. -/
def panelLabels (front record : Text) : List Text := (labelsOf record ++ partsOf front).reverse

/-- What the names spell, if anything, is spelled plainly: the zone has no empty label; octets
are numerals, with no colon among four labels that are read as an address; and nibbles name
no IPv4 address. -/
def SpelledPlainly (family : Family) (front record : Text) : Prop :=
  match family with
  | .v4 =>
    ((parseV4 (trim (dotted (spelled front record)))).isSome →
      [] ∉ partsOf front ∧ ∀ label ∈ spelled front record, IsNumeral label) ∧
    ((panelLabels front record).length = 4 → ':' ∈ dotted (panelLabels front record) →
      parseIp (dotted (panelLabels front record)) = none)
  | .v6 =>
    AreNibbles (spelled front record) →
      [] ∉ partsOf front ∧ readDigits 16 (spelled front record).flatten / 2 ^ 32 ≠ 0xffff

section

variable {front zone : Text} (record : Text)

theorem panelLabels_eq (solid : [] ∉ partsOf front) : panelLabels front record = spelled front
    record := by
  have all : labelsOf front = partsOf front := by
    rw [labelsOf_eq, List.filter_eq_self]
    exact fun label member => decide_eq_true fun empty => solid (empty ▸ member)
  rw [panelLabels, spelled, all]

theorem nil_notMem_labelsOf (text : Text) : [] ∉ labelsOf text := fun member =>
  absurd rfl (of_decide_eq_true (List.mem_filter.mp member).2)

theorem dot_notMem_labelsOf (text : Text) : ∀ label ∈ labelsOf text, '.' ∉ label := fun _ member =>
  not_mem_of_mem_splitOn (List.mem_filter.mp member).1

theorem dot_notMem_partsOf (text : Text) : ∀ label ∈ partsOf text, '.' ∉ label := by
  intro label member
  rw [partsOf] at member
  split at member
  · cases member
  · exact not_mem_of_mem_splitOn member

theorem dot_notMem_panelLabels (front record : Text) : ∀ label ∈ panelLabels front record,
    '.' ∉ label := by
  intro label member
  rcases List.mem_append.mp (List.mem_reverse.mp member) with first | last
  · exact dot_notMem_labelsOf record label first
  · exact dot_notMem_partsOf front label last

theorem dot_notMem_spelled (front record : Text) : ∀ label ∈ spelled front record, '.' ∉ label := by
  intro label member
  rcases List.mem_append.mp (List.mem_reverse.mp member) with first | last
  · exact dot_notMem_labelsOf record label first
  · exact dot_notMem_labelsOf front label last

theorem nil_mem_panelLabels : [] ∈ panelLabels front record ↔ [] ∈ partsOf front := by
  rw [panelLabels, List.mem_reverse, List.mem_append, or_iff_right (nil_notMem_labelsOf record)]

theorem panel_labels {family : Family} (named : ZoneName family front zone) :
    zoneLabels zone family ++ (labelsOf record).reverse = panelLabels front record := by
  rw [named.zoneLabels, panelLabels, List.reverse_append]

/-- **In an IPv6 zone they agree exactly on what is spelled plainly.** -/
theorem agree_v6 (named : ZoneName .v6 front zone) :
    ptrRecordAddress zone record = ipForPtrRecord record zone ↔
    SpelledPlainly .v6 front record := by
  have panel : ptrRecordAddress zone record =
      if AreNibbles (panelLabels front record) then canonicalizeIp
        (hextetsOf (panelLabels front record))
      else none := by
    rw [ptrRecordAddress, named.reverseZoneFamily]
    simp only [panel_labels record named]
    by_cases are : AreNibbles (panelLabels front record)
    · have all : (panelLabels front record).any (fun label => !isNibble label) = false := by
        rw [List.any_eq_false]
        intro label member
        simp [are.2 label member]
      rw [if_pos are, if_neg (by simp [are.1, all])]
    · rw [if_neg are, if_pos]
      rw [Bool.or_eq_true, decide_eq_true_eq, List.any_eq_true]
      by_contra neither
      push Not at neither
      exact are ⟨neither.1, fun label member => by simpa using neither.2 label member⟩
  rw [panel, ipForPtrRecord_of_v6 named]
  by_cases empty : [] ∈ partsOf front
  · have none : ¬ AreNibbles (panelLabels front record) := fun are =>
      absurd (are.2 [] ((nil_mem_panelLabels record).mpr empty)) (by decide)
    rw [if_neg none]
    by_cases are : AreNibbles (spelled front record)
    · rw [if_pos are]
      exact iff_of_false nofun fun plain => (plain are).1 empty
    · rw [if_neg are]
      exact iff_of_true rfl fun nibbles => absurd nibbles are
  · rw [panelLabels_eq record empty]
    by_cases are : AreNibbles (spelled front record)
    · have fits := value_lt are.1 are.2
      rw [if_pos are, if_pos are, canonicalizeIp, parseIp_hextetsOf are.1 are.2]
      simp only [SpelledPlainly, are, empty, not_false_eq_true, true_and, forall_const,
        Option.bind_eq_bind, Option.bind_some, Option.some.injEq, ParsedIp.foldMapped]
      by_cases mapped : readDigits 16 (spelled front record).flatten / 2 ^ 32 = 0xffff
      · rw [if_pos mapped]
        refine iff_of_false (fun same => ?_) (not_not.mpr mapped)
        -- the panel writes octets and the server groups with colons
        exact absurd (same ▸ colon_mem_formatIp _) (colon_not_mem_quad _)
      · rw [if_neg mapped]
        exact iff_of_true rfl mapped
    · rw [if_neg are, if_neg are]
      exact iff_of_true rfl fun nibbles => absurd nibbles are

theorem mem_dotted {labels : List Text} {c : Char} (other : c ≠ '.') :
    c ∈ dotted labels ↔ ∃ label ∈ labels, c ∈ label := by
  refine ⟨fun member => (mem_intercalate_singleton member).resolve_left other, ?_⟩
  rintro ⟨label, listed, inside⟩
  induction labels with
  | nil => cases listed
  | cons first labels ih =>
    cases labels with
    | nil =>
      obtain rfl := List.mem_singleton.mp listed
      simpa [dotted] using inside
    | cons next labels =>
      rw [dotted, List.intercalate_cons_cons, List.append_assoc]
      rcases List.mem_cons.mp listed with rfl | later
      · exact List.mem_append_left _ inside
      · exact List.mem_append_right _ (List.mem_append_right _ (ih later))

theorem labels_of_parseV4 {labels : List Text} (whole : ∀ label ∈ labels, '.' ∉ label) {n : Nat}
    (read : parseV4 (trim (dotted labels)) = some n) : labels.length = 4 ∧ [] ∉ labels := by
  have some' : labels ≠ [] := by
    rintro rfl
    cases read
  have cut : (dotted labels).splitOn '.' = labels := List.splitOn_intercalate '.' whole some'
  obtain ⟨four, octets, -⟩ := (IpToLong.parseV4_iff _ _).mp read
  have parts : ((trim (dotted labels)).splitOn '.').map (trimBy isTrimmed) = labels.map
      (trimBy isTrimmed) :=
    (map_splitOn_trimBy IpToLong.dot_not_trimmed _).trans (congrArg _ cut)
  refine ⟨?_, fun empty => ?_⟩
  · have lengths := congrArg List.length parts
    rw [List.length_map, List.length_map, four] at lengths
    exact lengths.symm
  · have blank : [] ∈ ((trim (dotted labels)).splitOn '.').map (trimBy isTrimmed) := by
      rw [parts]
      exact List.mem_map.mpr ⟨[], empty, rfl⟩
    obtain ⟨part, listed, trimmed⟩ := List.mem_map.mp blank
    have octet := octets part listed
    have solid : trim part = part := trim_of_isPlain (isPlain_of_octet octet)
    change trim part = [] at trimmed
    rw [solid] at trimmed
    rw [trimmed] at octet
    exact absurd octet.1 (by decide)

/-- **In an IPv4 zone they agree exactly on what is spelled plainly.** -/
theorem agree_v4 (named : ZoneName .v4 front zone) :
    ptrRecordAddress zone record = ipForPtrRecord record zone ↔
    SpelledPlainly .v4 front record := by
  have panel : ptrRecordAddress zone record =
      if (panelLabels front record).length = 4 then canonicalizeIp
        (dotted (panelLabels front record))
      else none := by
    rw [ptrRecordAddress, named.reverseZoneFamily]
    simp only [panel_labels record named, ne_eq, ite_not]
  have colons : ':' ∈ dotted (panelLabels front record) ↔ ':' ∈ dotted (spelled front record) := by
    rw [mem_dotted (by decide), mem_dotted (by decide)]
    simp only [panelLabels, spelled, labelsOf_eq front, List.mem_reverse, List.mem_append,
      List.mem_filter,
      decide_eq_true_eq]
    refine exists_congr fun label => and_congr_left fun inside => or_congr_right ?_
    exact (and_iff_left (List.ne_nil_of_mem inside)).symm
  rw [panel, ipForPtrRecord_of_v4 named, SpelledPlainly]
  by_cases colon : ':' ∈ dotted (spelled front record)
  · -- the server reads nothing, and the panel four labels at most
    have none : parseV4 (trim (dotted (spelled front record))) = none := by
      rw [Option.eq_none_iff_forall_ne_some]
      exact fun n read => IpToLong.colon_not_mem_of_parseV4 read colon
    simp only [none, Option.isSome_none, Bool.false_eq_true, if_false, false_imp_iff, true_and,
      colons, colon, forall_const]
    by_cases four : (panelLabels front record).length = 4
    · rw [if_pos four, canonicalizeIp, Option.bind_eq_bind, Option.bind_eq_none_iff]
      refine ⟨fun all _ => Option.eq_none_iff_forall_ne_some.mpr fun parsed read => ?_,
        fun all parsed read => ?_⟩
      · cases all parsed read
      · rw [all four] at read
        cases read
    · rw [if_neg four]
      exact iff_of_true rfl fun whole => absurd whole four
  · have plain : ':' ∉ dotted (panelLabels front record) := fun member => colon (colons.mp member)
    simp only [plain, false_imp_iff, implies_true, and_true]
    by_cases empty : [] ∈ partsOf front
    · have none : (if (panelLabels front record).length = 4 then
          canonicalizeIp (dotted (panelLabels front record)) else none) = none := by
        split
        · rw [canonicalizeIp, Option.bind_eq_bind, Option.bind_eq_none_iff]
          intro parsed read
          obtain ⟨n, quad, -⟩ := (IpToLong.parseIp_plain_iff plain _).mp read
          exact absurd ((nil_mem_panelLabels record).mpr empty)
            (labels_of_parseV4 (dot_notMem_panelLabels front record) quad).2
        · rfl
      rw [none]
      cases read : parseV4 (trim (dotted (spelled front record))) with
      | none => exact iff_of_true rfl (absurd · Bool.false_ne_true)
      | some n => exact iff_of_false (Option.some_ne_none _).symm fun plainly =>
          (plainly rfl).1 empty
    · rw [panelLabels_eq record empty]
      cases read : parseV4 (trim (dotted (spelled front record))) with
      | none =>
        refine iff_of_true ?_ (absurd · Bool.false_ne_true)
        rw [Option.isSome_none, if_neg Bool.false_ne_true]
        split
        · rw [canonicalizeIp, Option.bind_eq_bind, Option.bind_eq_none_iff]
          intro parsed parsedIp
          obtain ⟨n, quad, -⟩ := (IpToLong.parseIp_plain_iff colon _).mp parsedIp
          rw [read] at quad
          cases quad
        · rfl
      | some n =>
        have whole := dot_notMem_spelled front record
        have some' : spelled front record ≠ [] := by
          intro none
          rw [none] at read
          cases read
        have parsed := (IpToLong.parseIp_plain_iff colon _).mpr ⟨n, read, rfl⟩
        rw [if_pos (labels_of_parseV4 whole read).1, canonicalizeIp, parsed, Option.bind_eq_bind,
          Option.bind_some, Option.isSome_some, if_pos rfl, Option.some.injEq,
          formatIp_eq_iff whole some' read]
        exact ⟨fun all _ => ⟨empty, all⟩, fun all => (all rfl).2⟩

/-- **The panel and the server read a `PTR` alike exactly when it is spelled plainly.** -/
theorem ptrRecordAddress_eq_iff {family : Family} (named : ZoneName family front zone) :
    ptrRecordAddress zone record = ipForPtrRecord record zone ↔
    SpelledPlainly family front record := by
  cases family with
  | v4 => exact agree_v4 record named
  | v6 => exact agree_v6 record named

end

end ReverseZone

end Cidrella
