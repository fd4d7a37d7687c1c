import Cidrella.NetworkRelations
import Cidrella.ReverseZoneRecords

/-!
# The block of a reverse zone in the panel and on the server

`reverseZoneContains` of the panel compares the first digits of two sort keys; the server's
`reverseZoneNetwork` writes the network of a zone as a CIDR text, which `networkContains` reads
again. Both look at the same first bits of an address, but a zone of IPv4-mapped nibbles is an
IPv4 block to the panel, and a text that is not read again to the server; and only the panel
takes an address with a zone id.

`panel_and_server_agree_iff` says of a record and of an address when the two sides agree.
-/

set_option autoImplicit false

namespace Cidrella

open Address DnsNames Dns Text

namespace ReverseZone

/-! ## First digits -/

theorem take_groups_eq_iff {width count more left right : Nat}
    (fitsLeft : left < 2 ^ (width * (count + more)))
    (fitsRight : right < 2 ^ (width * (count + more))) :
    (groups width (count + more) left).take count = (groups width (count + more) right).take count ↔
      left / 2 ^ (width * more) = right / 2 ^ (width * more) := by
  have high {value : Nat} (fits : value < 2 ^ (width * (count + more))) :
      value / 2 ^ (width * more) < 2 ^ (width * count) := by
    rw [Nat.mul_add, pow_add] at fits
    exact Nat.div_lt_of_lt_mul (by rwa [Nat.mul_comm])
  rw [take_groups, take_groups, Nat.shiftRight_eq_div_pow, Nat.shiftRight_eq_div_pow]
  refine ⟨fun same => ?_, fun same => by rw [same]⟩
  rw [← joinGroups_groups (high fitsLeft), ← joinGroups_groups (high fitsRight), same]

theorem map_digitChar_inj {left right : List Nat} (smallLeft : ∀ n ∈ left, n < 16)
    (smallRight : ∀ n ∈ right, n < 16) :
    left.map Nat.digitChar = right.map Nat.digitChar ↔ left = right := by
  have back {digits : List Nat} (small : ∀ n ∈ digits, n < 16) :
      (digits.map Nat.digitChar).map digitValue = digits := by
    rw [List.map_map]
    exact (List.map_congr_left fun n member => digitValue_digitChar (small n member)).trans
      (List.map_id digits)
  refine ⟨fun same => ?_, fun same => by rw [same]⟩
  rw [← back smallLeft, ← back smallRight, same]

theorem take_digits_eq_iff {count more left right : Nat}
    (fitsLeft : left < 2 ^ (4 * (count + more))) (fitsRight : right < 2 ^ (4 * (count + more))) :
    ((groups 4 (count + more) left).map Nat.digitChar).take count =
        ((groups 4 (count + more) right).map Nat.digitChar).take count ↔
      left / 2 ^ (4 * more) = right / 2 ^ (4 * more) := by
  have small {value : Nat} : ∀ n ∈ (groups 4 (count + more) value).take count, n < 16 :=
    fun n member =>
    lt_of_mem_groups (List.mem_of_mem_take member)
  rw [← List.map_take, ← List.map_take, map_digitChar_inj small small,
    take_groups_eq_iff fitsLeft fitsRight]

/-! ## Zones of whole labels -/

/-- The labels of a zone, most significant first: one to three octets, or one to 31 nibbles. -/
def AreZoneLabels (family : Family) (labels : List Text) : Prop :=
  1 ≤ labels.length ∧ labels.length < family.labelCount ∧
    match family with
    | .v4 => ∀ label ∈ labels, IsOctetText label
    | .v6 => ∀ label ∈ labels, isNibble label = true

/-- The labels filled up with zeros. -/
def filled (family : Family) (labels : List Text) : List Text :=
  labels ++ List.replicate (family.labelCount - labels.length) ['0']

/-- The number that the labels of a zone spell, filled up with zeros. -/
def firstValue (family : Family) (labels : List Text) : Nat :=
  match family with
  | .v4 => joinGroups 8 ((filled .v4 labels).map (readDigits 10))
  | .v6 => readDigits 16 (filled .v6 labels).flatten

/-- The first address of a zone. An IPv4-mapped one is an IPv4 address. -/
def zoneStart (family : Family) (labels : List Text) : Addr :=
  addressAt family (firstValue family labels)

/-- The bits of an address behind the labels of a zone. -/
def hostBits (family : Family) (labels : List Text) : Nat :=
  family.labelWidth * (family.labelCount - labels.length)

/-- The address has its first bits in common with the first address of the zone. -/
def Inside (family : Family) (labels : List Text) (parsed : ParsedIp) : Prop :=
  parsed.bits = (zoneStart family labels).family.bits ∧
    parsed.value / 2 ^ hostBits family labels = (zoneStart family labels).value / 2 ^ hostBits
    family labels

section

variable {family : Family} {labels : List Text} {zone : Text}

theorem length_filled (zoneLabels : AreZoneLabels family labels) :
    (filled family labels).length = family.labelCount := by
  rw [filled, List.length_append, List.length_replicate]
  exact Nat.add_sub_cancel' zoneLabels.2.1.le

theorem isOctetText_of_mem_filled (zoneLabels : AreZoneLabels .v4 labels) :
    ∀ label ∈ filled .v4 labels, IsOctetText label := by
  intro label member
  rcases List.mem_append.mp member with own | zero
  · exact zoneLabels.2.2 label own
  · rw [List.eq_of_mem_replicate zero]
    exact ⟨by decide, by decide, by simp, by decide⟩

theorem isNibble_of_mem_filled (zoneLabels : AreZoneLabels .v6 labels) :
    ∀ label ∈ filled .v6 labels, isNibble label = true := by
  intro label member
  rcases List.mem_append.mp member with own | zero
  · exact zoneLabels.2.2 label own
  · rw [List.eq_of_mem_replicate zero]
    decide

theorem isPlain_of_mem_zoneLabels (zoneLabels : AreZoneLabels family labels) :
    ∀ label ∈ labels, label ≠ [] ∧ ∀ c ∈ label, isHexDigit c = true := by
  intro label member
  cases family with
  | v4 =>
    obtain ⟨some', -, digits, -⟩ := zoneLabels.2.2 label member
    exact ⟨List.ne_nil_of_length_pos some', fun c inside => isHexDigit_of_isDigit (digits c inside)⟩
  | v6 =>
    have nibble := zoneLabels.2.2 label member
    rw [isNibble, Bool.and_eq_true, decide_eq_true_eq, List.all_eq_true] at nibble
    exact ⟨List.ne_nil_of_length_pos (by omega), nibble.2⟩

theorem dot_notMem_zoneLabels (zoneLabels : AreZoneLabels family labels) : ∀ label ∈ labels,
    '.' ∉ label :=
  fun label member dot => absurd ((isPlain_of_mem_zoneLabels zoneLabels label member).2 '.' dot)
    (by decide)

theorem partsOf_dotted (zoneLabels : AreZoneLabels family labels) :
    partsOf (dotted labels.reverse) = labels.reverse := by
  have some' : labels.reverse ≠ [] :=
    List.reverse_ne_nil_iff.mpr (List.ne_nil_of_length_pos zoneLabels.1)
  have cut : (dotted labels.reverse).splitOn '.' = labels.reverse :=
    List.splitOn_intercalate '.' (fun label member =>
      dot_notMem_zoneLabels zoneLabels label (List.mem_reverse.mp member)) some'
  rw [partsOf, if_neg, cut]
  intro empty
  rw [empty] at cut
  have single : [] ∈ labels := List.mem_reverse.mp (cut ▸ List.mem_cons_self)
  exact (isPlain_of_mem_zoneLabels zoneLabels [] single).1 rfl

theorem firstValue_lt (zoneLabels : AreZoneLabels family labels) : firstValue family labels <
    2 ^ family.bits := by
  have length := length_filled zoneLabels
  cases family with
  | v4 =>
    have small : ∀ octet ∈ (filled .v4 labels).map (readDigits 10), octet < 2 ^ 8 := by
      intro octet member
      obtain ⟨label, listed, rfl⟩ := List.mem_map.mp member
      have bound := (isOctetText_of_mem_filled zoneLabels label listed).2.2.2
      omega
    have bound := joinGroups_lt small
    rw [List.length_map, length] at bound
    exact bound
  | v6 => exact value_lt length (isNibble_of_mem_filled zoneLabels)

theorem parseV4_filled (zoneLabels : AreZoneLabels .v4 labels) :
    parseIp (dotted (filled .v4 labels)) = some ⟨firstValue .v4 labels, ipv4Bits, none⟩ := by
  have length := length_filled zoneLabels
  have octets := isOctetText_of_mem_filled zoneLabels
  have plain : ∀ c ∈ dotted (filled .v4 labels), isPlain c = true := by
    intro c member
    rcases mem_intercalate_singleton member with rfl | ⟨label, listed, inside⟩
    · decide
    · exact isPlain_of_octet (octets label listed) c inside
  have colon : ':' ∉ dotted (filled .v4 labels) := by
    rw [mem_dotted (by decide)]
    rintro ⟨label, listed, inside⟩
    exact absurd ((octets label listed).2.2.1 ':' inside) (by decide)
  have cut : (dotted (filled .v4 labels)).splitOn '.' = filled .v4 labels := by
    refine List.splitOn_intercalate '.'
      (fun label member => dot_not_mem_octet (octets label member)) ?_
    exact List.ne_nil_of_length_pos (by rw [length]; decide)
  refine (IpToLong.parseIp_plain_iff colon _).mpr ⟨_, ?_, rfl⟩
  rw [trim_of_isPlain plain]
  refine (IpToLong.parseV4_iff _ _).mpr ?_
  rw [cut]
  exact ⟨length, octets, rfl⟩

theorem foldMapped_firstValue (zoneLabels : AreZoneLabels family labels) :
    (ParsedIp.mk (firstValue family labels) family.bits none).foldMapped =
      ⟨(zoneStart family labels).value, (zoneStart family labels).family.bits, none⟩ := by
  have fits := firstValue_lt zoneLabels
  have small : firstValue family labels % 2 ^ family.bits = firstValue family labels :=
    Nat.mod_eq_of_lt fits
  cases family with
  | v4 =>
    refine (foldMapped_v4 _ _).trans ?_
    exact congrArg (fun value => ParsedIp.mk value ipv4Bits none) small.symm
  | v6 =>
    have small : firstValue .v6 labels % 2 ^ 128 = firstValue .v6 labels := small
    rw [ParsedIp.foldMapped, zoneStart, addressAt]
    by_cases mapped : firstValue .v6 labels / 2 ^ 32 = 0xffff
    · rw [if_pos ⟨rfl, mapped⟩, dif_pos (by rwa [small])]
      rfl
    · rw [if_neg fun both => mapped both.2, dif_neg (by rwa [small])]
      exact congrArg (fun value => ParsedIp.mk value ipv6Bits none) small.symm

theorem zoneNetwork_eq (zoneLabels : AreZoneLabels family labels)
    (named : ZoneName family (dotted labels.reverse) zone) :
    ∃ network, zoneNetwork zone = some network ∧ network.family = family ∧
      network.prefixLen = family.labelWidth * labels.length ∧
      parseIp network.address =
        some ⟨(zoneStart family labels).value, (zoneStart family labels).family.bits, none⟩ := by
  have own : ReverseZone.zoneLabels zone family = labels := by
    rw [named.zoneLabels, partsOf_dotted zoneLabels, List.reverse_reverse]
  have within := zoneLabels.2.1.le
  have padded : (labels ++ List.replicate (family.labelCount - labels.length) ['0']).take
      family.labelCount = filled family labels :=
      List.take_of_length_le (length_filled zoneLabels).le
  have read := foldMapped_firstValue zoneLabels
  rw [zoneNetwork, named.reverseZoneFamily, Option.map_some]
  simp only [own, padded]
  cases family with
  | v4 =>
    refine ⟨_, rfl, rfl, ?_, ?_⟩
    · exact (congrArg (· * 8) (Nat.min_eq_left within)).trans (Nat.mul_comm _ _)
    · rw [parseV4_filled zoneLabels, ← read]
      exact congrArg some (foldMapped_v4 _ _).symm
  | v6 =>
    refine ⟨_, rfl, rfl, ?_, ?_⟩
    · exact (congrArg (· * 4) (Nat.min_eq_left within)).trans (Nat.mul_comm _ _)
    · rw [parseIp_hextetsOf (length_filled zoneLabels) (isNibble_of_mem_filled zoneLabels), ← read]
      rfl

theorem parseIp_trim (text : Text) : parseIp (trim text) = parseIp text := by
  simp only [parseIp, trim_trim]

/-- The part of a key that the panel compares: the first bits of the value. -/
theorem slice_key_eq_iff (within : labels.length ≤ family.labelCount) {left right : Nat}
    {digit digit' : Nat} (fitsLeft : left < 2 ^ family.bits) (fitsRight : right < 2 ^ family.bits) :
    (((digit :: groups 4 32 left).map Nat.digitChar).drop (if family = .v4 then 25 else 1)).take
          (family.labelWidth * labels.length / 4) =
        (((digit' :: groups 4 32 right).map Nat.digitChar).drop
          (if family = .v4 then 25 else 1)).take (family.labelWidth * labels.length / 4) ↔
      left / 2 ^ hostBits family labels = right / 2 ^ hostBits family labels := by
  cases family with
  | v4 =>
    have four : Family.v4.labelWidth * labels.length / 4 = 2 * labels.length := by
      change 8 * labels.length / 4 = _
      omega
    have last (value : Nat) (digit : Nat) :
        ((digit :: groups 4 32 value).map Nat.digitChar).drop 25 = (groups 4 8 value).map
        Nat.digitChar := by
      rw [← List.map_drop]
      rfl
    obtain ⟨more, whole⟩ := Nat.exists_eq_add_of_le within
    have eight : 8 = 2 * labels.length + 2 * more := by
      change 4 = _ at whole
      omega
    have host : hostBits .v4 labels = 4 * (2 * more) := by
      rw [hostBits, whole, Nat.add_sub_cancel_left]
      change 8 * more = _
      omega
    have bits : 2 ^ Family.v4.bits = 2 ^ (4 * (2 * labels.length + 2 * more)) := by
      rw [← eight]
      rfl
    rw [four, if_pos rfl, last, last, host, eight]
    exact take_digits_eq_iff (bits ▸ fitsLeft) (bits ▸ fitsRight)
  | v6 =>
    have one : Family.v6.labelWidth * labels.length / 4 = labels.length := by
      change 4 * labels.length / 4 = _
      omega
    have rest (value : Nat) (digit : Nat) :
        ((digit :: groups 4 32 value).map Nat.digitChar).drop 1 = (groups 4 32 value).map
        Nat.digitChar := by
      rw [← List.map_drop]
      rfl
    obtain ⟨more, whole⟩ := Nat.exists_eq_add_of_le within
    have host : hostBits .v6 labels = 4 * more := by
      rw [hostBits, whole, Nat.add_sub_cancel_left]
      rfl
    have count : 32 = labels.length + more := whole
    have bits : 2 ^ Family.v6.bits = 2 ^ (4 * (labels.length + more)) := by
      rw [← count]
      rfl
    rw [one, if_neg (by decide), rest, rest, host, count]
    exact take_digits_eq_iff (bits ▸ fitsLeft) (bits ▸ fitsRight)

theorem familyDigit_eq_iff {left right : Nat} (widthLeft : left = ipv4Bits ∨ left = ipv6Bits)
    (widthRight : right = ipv4Bits ∨ right = ipv6Bits) :
    (familyDigit left).digitChar = (familyDigit right).digitChar ↔ left = right := by
  rcases widthLeft with rfl | rfl <;> rcases widthRight with rfl | rfl <;> decide

/-- **What the panel takes for inside a zone** has its first bits in common with it. -/
theorem reverseZoneContains_iff (zoneLabels : AreZoneLabels family labels)
    (named : ZoneName family (dotted labels.reverse) zone) (ip : Text) :
    reverseZoneContains zone ip = true ↔ ∃ parsed, parseIp ip = some parsed ∧
    Inside family labels parsed := by
  obtain ⟨network, found, four, prefixLen, start⟩ := zoneNetwork_eq zoneLabels named
  have zoneKey := sortKey_eq start
  rw [reverseZoneContains, found]
  cases read : parseIp ip with
  | none =>
    rw [canonicalizeIp, parseIp_trim, read]
    refine iff_of_false Bool.false_ne_true ?_
    rintro ⟨parsed, found, -⟩
    cases found
  | some parsed =>
    have canonical := canonicalizeIp_eq ((parseIp_trim ip).trans read)
    have key := sortKey_eq (parseIp_formatIp_of_parseIp read)
    have widths {text : Text} {parsed : ParsedIp} (done : parseIp text = some parsed) :
        parsed.bits = ipv4Bits ∨ parsed.bits = ipv6Bits := (parseIp_fits done).1
    simp only [canonical, key, zoneKey, List.map_cons, List.head?_cons, ne_eq, Option.some.injEq,
      familyDigit_eq_iff (widths read) (widths start), four, prefixLen]
    rw [exists_eq_left', Inside]
    by_cases bits : parsed.bits = (zoneStart family labels).family.bits
    · have fits : parsed.value < 2 ^ family.bits ∧ (zoneStart family labels).value <
        2 ^ family.bits := by
        have start' := (zoneStart family labels).fits
        cases family with
        | v4 =>
          have isFour : (zoneStart .v4 labels).family = .v4 := rfl
          rw [isFour] at bits start'
          rcases parseIp_bounds read with ⟨-, fits⟩ | ⟨six, -⟩
          · exact ⟨fits, start'⟩
          · exact absurd (six.symm.trans bits) (by decide)
        | v6 =>
          have wide : (zoneStart .v6 labels).value < 2 ^ 128 := by
            refine start'.trans_le (Nat.pow_le_pow_right (by decide) ?_)
            cases (zoneStart .v6 labels).family <;> decide
          exact ⟨(parseIp_fits read).2, wide⟩
      rw [if_neg (not_not.mpr bits), decide_eq_true_eq, ← List.map_cons, ← List.map_cons,
        slice_key_eq_iff zoneLabels.2.1.le fits.1 fits.2]
      exact (and_iff_right bits).symm
    · rw [if_pos bits]
      exact iff_of_false Bool.false_ne_true fun both => bits both.1

/-! ## The server's network -/

theorem arpaLabels_zone (zoneLabels : AreZoneLabels family labels)
    (named : ZoneName family (dotted labels.reverse) zone) :
    arpaLabels family.arpa (dropFinalDot (toLowerCase zone)) = some (labels.reverse.map toLowerCase)
      ∧ ∀ other, other ≠ family → arpaLabels other.arpa (dropFinalDot (toLowerCase zone)) =
      none := by
  obtain ⟨ending, lower, bare⟩ := named.bare
  have some' : labels.reverse.map toLowerCase ≠ [] := fun none =>
    absurd (List.map_eq_nil_iff.mp none)
      (List.reverse_ne_nil_iff.mpr (List.ne_nil_of_length_pos zoneLabels.1))
  have arpa : '.' :: suffix family = family.arpa := by cases family <;> rfl
  have name : dropFinalDot (toLowerCase zone) = dotted (labels.reverse.map toLowerCase) ++
      family.arpa := by
    rw [dropFinalDot_toLowerCase, bare, toLowerCase_append,
      ReverseZone.toLowerCase_dotted, ← arpa, ← lower]
    rfl
  have cut : (dotted (labels.reverse.map toLowerCase)).splitOn '.' = labels.reverse.map
      toLowerCase := by
    refine List.splitOn_intercalate '.' (fun label member dot => ?_) some'
    obtain ⟨own, listed, rfl⟩ := List.mem_map.mp member
    obtain ⟨c, inside, same⟩ := List.mem_map.mp dot
    rw [(toLower_eq_mark (.inl rfl)).mp same] at inside
    exact dot_notMem_zoneLabels zoneLabels own (List.mem_reverse.mp listed) inside
  rw [name]
  refine ⟨?_, fun other differs => ?_⟩
  · rw [arpaLabels_append, cut]
  · have ends : endsWith (dotted (labels.reverse.map toLowerCase) ++ family.arpa)
      family.arpa = true :=
      endsWith_iff.mpr ⟨_, rfl⟩
    have apart : endsWith family.arpa other.arpa = false ∧
        endsWith other.arpa family.arpa = false := by
      cases other <;> cases family <;> first | exact absurd rfl differs | decide
    rw [arpaLabels, endsWith_eq_false ends apart, if_neg Bool.false_ne_true]

theorem parseNetwork_slash {text : Text} (some' : text ≠ []) (prefixLen : Nat) :
    parseNetwork (text ++ '/' :: Nat.toDigits 10 prefixLen) =
      (addressToBig text).bind fun address =>
        if ':' ∈ text ∧ address.family = .v4 then
          if prefixLen < 96 then none else networkOf address (prefixLen - 96)
        else networkOf address prefixLen := by
  obtain ⟨prefixPart, addressPart⟩ := takeWhile_reverse_of_not_mem text
    (slash_not_mem_decimal prefixLen)
  have digits : (Nat.toDigits 10 prefixLen).all Char.isDigit = true :=
    List.all_eq_true.mpr fun c member => isDigit_of_mem_decimal member
  have read : readDigits 10 (Nat.toDigits 10 prefixLen) = prefixLen :=
    readDigits_toDigits (by decide) (by decide) _
  have colon : ':' ∈ text ++ '/' :: Nat.toDigits 10 prefixLen ↔ ':' ∈ text := by
    rw [List.mem_append, List.mem_cons, or_iff_left]
    rintro (slash | member)
    · cases slash
    · exact absurd (isDigit_of_mem_decimal member) (by decide)
  rw [parseNetwork, if_pos (by simp), prefixPart, addressPart]
  simp only [readNetwork, some', Nat.toDigits_ne_nil, digits, decide_false, Bool.or_self,
    Bool.not_true, Bool.false_eq_true, if_false, read, Option.bind_eq_bind, Bool.and_eq_true,
    decide_eq_true_eq, colon]

theorem reverseZoneNetwork_v4 (zoneLabels : AreZoneLabels .v4 labels)
    (named : ZoneName .v4 (dotted labels.reverse) zone) :
    reverseZoneNetwork zone = some (dotted (filled .v4 labels) ++ '/' :: Nat.toDigits 10
    (labels.length * 8)) := by
  have own := (arpaLabels_zone zoneLabels named).1
  have lower : labels.reverse.map toLowerCase = labels.reverse := by
    refine (List.map_congr_left fun label member => ?_).trans (List.map_id _)
    refine toLowerCase_eq_self fun c inside => ?_
    have digit := (zoneLabels.2.2 label (List.mem_reverse.mp member)).2.2.1 c inside
    rcases toLower_eq_self_or_upper c with same | upper
    · exact same
    · have letter : c.isDigit = false :=
        of_decide_eq_true (@upperLetters_all (fun c => c.isDigit = false) (by decide) c upper)
      rw [letter] at digit
      cases digit
  have octets : labels.all isOctet = true ∧
      labels.any (fun octet => decide (255 < readDigits 10 octet)) = false := by
    constructor
    · refine List.all_eq_true.mpr fun label member => ?_
      have both := octet_iff.mpr (zoneLabels.2.2 label member)
      rw [Bool.and_eq_true] at both
      exact both.1
    · refine List.any_eq_false.mpr fun label member => ?_
      have small := (zoneLabels.2.2 label member).2.2.2
      simpa using small
  have short : labels.length ≤ 3 := Nat.le_of_lt_succ zoneLabels.2.1
  rw [lower] at own
  rw [reverseZoneNetwork]
  simp only [show arpaLabels inAddrArpa (dropFinalDot (toLowerCase zone)) =
    some labels.reverse from own, List.length_reverse, List.all_reverse, short, decide_true,
    octets.1, Bool.and_self, if_true, List.reverse_reverse, octets.2, Bool.false_eq_true, if_false]
  rfl

theorem reverseZoneNetwork_v6 (zoneLabels : AreZoneLabels .v6 labels)
    (named : ZoneName .v6 (dotted labels.reverse) zone) :
    reverseZoneNetwork zone = (networkAt .v6 (firstValue .v6 labels) (labels.length * 4)).map
    fun net =>
      (addressAt net.family net.networkBig).text ++ '/' :: Nat.toDigits 10 (labels.length * 4) := by
  obtain ⟨own, others⟩ := arpaLabels_zone zoneLabels named
  have nibbles : (labels.reverse.map toLowerCase).all
      (fun label => label.length = 1 && label.all isHexDigit) = true := by
    refine List.all_eq_true.mpr fun label member => ?_
    obtain ⟨nibble, listed, rfl⟩ := List.mem_map.mp member
    exact (isNibble_toLowerCase nibble).trans (zoneLabels.2.2 nibble (List.mem_reverse.mp listed))
  have short : labels.length ≤ 32 := zoneLabels.2.1.le
  have zero : List.replicate (32 - labels.length) ['0'] =
      (List.replicate (32 - labels.length) ['0']).map toLowerCase := by
    rw [List.map_replicate]
    rfl
  have value : readDigits 16 (labels.map toLowerCase ++ List.replicate (32 - labels.length)
      ['0']).flatten =
      firstValue .v6 labels := by
    rw [zero, ← List.map_append]
    have flat : ((labels ++ List.replicate (32 - labels.length) ['0']).map toLowerCase).flatten =
        toLowerCase (filled .v6 labels).flatten := List.map_flatten.symm
    rw [flat]
    exact readDigits_toLowerCase (isHexDigit_of_mem_nibbles (isNibble_of_mem_filled zoneLabels))
  rw [reverseZoneNetwork]
  simp only [show arpaLabels inAddrArpa (dropFinalDot (toLowerCase zone)) = none from others .v4
    (by decide),
    show arpaLabels ip6Arpa (dropFinalDot (toLowerCase zone)) =
      some (labels.reverse.map toLowerCase) from own,
    nibbles, List.length_map, List.length_reverse, short, decide_true, Bool.and_self,
      if_true, ← List.map_reverse,
    List.reverse_reverse, value]

/-- The zone is no block of IPv4-mapped addresses. -/
def IsUnmapped (family : Family) (labels : List Text) : Prop :=
  (zoneStart family labels).family = family

instance (family : Family) (labels : List Text) : Decidable (IsUnmapped family labels) :=
  inferInstanceAs (Decidable (_ = _))

/-- `networkContains(reverseZoneNetwork(zone), ip)`. Without a network it throws. -/
def serverContains (zone ip : Text) : Option Bool :=
  (reverseZoneNetwork zone).bind fun cidr => networkContains cidr ip

theorem contains_of_networkOf {net : Network}
    (made : networkOf (zoneStart family labels) (family.labelWidth * labels.length) = some net)
    (unmapped : IsUnmapped family labels) (addr : Addr) :
    net.contains addr = true ↔ addr.family = family ∧
      addr.value / 2 ^ hostBits family labels = (zoneStart family labels).value / 2 ^ hostBits
      family labels := by
  obtain ⟨-, own, prefixLen, base⟩ := networkOf_eq_some made
  have host : family.bits - family.labelWidth * labels.length = hostBits family labels := by
    rw [hostBits, ← family.labelWidth_mul_labelCount, Nat.mul_sub]
  rw [unmapped] at own base
  have netHost : net.host = hostBits family labels := by rw [Network.host, Network.bits, own,
    prefixLen, host]
  rw [host] at base
  rw [Network.contains_iff_top_bits, netHost, own, base, Nat.mul_div_cancel _ (Nat.two_pow_pos _)]

/-- The text of an unmapped zone's network is read as its block. -/
theorem parseNetwork_zone (zoneLabels : AreZoneLabels family labels)
    (named : ZoneName family (dotted labels.reverse) zone) (unmapped : IsUnmapped family labels) :
    ∃ net, networkOf (zoneStart family labels) (family.labelWidth * labels.length) = some net ∧
      (reverseZoneNetwork zone).bind parseNetwork = some net := by
  have fits : family.labelWidth * labels.length ≤ (zoneStart family labels).family.bits := by
    rw [unmapped, ← family.labelWidth_mul_labelCount]
    exact Nat.mul_le_mul_left _ zoneLabels.2.1.le
  obtain ⟨net, made⟩ := exists_networkOf fits
  refine ⟨net, made, ?_⟩
  cases family with
  | v4 =>
    have read := parseV4_filled zoneLabels
    have some' : dotted (filled .v4 labels) ≠ [] := by
      intro empty
      rw [empty] at read
      cases read
    have address : addressToBig (dotted (filled .v4 labels)) = some (zoneStart .v4 labels) := by
      rw [addressToBig, parseIp_noZone_iff.mpr ⟨read, rfl⟩]
      rfl
    have colon : ':' ∉ dotted (filled .v4 labels) := by
      rw [mem_dotted (by decide)]
      rintro ⟨label, listed, inside⟩
      exact absurd ((isOctetText_of_mem_filled zoneLabels label listed).2.2.1 ':' inside)
        (by decide)
    rw [reverseZoneNetwork_v4 zoneLabels named, Option.bind_some, parseNetwork_slash some', address,
      Option.bind_some, if_neg fun both => colon both.1, Nat.mul_comm]
    exact made
  | v6 =>
    obtain ⟨-, own, prefixLen, -⟩ := networkOf_eq_some made
    have at' : networkAt .v6 (firstValue .v6 labels) (labels.length * 4) = some net := by
      have six : (addressAt .v6 (firstValue .v6 labels)).family = .v6 := unmapped
      simp only [networkAt, six]
      rw [if_neg (by decide), Nat.mul_comm]
      exact made
    have text : (addressAt net.family net.networkBig).text ++ '/' :: Nat.toDigits 10
        (labels.length * 4) = net.cidr := by
      have back : addressAt net.family net.networkBig = net.networkAddr :=
        addressAt_value net.networkAddr
      have four : labels.length * 4 = net.prefixLen := (Nat.mul_comm _ _).trans prefixLen.symm
      rw [back, four]
      rfl
    rw [reverseZoneNetwork_v6 zoneLabels named, at', Option.map_some, text, Option.bind_some,
      parseNetwork_cidr]

/-- The text of a mapped zone's network is not read again: an IPv4 address with more than 32
bits. -/
theorem parseNetwork_mapped (zoneLabels : AreZoneLabels family labels)
    (named : ZoneName family (dotted labels.reverse) zone) (mapped : ¬ IsUnmapped family labels) :
    (reverseZoneNetwork zone).bind parseNetwork = none := by
  cases family with
  | v4 => exact absurd rfl mapped
  | v6 =>
    have four : (addressAt .v6 (firstValue .v6 labels)).family = .v4 := by
      cases is : (addressAt .v6 (firstValue .v6 labels)).family with
      | v4 => rfl
      | v6 => exact absurd is mapped
    rw [reverseZoneNetwork_v6 zoneLabels named]
    simp only [networkAt, four]
    rw [if_pos (by decide)]
    by_cases short : labels.length * 4 < 96
    · rw [if_pos short]
      rfl
    · rw [if_neg short]
      cases made : networkOf (addressAt .v6 (firstValue .v6 labels)) (labels.length * 4 - 96) with
      | none => rfl
      | some net =>
        obtain ⟨-, own, -, -⟩ := networkOf_eq_some made
        rw [four] at own
        have family : (addressAt net.family net.networkBig).family = .v4 := by rw [own]; rfl
        have colon : ':' ∉ (addressAt net.family net.networkBig).text := by
          rw [Addr.text, family]
          exact colon_not_mem_quad _
        have some' : (addressAt net.family net.networkBig).text ≠ [] := formatIp_ne_nil _ _
        rw [Option.map_some, Option.bind_some, parseNetwork_slash some', addressToBig_text,
          Option.bind_some, if_neg fun both => colon both.1, networkOf, dif_neg]
        rw [family]
        change ¬ labels.length * 4 ≤ 32
        omega

/-- **What the server takes for inside a zone**: the zone is not mapped, the address has no zone
id, and the first bits are the same. -/
theorem serverContains_iff (zoneLabels : AreZoneLabels family labels)
    (named : ZoneName family (dotted labels.reverse) zone) (ip : Text) :
    serverContains zone ip = some true ↔ IsUnmapped family labels ∧
      ∃ parsed, parseIp ip = some parsed ∧ parsed.zoneId = none ∧ Inside family labels parsed := by
  have through : serverContains zone ip = ((reverseZoneNetwork zone).bind parseNetwork).bind
      fun net =>
      (addressToBig ip).bind fun address => some (net.contains address) := by
    rw [serverContains, Option.bind_assoc]
    rfl
  rw [through]
  by_cases unmapped : IsUnmapped family labels
  · obtain ⟨net, made, read⟩ := parseNetwork_zone zoneLabels named unmapped
    have own : (zoneStart family labels).family = family := unmapped
    rw [read, Option.bind_some, Option.bind_eq_some_iff, and_iff_right unmapped]
    simp only [Option.some.injEq, contains_of_networkOf made unmapped, Inside, own]
    constructor
    · rintro ⟨addr, found, four, bits⟩
      have parsed := parseIp_noZone_iff.mp (parseIp_of_addressToBig found)
      exact ⟨_, parsed.1, rfl, congrArg Family.bits four, bits⟩
    · rintro ⟨parsed, done, noZone, four, bits⟩
      have noZone' := parseIp_noZone_iff.mpr ⟨done, noZone⟩
      obtain ⟨addr, found⟩ : ∃ addr, addressToBig ip = some addr := by
        rw [addressToBig, noZone']
        exact ⟨_, rfl⟩
      have same := Option.some.inj (noZone'.symm.trans (parseIp_of_addressToBig found))
      subst same
      refine ⟨addr, found, ?_, bits⟩
      simp only at four
      cases isFamily : addr.family <;> cases family <;> rw [isFamily] at four <;>
        first | rfl | exact absurd four (by decide)
  · rw [parseNetwork_mapped zoneLabels named unmapped]
    exact iff_of_false (by simp) fun both => unmapped both.1

/-- **The panel and the server agree on an address exactly when** the zone is not mapped and the
address has no zone id, or the address is outside. -/
theorem reverseZoneContains_agrees_iff (zoneLabels : AreZoneLabels family labels)
    (named : ZoneName family (dotted labels.reverse) zone) (ip : Text) :
    (reverseZoneContains zone ip = true ↔ serverContains zone ip = some true) ↔
      ∀ parsed, parseIp ip = some parsed → Inside family labels parsed →
        IsUnmapped family labels ∧ parsed.zoneId = none := by
  rw [reverseZoneContains_iff zoneLabels named, serverContains_iff zoneLabels named]
  constructor
  · intro same parsed read inside
    obtain ⟨unmapped, other, read', noZone, -⟩ := same.mp ⟨parsed, read, inside⟩
    obtain rfl := Option.some.inj (read.symm.trans read')
    exact ⟨unmapped, noZone⟩
  · intro plain
    constructor
    · rintro ⟨parsed, read, inside⟩
      obtain ⟨unmapped, noZone⟩ := plain parsed read inside
      exact ⟨unmapped, parsed, read, noZone, inside⟩
    · rintro ⟨-, parsed, read, -, inside⟩
      exact ⟨parsed, read, inside⟩

end

/-- **When the panel and the server say the same of a reverse zone**: of a record when it is
spelled plainly, and of an address when the zone is not mapped and the address has no zone id,
or it is outside. -/
theorem panel_and_server_agree_iff {family : Family} {front zone : Text}
    (named : ZoneName family front zone) (record ip : Text) :
    (ptrRecordAddress zone record = ipForPtrRecord record zone ↔ SpelledPlainly family front record)
      ∧ ∀ labels, AreZoneLabels family labels → front = dotted labels.reverse →
        ((reverseZoneContains zone ip = true ↔ serverContains zone ip = some true) ↔
          ∀ parsed, parseIp ip = some parsed → Inside family labels parsed →
            IsUnmapped family labels ∧ parsed.zoneId = none) := by
  refine ⟨ptrRecordAddress_eq_iff record named, fun labels zoneLabels whole => ?_⟩
  subst whole
  exact reverseZoneContains_agrees_iff zoneLabels named ip

theorem panel_and_server_agree_iff_office :
    (ptrRecordAddress "0.0.10.in-addr.arpa".toList ['5'] = ipForPtrRecord
      ['5'] "0.0.10.in-addr.arpa".toList ↔ SpelledPlainly .v4 "0.0.10".toList ['5']) ∧
    ((reverseZoneContains "0.0.10.in-addr.arpa".toList "10.0.0.5".toList = true ↔
        serverContains "0.0.10.in-addr.arpa".toList "10.0.0.5".toList = some true) ↔
      ∀ parsed, parseIp "10.0.0.5".toList = some parsed →
        Inside .v4 [['1', '0'], ['0'], ['0']] parsed → IsUnmapped .v4 [['1', '0'], ['0'], ['0']] ∧
        parsed.zoneId = none) := by
  have named : ZoneName .v4 "0.0.10".toList "0.0.10.in-addr.arpa".toList :=
    ⟨"in-addr.arpa".toList, [], by decide, by decide, .inl rfl⟩
  have octets : [['1', '0'], ['0'], ['0']].all
      (fun label => isOctet label && readDigits 10 label ≤ 255) = true := by
    decide
  have zoneLabels : AreZoneLabels .v4 [['1', '0'], ['0'], ['0']] :=
    ⟨by decide, by decide, fun label member => octet_iff.mp
      (List.all_eq_true.mp octets label member)⟩
  have agree := panel_and_server_agree_iff named ['5'] "10.0.0.5".toList
  exact ⟨agree.1, agree.2 _ zoneLabels (by decide)⟩

/-- A padded octet: the panel shows it without its zero, and the server with it. -/
theorem padded_octet_is_read_apart :
    ¬ ((∀ family front zone record, ZoneName family front zone →
        ptrRecordAddress zone record = ipForPtrRecord record zone) ∧
      ∀ family labels zone ip, AreZoneLabels family labels →
        ZoneName family (dotted labels.reverse) zone →
        (reverseZoneContains zone ip = true ↔ serverContains zone ip = some true)) := by
  rintro ⟨same, -⟩
  have named : ZoneName .v4 "0.0.10".toList "0.0.10.in-addr.arpa".toList :=
    ⟨"in-addr.arpa".toList, [], by decide, by decide, .inl rfl⟩
  exact absurd (same .v4 _ _ ['0', '5'] named) (by decide)

end ReverseZone

end Cidrella
