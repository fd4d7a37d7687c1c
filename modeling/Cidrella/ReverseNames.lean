import Cidrella.AddressGrammar
import Cidrella.NetworkRelations
import Cidrella.RecordNames
import Cidrella.ReverseDns

/-!
# Names in reverse zones

An address is written in reverse as its labels, least significant first, under the ending
of its family: four octets under `in-addr.arpa`, thirty-two nibbles under `ip6.arpa`. A
reverse zone takes the first labels of an address, and the record in it the others. Four
functions of three modules write such names or read them, and this module relates them
through the labels alone.

Every candidate of an address reads back as that address, makes up its reverse name, and
has a zone whose network holds it (`ptr_names_round_trip`). A name that reads as an address
is one of that address's candidates exactly when it is spelled as the candidates are:
reading takes other spellings too.

The zones made for a network cover it exactly when the network lies inside one first label
(`generated_zones_cover_iff`).
-/

set_option autoImplicit false

namespace Cidrella

open Address DnsNames Text

/-! ## Labels -/

/-- The bits of one label. -/
def Family.labelWidth : Family → Nat
  | .v4 => 8
  | .v6 => 4

/-- The labels of an address. -/
def Family.labelCount : Family → Nat
  | .v4 => 4
  | .v6 => 32

/-- The base that labels are written in. -/
def Family.labelBase : Family → Nat
  | .v4 => 10
  | .v6 => 16

/-- The ending of reverse names. -/
def Family.arpa : Family → Text
  | .v4 => Dns.inAddrArpa
  | .v6 => Dns.ip6Arpa

theorem Family.labelWidth_mul_labelCount (family : Family) :
    family.labelWidth * family.labelCount = family.bits := by
  cases family <;> rfl

/-- The labels of a value, most significant first. -/
def Family.labels (family : Family) (value : Nat) : List Text :=
  (groups family.labelWidth family.labelCount value).map (Nat.toDigits family.labelBase)

/-- The zone of the first labels of a value. -/
def Family.zoneAt (family : Family) (value count : Nat) : Text :=
  Dns.dotted ((family.labels value).take count).reverse ++ family.arpa

/-- The record of a value in the zone of its first labels. -/
def Family.recordAt (family : Family) (value count : Nat) : Text :=
  Dns.dotted ((family.labels value).drop count).reverse

/-- What `parseIp` reads without a zone it reads the same with zones allowed. -/
theorem Address.parseIp_of_noZone {text : Text} {parsed : ParsedIp}
    (read : parseIp text { zoneId := false } = some parsed) :
    parseIp text = some parsed ∧ parsed.zoneId = none := by
  refine ⟨parseIp_of_zoneless read, ?_⟩
  simp only [parseIp] at read
  split at read
  · cases read
  · cases zone : (splitZone (trim text)).2 with
    | none =>
      rw [zone] at read
      simp only [Option.isSome_none, Bool.false_and, Bool.false_eq_true, if_false] at read
      split at read
      · obtain ⟨value, -, written⟩ := Option.bind_eq_some_iff.mp read
        split at written <;> exact (congrArg ParsedIp.zoneId (Option.some.inj written)).symm
      · obtain ⟨value, -, written⟩ := Option.bind_eq_some_iff.mp read
        exact (congrArg ParsedIp.zoneId (Option.some.inj written)).symm
    | some name =>
      rw [zone] at read
      simp at read

theorem Address.colon_mem_of_parseIp {text : Text} {options : ParseOptions} {parsed : ParsedIp}
    (read : parseIp text options = some parsed) (six : parsed.bits = ipv6Bits) : ':' ∈ text := by
  by_contra absent
  have trimmed : ':' ∉ trim text := fun member => absent <| by
    have first :=
      List.mem_reverse.mp ((List.dropWhile_sublist _).subset (List.mem_reverse.mp member))
    exact (List.dropWhile_sublist _).subset first
  have body : ':' ∉ (splitZone (trim text)).1 := fun member => trimmed <| by
    rcases splitZone_eq (trim text) with ⟨plain, -⟩ | ⟨front, zone, cut, whole⟩
    · rwa [plain] at member
    · rw [cut] at member
      rw [whole]
      exact List.mem_append_left _ member
  simp only [parseIp, body, if_false] at read
  split at read
  · cases read
  · split at read
    · cases read
    · split at read
      · cases read
      · obtain ⟨value, -, written⟩ := Option.bind_eq_some_iff.mp read
        obtain rfl := Option.some.inj written
        have four : ipv4Bits = ipv6Bits := six
        exact absurd four (by decide)

/-! ## Texts joined by dots -/

/-- A label of a name as it is stored: not empty, in lower case and without a dot. -/
def IsLabel (label : Text) : Prop := label ≠ [] ∧ '.' ∉ label ∧ toLowerCase label = label

theorem DnsNames.toLowerCase_eq_self {text : Text} (lower : ∀ c ∈ text, c.toLower = c) :
    toLowerCase text = text :=
  (List.map_congr_left lower).trans (List.map_id text)

theorem DnsNames.forall_lower {text : Text} (lower : toLowerCase text = text) : ∀ c ∈ text,
    c.toLower = c :=
  List.map_inj_left.mp (lower.trans (List.map_id text).symm)

theorem DnsNames.endsWith_append {front tail ending : Text} (long : ending.length ≤ tail.length) :
    endsWith (front ++ tail) ending = endsWith tail ending := by
  rw [Bool.eq_iff_iff, endsWith, endsWith, List.isSuffixOf_iff_suffix, List.isSuffixOf_iff_suffix]
  exact ⟨fun whole => List.suffix_of_suffix_length_le whole (List.suffix_append front tail) long,
    fun part => part.trans (List.suffix_append front tail)⟩

theorem DnsNames.endsWith_eq_false {text ending other : Text} (ends : endsWith text ending = true)
    (apart : endsWith ending other = false ∧ endsWith other ending = false) :
    endsWith text other = false := by
  rw [Bool.eq_false_iff]
  intro both
  rw [endsWith, List.isSuffixOf_iff_suffix] at ends both
  rcases List.suffix_or_suffix_of_suffix ends both with inner | inner
  · rw [endsWith, endsWith, List.isSuffixOf_iff_suffix.mpr inner] at apart
    cases apart.2
  · rw [endsWith, List.isSuffixOf_iff_suffix.mpr inner] at apart
    cases apart.1

namespace Dns

theorem dotted_append {front back : List Text} (some' : front ≠ []) (others : back ≠ []) :
    dotted (front ++ back) = dotted front ++ '.' :: dotted back := by
  induction front with
  | nil => exact absurd rfl some'
  | cons label front ih =>
    cases front with
    | nil =>
      obtain ⟨next, back, rfl⟩ := List.exists_cons_of_ne_nil others
      simp [dotted]
    | cons next front =>
      have tail := ih (List.cons_ne_nil next front)
      simp only [dotted, List.cons_append, List.intercalate_cons_cons] at tail ⊢
      rw [tail]
      simp

section Labels

variable {labels : List Text} (all : ∀ label ∈ labels, IsLabel label)

include all

theorem splitOn_dotted (some' : labels ≠ []) : (dotted labels).splitOn '.' = labels :=
  List.splitOn_intercalate '.' (fun label member => (all label member).2.1) some'

theorem labelsOf_dotted : labelsOf (dotted labels) = labels := by
  rcases eq_or_ne labels [] with rfl | some'
  · rfl
  · rw [labelsOf, splitOn_dotted all some', List.filter_eq_self]
    exact fun label member => decide_eq_true (all label member).1

theorem toLowerCase_dotted : toLowerCase (dotted labels) = dotted labels := by
  refine toLowerCase_eq_self fun c member => ?_
  rcases mem_intercalate_singleton member with rfl | ⟨label, listed, inside⟩
  · rfl
  · exact forall_lower (all label listed).2.2 c inside

end Labels

theorem dropArpa_append {front ending : Text} (solid : endsWith ('.' :: ending) ['.'] = false) :
    dropArpa ending (front ++ '.' :: ending) = front := by
  have whole : endsWith (front ++ '.' :: ending) ['.'] = false := by
    rw [endsWith_append (by simp), solid]
  have split : front ++ '.' :: ending = (front ++ ['.']) ++ ending := by simp
  have ends : endsWith (front ++ '.' :: ending) ending = true := endsWith_iff.mpr ⟨_, split⟩
  rw [dropArpa, dropFinalDot_eq_self whole, if_pos ends, split, List.length_append,
    Nat.add_sub_cancel, List.take_left, dropFinalDot_concat]

theorem arpaLabels_append {front ending : Text} :
    arpaLabels ending (front ++ ending) = some (front.splitOn '.') := by
  rw [arpaLabels, if_pos (endsWith_iff.mpr ⟨front, rfl⟩), List.length_append, Nat.add_sub_cancel,
    List.take_left]

end Dns

/-! ## The labels of a value -/

namespace Family

theorem length_labels (family : Family) (value : Nat) :
    (family.labels value).length = family.labelCount := by
  rw [labels, List.length_map, length_groups]

theorem isLabel_of_mem_labels {family : Family} {value : Nat} :
    ∀ label ∈ family.labels value, IsLabel label := by
  intro label member
  obtain ⟨part, -, rfl⟩ := List.mem_map.mp member
  have large : 1 < family.labelBase := by cases family <;> decide
  have solid : ∀ c ∈ Nat.toDigits family.labelBase part, c ≠ '.' ∧ c.toLower = c := by
    refine forall_mem_toDigits large _ (fun digit below => ?_) part
    have small : digit < 16 := lt_of_lt_of_le below (by cases family <;> decide)
    interval_cases digit <;> decide
  exact ⟨Nat.toDigits_ne_nil, fun dot => (solid _ dot).1 rfl,
    toLowerCase_eq_self fun c member => (solid c member).2⟩

theorem isLabel_of_mem_take {family : Family} {value count : Nat} :
    ∀ label ∈ ((family.labels value).take count).reverse, IsLabel label := fun label member =>
  isLabel_of_mem_labels label (List.mem_of_mem_take (List.mem_reverse.mp member))

theorem isLabel_of_mem_drop {family : Family} {value count : Nat} :
    ∀ label ∈ ((family.labels value).drop count).reverse, IsLabel label := fun label member =>
  isLabel_of_mem_labels label (List.mem_of_mem_drop (List.mem_reverse.mp member))

theorem toLowerCase_zoneAt (family : Family) (value count : Nat) :
    toLowerCase (family.zoneAt value count) = family.zoneAt value count := by
  have ending : toLowerCase family.arpa = family.arpa := by cases family <;> decide
  rw [zoneAt, toLowerCase_append, Dns.toLowerCase_dotted isLabel_of_mem_take, ending]

theorem dropFinalDot_zoneAt (family : Family) (value count : Nat) :
    dropFinalDot (family.zoneAt value count) = family.zoneAt value count := by
  refine dropFinalDot_eq_self ?_
  rw [zoneAt, endsWith_append (by cases family <;> decide)]
  cases family <;> decide

theorem labels_truncated {family : Family} {value count : Nat}
    (within : count ≤ family.labelCount) :
    family.labels (value / 2 ^ (family.labelWidth * (family.labelCount - count)) *
        2 ^ (family.labelWidth * (family.labelCount - count))) =
      (family.labels value).take count ++ List.replicate (family.labelCount - count) ['0'] := by
  obtain ⟨more, whole⟩ := Nat.exists_eq_add_of_le within
  have zero : Nat.toDigits family.labelBase 0 = ['0'] := by cases family <;> decide
  rw [labels, labels, whole, Nat.add_sub_cancel_left, groups_truncated, ← List.map_take,
    take_groups, List.map_append, List.map_replicate, zero]

theorem take_labels_eq_iff {family : Family} {left right count : Nat}
    (within : count ≤ family.labelCount) :
    (family.labels left).take count = (family.labels right).take count ↔
      left / 2 ^ (family.labelWidth * (family.labelCount - count)) % 2 ^
        (family.labelWidth * count) =
        right / 2 ^ (family.labelWidth * (family.labelCount - count)) % 2 ^
            (family.labelWidth * count) := by
  obtain ⟨more, whole⟩ := Nat.exists_eq_add_of_le within
  have injective : Function.Injective (Nat.toDigits family.labelBase) := by
    refine Function.LeftInverse.injective (g := readDigits family.labelBase) fun n => ?_
    exact readDigits_toDigits (by cases family <;> decide) (by cases family <;> decide) n
  rw [labels, labels, ← List.map_take, ← List.map_take, injective.list_map.eq_iff, whole,
    Nat.add_sub_cancel_left, take_groups, take_groups, ← Nat.shiftRight_eq_div_pow,
    ← Nat.shiftRight_eq_div_pow, ← joinGroups_groups_mod, ← joinGroups_groups_mod]
  refine ⟨fun same => by rw [same], fun same => ?_⟩
  have cut := congrArg (groups family.labelWidth count) same
  have back : ∀ value, groups family.labelWidth count
      (joinGroups family.labelWidth (groups family.labelWidth count value)) =
        groups family.labelWidth count value := fun value => by
    have parts :=
      groups_joinGroups fun part (member : part ∈ groups family.labelWidth count value) =>
      lt_of_mem_groups member
    rwa [length_groups] at parts
  rwa [back, back] at cut

end Family

theorem readDigits_labels_v6 {value : Nat} (fits : value < 2 ^ 128) :
    readDigits 16 (Family.v6.labels value).flatten = value := by
  have single : Family.v6.labels value = (groups 4 32 value).map fun part => [part.digitChar] :=
    List.map_congr_left fun part member => by
      rw [Nat.toDigits_eq_if (by decide)]
      exact if_pos (lt_of_mem_groups member)
  have digits : (Family.v6.labels value).flatten = (groups 4 32 value).map Nat.digitChar := by
    rw [single, ← List.flatMap_def]
    exact List.map_eq_flatMap.symm
  have joined := @readDigits_map_digitChar 4 (by decide) (groups 4 32 value) fun _ =>
    lt_of_mem_groups
  rw [digits]
  exact joined.trans (joinGroups_groups fits)

theorem isNibble_of_mem_labels_v6 {value : Nat} : ∀ label ∈ Family.v6.labels value,
    label.length = 1 ∧ label.all isHexDigit = true := by
  intro label member
  obtain ⟨part, part_mem, rfl⟩ := List.mem_map.mp member
  have small : part < 16 := lt_of_mem_groups part_mem
  rw [show Family.v6.labelBase = 16 from rfl, Nat.toDigits_eq_if (by decide), if_pos small]
  exact ⟨rfl, by simpa using isHexDigit_digitChar small⟩

theorem isOctet_of_mem_labels_v4 {value : Nat} : ∀ label ∈ Family.v4.labels value,
    isOctet label = true ∧ readDigits 10 label ≤ 255 := by
  intro label member
  obtain ⟨part, part_mem, rfl⟩ := List.mem_map.mp member
  have small : part < 256 := lt_of_mem_groups part_mem
  have parsed := parseOctet_toDigits small
  rw [parseOctet] at parsed
  split at parsed
  · rename_i both
    rw [Bool.and_eq_true, decide_eq_true_eq] at both
    exact both
  · cases parsed

namespace Dns

/-! ## Reading a record of a reverse zone -/

theorem ipForPtrRecord_v6 {recordLabels zoneLabels : List Text}
    (records : ∀ label ∈ recordLabels, IsLabel label) (zones : ∀ label ∈ zoneLabels,
    IsLabel label) :
    ipForPtrRecord (dotted recordLabels) (dotted zoneLabels ++ ip6Arpa) =
      let nibbles := (recordLabels ++ zoneLabels).reverse
      if nibbles.length = 32 && nibbles.all (fun label => label.length = 1 && label.all isHexDigit)
          then
        some (formatIp (readDigits 16 nibbles.flatten) ipv6Bits)
      else none := by
  have lower : toLowerCase (dotted zoneLabels ++ ip6Arpa) = dotted zoneLabels ++ ip6Arpa := by
    rw [toLowerCase_append, toLowerCase_dotted zones]
    rfl
  have bare : dropFinalDot (dotted zoneLabels ++ ip6Arpa) = dotted zoneLabels ++ ip6Arpa :=
    dropFinalDot_eq_self (by rw [endsWith_append (by decide)]; decide)
  have ends : endsWith (dotted zoneLabels ++ ip6Arpa) "ip6.arpa".toList = true := by
    rw [endsWith_append (by decide)]
    decide
  have front : dropArpa "ip6.arpa".toList (dotted zoneLabels ++ ip6Arpa) = dotted zoneLabels :=
    dropArpa_append (by decide)
  simp only [ipForPtrRecord, lower, bare, ends, if_true, front, toLowerCase_dotted records,
    labelsOf_dotted records, labelsOf_dotted zones]

theorem ipForPtrRecord_v4 {recordLabels zoneLabels : List Text}
    (records : ∀ label ∈ recordLabels, IsLabel label) (zones : ∀ label ∈ zoneLabels,
    IsLabel label) :
    ipForPtrRecord (dotted recordLabels) (dotted zoneLabels ++ inAddrArpa) =
      let ip := dotted (recordLabels ++ zoneLabels).reverse
      if (parseIp ip { zoneId := false }).any (·.bits = ipv4Bits) && ':' ∉ ip then some ip
      else none := by
  have lower : toLowerCase (dotted zoneLabels ++ inAddrArpa) = dotted zoneLabels ++ inAddrArpa := by
    rw [toLowerCase_append, toLowerCase_dotted zones]
    rfl
  have bare : dropFinalDot (dotted zoneLabels ++ inAddrArpa) = dotted zoneLabels ++ inAddrArpa :=
    dropFinalDot_eq_self (by rw [endsWith_append (by decide)]; decide)
  have ends : endsWith (dotted zoneLabels ++ inAddrArpa) "ip6.arpa".toList = false := by
    rw [endsWith_append (by decide)]
    decide
  have front : dropArpa "in-addr.arpa".toList (dotted zoneLabels ++ inAddrArpa) = dotted
      zoneLabels :=
    dropArpa_append (by decide)
  simp only [ipForPtrRecord, lower, bare, ends, Bool.false_eq_true, if_false, front,
    toLowerCase_dotted records, labelsOf_dotted records, labelsOf_dotted zones]

theorem ipForPtrRecord_recordAt (addr : Addr) (count : Nat) :
    ipForPtrRecord (addr.family.recordAt addr.value count) (addr.family.zoneAt addr.value count) =
      some addr.text := by
  have joined : ((addr.family.labels addr.value).drop count).reverse ++
      ((addr.family.labels addr.value).take count).reverse =
      (addr.family.labels addr.value).reverse := by
    rw [← List.reverse_append, List.take_append_drop]
  obtain ⟨family, value, fits, unmapped⟩ := addr
  cases family with
  | v4 =>
    have read : parseIp (dotted (Family.v4.labels value)) { zoneId := false } =
        some ⟨value, ipv4Bits, none⟩ :=
      (parseIp_of_isPlain isPlain_of_mem_formatIp).trans (parseIp_formatIp_v4 fits)
    have noColon : ':' ∉ dotted (Family.v4.labels value) := colon_not_mem_quad value
    refine (ipForPtrRecord_v4 Family.isLabel_of_mem_drop Family.isLabel_of_mem_take).trans ?_
    simp only [joined, List.reverse_reverse, read, Option.any_some, noColon, not_false_eq_true,
      decide_true, Bool.and_self, if_true]
    rfl
  | v6 =>
    have nibbles : (Family.v6.labels value).all
        (fun label => label.length = 1 && label.all isHexDigit) = true := by
      refine List.all_eq_true.mpr fun label member => ?_
      simpa using isNibble_of_mem_labels_v6 label member
    refine (ipForPtrRecord_v6 Family.isLabel_of_mem_drop Family.isLabel_of_mem_take).trans ?_
    simp only [joined, List.reverse_reverse, Family.length_labels, nibbles,
      readDigits_labels_v6 fits]
    rfl

end Dns

/-! ## The network of a zone -/

theorem exists_networkOf {addr : Addr} {prefixLen : Nat} (within : prefixLen ≤ addr.family.bits) :
    ∃ net, networkOf addr prefixLen = some net := by
  rw [networkOf, dif_pos within]
  exact ⟨_, rfl⟩

theorem exists_block {addr : Addr} {count : Nat} (within : count ≤ addr.family.labelCount) :
    ∃ net : Network, net.family = addr.family ∧ net.prefixLen = addr.family.labelWidth * count ∧
      net.networkBig = addr.value /
        2 ^ (addr.family.labelWidth * (addr.family.labelCount - count)) *
          2 ^ (addr.family.labelWidth * (addr.family.labelCount - count)) := by
  have bits := addr.family.labelWidth_mul_labelCount
  have fits : addr.family.labelWidth * count ≤ addr.family.bits := by
    rw [← bits]
    exact Nat.mul_le_mul_left _ within
  obtain ⟨net, block⟩ := exists_networkOf fits
  obtain ⟨-, family, prefixLen, base⟩ := networkOf_eq_some block
  refine ⟨net, family, prefixLen, ?_⟩
  rw [base, ← bits, ← Nat.mul_sub]

theorem contains_of_block {addr : Addr} {net : Network} {host : Nat}
    (family : net.family = addr.family) (prefixLen : net.bits - net.prefixLen = host)
    (base : net.networkBig = addr.value / 2 ^ host * 2 ^ host) : net.contains addr = true := by
  refine Network.contains_iff_top_bits.mpr ⟨family.symm, ?_⟩
  rw [Network.host, prefixLen, base, Nat.mul_div_cancel _ (Nat.two_pow_pos host)]

namespace Dns

theorem endsWith_zoneAt (family : Family) (value count : Nat) :
    endsWith (family.zoneAt value count) family.arpa = true := endsWith_iff.mpr ⟨_, rfl⟩

/-- **A zone of the first labels of an address covers the block they name.** -/
theorem reverseZoneNetwork_zoneAt {addr : Addr} {count : Nat} {net : Network} (some' : 1 ≤ count)
    (within : count < addr.family.labelCount) (family : net.family = addr.family)
    (prefixLen : net.prefixLen = addr.family.labelWidth * count)
    (base : net.networkBig = addr.value /
      2 ^ (addr.family.labelWidth * (addr.family.labelCount - count)) *
        2 ^ (addr.family.labelWidth * (addr.family.labelCount - count))) :
    reverseZoneNetwork (addr.family.zoneAt addr.value count) = some net.cidr := by
  have labels := @Family.labels_truncated addr.family addr.value count within.le
  rw [← base] at labels
  have length : ((addr.family.labels addr.value).take count).length = count := by
    rw [List.length_take, Family.length_labels]
    exact Nat.min_eq_left within.le
  have filled : (addr.family.labels addr.value).take count ≠ [] := by
    intro empty
    rw [empty] at length
    exact absurd length.symm (by simpa using Nat.one_le_iff_ne_zero.mp some')
  have cut : (dotted ((addr.family.labels addr.value).take count).reverse).splitOn '.' =
      ((addr.family.labels addr.value).take count).reverse :=
    splitOn_dotted Family.isLabel_of_mem_take (by simpa using filled)
  obtain ⟨addrFamily, value, fits, unmapped⟩ := addr
  obtain ⟨netFamily, networkBig, netPrefix, prefix_le, aligned, netFits, netUnmapped⟩ := net
  dsimp only at *
  subst family prefixLen
  cases netFamily with
  | v4 =>
    have octets := fun label (member : label ∈ (Family.v4.labels value).take count) =>
      isOctet_of_mem_labels_v4 label (List.mem_of_mem_take member)
    have own : arpaLabels inAddrArpa (Family.v4.zoneAt value count) =
        some ((Family.v4.labels value).take count).reverse := by
      rw [Family.zoneAt]
      exact arpaLabels_append.trans (congrArg some cut)
    have shaped : (((Family.v4.labels value).take count).reverse.length ≤ 3 &&
        ((Family.v4.labels value).take count).reverse.all isOctet) = true := by
      rw [List.length_reverse, length, Bool.and_eq_true, decide_eq_true_eq, List.all_reverse]
      exact ⟨Nat.le_of_lt_succ within, List.all_eq_true.mpr fun label member =>
        (octets label member).1⟩
    have small : ((Family.v4.labels value).take count).any
        (fun octet => 255 < readDigits 10 octet) = false := by
      rw [List.any_eq_false]
      intro label member
      simpa using (octets label member).2
    simp only [reverseZoneNetwork, Family.toLowerCase_zoneAt, Family.dropFinalDot_zoneAt,
      own, shaped, if_true, List.reverse_reverse, small, Bool.false_eq_true, if_false, length]
    have written := congrArg (fun labels => dotted labels ++ '/' :: Nat.toDigits 10 (8 * count))
      labels.symm
    rw [Nat.mul_comm count]
    exact congrArg some written
  | v6 =>
    have own : arpaLabels ip6Arpa (Family.v6.zoneAt value count) =
        some ((Family.v6.labels value).take count).reverse := by
      rw [Family.zoneAt]
      exact arpaLabels_append.trans (congrArg some cut)
    have other : arpaLabels inAddrArpa (Family.v6.zoneAt value count) = none := by
      rw [arpaLabels, endsWith_eq_false (endsWith_zoneAt .v6 value count) (by decide)]
      rfl
    have shaped : (((Family.v6.labels value).take count).reverse.length ≤ 32 &&
        ((Family.v6.labels value).take count).reverse.all
          (fun label => label.length = 1 && label.all isHexDigit)) = true := by
      rw [List.length_reverse, length, Bool.and_eq_true, decide_eq_true_eq, List.all_reverse]
      refine ⟨within.le, List.all_eq_true.mpr fun label member => ?_⟩
      simpa using isNibble_of_mem_labels_v6 label (List.mem_of_mem_take member)
    have padded : (Family.v6.labels value).take count ++ List.replicate (32 - count) ['0'] =
        Family.v6.labels networkBig := labels.symm
    have read := parseNetwork_cidr ⟨.v6, networkBig, 4 * count, prefix_le, aligned, netFits,
      netUnmapped⟩
    have back := addressAt_value ⟨.v6, networkBig, netFits, netUnmapped⟩
    rw [Network.cidr, parseNetwork_networkText netFits] at read
    simp only [reverseZoneNetwork, Family.toLowerCase_zoneAt, Family.dropFinalDot_zoneAt, own,
      other, shaped, if_true, List.reverse_reverse, length, padded, readDigits_labels_v6 netFits,
      Nat.mul_comm count, read, Option.map_some, back]
    rfl

end Dns

/-! ## Candidates and reverse names -/

theorem parseIp_of_addressToBig {text : Text} {addr : Addr} (read : addressToBig text = some addr) :
    parseIp text { zoneId := false } = some ⟨addr.value, addr.family.bits, none⟩ := by
  obtain ⟨parsed, done, made⟩ := Option.bind_eq_some_iff.mp read
  obtain rfl := Option.some.inj made
  obtain ⟨withZones, noZone⟩ := parseIp_of_noZone done
  obtain ⟨value, bits, zone⟩ := parsed
  subst noZone
  rw [done]
  rcases parseIp_bounds withZones with ⟨four, fits⟩ | ⟨six, fits, unmapped⟩
  · dsimp only at four fits ⊢
    subst four
    have back := addressAt_value ⟨.v4, value, fits, by simp⟩
    simp [back, Family.bits]
  · dsimp only at six fits unmapped ⊢
    subst six
    have back := addressAt_value ⟨.v6, value, fits, fun _ => unmapped⟩
    simp [back, Family.bits, ipv6Bits, ipv4Bits]

namespace Dns

/-- A zone that may hold the `PTR` of an address, and the record there. -/
def candidateAt (addr : Addr) (count : Nat) : PtrCandidate :=
  ⟨addr.family.zoneAt addr.value count, addr.family.recordAt addr.value count⟩

/-- **The candidates of an address are its cuts into a zone and a record.** -/
theorem mem_reversePtrCandidates {text : Text} {candidate : PtrCandidate} :
    candidate ∈ reversePtrCandidates text ↔ ∃ addr, addressToBig text = some addr ∧
      ∃ count, 1 ≤ count ∧ count < addr.family.labelCount ∧ candidate = candidateAt addr count := by
  cases read : addressToBig text with
  | none =>
    have unread : parseIp text { zoneId := false } = none := by
      cases parsed : parseIp text { zoneId := false } with
      | none => rfl
      | some parsed' => simp [addressToBig, parsed] at read
    simp [reversePtrCandidates, unread]
  | some addr =>
    have parsed := parseIp_of_addressToBig read
    simp only [reversePtrCandidates, parsed, Option.some.injEq, exists_eq_left']
    obtain ⟨family, value, fits, unmapped⟩ := addr
    cases family with
    | v4 =>
      simp only [Family.bits, if_true]
      rw [List.mem_map]
      constructor
      · rintro ⟨count, member, rfl⟩
        refine ⟨count, ?_, ?_, rfl⟩ <;> fin_cases member <;> decide
      · rintro ⟨count, some', within, rfl⟩
        have within' : count < 4 := within
        refine ⟨count, ?_, rfl⟩
        interval_cases count <;> decide
    | v6 =>
      have notFour : Family.v6.bits ≠ ipv4Bits := by decide
      rw [if_neg notFour, List.mem_map]
      constructor
      · rintro ⟨i, member, rfl⟩
        have below := List.mem_range.mp member
        have within : 31 - i < 32 := by omega
        exact ⟨31 - i, by omega, within, rfl⟩
      · rintro ⟨count, some', within, rfl⟩
        have within' : count < 32 := within
        refine ⟨31 - count, List.mem_range.mpr (by omega), ?_⟩
        have same : 31 - (31 - count) = count := by omega
        rw [same]
        rfl

theorem parseNetwork_host {text : Text} {addr : Addr} (read : addressToBig text = some addr) :
    ∃ net, parseNetwork (text ++ '/' :: Nat.toDigits 10 (if ':' ∈ text then 128 else 32)) = some net
      ∧ net.family = addr.family ∧ net.networkBig = addr.value := by
  obtain ⟨net, host⟩ := exists_networkOf (le_refl addr.family.bits)
  obtain ⟨-, family, -, base⟩ := networkOf_eq_some host
  refine ⟨net, ?_, family, by simpa using base⟩
  obtain ⟨prefixPart, addressPart⟩ := takeWhile_reverse_of_not_mem text
    (slash_not_mem_decimal (if ':' ∈ text then 128 else 32))
  have slash : '/' ∈ text ++ '/' :: Nat.toDigits 10 (if ':' ∈ text then 128 else 32) := by simp
  have digits : ∀ n, (Nat.toDigits 10 n).all Char.isDigit = true := fun n =>
    List.all_eq_true.mpr fun c member => isDigit_of_mem_decimal member
  have plain : ∀ n, ':' ∉ Nat.toDigits 10 n := fun n member =>
    absurd (isDigit_of_mem_decimal member) (by decide)
  have filled : text ≠ [] := by
    rintro rfl
    cases read
  have number : ∀ n, readDigits 10 (Nat.toDigits 10 n) = n :=
    readDigits_toDigits (by decide) (by decide)
  rw [parseNetwork, if_pos slash, prefixPart, addressPart]
  simp only [readNetwork, filled, Nat.toDigits_ne_nil, digits, decide_false, Bool.or_self,
    Bool.not_true, Bool.false_eq_true, if_false, read, Option.bind_eq_bind, Option.bind_some,
    number, List.mem_append, List.mem_cons, plain, or_false]
  cases four : addr.family with
  | v4 =>
    have host' : networkOf addr 32 = some net := by rwa [four] at host
    by_cases colon : ':' ∈ text <;> simpa [colon] using host'
  | v6 =>
    have host' : networkOf addr 128 = some net := by rwa [four] at host
    have colon : ':' ∈ text := by
      refine colon_mem_of_parseIp (parseIp_of_addressToBig read) ?_
      rw [four]
      rfl
    simpa [colon] using host'

theorem parseNetwork_host_none {text : Text} (unread : addressToBig text = none) (n : Nat) :
    parseNetwork (text ++ '/' :: Nat.toDigits 10 n) = none := by
  obtain ⟨prefixPart, addressPart⟩ := takeWhile_reverse_of_not_mem text (slash_not_mem_decimal n)
  rw [parseNetwork, if_pos (by simp), prefixPart, addressPart, readNetwork, unread]
  simp

/-- **The reverse name of an address is all of its labels.** -/
theorem reverseNameOf_eq (text : Text) : reverseNameOf text = (addressToBig text).map fun addr =>
    dotted (addr.family.labels addr.value).reverse ++ addr.family.arpa := by
  cases read : addressToBig text with
  | none =>
    rw [reverseNameOf, parseNetwork_host_none read]
    rfl
  | some addr =>
    obtain ⟨net, parsed, family, base⟩ := parseNetwork_host read
    rw [reverseNameOf, parsed, Option.map_some, Option.map_some, family, base]
    cases addr.family <;> rfl

/-! ## The round trip -/

theorem candidateAt_joined {addr : Addr} {count : Nat} (some' : 1 ≤ count)
    (within : count < addr.family.labelCount) :
    (candidateAt addr count).ptrName ++ '.' :: (candidateAt addr count).name =
      dotted (addr.family.labels addr.value).reverse ++ addr.family.arpa := by
  have length := addr.family.length_labels addr.value
  have high : ((addr.family.labels addr.value).take count).reverse ≠ [] := fun empty => by
    have none := congrArg List.length empty
    rw [List.length_reverse, List.length_take, length, List.length_nil] at none
    omega
  have low : ((addr.family.labels addr.value).drop count).reverse ≠ [] := fun empty => by
    have none := congrArg List.length empty
    rw [List.length_reverse, List.length_drop, length, List.length_nil] at none
    omega
  rw [← List.take_append_drop count (addr.family.labels addr.value), List.reverse_append,
    dotted_append low high, List.append_assoc]
  rfl

theorem candidateAt_network {addr : Addr} {count : Nat} (some' : 1 ≤ count)
    (within : count < addr.family.labelCount) :
    ∃ net : Network, reverseZoneNetwork (candidateAt addr count).name = some net.cidr ∧
      net.contains addr = true := by
  obtain ⟨net, family, prefixLen, base⟩ := exists_block within.le
  refine ⟨net, reverseZoneNetwork_zoneAt some' within family prefixLen base, ?_⟩
  refine contains_of_block family ?_ base
  rw [Network.bits, prefixLen, family, ← addr.family.labelWidth_mul_labelCount, ← Nat.mul_sub]

/-- A reverse name is cut into a record and a zone at one of its dots. -/
theorem exists_candidateAt {addr : Addr} {recordName zoneName : Text}
    (ends : endsWith zoneName addr.family.arpa = true)
    (joined : dotted (addr.family.labels addr.value).reverse ++ addr.family.arpa =
      recordName ++ '.' :: zoneName) :
    ∃ count, 1 ≤ count ∧ count < addr.family.labelCount ∧
      candidateAt addr count = ⟨zoneName, recordName⟩ := by
  obtain ⟨front, rfl⟩ := endsWith_iff.mp ends
  have whole : dotted (addr.family.labels addr.value).reverse = recordName ++ '.' :: front := by
    rw [← List.cons_append, ← List.append_assoc] at joined
    exact List.append_cancel_right joined
  have all : ∀ label ∈ (addr.family.labels addr.value).reverse, IsLabel label := fun label member =>
    Family.isLabel_of_mem_labels label (List.mem_reverse.mp member)
  have filled : (addr.family.labels addr.value).reverse ≠ [] := fun empty => by
    have none := congrArg List.length empty
    rw [List.length_reverse, Family.length_labels] at none
    cases four : addr.family <;> rw [four] at none <;> cases none
  have cut : (addr.family.labels addr.value).reverse = recordName.splitOn '.' ++
      front.splitOn '.' := by
    rw [← splitOn_dotted all filled, whole, List.splitOn_append_cons_self]
  have length := congrArg List.length cut
  rw [List.length_reverse, Family.length_labels, List.length_append] at length
  have records := List.length_pos_iff.mpr (List.splitOn_ne_nil '.' recordName)
  have zones := List.length_pos_iff.mpr (List.splitOn_ne_nil '.' front)
  have labels : addr.family.labels addr.value =
      (front.splitOn '.').reverse ++ (recordName.splitOn '.').reverse := by
    rw [← List.reverse_append, ← cut, List.reverse_reverse]
  refine ⟨(front.splitOn '.').length, zones, by omega, ?_⟩
  have taken : ((addr.family.labels addr.value).take (front.splitOn '.').length).reverse =
      front.splitOn '.' := by
    rw [labels, List.take_left' (List.length_reverse), List.reverse_reverse]
  have dropped : ((addr.family.labels addr.value).drop (front.splitOn '.').length).reverse =
      recordName.splitOn '.' := by
    rw [labels, List.drop_left' (List.length_reverse), List.reverse_reverse]
  rw [candidateAt, Family.zoneAt, Family.recordAt, taken, dropped, dotted, dotted,
    List.intercalate_splitOn, List.intercalate_splitOn]

theorem endsWith_arpa_of_joined {family : Family} {front recordName zoneName : Text}
    (ends : endsWith zoneName inAddrArpa = true ∨ endsWith zoneName ip6Arpa = true)
    (joined : front ++ family.arpa = recordName ++ '.' :: zoneName) :
    endsWith zoneName family.arpa = true := by
  have whole : endsWith (recordName ++ '.' :: zoneName) family.arpa = true :=
    endsWith_iff.mpr ⟨front, joined.symm⟩
  have longer : ∀ {ending : Text}, endsWith zoneName ending = true →
      endsWith (recordName ++ '.' :: zoneName) ending = true := fun tail => by
    obtain ⟨before, rfl⟩ := endsWith_iff.mp tail
    exact endsWith_iff.mpr ⟨recordName ++ '.' :: before, by simp⟩
  cases family with
  | v4 =>
    rcases ends with four | six
    · exact four
    · rw [endsWith_eq_false (longer six) (by decide)] at whole
      cases whole
  | v6 =>
    rcases ends with four | six
    · rw [endsWith_eq_false (longer four) (by decide)] at whole
      cases whole
    · exact six

/-- **Names in reverse zones round-trip.** A candidate of an address reads as the address,
makes up its reverse name, and its zone covers a network that holds it. What reads as an
address is a candidate of it exactly when it is its reverse name, cut in front of a zone. -/
theorem ptr_names_round_trip :
    (∀ text, ∀ candidate ∈ reversePtrCandidates text, ∃ addr ip cidr net,
      addressToBig text = some addr ∧ canonicalizeIp text = some ip ∧
      ipForPtrRecord candidate.ptrName candidate.name = some ip ∧
      reverseNameOf text = some (candidate.ptrName ++ '.' :: candidate.name) ∧
      reverseZoneNetwork candidate.name = some cidr ∧ parseNetwork cidr = some net ∧
      net.contains addr = true) ∧
    ∀ recordName zoneName ip, ipForPtrRecord recordName zoneName = some ip →
      ((∃ candidate ∈ reversePtrCandidates ip,
          candidate.name = zoneName ∧ candidate.ptrName = recordName) ↔
        (endsWith zoneName inAddrArpa = true ∨ endsWith zoneName ip6Arpa = true) ∧
          reverseNameOf ip = some (recordName ++ '.' :: zoneName)) := by
  constructor
  · intro text candidate member
    obtain ⟨addr, read, count, some', within, rfl⟩ := mem_reversePtrCandidates.mp member
    obtain ⟨net, covered, holds⟩ := candidateAt_network some' within
    have canonical := canonicalizeIp_eq (parseIp_of_noZone (parseIp_of_addressToBig read)).1
    refine ⟨addr, addr.text, net.cidr, net, read, canonical, ipForPtrRecord_recordAt addr count, ?_,
      covered, parseNetwork_cidr net, holds⟩
    rw [reverseNameOf_eq, read, Option.map_some, candidateAt_joined some' within]
  · intro recordName zoneName ip _
    rw [reverseNameOf_eq]
    constructor
    · rintro ⟨candidate, member, rfl, rfl⟩
      obtain ⟨addr, read, count, some', within, rfl⟩ := mem_reversePtrCandidates.mp member
      have ends := endsWith_zoneAt addr.family addr.value count
      rw [read, Option.map_some, candidateAt_joined some' within]
      refine ⟨?_, rfl⟩
      cases four : addr.family with
      | v4 =>
        rw [four] at ends
        exact .inl (by rw [candidateAt, four]; exact ends)
      | v6 =>
        rw [four] at ends
        exact .inr (by rw [candidateAt, four]; exact ends)
    · rintro ⟨ends, named⟩
      obtain ⟨addr, read, joined⟩ := Option.map_eq_some_iff.mp named
      have own := endsWith_arpa_of_joined ends joined
      obtain ⟨count, some', within, same⟩ := exists_candidateAt own joined
      exact ⟨candidateAt addr count, mem_reversePtrCandidates.mpr ⟨addr, read, count, some',
        within, rfl⟩,
        congrArg PtrCandidate.name same, congrArg PtrCandidate.ptrName same⟩

theorem ptr_names_round_trip_office :
    (∃ addr ip cidr net, addressToBig "10.0.1.5".toList = some addr ∧
      canonicalizeIp "10.0.1.5".toList = some ip ∧
      ipForPtrRecord "5".toList "1.0.10.in-addr.arpa".toList = some ip ∧
      reverseNameOf "10.0.1.5".toList = some ("5".toList ++ '.' :: "1.0.10.in-addr.arpa".toList) ∧
      reverseZoneNetwork "1.0.10.in-addr.arpa".toList = some cidr ∧ parseNetwork cidr = some net ∧
      net.contains addr = true) ∧
    ((∃ candidate ∈ reversePtrCandidates "10.0.1.5".toList,
        candidate.name = "1.0.10.in-addr.arpa".toList ∧ candidate.ptrName = "5".toList) ↔
      (endsWith "1.0.10.in-addr.arpa".toList inAddrArpa = true ∨
          endsWith "1.0.10.in-addr.arpa".toList ip6Arpa = true) ∧
        reverseNameOf "10.0.1.5".toList =
        some ("5".toList ++ '.' :: "1.0.10.in-addr.arpa".toList)) :=
  ⟨ptr_names_round_trip.1 "10.0.1.5".toList ⟨"1.0.10.in-addr.arpa".toList, "5".toList⟩ (by decide),
    ptr_names_round_trip.2 "5".toList "1.0.10.in-addr.arpa".toList "10.0.1.5".toList (by decide)⟩

/-- An octet with a leading zero reads as an address whose candidates are spelled otherwise. -/
theorem padded_octet_is_no_candidate : ¬ ∀ recordName zoneName ip,
    toLowerCase recordName = recordName → toLowerCase zoneName = zoneName →
    ipForPtrRecord recordName zoneName = some ip →
    ∃ candidate ∈ reversePtrCandidates ip, candidate.name = zoneName ∧
    candidate.ptrName = recordName := by
  intro always
  have named := always "05".toList "1.0.10.in-addr.arpa".toList "10.0.1.05".toList
    (by decide) (by decide) (by decide)
  exact absurd named (by decide)

/-! ## The zones of a network -/

/-- The zones made for a network serve it: every address in it has its `PTR` in one of them,
no zone is made twice, and each covers some of the network. -/
structure ZonesCover (net : Network) : Prop where
  covers : ∀ text addr, addressToBig text = some addr → net.contains addr = true →
    ∃ candidate ∈ reversePtrCandidates text, candidate.name ∈ generateReverseNames net
  distinct : (generateReverseNames net).Nodup
  touches : ∀ name ∈ generateReverseNames net, ∃ cidr covered,
    reverseZoneNetwork name = some cidr ∧ parseNetwork cidr = some covered ∧
    covered.overlaps net = true

theorem take_labels_of_zoneAt_eq {family : Family} {left right m n : Nat} (some' : 1 ≤ m)
    (others : 1 ≤ n) (same : family.zoneAt left m = family.zoneAt right n) :
    (family.labels left).take m = (family.labels right).take n := by
  have filled : ∀ {value count}, 1 ≤ count → ((family.labels value).take count).reverse ≠ [] := by
    intro value count positive empty
    have length := congrArg List.length empty
    have labels : 0 < family.labelCount := by cases family <;> decide
    rw [List.length_reverse, List.length_take, Family.length_labels, List.length_nil] at length
    omega
  have cut := congrArg (List.splitOn '.') (List.append_cancel_right same)
  rw [splitOn_dotted Family.isLabel_of_mem_take (filled some'),
    splitOn_dotted Family.isLabel_of_mem_take (filled others)] at cut
  exact List.reverse_injective cut

theorem zoneAt_congr {family : Family} {left right count : Nat} (within : count ≤ family.labelCount)
    (same : left / 2 ^ (family.labelWidth * (family.labelCount - count)) =
      right / 2 ^ (family.labelWidth * (family.labelCount - count))) :
    family.zoneAt left count = family.zoneAt right count := by
  have labels :=
    (Family.take_labels_eq_iff within).mpr (congrArg (· % 2 ^ (family.labelWidth * count)) same)
  rw [Family.zoneAt, Family.zoneAt, labels]

/-- The third octet of a network with a prefix of 17 to 23 bits, counted up, gives the
blocks of 256 addresses inside it. -/
theorem octets_of_block {base prefixLen i : Nat} (least : 17 ≤ prefixLen) (most : prefixLen ≤ 23)
    (aligned : 2 ^ (32 - prefixLen) ∣ base) (below : i < 2 ^ (24 - prefixLen)) :
    (groups 8 4 base).take 2 ++ [(groups 8 4 base).getD 2 0 + i] =
    (groups 8 4 (base + 256 * i)).take 3 := by
  obtain ⟨block, rfl⟩ := aligned
  simp only [groups, List.take_succ_cons, List.take_zero, List.getD_cons_succ, List.getD_cons_zero,
    List.cons_append, List.nil_append, Nat.shiftRight_eq_div_pow, List.cons.injEq, and_true]
  interval_cases prefixLen <;> norm_num at * <;> omega

theorem generateReverseNames_v4 {net : Network} (four : net.family = .v4) :
    generateReverseNames net =
      if 24 ≤ net.prefixLen then [Family.v4.zoneAt net.networkBig 3]
      else if 17 ≤ net.prefixLen then
        (List.range (2 ^ (24 - net.prefixLen))).map fun i => Family.v4.zoneAt
          (net.networkBig + 256 * i) 3
      else if 16 ≤ net.prefixLen then [Family.v4.zoneAt net.networkBig 2]
      else if 8 ≤ net.prefixLen then [Family.v4.zoneAt net.networkBig 1]
      else [Family.v4.zoneAt net.networkBig 3] := by
  have zone : ∀ value count, dotted (((groups 8 4 value).take count).reverse.map (Nat.toDigits 10))
      ++ inAddrArpa = Family.v4.zoneAt value count := fun value count => by
    rw [Family.zoneAt, Family.labels, ← List.map_take, ← List.map_reverse]
    rfl
  have aligned := net.aligned
  rw [generateReverseNames, four]
  rw [four] at aligned
  dsimp only
  simp only [zone]
  split
  · rfl
  · split
    · refine List.map_congr_left fun i member => ?_
      rw [octets_of_block (by omega) (by omega) aligned (List.mem_range.mp member), zone]
    · rfl

theorem generateReverseNames_v6 {net : Network} (six : net.family = .v6) :
    generateReverseNames net =
      [Family.v6.zoneAt net.networkBig (min 31 (max 1 (net.prefixLen / 4)))] := by
  rw [generateReverseNames, six]
  rfl

theorem zoneAt_touches {net : Network} {addr : Addr} {count : Nat}
    (inside : net.contains addr = true) (some' : 1 ≤ count)
    (within : count < addr.family.labelCount) :
    ∃ cidr covered, reverseZoneNetwork (addr.family.zoneAt addr.value count) = some cidr ∧
      parseNetwork cidr = some covered ∧ covered.overlaps net = true := by
  obtain ⟨covered, named, holds⟩ := @candidateAt_network addr count some' within
  refine ⟨covered.cidr, covered, named, parseNetwork_cidr covered, ?_⟩
  by_contra apart
  exact Network.not_contains_of_overlaps (Bool.eq_false_iff.mpr apart) holds inside

theorem zoneAt_mem_candidates {text : Text} {addr : Addr} {count : Nat} {names : List Text}
    (read : addressToBig text = some addr) (some' : 1 ≤ count)
    (within : count < addr.family.labelCount)
    (named : addr.family.zoneAt addr.value count ∈ names) :
    ∃ candidate ∈ reversePtrCandidates text, candidate.name ∈ names :=
  ⟨candidateAt addr count, mem_reversePtrCandidates.mpr ⟨addr, read, count, some', within, rfl⟩,
    named⟩

theorem zonesCover_of_single {net : Network} {count : Nat} (some' : 1 ≤ count)
    (within : count < net.family.labelCount) (fine : net.family.labelWidth * count ≤ net.prefixLen)
    (zones : generateReverseNames net = [net.family.zoneAt net.networkBig count]) :
    ZonesCover net := by
  have wider : net.host ≤ net.family.labelWidth * (net.family.labelCount - count) := by
    have bits := net.family.labelWidth_mul_labelCount
    rw [Network.host, Network.bits, ← bits, Nat.mul_sub]
    omega
  refine ⟨fun text addr read inside => ?_, ?_, fun name member => ?_⟩
  · obtain ⟨family, top⟩ := Network.contains_iff_top_bits.mp inside
    refine zoneAt_mem_candidates read some' (family ▸ within) ?_
    rw [zones, List.mem_singleton, family]
    exact zoneAt_congr within.le (div_two_pow_eq_of_le wider top)
  · rw [zones]
    exact List.nodup_singleton _
  · rw [zones, List.mem_singleton] at member
    have touched := zoneAt_touches net.contains_networkAddr some' within
    rw [member]
    exact touched

/-- A zone for each block of 256 addresses serves the network. -/
theorem zonesCover_of_blocks {net : Network} (four : net.family = .v4) (least : 17 ≤ net.prefixLen)
    (most : net.prefixLen ≤ 23) : ZonesCover net := by
  have zones := generateReverseNames_v4 four
  rw [if_neg (by omega), if_pos least] at zones
  have bits : net.bits = 32 := by rw [Network.bits, four]; rfl
  have size : net.sizeBig = 256 * 2 ^ (24 - net.prefixLen) := by
    have split : net.bits - net.prefixLen = 8 + (24 - net.prefixLen) := by omega
    rw [Network.sizeBig, split, pow_add]
    norm_num
  have last := net.lastBig_eq
  have below := net.lastBig_lt
  have aligned : 256 ∣ net.networkBig := by
    have whole := net.aligned
    exact (Dvd.intro _ size.symm).trans whole
  rw [size] at last
  rw [bits] at below
  have positive := Nat.two_pow_pos (24 - net.prefixLen)
  generalize 2 ^ (24 - net.prefixLen) = blocks at zones last positive
  refine ⟨fun text addr read inside => ?_, ?_, fun name member => ?_⟩
  · obtain ⟨family, low, high⟩ := Network.contains_iff.mp inside
    rw [four] at family
    refine zoneAt_mem_candidates read (Nat.succ_le_succ (Nat.zero_le 2)) (by rw [family]; decide) ?_
    rw [zones, List.mem_map, family]
    refine ⟨(addr.value - net.networkBig) / 256, List.mem_range.mpr (by omega), ?_⟩
    refine zoneAt_congr (by decide) ?_
    have same : (net.networkBig + 256 * ((addr.value - net.networkBig) / 256)) / 256 =
        addr.value / 256 := by
      omega
    exact same
  · rw [zones]
    refine List.Nodup.map_on (fun i first j second same => ?_) List.nodup_range
    have labels := take_labels_of_zoneAt_eq (by decide) (by decide) same
    have tops : (net.networkBig + 256 * i) / 256 % 2 ^ 24 = (net.networkBig + 256 * j) /
        256 % 2 ^ 24 :=
      (Family.take_labels_eq_iff (by decide)).mp labels
    rw [List.mem_range] at first second
    omega
  · rw [zones, List.mem_map] at member
    obtain ⟨i, listed, rfl⟩ := member
    rw [List.mem_range] at listed
    let first : Addr := ⟨.v4, net.networkBig + 256 * i, lt_of_le_of_lt (by omega) below, by simp⟩
    have start : net.contains first = true :=
      Network.contains_iff.mpr ⟨four.symm, Nat.le_add_right _ _, show net.networkBig + 256 *
        i ≤ _ by omega⟩
    have within : 3 < first.family.labelCount := show 3 < Family.v4.labelCount by decide
    have touched := @zoneAt_touches net first 3 start (by decide) within
    exact touched

theorem not_zonesCover_of_single {net : Network} {addr : Addr} {count : Nat} (some' : 1 ≤ count)
    (within : count < net.family.labelCount)
    (zones : generateReverseNames net = [net.family.zoneAt net.networkBig count])
    (inside : net.contains addr = true)
    (other : (net.family.labels addr.value).take count ≠
    (net.family.labels net.networkBig).take count) :
    ¬ZonesCover net := by
  intro serves
  obtain ⟨candidate, member, named⟩ := serves.covers addr.text addr (addressToBig_text addr) inside
  obtain ⟨found, read, length, positive, below, rfl⟩ := mem_reversePtrCandidates.mp member
  obtain rfl := Option.some.inj ((addressToBig_text addr).symm.trans read)
  obtain ⟨family, -⟩ := Network.contains_iff.mp inside
  rw [zones, List.mem_singleton] at named
  rw [family] at below
  have same : net.family.zoneAt addr.value length = net.family.zoneAt net.networkBig count := by
    rw [← family]
    rw [← family] at named
    exact named
  have labels := take_labels_of_zoneAt_eq positive some' same
  have lengths := congrArg List.length labels
  rw [List.length_take, List.length_take, Family.length_labels, Family.length_labels,
    Nat.min_eq_left below.le, Nat.min_eq_left within.le] at lengths
  subst lengths
  exact other labels

theorem exists_contains_offset {net : Network} {offset : Nat} (fits : offset < net.sizeBig)
    (unmapped : net.family = .v6 → (net.networkBig + offset) / 2 ^ 32 ≠ 0xffff) :
    ∃ addr, net.contains addr = true ∧ addr.value = net.networkBig + offset := by
  have last := net.lastBig_eq
  have below := net.lastBig_lt
  refine ⟨⟨net.family, net.networkBig + offset, lt_of_le_of_lt (by omega) below, unmapped⟩, ?_, rfl⟩
  exact Network.contains_iff.mpr
    ⟨rfl, Nat.le_add_right _ _, show net.networkBig + offset ≤ _ by omega⟩

/-- A prefix that ends inside the first label leaves other first labels in the network. -/
theorem not_zonesCover_of_short {net : Network} (short : net.prefixLen < net.family.labelWidth) :
    ¬ZonesCover net := by
  have below := net.lastBig_lt
  have last := net.lastBig_eq
  cases family : net.family with
  | v4 =>
    have zones := generateReverseNames_v4 family
    rw [family] at short
    have short' : net.prefixLen < 8 := short
    rw [if_neg (by omega), if_neg (by omega), if_neg (by omega),
      if_neg (by omega), ← family] at zones
    have bits : net.bits = 32 := by rw [Network.bits, family]; rfl
    have large : 2 ^ 25 ≤ net.sizeBig := Nat.pow_le_pow_right (by decide) (by omega)
    obtain ⟨addr, inside, value⟩ := exists_contains_offset (show 256 < net.sizeBig by omega)
      (by rw [family]; simp)
    refine not_zonesCover_of_single (by decide) (by rw [family]; decide) zones inside fun same => ?_
    rw [family, value] at same
    have tops : (net.networkBig + 256) / 256 % 2 ^ 24 = net.networkBig / 256 % 2 ^ 24 :=
      (Family.take_labels_eq_iff (by decide)).mp same
    rw [bits] at below
    omega
  | v6 =>
    have zones := generateReverseNames_v6 family
    rw [family] at short
    have short' : net.prefixLen < 4 := short
    have one : min 31 (max 1 (net.prefixLen / 4)) = 1 := by omega
    rw [one, ← family] at zones
    have bits : net.bits = 128 := by rw [Network.bits, family]; rfl
    have large : 2 ^ 125 ≤ net.sizeBig := Nat.pow_le_pow_right (by decide) (by omega)
    obtain ⟨addr, inside, value⟩ := exists_contains_offset (show 2 ^ 124 < net.sizeBig by omega)
      (fun _ => by omega)
    refine not_zonesCover_of_single le_rfl (by rw [family]; decide) zones inside fun same => ?_
    rw [family, value] at same
    have tops : (net.networkBig + 2 ^ 124) / 2 ^ 124 % 2 ^ 4 = net.networkBig / 2 ^ 124 % 2 ^ 4 :=
      (Family.take_labels_eq_iff (by decide)).mp same
    rw [bits] at below
    omega

/-- **The zones made for a network serve it exactly when its prefix reaches the first label.**
Of a shorter prefix the zone that is made names one block of many. -/
theorem generated_zones_cover_iff (net : Network) :
    ZonesCover net ↔ net.family.labelWidth ≤ net.prefixLen := by
  constructor
  · intro serves
    by_contra short
    exact not_zonesCover_of_short (Nat.lt_of_not_le short) serves
  · intro fine
    cases family : net.family with
    | v4 =>
      have zones := generateReverseNames_v4 family
      rw [family] at fine
      have fine' : 8 ≤ net.prefixLen := fine
      rw [← family] at zones
      by_cases host : 24 ≤ net.prefixLen
      · rw [if_pos host] at zones
        exact zonesCover_of_single (by decide) (by rw [family]; decide)
          (by rw [family]; exact host) zones
      · by_cases blocks : 17 ≤ net.prefixLen
        · exact zonesCover_of_blocks family blocks (by omega)
        · rw [if_neg host, if_neg blocks] at zones
          by_cases two : 16 ≤ net.prefixLen
          · rw [if_pos two] at zones
            exact zonesCover_of_single (by decide) (by rw [family]; decide)
              (by rw [family]; exact two) zones
          · rw [if_neg two, if_pos fine'] at zones
            exact zonesCover_of_single (by decide) (by rw [family]; decide)
              (by rw [family]; exact fine') zones
    | v6 =>
      have zones := generateReverseNames_v6 family
      have within := net.prefix_le
      rw [family] at fine within
      have fine' : 4 ≤ net.prefixLen := fine
      have within' : net.prefixLen ≤ 128 := within
      rw [← family] at zones
      refine zonesCover_of_single (by omega) ?_ ?_ zones
      · rw [family]
        exact Nat.lt_of_le_of_lt (Nat.min_le_left 31 _) (by decide)
      · rw [family]
        show 4 * min 31 (max 1 (net.prefixLen / 4)) ≤ net.prefixLen
        omega

/-- The zone made for `8.0.0.0/7` names one `/24`, and `9.0.0.1` lies elsewhere in it. -/
theorem short_prefix_is_not_covered : ¬ ∀ cidr net, parseNetwork cidr = some net →
    ZonesCover net := by
  intro always
  have serves :=
    always "8.0.0.0/7".toList ⟨.v4, 8 * 2 ^ 24, 7, by decide, by decide, by decide, by decide⟩
      (by decide)
  have served := serves.covers "9.0.0.1".toList ⟨.v4, 9 * 2 ^ 24 + 1, by decide, by decide⟩
    (by decide) (by decide)
  exact absurd served (by decide)

end Dns

end Cidrella
