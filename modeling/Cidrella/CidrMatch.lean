import Cidrella.Network

/-!
# Allowlist entries

`utils/cidr-match.js`. An entry of the allowlist is an address or a CIDR block, and it is
stored in the spelling `canonicalizeIpOrCidr` gives it, so that a unique text is a unique set
of addresses. Parsing is stricter than elsewhere: zones, IPv4-mapped addresses and embedded
dotted quads are refused.

An entry matches the addresses that agree with it above the host bits. The entry read from
the canonical text is the one it was written from (`parseCidrEntry_formatCidrEntry`), and the
block it matches determines its width, its prefix and its network (`blocks_ext`); so texts
with one canonical spelling are the texts of one set (`canonical_iff_same_matches`).
-/

set_option autoImplicit false

namespace Cidrella

namespace CidrMatch

open Address Text

/-- `STRICT`. -/
def strict : ParseOptions := { zoneId := false, mapV4 := false, embeddedV4 := false }

/-- `ipToBigInt`: the value and the width. -/
def ipToBigInt (ip : Text) : Option (Nat × Nat) :=
  (parseIp ip strict).map fun parsed => (parsed.value, parsed.bits)

/-- What `parseCidrEntry` returns. -/
structure CidrEntry where
  bits : Nat
  network : Nat
  mask : Nat
  prefixLen : Nat
  deriving DecidableEq, Repr

/-- The highest `prefixLen` of `bits` bits. -/
def maskFor (bits prefixLen : Nat) : Nat := (2 ^ bits - 1) ^^^ (2 ^ (bits - prefixLen) - 1)

/-- The entry of an address and a prefix. -/
def entryOf (value bits prefixLen : Nat) : CidrEntry where
  bits := bits
  network := value &&& maskFor bits prefixLen
  mask := maskFor bits prefixLen
  prefixLen := prefixLen

/-- `parseCidrEntry`. The prefix has the form of an octet: one to three digits. -/
def parseCidrEntry (entry : Text) : Option CidrEntry :=
  match (trim entry).splitOn '/' with
  | [address] => do
      let (value, bits) ← ipToBigInt address
      some (entryOf value bits bits)
  | [address, digits] => do
      let (value, bits) ← ipToBigInt address
      if !isOctet digits then none
      else if readDigits 10 digits > bits then none
      else some (entryOf value bits (readDigits 10 digits))
  | _ => none

/-- `formatCidrEntry`. -/
def formatCidrEntry (entry : CidrEntry) : Text :=
  formatIp entry.network entry.bits ++ '/' :: Nat.toDigits 10 entry.prefixLen

/-- `canonicalizeIpOrCidr`. -/
def canonicalizeIpOrCidr (value : Text) : Option Text := (parseCidrEntry value).map formatCidrEntry

/-- `ipMatchesEntry`. -/
def ipMatchesEntry (ip : Text) (entry : CidrEntry) : Bool :=
  match ipToBigInt ip with
  | none => false
  | some (value, bits) => bits = entry.bits && value &&& entry.mask = entry.network

/-! ## Masks -/

section
variable {bits prefixLen value : Nat}

theorem maskFor_eq_maskOf (within : prefixLen ≤ bits) : maskFor bits prefixLen = maskOf bits
    prefixLen := by
  refine Nat.eq_of_testBit_eq fun i => ?_
  rw [maskFor, Nat.testBit_xor, Nat.testBit_two_pow_sub_one, Nat.testBit_two_pow_sub_one,
    testBit_maskOf within]
  by_cases high : bits - prefixLen ≤ i
  · simp [high, Nat.not_lt.mpr high]
  · have low : i < bits - prefixLen := Nat.lt_of_not_le high
    have inside : i < bits := by omega
    simp [high, low, inside]

theorem and_maskFor (within : prefixLen ≤ bits) (fits : value < 2 ^ bits) :
    value &&& maskFor bits prefixLen = value / 2 ^ (bits - prefixLen) * 2 ^ (bits - prefixLen) := by
  rw [maskFor_eq_maskOf within, and_maskOf within fits]

end

/-- A block holds no larger block: two values of the larger one stand one step of the
smaller one apart. -/
theorem not_lt_of_same_block {bits left right host other : Nat} (otherLe : other ≤ bits)
    (rightFits : right < 2 ^ bits) (same : ∀ value < 2 ^ bits,
      value / 2 ^ host = left / 2 ^ host ↔ value / 2 ^ other = right / 2 ^ other) :
      ¬ host < other := by
  intro smaller
  have step : 2 ^ host < 2 ^ other := Nat.pow_lt_pow_right (by decide) smaller
  have positive : 0 < 2 ^ other := Nat.two_pow_pos other
  let first := right / 2 ^ other * 2 ^ other
  -- the whole block of `right` lies below the limit
  have room : first + 2 ^ other ≤ 2 ^ bits := by
    obtain ⟨count, whole⟩ := Nat.pow_dvd_pow 2 otherLe
    have below : right / 2 ^ other < count := Nat.div_lt_of_lt_mul (whole ▸ rightFits)
    calc first + 2 ^ other = (right / 2 ^ other + 1) * 2 ^ other := (Nat.succ_mul _ _).symm
      _ ≤ count * 2 ^ other := Nat.mul_le_mul_right _ below
      _ = 2 ^ bits := by rw [whole, Nat.mul_comm]
  have atFirst : first / 2 ^ other = right / 2 ^ other := Nat.mul_div_cancel _ positive
  have atNext : (first + 2 ^ host) / 2 ^ other = right / 2 ^ other := by
    rw [Nat.add_comm, Nat.add_mul_div_right _ _ positive, Nat.div_eq_of_lt step, Nat.zero_add]
  have inFirst := (same first (by omega)).mpr atFirst
  have inNext := (same (first + 2 ^ host) (by omega)).mpr atNext
  rw [Nat.add_div_right _ (Nat.two_pow_pos host), inFirst] at inNext
  omega

/-- **Blocks that hold the same values are the same block.** -/
theorem blocks_ext {bits left right host other : Nat} (hostLe : host ≤ bits)
    (otherLe : other ≤ bits) (leftFits : left < 2 ^ bits) (rightFits : right < 2 ^ bits)
    (same : ∀ value < 2 ^ bits, value / 2 ^ host = left / 2 ^ host ↔
    value / 2 ^ other = right / 2 ^ other) :
    host = other ∧ left / 2 ^ host = right / 2 ^ other := by
  have notSmaller := not_lt_of_same_block otherLe rightFits same
  have notLarger := not_lt_of_same_block hostLe leftFits fun value fits => (same value fits).symm
  obtain rfl : host = other := by omega
  exact ⟨rfl, (same left leftFits).mp rfl⟩

/-! ## Addresses, strictly -/

theorem ipToBigInt_bounds {ip : Text} {value bits : Nat}
    (read : ipToBigInt ip = some (value, bits)) :
    (bits = ipv4Bits ∨ bits = ipv6Bits) ∧ value < 2 ^ bits := by
  obtain ⟨parsed, done, rfl, rfl⟩ : ∃ parsed, parseIp ip strict = some parsed ∧
      parsed.value = value ∧ parsed.bits = bits := by
    rw [ipToBigInt, Option.map_eq_some_iff] at read
    obtain ⟨parsed, done, same⟩ := read
    exact ⟨parsed, done, (Prod.mk.inj same).1, (Prod.mk.inj same).2⟩
  simp only [parseIp, strict, Bool.not_false, Bool.true_or, Bool.and_true, Bool.false_and,
    Bool.false_eq_true, if_false, Bool.or_self] at done
  split at done
  · cases done
  · split at done
    · cases done
    · split at done
      · obtain ⟨value, six, rest⟩ := Option.bind_eq_some_iff.mp done
        obtain rfl := Option.some.inj rest
        exact ⟨.inr rfl, parseV6_lt six⟩
      · obtain ⟨value, four, rest⟩ := Option.bind_eq_some_iff.mp done
        obtain rfl := Option.some.inj rest
        exact ⟨.inl rfl, parseV4_lt four⟩

theorem ipToBigInt_formatIp {value bits : Nat} (width : bits = ipv4Bits ∨ bits = ipv6Bits)
    (fits : value < 2 ^ bits) : ipToBigInt (formatIp value bits) = some (value, bits) := by
  have plain : ∀ c ∈ formatIp value bits, isPlain c = true := isPlain_of_mem_formatIp
  rcases width with rfl | rfl
  · simp only [ipToBigInt, parseIp, strict, trim_of_isPlain plain, formatIp_ne_nil, if_false,
      splitZone_of_isPlain plain, Option.isSome_none, Bool.false_and, Bool.false_eq_true,
        colon_not_mem_quad]
    rw [formatIp, if_pos rfl, parseV4_quad, Nat.mod_eq_of_lt (show value < 2 ^ 32 from fits)]
    rfl
  · simp only [ipToBigInt, parseIp, strict, trim_of_isPlain plain, formatIp_ne_nil, if_false,
      splitZone_of_isPlain plain, Option.isSome_none, Bool.false_and, Bool.false_eq_true,
        colon_mem_formatIp,
      if_true, parseV6_formatIp fits]
    rfl

/-! ## Entries -/

/-- An entry whose network has no host bits. -/
structure CidrEntry.Normal (entry : CidrEntry) : Prop where
  width : entry.bits = ipv4Bits ∨ entry.bits = ipv6Bits
  within : entry.prefixLen ≤ entry.bits
  fits : entry.network < 2 ^ entry.bits
  same : entryOf entry.network entry.bits entry.prefixLen = entry

theorem normal_entryOf {value bits prefixLen : Nat} (width : bits = ipv4Bits ∨ bits = ipv6Bits)
    (within : prefixLen ≤ bits) (fits : value < 2 ^ bits) :
    (entryOf value bits prefixLen).Normal where
  width := width
  within := within
  fits := lt_of_le_of_lt Nat.and_le_left fits
  same := by
    simp only [entryOf, CidrEntry.mk.injEq, true_and, and_true]
    rw [Nat.and_assoc, Nat.and_self]

theorem normal_of_parseCidrEntry {text : Text} {entry : CidrEntry}
    (read : parseCidrEntry text = some entry) :
    entry.Normal := by
  rw [parseCidrEntry] at read
  split at read
  · obtain ⟨⟨value, bits⟩, address, rest⟩ := Option.bind_eq_some_iff.mp read
    obtain ⟨width, fits⟩ := ipToBigInt_bounds address
    obtain rfl := Option.some.inj rest
    exact normal_entryOf width le_rfl fits
  · obtain ⟨⟨value, bits⟩, address, rest⟩ := Option.bind_eq_some_iff.mp read
    obtain ⟨width, fits⟩ := ipToBigInt_bounds address
    obtain ⟨-, within, done⟩ :=
      (Option.ite_none_left_eq_some.mp rest).imp_right Option.ite_none_left_eq_some.mp
    obtain rfl := Option.some.inj done
    exact normal_entryOf width (Nat.not_lt.mp within) fits
  · cases read

theorem slash_not_mem_formatIp (value bits : Nat) : '/' ∉ formatIp value bits := fun member =>
  absurd (isPlain_of_mem_formatIp _ member) (by decide)

/-- **The canonical text is read as the entry it was written from.** -/
theorem parseCidrEntry_formatCidrEntry {entry : CidrEntry} (normal : entry.Normal) :
    parseCidrEntry (formatCidrEntry entry) = some entry := by
  have solid : ∀ c ∈ formatCidrEntry entry, isTrimmed c = false := by
    intro c member
    rcases List.mem_append.mp member with address | rest
    · exact isTrimmed_of_isPlain (isPlain_of_mem_formatIp _ address)
    · rcases List.mem_cons.mp rest with rfl | digit
      · decide
      · exact isTrimmed_of_isPlain (isPlain_of_isHexDigit
          (isHexDigit_of_isDigit (isDigit_of_mem_decimal digit)))
  have cut : (formatCidrEntry entry).splitOn '/' =
      [formatIp entry.network entry.bits, Nat.toDigits 10 entry.prefixLen] := by
    have parts : formatCidrEntry entry = ['/'].intercalate
        [formatIp entry.network entry.bits, Nat.toDigits 10 entry.prefixLen] := by
      simp [formatCidrEntry, List.intercalate_cons_cons]
    rw [parts]
    refine List.splitOn_intercalate '/' ?_ (by simp)
    simp only [List.mem_cons, List.not_mem_nil, or_false, forall_eq_or_imp, forall_eq]
    exact ⟨slash_not_mem_formatIp _ _, slash_not_mem_decimal _⟩
  have small : entry.prefixLen ≤ 128 := by
    have within := normal.within
    rcases normal.width with four | six
    · rw [four, ipv4Bits] at within
      omega
    · rwa [six, ipv6Bits] at within
  have digits : isOctet (Nat.toDigits 10 entry.prefixLen) = true := by
    have read := parseOctet_toDigits (show entry.prefixLen < 256 by omega)
    rw [parseOctet] at read
    split at read
    · rename_i both
      exact (Bool.and_eq_true_iff.mp both).1
    · cases read
  have number : readDigits 10 (Nat.toDigits 10 entry.prefixLen) = entry.prefixLen :=
    readDigits_toDigits (by decide) (by decide) _
  rw [parseCidrEntry, trim_eq_self solid, cut]
  simp only [ipToBigInt_formatIp normal.width normal.fits, Option.bind_eq_bind, Option.bind_some,
    digits, number, Bool.not_true, Bool.false_eq_true, if_false, Nat.not_lt.mpr normal.within,
    gt_iff_lt, normal.same]

theorem canonicalizeIpOrCidr_of_parse {text : Text} {entry : CidrEntry}
    (read : parseCidrEntry text = some entry) :
    canonicalizeIpOrCidr text = some (formatCidrEntry entry) ∧
      parseCidrEntry (formatCidrEntry entry) = some entry :=
  ⟨by rw [canonicalizeIpOrCidr, read]; rfl, parseCidrEntry_formatCidrEntry
    (normal_of_parseCidrEntry read)⟩

theorem ipMatchesEntry_iff {ip : Text} {value bits : Nat} {entry : CidrEntry}
    (normal : entry.Normal) (read : ipToBigInt ip = some (value, bits)) :
      ipMatchesEntry ip entry = true ↔ bits = entry.bits ∧
      value / 2 ^ (entry.bits - entry.prefixLen) = entry.network / 2 ^
      (entry.bits - entry.prefixLen) := by
  simp only [ipMatchesEntry, read, Bool.and_eq_true, decide_eq_true_eq]
  refine and_congr_right fun width => ?_
  have masked : ∀ other < 2 ^ entry.bits, other &&& entry.mask =
      other / 2 ^ (entry.bits - entry.prefixLen) * 2 ^ (entry.bits - entry.prefixLen) := by
    intro other fits
    rw [← normal.same]
    exact and_maskFor normal.within fits
  have base : entry.network &&& entry.mask = entry.network := by
    rw [← congrArg CidrEntry.mask normal.same]
    exact congrArg CidrEntry.network normal.same
  have fits : value < 2 ^ entry.bits := width ▸ (ipToBigInt_bounds read).2
  calc value &&& entry.mask = entry.network
      ↔ value &&& entry.mask = entry.network &&& entry.mask := by rw [base]
    _ ↔ _ := by
      rw [masked value fits, masked entry.network normal.fits]
      exact Nat.mul_left_inj (Nat.two_pow_pos _).ne'

/-- **Entries that match the same addresses are the same.** An entry matches its own network,
so the widths agree. -/
theorem entry_ext {left right : CidrEntry} (normalLeft : left.Normal) (normalRight : right.Normal)
    (same : ∀ ip, (parseIp ip strict).isSome → ipMatchesEntry ip left = ipMatchesEntry ip right) :
    left = right := by
  have agree : ∀ value bits, (bits = ipv4Bits ∨ bits = ipv6Bits) → value < 2 ^ bits →
      (ipMatchesEntry (formatIp value bits) left = true ↔ ipMatchesEntry (formatIp value bits)
      right = true) := by
    intro value bits width fits
    have read := ipToBigInt_formatIp width fits
    rw [same _ ?_]
    rw [ipToBigInt, Option.map_eq_some_iff] at read
    obtain ⟨parsed, done, -⟩ := read
    rw [done]
    rfl
  have width : left.bits = right.bits := by
    have own := ipToBigInt_formatIp normalLeft.width normalLeft.fits
    have matched := (agree _ _ normalLeft.width normalLeft.fits).mp
      ((ipMatchesEntry_iff normalLeft own).mpr ⟨rfl, rfl⟩)
    exact ((ipMatchesEntry_iff normalRight own).mp matched).1
  have blocks := @blocks_ext left.bits left.network right.network (left.bits - left.prefixLen)
    (right.bits - right.prefixLen) (Nat.sub_le _ _) (width ▸ Nat.sub_le _ _) normalLeft.fits
    (width ▸ normalRight.fits) (by
      intro value fits
      have read := ipToBigInt_formatIp normalLeft.width fits
      have both := agree value left.bits normalLeft.width fits
      rw [ipMatchesEntry_iff normalLeft read, ipMatchesEntry_iff normalRight read] at both
      simpa only [width, true_and] using both)
  obtain ⟨hosts, networks⟩ := blocks
  have prefixes : left.prefixLen = right.prefixLen := by
    have := normalLeft.within
    have := normalRight.within
    omega
  have cleared : ∀ entry : CidrEntry, entry.Normal → entry.network =
      entry.network / 2 ^ (entry.bits - entry.prefixLen) * 2 ^ (entry.bits - entry.prefixLen) := by
    intro entry normal
    have base : entry.network &&& maskFor entry.bits entry.prefixLen = entry.network :=
      congrArg CidrEntry.network normal.same
    rw [← and_maskFor normal.within normal.fits, base]
  have network : left.network = right.network := by
    rw [cleared left normalLeft, cleared right normalRight, networks, hosts]
  rw [← normalLeft.same, ← normalRight.same, network, width, prefixes]

/-- **Allowlist entries have one spelling for each set of addresses.** Canonicalizing is
idempotent and changes no match, and two accepted texts have one canonical spelling exactly
when they match the same addresses. -/
theorem canonical_iff_same_matches {a b : Text} {entry other : CidrEntry}
    (readA : parseCidrEntry a = some entry) (readB : parseCidrEntry b = some other) :
    (canonicalizeIpOrCidr a = canonicalizeIpOrCidr b ↔ ∀ ip, (parseIp ip strict).isSome →
        ipMatchesEntry ip entry = ipMatchesEntry ip other) ∧
      ∃ canonical again, canonicalizeIpOrCidr a = some canonical ∧
        canonicalizeIpOrCidr canonical = some canonical ∧ parseCidrEntry canonical = some again ∧
        ∀ ip, ipMatchesEntry ip again = ipMatchesEntry ip entry := by
  obtain ⟨canonicalA, backA⟩ := canonicalizeIpOrCidr_of_parse readA
  obtain ⟨canonicalB, backB⟩ := canonicalizeIpOrCidr_of_parse readB
  refine ⟨?_, formatCidrEntry entry, entry, canonicalA, ?_, backA, fun ip => rfl⟩
  · rw [canonicalA, canonicalB]
    constructor
    · intro spelling ip _
      rw [Option.some.inj spelling, backB] at backA
      rw [Option.some.inj backA]
    · intro same
      rw [entry_ext (normal_of_parseCidrEntry readA) (normal_of_parseCidrEntry readB) same]
  · rw [canonicalizeIpOrCidr, backA]
    rfl

/-- Host bits, leading zeros and an upper case, mapped network. -/
theorem canonical_iff_same_matches_sample :
    canonicalizeIpOrCidr " 010.5.5.5/8".toList = some "10.0.0.0/8".toList ∧
      (canonicalizeIpOrCidr " 010.5.5.5/8".toList = canonicalizeIpOrCidr "::FFFF:a00:0/104".toList ↔
        ∀ ip, (parseIp ip strict).isSome →
          ipMatchesEntry ip (entryOf 0x0a050505 32 8) = ipMatchesEntry ip
          (entryOf 0xffff0a000000 128 104)) :=
  ⟨by decide, (canonical_iff_same_matches (a := " 010.5.5.5/8".toList)
    (b := "::FFFF:a00:0/104".toList) (by decide) (by decide)).1⟩

end CidrMatch

end Cidrella
