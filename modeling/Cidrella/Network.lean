import Cidrella.AddressRoundTrip

/-!
# Addresses and networks

The family-generic layer of `utils/cidr.js`. An `Addr` is an address as the database
stores it: its canonical spelling and its family and value determine each other
(`parseIp_text`, `text_injective`). A `Network` is what `parseNetwork` returns; its
fields say that the network address is aligned to the prefix, and `parseNetwork_cidr`
that a stored CIDR text reads back as the network it was written from.

A pair of a value and a prefix that the source writes out and reads again goes through
`networkAt`, which says what the text is read as (`parseNetwork_networkText`).
-/

set_option autoImplicit false

namespace Cidrella

open Address

/-! ## Addresses -/

/-- The two address families. -/
inductive Family where
  | v4
  | v6
  deriving DecidableEq, Repr

/-- The width of a family's addresses. -/
def Family.bits : Family → Nat
  | .v4 => ipv4Bits
  | .v6 => ipv6Bits

/-- An address. No IPv6 address lies in `::ffff:0:0/96`: those texts are IPv4. -/
structure Addr where
  family : Family
  value : Nat
  fits : value < 2 ^ family.bits
  unmapped : family = .v6 → value / 2 ^ 32 ≠ 0xffff
  deriving DecidableEq, Repr

theorem Addr.eq_of_value_eq {left right : Addr} (family : left.family = right.family)
    (value : left.value = right.value) : left = right := by
  obtain ⟨lf, lv, lfits, lun⟩ := left
  obtain ⟨rf, rv, rfits, run⟩ := right
  simp only at family value
  subst family
  subst value
  rfl

/-- The canonical spelling. -/
def Addr.text (addr : Addr) : Text := formatIp addr.value addr.family.bits

theorem Addr.parseIp_text (addr : Addr) :
    parseIp addr.text = some ⟨addr.value, addr.family.bits, none⟩ := by
  obtain ⟨family, value, fits, unmapped⟩ := addr
  cases family with
  | v4 => exact parseIp_formatIp_v4 fits
  | v6 =>
    simp only [Addr.text, Family.bits]
    rw [parseIp_formatIp_ipv6Bits fits, if_neg (unmapped rfl)]

theorem Addr.text_injective {left right : Addr} (same : left.text = right.text) : left = right := by
  have read := left.parseIp_text
  rw [same, right.parseIp_text] at read
  obtain ⟨value, bits, -⟩ := ParsedIp.mk.inj (Option.some.inj read)
  refine Addr.eq_of_value_eq ?_ value.symm
  cases leftFamily : left.family <;> cases rightFamily : right.family <;>
    simp [leftFamily, rightFamily, Family.bits, ipv4Bits, ipv6Bits] at bits ⊢

/-- The address a text of a value of a family is read as: `bigToAddress`, read back. -/
def addressAt (family : Family) (value : Nat) : Addr :=
  match family with
  | .v4 => ⟨.v4, value % 2 ^ 32, Nat.mod_lt _ (by decide), by simp⟩
  | .v6 =>
    if mapped : value % 2 ^ 128 / 2 ^ 32 = 0xffff then
      ⟨.v4, value % 2 ^ 32, Nat.mod_lt _ (by decide), by simp⟩
    else ⟨.v6, value % 2 ^ 128, Nat.mod_lt _ (by decide), fun _ => mapped⟩

theorem parseIp_formatIp_eq_addressAt {family : Family} {value : Nat}
    (fits : value < 2 ^ family.bits) :
    parseIp (formatIp value family.bits) =
      some ⟨(addressAt family value).value, (addressAt family value).family.bits, none⟩ := by
  cases family with
  | v4 =>
    have small : value % 2 ^ 32 = value := Nat.mod_eq_of_lt fits
    refine (parseIp_formatIp_v4 fits).trans ?_
    exact congrArg (fun v => some (ParsedIp.mk v ipv4Bits none)) small.symm
  | v6 =>
    have small : value % 2 ^ 128 = value := Nat.mod_eq_of_lt fits
    refine (parseIp_formatIp_ipv6Bits fits).trans ?_
    by_cases mapped : value / 2 ^ 32 = 0xffff
    · have folded : value % 2 ^ 128 / 2 ^ 32 = 0xffff := small.symm ▸ mapped
      rw [if_pos mapped, addressAt, dif_pos folded]
      rfl
    · have kept : ¬ value % 2 ^ 128 / 2 ^ 32 = 0xffff := small.symm ▸ mapped
      rw [if_neg mapped, addressAt, dif_neg kept]
      exact congrArg (fun v => some (ParsedIp.mk v ipv6Bits none)) small.symm

theorem addressAt_value (addr : Addr) : addressAt addr.family addr.value = addr := by
  obtain ⟨family, value, fits, unmapped⟩ := addr
  cases family with
  | v4 =>
    simp only [addressAt]
    exact Addr.eq_of_value_eq rfl (Nat.mod_eq_of_lt fits)
  | v6 =>
    have small : value % 2 ^ 128 = value := Nat.mod_eq_of_lt fits
    simp only [addressAt]
    rw [dif_neg (by rw [small]; exact unmapped rfl)]
    exact Addr.eq_of_value_eq rfl small

/-- `addressToBig`: an address text without a zone. -/
def addressToBig (text : Text) : Option Addr := do
  let parsed ← parseIp text { zoneId := false }
  some (addressAt (if parsed.bits = ipv4Bits then .v4 else .v6) parsed.value)

/-! ## Networks -/

/-- The `prefix` highest of `bits` bits. -/
def maskOf (bits prefixLen : Nat) : Nat :=
  if prefixLen = 0 then 0
  else (2 ^ bits - 1) <<< (bits - prefixLen) &&& (2 ^ bits - 1)

theorem testBit_maskOf {bits prefixLen i : Nat} (within : prefixLen ≤ bits) :
    (maskOf bits prefixLen).testBit i = (decide (bits - prefixLen ≤ i) && decide (i < bits)) := by
  unfold maskOf
  split
  · rename_i zero
    subst zero
    by_cases low : i < bits
    · simp [low]
    · simp [low]
  · rw [Nat.testBit_and, Nat.testBit_shiftLeft, Nat.testBit_two_pow_sub_one,
      Nat.testBit_two_pow_sub_one]
    by_cases high : bits - prefixLen ≤ i
    · by_cases low : i < bits
      · have inside : i - (bits - prefixLen) < bits := by omega
        simp [high, low, inside]
      · simp [low]
    · simp [high]

theorem and_maskOf {bits prefixLen value : Nat} (within : prefixLen ≤ bits)
    (fits : value < 2 ^ bits) :
    value &&& maskOf bits prefixLen =
      value / 2 ^ (bits - prefixLen) * 2 ^ (bits - prefixLen) := by
  refine Nat.eq_of_testBit_eq fun i => ?_
  rw [Nat.testBit_and, testBit_maskOf within, Nat.testBit_mul_two_pow]
  by_cases high : bits - prefixLen ≤ i
  · simp only [high, decide_true, Bool.true_and]
    rw [Nat.testBit_div_two_pow, Nat.sub_add_cancel high]
    by_cases low : i < bits
    · simp [low]
    · have past : value.testBit i = false :=
        Nat.testBit_lt_two_pow (lt_of_lt_of_le fits (Nat.pow_le_pow_right (by decide) (by omega)))
      simp [past]
  · simp [high]

/-- A CIDR block: `networkBig` and `prefix` of the parsed network. -/
structure Network where
  family : Family
  networkBig : Nat
  prefixLen : Nat
  prefix_le : prefixLen ≤ family.bits
  aligned : 2 ^ (family.bits - prefixLen) ∣ networkBig
  fits : networkBig < 2 ^ family.bits
  unmapped : family = .v6 → networkBig / 2 ^ 32 ≠ 0xffff
  deriving DecidableEq, Repr

namespace Network

/-! The blocks at `10.0.0.0` have the fields of a network. -/

theorem ten_fits : 0x0a000000 < 2 ^ Family.v4.bits := by decide

theorem ten_unmapped : Family.v4 = .v6 → 0x0a000000 / 2 ^ 32 ≠ 0xffff := by decide

theorem ten_prefix_le_24 : 24 ≤ Family.v4.bits := by decide

theorem ten_aligned_24 : 2 ^ (Family.v4.bits - 24) ∣ 0x0a000000 := by decide

theorem ten_prefix_le_25 : 25 ≤ Family.v4.bits := by decide

theorem ten_aligned_25 : 2 ^ (Family.v4.bits - 25) ∣ 0x0a000000 := by decide

theorem ten_prefix_le_30 : 30 ≤ Family.v4.bits := by decide

theorem ten_aligned_30 : 2 ^ (Family.v4.bits - 30) ∣ 0x0a000000 := by decide

theorem eq_of_fields {left right : Network} (family : left.family = right.family)
    (base : left.networkBig = right.networkBig) (len : left.prefixLen = right.prefixLen) :
    left = right := by
  obtain ⟨lf, lb, lp, _, _, _, _⟩ := left
  obtain ⟨rf, rb, rp, _, _, _, _⟩ := right
  simp only at family base len
  subst family
  subst base
  subst len
  rfl

/-- `bits` of the parsed network. -/
def bits (net : Network) : Nat := net.family.bits

/-- `sizeBig`: the number of addresses. -/
def sizeBig (net : Network) : Nat := 2 ^ (net.bits - net.prefixLen)

/-- `lastBig`: the network address with every host bit set. -/
def lastBig (net : Network) : Nat :=
  net.networkBig ||| ((2 ^ net.bits - 1) ^^^ maskOf net.bits net.prefixLen)

theorem sizeBig_pos (net : Network) : 0 < net.sizeBig := Nat.two_pow_pos _

theorem hostMask (net : Network) :
    (2 ^ net.bits - 1) ^^^ maskOf net.bits net.prefixLen = net.sizeBig - 1 := by
  have within : net.prefixLen ≤ net.bits := net.prefix_le
  refine Nat.eq_of_testBit_eq fun i => ?_
  rw [Nat.testBit_xor, testBit_maskOf within, sizeBig, Nat.testBit_two_pow_sub_one,
    Nat.testBit_two_pow_sub_one]
  by_cases low : i < net.bits
  · by_cases high : net.bits - net.prefixLen ≤ i
    · simp [low, high]
    · simp [low, high]
      omega
  · have past : ¬ i < net.bits - net.prefixLen := by omega
    simp [low, past]

/-- The addresses of a block are an interval of `sizeBig` values. -/
theorem lastBig_eq (net : Network) : net.lastBig = net.networkBig + (net.sizeBig - 1) := by
  obtain ⟨block, base⟩ := net.aligned
  have host : net.sizeBig - 1 < 2 ^ (net.bits - net.prefixLen) :=
    Nat.sub_lt net.sizeBig_pos (by decide)
  rw [lastBig, hostMask]
  have same : net.networkBig = 2 ^ (net.bits - net.prefixLen) * block := base
  rw [same, ← Nat.two_pow_add_eq_or_of_lt host]

theorem networkBig_le_lastBig (net : Network) : net.networkBig ≤ net.lastBig := by
  rw [lastBig_eq]
  exact Nat.le_add_right _ _

/-- The values of the block. -/
def HasValue (net : Network) (value : Nat) : Prop := net.networkBig ≤ value ∧ value ≤ net.lastBig

/-- `parsedNetworkContains` and `networkContains`: the address is inside the network. -/
def contains (net : Network) (addr : Addr) : Bool :=
  addr.family = net.family && net.networkBig ≤ addr.value && addr.value ≤ net.lastBig

theorem contains_iff {net : Network} {addr : Addr} :
    net.contains addr = true ↔ addr.family = net.family ∧ net.HasValue addr.value := by
  simp only [contains, HasValue, Bool.and_eq_true, decide_eq_true_eq, and_assoc]

/-- `networksOverlap`. -/
def overlaps (net other : Network) : Bool :=
  net.family = other.family && net.networkBig ≤ other.lastBig && other.networkBig ≤ net.lastBig

/-- `isNetworkWithin`: inside, with a longer prefix. -/
def isWithin (child parent : Network) : Bool :=
  child.family = parent.family && parent.networkBig ≤ child.networkBig &&
    child.lastBig ≤ parent.lastBig && parent.prefixLen < child.prefixLen

/-- Only point-to-point and host prefixes give out their ends. -/
def reservesEndpoints (net : Network) : Bool := net.prefixLen < net.bits - 1

/-- `firstUsable`. -/
def firstUsable (net : Network) : Addr :=
  addressAt net.family (if net.reservesEndpoints then net.networkBig + 1 else net.networkBig)

/-- `lastUsable`: IPv6 has no broadcast address. -/
def lastUsable (net : Network) : Addr :=
  addressAt net.family
    (if net.reservesEndpoints && net.family = .v4 then net.lastBig - 1 else net.lastBig)

/-- `topologyAddresses`: the network address, and on IPv4 the broadcast. -/
def topologyAddresses (net : Network) : List Addr :=
  if net.bits - 1 ≤ net.prefixLen then []
  else
    match net.family with
    | .v4 => [addressAt .v4 net.networkBig, addressAt .v4 net.lastBig]
    | .v6 => [addressAt .v6 net.networkBig]

/-- `isTopologyAddress`, for a value of the network's family. -/
def isTopologyAddress (net : Network) (value : Nat) : Bool :=
  if net.bits - 1 ≤ net.prefixLen then false
  else value = net.networkBig || (net.family = .v4 && value = net.lastBig)

end Network

/-! ## Reading CIDR texts -/

/-- The network address of an unmapped address is unmapped: a block wide enough to reach
down to `::ffff:0:0` starts at an even multiple of `2 ^ 32`. -/
theorem div_mul_div_ne {value host : Nat} (unmapped : value / 2 ^ 32 ≠ 0xffff) :
    value / 2 ^ host * 2 ^ host / 2 ^ 32 ≠ 0xffff := by
  by_cases small : host ≤ 32
  · have split : 2 ^ 32 = 2 ^ host * 2 ^ (32 - host) := by
      rw [← Nat.pow_add, Nat.add_sub_cancel' small]
    rw [split, ← Nat.div_div_eq_div_mul, Nat.mul_div_cancel _ (Nat.two_pow_pos host),
      Nat.div_div_eq_div_mul, ← split]
    exact unmapped
  · have split : 2 ^ host = 2 * 2 ^ (host - 33) * 2 ^ 32 := by
      rw [← Nat.pow_succ', ← Nat.pow_add]
      congr 1
      omega
    have even : value / 2 ^ host * 2 ^ host / 2 ^ 32 = 2 *
        (value / 2 ^ host * 2 ^ (host - 33)) := by
      calc value / 2 ^ host * 2 ^ host / 2 ^ 32
          = value / 2 ^ host * (2 * 2 ^ (host - 33)) * 2 ^ 32 / 2 ^ 32 := by
            rw [Nat.mul_assoc _ _ (2 ^ 32), ← split]
        _ = value / 2 ^ host * (2 * 2 ^ (host - 33)) :=
            Nat.mul_div_cancel _ (Nat.two_pow_pos 32)
        _ = 2 * (value / 2 ^ host * 2 ^ (host - 33)) := by ring
    rw [even]
    omega

/-- The block of an address. -/
def networkOf (address : Addr) (prefixLen : Nat) : Option Network :=
  if within : prefixLen ≤ address.family.bits then
    some
      { family := address.family
        networkBig := address.value &&& maskOf address.family.bits prefixLen
        prefixLen := prefixLen
        prefix_le := within
        aligned := by
          rw [and_maskOf within address.fits]
          exact Nat.dvd_mul_left _ _
        fits := lt_of_le_of_lt Nat.and_le_left address.fits
        unmapped := by
          intro six
          rw [and_maskOf within address.fits]
          exact div_mul_div_ne (address.unmapped six) }
  else none

/-- The part of `parseNetwork` after the text is cut at its last slash. An IPv4-mapped
IPv6 network folds to its IPv4 block, whose prefix loses the 96 bits of the mapping. -/
def readNetwork (addressText prefixText : Text) (hasColon : Bool) : Option Network :=
  if addressText = [] || prefixText = [] || !prefixText.all Char.isDigit then none
  else do
    let address ← addressToBig addressText
    let prefixLen := Text.readDigits 10 prefixText
    if hasColon && address.family = .v4 then
      if prefixLen < 96 then none else networkOf address (prefixLen - 96)
    else networkOf address prefixLen

/-- `parseNetwork`. -/
def parseNetwork (cidr : Text) : Option Network :=
  if '/' ∈ cidr then
    readNetwork (cidr.reverse.dropWhile (· ≠ '/')).tail.reverse
      (cidr.reverse.takeWhile (· ≠ '/')).reverse (':' ∈ cidr)
  else none

/-- The text `${bigToAddress(value, family)}/${prefix}`. -/
def networkText (family : Family) (value prefixLen : Nat) : Text :=
  formatIp value family.bits ++ '/' :: Nat.toDigits 10 prefixLen

/-- `cidr` of the parsed network, the text the database stores. -/
def Network.cidr (net : Network) : Text := networkText net.family net.networkBig net.prefixLen

/-- What `networkText` is read as: an IPv6 block inside `::ffff:0:0/96` comes back as
an IPv4 block. -/
def networkAt (family : Family) (value prefixLen : Nat) : Option Network :=
  let address := addressAt family value
  if family = .v6 && address.family = .v4 then
    if prefixLen < 96 then none else networkOf address (prefixLen - 96)
  else networkOf address prefixLen

theorem slash_not_mem_decimal (n : Nat) : '/' ∉ Nat.toDigits 10 n := fun member =>
  absurd (isDigit_of_mem_decimal member) (by decide)

theorem takeWhile_reverse_of_not_mem (left : Text) {right : Text} {sep : Char}
    (absent : sep ∉ right) :
    ((left ++ sep :: right).reverse.takeWhile (· ≠ sep)).reverse = right ∧
      ((left ++ sep :: right).reverse.dropWhile (· ≠ sep)).tail.reverse = left := by
  have plain : ∀ c ∈ right.reverse, (decide (c ≠ sep)) = true := by
    intro c member
    rw [decide_eq_true_eq]
    rintro rfl
    exact absent (List.mem_reverse.mp member)
  rw [List.reverse_append, List.reverse_cons, List.append_assoc, List.singleton_append]
  constructor
  · rw [List.takeWhile_append_of_pos plain]
    simp
  · rw [List.dropWhile_append_of_pos plain]
    simp

theorem parseIp_of_isPlain {text : Text} (plain : ∀ c ∈ text, isPlain c = true) :
    parseIp text { zoneId := false } = parseIp text := by
  simp only [parseIp, trim_of_isPlain plain, splitZone_of_isPlain plain, Option.isSome_none,
    Bool.false_and, Bool.false_eq_true, if_false]

theorem addressToBig_formatIp {family : Family} {value : Nat} (fits : value < 2 ^ family.bits) :
    addressToBig (formatIp value family.bits) = some (addressAt family value) := by
  have plain : ∀ c ∈ formatIp value family.bits, isPlain c = true := isPlain_of_mem_formatIp
  have back := addressAt_value (addressAt family value)
  rw [addressToBig, parseIp_of_isPlain plain, parseIp_formatIp_eq_addressAt fits]
  cases at4 : (addressAt family value).family with
  | v4 =>
    rw [at4] at back
    exact congrArg some back
  | v6 =>
    rw [at4] at back
    exact congrArg some back

theorem colon_mem_networkText_iff {family : Family} {value prefixLen : Nat} :
    ':' ∈ networkText family value prefixLen ↔ family = .v6 := by
  have tail : ':' ∉ Nat.toDigits 10 prefixLen := fun member =>
    absurd (isDigit_of_mem_decimal member) (by decide)
  cases family with
  | v4 => simp [networkText, Family.bits, colon_not_mem_quad, tail]
  | v6 => simp [networkText, Family.bits, colon_mem_formatIp]

/-- Writing a block out and reading the text is `networkAt`. -/
theorem parseNetwork_networkText {family : Family} {value prefixLen : Nat}
    (fits : value < 2 ^ family.bits) :
    parseNetwork (networkText family value prefixLen) = networkAt family value prefixLen := by
  obtain ⟨prefixPart, addressPart⟩ := takeWhile_reverse_of_not_mem (formatIp value family.bits)
    (slash_not_mem_decimal prefixLen)
  have slash : '/' ∈ networkText family value prefixLen := by simp [networkText]
  have digits : (Nat.toDigits 10 prefixLen).all Char.isDigit = true :=
    List.all_eq_true.mpr fun c member => isDigit_of_mem_decimal member
  have read : Text.readDigits 10 (Nat.toDigits 10 prefixLen) = prefixLen :=
    Text.readDigits_toDigits (by decide) (by decide) prefixLen
  rw [parseNetwork, if_pos slash, networkText, prefixPart, addressPart, ← networkText]
  simp only [readNetwork, formatIp_ne_nil, Nat.toDigits_ne_nil, digits, decide_false, Bool.or_self,
    Bool.not_true, Bool.false_eq_true, if_false, addressToBig_formatIp fits, Option.bind_eq_bind,
    Option.bind_some, read, colon_mem_networkText_iff, networkAt]

/-- **A stored CIDR text reads back as the network it was written from.** -/
theorem parseNetwork_cidr (net : Network) : parseNetwork net.cidr = some net := by
  have address : addressAt net.family net.networkBig = ⟨net.family, net.networkBig, net.fits,
      net.unmapped⟩ := addressAt_value ⟨net.family, net.networkBig, net.fits, net.unmapped⟩
  have kept : ¬ (decide (net.family = .v6) && decide (net.family = .v4)) = true := by
    cases net.family <;> decide
  rw [Network.cidr, parseNetwork_networkText net.fits, networkAt, address]
  simp only [kept, networkOf, net.prefix_le, dif_pos]
  have base : net.networkBig &&& maskOf net.family.bits net.prefixLen = net.networkBig :=
    (and_maskOf net.prefix_le net.fits).trans (Nat.div_mul_cancel net.aligned)
  exact congrArg some (Network.eq_of_fields rfl base rfl)

end Cidrella
