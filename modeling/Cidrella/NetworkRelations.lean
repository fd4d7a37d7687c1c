import Cidrella.Lib.Dyadic
import Cidrella.Cidr

/-!
# Networks as sets of addresses

The relations of `utils/cidr.js` on CIDR texts: `normalizeNetwork`, `networkContains`,
`networksOverlap` and `isNetworkWithin`. The source compares the ends of intervals; the
meaning is in terms of the set of addresses of a network, the values of its family that
agree with the network address in the prefix (`Network.addresses`).

The set is a dyadic block, and the relations are the ones on sets: overlap is a common
address, and then one network holds the other (`overlaps_iff`, `nested_of_overlaps`);
within is a proper subset (`isWithin_iff_ssubset`). What a text stands for is the address
and the prefix written in it (`parseNetwork_written`), where a text of an IPv4-mapped
IPv6 network writes a prefix that is 96 longer.
-/

set_option autoImplicit false

namespace Cidrella

/-! ## The functions on texts -/

/-- `normalizeNetwork`; `none` is a text that is refused. -/
def normalizeNetwork (cidr : Text) : Option Text := (parseNetwork cidr).map Network.cidr

/-- `networkContains`. -/
def networkContains (cidr ip : Text) : Option Bool := do
  let net ← parseNetwork cidr
  let address ← addressToBig ip
  some (net.contains address)

/-- `networksOverlap`. -/
def networksOverlap (cidrA cidrB : Text) : Option Bool := do
  let a ← parseNetwork cidrA
  let b ← parseNetwork cidrB
  some (a.overlaps b)

/-- `isNetworkWithin`. -/
def isNetworkWithin (childCidr parentCidr : Text) : Option Bool := do
  let child ← parseNetwork childCidr
  let parent ← parseNetwork parentCidr
  some (child.isWithin parent)

/-! ## Sets of addresses -/

namespace Network

/-- The number of host bits. -/
def host (net : Network) : Nat := net.bits - net.prefixLen

/-- The values of a network: those whose top prefix bits are the network's. -/
def values (net : Network) : Set Nat := dyadic net.host (net.networkBig / 2 ^ net.host)

/-- The addresses of a network: its family, and the values with its top prefix bits. -/
def addresses (net : Network) : Set (Family × Nat) :=
  {address | address.1 = net.family ∧ address.2 ∈ net.values}

theorem index_mul (net : Network) : net.networkBig / 2 ^ net.host * 2 ^ net.host = net.networkBig :=
  Nat.div_mul_cancel net.aligned

theorem hasValue_iff_mem {net : Network} {value : Nat} : net.HasValue value ↔
    value ∈ net.values := by
  rw [hasValue_iff, values, mem_dyadic_iff_interval, index_mul]
  rfl

theorem mem_addresses {net : Network} {address : Family × Nat} :
    address ∈ net.addresses ↔ address.1 = net.family ∧ net.HasValue address.2 := by
  rw [hasValue_iff_mem]
  rfl

theorem networkBig_mem (net : Network) : (net.family, net.networkBig) ∈ net.addresses :=
  mem_addresses.mpr ⟨rfl, le_rfl, net.networkBig_le_lastBig⟩

theorem contains_iff_mem {net : Network} {addr : Addr} :
    net.contains addr = true ↔ (addr.family, addr.value) ∈ net.addresses := by
  rw [contains_iff, mem_addresses]

theorem contains_iff_top_bits {net : Network} {addr : Addr} :
    net.contains addr = true ↔
      addr.family = net.family ∧ addr.value / 2 ^ net.host = net.networkBig / 2 ^ net.host := by
  rw [contains_iff, hasValue_iff_mem, values, mem_dyadic]

/-- The network address as an address. -/
def networkAddr (net : Network) : Addr := ⟨net.family, net.networkBig, net.fits, net.unmapped⟩

theorem contains_networkAddr (net : Network) : net.contains net.networkAddr = true :=
  contains_iff_mem.mpr net.networkBig_mem

theorem addresses_subset_iff {net other : Network} :
    net.addresses ⊆ other.addresses ↔ net.family = other.family ∧ net.values ⊆ other.values := by
  constructor
  · intro inside
    have base := inside net.networkBig_mem
    refine ⟨base.1, fun value member => ?_⟩
    have shared : (net.family, value) ∈ net.addresses := ⟨rfl, member⟩
    exact (inside shared).2
  · rintro ⟨family, inside⟩ address ⟨same, member⟩
    exact ⟨same.trans family, inside member⟩

/-- **Networks overlap exactly when they have an address in common.** -/
theorem overlaps_iff {net other : Network} :
    net.overlaps other = true ↔ (net.addresses ∩ other.addresses).Nonempty := by
  simp only [overlaps, Bool.and_eq_true, decide_eq_true_eq]
  constructor
  · rintro ⟨⟨family, first⟩, second⟩
    have low := net.networkBig_le_lastBig
    have high := other.networkBig_le_lastBig
    refine ⟨(net.family, max net.networkBig other.networkBig), ?_, ?_⟩
    · exact mem_addresses.mpr ⟨rfl, le_max_left _ _, max_le low second⟩
    · exact mem_addresses.mpr ⟨family, le_max_right _ _, max_le first high⟩
  · rintro ⟨address, inNet, inOther⟩
    rw [mem_addresses] at inNet inOther
    obtain ⟨family, low, high⟩ := inNet
    obtain ⟨family', low', high'⟩ := inOther
    exact ⟨⟨family.symm.trans family', low.trans high'⟩, low'.trans high⟩

/-- **Of two networks that overlap, one holds the other.** -/
theorem nested_of_overlaps {net other : Network} (meet : net.overlaps other = true) :
    net.addresses ⊆ other.addresses ∨ other.addresses ⊆ net.addresses := by
  obtain ⟨address, inNet, inOther⟩ := overlaps_iff.mp meet
  have family : net.family = other.family := inNet.1.symm.trans inOther.1
  have shared : (net.values ∩ other.values).Nonempty := ⟨address.2, inNet.2, inOther.2⟩
  rcases dyadic_nested_of_meet shared with inside | inside
  · exact .inl (addresses_subset_iff.mpr ⟨family, inside⟩)
  · exact .inr (addresses_subset_iff.mpr ⟨family.symm, inside⟩)

theorem exists_contains_of_overlaps {net other : Network} (meet : net.overlaps other = true) :
    ∃ addr, net.contains addr = true ∧ other.contains addr = true := by
  rcases nested_of_overlaps meet with inside | inside
  · exact ⟨net.networkAddr, net.contains_networkAddr,
      contains_iff_mem.mpr (inside net.networkBig_mem)⟩
  · exact ⟨other.networkAddr, contains_iff_mem.mpr (inside other.networkBig_mem),
      other.contains_networkAddr⟩

/-- **A network is within another exactly when its addresses are a proper subset.** -/
theorem isWithin_iff_ssubset {child parent : Network} :
    child.isWithin parent = true ↔ child.addresses ⊂ parent.addresses := by
  have proper : child.values ⊂ parent.values ↔
      child.values ⊆ parent.values ∧ child.host < parent.host := dyadic_ssubset_iff
  have ends : child.values ⊆ parent.values →
      parent.networkBig ≤ child.networkBig ∧ child.lastBig ≤ parent.lastBig := by
    intro inside
    have first := hasValue_iff_mem.mpr
      (inside (hasValue_iff_mem.mp ⟨le_rfl, child.networkBig_le_lastBig⟩))
    have last := hasValue_iff_mem.mpr
      (inside (hasValue_iff_mem.mp ⟨child.networkBig_le_lastBig, le_rfl⟩))
    exact ⟨first.1, last.2⟩
  have longer : child.family = parent.family →
      (child.host < parent.host ↔ parent.prefixLen < child.prefixLen) := by
    intro family
    have bound : child.prefixLen ≤ child.bits := child.prefix_le
    have bound' : parent.prefixLen ≤ parent.bits := parent.prefix_le
    have sameBits : child.bits = parent.bits := by rw [bits, bits, family]
    rw [host, host]
    omega
  rw [isWithin_iff, Set.ssubset_def, addresses_subset_iff, addresses_subset_iff]
  constructor
  · rintro ⟨family, low, high, longerPrefix⟩
    have inside : child.values ⊆ parent.values := by
      intro value member
      obtain ⟨above, below⟩ := hasValue_iff_mem.mpr member
      exact hasValue_iff_mem.mp ⟨low.trans above, below.trans high⟩
    have strict := proper.mpr ⟨inside, (longer family).mpr longerPrefix⟩
    exact ⟨⟨family, inside⟩, fun back => strict.not_subset back.2⟩
  · rintro ⟨⟨family, inside⟩, notBack⟩
    have strict : child.values ⊂ parent.values := ⟨inside, fun back => notBack ⟨family.symm, back⟩⟩
    obtain ⟨low, high⟩ := ends inside
    exact ⟨family, low, high, (longer family).mp (proper.mp strict).2⟩

end Network

/-! ## What a text stands for -/

/-- The text writes an address and a prefix. The prefix written for an IPv4-mapped IPv6
network counts the 96 bits of the mapping. -/
structure Written (cidr : Text) (address : Addr) (prefixLen : Nat) : Prop where
  within : prefixLen ≤ address.family.bits
  text : ∃ addressText prefixText, cidr = addressText ++ '/' :: prefixText ∧
    addressToBig addressText = some address ∧ prefixText ≠ [] ∧
    (∀ c ∈ prefixText, c.isDigit = true) ∧
    Text.readDigits 10 prefixText =
      prefixLen + if ':' ∈ addressText ∧ address.family = .v4 then 96 else 0

theorem networkOf_eq_some {address : Addr} {prefixLen : Nat} {net : Network}
    (done : networkOf address prefixLen = some net) :
    prefixLen ≤ address.family.bits ∧ net.family = address.family ∧ net.prefixLen = prefixLen ∧
      net.networkBig =
        address.value / 2 ^ (address.family.bits - prefixLen) *
          2 ^ (address.family.bits - prefixLen) := by
  unfold networkOf at done
  split at done
  · rename_i within
    obtain rfl := Option.some.inj done
    exact ⟨within, rfl, rfl, and_maskOf within address.fits⟩
  · cases done

theorem eq_of_slash {cidr : Text} (slash : '/' ∈ cidr) :
    cidr = (cidr.reverse.dropWhile (· ≠ '/')).tail.reverse ++
      '/' :: (cidr.reverse.takeWhile (· ≠ '/')).reverse := by
  have whole := List.takeWhile_append_dropWhile (p := (· ≠ '/')) (l := cidr.reverse)
  cases rest : cidr.reverse.dropWhile (· ≠ '/') with
  | nil =>
    have outside := List.dropWhile_eq_nil_iff.mp rest '/' (List.mem_reverse.mpr slash)
    exact absurd outside (by decide)
  | cons sign front =>
    have stops := List.head?_dropWhile_not (fun c => decide (c ≠ '/')) cidr.reverse
    rw [rest] at stops
    obtain rfl : sign = '/' := by simpa using stops
    have back := congrArg List.reverse whole
    rw [rest, List.reverse_append, List.reverse_cons, List.reverse_reverse, List.append_assoc,
      List.singleton_append] at back
    exact back.symm

/-- **A text that is read writes the address and the prefix of the network it is read as.** -/
theorem parseNetwork_written {cidr : Text} {net : Network} (read : parseNetwork cidr = some net) :
    ∃ address, Written cidr address net.prefixLen ∧ net.family = address.family ∧
      net.networkBig = address.value / 2 ^ net.host * 2 ^ net.host := by
  unfold parseNetwork at read
  split at read
  case isFalse => cases read
  rename_i slash
  have whole := eq_of_slash slash
  generalize (cidr.reverse.dropWhile (· ≠ '/')).tail.reverse = addressText at read whole
  generalize (cidr.reverse.takeWhile (· ≠ '/')).reverse = prefixText at read whole
  unfold readNetwork at read
  split at read
  · cases read
  rename_i shaped
  simp only [Bool.or_eq_true, decide_eq_true_eq, Bool.not_eq_true', not_or, Bool.not_eq_false,
    List.all_eq_true] at shaped
  obtain ⟨⟨-, prefixNonempty⟩, digits⟩ := shaped
  obtain ⟨address, readAddress, read⟩ := Option.bind_eq_some_iff.mp read
  have colon : ':' ∈ cidr ↔ ':' ∈ addressText := by
    have absent : ':' ∉ prefixText := fun member => absurd (digits ':' member) (by decide)
    rw [whole]
    simp [absent]
  have net_eq : ∀ prefixLen, networkOf address prefixLen = some net →
      Text.readDigits 10 prefixText =
        prefixLen + (if ':' ∈ addressText ∧ address.family = .v4 then 96 else 0) →
      ∃ address, Written cidr address net.prefixLen ∧ net.family = address.family ∧
        net.networkBig = address.value / 2 ^ net.host * 2 ^ net.host := by
    intro prefixLen done number
    obtain ⟨within, family, len, base⟩ := networkOf_eq_some done
    refine ⟨address, ⟨len ▸ within, addressText, prefixText, whole, readAddress, prefixNonempty,
      digits, len ▸ number⟩, family, ?_⟩
    rw [Network.host, Network.bits, family, len]
    exact base
  simp only [Bool.and_eq_true, decide_eq_true_eq, colon] at read
  by_cases folded : ':' ∈ addressText ∧ address.family = .v4
  · rw [if_pos folded] at read
    split at read
    · cases read
    · rename_i long
      refine net_eq _ read ?_
      rw [if_pos folded]
      omega
  · rw [if_neg folded] at read
    refine net_eq _ read ?_
    rw [if_neg folded, Nat.add_zero]

/-! ## The relations on texts -/

theorem addressToBig_text (addr : Addr) : addressToBig addr.text = some addr := by
  have back := addressToBig_formatIp addr.fits
  rwa [addressAt_value] at back

theorem normalizeNetwork_normal {cidr : Text} {net : Network}
    (read : parseNetwork cidr = some net) :
    normalizeNetwork cidr = some net.cidr ∧ parseNetwork net.cidr = some net ∧
      normalizeNetwork net.cidr = some net.cidr := by
  have back := parseNetwork_cidr net
  refine ⟨?_, back, ?_⟩
  · rw [normalizeNetwork, read, Option.map_some]
  · rw [normalizeNetwork, back, Option.map_some]

theorem networkContains_written {cidr : Text} {net : Network}
    (read : parseNetwork cidr = some net) :
    ∃ written, Written cidr written net.prefixLen ∧ ∀ ip address, addressToBig ip = some address →
      networkContains cidr ip = some (decide (address.family = written.family ∧
        address.value / 2 ^ (written.family.bits - net.prefixLen) =
          written.value / 2 ^ (written.family.bits - net.prefixLen))) := by
  obtain ⟨written, writes, family, base⟩ := parseNetwork_written read
  refine ⟨written, writes, fun ip address readIp => ?_⟩
  have host : net.host = written.family.bits - net.prefixLen := by
    rw [Network.host, Network.bits, family]
  have index : net.networkBig / 2 ^ net.host = written.value / 2 ^ net.host := by
    rw [base, Nat.mul_div_cancel _ (Nat.two_pow_pos _)]
  rw [networkContains, read, readIp, Option.bind_eq_bind, Option.bind_some, Option.bind_eq_bind,
    Option.bind_some, ← host, ← index, ← family, Option.some.injEq, Bool.eq_iff_iff,
    decide_eq_true_eq]
  exact Network.contains_iff_top_bits

/-- **CIDR relations are set relations.** For texts that are read as networks: normalizing
is idempotent and keeps the network; containment is agreement in the top prefix bits;
overlap is a common address, and then one network holds the other; within is a proper
subset. -/
theorem network_relations {cidrA cidrB : Text} {a b : Network} (readA : parseNetwork cidrA = some a)
    (readB : parseNetwork cidrB = some b) :
    (∃ normal, normalizeNetwork cidrA = some normal ∧ parseNetwork normal = some a ∧
      normalizeNetwork normal = some normal) ∧
    (∃ written, Written cidrA written a.prefixLen ∧
      ∀ ip address, addressToBig ip = some address →
        networkContains cidrA ip = some (decide (address.family = written.family ∧
          address.value / 2 ^ (written.family.bits - a.prefixLen) =
            written.value / 2 ^ (written.family.bits - a.prefixLen)))) ∧
    (networksOverlap cidrA cidrB = some true ↔ (a.addresses ∩ b.addresses).Nonempty) ∧
    (networksOverlap cidrA cidrB = some true ↔
      ∃ ip, networkContains cidrA ip = some true ∧ networkContains cidrB ip = some true) ∧
    (networksOverlap cidrA cidrB = some true →
      a.addresses ⊆ b.addresses ∨ b.addresses ⊆ a.addresses) ∧
    (isNetworkWithin cidrA cidrB = some true ↔ a.addresses ⊂ b.addresses) := by
  have overlap : networksOverlap cidrA cidrB = some (a.overlaps b) := by
    rw [networksOverlap, readA, readB]
    rfl
  have within : isNetworkWithin cidrA cidrB = some (a.isWithin b) := by
    rw [isNetworkWithin, readA, readB]
    rfl
  have contains : ∀ {cidr : Text} {net : Network} {ip : Text} {address : Addr},
      parseNetwork cidr = some net → addressToBig ip = some address →
      networkContains cidr ip = some (net.contains address) := by
    intro cidr net ip address read readIp
    rw [networkContains, read, readIp]
    rfl
  rw [overlap, within, Option.some.injEq, Option.some.injEq]
  refine ⟨⟨a.cidr, normalizeNetwork_normal readA⟩, networkContains_written readA,
    Network.overlaps_iff, ?_, Network.nested_of_overlaps, Network.isWithin_iff_ssubset⟩
  constructor
  · intro meet
    obtain ⟨addr, inA, inB⟩ := Network.exists_contains_of_overlaps meet
    have readIp := addressToBig_text addr
    exact ⟨addr.text, by rw [contains readA readIp, inA], by rw [contains readB readIp, inB]⟩
  · rintro ⟨ip, inA, inB⟩
    cases readIp : addressToBig ip with
    | none =>
      rw [networkContains, readA, readIp] at inA
      cases inA
    | some address =>
      rw [contains readA readIp, Option.some.injEq] at inA
      rw [contains readB readIp, Option.some.injEq] at inB
      exact Network.overlaps_iff.mpr
        ⟨_, Network.contains_iff_mem.mp inA, Network.contains_iff_mem.mp inB⟩

theorem network_relations_of_mapped :
    ∃ a b, parseNetwork "10.0.0.0/9".toList = some a ∧
      parseNetwork "::ffff:10.0.0.9/104".toList = some b ∧
      (a.addresses ∩ b.addresses).Nonempty ∧ a.addresses ⊂ b.addresses := by
  have readA : parseNetwork "10.0.0.0/9".toList =
      some ⟨.v4, 0x0a000000, 9, by decide, by decide, by decide, by decide⟩ := by decide
  have readB : parseNetwork "::ffff:10.0.0.9/104".toList =
      some ⟨.v4, 0x0a000000, 8, by decide, by decide, by decide, by decide⟩ := by decide
  have overlap : networksOverlap "10.0.0.0/9".toList "::ffff:10.0.0.9/104".toList = some true := by
    decide
  have within : isNetworkWithin "10.0.0.0/9".toList "::ffff:10.0.0.9/104".toList = some true := by
    decide
  have relations := network_relations readA readB
  exact ⟨_, _, readA, readB, relations.2.2.1.mp overlap, relations.2.2.2.2.2.mp within⟩

end Cidrella
