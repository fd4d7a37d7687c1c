import Cidrella.Lib.Fallible
import Cidrella.Lib.Tiles
import Cidrella.Network

/-!
# Cutting and joining networks

`splitNetwork`, `subtractNetwork`, `mergeNetworks` and `validateNetworkBounds` of
`utils/cidr.js`. The first two cut a network into blocks that partition it
(`splitNetwork_partitions`, `subtractNetwork_partitions`); the third finds the network
that a set of blocks is a partition of (`mergeNetworks_partitions`).

The source hands blocks on as texts. An IPv6 block inside `::ffff:0:0/96` would be read
as IPv4, which is why no network that touches these addresses is taken in
(`validateNetworkBounds`), and the partition results ask for `AvoidsMapped`.
-/

set_option autoImplicit false

namespace Cidrella

namespace Network

/-! ## Blocks as intervals -/

theorem lastBig_lt (net : Network) : net.lastBig < 2 ^ net.bits := by
  obtain ⟨block, base⟩ := net.aligned
  obtain ⟨rest, whole⟩ : 2 ^ (net.family.bits - net.prefixLen) ∣ 2 ^ net.family.bits :=
    pow_dvd_pow 2 (Nat.sub_le _ _)
  have fits : 2 ^ (net.family.bits - net.prefixLen) * block <
      2 ^ (net.family.bits - net.prefixLen) * rest := by
    rw [← base, ← whole]
    exact net.fits
  have below : block + 1 ≤ rest := Nat.lt_of_mul_lt_mul_left fits
  have bound := Nat.mul_le_mul_left (2 ^ (net.family.bits - net.prefixLen)) below
  have positive := net.sizeBig_pos
  rw [← whole, Nat.mul_add, ← base, Nat.mul_one] at bound
  rw [lastBig_eq]
  simp only [sizeBig, bits] at positive ⊢
  omega

/-- The addresses of a block are `sizeBig` many from the network address on. -/
theorem hasValue_iff {net : Network} {value : Nat} :
    net.HasValue value ↔ net.networkBig ≤ value ∧ value < net.networkBig + net.sizeBig := by
  have positive := net.sizeBig_pos
  rw [HasValue, lastBig_eq]
  omega

theorem isWithin_iff {child parent : Network} : child.isWithin parent = true ↔
    child.family = parent.family ∧ parent.networkBig ≤ child.networkBig ∧
      child.lastBig ≤ parent.lastBig ∧ parent.prefixLen < child.prefixLen := by
  simp only [isWithin, Bool.and_eq_true, decide_eq_true_eq, and_assoc]

theorem isWithin_trans {child middle parent : Network} (lower : child.isWithin middle = true)
    (upper : middle.isWithin parent = true) : child.isWithin parent = true := by
  rw [isWithin_iff] at lower upper ⊢
  refine ⟨lower.1.trans upper.1, ?_⟩
  omega

theorem contains_of_isWithin {child parent : Network} (within : child.isWithin parent = true)
    {addr : Addr} (inside : child.contains addr = true) : parent.contains addr = true := by
  rw [isWithin_iff] at within
  rw [contains_iff] at inside ⊢
  refine ⟨inside.1.trans within.1, ?_⟩
  simp only [HasValue] at inside ⊢
  omega

theorem overlaps_eq_false_iff {net other : Network} : net.overlaps other = false ↔
    (net.family = other.family → net.lastBig < other.networkBig ∨
    other.lastBig < net.networkBig) := by
  rw [← Bool.not_eq_true]
  simp only [overlaps, Bool.and_eq_true, decide_eq_true_eq]
  constructor
  · intro apart family
    by_contra joined
    push Not at joined
    exact apart ⟨⟨family, joined.2⟩, joined.1⟩
  · rintro apart ⟨⟨family, first⟩, second⟩
    have := apart family
    omega

theorem overlaps_comm (net other : Network) : net.overlaps other = other.overlaps net := by
  rw [Bool.eq_iff_iff]
  simp only [overlaps, Bool.and_eq_true, decide_eq_true_eq]
  constructor
  · rintro ⟨⟨family, first⟩, second⟩
    exact ⟨⟨family.symm, second⟩, first⟩
  · rintro ⟨⟨family, first⟩, second⟩
    exact ⟨⟨family.symm, second⟩, first⟩

theorem overlaps_of_isWithin {child parent other : Network} (within : child.isWithin parent = true)
    (apart : parent.overlaps other = false) : child.overlaps other = false := by
  rw [isWithin_iff] at within
  rw [overlaps_eq_false_iff] at apart ⊢
  intro family
  have := apart (within.1.symm.trans family)
  have := child.networkBig_le_lastBig
  omega

theorem not_contains_of_overlaps {net other : Network} (apart : net.overlaps other = false)
    {addr : Addr} (inside : net.contains addr = true) : ¬ other.contains addr = true := by
  intro also
  rw [contains_iff] at inside also
  rw [overlaps_eq_false_iff] at apart
  have := apart (inside.1.symm.trans also.1)
  simp only [HasValue] at inside also
  omega

theorem overlaps_self (net : Network) : net.overlaps net = true := by
  have := net.networkBig_le_lastBig
  simp only [overlaps, decide_true, this, Bool.and_self]

/-- No address of the network is read as IPv4. -/
def AvoidsMapped (net : Network) : Prop :=
  net.family = .v6 →
    ¬ (net.networkBig ≤ Address.v4MappedLast ∧ Address.v4MappedPrefix ≤ net.lastBig)

instance (net : Network) : Decidable net.AvoidsMapped := inferInstanceAs (Decidable (_ → _))

theorem AvoidsMapped.of_subset {net part : Network} (avoids : net.AvoidsMapped)
    (family : part.family = net.family) (low : net.networkBig ≤ part.networkBig)
    (high : part.lastBig ≤ net.lastBig) : part.AvoidsMapped := by
  intro six mapped
  refine avoids (family ▸ six) ?_
  omega

theorem AvoidsMapped.unmapped_value {net : Network} (avoids : net.AvoidsMapped)
    (six : net.family = .v6) {value : Nat} (inside : net.HasValue value) :
    value / 2 ^ 32 ≠ 0xffff := by
  intro mapped
  have apart := avoids six
  rw [Address.v4MappedPrefix_eq, Address.v4MappedLast_eq] at apart
  simp only [HasValue] at inside
  omega

end Network

theorem networkAt_of_aligned {family : Family} {value prefixLen : Nat}
    (bound : prefixLen ≤ family.bits) (aligned : 2 ^ (family.bits - prefixLen) ∣ value)
    (fits : value < 2 ^ family.bits) (unmapped : family = .v6 → value / 2 ^ 32 ≠ 0xffff) :
    ∃ block, networkAt family value prefixLen = some block ∧
      block.family = family ∧ block.networkBig = value ∧ block.prefixLen = prefixLen := by
  have address : addressAt family value = ⟨family, value, fits, unmapped⟩ :=
    addressAt_value ⟨family, value, fits, unmapped⟩
  have kept : ¬ (decide (family = .v6) && decide (family = .v4)) = true := by
    cases family <;> decide
  rw [networkAt, address]
  simp only [kept, networkOf, bound, dif_pos]
  exact ⟨_, rfl, rfl, (and_maskOf bound fits).trans (Nat.div_mul_cancel aligned), rfl⟩

theorem networkAt_eq_some {net : Network} (avoids : net.AvoidsMapped) {value prefixLen : Nat}
    (bound : prefixLen ≤ net.bits) (aligned : 2 ^ (net.bits - prefixLen) ∣ value)
    (inside : net.HasValue value) : ∃ block, networkAt net.family value prefixLen = some block ∧
      block.family = net.family ∧ block.networkBig = value ∧ block.prefixLen = prefixLen :=
  networkAt_of_aligned bound aligned (lt_of_le_of_lt inside.2 net.lastBig_lt)
    fun six => avoids.unmapped_value six inside

/-! ## Partitions -/

/-- Blocks strictly inside a network, apart from each other, that leave nothing out. -/
structure Partitions (parent : Network) (parts : List Network) : Prop where
  within : ∀ part ∈ parts, part.isWithin parent = true
  apart : parts.Pairwise fun left right => left.overlaps right = false
  covers : ∀ value, parent.HasValue value → ∃ part ∈ parts, part.HasValue value

/-- Why a network is not cut, joined or taken in: the messages of `utils/cidr.js`. -/
inductive CidrError where
  | invalidNotation
  | newPrefix (newPrefix parentPrefix bits : Nat)
  | tooManyNetworks (maxCount : Nat)
  | notWithinParent
  | prefixNotLonger
  | needTwoNetworks
  | differentFamilies
  | networksOverlap
  | notContiguous
  | notPowerOfTwo
  | notAligned
  | overlapsMapped (net : Network)
  | beyondReserved (net : Network) (name : Text) (reserved : Network)
  deriving DecidableEq, Repr

/-- The blocks that the texts of values and prefixes are read as. -/
def readBlocks (family : Family) (blocks : List (Nat × Nat)) : Except CidrError (List Network) :=
  blocks.mapM fun block =>
    match networkAt family block.1 block.2 with
    | some net => .ok net
    | none => .error .invalidNotation

theorem readBlocks_ok {net : Network} (avoids : net.AvoidsMapped) {blocks : List (Nat × Nat)}
    (bounds : ∀ block ∈ blocks, block.2 ≤ net.bits ∧ 2 ^ (net.bits - block.2) ∣ block.1 ∧
      net.HasValue block.1) :
    ∃ parts, readBlocks net.family blocks = .ok parts ∧ (∀ part ∈ parts, part.family = net.family) ∧
      parts.map (fun part => (part.networkBig, part.prefixLen)) = blocks := by
  induction blocks with
  | nil => exact ⟨[], rfl, by simp, rfl⟩
  | cons block blocks ih =>
    obtain ⟨bound, aligned, inside⟩ := bounds block List.mem_cons_self
    obtain ⟨part, read, family, base, len⟩ := networkAt_eq_some avoids bound aligned inside
    obtain ⟨parts, rest, families, same⟩ :=
      ih fun other member => bounds other (List.mem_cons_of_mem _ member)
    refine ⟨part :: parts, ?_, List.forall_mem_cons.mpr ⟨family, families⟩, ?_⟩
    · rw [readBlocks] at rest ⊢
      rw [List.mapM_cons, rest, read]
      rfl
    · rw [List.map_cons, same, base, len]

/-- The interval of a block. -/
def Network.interval (net : Network) : Nat × Nat := (net.networkBig, net.sizeBig)

theorem partitions_of_tiles {net : Network} {parts : List Network}
    (families : ∀ part ∈ parts, part.family = net.family)
    (longer : ∀ part ∈ parts, net.prefixLen < part.prefixLen)
    (tiles : Tiles net.networkBig (net.networkBig + net.sizeBig) (parts.map Network.interval)) :
    Partitions net parts where
  within := by
    intro part member
    obtain ⟨low, high⟩ := tiles.inside part.interval (List.mem_map_of_mem member)
    have positive := part.sizeBig_pos
    rw [Network.isWithin_iff, Network.lastBig_eq, Network.lastBig_eq]
    simp only [Network.interval] at low high
    exact ⟨families part member, low, by omega, longer part member⟩
  apart := by
    refine (List.pairwise_map.mp tiles.apart).imp ?_
    intro left right apart
    have positive := left.sizeBig_pos
    have positive' := right.sizeBig_pos
    rw [Network.overlaps_eq_false_iff, Network.lastBig_eq, Network.lastBig_eq]
    simp only [Network.interval] at apart
    omega
  covers := by
    intro value inside
    rw [Network.hasValue_iff] at inside
    obtain ⟨interval, member, low, high⟩ := tiles.covers value inside.1 inside.2
    obtain ⟨part, memberPart, rfl⟩ := List.mem_map.mp member
    exact ⟨part, memberPart, Network.hasValue_iff.mpr ⟨low, high⟩⟩

theorem map_interval_eq {net : Network} {parts : List Network} {blocks : List (Nat × Nat)}
    (families : ∀ part ∈ parts, part.family = net.family)
    (same : parts.map (fun part => (part.networkBig, part.prefixLen)) = blocks) :
    parts.map Network.interval = blocks.map fun block => (block.1, 2 ^ (net.bits - block.2)) := by
  rw [← same, List.map_map]
  refine List.map_congr_left fun part member => ?_
  simp only [Network.interval, Network.sizeBig, Network.bits, Function.comp_apply,
    families part member]

theorem readBlocks_partitions {net : Network} (avoids : net.AvoidsMapped)
    {blocks : List (Nat × Nat)} (bounds : ∀ block ∈ blocks, net.prefixLen < block.2 ∧
      block.2 ≤ net.bits ∧ 2 ^ (net.bits - block.2) ∣ block.1)
    (tiles : Tiles net.networkBig (net.networkBig + net.sizeBig)
      (blocks.map fun block => (block.1, 2 ^ (net.bits - block.2)))) :
    ∃ parts, readBlocks net.family blocks = .ok parts ∧ Partitions net parts ∧
      parts.map (fun part => (part.networkBig, part.prefixLen)) = blocks := by
  have inside : ∀ block ∈ blocks, block.2 ≤ net.bits ∧ 2 ^ (net.bits - block.2) ∣ block.1 ∧
      net.HasValue block.1 := by
    intro block member
    obtain ⟨-, bound, aligned⟩ := bounds block member
    obtain ⟨low, high⟩ := tiles.inside _ (List.mem_map_of_mem member)
    have positive : 0 < 2 ^ (net.bits - block.2) := Nat.two_pow_pos _
    simp only at low high
    exact ⟨bound, aligned, Network.hasValue_iff.mpr ⟨low, by omega⟩⟩
  obtain ⟨parts, read, families, same⟩ := readBlocks_ok avoids inside
  refine ⟨parts, read, partitions_of_tiles families ?_ ?_, same⟩
  · intro part member
    have block : (part.networkBig, part.prefixLen) ∈ blocks := by
      rw [← same]
      exact List.mem_map_of_mem member
    exact (bounds _ block).1
  · rw [map_interval_eq families same]
    exact tiles

/-! ## Cutting a network into equal parts -/

/-- `splitNetwork`: every network of the new prefix inside the parent. -/
def splitNetwork (parent : Network) (newPrefix maxCount : Nat) : Except CidrError (List Network) :=
  if newPrefix ≤ parent.prefixLen || parent.bits < newPrefix then
    .error (.newPrefix newPrefix parent.prefixLen parent.bits)
  else if maxCount < 2 ^ (newPrefix - parent.prefixLen) then .error (.tooManyNetworks maxCount)
  else
    readBlocks parent.family
      ((List.range (2 ^ (newPrefix - parent.prefixLen))).map fun i =>
        (parent.networkBig + i * 2 ^ (parent.bits - newPrefix), newPrefix))

/-- A split into a longer prefix is read back, as the blocks of that prefix in order. -/
theorem splitNetwork_blocks {parent : Network} {newPrefix maxCount : Nat}
    (avoids : parent.AvoidsMapped) (longer : parent.prefixLen < newPrefix)
    (bound : newPrefix ≤ parent.bits) (few : 2 ^ (newPrefix - parent.prefixLen) ≤ maxCount) :
    ∃ parts, splitNetwork parent newPrefix maxCount = .ok parts ∧ Partitions parent parts ∧
      parts.map (fun part => (part.networkBig, part.prefixLen)) =
        (List.range (2 ^ (newPrefix - parent.prefixLen))).map fun i =>
          (parent.networkBig + i * 2 ^ (parent.bits - newPrefix), newPrefix) := by
  have size : parent.sizeBig =
      2 ^ (newPrefix - parent.prefixLen) * 2 ^ (parent.bits - newPrefix) := by
    rw [Network.sizeBig, ← Nat.pow_add]
    congr 1
    omega
  have step : 2 ^ (parent.bits - newPrefix) ∣ parent.networkBig :=
    (pow_dvd_pow 2 (Nat.sub_le_sub_left longer.le _)).trans parent.aligned
  have bounds : ∀ block ∈ (List.range (2 ^ (newPrefix - parent.prefixLen))).map (fun i =>
      (parent.networkBig + i * 2 ^ (parent.bits - newPrefix), newPrefix)),
      parent.prefixLen < block.2 ∧ block.2 ≤ parent.bits ∧
        2 ^ (parent.bits - block.2) ∣ block.1 := by
    intro block member
    obtain ⟨i, -, rfl⟩ := List.mem_map.mp member
    exact ⟨longer, bound, step.add (Nat.dvd_mul_left _ _)⟩
  obtain ⟨parts, read, partitions, same⟩ := readBlocks_partitions avoids bounds (by
    rw [List.map_map, size]
    exact Tiles.range _ _ _)
  have range : ¬ (newPrefix ≤ parent.prefixLen || parent.bits < newPrefix) = true := by
    simp only [Bool.or_eq_true, decide_eq_true_eq, not_or, Nat.not_le, Nat.not_lt]
    exact ⟨longer, bound⟩
  refine ⟨parts, ?_, partitions, same⟩
  rw [splitNetwork, if_neg range, if_neg (Nat.not_lt.mpr few)]
  exact read

/-- **The parts of a split are a partition of the network.** -/
theorem splitNetwork_partitions {parent : Network} {newPrefix maxCount : Nat}
    (avoids : parent.AvoidsMapped) {parts : List Network}
    (done : splitNetwork parent newPrefix maxCount = .ok parts) : Partitions parent parts := by
  have checked : parent.prefixLen < newPrefix ∧ newPrefix ≤ parent.bits ∧
      2 ^ (newPrefix - parent.prefixLen) ≤ maxCount := by
    rw [splitNetwork] at done
    split at done
    · cases done
    rename_i range
    simp only [Bool.or_eq_true, decide_eq_true_eq, not_or, Nat.not_le, Nat.not_lt] at range
    split at done
    · cases done
    rename_i few
    exact ⟨range.1, range.2, Nat.le_of_not_lt few⟩
  obtain ⟨others, cut, partitions, -⟩ :=
    splitNetwork_blocks avoids checked.1 checked.2.1 checked.2.2
  rw [cut] at done
  obtain rfl := Except.ok.inj done
  exact partitions

/-! ## Cutting one network out of another -/

/-- The loop of `subtractNetwork`: at every prefix, the half without the child is kept and
the walk goes on in the other one. -/
def subtractLoop (bits childBig : Nat) : Nat → Nat → Nat → List (Nat × Nat)
  | 0, _, _ => []
  | steps + 1, currentNet, currentPrefix =>
    let nextPrefix := currentPrefix + 1
    let midpoint := currentNet + 2 ^ (bits - nextPrefix)
    if midpoint ≤ childBig then
      (currentNet, nextPrefix) :: subtractLoop bits childBig steps midpoint nextPrefix
    else (midpoint, nextPrefix) :: subtractLoop bits childBig steps currentNet nextPrefix

/-- `subtractNetwork`: the parent minus the child, as blocks. -/
def subtractNetwork (parent child : Network) : Except CidrError (List Network) :=
  if child.family ≠ parent.family then .error .notWithinParent
  else if child.networkBig < parent.networkBig || parent.lastBig < child.lastBig then
    .error .notWithinParent
  else if child.prefixLen ≤ parent.prefixLen then .error .prefixNotLonger
  else
    readBlocks parent.family
      (subtractLoop parent.bits child.networkBig (child.prefixLen - parent.prefixLen)
        parent.networkBig parent.prefixLen)

theorem subtractLoop_bounds {bits childBig : Nat} (steps currentNet currentPrefix : Nat)
    (bound : currentPrefix + steps ≤ bits) (aligned : 2 ^ (bits - currentPrefix) ∣ currentNet) :
    ∀ block ∈ subtractLoop bits childBig steps currentNet currentPrefix,
      currentPrefix < block.2 ∧ block.2 ≤ bits ∧ 2 ^ (bits - block.2) ∣ block.1 := by
  induction steps generalizing currentNet currentPrefix with
  | zero => simp [subtractLoop]
  | succ steps ih =>
    have half : 2 ^ (bits - (currentPrefix + 1)) ∣ currentNet :=
      (pow_dvd_pow 2 (by omega)).trans aligned
    have middle : 2 ^ (bits - (currentPrefix + 1)) ∣
        currentNet + 2 ^ (bits - (currentPrefix + 1)) := half.add (dvd_refl _)
    intro block member
    simp only [subtractLoop] at member
    split at member
    · rcases List.mem_cons.mp member with rfl | member
      · exact ⟨Nat.lt_succ_self _, by omega, half⟩
      · obtain ⟨longer, fits, base⟩ := ih _ _ (by omega) middle block member
        exact ⟨by omega, fits, base⟩
    · rcases List.mem_cons.mp member with rfl | member
      · exact ⟨Nat.lt_succ_self _, by omega, middle⟩
      · obtain ⟨longer, fits, base⟩ := ih _ _ (by omega) half block member
        exact ⟨by omega, fits, base⟩

/-- The child and the blocks of the walk tile the block the walk started from. -/
theorem subtractLoop_tiles {bits childBig : Nat} (steps currentNet currentPrefix : Nat)
    (bound : currentPrefix + steps ≤ bits) (aligned : 2 ^ (bits - currentPrefix) ∣ currentNet)
    (childAligned : 2 ^ (bits - (currentPrefix + steps)) ∣ childBig) (low : currentNet ≤ childBig)
    (high : childBig + 2 ^ (bits - (currentPrefix + steps)) ≤
      currentNet + 2 ^ (bits - currentPrefix)) :
    Tiles currentNet (currentNet + 2 ^ (bits - currentPrefix))
      ((childBig, 2 ^ (bits - (currentPrefix + steps))) ::
        (subtractLoop bits childBig steps currentNet currentPrefix).map
          fun block => (block.1, 2 ^ (bits - block.2))) := by
  induction steps generalizing currentNet currentPrefix with
  | zero =>
    have same : childBig = currentNet := by
      simp only [Nat.add_zero] at high
      omega
    rw [same]
    exact Tiles.single _ _
  | succ steps ih =>
    have double : 2 ^ (bits - currentPrefix) =
        2 ^ (bits - (currentPrefix + 1)) + 2 ^ (bits - (currentPrefix + 1)) := by
      rw [← Nat.two_mul, ← Nat.pow_succ']
      congr 1
      omega
    have half : 2 ^ (bits - (currentPrefix + 1)) ∣ currentNet :=
      (pow_dvd_pow 2 (by omega)).trans aligned
    have middle : 2 ^ (bits - (currentPrefix + 1)) ∣
        currentNet + 2 ^ (bits - (currentPrefix + 1)) := half.add (dvd_refl _)
    have again : currentPrefix + 1 + steps = currentPrefix + (steps + 1) := by omega
    rw [← again] at childAligned high ⊢
    simp only [subtractLoop]
    split
    · rename_i upper
      -- The child is in the upper half; the lower one is kept.
      have rest := ih (currentNet + 2 ^ (bits - (currentPrefix + 1))) (currentPrefix + 1) (by omega)
        middle childAligned upper (by omega)
      have lower := Tiles.single currentNet (2 ^ (bits - (currentPrefix + 1)))
      have both := lower.append rest (by omega) (by omega)
      rw [Nat.add_assoc, ← double] at both
      refine both.perm ?_
      rw [List.map_cons]
      exact List.Perm.swap _ _ _
    · rename_i lower
      -- A block of the child's size ends at or before the midpoint when it starts before it.
      have childStep : 2 ^ (bits - (currentPrefix + 1 + steps)) ∣
          currentNet + 2 ^ (bits - (currentPrefix + 1)) :=
        (pow_dvd_pow 2 (by omega)).trans middle
      have ends : childBig + 2 ^ (bits - (currentPrefix + 1 + steps)) ≤
          currentNet + 2 ^ (bits - (currentPrefix + 1)) := by
        obtain ⟨child, base⟩ := childAligned
        obtain ⟨other, base'⟩ := childStep
        rw [base, base'] at lower ⊢
        have smaller : child + 1 ≤ other := Nat.lt_of_mul_lt_mul_left (Nat.lt_of_not_le lower)
        calc _ = 2 ^ (bits - (currentPrefix + 1 + steps)) * (child + 1) := by ring
          _ ≤ _ := Nat.mul_le_mul_left _ smaller
      have rest := ih currentNet (currentPrefix + 1) (by omega) half childAligned low ends
      have upper := Tiles.single (currentNet + 2 ^ (bits - (currentPrefix + 1)))
        (2 ^ (bits - (currentPrefix + 1)))
      have both := rest.append upper (by omega) (by omega)
      rw [Nat.add_assoc, ← double] at both
      refine both.perm ?_
      rw [List.map_cons, List.cons_append]
      exact (List.perm_append_singleton _ _).cons _

/-- For a child inside the parent the walk is read back, as blocks that leave out the child
and nothing else. -/
theorem subtractNetwork_blocks {parent child : Network} (avoids : parent.AvoidsMapped)
    (within : child.isWithin parent = true) :
    ∃ remainder, subtractNetwork parent child = .ok remainder ∧
      Partitions parent (child :: remainder) ∧ (∀ part ∈ remainder, part.family = parent.family) ∧
      remainder.map (fun part => (part.networkBig, part.prefixLen)) =
        subtractLoop parent.bits child.networkBig (child.prefixLen - parent.prefixLen)
          parent.networkBig parent.prefixLen := by
  obtain ⟨family, low, high, longer⟩ := Network.isWithin_iff.mp within
  have sameBits : child.bits = parent.bits := by rw [Network.bits, Network.bits, family]
  have childLen : parent.prefixLen + (child.prefixLen - parent.prefixLen) = child.prefixLen := by
    omega
  have childBound : child.prefixLen ≤ parent.bits := sameBits ▸ child.prefix_le
  have childSize : child.sizeBig = 2 ^ (parent.bits - child.prefixLen) := by
    rw [Network.sizeBig, sameBits]
  have parentAligned : 2 ^ (parent.bits - parent.prefixLen) ∣ parent.networkBig := parent.aligned
  have childAligned : 2 ^ (parent.bits - child.prefixLen) ∣ child.networkBig := by
    rw [← sameBits]
    exact child.aligned
  have fits : child.networkBig + child.sizeBig ≤ parent.networkBig + parent.sizeBig := by
    have positive := child.sizeBig_pos
    have positive' := parent.sizeBig_pos
    rw [Network.lastBig_eq, Network.lastBig_eq] at high
    omega
  have tiles := subtractLoop_tiles (child.prefixLen - parent.prefixLen) parent.networkBig
    parent.prefixLen (by rwa [childLen]) parentAligned (by rwa [childLen]) low (by
      rw [childLen, ← childSize]
      exact fits)
  have bounds := @subtractLoop_bounds parent.bits child.networkBig
    (child.prefixLen - parent.prefixLen) parent.networkBig parent.prefixLen (by rwa [childLen])
    parentAligned
  rw [childLen, ← childSize] at tiles
  have values : ∀ block ∈ subtractLoop parent.bits child.networkBig
      (child.prefixLen - parent.prefixLen) parent.networkBig parent.prefixLen,
      block.2 ≤ parent.bits ∧ 2 ^ (parent.bits - block.2) ∣ block.1 ∧ parent.HasValue block.1 := by
    intro block member
    obtain ⟨-, bound, aligned⟩ := bounds block member
    obtain ⟨low, high⟩ := tiles.inside _ (List.mem_cons_of_mem _ (List.mem_map_of_mem member))
    have positive : 0 < 2 ^ (parent.bits - block.2) := Nat.two_pow_pos _
    refine ⟨bound, aligned, Network.hasValue_iff.mpr ⟨low, ?_⟩⟩
    simp only [Network.sizeBig] at high ⊢
    omega
  obtain ⟨parts, read, families, same⟩ := readBlocks_ok avoids values
  have inside : ¬ (child.networkBig < parent.networkBig || parent.lastBig < child.lastBig) =
      true := by
    simp only [Bool.or_eq_true, decide_eq_true_eq, not_or, Nat.not_lt]
    exact ⟨low, high⟩
  refine ⟨parts, ?_, ?_, families, same⟩
  · rw [subtractNetwork, if_neg (not_not.mpr family), if_neg inside, if_neg (Nat.not_le.mpr longer)]
    exact read
  refine partitions_of_tiles (List.forall_mem_cons.mpr ⟨family, families⟩)
    (List.forall_mem_cons.mpr ⟨longer, ?_⟩) ?_
  · intro part member
    have block : (part.networkBig, part.prefixLen) ∈ subtractLoop parent.bits child.networkBig
        (child.prefixLen - parent.prefixLen) parent.networkBig parent.prefixLen := by
      rw [← same]
      exact List.mem_map_of_mem member
    exact (bounds _ block).1
  · rw [List.map_cons, map_interval_eq families same]
    exact tiles

/-- **The child and what is left of the parent are a partition of the parent.** -/
theorem subtractNetwork_partitions {parent child : Network} (avoids : parent.AvoidsMapped)
    {remainder : List Network} (done : subtractNetwork parent child = .ok remainder) :
    Partitions parent (child :: remainder) := by
  have within : child.isWithin parent = true := by
    rw [subtractNetwork] at done
    split at done
    · cases done
    rename_i family
    split at done
    · cases done
    rename_i inside
    split at done
    · cases done
    rename_i longer
    simp only [Bool.or_eq_true, decide_eq_true_eq, not_or, Nat.not_lt] at inside
    exact Network.isWithin_iff.mpr
      ⟨not_not.mp family, inside.1, inside.2, Nat.lt_of_not_le longer⟩
  obtain ⟨parts, cut, partitions, -⟩ := subtractNetwork_blocks avoids within
  rw [cut] at done
  obtain rfl := Except.ok.inj done
  exact partitions

/-! ## Joining networks -/

/-- The first loop of `mergeNetworks`, over networks in the order of their addresses. -/
def checkContiguous : List Network → Except CidrError Unit
  | left :: right :: rest =>
    if right.networkBig ≤ left.lastBig then .error .networksOverlap
    else if right.networkBig ≠ left.lastBig + 1 then .error .notContiguous
    else checkContiguous (right :: rest)
  | _ => .ok ()

/-- The part of `mergeNetworks` after the sort. -/
def mergeSorted (sorted : List Network) : Except CidrError Network := do
  checkContiguous sorted
  let total := (sorted.map Network.sizeBig).sum
  if total &&& (total - 1) ≠ 0 then .error .notPowerOfTwo
  else
    match sorted.head?, sorted.getLast? with
    | some first, some last =>
      if first.networkBig % total ≠ 0 || last.lastBig ≠ first.networkBig + total - 1 then
        .error .notAligned
      else
        match networkAt first.family first.networkBig (first.bits - Nat.log2 total) with
        | some merged => .ok merged
        | none => .error .invalidNotation
    | _, _ => .error .needTwoNetworks

/-- `mergeNetworks`: the network that a set of networks covers exactly, without gaps. -/
def mergeNetworks (nets : List Network) : Except CidrError Network :=
  match nets with
  | first :: _ :: _ =>
    if nets.any (·.family ≠ first.family) then .error .differentFamilies
    else mergeSorted (nets.insertionSort (·.networkBig ≤ ·.networkBig))
  | _ => .error .needTwoNetworks

theorem tiles_of_checkContiguous {first last : Network} {rest : List Network}
    (joined : checkContiguous (first :: rest) = .ok ())
    (ends : (first :: rest).getLast? = some last) :
    first.networkBig ≤ last.lastBig ∧
      Tiles first.networkBig (last.lastBig + 1) ((first :: rest).map Network.interval) := by
  have next : first.lastBig + 1 = first.networkBig + first.sizeBig := by
    have positive := first.sizeBig_pos
    rw [Network.lastBig_eq]
    omega
  induction rest generalizing first with
  | nil =>
    obtain rfl : first = last := by simpa using ends
    rw [next]
    exact ⟨first.networkBig_le_lastBig, Tiles.single _ _⟩
  | cons second rest ih =>
    rw [checkContiguous] at joined
    split at joined
    · exact absurd joined (by simp)
    split at joined
    · exact absurd joined (by simp)
    rename_i starts
    rw [ne_eq, not_not] at starts
    rw [List.getLast?_cons_cons] at ends
    have positive := second.sizeBig_pos
    have positive' := first.sizeBig_pos
    obtain ⟨order, tiles⟩ := ih joined ends (by rw [Network.lastBig_eq]; omega)
    have lead := Tiles.single first.networkBig first.sizeBig
    rw [← next, ← starts] at lead
    refine ⟨by omega, ?_⟩
    exact lead.append tiles (by omega) (by omega)

theorem le_sum_of_two_mem {sizes : List Nat} (positive : ∀ size ∈ sizes, 0 < size)
    (two : 2 ≤ sizes.length) : ∀ size ∈ sizes, size < sizes.sum := by
  intro size member
  obtain ⟨before, after, rfl⟩ := List.append_of_mem member
  have other : 0 < before.sum + after.sum := by
    cases before with
    | cons head tail =>
      have := positive head (by simp)
      simp only [List.sum_cons]
      omega
    | nil =>
      cases after with
      | cons head tail =>
        have := positive head (by simp)
        simp only [List.sum_cons]
        omega
      | nil => simp at two
  simp only [List.sum_append, List.sum_cons]
  omega

/-- What `mergeSorted` returns has the sources as its parts. -/
theorem mergeSorted_partitions {sorted : List Network} {merged : Network} {family : Family}
    (families : ∀ net ∈ sorted, net.family = family) (two : 2 ≤ sorted.length)
    (done : mergeSorted sorted = .ok merged) : Partitions merged sorted := by
  rw [mergeSorted] at done
  obtain ⟨⟨⟩, joined, done⟩ := bind_eq_ok.mp done
  simp only at done
  split at done
  · exact absurd done (by simp)
  rename_i power
  rw [ne_eq, not_not] at power
  split at done
  case h_2 => exact absurd done (by simp)
  rename_i first last starts ends
  split at done
  · exact absurd done (by simp)
  rename_i aligned
  simp only [ne_eq, decide_not, Bool.or_eq_true, Bool.not_eq_true', decide_eq_false_iff_not,
    not_or, not_not] at aligned
  obtain ⟨rest, rfl⟩ : ∃ rest, sorted = first :: rest := by
    cases sorted with
    | nil => simp at starts
    | cons head rest =>
      obtain rfl : head = first := by simpa using starts
      exact ⟨rest, rfl⟩
  obtain ⟨order, tiles⟩ := tiles_of_checkContiguous joined ends
  have smaller : ∀ net ∈ first :: rest,
      net.sizeBig < ((first :: rest).map Network.sizeBig).sum := by
    intro net member
    refine le_sum_of_two_mem ?_ (by simpa using two) _ (List.mem_map_of_mem member)
    intro size memberSize
    obtain ⟨other, -, rfl⟩ := List.mem_map.mp memberSize
    exact other.sizeBig_pos
  generalize ((first :: rest).map Network.sizeBig).sum = total at power aligned smaller done
  have positive : 0 < total := Nat.zero_lt_of_lt (smaller first List.mem_cons_self)
  obtain ⟨exponent, rfl⟩ := (Nat.and_sub_one_eq_zero_iff_isPowerOfTwo (by omega)).mp power
  have whole : last.lastBig + 1 = first.networkBig + 2 ^ exponent := by omega
  have lastFamily : last.family = first.family := by
    rw [families last (List.mem_of_getLast? ends), families first List.mem_cons_self]
  have top : last.lastBig < 2 ^ first.bits := by
    rw [Network.bits, ← lastFamily]
    exact last.lastBig_lt
  have small : exponent ≤ first.bits := by
    refine (Nat.pow_le_pow_iff_right (by decide : 1 < 2)).mp ?_
    omega
  have host : first.bits - (first.bits - exponent) = exponent := by omega
  rw [Nat.log2_two_pow] at done
  obtain ⟨block, read, family', base, len⟩ := networkAt_of_aligned
    (Nat.sub_le first.bits exponent) (by
      rw [show first.family.bits - (first.bits - exponent) = exponent from host]
      exact Nat.dvd_of_mod_eq_zero aligned.1) first.fits first.unmapped
  simp only [read] at done
  obtain rfl := Except.ok.inj done
  have sameBits : block.bits = first.bits := by rw [Network.bits, family', Network.bits]
  have size : block.sizeBig = 2 ^ exponent := by rw [Network.sizeBig, sameBits, len, host]
  refine partitions_of_tiles ?_ ?_ ?_
  · intro net member
    rw [families net member, family', families first List.mem_cons_self]
  · intro net member
    have less := smaller net member
    have netBits : net.bits = first.bits := by
      rw [Network.bits, families net member, Network.bits, families first List.mem_cons_self]
    rw [Network.sizeBig, netBits] at less
    have exponents := (Nat.pow_lt_pow_iff_right (by decide : 1 < 2)).mp less
    omega
  · rw [base, size, ← whole]
    exact tiles

/-- **The networks of a merge are a partition of the merged network.** -/
theorem mergeNetworks_partitions {nets : List Network} {merged : Network}
    (done : mergeNetworks nets = .ok merged) : Partitions merged nets := by
  unfold mergeNetworks at done
  split at done
  · rename_i first second rest
    split at done
    · exact absurd done (by simp)
    rename_i sameFamily
    have order := List.perm_insertionSort (fun left right : Network =>
      left.networkBig ≤ right.networkBig) (first :: second :: rest)
    have families : ∀ net ∈ first :: second :: rest, net.family = first.family := by
      intro net member
      by_contra differs
      exact sameFamily (List.any_eq_true.mpr ⟨net, member, by simpa using differs⟩)
    have parts := mergeSorted_partitions (fun net member => families net (order.mem_iff.mp member))
      (by rw [order.length_eq]; simp) done
    refine ⟨fun part member => parts.within part (order.mem_iff.mpr member), ?_, ?_⟩
    · refine (order.pairwise_iff ?_).mp parts.apart
      intro left right apart
      rw [Network.overlaps_comm]
      exact apart
    · intro value inside
      obtain ⟨part, member, has⟩ := parts.covers value inside
      exact ⟨part, order.mem_iff.mp member, has⟩
  · exact absurd done (by simp)

/-! ## Networks that may be taken in -/

/-- `RESERVED_RANGES`: the reserved and private ranges of both families. -/
def reservedRanges : List (Text × Text) :=
  [("10.0.0.0/8".toList, "RFC1918 Class A".toList),
   ("172.16.0.0/12".toList, "RFC1918 Class B".toList),
   ("192.168.0.0/16".toList, "RFC1918 Class C".toList),
   ("100.64.0.0/10".toList, "CGNAT (RFC6598)".toList),
   ("169.254.0.0/16".toList, "Link-Local (RFC3927)".toList),
   ("127.0.0.0/8".toList, "Loopback (RFC1122)".toList),
   ("224.0.0.0/4".toList, "Multicast (RFC5771)".toList),
   ("240.0.0.0/4".toList, "Reserved (RFC1112)".toList),
   ("fc00::/7".toList, "Unique Local (RFC4193)".toList),
   ("fe80::/10".toList, "Link-Local (RFC4291)".toList),
   ("::1/128".toList, "Loopback (RFC4291)".toList),
   ("ff00::/8".toList, "Multicast (RFC4291)".toList),
   ("2001:db8::/32".toList, "Documentation (RFC3849)".toList)]

/-- The loop of `validateNetworkBounds`: the first reserved range the network touches must
hold all of it. -/
def checkReserved (net : Network) : List (Text × Text) → Except CidrError Unit
  | [] => .ok ()
  | (cidr, name) :: rest =>
    match parseNetwork cidr with
    | none => .error .invalidNotation
    | some reserved =>
      if net.overlaps reserved then
        if reserved.networkBig ≤ net.networkBig && net.lastBig ≤ reserved.lastBig then .ok ()
        else .error (.beyondReserved net name reserved)
      else checkReserved net rest

/-- `validateNetworkBounds`. -/
def validateNetworkBounds (net : Network) : Except CidrError Unit :=
  if net.family = .v6 && net.networkBig ≤ Address.v4MappedLast &&
      Address.v4MappedPrefix ≤ net.lastBig then
    .error (.overlapsMapped net)
  else checkReserved net reservedRanges

theorem avoidsMapped_of_validateNetworkBounds {net : Network}
    (valid : validateNetworkBounds net = .ok ()) : net.AvoidsMapped := by
  intro six mapped
  rw [validateNetworkBounds, if_pos (by simpa [six] using mapped)] at valid
  exact absurd valid (by simp)

end Cidrella
