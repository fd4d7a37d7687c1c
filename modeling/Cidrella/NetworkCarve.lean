import Cidrella.NetworkMerge

/-!
# Carving and splitting are reversible

`subtractNetwork` writes the blocks of a parent without a child, and `splitNetwork` the
blocks of one prefix inside a parent. Both are partitions (`Cidr.lean`); here they are
put back together by `mergeNetworks`, and the carve is shown to be the shortest one.

A remainder block is the half without the child of a block that holds the child. So a
block that reaches beyond a remainder block reaches the child
(`subtractLoop_sibling`), and a block that avoids the child meets at most one remainder
block: covering the remainder takes as many blocks as there are (`remainder_minimal`).
-/

set_option autoImplicit false

namespace Cidrella

open Network

/-- `subtractNetwork` on texts, which writes its blocks out and does not read them again;
`none` is a text that is refused. -/
def subtractCidrs (parentCidr childCidr : Text) : Option (Except CidrError (List Text)) := do
  let parent ← parseNetwork parentCidr
  let child ← parseNetwork childCidr
  some
    (if child.family ≠ parent.family then .error .notWithinParent
    else if child.networkBig < parent.networkBig || parent.lastBig < child.lastBig then
      .error .notWithinParent
    else if child.prefixLen ≤ parent.prefixLen then .error .prefixNotLonger
    else
      .ok ((subtractLoop parent.bits child.networkBig (child.prefixLen - parent.prefixLen)
        parent.networkBig parent.prefixLen).map fun block =>
          networkText parent.family block.1 block.2))

/-- `splitNetwork` on a text, with its parsed networks. -/
def splitCidr (cidr : Text) (newPrefix maxCount : Nat) :
    Option (Except CidrError (List Network)) := do
  let parent ← parseNetwork cidr
  some (splitNetwork parent newPrefix maxCount)

/-! ## Written blocks -/

theorem map_cidr_eq {family : Family} {parts : List Network} {blocks : List (Nat × Nat)}
    (families : ∀ part ∈ parts, part.family = family)
    (same : parts.map (fun part => (part.networkBig, part.prefixLen)) = blocks) :
    parts.map Network.cidr = blocks.map fun block => networkText family block.1 block.2 := by
  rw [← same, List.map_map]
  refine List.map_congr_left fun part member => ?_
  rw [Network.cidr, families part member]
  rfl

theorem mapM_parseNetwork_cidr (parts : List Network) :
    (parts.map Network.cidr).mapM parseNetwork = some parts :=
  Address.mapM_map_of_left_inverse fun part _ => parseNetwork_cidr part

theorem mergeCidrs_of_partitions {cidrs : List Text} {parts : List Network} {parent : Network}
    (two : 2 ≤ cidrs.length) (read : cidrs.mapM parseNetwork = some parts)
    (partitions : Partitions parent parts) : mergeCidrs cidrs = some (.ok parent.cidr) := by
  have many : 2 ≤ parts.length := (Address.length_of_mapM_eq_some read).1 ▸ two
  rw [mergeCidrs_eq two read, (mergeNetworks_eq_ok_iff many parent).mpr (.of_partitions partitions)]
  rfl

/-! ## The walk to the child -/

theorem length_subtractLoop (bits childBig : Nat) (steps currentNet currentPrefix : Nat) :
    (subtractLoop bits childBig steps currentNet currentPrefix).length = steps := by
  induction steps generalizing currentNet currentPrefix with
  | zero => rfl
  | succ steps ih =>
    simp only [subtractLoop]
    split <;> rw [List.length_cons, ih]

/-- A block of the walk is half of a block that holds the child. -/
theorem subtractLoop_sibling {bits childBig : Nat} (steps currentNet currentPrefix : Nat)
    (bound : currentPrefix + steps ≤ bits) (aligned : 2 ^ (bits - currentPrefix) ∣ currentNet)
    (low : currentNet ≤ childBig) (high : childBig < currentNet + 2 ^ (bits - currentPrefix)) :
    ∀ block ∈ subtractLoop bits childBig steps currentNet currentPrefix,
      childBig / 2 ^ (bits - block.2 + 1) = block.1 / 2 ^ (bits - block.2 + 1) := by
  induction steps generalizing currentNet currentPrefix with
  | zero => simp [subtractLoop]
  | succ steps ih =>
    have double : 2 ^ (bits - currentPrefix) =
        2 ^ (bits - (currentPrefix + 1)) + 2 ^ (bits - (currentPrefix + 1)) := by
      rw [← Nat.two_mul, ← Nat.pow_succ']
      congr 1
      omega
    have half : 2 ^ (bits - (currentPrefix + 1)) ∣ currentNet :=
      (pow_dvd_pow 2 (by omega)).trans aligned
    have middle : 2 ^ (bits - (currentPrefix + 1)) ∣
        currentNet + 2 ^ (bits - (currentPrefix + 1)) := half.add (dvd_refl _)
    have above : bits - (currentPrefix + 1) + 1 = bits - currentPrefix := by omega
    have positive := Nat.two_pow_pos (bits - (currentPrefix + 1))
    -- Everything in the current block has its quotient.
    have quotient : ∀ value, currentNet ≤ value → value < currentNet + 2 ^ (bits - currentPrefix) →
        value / 2 ^ (bits - currentPrefix) = currentNet / 2 ^ (bits - currentPrefix) := by
      intro value first last
      have index := Nat.div_mul_cancel aligned
      have member : value ∈ dyadic (bits - currentPrefix)
          (currentNet / 2 ^ (bits - currentPrefix)) :=
        mem_dyadic_iff_interval.mpr (by omega)
      exact member
    have child := quotient childBig low high
    intro block member
    simp only [subtractLoop] at member
    split at member
    · rename_i upper
      rcases List.mem_cons.mp member with rfl | member
      · rw [above, child]
      · exact ih _ _ (by omega) middle upper (by omega) block member
    · rcases List.mem_cons.mp member with rfl | member
      · have other := quotient (currentNet + 2 ^ (bits - (currentPrefix + 1))) (by omega) (by omega)
        rw [above, child, other]
      · exact ih _ _ (by omega) half low (by omega) block member

/-! ## The shortest carve -/

/-- Each of `as` is served by one of `bs`, and none of `bs` serves two: there are at least
as many of `bs`. -/
theorem length_le_of_served {α β : Type} (serves : β → α → Prop) :
    ∀ {as : List α} {bs : List β}, (∀ a ∈ as, ∃ b ∈ bs, serves b a) →
      (as.Pairwise fun a a' => ∀ b ∈ bs, serves b a → ¬ serves b a') → as.length ≤ bs.length
  | [], _, _, _ => Nat.zero_le _
  | a :: as, bs, served, apart => by
      obtain ⟨b, member, first⟩ := served a List.mem_cons_self
      obtain ⟨before, after, rfl⟩ := List.append_of_mem member
      obtain ⟨apartFirst, apartRest⟩ := List.pairwise_cons.mp apart
      have within : ∀ c ∈ before ++ after, c ∈ before ++ b :: after := by
        intro c memberC
        rcases List.mem_append.mp memberC with left | right
        · exact List.mem_append_left _ left
        · exact List.mem_append_right _ (List.mem_cons_of_mem _ right)
      have rest : ∀ a' ∈ as, ∃ c ∈ before ++ after, serves c a' := by
        intro a' memberA
        obtain ⟨c, memberC, serve⟩ := served a' (List.mem_cons_of_mem _ memberA)
        rcases List.mem_append.mp memberC with left | right
        · exact ⟨c, List.mem_append_left _ left, serve⟩
        · rcases List.mem_cons.mp right with rfl | right
          · exact absurd serve (apartFirst a' memberA c member first)
          · exact ⟨c, List.mem_append_right _ right, serve⟩
      have fewer := length_le_of_served serves rest
        (apartRest.imp fun apart c memberC => apart c (within c memberC))
      rw [List.length_append] at fewer
      rw [List.length_append, List.length_cons, List.length_cons]
      omega

theorem values_of_meets_beyond {net part : Network} {value : Nat} (inPart : value ∈ part.values)
    (inNet : value ∈ net.values) (beyond : ¬ net.values ⊆ part.values) :
    dyadic (part.host + 1) (part.networkBig / 2 ^ (part.host + 1)) ⊆ net.values := by
  have wider : part.host < net.host := by
    by_contra narrow
    exact beyond (dyadic_subset_of_meet (Nat.not_lt.mp narrow) ⟨value, inNet, inPart⟩)
  refine dyadic_subset_of_meet wider ⟨value, ?_, inNet⟩
  have base : part.networkBig ∈ part.values :=
    hasValue_iff_mem.mp ⟨le_rfl, part.networkBig_le_lastBig⟩
  exact div_two_pow_eq_of_le (Nat.le_succ part.host) (inPart.trans base.symm)

/-- **No fewer blocks cover the remainder.** -/
theorem remainder_minimal {parent child : Network} {remainder : List Network}
    (partitions : Partitions parent (child :: remainder))
    (sibling : ∀ part ∈ remainder,
      child.networkBig / 2 ^ (part.host + 1) = part.networkBig / 2 ^ (part.host + 1))
    {others : List Network}
    (cover : (⋃ net ∈ others, net.addresses) = parent.addresses \ child.addresses) :
    remainder.length ≤ others.length := by
  obtain ⟨apartChild, apart⟩ := List.pairwise_cons.mp partitions.apart
  have family : ∀ part ∈ child :: remainder, part.family = parent.family := fun part member =>
    (isWithin_iff.mp (partitions.within part member)).1
  refine length_le_of_served
    (fun (net part : Network) => (net.addresses ∩ part.addresses).Nonempty) ?_ ?_
  · intro part member
    have inside := part.networkBig_mem
    have covered : (part.family, part.networkBig) ∈ ⋃ net ∈ others, net.addresses := by
      rw [cover]
      refine ⟨(isWithin_iff_ssubset.mp
        (partitions.within part (List.mem_cons_of_mem _ member))).subset inside, fun inChild => ?_⟩
      exact Set.disjoint_left.mp (disjoint_iff_overlaps.mpr (apartChild part member)) inChild inside
    obtain ⟨net, memberNet, has⟩ := Set.mem_iUnion₂.mp covered
    exact ⟨net, memberNet, _, has, inside⟩
  · refine apart.imp_of_mem fun {left right} memberLeft memberRight apart net memberNet meets
      meets' => ?_
    obtain ⟨⟨netFamily, value⟩, ⟨sameFamily, inNet⟩, leftFamily, inLeft⟩ := meets
    obtain ⟨address, ⟨-, inNet'⟩, -, inRight⟩ := meets'
    have disjoint := disjoint_iff_overlaps.mpr apart
    -- What the network has in the right block is not in the left one.
    have beyond : ¬ net.values ⊆ left.values := by
      intro inside
      have sameRight : left.family = right.family :=
        (family left (List.mem_cons_of_mem _ memberLeft)).trans
          (family right (List.mem_cons_of_mem _ memberRight)).symm
      have inLeft' : (left.family, address.2) ∈ left.addresses := ⟨rfl, inside inNet'⟩
      exact Set.disjoint_left.mp disjoint inLeft' ⟨sameRight, inRight⟩
    have reach := values_of_meets_beyond inLeft inNet beyond
    -- The double of the left block holds the child, which no cover of the remainder meets.
    have inChild : (child.family, child.networkBig) ∈ net.addresses := by
      refine ⟨?_, reach (sibling left memberLeft)⟩
      calc child.family = parent.family := family child List.mem_cons_self
        _ = left.family := (family left (List.mem_cons_of_mem _ memberLeft)).symm
        _ = net.family := leftFamily.symm.trans sameFamily
    have covered : (child.family, child.networkBig) ∈ parent.addresses \ child.addresses := by
      rw [← cover]
      exact Set.mem_biUnion memberNet inChild
    exact covered.2 child.networkBig_mem

/-! ## The carve and the split, there and back -/

theorem subtractCidrs_eq {parentCidr childCidr : Text} {parent child : Network}
    (readParent : parseNetwork parentCidr = some parent)
    (readChild : parseNetwork childCidr = some child) (within : child.isWithin parent = true) :
    subtractCidrs parentCidr childCidr =
      some (.ok ((subtractLoop parent.bits child.networkBig (child.prefixLen - parent.prefixLen)
        parent.networkBig parent.prefixLen).map fun block =>
          networkText parent.family block.1 block.2)) := by
  obtain ⟨family, low, high, longer⟩ := isWithin_iff.mp within
  have inside : ¬ (child.networkBig < parent.networkBig || parent.lastBig < child.lastBig) =
      true := by
    simp only [Bool.or_eq_true, decide_eq_true_eq, not_or, Nat.not_lt]
    exact ⟨low, high⟩
  rw [subtractCidrs, readParent, readChild, Option.bind_eq_bind, Option.bind_some, Option.bind_some,
    if_neg (not_not.mpr family), if_neg inside, if_neg (Nat.not_le.mpr longer)]

theorem remainder_sibling {parent child : Network} {remainder : List Network}
    (within : child.isWithin parent = true)
    (families : ∀ part ∈ remainder, part.family = parent.family)
    (same : remainder.map (fun part => (part.networkBig, part.prefixLen)) =
      subtractLoop parent.bits child.networkBig (child.prefixLen - parent.prefixLen)
        parent.networkBig parent.prefixLen) :
    ∀ part ∈ remainder,
      child.networkBig / 2 ^ (part.host + 1) = part.networkBig / 2 ^ (part.host + 1) := by
  obtain ⟨family, low, high, longer⟩ := isWithin_iff.mp within
  have sameBits : child.bits = parent.bits := by rw [bits, bits, family]
  have childBound : child.prefixLen ≤ child.bits := child.prefix_le
  have start := child.networkBig_le_lastBig
  have inside : child.networkBig < parent.networkBig + 2 ^ (parent.bits - parent.prefixLen) :=
    (hasValue_iff.mp ⟨low, start.trans high⟩).2
  have siblings := @subtractLoop_sibling parent.bits child.networkBig
    (child.prefixLen - parent.prefixLen) parent.networkBig parent.prefixLen (by omega)
    parent.aligned low inside
  intro part member
  have block : (part.networkBig, part.prefixLen) ∈ subtractLoop parent.bits child.networkBig
      (child.prefixLen - parent.prefixLen) parent.networkBig parent.prefixLen := by
    rw [← same]
    exact List.mem_map_of_mem member
  have host : part.host = parent.bits - part.prefixLen := by
    rw [Network.host, bits, families part member, bits]
  rw [host]
  exact siblings _ block

/-- **A carve is exact, shortest and reversible, and so is a split.** For a parent that
does not reach into `::ffff:0:0/96`: with a child inside it, the child and the blocks
written are apart and make up the parent, there is one block for each prefix bit between
the two, no fewer blocks cover what the child leaves, and merging all the texts gives the
parent back; and the blocks of a longer prefix, when not too many, are in ascending order
and make up the parent, and merging them gives the parent back. -/
theorem carve_and_split_exact {parentCidr : Text} {parent : Network}
    (readParent : parseNetwork parentCidr = some parent) (avoids : parent.AvoidsMapped) :
    (∀ childCidr child, parseNetwork childCidr = some child → child.isWithin parent = true →
      ∃ texts blocks, subtractCidrs parentCidr childCidr = some (.ok texts) ∧
        texts.mapM parseNetwork = some blocks ∧
        (child :: blocks).Pairwise (fun left right => Disjoint left.addresses right.addresses) ∧
        (⋃ net ∈ child :: blocks, net.addresses) = parent.addresses ∧
        texts.length = child.prefixLen - parent.prefixLen ∧
        (∀ others : List Network,
          (⋃ net ∈ others, net.addresses) = parent.addresses \ child.addresses →
            texts.length ≤ others.length) ∧
        mergeCidrs (childCidr :: texts) = some (.ok parent.cidr)) ∧
    (∀ newPrefix maxCount, parent.prefixLen < newPrefix → newPrefix ≤ parent.bits →
      2 ^ (newPrefix - parent.prefixLen) ≤ maxCount →
      ∃ parts, splitCidr parentCidr newPrefix maxCount = some (.ok parts) ∧
        parts.length = 2 ^ (newPrefix - parent.prefixLen) ∧
        (∀ part ∈ parts, part.prefixLen = newPrefix) ∧
        parts.Pairwise (fun left right => left.lastBig < right.networkBig) ∧
        parts.Pairwise (fun left right => Disjoint left.addresses right.addresses) ∧
        (⋃ net ∈ parts, net.addresses) = parent.addresses ∧
        mergeCidrs (parts.map Network.cidr) = some (.ok parent.cidr)) := by
  constructor
  · intro childCidr child readChild within
    obtain ⟨remainder, -, partitions, families, same⟩ := subtractNetwork_blocks avoids within
    have written := subtractCidrs_eq readParent readChild within
    have texts := map_cidr_eq families same
    rw [← texts] at written
    have whole := IsUnion.of_partitions partitions
    have count : (remainder.map Network.cidr).length = child.prefixLen - parent.prefixLen := by
      rw [texts, List.length_map, length_subtractLoop]
    have longer := (isWithin_iff.mp within).2.2.2
    refine ⟨_, remainder, written, mapM_parseNetwork_cidr remainder, whole.apart,
      whole.union, count, fun others cover => ?_, ?_⟩
    · rw [List.length_map]
      exact remainder_minimal partitions (remainder_sibling within families same) cover
    · refine mergeCidrs_of_partitions ?_ ?_ partitions
      · rw [List.length_cons, count]
        omega
      · rw [List.mapM_cons, readChild, mapM_parseNetwork_cidr]
        rfl
  · intro newPrefix maxCount longer bound few
    obtain ⟨parts, cut, partitions, same⟩ := splitNetwork_blocks avoids longer bound few
    have whole := IsUnion.of_partitions partitions
    have count : parts.length = 2 ^ (newPrefix - parent.prefixLen) := by
      have lengths := congrArg List.length same
      rwa [List.length_map, List.length_map, List.length_range] at lengths
    have prefixes : ∀ part ∈ parts, part.prefixLen = newPrefix := by
      intro part member
      have block : (part.networkBig, part.prefixLen) ∈
          parts.map fun part => (part.networkBig, part.prefixLen) := List.mem_map_of_mem member
      rw [same] at block
      obtain ⟨i, -, pair⟩ := List.mem_map.mp block
      exact (Prod.mk.inj pair).2.symm
    have ascending : parts.Pairwise StartsBefore := by
      have starts : parts.map Network.networkBig =
          (List.range (2 ^ (newPrefix - parent.prefixLen))).map fun i =>
            parent.networkBig + i * 2 ^ (parent.bits - newPrefix) := by
        have firsts := congrArg (List.map Prod.fst) same
        rwa [List.map_map, List.map_map] at firsts
      have bases : (parts.map Network.networkBig).Pairwise (· ≤ ·) := by
        rw [starts]
        refine List.pairwise_map.mpr (List.pairwise_lt_range.imp fun {i j} less => ?_)
        exact Nat.add_le_add_left (Nat.mul_le_mul_right _ less.le) _
      exact (List.pairwise_map.mp bases).imp fun {_ _} before => before
    have two : 2 ≤ parts.length := by
      rw [count]
      exact Nat.le_self_pow (by omega) 2
    refine ⟨parts, ?_, count, prefixes, whole.ends_before ascending, whole.apart, whole.union, ?_⟩
    · rw [splitCidr, readParent, Option.bind_eq_bind, Option.bind_some, cut]
    · exact mergeCidrs_of_partitions (by rwa [List.length_map])
        (mapM_parseNetwork_cidr parts) partitions

theorem carve_and_split_exact_at_slash_24 :
    (∃ texts, subtractCidrs "10.0.0.0/24".toList "10.0.0.64/27".toList = some (.ok texts) ∧
      texts.length = 27 - 24 ∧
      mergeCidrs ("10.0.0.64/27".toList :: texts) = some (.ok "10.0.0.0/24".toList)) ∧
    ∃ parts, splitCidr "10.0.0.0/24".toList 26 65536 = some (.ok parts) ∧
      parts.length = 2 ^ (26 - 24) := by
  have readParent : parseNetwork "10.0.0.0/24".toList =
      some ⟨.v4, 0x0a000000, 24, by decide, by decide, by decide, by decide⟩ := by decide
  have readChild : parseNetwork "10.0.0.64/27".toList =
      some ⟨.v4, 0x0a000040, 27, by decide, by decide, by decide, by decide⟩ := by decide
  obtain ⟨carve, split⟩ := carve_and_split_exact readParent (by decide)
  obtain ⟨texts, blocks, written, -, -, -, count, -, merged⟩ :=
    carve "10.0.0.64/27".toList _ readChild (by decide)
  obtain ⟨parts, cut, many, -⟩ := split 26 65536 (by decide) (by decide) (by decide)
  exact ⟨⟨texts, written, count, merged.trans (by decide)⟩, parts, cut, many⟩

end Cidrella
