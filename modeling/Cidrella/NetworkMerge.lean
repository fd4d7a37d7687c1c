import Cidrella.NetworkRelations

/-!
# Merging is exact

`mergeNetworks` sorts the networks, walks them once to see that each starts where the one
before it ends, and tests the size and the alignment of the whole. What it accepts is a
partition (`mergeNetworks_partitions`); here is the converse, that it accepts every
partition of a network (`mergeNetworks_of_union`), and that the order in which the
networks are given does not matter (`mergeNetworks_perm`), not even for which error is
reported.

Networks given twice, or with the same network address, are where two sorts of one list
can differ. Both walks stop there with the same error, because the walk has only looked
at network addresses so far.
-/

set_option autoImplicit false

namespace Cidrella

open Network

/-- `mergeNetworks` on texts; `none` is a text that is refused. -/
def mergeCidrs (cidrs : List Text) : Option (Except CidrError Text) :=
  if cidrs.length < 2 then some (.error .needTwoNetworks)
  else do
    let nets ← cidrs.mapM parseNetwork
    some ((mergeNetworks nets).map Network.cidr)

/-! ## The order of the networks -/

/-- The order `mergeNetworks` sorts by. -/
def StartsBefore (left right : Network) : Prop := left.networkBig ≤ right.networkBig

instance : DecidableRel StartsBefore := fun left right =>
  inferInstanceAs (Decidable (left.networkBig ≤ right.networkBig))

instance : Std.Total StartsBefore :=
  ⟨fun left right => Nat.le_total left.networkBig right.networkBig⟩

instance : IsTrans Network StartsBefore := ⟨fun _ _ _ => Nat.le_trans⟩

/-- The networks as `mergeNetworks` walks them. -/
def inOrder (nets : List Network) : List Network :=
  nets.insertionSort (·.networkBig ≤ ·.networkBig)

theorem inOrder_perm (nets : List Network) : (inOrder nets).Perm nets :=
  List.perm_insertionSort _ nets

theorem inOrder_sorted (nets : List Network) : (inOrder nets).Pairwise StartsBefore :=
  List.pairwise_insertionSort StartsBefore nets

theorem starts_le_of_mem {first net : Network} {rest : List Network}
    (sorted : (first :: rest).Pairwise StartsBefore) (member : net ∈ first :: rest) :
    first.networkBig ≤ net.networkBig := by
  rcases List.mem_cons.mp member with rfl | member
  · exact le_rfl
  · exact (List.pairwise_cons.mp sorted).1 net member

theorem starts_eq_of_perm {first first' : Network} {rest rest' : List Network}
    (same : (first :: rest).Perm (first' :: rest')) (sorted : (first :: rest).Pairwise StartsBefore)
    (sorted' : (first' :: rest').Pairwise StartsBefore) : first.networkBig = first'.networkBig :=
  Nat.le_antisymm (starts_le_of_mem sorted (same.mem_iff.mpr List.mem_cons_self))
    (starts_le_of_mem sorted' (same.mem_iff.mp List.mem_cons_self))

theorem checkContiguous_of_twice {first net : Network} {rest : List Network}
    (sorted : (first :: rest).Pairwise StartsBefore) (member : net ∈ rest)
    (twice : net.networkBig = first.networkBig) :
    checkContiguous (first :: rest) = .error .networksOverlap := by
  cases rest with
  | nil => cases member
  | cons second rest =>
    have second_le := starts_le_of_mem (List.pairwise_cons.mp sorted).2 member
    have reach := first.networkBig_le_lastBig
    rw [checkContiguous, if_pos (by omega)]

/-- The walk sees the same in any two orders of the same networks, and when it sees
nothing wrong the orders are the same. -/
theorem checkContiguous_perm {left right : List Network} (same : left.Perm right)
    (sortedLeft : left.Pairwise StartsBefore) (sortedRight : right.Pairwise StartsBefore) :
    checkContiguous left = checkContiguous right ∧
      (checkContiguous left = .ok () → left = right) := by
  induction left generalizing right with
  | nil =>
    obtain rfl := same.nil_eq
    exact ⟨rfl, fun _ => rfl⟩
  | cons first left ih =>
    cases right with
    | nil => exact absurd same.symm (List.not_perm_nil_cons first left)
    | cons first' right =>
      have starts := starts_eq_of_perm same sortedLeft sortedRight
      by_cases one : first = first'
      · subst one
        have tails := same.cons_inv
        obtain ⟨-, restLeft⟩ := List.pairwise_cons.mp sortedLeft
        obtain ⟨-, restRight⟩ := List.pairwise_cons.mp sortedRight
        obtain ⟨checks, equal⟩ := ih tails restLeft restRight
        cases left with
        | nil =>
          obtain rfl := tails.nil_eq
          exact ⟨rfl, fun _ => rfl⟩
        | cons second left =>
          cases right with
          | nil => exact absurd tails.symm (List.not_perm_nil_cons second left)
          | cons second' right =>
            have seconds := starts_eq_of_perm tails restLeft restRight
            simp only [checkContiguous, seconds, checks]
            refine ⟨trivial, fun done => ?_⟩
            split at done
            · cases done
            · split at done
              · cases done
              · rw [equal (checks.trans done)]
      · -- Two networks of that address: both walks stop at the second one.
        have inLeft : first' ∈ left :=
          List.mem_of_ne_of_mem (Ne.symm one) (same.mem_iff.mpr List.mem_cons_self)
        have inRight : first ∈ right :=
          List.mem_of_ne_of_mem one (same.mem_iff.mp List.mem_cons_self)
        rw [checkContiguous_of_twice sortedLeft inLeft starts.symm,
          checkContiguous_of_twice sortedRight inRight starts]
        exact ⟨rfl, fun done => by cases done⟩

theorem mergeSorted_perm {left right : List Network} (same : left.Perm right)
    (sortedLeft : left.Pairwise StartsBefore) (sortedRight : right.Pairwise StartsBefore) :
    mergeSorted left = mergeSorted right := by
  obtain ⟨checks, equal⟩ := checkContiguous_perm same sortedLeft sortedRight
  cases walked : checkContiguous left with
  | ok done => rw [equal walked]
  | error error =>
    rw [mergeSorted, mergeSorted, ← checks, walked]
    rfl

theorem any_family_ne_iff {first : Network} {nets : List Network} (member : first ∈ nets) :
    nets.any (·.family ≠ first.family) = false ↔
      ∀ left ∈ nets, ∀ right ∈ nets, left.family = right.family := by
  simp only [List.any_eq_false, decide_eq_true_eq, not_not]
  constructor
  · intro same left memberLeft right memberRight
    exact (same left memberLeft).trans (same right memberRight).symm
  · intro same net memberNet
    exact same net memberNet first member

/-- **The order of the networks does not matter.** -/
theorem mergeNetworks_perm {nets others : List Network} (same : nets.Perm others) :
    mergeNetworks nets = mergeNetworks others := by
  have lengths := same.length_eq
  match nets, others, lengths with
  | [], [], _ => rfl
  | [_], [_], _ => rfl
  | first :: second :: rest, first' :: second' :: rest', _ =>
    have sorts : mergeSorted (inOrder (first :: second :: rest)) =
        mergeSorted (inOrder (first' :: second' :: rest')) :=
      mergeSorted_perm
        ((inOrder_perm _).trans (same.trans (inOrder_perm _).symm))
        (inOrder_sorted _) (inOrder_sorted _)
    have families : (first :: second :: rest).any (·.family ≠ first.family) =
        (first' :: second' :: rest').any (·.family ≠ first'.family) := by
      rw [Bool.eq_iff_iff, ← not_iff_not, Bool.not_eq_true, Bool.not_eq_true,
        any_family_ne_iff List.mem_cons_self, any_family_ne_iff List.mem_cons_self]
      simp only [same.mem_iff]
    unfold mergeNetworks
    simp only [families]
    exact congrArg _ sorts

/-! ## Unions that are a network -/

/-- The networks are apart, of the family of the block, and their addresses are the
block's. -/
structure IsUnion (nets : List Network) (block : Network) : Prop where
  apart : nets.Pairwise fun left right => Disjoint left.addresses right.addresses
  family : ∀ net ∈ nets, net.family = block.family
  union : (⋃ net ∈ nets, net.addresses) = block.addresses

theorem disjoint_iff_overlaps {left right : Network} :
    Disjoint left.addresses right.addresses ↔ left.overlaps right = false := by
  rw [← Bool.not_eq_true, overlaps_iff, Set.not_nonempty_iff_eq_empty,
    Set.disjoint_iff_inter_eq_empty]

theorem IsUnion.of_partitions {nets : List Network} {block : Network}
    (parts : Partitions block nets) : IsUnion nets block where
  apart := parts.apart.imp disjoint_iff_overlaps.mpr
  family := fun net member => (isWithin_iff.mp (parts.within net member)).1
  union := by
    refine Set.Subset.antisymm (Set.iUnion₂_subset fun net member => ?_) ?_
    · exact (isWithin_iff_ssubset.mp (parts.within net member)).subset
    · rintro ⟨family, value⟩ inside
      obtain ⟨same, has⟩ := mem_addresses.mp inside
      obtain ⟨part, member, within⟩ := parts.covers value has
      have partFamily := (isWithin_iff.mp (parts.within part member)).1
      exact Set.mem_biUnion member (mem_addresses.mpr ⟨same.trans partFamily.symm, within⟩)

namespace IsUnion

variable {nets : List Network} {block : Network}

theorem perm {others : List Network} (whole : IsUnion nets block) (same : nets.Perm others) :
    IsUnion others block where
  apart := (same.pairwise_iff fun apart => apart.symm).mp whole.apart
  family := fun net member => whole.family net (same.mem_iff.mpr member)
  union := by
    rw [← whole.union]
    simp only [same.mem_iff]

theorem bounds (whole : IsUnion nets block) {net : Network} (member : net ∈ nets) :
    block.networkBig ≤ net.networkBig ∧ net.lastBig ≤ block.lastBig := by
  have inside : net.addresses ⊆ block.addresses := by
    rw [← whole.union]
    exact Set.subset_biUnion_of_mem member
  have values := (addresses_subset_iff.mp inside).2
  have first := hasValue_iff_mem.mpr
    (values (hasValue_iff_mem.mp ⟨le_rfl, net.networkBig_le_lastBig⟩))
  have last := hasValue_iff_mem.mpr
    (values (hasValue_iff_mem.mp ⟨net.networkBig_le_lastBig, le_rfl⟩))
  exact ⟨first.1, last.2⟩

theorem covers (whole : IsUnion nets block) {value : Nat} (inside : block.HasValue value) :
    ∃ net ∈ nets, net.HasValue value := by
  have member : (block.family, value) ∈ ⋃ net ∈ nets, net.addresses := by
    rw [whole.union]
    exact mem_addresses.mpr ⟨rfl, inside⟩
  obtain ⟨net, memberNet, has⟩ := Set.mem_iUnion₂.mp member
  exact ⟨net, memberNet, (mem_addresses.mp has).2⟩

theorem ends_before (whole : IsUnion nets block) (sorted : nets.Pairwise StartsBefore) :
    nets.Pairwise fun left right => left.lastBig < right.networkBig := by
  refine (List.pairwise_iff_forall_sublist.mpr fun {left right} pair => ?_)
  have before : StartsBefore left right := List.pairwise_iff_forall_sublist.mp sorted pair
  have apart := List.pairwise_iff_forall_sublist.mp whole.apart pair
  have family : left.family = right.family :=
    (whole.family left (pair.subset (by simp))).trans
      (whole.family right (pair.subset (by simp))).symm
  have reach := right.networkBig_le_lastBig
  rcases overlaps_eq_false_iff.mp (disjoint_iff_overlaps.mp apart) family with ends | ends
  · exact ends
  · rw [StartsBefore] at before
    omega

end IsUnion

theorem checkContiguous_of_covers {first : Network} {rest : List Network} {last : Nat}
    (ordered : (first :: rest).Pairwise fun left right => left.lastBig < right.networkBig)
    (below : ∀ net ∈ first :: rest, net.lastBig ≤ last)
    (covers : ∀ value, first.networkBig ≤ value → value ≤ last →
      ∃ net ∈ first :: rest, net.HasValue value) :
    checkContiguous (first :: rest) = .ok () := by
  induction rest generalizing first with
  | nil => rfl
  | cons second rest ih =>
    obtain ⟨after, orderedRest⟩ := List.pairwise_cons.mp ordered
    obtain ⟨-, belowRest⟩ := List.forall_mem_cons.mp below
    have next := after second List.mem_cons_self
    have reach := second.networkBig_le_lastBig
    have top := belowRest second List.mem_cons_self
    have start := first.networkBig_le_lastBig
    have later : ∀ net ∈ second :: rest, second.networkBig ≤ net.networkBig := by
      intro net member
      rcases List.mem_cons.mp member with rfl | member
      · exact le_rfl
      · exact reach.trans ((List.pairwise_cons.mp orderedRest).1 net member).le
    -- The value after the first network is in one that starts no earlier than the second.
    have touches : second.networkBig = first.lastBig + 1 := by
      obtain ⟨net, member, low, high⟩ := covers (first.lastBig + 1) (by omega) (by omega)
      rcases List.mem_cons.mp member with rfl | member
      · omega
      · have := later net member
        omega
    rw [checkContiguous, if_neg (by omega), if_neg (by omega)]
    refine ih orderedRest belowRest fun value low high => ?_
    obtain ⟨net, member, has⟩ := covers value (by omega) high
    rcases List.mem_cons.mp member with rfl | member
    · exact absurd has.2 (by omega)
    · exact ⟨net, member, has⟩

theorem sum_of_checkContiguous {first last : Network} {rest : List Network}
    (joined : checkContiguous (first :: rest) = .ok ())
    (ends : (first :: rest).getLast? = some last) :
    first.networkBig + ((first :: rest).map Network.sizeBig).sum = last.lastBig + 1 := by
  induction rest generalizing first with
  | nil =>
    obtain rfl : first = last := by simpa using ends
    have positive := first.sizeBig_pos
    rw [lastBig_eq, List.map_singleton, List.sum_singleton]
    omega
  | cons second rest ih =>
    rw [checkContiguous] at joined
    split at joined
    · cases joined
    split at joined
    · cases joined
    rename_i starts
    rw [ne_eq, not_not] at starts
    rw [List.getLast?_cons_cons] at ends
    have total := ih joined ends
    have positive := first.sizeBig_pos
    rw [lastBig_eq] at starts
    rw [List.map_cons, List.sum_cons]
    omega

theorem IsUnion.starts {first : Network} {rest : List Network} {block : Network}
    (whole : IsUnion (first :: rest) block) (sorted : (first :: rest).Pairwise StartsBefore) :
    first.networkBig = block.networkBig := by
  obtain ⟨low, member, has⟩ := whole.covers ⟨le_rfl, block.networkBig_le_lastBig⟩
  have least := starts_le_of_mem sorted member
  have inside := (whole.bounds List.mem_cons_self).1
  exact Nat.le_antisymm (least.trans has.1) inside

theorem IsUnion.finishes {nets : List Network} {last block : Network} (whole : IsUnion nets block)
    (sorted : nets.Pairwise StartsBefore) (ends : nets.getLast? = some last) :
    last.lastBig = block.lastBig := by
  obtain ⟨high, member, has⟩ := whole.covers ⟨block.networkBig_le_lastBig, le_rfl⟩
  have inside := (whole.bounds (List.mem_of_getLast? ends)).2
  have reach := last.networkBig_le_lastBig
  obtain ⟨front, rfl⟩ := List.getLast?_eq_some_iff.mp ends
  have above := has.2
  rcases List.mem_append.mp member with earlier | final
  · have before := (List.pairwise_append.mp (whole.ends_before sorted)).2.2 high earlier
      last (by simp)
    omega
  · rw [List.mem_singleton.mp final] at above
    omega

theorem mergeSorted_of_union {first : Network} {rest : List Network} {block : Network}
    (whole : IsUnion (first :: rest) block) (sorted : (first :: rest).Pairwise StartsBefore) :
    mergeSorted (first :: rest) = .ok block := by
  obtain ⟨last, ends⟩ : ∃ last, (first :: rest).getLast? = some last :=
    ⟨_, List.getLast?_eq_some_getLast (List.cons_ne_nil first rest)⟩
  have start := whole.starts sorted
  have finish := whole.finishes sorted ends
  have joined : checkContiguous (first :: rest) = .ok () := by
    refine checkContiguous_of_covers (whole.ends_before sorted)
      (fun net member => (whole.bounds member).2) ?_
    intro value above below
    exact whole.covers ⟨start ▸ above, below⟩
  have positive := block.sizeBig_pos
  have blockLast := block.lastBig_eq
  have size : ((first :: rest).map Network.sizeBig).sum = block.sizeBig := by
    have total := sum_of_checkContiguous joined ends
    omega
  have power : block.sizeBig &&& (block.sizeBig - 1) = 0 :=
    (Nat.and_sub_one_eq_zero_iff_isPowerOfTwo positive.ne').mpr ⟨_, rfl⟩
  have aligned : block.networkBig % block.sizeBig = 0 := Nat.mod_eq_zero_of_dvd block.aligned
  have ending : last.lastBig = block.networkBig + block.sizeBig - 1 := by omega
  have family : first.family = block.family := whole.family first List.mem_cons_self
  have newPrefix : first.bits - Nat.log2 block.sizeBig = block.prefixLen := by
    have bound : block.prefixLen ≤ block.bits := block.prefix_le
    have sameBits : first.bits = block.bits := by rw [bits, bits, family]
    rw [sizeBig, Nat.log2_two_pow, sameBits]
    omega
  obtain ⟨merged, read, mergedFamily, base, len⟩ :=
    networkAt_of_aligned block.prefix_le block.aligned block.fits block.unmapped
  rw [mergeSorted, joined]
  simp only [bind, Except.bind, size, power, ne_eq, not_true_eq_false, if_false, List.head?_cons,
    ends, start, aligned, ending, decide_false, Bool.or_self, Bool.false_eq_true, newPrefix, family,
    read]
  rw [eq_of_fields mergedFamily base len]

/-- **A merge finds a block exactly when the networks are apart and their union is the
block.** -/
theorem mergeNetworks_eq_ok_iff {nets : List Network} (two : 2 ≤ nets.length) (block : Network) :
    mergeNetworks nets = .ok block ↔ IsUnion nets block := by
  constructor
  · exact fun done => .of_partitions (mergeNetworks_partitions done)
  · intro whole
    match nets, two with
    | first :: second :: rest, _ =>
      have families : (first :: second :: rest).any (·.family ≠ first.family) = false := by
        rw [any_family_ne_iff List.mem_cons_self]
        intro left memberLeft right memberRight
        exact (whole.family left memberLeft).trans (whole.family right memberRight).symm
      have order := (inOrder_perm (first :: second :: rest)).symm
      have sorted := inOrder_sorted (first :: second :: rest)
      have merged : mergeSorted (inOrder (first :: second :: rest)) = .ok block := by
        generalize inOrder (first :: second :: rest) = nets at order sorted
        cases nets with
        | nil => exact absurd order.symm (List.not_perm_nil_cons _ _)
        | cons head tail => exact mergeSorted_of_union (whole.perm order) sorted
      unfold mergeNetworks
      simp only [families, Bool.false_eq_true, if_false]
      exact merged

/-! ## Merging texts -/

/-- Texts in another order are read as the networks in that order. -/
theorem exists_mapM_of_perm {α β : Type} {read : α → Option β} {texts others : List α}
    (same : texts.Perm others) {values : List β} (done : texts.mapM read = some values) :
    ∃ values', others.mapM read = some values' ∧ values.Perm values' := by
  induction same generalizing values with
  | nil => exact ⟨values, done, .refl _⟩
  | cons text _ ih =>
    rw [List.mapM_cons] at done
    obtain ⟨value, first, done⟩ := Option.bind_eq_some_iff.mp done
    obtain ⟨rest, readRest, done⟩ := Option.bind_eq_some_iff.mp done
    obtain rfl := Option.some.inj done
    obtain ⟨rest', readRest', perm⟩ := ih readRest
    exact ⟨value :: rest', by rw [List.mapM_cons, first, readRest']; rfl, perm.cons value⟩
  | swap second first texts =>
    rw [List.mapM_cons, List.mapM_cons] at done
    obtain ⟨one, readOne, done⟩ := Option.bind_eq_some_iff.mp done
    obtain ⟨more, readMore, done⟩ := Option.bind_eq_some_iff.mp done
    obtain ⟨two, readTwo, readMore⟩ := Option.bind_eq_some_iff.mp readMore
    obtain ⟨rest, readRest, readMore⟩ := Option.bind_eq_some_iff.mp readMore
    obtain rfl := Option.some.inj readMore
    obtain rfl := Option.some.inj done
    refine ⟨two :: one :: rest, ?_, .swap two one rest⟩
    rw [List.mapM_cons, List.mapM_cons, readOne, readTwo, readRest]
    rfl
  | trans _ _ ihLeft ihRight =>
    obtain ⟨middle, readMiddle, left⟩ := ihLeft done
    obtain ⟨values', readValues, right⟩ := ihRight readMiddle
    exact ⟨values', readValues, left.trans right⟩

theorem mergeCidrs_eq {cidrs : List Text} {nets : List Network} (two : 2 ≤ cidrs.length)
    (read : cidrs.mapM parseNetwork = some nets) :
    mergeCidrs cidrs = some ((mergeNetworks nets).map Network.cidr) := by
  rw [mergeCidrs, if_neg (Nat.not_lt.mpr two), read]
  rfl

/-- **Merging is sound and complete.** At least two texts that are read as networks are
merged exactly when the networks are apart, of one family, and their union is the address
set of a block; the answer is the text of that block. The order of the texts does not
matter. -/
theorem mergeCidrs_exact {cidrs : List Text} {nets : List Network} (two : 2 ≤ cidrs.length)
    (read : cidrs.mapM parseNetwork = some nets) :
    (∀ merged, mergeCidrs cidrs = some (.ok merged) ↔
      ∃ block : Network, merged = block.cidr ∧
        nets.Pairwise (fun left right => Disjoint left.addresses right.addresses) ∧
        (∀ net ∈ nets, net.family = block.family) ∧
        (⋃ net ∈ nets, net.addresses) = block.addresses) ∧
    ∀ others : List Text, others.Perm cidrs → mergeCidrs others = mergeCidrs cidrs := by
  have many : 2 ≤ nets.length := (Address.length_of_mapM_eq_some read).1 ▸ two
  rw [mergeCidrs_eq two read]
  constructor
  · intro merged
    rw [Option.some.injEq]
    constructor
    · intro done
      cases whole : mergeNetworks nets with
      | error error =>
        rw [whole] at done
        cases done
      | ok block =>
        rw [whole] at done
        obtain ⟨apart, family, union⟩ := (mergeNetworks_eq_ok_iff many block).mp whole
        exact ⟨block, (Except.ok.inj done).symm, apart, family, union⟩
    · rintro ⟨block, rfl, apart, family, union⟩
      rw [(mergeNetworks_eq_ok_iff many block).mpr ⟨apart, family, union⟩]
      rfl
  · intro others same
    obtain ⟨nets', read', perm⟩ := exists_mapM_of_perm same.symm read
    rw [mergeCidrs_eq (same.length_eq ▸ two) read', mergeNetworks_perm perm]

theorem mergeCidrs_exact_at_three :
    mergeCidrs ["10.0.0.128/25".toList, "10.0.0.0/26".toList, "10.0.0.64/26".toList] =
      some (.ok "10.0.0.0/24".toList) := by
  have read : ["10.0.0.0/26".toList, "10.0.0.64/26".toList, "10.0.0.128/25".toList].mapM
      parseNetwork = some
      [⟨.v4, 0x0a000000, 26, by decide, by decide, by decide, by decide⟩,
        ⟨.v4, 0x0a000040, 26, by decide, by decide, by decide, by decide⟩,
        ⟨.v4, 0x0a000080, 25, by decide, by decide, by decide, by decide⟩] := by decide
  have two : 2 ≤ ["10.0.0.0/26".toList, "10.0.0.64/26".toList, "10.0.0.128/25".toList].length := by
    decide
  rw [(mergeCidrs_exact two read).2 _ (by decide)]
  decide

end Cidrella
