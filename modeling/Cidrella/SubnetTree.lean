import Cidrella.Lib.Forest
import Cidrella.Cidr

/-!
# Trees of networks

The columns of `subnets` that make the tree: a row's id, its network, its parent and its
depth. `IsForest` says that the networks nest and that siblings are apart; `DepthsRight`
that the depths count the parents. Each change that the requests make to these columns is
one operation here, with what it keeps.
-/

set_option autoImplicit false

namespace Cidrella

/-- The place of a network in the tree. -/
structure Place where
  id : Nat
  net : Network
  parentId : Option Nat
  depth : Nat
  deriving DecidableEq, Repr

/-- Ids are distinct, networks nest along `parentId`, siblings and roots are apart, and no
network touches the IPv4-mapped addresses. -/
structure IsForest (tree : List Place) : Prop where
  ids : ∀ place ∈ tree, ∀ other ∈ tree, place.id = other.id → place = other
  nests : ∀ place ∈ tree, ∀ id, place.parentId = some id →
    ∃ above ∈ tree, above.id = id ∧ place.net.isWithin above.net = true
  siblings : ∀ place ∈ tree, ∀ other ∈ tree, place.parentId = other.parentId →
    place.id ≠ other.id → place.net.overlaps other.net = false
  unmapped : ∀ place ∈ tree, place.net.AvoidsMapped

/-- A root has depth 0, any other network is one deeper than its parent. -/
structure DepthsRight (tree : List Place) : Prop where
  roots : ∀ place ∈ tree, place.parentId = none → place.depth = 0
  below : ∀ place ∈ tree, ∀ above ∈ tree, place.parentId = some above.id →
    place.depth = above.depth + 1

namespace Places

/-- The ids of a place and of everything below it. -/
def below (tree : List Place) (id : Nat) : List Nat :=
  subtree (tree.map fun place => (place.id, place.parentId)) id

/-- Places go. -/
def remove (tree : List Place) (ids : List Nat) : List Place := tree.filter (·.id ∉ ids)

/-- The children of one place become children of another, at the given depth. -/
def raise (tree : List Place) (old new depth : Nat) : List Place :=
  tree.map fun place =>
    if place.parentId = some old then { place with parentId := some new, depth := depth } else place

theorem mem_remove {tree : List Place} {ids : List Nat} {place : Place} :
    place ∈ remove tree ids ↔ place ∈ tree ∧ place.id ∉ ids := by
  simp [remove, List.mem_filter]

theorem mem_raise {tree : List Place} {old new depth : Nat} {place : Place} :
    place ∈ raise tree old new depth ↔ ∃ former ∈ tree, place =
      if former.parentId = some old then { former with parentId := some new, depth := depth }
      else former := by
  constructor
  · intro member
    obtain ⟨former, within, same⟩ := List.mem_map.mp member
    exact ⟨former, within, same.symm⟩
  · rintro ⟨former, within, rfl⟩
    exact List.mem_map.mpr ⟨former, within, rfl⟩

end Places

open Places

namespace IsForest

variable {tree : List Place}

theorem nil : IsForest [] := ⟨by simp, by simp, by simp, by simp⟩

theorem prefix_lt (forest : IsForest tree) {place above : Place} (member : place ∈ tree)
    (memberAbove : above ∈ tree) (child : place.parentId = some above.id) :
    above.net.prefixLen < place.net.prefixLen := by
  obtain ⟨other, memberOther, same, within⟩ := forest.nests place member above.id child
  rw [forest.ids other memberOther above memberAbove same, Network.isWithin_iff] at within
  exact within.2.2.2

theorem within_of_child (forest : IsForest tree) {place above : Place} (member : place ∈ tree)
    (memberAbove : above ∈ tree) (child : place.parentId = some above.id) :
    place.net.isWithin above.net = true := by
  obtain ⟨other, memberOther, same, within⟩ := forest.nests place member above.id child
  rwa [forest.ids other memberOther above memberAbove same] at within

theorem prefix_le_of_mem_below (forest : IsForest tree) {top place : Place} (memberTop : top ∈ tree)
    (member : place ∈ tree) (inside : place.id ∈ below tree top.id) :
    top.net.prefixLen ≤ place.net.prefixLen := by
  have all : ∀ id ∈ below tree top.id, ∀ other ∈ tree, other.id = id →
      top.net.prefixLen ≤ other.net.prefixLen := by
    refine subtree_induction ?_ ?_
    · intro other memberOther same
      rw [forest.ids other memberOther top memberTop same]
    · intro child above link upper other memberOther same
      obtain ⟨former, memberFormer, entry⟩ := List.mem_map.mp link
      obtain ⟨rfl, parent⟩ := Prod.mk.inj entry
      obtain ⟨parentPlace, memberParent, named, within⟩ :=
        forest.nests former memberFormer above parent
      rw [forest.ids other memberOther former memberFormer same]
      have bound := upper parentPlace memberParent named
      rw [Network.isWithin_iff] at within
      omega
  exact all place.id inside place member rfl

/-! ## Removing places -/

theorem remove (forest : IsForest tree) {ids : List Nat}
    (closed : ∀ place ∈ tree, ∀ above, place.parentId = some above → above ∈ ids → place.id ∈ ids) :
    IsForest (remove tree ids) where
  ids := fun place member other memberOther same =>
    forest.ids place (mem_remove.mp member).1 other (mem_remove.mp memberOther).1 same
  nests := by
    intro place member id parent
    obtain ⟨within, kept⟩ := mem_remove.mp member
    obtain ⟨above, memberAbove, named, nested⟩ := forest.nests place within id parent
    refine ⟨above, mem_remove.mpr ⟨memberAbove, fun gone => kept ?_⟩, named, nested⟩
    exact closed place within above.id (named ▸ parent) gone
  siblings := fun place member other memberOther same =>
    forest.siblings place (mem_remove.mp member).1 other (mem_remove.mp memberOther).1 same
  unmapped := fun place member => forest.unmapped place (mem_remove.mp member).1

theorem below_closed {place : Place} {above top : Nat} (member : place ∈ tree)
    (parent : place.parentId = some above) (inside : above ∈ below tree top) :
    place.id ∈ below tree top :=
  subtree_closed (List.mem_map.mpr ⟨place, member, by rw [parent]⟩) inside

theorem remove_below (forest : IsForest tree) (top : Nat) :
    IsForest (Places.remove tree (below tree top)) :=
  forest.remove fun _ member _ parent inside => below_closed member parent inside

theorem remove_strictly_below (forest : IsForest tree) {top : Place} (memberTop : top ∈ tree) :
    IsForest (Places.remove tree ((below tree top.id).filter (· ≠ top.id))) := by
  refine forest.remove fun place member above parent inside => ?_
  obtain ⟨inside, differs⟩ := List.mem_filter.mp inside
  refine List.mem_filter.mpr ⟨below_closed member parent inside, ?_⟩
  rw [decide_eq_true_eq]
  intro same
  -- A parent below its own child would have a longer prefix than the child.
  obtain rfl := forest.ids place member top memberTop same
  obtain ⟨parentPlace, memberParent, rfl, within⟩ := forest.nests place member above parent
  have longer := forest.prefix_le_of_mem_below memberTop memberParent inside
  rw [Network.isWithin_iff] at within
  omega

/-! ## Adding a place -/

/-- A new network inside its parent, or a new root, that is apart from its siblings. -/
theorem add (forest : IsForest tree) {place : Place} (fresh : ∀ other ∈ tree, other.id ≠ place.id)
    (nested : ∀ id, place.parentId = some id →
      ∃ above ∈ tree, above.id = id ∧ place.net.isWithin above.net = true)
    (apart : ∀ other ∈ tree, other.parentId = place.parentId →
      other.net.overlaps place.net = false)
    (unmapped : place.net.AvoidsMapped) : IsForest (tree ++ [place]) where
  ids := by
    intro left memberLeft right memberRight same
    rcases List.mem_append.mp memberLeft with inLeft | newLeft
    · rcases List.mem_append.mp memberRight with inRight | newRight
      · exact forest.ids left inLeft right inRight same
      · rw [List.mem_singleton.mp newRight] at same
        exact absurd same (fresh left inLeft)
    · rcases List.mem_append.mp memberRight with inRight | newRight
      · rw [List.mem_singleton.mp newLeft] at same
        exact absurd same.symm (fresh right inRight)
      · exact (List.mem_singleton.mp newLeft).trans (List.mem_singleton.mp newRight).symm
  nests := by
    intro left memberLeft id parent
    rcases List.mem_append.mp memberLeft with inLeft | newLeft
    · obtain ⟨above, memberAbove, rest⟩ := forest.nests left inLeft id parent
      exact ⟨above, List.mem_append_left _ memberAbove, rest⟩
    · rw [List.mem_singleton.mp newLeft] at parent ⊢
      obtain ⟨above, memberAbove, rest⟩ := nested id parent
      exact ⟨above, List.mem_append_left _ memberAbove, rest⟩
  siblings := by
    intro left memberLeft right memberRight same differs
    rcases List.mem_append.mp memberLeft with inLeft | newLeft
    · rcases List.mem_append.mp memberRight with inRight | newRight
      · exact forest.siblings left inLeft right inRight same differs
      · rw [List.mem_singleton.mp newRight] at same ⊢
        exact apart left inLeft same
    · rcases List.mem_append.mp memberRight with inRight | newRight
      · rw [List.mem_singleton.mp newLeft] at same ⊢
        rw [Network.overlaps_comm]
        exact apart right inRight same.symm
      · rw [List.mem_singleton.mp newLeft, List.mem_singleton.mp newRight] at differs
        exact absurd rfl differs
  unmapped := by
    intro left memberLeft
    rcases List.mem_append.mp memberLeft with inLeft | newLeft
    · exact forest.unmapped left inLeft
    · rw [List.mem_singleton.mp newLeft]
      exact unmapped

/-! ## Raising the children of a place -/

theorem mem_flatten {old parentId depth : Nat} {place : Place} :
    place ∈ Places.remove (raise tree old parentId depth) [old] ↔
      (∃ former ∈ tree, former.id ≠ old ∧ former.parentId = some old ∧
        place = { former with parentId := some parentId, depth := depth }) ∨
      (place ∈ tree ∧ place.id ≠ old ∧ place.parentId ≠ some old) := by
  rw [mem_remove, mem_raise, List.mem_singleton]
  constructor
  · rintro ⟨⟨former, member, rfl⟩, differs⟩
    by_cases raised : former.parentId = some old
    · rw [if_pos raised] at differs ⊢
      exact .inl ⟨former, member, differs, raised, rfl⟩
    · rw [if_neg raised] at differs ⊢
      exact .inr ⟨member, differs, raised⟩
  · rintro (⟨former, member, differs, raised, rfl⟩ | ⟨member, differs, kept⟩)
    · exact ⟨⟨former, member, by rw [if_pos raised]⟩, differs⟩
    · exact ⟨⟨place, member, by rw [if_neg kept]⟩, differs⟩

/-- The children of a place move up to its parent and the place goes. -/
theorem flatten (forest : IsForest tree) {child : Place} (member : child ∈ tree) {parentId : Nat}
    (parent : child.parentId = some parentId) (depth : Nat) :
    IsForest (Places.remove (raise tree child.id parentId depth) [child.id]) := by
  obtain ⟨top, memberTop, rfl, within⟩ := forest.nests child member parentId parent
  have topStays : top.id ≠ child.id := by
    intro same
    rw [forest.ids top memberTop child member same, Network.isWithin_iff] at within
    omega
  have topKept : top.parentId ≠ some child.id := by
    intro cycle
    have := forest.prefix_lt memberTop member cycle
    rw [Network.isWithin_iff] at within
    omega
  refine ⟨?_, ?_, ?_, ?_⟩
  · intro left memberLeft right memberRight same
    rcases mem_flatten.mp memberLeft with ⟨former, inLeft, -, raised, rfl⟩ | ⟨inLeft, -, kept⟩
    · rcases mem_flatten.mp memberRight with ⟨other, inRight, -, raised', rfl⟩ | ⟨inRight, -, kept'⟩
      · rw [forest.ids former inLeft other inRight same]
      · exact absurd (forest.ids former inLeft right inRight same ▸ raised) kept'
    · rcases mem_flatten.mp memberRight with ⟨other, inRight, -, raised', rfl⟩ | ⟨inRight, -, kept'⟩
      · exact absurd (forest.ids left inLeft other inRight same ▸ raised') kept
      · exact forest.ids left inLeft right inRight same
  · intro place memberPlace id up
    rcases mem_flatten.mp memberPlace with ⟨former, within', -, raised, rfl⟩ | ⟨within',
      differs, kept⟩
    · obtain rfl := Option.some.inj up
      have inside : former.net.isWithin child.net = true :=
        forest.within_of_child within' member raised
      refine ⟨top, mem_flatten.mpr (.inr ⟨memberTop, topStays, topKept⟩), rfl, ?_⟩
      exact Network.isWithin_trans inside within
    · obtain ⟨above, memberAbove, rfl, nested⟩ := forest.nests place within' id up
      have stays : above.id ≠ child.id := fun same => kept (same ▸ up)
      by_cases raisedAbove : above.parentId = some child.id
      · exact ⟨_, mem_flatten.mpr (.inl ⟨above, memberAbove, stays, raisedAbove, rfl⟩), rfl, nested⟩
      · exact ⟨above, mem_flatten.mpr (.inr ⟨memberAbove, stays, raisedAbove⟩), rfl, nested⟩
  · -- A raised network is inside the place that is gone, which was apart from its siblings.
    have apart : ∀ former ∈ tree, former.parentId = some child.id → ∀ other ∈ tree,
        other.id ≠ child.id → other.parentId = some top.id →
        former.net.overlaps other.net = false := by
      intro former memberFormer raised other memberOther differs same
      refine Network.overlaps_of_isWithin (forest.within_of_child memberFormer member raised) ?_
      exact forest.siblings child member other memberOther (parent.trans same.symm)
        (Ne.symm differs)
    intro left memberLeft right memberRight same differs
    rcases mem_flatten.mp memberLeft with ⟨former, inLeft, -, raised, rfl⟩ | ⟨inLeft, stays, kept⟩
    · rcases mem_flatten.mp memberRight with ⟨other, inRight, -, raised', rfl⟩ | ⟨inRight,
        stays', kept'⟩
      · exact forest.siblings former inLeft other inRight (raised.trans raised'.symm) differs
      · exact apart former inLeft raised right inRight stays' same.symm
    · rcases mem_flatten.mp memberRight with ⟨other, inRight, -, raised', rfl⟩ | ⟨inRight,
        stays', kept'⟩
      · rw [Network.overlaps_comm]
        exact apart other inRight raised' left inLeft stays same
      · exact forest.siblings left inLeft right inRight same differs
  · intro place memberPlace
    rcases mem_flatten.mp memberPlace with ⟨former, inTree, -, -, rfl⟩ | ⟨inTree, -, -⟩
    · exact forest.unmapped former inTree
    · exact forest.unmapped place inTree

/-! ## Replacing places by their union -/

theorem exists_shared_value {net other : Network} (meet : net.overlaps other = true) :
    net.family = other.family ∧ ∃ value, net.HasValue value ∧ other.HasValue value := by
  simp only [Network.overlaps, Bool.and_eq_true, decide_eq_true_eq] at meet
  have first := net.networkBig_le_lastBig
  have second := other.networkBig_le_lastBig
  refine ⟨meet.1.1, max net.networkBig other.networkBig, ?_, ?_⟩
  · exact ⟨le_max_left _ _, max_le first meet.2⟩
  · exact ⟨le_max_right _ _, max_le meet.1.2 second⟩

theorem overlaps_of_shared_value {net other : Network} (family : net.family = other.family)
    {value : Nat} (inNet : net.HasValue value) (inOther : other.HasValue value) :
    net.overlaps other = true := by
  simp only [Network.overlaps, Bool.and_eq_true, decide_eq_true_eq]
  exact ⟨⟨family, inNet.1.trans inOther.2⟩, inOther.1.trans inNet.2⟩

theorem join (forest : IsForest tree) {ids : List Nat} {merged parent : Place}
    (memberParent : parent ∈ tree) (child : merged.parentId = some parent.id)
    (within : merged.net.isWithin parent.net = true)
    (fresh : ∀ other ∈ tree, other.id ≠ merged.id) (kept : parent.id ∉ ids)
    (siblings : ∀ place ∈ tree, place.id ∈ ids → place.parentId = some parent.id)
    (leaves : ∀ place ∈ tree, ∀ id, place.parentId = some id → id ∉ ids)
    (covered : ∀ value, merged.net.HasValue value → ∃ place ∈ tree, place.id ∈ ids ∧
      place.net.family = merged.net.family ∧ place.net.HasValue value) :
    IsForest (Places.remove tree ids ++ [merged]) := by
  have removed := forest.remove fun place member above up gone => absurd gone
    (leaves place member above up)
  refine removed.add (fun other member => fresh other (mem_remove.mp member).1) ?_ ?_ ?_
  · intro id up
    obtain rfl := Option.some.inj (child.symm.trans up)
    exact ⟨parent, mem_remove.mpr ⟨memberParent, kept⟩, rfl, within⟩
  · intro other member same
    obtain ⟨inTree, stays⟩ := mem_remove.mp member
    by_contra meets
    rw [Bool.not_eq_false] at meets
    obtain ⟨family, value, inOther, inMerged⟩ := exists_shared_value meets
    obtain ⟨place, memberPlace, source, family', inPlace⟩ := covered value inMerged
    have apart := forest.siblings place memberPlace other inTree
      ((siblings place memberPlace source).trans (same.trans child).symm)
      (fun equal => stays (equal ▸ source))
    rw [overlaps_of_shared_value (family'.trans family.symm) inPlace inOther] at apart
    exact absurd apart (by decide)
  · exact (forest.unmapped parent memberParent).of_subset (Network.isWithin_iff.mp within).1
      (Network.isWithin_iff.mp within).2.1 (Network.isWithin_iff.mp within).2.2.1

/-! ## Leaves -/

/-- The parent of a place. -/
def parentOf (tree : List Place) (place : Place) : Option Place :=
  place.parentId.bind fun id => tree.find? (·.id = id)

theorem parentOf_eq_some {place above : Place} (found : parentOf tree place = some above) :
    above ∈ tree ∧ place.parentId = some above.id := by
  obtain ⟨id, parent, found⟩ := Option.bind_eq_some_iff.mp found
  have named : above.id = id := by simpa using List.find?_some found
  exact ⟨List.mem_of_find?_eq_some found, named ▸ parent⟩

theorem parentOf_of_child (forest : IsForest tree) {place above : Place} (member : above ∈ tree)
    (child : place.parentId = some above.id) : parentOf tree place = some above := by
  rw [parentOf, child, Option.bind_some]
  cases found : tree.find? (·.id = above.id) with
  | none =>
    have missing := List.find?_eq_none.mp found above member
    simp at missing
  | some other =>
    have same : other.id = above.id := by simpa using List.find?_some found
    rw [forest.ids other (List.mem_of_find?_eq_some found) above member same]

/-- The addresses of the networks nest along the tree. -/
theorem laminar (forest : IsForest tree) :
    Laminar {place | place ∈ tree} (parentOf tree)
      (fun place => {addr | place.net.contains addr = true})
      (fun place => place.net.prefixLen) where
  closed := fun place _ above found => (parentOf_eq_some found).1
  inside := by
    intro place member above found addr inside
    obtain ⟨memberAbove, child⟩ := parentOf_eq_some found
    exact Network.contains_of_isWithin (forest.within_of_child member memberAbove child) inside
  descends := by
    intro place member above found
    obtain ⟨memberAbove, child⟩ := parentOf_eq_some found
    exact forest.prefix_lt member memberAbove child
  siblings := by
    intro place member other memberOther same differs
    -- Places with one parent, or none, have one `parentId`.
    have shared : place.parentId = other.parentId := by
      cases up : place.parentId with
      | none =>
        cases up' : other.parentId with
        | none => rfl
        | some id =>
          obtain ⟨above, memberAbove, rfl, -⟩ := forest.nests other memberOther id up'
          rw [forest.parentOf_of_child memberAbove up', parentOf, up] at same
          exact absurd same (by simp)
      | some id =>
        obtain ⟨above, memberAbove, rfl, -⟩ := forest.nests place member id up
        rw [forest.parentOf_of_child memberAbove up] at same
        exact (parentOf_eq_some same.symm).2.symm
    have apart := forest.siblings place member other memberOther shared
      fun equal => differs (forest.ids place member other memberOther equal)
    exact Set.disjoint_left.mpr fun addr inside => Network.not_contains_of_overlaps apart inside

theorem leaf_unique (forest : IsForest tree) {place other : Place} (member : place ∈ tree)
    (memberOther : other ∈ tree) {addr : Addr} (inside : place.net.contains addr = true)
    (insideOther : other.net.contains addr = true)
    (leaf : ∀ below ∈ tree, below.parentId ≠ some place.id)
    (leafOther : ∀ below ∈ tree, below.parentId ≠ some other.id) : place = other :=
  forest.laminar.leaf_unique member memberOther inside insideOther
    (fun below memberBelow found => leaf below memberBelow (parentOf_eq_some found).2)
    fun below memberBelow found => leafOther below memberBelow (parentOf_eq_some found).2

end IsForest

/-! ## Depths -/

namespace DepthsRight

variable {tree : List Place}

theorem nil : DepthsRight [] := ⟨by simp, by simp⟩

theorem remove (right : DepthsRight tree) (ids : List Nat) :
    DepthsRight (Places.remove tree ids) where
  roots := fun place member => right.roots place (mem_remove.mp member).1
  below := fun place member above memberAbove =>
    right.below place (mem_remove.mp member).1 above (mem_remove.mp memberAbove).1

theorem add (right : DepthsRight tree) (forest : IsForest tree) {place : Place}
    (fresh : ∀ other ∈ tree, other.id ≠ place.id)
    (root : place.parentId = none → place.depth = 0)
    (child : ∀ above ∈ tree, place.parentId = some above.id → place.depth = above.depth + 1)
    (ownParent : place.parentId ≠ some place.id) : DepthsRight (tree ++ [place]) where
  roots := by
    intro other member up
    rcases List.mem_append.mp member with member | new
    · exact right.roots other member up
    · rw [List.mem_singleton.mp new] at up ⊢
      exact root up
  below := by
    intro other member above memberAbove up
    rcases List.mem_append.mp member with member | new
    · rcases List.mem_append.mp memberAbove with memberAbove | newAbove
      · exact right.below other member above memberAbove up
      · -- No network has a parent that is only being added.
        rw [List.mem_singleton.mp newAbove] at up
        obtain ⟨former, memberFormer, same, -⟩ := forest.nests other member _ up
        exact absurd same (fresh former memberFormer)
    · rw [List.mem_singleton.mp new] at up ⊢
      rcases List.mem_append.mp memberAbove with memberAbove | newAbove
      · exact child above memberAbove up
      · rw [List.mem_singleton.mp newAbove] at up
        exact absurd up ownParent

theorem flatten (right : DepthsRight tree) (forest : IsForest tree) {child : Place}
    (member : child ∈ tree) {parentId : Nat} (parent : child.parentId = some parentId)
    (shallow : ∀ place ∈ tree, place.parentId = some child.id →
      ∀ lower ∈ tree, lower.parentId ≠ some place.id) :
    DepthsRight (Places.remove (raise tree child.id parentId child.depth) [child.id]) where
  roots := by
    intro place memberPlace up
    rcases IsForest.mem_flatten.mp memberPlace with ⟨former, -, -, -, rfl⟩ | ⟨inTree, -, -⟩
    · exact absurd up (by simp)
    · exact right.roots place inTree up
  below := by
    intro place memberPlace above memberAbove up
    rcases IsForest.mem_flatten.mp memberAbove with
      ⟨raised, inAbove, -, raisedUp, rfl⟩ | ⟨inAbove, -, -⟩
    · -- A raised network has no children.
      rcases IsForest.mem_flatten.mp memberPlace with ⟨former, inTree, -, raisedUp',
        rfl⟩ | ⟨inTree, -, -⟩
      · have cycle : raised.id = parentId := (Option.some.inj up).symm
        obtain ⟨top, memberTop, named, -⟩ := forest.nests child member parentId parent
        have same := forest.ids raised inAbove top memberTop (cycle.trans named.symm)
        rw [same] at raisedUp
        have shorter := forest.prefix_lt memberTop member raisedUp
        have longer := forest.prefix_lt member memberTop (named ▸ parent)
        omega
      · exact absurd up (shallow raised inAbove raisedUp place inTree)
    · rcases IsForest.mem_flatten.mp memberPlace with ⟨former, inTree, -, -, rfl⟩ | ⟨inTree, -, -⟩
      · exact right.below child member above inAbove (parent.trans up)
      · exact right.below place inTree above inAbove up

end DepthsRight

end Cidrella
