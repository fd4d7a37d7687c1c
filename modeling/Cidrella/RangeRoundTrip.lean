import Cidrella.Lib.Keyed
import Cidrella.MergePlans
import Cidrella.PlannedGateways

/-!
# Custom ranges through a divide and a merge

A divide copies the custom ranges of the parent to its children, each cut to the child
(`copyUserRangesToChild`); a merge moves the children's ranges back and joins the ones
that overlap or touch (`moveCustomRangesToSubnet`). The loop that joins only looks at
neighbours in the order of type and start.

What a list of ranges says is, for every type and description, which values are labelled
so (`Labels`). Cutting a network into parts keeps the labels, and so does joining
(`labels_coalesce`). That no two of the joined ranges meet follows from the labels,
because no two of the parent's did; that none is left to be joined follows from the
order: what stands between two ranges of one label keeps them apart
(`setApart_of_chain`).
-/

set_option autoImplicit false

namespace Cidrella

open Network

/-! ## Ranges and their labels -/

/-- A range of a network: a nonempty interval inside it. -/
structure RangeIn (net : Network) (range : AddressRange) : Prop where
  startFamily : range.startIp.family = net.family
  endFamily : range.endIp.family = net.family
  order : range.startIp.value ≤ range.endIp.value
  low : net.networkBig ≤ range.startIp.value
  high : range.endIp.value ≤ net.lastBig

/-- The value lies in the range. -/
def AddressRange.HasValue (range : AddressRange) (value : Nat) : Prop :=
  range.startIp.value ≤ value ∧ value ≤ range.endIp.value

/-- Some range of the type and description holds the value. -/
def Labels (ranges : List AddressRange) (type : RangeType) (description : Option Text)
    (value : Nat) : Prop :=
  ∃ range ∈ ranges, range.type = type ∧ range.description = description ∧ range.HasValue value

theorem labels_cons {first : AddressRange} {rest : List AddressRange} {type : RangeType}
    {description : Option Text} {value : Nat} :
    Labels (first :: rest) type description value ↔
      (first.type = type ∧ first.description = description ∧ first.HasValue value) ∨
        Labels rest type description value := by
  simp only [Labels, List.exists_mem_cons_iff]

theorem labels_congr {ranges others : List AddressRange}
    (same : ∀ range, range ∈ ranges ↔ range ∈ others) {type : RangeType}
    {description : Option Text} {value : Nat} :
    Labels ranges type description value ↔ Labels others type description value := by
  simp only [Labels, same]

theorem labels_self {ranges : List AddressRange} {range : AddressRange} (member : range ∈ ranges)
    {value : Nat} (inside : range.HasValue value) :
    Labels ranges range.type range.description value :=
  ⟨range, member, rfl, rfl, inside⟩

/-- Ranges that do not meet. -/
def Apart (left right : AddressRange) : Prop :=
  left.endIp.value < right.startIp.value ∨ right.endIp.value < left.startIp.value

theorem Apart.symm {left right : AddressRange} (apart : Apart left right) : Apart right left :=
  Or.symm apart

instance : Std.Symm Apart := ⟨fun _ _ => Apart.symm⟩

theorem not_apart_of_shared {left right : AddressRange} {value : Nat} (inLeft : left.HasValue value)
    (inRight : right.HasValue value) : ¬ Apart left right := by
  unfold AddressRange.HasValue Apart at *
  omega

theorem exists_shared_of_not_apart {net : Network} {left right : AddressRange}
    (inLeft : RangeIn net left) (inRight : RangeIn net right) (meet : ¬ Apart left right) :
    ∃ value, left.HasValue value ∧ right.HasValue value := by
  have := inLeft.order
  have := inRight.order
  unfold Apart at meet
  refine ⟨max left.startIp.value right.startIp.value, ?_, ?_⟩
  · exact ⟨le_max_left _ _, by omega⟩
  · exact ⟨le_max_right _ _, by omega⟩

/-! ## Joining ranges in order -/

/-- The order of type and start. -/
def SortsBefore (left right : AddressRange) : Prop :=
  Env.typeOrder left.type < Env.typeOrder right.type ∨
    (Env.typeOrder left.type = Env.typeOrder right.type ∧
      left.startIp.value ≤ right.startIp.value)

theorem rangeValueOrder_iff {left right : AddressRange} :
    Env.rangeValueOrder left right = true ↔ SortsBefore left right := by
  simp only [Env.rangeValueOrder, SortsBefore, Bool.or_eq_true, Bool.and_eq_true, decide_eq_true_eq]

instance : Std.Total fun left right => Env.rangeValueOrder left right = true :=
  ⟨fun left right => by
    rw [rangeValueOrder_iff, rangeValueOrder_iff, SortsBefore, SortsBefore]
    omega⟩

instance : IsTrans AddressRange fun left right => Env.rangeValueOrder left right = true :=
  ⟨fun first second third => by
    simp only [rangeValueOrder_iff, SortsBefore]
    omega⟩

theorem joins_iff {previous current : AddressRange} : Env.joins previous current = true ↔
    previous.type = current.type ∧ previous.description = current.description ∧
      previous.startIp.family = current.startIp.family ∧
      current.startIp.value ≤ previous.endIp.value + 1 := by
  simp only [Env.joins, Bool.and_eq_true, decide_eq_true_eq, and_assoc]

/-- A range that takes the next one in. -/
def extend (previous current : AddressRange) : AddressRange :=
  { previous with
    endIp := addressAt previous.startIp.family (max previous.endIp.value current.endIp.value) }

section Joining

variable {net : Network} (avoids : net.AvoidsMapped) {previous current : AddressRange}

include avoids

theorem extend_end (inPrevious : RangeIn net previous) (inCurrent : RangeIn net current) :
    (extend previous current).endIp.family = net.family ∧
      (extend previous current).endIp.value = max previous.endIp.value current.endIp.value := by
  have inside : net.HasValue (max previous.endIp.value current.endIp.value) :=
    ⟨inPrevious.low.trans (inPrevious.order.trans (le_max_left _ _)),
      max_le inPrevious.high inCurrent.high⟩
  have written := addressAt_of_hasValue avoids inside
  rw [← inPrevious.startFamily] at written
  exact ⟨written.1.trans inPrevious.startFamily, written.2⟩

theorem rangeIn_extend (inPrevious : RangeIn net previous) (inCurrent : RangeIn net current) :
    RangeIn net (extend previous current) := by
  obtain ⟨family, value⟩ := extend_end avoids inPrevious inCurrent
  exact
    { startFamily := inPrevious.startFamily
      endFamily := family
      order := by
        rw [value]
        exact inPrevious.order.trans (le_max_left _ _)
      low := inPrevious.low
      high := by
        rw [value]
        exact max_le inPrevious.high inCurrent.high }

theorem hasValue_extend (inPrevious : RangeIn net previous) (inCurrent : RangeIn net current)
    (starts : previous.startIp.value ≤ current.startIp.value)
    (touch : current.startIp.value ≤ previous.endIp.value + 1) (value : Nat) :
    (extend previous current).HasValue value ↔ previous.HasValue value ∨
    current.HasValue value := by
  have stop := (extend_end avoids inPrevious inCurrent).2
  have start : (extend previous current).startIp = previous.startIp := rfl
  have := inPrevious.order
  have := inCurrent.order
  unfold AddressRange.HasValue
  rw [start, stop]
  omega

theorem rangeIn_coalesce {rest : List AddressRange}
    (inside : ∀ range ∈ previous :: rest, RangeIn net range) :
    ∀ range ∈ Env.coalesce previous rest, RangeIn net range := by
  induction rest generalizing previous with
  | nil => exact inside
  | cons current rest ih =>
    obtain ⟨inPrevious, others⟩ := List.forall_mem_cons.mp inside
    obtain ⟨inCurrent, inRest⟩ := List.forall_mem_cons.mp others
    rw [Env.coalesce]
    split
    · exact ih (List.forall_mem_cons.mpr ⟨rangeIn_extend avoids inPrevious inCurrent, inRest⟩)
    · exact List.forall_mem_cons.mpr ⟨inPrevious, ih others⟩

/-- **Joining keeps the labels.** -/
theorem labels_coalesce {rest : List AddressRange}
    (inside : ∀ range ∈ previous :: rest, RangeIn net range)
    (sorted : (previous :: rest).Pairwise SortsBefore) {type : RangeType}
    {description : Option Text} {value : Nat} :
    Labels (Env.coalesce previous rest) type description value ↔
      Labels (previous :: rest) type description value := by
  induction rest generalizing previous with
  | nil => rfl
  | cons current rest ih =>
    obtain ⟨inPrevious, others⟩ := List.forall_mem_cons.mp inside
    obtain ⟨inCurrent, inRest⟩ := List.forall_mem_cons.mp others
    obtain ⟨before, sortedRest⟩ := List.pairwise_cons.mp sorted
    obtain ⟨-, sortedLast⟩ := List.pairwise_cons.mp sortedRest
    rw [Env.coalesce]
    split
    · rename_i joined
      obtain ⟨types, descriptions, -, touch⟩ := joins_iff.mp joined
      have starts : previous.startIp.value ≤ current.startIp.value := by
        have first := before current List.mem_cons_self
        unfold SortsBefore at first
        rw [types] at first
        omega
      have extended : (extend previous current :: rest).Pairwise SortsBefore :=
        List.pairwise_cons.mpr
          ⟨fun range member => before range (List.mem_cons_of_mem _ member), sortedLast⟩
      refine (ih (List.forall_mem_cons.mpr
        ⟨rangeIn_extend avoids inPrevious inCurrent, inRest⟩) extended).trans ?_
      rw [labels_cons, labels_cons, labels_cons,
        hasValue_extend avoids inPrevious inCurrent starts touch, ← types, ← descriptions]
      have kind : (extend previous current).type = previous.type ∧
          (extend previous current).description = previous.description := ⟨rfl, rfl⟩
      rw [kind.1, kind.2]
      tauto
    · rw [labels_cons, ih others sortedRest, ← labels_cons]

end Joining

theorem sorted_coalesce {previous : AddressRange} {rest : List AddressRange}
    (sorted : (previous :: rest).Pairwise SortsBefore) :
    (Env.coalesce previous rest).Pairwise SortsBefore ∧
      ∀ range ∈ Env.coalesce previous rest, ∃ source ∈ previous :: rest,
        range.type = source.type ∧ range.startIp = source.startIp ∧ range.id = source.id := by
  induction rest generalizing previous with
  | nil => exact ⟨sorted, fun range member => ⟨range, member, rfl, rfl, rfl⟩⟩
  | cons current rest ih =>
    obtain ⟨before, sortedRest⟩ := List.pairwise_cons.mp sorted
    obtain ⟨-, sortedLast⟩ := List.pairwise_cons.mp sortedRest
    rw [Env.coalesce]
    split
    · have extended : (extend previous current :: rest).Pairwise SortsBefore :=
        List.pairwise_cons.mpr
          ⟨fun range member => before range (List.mem_cons_of_mem _ member), sortedLast⟩
      obtain ⟨order, origin⟩ := ih extended
      refine ⟨order, fun range member => ?_⟩
      obtain ⟨source, within, same⟩ := origin range member
      rcases List.mem_cons.mp within with rfl | within
      · exact ⟨previous, List.mem_cons_self, same⟩
      · exact ⟨source, List.mem_cons_of_mem _ (List.mem_cons_of_mem _ within), same⟩
    · obtain ⟨order, origin⟩ := ih sortedRest
      refine ⟨List.pairwise_cons.mpr ⟨fun range member => ?_, order⟩, fun range member => ?_⟩
      · obtain ⟨source, within, type, start, -⟩ := origin range member
        have first := before source within
        unfold SortsBefore at first ⊢
        rwa [type, start]
      · rcases List.mem_cons.mp member with rfl | member
        · exact ⟨range, List.mem_cons_self, rfl, rfl, rfl⟩
        · obtain ⟨source, within, same⟩ := origin range member
          exact ⟨source, List.mem_cons_of_mem _ within, same⟩

theorem exists_coalesce_eq (previous : AddressRange) (rest : List AddressRange) :
    ∃ endIp tail, Env.coalesce previous rest = { previous with endIp := endIp } :: tail := by
  induction rest generalizing previous with
  | nil => exact ⟨previous.endIp, [], rfl⟩
  | cons current rest ih =>
    rw [Env.coalesce]
    split
    · obtain ⟨endIp, tail, shape⟩ := ih (extend previous current)
      exact ⟨endIp, tail, shape⟩
    · exact ⟨previous.endIp, _, rfl⟩

theorem chain_coalesce (previous : AddressRange) (rest : List AddressRange) :
    (Env.coalesce previous rest).IsChain fun left right => ¬ Env.joins left right = true := by
  induction rest generalizing previous with
  | nil => exact List.isChain_singleton _
  | cons current rest ih =>
    rw [Env.coalesce]
    split
    · exact ih (extend previous current)
    · rename_i apart
      obtain ⟨endIp, tail, shape⟩ := exists_coalesce_eq current rest
      have chain := ih current
      rw [shape] at chain ⊢
      exact List.isChain_cons_cons.mpr ⟨apart, chain⟩

theorem ids_coalesce (previous : AddressRange) (rest : List AddressRange) :
    ((Env.coalesce previous rest).map (·.id)).Sublist ((previous :: rest).map (·.id)) := by
  induction rest generalizing previous with
  | nil => exact List.Sublist.refl _
  | cons current rest ih =>
    rw [Env.coalesce]
    split
    · exact (ih (extend previous current)).trans
        ((List.sublist_cons_self _ _).cons_cons previous.id)
    · exact (ih current).cons_cons previous.id

/-! ## Nothing is left to be joined -/

/-- Ranges that do not meet, and that are not next to each other under one label. -/
structure SetApart (left right : AddressRange) : Prop where
  apart : Apart left right
  gap : left.type = right.type → left.description = right.description →
    left.endIp.value + 1 ≠ right.startIp.value ∧ right.endIp.value + 1 ≠ left.startIp.value

theorem SetApart.symm {left right : AddressRange} (apart : SetApart left right) :
    SetApart right left where
  apart := apart.apart.symm
  gap types descriptions := (apart.gap types.symm descriptions.symm).symm

theorem label_unique {ranges : List AddressRange} (apart : ranges.Pairwise Apart)
    {type other : RangeType} {description note : Option Text} {value : Nat}
    (labels : Labels ranges type description value) (again : Labels ranges other note value) :
    type = other ∧ description = note := by
  obtain ⟨left, member, rfl, rfl, inLeft⟩ := labels
  obtain ⟨right, member', rfl, rfl, inRight⟩ := again
  by_cases same : left = right
  · exact ⟨congrArg _ same, congrArg _ same⟩
  · exact absurd (apart.forall member member' same)
      (not_apart_of_shared inLeft inRight)

theorem apart_of_label_ne {net : Network} {ranges origins : List AddressRange}
    (inside : ∀ range ∈ ranges, RangeIn net range) (apart : origins.Pairwise Apart)
    (labelled : ∀ type description value,
      Labels ranges type description value → Labels origins type description value)
    {left right : AddressRange} (member : left ∈ ranges) (member' : right ∈ ranges)
    (differ : ¬ (left.type = right.type ∧ left.description = right.description)) :
    Apart left right := by
  by_contra meet
  obtain ⟨value, inLeft, inRight⟩ :=
    exists_shared_of_not_apart (inside left member) (inside right member') meet
  exact differ (label_unique apart (labelled _ _ _ (labels_self member inLeft))
    (labelled _ _ _ (labels_self member' inRight)))

theorem typeOrder_injective {left right : RangeType} (custom : left.isSystem = false)
    (custom' : right.isSystem = false) (same : Env.typeOrder left = Env.typeOrder right) :
    left = right := by
  cases left <;> cases right <;> simp_all [RangeType.isSystem, Env.typeOrder]

/-- The first range ends before every later one of its label, with a gap. -/
theorem gap_of_chain {net : Network} {first : AddressRange} {rest origins : List AddressRange}
    (inside : ∀ range ∈ first :: rest, RangeIn net range)
    (custom : ∀ range ∈ first :: rest, range.type.isSystem = false)
    (apart : origins.Pairwise Apart)
    (labelled : ∀ type description value,
      Labels (first :: rest) type description value → Labels origins type description value)
    (sorted : (first :: rest).Pairwise SortsBefore)
    (chain : (first :: rest).IsChain fun left right => ¬ Env.joins left right = true)
    {later : AddressRange} (member : later ∈ rest) (type : first.type = later.type)
    (description : first.description = later.description) :
    first.endIp.value + 1 < later.startIp.value := by
  cases rest with
  | nil => cases member
  | cons next rest =>
    obtain ⟨before, sortedRest⟩ := List.pairwise_cons.mp sorted
    obtain ⟨stays, -⟩ := List.isChain_cons_cons.mp chain
    have atFirst := List.mem_cons_self (a := first) (l := next :: rest)
    have atNext : next ∈ first :: next :: rest := List.mem_cons_of_mem _ List.mem_cons_self
    have atLater : later ∈ first :: next :: rest := List.mem_cons_of_mem _ member
    have upToLater : next = later ∨ SortsBefore next later := by
      rcases List.mem_cons.mp member with same | behind
      · exact .inl same.symm
      · exact .inr ((List.pairwise_cons.mp sortedRest).1 later behind)
    -- the type does not change between two ranges of one type
    have nextType : first.type = next.type := by
      rcases upToLater with rfl | upToLater
      · exact type
      · have fromFirst := before next List.mem_cons_self
        unfold SortsBefore at fromFirst upToLater
        rw [type] at fromFirst
        exact typeOrder_injective (custom first atFirst) (custom next atNext) (by
          rw [type]
          omega)
    have starts : first.startIp.value ≤ next.startIp.value := by
      have fromFirst := before next List.mem_cons_self
      unfold SortsBefore at fromFirst
      rw [nextType] at fromFirst
      omega
    have laterStarts : next.startIp.value ≤ later.startIp.value := by
      rcases upToLater with rfl | upToLater
      · exact le_rfl
      · unfold SortsBefore at upToLater
        rw [← nextType, type] at upToLater
        omega
    by_cases label : first.description = next.description
    · have family : first.startIp.family = next.startIp.family :=
        (inside first atFirst).startFamily.trans (inside next atNext).startFamily.symm
      have apartNext : ¬ next.startIp.value ≤ first.endIp.value + 1 :=
        fun touch => stays (joins_iff.mpr ⟨nextType, label, family, touch⟩)
      omega
    · -- what stands between has another label, so it keeps the two apart
      have leftApart : Apart first next :=
        apart_of_label_ne inside apart labelled atFirst atNext fun same => label same.2
      have rightApart : Apart next later :=
        apart_of_label_ne inside apart labelled atNext atLater
          fun same => label (description.trans same.2.symm)
      have := (inside next atNext).order
      have := (inside later atLater).order
      unfold Apart at leftApart rightApart
      omega

/-- **Joined ranges that say what ranges apart say are set apart.** -/
theorem setApart_of_chain {net : Network} {ranges origins : List AddressRange}
    (inside : ∀ range ∈ ranges, RangeIn net range)
    (custom : ∀ range ∈ ranges, range.type.isSystem = false)
    (apart : origins.Pairwise Apart)
    (labelled : ∀ type description value,
      Labels ranges type description value → Labels origins type description value)
    (sorted : ranges.Pairwise SortsBefore)
    (chain : ranges.IsChain fun left right => ¬ Env.joins left right = true) :
    ranges.Pairwise SetApart := by
  induction ranges with
  | nil => exact .nil
  | cons first rest ih =>
    have restLabelled : ∀ type description value,
        Labels rest type description value → Labels origins type description value :=
      fun _ _ _ labels => labelled _ _ _ (labels_cons.mpr (.inr labels))
    refine List.pairwise_cons.mpr ⟨fun later member => ?_,
      ih (fun range member => inside range (List.mem_cons_of_mem _ member))
        (fun range member => custom range (List.mem_cons_of_mem _ member)) restLabelled
        (List.pairwise_cons.mp sorted).2 chain.tail⟩
    have atFirst := List.mem_cons_self (a := first) (l := rest)
    have atLater : later ∈ first :: rest := List.mem_cons_of_mem _ member
    have := (inside first atFirst).order
    have := (inside later atLater).order
    by_cases label : first.type = later.type ∧ first.description = later.description
    · have gap := gap_of_chain inside custom apart labelled sorted chain member label.1 label.2
      exact ⟨.inl (by omega), fun _ _ => by omega⟩
    · exact ⟨apart_of_label_ne inside apart labelled atFirst atLater label,
        fun type description => absurd ⟨type, description⟩ label⟩

/-! ## Cutting ranges to a part -/

/-- The custom ranges of a network. -/
def Env.customRanges (env : Env) (subnetId : Nat) : List AddressRange :=
  env.ranges.filter fun range => range.subnetId = subnetId && !range.type.isSystem

theorem Env.mem_customRanges {env : Env} {subnetId : Nat} {range : AddressRange} :
    range ∈ env.customRanges subnetId ↔
      range ∈ env.ranges ∧ range.subnetId = subnetId ∧ range.type.isSystem = false := by
  simp [customRanges, List.mem_filter]

section Cutting

variable {parent net : Network} (avoids : parent.AvoidsMapped)
  (within : net.isWithin parent = true) {range : AddressRange} (inside : RangeIn parent range)

include within inside

theorem exists_clip {value : Nat} (inRange : range.HasValue value) (inNet : net.HasValue value) :
    ∃ ends, Env.clip range net = some ends := by
  obtain ⟨family, -, -, -⟩ := Network.isWithin_iff.mp within
  have same : range.startIp.family = net.family := inside.startFamily.trans family.symm
  have nonempty : max range.startIp.value net.networkBig ≤ min range.endIp.value net.lastBig := by
    unfold AddressRange.HasValue at inRange
    unfold Network.HasValue at inNet
    omega
  refine ⟨(addressAt net.family (max range.startIp.value net.networkBig),
    addressAt net.family (min range.endIp.value net.lastBig)), ?_⟩
  rw [Env.clip, if_neg (not_not.mpr same)]
  simp only
  rw [if_pos nonempty]

include avoids

theorem clip_spec {start stop : Addr} (cut : Env.clip range net = some (start, stop)) :
    start.family = net.family ∧ stop.family = net.family ∧
      start.value = max range.startIp.value net.networkBig ∧
      stop.value = min range.endIp.value net.lastBig ∧ start.value ≤ stop.value := by
  obtain ⟨family, low, high, -⟩ := Network.isWithin_iff.mp within
  have avoidsNet := avoids.of_subset family low high
  have := inside.order
  have := net.networkBig_le_lastBig
  rw [Env.clip] at cut
  split at cut
  · cases cut
  · simp only at cut
    split at cut
    · rename_i nonempty
      obtain ⟨rfl, rfl⟩ := Prod.mk.inj (Option.some.inj cut)
      have startInside : net.HasValue (max range.startIp.value net.networkBig) :=
        ⟨le_max_right _ _, nonempty.trans (min_le_right _ _)⟩
      have stopInside : net.HasValue (min range.endIp.value net.lastBig) :=
        ⟨(le_max_right _ _).trans nonempty, min_le_right _ _⟩
      obtain ⟨startFamily, startValue⟩ := addressAt_of_hasValue avoidsNet startInside
      obtain ⟨stopFamily, stopValue⟩ := addressAt_of_hasValue avoidsNet stopInside
      exact ⟨startFamily, stopFamily, startValue, stopValue, by rwa [startValue, stopValue]⟩
    · cases cut

end Cutting

/-! ## Copies in the children -/

theorem labels_append {ranges others : List AddressRange} {type : RangeType}
    {description : Option Text} {value : Nat} :
    Labels (ranges ++ others) type description value ↔
      Labels ranges type description value ∨ Labels others type description value := by
  simp only [Labels, List.mem_append, or_and_right, exists_or]

/-- Custom ranges of the networks `ids` that say what the sources say of the values of
`nets`. -/
structure PiecesOf (parent : Network) (sources : List AddressRange) (ids : List Nat)
    (nets : List Network) (pieces : List AddressRange) : Prop where
  inside : ∀ piece ∈ pieces, RangeIn parent piece
  custom : ∀ piece ∈ pieces, piece.type.isSystem = false
  owner : ∀ piece ∈ pieces, piece.subnetId ∈ ids
  labels : ∀ type description value, Labels pieces type description value ↔
    Labels sources type description value ∧ ∃ net ∈ nets, net.HasValue value

/-- The environment gains such pieces, under new ids. -/
def Gains (parent : Network) (sources : List AddressRange) (ids : List Nat) (nets : List Network)
    (before after : Env) : Prop :=
  ∃ pieces, after.ranges = before.ranges ++ pieces ∧ PiecesOf parent sources ids nets pieces ∧
    ((before.ranges.map (·.id)).Nodup → (after.ranges.map (·.id)).Nodup)

namespace Gains

variable {parent : Network} {sources others : List AddressRange} {ids ids' : List Nat}
  {nets nets' : List Network} {first second third : Env}

theorem sources_nil (env : Env) : Gains parent [] ids nets env env :=
  ⟨[], (List.append_nil _).symm,
    { inside := List.forall_mem_nil _
      custom := List.forall_mem_nil _
      owner := List.forall_mem_nil _
      labels := by simp [Labels] }, id⟩

theorem nets_nil (env : Env) : Gains parent sources [] [] env env :=
  ⟨[], (List.append_nil _).symm,
    { inside := List.forall_mem_nil _
      custom := List.forall_mem_nil _
      owner := List.forall_mem_nil _
      labels := by simp [Labels] }, id⟩

theorem append_sources (gains : Gains parent sources ids nets first second)
    (gains' : Gains parent others ids nets second third) :
    Gains parent (sources ++ others) ids nets first third := by
  obtain ⟨pieces, ranges, isPieces, fresh⟩ := gains
  obtain ⟨pieces', ranges', isPieces', fresh'⟩ := gains'
  refine ⟨pieces ++ pieces', by rw [ranges', ranges, List.append_assoc], ?_, fresh' ∘ fresh⟩
  exact
    { inside := List.forall_mem_append.mpr ⟨isPieces.inside, isPieces'.inside⟩
      custom := List.forall_mem_append.mpr ⟨isPieces.custom, isPieces'.custom⟩
      owner := List.forall_mem_append.mpr ⟨isPieces.owner, isPieces'.owner⟩
      labels := fun type description value => by
        rw [labels_append, labels_append, isPieces.labels, isPieces'.labels, or_and_right] }

theorem append_nets (gains : Gains parent sources ids nets first second)
    (gains' : Gains parent sources ids' nets' second third) :
    Gains parent sources (ids ++ ids') (nets ++ nets') first third := by
  obtain ⟨pieces, ranges, isPieces, fresh⟩ := gains
  obtain ⟨pieces', ranges', isPieces', fresh'⟩ := gains'
  refine ⟨pieces ++ pieces', by rw [ranges', ranges, List.append_assoc], ?_, fresh' ∘ fresh⟩
  exact
    { inside := List.forall_mem_append.mpr ⟨isPieces.inside, isPieces'.inside⟩
      custom := List.forall_mem_append.mpr ⟨isPieces.custom, isPieces'.custom⟩
      owner := List.forall_mem_append.mpr
        ⟨fun piece member => List.mem_append_left _ (isPieces.owner piece member),
          fun piece member => List.mem_append_right _ (isPieces'.owner piece member)⟩
      labels := fun type description value => by
        rw [labels_append, isPieces.labels, isPieces'.labels, ← and_or_left]
        simp only [List.mem_append, or_and_right, exists_or] }

theorem customRanges_eq (gains : Gains parent sources ids nets first second) {subnetId : Nat}
    (outside : subnetId ∉ ids) : second.customRanges subnetId = first.customRanges subnetId := by
  obtain ⟨pieces, ranges, isPieces, -⟩ := gains
  have none : pieces.filter (fun range => range.subnetId = subnetId && !range.type.isSystem) =
      [] := by
    refine List.filter_eq_nil_iff.mpr fun piece member own => outside ?_
    simp only [Bool.and_eq_true, decide_eq_true_eq] at own
    rw [← own.1]
    exact isPieces.owner piece member
  rw [Env.customRanges, ranges, List.filter_append, none, List.append_nil, Env.customRanges]

end Gains

/-- One step of `copyUserRangesToChild`. -/
def Env.copyPiece (childId : Nat) (net : Network) (env : Env) (range : AddressRange) : Env :=
  match clip range net with
  | some (start, stop) => env.insertRange childId range.type start stop range.description
  | none => env

theorem Env.copyUserRangesToChild_eq (env : Env) (parentId childId : Nat) (net : Network) :
    env.copyUserRangesToChild parentId childId net =
      (env.customRanges parentId).foldl (copyPiece childId net) env := rfl

theorem Env.nodup_insertRange {env : Env} (ids : (env.ranges.map (·.id)).Nodup) (subnetId : Nat)
    (type : RangeType) (start stop : Addr) (description : Option Text) :
    ((env.insertRange subnetId type start stop description).ranges.map (·.id)).Nodup := by
  simp only [insertRange, List.map_append, List.map_cons, List.map_nil]
  refine List.nodup_append.mpr ⟨ids, List.nodup_singleton _, fun id member new isNew => ?_⟩
  obtain rfl := List.mem_singleton.mp isNew
  exact fun same => freshId_not_mem _ (same ▸ member)

section Copying

variable {parent net : Network} (avoids : parent.AvoidsMapped)
  (within : net.isWithin parent = true)

include avoids within

theorem gains_copyPiece {range : AddressRange} (inside : RangeIn parent range)
    (custom : range.type.isSystem = false) (childId : Nat) (env : Env) :
    Gains parent [range] [childId] [net] env (env.copyPiece childId net range) := by
  obtain ⟨family, low, high, -⟩ := Network.isWithin_iff.mp within
  cases cut : Env.clip range net with
  | none =>
    have same : env.copyPiece childId net range = env := by rw [Env.copyPiece, cut]
    rw [same]
    refine ⟨[], (List.append_nil _).symm, ⟨List.forall_mem_nil _, List.forall_mem_nil _,
      List.forall_mem_nil _, fun type description value => ?_⟩, id⟩
    refine iff_of_false (by simp [Labels]) ?_
    rintro ⟨⟨source, member, -, -, inRange⟩, other, member', inNet⟩
    obtain rfl := List.mem_singleton.mp member
    obtain rfl := List.mem_singleton.mp member'
    obtain ⟨ends, found⟩ := exists_clip within inside inRange inNet
    cases cut.symm.trans found
  | some ends =>
    obtain ⟨start, stop⟩ := ends
    obtain ⟨startFamily, stopFamily, startValue, stopValue, order⟩ :=
      clip_spec avoids within inside cut
    have written : env.copyPiece childId net range =
        env.insertRange childId range.type start stop range.description := by
      rw [Env.copyPiece, cut]
    rw [written]
    refine ⟨_, rfl, ?_, fun ids => Env.nodup_insertRange ids _ _ _ _ _⟩
    have pieceIn : RangeIn parent ⟨freshId (env.ranges.map (·.id)), childId, range.type, start,
        stop, range.description⟩ :=
      { startFamily := startFamily.trans family
        endFamily := stopFamily.trans family
        order := order
        low := low.trans (startValue ▸ le_max_right _ _)
        high := (stopValue ▸ min_le_right _ _).trans high }
    refine ⟨List.forall_mem_singleton.mpr pieceIn, List.forall_mem_singleton.mpr custom,
      List.forall_mem_singleton.mpr (List.mem_singleton_self _), fun type description value => ?_⟩
    simp only [Labels, List.mem_singleton, exists_eq_left, AddressRange.HasValue,
      Network.HasValue, startValue, stopValue, max_le_iff, le_min_iff]
    tauto

theorem gains_foldl {sources : List AddressRange}
    (inside : ∀ range ∈ sources, RangeIn parent range)
    (custom : ∀ range ∈ sources, range.type.isSystem = false) (childId : Nat) (env : Env) :
    Gains parent sources [childId] [net] env (sources.foldl (Env.copyPiece childId net) env) := by
  induction sources generalizing env with
  | nil => exact Gains.sources_nil env
  | cons range sources ih =>
    obtain ⟨inRange, insideRest⟩ := List.forall_mem_cons.mp inside
    obtain ⟨customRange, customRest⟩ := List.forall_mem_cons.mp custom
    exact (gains_copyPiece avoids within inRange customRange childId env).append_sources
      (ih insideRest customRest _)

end Copying

/-- The copies of a divide. -/
def Env.copyToChildren (env : Env) (parentId : Nat) (children : List (Nat × Network)) : Env :=
  children.foldl (fun env child => env.copyUserRangesToChild parentId child.1 child.2) env

/-- **The children get what the parent's ranges say of them.** -/
theorem gains_copyToChildren {parent : Network} (avoids : parent.AvoidsMapped) {parentId : Nat}
    {children : List (Nat × Network)}
    (within : ∀ child ∈ children, child.2.isWithin parent = true)
    (outside : parentId ∉ children.map (·.1)) {env : Env}
    (inside : ∀ range ∈ env.customRanges parentId, RangeIn parent range) :
    Gains parent (env.customRanges parentId) (children.map (·.1)) (children.map (·.2)) env
      (env.copyToChildren parentId children) := by
  induction children generalizing env with
  | nil => exact Gains.nets_nil env
  | cons child children ih =>
    obtain ⟨withinChild, withinRest⟩ := List.forall_mem_cons.mp within
    rw [List.map_cons, List.mem_cons, not_or] at outside
    have custom : ∀ range ∈ env.customRanges parentId, range.type.isSystem = false :=
      fun range member => (Env.mem_customRanges.mp member).2.2
    have first := gains_foldl avoids withinChild inside custom child.1 env
    rw [← Env.copyUserRangesToChild_eq] at first
    have stays : (env.copyUserRangesToChild parentId child.1 child.2).customRanges parentId =
        env.customRanges parentId :=
      first.customRanges_eq fun member => outside.1 (List.mem_singleton.mp member)
    have insideRest : ∀ range ∈
        (env.copyUserRangesToChild parentId child.1 child.2).customRanges parentId,
        RangeIn parent range := by
      rw [stays]
      exact inside
    have rest := ih withinRest outside.2 insideRest
    rw [stays] at rest
    exact first.append_nets rest

/-! ## Moving back -/

/-- What the loop of `moveCustomRangesToSubnet` leaves of a sorted list. -/
def joinAll : List AddressRange → List AddressRange
  | [] => []
  | first :: rest => Env.coalesce first rest

/-- The ranges once those of the sources are the target's. -/
def Env.movedRanges (env : Env) (sourceIds : List Nat) (targetId : Nat) : List AddressRange :=
  env.ranges.map fun range =>
    if range.subnetId ∈ sourceIds && !range.type.isSystem then { range with subnetId := targetId }
    else range

theorem Env.ids_movedRanges (env : Env) (sourceIds : List Nat) (targetId : Nat) :
    (env.movedRanges sourceIds targetId).map (·.id) = env.ranges.map (·.id) := by
  rw [movedRanges, List.map_map]
  refine List.map_congr_left fun range _ => ?_
  simp only [Function.comp_apply]
  split <;> rfl

/-- The custom ranges of the target, in the order in which they are joined. -/
def Env.ownRanges (env : Env) (sourceIds : List Nat) (targetId : Nat) : List AddressRange :=
  (((env.movedRanges sourceIds targetId).filter fun range =>
    range.subnetId = targetId && !range.type.isSystem).insertionSort
      (rangeTextOrder · ·)).insertionSort (rangeValueOrder · ·)

theorem Env.moveCustomRangesToSubnet_ranges {env : Env} {sourceIds : List Nat} (targetId : Nat)
    (nonempty : sourceIds ≠ []) :
    (env.moveCustomRangesToSubnet sourceIds targetId).ranges =
      (env.movedRanges sourceIds targetId).filterMap fun range =>
        if range.subnetId = targetId && !range.type.isSystem then
          (joinAll (env.ownRanges sourceIds targetId)).find? (·.id == range.id)
        else some range := by
  rw [moveCustomRangesToSubnet, if_neg nonempty]
  rfl

theorem Env.perm_ownRanges (env : Env) (sourceIds : List Nat) (targetId : Nat) :
    (env.ownRanges sourceIds targetId).Perm ((env.movedRanges sourceIds targetId).filter
    fun range =>
      range.subnetId = targetId && !range.type.isSystem) :=
  (List.perm_insertionSort _ _).trans (List.perm_insertionSort _ _)

theorem Env.sorted_ownRanges (env : Env) (sourceIds : List Nat) (targetId : Nat) :
    (env.ownRanges sourceIds targetId).Pairwise SortsBefore :=
  (List.pairwise_insertionSort (fun left right => rangeValueOrder left right = true) _).imp
    rangeValueOrder_iff.mp

theorem Env.mem_ownRanges {env : Env} {sourceIds : List Nat} {targetId : Nat}
    {range : AddressRange} : range ∈ env.ownRanges sourceIds targetId ↔
      ∃ source ∈ env.ranges, source.type.isSystem = false ∧
        (source.subnetId ∈ sourceIds ∨ source.subnetId = targetId) ∧
        range = { source with subnetId := targetId } := by
  rw [(env.perm_ownRanges sourceIds targetId).mem_iff, List.mem_filter, movedRanges, List.mem_map]
  constructor
  · rintro ⟨⟨source, member, rfl⟩, own⟩
    refine ⟨source, member, ?_⟩
    split at own
    · rename_i moves
      simp only [Bool.and_eq_true, decide_eq_true_eq, Bool.not_eq_true'] at moves
      rw [if_pos (by simpa using moves)]
      exact ⟨moves.2, .inl moves.1, rfl⟩
    · rename_i stays
      simp only [Bool.and_eq_true, decide_eq_true_eq, Bool.not_eq_true'] at own
      rw [if_neg stays, ← own.1]
      exact ⟨own.2, .inr rfl, rfl⟩
  · rintro ⟨source, member, custom, owner, rfl⟩
    refine ⟨⟨source, member, ?_⟩, by simp [custom]⟩
    split
    · rfl
    · rename_i stays
      rcases owner with moves | own
      · simp [moves, custom] at stays
      · rw [← own]

theorem subnetId_joinAll {ranges : List AddressRange} {targetId : Nat}
    (own : ∀ range ∈ ranges, range.subnetId = targetId) :
    ∀ range ∈ joinAll ranges, range.subnetId = targetId := by
  cases ranges with
  | nil => exact own
  | cons first rest => exact Env.subnetId_of_mem_coalesce own

theorem ids_joinAll (ranges : List AddressRange) :
    ((joinAll ranges).map (·.id)).Sublist (ranges.map (·.id)) := by
  cases ranges with
  | nil => exact List.Sublist.refl _
  | cons first rest => exact ids_coalesce first rest

theorem origin_joinAll {ranges : List AddressRange} (sorted : ranges.Pairwise SortsBefore) :
    (joinAll ranges).Pairwise SortsBefore ∧ ∀ range ∈ joinAll ranges, ∃ source ∈ ranges,
      range.type = source.type ∧ range.startIp = source.startIp ∧ range.id = source.id := by
  cases ranges with
  | nil => exact ⟨sorted, List.forall_mem_nil _⟩
  | cons first rest => exact sorted_coalesce sorted

theorem chain_joinAll (ranges : List AddressRange) :
    (joinAll ranges).IsChain fun left right => ¬ Env.joins left right = true := by
  cases ranges with
  | nil => exact List.isChain_nil
  | cons first rest => exact chain_coalesce first rest

section Joined

variable {net : Network} (avoids : net.AvoidsMapped) {ranges : List AddressRange}
  (inside : ∀ range ∈ ranges, RangeIn net range)

include avoids inside

theorem rangeIn_joinAll : ∀ range ∈ joinAll ranges, RangeIn net range := by
  cases ranges with
  | nil => exact inside
  | cons first rest => exact rangeIn_coalesce avoids inside

theorem labels_joinAll (sorted : ranges.Pairwise SortsBefore) {type : RangeType}
    {description : Option Text} {value : Nat} :
    Labels (joinAll ranges) type description value ↔ Labels ranges type description value := by
  cases ranges with
  | nil => rfl
  | cons first rest => exact labels_coalesce avoids inside sorted

end Joined

theorem ids_filterMap {change : AddressRange → Option AddressRange}
    (keeps : ∀ range changed, change range = some changed → changed.id = range.id)
    (ranges : List AddressRange) :
    ((ranges.filterMap change).map (·.id)).Sublist (ranges.map (·.id)) := by
  induction ranges with
  | nil => exact List.Sublist.refl _
  | cons first rest ih =>
    cases result : change first with
    | none =>
      rw [List.filterMap_cons_none result]
      exact ih.trans (List.sublist_cons_self _ _)
    | some changed =>
      rw [List.filterMap_cons_some result, List.map_cons, keeps first changed result]
      exact ih.cons_cons first.id

/-- **The target's custom ranges are the joined ones.** -/
theorem Env.customRanges_moveCustomRangesToSubnet {env : Env}
    (ids : (env.ranges.map (·.id)).Nodup) {sourceIds : List Nat} (nonempty : sourceIds ≠ [])
    (targetId : Nat) :
      ((env.moveCustomRangesToSubnet sourceIds targetId).customRanges targetId).Perm
      (joinAll (env.ownRanges sourceIds targetId)) := by
  have ranges := env.moveCustomRangesToSubnet_ranges targetId nonempty
  have isOwn : ∀ range ∈ env.ownRanges sourceIds targetId,
      range.subnetId = targetId ∧ range.type.isSystem = false := by
    intro range member
    obtain ⟨source, -, custom, -, rfl⟩ := mem_ownRanges.mp member
    exact ⟨rfl, custom⟩
  have movedIds : ((env.movedRanges sourceIds targetId).map (·.id)).Nodup := by
    rwa [ids_movedRanges]
  have ownIds : ((env.ownRanges sourceIds targetId).map (·.id)).Nodup := by
    rw [((env.perm_ownRanges sourceIds targetId).map _).nodup_iff]
    exact movedIds.sublist ((List.filter_sublist ..).map _)
  have joinedIds := ownIds.sublist (ids_joinAll _)
  have sorted := env.sorted_ownRanges sourceIds targetId
  have keeps : ∀ range changed,
      (if range.subnetId = targetId && !range.type.isSystem then
        (joinAll (env.ownRanges sourceIds targetId)).find? (·.id == range.id)
      else some range) = some changed → changed.id = range.id := by
    intro range changed result
    split at result
    · simpa using List.find?_some result
    · rw [Option.some.inj result]
  have resultIds : ((env.moveCustomRangesToSubnet sourceIds targetId).ranges.map (·.id)).Nodup := by
    rw [ranges]
    exact movedIds.sublist (ids_filterMap keeps _)
  refine (List.perm_ext_iff_of_nodup ?_ ?_).mpr fun range => ?_
  · exact (List.Nodup.of_map _ resultIds).filter _
  · exact List.Nodup.of_map _ joinedIds
  · rw [mem_customRanges, ranges, List.mem_filterMap]
    constructor
    · rintro ⟨⟨moved, member, result⟩, target, custom⟩
      split at result
      · exact List.mem_of_find?_eq_some result
      · rename_i other
        rw [Option.some.inj result] at other
        simp [target, custom] at other
    · intro member
      obtain ⟨source, within, type, -, id⟩ := (origin_joinAll sorted).2 range member
      obtain ⟨target, custom⟩ := isOwn source within
      have inMoved := (List.mem_filter.mp
        ((env.perm_ownRanges sourceIds targetId).mem_iff.mp within))
      refine ⟨⟨source, inMoved.1, ?_⟩,
        subnetId_joinAll (fun range member => (isOwn range member).1) range member,
        type ▸ custom⟩
      rw [if_pos inMoved.2]
      rw [← id]
      exact Keyed.find?_of_mem joinedIds member

/-! ## There and back -/

/-- A parent whose custom ranges are apart, and a partition of it into children that have
none. -/
structure Divisible (env : Env) (parent : Network) (parentId : Nat)
    (children : List (Nat × Network)) : Prop where
  avoids : parent.AvoidsMapped
  cut : Partitions parent (children.map (·.2))
  outside : parentId ∉ children.map (·.1)
  ids : (env.ranges.map (·.id)).Nodup
  inside : ∀ range ∈ env.customRanges parentId, RangeIn parent range
  apart : (env.customRanges parentId).Pairwise Apart
  fresh : ∀ id ∈ children.map (·.1), env.customRanges id = []

/-- The ranges are copied; the parent's own are kept or cleared. -/
def IsDivided (env : Env) (parentId : Nat) (children : List (Nat × Network)) (ready : Env) : Prop :=
  ready = env.copyToChildren parentId children ∨
    ready = (env.copyToChildren parentId children).deleteRanges (·.subnetId = parentId)

/-- Where the children's ranges are moved: back to the parent, or to a network that has
none. -/
structure IsTarget (env : Env) (parentId : Nat) (children : List (Nat × Network))
    (targetId : Nat) : Prop where
  outside : targetId ∉ children.map (·.1)
  own : targetId = parentId ∨ env.customRanges targetId = []

section RoundTrip

variable {env ready : Env} {parent : Network} {parentId targetId : Nat}
  {children : List (Nat × Network)} (divisible : Divisible env parent parentId children)
  (divided : IsDivided env parentId children ready)

include divisible

theorem Divisible.children_ne_nil : children.map (·.1) ≠ [] := by
  obtain ⟨part, member, -⟩ :=
    divisible.cut.covers parent.networkBig ⟨le_rfl, parent.networkBig_le_lastBig⟩
  obtain ⟨child, isChild, -⟩ := List.mem_map.mp member
  exact List.ne_nil_of_mem (List.mem_map_of_mem isChild)

theorem Divisible.gains : Gains parent (env.customRanges parentId) (children.map (·.1))
    (children.map (·.2)) env (env.copyToChildren parentId children) :=
  gains_copyToChildren divisible.avoids
    (fun child member => divisible.cut.within child.2 (List.mem_map_of_mem member))
    divisible.outside divisible.inside

theorem mem_ownRanges_iff (target : IsTarget env parentId children targetId)
    {pieces : List AddressRange}
    (isPieces : PiecesOf parent (env.customRanges parentId) (children.map (·.1))
      (children.map (·.2)) pieces)
    (below : ∀ range ∈ ready.ranges, range ∈ env.ranges ∨ range ∈ pieces)
    (still : ∀ range ∈ pieces, range ∈ ready.ranges) {range : AddressRange} :
    range ∈ ready.ownRanges (children.map (·.1)) targetId ↔
      ∃ source, (source ∈ pieces ∨
        (source ∈ env.customRanges parentId ∧ source ∈ ready.ranges ∧ targetId = parentId)) ∧
        range = { source with subnetId := targetId } := by
  rw [Env.mem_ownRanges]
  constructor
  · rintro ⟨source, member, custom, owner, rfl⟩
    refine ⟨source, ?_, rfl⟩
    rcases below source member with old | new
    · have mine := Env.mem_customRanges.mpr ⟨old, rfl, custom⟩
      rcases owner with child | own
      · rw [divisible.fresh _ child] at mine
        cases mine
      · rw [own] at mine
        rcases target.own with same | none
        · exact .inr ⟨same ▸ mine, member, same⟩
        · rw [none] at mine
          cases mine
    · exact .inl new
  · rintro ⟨source, new | ⟨mine, member, same⟩, rfl⟩
    · exact ⟨source, still source new, isPieces.custom source new,
        .inl (isPieces.owner source new), rfl⟩
    · obtain ⟨-, owner, custom⟩ := Env.mem_customRanges.mp mine
      exact ⟨source, member, custom, .inr (owner.trans same.symm), rfl⟩

include divided

theorem exists_pieces : ∃ pieces,
    PiecesOf parent (env.customRanges parentId) (children.map (·.1)) (children.map (·.2)) pieces ∧
      (∀ range ∈ ready.ranges, range ∈ env.ranges ∨ range ∈ pieces) ∧
      (∀ range ∈ pieces, range ∈ ready.ranges) ∧ (ready.ranges.map (·.id)).Nodup := by
  obtain ⟨pieces, ranges, isPieces, newIds⟩ := divisible.gains
  have copied : ∀ range, range ∈ (env.copyToChildren parentId children).ranges ↔
      range ∈ env.ranges ∨ range ∈ pieces := by
    intro range
    rw [ranges, List.mem_append]
  refine ⟨pieces, isPieces, ?_⟩
  rcases divided with rfl | rfl
  · exact ⟨fun range member => (copied range).mp member,
      fun range member => (copied range).mpr (.inr member), newIds divisible.ids⟩
  · refine ⟨fun range member => (copied range).mp (List.mem_filter.mp member).1,
      fun range member => List.mem_filter.mpr ⟨(copied range).mpr (.inr member), ?_⟩,
      (newIds divisible.ids).sublist ((List.filter_sublist ..).map _)⟩
    -- the parent's ranges go, and the pieces are not the parent's
    have other : range.subnetId ≠ parentId :=
      fun same => divisible.outside (same ▸ isPieces.owner range member)
    simp [other]

variable (target : IsTarget env parentId children targetId)

include target

theorem labels_ownRanges :
    (∀ range ∈ ready.ownRanges (children.map (·.1)) targetId, RangeIn parent range) ∧
      ∀ type description value,
        Labels (ready.ownRanges (children.map (·.1)) targetId) type description value ↔
          Labels (env.customRanges parentId) type description value := by
  obtain ⟨pieces, isPieces, below, still, -⟩ := exists_pieces divisible divided
  have mem_own := @mem_ownRanges_iff _ _ _ _ _ _ divisible target _ isPieces below still
  refine ⟨fun range member => ?_, fun type description value => ⟨?_, ?_⟩⟩
  · obtain ⟨source, new | ⟨mine, -, -⟩, rfl⟩ := mem_own.mp member
    · have own := isPieces.inside source new
      exact ⟨own.startFamily, own.endFamily, own.order, own.low, own.high⟩
    · have own := divisible.inside source mine
      exact ⟨own.startFamily, own.endFamily, own.order, own.low, own.high⟩
  · rintro ⟨range, member, rfl, rfl, has⟩
    obtain ⟨source, new | ⟨mine, -, -⟩, rfl⟩ := mem_own.mp member
    · exact ((isPieces.labels _ _ _).mp (labels_self new has)).1
    · exact labels_self mine has
  · rintro ⟨range, mine, rfl, rfl, has⟩
    have own := divisible.inside range mine
    obtain ⟨net, member, inNet⟩ :=
      divisible.cut.covers value ⟨own.low.trans has.1, has.2.trans own.high⟩
    obtain ⟨piece, new, type, description, inPiece⟩ :=
      (isPieces.labels _ _ _).mpr ⟨labels_self mine has, net, member, inNet⟩
    exact ⟨{ piece with subnetId := targetId }, mem_own.mpr ⟨piece, .inl new, rfl⟩,
      type, description, inPiece⟩

end RoundTrip

/-- **Custom ranges survive.** Whether the parent keeps its own or is cleared, and whether
the children's are moved back to it or to a new network: they say what the parent's said,
do not meet, and none is left to be joined. -/
theorem custom_ranges_survive {env ready : Env} {parent : Network} {parentId targetId : Nat}
    {children : List (Nat × Network)} (divisible : Divisible env parent parentId children)
    (divided : IsDivided env parentId children ready)
    (target : IsTarget env parentId children targetId) :
    let merged := (ready.moveCustomRangesToSubnet (children.map (·.1)) targetId).customRanges
        targetId
    (∀ range ∈ merged, RangeIn parent range) ∧ merged.Pairwise SetApart ∧
      ∀ type description value, Labels merged type description value ↔
        Labels (env.customRanges parentId) type description value := by
  obtain ⟨-, -, -, -, ids⟩ := exists_pieces divisible divided
  obtain ⟨inside, labels⟩ := labels_ownRanges divisible divided target
  have perm := Env.customRanges_moveCustomRangesToSubnet ids divisible.children_ne_nil targetId
  have sorted := ready.sorted_ownRanges (children.map (·.1)) targetId
  have custom : ∀ range ∈ joinAll (ready.ownRanges (children.map (·.1)) targetId),
      range.type.isSystem = false := fun range member =>
    (Env.mem_customRanges.mp (perm.mem_iff.mpr member)).2.2
  have insideJoined := rangeIn_joinAll divisible.avoids inside
  have labelsJoined : ∀ type description value,
      Labels (joinAll (ready.ownRanges (children.map (·.1)) targetId)) type description value ↔
        Labels (env.customRanges parentId) type description value :=
    fun type description value =>
      (labels_joinAll divisible.avoids inside sorted).trans (labels type description value)
  have setApart := setApart_of_chain insideJoined custom divisible.apart
    (fun type description value => (labelsJoined type description value).mp)
    (origin_joinAll sorted).1 (chain_joinAll _)
  exact ⟨fun range member => insideJoined range (perm.mem_iff.mp member),
    setApart.perm perm.symm SetApart.symm, fun type description value =>
      (labels_congr fun range => perm.mem_iff).trans (labelsJoined type description value)⟩

/-- The network `10.0.0.0/25`. -/
def tenLower : Network where
  family := .v4
  networkBig := 0x0a000000
  prefixLen := 25
  prefix_le := Network.ten_prefix_le_25
  aligned := Network.ten_aligned_25
  fits := Network.ten_fits
  unmapped := Network.ten_unmapped

/-- The network `10.0.0.128/25`. -/
def tenUpper : Network where
  family := .v4
  networkBig := 0x0a000080
  prefixLen := 25
  prefix_le := by decide
  aligned := by decide
  fits := by decide
  unmapped := by decide

/-- Ranges of one type and two descriptions, the first one across the middle of
`10.0.0.0/24`. -/
def halvesEnv : Env :=
  { bareDb.env with
    ranges :=
      [⟨1, 1, .custom 7, addressAt .v4 0x0a000064, addressAt .v4 0x0a000095, none⟩,
        ⟨2, 1, .custom 7, addressAt .v4 0x0a000096, addressAt .v4 0x0a0000a0, some "lab".toList⟩] }

/-- The ranges of `10.0.0.0/24` come back from its halves. -/
theorem custom_ranges_survive_halves :
    let children := [(2, tenLower), (3, tenUpper)]
    let merged :=
        ((halvesEnv.copyToChildren 1 children).moveCustomRangesToSubnet [2, 3] 1).customRanges 1
    (∀ range ∈ merged, RangeIn tenNet range) ∧ merged.Pairwise SetApart ∧
      ∀ type description value, Labels merged type description value ↔
        Labels (halvesEnv.customRanges 1) type description value := by
  have halves : Partitions tenNet [tenLower, tenUpper] :=
    { within := by decide
      apart := by decide
      covers := by
        intro value inside
        simp only [List.mem_cons, List.not_mem_nil, or_false, exists_eq_or_imp, exists_eq_left]
        simp only [Network.hasValue_iff] at inside ⊢
        simp only [Network.sizeBig, Network.bits, tenNet, tenLower, tenUpper, Family.bits,
          Address.ipv4Bits] at inside ⊢
        omega }
  have inside : ∀ range ∈ halvesEnv.customRanges 1, RangeIn tenNet range := by
    have first : RangeIn tenNet
        ⟨1, 1, .custom 7, addressAt .v4 0x0a000064, addressAt .v4 0x0a000095, none⟩ :=
      ⟨by decide, by decide, by decide, by decide, by decide⟩
    have second : RangeIn tenNet ⟨2, 1, .custom 7, addressAt .v4 0x0a000096,
        addressAt .v4 0x0a0000a0, some "lab".toList⟩ :=
      ⟨by decide, by decide, by decide, by decide, by decide⟩
    exact List.forall_mem_cons.mpr ⟨first, List.forall_mem_singleton.mpr second⟩
  have apart : (halvesEnv.customRanges 1).Pairwise Apart :=
    List.pairwise_pair.mpr (.inl (by decide))
  have divisible : Divisible halvesEnv tenNet 1 [(2, tenLower), (3, tenUpper)] :=
    { avoids := by decide
      cut := halves
      outside := by decide
      ids := by decide
      inside := inside
      apart := apart
      fresh := by
        intro id member
        fin_cases member <;> rfl }
  exact custom_ranges_survive divisible (.inl rfl) ⟨by decide, .inl rfl⟩

end Cidrella
