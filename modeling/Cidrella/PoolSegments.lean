import Cidrella.NetworkRelations
import Cidrella.Lib.Spans

/-!
# Pools without their reserved addresses

`backends/shared/pool-segments.js`. Both DHCP backends write a scope's dynamic pools as
address ranges, with every reserved address carved out. A pool is walked by one cursor over
the excluded values in ascending order; what lies between the cursor and the next value is
a segment.

The cursor stands past every excluded value seen so far, which is what makes the walk exact
whatever repeats, touches, or stands at an end of the pool (`has_walk`). `poolSegments_exact`
says it of the texts that go in and come out.
-/

set_option autoImplicit false

namespace Cidrella

namespace PoolSegments

open Address

/-- A pool or a segment: two address texts. -/
structure AddressRange where
  startIp : Text
  endIp : Text
  deriving DecidableEq, Repr

/-- `tryAddress`. A malformed excluded address carves nothing out. -/
def tryAddress (ip : Text) : Option Addr := addressToBig ip

/-- `excluded` of `poolSegments`: the values of the excluded addresses of the family, sorted. -/
def excludedValues (excludedIps : List Text) (family : Family) : List Nat :=
  (((excludedIps.eraseDups.map tryAddress).filterMap fun address =>
    address.filter (·.family = family)).map Addr.value).mergeSort

/-- The walk over one pool, from `cursor` on. -/
def walk (start stop : Nat) : Nat → List Nat → List Span
  | cursor, value :: excluded =>
    if value < start ∨ value > stop then walk start stop cursor excluded
    else (if cursor < value then [⟨cursor, value - 1⟩] else []) ++
      walk start stop (value + 1) excluded
  | cursor, [] => if cursor ≤ stop then [⟨cursor, stop⟩] else []

/-- The segments of one pool. -/
def segmentsOf (excluded : List Nat) (pool : AddressRange) : Option (List Span) := do
  let start ← addressToBig pool.startIp
  let stop ← addressToBig pool.endIp
  some (walk start.value stop.value start.value excluded)

/-- A segment as it is returned, in the spelling of `bigToAddress`. -/
def rangeOf (family : Family) (segment : Span) : AddressRange where
  startIp := formatIp segment.start family.bits
  endIp := formatIp segment.stop family.bits

/-- `poolSegments`. `none`: a pool's own address does not parse, which throws. -/
def poolSegments (pools : List AddressRange) (excludedIps : List Text) (family : Family) :
    Option (List AddressRange) := do
  let segments ← pools.mapM (segmentsOf (excludedValues excludedIps family))
  some (segments.flatten.map (rangeOf family))

/-! ## One pool -/

/-- Where the cursor stands: past every value of the pool that was seen, so no value to come
lies more than one before it. -/
def CursorAt (start stop cursor : Nat) (excluded : List Nat) : Prop :=
  start ≤ cursor ∧ ∀ value ∈ excluded, start ≤ value → value ≤ stop → cursor ≤ value + 1

section
variable {start stop cursor value : Nat} {excluded : List Nat}

theorem CursorAt.skip (standing : CursorAt start stop cursor (value :: excluded)) :
    CursorAt start stop cursor excluded :=
  ⟨standing.1, fun other member => standing.2 other (List.mem_cons_of_mem _ member)⟩

theorem CursorAt.pass (sorted : (value :: excluded).Pairwise (· ≤ ·)) (inside : start ≤ value) :
    CursorAt start stop (value + 1) excluded := by
  refine ⟨Nat.le_succ_of_le inside, fun other member _ _ => ?_⟩
  exact Nat.succ_le_succ (List.rel_of_pairwise_cons sorted member)

theorem within_walk (standing : CursorAt start stop cursor excluded)
    (sorted : excluded.Pairwise (· ≤ ·)) :
    ∀ segment ∈ walk start stop cursor excluded,
      cursor ≤ segment.start ∧ segment.start ≤ segment.stop ∧ segment.stop ≤ stop := by
  induction excluded generalizing cursor with
  | nil =>
    intro segment member
    rw [walk] at member
    split at member
    · obtain rfl := List.mem_singleton.mp member
      exact ⟨le_rfl, ‹cursor ≤ stop›, le_rfl⟩
    · cases member
  | cons value excluded ih =>
    intro segment member
    rw [walk] at member
    split at member
    case isTrue => exact ih standing.skip sorted.of_cons segment member
    case isFalse inside =>
      have first := standing.2 value List.mem_cons_self (by omega) (by omega)
      rcases List.mem_append.mp member with before | after
      · split at before
        · obtain rfl := List.mem_singleton.mp before
          refine ⟨le_rfl, ?_, ?_⟩ <;> simp only <;> omega
        · cases before
      · obtain ⟨low, order, high⟩ := ih (CursorAt.pass sorted (by omega)) sorted.of_cons
          segment after
        exact ⟨by omega, order, high⟩

theorem has_gap {number : Nat} :
    (∃ segment ∈ if cursor < value then [(⟨cursor, value - 1⟩ : Span)] else [], segment.Has number)
      ↔ cursor ≤ number ∧ number < value := by
  split
  · simp only [List.mem_singleton, exists_eq_left, Span.Has]
    omega
  · simp only [List.not_mem_nil, false_and, exists_false, false_iff]
    omega

/-- **The segments hold the values from the cursor on that are not excluded.** -/
theorem has_walk (standing : CursorAt start stop cursor excluded)
    (sorted : excluded.Pairwise (· ≤ ·)) {number : Nat} :
      (∃ segment ∈ walk start stop cursor excluded, segment.Has number) ↔ cursor ≤ number ∧
      number ≤ stop ∧ number ∉ excluded := by
  induction excluded generalizing cursor with
  | nil =>
    rw [walk]
    split
    · simp [Span.Has]
    · simp only [List.not_mem_nil, false_and, exists_false, not_false_eq_true, and_true, false_iff]
      omega
  | cons value excluded ih =>
    have low := standing.1
    rw [walk, List.mem_cons, not_or]
    split
    case isTrue outside =>
      rw [ih standing.skip sorted.of_cons]
      constructor
      · rintro ⟨reached, upto, absent⟩
        exact ⟨reached, upto, by omega, absent⟩
      · rintro ⟨reached, upto, -, absent⟩
        exact ⟨reached, upto, absent⟩
    case isFalse inside =>
      have first := standing.2 value List.mem_cons_self (by omega) (by omega)
      have later : ∀ other ∈ excluded, value ≤ other :=
        fun other => List.rel_of_pairwise_cons sorted
      have rest := @ih (value + 1) (CursorAt.pass sorted (by omega)) sorted.of_cons
      simp only [List.mem_append, or_and_right, exists_or, has_gap, rest]
      constructor
      · rintro (⟨reached, before⟩ | ⟨past, upto, absent⟩)
        · exact ⟨reached, by omega, by omega, fun member => by have := later number member; omega⟩
        · exact ⟨by omega, upto, by omega, absent⟩
      · rintro ⟨reached, upto, other, absent⟩
        rcases Nat.lt_or_ge number value with before | after
        · exact .inl ⟨reached, before⟩
        · exact .inr ⟨by omega, upto, absent⟩

theorem pairwise_walk (standing : CursorAt start stop cursor excluded)
    (sorted : excluded.Pairwise (· ≤ ·)) :
    (walk start stop cursor excluded).Pairwise Span.Apart := by
  induction excluded generalizing cursor with
  | nil =>
    rw [walk]
    split
    · exact List.pairwise_singleton _ _
    · exact List.Pairwise.nil
  | cons value excluded ih =>
    rw [walk]
    split
    case isTrue => exact ih standing.skip sorted.of_cons
    case isFalse inside =>
      have past : CursorAt start stop (value + 1) excluded := CursorAt.pass sorted (by omega)
      refine List.pairwise_append.mpr ⟨?_, ih past sorted.of_cons, ?_⟩
      · split
        · exact List.pairwise_singleton _ _
        · exact List.Pairwise.nil
      · intro left before right after number both
        have gap := has_gap.mp ⟨left, before, both.1⟩
        have rest := (within_walk past sorted.of_cons right after).1
        have reached := both.2.1
        omega

end

/-! ## Texts -/

/-- The range is an interval of the family: both texts are addresses of it, the first is not
after the second, and no address of `::ffff:0:0/96`, which are IPv4, lies between them. -/
def IsInterval (family : Family) (range : AddressRange) : Prop :=
  ∃ start stop, addressToBig range.startIp = some start ∧ addressToBig range.endIp = some stop ∧
    start.family = family ∧ stop.family = family ∧ start.value ≤ stop.value ∧
    (family = .v6 → ∀ value, start.value ≤ value → value ≤ stop.value → value / 2 ^ 32 ≠ 0xffff)

/-- The address lies in the range, as its texts are read. -/
def AddressRange.Holds (range : AddressRange) (addr : Addr) : Prop :=
  ∃ start stop, addressToBig range.startIp = some start ∧ addressToBig range.endIp = some stop ∧
    start.family = addr.family ∧ stop.family = addr.family ∧
    start.value ≤ addr.value ∧ addr.value ≤ stop.value

/-- No address lies in both. -/
def Disjoint (left right : AddressRange) : Prop := ∀ addr, ¬ (left.Holds addr ∧ right.Holds addr)

/-- The values of a range's texts. -/
structure Spans (family : Family) (range : AddressRange) (span : Span) : Prop where
  reads : ∃ start stop : Addr, addressToBig range.startIp = some start ∧
    addressToBig range.endIp = some stop ∧ start.family = family ∧ stop.family = family ∧
    span = ⟨start.value, stop.value⟩
  order : span.start ≤ span.stop
  unmapped : family = .v6 → ∀ value, span.Has value → value / 2 ^ 32 ≠ 0xffff

section
variable {family : Family} {range : AddressRange} {span : Span} {addr : Addr}

theorem isInterval_iff : IsInterval family range ↔ ∃ span, Spans family range span := by
  constructor
  · rintro ⟨start, stop, first, last, lower, upper, order, unmapped⟩
    exact ⟨⟨start.value, stop.value⟩, ⟨start, stop, first, last, lower, upper, rfl⟩, order,
      fun six value inside => unmapped six value inside.1 inside.2⟩
  · rintro ⟨span, ⟨start, stop, first, last, lower, upper, rfl⟩, order, unmapped⟩
    exact ⟨start, stop, first, last, lower, upper, order,
      fun six value low high => unmapped six value ⟨low, high⟩⟩

theorem Spans.holds_iff (spans : Spans family range span) :
    range.Holds addr ↔ addr.family = family ∧ span.Has addr.value := by
  obtain ⟨start, stop, first, last, lower, upper, rfl⟩ := spans.reads
  constructor
  · rintro ⟨start', stop', first', last', lower', -, low, high⟩
    obtain rfl := Option.some.inj (first.symm.trans first')
    obtain rfl := Option.some.inj (last.symm.trans last')
    exact ⟨lower'.symm.trans lower, low, high⟩
  · rintro ⟨rfl, low, high⟩
    exact ⟨start, stop, first, last, lower, upper, low, high⟩

theorem Spans.value_lt (spans : Spans family range span) {value : Nat} (inside : span.Has value) :
    value < 2 ^ family.bits := by
  obtain ⟨_, stop, -, -, -, upper, rfl⟩ := spans.reads
  exact lt_of_le_of_lt inside.2 (upper ▸ stop.fits)

theorem spans_rangeOf (order : span.start ≤ span.stop) (fits : span.stop < 2 ^ family.bits)
    (unmapped : family = .v6 → ∀ value, span.Has value → value / 2 ^ 32 ≠ 0xffff) :
    Spans family (rangeOf family span) span where
  reads := by
    refine ⟨⟨family, span.start, by omega, fun six => unmapped six _ ⟨le_rfl, order⟩⟩,
      ⟨family, span.stop, fits, fun six => unmapped six _ ⟨order, le_rfl⟩⟩, ?_, ?_, rfl, rfl, rfl⟩
    · exact addressToBig_text ⟨family, span.start, _, _⟩
    · exact addressToBig_text ⟨family, span.stop, _, _⟩
  order := order
  unmapped := unmapped

theorem mem_excludedValues {excludedIps : List Text} :
    addr.value ∈ excludedValues excludedIps addr.family ↔ ∃ ip ∈ excludedIps,
    addressToBig ip = some addr := by
  simp only [excludedValues, List.mem_mergeSort, List.mem_map, List.mem_filterMap,
    List.mem_eraseDups, tryAddress]
  constructor
  · rintro ⟨other, ⟨read, ⟨ip, member, parsed⟩, kept⟩, value⟩
    rw [Option.filter_eq_some_iff] at kept
    obtain ⟨rfl, family⟩ := kept
    refine ⟨ip, member, parsed.trans (congrArg some ?_)⟩
    exact Addr.eq_of_value_eq (of_decide_eq_true family) value
  · rintro ⟨ip, member, parsed⟩
    refine ⟨addr, ⟨some addr, ⟨ip, member, parsed⟩, ?_⟩, rfl⟩
    exact Option.filter_eq_some_iff.mpr ⟨rfl, decide_eq_true rfl⟩

theorem excludedValues_sorted (excludedIps : List Text) (family : Family) :
    (excludedValues excludedIps family).Pairwise (· ≤ ·) := by
  refine (List.pairwise_mergeSort (fun a b c first second => ?_) (fun a b => ?_) _).imp
    of_decide_eq_true
  · exact decide_eq_true ((of_decide_eq_true first).trans (of_decide_eq_true second))
  · simp only [Bool.or_eq_true, decide_eq_true_eq]
    exact Nat.le_total a b

/-- What a pool is carved into. -/
def carve (excluded : List Nat) (span : Span) : List Span :=
  walk span.start span.stop span.start excluded

theorem cursorAt_start (start stop : Nat) (excluded : List Nat) :
    CursorAt start stop start excluded :=
  ⟨le_rfl, fun _ _ low _ => Nat.le_succ_of_le low⟩

theorem Spans.segmentsOf_eq (spans : Spans family range span) (excluded : List Nat) :
    segmentsOf excluded range = some (carve excluded span) := by
  obtain ⟨start, stop, first, last, -, -, rfl⟩ := spans.reads
  rw [segmentsOf, first, last]
  rfl

theorem Spans.segment (spans : Spans family range span) {excluded : List Nat}
    (sorted : excluded.Pairwise (· ≤ ·)) {segment : Span} (member : segment ∈ carve excluded span) :
    Spans family (rangeOf family segment) segment := by
  have start := cursorAt_start span.start span.stop excluded
  obtain ⟨low, order, high⟩ := within_walk start sorted segment member
  refine spans_rangeOf order (spans.value_lt ⟨low.trans order, high⟩) fun six value inside => ?_
  exact spans.unmapped six value ⟨low.trans inside.1, inside.2.trans high⟩

/-- **An address of a pool lies in a segment of it exactly when it is not excluded.** -/
theorem Spans.holds_carve (spans : Spans family range span) (excludedIps : List Text) :
    (∃ segment ∈ carve (excludedValues excludedIps family) span,
      (rangeOf family segment).Holds addr) ↔ range.Holds addr ∧ ¬ ∃ ip ∈ excludedIps,
      addressToBig ip = some addr := by
  have sorted := excludedValues_sorted excludedIps family
  calc (∃ segment ∈ carve (excludedValues excludedIps family) span,
      (rangeOf family segment).Holds addr) ↔ addr.family = family ∧
          ∃ segment ∈ carve (excludedValues excludedIps family) span, segment.Has addr.value := by
        constructor
        · rintro ⟨segment, member, holds⟩
          obtain ⟨same, inside⟩ := (spans.segment sorted member).holds_iff.mp holds
          exact ⟨same, segment, member, inside⟩
        · rintro ⟨same, segment, member, inside⟩
          exact ⟨segment, member, (spans.segment sorted member).holds_iff.mpr ⟨same, inside⟩⟩
    _ ↔ addr.family = family ∧ span.Has addr.value ∧ addr.value ∉ excludedValues excludedIps
        family := by
        rw [carve, has_walk (cursorAt_start _ _ _) sorted, Span.Has, and_assoc]
    _ ↔ range.Holds addr ∧ ¬ ∃ ip ∈ excludedIps, addressToBig ip = some addr := by
        rw [spans.holds_iff, and_assoc]
        refine and_congr_right fun same => and_congr_right fun _ => not_congr ?_
        rw [← same, mem_excludedValues]

theorem Spans.pairwise_carve (spans : Spans family range span) (excludedIps : List Text) :
    ((carve (excludedValues excludedIps family) span).map (rangeOf family)).Pairwise Disjoint := by
  have sorted := excludedValues_sorted excludedIps family
  refine List.pairwise_map.mpr ?_
  refine (pairwise_walk (cursorAt_start _ _ _) sorted).imp_of_mem ?_
  intro left right leftMember rightMember apart addr both
  have inLeft := ((spans.segment sorted leftMember).holds_iff.mp both.1).2
  have inRight := ((spans.segment sorted rightMember).holds_iff.mp both.2).2
  exact apart _ ⟨inLeft, inRight⟩

end

theorem mapM_of_forall {α β : Type} {read : α → Option β} {result : α → β} {items : List α}
    (reads : ∀ item ∈ items, read item = some (result item)) :
    items.mapM read = some (items.map result) := by
  induction items with
  | nil => rfl
  | cons item items ih =>
    rw [List.mapM_cons, reads item List.mem_cons_self,
      ih fun other member => reads other (List.mem_cons_of_mem _ member)]
    rfl

section
variable {family : Family} {pools : List AddressRange} {excludedIps : List Text}

/-- **Pool carving is exact.** The segments are intervals of the family, they hold the pools'
addresses that are not excluded, in whatever spelling, and no two of them meet when no two
pools do. -/
theorem poolSegments_exact (intervals : ∀ pool ∈ pools, IsInterval family pool) :
    ∃ segments, poolSegments pools excludedIps family = some segments ∧
      (∀ segment ∈ segments, IsInterval family segment) ∧
      (∀ addr, (∃ segment ∈ segments, segment.Holds addr) ↔
        (∃ pool ∈ pools, pool.Holds addr) ∧ ¬ ∃ ip ∈ excludedIps, addressToBig ip = some addr) ∧
      (pools.Pairwise Disjoint → segments.Pairwise Disjoint) := by
  have reads : ∀ pool : AddressRange, ∃ span, pool ∈ pools → Spans family pool span := by
    intro pool
    by_cases member : pool ∈ pools
    · obtain ⟨span, spans⟩ := isInterval_iff.mp (intervals pool member)
      exact ⟨span, fun _ => spans⟩
    · exact ⟨⟨0, 0⟩, fun other => absurd other member⟩
  choose spanOf spanned using reads
  let segmentsIn := fun pool => (carve (excludedValues excludedIps family) (spanOf pool)).map
      (rangeOf family)
  have done : pools.mapM (segmentsOf (excludedValues excludedIps family)) =
      some (pools.map fun pool => carve (excludedValues excludedIps family) (spanOf pool)) :=
    mapM_of_forall fun pool member => (spanned pool member).segmentsOf_eq _
  have held : ∀ pool ∈ pools, ∀ addr, (∃ segment ∈ segmentsIn pool, segment.Holds addr) ↔
      pool.Holds addr ∧ ¬ ∃ ip ∈ excludedIps, addressToBig ip = some addr := by
    intro pool member addr
    rw [← (spanned pool member).holds_carve excludedIps]
    simp only [segmentsIn, List.mem_map, exists_exists_and_eq_and]
  refine ⟨pools.flatMap segmentsIn, ?_, ?_, ?_, ?_⟩
  · rw [poolSegments, done]
    change some _ = some _
    rw [List.map_flatten, List.map_map]
    rfl
  · intro range member
    obtain ⟨pool, isPool, part⟩ := List.mem_flatMap.mp member
    obtain ⟨segment, inside, rfl⟩ := List.mem_map.mp part
    have sorted := excludedValues_sorted excludedIps family
    exact isInterval_iff.mpr ⟨segment, (spanned pool isPool).segment sorted inside⟩
  · intro addr
    constructor
    · rintro ⟨segment, member, holds⟩
      obtain ⟨pool, isPool, part⟩ := List.mem_flatMap.mp member
      obtain ⟨inPool, kept⟩ := (held pool isPool addr).mp ⟨segment, part, holds⟩
      exact ⟨⟨pool, isPool, inPool⟩, kept⟩
    · rintro ⟨⟨pool, isPool, inPool⟩, kept⟩
      obtain ⟨segment, part, holds⟩ := (held pool isPool addr).mpr ⟨inPool, kept⟩
      exact ⟨segment, List.mem_flatMap.mpr ⟨pool, isPool, part⟩, holds⟩
  · intro apart
    refine List.pairwise_flatMap.mpr ⟨fun pool member => (spanned pool member).pairwise_carve _, ?_⟩
    refine apart.imp_of_mem ?_
    intro left right isLeft isRight disjoint first inLeft second inRight addr both
    have holdsLeft := ((held left isLeft addr).mp ⟨first, inLeft, both.1⟩).1
    have holdsRight := ((held right isRight addr).mp ⟨second, inRight, both.2⟩).1
    exact disjoint addr ⟨holdsLeft, holdsRight⟩

end

/-- Two texts of addresses of a pool. -/
def samplePool : AddressRange := ⟨"10.0.0.10".toList, "10.0.0.20".toList⟩

theorem isInterval_samplePool : IsInterval .v4 samplePool :=
  ⟨addressAt .v4 0x0a00000a, addressAt .v4 0x0a000014, by decide, by decide, rfl, rfl,
    by decide, fun six => by cases six⟩

/-- Exclusions at both ends, one of them twice in different spellings, and two that carve
nothing out. -/
theorem poolSegments_exact_sample :
    ∃ segments, poolSegments [samplePool]
        (["10.0.0.10", "::ffff:10.0.0.10", "10.0.0.20", "fd00::1", "x"].map String.toList) .v4 =
        some segments ∧
      (∀ segment ∈ segments, IsInterval .v4 segment) ∧
      (∀ addr, (∃ segment ∈ segments, segment.Holds addr) ↔
        (∃ pool ∈ [samplePool], pool.Holds addr) ∧
          ¬ ∃ ip ∈ ["10.0.0.10", "::ffff:10.0.0.10", "10.0.0.20", "fd00::1", "x"].map String.toList,
            addressToBig ip = some addr) ∧
      ([samplePool].Pairwise Disjoint → segments.Pairwise Disjoint) :=
  poolSegments_exact (by
    intro pool member
    obtain rfl := List.mem_singleton.mp member
    exact isInterval_samplePool)

end PoolSegments

end Cidrella
