import Cidrella.Lib.Spans
import Cidrella.RangeRoundTrip

/-!
# Network Range Types and their history

`models/range.js`: `assignCustomRangeType` gives one type to selected intervals of a network
and splits the custom ranges around them; `recordCoverageChange` writes what a change of
the ranges took off the addresses and what it put on them.

Both take intervals apart in the same way (`Span.cutAll`). What is left of a range are the
addresses of the range outside of the selections, so an assignment keeps the ranges apart
and is local to the selections (`assignment_local`); what is left of an interval of one
coverage are the addresses that the other does not have, so the events are the exact
difference (`coverage_change_exact`).
-/

set_option autoImplicit false

namespace Cidrella

/-! ## Intervals of addresses -/

/-- An interval of one family: a `BigInt` start and end with the family they are of. -/
structure Interval where
  family : Family
  span : Span
  deriving DecidableEq, Repr

namespace Interval

/-- The address lies in the interval. -/
def Covers (interval : Interval) (addr : Addr) : Prop :=
  addr.family = interval.family ∧ interval.span.Has addr.value

/-- No address lies in both. -/
def Apart (left right : Interval) : Prop := ∀ addr, ¬ (left.Covers addr ∧ right.Covers addr)

/-- A nonempty interval whose numbers are all addresses of the family. -/
structure Valid (interval : Interval) : Prop where
  order : interval.span.start ≤ interval.span.stop
  fits : interval.span.stop < 2 ^ interval.family.bits
  unmapped : interval.family = .v6 → ∀ value, interval.span.Has value → value / 2 ^ 32 ≠ 0xffff

/-- The texts of both ends, read back. -/
def ends (interval : Interval) : Addr × Addr :=
  (addressAt interval.family interval.span.start, addressAt interval.family interval.span.stop)

/-- What stands between two addresses. -/
def between (start stop : Addr) : Interval := ⟨start.family, start.value, stop.value⟩

/-- The pieces of an interval that cuts leave. -/
def cutAll (interval : Interval) (cuts : List Span) : List Interval :=
  (interval.span.cutAll cuts).map fun span => { interval with span }

variable {interval : Interval}

theorem Valid.addressAt_eq (valid : interval.Valid) {value : Nat}
    (inside : interval.span.Has value) :
    (addressAt interval.family value).family = interval.family ∧
      (addressAt interval.family value).value = value := by
  have fits : value < 2 ^ interval.family.bits := lt_of_le_of_lt inside.2 valid.fits
  have back := addressAt_value
    ⟨interval.family, value, fits, fun six => valid.unmapped six value inside⟩
  simp only at back
  rw [back]
  exact ⟨rfl, rfl⟩

theorem Valid.between_ends (valid : interval.Valid) : between interval.ends.1 interval.ends.2 =
    interval := by
  obtain ⟨family, start⟩ := valid.addressAt_eq ⟨le_rfl, valid.order⟩
  obtain ⟨-, stop⟩ := valid.addressAt_eq ⟨valid.order, le_rfl⟩
  rw [between, ends, family, start, stop]

theorem apart_of_span {left right : Interval} (apart : left.span.Apart right.span) :
    Apart left right :=
  fun addr both => apart addr.value ⟨both.1.2, both.2.2⟩

theorem Apart.symm {left right : Interval} (apart : Apart left right) : Apart right left :=
  fun addr both => apart addr both.symm

section Cutting

variable {cuts : List Span} {piece : Interval}

theorem covers_cutAll {addr : Addr} : (∃ piece ∈ interval.cutAll cuts, piece.Covers addr) ↔
    interval.Covers addr ∧ ∀ taken ∈ cuts, ¬ taken.Has addr.value := by
  constructor
  · rintro ⟨piece, member, family, inside⟩
    obtain ⟨span, isPiece, rfl⟩ := List.mem_map.mp member
    obtain ⟨within, outside⟩ := Span.has_cutAll.mp ⟨span, isPiece, inside⟩
    exact ⟨⟨family, within⟩, outside⟩
  · rintro ⟨⟨family, within⟩, outside⟩
    obtain ⟨span, isPiece, inside⟩ := Span.has_cutAll.mpr ⟨within, outside⟩
    exact ⟨{ interval with span }, List.mem_map_of_mem isPiece, family, inside⟩

theorem Valid.cutAll (valid : interval.Valid) (member : piece ∈ interval.cutAll cuts) :
    piece.Valid := by
  obtain ⟨span, isPiece, rfl⟩ := List.mem_map.mp member
  obtain ⟨low, order, high⟩ := Span.within_cutAll valid.order span isPiece
  exact ⟨order, lt_of_le_of_lt high valid.fits, fun six value inside =>
    valid.unmapped six value ⟨low.trans inside.1, inside.2.trans high⟩⟩

theorem pairwise_cutAll (order : ∀ taken ∈ cuts, taken.start ≤ taken.stop) :
    (interval.cutAll cuts).Pairwise Apart := by
  rw [Interval.cutAll, List.pairwise_map]
  exact (interval.span.pairwise_cutAll order).imp apart_of_span

end Cutting

end Interval

/-! ## The history of a network's types -/

/-- One row of `customCoverage`. The type stands for its name, which is unique. -/
structure TypedInterval extends Interval where
  id : Nat
  type : RangeType
  deriving DecidableEq, Repr

/-- `event_type` of `ip_range_events`. -/
inductive RangeEventKind where
  | assigned
  | unassigned
  deriving DecidableEq, Repr

/-- A row of `ip_range_events`, without its actor and time. -/
structure RangeEvent where
  subnetId : Nat
  rangeId : Nat
  rangeType : RangeType
  startIp : Addr
  endIp : Addr
  kind : RangeEventKind
  deriving DecidableEq, Repr

/-- `uncovered`: the parts of an interval no interval of its type covers. -/
def uncovered (interval : TypedInterval) (others : List TypedInterval) : List Interval :=
  interval.cutAll ((others.filter fun other =>
    other.type = interval.type && other.family = interval.family).map (·.span))

/-- `record` of `recordCoverageChange`. -/
def recordCoverage (subnetId : Nat) (source : TypedInterval) (kind : RangeEventKind)
    (part : Interval) :
    RangeEvent :=
  ⟨subnetId, source.id, source.type, part.ends.1, part.ends.2, kind⟩

/-- One loop of `recordCoverageChange`: what one coverage has and the other has not. -/
def recordUncovered (subnetId : Nat) (coverage others : List TypedInterval)
    (kind : RangeEventKind) :
    List RangeEvent :=
  coverage.flatMap fun interval =>
    (uncovered interval others).map (recordCoverage subnetId interval kind)

/-- `recordCoverageChange`. -/
def recordCoverageChange (subnetId : Nat) (before after : List TypedInterval) : List RangeEvent :=
  recordUncovered subnetId before after .unassigned ++ recordUncovered subnetId after
    before .assigned

/-- The coverage gives the address the type. -/
def CoversWith (coverage : List TypedInterval) (addr : Addr) (type : RangeType) : Prop :=
  ∃ interval ∈ coverage, interval.type = type ∧ interval.Covers addr

/-- The event is about the address. -/
def RangeEvent.Covers (event : RangeEvent) (addr : Addr) : Prop :=
  (Interval.between event.startIp event.endIp).Covers addr

section History

variable {subnetId : Nat} {coverage others : List TypedInterval} {kind : RangeEventKind}

theorem covers_uncovered {interval : TypedInterval} {addr : Addr} :
    (∃ part ∈ uncovered interval others, part.Covers addr) ↔
      interval.Covers addr ∧ ¬ CoversWith others addr interval.type := by
  refine Interval.covers_cutAll.trans (and_congr_right fun covers => ?_)
  constructor
  · rintro outside ⟨other, member, type, family, inside⟩
    refine outside other.span (List.mem_map_of_mem (List.mem_filter.mpr ⟨member, ?_⟩)) inside
    simp [type, ← family, covers.1]
  · intro unlabelled span taken inside
    obtain ⟨other, member, rfl⟩ := List.mem_map.mp taken
    obtain ⟨within, same⟩ := List.mem_filter.mp member
    simp only [Bool.and_eq_true, decide_eq_true_eq] at same
    exact unlabelled ⟨other, within, same.1, covers.1.trans same.2.symm, inside⟩

variable (valid : ∀ interval ∈ coverage, interval.Valid)

include valid

theorem covers_recordCoverage {interval : TypedInterval} (member : interval ∈ coverage)
    {part : Interval} (isPart : part ∈ uncovered interval others) {addr : Addr} :
    (recordCoverage subnetId interval kind part).Covers addr ↔ part.Covers addr := by
  have partValid : part.Valid := (valid interval member).cutAll isPart
  rw [RangeEvent.Covers, recordCoverage, partValid.between_ends]

theorem mem_recordUncovered {addr : Addr} {type : RangeType} :
    (∃ event ∈ recordUncovered subnetId coverage others kind, event.rangeType = type ∧
      event.Covers addr) ↔ CoversWith coverage addr type ∧ ¬ CoversWith others addr type := by
  constructor
  · rintro ⟨event, member, rfl, covers⟩
    obtain ⟨interval, within, recorded⟩ := List.mem_flatMap.mp member
    obtain ⟨part, isPart, rfl⟩ := List.mem_map.mp recorded
    rw [covers_recordCoverage valid within isPart] at covers
    obtain ⟨inside, unlabelled⟩ := covers_uncovered.mp ⟨part, isPart, covers⟩
    exact ⟨⟨interval, within, rfl, inside⟩, unlabelled⟩
  · rintro ⟨⟨interval, within, rfl, inside⟩, unlabelled⟩
    obtain ⟨part, isPart, covers⟩ := covers_uncovered.mpr ⟨inside, unlabelled⟩
    refine ⟨recordCoverage subnetId interval kind part,
      List.mem_flatMap.mpr ⟨interval, within, List.mem_map_of_mem isPart⟩, rfl, ?_⟩
    exact (covers_recordCoverage valid within isPart).mpr covers

theorem pairwise_recordUncovered (validOthers : ∀ other ∈ others, other.Valid)
    (apart : coverage.Pairwise fun left right => left.Apart right.toInterval) :
    (recordUncovered subnetId coverage others kind).Pairwise
      fun left right => ∀ addr, ¬ (left.Covers addr ∧ right.Covers addr) := by
  rw [recordUncovered, List.pairwise_flatMap]
  constructor
  · intro interval within
    rw [List.pairwise_map]
    have pieces : (uncovered interval others).Pairwise Interval.Apart := by
      refine Interval.pairwise_cutAll fun span taken => ?_
      obtain ⟨other, member, rfl⟩ := List.mem_map.mp taken
      exact (validOthers other (List.mem_filter.mp member).1).order
    refine pieces.imp_of_mem fun {left right} isLeft isRight piecesApart addr both => ?_
    rw [covers_recordCoverage valid within isLeft, covers_recordCoverage valid within
      isRight] at both
    exact piecesApart addr both
  · refine apart.imp_of_mem fun {left right} isLeft isRight sourcesApart event member other
      memberOther addr both => ?_
    obtain ⟨part, isPart, rfl⟩ := List.mem_map.mp member
    obtain ⟨otherPart, isOther, rfl⟩ := List.mem_map.mp memberOther
    rw [covers_recordCoverage valid isLeft isPart, covers_recordCoverage valid isRight
      isOther] at both
    exact sourcesApart addr ⟨(covers_uncovered.mp ⟨part, isPart, both.1⟩).1,
      (covers_uncovered.mp ⟨otherPart, isOther, both.2⟩).1⟩

end History

theorem kind_recordUncovered {subnetId : Nat} {coverage others : List TypedInterval}
    {kind : RangeEventKind} {event : RangeEvent}
    (member : event ∈ recordUncovered subnetId coverage others kind) : event.kind = kind := by
  obtain ⟨interval, -, recorded⟩ := List.mem_flatMap.mp member
  obtain ⟨part, -, rfl⟩ := List.mem_map.mp recorded
  rfl

/-- **The events are the exact difference of the coverages**, and no address is named twice
by events of one kind and type. -/
theorem coverage_change_exact {before after : List TypedInterval} (subnetId : Nat)
    (validBefore : ∀ interval ∈ before, interval.Valid) (validAfter : ∀ interval ∈ after,
    interval.Valid) (apartBefore : before.Pairwise fun left right => left.Apart right.toInterval)
    (apartAfter : after.Pairwise fun left right => left.Apart right.toInterval) :
    (∀ addr type, (∃ event ∈ recordCoverageChange subnetId before after, event.kind = .unassigned ∧
        event.rangeType = type ∧ event.Covers addr) ↔
      CoversWith before addr type ∧ ¬ CoversWith after addr type) ∧
    (∀ addr type, (∃ event ∈ recordCoverageChange subnetId before after, event.kind = .assigned ∧
        event.rangeType = type ∧ event.Covers addr) ↔
      CoversWith after addr type ∧ ¬ CoversWith before addr type) ∧
    (recordCoverageChange subnetId before after).Pairwise fun left right =>
      left.kind = right.kind → left.rangeType = right.rangeType →
        ∀ addr, ¬ (left.Covers addr ∧ right.Covers addr) := by
  refine ⟨fun addr type => ?_, fun addr type => ?_, ?_⟩
  · rw [← @mem_recordUncovered subnetId before after .unassigned validBefore]
    constructor
    · rintro ⟨event, member, kind, rest⟩
      rcases List.mem_append.mp member with lost | gained
      · exact ⟨event, lost, rest⟩
      · rw [kind_recordUncovered gained] at kind
        cases kind
    · rintro ⟨event, member, rest⟩
      exact ⟨event, List.mem_append_left _ member, kind_recordUncovered member, rest⟩
  · rw [← @mem_recordUncovered subnetId after before .assigned validAfter]
    constructor
    · rintro ⟨event, member, kind, rest⟩
      rcases List.mem_append.mp member with lost | gained
      · rw [kind_recordUncovered lost] at kind
        cases kind
      · exact ⟨event, gained, rest⟩
    · rintro ⟨event, member, rest⟩
      exact ⟨event, List.mem_append_right _ member, kind_recordUncovered member, rest⟩
  · refine List.pairwise_append.mpr ⟨?_, ?_, ?_⟩
    · exact (pairwise_recordUncovered validBefore validAfter apartBefore).imp fun apart _ _ => apart
    · exact (pairwise_recordUncovered validAfter validBefore apartAfter).imp fun apart _ _ => apart
    · intro lost isLost gained isGained same
      rw [kind_recordUncovered isLost, kind_recordUncovered isGained] at same
      cases same

/-- `10.0.0.start` to `10.0.0.stop`. -/
def officeInterval (start stop : Fin 256) : Interval := ⟨.v4, 0x0a000000 + start, 0x0a000000 + stop⟩

theorem officeInterval_valid {start stop : Fin 256} (order : start ≤ stop) :
    (officeInterval start stop).Valid where
  order := Nat.add_le_add_left order _
  fits := (Nat.add_lt_add_left stop.isLt 0x0a000000).trans
    (show 0x0a000000 + 256 < 2 ^ Address.ipv4Bits by decide)
  unmapped := nofun

theorem officeInterval_apart {start stop start' stop' : Fin 256} (before : stop < start') :
    (officeInterval start stop).Apart (officeInterval start' stop') := by
  rintro addr ⟨⟨-, -, high⟩, -, low, -⟩
  have between : 0x0a000000 + (start' : Nat) ≤ 0x0a000000 + (stop : Nat) := low.trans high
  exact absurd (Nat.le_of_add_le_add_left between) (Nat.not_le_of_gt before)

/-- One type on ten addresses. -/
def wideCoverage : List TypedInterval := [⟨officeInterval 10 19, 1, .custom 1⟩]

/-- The type on the middle of them, and another behind. -/
def narrowCoverage : List TypedInterval :=
  [⟨officeInterval 12 14, 2, .custom 1⟩, ⟨officeInterval 18 25, 3, .custom 2⟩]

theorem coverage_change_office :
    (recordCoverageChange 1 wideCoverage narrowCoverage).map (fun event =>
        (event.kind, event.rangeType, event.startIp, event.endIp)) =
      [(.unassigned, .custom 1, officeAddr 10, officeAddr 11),
        (.unassigned, .custom 1, officeAddr 15, officeAddr 19),
        (.assigned, .custom 2, officeAddr 18, officeAddr 25)] ∧
    (recordCoverageChange 1 wideCoverage narrowCoverage).Pairwise fun left right =>
      left.kind = right.kind → left.rangeType = right.rangeType →
        ∀ addr, ¬ (left.Covers addr ∧ right.Covers addr) := by
  refine ⟨by decide, (coverage_change_exact 1 ?_ ?_ ?_ ?_).2.2⟩
  · exact List.forall_mem_singleton.mpr (officeInterval_valid (by decide))
  · refine List.forall_mem_cons.mpr ⟨officeInterval_valid (by decide), ?_⟩
    exact List.forall_mem_singleton.mpr (officeInterval_valid (by decide))
  · exact List.pairwise_singleton _ _
  · exact List.pairwise_pair.mpr (officeInterval_apart (by decide))

/-! ## Assigning a type -/

namespace Env

/-- `customCoverage`. -/
def customCoverage (env : Env) (subnetId : Nat) : List TypedInterval :=
  (env.customRanges subnetId).map fun row => ⟨Interval.between row.startIp row.endIp,
    row.id, row.type⟩

/-- `listCustomRangeOverlaps`. The order of the rows only decides the ids of their pieces. -/
def listCustomRangeOverlaps (env : Env) (subnetId : Nat) (selections : List Interval)
    (excludeRangeId : Option Nat := none) : List AddressRange :=
  (env.customRanges subnetId).filter fun row =>
    excludeRangeId ≠ some row.id && selections.any fun selection =>
      selection.family = row.startIp.family && selection.span.start ≤ row.endIp.value &&
        row.startIp.value ≤ selection.span.stop

/-- A row of the interval. -/
def insertInterval (env : Env) (subnetId : Nat) (type : RangeType) (description : Option Text)
    (interval : Interval) : Env :=
  env.insertRange subnetId type interval.ends.1 interval.ends.2 description

/-- An overlapping range is deleted, and its pieces around the selections are inserted. -/
def splitRange (subnetId : Nat) (selections : List Interval) (env : Env) (range : AddressRange) :
    Env :=
  ((Interval.between range.startIp range.endIp).cutAll (selections.map (·.span))).foldl
    (fun env piece => env.insertInterval subnetId range.type range.description piece)
    { env with ranges := env.ranges.filter (·.id ≠ range.id) }

/-- What `assignCustomRangeType` leaves and returns. -/
structure TypeAssignment where
  env : Env
  events : List RangeEvent
  created : List AddressRange
  replaced : List AddressRange

/-- The write of `assignCustomRangeType`: the rows, and the ids of the new ones. -/
def writeCustomRangeType (env : Env) (subnetId : Nat) (rangeTypeId : Option RangeType)
    (selections : List Interval) (description : Option Text) (excludeRangeId : Option Nat) :
    Env × List Nat :=
  let overlaps := env.listCustomRangeOverlaps subnetId selections excludeRangeId
  let without := { env with
    ranges := env.ranges.filter fun row =>
      !(excludeRangeId = some row.id && row.subnetId = subnetId) }
  let split := overlaps.foldl (splitRange subnetId selections) without
  match rangeTypeId with
  | none => (split, [])
  | some type =>
    selections.foldl (fun state selection =>
      (state.1.insertInterval subnetId type (truthy description) selection,
        state.2 ++ [freshId (state.1.ranges.map (·.id))])) (split, [])

/-- `assignCustomRangeType`. -/
def assignCustomRangeType (env : Env) (subnetId : Nat) (rangeTypeId : Option RangeType)
    (selections : List Interval) (description : Option Text := none)
    (excludeRangeId : Option Nat := none) :
    TypeAssignment :=
  let written := env.writeCustomRangeType subnetId rangeTypeId selections description excludeRangeId
  { env := written.1
    events := recordCoverageChange subnetId (env.customCoverage subnetId) (written.1.customCoverage
    subnetId)
    created := written.2.filterMap fun id => written.1.ranges.find? (·.id = id)
    replaced := env.listCustomRangeOverlaps subnetId selections excludeRangeId }

end Env

/-- The addresses of a row. -/
def AddressRange.interval (row : AddressRange) : Interval := Interval.between row.startIp row.endIp

/-- What a row says, without its id. -/
structure RangeContent where
  subnetId : Nat
  type : RangeType
  description : Option Text
  interval : Interval

/-- The content of a row. -/
def AddressRange.content (row : AddressRange) : RangeContent :=
  ⟨row.subnetId, row.type, row.description, row.interval⟩

/-- New rows of some contents. -/
def Env.Adds (env after : Env) (contents : List RangeContent) : Prop :=
  ∃ rows, after.ranges = env.ranges ++ rows ∧ rows.map (·.content) = contents ∧
    ((env.ranges.map (·.id)).Nodup → (after.ranges.map (·.id)).Nodup)

namespace Env

theorem Adds.refl (env : Env) : env.Adds env [] := ⟨[], (List.append_nil _).symm, rfl, id⟩

theorem Adds.trans {first second third : Env} {contents more : List RangeContent}
    (adds : first.Adds second contents) (addsMore : second.Adds third more) :
    first.Adds third (contents ++ more) := by
  obtain ⟨rows, ranges, same, distinct⟩ := adds
  obtain ⟨others, rangesMore, sameMore, distinctMore⟩ := addsMore
  refine ⟨rows ++ others, ?_, ?_, distinctMore ∘ distinct⟩
  · rw [rangesMore, ranges, List.append_assoc]
  · rw [List.map_append, same, sameMore]

theorem adds_insertInterval (env : Env) (subnetId : Nat) (type : RangeType)
    (description : Option Text) {interval : Interval} (valid : interval.Valid) :
    env.Adds (env.insertInterval subnetId type description interval)
    [⟨subnetId, type, description, interval⟩] := by
  refine ⟨_, rfl, ?_, fun ids => nodup_insertRange ids _ _ _ _ _⟩
  rw [List.map_singleton, AddressRange.content, AddressRange.interval, valid.between_ends]

theorem adds_foldl_insertInterval (subnetId : Nat) (type : RangeType) (description : Option Text)
    {intervals : List Interval} (valid : ∀ interval ∈ intervals, interval.Valid) (env : Env) :
    env.Adds (intervals.foldl (fun env piece => env.insertInterval subnetId type description piece)
      env) (intervals.map (RangeContent.mk subnetId type description)) := by
  induction intervals generalizing env with
  | nil => exact Adds.refl env
  | cons interval intervals ih =>
    obtain ⟨first, rest⟩ := List.forall_mem_cons.mp valid
    exact (env.adds_insertInterval subnetId type description first).trans (ih rest _)

/-- The contents of the pieces of a range. -/
def pieceContents (subnetId : Nat) (selections : List Interval) (range : AddressRange) :
    List RangeContent :=
  (range.interval.cutAll (selections.map (·.span))).map
    (RangeContent.mk subnetId range.type range.description)

section Splitting

variable {subnetId : Nat} {selections : List Interval}

theorem splitRange_adds {env : Env} {range : AddressRange}
    (valid : range.interval.Valid) :
    Adds { env with ranges := env.ranges.filter (·.id ≠ range.id) }
      (env.splitRange subnetId selections range) (pieceContents subnetId selections range) :=
  adds_foldl_insertInterval subnetId range.type range.description
    (fun _ member => valid.cutAll member) _

/-- Splitting ranges takes them out and adds their pieces: the pieces of one range have other
ids than the ranges that are still to be split. -/
theorem splitRanges_adds {overlaps : List AddressRange}
    (distinctOverlaps : (overlaps.map (·.id)).Nodup) (valid : ∀ range ∈ overlaps,
    range.interval.Valid) {env : Env} (distinct : (env.ranges.map (·.id)).Nodup)
    (members : ∀ range ∈ overlaps, range ∈ env.ranges) :
    Adds { env with ranges := env.ranges.filter fun row => row.id ∉ overlaps.map (·.id) }
      (overlaps.foldl (splitRange subnetId selections) env)
      (overlaps.flatMap (pieceContents subnetId selections)) ∧
    ((overlaps.foldl (splitRange subnetId selections) env).ranges.map (·.id)).Nodup := by
  induction overlaps generalizing env with
  | nil =>
    have all : env.ranges.filter (fun row => row.id ∉ ([] : List AddressRange).map (·.id)) =
        env.ranges :=
      List.filter_eq_self.mpr fun row _ => by simp
    refine ⟨?_, distinct⟩
    rw [all]
    exact Adds.refl env
  | cons range overlaps ih =>
    obtain ⟨validFirst, validRest⟩ := List.forall_mem_cons.mp valid
    obtain ⟨-, memberRest⟩ := List.forall_mem_cons.mp members
    obtain ⟨other, distinctRest⟩ := List.nodup_cons.mp distinctOverlaps
    obtain ⟨rows, ranges, contents, keeps⟩ :=
      @splitRange_adds subnetId selections env range validFirst
    have distinctSplit : ((env.splitRange subnetId selections range).ranges.map (·.id)).Nodup :=
      keeps (distinct.sublist (List.filter_sublist.map _))
    have stays : ∀ later ∈ overlaps, later ∈ env.ranges.filter (·.id ≠ range.id) := by
      intro later member
      refine List.mem_filter.mpr ⟨memberRest later member, ?_⟩
      simpa using fun same => other (List.mem_map.mpr ⟨later, member, same⟩)
    obtain ⟨⟨more, rangesMore, contentsMore, keepsMore⟩, distinctAll⟩ := ih distinctRest validRest
      distinctSplit fun later member => by
        rw [ranges]
        exact List.mem_append_left _ (stays later member)
    refine ⟨⟨rows ++ more, ?_, ?_, fun _ => distinctAll⟩, distinctAll⟩
    · have rowsStay : rows.filter (fun row => row.id ∉ overlaps.map (·.id)) = rows := by
        refine List.filter_eq_self.mpr fun row member => ?_
        rw [decide_eq_true_eq]
        intro again
        obtain ⟨later, isLater, same⟩ := List.mem_map.mp again
        rw [ranges, List.map_append] at distinctSplit
        exact (List.nodup_append.mp distinctSplit).2.2 later.id
          (List.mem_map_of_mem (stays later isLater)) row.id (List.mem_map_of_mem member) same
      rw [List.foldl_cons, rangesMore, ranges, List.filter_append, rowsStay, List.append_assoc]
      refine congrArg (· ++ (rows ++ more)) ?_
      rw [List.filter_filter]
      refine List.filter_congr fun row _ => ?_
      simp only [List.map_cons, List.mem_cons, not_or, ne_eq, decide_not, Bool.decide_and]
      exact Bool.and_comm _ _
    · rw [List.map_append, contents, contentsMore, List.flatMap_cons]

end Splitting

/-! ## What an assignment leaves -/

/-- The custom ranges of a network as they are kept: well formed, and apart. -/
structure RangesApart (env : Env) (subnetId : Nat) : Prop where
  ids : (env.ranges.map (·.id)).Nodup
  valid : ∀ row ∈ env.customRanges subnetId, row.interval.Valid
  apart : (env.customRanges subnetId).Pairwise fun left right => left.interval.Apart right.interval

/-- A custom range of the type and the description holds the address. -/
def LabelledAs (env : Env) (subnetId : Nat) (addr : Addr) (type : RangeType)
    (description : Option Text) : Prop :=
  ∃ row ∈ env.customRanges subnetId, row.type = type ∧ row.description = description ∧
    row.interval.Covers addr

/-- The content is one of the custom layer of the network. -/
def isCustomContent (subnetId : Nat) (content : RangeContent) : Bool :=
  content.subnetId = subnetId && !content.type.isSystem

theorem map_content_customRanges (env : Env) (subnetId : Nat) :
    (env.customRanges subnetId).map (·.content) =
      (env.ranges.map (·.content)).filter (isCustomContent subnetId) := by
  rw [List.filter_map]
  rfl

theorem RangesApart.apart_of_ne {env : Env} {subnetId : Nat} (apart : env.RangesApart subnetId)
    {row other : AddressRange} (member : row ∈ env.customRanges subnetId)
    (memberOther : other ∈ env.customRanges subnetId) (differs : row.id ≠ other.id) :
    row.interval.Apart other.interval := by
  have symmetric : Std.Symm fun left right : AddressRange => left.interval.Apart right.interval :=
    ⟨fun _ _ => Interval.Apart.symm⟩
  exact apart.apart.forall member memberOther fun same => differs (congrArg AddressRange.id same)

section Assigning

variable {env : Env} {subnetId : Nat} {rangeTypeId : Option RangeType} {selections : List Interval}
  {description : Option Text} {excludeRangeId : Option Nat}

theorem mem_overlaps {row : AddressRange} :
    row ∈ env.listCustomRangeOverlaps subnetId selections excludeRangeId ↔
      row ∈ env.customRanges subnetId ∧ excludeRangeId ≠ some row.id ∧
        ∃ selection ∈ selections, selection.family = row.interval.family ∧
          selection.span.start ≤ row.interval.span.stop ∧ row.interval.span.start ≤
          selection.span.stop := by
  simp [listCustomRangeOverlaps, List.mem_filter, AddressRange.interval,
    Interval.between, and_assoc]

theorem apart_of_not_overlap {row : AddressRange} (member : row ∈ env.customRanges subnetId)
    (included : excludeRangeId ≠ some row.id)
    (free : row ∉ env.listCustomRangeOverlaps subnetId selections excludeRangeId)
    {selection : Interval} (selected : selection ∈ selections) : row.interval.Apart selection := by
  rintro addr ⟨⟨family, low, high⟩, otherFamily, otherLow, otherHigh⟩
  refine free (mem_overlaps.mpr ⟨member, included, selection, selected,
    otherFamily.symm.trans family, ?_, ?_⟩)
  · exact otherLow.trans high
  · exact low.trans otherHigh

theorem fst_foldl_insertSelections (type : RangeType) (state : Env × List Nat) :
    (selections.foldl
      (fun state selection => (state.1.insertInterval subnetId type description selection,
      state.2 ++ [freshId (state.1.ranges.map (·.id))])) state).1 =
    selections.foldl (fun env piece => env.insertInterval subnetId type description piece)
    state.1 := by
  induction selections generalizing state with
  | nil => rfl
  | cons selection selections ih => exact ih _

/-- The contents the selections get. -/
def selectionContents (subnetId : Nat) (rangeTypeId : Option RangeType) (description : Option Text)
    (selections : List Interval) : List RangeContent :=
  match rangeTypeId with
  | none => []
  | some type => selections.map (RangeContent.mk subnetId type (truthy description))

theorem mem_pieces {content : RangeContent} :
    content ∈ (env.listCustomRangeOverlaps subnetId selections excludeRangeId).flatMap
        (pieceContents subnetId selections) ↔
      ∃ row ∈ env.listCustomRangeOverlaps subnetId selections excludeRangeId,
        ∃ piece ∈ row.interval.cutAll (selections.map (·.span)),
          RangeContent.mk subnetId row.type row.description piece = content := by
  simp only [List.mem_flatMap, pieceContents, List.mem_map]

theorem mem_selections {content : RangeContent} :
    content ∈ (selectionContents subnetId rangeTypeId description selections).filter
      (isCustomContent subnetId) ↔ ∃ selection ∈ selections, ∃ type, rangeTypeId = some type ∧
        type.isSystem = false ∧ RangeContent.mk subnetId type (truthy description) selection =
        content := by
  cases rangeTypeId with
  | none => simp [selectionContents]
  | some given =>
    simp only [selectionContents, List.mem_filter, List.mem_map, Option.some.injEq, exists_eq_left']
    constructor
    · rintro ⟨⟨selection, selected, rfl⟩, custom⟩
      refine ⟨selection, selected, ?_, rfl⟩
      simpa [isCustomContent] using custom
    · rintro ⟨selection, selected, custom, rfl⟩
      exact ⟨⟨selection, selected, rfl⟩, by simp [isCustomContent, custom]⟩

/-- The row stays: it is neither excluded nor overlapped. -/
def stays (env : Env) (subnetId : Nat) (selections : List Interval) (excludeRangeId : Option Nat)
    (row : AddressRange) : Bool :=
  excludeRangeId ≠ some row.id && row ∉ env.listCustomRangeOverlaps subnetId selections
    excludeRangeId

theorem stays_iff {row : AddressRange} : env.stays subnetId selections excludeRangeId row = true ↔
    excludeRangeId ≠ some row.id ∧ row ∉ env.listCustomRangeOverlaps subnetId selections
    excludeRangeId := by
  simp [stays]

theorem labelledAs_iff {after : Env} {addr : Addr} {type : RangeType} {label : Option Text} :
    after.LabelledAs subnetId addr type label ↔ ∃ content ∈ (after.customRanges subnetId).map
      (·.content), content.type = type ∧ content.description = label ∧
      content.interval.Covers addr := by
  simp only [List.mem_map, exists_exists_and_eq_and]
  rfl

variable (apart : env.RangesApart subnetId) (selectionsValid : ∀ selection ∈ selections,
    selection.Valid)

include apart selectionsValid

/-- What is written: the rows that are neither excluded nor overlapped stay, and pieces and
selections are added. -/
theorem writeCustomRangeType_adds :
    Adds { env with ranges := (env.ranges.filter fun row =>
          !(excludeRangeId = some row.id && row.subnetId = subnetId)).filter fun row =>
            row.id ∉ (env.listCustomRangeOverlaps subnetId selections excludeRangeId).map (·.id) }
      (env.writeCustomRangeType subnetId rangeTypeId selections description excludeRangeId).1
      ((env.listCustomRangeOverlaps subnetId selections excludeRangeId).flatMap
          (pieceContents subnetId selections) ++
        selectionContents subnetId rangeTypeId description selections) ∧
    ((env.writeCustomRangeType subnetId rangeTypeId selections description
      excludeRangeId).1.ranges.map (·.id)).Nodup := by
  have customIds : ((env.customRanges subnetId).map (·.id)).Nodup :=
    apart.ids.sublist (List.filter_sublist.map _)
  obtain ⟨adds, distinct⟩ := @splitRanges_adds subnetId selections
    (env.listCustomRangeOverlaps subnetId selections excludeRangeId)
    (customIds.sublist (List.filter_sublist.map _))
    (fun row member => apart.valid row (mem_overlaps.mp member).1)
    { env with ranges := env.ranges.filter fun row =>
        !(excludeRangeId = some row.id && row.subnetId = subnetId) }
    (apart.ids.sublist (List.filter_sublist.map _)) fun row member => by
      obtain ⟨custom, included, -⟩ := mem_overlaps.mp member
      refine List.mem_filter.mpr ⟨(mem_customRanges.mp custom).1, ?_⟩
      simp [included]
  cases rangeTypeId with
  | none =>
    refine ⟨?_, distinct⟩
    rw [selectionContents, List.append_nil]
    exact adds
  | some type =>
    have inserted := adds_foldl_insertInterval subnetId type (truthy description) selectionsValid
      ((env.listCustomRangeOverlaps subnetId selections excludeRangeId).foldl
        (splitRange subnetId selections) { env with ranges := env.ranges.filter fun row =>
          !(excludeRangeId = some row.id && row.subnetId = subnetId) })
    rw [writeCustomRangeType, fst_foldl_insertSelections]
    exact ⟨adds.trans inserted, inserted.choose_spec.2.2 distinct⟩

/-- The custom ranges an assignment leaves, up to their ids. -/
theorem contents_assign :
    ((env.assignCustomRangeType subnetId rangeTypeId selections description
        excludeRangeId).env.customRanges subnetId).map (·.content) =
      ((env.customRanges subnetId).filter fun row => excludeRangeId ≠ some row.id &&
        row ∉ env.listCustomRangeOverlaps subnetId selections excludeRangeId).map (·.content) ++
      (env.listCustomRangeOverlaps subnetId selections excludeRangeId).flatMap
        (pieceContents subnetId selections) ++
      (selectionContents subnetId rangeTypeId description selections).filter
      (isCustomContent subnetId) := by
  obtain ⟨⟨rows, ranges, contents, -⟩, -⟩ :=
    @writeCustomRangeType_adds env subnetId rangeTypeId selections description excludeRangeId apart
      selectionsValid
  have pieces : ((env.listCustomRangeOverlaps subnetId selections excludeRangeId).flatMap
      (pieceContents subnetId selections)).filter (isCustomContent subnetId) =
      (env.listCustomRangeOverlaps subnetId selections excludeRangeId).flatMap
        (pieceContents subnetId selections) := by
    refine List.filter_eq_self.mpr fun content member => ?_
    obtain ⟨row, overlap, isPiece⟩ := List.mem_flatMap.mp member
    obtain ⟨piece, -, rfl⟩ := List.mem_map.mp isPiece
    simp [isCustomContent, (mem_customRanges.mp (mem_overlaps.mp overlap).1).2.2]
  rw [assignCustomRangeType, map_content_customRanges, ranges, List.map_append, contents,
    List.filter_append, List.filter_append, pieces, ← List.append_assoc]
  refine congrArg (· ++ _ ++ _) ?_
  rw [List.filter_map, customRanges, List.filter_filter, List.filter_filter, List.filter_filter]
  refine congrArg _ (List.filter_congr fun row member => ?_)
  have overlapped : row.id ∈ (env.listCustomRangeOverlaps subnetId selections excludeRangeId).map
      (·.id) ↔ row ∈ env.listCustomRangeOverlaps subnetId selections excludeRangeId := by
    refine ⟨fun again => ?_, List.mem_map_of_mem⟩
    obtain ⟨other, overlap, same⟩ := List.mem_map.mp again
    obtain rfl := List.inj_on_of_nodup_map apart.ids
      (mem_customRanges.mp (mem_overlaps.mp overlap).1).1 member same
    exact overlap
  rw [Bool.eq_iff_iff]
  simp only [Function.comp_apply, isCustomContent, AddressRange.content, overlapped,
    Bool.and_eq_true,
    decide_eq_true_eq, Bool.not_eq_true', Bool.and_eq_false_iff, decide_eq_false_iff_not, ne_eq]
  tauto

section Selected

variable {family : Family} (sameFamily : ∀ selection ∈ selections, selection.family = family)

include sameFamily

omit apart selectionsValid in
theorem covers_pieces {row : AddressRange}
    (overlap : row ∈ env.listCustomRangeOverlaps subnetId selections excludeRangeId) {addr : Addr} :
    (∃ piece ∈ row.interval.cutAll (selections.map (·.span)), piece.Covers addr) ↔
      row.interval.Covers addr ∧ ∀ selection ∈ selections, ¬ selection.Covers addr := by
  obtain ⟨-, -, met, isSelection, metFamily, -⟩ := mem_overlaps.mp overlap
  refine Interval.covers_cutAll.trans (and_congr_right fun covers => ?_)
  simp only [List.forall_mem_map]
  refine forall₂_congr fun selection selected => not_congr (Iff.symm ?_)
  refine and_iff_right ?_
  rw [covers.1, sameFamily selection selected, ← sameFamily met isSelection, metFamily]

/-- The labels after an assignment: those of rows that stay, those of overlapped rows where
nothing is selected, and the given one where something is. -/
theorem labelledAs_assign {addr : Addr} {type : RangeType} {label : Option Text} :
    (env.assignCustomRangeType subnetId rangeTypeId selections description
        excludeRangeId).env.LabelledAs subnetId addr type label ↔
      (∃ row ∈ env.customRanges subnetId, env.stays subnetId selections excludeRangeId row = true ∧
        row.type = type ∧ row.description = label ∧ row.interval.Covers addr) ∨
      (∃ row ∈ env.listCustomRangeOverlaps subnetId selections excludeRangeId, row.type = type ∧
        row.description = label ∧ row.interval.Covers addr ∧ ∀ selection ∈ selections,
        ¬ selection.Covers addr) ∨
      ((∃ selection ∈ selections, selection.Covers addr) ∧ rangeTypeId = some type ∧
        type.isSystem = false ∧ label = truthy description) := by
  rw [labelledAs_iff, contents_assign apart selectionsValid]
  constructor
  · rintro ⟨content, member, rfl, rfl, covers⟩
    rcases List.mem_append.mp member with old | new
    · rcases List.mem_append.mp old with kept | cutOff
      · obtain ⟨row, isRow, rfl⟩ := List.mem_map.mp kept
        obtain ⟨custom, stays⟩ := List.mem_filter.mp isRow
        exact .inl ⟨row, custom, stays, rfl, rfl, covers⟩
      · obtain ⟨row, overlap, piece, isPiece, rfl⟩ := mem_pieces.mp cutOff
        exact .inr (.inl ⟨row, overlap, rfl, rfl, (covers_pieces sameFamily overlap).mp
          ⟨piece, isPiece, covers⟩⟩)
    · obtain ⟨selection, selected, given, isGiven, custom, rfl⟩ := mem_selections.mp new
      exact .inr (.inr ⟨⟨selection, selected, covers⟩, isGiven, custom, rfl⟩)
  · rintro (⟨row, custom, stays, rfl, rfl, covers⟩ | ⟨row, overlap, rfl, rfl, covers⟩ |
      ⟨⟨selection, selected, covers⟩, given, custom, rfl⟩)
    · exact ⟨row.content, List.mem_append_left _ (List.mem_append_left _
        (List.mem_map_of_mem (List.mem_filter.mpr ⟨custom, stays⟩))), rfl, rfl, covers⟩
    · obtain ⟨piece, isPiece, inside⟩ := (covers_pieces sameFamily overlap).mpr covers
      exact ⟨_, List.mem_append_left _
        (List.mem_append_right _ (mem_pieces.mpr ⟨row, overlap, piece, isPiece, rfl⟩)),
        rfl, rfl, inside⟩
    · exact ⟨_, List.mem_append_right _
        (mem_selections.mpr ⟨selection, selected, type, given, custom, rfl⟩),
        rfl, rfl, covers⟩

/-- The custom ranges an assignment leaves are well formed and apart. -/
theorem rangesApart_assign (selectionsApart : selections.Pairwise Interval.Apart) :
    (env.assignCustomRangeType subnetId rangeTypeId selections description
      excludeRangeId).env.RangesApart subnetId := by
  have contents := @contents_assign env subnetId rangeTypeId selections description
    excludeRangeId apart selectionsValid
  have overlapsApart : (env.listCustomRangeOverlaps subnetId selections excludeRangeId).Pairwise
      fun left right => left.interval.Apart right.interval := apart.apart.filter _
  refine ⟨(@writeCustomRangeType_adds env subnetId rangeTypeId selections description excludeRangeId
    apart selectionsValid).2, ?_, ?_⟩
  · have valid : ∀ content ∈ (env.customRanges subnetId).map (·.content), content.interval.Valid :=
      List.forall_mem_map.mpr apart.valid
    suffices after :
        ∀ content ∈ ((env.assignCustomRangeType subnetId rangeTypeId selections description
        excludeRangeId).env.customRanges subnetId).map (·.content), content.interval.Valid from
      fun row member => after row.content (List.mem_map_of_mem member)
    rw [contents]
    intro content member
    rcases List.mem_append.mp member with old | new
    · rcases List.mem_append.mp old with kept | cutOff
      · obtain ⟨row, isRow, rfl⟩ := List.mem_map.mp kept
        exact apart.valid row (List.mem_filter.mp isRow).1
      · obtain ⟨row, overlap, piece, isPiece, rfl⟩ := mem_pieces.mp cutOff
        exact (apart.valid row (mem_overlaps.mp overlap).1).cutAll isPiece
    · obtain ⟨selection, selected, type, -, -, rfl⟩ := mem_selections.mp new
      exact selectionsValid selection selected
  · suffices after : (((env.assignCustomRangeType subnetId rangeTypeId selections description
        excludeRangeId).env.customRanges subnetId).map (·.content)).Pairwise
          fun left right => left.interval.Apart right.interval from
      (List.pairwise_map (f := AddressRange.content)).mp after
    rw [contents]
    refine List.pairwise_append.mpr ⟨List.pairwise_append.mpr ⟨?_, ?_, ?_⟩, ?_, ?_⟩
    · exact List.pairwise_map.mpr (apart.apart.filter _)
    · refine List.pairwise_flatMap.mpr ⟨fun row _ => ?_, ?_⟩
      · refine List.pairwise_map.mpr (Interval.pairwise_cutAll ?_)
        exact List.forall_mem_map.mpr fun selection selected =>
          (selectionsValid selection selected).order
      · refine overlapsApart.imp fun {row other} rowsApart => ?_
        rintro content isPiece content' isPiece' addr both
        obtain ⟨piece, member, rfl⟩ := List.mem_map.mp isPiece
        obtain ⟨piece', member', rfl⟩ := List.mem_map.mp isPiece'
        exact rowsApart addr ⟨(Interval.covers_cutAll.mp ⟨piece, member, both.1⟩).1,
          (Interval.covers_cutAll.mp ⟨piece', member', both.2⟩).1⟩
    · intro content kept content' isPiece addr both
      obtain ⟨row, isRow, rfl⟩ := List.mem_map.mp kept
      obtain ⟨custom, stays⟩ := List.mem_filter.mp isRow
      obtain ⟨other, overlap, piece, member, rfl⟩ := mem_pieces.mp isPiece
      refine apart.apart_of_ne custom (mem_overlaps.mp overlap).1 (fun same => ?_) addr
        ⟨both.1, (Interval.covers_cutAll.mp ⟨piece, member, both.2⟩).1⟩
      obtain rfl := List.inj_on_of_nodup_map apart.ids (mem_customRanges.mp custom).1
        (mem_customRanges.mp (mem_overlaps.mp overlap).1).1 same
      exact (stays_iff.mp stays).2 overlap
    · refine List.Pairwise.filter _ ?_
      cases rangeTypeId with
      | none => exact List.Pairwise.nil
      | some type => exact List.pairwise_map.mpr selectionsApart
    · intro content old content' new addr both
      obtain ⟨selection, selected, type, -, -, rfl⟩ := mem_selections.mp new
      rcases List.mem_append.mp old with kept | cutOff
      · obtain ⟨row, isRow, rfl⟩ := List.mem_map.mp kept
        obtain ⟨custom, stays⟩ := List.mem_filter.mp isRow
        obtain ⟨included, free⟩ := stays_iff.mp stays
        exact apart_of_not_overlap custom included free selected addr both
      · obtain ⟨row, overlap, piece, member, rfl⟩ := mem_pieces.mp cutOff
        exact ((covers_pieces sameFamily overlap).mp ⟨piece, member, both.1⟩).2 selection
          selected both.2

end Selected

end Assigning

/-- **An assignment keeps the custom ranges apart and is local to the selections.** What is
selected has the given type, or none; what is not selected keeps its label; what only the
excluded range held has none. -/
theorem assignment_local {env : Env} {subnetId : Nat} (apart : env.RangesApart subnetId)
    {family : Family} {selections : List Interval} (selectionsValid : ∀ selection ∈ selections,
    selection.Valid) (sameFamily : ∀ selection ∈ selections, selection.family = family)
    (selectionsApart : selections.Pairwise Interval.Apart) (rangeTypeId : Option RangeType)
    (description : Option Text) (excludeRangeId : Option Nat) :
    let after :=
        (env.assignCustomRangeType subnetId rangeTypeId selections description excludeRangeId).env
    after.RangesApart subnetId ∧
    (∀ addr, (∃ selection ∈ selections, selection.Covers addr) → ∀ type label,
      (after.LabelledAs subnetId addr type label ↔
        rangeTypeId = some type ∧ type.isSystem = false ∧ label = truthy description)) ∧
    (∀ addr, (∀ selection ∈ selections, ¬ selection.Covers addr) →
      (∀ row ∈ env.customRanges subnetId, excludeRangeId = some row.id → ¬ row.interval.Covers addr)
      → ∀ type label,
      (after.LabelledAs subnetId addr type label ↔ env.LabelledAs subnetId addr type label)) ∧
    ∀ addr, (∀ selection ∈ selections, ¬ selection.Covers addr) →
      (∃ row ∈ env.customRanges subnetId, excludeRangeId = some row.id ∧ row.interval.Covers addr) →
      ∀ type label, ¬ after.LabelledAs subnetId addr type label := by
  intro after
  refine ⟨rangesApart_assign apart selectionsValid sameFamily selectionsApart, ?_, ?_, ?_⟩
  · rintro addr ⟨selection, selected, covers⟩ type label
    rw [labelledAs_assign apart selectionsValid sameFamily]
    constructor
    · rintro (⟨row, custom, stays, -, -, inside⟩ | ⟨row, -, -, -, -, unselected⟩ | ⟨-, given⟩)
      · obtain ⟨included, free⟩ := stays_iff.mp stays
        exact absurd ⟨inside, covers⟩ (apart_of_not_overlap custom included free selected addr)
      · exact absurd covers (unselected selection selected)
      · exact given
    · exact fun given => .inr (.inr ⟨⟨selection, selected, covers⟩, given⟩)
  · intro addr unselected included type label
    rw [labelledAs_assign apart selectionsValid sameFamily]
    constructor
    · rintro (⟨row, custom, -, labelled⟩ | ⟨row, overlap, sameType, sameLabel, inside, -⟩ |
        ⟨⟨selection, selected, covers⟩, -⟩)
      · exact ⟨row, custom, labelled⟩
      · exact ⟨row, (mem_overlaps.mp overlap).1, sameType, sameLabel, inside⟩
      · exact absurd covers (unselected selection selected)
    · rintro ⟨row, custom, sameType, sameLabel, inside⟩
      by_cases overlap : row ∈ env.listCustomRangeOverlaps subnetId selections excludeRangeId
      · exact .inr (.inl ⟨row, overlap, sameType, sameLabel, inside, unselected⟩)
      · have kept : excludeRangeId ≠ some row.id :=
          fun excluded => included row custom excluded inside
        exact .inl ⟨row, custom, stays_iff.mpr ⟨kept, overlap⟩, sameType, sameLabel, inside⟩
  · rintro addr unselected ⟨excluded, isExcluded, named, held⟩ type label
    rw [labelledAs_assign apart selectionsValid sameFamily]
    -- The excluded range is the only one that held the address.
    have only : ∀ row ∈ env.customRanges subnetId, excludeRangeId ≠ some row.id →
        ¬ row.interval.Covers addr := by
      intro row custom kept inside
      refine apart.apart_of_ne isExcluded custom (fun same => kept ?_) addr ⟨held, inside⟩
      rw [named, same]
    rintro (⟨row, custom, stays, -, -, inside⟩ | ⟨row, overlap, -, -, inside,
      -⟩ | ⟨⟨selection, selected, covers⟩, -⟩)
    · exact only row custom (stays_iff.mp stays).1 inside
    · obtain ⟨custom, kept, -⟩ := mem_overlaps.mp overlap
      exact only row custom kept inside
    · exact unselected selection selected covers

/-- Two custom ranges next to each other. -/
def labelledOffice : Env :=
  { officeEnv with
    ranges := [⟨1, 1, .custom 1, officeAddr 10, officeAddr 19, some "printers".toList⟩,
      ⟨2, 1, .custom 2, officeAddr 20, officeAddr 29, none⟩] }

theorem labelledOffice_apart : labelledOffice.RangesApart 1 where
  ids := by decide
  valid := by
    refine List.forall_mem_cons.mpr ⟨@officeInterval_valid 10 19 (by decide), ?_⟩
    exact List.forall_mem_singleton.mpr (@officeInterval_valid 20 29 (by decide))
  apart := List.pairwise_pair.mpr (@officeInterval_apart 10 19 20 29 (by decide))

theorem assignment_local_office :
    ((labelledOffice.assignCustomRangeType 1 (some (.custom 3))
        [officeInterval 15 24]).env.customRanges 1).map
        (fun row => (row.type, row.startIp, row.endIp)) =
      [(.custom 1, officeAddr 10, officeAddr 14), (.custom 2, officeAddr 25, officeAddr 29),
        (.custom 3, officeAddr 15, officeAddr 24)] ∧
    (labelledOffice.assignCustomRangeType 1 (some (.custom 3))
    [officeInterval 15 24]).env.RangesApart 1 := by
  refine ⟨by decide,
    (@assignment_local labelledOffice 1 labelledOffice_apart .v4 [officeInterval 15 24] ?_ ?_ ?_
    (some (.custom 3)) none none).1⟩
  · exact List.forall_mem_singleton.mpr (officeInterval_valid (by decide))
  · exact List.forall_mem_singleton.mpr rfl
  · exact List.pairwise_singleton _ _

end Env

end Cidrella
