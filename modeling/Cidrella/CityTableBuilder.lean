import Cidrella.GeoCities
import Cidrella.Lib.Rounding
import Cidrella.Lib.Runs
import Cidrella.Lib.Tally

/-!
# Building the city table

`utils/geo-cities.js`: ranges of addresses with a place, in address order, become rows of
address blocks with one place each. A block that one range covers has that range's place. For
a block that several share, each casts a vote with the addresses it has there, and the vote is
flushed when another block comes.

The middle of a grid cell, and how numbers are rounded and spelled, are parameters (`Grid`).
For IPv4 ranges in order the rows are the blocks' majorities (`finish_v4`).
-/

set_option autoImplicit false

namespace Cidrella

open Address Runs Tally

namespace CityTableBuilder

/-! ## Places -/

/-- What the builder takes of coordinates. Numbers that differ are spelled apart, and no
spelling of a number has a colon. -/
structure Grid (Coord Degree : Type) where
  isFinite : Coord → Bool
  cellMiddle : Coord → Coord → Coord × Coord
  /-- `Math.round(x * 100)`. -/
  hundredths : Coord → Degree
  spelled : Degree → Text
  spelled_injective : Function.Injective spelled
  colon_notMem_spelled : ∀ degree, ':' ∉ spelled degree

/-- `/^[A-Z]{2}$/`, and not the code of reserved space. -/
def hasPlace (country : Text) : Bool :=
  country.length = 2 && country.all Char.isUpper && country ≠ ['Z', 'Z']

/-- A country and the middle of a cell. -/
structure Place (Degree : Type) where
  country : Text
  lat : Degree
  lon : Degree
  letters : hasPlace country = true
  deriving DecidableEq

/-- The arguments of `add`. -/
structure Call (Coord : Type) where
  startIp : Text
  endIp : Text
  country : Text
  lat : Coord
  lon : Coord

section

variable {Coord Degree : Type} (grid : Grid Coord Degree)

/-- `place.key`. -/
def Grid.key (place : Place Degree) : Text :=
  place.country ++ ':' :: (grid.spelled place.lat ++ ':' :: grid.spelled place.lon)

/-- The place of a call, if it has one. -/
def Grid.place (call : Call Coord) : Option (Place Degree) :=
  if letters : hasPlace call.country = true then
    if !grid.isFinite call.lat || !grid.isFinite call.lon then none
    else
      let middle := grid.cellMiddle call.lat call.lon
      some ⟨call.country, grid.hundredths middle.1, grid.hundredths middle.2, letters⟩
  else none

/-! ## The builder -/

/-- `Number(n)` of a big integer. -/
def number (n : Int) : Int := n.sign * Rounding.nearest n.natAbs

/-- The sum of two numbers. -/
def plus (a b : Int) : Int := number (a + b)

/-- The votes for an open block, as `places` has them. -/
structure Vote (Degree : Type) where
  block : Nat
  places : List (Place Degree × Int)

/-- `state[family]`. -/
structure FamilyState (Degree : Type) where
  rows : List (Run (Place Degree)) := []
  vote : Option (Vote Degree) := none

/-- `state`. -/
structure State (Degree : Type) where
  v4 : FamilyState Degree := {}
  v6 : FamilyState Degree := {}

/-- `flush(family)`. -/
def flush (state : FamilyState Degree) : FamilyState Degree :=
  match state.vote with
  | none => state
  | some vote =>
    match winner vote.places with
    -- not reached: an open block has a vote
    | none => state
    | some best => { rows := emit grid.key state.rows vote.block vote.block best.1, vote := none }

/-- `cast(family, block, place, weight)`. -/
def cast (state : FamilyState Degree) (block : Nat) (place : Place Degree) (weight : Int) :
    FamilyState Degree :=
  let state := if state.vote.any (·.block ≠ block) then flush grid state else state
  let places := (state.vote.map Vote.places).getD []
  { state with vote := some ⟨block, Tally.vote grid.key plus places place weight⟩ }

/-- The part of `add` after the addresses were read, `a` to `b`. -/
def addRange (family : Family) (state : FamilyState Degree) (a b : Nat) (place : Place Degree) :
    FamilyState Degree :=
  let first := a >>> family.shift
  let last := b >>> family.shift
  let blockEnd (block : Nat) : Int := ((block + 1) <<< family.shift : Nat) - 1
  let opened := cast grid state first place (number (min (b : Int) (blockEnd first) - a + 1))
  if last = first then opened
  else
    let closed :=
      if first + 1 < last then
        let flushed := flush grid opened
        { flushed with rows := emit grid.key flushed.rows (first + 1) (last - 1) place }
      else opened
    cast grid closed last place (number (b - (last <<< family.shift : Nat) + 1))

/-- How `add` reads an address. -/
def readEnd (ip : Text) : Option ParsedIp := parseIp ip { zoneId := false, mapV4 := false }

/-- `add(startIp, endIp, country, lat, lon)`. -/
def add (state : State Degree) (call : Call Coord) : State Degree :=
  match readEnd call.startIp, readEnd call.endIp with
  | some a, some b =>
    if a.bits ≠ b.bits then state
    else
      match grid.place call with
      | none => state
      | some place =>
        match GeoCities.familyOf a with
        | .v4 => { state with v4 := addRange grid .v4 state.v4 a.value b.value place }
        | .v6 => { state with v6 := addRange grid .v6 state.v6 a.value b.value place }
  | _, _ => state

/-- The rows that `finish()` returns after some calls. -/
def finish (calls : List (Call Coord)) : Family → List (Run (Place Degree)) :=
  let state := calls.foldl (add grid) {}
  fun
    | .v4 => (flush grid state.v4).rows
    | .v6 => (flush grid state.v6).rows

end

/-! ## Majorities -/

section

variable {Coord Degree : Type} [DecidableEq Degree] (grid : Grid Coord Degree)
  (ranges : List (Run (Place Degree))) (block : Nat) (place : Place Degree)

/-- The addresses of an IPv4 block. -/
def window (block : Nat) : Span :=
  ⟨block <<< Family.v4.shift, (block + 1) <<< Family.v4.shift - 1⟩

/-- The range has an address of the block. -/
def Meets (range : Run (Place Degree)) (block : Nat) : Prop :=
  ∃ address, range.Has address ∧ (window block).Has address

/-- How many addresses of the block the ranges of a place have. -/
def coverage : Nat :=
  (Span.covered ((ranges.filter (·.label = place)).map Run.toSpan) (window block)).card

omit [DecidableEq Degree] in
theorem meets_iff {range : Run (Place Degree)} :
    Meets range block ↔ max range.start (window block).start ≤ min range.stop
    (window block).stop := by
  simp only [Meets, Span.Has]
  constructor
  · rintro ⟨address, has⟩
    omega
  · exact fun order => ⟨max range.start (window block).start, by omega⟩

instance (range : Run (Place Degree)) (block : Nat) : Decidable (Meets range block) :=
  decidable_of_iff _ (meets_iff block).symm

/-- The places of the ranges that meet the block, in order. -/
def seen : List (Place Degree) := (ranges.filter fun range => Meets range block).map Run.label

/-- A place whose ranges cover the most of the block, and of several that do the one seen first. -/
def Majority : Prop :=
  place ∈ seen ranges block ∧
    ∀ other ∈ seen ranges block, coverage ranges block other ≤ coverage ranges block place ∧
      (coverage ranges block other = coverage ranges block place →
        (seen ranges block).idxOf place ≤ (seen ranges block).idxOf other)

/-- The votes for a block: each range's addresses there. -/
def pieces : List (Place Degree × Int) :=
  (ranges.filter fun range => Meets range block).map fun range =>
    (range.label, (range.toSpan.overlap (window block) : Int))

/-- The place that wins the votes for a block. -/
def winnerOf : Option (Place Degree) :=
  (winner (tally grid.key plus (pieces ranges block))).map Prod.fst

end

section

variable {Coord Degree : Type}

theorem window_start (block : Nat) : (window block).start = block * 1024 := Nat.shiftLeft_eq _ _

theorem window_stop (block : Nat) : (window block).stop = block * 1024 + 1023 := by
  have whole : (window block).stop = (block + 1) * 1024 - 1 :=
    congrArg (· - 1) (Nat.shiftLeft_eq _ _)
  omega

theorem shiftRight_eq (address : Nat) : address >>> Family.v4.shift = address / 1024 :=
  Nat.shiftRight_eq_div_pow _ _

theorem meets_iff_blocks {range : Run (Place Degree)} (order : range.start ≤ range.stop)
    (block : Nat) :
    Meets range block ↔ range.start / 1024 ≤ block ∧ block ≤ range.stop / 1024 := by
  rw [meets_iff, window_start, window_stop]
  omega

/-- **Places are told apart by their keys.** -/
theorem key_injective (grid : Grid Coord Degree) : Function.Injective grid.key := by
  intro place other same
  rcases place with ⟨country, lat, lon, letters⟩
  rcases other with ⟨country', lat', lon', letters'⟩
  simp only [Grid.key] at same
  have two {country : Text} (letters : hasPlace country = true) : country.length = 2 := by
    simp only [hasPlace, Bool.and_eq_true, decide_eq_true_eq] at letters
    exact letters.1.1
  obtain ⟨rfl, rest⟩ := List.append_inj same ((two letters).trans (two letters').symm)
  have plain (degree : Degree) : ∀ c ∈ grid.spelled degree, c ≠ ':' := fun c member colon =>
    grid.colon_notMem_spelled degree (colon ▸ member)
  have first (degree : Degree) (rest : Text) :
      (grid.spelled degree ++ ':' :: rest).takeWhile (· ≠ ':') = grid.spelled degree := by
    rw [List.takeWhile_append_of_pos fun c member => decide_eq_true (plain degree c member)]
    simp
  have rest := (List.cons.inj rest).2
  have lats := congrArg (List.takeWhile (· ≠ ':')) rest
  rw [first, first] at lats
  obtain rfl := grid.spelled_injective lats
  have lons := (List.cons.inj (List.append_cancel_left rest)).2
  obtain rfl := grid.spelled_injective lons
  rfl

/-! ## Weights -/

theorem number_of_small {n : Int} (small : n.natAbs < 2 ^ 53) : number n = n := by
  rw [number, Rounding.nearest_of_lt small]
  exact Int.sign_mul_natAbs n

theorem plus_of_small {a b : Int} (least : 0 ≤ a + b) (small : a + b < 2 ^ 53) : plus a b = a + b :=
  number_of_small (by omega)

/-- The ranges stand in address order. -/
structure Ordered (ranges : List (Run (Place Degree))) : Prop where
  filled : ∀ range ∈ ranges, range.start ≤ range.stop
  ascending : ranges.Pairwise fun range later => range.stop < later.start

theorem Ordered.apart {ranges : List (Run (Place Degree))} (ordered : Ordered ranges) :
    (ranges.map Run.toSpan).Pairwise Span.Apart :=
  List.pairwise_map.mpr (ordered.ascending.imp fun {range later} below address has => by
    have before : address ≤ range.stop := has.1.2
    have behind : later.start ≤ address := has.2.1
    omega)

theorem overlap_eq_zero {range : Run (Place Degree)} {block : Nat} (none : ¬ Meets range block) :
    range.toSpan.overlap (window block) = 0 := by
  rw [meets_iff] at none
  rw [Span.overlap]
  omega

theorem pieces_cons (range : Run (Place Degree)) (ranges : List (Run (Place Degree)))
    (block : Nat) :
    pieces (range :: ranges) block =
      (if Meets range block then [(range.label, (range.toSpan.overlap (window block) : Int))]
        else []) ++ pieces ranges block := by
  by_cases meets : Meets range block
  · rw [pieces, List.filter_cons_of_pos (p := fun range => Meets range block)
      (decide_eq_true meets), if_pos meets]
    rfl
  · rw [pieces, List.filter_cons_of_neg (p := fun range => Meets range block)
      (by simpa using meets), if_neg meets]
    rfl

theorem sum_pieces (ranges : List (Run (Place Degree))) (block : Nat) (keep : Place Degree → Bool) :
    (((pieces ranges block).filter fun v => keep v.1).map Prod.snd).sum =
      (((ranges.filter fun range => keep range.label).map fun range =>
        range.toSpan.overlap (window block)).sum : Nat) := by
  induction ranges with
  | nil => rfl
  | cons range ranges ih =>
    rw [pieces_cons, List.filter_append, List.map_append, List.sum_append, ih, List.filter_cons]
    by_cases meets : Meets range block <;> cases kept : keep range.label
    · simp [meets, kept]
    · simp [meets, kept]
    · simp [meets]
    · simp [meets, overlap_eq_zero meets]

variable [DecidableEq Degree]

theorem weightOf_pieces {ranges : List (Run (Place Degree))} (ordered : Ordered ranges)
    (block : Nat) (place : Place Degree) : weightOf (pieces ranges block) place = coverage ranges
    block place := by
  have apart : ((ranges.filter fun range => range.label = place).map Run.toSpan).Pairwise
      Span.Apart :=
    ordered.apart.sublist (List.filter_sublist.map Run.toSpan)
  rw [weightOf, sum_pieces ranges block fun label => label = place, coverage,
    Span.card_covered apart, List.map_map]
  rfl

theorem exact_pieces {ranges : List (Run (Place Degree))} (ordered : Ordered ranges) (block : Nat) :
    Exact plus (pieces ranges block) := by
  have total : ((pieces ranges block).map Prod.snd).sum ≤ 1024 := by
    have all := sum_pieces ranges block fun _ => true
    have covered := Span.card_covered ordered.apart (window block)
    have inside : (Span.covered (ranges.map Run.toSpan) (window block)).card ≤ 1024 := by
      refine (Finset.card_le_card (Finset.filter_subset _ _)).trans ?_
      rw [Nat.card_Icc, window_start, window_stop]
      omega
    rw [List.map_map] at covered
    rw [List.filter_true, List.filter_true] at all
    rw [all]
    exact_mod_cast covered ▸ inside
  refine exact_of_sums (fun v member => ?_) fun a b leastA leastB sum => plus_of_small
    (by omega) (by omega)
  obtain ⟨range, -, rfl⟩ := List.mem_map.mp member
  exact Int.natCast_nonneg _

/-- **The winner of the votes is the majority.** -/
theorem majority_of_winnerOf (grid : Grid Coord Degree) {ranges : List (Run (Place Degree))}
    (ordered : Ordered ranges) {block : Nat} {place : Place Degree}
    (wins : winnerOf grid ranges block = some place) : Majority ranges block place := by
  obtain ⟨best, heaviest, rfl⟩ := Option.map_eq_some_iff.mp wins
  have first := wins_of_winner (key_injective grid) (exact_pieces ordered block) heaviest
  have labels : (pieces ranges block).map Prod.fst = seen ranges block := by
    rw [pieces, List.map_map, seen]
    rfl
  rw [Wins, labels] at first
  refine ⟨first.1, fun other listed => ?_⟩
  have more := first.2 other listed
  rw [weightOf_pieces ordered, weightOf_pieces ordered] at more
  exact_mod_cast more

omit [DecidableEq Degree] in
theorem winnerOf_eq_none (grid : Grid Coord Degree) (ranges : List (Run (Place Degree)))
    (block : Nat) :
    winnerOf grid ranges block = none ↔ ∀ range ∈ ranges, ¬ Meets range block := by
  rw [winnerOf, Option.map_eq_none_iff, winner_eq_none, tally_eq_nil, pieces, List.map_eq_nil_iff,
    List.filter_eq_nil_iff]
  simp only [decide_eq_true_eq]

end

/-! ## Rows behind the ranges -/

section

variable {Coord Degree : Type} {grid : Grid Coord Degree} {ranges : List (Run (Place Degree))}
  {rows : List (Run (Place Degree))} {state : FamilyState Degree} {block : Nat}
  {place : Place Degree}

/-- The rows are the winners of the blocks below a block. -/
structure Through (grid : Grid Coord Degree) (ranges : List (Run (Place Degree))) (next : Nat)
    (rows : List (Run (Place Degree))) : Prop where
  merged : Merged rows
  below : ∀ row ∈ rows, row.stop < next
  winners : ∀ block place, Says rows block place ↔ block < next ∧
    winnerOf grid ranges block = some place

/-- A block is open: the rows are behind, and the votes are those of its ranges. -/
structure Open (grid : Grid Coord Degree) (ranges : List (Run (Place Degree))) (block : Nat)
    (state : FamilyState Degree) : Prop where
  through : Through grid ranges block state.rows
  vote : state.vote = some ⟨block, tally grid.key plus (pieces ranges block)⟩
  voted : pieces ranges block ≠ []

theorem Through.congr {next : Nat} (through : Through grid ranges next rows)
    {others : List (Run (Place Degree))} (same : ∀ block < next, pieces others block = pieces ranges
    block) : Through grid others next rows where
  merged := through.merged
  below := through.below
  winners := fun block place => by
    rw [through.winners]
    refine and_congr_right fun before => ?_
    rw [winnerOf, winnerOf, same block before]

theorem Through.skip {next later : Nat} (through : Through grid ranges next rows)
    (order : next ≤ later) (gap : ∀ block, next ≤ block → block < later → pieces ranges block =
    []) : Through grid ranges later rows where
  merged := through.merged
  below := fun row member => (through.below row member).trans_le order
  winners := fun block place => by
    rw [through.winners]
    refine and_congr_left fun wins => ⟨fun before => before.trans_le order, fun before => ?_⟩
    by_contra behind
    rw [winnerOf, gap block (not_lt.mp behind) before] at wins
    cases wins

/-- **Blocks with one winner are one more row.** -/
theorem Through.emit {start stop : Nat} (through : Through grid ranges start rows)
    (order : start ≤ stop) (wins : ∀ block, start ≤ block → block ≤ stop →
    winnerOf grid ranges block = some place) :
    Through grid ranges (stop + 1) (Runs.emit grid.key rows start stop place) := by
  obtain ⟨merged, below⟩ : Merged (Runs.emit grid.key rows start stop place) ∧
      ∀ row ∈ Runs.emit grid.key rows start stop place, row.stop ≤ stop :=
    merged_emit through.merged through.below order
  refine ⟨merged, fun row member => Nat.lt_succ_of_le (below row member), fun block other => ?_⟩
  rw [says_emit (key_injective grid) through.merged.filled order, through.winners]
  constructor
  · rintro (⟨before, won⟩ | ⟨from_, to_, rfl⟩)
    · exact ⟨by omega, won⟩
    · exact ⟨Nat.lt_succ_of_le to_, wins block from_ to_⟩
  · rintro ⟨before, won⟩
    by_cases old : block < start
    · exact .inl ⟨old, won⟩
    · have here := wins block (not_lt.mp old) (Nat.le_of_lt_succ before)
      exact .inr ⟨not_lt.mp old, Nat.le_of_lt_succ before, Option.some.inj (here.symm.trans won)⟩

/-- **A flush makes the winner a row.** -/
theorem Open.flush (opened : Open grid ranges block state) :
    Through grid ranges (block + 1) (flush grid state).rows ∧
    (CityTableBuilder.flush grid state).vote = none := by
  have some' : tally grid.key plus (pieces ranges block) ≠ [] :=
    fun none => opened.voted (tally_eq_nil.mp none)
  obtain ⟨_, best, _, -, wins, -⟩ := exists_winner some'
  have flushed : CityTableBuilder.flush grid state =
      ⟨Runs.emit grid.key state.rows block block best.1, none⟩ := by
    rw [CityTableBuilder.flush, opened.vote]
    simp only [wins]
  rw [flushed]
  refine ⟨opened.through.emit (le_refl _) fun block' from_ to_ => ?_, rfl⟩
  obtain rfl := le_antisymm from_ to_
  rw [winnerOf, wins]
  rfl

theorem open_of_cast (closed : state.vote = none) (through : Through grid ranges block state.rows)
    {weight : Int} (first : pieces ranges block = [(place, weight)]) :
    Open grid ranges block (cast grid state block place weight) := by
  have opened : cast grid state block place weight =
      { state with vote := some ⟨block, [(place, weight)]⟩ } := by
    rw [cast, closed]
    simp only [Option.any_none, Bool.false_eq_true, if_false, closed, Option.map_none,
      Option.getD_none]
    rfl
  rw [opened]
  refine ⟨through, ?_, ?_⟩
  · rw [first]
    rfl
  · rw [first]
    exact List.cons_ne_nil _ _

theorem Open.cast (opened : Open grid ranges block state) {others : List (Run (Place Degree))}
    {weight : Int} (same : ∀ block' < block, pieces others block' = pieces ranges block')
    (more : pieces others block = pieces ranges block ++ [(place, weight)]) :
    Open grid others block (cast grid state block place weight) := by
  have voted : CityTableBuilder.cast grid state block place weight =
      { state with vote := some ⟨block, tally grid.key plus (pieces others block)⟩ } := by
    rw [CityTableBuilder.cast, opened.vote, more, tally_concat]
    simp [opened.vote]
  rw [voted]
  refine ⟨opened.through.congr same, rfl, ?_⟩
  rw [more]
  exact List.append_ne_nil_of_right_ne_nil _ (List.cons_ne_nil _ _)

theorem Open.cast_other (opened : Open grid ranges block state) {other : Nat}
    (differs : block ≠ other) (weight : Int) :
    CityTableBuilder.cast grid state other place weight =
      CityTableBuilder.cast grid (CityTableBuilder.flush grid state) other place weight := by
  have closed := opened.flush.2
  rw [CityTableBuilder.cast, CityTableBuilder.cast, closed, opened.vote]
  simp [differs]

/-! ## One range more -/

theorem first_weight {range : Run (Place Degree)} (order : range.start ≤ range.stop) :
    number (min (range.stop : Int)
        ((((range.start / 1024 + 1) <<< Family.v4.shift : Nat) : Int) - 1) - range.start + 1) =
      range.toSpan.overlap (window (range.start / 1024)) := by
  have shifted : (range.start / 1024 + 1) <<< Family.v4.shift = (range.start / 1024 + 1) * 1024 :=
    Nat.shiftLeft_eq _ _
  have same : min (range.stop : Int)
      ((((range.start / 1024 + 1) <<< Family.v4.shift : Nat) : Int) - 1) - range.start + 1 =
      range.toSpan.overlap (window (range.start / 1024)) := by
    rw [Span.overlap, window_start, window_stop, shifted]
    omega
  have small : range.toSpan.overlap (window (range.start / 1024)) ≤ 1024 := by
    rw [Span.overlap, window_start, window_stop]
    omega
  rw [same]
  exact number_of_small (by omega)

theorem last_weight {range : Run (Place Degree)} (later : range.start / 1024 < range.stop / 1024) :
    number ((range.stop : Int) - ((range.stop / 1024) <<< Family.v4.shift : Nat) + 1) =
      range.toSpan.overlap (window (range.stop / 1024)) := by
  have shifted : (range.stop / 1024) <<< Family.v4.shift = range.stop / 1024 * 1024 :=
    Nat.shiftLeft_eq _ _
  have same : (range.stop : Int) - ((range.stop / 1024) <<< Family.v4.shift : Nat) + 1 =
      range.toSpan.overlap (window (range.stop / 1024)) := by
    rw [Span.overlap, window_start, window_stop, shifted]
    omega
  have small : range.toSpan.overlap (window (range.stop / 1024)) ≤ 1024 := by
    rw [Span.overlap, window_start, window_stop]
    omega
  rw [same]
  exact number_of_small (by omega)

theorem pieces_concat (ranges : List (Run (Place Degree))) (range : Run (Place Degree))
    (block : Nat) :
    pieces (ranges ++ [range]) block =
      pieces ranges block ++
        if Meets range block then [(range.label, (range.toSpan.overlap (window block) : Int))]
        else [] := by
  induction ranges with
  | nil => rw [List.nil_append, pieces_cons]; simp [pieces]
  | cons first ranges ih => rw [List.cons_append, pieces_cons, ih, pieces_cons, List.append_assoc]

/-- The ranges so far stand behind a range, and so do their blocks. -/
structure Behind (ranges : List (Run (Place Degree))) (range : Run (Place Degree)) : Prop where
  filled : ∀ earlier ∈ ranges, earlier.start ≤ earlier.stop
  order : range.start ≤ range.stop
  below : ∀ earlier ∈ ranges, earlier.stop < range.start

theorem Behind.pieces_eq_nil {range : Run (Place Degree)} (behind : Behind ranges range)
    (past : range.start / 1024 < block) : pieces ranges block = [] := by
  rw [pieces, List.map_eq_nil_iff, List.filter_eq_nil_iff]
  intro earlier member meets
  have within := (meets_iff_blocks (behind.filled earlier member) block).mp
    (of_decide_eq_true meets)
  have below := behind.below earlier member
  omega

theorem Behind.pieces_concat_of_lt {range : Run (Place Degree)} (behind : Behind ranges range)
    (before : block < range.start / 1024) : pieces (ranges ++ [range]) block =
    pieces ranges block := by
  have none : ¬ Meets range block := by
    rw [meets_iff_blocks behind.order]
    omega
  rw [pieces_concat, if_neg none, List.append_nil]

theorem Behind.pieces_concat_first {range : Run (Place Degree)} (behind : Behind ranges range) :
    pieces (ranges ++ [range]) (range.start / 1024) =
      pieces ranges (range.start / 1024) ++
        [(range.label, (range.toSpan.overlap (window (range.start / 1024)) : Int))] := by
  have meets : Meets range (range.start / 1024) := by
    rw [meets_iff_blocks behind.order]
    exact ⟨le_refl _, Nat.div_le_div_right behind.order⟩
  rw [pieces_concat, if_pos meets]

theorem Behind.pieces_concat_later {range : Run (Place Degree)} (behind : Behind ranges range)
    (past : range.start / 1024 < block) (within : block ≤ range.stop / 1024) :
    pieces (ranges ++ [range]) block =
    [(range.label, (range.toSpan.overlap (window block) : Int))] := by
  have meets : Meets range block := (meets_iff_blocks behind.order block).mpr ⟨past.le, within⟩
  rw [pieces_concat, behind.pieces_eq_nil past, if_pos meets, List.nil_append]

/-- What the builder has reached: the block of the last range is open, or nothing came yet. -/
def Reached (grid : Grid Coord Degree) (ranges : List (Run (Place Degree)))
    (state : FamilyState Degree) : Prop :=
  (∃ block, Open grid ranges block state ∧ ∀ range ∈ ranges, range.stop / 1024 ≤ block) ∨
    (ranges = [] ∧ state = {})

/-- **The first vote of a range opens its block**, and flushes what was open before. -/
theorem Reached.cast_first (reached : Reached grid ranges state) {range : Run (Place Degree)}
    (behind : Behind ranges range) :
    Open grid (ranges ++ [range]) (range.start / 1024)
      (CityTableBuilder.cast grid state (range.start / 1024) range.label
        (range.toSpan.overlap (window (range.start / 1024)))) := by
  have first := behind.pieces_concat_first
  rcases reached with ⟨block, opened, ends⟩ | ⟨rfl, rfl⟩
  · by_cases same : block = range.start / 1024
    · subst same
      exact opened.cast (fun _ before => behind.pieces_concat_of_lt before) first
    · -- the open block is an earlier one: it has a range, which ends there
      have earlier : block < range.start / 1024 := by
        obtain ⟨v, member⟩ := List.exists_mem_of_ne_nil _ opened.voted
        obtain ⟨last, listed, -⟩ := List.mem_map.mp member
        obtain ⟨listed, meets⟩ := List.mem_filter.mp listed
        have within := (meets_iff_blocks (behind.filled last listed) block).mp
          (of_decide_eq_true meets)
        have below := behind.below last listed
        omega
      have gap : ∀ later, block < later → pieces ranges later = [] := fun later past => by
        rw [pieces, List.map_eq_nil_iff, List.filter_eq_nil_iff]
        intro other member meets
        have within := (meets_iff_blocks (behind.filled other member) later).mp
          (of_decide_eq_true meets)
        have ended := ends other member
        omega
      rw [opened.cast_other same]
      obtain ⟨through, closed⟩ := opened.flush
      refine open_of_cast closed ?_ (by rw [first, gap _ earlier, List.nil_append])
      exact (through.skip earlier fun later from_ _ => gap later from_).congr fun _ before =>
        behind.pieces_concat_of_lt before
  · have none : ∀ row ∈ ({} : FamilyState Degree).rows, row.stop < range.start / 1024 :=
      fun _ member =>
      absurd member List.not_mem_nil
    refine open_of_cast rfl ⟨merged_nil, none, fun block place => ?_⟩ first
    constructor
    · rintro ⟨row, member, -⟩
      exact absurd member List.not_mem_nil
    · rintro ⟨before, wins⟩
      rw [winnerOf, behind.pieces_concat_of_lt before] at wins
      cases wins

theorem winnerOf_of_pieces {weight : Int} (alone : pieces ranges block = [(place, weight)]) :
    winnerOf grid ranges block = some place := by
  rw [winnerOf, alone]
  rfl

/-- **A range more.** -/
theorem Reached.addRange (reached : Reached grid ranges state) {range : Run (Place Degree)}
    (behind : Behind ranges range) :
    Reached grid (ranges ++ [range])
    (addRange grid .v4 state range.start range.stop range.label) := by
  have opened := reached.cast_first behind
  have blocks : range.start / 1024 ≤ range.stop / 1024 := Nat.div_le_div_right behind.order
  have ends : ∀ other ∈ ranges ++ [range], other.stop / 1024 ≤ range.stop / 1024 := by
    intro other member
    rcases List.mem_append.mp member with earlier | new
    · have below := behind.below other earlier
      have order := behind.order
      omega
    · rw [List.mem_singleton.mp new]
  refine .inl ⟨range.stop / 1024, ?_, ends⟩
  rw [CityTableBuilder.addRange]
  simp only [shiftRight_eq, first_weight behind.order]
  generalize CityTableBuilder.cast grid state (range.start / 1024) range.label
    (range.toSpan.overlap (window (range.start / 1024))) = first at opened ⊢
  by_cases inOne : range.stop / 1024 = range.start / 1024
  · rw [if_pos inOne, inOne]
    exact opened
  · have later : range.start / 1024 < range.stop / 1024 := by omega
    have alone := behind.pieces_concat_later later (le_refl _)
    obtain ⟨through, closed⟩ := opened.flush
    rw [if_neg inOne, last_weight later]
    by_cases whole : range.start / 1024 + 1 < range.stop / 1024
    · rw [if_pos whole]
      -- the blocks between are the range's alone
      have between : ∀ block, range.start / 1024 + 1 ≤ block → block ≤ range.stop / 1024 - 1 →
          winnerOf grid (ranges ++ [range]) block = some range.label := fun block from_ to_ =>
        winnerOf_of_pieces (behind.pieces_concat_later (by omega) (by omega))
      have emitted := through.emit (by omega) between
      have next : range.stop / 1024 - 1 + 1 = range.stop / 1024 := by omega
      rw [next] at emitted
      refine open_of_cast ?_ ?_ alone
      · exact closed
      · exact emitted
    · rw [if_neg whole, opened.cast_other (by omega)]
      have next : range.start / 1024 + 1 = range.stop / 1024 := by omega
      rw [next] at through
      exact open_of_cast closed through alone

/-! ## A run of calls -/

/-- The addresses of a call whose two ends are IPv4 addresses in order. -/
def Call.range? (call : Call Coord) : Option Span := do
  let a ← readEnd call.startIp
  let b ← readEnd call.endIp
  if a.bits = ipv4Bits ∧ b.bits = ipv4Bits ∧ a.value ≤ b.value then some ⟨a.value, b.value⟩
  else none

theorem Call.order_of_range {call : Call Coord} {range : Span}
    (isRange : call.range? = some range) :
    range.start ≤ range.stop := by
  obtain ⟨a, -, rest⟩ := Option.bind_eq_some_iff.mp isRange
  obtain ⟨b, -, rest⟩ := Option.bind_eq_some_iff.mp rest
  split at rest
  · rename_i is
    obtain rfl := Option.some.inj rest
    exact is.2.2
  · cases rest

/-- The ranges with a place, in order. -/
def accepted (grid : Grid Coord Degree) (calls : List (Call Coord)) : List (Run (Place Degree)) :=
  calls.filterMap fun call => do
    let range ← call.range?
    let place ← grid.place call
    some ⟨range, place⟩

theorem add_of_range {call : Call Coord} {range : Span} (isRange : call.range? = some range)
    (state : State Degree) :
    (add grid state call).v4 =
      match grid.place call with
      | none => state.v4
      | some place => addRange grid .v4 state.v4 range.start range.stop place := by
  obtain ⟨a, readA, rest⟩ := Option.bind_eq_some_iff.mp isRange
  obtain ⟨b, readB, rest⟩ := Option.bind_eq_some_iff.mp rest
  split at rest
  · rename_i is
    obtain rfl := Option.some.inj rest
    rw [add, readA, readB]
    simp only
    rw [if_neg (not_not.mpr (is.1.trans is.2.1.symm)), GeoCities.familyOf, if_pos is.1]
    cases grid.place call <;> rfl
  · cases rest

theorem accepted_concat {call : Call Coord} {range : Span} (isRange : call.range? = some range)
    (calls : List (Call Coord)) :
    accepted grid (calls ++ [call]) =
      accepted grid calls ++
        ((grid.place call).map fun place => (⟨range, place⟩ : Run (Place Degree))).toList := by
  rw [accepted, List.filterMap_append, ← accepted]
  congr 1
  cases found : grid.place call with
  | none => simp [isRange, found]
  | some place => simp [isRange, found]

/-- **What the builder has reached after calls of IPv4 ranges in order.** -/
theorem reached_of_calls (grid : Grid Coord Degree) {calls : List (Call Coord)} {spans : List Span}
    (ranges : calls.map Call.range? = spans.map some)
    (ascending : spans.Pairwise fun range later => range.stop < later.start) :
    Reached grid (accepted grid calls) (calls.foldl (add grid) {}).v4 ∧
      Ordered (accepted grid calls) ∧ ∀ range ∈ accepted grid calls, range.toSpan ∈ spans := by
  induction calls using List.reverseRecOn generalizing spans with
  | nil => exact ⟨.inr ⟨rfl, rfl⟩, ⟨nofun, List.Pairwise.nil⟩, nofun⟩
  | append_singleton calls call ih =>
    rw [List.map_append] at ranges
    obtain ⟨before, last, rfl, earlier, new⟩ := List.map_eq_append_iff.mp ranges.symm
    obtain ⟨range, rfl, isRange⟩ := List.map_eq_singleton_iff.mp new
    obtain ⟨order, -, below⟩ := List.pairwise_append.mp ascending
    obtain ⟨reached, ordered, listed⟩ := ih earlier.symm order
    rw [List.foldl_append, List.foldl_cons, List.foldl_nil, add_of_range isRange.symm,
      accepted_concat isRange.symm]
    cases grid.place call with
    | none =>
      simp only [Option.map_none, Option.toList_none, List.append_nil]
      exact ⟨reached, ordered, fun other member => List.mem_append_left _ (listed other member)⟩
    | some place =>
      have behind : Behind (accepted grid calls) (⟨range, place⟩ : Run (Place Degree)) :=
        ⟨ordered.filled, Call.order_of_range isRange.symm, fun other member =>
          below other.toSpan (listed other member) range List.mem_cons_self⟩
      refine ⟨reached.addRange behind, ⟨fun other member => ?_, ?_⟩, fun other member => ?_⟩
      · rcases List.mem_append.mp member with old | new
        · exact ordered.filled other old
        · rw [List.mem_singleton.mp new]
          exact behind.order
      · refine List.pairwise_append.mpr
          ⟨ordered.ascending, List.pairwise_singleton _ _, fun other old later new => ?_⟩
        rw [List.mem_singleton.mp new]
        exact behind.below other old
      · rcases List.mem_append.mp member with old | new
        · exact List.mem_append_left _ (listed other old)
        · rw [List.mem_singleton.mp new]
          exact List.mem_append_right _ List.mem_cons_self

theorem Reached.flush (reached : Reached grid ranges state) (ordered : Ordered ranges) :
    Merged (flush grid state).rows ∧ ∀ block place,
      Says (CityTableBuilder.flush grid state).rows block place ↔ winnerOf grid ranges block =
      some place := by
  rcases reached with ⟨open_, opened, ends⟩ | ⟨rfl, rfl⟩
  · obtain ⟨through, -⟩ := opened.flush
    refine ⟨through.merged, fun block place =>
      (through.winners block place).trans (and_iff_right_of_imp fun wins => ?_)⟩
    by_contra past
    have none : winnerOf grid ranges block = none := by
      refine (winnerOf_eq_none grid ranges block).mpr fun range member meets => ?_
      have within := (meets_iff_blocks (ordered.filled range member) block).mp meets
      have ended := ends range member
      omega
    rw [none] at wins
    cases wins
  · refine ⟨merged_nil, fun block place => iff_of_false ?_ nofun⟩
    rintro ⟨row, member, -⟩
    exact absurd member List.not_mem_nil

/-- **The rows of IPv4 ranges in order are the majorities of their blocks.** They ascend, are
apart, and no two side by side have one place; they have the blocks that a range with a place
meets, and give each the place that covers the most of it, the first seen of several. -/
theorem finish_v4 [DecidableEq Degree] (grid : Grid Coord Degree) (calls : List (Call Coord))
    (spans : List Span) (ranges : calls.map Call.range? = spans.map some)
    (ascending : spans.Pairwise fun range later => range.stop < later.start) :
    Merged (finish grid calls .v4) ∧
      (∀ block, (∃ row ∈ finish grid calls .v4, row.Has block) ↔
        ∃ range ∈ accepted grid calls, Meets range block) ∧
        ∀ row ∈ finish grid calls .v4, ∀ block, row.Has block →
          Majority (accepted grid calls) block row.label := by
  obtain ⟨reached, ordered, -⟩ := reached_of_calls grid ranges ascending
  obtain ⟨merged, winners⟩ := reached.flush ordered
  refine ⟨merged, fun block => ⟨?_, ?_⟩, fun row member block has => ?_⟩
  · rintro ⟨row, member, has⟩
    by_contra none
    have wins := (winners block row.label).mp ⟨row, member, has, rfl⟩
    rw [(winnerOf_eq_none grid _ block).mpr fun range listed meets =>
      none ⟨range, listed, meets⟩] at wins
    cases wins
  · rintro ⟨range, listed, meets⟩
    cases wins : winnerOf grid (accepted grid calls) block with
    | none => exact absurd meets ((winnerOf_eq_none grid _ block).mp wins range listed)
    | some place =>
      obtain ⟨row, member, has, -⟩ := (winners block place).mpr wins
      exact ⟨row, member, has⟩
  · exact majority_of_winnerOf grid ordered ((winners block row.label).mp ⟨row, member, has, rfl⟩)

/-- A grid of whole degrees, each its own cell. -/
def wholeDegrees : Grid Nat Nat where
  isFinite := fun _ => true
  cellMiddle := Prod.mk
  hundredths := (100 * ·)
  spelled := fun degree => Nat.toDigits 10 degree
  spelled_injective :=
    Function.LeftInverse.injective (Text.readDigits_toDigits (by decide) (by decide))
  colon_notMem_spelled := fun _ member => absurd (isDigit_of_mem_decimal member) (by decide)

/-- Two ranges that share a block, half and half, and one of reserved space. -/
def sharedBlock : List (Call Nat) :=
  [⟨"0.0.0.0".toList, "0.0.1.255".toList, ['U', 'S'], 38, 97⟩,
    ⟨"0.0.2.0".toList, "0.0.11.255".toList, ['D', 'E'], 51, 9⟩,
    ⟨"0.0.12.0".toList, "0.0.15.255".toList, ['Z', 'Z'], 0, 0⟩]

theorem finish_v4_sharedBlock :
    Merged (finish wholeDegrees sharedBlock .v4) ∧
      (∀ block, (∃ row ∈ finish wholeDegrees sharedBlock .v4, row.Has block) ↔
        ∃ range ∈ accepted wholeDegrees sharedBlock, Meets range block) ∧
        ∀ row ∈ finish wholeDegrees sharedBlock .v4, ∀ block, row.Has block →
          Majority (accepted wholeDegrees sharedBlock) block row.label :=
  finish_v4 wholeDegrees sharedBlock [⟨0, 511⟩, ⟨512, 3071⟩, ⟨3072, 4095⟩] (by decide) (by decide)

/-- Half a block each: the first one seen has it. -/
example :
    (finish wholeDegrees sharedBlock .v4).map (fun row => (row.toSpan, row.label.country)) =
      [(⟨0, 0⟩, ['U', 'S']), (⟨1, 2⟩, ['D', 'E'])] := by
  decide

end

end CityTableBuilder

end Cidrella
