import Cidrella.GeoCities
import Mathlib.Data.List.Chain

/-!
# Lookups in filled columns

The stored rows of a family have no gaps: each starts behind the one before, and the last
ends at the family's last block (`covers_fillGaps`). So the last stored row that starts at a
block or before has the block, and is the table's row for it or a gap where the table has
none (`Covers.find?_eq`). The search finds that row as long as the sum of two indices fits
32 bits (`floorIndex_eq`), and does not end otherwise (`floorIndex_never`).
-/

set_option autoImplicit false

namespace Cidrella

namespace GeoCities

open Address FloorSearch TypedArrays

/-! ## Gaps filled -/

/-- A stored row without a place. -/
def StoredRow.IsGap (row : StoredRow) : Prop := row.country = none ∧ row.lat = none ∧ row.lon = none

/-- Stored rows without gaps, each a gap of the table's rows or one of them. -/
structure Run (rows : List Row) (out : List StoredRow) : Prop where
  chain : out.IsChain fun row next => row.stop + 1 = next.start
  ordered : ∀ row ∈ out, row.start ≤ row.stop
  honest : ∀ row ∈ out, row.IsGap ∨ ∃ own ∈ rows, row = own.stored

theorem Run.concat {rows : List Row} {out : List StoredRow} (run : Run rows out) {row : StoredRow}
    (next : ∀ prev ∈ out.getLast?, prev.stop + 1 = row.start) (ordered : row.start ≤ row.stop)
    (honest : row.IsGap ∨ ∃ own ∈ rows, row = own.stored) : Run rows (out ++ [row]) := by
  refine ⟨run.chain.append (List.isChain_singleton _) fun prev found first same => ?_, ?_, ?_⟩
  · obtain rfl := Option.some.inj same
    exact next prev found
  · exact List.forall_mem_append.mpr ⟨run.ordered, List.forall_mem_singleton.mpr ordered⟩
  · exact List.forall_mem_append.mpr ⟨run.honest, List.forall_mem_singleton.mpr honest⟩

theorem Run.more {rows : List Row} {out : List StoredRow} (run : Run rows out) (row : Row) :
    Run (rows ++ [row]) out :=
  ⟨run.chain, run.ordered, fun stored member =>
    (run.honest stored member).imp_right fun ⟨own, found, same⟩ =>
      ⟨own, List.mem_append_left _ found, same⟩⟩

/-- What filling gaps makes of rows. -/
structure Fills (rows : List Row) (out : List StoredRow) : Prop where
  run : Run rows out
  last : out.getLast?.map StoredRow.stop = rows.getLast?.map Row.stop
  kept : ∀ row ∈ rows, row.stored ∈ out

theorem Fills.stop_mem {rows : List Row} {out : List StoredRow} (filled : Fills rows out)
    {prev : StoredRow} (last : out.getLast? = some prev) : ∃ own ∈ rows.getLast?,
    own.stop = prev.stop := by
  have same := filled.last
  rw [last] at same
  obtain ⟨own, found, stops⟩ := Option.map_eq_some_iff.mp same.symm
  exact ⟨own, found, stops⟩

theorem fills_addRow {rows : List Row} {out : List StoredRow} (filled : Fills rows out) {row : Row}
    (ordered : row.start ≤ row.stop) (behind : ∀ last ∈ rows.getLast?, last.stop < row.start) :
    Fills (rows ++ [row]) (addRow out row) := by
  have new : row.stored.IsGap ∨ ∃ own ∈ rows ++ [row], row.stored = own.stored :=
    .inr ⟨row, List.mem_append_right _ List.mem_cons_self, rfl⟩
  refine ⟨?_, ?_, List.forall_mem_append.mpr ⟨fun own member => ?_,
    List.forall_mem_singleton.mpr ?_⟩⟩
  · cases before : out.getLast? with
    | none =>
      obtain rfl := List.getLast?_eq_none_iff.mp before
      exact (filled.run.more row).concat (fun prev found => nomatch found) ordered new
    | some prev =>
      obtain ⟨own, found, stops⟩ := filled.stop_mem before
      have smaller := behind own found
      have run := filled.run.more row
      simp only [addRow, before]
      split_ifs with gap
      · refine (run.concat (fun other same => ?_) (Nat.le_sub_one_of_lt gap)
        (.inl ⟨rfl, rfl, rfl⟩)).concat
          (fun other same => ?_) ordered new
        · rw [before] at same
          rw [Option.some.inj same]
        · rw [List.getLast?_concat] at same
          obtain rfl := Option.some.inj same
          change row.start - 1 + 1 = row.start
          omega
      · rw [List.append_nil]
        refine run.concat (fun other same => ?_) ordered new
        rw [before] at same
        obtain rfl := Option.some.inj same
        change prev.stop + 1 = row.start
        omega
  · rw [addRow, List.getLast?_concat, List.getLast?_concat]
    rfl
  · exact List.mem_append_left _ (List.mem_append_left _ (filled.kept own member))
  · exact List.mem_append_right _ List.mem_cons_self

theorem fills_foldl {rows : List Row} (ordered : ∀ row ∈ rows, row.start ≤ row.stop)
    (ascending : rows.Pairwise fun row later => row.stop < later.start) :
    Fills rows (rows.foldl addRow []) := by
  induction rows using List.reverseRecOn with
  | nil => exact ⟨⟨.nil, List.forall_mem_nil _, List.forall_mem_nil _⟩, rfl, List.forall_mem_nil _⟩
  | append_singleton rows row ih =>
    obtain ⟨before, -, across⟩ := List.pairwise_append.mp ascending
    rw [List.foldl_append]
    refine fills_addRow (ih (fun own member => ordered own (List.mem_append_left _ member)) before)
      (ordered row (List.mem_append_right _ List.mem_cons_self)) fun last found => ?_
    exact across last (List.mem_of_getLast? found) row List.mem_cons_self

/-- The stored rows of a family, from the first row's start to the family's last block. -/
structure Covers (family : Family) (rows : List Row) (out : List StoredRow) : Prop where
  run : Run rows out
  last : ∀ row ∈ out.getLast?, row.stop = 2 ^ family.blockBits - 1
  kept : ∀ row ∈ rows, row.stored ∈ out

/-- **The stored rows have no gaps.** -/
theorem covers_fillGaps {family : Family} (table : Rows family) :
    Covers family table.rows (fillGaps family table.rows) := by
  have filled := fills_foldl (fun row member => (table.valid row member).ordered) table.ascending
  rw [fillGaps]
  cases last : (table.rows.foldl addRow []).getLast? with
  | none => exact ⟨filled.run, fun row found => (nomatch last.symm.trans found), filled.kept⟩
  | some prev =>
    have inside : prev.stop ≤ 2 ^ family.blockBits - 1 := by
      obtain ⟨own, found, stops⟩ := filled.stop_mem last
      have := (table.valid own (List.mem_of_getLast? found)).within
      omega
    dsimp only
    split_ifs with short
    · refine ⟨filled.run.concat (fun other same => ?_) short (.inl ⟨rfl, rfl, rfl⟩),
        fun row found => ?_, fun row member => ?_⟩
      · rw [last] at same
        rw [Option.some.inj same]
      · rw [List.getLast?_concat] at found
        exact congrArg StoredRow.stop (Option.some.inj found).symm
      · exact List.mem_append_left _ (filled.kept row member)
    · refine ⟨filled.run, fun row found => ?_, filled.kept⟩
      rw [last] at found
      obtain rfl := Option.some.inj found
      omega

/-! ## The row of a block -/

theorem find?_eq_some_of_unique {α : Type} {p : α → Bool} {items : List α} {item : α}
    (member : item ∈ items) (holds : p item = true) (unique : ∀ other ∈ items, p other = true →
    other = item) :
    items.find? p = some item := by
  cases found : items.find? p with
  | none => exact absurd holds (List.find?_eq_none.mp found item member)
  | some other => rw [unique other (List.mem_of_find?_eq_some found) (List.find?_some found)]

theorem row_unique {rows : List Row}
    (ascending : rows.Pairwise fun row later => row.stop < later.start) {block : Nat}
    {row other : Row} (rowIn : row ∈ rows) (otherIn : other ∈ rows) (has : row.has block = true)
    (otherHas : other.has block = true) : other = row := by
  simp only [Row.has, Bool.and_eq_true, decide_eq_true_eq] at has otherHas
  obtain ⟨i, inside, rfl⟩ := List.getElem_of_mem rowIn
  obtain ⟨j, within, rfl⟩ := List.getElem_of_mem otherIn
  obtain smaller | same | larger := Nat.lt_trichotomy i j
  · have := List.pairwise_iff_getElem.mp ascending i j inside within smaller
    omega
  · subst same
    rfl
  · have := List.pairwise_iff_getElem.mp ascending j i within inside larger
    omega

theorem Run.stop_lt {rows : List Row} {out : List StoredRow} (run : Run rows out) {i j : Nat}
    (order : i < j) (inside : j < out.length) : out[i].stop < out[j].start := by
  induction j, order using Nat.le_induction with
  | base =>
    exact Nat.le_of_eq (List.isChain_iff_getElem.mp run.chain i inside)
  | succ j order ih =>
    have next := List.isChain_iff_getElem.mp run.chain j inside
    have ordered := run.ordered out[j] (List.getElem_mem _)
    have := ih (by omega)
    omega

theorem Run.start_le {rows : List Row} {out : List StoredRow} (run : Run rows out) {i j : Nat}
    (order : i ≤ j) (inside : j < out.length) : out[i].start ≤ out[j].start := by
  obtain same | smaller := Nat.eq_or_lt_of_le order
  · subst same
    exact Nat.le_refl _
  · have := run.stop_lt smaller inside
    have := run.ordered out[i] (List.getElem_mem _)
    omega

/-- The place of a stored row, if it is no gap. -/
def StoredRow.own (rows : List Row) (stored : StoredRow) (found : Option Row) : Prop :=
  (stored.IsGap ∧ found = none) ∨ ∃ row ∈ rows, stored = row.stored ∧ found = some row

section
variable {family : Family} {rows : List Row} {out : List StoredRow}
  (covers : Covers family rows out) (ascending : rows.Pairwise fun row later =>
  row.stop < later.start) {block : Nat}
include covers

/-- **Before the first stored row there is no row.** -/
theorem Covers.find?_none (before : ∀ i (inside : i < out.length), block < out[i].start) :
    rows.find? (Row.has block) = none := by
  refine List.find?_eq_none.mpr fun row member has => ?_
  simp only [Row.has, Bool.and_eq_true, decide_eq_true_eq] at has
  obtain ⟨i, inside, same⟩ := List.getElem_of_mem (covers.kept row member)
  have := before i inside
  rw [same] at this
  exact Nat.not_lt.mpr has.1 this

include ascending

/-- **The last stored row that starts at a block or before is the table's row for it**, or a
gap where the table has none. -/
theorem Covers.find?_eq (within : block < 2 ^ family.blockBits) {i : Nat} (inside : i < out.length)
    (starts : out[i].start ≤ block) (behind : ∀ j (inside : j < out.length), i < j →
    block < out[j].start) :
    out[i].own rows (rows.find? (Row.has block)) := by
  have stops : block ≤ out[i].stop := by
    by_cases final : i + 1 < out.length
    · have next := List.isChain_iff_getElem.mp covers.run.chain i final
      have := behind (i + 1) final (Nat.lt_succ_self i)
      omega
    · have last : out.getLast? = some out[i] := by
        rw [List.getLast?_eq_getElem?, show out.length - 1 = i by omega,
          List.getElem?_eq_getElem inside]
      have := covers.last out[i] last
      omega
  obtain gap | ⟨row, member, same⟩ := covers.run.honest out[i] (List.getElem_mem inside)
  · refine .inl ⟨gap, List.find?_eq_none.mpr fun row member has => ?_⟩
    simp only [Row.has, Bool.and_eq_true, decide_eq_true_eq] at has
    obtain ⟨j, within, same⟩ := List.getElem_of_mem (covers.kept row member)
    have jStart : out[j].start = row.start := congrArg StoredRow.start same
    have jStop : out[j].stop = row.stop := congrArg StoredRow.stop same
    obtain smaller | equal | larger := Nat.lt_trichotomy i j
    · have := behind j within smaller
      omega
    · subst equal
      rw [same] at gap
      cases gap.1
    · have := covers.run.stop_lt larger inside
      omega
  · have has : row.has block = true := by
      simp only [Row.has, Bool.and_eq_true, decide_eq_true_eq]
      rw [same] at starts stops
      exact ⟨starts, stops⟩
    exact .inr ⟨row, member, same, find?_eq_some_of_unique member has fun other otherIn otherHas =>
      row_unique ascending member otherIn has otherHas⟩

end

/-! ## The search -/

/-- A start as the search compares it: an address, or the number of a block. -/
def startKey (family : Family) (start : Nat) : Nat :=
  match family with
  | .v4 => start * 2 ^ family.shift
  | .v6 => start

/-- The arrays of a family's stored rows. -/
def readColumns (family : Family) (out : List StoredRow) : CityColumns where
  starts := out.map fun row => .finite (startKey family row.start)
  countries := out.map fun row => countryCode row.country % 2 ^ 16
  lats := out.map fun row => row.lat.getD 0
  lons := out.map fun row => row.lon.getD 0

theorem startsBy_eq (family : Family) {out : List StoredRow} (key : Nat) {i : Nat}
    (inside : i < out.length) :
    startsBy (readColumns family out).starts key i = decide
    (startKey family out[i].start ≤ key) := by
  rw [startsBy, Int.toNat_natCast, readColumns, List.getElem?_map, List.getElem?_eq_getElem inside,
    Option.map_some, Option.any_some, Double.atMost]
  exact decide_eq_decide.mpr Nat.cast_le

theorem startKey_mono (family : Family) {start later : Nat} (order : start ≤ later) :
    startKey family start ≤ startKey family later := by
  cases family with
  | v4 => exact Nat.mul_le_mul_right _ order
  | v6 => exact order

section
variable {family : Family} {rows : List Row} {out : List StoredRow} (run : Run rows out)
include run

/-- **The search ends with the last row that starts at the key or before**, as long as the sum
of two indices fits 32 bits. -/
theorem floorIndex_eq (few : out.length ≤ 2 ^ 31) (key : Nat) :
    ∃ place, floorIndex (out.length + 1) (readColumns family out).starts key = some place ∧
      IsFloor (startsBy (readColumns family out).starts key) (out.length - 1) place := by
  have length : (readColumns family out).starts.length = out.length := List.length_map _
  rw [floorIndex, length]
  refine floorSearch_eq (fun lo hi start order inside => by omega)
    (fun i j start order inside held => ?_) (by omega) (by omega)
  lift i to Nat using start
  lift j to Nat using (by omega)
  rw [startsBy_eq family key (show i < out.length by omega)]
  rw [startsBy_eq family key (show j < out.length by omega)] at held
  refine decide_eq_true (Nat.le_trans (startKey_mono family ?_) (of_decide_eq_true held))
  exact run.start_le (by omega) (by omega)

end

/-- **With more rows the search does not end**, for a key that no start is above. -/
theorem floorIndex_never {family : Family} {out : List StoredRow} (many : 2 ^ 31 < out.length)
    {key : Nat} (above : ∀ row ∈ out, startKey family row.start ≤ key) (rounds : Nat) :
    floorIndex rounds (readColumns family out).starts key = none := by
  have length : (readColumns family out).starts.length = out.length := List.length_map _
  rw [floorIndex, length]
  refine floorSearch_never (fun lo => by omega) (fun lo => ?_) rounds (by omega) _
  have middle : 0 ≤ (lo + ((out.length : Int) - 1)) % 2 ^ 32 / 2 ∧
      (lo + ((out.length : Int) - 1)) % 2 ^ 32 / 2 < out.length := by omega
  generalize (lo + ((out.length : Int) - 1)) % 2 ^ 32 / 2 = i at middle
  lift i to Nat using middle.1
  rw [startsBy_eq family key (show i < out.length by omega)]
  exact decide_eq_true (above _ (List.getElem_mem _))

/-! ## The place of an address -/

/-- The place of a row. -/
def Row.place (row : Row) : Place := ⟨row.country, degrees row.lat, degrees row.lon⟩

/-- The block of an address. -/
def blockOf (parsed : ParsedIp) : Nat := parsed.value >>> (familyOf parsed).shift

/-- What a lookup is for: the place of the row whose blocks have the address. -/
def placeOf (table : Table) (ip : Text) : Option Place := do
  let parsed ← parseIp ip { zoneId := false }
  let row ← (table.of (familyOf parsed)).rows.find? (Row.has (blockOf parsed))
  some row.place

/-- The key an address is looked up with. -/
def lookupKey (parsed : ParsedIp) : Nat :=
  match familyOf parsed with
  | .v4 => parsed.value
  | .v6 => parsed.value >>> (128 - Family.v6.blockBits)

theorem startKey_le_iff (parsed : ParsedIp) (start : Nat) :
    startKey (familyOf parsed) start ≤ lookupKey parsed ↔ start ≤ blockOf parsed := by
  rw [lookupKey, blockOf]
  cases familyOf parsed with
  | v4 =>
    rw [Nat.shiftRight_eq_div_pow parsed.value Family.v4.shift]
    exact (Nat.le_div_iff_mul_le (Nat.two_pow_pos _)).symm
  | v6 => exact Iff.rfl

theorem countryCode_letters {first second : Char} (upper : first.isUpper = true)
    (also : second.isUpper = true) :
    let code := countryCode (some [first, second]) % 2 ^ 16
    code ≠ 0 ∧ [Char.ofNat (code >>> 8), Char.ofNat (code &&& 0xff)] = [first, second] := by
  have one := Text.isUpper_iff_toNat.mp upper
  have two := Text.isUpper_iff_toNat.mp also
  have code : countryCode (some [first, second]) % 2 ^ 16 = first.toNat * 2 ^ 8 + second.toNat := by
    rw [countryCode, ← Nat.shiftLeft_add_eq_or_of_lt (show second.toNat < 2 ^ 8 by omega),
      Nat.shiftLeft_eq]
    omega
  have high : (first.toNat * 2 ^ 8 + second.toNat) >>> 8 = first.toNat := by
    rw [Nat.shiftRight_eq_div_pow]
    omega
  have low : (first.toNat * 2 ^ 8 + second.toNat) &&& 0xff = second.toNat := by
    rw [show 0xff = 2 ^ 8 - 1 from rfl, Nat.and_two_pow_sub_one_eq_mod]
    omega
  intro code'
  rw [show code' = _ from code]
  refine ⟨by omega, ?_⟩
  rw [high, low, Char.ofNat_toNat, Char.ofNat_toNat]

theorem blockOf_lt {ip : Text} {parsed : ParsedIp}
    (read : parseIp ip { zoneId := false } = some parsed) :
    blockOf parsed < 2 ^ (familyOf parsed).blockBits := by
  rw [blockOf, Nat.shiftRight_eq_div_pow]
  obtain ⟨four, small⟩ | ⟨six, small, -⟩ := parseIp_bounds (parseIp_of_zoneless read)
  · rw [familyOf, if_pos four]
    exact Nat.div_lt_of_lt_mul small
  · rw [familyOf, if_neg (six ▸ by decide)]
    exact Nat.div_lt_of_lt_mul small

theorem Covers.start_lt {family : Family} {rows : List Row} {out : List StoredRow}
    (covers : Covers family rows out) {row : StoredRow} (member : row ∈ out) :
    row.start < 2 ^ family.blockBits := by
  obtain ⟨i, inside, rfl⟩ := List.getElem_of_mem member
  have final : out.length - 1 < out.length := by omega
  have last := covers.last out[out.length - 1]
    (List.getLast?_eq_getElem?.trans (List.getElem?_eq_getElem final))
  have ordered := covers.run.ordered out[out.length - 1] (List.getElem_mem _)
  have := covers.run.start_le (show i ≤ out.length - 1 by omega) final
  have := Nat.two_pow_pos family.blockBits
  omega

theorem Covers.length_le {family : Family} {rows : List Row} {out : List StoredRow}
    (covers : Covers family rows out) :
    out.length ≤ 2 ^ family.blockBits := by
  have index (i : Nat) (inside : i < out.length) : i ≤ out[i].start := by
    induction i with
    | zero => exact Nat.zero_le _
    | succ i ih =>
      have next := covers.run.stop_lt (Nat.lt_add_one i) inside
      have ordered := covers.run.ordered out[i] (List.getElem_mem _)
      have := ih (by omega)
      omega
  by_cases empty : out.length = 0
  · rw [empty]
    exact Nat.zero_le _
  · have inside : out.length - 1 < out.length := by omega
    have := covers.start_lt (List.getElem_mem inside)
    have := index (out.length - 1) inside
    omega

/-- What a lookup makes of the place the search has found. -/
def placeAt (columns : CityColumns) (floor : Int) : Option Place :=
  if floor < 0 ∨ columns.countries.getD floor.toNat 0 = 0 then none
  else
    some
      { country :=
          [Char.ofNat (columns.countries.getD floor.toNat 0 >>> 8),
            Char.ofNat (columns.countries.getD floor.toNat 0 &&& 0xff)]
        lat := degrees (columns.lats.getD floor.toNat 0)
        lon := degrees (columns.lons.getD floor.toNat 0) }

theorem placeAt_own {family : Family} {rows : List Row} (valid : ∀ row ∈ rows, row.Valid family)
    {out : List StoredRow} {i : Nat} (inside : i < out.length) {found : Option Row}
    (own : out[i].own rows found) :
    placeAt (readColumns family out) i = found.map Row.place := by
  have countries : (readColumns family out).countries.getD i 0 = countryCode out[i].country %
      2 ^ 16 := by
    rw [readColumns, List.getD_eq_getElem _ _ (by rwa [List.length_map]), List.getElem_map]
  have lats : (readColumns family out).lats.getD i 0 = out[i].lat.getD 0 := by
    rw [readColumns, List.getD_eq_getElem _ _ (by rwa [List.length_map]), List.getElem_map]
  have lons : (readColumns family out).lons.getD i 0 = out[i].lon.getD 0 := by
    rw [readColumns, List.getD_eq_getElem _ _ (by rwa [List.length_map]), List.getElem_map]
  rw [placeAt, Int.toNat_natCast, countries, lats, lons]
  obtain ⟨gap, rfl⟩ | ⟨row, member, same, rfl⟩ := own
  · rw [gap.1, if_pos (.inr rfl), Option.map_none]
  · obtain ⟨first, second, letters, upper, also⟩ := (valid row member).letters
    obtain ⟨some, text⟩ := countryCode_letters upper also
    rw [same]
    simp only [Row.stored, letters, Option.getD_some, Option.map_some, Row.place]
    rw [if_neg (not_or.mpr ⟨by omega, some⟩), text]

theorem Covers.placeAt_floor {parsed : ParsedIp} {table : Rows (familyOf parsed)}
    {out : List StoredRow} (covers : Covers (familyOf parsed) table.rows out)
    (within : blockOf parsed < 2 ^ (familyOf parsed).blockBits) {floor : Int}
    (isFloor : IsFloor (startsBy (readColumns (familyOf parsed) out).starts (lookupKey parsed))
      (out.length - 1) floor) :
    placeAt (readColumns (familyOf parsed) out) floor =
      (table.rows.find? (Row.has (blockOf parsed))).map Row.place := by
  obtain ⟨low, high, before, behind⟩ := isFloor
  have above {j : Nat} (inside : j < out.length) (later : floor < j) :
      blockOf parsed < out[j].start := by
    have fails := behind j later (by omega)
    rw [startsBy_eq _ _ inside] at fails
    have := of_decide_eq_false fails
    rw [startKey_le_iff] at this
    omega
  obtain rfl | ⟨i, rfl⟩ : floor = -1 ∨ ∃ i : Nat, floor = i := by
    by_cases negative : floor < 0
    · exact .inl (by omega)
    · exact .inr ⟨floor.toNat, by omega⟩
  · rw [covers.find?_none fun j inside => above inside (by omega)]
    rfl
  · have inside : i < out.length := by omega
    have held := before i (by omega) (le_refl _)
    rw [startsBy_eq _ _ inside] at held
    exact placeAt_own table.valid inside (covers.find?_eq table.ascending within inside
      ((startKey_le_iff parsed _).mp (of_decide_eq_true held)) fun j later order =>
      above later (by omega))

theorem cityPlaceIn_of_parseIp {ip : Text} {parsed : ParsedIp}
    (parsedAs : parseIp ip { zoneId := false } = some parsed)
    (rounds : Nat) (read : CityTable) :
    cityPlaceIn rounds read ip =
      (floorIndex rounds (read.families (familyOf parsed)).starts (lookupKey parsed)).map
        (placeAt (read.families (familyOf parsed))) := by
  simp only [cityPlaceIn, parsedAs]
  rfl

/-- **A lookup gives the place of the row that has the address**, when the arrays are those of
the stored rows and a search among them ends. -/
theorem cityPlaceIn_eq {table : Table} {read : CityTable}
    (columns : ∀ family, read.families family = readColumns family
    (fillGaps family (table.of family).rows)) (few : ∀ family,
    (fillGaps family (table.of family).rows).length ≤ 2 ^ 31) (ip : Text) :
    ∃ rounds, cityPlaceIn rounds read ip = some (placeOf table ip) := by
  cases parsedAs : parseIp ip { zoneId := false } with
  | none => exact ⟨0, by simp only [cityPlaceIn, placeOf, parsedAs, Option.bind_eq_bind,
      Option.bind_none]⟩
  | some parsed =>
    have place : placeOf table ip =
        ((table.of (familyOf parsed)).rows.find? (Row.has (blockOf parsed))).map Row.place := by
      simp only [placeOf, parsedAs, Option.bind_eq_bind, Option.bind_some]
      cases (table.of (familyOf parsed)).rows.find? (Row.has (blockOf parsed)) <;> rfl
    have covers := covers_fillGaps (table.of (familyOf parsed))
    obtain ⟨floor, found, isFloor⟩ := floorIndex_eq covers.run (few (familyOf parsed))
      (lookupKey parsed)
    refine ⟨(fillGaps (familyOf parsed) (table.of (familyOf parsed)).rows).length + 1, ?_⟩
    rw [cityPlaceIn_of_parseIp parsedAs, columns, found, Option.map_some, place,
      covers.placeAt_floor (blockOf_lt parsedAs) isFloor]

end GeoCities

end Cidrella
