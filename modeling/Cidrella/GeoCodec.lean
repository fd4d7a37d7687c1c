import Cidrella.GeoHeader

/-!
# The city table's file

What is encoded is decoded when the header of the second pass ends before its sections start
(`decode_file`). When it does not, the sections are written over its end: the header's text is
cut short or has a zero byte in it, and the decoder throws (`decode_overwritten`). A search
among more than `2 ^ 31` stored rows does not end. There is no other failure
(`preserves_iff`).
-/

set_option autoImplicit false

namespace Cidrella

namespace GeoCities

open Address Layout TypedArrays

/-! ## Numbers in the header -/

theorem isNumber_natural (n : Nat) : isNumber n (some (natural n)) = true := by
  rw [natural, isNumber, Json.value_decimal]
  exact decide_eq_true rfl

theorem toIndex_natural (n : Nat) : toIndex (natural n) = some n := by
  rw [natural, toIndex, Json.value_decimal, if_pos (Nat.cast_nonneg n),
    show (n : ℚ) = ((n : Int) : ℚ) from rfl, Rat.floor_intCast, Int.toNat_natCast]

section
variable {table : Table} {facts : List (Text × Json)} (foreign : Foreign facts)

theorem find?_settledHeader (name : Text) : Json.find? name (settledHeader table facts) =
    (Json.find? name (offsetMembers (sizes table) (secondPass table facts))).or
      (Json.find? name (bareHeader table facts)) := Json.find?_append _ _ _

theorem find?_settledHeader_bare {name : Text} (notOffsets : Field.offsets.name ≠ name)
    (notLength : Field.length.name ≠ name) :
    Json.find? name (settledHeader table facts) = Json.find? name (bareHeader table facts) := by
  rw [find?_settledHeader, offsetMembers, Json.find?, Json.find?, Json.find?, if_neg notOffsets,
    if_neg notLength]
  rfl

theorem offsets_settledHeader : Json.find? Field.offsets.name (settledHeader table facts) =
    some (.array ((offsetsFrom align8 (secondPass table facts) (sizes table)).map natural)) := by
  have other : Field.length.name ≠ Field.offsets.name := Field.name_injective.ne (by decide)
  rw [find?_settledHeader, offsetMembers, Json.find?, Json.find?, Json.find?, if_pos rfl,
    if_neg other]
  rfl

theorem length_settledHeader : Json.find? Field.length.name (settledHeader table facts) =
    some (natural (fileLength table facts)) := by
  rw [find?_settledHeader, offsetMembers, Json.find?, Json.find?, Json.find?, if_pos rfl]
  rfl

theorem families_settledHeader : Json.find? Field.families.name (settledHeader table facts) =
    some (.object
      [(Family.v4.name, familyHeader .v4 (toColumns .v4 (table.of .v4).rows).starts.numbers.length),
        (Family.v6.name,
        familyHeader .v6 (toColumns .v6 (table.of .v6).rows).starts.numbers.length)]) := by
  rw [find?_settledHeader_bare (Field.name_injective.ne (by decide))
    (Field.name_injective.ne (by decide)), families_bareHeader]

include foreign

theorem format_settledHeader : Json.find? Field.format.name (settledHeader table facts) =
    some (natural 1) := by
  rw [find?_settledHeader_bare (Field.name_injective.ne (by decide))
    (Field.name_injective.ne (by decide)), format_bareHeader foreign]

theorem fact_settledHeader {name : Text} {value : Json}
    (fact : Json.find? name facts = some value) :
    Json.find? name (settledHeader table facts) = some value := by
  have own (field : Field) : field.name ≠ name := by
    rintro rfl
    rw [Json.find?_eq_none (foreign field)] at fact
    cases fact
  rw [find?_settledHeader_bare (own .offsets) (own .length), find?_bareHeader foreign fact]

end

/-! ## The file -/

/-- The file of a table. -/
def file (table : Table) (facts : List (Text × Json)) : Bytes :=
  copyAll (List.replicate (fileLength table facts) 0) (headerParts table facts ++
    sectionParts table facts)

/-- The file before its sections are written. -/
def unfilled (table : Table) (facts : List (Text × Json)) : Bytes :=
  copyAll (List.replicate (fileLength table facts) 0) (headerParts table facts)

theorem file_eq (table : Table) (facts : List (Text × Json)) :
    file table facts = copyAll (unfilled table facts) (sectionParts table facts) :=
    List.foldl_append

theorem length_magic : (magic.map fun c => UInt8.ofNat c.toNat).length = 8 := by
  decide

theorem length_settledHeader_bytes (table : Table) (facts : List (Text × Json)) :
    (headerBytes (settledHeader table facts)).length = headerLength table facts
    (secondPass table facts) :=
  length_headerBytes _ _ _

theorem sizes_eq (table : Table) : sizes table = ((sections table).map TypedArray.bytes).map
    List.length := by
  rw [sizes, List.map_map]
  refine List.map_congr_left fun a _ => ?_
  exact (length_flatMap_bytesLE a.size a.numbers).symm

section
variable (table : Table) (facts : List (Text × Json))

theorem length_file : (file table facts).length = fileLength table facts := by
  rw [file, length_copyAll, List.length_replicate]

theorem length_unfilled : (unfilled table facts).length = fileLength table facts := by
  rw [unfilled, length_copyAll, List.length_replicate]

theorem placed_sections : ∀ part ∈ sectionParts table facts,
    secondPass table facts ≤ part.1 ∧ part.1 + part.2.length ≤ fileLength table facts := by
  rw [sectionParts, fileLength, sizes_eq]
  exact placed le_align8 _ _

theorem apart_sections : Apart (sectionParts table facts) := by
  rw [sectionParts, sizes_eq]
  exact apart_placed le_align8 _ _

theorem apart_header : Apart (headerParts table facts) := by
  refine .cons ?_ (.cons ?_ (.cons (List.forall_mem_nil _) .nil))
  · refine List.forall_mem_cons.mpr ⟨?_, List.forall_mem_singleton.mpr ?_⟩
    · rw [length_magic]
    · rw [length_magic]
      exact Nat.le_add_right 8 4
  · refine List.forall_mem_singleton.mpr ?_
    rw [length_bytesLE]

theorem slice_file_header {part : Nat × Bytes} (member : part ∈ headerParts table facts)
    (inside : part.1 + part.2.length ≤ secondPass table facts) :
    slice (file table facts) part.1 part.2.length = part.2 := by
  have long := le_fileLength table facts
  rw [file_eq, slice_copyAll_outside]
  · refine slice_copyAll (apart_header table facts) member ?_
    rw [List.length_replicate]
    omega
  · intro other found
    have := (placed_sections table facts other found).1
    omega

theorem magic_file : asciiText (slice (file table facts) 0 8) = magic := by
  have start := lt_secondPass table facts
  have inside : 0 + (magic.map fun c => UInt8.ofNat c.toNat).length ≤ secondPass table facts := by
    rw [length_magic]
    omega
  have found := slice_file_header table facts List.mem_cons_self inside
  dsimp only at found
  rw [length_magic] at found
  rw [found]
  decide

variable {table facts}

theorem headerLength_file (small : headerLength table facts (secondPass table facts) < 2 ^ 32) :
    readUInt32LE (file table facts) 8 =
    some (headerLength table facts (secondPass table facts)) := by
  have long := le_fileLength table facts
  have start := lt_secondPass table facts
  have inside : 8 + (bytesLE 4 (headerLength table facts (secondPass table facts))).length ≤
      secondPass table facts := by
    rw [length_bytesLE]
    omega
  have found := slice_file_header table facts (List.mem_cons_of_mem _ List.mem_cons_self) inside
  dsimp only at found
  rw [length_bytesLE] at found
  rw [readUInt32LE, length_file, if_pos (by omega), found, numberLE_bytesLE,
    Nat.mod_eq_of_lt (show headerLength table facts (secondPass table facts) < 256 ^ 4 from small)]

theorem header_file (fits : 12 + headerLength table facts (secondPass table facts) ≤ secondPass
    table facts) :
    Json.parse (Utf8.decode
      (slice (file table facts) 12 (headerLength table facts (secondPass table facts)))) =
      some (.object (settledHeader table facts)) := by
  have length := length_settledHeader_bytes table facts
  have inside : 12 + (headerBytes (settledHeader table facts)).length ≤ secondPass table facts := by
    rw [length]
    exact fits
  have found := slice_file_header table facts
    (List.mem_cons_of_mem _ (List.mem_cons_of_mem _ List.mem_cons_self)) inside
  dsimp only at found
  rw [length] at found
  rw [found, headerBytes, Utf8.decode_encode, Json.parse_stringify]

/-- A section is viewed as it was written, up to the width of its numbers. -/
theorem view_section {k : Nat} {a : TypedArray} (found : (sections table)[k]? = some a)
    (divides : a.size ∣ 8) :
    ∃ offset, ((Json.get? Field.offsets.name (.object (settledHeader table facts))).bind
        (item? k)).bind toIndex = some offset ∧
      view a.size (file table facts) offset a.numbers.length =
      some (a.numbers.map (· % 256 ^ a.size)) := by
  have same : (offsetsFrom align8 (secondPass table facts) (sizes table)).length =
      (sections table).length := by
    rw [length_offsetsFrom, sizes, List.length_map]
  obtain ⟨inside, at_⟩ := List.getElem?_eq_some_iff.mp found
  have within : k < (offsetsFrom align8 (secondPass table facts) (sizes table)).length := by omega
  generalize offset_eq : (offsetsFrom align8 (secondPass table facts) (sizes table))[k] = offset
  have aligned : 8 ∣ offset := by
    rw [← offset_eq]
    refine forall_mem_offsetsFrom ?_ (fun n => ?_) _ _ (List.getElem_mem _)
    · exact Nat.dvd_mul_left 8 _
    · exact Nat.dvd_mul_left 8 _
  have member : (offset, a.bytes) ∈ sectionParts table facts := by
    refine List.mem_of_getElem? (i := k) ?_
    rw [sectionParts, List.getElem?_zip_eq_some]
    exact ⟨offset_eq ▸ List.getElem?_eq_getElem within, by rw [List.getElem?_map, found,
      Option.map_some]⟩
  have length : a.bytes.length = a.size * a.numbers.length := length_flatMap_bytesLE _ _
  have bounds := (placed_sections table facts _ member).2
  have slice := slice_copyAll (apart_sections table facts) member
    (show offset + a.bytes.length ≤ (unfilled table facts).length by rwa [length_unfilled])
  rw [← file_eq] at slice
  dsimp only at slice bounds
  rw [length] at slice bounds
  refine ⟨offset, ?_, ?_⟩
  · rw [Json.get?, offsets_settledHeader, Option.bind_some, item?, List.getElem?_map,
      List.getElem?_eq_getElem within,
      offset_eq, Option.map_some, Option.bind_some, toIndex_natural]
  · rw [view, length_file, if_pos ⟨Nat.mod_eq_zero_of_dvd (divides.trans aligned), bounds⟩, slice,
      TypedArray.bytes, elements_flatMap]

end

/-! ## Columns -/

theorem startSize_dvd (family : Family) : startSize family ∣ 8 := by
  cases family <;> decide

section
variable {family : Family} (table : Rows family)

theorem starts_toColumns :
    ((toColumns family table.rows).starts.numbers.map (· % 256 ^ startSize family)).map
      (startOf family) = (readColumns family (fillGaps family table.rows)).starts := by
  rw [toColumns, readColumns, List.map_map, List.map_map]
  refine List.map_congr_left fun row member => ?_
  have small := (covers_fillGaps table).start_lt member
  simp only [Function.comp_apply]
  cases family with
  | v4 =>
    have scaled : row.start * 2 ^ Family.v4.shift < 2 ^ 32 := by
      change row.start < 2 ^ 22 at small
      change row.start * 2 ^ 10 < 2 ^ 32
      omega
    have bits : startBits .v4 row.start % 256 ^ startSize .v4 = row.start *
        2 ^ Family.v4.shift := by
      rw [startBits, Nat.mod_eq_of_lt scaled]
      exact Nat.mod_eq_of_lt scaled
    rw [bits]
    rfl
  | v6 =>
    have exact_ : row.start < 2 ^ 53 := Nat.lt_trans small (by decide)
    have wide : bitsOfNat row.start < 256 ^ startSize .v6 := bitsOfNat_lt exact_
    rw [startBits, Nat.mod_eq_of_lt wide]
    exact ofBits_bitsOfNat exact_

theorem countries_toColumns :
    (toColumns family table.rows).countries.numbers.map (· % 256 ^ 2) =
      (readColumns family (fillGaps family table.rows)).countries := by
  rw [toColumns, readColumns, List.map_map]
  exact List.map_congr_left fun row _ => Nat.mod_mod _ _

theorem toInt16_stored {degrees : Int} (inside : -2 ^ 15 ≤ degrees ∧ degrees < 2 ^ 15) :
    toInt16 (ofInt16 degrees % 256 ^ 2) = degrees := by
  rw [Nat.mod_eq_of_lt (show ofInt16 degrees < 256 ^ 2 from ofInt16_lt degrees),
    toInt16_ofInt16 inside]

theorem lats_toColumns :
    ((toColumns family table.rows).lats.numbers.map (· % 256 ^ 2)).map toInt16 =
      (readColumns family (fillGaps family table.rows)).lats := by
  rw [toColumns, readColumns, List.map_map, List.map_map]
  refine List.map_congr_left fun row member => toInt16_stored ?_
  obtain gap | ⟨own, inside, rfl⟩ := (covers_fillGaps table).run.honest row member
  · rw [gap.2.1]
    decide
  · exact (table.valid own inside).latitude

theorem lons_toColumns :
    ((toColumns family table.rows).lons.numbers.map (· % 256 ^ 2)).map toInt16 =
      (readColumns family (fillGaps family table.rows)).lons := by
  rw [toColumns, readColumns, List.map_map, List.map_map]
  refine List.map_congr_left fun row member => toInt16_stored ?_
  obtain gap | ⟨own, inside, rfl⟩ := (covers_fillGaps table).run.honest row member
  · rw [gap.2.2]
    decide
  · exact (table.valid own inside).longitude

end

/-! ## What is encoded is decoded -/

/-- A family's arrays as they are read. -/
def familyColumns (table : Table) (family : Family) : CityColumns :=
  readColumns family (fillGaps family (table.of family).rows)

theorem rows_settledHeader (table : Table) (facts : List (Text × Json)) (family : Family) :
    ((((Json.get? Field.families.name (.object (settledHeader table facts))).bind
      (Json.get? family.name)).bind (Json.get? "rows".toList)).bind toIndex) =
      some (fillGaps family (table.of family).rows).length := by
  have stored : (toColumns family (table.of family).rows).starts.numbers.length =
      (fillGaps family (table.of family).rows).length := List.length_map _
  have member : Json.find? "rows".toList
      [("rows".toList, natural (fillGaps family (table.of family).rows).length),
        ("blockBits".toList, natural family.blockBits),
        ("sections".toList, .array [.string "starts".toList, .string "countries".toList, .string
          "lats".toList, .string "lons".toList])] =
          some (natural (fillGaps family (table.of family).rows).length) := by
    rw [Json.find?, if_pos rfl,
      Json.find?_eq_none (show "rows".toList ∉ ["blockBits".toList, "sections".toList] by decide),
      Option.none_or]
  rw [Json.get?, families_settledHeader, Option.bind_some, Json.get?]
  cases family with
  | v4 =>
    rw [Json.find?, if_pos rfl,
      Json.find?_eq_none (show Family.v4.name ∉ [Family.v6.name] by decide), Option.none_or,
      Option.bind_some, familyHeader, Json.get?, stored, member, Option.bind_some, toIndex_natural]
  | v6 =>
    rw [Json.find?, Json.find?, if_pos rfl, Json.find?, Option.none_or, Option.some_or,
      Option.bind_some, familyHeader, Json.get?, stored, member, Option.bind_some, toIndex_natural]

section
variable {table : Table} {facts : List (Text × Json)}

/-- The first of a family's four sections. -/
def firstSection : Family → Nat
  | .v4 => 0
  | .v6 => 4

theorem sections_getElem? (table : Table) (family : Family) {i : Nat} {a : TypedArray}
    (found : (toColumns family (table.of family).rows).sections[i]? = some a) :
    (sections table)[firstSection family + i]? = some a := by
  have inside : i < 4 := (List.getElem?_eq_some_iff.mp found).1
  cases family with
  | v4 => rw [sections, firstSection, Nat.zero_add, List.getElem?_append_left inside, found]
  | v6 =>
    have behind : (toColumns .v4 (table.of .v4).rows).sections.length = 4 := rfl
    rw [sections, firstSection, List.getElem?_append_right (by omega), behind,
      Nat.add_sub_cancel_left, found]

theorem viewFamily_file (family : Family) :
    viewFamily family (file table facts) (.object (settledHeader table facts))
      (firstSection family) = some (familyColumns table family) := by
  have section_ {i : Nat} {a : TypedArray}
      (found : (toColumns family (table.of family).rows).sections[i]? = some a)
      (divides : a.size ∣ 8)
      (count : a.numbers.length = (fillGaps family (table.of family).rows).length) :
      ∃ offset, ((Json.get? Field.offsets.name (.object (settledHeader table facts))).bind
          (item? (firstSection family + i))).bind toIndex = some offset ∧
        view a.size (file table facts) offset (fillGaps family (table.of family).rows).length =
          some (a.numbers.map (· % 256 ^ a.size)) := by
    rw [← count]
    exact view_section (sections_getElem? table family found) divides
  have two : 2 ∣ 8 := by decide
  obtain ⟨starts, startsAt, startsRead⟩ := @section_ 0 _ rfl (startSize_dvd family)
    (List.length_map _)
  obtain ⟨countries, countriesAt, countriesRead⟩ := @section_ 1 _ rfl two (List.length_map _)
  obtain ⟨lats, latsAt, latsRead⟩ := @section_ 2 _ rfl two (List.length_map _)
  obtain ⟨lons, lonsAt, lonsRead⟩ := @section_ 3 _ rfl two (List.length_map _)
  change view (startSize family) _ _ _ =
    some ((toColumns family (table.of family).rows).starts.numbers.map
    (· % 256 ^ startSize family)) at startsRead
  change view 2 _ _ _ = some ((toColumns family (table.of family).rows).countries.numbers.map
    (· % 256 ^ 2)) at countriesRead
  change view 2 _ _ _ = some ((toColumns family (table.of family).rows).lats.numbers.map
    (· % 256 ^ 2)) at latsRead
  change view 2 _ _ _ = some ((toColumns family (table.of family).rows).lons.numbers.map
    (· % 256 ^ 2)) at lonsRead
  rw [viewFamily, rows_settledHeader]
  simp only [startsAt, countriesAt, latsAt, lonsAt, Option.bind_eq_bind, Option.bind_some,
    startsRead, countriesRead, latsRead, lonsRead, starts_toColumns, countries_toColumns,
    lats_toColumns, lons_toColumns]
  rfl

end

/-- The table that is read back. -/
def readBack (table : Table) (facts : List (Text × Json)) : CityTable where
  header := .object (settledHeader table facts)
  v4 := familyColumns table .v4
  v6 := familyColumns table .v6

section
variable {table : Table} {facts : List (Text × Json)} (foreign : Foreign facts)
  (small : headerLength table facts (secondPass table facts) < 2 ^ 32)
include foreign small

/-- **What is encoded is decoded** when the header ends before the sections start. -/
theorem decode_file (fits : 12 + headerLength table facts (secondPass table facts) ≤ secondPass
    table facts) :
    decodeCityTable (file table facts) = some (readBack table facts) := by
  have format : Json.get? Field.format.name (.object (settledHeader table facts)) =
      some (natural 1) :=
    format_settledHeader foreign
  have length : Json.get? Field.length.name (.object (settledHeader table facts)) =
      some (natural (file table facts).length) := by
    rw [length_file]
    exact length_settledHeader
  have v4 : viewFamily .v4 (file table facts) (.object (settledHeader table facts)) 0 =
      some (familyColumns table .v4) := viewFamily_file .v4
  have v6 : viewFamily .v6 (file table facts) (.object (settledHeader table facts)) 4 =
      some (familyColumns table .v6) := viewFamily_file .v6
  rw [decodeCityTable, if_pos (magic_file table facts), headerLength_file small]
  simp only [Option.bind_eq_bind, Option.bind_some, header_file fits, format, length,
    isNumber_natural, Bool.and_self,
    if_true, v4, v6]
  rfl

end

/-! ## Sections over the end of the header -/

theorem sizes_counts (table : Table) : sizes table =
    let four := (fillGaps .v4 (table.of .v4).rows).length
    let six := (fillGaps .v6 (table.of .v6).rows).length
    [4 * four, 2 * four, 2 * four, 2 * four, 8 * six, 2 * six, 2 * six, 2 * six] := by
  simp only [sizes, sections, Columns.sections, toColumns, TypedArray.byteLength, startSize,
    List.length_map, List.cons_append, List.nil_append, List.map_cons, List.map_nil]

theorem starts_bytes {family : Family} (table : Rows family)
    (some_ : fillGaps family table.rows ≠ []) :
    ∃ rest, (toColumns family table.rows).starts.bytes = 0 :: rest := by
  have covers := covers_fillGaps table
  obtain ⟨row, others, out⟩ := List.exists_cons_of_ne_nil some_
  have start := covers.start_lt (out ▸ List.mem_cons_self (a := row) (l := others))
  have low : startBits family row.start % 256 = 0 := by
    cases family with
    | v4 =>
      change row.start * 2 ^ 10 % 2 ^ 32 % 256 = 0
      omega
    | v6 => exact bitsOfNat_mod (Nat.lt_trans start (by decide))
  have byte : UInt8.ofNat (startBits family row.start) = 0 := by
    apply UInt8.toNat_inj.mp
    rw [UInt8.toNat_ofNat', show 2 ^ 8 = 256 from rfl, low]
    rfl
  obtain ⟨more, size⟩ : ∃ more, startSize family = more + 1 := by
    cases family
    · exact ⟨3, rfl⟩
    · exact ⟨7, rfl⟩
  have bytes : (toColumns family table.rows).starts.bytes =
      bytesLE (more + 1) (startBits family row.start) ++
        (others.map fun row => startBits family row.start).flatMap (bytesLE (more + 1)) := by
    rw [TypedArray.bytes, toColumns, out, List.map_cons, List.flatMap_cons, size]
  rw [bytesLE, byte, List.cons_append] at bytes
  exact ⟨_, bytes⟩

theorem align8_align8 (n : Nat) : align8 (align8 n) = align8 n := by
  unfold align8
  omega

/-- **Where the sections start there is a zero byte, or the end of the file.** -/
theorem zero_or_end (table : Table) (facts : List (Text × Json)) :
    (file table facts)[secondPass table facts]? = some 0 ∨ fileLength table facts = secondPass
    table facts := by
  have counts := sizes_counts table
  have aligned : align8 (secondPass table facts) = secondPass table facts := align8_align8 _
  have first {family : Family} {rest : Bytes}
      (bytes : (toColumns family (table.of family).rows).starts.bytes = 0 :: rest)
      (member : (secondPass table facts, (toColumns family (table.of family).rows).starts.bytes) ∈
        sectionParts table facts) : (file table facts)[secondPass table facts]? = some 0 := by
    have bounds := (placed_sections table facts _ member).2
    rw [bytes] at member bounds
    have inside : secondPass table facts + 0 < (unfilled table facts).length := by
      rw [length_unfilled]
      exact Nat.lt_of_lt_of_le (Nat.lt_add_of_pos_right (Nat.succ_pos _)) bounds
    have found := getElem?_copyAll (apart_sections table facts) member (Nat.succ_pos _) inside
    rwa [← file_eq] at found
  by_cases none4 : fillGaps .v4 (table.of .v4).rows = []
  · rw [none4] at counts
    by_cases none6 : fillGaps .v6 (table.of .v6).rows = []
    · refine .inr ?_
      rw [none6] at counts
      rw [fileLength, counts]
      simp only [List.length_nil, Nat.mul_zero, endFrom, Nat.add_zero, aligned]
    · obtain ⟨rest, bytes⟩ := starts_bytes (table.of .v6) none6
      refine .inl (first bytes ?_)
      refine List.mem_of_getElem? (i := 4) ?_
      rw [sectionParts, List.getElem?_zip_eq_some, counts]
      refine ⟨?_, rfl⟩
      simp only [List.length_nil, Nat.mul_zero, offsetsFrom, Nat.add_zero, aligned]
      rfl
  · obtain ⟨rest, bytes⟩ := starts_bytes (table.of .v4) none4
    refine .inl (first bytes ?_)
    refine List.mem_of_getElem? (i := 0) ?_
    rw [sectionParts, List.getElem?_zip_eq_some, counts]
    exact ⟨rfl, rfl⟩

section
variable {table : Table} {facts : List (Text × Json)}
  (over_ : secondPass table facts < 12 + headerLength table facts (secondPass table facts))
include over_

theorem headerText_overwritten :
    (slice (file table facts) 12 (headerLength table facts (secondPass table facts))).take
        (secondPass table facts - 12) =
      (headerBytes (settledHeader table facts)).take (secondPass table facts - 12) := by
  have length := length_settledHeader_bytes table facts
  have long := le_fileLength table facts
  have start := lt_secondPass table facts
  refine List.ext_getElem? fun i => ?_
  rw [List.getElem?_take, List.getElem?_take]
  split_ifs with before
  · have member : (12, headerBytes (settledHeader table facts)) ∈ headerParts table facts :=
      List.mem_cons_of_mem _ (List.mem_cons_of_mem _ List.mem_cons_self)
    have within : 12 + i < (List.replicate (fileLength table facts) (0 : UInt8)).length := by
      rw [List.length_replicate]
      omega
    have header := getElem?_copyAll (apart_header table facts) member
      (show i < (headerBytes (settledHeader table facts)).length by omega) within
    rw [getElem?_slice, if_pos (by omega), file_eq, getElem?_copyAll_outside]
    · exact header
    · intro part found
      have := (placed_sections table facts part found).1
      omega
  · rfl

/-- The characters of the header's text before the sections: all of it but an end of the
offsets' text. -/
theorem settledText_take : ∃ front count,
    0 < count ∧ count ≤ (offsetText (sizes table) (secondPass table facts)).length ∧
    (headerBytes (settledHeader table facts)).take (secondPass table facts - 12) =
      Utf8.encode ('{' :: (front ++ (offsetText (sizes table) (secondPass table facts)).take
      count)) := by
  obtain ⟨front, bare, more⟩ := headerText table facts
  obtain ⟨size, others, cons, seven⟩ := sizes_cons table
  have ascii : ∀ c ∈ offsetText (sizes table) (secondPass table facts), c.toNat ≤ 0x7f := by
    rw [cons]
    exact fun c member => (plain_offsetText size others _ c member).1
  have closing : (Utf8.encode ['}']).length = 1 := rfl
  have bareLength_eq : bareLength table facts = (Utf8.encode ('{' :: front)).length + 1 := by
    rw [bareLength, headerBytes, bare, ← List.cons_append, Utf8.encode_append,
      List.length_append, closing]
  have text : headerBytes (settledHeader table facts) = Utf8.encode ('{' :: front) ++
      (Utf8.encode (offsetText (sizes table) (secondPass table facts)) ++ Utf8.encode ['}']) := by
    rw [headerBytes, settledHeader, more, ← List.cons_append, Utf8.encode_append,
      Utf8.encode_append]
  have total := length_settledHeader_bytes table facts
  rw [text, List.length_append, List.length_append, closing] at total
  have start := lt_secondPass table facts
  have offsets := Utf8.length_encode_of_ascii ascii
  refine ⟨front, secondPass table facts - 12 -
    (Utf8.encode ('{' :: front)).length, by omega, by omega, ?_⟩
  rw [text, List.take_append, List.take_of_length_le (by omega),
    List.take_append_of_le_length (by omega), Utf8.take_encode_of_ascii ascii, ← Utf8.encode_append,
    List.cons_append]

/-- **A header whose end is written over is not read.** -/
theorem parse_overwritten : Json.parse (Utf8.decode
    (slice (file table facts) 12 (headerLength table facts (secondPass table facts)))) = none := by
  obtain ⟨front, count, positive, within, text⟩ := settledText_take over_
  obtain ⟨size, others, cons, seven⟩ := sizes_cons table
  have start := lt_secondPass table facts
  have split := List.take_append_drop (secondPass table facts - 12)
    (slice (file table facts) 12 (headerLength table facts (secondPass table facts)))
  rw [headerText_overwritten over_, text] at split
  rw [← split, Utf8.decode_encode_append]
  generalize behind :
    (slice (file table facts) 12 (headerLength table facts (secondPass table facts))).drop
    (secondPass table facts - 12) = rest
  cases rest with
  | nil =>
    -- the file ends where the sections would start: the text is cut short
    have plain : ∀ c ∈ offsetText (sizes table) (secondPass table facts), Plain c := by
      rw [cons]
      exact plain_offsetText size others _
    have some_ : (offsetText (sizes table) (secondPass table facts)).take count ≠ [] := by
      refine List.ne_nil_of_length_pos ?_
      rw [List.length_take]
      omega
    obtain ⟨inner, c, cut⟩ := List.eq_nil_or_concat _ |>.resolve_left some_
    rw [List.concat_eq_append] at cut
    have last :=
      plain c (List.mem_of_mem_take (cut ▸ List.mem_append_right inner List.mem_cons_self))
    rw [cut, ← List.append_assoc, show Utf8.decode [] = [] from rfl, List.append_nil]
    exact Json.parse_eq_none_of_unclosed last.2.2 last.2.1
  | cons byte rest =>
    have zero : byte = 0 := by
      have place : 12 + (secondPass table facts - 12) = secondPass table facts := by omega
      have here : (slice (file table facts) 12
          (headerLength table facts (secondPass table facts)))[secondPass table facts - 12]? =
          some byte := by
        rw [← Nat.add_zero (secondPass table facts - 12), ← List.getElem?_drop, behind]
        rfl
      rw [getElem?_slice, if_pos (by omega), place] at here
      obtain found | ends := zero_or_end table facts
      · exact Option.some.inj (here.symm.trans found)
      · rw [List.getElem?_eq_none (by rw [length_file]; omega)] at here
        cases here
    have nul : Utf8.decode (byte :: rest) = '\x00' :: Utf8.decode rest := by
      rw [zero]
      exact Utf8.decode_encode_append ['\x00'] rest
    rw [nul]
    refine Json.parse_eq_none_of_mem (c := '\x00') ?_ (List.mem_append_right _ List.mem_cons_self)
    rw [Json.Allowed]
    decide

theorem decode_overwritten (small : headerLength table facts (secondPass table facts) < 2 ^ 32) :
    decodeCityTable (file table facts) = none := by
  rw [decodeCityTable, if_pos (magic_file table facts), headerLength_file small]
  simp only [Option.bind_eq_bind, Option.bind_some, parse_overwritten over_, Option.bind_none]

end

/-! ## The codec -/

/-- The table survives encoding and decoding: nothing throws, the header carries the facts, and
every lookup ends with the place of the row that has the address. -/
def Preserves (table : Table) (facts : List (Text × Json)) : Prop :=
  ∃ bytes read, encodeCityTable table facts = some bytes ∧ decodeCityTable bytes = some read ∧
    (∀ name value, Json.find? name facts = some value → read.header.get? name = some value) ∧
    ∀ ip, ∃ rounds, cityPlaceIn rounds read ip = some (placeOf table ip)

/-- The header that the second pass writes ends before the sections start, its length takes 32
bits, and no more than `2 ^ 31` rows are stored for IPv6. -/
structure Settled (table : Table) (facts : List (Text × Json)) : Prop where
  fits : 12 + headerLength table facts (secondPass table facts) ≤ secondPass table facts
  small : headerLength table facts (secondPass table facts) < 2 ^ 32
  few : (fillGaps .v6 (table.of .v6).rows).length ≤ 2 ^ 31

/-- The last address. -/
def lastAddress : Text := "ffff:ffff:ffff:ffff:ffff:ffff:ffff:ffff".toList

theorem parseIp_lastAddress : parseIp lastAddress { zoneId := false } =
    some ⟨2 ^ 128 - 1, ipv6Bits, none⟩ := by
  decide

theorem not_cityPlaceIn_lastAddress {table : Table} {facts : List (Text × Json)}
    (many : 2 ^ 31 < (fillGaps .v6 (table.of .v6).rows).length) (rounds : Nat) :
    cityPlaceIn rounds (readBack table facts) lastAddress = none := by
  have covers := covers_fillGaps (table.of .v6)
  rw [cityPlaceIn_of_parseIp parseIp_lastAddress]
  change (floorIndex rounds (readColumns .v6 (fillGaps .v6 (table.of .v6).rows)).starts
    ((2 ^ 128 - 1) >>> (128 - Family.v6.blockBits))).map _ = none
  rw [floorIndex_never many (fun row member => ?_), Option.map_none]
  have start : row.start < 2 ^ 40 := covers.start_lt member
  have key : (2 ^ 128 - 1) >>> (128 - Family.v6.blockBits) = 2 ^ 40 - 1 := by decide
  rw [key]
  exact Nat.le_sub_one_of_lt start

theorem settled_of_preserves {table : Table} {facts : List (Text × Json)} (foreign : Foreign facts)
    (preserved : Preserves table facts) : Settled table facts := by
  obtain ⟨bytes, read, encoded, decoded, -, lookups⟩ := preserved
  rw [encodeCityTable_eq foreign] at encoded
  split_ifs at encoded with small
  obtain rfl := Option.some.inj encoded
  have fits : 12 + headerLength table facts (secondPass table facts) ≤ secondPass table facts := by
    by_contra over_
    have failed : decodeCityTable (file table facts) = none :=
      decode_overwritten (Nat.lt_of_not_le over_) small
    rw [file, decoded] at failed
    cases failed
  refine ⟨fits, small, ?_⟩
  by_contra many
  have same : some read = some (readBack table facts) :=
    decoded.symm.trans (decode_file foreign small fits)
  obtain rfl := Option.some.inj same
  obtain ⟨rounds, found⟩ := lookups lastAddress
  rw [not_cityPlaceIn_lastAddress (Nat.lt_of_not_le many)] at found
  cases found

theorem preserves_of_settled {table : Table} {facts : List (Text × Json)} (foreign : Foreign facts)
    (settled : Settled table facts) : Preserves table facts := by
  obtain ⟨fits, small, few⟩ := settled
  have encoded : encodeCityTable table facts = some (file table facts) := by
    rw [encodeCityTable_eq foreign, if_pos small, file]
  refine ⟨_, _, encoded, decode_file foreign small fits,
    fun name value => fact_settledHeader foreign, ?_⟩
  refine cityPlaceIn_eq (fun family => ?_) fun family => ?_
  · cases family <;> rfl
  · cases family with
    | v4 => exact Nat.le_trans (covers_fillGaps (table.of .v4)).length_le (by decide)
    | v6 => exact few

/-- **The codec preserves every lookup exactly when the second pass settles the header**: the
digits that the offsets gain in the second pass go into the padding before the sections. -/
theorem preserves_iff {table : Table} {facts : List (Text × Json)} (foreign : Foreign facts) :
    Preserves table facts ↔ Settled table facts :=
  ⟨settled_of_preserves foreign, preserves_of_settled foreign⟩

/-- Blocks of `10.0.0.0/16` and of `2001:db8::/32`. -/
def sampleTable : Table where
  v4 :=
    { rows := [⟨40960, 41023, ['D', 'E'], 5252, 1340⟩]
      valid := List.forall_mem_singleton.mpr
        ⟨by decide, by decide, ⟨'D', 'E', rfl, by decide, by decide⟩, by decide, by decide⟩
      ascending := List.pairwise_singleton _ _ }
  v6 :=
    { rows := [⟨137456629760, 137456630015, ['F', 'R'], 4886, 235⟩]
      valid := List.forall_mem_singleton.mpr
        ⟨by decide, by decide, ⟨'F', 'R', rfl, by decide, by decide⟩, by decide, by decide⟩
      ascending := List.pairwise_singleton _ _ }

/-- A note among the facts, of so many letters. -/
def note (letters : Nat) : List (Text × Json) :=
  [("note".toList, .string (List.replicate letters 'a'))]

theorem foreign_note (letters : Nat) : Foreign (note letters) := by
  intro field
  change field.name ∉ ["note".toList]
  cases field <;> decide

theorem preserves_iff_sample : Preserves sampleTable (note 7) :=
  (preserves_iff (foreign_note 7)).mpr ⟨by decide +kernel, by decide +kernel, by decide +kernel⟩

/-- A table without rows. -/
def emptyTable : Table where
  v4 := ⟨[], List.forall_mem_nil _, .nil⟩
  v6 := ⟨[], List.forall_mem_nil _, .nil⟩

/-- With a note of 632 letters the second pass moves the offsets from 944 to 1000: the header
grows by nine digits and runs into its sections. -/
theorem offsets_gain_digits : Foreign (note 632) ∧ ¬ Preserves emptyTable (note 632) := by
  refine ⟨foreign_note 632, fun preserved => ?_⟩
  have fits := (settled_of_preserves (foreign_note 632) preserved).fits
  revert fits
  decide +kernel

end GeoCities

end Cidrella
