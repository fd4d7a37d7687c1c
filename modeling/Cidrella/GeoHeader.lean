import Cidrella.GeoLookups

/-!
# The header of the city table

The header holds the offsets of the sections and the offsets depend on the header's length.
What each pass sets is the same text but for its numbers (`setOffsets_bare`,
`setOffsets_again`), so the length of a header follows from the length of the one without
offsets and the digits of nine numbers (`length_headerBytes`).
-/

set_option autoImplicit false

namespace Cidrella

namespace GeoCities

open Address Layout TypedArrays

/-! ## Members -/

/-- The facts do not name what the encoder sets itself. -/
def Foreign (facts : List (Text × Json)) : Prop := ∀ field : Field, field.name ∉ facts.map Prod.fst

/-- The members that hold the offsets of sections. -/
def offsetMembers (sizes : List Nat) (offset : Nat) : List (Text × Json) :=
  [(Field.offsets.name, .array ((offsetsFrom align8 offset sizes).map natural)),
    (Field.length.name, natural (endFrom align8 offset sizes))]

theorem Field.name_injective : Function.Injective Field.name := by
  intro field other same
  cases field <;> cases other <;> first
    | rfl
    | exact absurd same (by decide)

theorem arrayIndex_name (field : Field) : Json.arrayIndex field.name = none := by
  cases field <;> decide

section
variable {members : List (Text × Json)} (noOffsets : Field.offsets.name ∉ members.map Prod.fst)
  (noLength : Field.length.name ∉ members.map Prod.fst)
include noOffsets noLength

theorem setOffsets_bare (sizes : List Nat) (offset : Nat) :
    setOffsets sizes members offset = members ++ offsetMembers sizes offset := by
  have absent (value : Json) :
      Field.length.name ∉ (members ++ [(Field.offsets.name, value)]).map Prod.fst := by
    rw [List.map_append, List.mem_append, not_or]
    exact ⟨noLength, by simp [Field.name_injective.eq_iff]⟩
  rw [setOffsets, Json.put_new (arrayIndex_name _) noOffsets,
    Json.put_new (arrayIndex_name _) (absent _), List.append_assoc]
  rfl

theorem setOffsets_again (sizes : List Nat) (offset next : Nat) :
    setOffsets sizes (members ++ offsetMembers sizes offset) next = members ++
    offsetMembers sizes next := by
  have notLength (value : Json) : Field.offsets.name ∉ [(Field.length.name, value)].map
      Prod.fst := by
    simp [Field.name_injective.eq_iff]
  have notOffsets (value : Json) :
      Field.length.name ∉ (members ++ [(Field.offsets.name, value)]).map Prod.fst := by
    rw [List.map_append, List.mem_append, not_or]
    exact ⟨noLength, by simp [Field.name_injective.eq_iff]⟩
  have second (value old : Json) :
      members ++ (Field.offsets.name, value) :: [(Field.length.name, old)] =
        (members ++ [(Field.offsets.name, value)]) ++ (Field.length.name, old) :: [] := by
    rw [List.append_assoc]
    rfl
  rw [setOffsets, offsetMembers, Json.put_replace noOffsets (notLength _), second,
    Json.put_replace (notOffsets _) List.not_mem_nil, List.append_assoc]
  rfl

end

section
variable {table : Table} {facts : List (Text × Json)} (foreign : Foreign facts)
include foreign

theorem not_mem_bareHeader {field : Field} (notFormat : field ≠ .format)
    (notFamilies : field ≠ .families) :
    field.name ∉ (bareHeader table facts).map Prod.fst := by
  intro member
  obtain same | other := Json.mem_names_put member
  · exact notFamilies (Field.name_injective same)
  · obtain standard | own := Json.mem_names_spread other
    · have absent : field.name ∉ standardFacts.map Prod.fst := by
        cases field with
        | format => exact absurd rfl notFormat
        | families => exact absurd rfl notFamilies
        | offsets => decide
        | length => decide
      exact absent standard
    · exact foreign field own

/-- **The header carries the facts.** -/
theorem find?_bareHeader {name : Text} {value : Json} (fact : Json.find? name facts = some value) :
    Json.find? name (bareHeader table facts) = some value := by
  have other : Field.families.name ≠ name := by
    rintro rfl
    rw [Json.find?_eq_none (foreign .families)] at fact
    cases fact
  rw [bareHeader, Json.find?_put, if_neg other, Json.find?_spread, fact, Option.some_or]

theorem format_bareHeader : Json.find? Field.format.name (bareHeader table facts) =
    some (natural 1) := by
  have standard : Json.find? Field.format.name standardFacts = some (natural 1) := by
    rw [standardFacts, Json.find?, if_pos rfl, Json.find?_eq_none (by decide), Option.none_or]
  have other : Field.families.name ≠ Field.format.name := Field.name_injective.ne (by decide)
  rw [bareHeader, Json.find?_put, if_neg other, Json.find?_spread,
    Json.find?_eq_none (foreign .format), Option.none_or, standard]

end

theorem families_bareHeader (table : Table) (facts : List (Text × Json)) :
    Json.find? Field.families.name (bareHeader table facts) =
      some (.object
        [(Family.v4.name,
          familyHeader .v4 (toColumns .v4 (table.of .v4).rows).starts.numbers.length),
          (Family.v6.name,
          familyHeader .v6 (toColumns .v6 (table.of .v6).rows).starts.numbers.length)]) := by
  rw [bareHeader, Json.find?_put, if_pos rfl]

theorem bareHeader_ne_nil (table : Table) (facts : List (Text × Json)) :
    bareHeader table facts ≠ [] := by
  intro empty
  have member := families_bareHeader table facts
  rw [empty] at member
  cases member

/-! ## The header's text -/

/-- A character that takes one byte, closes no object and is no white space. -/
def Plain (c : Char) : Prop := c.toNat ≤ 0x7f ∧ c ≠ '}' ∧ Json.isSpace c = false

theorem plain_of_isDigit {c : Char} (digit : c.isDigit = true) : Plain c := by
  have bounds : 48 ≤ c.toNat ∧ c.toNat ≤ 57 := by
    simp only [Char.isDigit, Bool.and_eq_true, decide_eq_true_eq] at digit
    exact digit
  refine ⟨by omega, ?_, ?_⟩
  · rintro rfl
    exact absurd digit (by decide)
  · exact (Json.opens_of_isNumeralChar (Json.isNumeralChar_of_isDigit digit)).1

/-- The text of the members that hold the offsets. -/
def offsetText (sizes : List Nat) (offset : Nat) : Text :=
  (offsetMembers sizes offset).flatMap fun named => ',' :: Json.memberText named

/-- The digits of a number. -/
def digits (n : Nat) : Nat := (Nat.toDigits 10 n).length

/-- The digits of the offsets of sections and of the length of the file. -/
def offsetDigits (sizes : List Nat) (offset : Nat) : Nat :=
  ((offsetsFrom align8 offset sizes ++ [endFrom align8 offset sizes]).map digits).sum

/-- What stands before the first offset. -/
def offsetsOpening : Text := ",\"offsets\":[".toList

/-- What stands between the last offset and the length. -/
def lengthOpening : Text := "],\"length\":".toList

theorem quote_offsets : ',' :: (Json.quote Field.offsets.name ++ [':', '[']) = offsetsOpening := by
  decide

theorem quote_length : ']' :: ',' :: (Json.quote Field.length.name ++ [':']) = lengthOpening := by
  decide

theorem stringify_natural (n : Nat) : Json.stringify (natural n) = Nat.toDigits 10 n := by
  rw [natural, Json.stringify]
  rfl

theorem moreItems_natural (numbers : List Nat) :
    Json.moreItems (numbers.map natural) = numbers.flatMap fun n => ',' :: Nat.toDigits 10 n := by
  rw [Json.moreItems_eq, List.flatMap_map]
  simp only [stringify_natural]

theorem offsetText_eq (size : Nat) (sizes : List Nat) (offset : Nat) :
    offsetText (size :: sizes) offset =
      offsetsOpening ++ (Nat.toDigits 10 offset ++
        ((offsetsFrom align8 (align8 (offset + size)) sizes).flatMap
          (fun n => ',' :: Nat.toDigits 10 n) ++
          (lengthOpening ++ Nat.toDigits 10 (endFrom align8 offset (size :: sizes))))) := by
  rw [offsetText, offsetMembers, List.flatMap_cons, List.flatMap_cons, List.flatMap_nil,
    Json.memberText, Json.memberText, offsetsFrom, List.map_cons, Json.stringify, moreItems_natural,
    stringify_natural, stringify_natural, ← quote_offsets, ← quote_length]
  simp only [List.cons_append, List.append_assoc, List.nil_append, List.append_nil]

theorem length_offsetText {size : Nat} (sizes : List Nat) (offset : Nat) :
    (offsetText (size :: sizes) offset).length = 23 + sizes.length + offsetDigits (size :: sizes)
    offset := by
  have opening : offsetsOpening.length = 12 := by decide
  have middle : lengthOpening.length = 11 := by decide
  have others (numbers : List Nat) : (numbers.flatMap fun n => ',' :: Nat.toDigits 10 n).length =
      numbers.length + (numbers.map digits).sum := by
    induction numbers with
    | nil => rfl
    | cons n numbers ih =>
      rw [List.flatMap_cons, List.length_append, ih, List.map_cons, List.sum_cons, List.length_cons,
        List.length_cons, digits]
      omega
  rw [offsetText_eq, List.length_append, List.length_append, List.length_append,
    List.length_append, others, length_offsetsFrom, opening, middle, offsetDigits, offsetsFrom,
    List.map_append, List.map_cons, List.map_singleton,
    List.sum_append, List.sum_cons, List.sum_singleton, digits, digits]
  omega

theorem plain_offsetText (size : Nat) (sizes : List Nat) (offset : Nat) :
    ∀ c ∈ offsetText (size :: sizes) offset, Plain c := by
  have plain_of_all {text : Text}
      (all : (text.all fun c => decide (c.toNat ≤ 0x7f) && decide (c ≠ '}') && !Json.isSpace c) =
      true) :
      ∀ c ∈ text, Plain c := fun c member => by
    have holds := List.all_eq_true.mp all c member
    simp only [Bool.and_eq_true, decide_eq_true_eq, Bool.not_eq_true'] at holds
    exact ⟨holds.1.1, holds.1.2, holds.2⟩
  have number (n : Nat) : ∀ c ∈ Nat.toDigits 10 n, Plain c := fun c member =>
    plain_of_isDigit (Json.isDigit_of_mem_toDigits member)
  have opening : ∀ c ∈ offsetsOpening, Plain c := plain_of_all (by decide)
  have middle : ∀ c ∈ lengthOpening, Plain c := plain_of_all (by decide)
  rw [offsetText_eq]
  simp only [List.forall_mem_append]
  refine ⟨opening, number _, fun c member => ?_, middle, number _⟩
  obtain ⟨n, -, inside⟩ := List.mem_flatMap.mp member
  obtain rfl | digit := List.mem_cons.mp inside
  · exact @plain_of_all [','] (by decide) _ List.mem_cons_self
  · exact number n c digit

/-! ## The two passes -/

/-- The sizes of a table's sections. -/
def sizes (table : Table) : List Nat := (sections table).map TypedArray.byteLength

/-- The bytes of the header without offsets. -/
def bareLength (table : Table) (facts : List (Text × Json)) : Nat :=
  (headerBytes (bareHeader table facts)).length

/-- The bytes of the header with the offsets of sections that start at `offset`: thirty for
names and brackets, and the digits. -/
def headerLength (table : Table) (facts : List (Text × Json)) (offset : Nat) : Nat :=
  bareLength table facts + 30 + offsetDigits (sizes table) offset

/-- Where the sections start after the first pass. -/
def firstPass (table : Table) (facts : List (Text × Json)) : Nat :=
  align8 (12 + bareLength table facts)

/-- Where the sections start after the second pass. -/
def secondPass (table : Table) (facts : List (Text × Json)) : Nat :=
  align8 (12 + headerLength table facts (firstPass table facts))

/-- The header that is written. -/
def settledHeader (table : Table) (facts : List (Text × Json)) : List (Text × Json) :=
  bareHeader table facts ++ offsetMembers (sizes table) (secondPass table facts)

theorem sizes_cons (table : Table) : ∃ size others, sizes table = size :: others ∧
    others.length = 7 :=
  ⟨_, _, rfl, rfl⟩

theorem headerText (table : Table) (facts : List (Text × Json)) :
    ∃ front, Json.stringify (.object (bareHeader table facts)) = '{' :: (front ++ ['}']) ∧ ∀ offset,
      Json.stringify (.object (bareHeader table facts ++ offsetMembers (sizes table) offset)) =
        '{' :: (front ++ (offsetText (sizes table) offset ++ ['}'])) := by
  obtain ⟨front, bare, more⟩ := Json.stringify_object_append (bareHeader_ne_nil table facts)
  exact ⟨front, bare, fun offset => more _⟩

theorem length_headerBytes (table : Table) (facts : List (Text × Json)) (offset : Nat) :
    (headerBytes (bareHeader table facts ++ offsetMembers (sizes table) offset)).length =
      headerLength table facts offset := by
  obtain ⟨front, bare, more⟩ := headerText table facts
  obtain ⟨size, others, cons, seven⟩ := sizes_cons table
  have text : (Utf8.encode (offsetText (sizes table) offset)).length = 30 + offsetDigits
      (sizes table) offset := by
    rw [cons, Utf8.length_encode_of_ascii fun c member =>
      (plain_offsetText size others offset c member).1, length_offsetText, seven]
  have split (text : Text) : (Utf8.encode ('{' :: (front ++ text))).length =
      (Utf8.encode ('{' :: front)).length + (Utf8.encode text).length := by
    rw [← List.cons_append, Utf8.encode_append, List.length_append]
  rw [headerLength, bareLength, headerBytes, headerBytes, bare, more, split, split,
    Utf8.encode_append, List.length_append, text]
  omega

section
variable {table : Table} {facts : List (Text × Json)} (foreign : Foreign facts)
include foreign

theorem setOffsets_first (offset : Nat) : setOffsets (sizes table) (bareHeader table facts) offset =
    bareHeader table facts ++ offsetMembers (sizes table) offset :=
  setOffsets_bare (not_mem_bareHeader foreign (by decide) (by decide))
    (not_mem_bareHeader foreign (by decide) (by decide)) _ _

theorem setOffsets_second (offset next : Nat) :
    setOffsets (sizes table) (bareHeader table facts ++ offsetMembers (sizes table) offset) next =
      bareHeader table facts ++ offsetMembers (sizes table) next :=
  setOffsets_again (not_mem_bareHeader foreign (by decide) (by decide))
    (not_mem_bareHeader foreign (by decide) (by decide)) _ _ _

end

/-- The parts of the file before its sections. -/
def headerParts (table : Table) (facts : List (Text × Json)) : List (Nat × Bytes) :=
  [(0, magic.map fun c => UInt8.ofNat c.toNat),
    (8, bytesLE 4 (headerLength table facts (secondPass table facts))),
    (12, headerBytes (settledHeader table facts))]

/-- The sections at their places. -/
def sectionParts (table : Table) (facts : List (Text × Json)) : List (Nat × Bytes) :=
  (offsetsFrom align8 (secondPass table facts) (sizes table)).zip
    ((sections table).map TypedArray.bytes)

/-- The length of the file. -/
def fileLength (table : Table) (facts : List (Text × Json)) : Nat :=
  endFrom align8 (secondPass table facts) (sizes table)

theorem le_align8 (n : Nat) : n ≤ align8 n := by
  unfold align8
  omega

theorem le_fileLength (table : Table) (facts : List (Text × Json)) :
    secondPass table facts ≤ fileLength table facts := le_endFrom le_align8 _ _

theorem lt_secondPass (table : Table) (facts : List (Text × Json)) :
    12 + bareLength table facts < secondPass table facts := by
  have := le_align8 (12 + headerLength table facts (firstPass table facts))
  rw [secondPass]
  rw [headerLength] at this ⊢
  omega

/-- **What the encoder writes.** -/
theorem encodeCityTable_eq {table : Table} {facts : List (Text × Json)} (foreign : Foreign facts) :
    encodeCityTable table facts =
      if headerLength table facts (secondPass table facts) < 2 ^ 32 then
        some (copyAll (List.replicate (fileLength table facts) 0)
          (headerParts table facts ++ sectionParts table facts))
      else none := by
  have first : setOffsets (sizes table) (bareHeader table facts)
      (firstOffset (bareHeader table facts)) = bareHeader table facts ++ offsetMembers (sizes table)
      (firstPass table facts) := setOffsets_first foreign _
  have offset :
      firstOffset (bareHeader table facts ++ offsetMembers (sizes table) (firstPass table facts)) =
          secondPass table facts := by
    rw [firstOffset, length_headerBytes, secondPass]
  have header : headerBytes (settledHeader table facts) = headerBytes
      (setOffsets (sizes table) (bareHeader table facts ++ offsetMembers (sizes table)
        (firstPass table facts)) (secondPass table facts)) := by
    rw [setOffsets_second foreign, settledHeader]
  have length : (headerBytes (settledHeader table facts)).length =
      headerLength table facts (secondPass table facts) := length_headerBytes _ _ _
  have long : 8 + 4 ≤ fileLength table facts := by
    have := lt_secondPass table facts
    have := le_fileLength table facts
    omega
  have unfolded : encodeCityTable table facts =
      let first := setOffsets (sizes table) (bareHeader table facts)
          (firstOffset (bareHeader table facts))
      let offset := firstOffset first
      let header := headerBytes (setOffsets (sizes table) first offset)
      if header.length < 2 ^ 32 ∧ 8 + 4 ≤ endFrom align8 offset (sizes table) then
        some (copyAll (List.replicate (endFrom align8 offset (sizes table)) 0)
          ((0, magic.map fun c => UInt8.ofNat c.toNat) :: (8, bytesLE 4 header.length) ::
            (8 + 4, header) :: (offsetsFrom align8 offset (sizes table)).zip
            ((sections table).map TypedArray.bytes)))
      else none := rfl
  rw [fileLength] at long
  simp only [unfolded, first, offset, ← header, length, long, and_true]
  rfl

end GeoCities

end Cidrella
