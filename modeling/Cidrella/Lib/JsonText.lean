import Cidrella.Lib.Json

/-!
# JSON texts

What is written is read back, whatever follows (`readValue_stringify`), so `parse` undoes
`stringify` (`parse_stringify`).  No text with a control character that is not white space is
read (`allowed_of_parse`), and none that opens a brace and does not end in one
(`brace_closed`).
-/

set_option autoImplicit false

namespace Cidrella

namespace Json

open Text (isHexDigit digitValue readDigits)

/-! ## Strings are read back -/

theorem unescape_of_shortEscape {c letter : Char} (short : shortEscape c = some letter) :
    unescape letter = some c ∧ letter ≠ 'u' := by
  unfold shortEscape at short
  split_ifs at short
  all_goals
    subst c
    obtain rfl := Option.some.inj short
    decide

/-- The part of a string a character is read back as. -/
def partOf (c : Char) : Piece :=
  if shortEscape c = none ∧ c.toNat < 0x20 then .codeUnit c.toNat else .char c

theorem piece_escape (c : Char) (rest : Text) : piece (escape c ++ rest) =
    some (partOf c, rest) := by
  cases short : shortEscape c with
  | some letter =>
    obtain ⟨back, other⟩ := unescape_of_shortEscape short
    simp only [escape, short, partOf, List.cons_append, List.nil_append, piece, if_true,
      if_neg other, back, Option.map_some, reduceCtorEq, false_and, if_false]
  | none =>
    by_cases control : c.toNat < 0x20
    · have digits : (['0', '0', (c.toNat / 16).digitChar, (c.toNat % 16).digitChar]).all
        isHexDigit = true := by
        simp only [List.all_cons, List.all_nil, Text.isHexDigit_digitChar
          (show c.toNat / 16 < 16 by omega), Text.isHexDigit_digitChar
          (show c.toNat % 16 < 16 by omega), Bool.and_true]
        decide
      have back : readDigits 16 ['0', '0', (c.toNat / 16).digitChar, (c.toNat % 16).digitChar] =
          c.toNat := by
        simp only [readDigits, List.foldl_cons, List.foldl_nil,
          Text.digitValue_digitChar (show c.toNat / 16 < 16 by omega),
          Text.digitValue_digitChar (show c.toNat % 16 < 16 by omega),
          show digitValue '0' = 0 from rfl]
        omega
      simp only [escape, short, partOf, control, and_self, if_true, List.cons_append,
        List.nil_append, piece, List.take_succ_cons, List.take_zero, digits, back, List.length_cons,
        Nat.le_add_left, List.drop_succ_cons, List.drop_zero]
    · have noSlash : c ≠ '\\' := by
        rintro rfl
        exact absurd short (by decide)
      simp only [escape, short, partOf, control, and_false, if_false, List.cons_append,
        List.nil_append, piece, noSlash]

theorem escape_ne_quote (c : Char) : ∃ first others, escape c = first :: others ∧ first ≠ '"' := by
  cases short : shortEscape c with
  | some letter => exact ⟨'\\', [letter], by simp only [escape, short], by decide⟩
  | none =>
    by_cases control : c.toNat < 0x20
    · exact ⟨'\\', ['u', '0', '0', (c.toNat / 16).digitChar, (c.toNat % 16).digitChar],
        by simp only [escape, short, control, if_true], by decide⟩
    · refine ⟨c, [], by simp only [escape, short, control, if_false], ?_⟩
      rintro rfl
      exact absurd short (by decide)

theorem pieces_escape (rounds : Nat) (c : Char) (rest : Text) :
    pieces (rounds + 1) (escape c ++ rest) =
      (pieces rounds rest).map fun (others, rest) => (partOf c :: others, rest) := by
  obtain ⟨first, others, written, inner⟩ := escape_ne_quote c
  have read := piece_escape c rest
  rw [written, List.cons_append] at read ⊢
  simp only [pieces, if_neg inner, read, Option.bind_eq_bind, Option.bind_some]
  cases pieces rounds rest with
  | none => rfl
  | some result => rfl

theorem pieces_escaped {rounds : Nat} {text : Text} (enough : text.length < rounds) (rest : Text) :
    pieces rounds (text.flatMap escape ++ '"' :: rest) = some (text.map partOf, rest) := by
  induction text generalizing rounds with
  | nil =>
    obtain ⟨more, rfl⟩ := Nat.exists_eq_add_one.mpr enough
    rw [List.flatMap_nil, List.nil_append, pieces, if_pos rfl, List.map_nil]
  | cons c text ih =>
    obtain ⟨more, rfl⟩ := Nat.exists_eq_add_one.mpr (Nat.zero_lt_of_lt enough)
    rw [List.flatMap_cons, List.append_assoc, pieces_escape, ih (Nat.lt_of_succ_lt_succ enough),
      Option.map_some, List.map_cons]

theorem assemble_codeUnit {n : Nat} (small : n < 0x20) (parts : List Piece) :
    assemble (.codeUnit n :: parts) = Char.ofNat n :: assemble parts := by
  have high : isHighSurrogate n = false := by
    simp only [isHighSurrogate, Bool.and_eq_false_imp, decide_eq_true_eq]
    omega
  have low : isLowSurrogate n = false := by
    simp only [isLowSurrogate, Bool.and_eq_false_imp, decide_eq_true_eq]
    omega
  rcases parts with _ | ⟨_ | _, parts⟩ <;>
    simp only [assemble, high, low, Bool.or_false, Bool.false_and, Bool.false_eq_true, if_false]

theorem assemble_map_partOf (text : Text) : assemble (text.map partOf) = text := by
  induction text with
  | nil => rfl
  | cons c text ih =>
    rw [List.map_cons]
    by_cases control : shortEscape c = none ∧ c.toNat < 0x20
    · rw [partOf, if_pos control, assemble_codeUnit control.2, ih, Char.ofNat_toNat]
    · rw [partOf, if_neg control, assemble, ih]

theorem length_le_length_escaped (text : Text) : text.length ≤ (text.flatMap escape).length := by
  induction text with
  | nil => exact Nat.le_refl _
  | cons c text ih =>
    obtain ⟨first, others, written, -⟩ := escape_ne_quote c
    rw [List.flatMap_cons, written, List.cons_append, List.length_cons, List.length_cons,
      List.length_append]
    omega

theorem readString_escaped (text rest : Text) :
    readString (text.flatMap escape ++ '"' :: rest) = some (text, rest) := by
  have enough : text.length < (text.flatMap escape ++ '"' :: rest).length := by
    have := length_le_length_escaped text
    rw [List.length_append, List.length_cons]
    omega
  simp only [readString, pieces_escaped enough, Option.map_some, assemble_map_partOf]

/-! ## Values are read back -/

/-- What may follow a value: no character that would make a number longer. -/
def Delimits (rest : Text) : Prop := ∀ c ∈ rest.head?, isNumeralChar c = false

theorem delimits_cons {c : Char} {rest : Text} (other : isNumeralChar c = false) :
    Delimits (c :: rest) := by
  intro first same
  obtain rfl := Option.some.inj same
  exact other

theorem skipSpace_cons {c : Char} (solid : isSpace c = false) (rest : Text) :
    skipSpace (c :: rest) = c :: rest := by
  rw [skipSpace, List.dropWhile_cons, solid, if_neg Bool.false_ne_true]

theorem takeWhile_numeral (numeral : Numeral) {rest : Text} (delimited : Delimits rest) :
    (numeral.text ++ rest).takeWhile isNumeralChar = numeral.text := by
  have stops : rest.takeWhile isNumeralChar = [] := by
    cases rest with
    | nil => rfl
    | cons c rest => rw [List.takeWhile_cons, delimited c rfl, if_neg Bool.false_ne_true]
  rw [List.takeWhile_append_of_pos (List.all_eq_true.mp numeral.plain), stops, List.append_nil]

theorem dropWhile_numeral (numeral : Numeral) {rest : Text} (delimited : Delimits rest) :
    (numeral.text ++ rest).dropWhile isNumeralChar = rest := by
  have split := List.takeWhile_append_dropWhile (p := isNumeralChar) (l := numeral.text ++ rest)
  rw [takeWhile_numeral numeral delimited] at split
  exact List.append_cancel_left split

theorem readNumber_numeral (numeral : Numeral) {rest : Text} (delimited : Delimits rest) :
    readNumber (numeral.text ++ rest) = some (.number numeral, rest) := by
  simp only [readNumber, takeWhile_numeral numeral delimited, dropWhile_numeral numeral delimited,
    numeral.plain, numeral.valid, and_self, dite_true]

/-- A value starts with a character that is no white space and closes nothing. -/
def Opens (c : Char) : Prop := isSpace c = false ∧ c ≠ ']' ∧ c ≠ '}'

theorem opens_of_isNumeralChar {c : Char} (numeral : isNumeralChar c = true) : Opens c := by
  refine ⟨Bool.eq_false_iff.mpr fun space => ?_, ?_, ?_⟩
  · simp only [isSpace, Bool.or_eq_true, decide_eq_true_eq] at space
    obtain ((rfl | rfl) | rfl) | rfl := space <;> exact absurd numeral (by decide)
  · rintro rfl
    exact absurd numeral (by decide)
  · rintro rfl
    exact absurd numeral (by decide)

theorem numeral_cons (numeral : Numeral) :
    ∃ c rest, numeral.text = c :: rest ∧ isNumeralChar c = true := by
  obtain ⟨text, plain, valid⟩ := numeral
  cases text with
  | nil => exact absurd valid (by decide)
  | cons c rest => exact ⟨c, rest, rfl, List.all_eq_true.mp plain c List.mem_cons_self⟩

theorem stringify_cons (v : Json) : ∃ c rest, stringify v = c :: rest ∧ Opens c := by
  cases v with
  | null => exact ⟨_, _, rfl, by unfold Opens; decide⟩
  | bool value => cases value <;> exact ⟨_, _, rfl, by unfold Opens; decide⟩
  | number numeral =>
    obtain ⟨c, rest, written, plain⟩ := numeral_cons numeral
    exact ⟨c, rest, written, opens_of_isNumeralChar plain⟩
  | string text => exact ⟨'"', _, rfl, by unfold Opens; decide⟩
  | array items => cases items <;> exact ⟨'[', _, rfl, by unfold Opens; decide⟩
  | object members =>
    rcases members with _ | ⟨⟨name, value⟩, members⟩ <;> exact ⟨'{', _,
      rfl, by unfold Opens; decide⟩

section
variable {α : Type} {write : α → Text} {item : Text → Option (α × Text)} {close : Char}

theorem moreOf_written (ends : close = ']' ∨ close = '}') {items : List α} {rounds : Nat}
    (enough : items.length < rounds)
    (each : ∀ x ∈ items, ∀ rest, Delimits rest → item (write x ++ rest) = some (x, rest))
    (rest : Text) :
    moreOf item close rounds (items.flatMap (fun x => ',' :: write x) ++ close :: rest) =
    some (items, rest) := by
  have solid : isSpace close = false := by obtain rfl | rfl := ends <;> decide
  have noComma : ',' ≠ close := by obtain rfl | rfl := ends <;> decide
  have noNumber : isNumeralChar close = false := by obtain rfl | rfl := ends <;> decide
  induction items generalizing rounds with
  | nil =>
    obtain ⟨more, rfl⟩ := Nat.exists_eq_add_one.mpr enough
    simp only [List.flatMap_nil, List.nil_append, moreOf, skipSpace_cons solid, if_true]
  | cons x items ih =>
    obtain ⟨more, rfl⟩ := Nat.exists_eq_add_one.mpr (Nat.zero_lt_of_lt enough)
    have delimited : Delimits (items.flatMap (fun x => ',' :: write x) ++ close :: rest) := by
      cases items with
      | nil => exact delimits_cons noNumber
      | cons y items => exact delimits_cons (by decide)
    have first := each x List.mem_cons_self _ delimited
    have others := ih (Nat.lt_of_succ_lt_succ enough) fun y member =>
      each y (List.mem_cons_of_mem x member)
    simp only [List.flatMap_cons, List.cons_append, List.append_assoc, moreOf,
      skipSpace_cons (show isSpace ',' = false by decide), if_neg noComma, if_true, first,
      Option.bind_eq_bind, Option.bind_some, others]

theorem listOf_written (ends : close = ']' ∨ close = '}') {x : α} {items : List α} {rounds : Nat}
    (enough : items.length < rounds) (opens : ∃ c rest, write x = c :: rest ∧ Opens c)
    (each : ∀ y ∈ x :: items, ∀ rest, Delimits rest → item (write y ++ rest) = some (y, rest))
    (rest : Text) :
    listOf item close rounds (write x ++ (items.flatMap (fun x => ',' :: write x) ++ close :: rest))
      = some (x :: items, rest) := by
  have delimited : Delimits (items.flatMap (fun x => ',' :: write x) ++ close :: rest) := by
    cases items with
    | nil => exact delimits_cons (by obtain rfl | rfl := ends <;> decide)
    | cons y items => exact delimits_cons (by decide)
  have first := each x List.mem_cons_self _ delimited
  have others := moreOf_written ends enough (fun y member => each y (List.mem_cons_of_mem x member))
    rest
  obtain ⟨c, more, written, solid, noBracket, noBrace⟩ := opens
  have inner : c ≠ close := by obtain rfl | rfl := ends <;> assumption
  rw [written, List.cons_append] at first ⊢
  simp only [listOf, skipSpace_cons solid, if_neg inner, first, Option.bind_eq_bind,
    Option.bind_some, others]

theorem length_le_length_flatMap (items : List α) :
    items.length ≤ (items.flatMap fun x => ',' :: write x).length := by
  induction items with
  | nil => exact Nat.le_refl _
  | cons x items ih =>
    rw [List.flatMap_cons, List.length_append, List.length_cons, List.length_cons]
    omega

theorem length_le_of_mem {items : List α} {x : α} (member : x ∈ items) :
    (write x).length ≤ (items.flatMap fun x => ',' :: write x).length := by
  induction items with
  | nil => cases member
  | cons y items ih =>
    rw [List.flatMap_cons, List.length_append, List.length_cons]
    obtain rfl | later := List.mem_cons.mp member
    · omega
    · have := ih later
      omega

end

/-- A member as it is written. -/
def memberText (named : Text × Json) : Text := quote named.1 ++ ':' :: stringify named.2

theorem moreItems_eq (items : List Json) : moreItems items = items.flatMap fun item =>
    ',' :: stringify item := by
  induction items with
  | nil => rfl
  | cons item items ih => rw [moreItems, ih, List.flatMap_cons, List.cons_append]

theorem moreMembers_eq (members : List (Text × Json)) :
    moreMembers members = members.flatMap fun named => ',' :: memberText named := by
  induction members with
  | nil => rfl
  | cons named members ih =>
    obtain ⟨name, value⟩ := named
    simp only [moreMembers, ih, List.flatMap_cons, memberText, List.cons_append, List.append_assoc]

theorem stringify_object_cons (first : Text × Json) (members : List (Text × Json)) :
    stringify (.object (first :: members)) =
      '{' :: (memberText first ++ (members.flatMap (fun named => ',' :: memberText named) ++
      ['}'])) := by
  simp only [stringify, moreMembers_eq, memberText, List.cons_append, List.append_assoc]

theorem stringify_object_append {members : List (Text × Json)} (some : members ≠ []) :
    ∃ front, stringify (.object members) = '{' :: (front ++ ['}']) ∧ ∀ more,
      stringify (.object (members ++ more)) =
        '{' :: (front ++ (more.flatMap (fun named => ',' :: memberText named) ++ ['}'])) := by
  obtain ⟨first, others, rfl⟩ := List.exists_cons_of_ne_nil some
  refine ⟨memberText first ++ others.flatMap (fun named => ',' :: memberText named), ?_,
    fun more => ?_⟩
  · rw [stringify_object_cons, List.append_assoc]
  · rw [List.cons_append, stringify_object_cons, List.flatMap_append]
    simp only [List.append_assoc]

theorem readMember_memberText {read : Text → Option (Json × Text)} (named : Text × Json)
    (rest : Text) (valueRead : read (stringify named.2 ++ rest) = some (named.2, rest)) :
    readMember read (memberText named ++ rest) = some (named, rest) := by
  have written : memberText named ++ rest =
      '"' :: (named.1.flatMap escape ++ '"' :: ':' :: (stringify named.2 ++ rest)) := by
    simp only [memberText, quote, List.cons_append, List.append_assoc, List.nil_append]
  simp only [written, readMember, skipSpace_cons (show isSpace '"' = false by decide), if_true,
    readString_escaped, Option.bind_eq_bind, Option.bind_some,
    skipSpace_cons (show isSpace ':' = false by decide), valueRead]

/-- **What is written is read back, whatever follows.** -/
theorem readValue_stringify (v : Json) {rounds : Nat} (enough : (stringify v).length ≤ rounds)
    {rest : Text} (delimited : Delimits rest) : readValue rounds (stringify v ++ rest) =
    some (v, rest) := by
  induction v using induct generalizing rounds rest with
  | null =>
    obtain ⟨more, rfl⟩ := Nat.exists_eq_add_one.mpr (Nat.lt_of_lt_of_le (by decide) enough)
    rfl
  | bool value =>
    cases value <;>
      (obtain ⟨more, rfl⟩ := Nat.exists_eq_add_one.mpr (Nat.lt_of_lt_of_le (by decide) enough)
       rfl)
  | number numeral =>
    obtain ⟨c, others, written, plain⟩ := numeral_cons numeral
    have read := readNumber_numeral numeral delimited
    rw [stringify, written] at enough ⊢
    rw [written] at read
    obtain ⟨more, rfl⟩ := Nat.exists_eq_add_one.mpr (Nat.lt_of_lt_of_le (Nat.succ_pos _) enough)
    have other {d : Char} (foreign : isNumeralChar d = false) : c ≠ d := by
      rintro rfl
      exact absurd plain (Bool.eq_false_iff.mp foreign)
    rw [List.cons_append] at read ⊢
    simp only [readValue, skipSpace_cons (opens_of_isNumeralChar plain).1,
      if_neg (other (d := '{') (by decide)), if_neg (other (d := '[') (by decide)),
      if_neg (other (d := '"') (by decide)), if_neg (other (d := 'n') (by decide)),
      if_neg (other (d := 't') (by decide)), if_neg (other (d := 'f') (by decide)), read]
  | string text =>
    obtain ⟨more, rfl⟩ := Nat.exists_eq_add_one.mpr (Nat.lt_of_lt_of_le (Nat.succ_pos _) enough)
    have written : stringify (.string text) ++ rest = '"' ::
        (text.flatMap escape ++ '"' :: rest) := by
      simp only [stringify, quote, List.cons_append, List.append_assoc, List.nil_append]
    simp only [written, readValue, skipSpace_cons (show isSpace '"' = false by decide),
      show ('"' = '{') = False by decide, show ('"' = '[') = False by decide, if_false, if_true,
      readString_escaped, Option.map_some]
  | array items each =>
    cases items with
    | nil =>
      obtain ⟨more, rfl⟩ := Nat.exists_eq_add_one.mpr (Nat.lt_of_lt_of_le (by decide) enough)
      rfl
    | cons first items =>
      simp only [stringify, moreItems_eq, List.length_cons, List.length_append,
        List.length_nil] at enough
      obtain ⟨more, rfl⟩ := Nat.exists_eq_add_one.mpr (Nat.lt_of_lt_of_le (Nat.succ_pos _) enough)
      have fits : ∀ item ∈ first :: items, (stringify item).length ≤ more := by
        intro item found
        obtain rfl | later := List.mem_cons.mp found
        · omega
        · have := @length_le_of_mem _ stringify _ _ later
          omega
      have rounds : items.length < more := by
        have := @length_le_length_flatMap _ stringify items
        omega
      have read := listOf_written (.inl rfl) rounds (stringify_cons first)
        (fun item found rest delimited => each item found (fits item found) delimited) rest
      simp only [stringify, moreItems_eq, List.cons_append, List.append_assoc,
        List.nil_append, readValue, skipSpace_cons (show isSpace '[' = false by decide),
        show ('[' = '{') = False by decide, if_false, if_true, read, Option.map_some]
  | object members each =>
    cases members with
    | nil =>
      obtain ⟨more, rfl⟩ := Nat.exists_eq_add_one.mpr (Nat.lt_of_lt_of_le (by decide) enough)
      rfl
    | cons first members =>
      rw [stringify_object_cons] at enough ⊢
      simp only [List.length_cons, List.length_append, List.length_nil] at enough
      obtain ⟨more, rfl⟩ := Nat.exists_eq_add_one.mpr (Nat.lt_of_lt_of_le (Nat.succ_pos _) enough)
      have shorter (named : Text × Json) : (stringify named.2).length ≤
          (memberText named).length := by
        rw [memberText, List.length_append, List.length_cons]
        omega
      have fits : ∀ named ∈ first :: members, (stringify named.2).length ≤ more := by
        intro named found
        have := shorter named
        obtain rfl | later := List.mem_cons.mp found
        · omega
        · have := @length_le_of_mem _ memberText _ _ later
          omega
      have rounds : members.length < more := by
        have := @length_le_length_flatMap _ memberText members
        omega
      have read := listOf_written (.inr rfl) rounds ⟨'"', _, rfl, by unfold Opens; decide⟩
        (fun named found rest delimited =>
          readMember_memberText named rest (each named found (fits named found) delimited)) rest
      simp only [List.cons_append, List.append_assoc, List.nil_append, readValue,
        skipSpace_cons (show isSpace '{' = false by decide), if_true, read, Option.map_some]

/-- **`parse` undoes `stringify`.** -/
theorem parse_stringify (v : Json) : parse (stringify v) = some v := by
  have delimited : Delimits [] := fun c member => nomatch member
  have read := readValue_stringify v (Nat.le_succ (stringify v).length) delimited
  rw [List.append_nil] at read
  simp only [parse, read, List.all_nil, if_true]

/-! ## What no reader accepts -/

/-- The characters a JSON text may have: no control characters, white space apart. -/
def Allowed (c : Char) : Prop := 0x20 ≤ c.toNat ∨ isSpace c = true

/-- Reading takes a text up to a rest, with allowed characters in between. -/
def Reads (text rest : Text) : Prop := ∃ front, text = front ++ rest ∧ ∀ c ∈ front, Allowed c

theorem Reads.refl (text : Text) : Reads text text := ⟨[], rfl, List.forall_mem_nil _⟩

theorem Reads.trans {text middle rest : Text} (first : Reads text middle)
    (second : Reads middle rest) :
    Reads text rest := by
  obtain ⟨front, rfl, allowed⟩ := first
  obtain ⟨more, rfl, others⟩ := second
  refine ⟨front ++ more, (List.append_assoc _ _ _).symm, fun c found => ?_⟩
  exact (List.mem_append.mp found).elim (allowed c) (others c)

theorem Reads.step {c : Char} {text rest : Text} (allowed : Allowed c) (others : Reads text rest) :
    Reads (c :: text) rest :=
  Reads.trans ⟨[c], rfl, List.forall_mem_singleton.mpr allowed⟩ others

theorem reads_skipSpace (text : Text) : Reads text (skipSpace text) :=
  ⟨text.takeWhile isSpace, List.takeWhile_append_dropWhile.symm,
    fun _ found => .inr (List.all_eq_true.mp List.all_takeWhile _ found)⟩

theorem allowed_of_isHexDigit {c : Char} (digit : isHexDigit c = true) : Allowed c := by
  simp only [isHexDigit, Bool.or_eq_true, Bool.and_eq_true, decide_eq_true_eq] at digit
  have least : '0' ≤ c := by
    obtain (⟨low, -⟩ | ⟨low, -⟩) | ⟨low, -⟩ := digit
    · exact low
    · exact Char.le_trans (show '0' ≤ 'a' by decide) low
    · exact Char.le_trans (show '0' ≤ 'A' by decide) low
  exact .inl (le_trans (by decide : 0x20 ≤ '0'.toNat) least)

theorem allowed_of_isNumeralChar {c : Char} (numeral : isNumeralChar c = true) : Allowed c := by
  simp only [isNumeralChar, Bool.or_eq_true, decide_eq_true_eq] at numeral
  obtain ((((digit | rfl) | rfl) | rfl) | rfl) | rfl := numeral
  · exact allowed_of_isHexDigit (by
      simp only [Char.isDigit, Bool.and_eq_true, decide_eq_true_eq] at digit
      simp only [isHexDigit, Bool.or_eq_true, Bool.and_eq_true, decide_eq_true_eq]
      exact .inl (.inl digit))
  all_goals exact .inl (by decide)

theorem allowed_of_unescape {letter c : Char} (known : unescape letter = some c) :
    Allowed letter := by
  unfold unescape at known
  split_ifs at known with same
  · obtain rfl | rfl | rfl := same <;> exact .inl (by decide)
  all_goals
    subst letter
    exact .inl (by decide)

theorem reads_of_piece {text rest : Text} {part : Piece} (read : piece text = some (part, rest)) :
    Reads text rest := by
  unfold piece at read
  split at read
  · cases read
  · rename_i c others
    split_ifs at read with slash control
    · subst slash
      refine .step (.inl (by decide)) ?_
      split at read
      · cases read
      · rename_i letter others
        split_ifs at read with u digits
        · subst u
          cases read
          refine .step (.inl (by decide)) ⟨others.take 4, (List.take_append_drop 4 others).symm,
            fun c found => ?_⟩
          exact allowed_of_isHexDigit (List.all_eq_true.mp digits.2 c found)
        · obtain ⟨c, known, same⟩ := Option.map_eq_some_iff.mp read
          cases same
          exact .step (allowed_of_unescape known) (.refl _)
    · cases read
      exact .step (.inl (Nat.le_of_not_lt control)) (.refl _)

theorem reads_of_pieces {rounds : Nat} {text rest : Text} {parts : List Piece}
    (read : pieces rounds text = some (parts, rest)) : Reads text rest := by
  induction rounds generalizing text parts with
  | zero => cases read
  | succ rounds ih =>
    cases text with
    | nil => cases read
    | cons c text =>
      rw [pieces] at read
      split_ifs at read with closing
      · cases read
        subst closing
        exact .step (.inl (by decide)) (.refl _)
      · simp only [Option.bind_eq_bind, Option.bind_eq_some_iff, Prod.exists] at read
        obtain ⟨first, middle, firstRead, others, last, othersRead, same⟩ := read
        cases same
        exact (reads_of_piece firstRead).trans (ih othersRead)

theorem reads_of_readString {text rest string : Text}
    (read : readString text = some (string, rest)) :
    Reads text rest := by
  obtain ⟨⟨parts, last⟩, piecesRead, same⟩ := Option.map_eq_some_iff.mp read
  cases same
  exact reads_of_pieces piecesRead

section
variable {α : Type} {item : Text → Option (α × Text)} {close : Char}

theorem reads_of_moreOf (each : ∀ {text rest x}, item text = some (x, rest) → Reads text rest)
    {rounds : Nat} {text rest : Text} {items : List α}
    (read : moreOf item close rounds text = some (items, rest)) :
    Reads text (close :: rest) := by
  induction rounds generalizing text items with
  | zero => cases read
  | succ rounds ih =>
    rw [moreOf] at read
    have spaces := reads_skipSpace text
    split at read
    · cases read
    · rename_i c others found
      rw [found] at spaces
      split_ifs at read with closing comma
      · cases read
        subst closing
        exact spaces
      · simp only [Option.bind_eq_bind, Option.bind_eq_some_iff, Prod.exists] at read
        obtain ⟨first, middle, firstRead, more, last, moreRead, same⟩ := read
        cases same
        subst comma
        exact spaces.trans (.step (.inl (by decide)) ((each firstRead).trans (ih moreRead)))

theorem reads_of_listOf (each : ∀ {text rest x}, item text = some (x, rest) → Reads text rest)
    {rounds : Nat} {text rest : Text} {items : List α}
    (read : listOf item close rounds text = some (items, rest)) :
    Reads text (close :: rest) := by
  rw [listOf] at read
  have spaces := reads_skipSpace text
  split at read
  · cases read
  · rename_i c others found
    rw [found] at spaces
    split_ifs at read with closing
    · cases read
      subst closing
      exact spaces
    · simp only [Option.bind_eq_bind, Option.bind_eq_some_iff, Prod.exists] at read
      obtain ⟨first, middle, firstRead, more, last, moreRead, same⟩ := read
      cases same
      exact spaces.trans ((each firstRead).trans (reads_of_moreOf each moreRead))

end

theorem reads_of_readMember {read : Text → Option (Json × Text)}
    (each : ∀ {text rest v}, read text = some (v, rest) → Reads text rest) {text rest : Text}
    {named : Text × Json} (memberRead : readMember read text = some (named, rest)) :
    Reads text rest := by
  rw [readMember] at memberRead
  have spaces := reads_skipSpace text
  split at memberRead
  · cases memberRead
  · rename_i c others found
    rw [found] at spaces
    split_ifs at memberRead with quoted
    subst quoted
    simp only [Option.bind_eq_bind, Option.bind_eq_some_iff, Prod.exists] at memberRead
    obtain ⟨name, middle, nameRead, rest⟩ := memberRead
    have inner := reads_skipSpace middle
    split at rest
    · cases rest
    · rename_i d more colon
      rw [colon] at inner
      split_ifs at rest with same
      subst same
      simp only [Option.bind_eq_some_iff, Prod.exists] at rest
      obtain ⟨v, last, valueRead, same⟩ := rest
      cases same
      exact spaces.trans (.step (.inl (by decide)) ((reads_of_readString nameRead).trans
        (inner.trans (.step (.inl (by decide)) (each valueRead)))))

theorem plain_word {letters : Text}
    (plain : (letters.all fun c => decide (0x20 ≤ c.toNat)) = true) :
    ∀ c ∈ letters, Allowed c :=
    fun c found => .inl (of_decide_eq_true (List.all_eq_true.mp plain c found))

theorem reads_of_readWord {letters text rest : Text} {v result : Json}
    (plain : ∀ c ∈ letters, Allowed c) (read : readWord letters v text = some (result, rest)) :
    Reads text rest := by
  rw [readWord] at read
  split_ifs at read with same
  cases read
  refine ⟨letters, ?_, plain⟩
  conv_lhs => rw [← List.take_append_drop letters.length text, same]

theorem reads_of_readNumber {text rest : Text} {v : Json}
    (read : readNumber text = some (v, rest)) :
    Reads text rest := by
  rw [readNumber] at read
  split_ifs at read
  cases read
  exact ⟨text.takeWhile isNumeralChar, List.takeWhile_append_dropWhile.symm,
    fun _ found => allowed_of_isNumeralChar (List.all_eq_true.mp List.all_takeWhile _ found)⟩

theorem reads_of_readValue {rounds : Nat} {text rest : Text} {v : Json}
    (read : readValue rounds text = some (v, rest)) : Reads text rest := by
  induction rounds generalizing text rest v with
  | zero => cases read
  | succ rounds ih =>
    rw [readValue] at read
    have spaces := reads_skipSpace text
    split at read
    · cases read
    · rename_i c others found
      rw [found] at spaces
      refine spaces.trans ?_
      split_ifs at read with brace bracket quoted n t f
      · obtain ⟨⟨members, last⟩, listRead, same⟩ := Option.map_eq_some_iff.mp read
        cases same
        subst brace
        exact .step (.inl (by decide)) ((reads_of_listOf (reads_of_readMember ih) listRead).trans
          (.step (.inl (by decide)) (.refl _)))
      · obtain ⟨⟨items, last⟩, listRead, same⟩ := Option.map_eq_some_iff.mp read
        cases same
        subst bracket
        exact .step (.inl (by decide)) ((reads_of_listOf ih listRead).trans
          (.step (.inl (by decide)) (.refl _)))
      · obtain ⟨⟨string, last⟩, stringRead, same⟩ := Option.map_eq_some_iff.mp read
        cases same
        subst quoted
        exact .step (.inl (by decide)) (reads_of_readString stringRead)
      · subst n
        exact .step (.inl (by decide)) (reads_of_readWord (plain_word rfl) read)
      · subst t
        exact .step (.inl (by decide)) (reads_of_readWord (plain_word rfl) read)
      · subst f
        exact .step (.inl (by decide)) (reads_of_readWord (plain_word rfl) read)
      · exact reads_of_readNumber read

/-- **A text that is read has no control characters, white space apart.** -/
theorem allowed_of_parse {text : Text} {v : Json} (read : parse text = some v) : ∀ c ∈ text,
    Allowed c := by
  rw [parse] at read
  split at read
  · rename_i result rest found
    split_ifs at read with blank
    obtain ⟨front, rfl, allowed⟩ := reads_of_readValue found
    intro c member
    exact (List.mem_append.mp member).elim (allowed c)
      fun later => .inr (List.all_eq_true.mp blank c later)
  · cases read

theorem parse_eq_none_of_mem {text : Text} {c : Char} (control : ¬ Allowed c) (member : c ∈ text) :
    parse text = none :=
  Option.eq_none_iff_forall_ne_some.mpr fun _ read => control (allowed_of_parse read c member)

/-- **A text that opens a brace and is read ends in one, white space apart.** -/
theorem brace_closed {text : Text} {v : Json} (read : parse ('{' :: text) = some v) :
    ∃ front rest, '{' :: text = front ++ '}' :: rest ∧ rest.all isSpace = true := by
  rw [parse] at read
  split at read
  · rename_i result rest found
    split_ifs at read with blank
    simp only [readValue, skipSpace_cons (show isSpace '{' = false by decide), if_true] at found
    obtain ⟨⟨members, last⟩, listRead, same⟩ := Option.map_eq_some_iff.mp found
    cases same
    obtain ⟨front, written, -⟩ := reads_of_listOf (reads_of_readMember reads_of_readValue) listRead
    exact ⟨'{' :: front, last, congrArg (List.cons '{') written, blank⟩
  · cases read

theorem parse_eq_none_of_unclosed {text : Text} {c : Char} (solid : isSpace c = false)
    (open_ : c ≠ '}') :
    parse ('{' :: (text ++ [c])) = none := by
  refine Option.eq_none_iff_forall_ne_some.mpr fun v read => ?_
  obtain ⟨front, rest, written, blank⟩ := brace_closed read
  have last := congrArg List.getLast? written
  rw [← List.cons_append, List.getLast?_concat, List.getLast?_append_cons] at last
  rcases List.eq_nil_or_concat rest with rfl | ⟨others, d, rfl⟩
  · exact open_ (Option.some.inj last)
  · rw [List.concat_eq_append] at last blank
    rw [← List.cons_append, List.getLast?_concat] at last
    obtain rfl := Option.some.inj last
    have space := List.all_eq_true.mp blank c (List.mem_append_right _ List.mem_cons_self)
    rw [solid] at space
    exact Bool.false_ne_true space

end Json

end Cidrella
