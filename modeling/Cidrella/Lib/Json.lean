import Cidrella.Lib.Text
import Mathlib.Tactic.NormNum.Basic
import Mathlib.Algebra.Order.Field.Rat
import Mathlib.Data.List.TakeWhile

/-!
# JSON

Values, the text `stringify` writes for a value, and a reader that follows the grammar.  A
number keeps the text it is written with, and an object its members in the order written; a
member is looked up as the last of its name, which is the one that stands in the object read.
Members are put as into an object: where the name stands, or else behind the others, array
indices first (`find?_put`, `find?_spread`).
-/

set_option autoImplicit false

namespace Cidrella

namespace Json

open Text (isHexDigit digitValue readDigits)

/-! ## Numbers -/

/-- The characters of numbers. -/
def isNumeralChar (c : Char) : Bool :=
  c.isDigit || c = '-' || c = '+' || c = '.' || c = 'e' || c = 'E'

/-- One digit or more, read in base ten. -/
def natural (digits : Text) : Option Nat :=
  if digits ≠ [] ∧ digits.all Char.isDigit then some (readDigits 10 digits) else none

/-- The digits of a fraction, if there is one, and what follows. -/
def fraction : Text → Option (Text × Text)
  | '.' :: rest =>
    if rest.takeWhile Char.isDigit = [] then none
    else some (rest.takeWhile Char.isDigit, rest.dropWhile Char.isDigit)
  | text => some ([], text)

/-- The exponent, if there is one. -/
def exponent : Text → Option Int
  | [] => some 0
  | c :: rest =>
    if c = 'e' ∨ c = 'E' then
      match rest with
      | '-' :: digits => (natural digits).map fun n => -(n : Int)
      | '+' :: digits => (natural digits).map Int.ofNat
      | digits => (natural digits).map Int.ofNat
    else none

/-- The value of a number without its sign. -/
def magnitude (text : Text) : Option ℚ := do
  let whole := text.takeWhile Char.isDigit
  -- a number of several digits does not start with zero
  let _ ← if whole = ['0'] ∨ (whole ≠ [] ∧ whole.head? ≠ some '0') then some () else none
  let (digits, rest) ← fraction (text.dropWhile Char.isDigit)
  let power ← exponent rest
  some (readDigits 10 (whole ++ digits) * (10 : ℚ) ^ (power - digits.length))

/-- The value of a number, if the text is one. -/
def numeralValue : Text → Option ℚ
  | '-' :: rest => (magnitude rest).map fun n => -n
  | text => magnitude text

/-- A number as it is written. -/
structure Numeral where
  text : Text
  plain : text.all isNumeralChar = true
  valid : (numeralValue text).isSome = true

/-- The value of a number. -/
def Numeral.value (n : Numeral) : ℚ := (numeralValue n.text).get n.valid

end Json

open Json in
/-- A JSON value. -/
inductive Json where
  | null
  | bool (value : Bool)
  | number (numeral : Numeral)
  | string (text : Text)
  | array (items : List Json)
  | object (members : List (Text × Json))

namespace Json

open Text (isHexDigit digitValue readDigits)

@[elab_as_elim]
theorem induct {P : Json → Prop} (null : P .null) (bool : ∀ value, P (.bool value))
    (number : ∀ numeral, P (.number numeral)) (string : ∀ text, P (.string text))
    (array : ∀ items, (∀ item ∈ items, P item) → P (.array items))
    (object : ∀ members, (∀ named ∈ members, P named.2) → P (.object members)) (v : Json) : P v :=
  @Json.rec P (fun items => ∀ item ∈ items, P item) (fun members => ∀ named ∈ members, P named.2)
    (fun named => P named.2) null bool number string array object
    (List.forall_mem_nil _) (fun _ _ first others => List.forall_mem_cons.mpr ⟨first, others⟩)
    (List.forall_mem_nil _) (fun _ _ first others => List.forall_mem_cons.mpr ⟨first, others⟩)
    (fun _ _ held => held) v

/-! ## Members of an object -/

/-- The member of a name: the last one, when several are written. -/
def find? (name : Text) : List (Text × Json) → Option Json
  | [] => none
  | (other, value) :: members => (find? name members).or (if other = name then some value else none)

/-- `value[name]`. -/
def get? (name : Text) : Json → Option Json
  | .object members => find? name members
  | _ => none

/-- The number a name is an array index with, if it is one.  The members with such names come
first in an object, in their numbers' order. -/
def arrayIndex (name : Text) : Option Nat :=
  if Nat.toDigits 10 (readDigits 10 name) = name ∧ readDigits 10 name < 2 ^ 32 - 1 then
    some (readDigits 10 name)
  else none

/-- A member of a new name is put behind the array indices below its own, or else last. -/
def standsBefore (name : Text) (member : Text × Json) : Bool :=
  match arrayIndex name, arrayIndex member.1 with
  | some index, some other => decide (other < index)
  | some _, none => false
  | none, _ => true

/-- `members[name] = value`. -/
def put (members : List (Text × Json)) (name : Text) (value : Json) : List (Text × Json) :=
  if name ∈ members.map Prod.fst then
    members.map fun member => if member.1 = name then (name, value) else member
  else members.takeWhile (standsBefore name) ++ (name, value) :: members.dropWhile
    (standsBefore name)

/-- `{ ...members, ...others }`. -/
def spread (members others : List (Text × Json)) : List (Text × Json) :=
  others.foldl (fun members member => put members member.1 member.2) members

/-! ## Writing -/

/-- The letter behind a backslash that stands for a character, if it has one. -/
def shortEscape (c : Char) : Option Char :=
  if c = '"' then some '"'
  else if c = '\\' then some '\\'
  else if c = '\x08' then some 'b'
  else if c = '\t' then some 't'
  else if c = '\n' then some 'n'
  else if c = '\x0c' then some 'f'
  else if c = '\r' then some 'r'
  else none

/-- A character inside a string. -/
def escape (c : Char) : Text :=
  match shortEscape c with
  | some letter => ['\\', letter]
  | none =>
    if c.toNat < 0x20 then
      ['\\', 'u', '0', '0', (c.toNat / 16).digitChar, (c.toNat % 16).digitChar]
    else [c]

/-- A string. -/
def quote (text : Text) : Text := '"' :: (text.flatMap escape ++ ['"'])

mutual
/-- `JSON.stringify(value)`. -/
def stringify : Json → Text
  | .null => ['n', 'u', 'l', 'l']
  | .bool true => ['t', 'r', 'u', 'e']
  | .bool false => ['f', 'a', 'l', 's', 'e']
  | .number numeral => numeral.text
  | .string text => quote text
  | .array [] => ['[', ']']
  | .array (item :: items) => '[' :: (stringify item ++ (moreItems items ++ [']']))
  | .object [] => ['{', '}']
  | .object ((name, value) :: members) =>
    '{' :: (quote name ++ ':' :: (stringify value ++ (moreMembers members ++ ['}'])))

/-- The items after the first. -/
def moreItems : List Json → Text
  | [] => []
  | item :: items => ',' :: (stringify item ++ moreItems items)

/-- The members after the first. -/
def moreMembers : List (Text × Json) → Text
  | [] => []
  | (name, value) :: members => ',' ::
      (quote name ++ ':' :: (stringify value ++ moreMembers members))
end

/-! ## Reading -/

/-- White space between tokens. -/
def isSpace (c : Char) : Bool := c = ' ' || c = '\t' || c = '\n' || c = '\r'

def skipSpace (text : Text) : Text := text.dropWhile isSpace

/-- A part of a string: a character, or a code unit written in hexadecimal. -/
inductive Piece where
  | char (c : Char)
  | codeUnit (n : Nat)

/-- The character a letter behind a backslash stands for. -/
def unescape (letter : Char) : Option Char :=
  if letter = '"' ∨ letter = '\\' ∨ letter = '/' then some letter
  else if letter = 'b' then some '\x08'
  else if letter = 't' then some '\t'
  else if letter = 'n' then some '\n'
  else if letter = 'f' then some '\x0c'
  else if letter = 'r' then some '\r'
  else none

/-- The next part of a string. -/
def piece : Text → Option (Piece × Text)
  | [] => none
  | c :: rest =>
    if c = '\\' then
      match rest with
      | [] => none
      | letter :: rest =>
        if letter = 'u' then
          if 4 ≤ rest.length ∧ (rest.take 4).all isHexDigit then
            some (.codeUnit (readDigits 16 (rest.take 4)), rest.drop 4)
          else none
        else (unescape letter).map fun c => (.char c, rest)
    else if c.toNat < 0x20 then none
    else some (.char c, rest)

/-- The parts of a string up to its closing quote. -/
def pieces : Nat → Text → Option (List Piece × Text)
  | 0, _ => none
  | _ + 1, [] => none
  | rounds + 1, c :: rest =>
    if c = '"' then some ([], rest)
    else do
      let (first, rest) ← piece (c :: rest)
      let (others, rest) ← pieces rounds rest
      some (first :: others, rest)

def isHighSurrogate (n : Nat) : Bool := 0xd800 ≤ n && n < 0xdc00

def isLowSurrogate (n : Nat) : Bool := 0xdc00 ≤ n && n < 0xe000

/-- The text of a string's parts.  Two surrogates that make a pair are one character; one
alone is no character and is replaced. -/
def assemble : List Piece → Text
  | [] => []
  | .char c :: parts => c :: assemble parts
  | .codeUnit high :: .codeUnit low :: parts =>
    if isHighSurrogate high && isLowSurrogate low then
      Char.ofNat (0x10000 + (high - 0xd800) * 0x400 + (low - 0xdc00)) :: assemble parts
    else
      (if isHighSurrogate high || isLowSurrogate high then '\ufffd' else Char.ofNat high) ::
        assemble (.codeUnit low :: parts)
  | .codeUnit n :: parts =>
    (if isHighSurrogate n || isLowSurrogate n then '\ufffd' else Char.ofNat n) :: assemble parts

/-- A string behind its opening quote. -/
def readString (text : Text) : Option (Text × Text) :=
  (pieces text.length text).map fun (parts, rest) => (assemble parts, rest)

section
variable {α : Type}

/-- What stands behind the first item of a list: items behind commas, and the end. -/
def moreOf (item : Text → Option (α × Text)) (close : Char) : Nat → Text → Option (List α × Text)
  | 0, _ => none
  | rounds + 1, text =>
    match skipSpace text with
    | [] => none
    | c :: rest =>
      if c = close then some ([], rest)
      else if c = ',' then do
        let (first, rest) ← item rest
        let (others, rest) ← moreOf item close rounds rest
        some (first :: others, rest)
      else none

/-- A list behind its opening bracket. -/
def listOf (item : Text → Option (α × Text)) (close : Char) (rounds : Nat) (text : Text) :
    Option (List α × Text) :=
  match skipSpace text with
  | [] => none
  | c :: rest =>
    if c = close then some ([], rest)
    else do
      let (first, rest) ← item (c :: rest)
      let (others, rest) ← moreOf item close rounds rest
      some (first :: others, rest)

end

/-- A member of an object. -/
def readMember (readValue : Text → Option (Json × Text)) (text : Text) :
    Option ((Text × Json) × Text) :=
  match skipSpace text with
  | [] => none
  | c :: rest =>
    if c = '"' then do
      let (name, rest) ← readString rest
      match skipSpace rest with
      | [] => none
      | c :: rest =>
        if c = ':' then do
          let (value, rest) ← readValue rest
          some ((name, value), rest)
        else none
    else none

/-- A word that stands for a value. -/
def readWord (letters : Text) (value : Json) (text : Text) : Option (Json × Text) :=
  if text.take letters.length = letters then some (value, text.drop letters.length) else none

/-- A number: a run of the characters of numbers that is one. -/
def readNumber (text : Text) : Option (Json × Text) :=
  if written : (text.takeWhile isNumeralChar).all isNumeralChar = true ∧
      (numeralValue (text.takeWhile isNumeralChar)).isSome = true then
    some (.number ⟨text.takeWhile isNumeralChar, written.1, written.2⟩,
      text.dropWhile isNumeralChar)
  else none

/-- The value a text starts with, and what follows it. -/
def readValue : Nat → Text → Option (Json × Text)
  | 0, _ => none
  | rounds + 1, text =>
    match skipSpace text with
    | [] => none
    | c :: rest =>
      if c = '{' then
        (listOf (readMember (readValue rounds)) '}' rounds rest).map fun (members, rest) =>
          (.object members, rest)
      else if c = '[' then
        (listOf (readValue rounds) ']' rounds rest).map fun (items, rest) => (.array items, rest)
      else if c = '"' then (readString rest).map fun (text, rest) => (.string text, rest)
      else if c = 'n' then readWord ['u', 'l', 'l'] .null rest
      else if c = 't' then readWord ['r', 'u', 'e'] (.bool true) rest
      else if c = 'f' then readWord ['a', 'l', 's', 'e'] (.bool false) rest
      else readNumber (c :: rest)

/-- `JSON.parse(text)`, if it does not throw.  A value takes as many rounds as it has
characters at most. -/
def parse (text : Text) : Option Json :=
  match readValue (text.length + 1) text with
  | some (value, rest) => if rest.all isSpace then some value else none
  | none => none

/-! ## Members that are put -/

theorem find?_append (name : Text) (members others : List (Text × Json)) :
    find? name (members ++ others) = (find? name others).or (find? name members) := by
  induction members with
  | nil => rw [List.nil_append, find?, Option.or_none]
  | cons member members ih =>
    obtain ⟨other, value⟩ := member
    rw [List.cons_append, find?, find?, ih, Option.or_assoc]

theorem find?_eq_none {name : Text} {members : List (Text × Json)}
    (absent : name ∉ members.map Prod.fst) :
    find? name members = none := by
  induction members with
  | nil => rfl
  | cons member members ih =>
    obtain ⟨other, value⟩ := member
    rw [List.map_cons, List.mem_cons, not_or] at absent
    rw [find?, ih absent.2, if_neg fun same => absent.1 same.symm, Option.or_none]

theorem find?_replace_self {name : Text} {value : Json} {members : List (Text × Json)}
    (present : name ∈ members.map Prod.fst) :
    find? name (members.map fun member => if member.1 = name then (name, value) else member) =
    some value := by
  induction members with
  | nil => cases present
  | cons member members ih =>
    obtain ⟨other, old⟩ := member
    rw [List.map_cons]
    by_cases later : name ∈ members.map Prod.fst
    · rw [find?, ih later, Option.some_or]
    · have same : other = name := by
        rw [List.map_cons, List.mem_cons] at present
        exact (present.resolve_right later).symm
      have kept : find? name (members.map fun member => if member.1 = name then (name, value)
          else member) = none := by
        refine find?_eq_none fun found => later ?_
        rw [List.map_map] at found
        obtain ⟨member, inside, named⟩ := List.mem_map.mp found
        refine List.mem_map.mpr ⟨member, inside, ?_⟩
        rw [Function.comp_apply] at named
        split_ifs at named with already
        · exact already
        · exact named
      rw [if_pos same, find?, kept, if_pos rfl, Option.none_or]

theorem find?_replace_other {name wanted : Text} (other : name ≠ wanted) (value : Json)
    (members : List (Text × Json)) :
    find? wanted (members.map fun member => if member.1 = name then (name, value) else member) =
      find? wanted members := by
  induction members with
  | nil => rfl
  | cons member members ih =>
    obtain ⟨key, old⟩ := member
    rw [List.map_cons, find?, find?, ih]
    dsimp only
    by_cases same : key = name
    · rw [if_pos same, if_neg other, if_neg fun wanted' => other (same.symm.trans wanted')]
    · rw [if_neg same]

theorem find?_put (name : Text) (value : Json) (wanted : Text) (members : List (Text × Json)) :
    find? wanted (put members name value) = if name = wanted then some value
    else find? wanted members := by
  rw [put]
  split_ifs with present same same
  · subst same
    exact find?_replace_self present
  · exact find?_replace_other same value members
  · subst same
    have absent : name ∉ (members.dropWhile (standsBefore name)).map Prod.fst := fun found =>
      present (List.map_subset _ (List.dropWhile_sublist _).subset found)
    rw [find?_append, find?, find?_eq_none absent, if_pos rfl, Option.none_or, Option.some_or]
  · rw [find?_append, find?, if_neg same, Option.or_none, ← find?_append,
      List.takeWhile_append_dropWhile]

theorem find?_spread (wanted : Text) (members others : List (Text × Json)) :
    find? wanted (spread members others) = (find? wanted others).or (find? wanted members) := by
  induction others generalizing members with
  | nil => rfl
  | cons member others ih =>
    obtain ⟨name, value⟩ := member
    rw [spread, List.foldl_cons, ← spread, ih, find?_put, find?, Option.or_assoc]
    congr 1
    split_ifs <;> rfl

theorem put_new {name : Text} {members : List (Text × Json)} (index : arrayIndex name = none)
    (absent : name ∉ members.map Prod.fst) (value : Json) :
    put members name value = members ++ [(name, value)] := by
  have before : ∀ member ∈ members, standsBefore name member = true := fun member _ => by
    simp only [standsBefore, index]
  have back : members.dropWhile (standsBefore name) = [] := List.dropWhile_eq_nil_iff.mpr before
  have front : members.takeWhile (standsBefore name) = members := by
    have whole := List.takeWhile_append_dropWhile (p := standsBefore name) (l := members)
    rwa [back, List.append_nil] at whole
  rw [put, if_neg absent, front, back]

theorem put_replace {name : Text} {front back : List (Text × Json)}
    (notFront : name ∉ front.map Prod.fst) (notBack : name ∉ back.map Prod.fst) (old value : Json) :
    put (front ++ (name, old) :: back) name value = front ++ (name, value) :: back := by
  have kept {members : List (Text × Json)} (absent : name ∉ members.map Prod.fst) :
      (members.map fun member => if member.1 = name then (name, value) else member) = members := by
    refine (List.map_congr_left fun member inside => if_neg fun same => absent ?_).trans
      (List.map_id members)
    exact same ▸ List.mem_map_of_mem inside
  have present : name ∈ (front ++ (name, old) :: back).map Prod.fst := by
    rw [List.map_append, List.map_cons]
    exact List.mem_append_right _ List.mem_cons_self
  rw [put, if_pos present, List.map_append, List.map_cons, kept notFront, kept notBack, if_pos rfl]

theorem mem_names_put {name other : Text} {value : Json} {members : List (Text × Json)}
    (member : other ∈ (put members name value).map Prod.fst) : other = name ∨
    other ∈ members.map Prod.fst := by
  rw [put] at member
  split_ifs at member with present
  · rw [List.map_map] at member
    obtain ⟨found, inside, same⟩ := List.mem_map.mp member
    rw [Function.comp_apply] at same
    split_ifs at same
    · exact .inl same.symm
    · exact .inr (same ▸ List.mem_map_of_mem inside)
  · rw [List.map_append, List.map_cons, List.mem_append, List.mem_cons] at member
    obtain front | rfl | back := member
    · exact .inr (List.map_subset _ (List.takeWhile_sublist _).subset front)
    · exact .inl rfl
    · exact .inr (List.map_subset _ (List.dropWhile_sublist _).subset back)

theorem mem_names_spread {name : Text} {members others : List (Text × Json)}
    (member : name ∈ (spread members others).map Prod.fst) :
    name ∈ members.map Prod.fst ∨ name ∈ others.map Prod.fst := by
  induction others generalizing members with
  | nil => exact .inl member
  | cons other others ih =>
    rw [List.map_cons, List.mem_cons]
    obtain found | later := ih member
    · obtain rfl | old := mem_names_put found
      · exact .inr (.inl rfl)
      · exact .inl old
    · exact .inr (.inr later)

/-! ## Numbers in decimal digits -/

theorem isNumeralChar_of_isDigit {c : Char} (digit : c.isDigit = true) :
    isNumeralChar c = true := by
  rw [isNumeralChar, digit]
  rfl

theorem isDigit_of_mem_toDigits {n : Nat} {c : Char} (member : c ∈ Nat.toDigits 10 n) :
    c.isDigit = true :=
  Text.forall_mem_toDigits (by decide) (fun c => c.isDigit = true)
    (fun _ small => Text.isDigit_digitChar small) n c member

theorem head?_toDigits {n : Nat} (positive : n ≠ 0) : (Nat.toDigits 10 n).head? ≠ some '0' := by
  induction n using Nat.strong_induction_on with
  | _ n ih =>
    rw [Nat.toDigits_eq_if (by decide)]
    split_ifs with small
    · interval_cases n
      · exact absurd rfl positive
      all_goals decide
    · rw [List.head?_append_of_ne_nil _ Nat.toDigits_ne_nil]
      exact ih (n / 10) (by omega) (by omega)

theorem magnitude_toDigits (n : Nat) : magnitude (Nat.toDigits 10 n) = some (n : ℚ) := by
  have digits : ∀ c ∈ Nat.toDigits 10 n, c.isDigit = true :=
    fun _ member => isDigit_of_mem_toDigits member
  have back : (Nat.toDigits 10 n).dropWhile Char.isDigit = [] :=
    List.dropWhile_eq_nil_iff.mpr digits
  have front : (Nat.toDigits 10 n).takeWhile Char.isDigit = Nat.toDigits 10 n := by
    have whole := List.takeWhile_append_dropWhile (p := Char.isDigit) (l := Nat.toDigits 10 n)
    rwa [back, List.append_nil] at whole
  have plain : Nat.toDigits 10 n = ['0'] ∨
      (Nat.toDigits 10 n ≠ [] ∧ (Nat.toDigits 10 n).head? ≠ some '0') := by
    by_cases zero : n = 0
    · subst zero
      exact .inl rfl
    · exact .inr ⟨Nat.toDigits_ne_nil, head?_toDigits zero⟩
  simp only [magnitude, front, back, if_pos plain, fraction, exponent, Option.bind_eq_bind,
    Option.bind_some, List.append_nil, Text.readDigits_toDigits (show 1 < 10 by decide)
    (show 10 ≤ 16 by decide), List.length_nil, Nat.cast_zero, sub_zero, zpow_zero, mul_one]

theorem numeralValue_toDigits (n : Nat) : numeralValue (Nat.toDigits 10 n) = some (n : ℚ) := by
  rw [numeralValue]
  · exact magnitude_toDigits n
  · intro rest minus
    have digit : ('-').isDigit = true := isDigit_of_mem_toDigits (minus ▸ List.mem_cons_self)
    exact absurd digit (by decide)

/-- A natural number as JavaScript writes it. -/
def decimal (n : Nat) : Numeral where
  text := Nat.toDigits 10 n
  plain := List.all_eq_true.mpr fun _ member => isNumeralChar_of_isDigit
    (isDigit_of_mem_toDigits member)
  valid := by rw [numeralValue_toDigits, Option.isSome_some]

theorem value_decimal (n : Nat) : (decimal n).value = n := by
  simp only [Numeral.value, decimal, numeralValue_toDigits, Option.get_some]

end Json

end Cidrella
