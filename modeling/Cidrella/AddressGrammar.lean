import Cidrella.AddressRoundTrip

/-!
# The address grammar

What `parseIp` accepts, stated without a parser. A `DottedQuad` is four decimal octets;
an `Ipv6Literal` is eight groups, or fewer with `::` standing for the zero groups left
out, where a dotted quad in final position may stand for the last two. A `Literal` is
one of these, and an IPv6 one may carry a zone.

`parseIp_iff_literal` says that the parser accepts exactly the literals, and that what
it returns is the positional value of the groups. The one exception is `foldMapped`: a
value in `::ffff:0:0/96` is the IPv4 address in its low 32 bits. With the option
`mapV4` off there is no exception.

The parser cuts a text at `::` and at `:` and patches the list of parts; the grammar
joins parts. Both directions go through `readParts`, which is the parser after the cut.
-/

set_option autoImplicit false

namespace Cidrella

namespace Address

open Text

/-! ## The grammar -/

/-- An octet: one to three decimal digits, at most 255. Leading zeros are allowed. -/
def IsOctetText (text : Text) : Prop :=
  1 ≤ text.length ∧ text.length ≤ 3 ∧ (∀ c ∈ text, c.isDigit = true) ∧ readDigits 10 text ≤ 255

/-- A group: one to four hexadecimal digits. -/
def IsGroupText (text : Text) : Prop :=
  1 ≤ text.length ∧ text.length ≤ 4 ∧ ∀ c ∈ text, isHexDigit c = true

/-- The number that digits in a base stand for, each part `scale` times the next. -/
def positional (base scale : Nat) : List Text → Nat
  | [] => 0
  | part :: parts => readDigits base part * scale ^ parts.length + positional base scale parts

/-- Four octets with dots between them. -/
inductive DottedQuad : Text → Nat → Prop
  | intro {a b c d : Text} (octets : ∀ octet ∈ [a, b, c, d], IsOctetText octet) :
      DottedQuad (a ++ '.' :: b ++ '.' :: c ++ '.' :: d) (positional 10 256 [a, b, c, d])

/-- Groups with colons between them. -/
abbrev joined (parts : List Text) : Text := [':'].intercalate parts

/-- An IPv6 address without a zone, and its value: the value of its groups, and of the
dotted quad that may stand for the last two. -/
inductive Ipv6Literal : Text → Nat → Prop
  | full {groups : List Text} (hex : ∀ group ∈ groups, IsGroupText group)
      (eight : groups.length = 8) :
      Ipv6Literal (joined groups) (positional 16 65536 groups)
  | fullQuad {groups : List Text} {quad : Text} {value : Nat}
      (hex : ∀ group ∈ groups, IsGroupText group) (six : groups.length = 6)
      (dotted : DottedQuad quad value) :
      Ipv6Literal (joined (groups ++ [quad])) (positional 16 65536 groups * 65536 ^ 2 + value)
  | short {head tail : List Text} (hexHead : ∀ group ∈ head, IsGroupText group)
      (hexTail : ∀ group ∈ tail, IsGroupText group) (room : head.length + tail.length ≤ 7) :
      Ipv6Literal (joined head ++ ':' :: ':' :: joined tail)
        (positional 16 65536 head * 65536 ^ (8 - head.length) + positional 16 65536 tail)
  | shortQuad {head tail : List Text} {quad : Text} {value : Nat}
      (hexHead : ∀ group ∈ head, IsGroupText group)
      (hexTail : ∀ group ∈ tail, IsGroupText group) (room : head.length + tail.length ≤ 5)
      (dotted : DottedQuad quad value) :
      Ipv6Literal (joined head ++ ':' :: ':' :: joined (tail ++ [quad]))
        (positional 16 65536 head * 65536 ^ (8 - head.length) +
          positional 16 65536 tail * 65536 ^ 2 + value)

/-- An address literal, with its value, its width and its zone. -/
inductive Literal : Text → ParsedIp → Prop
  | quad {text : Text} {value : Nat} : DottedQuad text value →
      Literal text ⟨value, ipv4Bits, none⟩
  | groups {text : Text} {value : Nat} : Ipv6Literal text value →
      Literal text ⟨value, ipv6Bits, none⟩
  | zoned {text zone : Text} {value : Nat} : Ipv6Literal text value → zone ≠ [] →
      Literal (text ++ '%' :: zone) ⟨value, ipv6Bits, some zone⟩

/-- The IPv4 address an IPv4-mapped one stands for; any other address itself. -/
def ParsedIp.foldMapped (parsed : ParsedIp) : ParsedIp :=
  if parsed.bits = ipv6Bits ∧ parsed.value / 2 ^ 32 = 0xffff then
    ⟨parsed.value % 2 ^ 32, ipv4Bits, parsed.zoneId⟩
  else parsed

/-! ## Parts that are read -/

theorem isGroup_iff {text : Text} : isGroup text = true ↔ IsGroupText text := by
  simp only [isGroup, IsGroupText, Bool.and_eq_true, decide_eq_true_eq, List.all_eq_true, and_assoc]

theorem octet_iff {text : Text} :
    (isOctet text && readDigits 10 text ≤ 255) = true ↔ IsOctetText text := by
  simp only [isOctet, IsOctetText, Bool.and_eq_true, decide_eq_true_eq, List.all_eq_true, and_assoc]

theorem mapM_guard_iff {α β : Type} {parse : β → Option α} {ok : β → Prop} {read : β → α}
    (accepted : ∀ text value, parse text = some value ↔ ok text ∧ value = read text)
    (texts : List β) (values : List α) :
    texts.mapM parse = some values ↔ (∀ text ∈ texts, ok text) ∧ values = texts.map read := by
  induction texts generalizing values with
  | nil => simp [eq_comm]
  | cons text texts ih =>
    rw [List.mapM_cons]
    constructor
    · intro done
      obtain ⟨value, first, done⟩ := Option.bind_eq_some_iff.mp done
      obtain ⟨others, rest, done⟩ := Option.bind_eq_some_iff.mp done
      obtain ⟨okText, rfl⟩ := (accepted text value).mp first
      obtain ⟨okRest, rfl⟩ := (ih others).mp rest
      obtain rfl := Option.some.inj done
      exact ⟨List.forall_mem_cons.mpr ⟨okText, okRest⟩, rfl⟩
    · rintro ⟨okAll, rfl⟩
      obtain ⟨okText, okRest⟩ := List.forall_mem_cons.mp okAll
      have first := (accepted text (read text)).mpr ⟨okText, rfl⟩
      have rest := (ih (texts.map read)).mpr ⟨okRest, rfl⟩
      simp [first, rest]

theorem parseGroup_eq_some_iff (text : Text) (value : Nat) :
    parseGroup text = some value ↔ IsGroupText text ∧ value = readDigits 16 text := by
  rw [parseGroup, ← isGroup_iff]
  by_cases group : isGroup text = true
  · simp [group, eq_comm]
  · simp [group]

theorem parseOctet_eq_some_iff (text : Text) (value : Nat) :
    parseOctet text = some value ↔ IsOctetText text ∧ value = readDigits 10 text := by
  rw [parseOctet, ← octet_iff]
  by_cases octet : (isOctet text && readDigits 10 text ≤ 255) = true
  · rw [if_pos octet]
    simp [octet, eq_comm]
  · rw [if_neg octet]
    simp [octet]

theorem joinGroups_eq_positional (width base : Nat) (parts : List Text) :
    joinGroups width (parts.map (readDigits base)) = positional base (2 ^ width) parts := by
  induction parts with
  | nil => rfl
  | cons part parts ih =>
    rw [List.map_cons, joinGroups_cons, ih, List.length_map, positional, pow_mul]

theorem positional_append (base scale : Nat) (left right : List Text) :
    positional base scale (left ++ right) =
      positional base scale left * scale ^ right.length + positional base scale right := by
  induction left with
  | nil => simp [positional]
  | cons part left ih =>
    rw [List.cons_append, positional, ih, positional, List.length_append, pow_add]
    ring

theorem positional_zeros (base scale count : Nat) :
    positional base scale (List.replicate count ['0']) = 0 := by
  induction count with
  | zero => rfl
  | succ count ih =>
    have zero : readDigits base ['0'] = 0 := by simp [readDigits, digitValue]
    rw [List.replicate_succ, positional, ih, zero, Nat.zero_mul]

/-! ## Dotted quads -/

theorem dot_not_mem_octet {text : Text} (octet : IsOctetText text) : '.' ∉ text := fun member =>
  absurd (octet.2.2.1 '.' member) (by decide)

theorem quad_eq_intercalate (a b c d : Text) :
    a ++ '.' :: b ++ '.' :: c ++ '.' :: d = ['.'].intercalate [a, b, c, d] := by
  simp [List.intercalate_cons_cons]

/-- **`parseV4` accepts exactly the dotted quads.** -/
theorem parseV4_eq_some_iff (text : Text) (value : Nat) :
    parseV4 text = some value ↔ DottedQuad text value := by
  constructor
  · intro done
    simp only [parseV4] at done
    split at done
    · cases done
    · rename_i four
      obtain ⟨values, read, done⟩ := Option.bind_eq_some_iff.mp done
      obtain ⟨octets, rfl⟩ := (mapM_guard_iff parseOctet_eq_some_iff _ _).mp read
      obtain rfl := Option.some.inj done
      have whole : ['.'].intercalate (text.splitOn '.') = text := List.intercalate_splitOn '.'
      obtain ⟨a, b, c, d, parts⟩ := List.length_eq_four.mp (not_not.mp four)
      rw [parts] at octets whole ⊢
      rw [← whole, joinGroups_eq_positional, ← quad_eq_intercalate]
      exact .intro octets
  · rintro ⟨octets⟩
    rename_i a b c d
    have cut : (['.'].intercalate [a, b, c, d]).splitOn '.' = [a, b, c, d] :=
      List.splitOn_intercalate '.' (fun octet member => dot_not_mem_octet (octets octet member))
        (by simp)
    have read := (mapM_guard_iff parseOctet_eq_some_iff [a, b, c, d] _).mpr ⟨octets, rfl⟩
    rw [quad_eq_intercalate, parseV4, cut, read]
    exact congrArg some (joinGroups_eq_positional 8 10 [a, b, c, d])

theorem isPlain_of_octet {text : Text} (octet : IsOctetText text) : ∀ c ∈ text, isPlain c = true :=
  fun c member => isPlain_of_isHexDigit (isHexDigit_of_isDigit (octet.2.2.1 c member))

theorem mem_quad {a b c d : Text} {x : Char} (member : x ∈ a ++ '.' :: b ++ '.' :: c ++ '.' :: d) :
    x = '.' ∨ ∃ octet ∈ [a, b, c, d], x ∈ octet := by
  rw [quad_eq_intercalate] at member
  exact mem_intercalate_singleton member

theorem DottedQuad.isPlain {text : Text} {value : Nat} (dotted : DottedQuad text value) :
    ∀ c ∈ text, isPlain c = true := by
  obtain ⟨octets⟩ := dotted
  intro c member
  rcases mem_quad member with rfl | ⟨octet, within, found⟩
  · rfl
  · exact isPlain_of_octet (octets octet within) c found

theorem DottedQuad.trimmed {text : Text} {value : Nat} (dotted : DottedQuad text value) :
    DottedQuad (trim text) value := by
  rwa [trim_of_isPlain dotted.isPlain]

theorem DottedQuad.colon_not_mem {text : Text} {value : Nat} (dotted : DottedQuad text value) :
    ':' ∉ text := by
  obtain ⟨octets⟩ := dotted
  intro member
  rcases mem_quad member with same | ⟨octet, within, found⟩
  · exact absurd same (by decide)
  · exact absurd ((octets octet within).2.2.1 ':' found) (by decide)

theorem DottedQuad.dot_mem {text : Text} {value : Nat} (dotted : DottedQuad text value) :
    '.' ∈ text := by
  obtain ⟨octets⟩ := dotted
  simp

theorem DottedQuad.ne_nil {text : Text} {value : Nat} (dotted : DottedQuad text value) :
    text ≠ [] :=
  List.ne_nil_of_mem dotted.dot_mem

/-! ## Groups and the zero groups between them -/

theorem colon_not_mem_group {text : Text} (group : IsGroupText text) : ':' ∉ text := fun member =>
  absurd (group.2.2 ':' member) (by decide)

theorem dot_not_mem_group {text : Text} (group : IsGroupText text) : '.' ∉ text := fun member =>
  absurd (group.2.2 '.' member) (by decide)

theorem group_ne_nil {text : Text} (group : IsGroupText text) : text ≠ [] :=
  List.ne_nil_of_length_pos group.1

theorem isGroupText_zero : IsGroupText ['0'] := ⟨by decide, by decide, by simp [isHexDigit]⟩

/-- How many groups are written out, all told. -/
def groupCount (trailing : Option Nat) : Nat := if trailing.isNone then 8 else 6

/-- The value of the groups and the dotted quad after them. -/
def withQuad (value : Nat) (trailing : Option Nat) : Nat :=
  match trailing with
  | some quad => value * 65536 ^ 2 + quad
  | none => value

theorem mapM_parseGroup (parts : List Text) (trailing : Option Nat) (value : Nat) :
    ((parts.mapM parseGroup).bind fun values =>
      some (match trailing with
        | some quad => (joinGroups 16 values <<< 32) + quad
        | none => joinGroups 16 values)) = some value ↔
      (∀ part ∈ parts, IsGroupText part) ∧
        value = withQuad (positional 16 65536 parts) trailing := by
  have shape : ∀ values, values = parts.map (readDigits 16) →
      (match trailing with
        | some quad => (joinGroups 16 values <<< 32) + quad
        | none => joinGroups 16 values) = withQuad (positional 16 65536 parts) trailing := by
    rintro values rfl
    have joins := joinGroups_eq_positional 16 16 parts
    cases trailing with
    | none => exact joins
    | some quad =>
      rw [joins, Nat.shiftLeft_eq]
      rfl
  constructor
  · intro done
    obtain ⟨values, read, done⟩ := Option.bind_eq_some_iff.mp done
    obtain ⟨groups, same⟩ := (mapM_guard_iff parseGroup_eq_some_iff _ _).mp read
    exact ⟨groups, (Option.some.inj done).symm.trans (shape values same)⟩
  · rintro ⟨groups, rfl⟩
    rw [(mapM_guard_iff parseGroup_eq_some_iff parts _).mpr ⟨groups, rfl⟩, Option.bind_some,
      shape _ rfl]

theorem joinHextets_eq (hasDoubleColon : Bool) (headCount : Nat) (parts : List Text)
    (trailing : Option Nat) :
    joinHextets hasDoubleColon headCount parts trailing =
      if hasDoubleColon && groupCount trailing ≤ parts.length then none
      else
        let filled := if hasDoubleColon then
            parts.take headCount ++ List.replicate (groupCount trailing - parts.length) ['0'] ++
              parts.drop headCount
          else parts
        if filled.length ≠ groupCount trailing then none
        else (filled.mapM parseGroup).bind fun values =>
          some (match trailing with
            | some quad => (joinGroups 16 values <<< 32) + quad
            | none => joinGroups 16 values) :=
  rfl

/-- Without `::`, all the groups are there. -/
theorem joinHextets_plain_iff (headCount : Nat) (parts : List Text) (trailing : Option Nat)
    (value : Nat) :
    joinHextets false headCount parts trailing = some value ↔
      parts.length = groupCount trailing ∧ (∀ part ∈ parts, IsGroupText part) ∧
        value = withQuad (positional 16 65536 parts) trailing := by
  simp only [joinHextets_eq, Bool.false_and, Bool.false_eq_true, if_false]
  rw [← mapM_parseGroup]
  by_cases all : parts.length = groupCount trailing
  · rw [if_neg (not_not.mpr all)]
    exact ⟨fun done => ⟨all, done⟩, fun both => both.2⟩
  · rw [if_pos all]
    simp [all]

/-- With `::`, there is room for at least one group, and the groups between the two
halves are zero. -/
theorem joinHextets_short_iff (head tail : List Text) (trailing : Option Nat) (value : Nat) :
    joinHextets true head.length (head ++ tail) trailing = some value ↔
      head.length + tail.length < groupCount trailing ∧ (∀ part ∈ head, IsGroupText part) ∧
        (∀ part ∈ tail, IsGroupText part) ∧
        value = withQuad (positional 16 65536 head * 65536 ^ (groupCount trailing - head.length) +
          positional 16 65536 tail) trailing := by
  have count : (head ++ tail).length = head.length + tail.length := List.length_append
  simp only [joinHextets_eq, Bool.true_and, decide_eq_true_eq, if_true, List.take_left,
    List.drop_left]
  by_cases room : head.length + tail.length < groupCount trailing
  · have enough : ¬ groupCount trailing ≤ (head ++ tail).length := by omega
    set zeros := List.replicate (groupCount trailing - (head ++ tail).length) ['0'] with zerosDef
    have zerosLength : zeros.length = groupCount trailing - (head.length + tail.length) := by
      rw [zerosDef, List.length_replicate, count]
    have all : (head ++ zeros ++ tail).length = groupCount trailing := by
      rw [List.length_append, List.length_append, zerosLength]
      omega
    have total : positional 16 65536 (head ++ zeros ++ tail) =
        positional 16 65536 head * 65536 ^ (groupCount trailing - head.length) +
          positional 16 65536 tail := by
      have shift : zeros.length + tail.length = groupCount trailing - head.length := by omega
      rw [List.append_assoc, positional_append, positional_append, zerosDef, positional_zeros,
        ← zerosDef, List.length_append, shift]
      omega
    have groups : (∀ part ∈ head ++ zeros ++ tail, IsGroupText part) ↔
        (∀ part ∈ head, IsGroupText part) ∧ ∀ part ∈ tail, IsGroupText part := by
      have zero : ∀ part ∈ zeros, IsGroupText part := by
        intro part member
        rw [List.eq_of_mem_replicate member]
        exact isGroupText_zero
      simp only [List.forall_mem_append]
      exact ⟨fun three => ⟨three.1.1, three.2⟩, fun two => ⟨⟨two.1, zero⟩, two.2⟩⟩
    rw [if_neg enough, if_neg (not_not.mpr all)]
    refine (mapM_parseGroup _ trailing value).trans ?_
    rw [groups, total, and_assoc]
    exact ⟨fun done => ⟨room, done⟩, fun done => done.2⟩
  · rw [if_pos (show groupCount trailing ≤ (head ++ tail).length by omega)]
    simp [room]

/-! ## The parser after the cut -/

/-- `parseV6` once the text is cut at `::` and at `:`. -/
def readParts (hasDoubleColon : Bool) (headParts tailParts : List Text) : Option Nat :=
  let parts := headParts ++ tailParts
  if trailingQuad parts then
    if hasDoubleColon && tailParts.isEmpty then none
    else do
      let quad ← parseV4 (parts.getLastD [])
      joinHextets hasDoubleColon headParts.length parts.dropLast (some quad)
  else joinHextets hasDoubleColon headParts.length parts none

theorem parseV6_of_plain {text : Text} (single : splitDouble ':' text = none) :
    parseV6 text true = readParts false (colonParts text) [] := by
  simp only [parseV6, single, Option.any_none, Bool.false_eq_true, if_false, Option.isSome_none,
    Bool.not_true, readParts]
  rfl

theorem parseV6_of_double {text head tail : Text} (cut : splitDouble ':' text = some (head, tail))
    (once : splitDouble ':' (':' :: tail) = none) :
    parseV6 text true = readParts true (colonParts head) (colonParts tail) := by
  simp only [parseV6, cut, Option.any_some, once, Option.isSome_none, Bool.false_eq_true, if_false,
    Option.isSome_some, Bool.not_true, readParts]

theorem parseV6_of_second_double {text head tail : Text}
    (cut : splitDouble ':' text = some (head, tail))
    (twice : (splitDouble ':' (':' :: tail)).isSome = true) : parseV6 text true = none := by
  simp only [parseV6, cut, Option.any_some, twice, if_true]

theorem trailingQuad_append_singleton (front : List Text) (last : Text) :
    trailingQuad (front ++ [last]) = decide ('.' ∈ last) := by
  simp [trailingQuad]

theorem trailingQuad_of_groups {parts : List Text} (groups : ∀ part ∈ parts, IsGroupText part) :
    trailingQuad parts = false :=
  trailingQuad_of_dot_not_mem fun part member => dot_not_mem_group (groups part member)

theorem exists_of_trailingQuad {parts : List Text} (trailing : trailingQuad parts = true) :
    ∃ front last, parts = front ++ [last] := by
  rcases List.eq_nil_or_concat parts with rfl | ⟨front, last, rfl⟩
  · cases trailing
  · exact ⟨front, last, List.concat_eq_append⟩

/-- The parts of a text without `::`: eight groups, or six and a dotted quad. -/
theorem readParts_plain_iff (parts : List Text) (value : Nat) :
    readParts false parts [] = some value ↔
      (parts.length = 8 ∧ (∀ part ∈ parts, IsGroupText part) ∧
        value = positional 16 65536 parts) ∨
      (∃ front last quad, parts = front ++ [last] ∧ DottedQuad last quad ∧ front.length = 6 ∧
        (∀ part ∈ front, IsGroupText part) ∧
        value = positional 16 65536 front * 65536 ^ 2 + quad) := by
  simp only [readParts, List.append_nil, Bool.false_and, Bool.false_eq_true, if_false]
  constructor
  · intro done
    split at done
    · rename_i trailing
      obtain ⟨front, last, rfl⟩ := exists_of_trailingQuad trailing
      obtain ⟨quad, dotted, done⟩ := Option.bind_eq_some_iff.mp done
      rw [List.getLastD_concat] at dotted
      rw [List.dropLast_concat] at done
      obtain ⟨six, groups, rfl⟩ := (joinHextets_plain_iff _ _ _ _).mp done
      exact .inr ⟨front, last, quad, rfl, (parseV4_eq_some_iff _ _).mp dotted, six, groups, rfl⟩
    · exact .inl ((joinHextets_plain_iff _ _ _ _).mp done)
  · rintro (⟨eight, groups, rfl⟩ | ⟨front, last, quad, rfl, dotted, six, groups, rfl⟩)
    · rw [trailingQuad_of_groups groups, if_neg Bool.false_ne_true]
      exact (joinHextets_plain_iff _ _ none _).mpr ⟨eight, groups, rfl⟩
    · rw [trailingQuad_append_singleton, decide_eq_true dotted.dot_mem, if_pos rfl,
        List.getLastD_concat, List.dropLast_concat, (parseV4_eq_some_iff _ _).mpr dotted]
      exact (joinHextets_plain_iff _ _ (some quad) _).mpr ⟨six, groups, rfl⟩

/-- The parts around `::`: at most seven groups, or at most five and a dotted quad that
stands after the `::`. -/
theorem readParts_double_iff (head tail : List Text) (value : Nat) :
    readParts true head tail = some value ↔
      (head.length + tail.length < 8 ∧ (∀ part ∈ head, IsGroupText part) ∧
        (∀ part ∈ tail, IsGroupText part) ∧
        value = positional 16 65536 head * 65536 ^ (8 - head.length) + positional 16 65536 tail) ∨
      (∃ front last quad, tail = front ++ [last] ∧ DottedQuad last quad ∧
        head.length + front.length < 6 ∧ (∀ part ∈ head, IsGroupText part) ∧
        (∀ part ∈ front, IsGroupText part) ∧
        value = (positional 16 65536 head * 65536 ^ (6 - head.length) +
          positional 16 65536 front) * 65536 ^ 2 + quad) := by
  simp only [readParts, Bool.true_and]
  constructor
  · intro done
    split at done
    · rename_i trailing
      split at done
      · cases done
      · rename_i after
        -- The quad is the last part after the `::`.
        rcases List.eq_nil_or_concat tail with rfl | ⟨front, last, rfl⟩
        · exact absurd rfl after
        · rw [List.concat_eq_append] at *
          obtain ⟨quad, dotted, done⟩ := Option.bind_eq_some_iff.mp done
          rw [← List.append_assoc, List.getLastD_concat] at dotted
          rw [← List.append_assoc, List.dropLast_concat] at done
          obtain ⟨room, hexHead, hexTail, rfl⟩ := (joinHextets_short_iff _ _ _ _).mp done
          exact .inr ⟨front, last, quad, rfl, (parseV4_eq_some_iff _ _).mp dotted, room, hexHead,
            hexTail, rfl⟩
    · exact .inl ((joinHextets_short_iff _ _ _ _).mp done)
  · rintro (⟨room, hexHead, hexTail, rfl⟩ |
      ⟨front, last, quad, rfl, dotted, room, hexHead, hexTail, rfl⟩)
    · rw [trailingQuad_of_groups (List.forall_mem_append.mpr ⟨hexHead, hexTail⟩),
        if_neg Bool.false_ne_true]
      exact (joinHextets_short_iff _ _ none _).mpr ⟨room, hexHead, hexTail, rfl⟩
    · have after : ¬ (front ++ [last]).isEmpty = true := by simp
      rw [← List.append_assoc, trailingQuad_append_singleton, decide_eq_true dotted.dot_mem,
        if_pos rfl, if_neg after, List.getLastD_concat, List.dropLast_concat,
        (parseV4_eq_some_iff _ _).mpr dotted]
      exact (joinHextets_short_iff _ _ (some quad) _).mpr ⟨room, hexHead, hexTail, rfl⟩

/-! ## IPv6 literals -/

theorem joined_colonParts (text : Text) : joined (colonParts text) = text := by
  unfold colonParts
  split
  · rename_i empty
    exact empty.symm
  · exact List.intercalate_splitOn ':'

theorem colonParts_joined {parts : List Text} (absent : ∀ part ∈ parts, ':' ∉ part)
    (nonempty : ∀ part ∈ parts, part ≠ []) : colonParts (joined parts) = parts :=
  colonParts_intercalate absent nonempty

/-- Groups, and the dotted quad that may follow them, are parts that `:` separates. -/
theorem forall_mem_groups_append {P : Text → Prop} {groups : List Text} {quad : Text} {value : Nat}
    (hex : ∀ group ∈ groups, IsGroupText group) (dotted : DottedQuad quad value)
    (ofGroup : ∀ {text : Text}, IsGroupText text → P text)
    (ofQuad : ∀ {text : Text} {value : Nat}, DottedQuad text value → P text) :
    ∀ part ∈ groups ++ [quad], P part := by
  intro part member
  rcases List.mem_append.mp member with member | member
  · exact ofGroup (hex part member)
  · rw [List.mem_singleton.mp member]
    exact ofQuad dotted

theorem parseV6_joined {parts : List Text} (absent : ∀ part ∈ parts, ':' ∉ part)
    (nonempty : ∀ part ∈ parts, part ≠ []) :
    parseV6 (joined parts) true = readParts false parts [] := by
  rw [parseV6_of_plain (splitDouble_intercalate absent nonempty), colonParts_joined absent nonempty]

theorem parseV6_joined_double {head tail : List Text} (absentHead : ∀ part ∈ head, ':' ∉ part)
    (nonemptyHead : ∀ part ∈ head, part ≠ []) (absentTail : ∀ part ∈ tail, ':' ∉ part)
    (nonemptyTail : ∀ part ∈ tail, part ≠ []) :
    parseV6 (joined head ++ ':' :: ':' :: joined tail) true = readParts true head tail := by
  rw [parseV6_of_double (splitDouble_append absentHead nonemptyHead _)
      (splitDouble_sep_intercalate absentTail nonemptyTail),
    colonParts_joined absentTail nonemptyTail]
  exact congrArg (fun parts => readParts true parts tail)
    (colonParts_joined absentHead nonemptyHead)

theorem shortQuad_value {head : List Text} {count headValue tailValue quad : Nat}
    (room : head.length + count < 6) :
    (headValue * 65536 ^ (6 - head.length) + tailValue) * 65536 ^ 2 + quad =
      headValue * 65536 ^ (8 - head.length) + tailValue * 65536 ^ 2 + quad := by
  have eight : 8 - head.length = (6 - head.length) + 2 := by omega
  rw [eight, pow_add]
  ring

/-- **`parseV6` accepts exactly the IPv6 literals.** -/
theorem parseV6_eq_some_iff (text : Text) (value : Nat) :
    parseV6 text true = some value ↔ Ipv6Literal text value := by
  constructor
  · intro done
    cases cut : splitDouble ':' text with
    | none =>
      have whole := joined_colonParts text
      rw [parseV6_of_plain cut, readParts_plain_iff] at done
      rcases done with ⟨eight, groups, rfl⟩ | ⟨front, last, quad, parts, dotted, six, groups, rfl⟩
      · rw [← whole]
        simpa only [whole] using Ipv6Literal.full groups eight
      · rw [← whole, parts]
        exact .fullQuad groups six dotted
    | some halves =>
      obtain ⟨head, tail⟩ := halves
      obtain rfl := eq_of_splitDouble cut
      cases once : splitDouble ':' (':' :: tail) with
      | some second =>
        rw [parseV6_of_second_double cut (by rw [once, Option.isSome_some])] at done
        cases done
      | none =>
        rw [parseV6_of_double cut once, readParts_double_iff] at done
        rw [← joined_colonParts head, ← joined_colonParts tail]
        rcases done with ⟨room, hexHead, hexTail, rfl⟩ |
          ⟨front, last, quad, parts, dotted, room, hexHead, hexTail, rfl⟩
        · exact .short hexHead hexTail (Nat.le_of_lt_succ room)
        · rw [parts, shortQuad_value room]
          exact .shortQuad hexHead hexTail (Nat.le_of_lt_succ room) dotted
  · intro literal
    cases literal with
    | full hex eight =>
      rw [parseV6_joined (fun part member => colon_not_mem_group (hex part member))
        (fun part member => group_ne_nil (hex part member)), readParts_plain_iff]
      exact .inl ⟨eight, hex, rfl⟩
    | fullQuad hex six dotted =>
      rw [parseV6_joined
        (forall_mem_groups_append hex dotted colon_not_mem_group DottedQuad.colon_not_mem)
        (forall_mem_groups_append hex dotted group_ne_nil DottedQuad.ne_nil),
        readParts_plain_iff]
      exact .inr ⟨_, _, _, rfl, dotted, six, hex, rfl⟩
    | short hexHead hexTail room =>
      rw [parseV6_joined_double (fun part member => colon_not_mem_group (hexHead part member))
        (fun part member => group_ne_nil (hexHead part member))
        (fun part member => colon_not_mem_group (hexTail part member))
        (fun part member => group_ne_nil (hexTail part member)), readParts_double_iff]
      exact .inl ⟨Nat.lt_succ_of_le room, hexHead, hexTail, rfl⟩
    | shortQuad hexHead hexTail room dotted =>
      rw [parseV6_joined_double (fun part member => colon_not_mem_group (hexHead part member))
        (fun part member => group_ne_nil (hexHead part member))
        (forall_mem_groups_append hexTail dotted colon_not_mem_group DottedQuad.colon_not_mem)
        (forall_mem_groups_append hexTail dotted group_ne_nil DottedQuad.ne_nil),
        readParts_double_iff, ← shortQuad_value (Nat.lt_succ_of_le room)]
      exact .inr ⟨_, _, _, rfl, dotted, Nat.lt_succ_of_le room, hexHead, hexTail, rfl⟩

theorem mem_joined {parts : List Text} (plain : ∀ part ∈ parts, ∀ c ∈ part, isPlain c = true) :
    ∀ c ∈ joined parts, isPlain c = true := by
  intro c member
  rcases mem_intercalate_singleton member with rfl | ⟨part, within, found⟩
  · rfl
  · exact plain part within c found

theorem isPlain_of_group {text : Text} (group : IsGroupText text) : ∀ c ∈ text, isPlain c = true :=
  fun c member => isPlain_of_isHexDigit (group.2.2 c member)

theorem mem_joined_double {head tail : List Text}
    (plainHead : ∀ part ∈ head, ∀ c ∈ part, isPlain c = true)
    (plainTail : ∀ part ∈ tail, ∀ c ∈ part, isPlain c = true) :
    ∀ c ∈ joined head ++ ':' :: ':' :: joined tail, isPlain c = true := by
  intro c member
  rcases List.mem_append.mp member with member | member
  · exact mem_joined plainHead c member
  · rcases List.mem_cons.mp member with rfl | member
    · rfl
    · rcases List.mem_cons.mp member with rfl | member
      · rfl
      · exact mem_joined plainTail c member

theorem Ipv6Literal.isPlain {text : Text} {value : Nat} (literal : Ipv6Literal text value) :
    ∀ c ∈ text, isPlain c = true := by
  cases literal with
  | full hex eight => exact mem_joined fun part member => isPlain_of_group (hex part member)
  | fullQuad hex six dotted =>
    exact mem_joined (forall_mem_groups_append hex dotted isPlain_of_group DottedQuad.isPlain)
  | short hexHead hexTail room =>
    exact mem_joined_double (fun part member => isPlain_of_group (hexHead part member))
      fun part member => isPlain_of_group (hexTail part member)
  | shortQuad hexHead hexTail room dotted =>
    exact mem_joined_double (fun part member => isPlain_of_group (hexHead part member))
      (forall_mem_groups_append hexTail dotted isPlain_of_group DottedQuad.isPlain)

theorem Ipv6Literal.trimmed {text : Text} {value : Nat} (literal : Ipv6Literal text value) :
    Ipv6Literal (trim text) value := by
  rwa [trim_of_isPlain literal.isPlain]

theorem colon_mem_joined {parts : List Text} (two : 2 ≤ parts.length) : ':' ∈ joined parts := by
  match parts, two with
  | _ :: _ :: _, _ => exact colon_mem_intercalate

theorem Ipv6Literal.colon_mem {text : Text} {value : Nat} (literal : Ipv6Literal text value) :
    ':' ∈ text := by
  cases literal with
  | full hex eight => exact colon_mem_joined (by omega)
  | fullQuad hex six dotted =>
    refine colon_mem_joined ?_
    rw [List.length_append, six]
    exact Nat.le_add_right_of_le (by decide)
  | short hexHead hexTail room => simp
  | shortQuad hexHead hexTail room dotted => simp

/-! ## Zones -/

/-- The text around the first `%`. -/
theorem splitZone_eq (text : Text) :
    (splitZone text = (text, none) ∧ '%' ∉ text) ∨
      ∃ body zone, splitZone text = (body, some zone) ∧ text = body ++ '%' :: zone := by
  have whole := List.takeWhile_append_dropWhile (p := (· ≠ '%')) (l := text)
  cases rest : text.dropWhile (· ≠ '%') with
  | nil =>
    refine .inl ⟨by simp only [splitZone, rest], fun member => ?_⟩
    have outside := List.dropWhile_eq_nil_iff.mp rest '%' member
    exact absurd outside (by decide)
  | cons sign zone =>
    refine .inr ⟨text.takeWhile (· ≠ '%'), zone, by simp only [splitZone, rest], ?_⟩
    have first : sign = '%' := by
      have stops := List.head?_dropWhile_not (fun c => decide (c ≠ '%')) text
      rw [rest] at stops
      simpa using stops
    rw [rest, first] at whole
    exact whole.symm

theorem splitZone_append {body : Text} (plain : ∀ c ∈ body, isPlain c = true) (zone : Text) :
    splitZone (body ++ '%' :: zone) = (body, some zone) := by
  have inside : ∀ c ∈ body, decide (c ≠ '%') = true := fun c member =>
    decide_eq_true (ne_percent_of_isPlain (plain c member))
  simp only [splitZone]
  rw [List.dropWhile_append_of_pos inside, List.takeWhile_append_of_pos inside]
  simp

/-! ## Address texts -/

theorem Literal.ne_nil {text : Text} {parsed : ParsedIp} (literal : Literal text parsed) :
    text ≠ [] := by
  cases literal with
  | quad dotted => exact dotted.ne_nil
  | groups six => exact List.ne_nil_of_mem six.colon_mem
  | zoned six nonempty => simp

/-- What `parseIp` makes of an IPv6 value. -/
theorem foldMapped_eq {value : Nat} (fits : value < 2 ^ 128) (zone : Option Text) :
    (if value &&& v4MappedMask == v4MappedPrefix then
        (⟨value &&& 0xffffffff, ipv4Bits, zone⟩ : ParsedIp)
      else ⟨value, ipv6Bits, zone⟩) = (ParsedIp.mk value ipv6Bits zone).foldMapped := by
  unfold ParsedIp.foldMapped
  by_cases mapped : value / 2 ^ 32 = 0xffff
  · rw [if_pos ((mapped_iff fits).mpr mapped), if_pos ⟨rfl, mapped⟩, and_low32]
  · rw [if_neg fun same => mapped ((mapped_iff fits).mp same), if_neg fun both => mapped both.2]

theorem foldMapped_v4 (value : Nat) (zone : Option Text) :
    (ParsedIp.mk value ipv4Bits zone).foldMapped = ⟨value, ipv4Bits, zone⟩ := by
  have narrow : ¬ (ipv4Bits = ipv6Bits ∧ value / 2 ^ 32 = 0xffff) := fun both =>
    absurd both.1 (by decide)
  exact if_neg narrow

/-- A literal, read with or without the fold of IPv4-mapped values. -/
def ParsedIp.asRead (mapV4 : Bool) (literal : ParsedIp) : ParsedIp :=
  if mapV4 then literal.foldMapped else literal

/-- The part of `parseIp` that reads the text before the zone. -/
theorem readBody_iff (mapV4 : Bool) (body : Text) (zone : Option Text) (parsed : ParsedIp) :
    (if ':' ∈ body then
      (parseV6 body true).bind fun value =>
        if mapV4 && value &&& v4MappedMask == v4MappedPrefix then
          some (⟨value &&& 0xffffffff, ipv4Bits, zone⟩ : ParsedIp)
        else some ⟨value, ipv6Bits, zone⟩
    else if zone.isSome then none
    else (parseV4 body).bind fun value => some ⟨value, ipv4Bits, none⟩) = some parsed ↔
      (∃ value, Ipv6Literal body value ∧
        parsed = (ParsedIp.mk value ipv6Bits zone).asRead mapV4) ∨
      (zone = none ∧ ∃ value, DottedQuad body value ∧ parsed = ⟨value, ipv4Bits, none⟩) := by
  have six : ∀ value, Ipv6Literal body value →
      (if (mapV4 && value &&& v4MappedMask == v4MappedPrefix) = true then
        some (⟨value &&& 0xffffffff, ipv4Bits, zone⟩ : ParsedIp)
      else some ⟨value, ipv6Bits, zone⟩) =
        some ((ParsedIp.mk value ipv6Bits zone).asRead mapV4) := by
    intro value literal
    cases mapV4 with
    | false => rfl
    | true =>
      rw [ParsedIp.asRead, if_pos rfl, ← foldMapped_eq
        (parseV6_lt ((parseV6_eq_some_iff body value).mpr literal)), apply_ite some,
        Bool.true_and]
  by_cases colon : ':' ∈ body
  · rw [if_pos colon]
    constructor
    · intro done
      obtain ⟨value, read, done⟩ := Option.bind_eq_some_iff.mp done
      have literal := (parseV6_eq_some_iff body value).mp read
      rw [six value literal] at done
      exact .inl ⟨value, literal, (Option.some.inj done).symm⟩
    · rintro (⟨value, literal, rfl⟩ | ⟨-, value, dotted, -⟩)
      · rw [(parseV6_eq_some_iff body value).mpr literal, Option.bind_some, six value literal]
      · exact absurd colon dotted.colon_not_mem
  · rw [if_neg colon]
    constructor
    · intro done
      cases zone with
      | some zone => cases done
      | none =>
        rw [Option.isSome_none, if_neg Bool.false_ne_true] at done
        obtain ⟨value, read, done⟩ := Option.bind_eq_some_iff.mp done
        exact .inr ⟨rfl, value, (parseV4_eq_some_iff body value).mp read,
          (Option.some.inj done).symm⟩
    · rintro (⟨value, literal, -⟩ | ⟨rfl, value, dotted, rfl⟩)
      · exact absurd literal.colon_mem colon
      · rw [Option.isSome_none, if_neg Bool.false_ne_true,
          (parseV4_eq_some_iff body value).mpr dotted, Option.bind_some]

/-- What `parseIp` returns is the value of the literal that the trimmed text is. -/
theorem parseIp_iff (mapV4 : Bool) (text : Text) (parsed : ParsedIp) :
    parseIp text { mapV4 := mapV4 } = some parsed ↔
      ∃ literal, Literal (trim text) literal ∧ parsed = literal.asRead mapV4 := by
  have body : ∀ zone : Option Text, zone ≠ some [] → ∀ front : Text,
      splitZone (trim text) = (front, zone) → trim text ≠ [] →
      (parseIp text { mapV4 := mapV4 } = some parsed ↔
        (∃ value, Ipv6Literal front value ∧
          parsed = (ParsedIp.mk value ipv6Bits zone).asRead mapV4) ∨
        (zone = none ∧ ∃ value, DottedQuad front value ∧ parsed = ⟨value, ipv4Bits, none⟩)) := by
    intro zone nonempty front cut start
    rw [← readBody_iff]
    simp only [parseIp, start, if_false, cut, Bool.not_true, Bool.false_or, Bool.true_or, nonempty,
      decide_false, Bool.and_false, Bool.false_eq_true]
    rfl
  have asRead_v4 : ∀ value, (ParsedIp.mk value ipv4Bits none).asRead mapV4 =
      ⟨value, ipv4Bits, none⟩ := by
    intro value
    cases mapV4 with
    | false => rfl
    | true => exact foldMapped_v4 value none
  by_cases start : trim text = []
  · refine iff_of_false (fun done => ?_) ?_
    · simp only [parseIp, start, if_true] at done
      cases done
    · rintro ⟨literal, spelled, -⟩
      exact spelled.ne_nil start
  rcases splitZone_eq (trim text) with ⟨cut, plain⟩ | ⟨front, zone, cut, whole⟩
  · rw [body none (by simp) _ cut start]
    constructor
    · rintro (⟨value, literal, rfl⟩ | ⟨-, value, dotted, rfl⟩)
      · exact ⟨_, .groups literal, rfl⟩
      · exact ⟨_, .quad dotted, (asRead_v4 value).symm⟩
    · rintro ⟨literal, spelled, rfl⟩
      generalize trim text = trimmed at spelled plain
      cases spelled with
      | quad dotted => exact .inr ⟨rfl, _, dotted, asRead_v4 _⟩
      | groups six => exact .inl ⟨_, six, rfl⟩
      | zoned six nonempty => exact absurd (by simp) plain
  · cases empty : zone with
    | nil =>
      subst empty
      refine iff_of_false (fun done => ?_) ?_
      · simp only [parseIp, start, if_false, cut, Option.isSome_some, decide_true, Bool.or_true,
          Bool.and_self, if_true] at done
        cases done
      · rintro ⟨literal, spelled, -⟩
        have sign : '%' ∈ trim text := by rw [whole]; simp
        generalize trim text = trimmed at spelled cut sign
        cases spelled with
        | quad dotted => exact ne_percent_of_isPlain (dotted.isPlain _ sign) rfl
        | groups six => exact ne_percent_of_isPlain (six.isPlain _ sign) rfl
        | zoned six nonempty =>
          rw [splitZone_append six.isPlain] at cut
          exact nonempty (Option.some.inj (Prod.mk.inj cut).2)
    | cons c rest =>
      subst empty
      rw [body (some (c :: rest)) (by simp) _ cut start]
      constructor
      · rintro (⟨value, literal, rfl⟩ | ⟨no, -⟩)
        · rw [whole]
          exact ⟨_, .zoned literal (by simp), rfl⟩
        · cases no
      · rintro ⟨literal, spelled, rfl⟩
        have sign : '%' ∈ trim text := by rw [whole]; simp
        generalize trim text = trimmed at spelled cut sign
        cases spelled with
        | quad dotted => exact absurd rfl (ne_percent_of_isPlain (dotted.isPlain _ sign))
        | groups six => exact absurd rfl (ne_percent_of_isPlain (six.isPlain _ sign))
        | zoned six nonempty =>
          rw [splitZone_append six.isPlain] at cut
          obtain ⟨rfl, same⟩ := Prod.mk.inj cut
          exact .inl ⟨_, six, by rw [same]⟩

/-- **`parseIp` accepts exactly its grammar**, and returns the positional value of the
groups; a value in `::ffff:0:0/96` is the IPv4 address in its low 32 bits. -/
theorem parseIp_iff_literal (text : Text) :
    ((parseIp text).isSome ↔ ∃ literal, Literal (trim text) literal) ∧
      ∀ parsed, parseIp text = some parsed ↔
        ∃ literal, Literal (trim text) literal ∧ parsed = literal.foldMapped := by
  refine ⟨?_, fun parsed => parseIp_iff true text parsed⟩
  rw [Option.isSome_iff_exists]
  constructor
  · rintro ⟨parsed, read⟩
    obtain ⟨literal, spelled, -⟩ := (parseIp_iff true text parsed).mp read
    exact ⟨literal, spelled⟩
  · rintro ⟨literal, spelled⟩
    exact ⟨_, (parseIp_iff true text _).mpr ⟨literal, spelled, rfl⟩⟩

/-- The value of an IPv4-mapped text is not the positional value of its groups. -/
theorem mapped_value_is_not_positional :
    ¬ ∀ text parsed, parseIp text = some parsed →
      ∃ literal, Literal (trim text) literal ∧ parsed.value = literal.value := by
  intro positional
  obtain ⟨literal, spelled, same⟩ := positional "::ffff:1.2.3.4".toList ⟨0x01020304, ipv4Bits, none⟩
    (by decide)
  have unfolded := (parseIp_iff false "::ffff:1.2.3.4".toList literal).mpr ⟨literal, spelled, rfl⟩
  have read : parseIp "::ffff:1.2.3.4".toList { mapV4 := false } =
      some ⟨0xffff01020304, ipv6Bits, none⟩ := by decide
  rw [read] at unfolded
  rw [← Option.some.inj unfolded] at same
  exact absurd same (by decide)

end Address

end Cidrella
