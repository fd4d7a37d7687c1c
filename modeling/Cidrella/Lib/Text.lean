import Mathlib.Data.Nat.Bitwise
import Mathlib.Tactic

/-!
# Text as lists of characters

Numerals written in a base and read back (`readDigits_toDigits`), numbers cut into
groups of equal width and put together again (`joinGroups_groups`), and texts cut at
the one place where a separator is doubled (`splitDouble_append`).

Nothing here knows what the texts are for. A reader of addresses uses all three: the
digits of a group, the groups of a value, and the place where groups were left out.
-/

set_option autoImplicit false

namespace Cidrella

/-- A text, one character a code point. -/
abbrev Text := List Char

namespace Text

instance instLawfulBEqText : LawfulBEq Text := inferInstance

/-! ## Letters -/

theorem isUpper_iff_toNat {c : Char} : c.isUpper = true ↔ 65 ≤ c.toNat ∧ c.toNat ≤ 90 :=
  decide_eq_true_iff

theorem isLower_iff_toNat {c : Char} : c.isLower = true ↔ 97 ≤ c.toNat ∧ c.toNat ≤ 122 :=
  (Bool.and_eq_true_iff (x := decide (97 ≤ c.toNat))).trans
    (and_congr decide_eq_true_iff decide_eq_true_iff)

theorem isAlphanum_iff_toNat {c : Char} : c.isAlphanum = true ↔
    ((65 ≤ c.toNat ∧ c.toNat ≤ 90) ∨ (97 ≤ c.toNat ∧ c.toNat ≤ 122)) ∨
    (48 ≤ c.toNat ∧ c.toNat ≤ 57) := by
  have letter : c.isAlpha = true ↔ c.isUpper = true ∨ c.isLower = true := Bool.or_eq_true_iff
  have whole : c.isAlphanum = true ↔ c.isAlpha = true ∨ c.isDigit = true := Bool.or_eq_true_iff
  rw [whole, letter, isUpper_iff_toNat, isLower_iff_toNat, Char.isDigit_iff_toNat]
  rfl

/-! ## Digits -/

/-- The characters `0`-`9`, `a`-`f` and `A`-`F`. -/
def isHexDigit (c : Char) : Bool :=
  ('0' ≤ c && c ≤ '9') || ('a' ≤ c && c ≤ 'f') || ('A' ≤ c && c ≤ 'F')

/-- The value of a hexadecimal digit, either case. -/
def digitValue (c : Char) : Nat :=
  if 'a' ≤ c then c.toNat - 'a'.toNat + 10
  else if 'A' ≤ c then c.toNat - 'A'.toNat + 10
  else c.toNat - '0'.toNat

/-- A run of digits read in a base. -/
def readDigits (base : Nat) (digits : Text) : Nat :=
  digits.foldl (fun value c => base * value + digitValue c) 0

theorem digitValue_digitChar {n : Nat} (small : n < 16) : digitValue n.digitChar = n := by
  interval_cases n <;> decide

theorem isHexDigit_digitChar {n : Nat} (small : n < 16) : isHexDigit n.digitChar = true := by
  interval_cases n <;> decide

theorem isDigit_digitChar {n : Nat} (small : n < 10) : n.digitChar.isDigit = true := by
  interval_cases n <;> decide

theorem readDigits_append_singleton (base : Nat) (digits : Text) (c : Char) :
    readDigits base (digits ++ [c]) = base * readDigits base digits + digitValue c := by
  simp [readDigits]

theorem forall_mem_toDigits {base : Nat} (large : 1 < base) (P : Char → Prop)
    (digit : ∀ d < base, P d.digitChar) (n : Nat) : ∀ c ∈ Nat.toDigits base n, P c := by
  induction n using Nat.strong_induction_on with
  | _ n ih =>
    intro c member
    rw [Nat.toDigits_eq_if large] at member
    split at member
    · rename_i small
      rw [List.mem_singleton] at member
      subst member
      exact digit n small
    · rename_i notSmall
      rcases List.mem_append.mp member with high | low
      · exact ih (n / base) (Nat.div_lt_self (by omega) large) c high
      · rw [List.mem_singleton] at low
        subst low
        exact digit _ (Nat.mod_lt _ (by omega))

/-- **A numeral reads back as its number**, in every base up to sixteen. -/
theorem readDigits_toDigits {base : Nat} (large : 1 < base) (small : base ≤ 16) (n : Nat) :
    readDigits base (Nat.toDigits base n) = n := by
  induction n using Nat.strong_induction_on with
  | _ n ih =>
    rw [Nat.toDigits_eq_if large]
    split
    · rename_i below
      simpa [readDigits] using digitValue_digitChar (by omega : n < 16)
    · have remainder : n % base < base := Nat.mod_lt _ (by omega)
      rw [readDigits_append_singleton, ih (n / base) (Nat.div_lt_self (by omega) large),
        digitValue_digitChar (by omega)]
      exact Nat.div_add_mod n base

theorem readDigits_lt {base : Nat} {digits : Text}
    (bounded : ∀ c ∈ digits, digitValue c < base) :
    readDigits base digits < base ^ digits.length := by
  induction digits using List.reverseRecOn with
  | nil => simp [readDigits]
  | append_singleton digits c ih =>
    rw [readDigits_append_singleton, List.length_append, List.length_singleton, pow_succ]
    have last : digitValue c < base := bounded c (by simp)
    have front : readDigits base digits + 1 ≤ base ^ digits.length :=
      ih fun d member => bounded d (by simp [member])
    calc base * readDigits base digits + digitValue c
        < base * readDigits base digits + base := by omega
      _ = (readDigits base digits + 1) * base := by ring
      _ ≤ base ^ digits.length * base := Nat.mul_le_mul_right _ front

/-! ## Groups -/

/-- A value cut into `count` groups of `width` bits, most significant first. -/
def groups (width : Nat) : Nat → Nat → List Nat
  | 0, _ => []
  | count + 1, value => (value >>> (width * count)) % 2 ^ width :: groups width count value

/-- Groups put together, most significant first. -/
def joinGroups (width : Nat) (parts : List Nat) : Nat :=
  parts.foldl (fun value part => (value <<< width) + part) 0

theorem length_groups (width count value : Nat) : (groups width count value).length = count := by
  induction count with
  | zero => rfl
  | succ count ih => simp [groups, ih]

theorem lt_of_mem_groups {width count value part : Nat} (member : part ∈ groups width count value) :
    part < 2 ^ width := by
  induction count with
  | zero => simp [groups] at member
  | succ count ih =>
    rcases List.mem_cons.mp member with rfl | member
    · exact Nat.mod_lt _ (by positivity)
    · exact ih member

theorem foldl_join_start (width : Nat) (parts : List Nat) (start : Nat) :
    parts.foldl (fun value part => (value <<< width) + part) start =
      start * 2 ^ (width * parts.length) + joinGroups width parts := by
  induction parts generalizing start with
  | nil => simp [joinGroups]
  | cons part parts ih =>
    have unfolded : joinGroups width (part :: parts) =
        part * 2 ^ (width * parts.length) + joinGroups width parts := by
      rw [joinGroups, List.foldl_cons, ih]
      simp
    rw [List.foldl_cons, ih, unfolded, List.length_cons, Nat.shiftLeft_eq, Nat.mul_succ, pow_add]
    ring

theorem joinGroups_cons (width part : Nat) (parts : List Nat) :
    joinGroups width (part :: parts) =
      part * 2 ^ (width * parts.length) + joinGroups width parts := by
  rw [joinGroups, List.foldl_cons, foldl_join_start]
  simp

theorem joinGroups_lt {width : Nat} {parts : List Nat} (bounded : ∀ part ∈ parts,
    part < 2 ^ width) :
    joinGroups width parts < 2 ^ (width * parts.length) := by
  induction parts with
  | nil => simp [joinGroups]
  | cons part parts ih =>
    rw [joinGroups_cons, List.length_cons, Nat.mul_succ, Nat.add_comm (width * _) width, pow_add]
    have first : part + 1 ≤ 2 ^ width := bounded part (by simp)
    have rest := ih fun other member => bounded other (by simp [member])
    calc part * 2 ^ (width * parts.length) + joinGroups width parts
        < part * 2 ^ (width * parts.length) + 2 ^ (width * parts.length) := by omega
      _ = (part + 1) * 2 ^ (width * parts.length) := by ring
      _ ≤ 2 ^ width * 2 ^ (width * parts.length) := Nat.mul_le_mul_right _ first

/-- Cutting keeps the low `width * count` bits of a value. -/
theorem joinGroups_groups_mod (width count value : Nat) :
    joinGroups width (groups width count value) = value % 2 ^ (width * count) := by
  induction count with
  | zero => simp [groups, joinGroups, Nat.mod_one]
  | succ count ih =>
    rw [groups, joinGroups_cons, length_groups, ih, Nat.shiftRight_eq_div_pow, Nat.mul_succ,
      pow_add, Nat.mod_mul]
    ring

/-- **Cutting a value into groups and joining them gives it back.** -/
theorem joinGroups_groups {width count value : Nat} (fits : value < 2 ^ (width * count)) :
    joinGroups width (groups width count value) = value := by
  rw [joinGroups_groups_mod, Nat.mod_eq_of_lt fits]

theorem groups_succ (width count value : Nat) :
    groups width (count + 1) value = groups width count (value >>> width) ++
    [value % 2 ^ width] := by
  induction count with
  | zero => simp [groups]
  | succ count ih =>
    rw [groups, ih, groups, List.cons_append, Nat.shiftRight_eq_div_pow, Nat.shiftRight_eq_div_pow,
      Nat.shiftRight_eq_div_pow, Nat.div_div_eq_div_mul, ← pow_add, Nat.mul_succ, Nat.add_comm]

theorem joinGroups_append_singleton (width : Nat) (parts : List Nat) (part : Nat) :
    joinGroups width (parts ++ [part]) = joinGroups width parts * 2 ^ width + part := by
  simp [joinGroups, Nat.shiftLeft_eq]

/-- **Joining groups and cutting the value gives them back.** -/
theorem groups_joinGroups {width : Nat} {parts : List Nat} (bounded : ∀ part ∈ parts,
    part < 2 ^ width) :
    groups width parts.length (joinGroups width parts) = parts := by
  induction parts using List.reverseRecOn with
  | nil => rfl
  | append_singleton parts part ih =>
    have last : part < 2 ^ width := bounded part (by simp)
    have front := ih fun other member => bounded other (by simp [member])
    have high : (joinGroups width parts * 2 ^ width + part) >>> width = joinGroups width parts := by
      rw [Nat.shiftRight_eq_div_pow, Nat.add_comm, Nat.add_mul_div_right _ _ (by positivity),
        Nat.div_eq_of_lt last, Nat.zero_add]
    have low : (joinGroups width parts * 2 ^ width + part) % 2 ^ width = part := by
      rw [Nat.add_comm, Nat.add_mul_mod_self_right, Nat.mod_eq_of_lt last]
    rw [List.length_append, List.length_singleton, groups_succ, joinGroups_append_singleton, high,
      low, front]

theorem take_groups (width count more value : Nat) :
    (groups width (count + more) value).take count = groups width count
    (value >>> (width * more)) := by
  induction more generalizing value with
  | zero =>
    rw [Nat.add_zero, Nat.mul_zero, Nat.shiftRight_zero]
    exact List.take_of_length_le (length_groups width count value).le
  | succ more ih =>
    have enough : count ≤ (groups width (count + more) (value >>> width)).length := by
      rw [length_groups]
      exact Nat.le_add_right count more
    rw [← Nat.add_assoc, groups_succ, List.take_append_of_le_length enough,
      ih, ← Nat.shiftRight_add, Nat.mul_succ, Nat.add_comm (width * more)]

theorem groups_truncated (width count more value : Nat) :
    groups width (count + more) (value / 2 ^ (width * more) * 2 ^ (width * more)) =
      groups width count (value >>> (width * more)) ++ List.replicate more 0 := by
  induction more generalizing value with
  | zero => simp
  | succ more ih =>
    have split : 2 ^ (width * (more + 1)) = 2 ^ (width * more) * 2 ^ width := by
      rw [← pow_add, Nat.mul_succ]
    have high : value / 2 ^ (width * (more + 1)) * 2 ^ (width * (more + 1)) / 2 ^ width =
        value / 2 ^ width / 2 ^ (width * more) * 2 ^ (width * more) := by
      rw [Nat.div_div_eq_div_mul, Nat.mul_comm (2 ^ width), ← split]
      rw [split, ← Nat.mul_assoc, Nat.mul_div_cancel _ (Nat.two_pow_pos width)]
    have low : value / 2 ^ (width * (more + 1)) * 2 ^ (width * (more + 1)) % 2 ^ width = 0 := by
      rw [split, ← Nat.mul_assoc]
      exact Nat.mul_mod_left _ _
    rw [← Nat.add_assoc, groups_succ, Nat.shiftRight_eq_div_pow, high, low, ih, List.append_assoc,
      ← List.replicate_succ', ← Nat.shiftRight_eq_div_pow value, ← Nat.shiftRight_add, Nat.mul_succ,
      Nat.add_comm width]

theorem readDigits_map_digitChar {width : Nat} (small : 2 ^ width ≤ 16) {parts : List Nat}
    (bounded : ∀ part ∈ parts, part < 2 ^ width) :
    readDigits (2 ^ width) (parts.map Nat.digitChar) = joinGroups width parts := by
  induction parts using List.reverseRecOn with
  | nil => rfl
  | append_singleton parts part ih =>
    have last : part < 2 ^ width := bounded part (by simp)
    rw [List.map_append, List.map_singleton, readDigits_append_singleton,
      joinGroups_append_singleton, ih fun other member => bounded other (by simp [member]),
      digitValue_digitChar (by omega), Nat.mul_comm]

/-- **Groups compare as the values they are cut from**, most significant group first. -/
theorem compare_joinGroups {width : Nat} {left right : List Nat} (same : left.length = right.length)
    (boundedLeft : ∀ part ∈ left, part < 2 ^ width) (boundedRight : ∀ part ∈ right,
    part < 2 ^ width) :
    compare left right = compare (joinGroups width left) (joinGroups width right) := by
  induction left generalizing right with
  | nil =>
    obtain rfl := List.length_eq_zero_iff.mp same.symm
    rfl
  | cons x left ih =>
    cases right with
    | nil => cases same
    | cons y right =>
      have tails : left.length = right.length := Nat.succ.inj same
      obtain ⟨-, restLeft⟩ := List.forall_mem_cons.mp boundedLeft
      obtain ⟨-, restRight⟩ := List.forall_mem_cons.mp boundedRight
      have lowLeft := joinGroups_lt restLeft
      have lowRight := joinGroups_lt restRight
      rw [List.compare_cons_cons, ih tails restLeft restRight, joinGroups_cons, joinGroups_cons,
        ← tails]
      rw [← tails] at lowRight
      generalize 2 ^ (width * left.length) = scale at lowLeft lowRight
      generalize joinGroups width left = low at lowLeft
      generalize joinGroups width right = low' at lowRight
      -- The first groups decide unless they are equal.
      rcases lt_trichotomy x y with less | equal | greater
      · have step : (x + 1) * scale ≤ y * scale := Nat.mul_le_mul_right scale less
        have total : x * scale + low < y * scale + low' := by linarith
        rw [compare_lt_iff_lt.mpr less, compare_lt_iff_lt.mpr total]
        rfl
      · rw [equal, compare_eq_iff_eq.mpr rfl, Ordering.eq_then]
        rcases lt_trichotomy low low' with less | same | greater
        · rw [compare_lt_iff_lt.mpr less, compare_lt_iff_lt.mpr (by omega)]
        · rw [same, compare_eq_iff_eq.mpr rfl, compare_eq_iff_eq.mpr rfl]
        · rw [compare_gt_iff_gt.mpr greater, compare_gt_iff_gt.mpr (by omega)]
      · have step : (y + 1) * scale ≤ x * scale := Nat.mul_le_mul_right scale greater
        have total : y * scale + low' < x * scale + low := by linarith
        rw [compare_gt_iff_gt.mpr greater, compare_gt_iff_gt.mpr total]
        rfl

theorem compare_groups {width count left right : Nat} (fitsLeft : left < 2 ^ (width * count))
    (fitsRight : right < 2 ^ (width * count)) :
    compare (groups width count left) (groups width count right) = compare left right := by
  rw [compare_joinGroups (by rw [length_groups, length_groups]) (fun _ => lt_of_mem_groups)
    (fun _ => lt_of_mem_groups), joinGroups_groups fitsLeft, joinGroups_groups fitsRight]

/-- `padStart`: filled up on the left to a length. -/
def padStart (length : Nat) (pad : Char) (text : Text) : Text :=
  List.replicate (length - text.length) pad ++ text

theorem padStart_toDigits {count value : Nat} (positive : 0 < count) (fits : value < 16 ^ count) :
    padStart count '0' (Nat.toDigits 16 value) = (groups 4 count value).map Nat.digitChar := by
  induction count generalizing value with
  | zero => cases positive
  | succ count ih =>
    have sixteen : (2 : Nat) ^ 4 = 16 := rfl
    rw [groups_succ, List.map_append, List.map_singleton, padStart, Nat.toDigits_eq_if (by decide),
      sixteen]
    cases count with
    | zero =>
      have small : value < 16 := by simpa using fits
      rw [if_pos small, Nat.mod_eq_of_lt small]
      rfl
    | succ count =>
      have high : value / 16 < 16 ^ (count + 1) := by
        rw [pow_succ] at fits
        exact Nat.div_lt_of_lt_mul (by omega)
      have shifted : value >>> 4 = value / 16 := Nat.shiftRight_eq_div_pow value 4
      have front := ih (Nat.succ_pos count) high
      rw [shifted, ← front, padStart]
      split
      · rename_i small
        have zero : value / 16 = 0 := by omega
        have digits : Nat.toDigits 16 0 = ['0'] := rfl
        have ends : List.replicate (count + 1) '0' = List.replicate count '0' ++ ['0'] :=
          List.replicate_succ'
        rw [zero, digits, Nat.mod_eq_of_lt small]
        simp only [List.length_singleton, Nat.add_sub_cancel, ends]
      · rw [List.length_append, List.length_singleton, List.append_assoc,
          Nat.add_sub_add_right]

/-! ## Parts between separators -/

theorem not_mem_of_mem_splitOn {α : Type} [BEq α] [LawfulBEq α] {sep : α} {text part : List α}
    (member : part ∈ text.splitOn sep) : sep ∉ part := by
  induction text generalizing part with
  | nil =>
    rw [List.splitOn_nil, List.mem_singleton] at member
    rw [member]
    exact List.not_mem_nil
  | cons c text ih =>
    rw [List.splitOn_cons_eq_if_modifyHead] at member
    split at member
    · rcases List.mem_cons.mp member with rfl | later
      · exact List.not_mem_nil
      · exact ih later
    · rename_i other
      obtain ⟨first, rest, parts⟩ := List.exists_cons_of_ne_nil (List.splitOn_ne_nil sep text)
      rw [parts, List.modifyHead_cons] at member
      rcases List.mem_cons.mp member with rfl | later
      · intro inside
        rcases List.mem_cons.mp inside with rfl | deeper
        · exact other BEq.rfl
        · exact ih (parts ▸ List.mem_cons_self) deeper
      · exact ih (parts ▸ List.mem_cons_of_mem first later)

/-! ## A doubled separator -/

/-- The text around the first place where `sep` stands twice. -/
def splitDouble (sep : Char) : Text → Option (Text × Text)
  | [] => none
  | [_] => none
  | a :: b :: rest =>
    if a = sep ∧ b = sep then some ([], rest)
    else (splitDouble sep (b :: rest)).map fun halves => (a :: halves.1, halves.2)

theorem eq_of_splitDouble {sep : Char} {text head tail : Text}
    (cut : splitDouble sep text = some (head, tail)) : text = head ++ sep :: sep :: tail := by
  induction text generalizing head with
  | nil => cases cut
  | cons a rest ih =>
    cases rest with
    | nil => cases cut
    | cons b rest =>
      rw [splitDouble] at cut
      split at cut
      · rename_i both
        obtain ⟨rfl, rfl⟩ := Prod.mk.inj (Option.some.inj cut)
        rw [both.1, both.2, List.nil_append]
      · obtain ⟨halves, inner, same⟩ := Option.map_eq_some_iff.mp cut
        obtain ⟨rfl, rfl⟩ := Prod.mk.inj same
        rw [ih inner, List.cons_append]

theorem splitDouble_cons_of_ne {sep a : Char} (other : a ≠ sep) (rest : Text) :
    splitDouble sep (a :: rest) =
      (splitDouble sep rest).map fun halves => (a :: halves.1, halves.2) := by
  cases rest with
  | nil => rfl
  | cons b rest => rw [splitDouble, if_neg (fun both => other both.1)]

theorem splitDouble_sep_cons_of_ne {sep b : Char} (other : b ≠ sep) (rest : Text) :
    splitDouble sep (sep :: b :: rest) =
      (splitDouble sep (b :: rest)).map fun halves => (sep :: halves.1, halves.2) := by
  rw [splitDouble, if_neg (fun both => other both.2)]

theorem splitDouble_none_of_not_mem {sep : Char} {text : Text} (absent : sep ∉ text) :
    splitDouble sep text = none := by
  induction text with
  | nil => rfl
  | cons a rest ih =>
    rw [List.mem_cons, not_or] at absent
    rw [splitDouble_cons_of_ne (Ne.symm absent.1), ih absent.2, Option.map_none]

theorem splitDouble_append_of_not_mem {sep : Char} {front : Text} (absent : sep ∉ front)
    (rest : Text) : splitDouble sep (front ++ rest) =
      (splitDouble sep rest).map fun halves => (front ++ halves.1, halves.2) := by
  induction front with
  | nil => simp
  | cons a front ih =>
    rw [List.mem_cons, not_or] at absent
    rw [List.cons_append, splitDouble_cons_of_ne (Ne.symm absent.1), ih absent.2, Option.map_map]
    rfl

/-- The parts of a list separated once each hold no doubled separator, even with one
more separator in front. -/
theorem splitDouble_sep_intercalate {sep : Char} {parts : List Text}
    (absent : ∀ part ∈ parts, sep ∉ part) (nonempty : ∀ part ∈ parts, part ≠ []) :
    splitDouble sep (sep :: [sep].intercalate parts) = none := by
  induction parts with
  | nil => simp [splitDouble]
  | cons part parts ih =>
    obtain ⟨first, body, rfl⟩ := List.exists_cons_of_ne_nil (nonempty part (by simp))
    have freeFirst : first ≠ sep := fun same => absent (first :: body) (by simp) (by simp [same])
    have freePart : sep ∉ first :: body := absent _ (by simp)
    have shape : ∀ tail : Text, (sep :: ((first :: body) ++ tail)) =
        sep :: first :: (body ++ tail) := fun _ => rfl
    cases parts with
    | nil =>
      rw [List.intercalate_singleton]
      rw [splitDouble_sep_cons_of_ne freeFirst, splitDouble_none_of_not_mem freePart,
        Option.map_none]
    | cons next parts =>
      have rest := ih (fun other member => absent other (by simp [member]))
        (fun other member => nonempty other (by simp [member]))
      rw [List.intercalate_cons_cons, List.append_assoc, shape,
        splitDouble_sep_cons_of_ne freeFirst]
      have inner := splitDouble_append_of_not_mem freePart
        ([sep] ++ [sep].intercalate (next :: parts))
      rw [List.singleton_append, rest, Option.map_none] at inner
      rw [List.cons_append] at inner
      rw [List.singleton_append, inner, Option.map_none]

theorem splitDouble_intercalate {sep : Char} {parts : List Text}
    (absent : ∀ part ∈ parts, sep ∉ part) (nonempty : ∀ part ∈ parts, part ≠ []) :
    splitDouble sep ([sep].intercalate parts) = none := by
  cases parts with
  | nil => rfl
  | cons part parts =>
    have whole := splitDouble_sep_intercalate absent nonempty
    obtain ⟨first, body, rfl⟩ := List.exists_cons_of_ne_nil (nonempty part (by simp))
    have freeFirst : first ≠ sep := fun same => absent (first :: body) (by simp) (by simp [same])
    cases parts with
    | nil =>
      rw [List.intercalate_singleton] at whole ⊢
      rwa [splitDouble_sep_cons_of_ne freeFirst, Option.map_eq_none_iff] at whole
    | cons next parts =>
      rw [List.intercalate_cons_cons, List.append_assoc, List.cons_append] at whole ⊢
      rwa [splitDouble_sep_cons_of_ne freeFirst, Option.map_eq_none_iff] at whole

/-- **Separated parts, a doubled separator and more separated parts are cut at the
doubled separator.** -/
theorem splitDouble_append {sep : Char} {parts : List Text}
    (absent : ∀ part ∈ parts, sep ∉ part) (nonempty : ∀ part ∈ parts, part ≠ []) (tail : Text) :
    splitDouble sep ([sep].intercalate parts ++ sep :: sep :: tail) =
      some ([sep].intercalate parts, tail) := by
  induction parts with
  | nil => simp [splitDouble]
  | cons part parts ih =>
    have freePart : sep ∉ part := absent _ (by simp)
    cases parts with
    | nil =>
      rw [List.intercalate_singleton, splitDouble_append_of_not_mem freePart]
      simp [splitDouble]
    | cons next parts =>
      have rest := ih (fun other member => absent other (by simp [member]))
        (fun other member => nonempty other (by simp [member]))
      obtain ⟨first, body, shape⟩ := List.exists_cons_of_ne_nil (nonempty next (by simp))
      have freeFirst : first ≠ sep := fun same =>
        absent next (by simp) (by rw [shape, same]; simp)
      have head : ∃ more, [sep].intercalate (next :: parts) = first :: more := by
        cases parts with
        | nil => exact ⟨body, by rw [List.intercalate_singleton, shape]⟩
        | cons other parts =>
          exact ⟨body ++ ([sep] ++ [sep].intercalate (other :: parts)), by
            rw [List.intercalate_cons_cons, shape, List.append_assoc, List.cons_append]⟩
      obtain ⟨more, start⟩ := head
      rw [start] at rest
      rw [List.cons_append] at rest
      rw [List.intercalate_cons_cons, start, List.append_assoc, List.append_assoc,
        splitDouble_append_of_not_mem freePart, List.singleton_append, List.cons_append,
        splitDouble_sep_cons_of_ne freeFirst, rest]
      simp

end Text

end Cidrella
