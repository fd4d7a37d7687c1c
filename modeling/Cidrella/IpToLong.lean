import Cidrella.AddressGrammar
import Cidrella.Lib.Numbers

/-!
# The fast IPv4 reader

`ipToLong` and `longToIp` of `utils/cidr.js`. Each part of a dotted quad goes through `Number`,
which reads much that is no run of digits: nothing at all, hexadecimal, exponents, signs and
blanks. `parseV4` asks for one to three digits.

The two agree on a text exactly when its parts are such runs of digits or else not four numbers
of an octet (`agrees_iff`). Then `longToIp` writes what `canonicalizeIp` does.
-/

set_option autoImplicit false

namespace Cidrella

namespace IpToLong

open Address Text Numbers

/-- `Number(part)`. -/
def toNumber (part : Text) : Option Double := number isTrimmed part

/-- `isNaN(p) || p < 0 || p > 255`. -/
def isOutside : Option Double → Bool
  | none => true
  | some ⟨true, units⟩ => units ≠ 0
  | some ⟨false, units⟩ => decide (WithTop.some (255 * unitsInOne) < units)

/-- A number that is not outside, as the operand of `<<` and `|`: its fraction is cut off. -/
def toInt : Option Double → Nat
  | some ⟨_, WithTop.some units⟩ => units / unitsInOne
  | _ => 0

/-- The parts of a text as numbers. -/
def numbers (ip : Text) : List (Option Double) := (ip.splitOn '.').map toNumber

/-- `ipToLong`. It throws on what is no dotted quad. -/
def ipToLong (ip : Text) : Option Nat :=
  let parts := numbers ip
  if parts.length ≠ 4 ∨ parts.any isOutside then none
  else
    let part := fun i => toInt (parts.getD i none)
    -- `>>> 0` takes the 32 bits as they are, whatever the sign of the first shift.
    some ((part 0 <<< 24 ||| part 1 <<< 16 ||| part 2 <<< 8 ||| part 3) % 2 ^ 32)

/-- `longToIp`. -/
def longToIp (long : Nat) : Text :=
  ['.'].intercalate
    ([long >>> 24 &&& 255, long >>> 16 &&& 255, long >>> 8 &&& 255, long &&& 255].map
    (Nat.toDigits 10))

/-! ## Parts -/

theorem longToIp_eq (long : Nat) : longToIp long = formatIp long ipv4Bits := by
  have octet (n : Nat) : n &&& 255 = n % 2 ^ 8 := Nat.and_two_pow_sub_one_eq_mod n 8
  rw [longToIp, formatIp, if_pos rfl]
  simp only [octet, groups]
  rfl

theorem dot_not_trimmed : isTrimmed '.' = false := by decide

theorem numbers_trim (ip : Text) : numbers (trim ip) = numbers ip := by
  have parts := map_splitOn_trimBy dot_not_trimmed ip
  have through (texts : List Text) : texts.map toNumber = (texts.map (trimBy isTrimmed)).map
      literal := by
    rw [List.map_map]
    rfl
  rw [numbers, numbers, through, through]
  exact congrArg _ parts

theorem digitValue_lt_of_isDigit {c : Char} (digit : c.isDigit = true) : digitValue c < 10 := by
  rw [Char.isDigit_iff_toNat] at digit
  simp only [Char.reduceToNat] at digit
  simp only [digitValue, char_le_iff, Char.reduceToNat]
  split_ifs <;> omega

theorem toNumber_of_isOctet {part : Text} (octet : isOctet part = true) :
    toNumber part = some ⟨false, WithTop.some (readDigits 10 part * unitsInOne)⟩ := by
  simp only [isOctet, Bool.and_eq_true, decide_eq_true_eq] at octet
  obtain ⟨⟨some', short⟩, digits⟩ := octet
  have solid : ∀ c ∈ part, isTrimmed c = false := fun c member =>
    isTrimmed_of_isPlain
      (isPlain_of_isHexDigit (isHexDigit_of_isDigit (List.all_eq_true.mp digits c member)))
  have small : readDigits 10 part < 2 ^ 53 :=
    calc readDigits 10 part < 10 ^ part.length :=
          readDigits_lt fun c member => digitValue_lt_of_isDigit
            (List.all_eq_true.mp digits c member)
      _ ≤ 10 ^ 3 := Nat.pow_le_pow_right (by decide) short
      _ ≤ 2 ^ 53 := by norm_num
  exact number_of_digits (List.ne_nil_of_length_pos some') digits solid small

theorem numbers_of_isOctet {ip : Text} (octets : ∀ part ∈ (trim ip).splitOn '.',
    isOctet part = true) :
    numbers ip = ((trim ip).splitOn '.').map fun part =>
      some ⟨false, WithTop.some (readDigits 10 part * unitsInOne)⟩ := by
  rw [← numbers_trim, numbers]
  exact List.map_congr_left fun part member => toNumber_of_isOctet (octets part member)

theorem isOutside_iff (n : Nat) :
    isOutside (some ⟨false, WithTop.some (n * unitsInOne)⟩) = decide (255 < n) := by
  have positive := unitsInOne_pos
  simp only [isOutside]
  generalize unitsInOne = unit at positive
  refine decide_eq_decide.mpr (WithTop.coe_lt_coe.trans ?_)
  exact ⟨fun more => Nat.lt_of_mul_lt_mul_right more, fun more => Nat.mul_lt_mul_of_pos_right
    more positive⟩

theorem toInt_of_nat (n : Nat) : toInt (some ⟨false, WithTop.some (n * unitsInOne)⟩) = n :=
  Nat.mul_div_cancel n unitsInOne_pos

theorem joined_octets {a b c d : Nat} (smallB : b < 256) (smallC : c < 256) (smallD : d < 256) :
    a <<< 24 ||| b <<< 16 ||| c <<< 8 ||| d = joinGroups 8 [a, b, c, d] := by
  have append (high : Nat) {low : Nat} (small : low < 256) :
      high <<< 8 ||| low = high <<< 8 + low :=
    (Nat.shiftLeft_add_eq_or_of_lt small high).symm
  have first : a <<< 24 ||| b <<< 16 = (a <<< 8 ||| b) <<< 16 := by
    rw [Nat.shiftLeft_or_distrib, ← Nat.shiftLeft_add]
  have second : (a <<< 8 ||| b) <<< 16 ||| c <<< 8 = ((a <<< 8 ||| b) <<< 8 ||| c) <<< 8 := by
    rw [Nat.shiftLeft_or_distrib (b := c), ← Nat.shiftLeft_add]
  rw [first, second, append _ smallD, append _ smallC, append _ smallB]
  simp [joinGroups]

/-! ## The two readers -/

/-- The parts of a text are four numbers of an octet. -/
def fourNumbers (ip : Text) : Bool := (numbers ip).length = 4 && !(numbers ip).any isOutside

theorem ipToLong_isSome (ip : Text) : (ipToLong ip).isSome = fourNumbers ip := by
  rw [ipToLong, fourNumbers]
  by_cases four : (numbers ip).length = 4
  · by_cases outside : (numbers ip).any isOutside = true
    · simp [outside]
    · simp [four, outside]
  · simp [four]

theorem parseV4_iff (text : Text) (n : Nat) :
    parseV4 text = some n ↔ (text.splitOn '.').length = 4 ∧
      (∀ part ∈ text.splitOn '.', IsOctetText part) ∧
      n = joinGroups 8 ((text.splitOn '.').map (readDigits 10)) := by
  rw [parseV4]
  by_cases four : (text.splitOn '.').length = 4
  · rw [if_neg (not_not.mpr four), Option.bind_eq_bind, Option.bind_eq_some_iff]
    simp only [mapM_guard_iff parseOctet_eq_some_iff, four, true_and, Option.some.injEq]
    constructor
    · rintro ⟨values, ⟨octets, rfl⟩, rfl⟩
      exact ⟨octets, rfl⟩
    · rintro ⟨octets, rfl⟩
      exact ⟨_, ⟨octets, rfl⟩, rfl⟩
  · rw [if_pos four]
    exact iff_of_false (by simp) fun whole => four whole.1

/-- **What `parseV4` reads is read the same**, with blanks around it. -/
theorem ipToLong_of_parseV4 {ip : Text} {n : Nat} (read : parseV4 (trim ip) = some n) :
    ipToLong ip = some n := by
  obtain ⟨four, octets, rfl⟩ := (parseV4_iff _ _).mp read
  have values := numbers_of_isOctet fun part member => by
    obtain ⟨some', short, digits, -⟩ := octets part member
    simp only [isOctet, Bool.and_eq_true, decide_eq_true_eq, List.all_eq_true]
    exact ⟨⟨some', short⟩, digits⟩
  obtain ⟨a, b, c, d, parts⟩ := List.length_eq_four.mp four
  rw [parts] at octets values ⊢
  simp only [List.forall_mem_cons, List.map_cons, List.map_nil] at octets values ⊢
  obtain ⟨⟨-, -, -, smallA⟩, ⟨-, -, -, smallB⟩, ⟨-, -, -, smallC⟩, ⟨-, -, -, smallD⟩, -⟩ := octets
  have inside : ¬ ((numbers ip).length ≠ 4 ∨ (numbers ip).any isOutside = true) := by
    rw [values]
    simp only [List.length_cons, List.length_nil, List.any_cons, List.any_nil, isOutside_iff,
      Bool.or_false, Bool.or_eq_true, decide_eq_true_eq]
    omega
  have bound : joinGroups 8 [readDigits 10 a, readDigits 10 b, readDigits 10 c, readDigits 10 d] <
      2 ^ 32 := by
    refine joinGroups_lt fun part member => ?_
    simp only [List.mem_cons, List.not_mem_nil, or_false] at member
    omega
  rw [ipToLong]
  simp only
  rw [if_neg inside, values]
  simp only [List.getD_cons_zero, List.getD_cons_succ, toInt_of_nat]
  rw [joined_octets (by omega) (by omega) (by omega), Nat.mod_eq_of_lt bound]

theorem mem_of_mem_trim {ip : Text} {c : Char} (member : c ∈ trim ip) : c ∈ ip :=
  (List.dropWhile_sublist isTrimmed).subset (List.mem_reverse.mp
    ((List.dropWhile_sublist isTrimmed).subset (List.mem_reverse.mp member)))

/-- What `parseIp` makes of a text without colons. -/
theorem parseIp_plain_iff {ip : Text} (plain : ':' ∉ ip) (parsed : ParsedIp) :
    parseIp ip = some parsed ↔ ∃ n, parseV4 (trim ip) = some n ∧ parsed = ⟨n, ipv4Bits, none⟩ := by
  have colons : ':' ∉ trim ip := fun member => plain (mem_of_mem_trim member)
  rw [(parseIp_iff_literal ip).2]
  constructor
  · rintro ⟨literal, spelled, rfl⟩
    generalize trim ip = trimmed at spelled colons
    cases spelled with
    | quad dotted => exact ⟨_, (parseV4_eq_some_iff _ _).mpr dotted, foldMapped_v4 _ none⟩
    | groups six => exact absurd six.colon_mem colons
    | zoned six => exact absurd (List.mem_append_left _ six.colon_mem) colons
  · rintro ⟨n, read, rfl⟩
    exact ⟨_, .quad ((parseV4_eq_some_iff _ _).mp read), (foldMapped_v4 n none).symm⟩

theorem colon_not_mem_of_parseV4 {ip : Text} {n : Nat} (read : parseV4 (trim ip) = some n) :
    ':' ∉ ip := by
  intro member
  obtain ⟨front, back, whole, pads⟩ := exists_padding isTrimmed ip
  rw [whole, List.append_assoc, List.mem_append, List.mem_append] at member
  rcases member with before | inside | behind
  · exact absurd (pads _ (List.mem_append_left _ before)) (by decide)
  · exact ((parseV4_eq_some_iff _ _).mp read).colon_not_mem inside
  · exact absurd (pads _ (List.mem_append_right _ behind)) (by decide)

/-! ## When they agree -/

/-- The two readers say the same of a text, and the two writers. -/
def Agrees (ip : Text) : Prop :=
  (∀ n, ipToLong ip = some n ↔ ':' ∉ ip ∧ ∃ zone, parseIp ip = some ⟨n, ipv4Bits, zone⟩) ∧
    (':' ∉ ip → (ipToLong ip).map longToIp = canonicalizeIp ip)

/-- What is read as four octets is spelled as four octets. -/
def PlainlySpelled (ip : Text) : Prop :=
  fourNumbers ip = true → ∀ part ∈ (trim ip).splitOn '.', isOctet part = true

instance (ip : Text) : Decidable (PlainlySpelled ip) := inferInstanceAs (Decidable (_ → _))

/-- `parseV4` reads what is plainly spelled. -/
theorem parseV4_of_plainlySpelled {ip : Text} (spelled : PlainlySpelled ip)
    (four : fourNumbers ip = true) :
    (parseV4 (trim ip)).isSome = true := by
  have octets := spelled four
  have values := numbers_of_isOctet octets
  simp only [fourNumbers, values, List.length_map, Bool.and_eq_true, decide_eq_true_eq,
    Bool.not_eq_true', List.any_map, List.any_eq_false] at four
  obtain ⟨length, inside⟩ := four
  refine Option.isSome_iff_exists.mpr
    ⟨_, (parseV4_iff _ _).mpr ⟨length, fun part member => ?_, rfl⟩⟩
  have octet := octets part member
  have small := inside part member
  simp only [isOctet, Bool.and_eq_true, decide_eq_true_eq, List.all_eq_true] at octet
  rw [Function.comp_apply, isOutside_iff, decide_eq_true_eq] at small
  exact ⟨octet.1.1, octet.1.2, octet.2, by omega⟩

/-- **The two readers agree exactly on what is plainly spelled.** -/
theorem agrees_iff (ip : Text) : Agrees ip ↔ PlainlySpelled ip := by
  constructor
  · rintro ⟨same, -⟩ four part member
    obtain ⟨n, read⟩ := Option.isSome_iff_exists.mp ((ipToLong_isSome ip).trans four)
    obtain ⟨plain, zone, parsed⟩ := (same n).mp read
    obtain ⟨m, quad, -⟩ := (parseIp_plain_iff plain _).mp parsed
    obtain ⟨-, octets, -⟩ := (parseV4_iff _ _).mp quad
    obtain ⟨some', short, digits, -⟩ := octets part member
    simp only [isOctet, Bool.and_eq_true, decide_eq_true_eq, List.all_eq_true]
    exact ⟨⟨some', short⟩, digits⟩
  · intro spelled
    have same (n : Nat) : ipToLong ip = some n ↔ parseV4 (trim ip) = some n := by
      refine ⟨fun read => ?_, ipToLong_of_parseV4⟩
      have four : fourNumbers ip = true := (ipToLong_isSome ip).symm.trans (by rw [read]; rfl)
      obtain ⟨m, quad⟩ := Option.isSome_iff_exists.mp (parseV4_of_plainlySpelled spelled four)
      rwa [← (ipToLong_of_parseV4 quad).symm.trans read]
    refine ⟨fun n => ?_, fun plain => ?_⟩
    · rw [same]
      constructor
      · intro quad
        have plain : ':' ∉ ip := colon_not_mem_of_parseV4 quad
        exact ⟨plain, none, (parseIp_plain_iff plain _).mpr ⟨n, quad, rfl⟩⟩
      · rintro ⟨plain, zone, parsed⟩
        obtain ⟨m, quad, whole⟩ := (parseIp_plain_iff plain _).mp parsed
        rwa [(ParsedIp.mk.inj whole).1]
    · refine Option.ext fun text => ?_
      rw [canonicalizeIp, Option.bind_eq_bind, Option.bind_eq_some_iff]
      simp only [Option.map_eq_some_iff, same, parseIp_plain_iff plain, Option.some.injEq,
        longToIp_eq]
      constructor
      · rintro ⟨n, quad, rfl⟩
        exact ⟨_, ⟨n, quad, rfl⟩, rfl⟩
      · rintro ⟨_, ⟨n, quad, rfl⟩, rfl⟩
        exact ⟨n, quad, rfl⟩

/-- Nothing between two dots is read as zero. -/
theorem empty_part_is_read : ¬ ∀ ip : Text, Agrees ip := by
  intro all
  have cut : "1..2.3".toList.splitOn '.' = [['1'], [], ['2'], ['3']] := by decide
  have spelled {part : Text} {n : Nat} (octet : isOctet part = true)
      (value : readDigits 10 part = n) :
      toNumber part = some ⟨false, WithTop.some (n * unitsInOne)⟩ :=
      value ▸ toNumber_of_isOctet octet
  have one := @spelled ['1'] 1 (by decide) rfl
  have two := @spelled ['2'] 2 (by decide) rfl
  have three := @spelled ['3'] 3 (by decide) rfl
  have nothing : toNumber [] = some ⟨false, WithTop.some (0 * unitsInOne)⟩ := by
    rw [Nat.zero_mul]
    rfl
  have values : numbers "1..2.3".toList = [1, 0, 2, 3].map fun n =>
      some ⟨false, WithTop.some (n * unitsInOne)⟩ := by
    rw [numbers, cut, List.map_cons, List.map_cons, List.map_cons, List.map_singleton, one, two,
      three, nothing]
    rfl
  have four : fourNumbers "1..2.3".toList = true := by
    rw [fourNumbers, values, List.any_map, List.length_map]
    have inside :
        [1, 0, 2, 3].any (isOutside ∘ fun n => some ⟨false, WithTop.some (n * unitsInOne)⟩) =
        false := by
      refine List.any_eq_false.mpr fun n member => ?_
      rw [Function.comp_apply, isOutside_iff]
      revert n
      decide
    rw [inside]
    rfl
  exact absurd ((agrees_iff _).mp (all _) four) (by decide)

end IpToLong

end Cidrella
