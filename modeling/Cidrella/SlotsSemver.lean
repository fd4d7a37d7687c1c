import Cidrella.Lib.Json
import Cidrella.Versions

/-!
# The other comparison of versions

`semver_cmp` of `scripts/lib/slots.sh` and the functions it calls, which the update scripts
use in place of `compareSemver`. A word is split at dots as the shell splits fields, numbers
are 64-bit, and words are compared byte by byte, which for texts in UTF-8 is character by
character.

`version_comparators_agree` states what is expected of the two: on valid versions they answer
alike, and what they answer is precedence.
-/

set_option autoImplicit false

namespace Cidrella

namespace Slots

open Text Semver Precedence

/-! ## The functions -/

/-- A word split at dots. A dot ends a field, so nothing follows the last one. -/
def fields (word : Text) : List Text :=
  let parts := word.splitOn '.'
  if parts.getLast? = some [] then parts.dropLast else parts

/-- `${word:-0}` of a positional parameter. -/
def orZero (word : Option Text) : Text := (word.filter (· ≠ [])).getD ['0']

/-- `printf '%d'`. A leading zero makes a number octal, and what does not fit 64 bits is an
error. Signs, hexadecimal digits and quoted characters, which no version has there, are taken
for errors too. -/
def printfInteger (word : Text) : Option Nat :=
  if word = [] || !word.all Char.isDigit then none
  else
    let base := if word.head? = some '0' && word.length ≠ 1 then 8 else 10
    if word.all fun c => digitValue c < base then
      let value := readDigits base word
      if value < 2 ^ 63 then some value else none
    else none

/-- `_semver_core`. -/
def semverCore (version : Text) : Option (List Nat) :=
  let v := ((stripV version).takeWhile (· ≠ '+')).takeWhile (· ≠ '-')
  let words := fields v
  [orZero words[0]?, orZero words[1]?, orZero words[2]?].mapM printfInteger

/-- `_semver_prerelease`. -/
def semverPrerelease (version : Text) : Text :=
  ((((stripV version).takeWhile (· ≠ '+'))).dropWhile (· ≠ '-')).drop 1

/-- `[ "$a" -lt "$b" ]` of two texts of digits. It fails where a number does not fit 64 bits. -/
def testLt (a b : Text) : Bool :=
  readDigits 10 a < 2 ^ 63 && readDigits 10 b < 2 ^ 63 && readDigits 10 a < readDigits 10 b

/-- `_semver_cmp_id`. -/
def semverCmpId (a b : Text) : Ordering :=
  if isNumeric a && isNumeric b then
    if testLt a b then .lt else if testLt b a then .gt else .eq
  else if isNumeric a then .lt
  else if isNumeric b then .gt
  else if a = b then .eq
  else if a < b then .lt
  else .gt

/-- The loop of `_semver_cmp_pre` and its comparison of the lengths. -/
def semverCmpIds (a b : List Text) : Ordering := compareLists semverCmpId a b

/-- `_semver_cmp_pre`. -/
def semverCmpPre (a b : Text) : Ordering :=
  if a = [] ∧ b = [] then .eq else if a = [] then .gt else if b = [] then .lt
  else semverCmpIds (fields a) (fields b)

/-- The comparison of the three numbers in `semver_cmp`. -/
def semverCmpCore (a b : List Nat) : Ordering := compareLists ordering a b

/-- `semver_cmp`. Where a core has no numbers in it, it answers nothing. -/
def semverCmp (a b : Text) : Option Ordering := do
  let aCore ← semverCore a
  let bCore ← semverCore b
  return (semverCmpCore aCore bCore).then (semverCmpPre (semverPrerelease a) (semverPrerelease b))

/-! ## Valid versions -/

theorem fields_dotted {ids : List Text} (filled : ∀ id ∈ ids, id ≠ []) (free : ∀ id ∈ ids, '.' ∉ id)
    (some : ids ≠ []) : fields (['.'].intercalate ids) = ids := by
  rw [fields, List.splitOn_intercalate '.' free some, if_neg]
  intro last
  exact filled [] (List.mem_of_getLast? last) rfl

theorem free_of_isIdentifier {id : Text} (valid : isIdentifier id = true) : id ≠ [] ∧ '.' ∉ id := by
  refine ⟨of_decide_eq_true (Bool.and_eq_true_iff.mp valid).1, fun dot => ?_⟩
  have := isIdentifierChar_of_mem valid dot
  rw [not_isIdentifierChar.1] at this
  cases this

theorem printfInteger_toDigits {n : Nat} (small : n < 2 ^ 53) : printfInteger (Nat.toDigits 10 n) =
    some n := by
  have digits : ∀ c ∈ Nat.toDigits 10 n, c.isDigit = true := fun c member =>
    Address.isDigit_of_mem_decimal member
  have decimal : ((Nat.toDigits 10 n).head? = some '0' && (Nat.toDigits 10 n).length ≠ 1) =
      false := by
    by_cases zero : n = 0
    · subst zero
      rfl
    · rw [Bool.and_eq_false_iff]
      exact .inl (decide_eq_false (Json.head?_toDigits zero))
  have values : (Nat.toDigits 10 n).all (fun c => digitValue c < 10) = true := by
    refine List.all_eq_true.mpr fun c member => decide_eq_true ?_
    exact forall_mem_toDigits (by norm_num) (fun c => digitValue c < 10)
      (fun d below => by rw [digitValue_digitChar (by omega)]; exact below) n c member
  have some : ((Nat.toDigits 10 n = [] : Bool) || !(Nat.toDigits 10 n).all Char.isDigit) =
      false := by
    simp [Nat.toDigits_ne_nil, List.all_eq_true.mpr digits]
  rw [printfInteger, if_neg (by rw [some]; exact Bool.false_ne_true)]
  simp only [decimal, Bool.false_eq_true, if_false, values, if_true,
    readDigits_toDigits (show 1 < 10 by norm_num) (show 10 ≤ 16 by norm_num)]
  exact if_pos (by omega)

theorem semverCore_spelled {version : Version} {text : Text} (small : version.IsSmall)
    (spelled : version.IsSpelled text) :
    semverCore text = some [version.major, version.minor, version.patch] := by
  have free : '-' ∉ version.coreText := fun member =>
    absurd (isDigit_or_dot_of_mem_coreText member) (by decide)
  have words : fields version.coreText =
      [Nat.toDigits 10 version.major, Nat.toDigits 10 version.minor,
      Nat.toDigits 10 version.patch] := by
    refine fields_dotted (fun id listed => ?_) (fun id listed dot => ?_) (by simp)
    · simp only [List.mem_cons, List.not_mem_nil, or_false] at listed
      obtain rfl | rfl | rfl := listed <;> exact Nat.toDigits_ne_nil
    · have digit : ('.').isDigit = true := by
        simp only [List.mem_cons, List.not_mem_nil, or_false] at listed
        obtain rfl | rfl | rfl := listed <;> exact Address.isDigit_of_mem_decimal dot
      cases digit
  have given (n : Nat) : orZero (some (Nat.toDigits 10 n)) = Nat.toDigits 10 n := by
    simp [orZero, Option.filter, Nat.toDigits_ne_nil]
  rw [semverCore, stripV_spelled spelled, takeWhile_text, (takeWhile_suffix _ free).1, words]
  simp only [List.getElem?_cons_zero, List.getElem?_cons_succ, given, List.mapM_cons, List.mapM_nil,
    printfInteger_toDigits small.major, printfInteger_toDigits small.minor,
    printfInteger_toDigits small.patch]
  rfl

theorem semverPrerelease_spelled {version : Version} {text : Text}
    (spelled : version.IsSpelled text) :
    semverPrerelease text = ['.'].intercalate (version.prerelease.map Identifier.text) := by
  have free : '-' ∉ version.coreText := fun member =>
    absurd (isDigit_or_dot_of_mem_coreText member) (by decide)
  rw [semverPrerelease, stripV_spelled spelled, takeWhile_text, (takeWhile_suffix _ free).2, suffix]
  split
  · rename_i none
    rw [none]
    rfl
  · rfl

/-! ## The comparison is by precedence -/

theorem semverCmpId_text {x y : Identifier} (smallX : ∀ n, x = .numeric n → n < 2 ^ 53)
    (smallY : ∀ n, y = .numeric n → n < 2 ^ 53) :
    semverCmpId x.text y.text = ordering x.precedence y.precedence := by
  cases x with
  | numeric n =>
    cases y with
    | numeric m =>
      have left := smallX n rfl
      have right := smallY m rfl
      have tests (i j : Nat) (smallI : i < 2 ^ 53) (smallJ : j < 2 ^ 53) :
          testLt (Nat.toDigits 10 i) (Nat.toDigits 10 j) = decide (i < j) := by
        simp only [testLt, readDigits_toDigits (show 1 < 10 by norm_num) (show 10 ≤ 16 by norm_num)]
        rw [decide_eq_true (by omega : i < 2 ^ 63), decide_eq_true (by omega : j < 2 ^ 63)]
        rfl
      rw [Identifier.text, Identifier.text, semverCmpId, isNumeric_text, isNumeric_text,
        Bool.and_self, if_pos rfl, tests n m left right, tests m n right left]
      simp only [decide_eq_true_eq]
      exact (ordering_inlₗ n m).symm
    | alphanumeric word valid =>
      rw [Identifier.text, Identifier.text, semverCmpId, isNumeric_text, not_isNumeric_word valid]
      exact (ordering_inlₗ_inrₗ n word).symm
  | alphanumeric word valid =>
    cases y with
    | numeric m =>
      rw [Identifier.text, Identifier.text, semverCmpId, isNumeric_text, not_isNumeric_word valid]
      exact (ordering_inrₗ_inlₗ word m).symm
    | alphanumeric other valid' =>
      rw [Identifier.text, Identifier.text, semverCmpId, not_isNumeric_word valid,
        not_isNumeric_word valid']
      refine Eq.trans ?_ (ordering_inrₗ word other).symm
      simp only [Bool.and_self, Bool.false_eq_true, if_false]
      by_cases same : word = other
      · rw [if_pos same, same, ordering_self]
      · rw [if_neg same]
        obtain less | greater := lt_or_gt_of_ne same
        · rw [if_pos less, ordering_eq_lt.mpr less]
        · rw [if_neg greater.not_gt, ordering_eq_gt.mpr greater]

theorem semverCmpIds_text {xs ys : List Identifier} (smallX : SmallIds xs) (smallY : SmallIds ys) :
    semverCmpIds (xs.map Identifier.text) (ys.map Identifier.text) =
      ordering (xs.map Identifier.precedence) (ys.map Identifier.precedence) :=
  compareLists_map fun _ listed _ others =>
    semverCmpId_text (fun n same => smallX n (same ▸ listed))
      (fun n same => smallY n (same ▸ others))

theorem semverCmpPre_text {xs ys : List Identifier} (smallX : SmallIds xs) (smallY : SmallIds ys) :
    semverCmpPre (['.'].intercalate (xs.map Identifier.text))
      (['.'].intercalate (ys.map Identifier.text)) = ordering (prereleasePrecedence xs)
      (prereleasePrecedence ys) := by
  have valid (ids : List Identifier) : ∀ id ∈ ids.map Identifier.text, isIdentifier id = true :=
    List.forall_mem_map.mpr fun id _ => id.isIdentifier
  have filled {id : Identifier} {ids : List Identifier} :
      ['.'].intercalate ((id :: ids).map Identifier.text) ≠ [] := by
    intro empty
    have split := splitOn_dotted (valid (id :: ids)) (by simp)
    rw [empty] at split
    have first := valid (id :: ids) [] (split ▸ List.mem_singleton_self [])
    cases first
  have parts {id : Identifier} {ids : List Identifier} :
      fields (['.'].intercalate ((id :: ids).map Identifier.text)) =
      (id :: ids).map Identifier.text :=
    fields_dotted (fun text listed => (free_of_isIdentifier (valid _ text listed)).1)
      (fun text listed => (free_of_isIdentifier (valid _ text listed)).2) (by simp)
  cases xs with
  | nil =>
    cases ys with
    | nil => exact (ordering_self _).symm
    | cons y ys =>
      rw [semverCmpPre, if_neg fun both => filled both.2]
      exact (ordering_top_coe _).symm
  | cons x xs =>
    cases ys with
    | nil =>
      rw [semverCmpPre, if_neg fun both => filled both.1, if_neg filled]
      exact (ordering_coe_top _).symm
    | cons y ys =>
      rw [semverCmpPre, if_neg fun both => filled both.1, if_neg filled, if_neg filled,
        parts, parts, semverCmpIds_text smallX smallY]
      exact (ordering_coe _ _).symm

/-- **`semver_cmp` answers by precedence.** -/
theorem semverCmp_spelled {a b : Version} {s t : Text} (smallA : a.IsSmall) (smallB : b.IsSmall)
    (spelledA : a.IsSpelled s) (spelledB : b.IsSpelled t) :
    semverCmp s t = some (ordering a.precedence b.precedence) := by
  rw [semverCmp, semverCore_spelled smallA spelledA, semverCore_spelled smallB spelledB,
    semverPrerelease_spelled spelledA, semverPrerelease_spelled spelledB,
    semverCmpPre_text smallA.prerelease smallB.prerelease, Version.precedence, Version.precedence,
    ordering_toLex, ← compareLists_ordering [a.major, a.minor, a.patch]]
  rfl

/-! ## The two comparisons -/

/-- A valid version with a text for it. -/
structure Written where
  version : Version
  text : Text
  small : version.IsSmall
  spelled : version.IsSpelled text

theorem Written.compareSemver_eq (a b : Written) :
    compareSemver a.text b.text = ordering a.version.precedence b.version.precedence :=
  compareSemver_spelled a.small b.small a.spelled b.spelled

/-- **The two comparisons of versions are one, and it is precedence.** -/
theorem version_comparators_agree :
    (∀ a b : Written, semverCmp a.text b.text = some (compareSemver a.text b.text) ∧
      compareSemver a.text b.text = ordering a.version.precedence b.version.precedence ∧
      compareSemver b.text a.text = (compareSemver a.text b.text).swap ∧
      (compareSemver a.text b.text = .eq ↔
        SameCore a.version b.version ∧ a.version.prerelease = b.version.prerelease)) ∧
    (∀ a b c : Written, compareSemver a.text b.text ≠ .gt → compareSemver b.text c.text ≠ .gt →
      compareSemver a.text c.text ≠ .gt) ∧
    (∀ a b : Written, SameCore a.version b.version →
      ∀ {common restA restB : List Identifier} {n : Nat} {word : Text}
        {valid : (isIdentifier word && !word.all Char.isDigit) = true},
        a.version.prerelease = common ++ .numeric n :: restA →
        b.version.prerelease = common ++ .alphanumeric word valid :: restB →
        compareSemver a.text b.text = .lt) ∧
    ∀ a b : Written, SameCore a.version b.version → ∀ {more : List Identifier},
      a.version.prerelease ≠ [] → more ≠ [] → b.version.prerelease = a.version.prerelease ++ more →
      compareSemver a.text b.text = .lt := by
  refine ⟨fun a b => ⟨?_, a.compareSemver_eq b, ?_, ?_⟩, fun a b c first second => ?_, ?_, ?_⟩
  · rw [semverCmp_spelled a.small b.small a.spelled b.spelled, a.compareSemver_eq b]
  · rw [a.compareSemver_eq b, b.compareSemver_eq a, ordering_swap]
  · rw [a.compareSemver_eq b, ordering_eq_eq, precedence_inj, SameCore, and_assoc, and_assoc]
  · rw [a.compareSemver_eq b, ordering_ne_gt] at first
    rw [b.compareSemver_eq c, ordering_ne_gt] at second
    rw [a.compareSemver_eq c, ordering_ne_gt]
    exact first.trans second
  · intro a b core common restA restB n word valid preA preB
    rw [a.compareSemver_eq b, ordering_eq_lt]
    exact precedence_lt_of_numeric core preA preB
  · intro a b core more some longer preB
    rw [a.compareSemver_eq b, ordering_eq_lt]
    exact precedence_lt_of_prefix core some longer preB

/-- A release candidate of 1.2.3. -/
def candidate (n : Nat) : Version :=
  ⟨1, 2, 3, [.alphanumeric "rc".toList (by decide), .numeric n], [⟨"b7".toList, by decide⟩]⟩

def candidateTag (n : Nat) (small : n < 2 ^ 53) : Written where
  version := candidate n
  text := 'v' :: (candidate n).text
  small := by
    constructor <;> simp [candidate]
    exact small
  spelled := .inr rfl

theorem version_comparators_agree_candidates :
    semverCmp "v1.2.3-rc.2+b7".toList "v1.2.3-rc.10+b7".toList = some .lt ∧
    compareSemver "v1.2.3-rc.2+b7".toList "v1.2.3-rc.10+b7".toList = .lt := by
  obtain ⟨agree, -⟩ :=
    version_comparators_agree.1 (candidateTag 2 (by decide)) (candidateTag 10 (by decide))
  have first : (candidateTag 2 (by decide)).text = "v1.2.3-rc.2+b7".toList := by decide
  have second : (candidateTag 10 (by decide)).text = "v1.2.3-rc.10+b7".toList := by decide
  have less : compareSemver "v1.2.3-rc.2+b7".toList "v1.2.3-rc.10+b7".toList = .lt := by decide
  rw [first, second, less] at agree
  exact ⟨agree, less⟩

end Slots

end Cidrella
