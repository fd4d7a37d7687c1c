import Cidrella.AddressRoundTrip
import Cidrella.Semver
import Mathlib.Data.Char

/-!
# Semantic versions

What a valid version is: three numbers, pre-release identifiers and build identifiers, written
with dots, a `-` and a `+` (`Version.text`), and which of two versions has the lower
precedence (`Version.precedence`): the numbers decide first, a pre-release comes before its
release, identifiers are compared one by one, numbers before words, and build identifiers do
not count.

`compareSemver` reads such a text as it was meant (`parse_spelled`) and answers by precedence
(`compareSemver_spelled`), while its numbers are read exactly.
-/

set_option autoImplicit false

namespace Cidrella

namespace Semver

open Address Text Rounding Precedence

/-! ## Valid versions -/

/-- `[0-9A-Za-z-]`. -/
def isIdentifierChar (c : Char) : Bool := c.isAlphanum || c = '-'

/-- A nonempty run of such characters. -/
def isIdentifier (text : Text) : Bool := text ≠ [] && text.all isIdentifierChar

/-- A pre-release identifier: a number, written without leading zeros, or a word with something
in it that is no digit. -/
inductive Identifier where
  | numeric (n : Nat)
  | alphanumeric (word : Text) (valid : (isIdentifier word && !word.all Char.isDigit) = true)

/-- A valid version. -/
structure Version where
  major : Nat
  minor : Nat
  patch : Nat
  prerelease : List Identifier
  build : List {text : Text // isIdentifier text = true}

def Identifier.text : Identifier → Text
  | numeric n => Nat.toDigits 10 n
  | alphanumeric word _ => word

/-- A sign and some identifiers, where there are any. -/
def suffix (sign : Char) (ids : List Text) : Text := if ids = [] then [] else sign ::
    ['.'].intercalate ids

/-- The three numbers of a version. -/
def Version.coreText (version : Version) : Text :=
  ['.'].intercalate [Nat.toDigits 10 version.major, Nat.toDigits 10 version.minor,
    Nat.toDigits 10 version.patch]

/-- A version as it is written. -/
def Version.text (version : Version) : Text :=
  version.coreText ++
    (suffix '-' (version.prerelease.map Identifier.text) ++ suffix '+' (version.build.map (·.1)))

/-- With or without a leading `v`. -/
def Version.IsSpelled (version : Version) (text : Text) : Prop :=
  text = version.text ∨ text = 'v' :: version.text

/-- Every number of a version is one that a double holds exactly. -/
structure Version.IsSmall (version : Version) : Prop where
  major : version.major < 2 ^ 53
  minor : version.minor < 2 ^ 53
  patch : version.patch < 2 ^ 53
  prerelease : ∀ n, Identifier.numeric n ∈ version.prerelease → n < 2 ^ 53

/-! ## Precedence -/

/-- Numbers come before words. -/
def Identifier.precedence : Identifier → ℕ ⊕ₗ List Char
  | numeric n => Sum.inlₗ n
  | alphanumeric word _ => Sum.inrₗ word

/-- No pre-release comes after any. -/
def prereleasePrecedence (ids : List Identifier) : WithTop (List (ℕ ⊕ₗ List Char)) :=
  if ids.isEmpty then ⊤ else WithTop.some (ids.map Identifier.precedence)

/-- The precedence of a version. -/
def Version.precedence (version : Version) : List ℕ ×ₗ WithTop (List (ℕ ⊕ₗ List Char)) :=
  toLex ([version.major, version.minor, version.patch], prereleasePrecedence version.prerelease)

theorem Identifier.precedence_injective : Function.Injective Identifier.precedence := by
  intro x y same
  cases x with
  | numeric n =>
    cases y with
    | numeric m => exact congrArg _ (Sum.inl_injective same)
    | alphanumeric word valid => cases same
  | alphanumeric word valid =>
    cases y with
    | numeric m => cases same
    | alphanumeric other valid' =>
      have words : word = other := Sum.inr_injective same
      subst words
      rfl

theorem prereleasePrecedence_inj {xs ys : List Identifier} :
    prereleasePrecedence xs = prereleasePrecedence ys ↔ xs = ys := by
  refine ⟨fun same => ?_, fun same => same ▸ rfl⟩
  cases xs with
  | nil =>
    cases ys with
    | nil => rfl
    | cons y ys => exact absurd same.symm (WithTop.coe_ne_top)
  | cons x xs =>
    cases ys with
    | nil => exact absurd same (WithTop.coe_ne_top)
    | cons y ys =>
        exact List.map_injective_iff.mpr Identifier.precedence_injective
          (WithTop.coe_injective same)

/-- **Versions of equal precedence differ in their build identifiers only.** -/
theorem precedence_inj (a b : Version) :
    a.precedence = b.precedence ↔
      a.major = b.major ∧ a.minor = b.minor ∧ a.patch = b.patch ∧ a.prerelease = b.prerelease := by
  rw [Version.precedence, Version.precedence, toLex_inj, Prod.mk.injEq, prereleasePrecedence_inj,
    List.cons.injEq, List.cons.injEq, List.cons.injEq]
  simp [and_assoc]

/-! ## Reading one back -/

theorem Identifier.isIdentifier (id : Identifier) : isIdentifier id.text = true := by
  cases id with
  | numeric n =>
    rw [Semver.isIdentifier, Bool.and_eq_true, decide_eq_true_eq, List.all_eq_true]
    refine ⟨Nat.toDigits_ne_nil, fun c member => ?_⟩
    have digit : c.isDigit = true := isDigit_of_mem_decimal member
    rw [isIdentifierChar, Bool.or_eq_true]
    exact .inl (Bool.or_eq_true_iff.mpr (.inr digit))
  | alphanumeric word valid => exact (Bool.and_eq_true_iff.mp valid).1

theorem isIdentifierChar_of_mem {id : Text} (valid : isIdentifier id = true) {c : Char}
    (member : c ∈ id) :
    isIdentifierChar c = true :=
  List.all_eq_true.mp (Bool.and_eq_true_iff.mp valid).2 c member

theorem not_isIdentifierChar :
    isIdentifierChar '.' = false ∧ isIdentifierChar '+' = false ∧
      ∀ c, isLineTerminator c = true → isIdentifierChar c = false := by
  refine ⟨by decide, by decide, fun c ends => ?_⟩
  have listed : c ∈ ['\n', '\r', '\u2028', '\u2029'] := of_decide_eq_true ends
  fin_cases listed <;> decide

theorem mem_dotted {ids : List Text} (valid : ∀ id ∈ ids, isIdentifier id = true) {c : Char}
    (member : c ∈ ['.'].intercalate ids) : c = '.' ∨ isIdentifierChar c = true := by
  obtain rfl | ⟨id, listed, inside⟩ := mem_intercalate_singleton member
  · exact .inl rfl
  · exact .inr (isIdentifierChar_of_mem (valid id listed) inside)

theorem splitOn_dotted {ids : List Text} (valid : ∀ id ∈ ids, isIdentifier id = true)
    (some : ids ≠ []) :
    (['.'].intercalate ids).splitOn '.' = ids := by
  refine List.splitOn_intercalate '.' (fun id listed dot => ?_) some
  have := isIdentifierChar_of_mem (valid id listed) dot
  rw [not_isIdentifierChar.1] at this
  cases this

theorem takeWhile_suffix {sign : Char} {front : Text} (ids : List Text) (free : sign ∉ front) :
    (front ++ suffix sign ids).takeWhile (· ≠ sign) = front ∧
      (front ++ suffix sign ids).dropWhile (· ≠ sign) = suffix sign ids := by
  have passes : ∀ c ∈ front, decide (c ≠ sign) = true := fun c member =>
    decide_eq_true fun same => free (same ▸ member)
  rw [List.takeWhile_append_of_pos passes, List.dropWhile_append_of_pos passes, suffix]
  split
  · exact ⟨List.append_nil front, rfl⟩
  · rw [List.takeWhile_cons_of_neg (by simp), List.dropWhile_cons_of_neg (by simp)]
    exact ⟨List.append_nil front, rfl⟩

theorem isDigit_or_dot_of_mem_coreText {version : Version} {c : Char}
    (member : c ∈ version.coreText) :
    c.isDigit = true ∨ c = '.' := by
  obtain rfl | ⟨number, listed, inside⟩ := mem_intercalate_singleton member
  · exact .inr rfl
  · simp only [List.mem_cons, List.not_mem_nil, or_false] at listed
    obtain rfl | rfl | rfl := listed <;> exact .inl (isDigit_of_mem_decimal inside)

theorem stripV_text (version : Version) : stripV version.text = version.text := by
  obtain ⟨c, rest, digits⟩ := List.exists_cons_of_ne_nil (@Nat.toDigits_ne_nil version.major 10)
  have digit : c.isDigit = true := isDigit_of_mem_decimal (digits ▸ List.mem_cons_self)
  have starts : ∃ others, version.text = c :: others := by
    rw [Version.text, Version.coreText, digits]
    exact ⟨_, rfl⟩
  obtain ⟨others, starts⟩ := starts
  rw [starts, stripV]
  intro _ same
  rw [(List.cons.inj same).1] at digit
  cases digit

theorem stripV_spelled {version : Version} {text : Text} (spelled : version.IsSpelled text) :
    stripV text = version.text := by
  obtain rfl | rfl := spelled
  · exact stripV_text version
  · rfl

theorem takeWhile_text (version : Version) :
    version.text.takeWhile (· ≠ '+') =
      version.coreText ++ suffix '-' (version.prerelease.map Identifier.text) := by
  have free : '+' ∉ version.coreText ++ suffix '-' (version.prerelease.map Identifier.text) := by
    intro member
    obtain core | pre := List.mem_append.mp member
    · exact absurd (isDigit_or_dot_of_mem_coreText core) (by decide)
    · unfold suffix at pre
      split at pre
      · cases pre
      · obtain sign | dotted := List.mem_cons.mp pre
        · cases sign
        · have valid : ∀ id ∈ version.prerelease.map Identifier.text, isIdentifier id = true :=
            List.forall_mem_map.mpr fun id _ => id.isIdentifier
          exact absurd (mem_dotted valid dotted) (by decide)
  rw [Version.text, ← List.append_assoc]
  exact (takeWhile_suffix _ free).1

theorem parseInt_toDigits (n : Nat) : parseInt (Nat.toDigits 10 n) = toDouble n := by
  have digits : ∀ c ∈ Nat.toDigits 10 n, c.isDigit = true :=
    fun c member => isDigit_of_mem_decimal member
  have solid : ∀ c ∈ Nat.toDigits 10 n, isTrimmed c = false := fun c member =>
    isTrimmed_of_isPlain (isPlain_of_isHexDigit (isHexDigit_of_isDigit (digits c member)))
  have front : (Nat.toDigits 10 n).dropWhile isTrimmed = Nat.toDigits 10 n := by
    obtain ⟨c, rest, cons⟩ := List.exists_cons_of_ne_nil (@Nat.toDigits_ne_nil n 10)
    rw [cons] at solid ⊢
    rw [List.dropWhile_cons_of_neg]
    simp [solid c List.mem_cons_self]
  rw [parseInt, front, List.takeWhile_eq_self_iff.mpr digits, readDigits_toDigits (by norm_num)
    (by norm_num)]

/-- **A valid version is read as it is meant.** -/
theorem parse_spelled {version : Version} {text : Text} (spelled : version.IsSpelled text) :
    parse text =
      { core := [toDouble version.major, toDouble version.minor, toDouble version.patch]
        pre  := version.prerelease.map Identifier.text } := by
  have valid : ∀ id ∈ version.prerelease.map Identifier.text, isIdentifier id = true :=
    List.forall_mem_map.mpr fun id _ => id.isIdentifier
  have freeCore : '-' ∉ version.coreText := fun member =>
    absurd (isDigit_or_dot_of_mem_coreText member) (by decide)
  have numbers : version.coreText.splitOn '.' =
      [Nat.toDigits 10 version.major, Nat.toDigits 10 version.minor,
      Nat.toDigits 10 version.patch] := by
    refine List.splitOn_intercalate '.' (fun number listed dot => ?_) (by simp)
    have digit : ('.').isDigit = true := by
      simp only [List.mem_cons, List.not_mem_nil, or_false] at listed
      obtain rfl | rfl | rfl := listed <;> exact isDigit_of_mem_decimal dot
    cases digit
  obtain ⟨front, back⟩ := takeWhile_suffix (version.prerelease.map Identifier.text) freeCore
  rw [parse, stripV_spelled spelled, takeWhile_text, front, back, numbers]
  simp only [List.getElem?_cons_zero, List.getElem?_cons_succ, Option.getD_some, parseInt_toDigits]
  congr 1
  unfold suffix
  by_cases none : version.prerelease.map Identifier.text = []
  · rw [if_pos none, none]
    rfl
  · have whole : (['.'].intercalate (version.prerelease.map Identifier.text)).takeWhile
        (fun c => !isLineTerminator c) = ['.'].intercalate
        (version.prerelease.map Identifier.text) := by
      refine List.takeWhile_eq_self_iff.mpr fun c member => ?_
      obtain rfl | inside := mem_dotted valid member
      · decide
      · by_contra ends
        have := not_isIdentifierChar.2.2 c (by simpa using ends)
        rw [this] at inside
        cases inside
    have filled : ['.'].intercalate (version.prerelease.map Identifier.text) ≠ [] := by
      intro empty
      have split := splitOn_dotted valid none
      rw [empty] at split
      have first := valid [] (split ▸ List.mem_singleton_self [])
      cases first
    rw [if_neg none, List.drop_one, List.tail_cons, whole, if_neg filled, splitOn_dotted valid none]

/-! ## The comparison is by precedence -/

theorem isNumeric_text (n : Nat) : isNumeric (Nat.toDigits 10 n) = true := by
  rw [isNumeric, Bool.and_eq_true, decide_eq_true_eq, List.all_eq_true]
  exact ⟨Nat.toDigits_ne_nil, fun c member => isDigit_of_mem_decimal member⟩

theorem not_isNumeric_word {word : Text}
    (valid : (isIdentifier word && !word.all Char.isDigit) = true) :
    isNumeric word = false := by
  rw [isNumeric, (Bool.not_eq_true' _).mp (Bool.and_eq_true_iff.mp valid).2, Bool.and_false]

theorem codeUnits_word {word : Text}
    (valid : (isIdentifier word && !word.all Char.isDigit) = true) :
    codeUnits word = word.map Char.toNat := by
  refine codeUnits_of_bmp fun c member => ?_
  have char := isIdentifierChar_of_mem (Bool.and_eq_true_iff.mp valid).1 member
  have ascii : c.toNat < 128 := by
    rw [isIdentifierChar, Bool.or_eq_true, Text.isAlphanum_iff_toNat, decide_eq_true_eq] at char
    obtain ((⟨-, upper⟩ | ⟨-, lower⟩) | ⟨-, digit⟩) | rfl := char
    · omega
    · omega
    · omega
    · decide
  omega

theorem map_toNat_strictMono : StrictMono (List.map Char.toNat) := by
  intro xs ys less
  induction xs generalizing ys with
  | nil =>
    cases ys with
    | nil => exact absurd less (lt_irrefl _)
    | cons y ys => exact List.nil_lt_cons _ _
  | cons x xs ih =>
    cases ys with
    | nil => exact absurd less (not_lt.mpr (List.nil_lt_cons x xs).le)
    | cons y ys =>
      refine List.cons_lt_cons_iff.mpr ?_
      exact (List.cons_lt_cons_iff.mp less).imp id fun later => ⟨congrArg _ later.1, ih later.2⟩

/-- What compares numbers as numbers, puts them before words and compares words letter by letter
goes by the precedence of identifiers. -/
theorem cmpId_text {x y : Identifier} (smallX : ∀ n, x = .numeric n → n < 2 ^ 53)
    (smallY : ∀ n, y = .numeric n → n < 2 ^ 53) :
    cmpId x.text y.text = ordering x.precedence y.precedence := by
  cases x with
  | numeric n =>
    cases y with
    | numeric m =>
      have left := toDouble_of_lt (smallX n rfl)
      have right := toDouble_of_lt (smallY m rfl)
      rw [Identifier.text, Identifier.text, cmpId, isNumeric_text, isNumeric_text,
        parseInt_toDigits, parseInt_toDigits, left, right]
      rw [Bool.and_self, if_pos rfl, differenceSign, if_neg fun both => WithTop.coe_ne_top both.1,
        ordering_coe]
      exact (ordering_inlₗ n m).symm
    | alphanumeric word valid =>
      rw [Identifier.text, Identifier.text, cmpId, isNumeric_text, not_isNumeric_word valid]
      exact (ordering_inlₗ_inrₗ n word).symm
  | alphanumeric word valid =>
    cases y with
    | numeric m =>
      rw [Identifier.text, Identifier.text, cmpId, isNumeric_text, not_isNumeric_word valid]
      exact (ordering_inrₗ_inlₗ word m).symm
    | alphanumeric other valid' =>
      rw [Identifier.text, Identifier.text, cmpId, not_isNumeric_word valid,
        not_isNumeric_word valid', codeUnits_word valid, codeUnits_word valid']
      have letters := ordering_map map_toNat_strictMono word other
      have words : ordering (Identifier.alphanumeric word valid).precedence
          (Identifier.alphanumeric other valid').precedence = ordering word other :=
          ordering_inrₗ word other
      rw [words, ← letters]
      by_cases same : word = other
      · rw [same, ordering_self]
        simp
      · have differ : word.map Char.toNat ≠ other.map Char.toNat := fun equal =>
          same (map_toNat_strictMono.injective equal)
        simp only [Bool.and_self, Bool.false_eq_true, if_false, if_neg same]
        obtain less | greater := lt_or_gt_of_ne differ
        · rw [if_pos less, ordering_eq_lt.mpr less]
        · rw [if_neg greater.not_gt, ordering_eq_gt.mpr greater]

/-- All numbers among some identifiers are small. -/
def SmallIds (ids : List Identifier) : Prop := ∀ n, Identifier.numeric n ∈ ids → n < 2 ^ 53

theorem compareIds_text {xs ys : List Identifier} (smallX : SmallIds xs) (smallY : SmallIds ys) :
    compareIds (xs.map Identifier.text) (ys.map Identifier.text) =
      ordering (xs.map Identifier.precedence) (ys.map Identifier.precedence) :=
  compareLists_map fun _ listed _ others =>
    cmpId_text (fun n same => smallX n (same ▸ listed)) (fun n same => smallY n (same ▸ others))

theorem comparePre_text {xs ys : List Identifier} (smallX : SmallIds xs) (smallY : SmallIds ys) :
    comparePre (xs.map Identifier.text) (ys.map Identifier.text) =
      ordering (prereleasePrecedence xs) (prereleasePrecedence ys) := by
  cases xs with
  | nil =>
    cases ys with
    | nil => exact (ordering_self _).symm
    | cons y ys => exact (ordering_top_coe _).symm
  | cons x xs =>
    cases ys with
    | nil => exact (ordering_coe_top _).symm
    | cons y ys =>
      rw [comparePre, if_neg (by simp), if_neg (by simp), if_neg (by simp),
        compareIds_text smallX smallY]
      exact (ordering_coe _ _).symm

/-- **`compareSemver` answers by precedence.** -/
theorem compareSemver_spelled {a b : Version} {s t : Text} (smallA : a.IsSmall) (smallB : b.IsSmall)
    (spelledA : a.IsSpelled s) (spelledB : b.IsSpelled t) :
    compareSemver s t = ordering a.precedence b.precedence := by
  have numbers : compareCore _ _ = ordering _ _ :=
    @compareLists_map Nat _ _ _ ordering WithTop.some id [a.major, a.minor, a.patch]
      [b.major, b.minor, b.patch] fun n _ m _ => ordering_coe n m
  rw [List.map_id, List.map_id] at numbers
  rw [compareSemver, parse_spelled spelledA, parse_spelled spelledB,
    comparePre_text smallA.prerelease smallB.prerelease, Version.precedence, Version.precedence,
    ordering_toLex, toDouble_of_lt smallA.major, toDouble_of_lt smallA.minor,
    toDouble_of_lt smallA.patch, toDouble_of_lt smallB.major, toDouble_of_lt smallB.minor,
    toDouble_of_lt smallB.patch, ← numbers]
  rfl

/-! ## What precedence says -/

/-- The three numbers are the same. -/
def SameCore (a b : Version) : Prop := a.major = b.major ∧ a.minor = b.minor ∧ a.patch = b.patch

theorem precedence_lt_of_prerelease {a b : Version} (core : SameCore a b)
    (less : prereleasePrecedence a.prerelease < prereleasePrecedence b.prerelease) :
    a.precedence < b.precedence := by
  refine Prod.Lex.toLex_lt_toLex.mpr (.inr ⟨?_, less⟩)
  change [a.major, a.minor, a.patch] = [b.major, b.minor, b.patch]
  rw [core.1, core.2.1, core.2.2]

theorem prereleasePrecedence_of_ne_nil {ids : List Identifier} (some : ids ≠ []) :
    prereleasePrecedence ids = WithTop.some (ids.map Identifier.precedence) := by
  rw [prereleasePrecedence, if_neg (by simpa using some)]

/-- **A number comes before a word.** -/
theorem precedence_lt_of_numeric {a b : Version} (core : SameCore a b)
    {common restA restB : List Identifier} {n : Nat} {word : Text}
    {valid : (isIdentifier word && !word.all Char.isDigit) = true}
    (preA : a.prerelease = common ++ .numeric n :: restA)
    (preB : b.prerelease = common ++ .alphanumeric word valid :: restB) :
    a.precedence < b.precedence := by
  refine precedence_lt_of_prerelease core ?_
  rw [prereleasePrecedence_of_ne_nil (by simp [preA]), prereleasePrecedence_of_ne_nil
    (by simp [preB]), preA, preB, WithTop.coe_lt_coe, List.map_append, List.map_append]
  exact append_lt_append _ (List.cons_lt_cons_iff.mpr (.inl (Sum.Lex.inl_lt_inr n word)))

/-- **A pre-release comes before any longer one that it begins.** -/
theorem precedence_lt_of_prefix {a b : Version} (core : SameCore a b) {more : List Identifier}
    (some : a.prerelease ≠ []) (longer : more ≠ []) (preB : b.prerelease = a.prerelease ++ more) :
    a.precedence < b.precedence := by
  refine precedence_lt_of_prerelease core ?_
  obtain ⟨id, others, rfl⟩ := List.exists_cons_of_ne_nil longer
  rw [prereleasePrecedence_of_ne_nil some, prereleasePrecedence_of_ne_nil (by simp [preB]), preB,
    WithTop.coe_lt_coe, List.map_append]
  have before := append_lt_append (a.prerelease.map Identifier.precedence)
    (List.nil_lt_cons id.precedence (others.map Identifier.precedence))
  rwa [List.append_nil] at before

end Semver

end Cidrella
