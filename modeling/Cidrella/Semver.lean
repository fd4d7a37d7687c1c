import Cidrella.Address
import Cidrella.Lib.CodeUnits
import Cidrella.Lib.Precedence
import Cidrella.Lib.Rounding

/-!
# Comparing versions

`compareSemver` of `utils/semver.js`, for any texts: it drops a leading `v` and what follows
a `+`, splits at the first `-`, reads three numbers and compares the rest identifier by
identifier. Its answers -1, 0 and 1 are `lt`, `eq` and `gt` here.

Numbers are doubles, so two numeric identifiers may both be infinite, and then their
difference is neither zero nor below it: the left one is taken for the greater whichever it
is. Everywhere else the comparison is one of ranks in a linear order
(`compareSemver_eq_ordering`).
-/

set_option autoImplicit false

namespace Cidrella

namespace Semver

open Address Text Rounding Precedence

/-! ## Reading a version -/

/-- What a dot in a pattern does not match. -/
def isLineTerminator (c : Char) : Bool := c ∈ ['\n', '\r', '\u2028', '\u2029']

/-- `parseInt(piece, 10) || 0`. A piece comes from before the first `+` and `-`: it has no
sign. -/
def parseInt (piece : Text) : WithTop Nat :=
  toDouble (readDigits 10 ((piece.dropWhile isTrimmed).takeWhile Char.isDigit))

/-- What `parse` returns. -/
structure Parsed where
  core : List (WithTop Nat)
  pre : List Text

/-- `s.replace(/^v/, '')`. -/
def stripV : Text → Text
  | 'v' :: rest => rest
  | text => text

/-- `parse`. -/
def parse (text : Text) : Parsed :=
  let s := (stripV text).takeWhile (· ≠ '+')
  let parts := (s.takeWhile (· ≠ '-')).splitOn '.'
  let pre := ((s.dropWhile (· ≠ '-')).drop 1).takeWhile fun c => !isLineTerminator c
  { core := [parseInt (parts[0]?.getD ['0']), parseInt (parts[1]?.getD ['0']),
    parseInt (parts[2]?.getD ['0'])]
    pre  := if pre = [] then [] else pre.splitOn '.' }

/-! ## Comparing two -/

/-- `/^\d+$/`. -/
def isNumeric (id : Text) : Bool := id ≠ [] && id.all Char.isDigit

/-- The sign of `x - y`. `Infinity - Infinity` is neither zero nor below it. -/
def differenceSign (x y : WithTop Nat) : Ordering := if x = ⊤ ∧ y = ⊤ then .gt else ordering x y

/-- `cmpId`. -/
def cmpId (x y : Text) : Ordering :=
  if isNumeric x && isNumeric y then differenceSign (parseInt x) (parseInt y)
  else if isNumeric x then .lt
  else if isNumeric y then .gt
  else if x = y then .eq
  else if codeUnits x < codeUnits y then .lt
  else .gt

/-- The loop over the cores, which both have three numbers. -/
def compareCore (a b : List (WithTop Nat)) : Ordering := compareLists ordering a b

/-- The loop over the identifiers both lists have, and then the lengths. -/
def compareIds (a b : List Text) : Ordering := compareLists cmpId a b

/-- A version without a pre-release outranks one with. -/
def comparePre (a b : List Text) : Ordering :=
  if a = [] ∧ b = [] then .eq else if a = [] then .gt else if b = [] then .lt else compareIds a b

/-- `compareSemver`. -/
def compareSemver (a b : Text) : Ordering :=
  (compareCore (parse a).core (parse b).core).then (comparePre (parse a).pre (parse b).pre)

/-! ## Ranks -/

/-- What `cmpId` goes by: numbers come before words. -/
def idRank (id : Text) : WithTop Nat ⊕ₗ List Nat :=
  if isNumeric id then Sum.inlₗ (parseInt id) else Sum.inrₗ (codeUnits id)

/-- What `comparePre` goes by. -/
def preRank (pre : List Text) : WithTop (List (WithTop Nat ⊕ₗ List Nat)) :=
  if pre = [] then ⊤ else WithTop.some (pre.map idRank)

/-- What `compareSemver` goes by. -/
def rank (text : Text) : List (WithTop Nat) ×ₗ WithTop (List (WithTop Nat ⊕ₗ List Nat)) :=
  toLex ((parse text).core, preRank (parse text).pre)

/-- Two infinite numbers meet where two lists of identifiers are told apart. -/
def Clash : List Text → List Text → Prop
  | x :: xs, y :: ys =>
    (idRank x = Sum.inlₗ ⊤ ∧ idRank y = Sum.inlₗ ⊤) ∨ (idRank x = idRank y ∧ Clash xs ys)
  | _, _ => False

theorem cmpId_of_infinite {x y : Text} (left : idRank x = Sum.inlₗ ⊤)
    (right : idRank y = Sum.inlₗ ⊤) :
    cmpId x y = .gt := by
  have reads (id : Text) (infinite : idRank id = Sum.inlₗ ⊤) : isNumeric id = true ∧
      parseInt id = ⊤ := by
    unfold idRank at infinite
    split at infinite
    · rename_i numeric
      exact ⟨numeric, Sum.inl_injective infinite⟩
    · cases infinite
  rw [cmpId, (reads x left).1, (reads y right).1, (reads x left).2, (reads y right).2]
  rfl

/-- Identifiers are compared by rank but where both are infinite. -/
theorem cmpId_eq_ordering {x y : Text}
    (finite : ¬ (idRank x = Sum.inlₗ ⊤ ∧ idRank y = Sum.inlₗ ⊤)) :
    cmpId x y = ordering (idRank x) (idRank y) := by
  unfold cmpId
  by_cases left : isNumeric x = true
  · have rankX : idRank x = Sum.inlₗ (parseInt x) := if_pos left
    by_cases right : isNumeric y = true
    · have rankY : idRank y = Sum.inlₗ (parseInt y) := if_pos right
      rw [rankX, rankY] at finite ⊢
      rw [if_pos (by rw [left, right]; rfl), ordering_inlₗ, differenceSign, if_neg]
      rintro ⟨topX, topY⟩
      exact finite ⟨congrArg _ topX, congrArg _ topY⟩
    · have rankY : idRank y = Sum.inrₗ (codeUnits y) := if_neg right
      rw [rankX, rankY, if_neg (by simp [right]), if_pos left, ordering_inlₗ_inrₗ]
  · have rankX : idRank x = Sum.inrₗ (codeUnits x) := if_neg left
    rw [rankX, if_neg (by simp [left]), if_neg left]
    by_cases right : isNumeric y = true
    · have rankY : idRank y = Sum.inlₗ (parseInt y) := if_pos right
      rw [rankY, if_pos right, ordering_inrₗ_inlₗ]
    · have rankY : idRank y = Sum.inrₗ (codeUnits y) := if_neg right
      rw [rankY, if_neg right, ordering_inrₗ]
      by_cases same : x = y
      · rw [if_pos same, same, ordering_self]
      · rw [if_neg same]
        obtain less | equal | greater := lt_trichotomy (codeUnits x) (codeUnits y)
        · rw [if_pos less, ordering_eq_lt.mpr less]
        · exact absurd (codeUnits_injective equal) same
        · rw [if_neg greater.not_gt, ordering_eq_gt.mpr greater]

theorem compareIds_of_clash {xs ys : List Text} (clash : Clash xs ys) : compareIds xs ys = .gt := by
  induction xs generalizing ys with
  | nil => exact clash.elim
  | cons x xs ih =>
    cases ys with
    | nil => exact clash.elim
    | cons y ys =>
      rw [compareIds, compareLists]
      by_cases infinite : idRank x = Sum.inlₗ ⊤ ∧ idRank y = Sum.inlₗ ⊤
      · rw [cmpId_of_infinite infinite.1 infinite.2]
        rfl
      · obtain ⟨same, later⟩ := clash.resolve_left infinite
        rw [cmpId_eq_ordering infinite, same, ordering_self, ← compareIds, ih later]
        rfl

theorem compareIds_eq_ordering {xs ys : List Text} (apart : ¬ Clash xs ys) :
    compareIds xs ys = ordering (xs.map idRank) (ys.map idRank) := by
  induction xs generalizing ys with
  | nil =>
    cases ys with
    | nil => exact (ordering_self _).symm
    | cons y ys => exact (ordering_nil_cons _ _).symm
  | cons x xs ih =>
    cases ys with
    | nil => exact (ordering_cons_nil _ _).symm
    | cons y ys =>
      obtain ⟨finite, later⟩ := not_or.mp apart
      rw [compareIds, compareLists, ← compareIds, List.map_cons, List.map_cons, ordering_cons,
        cmpId_eq_ordering finite]
      by_cases same : idRank x = idRank y
      · rw [ih fun clash => later ⟨same, clash⟩]
      · obtain less | greater := lt_or_gt_of_ne same
        · rw [ordering_eq_lt.mpr less]
          rfl
        · rw [ordering_eq_gt.mpr greater]
          rfl

theorem clash_symm {xs ys : List Text} (clash : Clash xs ys) : Clash ys xs := by
  induction xs generalizing ys with
  | nil => exact clash.elim
  | cons x xs ih =>
    cases ys with
    | nil => exact clash.elim
    | cons y ys => exact clash.imp And.symm fun later => ⟨later.1.symm, ih later.2⟩

theorem clash_between {xs ys zs : List Text} (lower : xs.map idRank ≤ ys.map idRank)
    (upper : ys.map idRank ≤ zs.map idRank) (clash : Clash xs zs) : Clash xs ys := by
  induction xs generalizing ys zs with
  | nil => exact clash.elim
  | cons x xs ih =>
    cases zs with
    | nil => exact clash.elim
    | cons z zs =>
      cases ys with
      | nil => exact absurd lower (not_le.mpr (List.nil_lt_cons _ _))
      | cons y ys =>
        rw [List.map_cons, List.map_cons, cons_le_cons_iff] at lower upper
        have below : idRank x ≤ idRank y := lower.elim le_of_lt fun same => same.1.le
        have above : idRank y ≤ idRank z := upper.elim le_of_lt fun same => same.1.le
        obtain ⟨infiniteX, infiniteZ⟩ | ⟨same, later⟩ := clash
        · rw [infiniteX] at below
          rw [infiniteZ] at above
          exact .inl ⟨infiniteX, le_antisymm above below⟩
        · have first : idRank x = idRank y := le_antisymm below (same ▸ above)
          have second : idRank y = idRank z := first.symm.trans same
          refine .inr ⟨first, ih ?_ ?_ later⟩
          · exact (lower.resolve_left first.not_lt).2
          · exact (upper.resolve_left second.not_lt).2

/-! ## Ranks of versions -/

/-- Two versions clash: their numbers are the same, and infinite ones meet in what follows. -/
def Meets (a b : Text) : Prop := (parse a).core = (parse b).core ∧ Clash (parse a).pre (parse b).pre

theorem clash_ne_nil {xs ys : List Text} (clash : Clash xs ys) : xs ≠ [] ∧ ys ≠ [] := by
  cases xs with
  | nil => exact clash.elim
  | cons x xs =>
    cases ys with
    | nil => exact clash.elim
    | cons y ys => exact ⟨List.cons_ne_nil _ _, List.cons_ne_nil _ _⟩

theorem comparePre_eq_ordering {a b : List Text} (apart : ¬ Clash a b) :
    comparePre a b = ordering (preRank a) (preRank b) := by
  unfold comparePre preRank
  by_cases left : a = [] <;> by_cases right : b = []
  · rw [if_pos ⟨left, right⟩, if_pos left, if_pos right, ordering_self]
  · rw [if_neg fun both => right both.2, if_pos left, if_pos left, if_neg right, ordering_top_coe]
  · rw [if_neg fun both => left both.1, if_neg left, if_pos right, if_neg left, if_pos right,
      ordering_coe_top]
  · rw [if_neg fun both => left both.1, if_neg left, if_neg right, if_neg left, if_neg right,
      ordering_coe, compareIds_eq_ordering apart]

/-- **Versions are compared by rank, unless they clash.** -/
theorem compareSemver_eq_ordering {a b : Text} (apart : ¬ Meets a b) :
    compareSemver a b = ordering (rank a) (rank b) := by
  rw [compareSemver, rank, rank, ordering_toLex, compareCore, compareLists_ordering]
  by_cases same : (parse a).core = (parse b).core
  · rw [comparePre_eq_ordering fun clash => apart ⟨same, clash⟩]
  · obtain less | greater := lt_or_gt_of_ne same
    · rw [ordering_eq_lt.mpr less]
      rfl
    · rw [ordering_eq_gt.mpr greater]
      rfl

theorem compareSemver_of_meets {a b : Text} (meets : Meets a b) : compareSemver a b = .gt := by
  obtain ⟨left, right⟩ := clash_ne_nil meets.2
  rw [compareSemver, compareCore, compareLists_ordering, meets.1, ordering_self, comparePre,
    if_neg fun both => left both.1, if_neg left, if_neg right, compareIds_of_clash meets.2]
  rfl

theorem meets_symm {a b : Text} (meets : Meets a b) : Meets b a :=
  ⟨meets.1.symm, clash_symm meets.2⟩

theorem meets_between {a b c : Text} (lower : rank a ≤ rank b) (upper : rank b ≤ rank c)
    (meets : Meets a c) :
    Meets a b := by
  obtain ⟨left, right⟩ := clash_ne_nil meets.2
  rw [rank, rank, Prod.Lex.toLex_le_toLex] at lower upper
  have below : (parse a).core ≤ (parse b).core := lower.elim le_of_lt fun same => same.1.le
  have above : (parse b).core ≤ (parse c).core := upper.elim le_of_lt fun same => same.1.le
  have first : (parse a).core = (parse b).core := le_antisymm below (above.trans meets.1.symm.le)
  have second : (parse b).core = (parse c).core := first.symm.trans meets.1
  have preLower := (lower.resolve_left first.not_lt).2
  have preUpper := (upper.resolve_left second.not_lt).2
  have some : (parse b).pre ≠ [] := by
    intro none
    rw [preRank, preRank, if_pos none, if_neg right] at preUpper
    exact absurd preUpper (not_le.mpr (WithTop.coe_lt_top _))
  rw [preRank, preRank, if_neg left, if_neg some, WithTop.coe_le_coe] at preLower
  rw [preRank, preRank, if_neg some, if_neg right, WithTop.coe_le_coe] at preUpper
  exact ⟨first, clash_between preLower preUpper meets.2⟩

end Semver

end Cidrella
