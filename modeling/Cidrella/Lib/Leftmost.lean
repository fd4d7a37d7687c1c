import Mathlib.Data.List.Basic
import Mathlib.Tactic

/-!
# Leftmost matches

A pattern is tried at every place of a text from the left, and the first place where it
matches decides (`firstMatch`). A literal of a pattern matches a place where the text goes on
with it (`after`), and a run of a class of elements takes all that are there.

What such a match does in one part of a text does not depend on the part behind it as long as
nothing reaches across: the two parts can be told apart by one element (`after_append`,
`takeWhile_append_stop`).
-/

set_option autoImplicit false

namespace Cidrella

namespace Leftmost

variable {α β : Type}

/-! ## Literals -/

section

variable [DecidableEq α]

/-- What is left of a text behind a literal it begins with. -/
def after (lead text : List α) : Option (List α) :=
  if lead <+: text then some (text.drop lead.length) else none

theorem after_append_self (lead rest : List α) : after lead (lead ++ rest) = some rest := by
  rw [after, if_pos (List.prefix_append lead rest), List.drop_left]

theorem after_eq_some {lead text rest : List α} : after lead text = some rest ↔
    text = lead ++ rest := by
  constructor
  · intro found
    unfold after at found
    split at found
    · rename_i begins
      obtain ⟨others, rfl⟩ := begins
      rw [List.drop_left] at found
      rw [Option.some.inj found]
    · cases found
  · rintro rfl
    exact after_append_self lead rest

/-- Two texts differ at a place they both have. -/
def clashes (left right : List α) : Bool := (left.zip right).any fun pair => pair.1 ≠ pair.2

theorem not_prefix_of_clashes {left right : List α} (clash : clashes left right = true)
    (rest : List α) :
    ¬ left <+: right ++ rest := by
  induction left generalizing right with
  | nil => cases clash
  | cons x left ih =>
    cases right with
    | nil => cases clash
    | cons y right =>
      rw [clashes, List.zip_cons_cons, List.any_cons, Bool.or_eq_true] at clash
      rw [List.cons_append, List.cons_prefix_cons]
      rintro ⟨same, begins⟩
      exact clash.elim (fun differ => of_decide_eq_true differ same) fun later => ih later begins

/-- **A literal does not reach across**: it matches the front of a text, or it does not match,
if what it would need behind the front is not there. -/
theorem after_append {lead front head : List α} (rest : List α)
    (apart : front.length < lead.length → front <+: lead →
    clashes (lead.drop front.length) head = true) :
    after lead (front ++ (head ++ rest)) = (after lead front).map (· ++ (head ++ rest)) := by
  by_cases inside : lead.length ≤ front.length
  · by_cases begins : lead <+: front
    · obtain ⟨others, rfl⟩ := begins
      rw [List.append_assoc, after_append_self, after_append_self]
      rfl
    · rw [after, after, if_neg begins, if_neg]
      · rfl
      · exact fun across =>
          begins (List.prefix_of_prefix_length_le across (List.prefix_append _ _) inside)
  · have short : front.length < lead.length := not_le.mp inside
    rw [after, after, if_neg, if_neg fun begins => inside begins.length_le]
    · rfl
    · intro across
      obtain ⟨others, rfl⟩ := List.prefix_of_prefix_length_le (List.prefix_append front _)
        across short.le
      have clash := apart short (List.prefix_append front others)
      rw [List.drop_left] at clash
      exact not_prefix_of_clashes clash rest ((List.prefix_append_right_inj front).mp across)

end

/-! ## Runs -/

theorem takeWhile_append_stop {p : α → Bool} {c : α} (stop : p c = false) (front rest : List α) :
    (front ++ c :: rest).takeWhile p = front.takeWhile p := by
  induction front with
  | nil => rw [List.nil_append, List.takeWhile_cons_of_neg (by simp [stop]), List.takeWhile_nil]
  | cons d front ih =>
    rw [List.cons_append, List.takeWhile_cons, List.takeWhile_cons, ih]

theorem dropWhile_append_stop {p : α → Bool} {c : α} (stop : p c = false) (front rest : List α) :
    (front ++ c :: rest).dropWhile p = front.dropWhile p ++ c :: rest := by
  induction front with
  | nil =>
    rw [List.nil_append, List.dropWhile_cons_of_neg (by simp [stop]), List.dropWhile_nil,
      List.nil_append]
  | cons d front ih =>
    rw [List.cons_append, List.dropWhile_cons, List.dropWhile_cons, ih]
    split
    · rfl
    · rfl

/-! ## Searching -/

/-- The first match of a pattern. -/
def firstMatch (pattern : List α → Option β) : List α → Option β
  | [] => pattern []
  | c :: rest => (pattern (c :: rest)).or (firstMatch pattern rest)

theorem firstMatch_skip {pattern : List α → Option β} {front rest : List α}
    (passes : ∀ ending, ending ≠ [] → ending <:+ front → pattern (ending ++ rest) = none) :
    firstMatch pattern (front ++ rest) = firstMatch pattern rest := by
  induction front with
  | nil => rfl
  | cons c front ih =>
    have here := passes (c :: front) (List.cons_ne_nil _ _) List.suffix_rfl
    rw [List.cons_append] at here
    rw [List.cons_append, firstMatch, here, Option.none_or]
    exact ih fun ending filled inside => passes ending filled
      (inside.trans (List.suffix_cons c front))

theorem exists_of_firstMatch {pattern : List α → Option β} {text : List α} {found : β}
    (search : firstMatch pattern text = some found) : ∃ ending, ending <:+ text ∧
    pattern ending = some found := by
  induction text with
  | nil => exact ⟨[], List.suffix_rfl, search⟩
  | cons c text ih =>
    obtain here | ⟨-, later⟩ := Option.or_eq_some_iff.mp search
    · exact ⟨c :: text, List.suffix_rfl, here⟩
    · obtain ⟨ending, inside, matched⟩ := ih later
      exact ⟨ending, inside.trans (List.suffix_cons c text), matched⟩

theorem firstMatch_append {pattern other : List α → Option β} {front rest : List α}
    (alike : ∀ ending, ending ≠ [] → ending <:+ front → pattern (ending ++ rest) = other ending)
    (behind : firstMatch pattern rest = other []) :
    firstMatch pattern (front ++ rest) = firstMatch other front := by
  induction front with
  | nil => exact behind
  | cons c front ih =>
    have here := alike (c :: front) (List.cons_ne_nil _ _) List.suffix_rfl
    rw [List.cons_append] at here
    rw [List.cons_append, firstMatch, here, firstMatch,
      ih fun ending filled inside => alike ending filled (inside.trans (List.suffix_cons c front))]

end Leftmost

end Cidrella
