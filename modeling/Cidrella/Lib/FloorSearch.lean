import Mathlib.Data.Int.Order.Basic
import Mathlib.Tactic.SplitIfs

/-!
# The last place where a property holds

A binary search for the last place of a range where a property holds that holds of a first
part of the range and no more.  As long as each middle lies between its bounds, the search
ends with that place (`floorSearch_eq`).  A search that never gets to the upper bound, though
the property holds there, does not end (`floorSearch_never`).
-/

set_option autoImplicit false

namespace FloorSearch

variable {middle : Int → Int → Int} {below : Int → Bool}

/-- The search between `lo` and `hi`, with the last place found; none while it is running. -/
def floorSearch (middle : Int → Int → Int) (below : Int → Bool) : Nat → Int → Int → Int → Option Int
  | 0, _, _, _ => none
  | rounds + 1, lo, hi, found =>
    if lo ≤ hi then
      if below (middle lo hi) then floorSearch middle below rounds (middle lo hi + 1) hi
        (middle lo hi)
      else floorSearch middle below rounds lo (middle lo hi - 1) found
    else some found

/-- The place is the last one of the range `0 .. top` where the property holds. -/
def IsFloor (below : Int → Bool) (top place : Int) : Prop :=
  -1 ≤ place ∧ place ≤ top ∧ (∀ i, 0 ≤ i → i ≤ place → below i = true) ∧
    ∀ i, place < i → i ≤ top → below i = false

section
variable {top : Int} (between : ∀ lo hi, 0 ≤ lo → lo ≤ hi → hi ≤ top → lo ≤ middle lo hi ∧
  middle lo hi ≤ hi) (initial : ∀ i j, 0 ≤ i → i ≤ j → j ≤ top → below j = true → below i = true)
include between initial

/-- Between the bounds is what is not known yet: the property holds of what lies before, and
the last place found is the one before `lo`. -/
theorem floorSearch_step {rounds : Nat} {lo hi : Int} (start : 0 ≤ lo) (order : lo ≤ hi + 1)
    (inside : hi ≤ top) (before : ∀ i, 0 ≤ i → i < lo → below i = true) (behind : ∀ i, hi < i →
    i ≤ top → below i = false) (enough : hi - lo + 1 < rounds) :
    ∃ place, floorSearch middle below rounds lo hi (lo - 1) = some place ∧
    IsFloor below top place := by
  induction rounds generalizing lo hi with
  | zero =>
    omega
  | succ rounds ih =>
    by_cases running : lo ≤ hi
    · obtain ⟨low, high⟩ := between lo hi start running inside
      by_cases holds : below (middle lo hi) = true
      · have next := @ih (middle lo hi + 1) hi (by omega) (by omega) inside
          (fun i positive smaller => initial i (middle lo hi) positive (by omega) (by omega) holds)
          behind (by omega)
        rw [Int.add_sub_cancel] at next
        rw [floorSearch, if_pos running, if_pos holds]
        exact next
      · have fails : below (middle lo hi) = false := Bool.eq_false_iff.mpr holds
        have next := @ih lo (middle lo hi - 1) start (by omega) (by omega) before
          (fun i larger within => Bool.eq_false_iff.mpr fun held =>
            holds (initial (middle lo hi) i (by omega) (by omega) within held)) (by omega)
        rw [floorSearch, if_pos running, if_neg holds]
        exact next
    · refine ⟨lo - 1, by rw [floorSearch, if_neg running], by omega, by omega, ?_, ?_⟩
      · exact fun i positive smaller => before i positive (by omega)
      · exact fun i larger within => behind i (by omega) within

/-- **The search ends with the last place where the property holds.** -/
theorem floorSearch_eq (nonnegative : -1 ≤ top) {rounds : Nat} (enough : top + 1 < rounds) :
    ∃ place, floorSearch middle below rounds 0 top (-1) = some place ∧ IsFloor below top place :=
  floorSearch_step between initial (le_refl 0) (by omega) (le_refl top)
    (fun i positive negative => absurd negative (not_lt.mpr positive))
    (fun i larger within => absurd within (not_le.mpr larger)) (by omega)

end

/-- **A search that never gets to the upper bound does not end**, while the property holds of
every middle. -/
theorem floorSearch_never {top : Int} (short : ∀ lo, middle lo top < top)
    (holds : ∀ lo, below (middle lo top) = true)
    (rounds : Nat) {lo : Int} (order : lo ≤ top) (found : Int) :
    floorSearch middle below rounds lo top found = none := by
  induction rounds generalizing lo found with
  | zero => rfl
  | succ rounds ih =>
    rw [floorSearch, if_pos order, if_pos (holds lo)]
    exact ih (short lo) _

end FloorSearch
