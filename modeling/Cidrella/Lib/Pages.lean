import Mathlib.Data.Finset.Sort
import Mathlib.Tactic

/-!
# Reading a set page by page

A finite set in its order, read in pages of a fixed size: a page is the first elements
above a cursor, and the next cursor is the element at the page's last place, when there is
one. Whether the pages meet the whole set depends on that place: with the last place of the
page nothing is left out (`mem_page_of_le`, `mem_page_of_last`), and the elements above the
cursor become fewer (`length_above_lt`).
-/

set_option autoImplicit false

namespace Cidrella

namespace Pages

variable {α : Type} [LinearOrder α]

/-- The elements above a cursor, in order. -/
def above (rows : Finset α) (cursor : α) : List α := (rows.filter (cursor < ·)).sort

/-- `WHERE x > cursor ORDER BY x LIMIT size`. -/
def page (rows : Finset α) (cursor : α) (size : Nat) : List α := (above rows cursor).take size

/-- `WHERE x > cursor ORDER BY x LIMIT 1 OFFSET offset`. -/
def boundary (rows : Finset α) (cursor : α) (offset : Nat) : Option α :=
  (above rows cursor)[offset]?

variable {rows : Finset α} {cursor last x : α} {size : Nat}

theorem mem_above : x ∈ above rows cursor ↔ x ∈ rows ∧ cursor < x := by
  unfold above
  rw [Finset.mem_sort, Finset.mem_filter]

theorem mem_of_mem_page (member : x ∈ page rows cursor size) : x ∈ rows ∧ cursor < x :=
  mem_above.mp (List.mem_of_mem_take member)

theorem above_pairwise (rows : Finset α) (cursor : α) : (above rows cursor).Pairwise (· < ·) :=
  List.sortedLT_iff_pairwise.mp (Finset.sortedLT_sort _)

theorem boundary_mem {offset : Nat} (found : boundary rows cursor offset = some last) :
    last ∈ rows ∧ cursor < last :=
  mem_above.mp (List.mem_of_getElem? found)

theorem mem_page_of_last (none : boundary rows cursor (size - 1) = none)
    (member : x ∈ rows) (beyond : cursor < x) : x ∈ page rows cursor size := by
  have short : (above rows cursor).length ≤ size - 1 := List.getElem?_eq_none_iff.mp none
  unfold page
  rw [List.take_of_length_le (short.trans (Nat.sub_le size 1))]
  exact mem_above.mpr ⟨member, beyond⟩

theorem mem_page_of_le (positive : 0 < size) (found : boundary rows cursor (size - 1) = some last)
    (member : x ∈ rows) (beyond : cursor < x) (within : x ≤ last) : x ∈ page rows cursor size := by
  obtain ⟨inside, isLast⟩ := List.getElem?_eq_some_iff.mp found
  obtain ⟨i, below, isIt⟩ := List.mem_iff_getElem.mp (mem_above.mpr ⟨member, beyond⟩)
  have early : i < size := by
    by_contra late
    have after : size - 1 < i := by omega
    have increases := List.pairwise_iff_getElem.mp (above_pairwise rows cursor) _ _
      inside below after
    rw [isLast, isIt] at increases
    exact absurd within (not_le.mpr increases)
  unfold page
  exact List.mem_take_iff_getElem.mpr ⟨i, lt_min early below, isIt⟩

theorem length_above_le (rows : Finset α) (cursor : α) :
    (above rows cursor).length ≤ rows.card := by
  unfold above
  rw [Finset.length_sort]
  exact Finset.card_filter_le _ _

theorem length_above_lt {offset : Nat} (found : boundary rows cursor offset = some last) :
    (above rows last).length < (above rows cursor).length := by
  obtain ⟨member, beyond⟩ := boundary_mem found
  unfold above
  rw [Finset.length_sort, Finset.length_sort]
  refine Finset.card_lt_card ⟨?_, ?_⟩
  · intro x inside
    obtain ⟨isRow, above⟩ := Finset.mem_filter.mp inside
    exact Finset.mem_filter.mpr ⟨isRow, beyond.trans above⟩
  · intro all
    have inside := all (Finset.mem_filter.mpr ⟨member, beyond⟩)
    exact absurd (Finset.mem_filter.mp inside).2 (lt_irrefl last)

end Pages

end Cidrella
