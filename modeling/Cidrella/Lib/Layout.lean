import Mathlib.Data.List.Basic

/-!
# Parts copied into a buffer

A buffer of fixed length, parts copied into it one after the other, and slices taken out.
Where the parts lie behind one another, a slice taken at a part is the part
(`slice_copyAll`), and what no part covers is as it was (`slice_copyAll_outside`).

`offsetsFrom` lays parts of given sizes behind one another, each at the next aligned place.
-/

set_option autoImplicit false

namespace Layout

section
variable {α : Type}

/-- `buf` with `part` copied to `start`, as far as it fits. -/
def copyAt (buf : List α) (start : Nat) (part : List α) : List α :=
  buf.take start ++ part.take (buf.length - start) ++ buf.drop (start + part.length)

/-- The elements from `start` on, `count` of them at most. -/
def slice (buf : List α) (start count : Nat) : List α := (buf.drop start).take count

/-- Every part copied to its place, in order. -/
def copyAll (buf : List α) (parts : List (Nat × List α)) : List α :=
  parts.foldl (fun buf part => copyAt buf part.1 part.2) buf

theorem getElem?_copyAt (buf part : List α) (start i : Nat) :
    (copyAt buf start part)[i]? =
      if start ≤ i ∧ i < start + part.length ∧ i < buf.length then part[i - start]?
      else buf[i]? := by
  have front : (buf.take start).length = min start buf.length := List.length_take
  have middle : (part.take (buf.length - start)).length = min (buf.length - start) part.length :=
    List.length_take
  rw [copyAt, List.append_assoc]
  by_cases before : i < start
  · rw [if_neg (by omega)]
    by_cases inside : i < buf.length
    · rw [List.getElem?_append_left (by omega), List.getElem?_take_of_lt before]
    · rw [List.getElem?_eq_none (l := buf) (by omega), List.getElem?_eq_none]
      rw [List.length_append, List.length_append, List.length_drop]
      omega
  · rw [List.getElem?_append_right (by omega)]
    by_cases inside : i < buf.length
    · rw [show i - (buf.take start).length = i - start by omega]
      by_cases covered : i < start + part.length
      · rw [if_pos ⟨Nat.le_of_not_lt before, covered, inside⟩, List.getElem?_append_left (by omega),
          List.getElem?_take_of_lt (by omega)]
      · rw [if_neg (by omega), List.getElem?_append_right (by omega), List.getElem?_drop]
        congr 1
        omega
    · rw [if_neg (by omega), List.getElem?_eq_none (l := buf) (by omega), List.getElem?_eq_none]
      rw [List.length_append, List.length_drop]
      omega

@[simp] theorem length_copyAt (buf part : List α) (start : Nat) :
    (copyAt buf start part).length = buf.length := by
  rw [copyAt, List.length_append, List.length_append, List.length_take, List.length_take,
    List.length_drop]
  omega

@[simp] theorem length_copyAll (buf : List α) (parts : List (Nat × List α)) :
    (copyAll buf parts).length = buf.length := by
  induction parts generalizing buf with
  | nil => rfl
  | cons part parts ih => rw [copyAll, List.foldl_cons, ← copyAll, ih, length_copyAt]

theorem getElem?_slice (buf : List α) (start count i : Nat) :
    (slice buf start count)[i]? = if i < count then buf[start + i]? else none := by
  rw [slice, List.getElem?_take]
  split_ifs
  · rw [List.getElem?_drop]
  · rfl

/-- The parts lie behind one another. -/
def Apart (parts : List (Nat × List α)) : Prop :=
  parts.Pairwise fun part other => part.1 + part.2.length ≤ other.1

theorem getElem?_copyAll_outside {parts : List (Nat × List α)} {i : Nat}
    (outside : ∀ part ∈ parts, i < part.1 ∨ part.1 + part.2.length ≤ i) (buf : List α) :
    (copyAll buf parts)[i]? = buf[i]? := by
  induction parts generalizing buf with
  | nil => rfl
  | cons part parts ih =>
    rw [copyAll, List.foldl_cons, ← copyAll, ih fun other member => outside other
      (List.mem_cons_of_mem part member), getElem?_copyAt, if_neg]
    have := outside part List.mem_cons_self
    omega

theorem getElem?_copyAll {parts : List (Nat × List α)} (apart : Apart parts) {part : Nat × List α}
    (member : part ∈ parts) {i : Nat} (inside : i < part.2.length) {buf : List α}
    (fits : part.1 + i < buf.length) : (copyAll buf parts)[part.1 + i]? = part.2[i]? := by
  induction parts generalizing buf with
  | nil => cases member
  | cons first parts ih =>
    obtain ⟨behind, others⟩ := List.pairwise_cons.mp apart
    rw [copyAll, List.foldl_cons, ← copyAll]
    obtain rfl | later := List.mem_cons.mp member
    · rw [getElem?_copyAll_outside, getElem?_copyAt, if_pos (by omega), Nat.add_sub_cancel_left]
      intro other found
      have := behind other found
      omega
    · exact ih others later (by rwa [length_copyAt])

/-- **A slice taken at a part is the part.** -/
theorem slice_copyAll {parts : List (Nat × List α)} (apart : Apart parts) {part : Nat × List α}
    (member : part ∈ parts) {buf : List α} (fits : part.1 + part.2.length ≤ buf.length) :
    slice (copyAll buf parts) part.1 part.2.length = part.2 := by
  refine List.ext_getElem? fun i => ?_
  rw [getElem?_slice]
  split_ifs with inside
  · exact getElem?_copyAll apart member inside (by omega)
  · exact (List.getElem?_eq_none (Nat.le_of_not_lt inside)).symm

/-- **What no part covers is as it was.** -/
theorem slice_copyAll_outside {parts : List (Nat × List α)} {start count : Nat}
    (outside : ∀ part ∈ parts, start + count ≤ part.1 ∨ part.1 + part.2.length ≤ start)
    (buf : List α) :
    slice (copyAll buf parts) start count = slice buf start count := by
  refine List.ext_getElem? fun i => ?_
  rw [getElem?_slice, getElem?_slice]
  split_ifs with inside
  · refine getElem?_copyAll_outside (fun part member => ?_) buf
    have := outside part member
    omega
  · rfl

end

/-! ## Aligned places -/

section
variable {align : Nat → Nat}

/-- Where parts of these sizes start, the first at `offset` and each other at the next aligned
place behind the one before. -/
def offsetsFrom (align : Nat → Nat) (offset : Nat) : List Nat → List Nat
  | [] => []
  | size :: sizes => offset :: offsetsFrom align (align (offset + size)) sizes

/-- The aligned place behind the last part. -/
def endFrom (align : Nat → Nat) (offset : Nat) : List Nat → Nat
  | [] => offset
  | size :: sizes => endFrom align (align (offset + size)) sizes

theorem length_offsetsFrom (offset : Nat) (sizes : List Nat) :
    (offsetsFrom align offset sizes).length = sizes.length := by
  induction sizes generalizing offset with
  | nil => rfl
  | cons size sizes ih => rw [offsetsFrom, List.length_cons, List.length_cons, ih]

theorem forall_mem_offsetsFrom {P : Nat → Prop} {offset : Nat} (first : P offset)
    (next : ∀ n, P (align n)) (sizes : List Nat) : ∀ place ∈ offsetsFrom align offset sizes,
    P place := by
  induction sizes generalizing offset with
  | nil => exact List.forall_mem_nil _
  | cons size sizes ih => exact List.forall_mem_cons.mpr ⟨first, ih (next _)⟩

variable (up : ∀ n, n ≤ align n)
include up

theorem le_endFrom (offset : Nat) (sizes : List Nat) : offset ≤ endFrom align offset sizes := by
  induction sizes generalizing offset with
  | nil => exact Nat.le_refl _
  | cons size sizes ih =>
    have := up (offset + size)
    have := ih (align (offset + size))
    rw [endFrom]
    omega

variable {α : Type}

theorem placed (offset : Nat) (parts : List (List α)) :
    ∀ part ∈ (offsetsFrom align offset (parts.map List.length)).zip parts,
      offset ≤ part.1 ∧ part.1 + part.2.length ≤ endFrom align offset (parts.map List.length) := by
  induction parts generalizing offset with
  | nil => exact List.forall_mem_nil _
  | cons first parts ih =>
    have step := up (offset + first.length)
    have last := le_endFrom up (align (offset + first.length)) (parts.map List.length)
    rw [List.map_cons, offsetsFrom, endFrom, List.zip_cons_cons]
    refine List.forall_mem_cons.mpr ⟨⟨Nat.le_refl _, by dsimp only; omega⟩, fun part member => ?_⟩
    have := ih (align (offset + first.length)) part member
    omega

theorem apart_placed (offset : Nat) (parts : List (List α)) :
    Apart ((offsetsFrom align offset (parts.map List.length)).zip parts) := by
  induction parts generalizing offset with
  | nil => exact .nil
  | cons first parts ih =>
    have step := up (offset + first.length)
    rw [List.map_cons, offsetsFrom, List.zip_cons_cons]
    refine List.pairwise_cons.mpr ⟨fun part member => ?_, ih _⟩
    have := placed up _ parts part member
    dsimp only
    omega

end

end Layout
