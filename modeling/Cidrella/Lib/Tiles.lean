import Mathlib.Data.List.Perm.Basic
import Mathlib.Tactic

/-!
# Intervals that tile an interval

A list of intervals, each a start and a size, that lie inside `[lo, hi)`, do not meet and
leave nothing out. Tilings of adjacent intervals compose (`Tiles.append`), and the order
of the list does not matter (`Tiles.perm`).
-/

set_option autoImplicit false

namespace Cidrella

/-- The intervals tile `[lo, hi)`. -/
structure Tiles (lo hi : Nat) (parts : List (Nat × Nat)) : Prop where
  inside : ∀ part ∈ parts, lo ≤ part.1 ∧ part.1 + part.2 ≤ hi
  apart : parts.Pairwise fun left right =>
    left.1 + left.2 ≤ right.1 ∨ right.1 + right.2 ≤ left.1
  covers : ∀ value, lo ≤ value → value < hi → ∃ part ∈ parts,
    part.1 ≤ value ∧ value < part.1 + part.2

namespace Tiles

theorem nil (lo : Nat) : Tiles lo lo [] where
  inside := by simp
  apart := .nil
  covers := fun value low high => absurd low (by omega)

theorem single (start size : Nat) : Tiles start (start + size) [(start, size)] where
  inside := by simp
  apart := List.pairwise_singleton _ _
  covers := fun value low high => ⟨(start, size), List.mem_singleton_self _, low, high⟩

theorem append {lo middle hi : Nat} {left right : List (Nat × Nat)} (first : Tiles lo middle left)
    (second : Tiles middle hi right) (low : lo ≤ middle) (high : middle ≤ hi) :
    Tiles lo hi (left ++ right) where
  inside := by
    intro part member
    rcases List.mem_append.mp member with member | member
    · have := first.inside part member
      omega
    · have := second.inside part member
      omega
  apart := by
    refine List.pairwise_append.mpr ⟨first.apart, second.apart, ?_⟩
    intro part member other memberOther
    have := first.inside part member
    have := second.inside other memberOther
    omega
  covers := by
    intro value above below
    by_cases lower : value < middle
    · obtain ⟨part, member, within⟩ := first.covers value above lower
      exact ⟨part, List.mem_append_left _ member, within⟩
    · obtain ⟨part, member, within⟩ := second.covers value (by omega) below
      exact ⟨part, List.mem_append_right _ member, within⟩

theorem perm {lo hi : Nat} {parts others : List (Nat × Nat)} (tiles : Tiles lo hi parts)
    (same : parts.Perm others) : Tiles lo hi others where
  inside := fun part member => tiles.inside part (same.mem_iff.mpr member)
  apart := by
    refine (same.pairwise_iff ?_).mp tiles.apart
    intro left right apart
    exact apart.symm
  covers := by
    intro value low high
    obtain ⟨part, member, within⟩ := tiles.covers value low high
    exact ⟨part, same.mem_iff.mp member, within⟩

theorem range (start size count : Nat) :
    Tiles start (start + count * size) ((List.range count).map fun i =>
    (start + i * size, size)) := by
  induction count with
  | zero => simpa using nil start
  | succ count ih =>
    have next := single (start + count * size) size
    have whole : start + (count + 1) * size = start + count * size + size := by ring
    rw [List.range_succ, List.map_append, whole]
    exact ih.append next (Nat.le_add_right _ _) (Nat.le_add_right _ _)

end Tiles

end Cidrella
