import Mathlib.Data.List.Nodup
import Mathlib.Tactic

/-!
# Registers

Rows with a key each, no two rows with one key. `add` refuses a row whose key is taken,
`put` replaces the row that has the key, and `fill` adds the rows of a list one after
another and passes over those that are refused. Filling an empty register from rows with
distinct keys leaves exactly the rows that nothing refused (`mem_fill_empty`).
-/

set_option autoImplicit false

namespace Cidrella

/-- Rows with distinct keys. -/
structure Register {α κ : Type} (key : α → κ) where
  rows : List α
  distinct : (rows.map key).Nodup

namespace Register

variable {α κ : Type} {key : α → κ}

instance : Membership α (Register key) := ⟨fun r row => row ∈ r.rows⟩

theorem mem_def {r : Register key} {row : α} : row ∈ r ↔ row ∈ r.rows := Iff.rfl

/-- The register without rows. -/
def empty : Register key := ⟨[], List.nodup_nil⟩

theorem not_mem_empty (row : α) : row ∉ (empty : Register key) := List.not_mem_nil

/-- The rows that pass a test. -/
def filter (r : Register key) (test : α → Bool) : Register key where
  rows := r.rows.filter test
  distinct := r.distinct.sublist (List.filter_sublist.map key)

@[simp] theorem mem_filter {r : Register key} {test : α → Bool} {row : α} :
    row ∈ r.filter test ↔ row ∈ r ∧ test row = true := List.mem_filter

@[simp] theorem filter_true (r : Register key) : (r.filter fun _ => true) = r := by
  cases r
  simp [filter]

section Writes

variable [DecidableEq κ]

/-- The register with one more row, unless its key is taken. -/
def add (r : Register key) (row : α) : Option (Register key) :=
  if taken : key row ∈ r.rows.map key then none
  else some ⟨r.rows ++ [row], by
    rw [List.map_append, List.nodup_append]
    refine ⟨r.distinct, List.nodup_singleton _, ?_⟩
    intro k member k' last same
    rw [List.map_singleton, List.mem_singleton] at last
    exact taken (last ▸ same ▸ member)⟩

theorem mem_add {r after : Register key} {row other : α} (done : r.add row = some after) :
    other ∈ after ↔ other ∈ r ∨ other = row := by
  unfold add at done
  split at done
  · exact absurd done nofun
  · obtain rfl := Option.some.inj done
    simp [mem_def]

theorem add_isSome_iff {r : Register key} {row : α} : (r.add row).isSome ↔ ∀ other ∈ r,
    key other ≠ key row := by
  unfold add
  split
  · rename_i taken
    obtain ⟨other, member, same⟩ := List.mem_map.mp taken
    exact ⟨nofun, fun free => absurd same (free other member)⟩
  · rename_i free
    exact ⟨fun _ other member same => free (List.mem_map.mpr ⟨other, member, same⟩), fun _ => rfl⟩

/-- The register with the row at its key. -/
def put (r : Register key) (row : α) : Register key where
  rows := r.rows.filter (key · ≠ key row) ++ [row]
  distinct := by
    rw [List.map_append, List.nodup_append]
    refine ⟨r.distinct.sublist (List.filter_sublist.map key), List.nodup_singleton _, ?_⟩
    intro k member k' last same
    obtain ⟨other, kept, rfl⟩ := List.mem_map.mp member
    rw [List.map_singleton, List.mem_singleton] at last
    have differs := (List.mem_filter.mp kept).2
    exact absurd (same.trans last) (by simpa using differs)

theorem mem_put {r : Register key} {row other : α} :
    other ∈ r.put row ↔ (other ∈ r ∧ key other ≠ key row) ∨ other = row := by
  simp [put, mem_def]

/-- The register with all the rows of a list, the later row winning. -/
def putAll (r : Register key) (rows : List α) : Register key := rows.foldl put r

theorem putAll_cons (r : Register key) (row : α) (rows : List α) :
    r.putAll (row :: rows) = (r.put row).putAll rows := rfl

theorem mem_putAll_of_not_mem {r : Register key} {rows : List α} {other : α}
    (free : key other ∉ rows.map key) : other ∈ r.putAll rows ↔ other ∈ r := by
  induction rows generalizing r with
  | nil => exact Iff.rfl
  | cons row rows ih =>
    rw [List.map_cons, List.mem_cons, not_or] at free
    rw [putAll_cons, ih free.2, mem_put]
    constructor
    · rintro (⟨member, -⟩ | rfl)
      · exact member
      · exact absurd rfl free.1
    · exact fun member => .inl ⟨member, free.1⟩

/-- The rows of a list added one after another; a row that is refused is passed over. -/
def fill (r : Register key) (refuses : α → Bool) (rows : List α) : Register key :=
  rows.foldl (fun r row => if refuses row then r else (r.add row).getD r) r

theorem fill_cons (r : Register key) (refuses : α → Bool) (row : α) (rows : List α) :
    r.fill refuses (row :: rows) = (if refuses row then r else (r.add row).getD r).fill
    refuses rows := rfl

/-- Rows with new and distinct keys are all there, those that are refused excepted. -/
theorem mem_fill {r : Register key} {refuses : α → Bool} {rows : List α}
    (distinct : (rows.map key).Nodup) (new : ∀ row ∈ rows, ∀ other ∈ r, key other ≠ key row)
    {other : α} :
    other ∈ r.fill refuses rows ↔ other ∈ r ∨ (other ∈ rows ∧ refuses other = false) := by
  induction rows generalizing r with
  | nil => simp [fill]
  | cons row rows ih =>
    rw [List.map_cons, List.nodup_cons] at distinct
    have later : ∀ row ∈ rows, ∀ other ∈ r, key other ≠ key row :=
      fun row member => new row (List.mem_cons_of_mem _ member)
    rw [fill_cons]
    by_cases refused : refuses row = true
    · rw [if_pos refused, ih distinct.2 later]
      constructor
      · rintro (old | ⟨member, accepted⟩)
        · exact .inl old
        · exact .inr ⟨List.mem_cons_of_mem _ member, accepted⟩
      · rintro (old | ⟨member, accepted⟩)
        · exact .inl old
        · rcases List.mem_cons.mp member with rfl | member
          · exact absurd refused (by simp [accepted])
          · exact .inr ⟨member, accepted⟩
    · rw [if_neg refused]
      obtain ⟨after, added⟩ := Option.isSome_iff_exists.mp
        (add_isSome_iff.mpr (new row List.mem_cons_self))
      have held : ∀ other, other ∈ after ↔ other ∈ r ∨ other = row := fun _ => mem_add added
      rw [added, Option.getD_some, ih distinct.2]
      · rw [held, List.mem_cons, or_assoc]
        constructor
        · rintro (old | rfl | ⟨member, accepted⟩)
          · exact .inl old
          · exact .inr ⟨.inl rfl, by simpa using refused⟩
          · exact .inr ⟨.inr member, accepted⟩
        · rintro (old | ⟨rfl | member, accepted⟩)
          · exact .inl old
          · exact .inr (.inl rfl)
          · exact .inr (.inr ⟨member, accepted⟩)
      · intro next member other also same
        rcases (held other).mp also with old | rfl
        · exact later next member other old same
        · exact distinct.1 (List.mem_map.mpr ⟨next, member, same.symm⟩)

/-- **A register that is filled anew** holds exactly the rows that nothing refused. -/
theorem mem_fill_empty {refuses : α → Bool} {rows : List α} (distinct : (rows.map key).Nodup)
    {other : α} :
    other ∈ (empty : Register key).fill refuses rows ↔ other ∈ rows ∧ refuses other = false := by
  rw [mem_fill distinct fun _ _ other member => absurd member (not_mem_empty other)]
  exact ⟨fun either => either.resolve_left (not_mem_empty other), .inr⟩

end Writes

end Register

end Cidrella
