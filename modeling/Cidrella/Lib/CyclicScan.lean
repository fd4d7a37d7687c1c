import Mathlib.Tactic

/-!
# Scanning for a free id

Ids are tried one after another until one is found that is not in use. Over a 16-bit
counter that wraps, a free id is found whenever there is one (`scan_uint16_isSome`).
-/

set_option autoImplicit false

namespace Cidrella

section Scan

variable {α : Type} (used : α → Bool) (next : α → α)

/-- The first id that is not in use, of as many as there are rounds. -/
def scan : Nat → α → Option α
  | 0, _ => none
  | rounds + 1, id => if used id then scan rounds (next id) else some id

variable {used next}

theorem scan_of_free {id : α} (free : used id = false) (rounds : Nat) :
    scan used next (rounds + 1) id = some id := by
  rw [scan, free, if_neg (by simp)]

theorem scan_is_free {rounds : Nat} {start id : α} (found : scan used next rounds start = some id) :
    used id = false := by
  induction rounds generalizing start with
  | zero => exact absurd found (by simp [scan])
  | succ rounds ih =>
    unfold scan at found
    split at found
    · exact ih found
    · rename_i free
      obtain rfl := Option.some.inj found
      exact Bool.not_eq_true _ ▸ free

theorem used_of_scan_eq_none {rounds : Nat} {start : α}
    (none : scan used next rounds start = none) :
    ∀ i < rounds, used (next^[i] start) = true := by
  induction rounds generalizing start with
  | zero => exact fun i below => absurd below (Nat.not_lt_zero i)
  | succ rounds ih =>
    unfold scan at none
    split at none
    · rename_i taken
      intro i below
      cases i with
      | zero => exact taken
      | succ i => exact ih none i (Nat.lt_of_succ_lt_succ below)
    · exact absurd none (by simp)

end Scan

theorem iterate_add_one (i : Nat) (start : UInt16) :
    (fun id : UInt16 => id + 1)^[i] start = start + UInt16.ofNat i := by
  induction i generalizing start with
  | zero => simp
  | succ i ih =>
    rw [Function.iterate_succ_apply, ih, UInt16.ofNat_add, UInt16.add_assoc]
    exact congrArg (start + ·) (UInt16.add_comm 1 _)

theorem exists_iterate_eq (start id : UInt16) : ∃ i < 65536,
    (fun id : UInt16 => id + 1)^[i] start = id := by
  refine ⟨(id - start).toNat, (id - start).toNat_lt, ?_⟩
  rw [iterate_add_one, UInt16.ofNat_toNat, UInt16.add_comm, UInt16.sub_add_cancel]

theorem le_length_of_forall_mem {ids : List UInt16} (all : ∀ id, id ∈ ids) :
    65536 ≤ ids.length := by
  have distinct : ((List.range 65536).map UInt16.ofNat).Nodup := by
    refine List.Nodup.map_on ?_ List.nodup_range
    intro left below right below' same
    have values := congrArg UInt16.toNat same
    rw [UInt16.toNat_ofNat', UInt16.toNat_ofNat'] at values
    have small := List.mem_range.mp below
    have small' := List.mem_range.mp below'
    omega
  have subset : (List.range 65536).map UInt16.ofNat ⊆ ids := fun id _ => all id
  have bound := (distinct.subperm subset).length_le
  rwa [List.length_map, List.length_range] at bound

/-- **A free id is found while fewer than 65536 are in use.** -/
theorem scan_uint16_isSome {ids : List UInt16} (few : ids.length < 65536) (start : UInt16) :
    ∃ id, scan (fun id => decide (id ∈ ids)) (· + 1) 65536 start = some id ∧ id ∉ ids := by
  cases found : scan (fun id => decide (id ∈ ids)) (· + 1) 65536 start with
  | some id =>
    have free := scan_is_free found
    exact ⟨id, rfl, of_decide_eq_false free⟩
  | none =>
    have all : ∀ id, id ∈ ids := by
      intro id
      obtain ⟨i, below, rfl⟩ := exists_iterate_eq start id
      exact of_decide_eq_true (used_of_scan_eq_none found i below)
    exact absurd (le_length_of_forall_mem all) (not_le.mpr few)

end Cidrella
