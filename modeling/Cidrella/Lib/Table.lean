import Mathlib.Data.List.Nodup
import Mathlib.Tactic

/-!
# Tables with ids and keys

A table of rows. The table chooses each row's id and never uses one twice; no two rows
share a key. Both facts are fields of `Table`, so a table without them cannot be built.

`lookup` reads a row by its key, and every operation is described by what it does to
`lookup`: `lookup_update`, `lookup_insert`, `lookup_delete`.
-/

set_option autoImplicit false

namespace Cidrella

/-- One row: its id, its key and the columns that are not part of the key. -/
structure Row (κ α : Type) where
  id : Nat
  key : κ
  info : α
  deriving DecidableEq, Repr

/-- Rows with distinct ids below `nextId` and distinct keys. -/
structure Table (κ α : Type) where
  rows : List (Row κ α)
  nextId : Nat
  fresh : ∀ row ∈ rows, row.id < nextId
  idsDistinct : (rows.map Row.id).Nodup
  keysDistinct : (rows.map Row.key).Nodup

namespace Table

variable {κ α : Type}

/-- The table without rows. -/
def empty : Table κ α where
  rows := []
  nextId := 1
  fresh := by simp
  idsDistinct := by simp
  keysDistinct := by simp

theorem fresh_singleton (row : Row κ α) : ∀ other ∈ [row], other.id < row.id + 1 :=
  List.forall_mem_singleton.mpr row.id.lt_succ_self

theorem eq_of_id_eq (table : Table κ α) {row other : Row κ α} (member : row ∈ table.rows)
    (memberOther : other ∈ table.rows) (same : row.id = other.id) : row = other :=
  List.inj_on_of_nodup_map table.idsDistinct member memberOther same

theorem eq_of_key_eq (table : Table κ α) {row other : Row κ α} (member : row ∈ table.rows)
    (memberOther : other ∈ table.rows) (same : row.key = other.key) : row = other :=
  List.inj_on_of_nodup_map table.keysDistinct member memberOther same

/-! ## Reading -/

/-- The first row that passes a test. -/
def find? (table : Table κ α) (test : Row κ α → Bool) : Option (Row κ α) :=
  table.rows.find? test

theorem mem_of_find? {table : Table κ α} {test : Row κ α → Bool} {row : Row κ α}
    (found : table.find? test = some row) : row ∈ table.rows :=
  List.mem_of_find?_eq_some found

theorem test_of_find? {table : Table κ α} {test : Row κ α → Bool} {row : Row κ α}
    (found : table.find? test = some row) : test row = true :=
  List.find?_some found

/-- The row with an id. -/
def byId (table : Table κ α) (id : Nat) : Option (Row κ α) :=
  table.find? (·.id == id)

theorem byId_eq_some {table : Table κ α} {id : Nat} {row : Row κ α} :
    table.byId id = some row ↔ row ∈ table.rows ∧ row.id = id := by
  constructor
  · intro found
    exact ⟨mem_of_find? found, by simpa using test_of_find? found⟩
  · rintro ⟨member, rfl⟩
    cases found : table.byId row.id with
    | none =>
      have missing := List.find?_eq_none.mp found row member
      simp at missing
    | some other =>
      have same : other.id = row.id := by simpa using test_of_find? found
      rw [table.eq_of_id_eq (mem_of_find? found) member same]

variable [DecidableEq κ]

/-- The row with a key. -/
def lookup (table : Table κ α) (key : κ) : Option (Row κ α) :=
  table.find? (·.key == key)

theorem lookup_eq_some {table : Table κ α} {key : κ} {row : Row κ α} :
    table.lookup key = some row ↔ row ∈ table.rows ∧ row.key = key := by
  constructor
  · intro found
    exact ⟨mem_of_find? found, by simpa using test_of_find? found⟩
  · rintro ⟨member, rfl⟩
    cases found : table.lookup row.key with
    | none =>
      have missing := List.find?_eq_none.mp found row member
      simp at missing
    | some other =>
      have same : other.key = row.key := by simpa using test_of_find? found
      rw [table.eq_of_key_eq (mem_of_find? found) member same]

theorem lookup_eq_none {table : Table κ α} {key : κ} :
    table.lookup key = none ↔ ∀ row ∈ table.rows, row.key ≠ key := by
  rw [lookup, find?, List.find?_eq_none]
  simp

/-! ## Changing columns -/

/-- Every row that passes a test gets new columns. -/
def update (table : Table κ α) (test : Row κ α → Bool) (change : Row κ α → α) : Table κ α where
  rows := table.rows.map fun row => if test row then { row with info := change row } else row
  nextId := table.nextId
  fresh := by
    intro row member
    obtain ⟨old, within, rfl⟩ := List.mem_map.mp member
    have bound := table.fresh old within
    split
    · exact bound
    · exact bound
  idsDistinct := by
    have same : (table.rows.map fun row => if test row then { row with info := change row }
        else row).map Row.id = table.rows.map Row.id := by
      rw [List.map_map]
      refine List.map_congr_left fun row _ => ?_
      simp only [Function.comp_apply]
      split <;> rfl
    rw [same]
    exact table.idsDistinct
  keysDistinct := by
    have same : (table.rows.map fun row => if test row then { row with info := change row }
        else row).map Row.key = table.rows.map Row.key := by
      rw [List.map_map]
      refine List.map_congr_left fun row _ => ?_
      simp only [Function.comp_apply]
      split <;> rfl
    rw [same]
    exact table.keysDistinct

omit [DecidableEq κ] in
theorem mem_update {table : Table κ α} {test : Row κ α → Bool} {change : Row κ α → α}
    {row : Row κ α} : row ∈ (table.update test change).rows ↔
      ∃ old ∈ table.rows, row = if test old then { old with info := change old } else old := by
  constructor
  · intro member
    obtain ⟨old, within, same⟩ := List.mem_map.mp member
    exact ⟨old, within, same.symm⟩
  · rintro ⟨old, within, rfl⟩
    exact List.mem_map.mpr ⟨old, within, rfl⟩

omit [DecidableEq κ] in
theorem mem_update_of_untouched {table : Table κ α} {test : Row κ α → Bool} {change : Row κ α → α}
    {row : Row κ α} (untouched : ∀ old ∈ table.rows, old.key = row.key → test old = false) :
    row ∈ (table.update test change).rows ↔ row ∈ table.rows := by
  rw [mem_update]
  constructor
  · rintro ⟨old, within, rfl⟩
    have key : (if test old then { old with info := change old } else old).key = old.key := by
      split <;> rfl
    rw [untouched old within key.symm]
    exact within
  · intro member
    refine ⟨row, member, ?_⟩
    rw [untouched row member rfl]
    rfl

theorem lookup_update (table : Table κ α) (test : Row κ α → Bool) (change : Row κ α → α) (key : κ) :
    (table.update test change).lookup key =
      (table.lookup key).map fun row => if test row then { row with info := change row }
      else row := by
  cases found : table.lookup key with
  | none =>
    rw [Option.map_none, lookup_eq_none]
    intro row member
    obtain ⟨old, within, rfl⟩ := mem_update.mp member
    have differs := lookup_eq_none.mp found old within
    split <;> exact differs
  | some row =>
    obtain ⟨member, rfl⟩ := lookup_eq_some.mp found
    rw [Option.map_some, lookup_eq_some]
    refine ⟨mem_update.mpr ⟨row, member, rfl⟩, ?_⟩
    split <;> rfl

omit [DecidableEq κ] in
theorem byId_update (table : Table κ α) (test : Row κ α → Bool) (change : Row κ α → α) (id : Nat) :
    (table.update test change).byId id =
      (table.byId id).map fun row => if test row then { row with info := change row } else row := by
  cases found : table.byId id with
  | none =>
    refine List.find?_eq_none.mpr ?_
    intro row member
    obtain ⟨old, within, rfl⟩ := mem_update.mp member
    have missing := List.find?_eq_none.mp found old within
    split <;> exact missing
  | some row =>
    obtain ⟨member, rfl⟩ := byId_eq_some.mp found
    rw [Option.map_some, byId_eq_some]
    refine ⟨mem_update.mpr ⟨row, member, rfl⟩, ?_⟩
    split <;> rfl

/-! ## Adding and removing rows -/

/-- A new row, refused when the key is taken. The new row's id is `nextId`. -/
def insert (table : Table κ α) (key : κ) (info : α) : Option (Table κ α) :=
  if absent : table.rows.all (·.key ≠ key) then
    some
      { rows := table.rows ++ [⟨table.nextId, key, info⟩]
        nextId := table.nextId + 1
        fresh := by
          intro row member
          rcases List.mem_append.mp member with member | member
          · exact Nat.lt_succ_of_lt (table.fresh row member)
          · rw [List.mem_singleton.mp member]
            exact Nat.lt_succ_self _
        idsDistinct := by
          rw [List.map_append, List.nodup_append]
          refine ⟨table.idsDistinct, by simp, ?_⟩
          intro id member id' member' same
          obtain ⟨row, within, rfl⟩ := List.mem_map.mp member
          have bound := table.fresh row within
          simp only [List.map_cons, List.map_nil, List.mem_singleton] at member'
          omega
        keysDistinct := by
          rw [List.map_append, List.nodup_append]
          refine ⟨table.keysDistinct, by simp, ?_⟩
          intro k member k' member' same
          obtain ⟨row, within, rfl⟩ := List.mem_map.mp member
          simp only [List.map_cons, List.map_nil, List.mem_singleton] at member'
          have differs := List.all_eq_true.mp absent row within
          simp only [ne_eq, decide_not, Bool.not_eq_true', decide_eq_false_iff_not] at differs
          exact differs (same.trans member') }
  else none

theorem insert_isSome {table : Table κ α} {key : κ} {info : α} (absent : table.lookup key = none) :
    ∃ after, table.insert key info = some after := by
  have all : table.rows.all (·.key ≠ key) = true := by
    rw [List.all_eq_true]
    intro row member
    simpa using lookup_eq_none.mp absent row member
  rw [insert, dif_pos all]
  exact ⟨_, rfl⟩

theorem insert_eq_some {table after : Table κ α} {key : κ} {info : α}
    (done : table.insert key info = some after) :
    table.lookup key = none ∧ after.rows = table.rows ++ [⟨table.nextId, key, info⟩] ∧
      after.nextId = table.nextId + 1 := by
  rw [insert] at done
  split at done
  · rename_i absent
    obtain rfl := Option.some.inj done
    refine ⟨lookup_eq_none.mpr fun row member => ?_, rfl, rfl⟩
    simpa using List.all_eq_true.mp absent row member
  · exact absurd done (by simp)

theorem mem_insert {table after : Table κ α} {key : κ} {info : α}
    (done : table.insert key info = some after) {row : Row κ α} :
    row ∈ after.rows ↔ row ∈ table.rows ∨ row = ⟨table.nextId, key, info⟩ := by
  rw [(insert_eq_some done).2.1, List.mem_append, List.mem_singleton]

theorem lookup_insert {table after : Table κ α} {key : κ} {info : α}
    (done : table.insert key info = some after) (other : κ) :
    after.lookup other =
      if other = key then some ⟨table.nextId, key, info⟩ else table.lookup other := by
  split
  · rename_i same
    subst same
    exact lookup_eq_some.mpr ⟨(mem_insert done).mpr (.inr rfl), rfl⟩
  · rename_i differs
    cases found : table.lookup other with
    | none =>
      rw [lookup_eq_none]
      intro row member
      rcases (mem_insert done).mp member with member | rfl
      · exact lookup_eq_none.mp found row member
      · exact fun same => differs same.symm
    | some row =>
      obtain ⟨member, keyed⟩ := lookup_eq_some.mp found
      exact lookup_eq_some.mpr ⟨(mem_insert done).mpr (.inl member), keyed⟩

omit [DecidableEq κ] in
/-- Rows that pass a test go. -/
def delete (table : Table κ α) (test : Row κ α → Bool) : Table κ α where
  rows := table.rows.filter fun row => !test row
  nextId := table.nextId
  fresh := fun row member => table.fresh row (List.mem_of_mem_filter member)
  idsDistinct := table.idsDistinct.sublist ((List.filter_sublist).map Row.id)
  keysDistinct := table.keysDistinct.sublist ((List.filter_sublist).map Row.key)

omit [DecidableEq κ] in
theorem mem_delete {table : Table κ α} {test : Row κ α → Bool} {row : Row κ α} :
    row ∈ (table.delete test).rows ↔ row ∈ table.rows ∧ test row = false := by
  simp [delete, List.mem_filter]

theorem lookup_delete (table : Table κ α) (test : Row κ α → Bool) (key : κ) :
    (table.delete test).lookup key = (table.lookup key).filter fun row => !test row := by
  cases found : table.lookup key with
  | none =>
    rw [Option.filter_none, lookup_eq_none]
    intro row member
    exact lookup_eq_none.mp found row (mem_delete.mp member).1
  | some row =>
    obtain ⟨member, rfl⟩ := lookup_eq_some.mp found
    rw [Option.filter_some]
    by_cases gone : test row = true
    · rw [gone, Bool.not_true, if_neg (by decide), lookup_eq_none]
      intro other within same
      obtain ⟨memberOther, kept⟩ := mem_delete.mp within
      obtain rfl := table.eq_of_key_eq memberOther member same
      rw [gone] at kept
      exact absurd kept (by decide)
    · rw [Bool.not_eq_true] at gone
      rw [gone, Bool.not_false, if_pos rfl]
      exact lookup_eq_some.mpr ⟨mem_delete.mpr ⟨member, gone⟩, rfl⟩

/-! ## Changing a key -/

/-- The row with an id gets a new key, refused when another row has it. -/
def rekey (table : Table κ α) (id : Nat) (change : κ → κ) : Option (Table κ α) :=
  if distinct : ((table.rows.map fun row =>
      if row.id = id then { row with key := change row.key } else row).map Row.key).Nodup then
    some
      { rows := table.rows.map fun row =>
          if row.id = id then { row with key := change row.key } else row
        nextId := table.nextId
        fresh := by
          intro row member
          obtain ⟨old, within, rfl⟩ := List.mem_map.mp member
          have bound := table.fresh old within
          split
          · exact bound
          · exact bound
        idsDistinct := by
          have same : (table.rows.map fun row =>
              if row.id = id then { row with key := change row.key } else row).map Row.id =
              table.rows.map Row.id := by
            rw [List.map_map]
            refine List.map_congr_left fun row _ => ?_
            simp only [Function.comp_apply]
            split <;> rfl
          rw [same]
          exact table.idsDistinct
        keysDistinct := distinct }
  else none

theorem mem_rekey {table after : Table κ α} {id : Nat} {change : κ → κ}
    (done : table.rekey id change = some after) {row : Row κ α} : row ∈ after.rows ↔
      ∃ old ∈ table.rows, row = if old.id = id then { old with key := change old.key }
      else old := by
  rw [rekey] at done
  split at done
  · obtain rfl := Option.some.inj done
    constructor
    · intro member
      obtain ⟨old, within, same⟩ := List.mem_map.mp member
      exact ⟨old, within, same.symm⟩
    · rintro ⟨old, within, rfl⟩
      exact List.mem_map.mpr ⟨old, within, rfl⟩
  · exact absurd done (by simp)

theorem rekey_nextId {table after : Table κ α} {id : Nat} {change : κ → κ}
    (done : table.rekey id change = some after) : after.nextId = table.nextId := by
  rw [rekey] at done
  split at done
  · obtain rfl := Option.some.inj done
    rfl
  · exact absurd done (by simp)

end Table

end Cidrella
