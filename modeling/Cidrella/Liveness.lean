import Cidrella.Operations

/-!
# Liveness history

The `online` and `offline` events of a row against its `is_online` column. The invariant
`Exact` says that the events are the edges of the column since the row was made. Every
write preserves it, except one: `upsert` inserts a row as online without an event, which
the neighbor and lease observations reach when the address has no row yet.
-/

set_option autoImplicit false

namespace Cidrella

/-! ## The invariant -/

/-- The liveness events of every row are the edges of its `is_online` since it was made,
and no event is recorded for a row that does not exist yet. -/
structure Exact (store : IpStore) : Prop where
  edges : ∀ row ∈ store.table.rows, Edges false (store.edges row.id) row.info.isOnline
  since : ∀ row ∈ store.table.rows, row.info.isOnline = true → row.info.offlineSinceAt = none
  unused : ∀ id, store.table.nextId ≤ id → store.edges id = []

theorem exact_empty : Exact .empty where
  edges := by
    intro row member
    exact absurd member (by simp [IpStore.empty, Table.empty])
  since := by
    intro row member
    exact absurd member (by simp [IpStore.empty, Table.empty])
  unused := fun _ _ => rfl

theorem Write.exact {may : Licence} {store after : IpStore} (write : Write may store after)
    (sighted : ∀ key, ¬ may.blind key) (known : Exact store) : Exact after := by
  cases write with
  | note table edges =>
    refine ⟨?_, ?_, ?_⟩
    · intro row member
      rw [table] at member
      rw [edges]
      exact known.edges row member
    · intro row member
      rw [table] at member
      exact known.since row member
    · intro id later
      rw [table] at later
      rw [edges]
      exact known.unused id later
  | update test change log table edges quiet _ live =>
    have untouched : ∀ row ∈ store.table.rows, test row = false → log row.id = [] := by
      intro row member untested
      refine quiet row.id fun other within same => ?_
      rw [store.table.eq_of_id_eq within member same]
      exact untested
    refine ⟨?_, ?_, ?_⟩
    · intro row member
      rw [table] at member
      obtain ⟨old, within, rfl⟩ := Table.mem_update.mp member
      rw [edges]
      cases tested : test old with
      | true => exact (known.edges old within).append (live old within tested).edges
      | false =>
        simp only [Bool.false_eq_true, if_false]
        rw [untouched old within tested, List.append_nil]
        exact known.edges old within
    · intro row member
      rw [table] at member
      obtain ⟨old, within, rfl⟩ := Table.mem_update.mp member
      cases tested : test old with
      | true =>
        intro online
        rcases (live old within tested).since online with cleared | ⟨was, same⟩
        · exact cleared
        · exact same.trans (known.since old within was)
      | false => exact known.since old within
    · intro id later
      rw [table] at later
      rw [edges, known.unused id later, List.nil_append]
      refine quiet id fun row member same => ?_
      have bound := store.table.fresh row member
      have later : store.table.nextId ≤ id := later
      omega
  | insert key info log _ table edges _ live =>
    have step : LiveStep {} info log := live.resolve_right (sighted key)
    obtain ⟨-, -, next⟩ := Table.insert_eq_some table
    refine ⟨?_, ?_, ?_⟩
    · intro row member
      rw [edges]
      rcases (Table.mem_insert table).mp member with within | rfl
      · have bound := store.table.fresh row within
        rw [if_neg (by omega), List.append_nil]
        exact known.edges row within
      · rw [if_pos rfl, known.unused _ le_rfl, List.nil_append]
        exact step.edges
    · intro row member online
      rcases (Table.mem_insert table).mp member with within | rfl
      · exact known.since row within online
      · rcases step.since online with cleared | ⟨was, -⟩
        · exact cleared
        · exact absurd was (by decide)
    · intro id later
      rw [edges, if_neg (by omega), List.append_nil]
      exact known.unused id (by omega)
  | delete test table edges _ =>
    refine ⟨?_, ?_, ?_⟩
    · intro row member
      rw [table] at member
      rw [edges]
      exact known.edges row (Table.mem_delete.mp member).1
    · intro row member
      rw [table] at member
      exact known.since row (Table.mem_delete.mp member).1
    · intro id later
      rw [table] at later
      rw [edges]
      exact known.unused id later

/-- The operation brings no address online that has no row. -/
def Operation.Sighted (op : Operation) (db : Db) (now : Nat) : Prop := ∀ key, ¬ op.blinds db now key

theorem LifecycleStep.exact {store after : IpStore}
    (step : LifecycleStep Operation.Sighted store after) (known : Exact store) : Exact after := by
  cases step with
  | operation step =>
    obtain ⟨op, env, now, next, met, done, rfl⟩ := step
    have each : ∀ before later, Write (op.licence ⟨env, store⟩ now) before later →
        Exact before → Exact later := fun _ _ write => write.exact met
    exact (Operation.run_writes done).2.invariant each known
  | move env id addr targetSubnetId done =>
    obtain ⟨next, edges, rows⟩ := moveToSubnet_cases done
    refine ⟨?_, ?_, ?_⟩
    · intro row member
      obtain ⟨old, within, sameId, sameInfo⟩ := rows row member
      rw [edges, ← sameId, ← sameInfo]
      exact known.edges old within
    · intro row member
      obtain ⟨old, within, -, sameInfo⟩ := rows row member
      rw [← sameInfo]
      exact known.since old within
    · intro id later
      rw [edges]
      exact known.unused id (next ▸ later)

/-! ## The history of a row -/

/-- The history of a row is exact: its liveness events alternate and begin with `online`,
it is online exactly when the last one is `online`, and then it has no offline time. -/
structure ExactHistory (store : IpStore) (row : IpRow) : Prop where
  alternates : (store.edges row.id).IsChain (· ≠ ·)
  begins : ∀ first, (store.edges row.id).head? = some first → first = true
  last : row.info.isOnline = true ↔ (store.edges row.id).getLast? = some true
  since : row.info.isOnline = true → row.info.offlineSinceAt = none

theorem Exact.history {store : IpStore} (known : Exact store) {row : IpRow}
    (member : row ∈ store.table.rows) : ExactHistory store row where
  alternates := (known.edges row member).alternates
  begins := by
    intro first found
    have change := (known.edges row member).head found
    simpa using change
  last := by
    have last := (known.edges row member).last
    cases found : (store.edges row.id).getLast? with
    | none =>
      rw [found] at last
      simp [← last]
    | some edge =>
      rw [found] at last
      simp [← last]
  since := known.since row member

/-- **Liveness.** In every run in which each address that a neighbor or a lease brings
online already has its row, the history of every row is exact. -/
theorem exactHistory_of_run {store : IpStore} (run : LifecycleRun Operation.Sighted .empty store) :
    ∀ row ∈ store.table.rows, ExactHistory store row := by
  have known : Exact store := by
    induction run with
    | refl => exact exact_empty
    | tail _ step ih => exact step.exact ih
  intro row member
  exact known.history member

/-- A host that is heard, does not answer a scan, and answers the next one. -/
def heardSteps : List (Operation × Env × Nat) :=
  [(.observePassiveActivity 1 (officeAddr 20) none .passive true [], officeEnv, 100),
    (.observeScanResult 1 (officeAddr 20) ⟨false, none, false, none⟩, officeEnv, 200),
    (.observeScanResult 1 (officeAddr 20) ⟨true, none, false, none⟩, officeEnv, 300)]

theorem exactHistory_of_run_office : ∃ store, LifecycleRun Operation.Sighted .empty store ∧
    store.table.rows.map (fun row => (row.info.isOnline, store.edges row.id)) =
      [(true, [true, false, true])] ∧
    ∀ row ∈ store.table.rows, ExactHistory store row := by
  have done : runAll .empty heardSteps = .ok (afterAll .empty heardSteps) :=
    runAll_eq_ok (by decide)
  have run : LifecycleRun Operation.Sighted .empty (afterAll .empty heardSteps) := by
    refine (operationRun_of_runAll done ?_).lifecycle
    intro step member before key
    simp only [heardSteps, List.mem_cons, List.not_mem_nil, or_false] at member
    rcases member with rfl | rfl | rfl <;> exact not_false
  exact ⟨_, run, by decide, exactHistory_of_run run⟩

/-- A neighbor at an address without a row. -/
def neighborSteps : List (Operation × Env × Nat) :=
  [(.observeNeighbor 1 (officeAddr 20) none none true .neighborDiscovery, officeEnv, 100)]

/-- The neighbor is online, and no event says so. -/
theorem neighbor_recorded_online_without_event : ¬ ∀ store, LifecycleRun anyOperation .empty store →
    ∀ row ∈ store.table.rows, ExactHistory store row := by
  intro claim
  have done : runAll .empty neighborSteps = .ok (afterAll .empty neighborSteps) :=
    runAll_eq_ok (by decide)
  have run : LifecycleRun anyOperation .empty (afterAll .empty neighborSteps) :=
    (operationRun_of_runAll done fun _ _ _ => trivial).lifecycle
  have silent : ∃ row ∈ (afterAll .empty neighborSteps).table.rows, row.info.isOnline = true ∧
      (afterAll .empty neighborSteps).edges row.id = [] := by
    decide
  obtain ⟨row, member, online, silent⟩ := silent
  have last := (claim _ run row member).last.mp online
  rw [silent] at last
  exact absurd last (by simp)

end Cidrella
