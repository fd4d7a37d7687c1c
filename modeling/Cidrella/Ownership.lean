import Cidrella.Operations

/-!
# Who owns an address

The ownership invariant of `ip_addresses`: an unassigned row has no owner left on it,
every other state has the source that may own it, and only an unassigned row that is
online is rogue (`Owned`). Every write preserves it, so it holds after every run that
starts from an empty table.
-/

set_option autoImplicit false

namespace Cidrella

/-- Every row's allocation is in order. -/
def AllOwned (store : IpStore) : Prop := ∀ row ∈ store.table.rows, Owned row.info

theorem Write.allOwned {may : Licence} {store after : IpStore} (write : Write may store after)
    (owned : AllOwned store) : AllOwned after := by
  intro row member
  cases write with
  | note table _ =>
    rw [table] at member
    exact owned row member
  | update test change log table _ _ alloc _ =>
    rw [table] at member
    obtain ⟨old, within, rfl⟩ := Table.mem_update.mp member
    by_cases tested : test old = true
    · rw [if_pos tested]
      exact (alloc old within tested).owned (owned old within)
    · rw [if_neg tested]
      exact owned old within
  | insert key info log _ table _ alloc _ =>
    rcases (Table.mem_insert table).mp member with within | rfl
    · exact owned row within
    · exact alloc.owned owned_blank
  | delete test table =>
    rw [table] at member
    exact owned row (Table.mem_delete.mp member).1

theorem LifecycleStep.allOwned {meets : Operation → Db → Nat → Prop} {store after : IpStore}
    (step : LifecycleStep meets store after) (owned : AllOwned store) : AllOwned after := by
  cases step with
  | operation step =>
    obtain ⟨op, env, now, next, met, done, rfl⟩ := step
    exact (Operation.run_writes done).2.invariant (fun _ _ write => write.allOwned) owned
  | move env id addr targetSubnetId done =>
    intro row member
    obtain ⟨old, within, -, same⟩ := (moveToSubnet_cases done).2.2 row member
    exact same ▸ owned old within

/-- **Ownership.** After any run of the lifecycle from an empty table, the allocation of
every row is in order. -/
theorem allOwned_of_run {store : IpStore} (run : LifecycleRun anyOperation .empty store) :
    ∀ row ∈ store.table.rows, Owned row.info := by
  have owned : AllOwned store := by
    induction run with
    | refl =>
      intro row member
      exact absurd member (by simp [IpStore.empty, Table.empty])
    | tail _ step ih => exact step.allOwned ih
  exact owned

/-- A record, a stray host and an operator's reservation. -/
def officeSteps : List (Operation × Env × Nat) :=
  [(.allocateStaticDns "www".toList (officeAddr 10) "lan".toList (some 7), officeEnv, 100),
    (.observePassiveActivity 1 (officeAddr 20) none .passive true [], officeEnv, 101),
    (.setManualReservation 1 (officeAddr 30) true none, officeEnv, 102)]

theorem allOwned_of_run_office : ∃ store, LifecycleRun anyOperation .empty store ∧
    store.table.rows.map (fun row => (row.info.allocationState, row.info.isRogue)) =
      [(.staticDns, false), (.unassigned, true), (.reserved, false)] ∧
    ∀ row ∈ store.table.rows, Owned row.info := by
  have done : runAll .empty officeSteps = .ok (afterAll .empty officeSteps) :=
    runAll_eq_ok (by decide)
  have run : LifecycleRun anyOperation .empty (afterAll .empty officeSteps) :=
    (operationRun_of_runAll done fun _ _ _ => trivial).lifecycle
  exact ⟨_, run, by decide, allOwned_of_run run⟩

end Cidrella
