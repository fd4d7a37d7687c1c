import Cidrella.Operations

/-!
# Retirement and concurrent claims

`retireStaleDynamicAddresses` selects its candidates in one transaction, awaits the
backend, and retires the eligible ones in a second. Between the two any operation may
commit. The second transaction trusts the snapshot: it checks the allocation of a
candidate that was selected as leased or self-assigned, finds the row to clear by id, and
looks at neither its liveness nor, for a candidate selected as unassigned, its allocation.

`claims_kept_iff` says for every run exactly when that keeps what was claimed meanwhile.
-/

set_option autoImplicit false

namespace Cidrella

/-! ## Keys and identity along a run -/

/-- Every key is one that `canonicalIdentity` gives. -/
def KeysCanonical (store : IpStore) : Prop := ∀ row ∈ store.table.rows, CanonicalKey row.key

theorem Write.keysCanonical {may : Licence} {store after : IpStore} (write : Write may store after)
    (canonical : KeysCanonical store) : KeysCanonical after := by
  intro row member
  cases write with
  | note table _ =>
    rw [table] at member
    exact canonical row member
  | update test change log table =>
    rw [table] at member
    obtain ⟨old, within, rfl⟩ := Table.mem_update.mp member
    by_cases tested : test old = true
    · rw [if_pos tested]
      exact canonical old within
    · rw [if_neg tested]
      exact canonical old within
  | insert key info log given table =>
    rcases (Table.mem_insert table).mp member with within | rfl
    · exact canonical row within
    · exact given
  | delete test table =>
    rw [table] at member
    exact canonical row (Table.mem_delete.mp member).1

theorem keysCanonical_of_run {meets : Operation → Db → Nat → Prop} {store : IpStore}
    (run : OperationRun meets .empty store) : KeysCanonical store := by
  induction run with
  | refl =>
    intro row member
    exact absurd member (by simp [IpStore.empty, Table.empty])
  | tail _ step ih =>
    obtain ⟨op, env, now, next, met, done, rfl⟩ := step
    exact (Operation.run_writes done).2.invariant (fun _ _ write => write.keysCanonical) ih

theorem OperationRun.identity {meets : Operation → Db → Nat → Prop} {store after : IpStore}
    (run : OperationRun meets store after) : store.table.nextId ≤ after.table.nextId ∧
      ∀ row ∈ after.table.rows, row.id < store.table.nextId →
        ∃ old ∈ store.table.rows, old.id = row.id ∧ old.key = row.key := by
  induction run with
  | refl => exact ⟨le_rfl, fun row member _ => ⟨row, member, rfl, rfl⟩⟩
  | tail _ step ih =>
    obtain ⟨op, env, now, next, met, done, rfl⟩ := step
    obtain ⟨bound, same⟩ := (Operation.run_writes done).2.identity
    refine ⟨ih.1.trans bound, ?_⟩
    intro row member old
    obtain ⟨before, within, sameId, sameKey⟩ := same row member (lt_of_lt_of_le old ih.1)
    obtain ⟨first, there, firstId, firstKey⟩ := ih.2 before within (sameId ▸ old)
    exact ⟨first, there, firstId.trans sameId, firstKey.trans sameKey⟩

/-! ## The second transaction -/

/-- The second transaction, which rolls back when it throws. -/
def Db.retirementOutcome (db : Db) (now : Nat) (eligible : List IpRow) : Db :=
  match db.finishRetirement now eligible with
  | .ok next => next
  | .error _ => db

/-- The source that selected the candidate may not release an address in this state. -/
def Blocks (candidate : IpRow) (state : AllocationState) : Bool :=
  match candidate.info.allocationState with
  | .dynamicDhcp => state ≠ .unassigned && state ≠ .dynamicDhcp
  | .slaac => state ≠ .unassigned && state ≠ .slaac
  | _ => false

theorem assertRetirable_ok_iff {db : Db} {candidate : IpRow}
    (canonical : CanonicalKey candidate.key) :
    db.assertRetirable candidate = .ok () ↔
      Blocks candidate (IpStore.stateOf (db.store.table.lookup candidate.key)) = false := by
  unfold Db.assertRetirable Blocks
  cases candidate.info.allocationState with
  | dynamicDhcp =>
    refine (assertRelease_ok_iff canonical).trans ?_
    cases IpStore.stateOf (db.store.table.lookup candidate.key) <;> decide
  | slaac =>
    refine (assertRelease_ok_iff canonical).trans ?_
    cases IpStore.stateOf (db.store.table.lookup candidate.key) <;> decide
  | _ => simp

theorem blocks_unassigned (candidate : IpRow) : Blocks candidate .unassigned = false := by
  unfold Blocks
  split <;> rfl

theorem mem_retired {store : IpStore} {candidate row : IpRow} (member : row ∈ store.table.rows) :
    (if row.id = candidate.id then { row with info := IpStore.retiredInfo row.info } else row) ∈
      (store.retireLearnedMetadata candidate).table.rows := by
  rw [retireLearnedMetadata_table]
  refine Table.mem_update.mpr ⟨row, member, ?_⟩
  by_cases same : row.id = candidate.id
  · simp [same]
  · simp [same]

theorem stateOf_retired (store : IpStore) (candidate : IpRow) (key : IpKey) :
    IpStore.stateOf ((store.retireLearnedMetadata candidate).table.lookup key) =
        IpStore.stateOf (store.table.lookup key) ∨
      IpStore.stateOf ((store.retireLearnedMetadata candidate).table.lookup key) = .unassigned := by
  rw [retireLearnedMetadata_table, Table.lookup_update]
  cases store.table.lookup key with
  | none => exact .inl rfl
  | some row =>
    by_cases same : row.id = candidate.id
    · refine .inr ?_
      simp [IpStore.stateOf, same, IpStore.retiredInfo]
    · refine .inl ?_
      simp [IpStore.stateOf, same]

theorem retireAddress_ok {db : Db} {candidate : IpRow} (canonical : CanonicalKey candidate.key)
    (free : Blocks candidate (IpStore.stateOf (db.store.table.lookup candidate.key)) = false) :
    db.retireAddress candidate =
      .ok ⟨db.env.deleteLeasesByAddress candidate.key.subnetId candidate.key.addr,
        db.store.retireLearnedMetadata candidate⟩ :=
  bind_eq_ok.mpr ⟨(), (assertRetirable_ok_iff canonical).mpr free, rfl⟩

/-- When nothing blocks a candidate, the loop succeeds and clears exactly their rows. -/
theorem retireAll_ok {eligible : List IpRow} (canonical : ∀ row ∈ eligible, CanonicalKey row.key)
    (db : Db) (free : ∀ candidate ∈ eligible,
      Blocks candidate (IpStore.stateOf (db.store.table.lookup candidate.key)) = false) :
    ∃ next, eligible.foldlM (fun db row => db.retireAddress row) db = .ok next ∧
      ∀ row ∈ db.store.table.rows,
        (if ∃ candidate ∈ eligible, candidate.id = row.id
          then { row with info := IpStore.retiredInfo row.info } else row) ∈
              next.store.table.rows := by
  induction eligible generalizing db with
  | nil => exact ⟨db, rfl, fun row member => by simpa using member⟩
  | cons candidate rest ih =>
    have first := retireAddress_ok (canonical candidate List.mem_cons_self)
      (free candidate List.mem_cons_self)
    have later : ∀ other ∈ rest, Blocks other (IpStore.stateOf
        ((db.store.retireLearnedMetadata candidate).table.lookup other.key)) = false := by
      intro other member
      rcases stateOf_retired db.store candidate other.key with same | released
      · rw [same]
        exact free other (List.mem_cons_of_mem _ member)
      · rw [released]
        exact blocks_unassigned other
    obtain ⟨next, done, rows⟩ :=
      ih (fun row member => canonical row (List.mem_cons_of_mem _ member)) ⟨_, _⟩ later
    refine ⟨next, ?_, ?_⟩
    · rw [List.foldlM_cons]
      exact bind_eq_ok.mpr ⟨_, first, done⟩
    · intro row member
      have there := rows _ (mem_retired member)
      by_cases same : row.id = candidate.id
      · have chosen : ∃ other ∈ candidate :: rest, other.id = row.id :=
          ⟨candidate, List.mem_cons_self, same.symm⟩
        rw [if_pos same] at there
        rw [if_pos chosen]
        split_ifs at there
        · exact there
        · exact there
      · rw [if_neg same] at there
        have step : (∃ other ∈ candidate :: rest, other.id = row.id) ↔
            ∃ other ∈ rest, other.id = row.id := by
          simp [Ne.symm same]
        rw [if_congr step rfl rfl]
        exact there

theorem retireAll_error {eligible : List IpRow} (canonical : ∀ row ∈ eligible, CanonicalKey row.key)
    (db : Db) {blocked row : IpRow} (member : blocked ∈ eligible)
    (found : db.store.table.lookup blocked.key = some row)
    (blocks : Blocks blocked row.info.allocationState = true)
    (alone : ∀ candidate ∈ eligible, candidate.id = row.id → candidate = blocked) :
    ∃ failure, eligible.foldlM (fun db row => db.retireAddress row) db = .error failure := by
  induction eligible generalizing db with
  | nil => exact absurd member (by simp)
  | cons candidate rest ih =>
    rw [List.foldlM_cons]
    cases first : db.retireAddress candidate with
    | error failure => exact ⟨failure, rfl⟩
    | ok next =>
      obtain ⟨_, checked, same⟩ := bind_eq_ok.mp first
      obtain rfl := Except.ok.inj same
      have differs : candidate ≠ blocked := by
        rintro rfl
        have free := (assertRetirable_ok_iff (canonical candidate List.mem_cons_self)).mp checked
        rw [found] at free
        exact absurd (free.symm.trans blocks) (by decide)
      have within : blocked ∈ rest := by
        rcases List.mem_cons.mp member with same | within
        · exact absurd same.symm differs
        · exact within
      refine ih (fun row member => canonical row (List.mem_cons_of_mem _ member)) _ within ?_
        fun other member => alone other (List.mem_cons_of_mem _ member)
      have untouched : row.id ≠ candidate.id :=
        fun same => differs (alone candidate List.mem_cons_self same.symm)
      rw [retireLearnedMetadata_table, Table.lookup_update, found]
      simp [untouched]

/-! ## What was claimed in between -/

/-- The address is in use: its host is up, or an operator or topology declared it. -/
def Claimed (row : IpRow) : Prop :=
  row.info.isOnline = true ∨ isAdminDeclared row.info.allocationState = true

instance (row : IpRow) : Decidable (Claimed row) := inferInstanceAs (Decidable (_ ∨ _))

/-- The row still has the allocation, the owner, the hostname and the MAC it had. -/
def KeepsClaim (row : IpRow) (store : IpStore) : Prop :=
  ∃ kept ∈ store.table.rows, kept.id = row.id ∧
    kept.info.allocationState = row.info.allocationState ∧
    kept.info.allocationSourceType = row.info.allocationSourceType ∧
    kept.info.allocationSourceId = row.info.allocationSourceId ∧
    kept.info.hostname = row.info.hostname ∧ kept.info.macAddress = row.info.macAddress

instance (row : IpRow) (store : IpStore) : Decidable (KeepsClaim row store) :=
  inferInstanceAs (Decidable (∃ kept ∈ store.table.rows, _))

/-- There is nothing on the row that retirement clears. -/
def NothingToLose (info : IpInfo) : Prop :=
  info.allocationState = .unassigned ∧ info.allocationSourceType = none ∧
    info.allocationSourceId = none ∧ info.hostname = none ∧ info.macAddress = none

instance (info : IpInfo) : Decidable (NothingToLose info) := inferInstanceAs (Decidable (_ ∧ _))

/-- A candidate is no longer what it was selected as, so that its source may not release
it; or no candidate's row has been claimed with something to lose. -/
def RetirementSafe (store : IpStore) (eligible : List IpRow) : Prop :=
  (∃ candidate ∈ eligible,
    Blocks candidate (IpStore.stateOf (store.table.lookup candidate.key)) = true) ∨
  ∀ candidate ∈ eligible, ∀ row ∈ store.table.rows, row.id = candidate.id → Claimed row →
    NothingToLose row.info

instance (store : IpStore) (eligible : List IpRow) : Decidable (RetirementSafe store eligible) :=
  inferInstanceAs (Decidable (_ ∨ _))

theorem keepsClaim_retired_iff {store : IpStore} {row : IpRow}
    (there : { row with info := IpStore.retiredInfo row.info } ∈ store.table.rows) :
    KeepsClaim row store ↔ NothingToLose row.info := by
  constructor
  · rintro ⟨kept, member, sameId, state, sourceType, sourceId, hostname, mac⟩
    obtain rfl := store.table.eq_of_id_eq member there sameId
    exact ⟨state.symm, sourceType.symm, sourceId.symm, hostname.symm, mac.symm⟩
  · rintro ⟨state, sourceType, sourceId, hostname, mac⟩
    exact ⟨_, there, rfl, state.symm, sourceType.symm, sourceId.symm, hostname.symm, mac.symm⟩

theorem mem_of_candidate {db : Db} {now limit : Nat} {candidate : IpRow}
    (selected : candidate ∈ (db.beginRetirement now limit).2) :
    candidate ∈ (db.beginRetirement now limit).1.store.table.rows := by
  have within := List.mem_of_mem_take selected
  rw [List.mem_mergeSort] at within
  exact List.mem_of_mem_filter within

/-- The second transaction after it has swept the records without rows. -/
def Db.swept (db : Db) (now : Nat) : Db :=
  ⟨(db.rowlessRecordAddresses (now - Db.offlineRetirement)).foldl
    (fun env addr => env.deleteDynamicDhcpRecords none addr) db.env, db.store⟩

theorem retirementOutcome_of_ok {db next : Db} {now : Nat} {eligible : List IpRow}
    (done : eligible.foldlM (fun db row => db.retireAddress row) (db.swept now) = .ok next) :
    (db.retirementOutcome now eligible).store = next.store := by
  have finished : db.finishRetirement now eligible = .ok ⟨eligible.foldl (fun env row =>
      env.deleteDynamicDhcpRecords (some row.key.subnetId) row.key.addr) next.env, next.store⟩ :=
    bind_eq_ok.mpr ⟨next, done, rfl⟩
  rw [Db.retirementOutcome, finished]

theorem retirementOutcome_of_error {db : Db} {now : Nat} {eligible : List IpRow} {failure : Failure}
    (thrown : eligible.foldlM (fun db row => db.retireAddress row)
    (db.swept now) = .error failure) :
    db.retirementOutcome now eligible = db := by
  have failed : db.finishRetirement now eligible = .error failure := by
    unfold Db.finishRetirement
    change (eligible.foldlM (fun db row => db.retireAddress row) (db.swept now) >>= _) = _
    rw [thrown]
    rfl
  rw [Db.retirementOutcome, failed]

theorem keepsClaim_of_mem {store : IpStore} {row : IpRow} (member : row ∈ store.table.rows) :
    KeepsClaim row store :=
  ⟨row, member, rfl, rfl, rfl, rfl, rfl, rfl⟩

/-- **Retirement and concurrent claims.** For every run up to the selection, every run in
the gap and all candidates the backend let go, the second transaction keeps every claim
exactly when it is safe. -/
theorem claims_kept_iff {store gap : IpStore} {env later : Env} {now limit : Nat}
    {eligible : List IpRow} (before : OperationRun anyOperation .empty store)
    (between : OperationRun anyOperation
      (Db.beginRetirement ⟨env, store⟩ now limit).1.store gap)
    (selected : eligible ⊆ (Db.beginRetirement ⟨env, store⟩ now limit).2) :
    (∀ row ∈ gap.table.rows, Claimed row →
      KeepsClaim row (Db.retirementOutcome ⟨later, gap⟩ now eligible).store) ↔
    RetirementSafe gap eligible := by
  have started : KeysCanonical (Db.beginRetirement ⟨env, store⟩ now limit).1.store := by
    refine keysCanonical_of_run (before.tail ?_)
    exact .commit (.beginRetirement limit) env now _ trivial rfl rfl
  have canonical : ∀ row ∈ eligible, CanonicalKey row.key :=
    fun row member => started row (mem_of_candidate (selected member))
  -- a candidate that is blocked rolls the transaction back
  have rollback : ∀ candidate ∈ eligible,
      Blocks candidate (IpStore.stateOf (gap.table.lookup candidate.key)) = true →
      Db.retirementOutcome ⟨later, gap⟩ now eligible = ⟨later, gap⟩ := by
    intro candidate member blocks
    cases found : gap.table.lookup candidate.key with
    | none =>
      rw [found] at blocks
      exact absurd ((blocks_unassigned candidate).symm.trans blocks) (by decide)
    | some row =>
      rw [found] at blocks
      obtain ⟨there, keyed⟩ := Table.lookup_eq_some.mp found
      have alone : ∀ other ∈ eligible, other.id = row.id → other = candidate := by
        intro other chosen sameId
        have listed := mem_of_candidate (selected chosen)
        obtain ⟨old, within, oldId, oldKey⟩ := between.identity.2 row there
          (sameId ▸ Table.fresh _ other listed)
        obtain rfl := Table.eq_of_id_eq _ within listed (oldId.trans sameId.symm)
        exact Table.eq_of_key_eq _ listed (mem_of_candidate (selected member)) (oldKey.trans keyed)
      obtain ⟨failure, thrown⟩ :=
        retireAll_error canonical (Db.swept ⟨later, gap⟩ now) member found blocks alone
      exact retirementOutcome_of_error thrown
  by_cases some : ∃ candidate ∈ eligible,
      Blocks candidate (IpStore.stateOf (gap.table.lookup candidate.key)) = true
  · obtain ⟨candidate, member, blocks⟩ := some
    rw [rollback candidate member blocks]
    exact ⟨fun _ => .inl ⟨candidate, member, blocks⟩, fun _ row there _ => keepsClaim_of_mem there⟩
  · have free : ∀ candidate ∈ eligible,
        Blocks candidate (IpStore.stateOf (gap.table.lookup candidate.key)) = false := by
      intro candidate member
      by_contra blocked
      exact some ⟨candidate, member, by simpa using blocked⟩
    obtain ⟨next, done, rows⟩ := retireAll_ok canonical (Db.swept ⟨later, gap⟩ now) free
    rw [retirementOutcome_of_ok done]
    constructor
    · intro kept
      refine .inr fun candidate member row there same claimed => ?_
      have retired := rows row there
      rw [if_pos ⟨candidate, member, same.symm⟩] at retired
      exact (keepsClaim_retired_iff retired).mp (kept row there claimed)
    · intro safe row there claimed
      have quiet := safe.resolve_left some
      have after := rows row there
      by_cases chosen : ∃ candidate ∈ eligible, candidate.id = row.id
      · rw [if_pos chosen] at after
        obtain ⟨candidate, member, same⟩ := chosen
        exact (keepsClaim_retired_iff after).mpr
          (quiet candidate member row there same.symm claimed)
      · rw [if_neg chosen] at after
        exact keepsClaim_of_mem after

/-- A stray host that has been silent for more than an hour. -/
def silentSteps : List (Operation × Env × Nat) :=
  [(.observePassiveActivity 1 (officeAddr 20) none .passive true [], officeEnv, 100),
    (.markOffline 1 (officeAddr 20), officeEnv, 200)]

/-- The silent host's row, selected at a later time. -/
def silentSelection : Db × List IpRow :=
  Db.beginRetirement ⟨officeEnv, afterAll .empty silentSteps⟩ 4000 500

theorem silent_selected : OperationRun anyOperation .empty (afterAll .empty silentSteps) :=
  operationRun_of_runAll (runAll_eq_ok (by decide)) fun _ _ _ => trivial

/-- While the backend is awaited an operator reserves another address. -/
def reservedMeanwhile : IpStore :=
  afterAll silentSelection.1.store
    [(.setManualReservation 1 (officeAddr 30) true none, officeEnv, 4001)]

theorem claims_kept_iff_office : silentSelection.2.length = 1 ∧
    (∃ row ∈ reservedMeanwhile.table.rows, Claimed row) ∧
    ∀ row ∈ reservedMeanwhile.table.rows, Claimed row →
      KeepsClaim row
        (Db.retirementOutcome ⟨officeEnv, reservedMeanwhile⟩ 4000 silentSelection.2).store := by
  have between : OperationRun anyOperation silentSelection.1.store reservedMeanwhile :=
    operationRun_of_runAll (runAll_eq_ok (by decide)) fun _ _ _ => trivial
  refine ⟨by decide +kernel, by decide +kernel, ?_⟩
  exact (claims_kept_iff silent_selected between (List.Subset.refl _)).mpr (by decide +kernel)

/-- While the backend is awaited a record takes the silent host's address. -/
def namedMeanwhile : IpStore :=
  afterAll silentSelection.1.store
    [(.allocateStaticDns "www".toList (officeAddr 20) "lan".toList (some 7), officeEnv, 4001)]

/-- The record's claim is cleared with the rest of the row. -/
theorem concurrent_dns_claim_lost : ¬ ∀ (store gap : IpStore) (env later : Env) (now limit : Nat)
    (eligible : List IpRow), OperationRun anyOperation .empty store →
    OperationRun anyOperation (Db.beginRetirement ⟨env, store⟩ now limit).1.store gap →
    eligible ⊆ (Db.beginRetirement ⟨env, store⟩ now limit).2 →
    ∀ row ∈ gap.table.rows, Claimed row →
      KeepsClaim row (Db.retirementOutcome ⟨later, gap⟩ now eligible).store := by
  intro claim
  have between : OperationRun anyOperation silentSelection.1.store namedMeanwhile :=
    operationRun_of_runAll (runAll_eq_ok (by decide)) fun _ _ _ => trivial
  have kept := claim _ _ officeEnv officeEnv 4000 500 silentSelection.2 silent_selected between
    (List.Subset.refl _)
  have lost : ¬ ∀ row ∈ namedMeanwhile.table.rows, Claimed row →
      KeepsClaim row
        (Db.retirementOutcome ⟨officeEnv, namedMeanwhile⟩ 4000 silentSelection.2).store := by
    decide +kernel
  exact lost kept

end Cidrella
