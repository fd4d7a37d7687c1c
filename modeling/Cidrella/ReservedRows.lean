import Cidrella.Operations

/-!
# The rows reservations own

For each key of the address table, the reservation its `static_dhcp` row belongs to
(`IpStore.reservedBy`). Metadata leaves it alone, and a change of allocation replaces it at
one key (`reservedBy_setCanonicalAllocation`). The other claims on an address are refused
where a reservation owns it, so the operations that make them leave it alone too.
-/

set_option autoImplicit false

namespace Cidrella

/-- The source of a row in `static_dhcp`. -/
def staticSource (row : IpRow) : Option (Option Nat) :=
  if row.info.allocationState = .staticDhcp then some row.info.allocationSourceId else none

/-- The source of the `static_dhcp` row of each key. -/
def IpStore.reservedBy (store : IpStore) (key : IpKey) : Option (Option Nat) :=
  (store.table.lookup key).bind staticSource

theorem reservedBy_eq_none_iff {store : IpStore} {key : IpKey} :
    store.reservedBy key = none ↔ IpStore.stateOf (store.table.lookup key) ≠ .staticDhcp := by
  unfold IpStore.reservedBy IpStore.stateOf
  cases store.table.lookup key with
  | none => simp
  | some row => simp [staticSource]

theorem reservedBy_eq_some_iff {store : IpStore} {key : IpKey} {source : Option Nat} :
    store.reservedBy key = some source ↔ ∃ row ∈ store.table.rows, row.key = key ∧
      row.info.allocationState = .staticDhcp ∧ row.info.allocationSourceId = source := by
  constructor
  · intro found
    obtain ⟨row, looked, isStatic⟩ := Option.bind_eq_some_iff.mp found
    obtain ⟨member, same⟩ := Table.lookup_eq_some.mp looked
    unfold staticSource at isStatic
    split at isStatic
    · rename_i state
      exact ⟨row, member, same, state, Option.some.inj isStatic⟩
    · cases isStatic
  · rintro ⟨row, member, same, state, isSource⟩
    rw [IpStore.reservedBy, Table.lookup_eq_some.mpr ⟨member, same⟩, Option.bind_some, staticSource,
      if_pos state, isSource]

/-! ## Writes to the table -/

section Tables

variable {store after : IpStore}

theorem reservedBy_of_table (same : after.table = store.table) :
    after.reservedBy = store.reservedBy := by
  funext key
  rw [IpStore.reservedBy, same]
  rfl

theorem reservedBy_of_update {test : IpRow → Bool} {change : IpRow → IpInfo}
    (table : after.table = store.table.update test change)
    (kept : ∀ row ∈ store.table.rows, test row = true →
      staticSource { row with info := change row } = staticSource row) :
    after.reservedBy = store.reservedBy := by
  funext key
  rw [IpStore.reservedBy, IpStore.reservedBy, table, Table.lookup_update]
  cases found : store.table.lookup key with
  | none => rfl
  | some row =>
    rw [Option.map_some, Option.bind_some, Option.bind_some]
    split
    · rename_i tested
      exact kept row (Table.lookup_eq_some.mp found).1 tested
    · rfl

theorem reservedBy_of_delete {test : IpRow → Bool} (table : after.table = store.table.delete test)
    (other : ∀ row ∈ store.table.rows, test row = true → staticSource row = none) :
    after.reservedBy = store.reservedBy := by
  funext key
  rw [IpStore.reservedBy, IpStore.reservedBy, table, Table.lookup_delete]
  cases found : store.table.lookup key with
  | none => rfl
  | some row =>
    by_cases tested : test row = true
    · rw [Option.filter_some, tested, Option.bind_some,
        other row (Table.lookup_eq_some.mp found).1 tested]
      rfl
    · rw [Option.filter_some, Bool.eq_false_iff.mpr tested]
      rfl

end Tables

section Upserts

variable {store after : IpStore} {env : Env} {now subnetId id : Nat} {ip : ScopedAddr}
    {fields : Fields}

theorem reservedBy_upsert (done : store.upsert env now subnetId ip fields = .ok (after, id))
    (state : fields.allocationState = none) (source : fields.allocationSourceId = none) :
    after.reservedBy = store.reservedBy := by
  obtain ⟨key, -, ⟨row, -, -, rfl⟩ | ⟨absent, -, table, inserted, rfl⟩⟩ := upsert_cases done
  · refine (reservedBy_of_table (IpStore.emitAll_table ..)).trans (reservedBy_of_update rfl ?_)
    intro row _ _
    simp only [staticSource, Fields.apply, state, source, Option.getD_none]
  · refine (reservedBy_of_table (IpStore.emitAll_table ..)).trans ?_
    funext other
    rw [IpStore.reservedBy, Table.lookup_insert inserted]
    split
    · rename_i same
      rw [same, IpStore.reservedBy, absent, Option.bind_some, staticSource, Fields.initial, state]
      rfl
    · rfl

/-- **A change of allocation decides one key.** -/
theorem reservedBy_setCanonicalAllocation {state : AllocationState}
    {sourceType : Option LifecycleSource} {sourceId : Option Nat}
    (done : store.setCanonicalAllocation env now subnetId ip state sourceType sourceId
    fields = .ok after) :
    ∃ key, identityKey subnetId ip = .ok key ∧ after.reservedBy =
      Function.update store.reservedBy key (if state = .staticDhcp then some sourceId
      else none) := by
  obtain ⟨⟨reached, id⟩, upserted, same⟩ := bind_eq_ok.mp done
  obtain rfl := Except.ok.inj same
  obtain ⟨key, found, ⟨row, existing, -, rfl⟩ | ⟨absent, -, table, inserted, rfl⟩⟩ :=
    upsert_cases upserted
  · refine ⟨key, found, (reservedBy_of_table (IpStore.emitAll_table ..)).trans ?_⟩
    funext other
    rw [IpStore.reservedBy, IpStore.setInfo, Table.lookup_update]
    by_cases here : other = key
    · subst here
      rw [existing, Function.update_self]
      simp [staticSource, Fields.apply]
    · rw [Function.update_of_ne here, IpStore.reservedBy]
      cases looked : store.table.lookup other with
      | none => rfl
      | some entry =>
        have differs : entry.id ≠ row.id := by
          intro sameId
          obtain ⟨memberEntry, keyEntry⟩ := Table.lookup_eq_some.mp looked
          obtain ⟨memberRow, keyRow⟩ := Table.lookup_eq_some.mp existing
          obtain rfl := store.table.eq_of_id_eq memberEntry memberRow sameId
          exact here (keyEntry.symm.trans keyRow)
        simp [differs]
  · refine ⟨key, found, (reservedBy_of_table (IpStore.emitAll_table ..)).trans ?_⟩
    funext other
    rw [IpStore.reservedBy, Table.lookup_insert inserted]
    by_cases here : other = key
    · rw [if_pos here, here, Function.update_self]
      rfl
    · rw [if_neg here, Function.update_of_ne here]
      rfl

theorem reservedBy_setCanonicalAllocation_of_free {state : AllocationState}
    {sourceType : Option LifecycleSource} {sourceId : Option Nat}
    (done : store.setCanonicalAllocation env now subnetId ip state sourceType sourceId
    fields = .ok after) (other : state ≠ .staticDhcp)
    (free : ∀ key, identityKey subnetId ip = .ok key → store.reservedBy key = none) :
    after.reservedBy = store.reservedBy := by
  obtain ⟨key, found, changed⟩ := reservedBy_setCanonicalAllocation done
  rw [changed, if_neg other, ← free key found, Function.update_eq_self]

end Upserts

/-! ## Metadata -/

section Metadata

variable {store after : IpStore} {env : Env} {now subnetId : Nat} {addr : Addr}

theorem reservedBy_clearRogue : (store.clearRogue subnetId addr).reservedBy = store.reservedBy := by
  unfold IpStore.clearRogue
  split
  · rfl
  · split
    · rfl
    · exact reservedBy_of_update rfl fun _ _ _ => rfl

theorem reservedBy_emitEvent (type : EventType) :
    (store.emitEvent subnetId addr type).reservedBy = store.reservedBy := by
  unfold IpStore.emitEvent
  split
  · exact reservedBy_of_table rfl
  · rfl

theorem reservedBy_recordEvent {ip : ScopedAddr} {type : EventType}
    (done : store.recordEvent subnetId ip type = .ok after) :
    after.reservedBy = store.reservedBy := by
  obtain ⟨key, -, same⟩ := bind_eq_ok.mp done
  obtain rfl := Except.ok.inj same
  exact reservedBy_of_table rfl

theorem reservedBy_deleteById {key : IpKey} {row : IpRow}
    (found : store.table.lookup key = some row) :
    (store.deleteById row.id).reservedBy = Function.update store.reservedBy key none := by
  funext other
  rw [IpStore.reservedBy, IpStore.deleteById, Table.lookup_delete]
  by_cases here : other = key
  · rw [here, found, Function.update_self]
    simp
  · rw [Function.update_of_ne here, IpStore.reservedBy]
    cases looked : store.table.lookup other with
    | none => rfl
    | some entry =>
      have differs : entry.id ≠ row.id := by
        intro sameId
        obtain ⟨memberEntry, keyEntry⟩ := Table.lookup_eq_some.mp looked
        obtain ⟨memberRow, keyRow⟩ := Table.lookup_eq_some.mp found
        obtain rfl := store.table.eq_of_id_eq memberEntry memberRow sameId
        exact here (keyEntry.symm.trans keyRow)
      rw [Option.filter_some, if_pos (by simpa using differs)]

theorem reservedBy_removeOtherRowsForMac {mac : Option Text} :
    (store.removeOtherRowsForMac env now subnetId addr mac).reservedBy = store.reservedBy := by
  unfold IpStore.removeOtherRowsForMac
  split
  · rfl
  · refine reservedBy_of_delete rfl fun row _ tested => ?_
    simp only [Bool.and_eq_true, decide_eq_true_eq] at tested
    rw [staticSource, tested.1.1.2]
    rfl

theorem reservedBy_syncCanonicalHostname {clearSource : Bool}
    (done : store.syncCanonicalHostname env now subnetId addr clearSource = .ok after) :
    after.reservedBy = store.reservedBy := by
  obtain ⟨⟨reached, id⟩, upserted, same⟩ := bind_eq_ok.mp done
  obtain rfl := Except.ok.inj same
  exact reservedBy_upsert upserted rfl rfl

theorem reservedBy_syncDnsToIp {recordName zoneName : Text}
    (done : store.syncDnsToIp env now recordName addr zoneName = .ok after) :
    after.reservedBy = store.reservedBy := by
  unfold IpStore.syncDnsToIp at done
  split at done
  · obtain rfl := Except.ok.inj done
    rfl
  · obtain ⟨⟨named, id⟩, upserted, same⟩ := bind_eq_ok.mp done
    obtain rfl := Except.ok.inj same
    exact (reservedBy_emitEvent _).trans
      (reservedBy_clearRogue.trans (reservedBy_upsert upserted rfl rfl))

theorem reservedBy_clearDnsFromIp {recordName zoneName : Text}
    (done : store.clearDnsFromIp env now recordName addr zoneName = .ok after) :
    after.reservedBy = store.reservedBy := by
  unfold IpStore.clearDnsFromIp at done
  split at done
  · obtain rfl := Except.ok.inj done
    rfl
  · obtain ⟨existing, -, done⟩ := bind_eq_ok.mp done
    split at done
    · obtain ⟨synced, renamed, same⟩ := bind_eq_ok.mp done
      obtain rfl := Except.ok.inj same
      exact (reservedBy_emitEvent _).trans (reservedBy_syncCanonicalHostname renamed)
    · obtain rfl := Except.ok.inj done
      rfl

theorem reservedBy_syncDhcpReservationToIp {given : IpStore.ReservationFields}
    (done : store.syncDhcpReservationToIp env now subnetId addr given = .ok after) :
    after.reservedBy = store.reservedBy := by
  obtain ⟨⟨named, id⟩, upserted, same⟩ := bind_eq_ok.mp done
  obtain rfl := Except.ok.inj same
  exact reservedBy_clearRogue.trans (reservedBy_upsert upserted rfl rfl)

/-- A row that only the reservation wrote goes; any other keeps its state for now. -/
theorem reservedBy_clearDhcpReservationFromIp {macAddress : Option Text}
    (done : store.clearDhcpReservationFromIp env now subnetId addr macAddress = .ok after) :
    after.reservedBy = store.reservedBy ∨
      after.reservedBy = Function.update store.reservedBy ⟨subnetId, addr, none⟩ none := by
  obtain ⟨existing, looked, done⟩ := bind_eq_ok.mp done
  obtain ⟨key, identified, rfl⟩ := findBySubnetAndIp_eq_ok looked
  obtain rfl := identityKey_addr identified
  cases found : store.table.lookup ⟨subnetId, addr, none⟩ with
  | none =>
    rw [found] at done
    obtain rfl := Except.ok.inj done
    exact .inl rfl
  | some row =>
    rw [found] at done
    dsimp only at done
    split at done
    · split at done
      · obtain ⟨⟨leased, id⟩, upserted, synced⟩ := bind_eq_ok.mp done
        exact .inl ((reservedBy_syncCanonicalHostname synced).trans
          (reservedBy_upsert upserted rfl rfl))
      · split at done
        · obtain ⟨⟨named, id⟩, upserted, same⟩ := bind_eq_ok.mp done
          obtain rfl := Except.ok.inj same
          exact .inl (reservedBy_upsert upserted rfl rfl)
        · obtain rfl := Except.ok.inj done
          exact .inr (reservedBy_deleteById found)
    · obtain ⟨⟨cleared, id⟩, upserted, same⟩ := bind_eq_ok.mp done
      obtain rfl := Except.ok.inj same
      exact .inl (reservedBy_upsert upserted rfl rfl)

theorem reservedBy_syncLeaseToIp {lease : IpStore.ObservedLease}
    (done : store.syncLeaseToIp env now lease = .ok after) :
    after.reservedBy = store.reservedBy := by
  unfold IpStore.syncLeaseToIp at done
  split at done
  · obtain rfl := Except.ok.inj done
    rfl
  · rename_i subnetId given
    obtain ⟨before, -, done⟩ := bind_eq_ok.mp done
    obtain ⟨⟨leased, id⟩, upserted, done⟩ := bind_eq_ok.mp done
    have leasedSame := (reservedBy_upsert upserted rfl rfl).trans reservedBy_removeOtherRowsForMac
    have rest : ∀ synced : IpStore, synced.reservedBy = leased.reservedBy →
        after = (if lease.newLease then
          (synced.clearRogue subnetId lease.addr).emitEvent subnetId lease.addr .leaseObtained
          else synced.clearRogue subnetId lease.addr) → after.reservedBy = store.reservedBy := by
      intro synced renamed same
      rw [same]
      split
      · exact (reservedBy_emitEvent _).trans
          (reservedBy_clearRogue.trans (renamed.trans leasedSame))
      · exact reservedBy_clearRogue.trans (renamed.trans leasedSame)
    simp only at done
    split at done
    · obtain ⟨synced, renamed, same⟩ := bind_eq_ok.mp done
      exact rest synced (reservedBy_syncCanonicalHostname renamed) (Except.ok.inj same).symm
    · exact rest leased rfl (Except.ok.inj done).symm

theorem reservedBy_syncLeasesToIps {leases : List IpStore.ObservedLease}
    (done : store.syncLeasesToIps env now leases = .ok after) :
    after.reservedBy = store.reservedBy :=
  foldlM_invariant (P := fun reached => reached.reservedBy = store.reservedBy)
    (fun _ _ _ _ same step => (reservedBy_syncLeaseToIp step).trans same) done rfl

end Metadata

/-! ## Claims and releases -/

theorem reservedBy_of_asserted {store : IpStore} {env : Env} {subnetId : Nat} {ip : ScopedAddr}
    {target : AllocationState} {source : LifecycleSource}
    (asserted : store.assertAllocationTransition env subnetId ip target source = .ok ())
    (refused : canTransitionAllocation .staticDhcp target source = false) {key : IpKey}
    (identified : identityKey subnetId ip = .ok key) : store.reservedBy key = none := by
  rw [reservedBy_eq_none_iff]
  intro isStatic
  obtain ⟨-, allowed⟩ := (assertAllocationTransition_ok_iff identified).mp asserted
  rw [isStatic, refused] at allowed
  simp at allowed

section Claims

variable {store after : IpStore} {env : Env} {now : Nat} {addr : Addr}

theorem reservedBy_protectTopologyAddress {subnetId : Nat} {ip : ScopedAddr}
    {state : AllocationState} {note : Option Text}
    (done : store.protectTopologyAddress env now subnetId ip state note = .ok after) :
    after.reservedBy = store.reservedBy := by
  unfold IpStore.protectTopologyAddress at done
  split at done
  · cases done
  · rename_i isRole
    obtain ⟨_, asserted, done⟩ := bind_eq_ok.mp done
    have role : state = .system ∨ state = .gateway := by
      by_contra neither
      exact isRole (by simpa using not_or.mp neither)
    refine reservedBy_setCanonicalAllocation_of_free done ?_ fun key found =>
      reservedBy_of_asserted asserted ?_ found
    · rcases role with rfl | rfl <;> decide
    · rcases role with rfl | rfl <;> decide

theorem reservedBy_reconcileDnsHold (done : store.reconcileDnsHold env now addr = .ok after) :
    after.reservedBy = store.reservedBy := by
  unfold IpStore.reconcileDnsHold at done
  split at done
  · obtain rfl := Except.ok.inj done
    rfl
  · obtain ⟨existing, looked, done⟩ := bind_eq_ok.mp done
    dsimp only at done
    split at done
    · obtain rfl := Except.ok.inj done
      rfl
    · split at done
      · split at done
        · obtain rfl := Except.ok.inj done
          rfl
        · obtain ⟨_, asserted, done⟩ := bind_eq_ok.mp done
          exact reservedBy_setCanonicalAllocation_of_free done (by decide) fun key found =>
            reservedBy_of_asserted asserted (by decide) found
      · split at done
        · obtain rfl := Except.ok.inj done
          rfl
        · obtain ⟨_, asserted, done⟩ := bind_eq_ok.mp done
          exact reservedBy_setCanonicalAllocation_of_free done (by decide) fun key found =>
            reservedBy_of_asserted asserted (by decide) found

theorem reservedBy_allocateStaticDns {recordName zoneName : Text} {recordId : Option Nat}
    (done : store.allocateStaticDns env now recordName addr zoneName recordId = .ok after) :
    after.reservedBy = store.reservedBy := by
  unfold IpStore.allocateStaticDns at done
  split at done
  · obtain rfl := Except.ok.inj done
    rfl
  · obtain ⟨existing, -, done⟩ := bind_eq_ok.mp done
    split at done
    · cases done
    · split at done
      · obtain ⟨guarded, protects, done⟩ := bind_eq_ok.mp done
        obtain ⟨named, syncs, done⟩ := bind_eq_ok.mp done
        obtain ⟨⟨marked, id⟩, upserted, same⟩ := bind_eq_ok.mp done
        obtain rfl := Except.ok.inj same
        exact (reservedBy_upsert upserted rfl rfl).trans
          ((reservedBy_syncDnsToIp syncs).trans (reservedBy_protectTopologyAddress protects))
      · obtain ⟨_, asserted, done⟩ := bind_eq_ok.mp done
        obtain ⟨named, syncs, done⟩ := bind_eq_ok.mp done
        have synced := reservedBy_syncDnsToIp syncs
        refine (reservedBy_setCanonicalAllocation_of_free done (by decide) fun key found =>
          ?_).trans synced
        rw [synced]
        exact reservedBy_of_asserted asserted (by decide) found

theorem reservedBy_deallocateStaticDns {recordName zoneName : Text}
    (done : store.deallocateStaticDns env now recordName addr zoneName = .ok after) :
    after.reservedBy = store.reservedBy := by
  unfold IpStore.deallocateStaticDns at done
  split at done
  · obtain rfl := Except.ok.inj done
    rfl
  · obtain ⟨existing, -, done⟩ := bind_eq_ok.mp done
    split at done
    · obtain ⟨cleared, clears, done⟩ := bind_eq_ok.mp done
      obtain ⟨⟨marked, id⟩, upserted, same⟩ := bind_eq_ok.mp done
      obtain rfl := Except.ok.inj same
      exact (reservedBy_upsert upserted rfl rfl).trans (reservedBy_clearDnsFromIp clears)
    · split at done
      · obtain ⟨_, asserted, done⟩ := bind_eq_ok.mp done
        obtain ⟨cleared, clears, done⟩ := bind_eq_ok.mp done
        have same := reservedBy_clearDnsFromIp clears
        refine (reservedBy_setCanonicalAllocation_of_free done (by decide) fun key found =>
          ?_).trans same
        rw [same]
        exact reservedBy_of_asserted asserted (by decide) found
      · obtain ⟨_, asserted, done⟩ := bind_eq_ok.mp done
        obtain ⟨cleared, clears, done⟩ := bind_eq_ok.mp done
        have same := reservedBy_clearDnsFromIp clears
        refine (reservedBy_setCanonicalAllocation_of_free done (by decide) fun key found =>
          ?_).trans same
        rw [same]
        exact reservedBy_of_asserted asserted (by decide) found

theorem reservedBy_setManualReservation {subnetId : Nat} {reserved : Bool} {note : Option Text}
    (done : store.setManualReservation env now subnetId addr reserved note = .ok after) :
    after.reservedBy = store.reservedBy := by
  obtain ⟨existing, -, done⟩ := bind_eq_ok.mp done
  split at done
  · cases done
  · split at done
    · obtain ⟨_, asserted, done⟩ := bind_eq_ok.mp done
      exact reservedBy_setCanonicalAllocation_of_free done (by decide) fun key found =>
        reservedBy_of_asserted asserted (by decide) found
    · obtain ⟨_, asserted, done⟩ := bind_eq_ok.mp done
      obtain ⟨released, releases, holds⟩ := bind_eq_ok.mp done
      exact (reservedBy_reconcileDnsHold holds).trans
        (reservedBy_setCanonicalAllocation_of_free releases (by decide) fun key found =>
          reservedBy_of_asserted asserted (by decide) found)

/-! ## Reservations -/

theorem reservedBy_allocateStaticDhcp {subnetId : Nat} {given : IpStore.ReservationFields}
    {reservationId : Option Nat}
    (done : store.allocateStaticDhcp env now subnetId addr given reservationId = .ok after) :
    after.reservedBy = Function.update store.reservedBy ⟨subnetId, addr, none⟩
    (some reservationId) := by
  obtain ⟨_, -, done⟩ := bind_eq_ok.mp done
  obtain ⟨synced, syncs, done⟩ := bind_eq_ok.mp done
  obtain ⟨key, identified, changed⟩ := reservedBy_setCanonicalAllocation done
  obtain rfl := identityKey_addr identified
  rw [changed, if_pos rfl, reservedBy_syncDhcpReservationToIp syncs]

/-- A reservation leaves its address. -/
theorem reservedBy_deallocateStaticDhcp {subnetId : Nat} {macAddress : Option Text}
    (done : store.deallocateStaticDhcp env now subnetId addr macAddress = .ok after) :
    after.reservedBy = Function.update store.reservedBy ⟨subnetId, addr, none⟩ none := by
  obtain ⟨_, -, done⟩ := bind_eq_ok.mp done
  obtain ⟨cleared, clears, done⟩ := bind_eq_ok.mp done
  obtain ⟨existing, looked, done⟩ := bind_eq_ok.mp done
  obtain ⟨key, identified, rfl⟩ := findBySubnetAndIp_eq_ok looked
  obtain rfl := identityKey_addr identified
  have released : ∀ value, Function.update cleared.reservedBy ⟨subnetId, addr, none⟩ value =
      Function.update store.reservedBy ⟨subnetId, addr, none⟩ value := by
    intro value
    rcases reservedBy_clearDhcpReservationFromIp clears with same | gone
    · rw [same]
    · rw [gone, Function.update_idem]
  have decided : ∀ {reached : IpStore} {state : AllocationState}
      {sourceType : Option LifecycleSource} {fields : Fields}, state ≠ .staticDhcp →
      cleared.setCanonicalAllocation env now subnetId addr state sourceType none
      fields = .ok reached → reached.reservedBy = Function.update store.reservedBy
      ⟨subnetId, addr, none⟩ none := by
    intro reached state sourceType fields other set
    obtain ⟨key, found, changed⟩ := reservedBy_setCanonicalAllocation set
    obtain rfl := identityKey_addr found
    rw [changed, if_neg other, released]
  cases found : cleared.table.lookup ⟨subnetId, addr, none⟩ with
  | none =>
    rw [found] at done
    obtain ⟨logged, records, holds⟩ := bind_eq_ok.mp done
    have absent : cleared.reservedBy ⟨subnetId, addr, none⟩ = none := by
      rw [IpStore.reservedBy, found]
      rfl
    rw [reservedBy_reconcileDnsHold holds, reservedBy_recordEvent records, ← released
      none, ← absent, Function.update_eq_self]
  | some row =>
    rw [found] at done
    dsimp only at done
    split at done
    · exact decided (by decide) done
    · obtain ⟨reached, releases, holds⟩ := bind_eq_ok.mp done
      rw [reservedBy_reconcileDnsHold holds]
      exact decided (by decide) releases

end Claims

/-! ## Observations -/

section Observations

variable {store after : IpStore} {env : Env} {now : Nat}

theorem reservedBy_observeDhcpv6Lease {subnetId : Nat} {addr : Addr} {lease : IpStore.Dhcpv6Lease}
    (done : store.observeDhcpv6Lease env now subnetId addr lease = .ok after) :
    after.reservedBy = store.reservedBy := by
  unfold IpStore.observeDhcpv6Lease at done
  split at done
  · split at done
    · cases done
    · split at done
      · cases done
      · obtain ⟨_, asserted, done⟩ := bind_eq_ok.mp done
        exact reservedBy_setCanonicalAllocation_of_free done (by decide) fun key found =>
          reservedBy_of_asserted asserted (by decide) found
  · cases done

theorem staticSource_scanned (result : IpStore.ScanResult) (conflict : Bool) (row : IpRow) :
    staticSource { row with info := IpStore.scannedInfo now result conflict row.info } =
    staticSource row := rfl

theorem reservedBy_updateFromScan {subnetId : Nat} {addr : Addr} {result : IpStore.ScanResult}
    (done : store.updateFromScan env now subnetId addr result = .ok after) :
    after.reservedBy = store.reservedBy := by
  unfold IpStore.updateFromScan at done
  dsimp only at done
  split at done
  · obtain rfl := Except.ok.inj done
    exact (reservedBy_of_table (IpStore.emitAll_table ..)).trans
      (reservedBy_of_update rfl fun row _ _ => staticSource_scanned result _ row)
  · split at done
    · obtain rfl := Except.ok.inj done
      rfl
    · obtain ⟨⟨created, id⟩, upserted, same⟩ := bind_eq_ok.mp done
      obtain rfl := Except.ok.inj same
      exact (reservedBy_of_table (IpStore.emitAll_table ..)).trans
        (reservedBy_upsert upserted rfl rfl)

theorem reservedBy_clearRogueAfterScan {subnetId : Nat} {probedIps exceptIps : List Addr} :
    (store.clearRogueAfterScan subnetId probedIps exceptIps).reservedBy = store.reservedBy := by
  unfold IpStore.clearRogueAfterScan
  dsimp only
  generalize store.table.rows.filter _ = rows
  induction rows generalizing store with
  | nil => rfl
  | cons row rows ih =>
    refine ih.trans ((reservedBy_of_update rfl ?_).trans (reservedBy_of_table rfl))
    intro found _ _
    rfl

theorem reservedBy_startMissingRetirementWindows :
    (store.startMissingRetirementWindows env now).reservedBy = store.reservedBy :=
  reservedBy_of_update rfl fun _ _ _ => rfl

theorem reservedBy_retireLearnedMetadata {candidate : IpRow}
    (spared : ∀ row ∈ store.table.rows, row.id = candidate.id → staticSource row = none) :
    (store.retireLearnedMetadata candidate).reservedBy = store.reservedBy := by
  refine reservedBy_of_update (retireLearnedMetadata_table store candidate) fun row member same =>
    ?_
  rw [spared row member (by simpa using same)]
  rfl

end Observations

end Cidrella
