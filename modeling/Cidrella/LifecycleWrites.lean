import Cidrella.Writes

/-!
# The lifecycle as writes

Every lifecycle operation that succeeds is a sequence of writes (`Writes`). The lemmas
are stated once for each function of the service, with the addresses it may release and
the addresses it may bring online unseen; the invariants of the store are read off from
them.
-/

set_option autoImplicit false

namespace Cidrella

/-- The records that may hold an address: the one `dnsHoldingRecord` picks. -/
def holders (env : Env) (key : IpKey) (id : Nat) : Prop :=
  ∃ record, IpStore.dnsHoldingRecord env key.subnetId key.addr = some record ∧ record.id = id

/-! ## Transitions -/

/-- When `assertAllocationTransition` lets a change pass. -/
theorem assertAllocationTransition_ok_iff {store : IpStore} {env : Env} {subnetId : Nat}
    {ip : ScopedAddr} {key : IpKey} {target : AllocationState} {source : LifecycleSource}
    (found : identityKey subnetId ip = .ok key) :
    store.assertAllocationTransition env subnetId ip target source = .ok () ↔
      (target = .unassigned ∨ target = .system ∨ target = .gateway ∨
        env.protectedAddress subnetId ip = none) ∧
      (IpStore.stateOf (store.table.lookup key) = .unassigned ∧ target = .unassigned ∨
        canTransitionAllocation (IpStore.stateOf (store.table.lookup key)) target
        source = true) := by
  have looked : store.findBySubnetAndIp subnetId ip = .ok (store.table.lookup key) := by
    rw [IpStore.findBySubnetAndIp, found]
    rfl
  unfold IpStore.assertAllocationTransition
  rw [looked]
  dsimp only [Bind.bind, Except.bind]
  generalize IpStore.stateOf (store.table.lookup key) = current
  by_cases ownable : target = .unassigned ∨ target = .system ∨ target = .gateway
  · have own : (target = .unassigned || target = .system || target = .gateway : Bool) = true := by
      simpa [or_assoc] using ownable
    rw [if_pos own]
    have first : target = .unassigned ∨ target = .system ∨ target = .gateway ∨
        env.protectedAddress subnetId ip = none := by
      tauto
    simp only [first, true_and]
    split_ifs with released allowed
    · simpa using .inl (by simpa using released)
    · simpa using .inr allowed
    · simpa using ⟨by simpa using released, by simpa using allowed⟩
  · have foreign : (target = .unassigned || target = .system || target = .gateway : Bool) =
      false := by
      simpa [or_assoc, not_or, and_assoc] using ownable
    rw [foreign]
    simp only [Bool.false_eq_true, if_false]
    rw [not_or, not_or] at ownable
    cases env.protectedAddress subnetId ip with
    | some protection => simp [ownable]
    | none =>
      simp only [or_true, true_and, ownable.1, and_false, false_or, Bool.and_false,
        decide_false, Bool.false_eq_true, if_false]
      split_ifs with allowed
      · simpa using allowed
      · simpa using allowed

theorem assertRelease_ok_iff {store : IpStore} {env : Env} {subnetId : Nat} {ip : ScopedAddr}
    {key : IpKey} {source : LifecycleSource} (found : identityKey subnetId ip = .ok key) :
    store.assertAllocationTransition env subnetId ip .unassigned source = .ok () ↔
      IpStore.stateOf (store.table.lookup key) = .unassigned ∨
        canTransitionAllocation (IpStore.stateOf (store.table.lookup key)) .unassigned source =
          true := by
  rw [assertAllocationTransition_ok_iff found]
  simp

/-! ## Metadata -/

/-- Columns that leave the allocation and the rogue mark alone and take nothing offline. -/
structure Metadata (fields : Fields) : Prop where
  state : fields.allocationState = none := by rfl
  sourceType : fields.allocationSourceType = none := by rfl
  sourceId : fields.allocationSourceId = none := by rfl
  preferred : fields.preferredUntil = none := by rfl
  valid : fields.validUntil = none := by rfl
  version : fields.dhcpVersion = none := by rfl
  duid : fields.dhcpDuid = none := by rfl
  iaid : fields.dhcpIaid = none := by rfl
  rogue : fields.isRogue = none := by rfl
  event : fields.allocationEvent = none := by rfl
  online : fields.isOnline ≠ some false := by simp

section

variable {may : Licence} {store after : IpStore} {env : Env} {now subnetId id : Nat}
    {ip : ScopedAddr} {addr : Addr} {fields : Fields}

theorem allocStep_metadata {key : IpKey} (plain : Metadata fields) (now : Nat) (old : IpInfo) :
    AllocStep may key old (fields.apply now old) := by
  refine .of_same ?_ ?_ ?_ ?_ ?_
  · simp [Fields.apply, plain.state]
  · simp [Fields.apply, plain.sourceType]
  · simp [Fields.apply, plain.sourceId]
  · rintro ⟨h₁, h₂, h₃, h₄, h₅, h₆, h₇⟩
    constructor <;>
      simp [Fields.apply, plain.sourceType, plain.sourceId, plain.version, plain.duid, plain.iaid,
        plain.preferred, plain.valid, *]
  · intro rogue
    simp only [Fields.apply, plain.rogue, Option.getD_none] at rogue
    refine .inl ⟨rogue, fun online => ?_⟩
    simp only [Fields.apply]
    cases given : fields.isOnline with
    | none => exact online
    | some value =>
      cases value with
      | true => rfl
      | false => exact absurd given plain.online

theorem allocStep_metadata_initial {key : IpKey} (plain : Metadata fields) (now : Nat) :
    AllocStep may key {} (fields.initial now) := by
  refine .of_same ?_ ?_ ?_ ?_ ?_
  · simp [Fields.initial, plain.state]
  · simp [Fields.initial, plain.sourceType]
  · simp [Fields.initial, plain.sourceId]
  · intro _
    constructor <;>
      simp [Fields.initial, plain.sourceType, plain.sourceId, plain.version, plain.duid, plain.iaid,
        plain.preferred, plain.valid, truthy]
  · intro rogue
    simp [Fields.initial, plain.rogue] at rogue

theorem writes_metadata (done : store.upsert env now subnetId ip fields = .ok (after, id))
    (plain : Metadata fields)
    (sighted : ∀ key, identityKey subnetId ip = .ok key → store.table.lookup key = none →
      fields.isOnline = some true → may.blind key) :
    Writes may store after :=
  writes_upsert done (by simp [plain.event])
    (fun _ _ _ _ => allocStep_metadata plain now _)
    (fun _ _ _ => allocStep_metadata_initial plain now) sighted

theorem writes_metadata_quiet (done : store.upsert env now subnetId ip fields = .ok (after, id))
    (plain : Metadata fields) (quiet : fields.isOnline = none) :
    Writes may store after :=
  writes_metadata done plain (by simp [quiet])

/-! ## Allocation -/

/-- An owner and the state it gives an address. -/
structure Claim (may : Licence) (key : IpKey) (state : AllocationState)
    (sourceType : Option LifecycleSource) (sourceId : Option Nat) : Prop where
  source : sourceMatches state sourceType := by simp [sourceMatches]
  unowned : state = .unassigned → sourceId = none := by simp
  leased : state = .dynamicDhcp → may.lease key := by simp
  held : state = .reserved → sourceType = some .dns →
    ∃ id, sourceId = some id ∧ may.hold key id := by simp

/-- The further columns a change of allocation may set. -/
structure Extra (state : AllocationState) (fields : Fields) : Prop where
  rogue : fields.isRogue ≠ some true := by simp
  offline : state = .unassigned → fields.isOnline = some false → fields.isRogue = some false := by
    simp
  preferred : state = .unassigned → fields.preferredUntil = none := by simp
  valid : state = .unassigned → fields.validUntil = none := by simp
  version : state = .unassigned → fields.dhcpVersion = none := by simp
  duid : state = .unassigned → fields.dhcpDuid = none := by simp
  iaid : state = .unassigned → fields.dhcpIaid = none := by simp
  event : ∀ type, fields.allocationEvent = some type → type.edge? = none := by
    simp [EventType.edge?]

/-- The columns `setCanonicalAllocation` gives. -/
def claimFields (state : AllocationState) (sourceType : Option LifecycleSource)
    (sourceId : Option Nat) (fields : Fields) : Fields :=
  { IpStore.spread (IpStore.allocationFields state) fields with
    allocationState := some state
    allocationSourceType := some sourceType
    allocationSourceId := some sourceId }

variable {state : AllocationState} {sourceType : Option LifecycleSource} {sourceId : Option Nat}

theorem allocStep_claim {key : IpKey} {old new : IpInfo}
    (claim : Claim may key state sourceType sourceId) (gives : new.allocationState = state)
    (givesType : new.allocationSourceType = sourceType)
    (givesId : new.allocationSourceId = sourceId) (cleared : state = .unassigned →
      new.dhcpVersion = none ∧ new.dhcpDuid = none ∧ new.dhcpIaid = none ∧
      new.preferredUntil = none ∧ new.validUntil = none)
    (rogue : new.isRogue = true →
      state = .unassigned ∧ old.isRogue = true ∧ new.isOnline = old.isOnline ∨
      state = .unassigned ∧ new.isOnline = true)
    (release : state = .unassigned → old.allocationState = .unassigned ∨ may.free key) :
    AllocStep may key old new where
  owned := by
    intro owned
    refine ⟨fun unassigned => ?_, by rw [gives, givesType]; exact claim.source, ?_⟩
    · rw [gives] at unassigned
      obtain ⟨version, duid, iaid, preferred, valid⟩ := cleared unassigned
      have source := claim.source
      rw [unassigned] at source
      exact ⟨givesType.trans source, givesId.trans (claim.unowned unassigned), version, duid, iaid,
        preferred, valid⟩
    · intro isRogue
      rw [gives]
      rcases rogue isRogue with ⟨unassigned, wasRogue, same⟩ | ⟨unassigned, online⟩
      · exact ⟨unassigned, same.trans (owned.rogue wasRogue).2⟩
      · exact ⟨unassigned, online⟩
  released := fun unassigned => release (gives ▸ unassigned)
  leased := fun dynamic => .inr (claim.leased (gives ▸ dynamic))
  held := by
    rintro ⟨reserved, dns⟩
    rw [givesId]
    exact .inr (claim.held (gives ▸ reserved) (givesType ▸ dns))

theorem claimFields_rogue (sourceType : Option LifecycleSource) (sourceId : Option Nat)
    (extra : Extra state fields) :
    (claimFields state sourceType sourceId fields).isRogue = some false ∨
      (state = .unassigned ∧ fields.isRogue = none ∧
        (claimFields state sourceType sourceId fields).isRogue = none) := by
  have given := extra.rogue
  cases rogue : fields.isRogue with
  | some value =>
    cases value with
    | true => exact absurd rogue given
    | false => exact .inl (by simp [claimFields, IpStore.spread, rogue])
  | none =>
    by_cases unassigned : state = .unassigned
    · refine .inr ⟨unassigned, rfl, ?_⟩
      simp [claimFields, IpStore.spread, IpStore.allocationFields, rogue, unassigned]
    · refine .inl ?_
      simp [claimFields, IpStore.spread, IpStore.allocationFields, rogue, unassigned]

theorem allocStep_claim_apply {key : IpKey} {old : IpInfo}
    (claim : Claim may key state sourceType sourceId) (extra : Extra state fields) (now : Nat)
    (release : state = .unassigned → old.allocationState = .unassigned ∨ may.free key) :
    AllocStep may key old ((claimFields state sourceType sourceId fields).apply now old) := by
  refine allocStep_claim claim rfl rfl rfl ?_ ?_ release
  · intro unassigned
    simp [claimFields, IpStore.spread, IpStore.allocationFields, Fields.apply, unassigned,
      extra.version unassigned, extra.duid unassigned, extra.iaid unassigned,
      extra.preferred unassigned, extra.valid unassigned]
  · intro rogue
    rcases claimFields_rogue sourceType sourceId extra with off | ⟨unassigned, plain, kept⟩
    · simp only [Fields.apply, off, Option.getD_some] at rogue
      exact absurd rogue (by decide)
    · simp only [Fields.apply, kept, Option.getD_none] at rogue
      have online : (claimFields state sourceType sourceId fields).isOnline = fields.isOnline := by
        simp [claimFields, IpStore.spread, IpStore.allocationFields, unassigned]
      simp only [Fields.apply, online]
      cases given : fields.isOnline with
      | none => exact .inl ⟨unassigned, rogue, rfl⟩
      | some value =>
        cases value with
        | true => exact .inr ⟨unassigned, rfl⟩
        | false =>
          have off := extra.offline unassigned given
          rw [plain] at off
          exact absurd off (by simp)

theorem allocStep_claim_initial {key : IpKey}
    (claim : Claim may key state sourceType sourceId) (extra : Extra state fields) (now : Nat) :
    AllocStep may key {} ((claimFields state sourceType sourceId fields).initial now) := by
  refine allocStep_claim claim rfl rfl rfl ?_ ?_ fun _ => .inl rfl
  · intro unassigned
    simp [claimFields, IpStore.spread, IpStore.allocationFields, Fields.initial, unassigned,
      extra.version unassigned, extra.duid unassigned, extra.iaid unassigned,
      extra.preferred unassigned, extra.valid unassigned, truthy]
  · intro rogue
    rcases claimFields_rogue sourceType sourceId extra with off | ⟨-, -, kept⟩
    · simp [Fields.initial, off] at rogue
    · simp [Fields.initial, kept] at rogue

/-- `setCanonicalAllocation` is one write. -/
theorem writes_setCanonicalAllocation
    (done : store.setCanonicalAllocation env now subnetId ip state sourceType sourceId fields =
      .ok after)
    (claim : ∀ key, identityKey subnetId ip = .ok key → Claim may key state sourceType sourceId)
    (extra : Extra state fields)
    (release : state = .unassigned → ∀ key row, identityKey subnetId ip = .ok key →
      store.table.lookup key = some row → row.info.allocationState = .unassigned ∨ may.free key)
    (sighted : ∀ key, identityKey subnetId ip = .ok key → store.table.lookup key = none →
      fields.isOnline = some true → may.blind key) :
    Writes may store after := by
  obtain ⟨⟨reached, id⟩, upserted, same⟩ := bind_eq_ok.mp done
  obtain rfl := Except.ok.inj same
  have online : (claimFields state sourceType sourceId fields).isOnline = fields.isOnline := by
    by_cases unassigned : state = .unassigned <;>
      simp [claimFields, IpStore.spread, IpStore.allocationFields, unassigned]
  have event : (claimFields state sourceType sourceId fields).allocationEvent =
      fields.allocationEvent := by
    by_cases unassigned : state = .unassigned <;>
      simp [claimFields, IpStore.spread, IpStore.allocationFields, unassigned]
  have upserted : store.upsert env now subnetId ip (claimFields state sourceType sourceId fields) =
      .ok (reached, id) := upserted
  refine writes_upsert upserted ?_ ?_ ?_ ?_
  · rw [event]
    exact extra.event
  · intro key row found existing
    exact allocStep_claim_apply (claim key found) extra now
      fun unassigned => release unassigned key row found existing
  · intro key found _
    exact allocStep_claim_initial (claim key found) extra now
  · intro key found absent given
    rw [online] at given
    exact sighted key found absent given

/-- The row of the address after `setCanonicalAllocation`. -/
theorem lookup_setCanonicalAllocation
    (done : store.setCanonicalAllocation env now subnetId ip state sourceType sourceId fields =
      .ok after) : ∃ key row, identityKey subnetId ip = .ok key ∧
        after.table.lookup key = some row ∧ row.info.allocationState = state ∧
        row.info.allocationSourceType = sourceType ∧ row.info.allocationSourceId = sourceId := by
  obtain ⟨⟨reached, id⟩, upserted, same⟩ := bind_eq_ok.mp done
  obtain rfl := Except.ok.inj same
  obtain ⟨key, found, ⟨row, existing, -, rfl⟩ | ⟨absent, -, table, inserted, rfl⟩⟩ :=
    upsert_cases upserted
  · rw [IpStore.emitAll_table]
    refine ⟨key, _, found, (Table.lookup_update _ _ _ _).trans (by rw [existing]; rfl), ?_⟩
    simp [Fields.apply]
  · rw [IpStore.emitAll_table]
    refine ⟨key, _, found, (Table.lookup_insert inserted _).trans (if_pos rfl), rfl, rfl, rfl⟩

/-! ## Notes and rogue marks -/

theorem writes_emit {type : EventType} (quiet : type.edge? = none) :
    Writes may store (store.emit id subnetId addr type) := by
  apply Write.writes
  refine .note rfl ?_
  intro other
  rw [IpStore.edges_emit, quiet]
  simp

theorem writes_emitEvent {type : EventType} (quiet : type.edge? = none) :
    Writes may store (store.emitEvent subnetId addr type) := by
  unfold IpStore.emitEvent
  split
  · exact writes_emit quiet
  · exact Writes.refl store

theorem writes_recordEvent {type : EventType} (quiet : type.edge? = none)
    (done : store.recordEvent subnetId ip type = .ok after) : Writes may store after := by
  obtain ⟨key, -, same⟩ := bind_eq_ok.mp done
  obtain rfl := Except.ok.inj same
  apply Write.writes
  refine .note rfl ?_
  intro other
  refine (IpStore.edges_append store.table store.events _ other).trans ?_
  simp [quiet, IpStore.edges]

theorem writes_clearRogue : Writes may store (store.clearRogue subnetId addr) := by
  unfold IpStore.clearRogue
  split
  · exact Writes.refl store
  · rename_i row found
    split
    · exact Writes.refl store
    · refine (Write.update _ _ (fun _ => []) rfl ?_ (fun _ _ => rfl) ?_ ?_).writes
      · intro other
        rw [IpStore.edges_emit]
        simp [EventType.edge?, IpStore.edges]
      · intro row _ _
        refine .of_same rfl rfl rfl ?_ ?_
        · rintro ⟨h₁, h₂, h₃, h₄, h₅, h₆, h₇⟩
          exact ⟨h₁, h₂, h₃, h₄, h₅, h₆, h₇⟩
        · intro rogue
          exact absurd rogue (by simp)
      · intro row _ _
        exact ⟨rfl, fun online => .inr ⟨online, rfl⟩⟩

/-! ## Protocol metadata -/

theorem writes_syncCanonicalHostname {clearSource : Bool}
    (done : store.syncCanonicalHostname env now subnetId addr clearSource = .ok after) :
    Writes may store after := by
  obtain ⟨⟨reached, id⟩, upserted, same⟩ := bind_eq_ok.mp done
  obtain rfl := Except.ok.inj same
  exact writes_metadata_quiet upserted (by constructor <;> simp) rfl

theorem writes_syncDnsToIp {recordName zoneName : Text}
    (done : store.syncDnsToIp env now recordName addr zoneName = .ok after) :
    Writes may store after := by
  unfold IpStore.syncDnsToIp at done
  split at done
  · obtain rfl := Except.ok.inj done
    exact Writes.refl store
  · obtain ⟨⟨named, id⟩, upserted, same⟩ := bind_eq_ok.mp done
    obtain rfl := Except.ok.inj same
    exact (writes_metadata_quiet upserted (by constructor <;> simp) rfl).trans
      (writes_clearRogue.trans (writes_emitEvent rfl))

theorem writes_clearDnsFromIp {recordName zoneName : Text}
    (done : store.clearDnsFromIp env now recordName addr zoneName = .ok after) :
    Writes may store after := by
  unfold IpStore.clearDnsFromIp at done
  split at done
  · obtain rfl := Except.ok.inj done
    exact Writes.refl store
  · obtain ⟨existing, -, done⟩ := bind_eq_ok.mp done
    split at done
    · obtain ⟨synced, renamed, same⟩ := bind_eq_ok.mp done
      obtain rfl := Except.ok.inj same
      exact (writes_syncCanonicalHostname renamed).trans (writes_emitEvent rfl)
    · obtain rfl := Except.ok.inj done
      exact Writes.refl store

theorem writes_syncDhcpReservationToIp {given : IpStore.ReservationFields}
    (done : store.syncDhcpReservationToIp env now subnetId addr given = .ok after) :
    Writes may store after := by
  obtain ⟨⟨named, id⟩, upserted, same⟩ := bind_eq_ok.mp done
  obtain rfl := Except.ok.inj same
  exact (writes_metadata_quiet upserted (by constructor <;> simp) rfl).trans writes_clearRogue

theorem writes_deleteById {row : IpRow} (member : row ∈ store.table.rows)
    (freed : may.free row.key) :
    Writes may store (store.deleteById row.id) := by
  apply Write.writes
  refine .delete _ rfl (fun _ => rfl) ?_
  intro other within same
  obtain rfl := store.table.eq_of_id_eq within member (by simpa using same)
  exact freed

theorem writes_clearDhcpReservationFromIp {macAddress : Option Text}
    (done : store.clearDhcpReservationFromIp env now subnetId addr macAddress = .ok after)
    (freed : may.free ⟨subnetId, addr, none⟩) : Writes may store after := by
  obtain ⟨existing, looked, done⟩ := bind_eq_ok.mp done
  obtain ⟨key, identified, rfl⟩ := findBySubnetAndIp_eq_ok looked
  obtain rfl := identityKey_addr identified
  split at done
  · obtain rfl := Except.ok.inj done
    exact Writes.refl store
  · rename_i row found
    obtain ⟨member, keyed⟩ := Table.lookup_eq_some.mp found
    split at done
    · split at done
      · obtain ⟨⟨leased, id⟩, upserted, renamed⟩ := bind_eq_ok.mp done
        exact (writes_metadata_quiet upserted (by constructor <;> simp) rfl).trans
          (writes_syncCanonicalHostname renamed)
      · simp only at done
        split at done
        · obtain ⟨⟨named, id⟩, upserted, same⟩ := bind_eq_ok.mp done
          obtain rfl := Except.ok.inj same
          exact writes_metadata_quiet upserted (by constructor <;> simp) rfl
        · obtain rfl := Except.ok.inj done
          exact writes_deleteById member (keyed ▸ freed)
    · obtain ⟨⟨cleared, id⟩, upserted, same⟩ := bind_eq_ok.mp done
      obtain rfl := Except.ok.inj same
      exact writes_metadata_quiet upserted (by constructor <;> simp) rfl

/-! ## Topology -/

theorem writes_protectTopologyAddress {note : Option Text}
    (done : store.protectTopologyAddress env now subnetId ip state note = .ok after) :
    Writes may store after := by
  unfold IpStore.protectTopologyAddress at done
  split at done
  · exact absurd done (by simp)
  · rename_i topology
    have owned : state = .system ∨ state = .gateway := by
      by_contra neither
      rw [not_or] at neither
      exact topology (by simpa using neither)
    obtain ⟨_, -, done⟩ := bind_eq_ok.mp done
    refine writes_setCanonicalAllocation done (fun key _ => ?_) ?_ ?_ (by simp)
    · rcases owned with rfl | rfl
      · exact {}
      · exact {}
    · rcases owned with rfl | rfl
      · exact {}
      · exact {}
    · intro unassigned
      rcases owned with rfl | rfl <;> exact absurd unassigned (by decide)

theorem writes_release
    (done : store.setCanonicalAllocation env now subnetId ip .unassigned none none
    fields = .ok after) (extra : Extra .unassigned fields) (quiet : fields.isOnline ≠ some true)
    (freed : ∀ key, identityKey subnetId ip = .ok key → may.free key) : Writes may store after :=
  writes_setCanonicalAllocation done (fun _ _ => by constructor <;> simp [sourceMatches]) extra
    (fun _ key _ found _ => .inr (freed key found)) fun _ _ _ online => absurd online quiet

theorem freed_addr (freed : may.free ⟨subnetId, addr, none⟩) (key : IpKey)
    (found : identityKey subnetId addr = .ok key) : may.free key :=
  identityKey_addr found ▸ freed

theorem writes_releaseTopologyAddress
    (done : store.releaseTopologyAddress env now subnetId ip = .ok after)
    (freed : ∀ key, identityKey subnetId ip = .ok key → may.free key) : Writes may store after := by
  obtain ⟨_, -, done⟩ := bind_eq_ok.mp done
  exact writes_release done (by constructor <;> simp [EventType.edge?]) (by simp) freed

theorem writes_releaseFormerTopology
    (done : store.releaseFormerTopology env now subnetId addr = .ok after)
    (freed : may.free ⟨subnetId, addr, none⟩) : Writes may store after := by
  unfold IpStore.releaseFormerTopology at done
  split at done
  · exact writes_setCanonicalAllocation done (fun _ _ => by constructor <;> simp [sourceMatches])
      (by constructor <;> simp [EventType.edge?]) (by simp) (by simp)
  · exact writes_release done (by constructor <;> simp [EventType.edge?]) (by simp)
      (freed_addr freed)

theorem writes_reconcileTopologyAddresses {net : Network} {gateway : Option Addr}
    (done : store.reconcileTopologyAddresses env now subnetId net gateway = .ok after)
    (freed : ∀ addr ∈ store.formerTopology subnetId net gateway, may.free ⟨subnetId, addr, none⟩) :
    Writes may store after := by
  obtain ⟨released, first, second⟩ := bind_eq_ok.mp done
  have former : Writes may store released := by
    refine foldlM_invariant ?_ first (Writes.refl store)
    intro addr member before next reached step
    exact reached.trans (writes_releaseFormerTopology step (freed addr member))
  refine foldlM_invariant ?_ second former
  intro entry _ before next reached step
  exact reached.trans (writes_protectTopologyAddress step)

/-! ## DNS -/

theorem claim_hold {record : DnsRecord} (holds : ∀ key id, holders env key id → may.hold key id)
    (holder : IpStore.dnsHoldingRecord env subnetId addr = some record) (key : IpKey)
    (found : identityKey subnetId addr = .ok key) :
    Claim may key .reserved (some .dns) (some record.id) := by
  obtain rfl := identityKey_addr found
  exact { held := fun _ _ => ⟨record.id, rfl, holds _ _ ⟨record, holder, rfl⟩⟩ }

theorem writes_reconcileDnsHold (done : store.reconcileDnsHold env now addr = .ok after)
    (holds : ∀ key id, holders env key id → may.hold key id)
    (freed : ∀ subnet, env.findSubnetForIp addr = some subnet →
      IpStore.dnsHoldingRecord env subnet.id addr = none → may.free ⟨subnet.id, addr, none⟩) :
    Writes may store after := by
  unfold IpStore.reconcileDnsHold at done
  split at done
  · obtain rfl := Except.ok.inj done
    exact Writes.refl store
  · rename_i subnet leaf
    obtain ⟨existing, -, done⟩ := bind_eq_ok.mp done
    simp only at done
    split at done
    · obtain rfl := Except.ok.inj done
      exact Writes.refl store
    · split at done
      · rename_i holder found
        split at done
        · obtain rfl := Except.ok.inj done
          exact Writes.refl store
        · obtain ⟨_, -, done⟩ := bind_eq_ok.mp done
          exact writes_setCanonicalAllocation done (claim_hold holds found)
            (by constructor <;> simp [EventType.edge?]) (by simp) (by simp)
      · rename_i unheld
        split at done
        · obtain rfl := Except.ok.inj done
          exact Writes.refl store
        · obtain ⟨_, -, done⟩ := bind_eq_ok.mp done
          exact writes_release done
            (by constructor <;> simp [EventType.edge?]) (by simp)
            (freed_addr (freed subnet leaf unheld))

theorem writes_allocateStaticDns {recordName zoneName : Text} {recordId : Option Nat}
    (done : store.allocateStaticDns env now recordName addr zoneName recordId = .ok after) :
    Writes may store after := by
  unfold IpStore.allocateStaticDns at done
  split at done
  · obtain rfl := Except.ok.inj done
    exact Writes.refl store
  · obtain ⟨existing, -, done⟩ := bind_eq_ok.mp done
    split at done
    · exact absurd done (by simp)
    · split at done
      · obtain ⟨protectedStore, first, done⟩ := bind_eq_ok.mp done
        obtain ⟨named, second, done⟩ := bind_eq_ok.mp done
        obtain ⟨⟨reached, id⟩, third, same⟩ := bind_eq_ok.mp done
        obtain rfl := Except.ok.inj same
        exact (writes_protectTopologyAddress first).trans
          ((writes_syncDnsToIp second).trans
          (writes_metadata_quiet third (by constructor <;> simp) rfl))
      · obtain ⟨_, -, done⟩ := bind_eq_ok.mp done
        obtain ⟨named, first, second⟩ := bind_eq_ok.mp done
        exact (writes_syncDnsToIp first).trans
          (writes_setCanonicalAllocation second (fun _ _ => by constructor <;> simp [sourceMatches])
            (by constructor <;> simp [EventType.edge?]) (by simp) (by simp))

theorem writes_deallocateStaticDns {recordName zoneName : Text}
    (done : store.deallocateStaticDns env now recordName addr zoneName = .ok after)
    (holds : ∀ key id, holders env key id → may.hold key id)
    (freed : ∀ subnet, env.findSubnetForIp addr = some subnet →
      IpStore.dnsHoldingRecord env subnet.id addr = none → may.free ⟨subnet.id, addr, none⟩) :
    Writes may store after := by
  unfold IpStore.deallocateStaticDns at done
  split at done
  · obtain rfl := Except.ok.inj done
    exact Writes.refl store
  · rename_i subnet leaf
    obtain ⟨existing, -, done⟩ := bind_eq_ok.mp done
    split at done
    · obtain ⟨cleared, first, done⟩ := bind_eq_ok.mp done
      obtain ⟨⟨reached, id⟩, second, same⟩ := bind_eq_ok.mp done
      obtain rfl := Except.ok.inj same
      exact (writes_clearDnsFromIp first).trans
        (writes_metadata_quiet second (by constructor <;> simp) rfl)
    · split at done
      · rename_i holder found
        obtain ⟨_, -, done⟩ := bind_eq_ok.mp done
        obtain ⟨cleared, first, second⟩ := bind_eq_ok.mp done
        exact (writes_clearDnsFromIp first).trans
          (writes_setCanonicalAllocation second (claim_hold holds found)
            (by constructor <;> simp [EventType.edge?]) (by simp) (by simp))
      · rename_i unheld
        obtain ⟨_, -, done⟩ := bind_eq_ok.mp done
        obtain ⟨cleared, first, second⟩ := bind_eq_ok.mp done
        exact (writes_clearDnsFromIp first).trans
          (writes_release second
            (by constructor <;> simp [EventType.edge?]) (by simp)
            (freed_addr (freed subnet leaf unheld)))

/-! ## Reservations -/

theorem writes_allocateStaticDhcp {given : IpStore.ReservationFields} {reservationId : Option Nat}
    (done : store.allocateStaticDhcp env now subnetId addr given reservationId = .ok after) :
    Writes may store after := by
  obtain ⟨_, -, done⟩ := bind_eq_ok.mp done
  obtain ⟨synced, first, second⟩ := bind_eq_ok.mp done
  exact (writes_syncDhcpReservationToIp first).trans
    (writes_setCanonicalAllocation second (fun _ _ => by constructor <;> simp [sourceMatches])
      (by constructor <;> simp [EventType.edge?]) (by simp) (by simp))

/-- `deallocateStaticDhcp` releases the address, and then gives the hold back unless a
lease has taken the address. -/
theorem writes_deallocateStaticDhcp {macAddress : Option Text}
    (done : store.deallocateStaticDhcp env now subnetId addr macAddress = .ok after)
    (freed : may.free ⟨subnetId, addr, none⟩) (leased : may.lease ⟨subnetId, addr, none⟩) :
    ∃ middle, Writes may store middle ∧ (middle.reconcileDnsHold env now addr = .ok after ∨
      after = middle ∧
        ∃ row, after.table.lookup ⟨subnetId, addr, none⟩ = some row ∧
          row.info.allocationState = .dynamicDhcp) := by
  obtain ⟨_, -, done⟩ := bind_eq_ok.mp done
  obtain ⟨cleared, first, done⟩ := bind_eq_ok.mp done
  obtain ⟨existing, -, done⟩ := bind_eq_ok.mp done
  have before : Writes may store cleared := writes_clearDhcpReservationFromIp first freed
  split at done
  · obtain ⟨logged, second, third⟩ := bind_eq_ok.mp done
    exact ⟨logged, before.trans (writes_recordEvent rfl second), .inl third⟩
  · split at done
    · refine ⟨after, before.trans (writes_setCanonicalAllocation done (fun key found => ?_)
        (by constructor <;> simp [EventType.edge?]) (by simp) (by simp)), .inr ⟨rfl, ?_⟩⟩
      · obtain rfl := identityKey_addr found
        exact { leased := fun _ => leased }
      · obtain ⟨key, row, found, there, dynamic, -⟩ := lookup_setCanonicalAllocation done
        obtain rfl := identityKey_addr found
        exact ⟨row, there, dynamic⟩
    · obtain ⟨released, second, third⟩ := bind_eq_ok.mp done
      exact ⟨released, before.trans (writes_release second
        (by constructor <;> simp [EventType.edge?]) (by simp) (freed_addr freed)),
        .inl third⟩

/-- `setManualReservation`: a release gives the hold back. -/
theorem writes_setManualReservation {reserved : Bool} {note : Option Text}
    (done : store.setManualReservation env now subnetId addr reserved note = .ok after)
    (freed : reserved = false → may.free ⟨subnetId, addr, none⟩) :
    ∃ middle, Writes may store middle ∧
      (reserved = true ∧ after = middle ∨
        reserved = false ∧ middle.reconcileDnsHold env now addr = .ok after) := by
  obtain ⟨existing, -, done⟩ := bind_eq_ok.mp done
  split at done
  · exact absurd done (by simp)
  · split at done
    · rename_i taken
      obtain ⟨_, -, done⟩ := bind_eq_ok.mp done
      exact ⟨after, writes_setCanonicalAllocation done
        (fun _ _ => by constructor <;> simp [sourceMatches])
        (by constructor <;> simp [EventType.edge?]) (by simp) (by simp), .inl ⟨taken, rfl⟩⟩
    · rename_i given
      have released : reserved = false := by simpa using given
      obtain ⟨_, -, done⟩ := bind_eq_ok.mp done
      obtain ⟨middle, first, second⟩ := bind_eq_ok.mp done
      exact ⟨middle, writes_release first
        (by constructor <;> simp [EventType.edge?]) (by simp) (freed_addr (freed released)),
        .inr ⟨released, second⟩⟩

theorem writes_ensureAddress {isGateway : Bool}
    (done : store.ensureAddress env now subnetId addr isGateway = .ok after) :
    Writes may store after := by
  unfold IpStore.ensureAddress at done
  split at done
  · exact writes_protectTopologyAddress done
  · obtain ⟨_, -, done⟩ := bind_eq_ok.mp done
    split at done
    · obtain rfl := Except.ok.inj done
      exact Writes.refl store
    · rename_i absent
      obtain ⟨⟨created, id⟩, upserted, same⟩ := bind_eq_ok.mp done
      obtain rfl := Except.ok.inj same
      refine writes_upsert upserted (by simp) ?_ ?_ (by simp)
      · intro key row found existing
        obtain rfl := identityKey_addr found
        obtain ⟨member, keyed⟩ := Table.lookup_eq_some.mp existing
        have missing := List.find?_eq_none.mp absent row member
        simp [keyed] at missing
      · intro key _ _
        exact .of_same rfl rfl rfl (fun unowned => unowned) (by simp [Fields.initial])

theorem writes_ensureLifecycleAddresses {entries : List (Addr × Bool)}
    (done : store.ensureLifecycleAddresses env now subnetId entries = .ok after) :
    Writes may store after := by
  refine foldlM_invariant ?_ done (Writes.refl store)
  intro entry _ before next reached step
  exact reached.trans (writes_ensureAddress step)

end

end Cidrella
