import Cidrella.Lib.KeyedLoop
import Cidrella.LifecycleWrites
import Cidrella.PlannedGateways
import Cidrella.RecordNames

/-!
# Topology's addresses

`reconcileTopologyAddresses` after the network or the gateway of a subnet has changed:
former topology addresses go to the record that names them or are released, and the
network address, the broadcast address and the gateway are protected.

Both loops write one address a turn, so each is read off from its turns. The second one
asks the transition table, and the table has no step between the roles `system` and
`gateway`: where a point-to-point network is merged, its gateway becomes a network
address, and the reconciliation is refused. The first one writes the host name itself, by
joining the record's name and its zone.
`reconcile_projects_iff` says that these, and addresses that need an interface, are all
that keeps the rows from being what topology says.
-/

set_option autoImplicit false

namespace Cidrella

open Network DnsNames

/-! ## Plain addresses -/

/-- The interface triggers of `ip_addresses`: a row has an interface exactly when its
address looks link-local. -/
def Scoped (store : IpStore) : Prop :=
  ∀ row ∈ store.table.rows, row.key.addr.looksLinkLocal = row.key.interfaceId.isSome

/-- The key of an address without an interface. -/
def plainKey (subnetId : Nat) (addr : Addr) : IpKey := ⟨subnetId, addr, none⟩

theorem plainKey_injective {subnetId : Nat} {addr other : Addr}
    (same : plainKey subnetId addr = plainKey subnetId other) : addr = other :=
  congrArg IpKey.addr same

theorem isV6LinkLocal_eq_false {addr : Addr} (plain : addr.looksLinkLocal = false) :
    addr.isV6LinkLocal = false := by
  by_contra linkLocal
  simp only [Bool.not_eq_false, Addr.isV6LinkLocal, Bool.and_eq_true,
    decide_eq_true_eq] at linkLocal
  obtain ⟨⟨family, low⟩, high⟩ := linkLocal
  have group : 0xfe80 ≤ addr.value / 2 ^ 112 ∧ addr.value / 2 ^ 112 ≤ 0xfebf := by
    simp only [Nat.shiftLeft_eq] at low high
    omega
  have looks : addr.looksLinkLocal = true := by
    simp only [Addr.looksLinkLocal, family, group.1, group.2, decide_true, Bool.and_self,
      Bool.true_or]
  rw [looks] at plain
  cases plain

theorem identityKey_plain (subnetId : Nat) {addr : Addr} (plain : addr.looksLinkLocal = false) :
    identityKey subnetId addr = .ok (plainKey subnetId addr) := by
  have linkLocal := isV6LinkLocal_eq_false plain
  simp only [identityKey, canonicalIdentity, linkLocal]
  rfl

theorem create_eq_ok {store after : IpStore} {env : Env} {key : IpKey} {info : IpInfo}
    {types : List EventType} {id : Nat} (done : store.create env key info types = .ok (after, id)) :
    key.addr.looksLinkLocal = key.interfaceId.isSome ∧
      ∃ table, store.table.insert key info = some table ∧ after.table = table := by
  rw [IpStore.create] at done
  split at done
  · cases done
  · split at done
    · cases done
    · rename_i looks
      split at done
      · cases done
      · rename_i table inserted
        obtain ⟨rfl, -⟩ := Prod.mk.inj (Except.ok.inj done)
        exact ⟨not_not.mp looks, table, inserted, IpStore.emitAll_table ..⟩

section Claims

variable {store after : IpStore} {env : Env} {now subnetId : Nat} {addr : Addr}
  {state : AllocationState} {sourceType : Option LifecycleSource} {sourceId : Option Nat}
  {fields : Fields}

/-- What an accepted `setCanonicalAllocation` of an address says and does. -/
theorem setCanonicalAllocation_plain (schema : Scoped store)
    (done : store.setCanonicalAllocation env now subnetId addr state sourceType sourceId fields =
      .ok after) :
    addr.looksLinkLocal = false ∧ Scoped after ∧
      (∀ other, other ≠ plainKey subnetId addr →
        after.table.lookup other = store.table.lookup other) ∧
      ∃ row, after.table.lookup (plainKey subnetId addr) = some row ∧
        row.info.allocationState = state ∧ row.info.allocationSourceType = sourceType ∧
        row.info.allocationSourceId = sourceId ∧
        ∀ hostname, (store.table.lookup (plainKey subnetId addr)).isSome →
          fields.hostname = some hostname → row.info.hostname = hostname := by
  obtain ⟨⟨reached, id⟩, upserted, same⟩ := bind_eq_ok.mp done
  obtain rfl := Except.ok.inj same
  obtain ⟨key, found, written⟩ := bind_eq_ok.mp upserted
  obtain rfl : key = plainKey subnetId addr := identityKey_addr found
  cases existing : store.table.lookup (plainKey subnetId addr) with
  | some old =>
    rw [existing] at written
    obtain ⟨rfl, rfl⟩ := Prod.mk.inj (Except.ok.inj written)
    obtain ⟨member, isKey⟩ := Table.lookup_eq_some.mp existing
    have plain : addr.looksLinkLocal = false := by
      have row := schema old member
      rw [isKey] at row
      exact row
    simp only [IpStore.emitAll_table, IpStore.setInfo]
    refine ⟨plain, fun row within => ?_, fun other differs => ?_, ?_⟩
    · rw [IpStore.emitAll_table] at within
      obtain ⟨before, memberBefore, rfl⟩ := Table.mem_update.mp within
      split <;> exact schema before memberBefore
    · rw [Table.lookup_update]
      cases read : store.table.lookup other with
      | none => rfl
      | some row =>
        obtain ⟨memberRow, isOther⟩ := Table.lookup_eq_some.mp read
        have id : ¬ (row.id == old.id) = true := by
          intro same
          obtain rfl := store.table.eq_of_id_eq memberRow member (beq_iff_eq.mp same)
          exact differs (isOther.symm.trans isKey)
        rw [Option.map_some, if_neg id]
    · refine ⟨_, (Table.lookup_update _ _ _ _).trans (by rw [existing]; rfl), ?_⟩
      simp only [BEq.rfl, if_true, Fields.apply]
      refine ⟨rfl, rfl, rfl, fun hostname _ given => ?_⟩
      simp [IpStore.spread, given]
  | none =>
    rw [existing] at written
    obtain ⟨looks, table, inserted, isTable⟩ := create_eq_ok written
    rw [isTable]
    refine ⟨looks, fun row within => ?_, fun other differs => ?_, ?_⟩
    · rw [isTable] at within
      rcases (Table.mem_insert inserted).mp within with old | rfl
      · exact schema row old
      · exact looks
    · rw [Table.lookup_insert inserted, if_neg differs]
    · refine ⟨_, (Table.lookup_insert inserted _).trans (if_pos rfl), rfl, rfl, rfl, ?_⟩
      exact fun _ some => absurd some (by simp)

theorem setCanonicalAllocation_succeeds (managed : (env.subnets.byId subnetId).isSome)
    (plain : addr.looksLinkLocal = false) :
    ∃ after, store.setCanonicalAllocation env now subnetId addr state sourceType sourceId fields =
      .ok after := by
  suffices upserted : ∃ result, store.upsert env now subnetId addr
      (claimFields state sourceType sourceId fields) = .ok result by
    obtain ⟨result, upserted⟩ := upserted
    exact ⟨result.1, bind_eq_ok.mpr ⟨result, upserted, rfl⟩⟩
  have key := identityKey_plain subnetId plain
  rw [IpStore.upsert, key]
  dsimp only [Bind.bind, Except.bind]
  cases existing : store.table.lookup (plainKey subnetId addr) with
  | some old => exact ⟨_, rfl⟩
  | none =>
    have known : ¬ (env.subnets.byId subnetId).isNone = true := by
      simpa using Option.isSome_iff_ne_none.mp managed
    have free : ∀ info : IpInfo, ∃ table, store.table.insert (plainKey subnetId addr) info =
        some table := fun _ => Table.insert_isSome existing
    obtain ⟨table, inserted⟩ := free ((claimFields state sourceType sourceId fields).initial now)
    simp only [IpStore.create]
    rw [if_neg (by exact known), if_neg (by exact not_not.mpr plain), inserted]
    exact ⟨_, rfl⟩

end Claims

/-! ## The turns of the two loops -/

/-- The record that takes a former topology address over: the lowest manual one that
names it and is served. -/
def Env.servedRecord (env : Env) (addr : Addr) : Option DnsRecord :=
  lowest (env.records.filter fun record => env.names addr record && env.isServed record)

/-- The name of a record's zone. -/
def Env.zoneName (env : Env) (record : DnsRecord) : Text :=
  ((env.zoneOf record).map (·.name)).getD []

theorem releaseFormerTopology_of_served {env : Env} {now subnetId : Nat} {addr : Addr}
    {record : DnsRecord} (store : IpStore) (served : env.servedRecord addr = some record) :
    store.releaseFormerTopology env now subnetId addr =
      store.setCanonicalAllocation env now subnetId addr .staticDns (some .dns) (some record.id)
        { hostname := some (some (joinFqdn record.name (env.zoneName record)))
          reservationNote := some none
          detectionSource := some (some .dns) } := by
  unfold IpStore.releaseFormerTopology
  split
  · rename_i other lowest
    obtain rfl := Option.some.inj (lowest.symm.trans served)
    rfl
  · rename_i lowest
    exact nomatch lowest.symm.trans served

theorem releaseFormerTopology_of_unserved {env : Env} {now subnetId : Nat} {addr : Addr}
    (store : IpStore) (unserved : env.servedRecord addr = none) :
    store.releaseFormerTopology env now subnetId addr =
      store.setCanonicalAllocation env now subnetId addr .unassigned none none
        { reservationNote := some none
          detectionSource := some none
          isOnline := some false
          isRogue := some false
          rogueReason := some none } := by
  unfold IpStore.releaseFormerTopology
  split
  · rename_i other lowest
    exact nomatch lowest.symm.trans unserved
  · rfl

/-- What the first loop makes of a former topology address. -/
def Released (env : Env) (addr : Addr) (old : Option IpRow) (row : IpRow) : Prop :=
  match env.servedRecord addr with
  | some record =>
    row.info.allocationState = .staticDns ∧ row.info.allocationSourceType = some .dns ∧
      row.info.allocationSourceId = some record.id ∧
      (old.isSome → row.info.hostname = some (joinFqdn record.name (env.zoneName record)))
  | none =>
    row.info.allocationState = .unassigned ∧ row.info.allocationSourceType = none

/-- An entry that the second loop may protect. -/
def Protectable (entry : Addr × AllocationState) (old : Option IpRow) : Prop :=
  entry.1.looksLinkLocal = false ∧ (entry.2 = .system ∨ entry.2 = .gateway) ∧
    (IpStore.stateOf old = .unassigned ∨ IpStore.stateOf old = entry.2)

theorem canTransition_topology_iff {current role : AllocationState}
    (isRole : role = .system ∨ role = .gateway) :
    canTransitionAllocation current role .topology = true ↔
      current = .unassigned ∨ current = role := by
  rcases isRole with rfl | rfl <;> cases current <;> decide

section Turns

variable {env : Env} {now subnetId : Nat} (managed : (env.subnets.byId subnetId).isSome)

include managed

theorem turnsAt_release : TurnsAt (fun store key => store.table.lookup key) Scoped
    (fun store addr => store.releaseFormerTopology env now subnetId addr) (plainKey subnetId)
    (fun addr _ => addr.looksLinkLocal = false) (Released env) := by
  have turn : ∀ (store after : IpStore) (addr : Addr), Scoped store →
      store.releaseFormerTopology env now subnetId addr = .ok after →
      addr.looksLinkLocal = false ∧ Scoped after ∧
        (∀ other, other ≠ plainKey subnetId addr →
          after.table.lookup other = store.table.lookup other) ∧
        ∃ row, after.table.lookup (plainKey subnetId addr) = some row ∧
          Released env addr (store.table.lookup (plainKey subnetId addr)) row := by
    intro store after addr schema done
    unfold Released
    cases served : env.servedRecord addr with
    | some record =>
      rw [releaseFormerTopology_of_served store served] at done
      obtain ⟨plain, kept, frame, row, written, state, sourceType, sourceId, hostname⟩ :=
        setCanonicalAllocation_plain schema done
      exact ⟨plain, kept, frame, row, written, state, sourceType, sourceId,
        fun old => hostname _ old rfl⟩
    | none =>
      rw [releaseFormerTopology_of_unserved store served] at done
      obtain ⟨plain, kept, frame, row, written, state, sourceType, -⟩ :=
        setCanonicalAllocation_plain schema done
      exact ⟨plain, kept, frame, row, written, state, sourceType⟩
  exact
    { succeeds := fun store addr _ plain => by
        unfold IpStore.releaseFormerTopology
        split
        · exact setCanonicalAllocation_succeeds managed plain
        · exact setCanonicalAllocation_succeeds managed plain
      ready := fun store addr after schema done => (turn store after addr schema done).1
      kept := fun store addr after schema done => (turn store after addr schema done).2.1
      frame := fun store addr after other schema done =>
        (turn store after addr schema done).2.2.1 other
      effect := fun store addr after schema done => (turn store after addr schema done).2.2.2 }

theorem turnsAt_protect : TurnsAt (fun store key => store.table.lookup key) Scoped
    (fun store entry => store.protectTopologyAddress env now subnetId entry.1 entry.2
      (some (IpStore.topologyNote entry.2)))
    (fun entry => plainKey subnetId entry.1) Protectable
    (fun entry _ row => row.info.allocationState = entry.2 ∧
      row.info.allocationSourceType = some .topology) := by
  have turn : ∀ (store after : IpStore) (entry : Addr × AllocationState), Scoped store →
      store.protectTopologyAddress env now subnetId entry.1 entry.2
        (some (IpStore.topologyNote entry.2)) = .ok after →
      Protectable entry (store.table.lookup (plainKey subnetId entry.1)) ∧ Scoped after ∧
        (∀ other, other ≠ plainKey subnetId entry.1 →
          after.table.lookup other = store.table.lookup other) ∧
        ∃ row, after.table.lookup (plainKey subnetId entry.1) = some row ∧
          row.info.allocationState = entry.2 ∧ row.info.allocationSourceType = some .topology := by
    intro store after entry schema done
    unfold IpStore.protectTopologyAddress at done
    split at done
    · cases done
    · rename_i notRole
      have isRole : entry.2 = .system ∨ entry.2 = .gateway := by
        by_contra neither
        rw [not_or] at neither
        exact notRole (by simpa using neither)
      obtain ⟨_, allowed, done⟩ := bind_eq_ok.mp done
      obtain ⟨plain, kept, frame, row, written, state, sourceType, -⟩ :=
        setCanonicalAllocation_plain schema done
      have change := ((assertAllocationTransition_ok_iff
        (identityKey_plain subnetId plain)).mp allowed).2
      have step := change.resolve_left (by
        rintro ⟨-, unassigned⟩
        rcases isRole with role | role <;> rw [unassigned] at role <;> cases role)
      exact ⟨⟨plain, isRole, (canTransition_topology_iff isRole).mp step⟩, kept, frame, row,
        written, state, sourceType⟩
  exact
    { succeeds := fun store entry _ ready => by
        obtain ⟨plain, isRole, free⟩ := ready
        obtain ⟨after, written⟩ : ∃ after, store.setCanonicalAllocation env now subnetId entry.1
            entry.2 (some .topology) none
            { reservationNote := some (some (IpStore.topologyNote entry.2))
              detectionSource := some (some .topology) } = .ok after :=
          setCanonicalAllocation_succeeds managed plain
        have allowed : store.assertAllocationTransition env subnetId entry.1 entry.2 .topology =
            .ok () :=
          (assertAllocationTransition_ok_iff (identityKey_plain subnetId plain)).mpr
            ⟨.inr (or_assoc.mp (.inl isRole)), .inr ((canTransition_topology_iff isRole).mpr free)⟩
        have role : ¬ (entry.2 ≠ .system && entry.2 ≠ .gateway : Bool) = true := by
          rcases isRole with role | role <;> simp [role]
        refine ⟨after, ?_⟩
        rw [IpStore.protectTopologyAddress, if_neg role]
        exact bind_eq_ok.mpr ⟨(), allowed, written⟩
      ready := fun store addr after schema done => (turn store after addr schema done).1
      kept := fun store addr after schema done => (turn store after addr schema done).2.1
      frame := fun store addr after other schema done =>
        (turn store after addr schema done).2.2.1 other
      effect := fun store addr after schema done => (turn store after addr schema done).2.2.2 }

end Turns

/-! ## What topology wants -/

section Desired

variable {net : Network} {gateway : Option Addr}

theorem topologyAddresses_nodup (net : Network) : net.topologyAddresses.Nodup := by
  unfold topologyAddresses
  split
  · exact List.nodup_nil
  · rename_i reserves
    cases family : net.family with
    | v6 => exact List.nodup_singleton _
    | v4 =>
      have avoids : net.AvoidsMapped := fun six => absurd (family.symm.trans six) (by decide)
      have reach := net.networkBig_le_lastBig
      have four := four_le_sizeBig (Nat.lt_of_not_le reserves)
      have last := net.lastBig_eq
      have low := (addressAt_of_hasValue avoids ⟨le_rfl, reach⟩).2
      have high := (addressAt_of_hasValue avoids ⟨reach, le_rfl⟩).2
      rw [family] at low high
      refine List.nodup_cons.mpr ⟨fun same => ?_, List.nodup_singleton _⟩
      have value := congrArg Addr.value (List.mem_singleton.mp same)
      rw [low, high] at value
      omega

variable (usable : ∀ addr, gateway = some addr → UsableIn net addr)

include usable

theorem desiredTopology_eq : IpStore.desiredTopology net gateway =
    (net.topologyAddresses.map fun addr => (addr, AllocationState.system)) ++
      (gateway.toList.map fun addr => (addr, AllocationState.gateway)) := by
  have own : (net.topologyAddresses.map fun addr =>
      (addr, if gateway = some addr then AllocationState.gateway else .system)) =
      net.topologyAddresses.map fun addr => (addr, AllocationState.system) := by
    refine List.map_congr_left fun addr member => ?_
    rw [if_neg fun isGateway => (usable addr isGateway).2 member]
  unfold IpStore.desiredTopology
  rw [own]
  cases gateway with
  | none => simp
  | some addr => simp [(usable addr rfl).2]

theorem mem_desiredTopology {entry : Addr × AllocationState} :
    entry ∈ IpStore.desiredTopology net gateway ↔
      (entry.1 ∈ net.topologyAddresses ∧ entry.2 = .system) ∨
        (gateway = some entry.1 ∧ entry.2 = .gateway) := by
  obtain ⟨addr, state⟩ := entry
  rw [desiredTopology_eq usable]
  simp [eq_comm, and_comm]

theorem desiredTopology_nodup :
    ((IpStore.desiredTopology net gateway).map Prod.fst).Nodup := by
  have first : (IpStore.desiredTopology net gateway).map Prod.fst =
      net.topologyAddresses ++ gateway.toList := by
    rw [desiredTopology_eq usable]
    simp [Function.comp_def]
  rw [first]
  refine List.nodup_append.mpr ⟨topologyAddresses_nodup net, ?_, fun addr own other isGateway => ?_⟩
  · cases gateway <;> simp
  · rintro rfl
    exact (usable addr (by simpa using isGateway)).2 own

end Desired

/-! ## The projection -/

/-- The rows of topology are the network's own addresses and the gateway, and what was
topology's before is a record's or free. -/
structure Projects (store after : IpStore) (env : Env) (subnetId : Nat) (net : Network)
    (gateway : Option Addr) : Prop where
  exact : ∀ addr state, (∃ row ∈ after.table.rows, row.key.subnetId = subnetId ∧
      row.key.addr = addr ∧ row.info.allocationSourceType = some .topology ∧
      row.info.allocationState = state) ↔
    (addr ∈ net.topologyAddresses ∧ state = .system) ∨ (gateway = some addr ∧ state = .gateway)
  former : ∀ old ∈ store.table.rows, old.key.subnetId = subnetId →
    old.info.allocationSourceType = some .topology → old.key.addr ∉ net.topologyAddresses →
    gateway ≠ some old.key.addr → ∃ row ∈ after.table.rows, row.key = old.key ∧
      match env.servedRecord old.key.addr with
      | some record =>
        row.info.allocationState = .staticDns ∧ row.info.allocationSourceType = some .dns ∧
          row.info.allocationSourceId = some record.id ∧
          row.info.hostname = some (env.fqdn record)
      | none => row.info.allocationState = .unassigned ∧ row.info.allocationSourceType = none

/-- The addresses topology had and no longer wants. -/
def Former (store : IpStore) (subnetId : Nat) (net : Network) (gateway : Option Addr)
    (addr : Addr) : Prop :=
  addr ∉ net.topologyAddresses ∧ gateway ≠ some addr ∧ ∃ row ∈ store.table.rows,
    row.key.subnetId = subnetId ∧ row.info.allocationSourceType = some .topology ∧
      row.key.addr = addr

/-- The addresses topology wants. -/
def Wanted (net : Network) (gateway : Option Addr) (addr : Addr) : Prop :=
  addr ∈ net.topologyAddresses ∨ gateway = some addr

/-- No address needs an interface, no protected address changes its role, and the records
that take addresses over have names that are `@` or relative. -/
structure Reconcilable (store : IpStore) (env : Env) (subnetId : Nat) (net : Network)
    (gateway : Option Addr) : Prop where
  plain : ∀ addr, Wanted net gateway addr ∨ Former store subnetId net gateway addr →
    addr.looksLinkLocal = false
  systemRole : ∀ row ∈ store.table.rows, row.key.subnetId = subnetId →
    row.key.addr ∈ net.topologyAddresses → row.info.allocationState ≠ .gateway
  gatewayRole : ∀ row ∈ store.table.rows, row.key.subnetId = subnetId →
    gateway = some row.key.addr → row.info.allocationState ≠ .system
  names : ∀ addr record, Former store subnetId net gateway addr →
    env.servedRecord addr = some record → IsPlain record.name (env.zoneName record)

section Projection

variable {store : IpStore} {env : Env} {now subnetId : Nat} {net : Network} {gateway : Option Addr}

theorem mem_formerTopology (usable : ∀ addr, gateway = some addr → UsableIn net addr)
    {addr : Addr} :
    addr ∈ store.formerTopology subnetId net gateway ↔ Former store subnetId net gateway addr := by
  have outside : addr ∉ (IpStore.desiredTopology net gateway).map Prod.fst ↔
      addr ∉ net.topologyAddresses ∧ gateway ≠ some addr := by
    rw [desiredTopology_eq usable]
    simp [Function.comp_def]
  unfold IpStore.formerTopology Former
  rw [List.mem_map, ← and_assoc, ← outside]
  constructor
  · rintro ⟨row, member, rfl⟩
    obtain ⟨within, test⟩ := List.mem_filter.mp member
    simp only [Bool.and_eq_true, decide_eq_true_eq] at test
    exact ⟨test.2, row, within, test.1.1, test.1.2, rfl⟩
  · rintro ⟨absent, row, member, subnet, source, rfl⟩
    refine ⟨row, List.mem_filter.mpr ⟨member, ?_⟩, rfl⟩
    simp only [Bool.and_eq_true, decide_eq_true_eq]
    exact ⟨⟨subnet, source⟩, absent⟩

theorem key_eq_plainKey (schema : Scoped store) {row : IpRow} (member : row ∈ store.table.rows)
    (subnet : row.key.subnetId = subnetId) (plain : row.key.addr.looksLinkLocal = false) :
    row.key = plainKey subnetId row.key.addr := by
  have interface := schema row member
  rw [plain] at interface
  have none : row.key.interfaceId = none := Option.not_isSome_iff_eq_none.mp (by simp [← interface])
  obtain ⟨id, ⟨subnet', addr, interfaceId⟩, info⟩ := row
  simp only at subnet none
  rw [subnet, none]
  rfl

theorem formerTopology_nodup (schema : Scoped store)
    (plain : ∀ addr ∈ store.formerTopology subnetId net gateway, addr.looksLinkLocal = false) :
    (store.formerTopology subnetId net gateway).Nodup := by
  unfold IpStore.formerTopology at plain ⊢
  refine List.Nodup.map_on ?_ ((List.Nodup.of_map _ store.table.keysDistinct).filter _)
  intro row member other member' same
  have test := (List.mem_filter.mp member).2
  have test' := (List.mem_filter.mp member').2
  simp only [Bool.and_eq_true, decide_eq_true_eq] at test test'
  have within := (List.mem_filter.mp member).1
  have within' := (List.mem_filter.mp member').1
  refine store.table.eq_of_key_eq within within' ?_
  rw [key_eq_plainKey schema within test.1.1 (plain _ (List.mem_map_of_mem member)),
    key_eq_plainKey schema within' test'.1.1 (plain _ (List.mem_map_of_mem member')), same]

section Reconciling

variable (managed : (env.subnets.byId subnetId).isSome) (schema : Scoped store)
  (usable : ∀ addr, gateway = some addr → UsableIn net addr)

theorem desired_not_former {entry : Addr × AllocationState}
    (usable : ∀ addr, gateway = some addr → UsableIn net addr)
    (member : entry ∈ IpStore.desiredTopology net gateway) :
    plainKey subnetId entry.1 ∉
      (store.formerTopology subnetId net gateway).map (plainKey subnetId) := by
  intro isFormer
  obtain ⟨addr, former, same⟩ := List.mem_map.mp isFormer
  obtain ⟨notOwn, notGateway, -⟩ := (mem_formerTopology usable).mp former
  obtain rfl := plainKey_injective same
  rcases (mem_desiredTopology usable).mp member with ⟨own, -⟩ | ⟨isGateway, -⟩
  · exact notOwn own
  · exact notGateway isGateway

theorem desiredKeys_nodup (usable : ∀ addr, gateway = some addr → UsableIn net addr) :
    ((IpStore.desiredTopology net gateway).map fun entry => plainKey subnetId entry.1).Nodup := by
  have keys := (desiredTopology_nodup usable).map
    (f := plainKey subnetId) fun _ _ => plainKey_injective
  rwa [List.map_map] at keys

theorem formerKeys_nodup (schema : Scoped store)
    (plain : ∀ addr ∈ store.formerTopology subnetId net gateway, addr.looksLinkLocal = false) :
    ((store.formerTopology subnetId net gateway).map (plainKey subnetId)).Nodup :=
  (formerTopology_nodup schema plain).map fun _ _ => plainKey_injective

include managed schema usable

/-- The two loops succeed exactly when the former addresses are plain and the wanted ones
may be protected. -/
theorem reconcile_succeeds_iff :
    (∃ after, store.reconcileTopologyAddresses env now subnetId net gateway = .ok after) ↔
      (∀ addr ∈ store.formerTopology subnetId net gateway, addr.looksLinkLocal = false) ∧
        ∀ entry ∈ IpStore.desiredTopology net gateway,
          Protectable entry (store.table.lookup (plainKey subnetId entry.1)) := by
  have release := @turnsAt_release env now subnetId managed
  have protect := @turnsAt_protect env now subnetId managed
  have wanted := @desiredKeys_nodup subnetId net gateway usable
  -- the first loop leaves what the second one reads
  have second : ∀ released,
      (store.formerTopology subnetId net gateway).foldlM
        (fun store addr => store.releaseFormerTopology env now subnetId addr) store = .ok released →
      (∀ addr ∈ store.formerTopology subnetId net gateway, addr.looksLinkLocal = false) →
      ((∃ after, (IpStore.desiredTopology net gateway).foldlM
        (fun store entry => store.protectTopologyAddress env now subnetId entry.1 entry.2
          (some (IpStore.topologyNote entry.2))) released = .ok after) ↔
        ∀ entry ∈ IpStore.desiredTopology net gateway,
          Protectable entry (store.table.lookup (plainKey subnetId entry.1))) := by
    intro released first plain
    obtain ⟨schemaReleased, frame, -⟩ :=
      release.spec (formerKeys_nodup schema plain) schema first
    refine (protect.succeeds_iff wanted schemaReleased).trans (forall₂_congr fun entry member => ?_)
    rw [frame _ (desired_not_former usable member)]
  constructor
  · rintro ⟨after, done⟩
    obtain ⟨released, first, rest⟩ := bind_eq_ok.mp done
    have plain : ∀ addr ∈ store.formerTopology subnetId net gateway,
        addr.looksLinkLocal = false := by
      intro addr member
      obtain ⟨-, -, plain⟩ := release.ready_of_done schema first addr member
      exact plain
    exact ⟨plain, (second released first plain).mp ⟨after, rest⟩⟩
  · rintro ⟨plain, ready⟩
    obtain ⟨released, first⟩ :=
      (release.succeeds_iff (formerKeys_nodup schema plain) schema).mpr plain
    obtain ⟨after, rest⟩ := (second released first plain).mpr ready
    exact ⟨after, bind_eq_ok.mpr ⟨released, first, rest⟩⟩

theorem reconcile_spec {after : IpStore}
    (done : store.reconcileTopologyAddresses env now subnetId net gateway = .ok after) :
    Scoped after ∧
      (∀ addr ∈ store.formerTopology subnetId net gateway,
        ∃ row, after.table.lookup (plainKey subnetId addr) = some row ∧
          Released env addr (store.table.lookup (plainKey subnetId addr)) row) ∧
      (∀ entry ∈ IpStore.desiredTopology net gateway,
        ∃ row, after.table.lookup (plainKey subnetId entry.1) = some row ∧
          row.info.allocationState = entry.2 ∧ row.info.allocationSourceType = some .topology) ∧
      ∀ key, key ∉ (store.formerTopology subnetId net gateway).map (plainKey subnetId) →
        key ∉ (IpStore.desiredTopology net gateway).map (fun entry => plainKey subnetId entry.1) →
        after.table.lookup key = store.table.lookup key := by
  obtain ⟨plain, -⟩ := (reconcile_succeeds_iff managed schema usable).mp ⟨after, done⟩
  obtain ⟨released, first, second⟩ := bind_eq_ok.mp done
  obtain ⟨schemaReleased, frame, freed⟩ :=
    (turnsAt_release managed).spec (formerKeys_nodup schema plain) schema first
  obtain ⟨schemaAfter, frame', taken⟩ :=
    (turnsAt_protect managed).spec (desiredKeys_nodup usable) schemaReleased second
  refine ⟨schemaAfter, fun addr member => ?_, taken, fun key notFormer notWanted => ?_⟩
  · obtain ⟨row, written, effect⟩ := freed addr member
    refine ⟨row, (frame' _ fun isWanted => ?_).trans written, effect⟩
    obtain ⟨entry, inDesired, same⟩ := List.mem_map.mp isWanted
    have isFormer := List.mem_map_of_mem (f := plainKey subnetId) member
    rw [← same] at isFormer
    exact desired_not_former usable inDesired isFormer
  · exact (frame' key notWanted).trans (frame key notFormer)

/-- After the reconciliation, topology's rows are the wanted addresses. -/
theorem reconcile_exact {after : IpStore}
    (done : store.reconcileTopologyAddresses env now subnetId net gateway = .ok after)
    (addr : Addr) (state : AllocationState) :
    (∃ row ∈ after.table.rows, row.key.subnetId = subnetId ∧ row.key.addr = addr ∧
      row.info.allocationSourceType = some .topology ∧ row.info.allocationState = state) ↔
    (addr ∈ net.topologyAddresses ∧ state = .system) ∨
      (gateway = some addr ∧ state = .gateway) := by
  obtain ⟨plainFormer, ready⟩ := (reconcile_succeeds_iff managed schema usable).mp ⟨after, done⟩
  obtain ⟨schemaAfter, released, protected', frame⟩ := reconcile_spec managed schema usable done
  refine Iff.trans ?_ (@mem_desiredTopology net gateway usable (addr, state))
  constructor
  · rintro ⟨row, member, subnet, rfl, source, rfl⟩
    have isRow := Table.lookup_eq_some.mpr ⟨member, rfl⟩
    by_cases isWanted :
        row.key ∈ (IpStore.desiredTopology net gateway).map fun entry => plainKey subnetId entry.1
    · obtain ⟨entry, inDesired, same⟩ := List.mem_map.mp isWanted
      obtain ⟨written, isWritten, role, -⟩ := protected' entry inDesired
      rw [same, isRow] at isWritten
      obtain rfl := Option.some.inj isWritten
      have addr : row.key.addr = entry.1 := congrArg IpKey.addr same.symm
      rw [addr, role]
      exact inDesired
    · exfalso
      by_cases isFormer : row.key ∈ (store.formerTopology subnetId net gateway).map
        (plainKey subnetId)
      · -- a former address is not topology's any more
        obtain ⟨addr, former, same⟩ := List.mem_map.mp isFormer
        obtain ⟨written, isWritten, effect⟩ := released addr former
        rw [same, isRow] at isWritten
        obtain rfl := Option.some.inj isWritten
        unfold Released at effect
        split at effect
        · rw [effect.2.1] at source
          cases source
        · rw [effect.2] at source
          cases source
      · -- a row that neither loop wrote was topology's before, so it is wanted or former
        rw [frame row.key isFormer isWanted] at isRow
        have before := (Table.lookup_eq_some.mp isRow).1
        by_cases own : ∃ entry ∈ IpStore.desiredTopology net gateway, entry.1 = row.key.addr
        · obtain ⟨entry, inDesired, same⟩ := own
          have plain := (ready entry inDesired).1
          rw [same] at plain
          refine isWanted (List.mem_map.mpr ⟨entry, inDesired, ?_⟩)
          rw [key_eq_plainKey schema before subnet plain, same]
        · have former : row.key.addr ∈ store.formerTopology subnetId net gateway := by
            refine (mem_formerTopology usable).mpr ⟨fun own' => ?_, fun isGateway => ?_,
              row, before, subnet, source, rfl⟩
            · exact own ⟨(row.key.addr, .system),
                (mem_desiredTopology usable).mpr (.inl ⟨own', rfl⟩), rfl⟩
            · exact own ⟨(row.key.addr, .gateway),
                (mem_desiredTopology usable).mpr (.inr ⟨isGateway, rfl⟩), rfl⟩
          refine isFormer (List.mem_map.mpr ⟨_, former, ?_⟩)
          exact (key_eq_plainKey schema before subnet (plainFormer _ former)).symm
  · intro inDesired
    obtain ⟨row, written, role, source⟩ := protected' _ inDesired
    obtain ⟨member, key⟩ := Table.lookup_eq_some.mp written
    exact ⟨row, member, by rw [key]; rfl, by rw [key]; rfl, source, role⟩

end Reconciling

/-- The wanted addresses may all be protected: they are plain, and none has the other
role. -/
theorem protectable_iff (schema : Scoped store)
    (usable : ∀ addr, gateway = some addr → UsableIn net addr)
    (prior : ∀ row ∈ store.table.rows, row.key.subnetId = subnetId →
      Wanted net gateway row.key.addr → row.info.allocationState = .unassigned ∨
        row.info.allocationState = .system ∨ row.info.allocationState = .gateway) :
    (∀ entry ∈ IpStore.desiredTopology net gateway,
      Protectable entry (store.table.lookup (plainKey subnetId entry.1))) ↔
    (∀ addr, Wanted net gateway addr → addr.looksLinkLocal = false) ∧
      (∀ row ∈ store.table.rows, row.key.subnetId = subnetId →
        row.key.addr ∈ net.topologyAddresses → row.info.allocationState ≠ .gateway) ∧
      ∀ row ∈ store.table.rows, row.key.subnetId = subnetId →
        gateway = some row.key.addr → row.info.allocationState ≠ .system := by
  have mem := @mem_desiredTopology net gateway usable
  constructor
  · intro ready
    have role : ∀ row ∈ store.table.rows, row.key.subnetId = subnetId → ∀ state,
        (row.key.addr, state) ∈ IpStore.desiredTopology net gateway →
        row.info.allocationState = .unassigned ∨ row.info.allocationState = state := by
      intro row member subnet state inDesired
      obtain ⟨plain, -, free⟩ := ready _ inDesired
      have found := Table.lookup_eq_some.mpr ⟨member, key_eq_plainKey schema member subnet plain⟩
      rwa [found] at free
    refine ⟨fun addr wanted => ?_, fun row member subnet own => ?_,
      fun row member subnet isGateway => ?_⟩
    · rcases wanted with own | isGateway
      · exact (ready (addr, .system) (mem.mpr (.inl ⟨own, rfl⟩))).1
      · exact (ready (addr, .gateway) (mem.mpr (.inr ⟨isGateway, rfl⟩))).1
    · rcases role row member subnet .system (mem.mpr (.inl ⟨own, rfl⟩)) with state | state <;>
        simp [state]
    · rcases role row member subnet .gateway
        (mem.mpr (.inr ⟨isGateway, rfl⟩)) with state | state <;>
        simp [state]
  · rintro ⟨plain, systemRole, gatewayRole⟩ entry inDesired
    have wanted : Wanted net gateway entry.1 := (mem.mp inDesired).imp And.left And.left
    refine ⟨plain _ wanted, (mem.mp inDesired).imp And.right And.right, ?_⟩
    cases found : store.table.lookup (plainKey subnetId entry.1) with
    | none => exact .inl rfl
    | some row =>
      obtain ⟨member, key⟩ := Table.lookup_eq_some.mp found
      have subnet : row.key.subnetId = subnetId := by
        rw [key]
        rfl
      have addr : row.key.addr = entry.1 := by
        rw [key]
        rfl
      have states := prior row member subnet (addr ▸ wanted)
      change row.info.allocationState = .unassigned ∨ row.info.allocationState = entry.2
      rcases mem.mp inDesired with ⟨own, role⟩ | ⟨isGateway, role⟩
      · have notGateway := systemRole row member subnet (addr ▸ own)
        rw [role]
        tauto
      · have notSystem := gatewayRole row member subnet (addr ▸ isGateway)
        rw [role]
        tauto

/-- **Topology is projected exactly, or refused.** For rows that hold each wanted address
free or as topology's, the reconciliation succeeds and leaves topology's rows as topology
says exactly when no protected address changes its role, no address needs an interface and
no record is named by a name that is not joined as it is served. -/
theorem reconcile_projects_iff {subnet : SubnetRow}
    (isSubnet : env.subnets.byId subnetId = some subnet) (schema : Scoped store)
    (usable : ∀ addr, gateway = some addr → UsableIn subnet.key addr)
    (prior : ∀ row ∈ store.table.rows, row.key.subnetId = subnetId →
      Wanted subnet.key gateway row.key.addr → row.info.allocationState = .unassigned ∨
        row.info.allocationState = .system ∨ row.info.allocationState = .gateway) :
    (∃ after, store.reconcileTopologyAddresses env now subnetId subnet.key gateway = .ok after ∧
      Projects store after env subnetId subnet.key gateway) ↔
        Reconcilable store env subnetId subnet.key gateway := by
  have managed : (env.subnets.byId subnetId).isSome := by
    rw [isSubnet]
    rfl
  have succeeds := @reconcile_succeeds_iff store env now subnetId subnet.key gateway managed
    schema usable
  have roles := protectable_iff schema usable prior
  have isFormer := @mem_formerTopology store subnetId subnet.key gateway usable
  constructor
  · rintro ⟨after, done, projects⟩
    obtain ⟨plain, ready⟩ := succeeds.mp ⟨after, done⟩
    obtain ⟨plainWanted, systemRole, gatewayRole⟩ := roles.mp ready
    obtain ⟨-, released, -, -⟩ := reconcile_spec managed schema usable done
    refine ⟨fun addr => ?_, systemRole, gatewayRole, fun addr record former served => ?_⟩
    · rintro (wanted | former)
      · exact plainWanted addr wanted
      · exact plain addr (isFormer.mpr former)
    · -- the row has the joined name, and the served name
      obtain ⟨row, written, effect⟩ := released addr (isFormer.mpr former)
      have plainAddr := plain addr (isFormer.mpr former)
      obtain ⟨notOwn, notGateway, old, member, subnetOld, source, rfl⟩ := former
      obtain ⟨row', member', key, reads⟩ :=
        projects.former old member subnetOld source notOwn notGateway
      have isKey := key_eq_plainKey schema member subnetOld plainAddr
      rw [Table.lookup_eq_some.mpr ⟨member', key.trans isKey⟩] at written
      obtain rfl := Option.some.inj written
      rw [Released, served] at effect
      rw [served] at reads
      have joined := effect.2.2.2 (by rw [Table.lookup_eq_some.mpr ⟨member, isKey⟩]; rfl)
      rw [reads.2.2.2] at joined
      exact joinFqdn_eq_iff_isPlain.mp (Option.some.inj joined).symm
  · rintro ⟨plain, systemRole, gatewayRole, names⟩
    have plainFormer : ∀ addr ∈ store.formerTopology subnetId subnet.key gateway,
        addr.looksLinkLocal = false := fun addr member => plain addr (.inr (isFormer.mp member))
    obtain ⟨after, done⟩ := succeeds.mpr ⟨plainFormer,
      roles.mpr ⟨fun addr wanted => plain addr (.inl wanted), systemRole, gatewayRole⟩⟩
    obtain ⟨-, released, -, -⟩ := reconcile_spec managed schema usable done
    refine ⟨after, done, reconcile_exact managed schema usable done,
      fun old member subnetOld source notOwn notGateway => ?_⟩
    have former : Former store subnetId subnet.key gateway old.key.addr :=
      ⟨notOwn, notGateway, old, member, subnetOld, source, rfl⟩
    have isKey := key_eq_plainKey schema member subnetOld (plain _ (.inr former))
    obtain ⟨row, written, effect⟩ := released _ (isFormer.mpr former)
    obtain ⟨memberRow, key⟩ := Table.lookup_eq_some.mp written
    refine ⟨row, memberRow, key.trans isKey.symm, ?_⟩
    cases served : env.servedRecord old.key.addr with
    | none =>
      rw [Released, served] at effect
      exact effect
    | some record =>
      rw [Released, served] at effect
      obtain ⟨state, sourceType, sourceId, hostname⟩ := effect
      refine ⟨state, sourceType, sourceId, ?_⟩
      rw [hostname (by rw [Table.lookup_eq_some.mpr ⟨member, isKey⟩]; rfl),
        joinFqdn_eq_iff_isPlain.mpr (names _ record former served)]
      rfl

end Projection

/-! ## A merge of point-to-point networks -/

/-- The network `10.0.0.0/30`. -/
def pairNet : Network where
  family := .v4
  networkBig := 0x0a000000
  prefixLen := 30
  prefix_le := Network.ten_prefix_le_30
  aligned := Network.ten_aligned_30
  fits := Network.ten_fits
  unmapped := Network.ten_unmapped

/-- `10.0.0.0/30`, just merged from `10.0.0.0/31` and `10.0.0.2/31`. -/
def pairSubnet : SubnetRow where
  id := 1
  key := pairNet
  info := { status := .allocated, gatewayPolicy := .first, gatewayAddress := some (addressAt .v4
    0x0a000001) }

/-- An environment with that network. -/
def pairEnv : Env :=
  { bareDb.env with
    subnets :=
      { rows := [pairSubnet]
        nextId := 2
        fresh := by decide
        idsDistinct := by decide
        keysDistinct := by decide } }

/-- One row, of an address that was topology's in this role. -/
def topologyRow (value : Nat) (role : AllocationState) : IpStore where
  table :=
    { rows := [⟨1, plainKey 1 (addressAt .v4 value),
        { allocationState := role, allocationSourceType := some .topology }⟩]
      nextId := 2
      fresh := Table.fresh_singleton _
      idsDistinct := by simp
      keysDistinct := by simp }
  events := []

theorem scoped_topologyRow (role : AllocationState) : Scoped (topologyRow 0x0a000000 role) := by
  intro row member
  obtain rfl := List.mem_singleton.mp member
  change (addressAt .v4 0x0a000000).looksLinkLocal = false
  decide

theorem pairSubnet_usable (addr : Addr) (isGateway : some (addressAt .v4 0x0a000001) = some addr) :
    UsableIn pairSubnet.key addr := by
  obtain rfl := Option.some.inj isGateway
  decide

/-- The gateway of `10.0.0.0/31` is its first address, which the merged network keeps for
itself: the merge is refused. -/
theorem gateway_becomes_network :
    ¬ ∀ (store : IpStore) (env : Env) (now subnetId : Nat) (subnet : SubnetRow)
      (gateway : Option Addr), env.subnets.byId subnetId = some subnet → Scoped store →
      (∀ addr, gateway = some addr → UsableIn subnet.key addr) →
      (∀ row ∈ store.table.rows, row.key.subnetId = subnetId →
        Wanted subnet.key gateway row.key.addr → row.info.allocationState = .unassigned ∨
          row.info.allocationState = .system ∨ row.info.allocationState = .gateway) →
      ∃ after, store.reconcileTopologyAddresses env now subnetId subnet.key gateway = .ok after ∧
        Projects store after env subnetId subnet.key gateway := by
  intro always
  have isSubnet : pairEnv.subnets.byId 1 = some pairSubnet := rfl
  have schema := scoped_topologyRow .gateway
  have prior : ∀ row ∈ (topologyRow 0x0a000000 .gateway).table.rows, row.key.subnetId = 1 →
      Wanted pairSubnet.key (some (addressAt .v4 0x0a000001)) row.key.addr →
      row.info.allocationState = .unassigned ∨ row.info.allocationState = .system ∨
        row.info.allocationState = .gateway := by
    intro row member _ _
    obtain rfl := List.mem_singleton.mp member
    exact .inr (.inr rfl)
  obtain ⟨after, done, -⟩ := always _ _ 0 1 _ _ isSubnet schema pairSubnet_usable prior
  have ready :=
    ((reconcile_succeeds_iff (by rw [isSubnet]; rfl) schema pairSubnet_usable).mp ⟨after, done⟩).2
  have systemRole := ((protectable_iff schema pairSubnet_usable prior).mp ready).2.1
  exact systemRole _ (List.mem_singleton_self _) rfl (by decide) rfl

/-- A network address that was one before stays protected. -/
theorem reconcile_projects_pair :
    ∃ after, (topologyRow 0x0a000000 .system).reconcileTopologyAddresses pairEnv 0 1 pairSubnet.key
        (some (addressAt .v4 0x0a000001)) = .ok after ∧
      Projects (topologyRow 0x0a000000 .system) after pairEnv 1 pairSubnet.key
        (some (addressAt .v4 0x0a000001)) := by
  have isSubnet : pairEnv.subnets.byId 1 = some pairSubnet := rfl
  have schema := scoped_topologyRow .system
  have state : ∀ row ∈ (topologyRow 0x0a000000 .system).table.rows,
      row.info.allocationState = .system ∧ row.key.addr = addressAt .v4 0x0a000000 := by
    intro row member
    obtain rfl := List.mem_singleton.mp member
    exact ⟨rfl, rfl⟩
  have noFormer : ∀ addr, ¬ Former (topologyRow 0x0a000000 .system) 1 pairSubnet.key
      (some (addressAt .v4 0x0a000001)) addr := by
    rintro addr ⟨notOwn, -, row, member, -, -, rfl⟩
    rw [(state row member).2] at notOwn
    exact notOwn (by decide)
  refine (reconcile_projects_iff isSubnet schema pairSubnet_usable
    fun row member _ _ => .inr (.inl (state row member).1)).mpr ⟨fun addr => ?_, ?_, ?_, ?_⟩
  · rintro ((own | isGateway) | former)
    · fin_cases own <;> decide
    · obtain rfl := Option.some.inj isGateway
      decide
    · exact absurd former (noFormer addr)
  · intro row member _ _
    rw [(state row member).1]
    decide
  · intro row member _ isGateway
    rw [(state row member).2] at isGateway
    exact absurd isGateway (by decide)
  · exact fun addr _ former _ => absurd former (noFormer addr)

end Cidrella
