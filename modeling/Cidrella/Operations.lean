import Cidrella.ObservationWrites

/-!
# The lifecycle as a system

Every operation of the lifecycle service as one value, `Operation`, and what it does to
the database, `Operation.run`. An operation that throws rolls back and is no step.

`Operation.run_writes` is the one fact about a step that the invariants need: it is a
sequence of writes under the operation's licence.
-/

set_option autoImplicit false

namespace Cidrella

/-- The operations of `services/ip-lifecycle-service.js`. -/
inductive Operation where
  | allocateStaticDns (recordName : Text) (addr : Addr) (zoneName : Text) (recordId : Option Nat)
  | deallocateStaticDns (recordName : Text) (addr : Addr) (zoneName : Text)
  | reconcileDnsHold (addr : Addr)
  | allocateStaticDhcp (subnetId : Nat) (addr : Addr) (fields : IpStore.ReservationFields)
      (reservationId : Option Nat)
  | deallocateStaticDhcp (subnetId : Nat) (addr : Addr) (macAddress : Option Text)
  | setManualReservation (subnetId : Nat) (addr : Addr) (reserved : Bool) (note : Option Text)
  | protectTopologyAddress (subnetId : Nat) (ip : ScopedAddr) (state : AllocationState)
      (note : Option Text)
  | releaseTopologyAddress (subnetId : Nat) (ip : ScopedAddr)
  | reconcileTopologyAddresses (subnetId : Nat) (net : Network) (gateway : Option Addr)
  | ensureAddresses (subnetId : Nat) (entries : List (Addr × Bool))
  | observeDhcpLeases (leases : List IpStore.ObservedLease) (prevalidated : Bool)
  | reconcileExpiredDhcpAllocations
  | observePassiveActivity (subnetId : Nat) (addr : Addr) (mac : Option Text)
      (source : DetectionSource) (createRogue : Bool) (rogueReason : Text)
  | observeScanResult (subnetId : Nat) (addr : Addr) (result : IpStore.ScanResult)
  | reconcileScanRogues (subnetId : Nat) (probedIps exceptIps : List Addr)
  | markStalePassiveAddresses (staleSeconds : Nat)
  | markOffline (subnetId : Nat) (addr : Addr)
  | observeSlaac (subnetId : Nat) (ip : ScopedAddr) (interfaceId : Option Text)
      (preferredUntil validUntil : Option Nat) (temporary : Bool)
  | observeDhcpv6Lease (subnetId : Nat) (addr : Addr) (lease : IpStore.Dhcpv6Lease)
  | observeNeighbor (subnetId : Nat) (ip : ScopedAddr) (interfaceId mac : Option Text)
      (rogueAllowed : Bool) (source : DetectionSource)
  | observeIpv6Presence (subnetId : Nat) (ip : ScopedAddr) (interfaceId mac : Option Text)
      (policy : IpStore.DiscoveryPolicy) (source : DetectionSource)
  | observeRouterAdvertisement (subnetId : Nat) (ip : ScopedAddr) (interfaceId : Option Text)
      (trusted : Bool)
  | beginRetirement (limit : Nat)
  | finishRetirement (eligible : List IpRow)
  | setScanEnabled (subnetId : Nat) (addr : Addr) (scanEnabled : Option Bool)
  | deleteById (id : Nat)
  | deleteBySubnet (subnetId : Nat)
  | deleteByIpAddress (addr : Addr)

namespace Operation

/-- An operation that only writes address rows. -/
def onStore (db : Db) (result : Except Failure IpStore) : Except Failure Db := do
  let store ← result
  .ok ⟨db.env, store⟩

/-- What the operation does, at a time. -/
def run (op : Operation) (db : Db) (now : Nat) : Except Failure Db :=
  match op with
  | allocateStaticDns recordName addr zoneName recordId =>
    onStore db (db.store.allocateStaticDns db.env now recordName addr zoneName recordId)
  | deallocateStaticDns recordName addr zoneName =>
    onStore db (db.store.deallocateStaticDns db.env now recordName addr zoneName)
  | reconcileDnsHold addr => onStore db (db.store.reconcileDnsHold db.env now addr)
  | allocateStaticDhcp subnetId addr fields reservationId =>
    onStore db (db.store.allocateStaticDhcp db.env now subnetId addr fields reservationId)
  | deallocateStaticDhcp subnetId addr macAddress =>
    onStore db (db.store.deallocateStaticDhcp db.env now subnetId addr macAddress)
  | setManualReservation subnetId addr reserved note =>
    onStore db (db.store.setManualReservation db.env now subnetId addr reserved note)
  | protectTopologyAddress subnetId ip state note =>
    onStore db (db.store.protectTopologyAddress db.env now subnetId ip state note)
  | releaseTopologyAddress subnetId ip =>
    onStore db (db.store.releaseTopologyAddress db.env now subnetId ip)
  | reconcileTopologyAddresses subnetId net gateway =>
    onStore db (db.store.reconcileTopologyAddresses db.env now subnetId net gateway)
  | ensureAddresses subnetId entries =>
    onStore db (db.store.ensureLifecycleAddresses db.env now subnetId entries)
  | observeDhcpLeases leases prevalidated => db.observeDhcpLeases now leases prevalidated
  | reconcileExpiredDhcpAllocations => db.reconcileExpiredDhcpAllocations now
  | observePassiveActivity subnetId addr mac source createRogue rogueReason =>
    onStore db (db.store.recordPassiveActivity db.env now subnetId addr mac source createRogue
      rogueReason)
  | observeScanResult subnetId addr result =>
    onStore db (db.store.updateFromScan db.env now subnetId addr result)
  | reconcileScanRogues subnetId probedIps exceptIps =>
    .ok ⟨db.env, db.store.clearRogueAfterScan subnetId probedIps exceptIps⟩
  | markStalePassiveAddresses staleSeconds =>
    .ok ⟨db.env, db.store.bulkMarkStale db.env now staleSeconds⟩
  | markOffline subnetId addr => .ok ⟨db.env, db.store.markOffline now subnetId addr⟩
  | observeSlaac subnetId ip interfaceId preferredUntil validUntil temporary =>
    onStore db (db.store.observeSlaac db.env now subnetId ip interfaceId preferredUntil validUntil
      temporary)
  | observeDhcpv6Lease subnetId addr lease =>
    onStore db (db.store.observeDhcpv6Lease db.env now subnetId addr lease)
  | observeNeighbor subnetId ip interfaceId mac rogueAllowed source =>
    onStore db (db.store.observeNeighbor db.env now subnetId ip interfaceId mac rogueAllowed source)
  | observeIpv6Presence subnetId ip interfaceId mac policy source =>
    onStore db (db.store.observeIpv6Presence db.env now subnetId ip interfaceId mac policy source)
  | observeRouterAdvertisement subnetId ip interfaceId trusted =>
    onStore db (db.store.observeRouterAdvertisement db.env now subnetId ip interfaceId trusted)
  | beginRetirement limit => .ok (db.beginRetirement now limit).1
  | finishRetirement eligible => db.finishRetirement now eligible
  | setScanEnabled subnetId addr scanEnabled =>
    onStore db (db.store.setScanEnabled db.env now subnetId addr scanEnabled)
  | deleteById id => .ok ⟨db.env, db.store.deleteById id⟩
  | deleteBySubnet subnetId => .ok ⟨db.env, db.store.deleteBySubnet subnetId⟩
  | deleteByIpAddress addr => .ok ⟨db.env, db.store.deleteByIpAddress addr⟩

/-! ## Licences -/

/-- The key `reconcileDnsHold` and `deallocateStaticDns` may free: no record holds it. -/
def unheldLeaf (env : Env) (addr : Addr) (key : IpKey) : Prop :=
  ∃ subnet, env.findSubnetForIp addr = some subnet ∧ key = ⟨subnet.id, addr, none⟩ ∧
    IpStore.dnsHoldingRecord env subnet.id addr = none

/-- The rows the operation may release or delete. -/
def frees (op : Operation) (db : Db) (now : Nat) (key : IpKey) : Prop :=
  match op with
  | deallocateStaticDns _ addr _ | reconcileDnsHold addr => unheldLeaf db.env addr key
  | deallocateStaticDhcp subnetId addr _ =>
    key = ⟨subnetId, addr, none⟩ ∨ unheldLeaf db.env addr key
  | setManualReservation subnetId addr reserved _ =>
    reserved = false ∧ (key = ⟨subnetId, addr, none⟩ ∨ unheldLeaf db.env addr key)
  | releaseTopologyAddress subnetId ip => identityKey subnetId ip = .ok key
  | reconcileTopologyAddresses subnetId net gateway =>
    ∃ addr ∈ db.store.formerTopology subnetId net gateway, key = ⟨subnetId, addr, none⟩
  | observeDhcpLeases leases _ => (batchLicence db.env now db.store leases).free key
  | reconcileExpiredDhcpAllocations =>
    db.env.hasActiveLease now key.subnetId key.addr = false ∧
      ∃ row ∈ db.store.table.rows, row.key.subnetId = key.subnetId ∧ row.key.addr = key.addr ∧
        row.info.allocationState = .dynamicDhcp
  | finishRetirement eligible =>
    ∃ row ∈ db.store.table.rows, row.key = key ∧ ∃ candidate ∈ eligible, candidate.id = row.id
  | deleteById id => ∃ row ∈ db.store.table.rows, row.key = key ∧ row.id = id
  | deleteBySubnet subnetId => key.subnetId = subnetId
  | deleteByIpAddress addr => key.addr = addr
  | _ => False

/-- The rows the operation may give a lease. -/
def leases (op : Operation) (key : IpKey) : Prop :=
  match op with
  | deallocateStaticDhcp subnetId addr _ | observeDhcpv6Lease subnetId addr _ =>
    key = ⟨subnetId, addr, none⟩
  | observeDhcpLeases leases _ => inBatch leases key
  | _ => False

/-- The rows the operation may make online without an event: `upsert` records no edge
for a row it inserts. -/
def blinds (op : Operation) (db : Db) (now : Nat) (key : IpKey) : Prop :=
  match op with
  | observeDhcpLeases leases _ => db.store.BlindLease db.env now leases key
  | observeDhcpv6Lease subnetId addr lease =>
    lease.observedActivity = true ∧ key = ⟨subnetId, addr, none⟩ ∧ db.store.table.lookup key = none
  | observeNeighbor subnetId ip interfaceId _ _ _ =>
    identityKey subnetId (IpStore.lifecycleIdentityIp ip interfaceId) = .ok key ∧
      db.store.table.lookup key = none
  | observeIpv6Presence subnetId ip interfaceId _ policy _ =>
    selfAssigns ip policy = false ∧ identityKey subnetId (presenceIdentity ip interfaceId) = .ok key
      ∧ db.store.table.lookup key = none
  | _ => False

/-- All that the operation's writes may do. -/
def licence (op : Operation) (db : Db) (now : Nat) : Licence where
  hold := holders db.env
  free := op.frees db now
  lease := op.leases
  blind := op.blinds db now

theorem onStore_eq_ok {db next : Db} {result : Except Failure IpStore}
    (done : onStore db result = .ok next) : result = .ok next.store ∧ next.env = db.env := by
  obtain ⟨store, reached, same⟩ := bind_eq_ok.mp done
  obtain rfl := Except.ok.inj same
  exact ⟨reached, rfl⟩

theorem onStore_writes {db next : Db} {result : Except Failure IpStore} {may : Licence}
    (done : onStore db result = .ok next)
    (writes : result = .ok next.store → Writes may db.store next.store) :
    db.env.SameHolds next.env ∧ Writes may db.store next.store := by
  obtain ⟨reached, same⟩ := onStore_eq_ok done
  exact ⟨same ▸ .refl db.env, writes reached⟩

/-- **Every operation is a sequence of writes under its licence.** -/
theorem run_writes {op : Operation} {db next : Db} {now : Nat} (done : op.run db now = .ok next) :
    db.env.SameHolds next.env ∧ Writes (op.licence db now) db.store next.store := by
  cases op with
  | allocateStaticDns => exact onStore_writes done writes_allocateStaticDns
  | deallocateStaticDns =>
    refine onStore_writes done fun reached => writes_deallocateStaticDns reached (fun _ _ => id) ?_
    exact fun subnet leaf unheld => ⟨subnet, leaf, rfl, unheld⟩
  | reconcileDnsHold =>
    refine onStore_writes done fun reached => writes_reconcileDnsHold reached (fun _ _ => id) ?_
    exact fun subnet leaf unheld => ⟨subnet, leaf, rfl, unheld⟩
  | allocateStaticDhcp => exact onStore_writes done writes_allocateStaticDhcp
  | deallocateStaticDhcp subnetId addr macAddress =>
    refine onStore_writes done fun reached => ?_
    have freed : (licence (.deallocateStaticDhcp subnetId addr macAddress) db now).free
        ⟨subnetId, addr, none⟩ := .inl rfl
    obtain ⟨middle, before, rest | ⟨same, -⟩⟩ := writes_deallocateStaticDhcp reached freed rfl
    · refine before.trans (writes_reconcileDnsHold rest (fun _ _ => id) ?_)
      exact fun subnet leaf unheld => .inr ⟨subnet, leaf, rfl, unheld⟩
    · rw [same]
      exact before
  | setManualReservation subnetId addr reserved note =>
    refine onStore_writes done fun reached => ?_
    have freed : reserved = false → (licence (.setManualReservation subnetId addr reserved note) db
        now).free ⟨subnetId, addr, none⟩ := fun released => ⟨released, .inl rfl⟩
    obtain ⟨middle, before, ⟨-, same⟩ | ⟨released, rest⟩⟩ :=
      writes_setManualReservation reached freed
    · rw [same]
      exact before
    · refine before.trans (writes_reconcileDnsHold rest (fun _ _ => id) ?_)
      exact fun subnet leaf unheld => ⟨released, .inr ⟨subnet, leaf, rfl, unheld⟩⟩
  | protectTopologyAddress => exact onStore_writes done writes_protectTopologyAddress
  | releaseTopologyAddress =>
    exact onStore_writes done fun reached => writes_releaseTopologyAddress reached fun _ => id
  | reconcileTopologyAddresses =>
    refine onStore_writes done fun reached => writes_reconcileTopologyAddresses reached ?_
    exact fun addr former => ⟨addr, former, rfl⟩
  | ensureAddresses => exact onStore_writes done writes_ensureLifecycleAddresses
  | observeDhcpLeases leases =>
    refine (observeDhcpLeases_writes done).imp_right fun writes => writes.mono ?_
    exact ⟨fun _ _ => id, fun _ => id, fun _ => id, fun _ => id⟩
  | reconcileExpiredDhcpAllocations =>
    refine reconcileExpired_writes done ?_
    exact fun row member dynamic inactive => ⟨inactive, row, member, rfl, rfl, dynamic⟩
  | observePassiveActivity => exact onStore_writes done writes_recordPassiveActivity
  | observeScanResult => exact onStore_writes done writes_updateFromScan
  | reconcileScanRogues =>
    obtain rfl := Except.ok.inj done
    exact ⟨.refl db.env, writes_clearRogueAfterScan⟩
  | markStalePassiveAddresses =>
    obtain rfl := Except.ok.inj done
    exact ⟨.refl db.env, writes_bulkMarkStale⟩
  | markOffline =>
    obtain rfl := Except.ok.inj done
    exact ⟨.refl db.env, writes_markOffline⟩
  | observeSlaac => exact onStore_writes done writes_observeSlaac
  | observeDhcpv6Lease =>
    refine onStore_writes done fun reached => writes_observeDhcpv6Lease reached rfl ?_
    exact fun active absent => ⟨active, rfl, absent⟩
  | observeNeighbor =>
    refine onStore_writes done fun reached => writes_observeNeighbor reached ?_
    exact fun key found absent => ⟨found, absent⟩
  | observeIpv6Presence =>
    refine onStore_writes done fun reached => writes_observeIpv6Presence reached ?_
    exact fun owned key found absent => ⟨owned, found, absent⟩
  | observeRouterAdvertisement => exact onStore_writes done writes_observeRouterAdvertisement
  | beginRetirement =>
    obtain rfl := Except.ok.inj done
    exact ⟨.refl db.env, writes_startMissingRetirementWindows⟩
  | finishRetirement =>
    refine finishRetirement_writes done ?_
    exact fun row member selected => ⟨row, member, rfl, selected⟩
  | setScanEnabled => exact onStore_writes done writes_setScanEnabled
  | deleteById =>
    obtain rfl := Except.ok.inj done
    refine ⟨.refl db.env, Write.writes (.delete _ rfl (fun _ => rfl) ?_)⟩
    exact fun row member named => ⟨row, member, rfl, by simpa using named⟩
  | deleteBySubnet =>
    obtain rfl := Except.ok.inj done
    refine ⟨.refl db.env, Write.writes (.delete _ rfl (fun _ => rfl) ?_)⟩
    exact fun row _ inside => beq_iff_eq.mp inside
  | deleteByIpAddress =>
    obtain rfl := Except.ok.inj done
    refine ⟨.refl db.env, Write.writes (.delete _ rfl (fun _ => rfl) ?_)⟩
    exact fun row _ same => beq_iff_eq.mp same

end Operation

/-! ## Runs -/

/-- One committed operation that meets a condition, in any environment and at any time. -/
inductive OperationStep (meets : Operation → Db → Nat → Prop) (store after : IpStore) : Prop where
  | commit (op : Operation) (env : Env) (now : Nat) (next : Db) (met : meets op ⟨env, store⟩ now)
      (done : op.run ⟨env, store⟩ now = .ok next) (reached : next.store = after)

/-- One step: an operation, or a row that a change of topology moves to another network. -/
inductive LifecycleStep (meets : Operation → Db → Nat → Prop) (store after : IpStore) : Prop where
  | operation (step : OperationStep meets store after)
  | move (env : Env) (id : Nat) (addr : Addr) (targetSubnetId : Nat)
      (done : store.moveToSubnet env id addr targetSubnetId = .ok after)

/-- Any number of operations. -/
def OperationRun (meets : Operation → Db → Nat → Prop) : IpStore → IpStore → Prop :=
  Relation.ReflTransGen (OperationStep meets)

/-- Any number of steps. -/
def LifecycleRun (meets : Operation → Db → Nat → Prop) : IpStore → IpStore → Prop :=
  Relation.ReflTransGen (LifecycleStep meets)

/-- Every operation. -/
def anyOperation (_ : Operation) (_ : Db) (_ : Nat) : Prop := True

/-- The operations of a list, each in its environment and at its time. -/
def runAll (store : IpStore) (ops : List (Operation × Env × Nat)) : Except Failure IpStore :=
  ops.foldlM (fun store step => do
    let next ← step.1.run ⟨step.2.1, store⟩ step.2.2
    .ok next.store) store

theorem operationRun_of_runAll {meets : Operation → Db → Nat → Prop} {store after : IpStore}
    {ops : List (Operation × Env × Nat)} (done : runAll store ops = .ok after)
    (met : ∀ step ∈ ops, ∀ store, meets step.1 ⟨step.2.1, store⟩ step.2.2) :
    OperationRun meets store after := by
  refine foldlM_invariant ?_ done Relation.ReflTransGen.refl
  rintro ⟨op, env, now⟩ member before later reached step
  obtain ⟨next, ran, same⟩ := bind_eq_ok.mp step
  exact reached.tail
    (.commit op env now next (met _ member before) ran (Except.ok.inj same))

/-- Where the operations of a list lead. -/
def afterAll (store : IpStore) (ops : List (Operation × Env × Nat)) : IpStore :=
  (runAll store ops).toOption.getD store

theorem runAll_eq_ok {store : IpStore} {ops : List (Operation × Env × Nat)}
    (done : (runAll store ops).isOk = true) : runAll store ops = .ok (afterAll store ops) :=
  eq_ok_of_isOk store done

theorem OperationRun.lifecycle {meets : Operation → Db → Nat → Prop} {store after : IpStore}
    (run : OperationRun meets store after) : LifecycleRun meets store after := by
  induction run with
  | refl => exact Relation.ReflTransGen.refl
  | tail _ step ih => exact ih.tail (.operation step)

/-! ## Moves -/

/-- What `moveToSubnet` does: a row of the same address in the target goes, the moved row
gets its new key and keeps its columns, and the events of a row stay its events. -/
theorem moveToSubnet_cases {store after : IpStore} {env : Env} {id targetSubnetId : Nat}
    {addr : Addr} (done : store.moveToSubnet env id addr targetSubnetId = .ok after) :
    after.table.nextId = store.table.nextId ∧ (∀ other, after.edges other = store.edges other) ∧
      ∀ row ∈ after.table.rows, ∃ old ∈ store.table.rows, old.id = row.id ∧
      old.info = row.info := by
  have kept : ∀ row ∈ (store.clearDuplicate id addr targetSubnetId).table.rows,
      row ∈ store.table.rows := by
    unfold IpStore.clearDuplicate
    split
    · split
      · exact fun row member => (Table.mem_delete.mp member).1
      · exact fun row member => member
    · exact fun row member => member
  have counted : (store.clearDuplicate id addr targetSubnetId).table.nextId = store.table.nextId ∧
      (store.clearDuplicate id addr targetSubnetId).events = store.events := by
    unfold IpStore.clearDuplicate
    split
    · split <;> exact ⟨rfl, rfl⟩
    · exact ⟨rfl, rfl⟩
  unfold IpStore.moveToSubnet at done
  simp only at done
  split at done
  · exact absurd done (by simp)
  · split at done
    · exact absurd done (by simp)
    · rename_i table rekeyed
      obtain rfl := Except.ok.inj done
      refine ⟨(Table.rekey_nextId rekeyed).trans counted.1, ?_, ?_⟩
      · intro other
        simp only [IpStore.edges, List.filterMap_map, counted.2]
        refine List.filterMap_congr fun event _ => ?_
        simp only [Function.comp_apply]
        by_cases named : event.ipAddressId = some id
        · simp only [named, if_pos]
        · simp only [if_neg named]
      · intro row member
        obtain ⟨old, within, rfl⟩ := (Table.mem_rekey rekeyed).mp member
        refine ⟨old, kept old within, ?_⟩
        split
        · exact ⟨rfl, rfl⟩
        · exact ⟨rfl, rfl⟩

/-! ## A small network -/

/-- `10.0.0.0/24`. -/
def officeNet : Network := ⟨.v4, 0x0a000000, 24, Network.ten_prefix_le_24, Network.ten_aligned_24,
    Network.ten_fits, Network.ten_unmapped⟩

instance instNeZeroHosts : NeZero 256 := ⟨by decide⟩

/-- An address of `10.0.0.0/24`. -/
def officeAddr (host : Fin 256) : Addr := addressAt .v4 (0x0a000000 + host)

/-- One network with its gateway at `10.0.0.1`, and nothing else. -/
def officeEnv : Env where
  subnets :=
    { rows := [⟨1, officeNet,
      { status := .allocated, gatewayPolicy := .first, gatewayAddress := some (officeAddr 1) }⟩]
      nextId := 2
      fresh := Table.fresh_singleton _
      idsDistinct := by simp
      keysDistinct := by simp }
  scopes := []
  pools := []
  reservations := []
  leases := []
  records := []
  zones := []
  settings := ⟨none, none, true⟩
  vendorHostname := fun _ => none

end Cidrella
