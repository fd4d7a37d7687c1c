import Cidrella.IpSync

/-!
# The lifecycle service

`services/ip-lifecycle-service.js`: every change of an address's allocation and liveness.
This module has the changes an operator or topology makes; `Observations` has what the
network is seen to do. Operations read the environment and return the store they leave.
-/

set_option autoImplicit false

namespace Cidrella

open Address

/-! ## Protected addresses and transitions -/

/-- `protectedAddress`: the state topology gives the address, if any, and whether DNS may
name it. -/
structure Protection where
  state : Option AllocationState
  dnsNameAllowed : Bool
  deriving DecidableEq, Repr

/-- `protectedAddress`. A scoped text is no plain address and is never protected. -/
def Env.protectedAddress (env : Env) (subnetId : Nat) (ip : ScopedAddr) : Option Protection :=
  if ip.zone.isSome then none
  else
    match env.subnets.byId subnetId with
    | none => some ⟨none, false⟩
    | some subnet =>
      if ip.addr.family ≠ subnet.key.family then none
      else if subnet.key.isTopologyAddress ip.addr.value then some ⟨some .system, false⟩
      else if subnet.info.gatewayAddress = some ip.addr then some ⟨some .gateway, true⟩
      else none

/-- The failure for a protected address. -/
def Protection.failure (protection : Protection) : Failure :=
  match protection.state with
  | none => .unmanaged
  | some state => .protectedBy state

namespace IpStore

/-- The state of an address; an address without a row is unassigned. -/
def stateOf (row : Option IpRow) : AllocationState :=
  (row.map (·.info.allocationState)).getD .unassigned

/-- `assertAllocationTransition`. Only topology may take a protected address. -/
def assertAllocationTransition (store : IpStore) (env : Env) (subnetId : Nat) (ip : ScopedAddr)
    (target : AllocationState) (source : LifecycleSource) : Except Failure Unit := do
  let existing ← store.findBySubnetAndIp subnetId ip
  let current := stateOf existing
  let ownable := target = .unassigned || target = .system || target = .gateway
  match if ownable then none else env.protectedAddress subnetId ip with
  | some protection => .error protection.failure
  | none =>
    if current = .unassigned && target = .unassigned then .ok ()
    else if canTransitionAllocation current target source then .ok ()
    else .error (.transition current target source)

/-- The columns every change of allocation resets. -/
def allocationFields (state : AllocationState) : Fields :=
  if state = .unassigned then
    { preferredUntil := some none
      validUntil := some none
      dhcpVersion := some none
      dhcpDuid := some none
      dhcpIaid := some none }
  else { isRogue := some false, rogueReason := some none }

/-- `{ ...base, ...fields }`. -/
def spread (base fields : Fields) : Fields where
  hostname := fields.hostname <|> base.hostname
  macAddress := fields.macAddress <|> base.macAddress
  isOnline := fields.isOnline <|> base.isOnline
  lastSeenMac := fields.lastSeenMac <|> base.lastSeenMac
  isRogue := fields.isRogue <|> base.isRogue
  rogueReason := fields.rogueReason <|> base.rogueReason
  lastScannedAt := fields.lastScannedAt <|> base.lastScannedAt
  detectionSource := fields.detectionSource <|> base.detectionSource
  allocationState := fields.allocationState <|> base.allocationState
  allocationSourceType := fields.allocationSourceType <|> base.allocationSourceType
  allocationSourceId := fields.allocationSourceId <|> base.allocationSourceId
  preferredUntil := fields.preferredUntil <|> base.preferredUntil
  validUntil := fields.validUntil <|> base.validUntil
  dhcpVersion := fields.dhcpVersion <|> base.dhcpVersion
  dhcpDuid := fields.dhcpDuid <|> base.dhcpDuid
  dhcpIaid := fields.dhcpIaid <|> base.dhcpIaid
  reservationNote := fields.reservationNote <|> base.reservationNote
  scanEnabled := fields.scanEnabled <|> base.scanEnabled
  allocationEvent := fields.allocationEvent <|> base.allocationEvent

/-- `setCanonicalAllocation`, without the placeholder reverse record. -/
def setCanonicalAllocation (store : IpStore) (env : Env) (now subnetId : Nat) (ip : ScopedAddr)
    (state : AllocationState) (sourceType : Option LifecycleSource) (sourceId : Option Nat)
    (fields : Fields) : Except Failure IpStore := do
  let (after, _) ← store.upsert env now subnetId ip
    { spread (allocationFields state) fields with
      allocationState := some state
      allocationSourceType := some sourceType
      allocationSourceId := some sourceId }
  .ok after

/-- `lifecycleIdentityIp`: an interface completes an unscoped link-local address. -/
def lifecycleIdentityIp (ip : ScopedAddr) (interfaceId : Option Text) : ScopedAddr :=
  if !ip.addr.isV6LinkLocal || ip.zone.isSome || (truthy interfaceId).isNone then ip
  else ⟨ip.addr, interfaceId⟩

/-! ## Topology -/

/-- `protectTopologyAddress`. -/
def protectTopologyAddress (store : IpStore) (env : Env) (now subnetId : Nat) (ip : ScopedAddr)
    (state : AllocationState) (note : Option Text) : Except Failure IpStore :=
  if state ≠ .system && state ≠ .gateway then .error (.invalidTopologyState state)
  else do
    store.assertAllocationTransition env subnetId ip state .topology
    store.setCanonicalAllocation env now subnetId ip state (some .topology) none
      { reservationNote := some note, detectionSource := some (some .topology) }

/-- `releaseTopologyAddress`. -/
def releaseTopologyAddress (store : IpStore) (env : Env) (now subnetId : Nat) (ip : ScopedAddr) :
    Except Failure IpStore := do
  store.assertAllocationTransition env subnetId ip .unassigned .topology
  store.setCanonicalAllocation env now subnetId ip .unassigned none none
    { reservationNote := some none, detectionSource := some none }

/-- The addresses topology wants protected: the network's own, then the gateway. A
gateway that is one of the network's own takes its place. -/
def desiredTopology (net : Network) (gateway : Option Addr) : List (Addr × AllocationState) :=
  let own := net.topologyAddresses.map fun addr =>
    (addr, if gateway = some addr then AllocationState.gateway else .system)
  match gateway with
  | none => own
  | some addr => if addr ∈ net.topologyAddresses then own else own ++ [(addr, .gateway)]

/-- One former topology address of `reconcileTopologyAddresses`: a served record takes it
over, otherwise it is released. -/
def releaseFormerTopology (store : IpStore) (env : Env) (now subnetId : Nat) (addr : Addr) :
    Except Failure IpStore :=
  match Env.lowest (env.records.filter fun record => env.names addr record && env.isServed record)
      with
  | some record =>
    let zoneName := ((env.zoneOf record).map (·.name)).getD []
    let hostname := DnsNames.joinFqdn record.name zoneName
    store.setCanonicalAllocation env now subnetId addr .staticDns (some .dns) (some record.id)
      { hostname := some (some hostname)
        reservationNote := some none
        detectionSource := some (some .dns) }
  | none =>
    store.setCanonicalAllocation env now subnetId addr .unassigned none none
      { reservationNote := some none
        detectionSource := some none
        isOnline := some false
        isRogue := some false
        rogueReason := some none }

/-- The addresses `reconcileTopologyAddresses` releases. -/
def formerTopology (store : IpStore) (subnetId : Nat) (net : Network) (gateway : Option Addr) :
    List Addr :=
  (store.table.rows.filter fun row =>
    row.key.subnetId = subnetId && row.info.allocationSourceType = some .topology &&
      row.key.addr ∉ (desiredTopology net gateway).map Prod.fst).map (·.key.addr)

/-- The note of a protected address. -/
def topologyNote (state : AllocationState) : Text :=
  if state = .gateway then "Default gateway".toList else "Protected topology address".toList

/-- `reconcileTopologyAddresses`. -/
def reconcileTopologyAddresses (store : IpStore) (env : Env) (now subnetId : Nat) (net : Network)
    (gateway : Option Addr) : Except Failure IpStore := do
  let released ← (store.formerTopology subnetId net gateway).foldlM
    (fun store addr => store.releaseFormerTopology env now subnetId addr) store
  (desiredTopology net gateway).foldlM
    (fun store entry =>
      store.protectTopologyAddress env now subnetId entry.1 entry.2 (some (topologyNote entry.2)))
    released

/-! ## DNS -/

/-- `dnsHoldingRecord`: the lowest manual record that names the address and is not served.
Topology owns protected addresses, and the pool owns what an enabled scope covers. -/
def dnsHoldingRecord (env : Env) (subnetId : Nat) (addr : Addr) : Option DnsRecord :=
  if (env.protectedAddress subnetId addr).isSome then none
  else if (env.findEnabledScopeForIp subnetId addr).isSome then none
  else Env.lowest (env.records.filter fun record => env.names addr record && !env.isServed record)

/-- `isDnsHold`. -/
def isDnsHold (row : Option IpRow) : Bool :=
  row.any fun row =>
    row.info.allocationState = .reserved && row.info.allocationSourceType = some .dns

/-- `reconcileDnsHold`. -/
def reconcileDnsHold (store : IpStore) (env : Env) (now : Nat) (addr : Addr) :
    Except Failure IpStore :=
  match env.findSubnetForIp addr with
  | none => .ok store
  | some subnet => do
      let existing ← store.findBySubnetAndIp subnet.id addr
      let held := isDnsHold existing
      if stateOf existing ≠ .unassigned && !held then .ok store
      else
        match dnsHoldingRecord env subnet.id addr with
        | some holder =>
          if held && existing.any (·.info.allocationSourceId = some holder.id) then .ok store
          else do
            store.assertAllocationTransition env subnet.id addr .reserved .dns
            store.setCanonicalAllocation env now subnet.id addr .reserved (some .dns)
              (some holder.id)
              { reservationNote := some none, allocationEvent := some .dnsHoldTaken }
        | none =>
          if !held then .ok store
          else do
            store.assertAllocationTransition env subnet.id addr .unassigned .dns
            store.setCanonicalAllocation env now subnet.id addr .unassigned none none
              { allocationEvent := some .dnsHoldReleased }

/-- `allocateStaticDns`. DNS names a gateway without taking it over. -/
def allocateStaticDns (store : IpStore) (env : Env) (now : Nat) (recordName : Text) (addr : Addr)
    (zoneName : Text) (recordId : Option Nat) : Except Failure IpStore :=
  match env.findSubnetForIp addr with
  | none => .ok store
  | some subnet => do
      let existing ← store.findBySubnetAndIp subnet.id addr
      match env.findEnabledScopeForIp subnet.id addr with
      | some scopeId => .error (.insideScope scopeId)
      | none =>
        match env.protectedAddress subnet.id addr with
        | some ⟨some state, true⟩ => do
            let note := truthy (existing.bind (·.info.reservationNote))
            let protectedStore ← store.protectTopologyAddress env now subnet.id addr state
              (some (note.getD "Protected gateway address".toList))
            let named ← protectedStore.syncDnsToIp env now recordName addr zoneName
            let (after, _) ← named.upsert env now subnet.id addr
              { detectionSource := some (some .topology) }
            .ok after
        | _ => do
            store.assertAllocationTransition env subnet.id addr .staticDns .dns
            let named ← store.syncDnsToIp env now recordName addr zoneName
            named.setCanonicalAllocation env now subnet.id addr .staticDns (some .dns) recordId {}

/-- `deallocateStaticDns`. A record that is no longer served still holds the address. -/
def deallocateStaticDns (store : IpStore) (env : Env) (now : Nat) (recordName : Text) (addr : Addr)
    (zoneName : Text) : Except Failure IpStore :=
  match env.findSubnetForIp addr with
  | none => .ok store
  | some subnet => do
      let existing ← store.findBySubnetAndIp subnet.id addr
      if existing.any fun row =>
          row.info.allocationState = .system || row.info.allocationState = .gateway then do
        let cleared ← store.clearDnsFromIp env now recordName addr zoneName
        let (after, _) ← cleared.upsert env now subnet.id addr
          { detectionSource := some (some .topology) }
        .ok after
      else
        match dnsHoldingRecord env subnet.id addr with
        | some holder => do
            store.assertAllocationTransition env subnet.id addr .reserved .dns
            let cleared ← store.clearDnsFromIp env now recordName addr zoneName
            cleared.setCanonicalAllocation env now subnet.id addr .reserved (some .dns)
              (some holder.id) { reservationNote := some none }
        | none => do
            store.assertAllocationTransition env subnet.id addr .unassigned .dns
            let cleared ← store.clearDnsFromIp env now recordName addr zoneName
            cleared.setCanonicalAllocation env now subnet.id addr .unassigned none none {}

/-! ## DHCP reservations -/

/-- `allocateStaticDhcp`. -/
def allocateStaticDhcp (store : IpStore) (env : Env) (now subnetId : Nat) (addr : Addr)
    (fields : ReservationFields) (reservationId : Option Nat) : Except Failure IpStore := do
  store.assertAllocationTransition env subnetId addr .staticDhcp .dhcpReservation
  let synced ← store.syncDhcpReservationToIp env now subnetId addr fields
  synced.setCanonicalAllocation env now subnetId addr .staticDhcp (some .dhcpReservation)
    reservationId
    { dhcpVersion := some (some (fields.dhcpVersion.getD .v4))
      dhcpDuid := some (truthy fields.dhcpDuid)
      dhcpIaid := some fields.dhcpIaid
      allocationEvent := some .dhcpReservationCreated }

/-- `deallocateStaticDhcp`. A disabled record that names the address takes it back. -/
def deallocateStaticDhcp (store : IpStore) (env : Env) (now subnetId : Nat) (addr : Addr)
    (macAddress : Option Text) : Except Failure IpStore := do
  store.assertAllocationTransition env subnetId addr .unassigned .dhcpReservation
  let cleared ← store.clearDhcpReservationFromIp env now subnetId addr macAddress
  let existing ← cleared.findBySubnetAndIp subnetId addr
  match existing with
  | none => do
      let logged ← cleared.recordEvent subnetId addr .dhcpReservationRemoved
      logged.reconcileDnsHold env now addr
  | some row =>
    if row.info.detectionSource = some .dhcpLease then
      cleared.setCanonicalAllocation env now subnetId addr .dynamicDhcp (some .dhcpLease) none
        { allocationEvent := some .dhcpReservationRemoved }
    else do
      let released ← cleared.setCanonicalAllocation env now subnetId addr .unassigned none none
        { allocationEvent := some .dhcpReservationRemoved }
      released.reconcileDnsHold env now addr

/-! ## Materialized rows -/

/-- One address of `ensureLifecycleAddresses`: the gateway is protected, any other address
gets a row if it has none. -/
def ensureAddress (store : IpStore) (env : Env) (now subnetId : Nat) (addr : Addr)
    (isGateway : Bool) : Except Failure IpStore :=
  if isGateway then
    store.protectTopologyAddress env now subnetId addr .gateway (some "Default gateway".toList)
  else do
    let _ ← canonicalIdentity addr
    match store.findAnyInterface subnetId addr with
    | some _ => .ok store
    | none => do
        let (created, _) ← store.upsert env now subnetId addr
            { allocationState := some .unassigned }
        .ok created

/-- `ensureLifecycleAddresses`, for the entries a configured network gives it. -/
def ensureLifecycleAddresses (store : IpStore) (env : Env) (now subnetId : Nat)
    (entries : List (Addr × Bool)) : Except Failure IpStore :=
  entries.foldlM (fun store entry => store.ensureAddress env now subnetId entry.1 entry.2) store

/-! ## Manual reservations -/

/-- `setManualReservation`. -/
def setManualReservation (store : IpStore) (env : Env) (now subnetId : Nat) (addr : Addr)
    (reserved : Bool) (note : Option Text) : Except Failure IpStore := do
  let existing ← store.findBySubnetAndIp subnetId addr
  if isDnsHold existing then .error .heldByDns
  else if reserved then do
    store.assertAllocationTransition env subnetId addr .reserved .adminReservation
    store.setCanonicalAllocation env now subnetId addr .reserved (some .adminReservation) none
      { reservationNote := some note
        detectionSource := some (some .manual)
        allocationEvent := some .ipReservationCreated }
  else do
    store.assertAllocationTransition env subnetId addr .unassigned .adminReservation
    let released ← store.setCanonicalAllocation env now subnetId addr .unassigned none none
      { reservationNote := some none
        detectionSource := some none
        allocationEvent := some .ipReservationReleased }
    released.reconcileDnsHold env now addr

end IpStore

end Cidrella
