import Cidrella.LifecycleService

/-!
# Observed addresses

The second half of `services/ip-lifecycle-service.js`: leases, neighbors, self-assigned
addresses, and the retirement of addresses nothing has been heard from.

Lease expiry and retirement also remove leases and the DNS records of leases, so they run
on the whole `Db`. Retirement has two transactions with an await between them
(`beginRetirement`, `finishRetirement`).
-/

set_option autoImplicit false

namespace Cidrella

open Address

/-- The environment and the address rows. -/
structure Db where
  env : Env
  store : IpStore

namespace IpStore

/-! ## Neighbors and self-assigned addresses -/

/-- `observeSlaac`. -/
def observeSlaac (store : IpStore) (env : Env) (now subnetId : Nat) (ip : ScopedAddr)
    (interfaceId : Option Text) (preferredUntil validUntil : Option Nat) (temporary : Bool) :
    Except Failure IpStore :=
  match validUntil with
  | none => .error .lifetimeRequired
  | some lifetime => do
      let identityIp := lifecycleIdentityIp ip interfaceId
      store.assertAllocationTransition env subnetId identityIp .slaac .slaac
      store.setCanonicalAllocation env now subnetId identityIp .slaac (some .slaac) none
        { preferredUntil := some preferredUntil
          validUntil := some (some lifetime)
          detectionSource := some (some (if temporary then .slaacPrivacy else .slaac)) }

/-- A DHCPv6 lease as the adapter reports it. -/
structure Dhcpv6Lease where
  duid : Option Text
  iaid : Option Text
  preferredUntil : Option Nat
  validUntil : Option Nat
  poolValidated : Bool
  observedActivity : Bool
  deriving DecidableEq, Repr

/-- A client identity: text of at most `limit` characters, without the white space
around it. -/
def clientIdentity (limit : Nat) (text : Option Text) : Option Text :=
  (truthy (text.map trim)).filter (·.length ≤ limit)

/-- `observeDhcpv6Lease`. -/
def observeDhcpv6Lease (store : IpStore) (env : Env) (now subnetId : Nat) (addr : Addr)
    (lease : Dhcpv6Lease) : Except Failure IpStore :=
  match clientIdentity 512 lease.duid, clientIdentity 128 lease.iaid with
  | some duid, some iaid =>
    if lease.validUntil.isNone then .error .lifetimeRequired
    else if !lease.poolValidated then .error .poolNotValidated
    else do
      store.assertAllocationTransition env subnetId addr .dynamicDhcp .dhcpLease
      store.setCanonicalAllocation env now subnetId addr .dynamicDhcp (some .dhcpLease) none
        { dhcpVersion := some (some .v6)
          dhcpDuid := some (some duid)
          dhcpIaid := some (some iaid)
          preferredUntil := some lease.preferredUntil
          validUntil := some lease.validUntil
          isOnline := if lease.observedActivity then some true else none
          detectionSource := some (some .dhcpv6Lease) }
  | _, _ => .error .clientIdentityRequired

/-- `observeNeighbor`: liveness, and a rogue where nothing claims the address. -/
def observeNeighbor (store : IpStore) (env : Env) (now subnetId : Nat) (ip : ScopedAddr)
    (interfaceId mac : Option Text) (rogueAllowed : Bool) (source : DetectionSource) :
    Except Failure IpStore := do
  let identityIp := lifecycleIdentityIp ip interfaceId
  let existing ← store.findBySubnetAndIp subnetId identityIp
  let isRogue := rogueAllowed && stateOf existing = .unassigned
  let (after, _) ← store.upsert env now subnetId identityIp
    { isOnline := some true
      lastSeenMac := (truthy mac).map some
      isRogue := some isRogue
      rogueReason :=
        some (if isRogue then some "Neighbor Discovery from unassigned address".toList else none)
      detectionSource := some (some source) }
  .ok after

/-- A stored lease time: seconds, for ever, or unreadable. -/
inductive Duration where
  | seconds (count : Nat)
  | infinite
  | unreadable
  deriving DecidableEq, Repr

/-- `UNIT_SECONDS`. -/
def unitSeconds : Text → Option Nat
  | [] => some 1
  | ['s'] => some 1
  | ['m'] => some 60
  | ['h'] => some 3600
  | ['d'] => some 86400
  | ['w'] => some 604800
  | _ => none

/-- `leaseSeconds`. -/
def leaseSeconds (leaseTime : Option Text) : Duration :=
  let raw := DnsNames.toLowerCase (trim (leaseTime.getD []))
  if raw = "infinite".toList then .infinite
  else
    let digits := raw.takeWhile Char.isDigit
    match unitSeconds (raw.dropWhile Char.isDigit) with
    | some unit =>
      if digits = [] then .unreadable else .seconds (Text.readDigits 10 digits * unit)
    | none => .unreadable

/-- `DEFAULT_SLAAC_LIFETIME_MS`, in seconds. -/
def defaultSlaacLifetime : Nat := 86400

/-- `FAR_FUTURE`: the last second of the year 9999. -/
def farFuture : Nat := 253402300799

/-- `ipv6DiscoveryPolicy` of the network. -/
structure DiscoveryPolicy where
  mode : Option V6Mode
  leaseTime : Option Text
  deriving DecidableEq, Repr

/-- The valid lifetime of an address its host chose. -/
def slaacValidUntil (now : Nat) (leaseTime : Option Text) : Nat :=
  match leaseSeconds leaseTime with
  | .infinite => farFuture
  | .seconds count => now + count
  | .unreadable => now + defaultSlaacLifetime

/-- `observeIpv6Presence`: what an address seen on the network means depends on how the
network hands out addresses. -/
def observeIpv6Presence (store : IpStore) (env : Env) (now subnetId : Nat) (ip : ScopedAddr)
    (interfaceId mac : Option Text) (policy : DiscoveryPolicy) (source : DetectionSource) :
    Except Failure IpStore :=
  if ip.addr.looksLinkLocal then
    store.observeNeighbor env now subnetId ip interfaceId mac false source
  else if policy.mode = some .slaac || policy.mode = some .stateless then do
    let existing ← store.findBySubnetAndIp subnetId ip
    let claimed ←
      if stateOf existing = .unassigned then
        store.observeSlaac env now subnetId ip none none
          (some (slaacValidUntil now policy.leaseTime)) false
      else .ok store
    claimed.observeNeighbor env now subnetId ip none mac false source
  else
    store.observeNeighbor env now subnetId ip none mac (policy.mode = some .stateful) source

/-- `observeRouterAdvertisement`. -/
def observeRouterAdvertisement (store : IpStore) (env : Env) (now subnetId : Nat) (ip : ScopedAddr)
    (interfaceId : Option Text) (trusted : Bool) : Except Failure IpStore :=
  if !trusted then .error .untrustedAdvertisement
  else do
    let identityIp := lifecycleIdentityIp ip interfaceId
    store.assertAllocationTransition env subnetId identityIp .gateway .topology
    store.setCanonicalAllocation env now subnetId identityIp .gateway (some .topology) none
      { detectionSource := some (some .routerAdvertisement) }

/-! ## Leases -/

/-- `leaseIsReservationClient`: DHCPv4 knows the client by MAC, DHCPv6 by DUID. -/
def leaseIsReservationClient (reservation : Reservation) (lease : ObservedLease) : Bool :=
  let same := fun (expected observed : Option Text) =>
    DnsNames.toLowerCase (expected.getD []) = DnsNames.toLowerCase (observed.getD [])
  match lease.dhcpVersion with
  | .v6 => same reservation.duid lease.duid
  | .v4 => same reservation.macAddress lease.mac

/-- `dhcpLeaseRejectionReason`: the failure of a lease that is refused. -/
def dhcpLeaseRejectionReason (store : IpStore) (env : Env) (lease : ObservedLease) :
    Except Failure Unit :=
  match lease.subnetId with
  | none => .error .leaseWithoutSubnet
  | some subnetId =>
    match env.enabledReservationAt subnetId lease.addr with
    | some reservation =>
      if leaseIsReservationClient reservation lease then
        store.assertAllocationTransition env subnetId lease.addr .staticDhcp .dhcpReservation
      else .error .leaseOfAnotherClient
    | none =>
      if (env.findEnabledScopeForIp subnetId lease.addr).isNone then .error .leaseOutsideScope
      else store.assertAllocationTransition env subnetId lease.addr .dynamicDhcp .dhcpLease

/-- The id of the address's newest lease row. -/
def newestLeaseId (env : Env) (subnetId : Nat) (addr : Addr) : Option Nat :=
  ((env.leases.filter fun lease => lease.subnetId = some subnetId && lease.addr = addr).map
    (·.id)).max?

/-- One lease of the allocation loop of `observeDhcpLeases`. -/
def allocateLease (store : IpStore) (env : Env) (now : Nat) (lease : ObservedLease) :
    Except Failure IpStore :=
  match lease.subnetId with
  | none => .ok store
  | some subnetId =>
    match env.enabledReservationAt subnetId lease.addr, lease.dhcpVersion with
    | some reservation, .v6 =>
      store.setCanonicalAllocation env now subnetId lease.addr .staticDhcp
        (some .dhcpReservation) (some reservation.id)
        { dhcpVersion := some (some .v6)
          dhcpDuid := some lease.duid
          dhcpIaid := some (some lease.iaid) }
    | some reservation, .v4 =>
      store.setCanonicalAllocation env now subnetId lease.addr .staticDhcp
        (some .dhcpReservation) (some reservation.id)
        { dhcpVersion := some (some .v4)
          dhcpDuid := some none
          dhcpIaid := some none }
    | none, .v6 =>
      store.observeDhcpv6Lease env now subnetId lease.addr
        { duid := lease.duid
          iaid := some lease.iaid
          preferredUntil := none
          validUntil := some (match lease.expiresAt with
            | .infinite => farFuture
            | .at time => time)
          poolValidated := true
          observedActivity := lease.observedActivity }
    | none, .v4 =>
      store.setCanonicalAllocation env now subnetId lease.addr .dynamicDhcp (some .dhcpLease)
        (newestLeaseId env subnetId lease.addr)
        { dhcpVersion := some (some .v4)
          dhcpDuid := some none
          dhcpIaid := some none }

/-- A dynamic row whose lease has run out. A DHCPv6 lease is a claim for its valid
lifetime even without a lease row. -/
def isExpired (env : Env) (now : Nat) (row : IpRow) : Bool :=
  row.info.allocationState = .dynamicDhcp &&
  !env.hasActiveLease now row.key.subnetId row.key.addr &&
  (row.info.dhcpVersion = some .v4 ||
    (row.info.dhcpVersion = some .v6 &&
      (match row.info.validUntil with
        | none => true
        | some lifetime => lifetime ≤ now)))

end IpStore

namespace Env

/-- The zones a subnet's lease records live in. -/
def leaseZoneNames (env : Env) (subnetId : Nat) : List Text :=
  match env.subnets.byId subnetId with
  | none => []
  | some subnet =>
    let own := truthy subnet.info.domainName
    match env.scopes.filter fun scope => scope.subnetId = subnetId && scope.enabled with
    | [] => own.toList
    | scopes => scopes.filterMap fun scope => truthy scope.domainName <|> own

/-- `deleteDynamicDhcpRecordsByIps` for one address, without the reverse records. An
address given without a subnet matches in every zone. -/
def deleteDynamicDhcpRecords (env : Env) (subnetId : Option Nat) (addr : Addr) : Env :=
  let zoneNames := (subnetId.map env.leaseZoneNames).getD []
  if subnetId.isSome && zoneNames.isEmpty then env
  else
    { env with
      records := env.records.filter fun record =>
        !(record.source = some .dhcp && record.value = addr &&
          (zoneNames.isEmpty || (env.zoneOf record).any fun zone => zone.name ∈ zoneNames)) }

/-- `deleteLeasesByAddress`. -/
def deleteLeasesByAddress (env : Env) (subnetId : Nat) (addr : Addr) : Env :=
  { env with
    leases := env.leases.filter fun lease =>
      !(lease.subnetId = some subnetId && lease.addr = addr) }

end Env

namespace Db

/-- One expired row of `reconcileExpiredDhcpAllocations`. A holder that is still online
has stopped being ours, so its name and record go at once. -/
def expireLease (db : Db) (now : Nat) (row : IpRow) : Except Failure Db := do
  db.store.assertAllocationTransition db.env row.key.subnetId row.key.addr .unassigned .dhcpLease
  let released ← db.store.setCanonicalAllocation db.env now row.key.subnetId row.key.addr
    .unassigned none none { allocationEvent := some .leaseExpired }
  if row.info.isOnline then do
    let synced ← released.syncCanonicalHostname db.env now row.key.subnetId row.key.addr true
    .ok ⟨db.env.deleteDynamicDhcpRecords (some row.key.subnetId) row.key.addr, synced⟩
  else .ok ⟨db.env, released⟩

/-- `reconcileExpiredDhcpAllocations`. -/
def reconcileExpiredDhcpAllocations (db : Db) (now : Nat) : Except Failure Db :=
  (db.store.table.rows.filter (IpStore.isExpired db.env now)).foldlM
    (fun db row => db.expireLease now row) db

/-- The check `observeDhcpLeases` makes of every lease before it writes any. -/
def validateLeases (db : Db) (leases : List IpStore.ObservedLease) : Except Failure Unit :=
  leases.forM fun lease =>
    if lease.subnetId.isNone then .ok ()
    else db.store.dhcpLeaseRejectionReason db.env lease

/-- `observeDhcpLeases`. -/
def observeDhcpLeases (db : Db) (now : Nat) (leases : List IpStore.ObservedLease)
    (prevalidated : Bool) : Except Failure Db := do
  let _ ← if prevalidated then .ok () else db.validateLeases leases
  let synced ← db.store.syncLeasesToIps db.env now leases
  let allocated ← leases.foldlM (fun store lease => store.allocateLease db.env now lease) synced
  reconcileExpiredDhcpAllocations ⟨db.env, allocated⟩ now

/-! ## Retirement -/

/-- `OFFLINE_RETIREMENT_MS`, in seconds. -/
def offlineRetirement : Nat := 3600

/-- The first transaction of `retireStaleDynamicAddresses`: the candidates. -/
def beginRetirement (db : Db) (now limit : Nat) : Db × List IpRow :=
  let started := db.store.startMissingRetirementWindows db.env now
  (⟨db.env, started⟩,
    started.findRetirementCandidates db.env (now - offlineRetirement) now
      (max 1 (min 500 (if limit = 0 then 500 else limit))))

/-- Lease records whose address has neither a row nor a lease (`findRowlessDhcpRecordAddresses`). -/
def rowlessRecordAddresses (db : Db) (cutoff : Nat) : List Addr :=
  ((db.env.records.filter fun record =>
    record.source = some .dhcp && record.updatedAt ≤ cutoff &&
      (db.store.table.rows.all fun row => row.key.addr ≠ record.value) &&
      db.env.leases.all fun lease => lease.addr ≠ record.value).map (·.value)).dedup

/-- The check the second transaction makes of a candidate, by the state it was selected
in. A candidate that was selected as unassigned is not checked. -/
def assertRetirable (db : Db) (row : IpRow) : Except Failure Unit :=
  match row.info.allocationState with
  | .dynamicDhcp =>
    db.store.assertAllocationTransition db.env row.key.subnetId
      ⟨row.key.addr, row.key.interfaceId⟩ .unassigned .dhcpLease
  | .slaac =>
    db.store.assertAllocationTransition db.env row.key.subnetId
      ⟨row.key.addr, row.key.interfaceId⟩ .unassigned .slaac
  | _ => .ok ()

/-- One candidate of the second transaction. -/
def retireAddress (db : Db) (row : IpRow) : Except Failure Db := do
  db.assertRetirable row
  .ok ⟨db.env.deleteLeasesByAddress row.key.subnetId row.key.addr,
    db.store.retireLearnedMetadata row⟩

/-- The second transaction of `retireStaleDynamicAddresses`. `eligible` are the candidates
whose leases the backend released, as they were when they were selected. -/
def finishRetirement (db : Db) (now : Nat) (eligible : List IpRow) : Except Failure Db := do
  let rowless := db.rowlessRecordAddresses (now - offlineRetirement)
  let swept : Db := ⟨rowless.foldl (fun env addr => env.deleteDynamicDhcpRecords none addr) db.env,
    db.store⟩
  let retired ← eligible.foldlM (fun db row => db.retireAddress row) swept
  .ok ⟨eligible.foldl
    (fun env row => env.deleteDynamicDhcpRecords (some row.key.subnetId) row.key.addr) retired.env,
    retired.store⟩

end Db

end Cidrella
