import Cidrella.IpAddress

/-!
# Protocol metadata

`utils/ip-sync.js`: the hostname and MAC that DNS records, DHCP reservations and leases
leave on the canonical address row. Reverse records are not part of this model.
-/

set_option autoImplicit false

namespace Cidrella

open Address

/-! ## The one hostname -/

namespace Env

/-- `reservedLeaseFirstSql`: the reserved client's lease sorts first. -/
def isReservedLease (env : Env) (lease : Lease) : Bool :=
  lease.expiresAt = .infinite ||
    env.reservations.any fun reservation =>
      reservation.enabled && lease.subnetId = some reservation.subnetId &&
      reservation.addr = lease.addr &&
      ((match reservation.macAddress, lease.macAddress with
        | some left, some right => DnsNames.toLowerCase left = DnsNames.toLowerCase right
        | _, _ => false) ||
      (match reservation.duid, lease.duid with
        | some left, some right => DnsNames.toLowerCase left = DnsNames.toLowerCase right
        | _, _ => false))

/-- `datetime(expires_at)`, which is null for an infinite lease and sorts last. -/
def expirySort (lease : Lease) : Nat :=
  match lease.expiresAt with
  | .infinite => 0
  | .at time => time + 1

/-- Whether a lease sorts before another: reserved first, the later expiry, the later id. -/
def leaseSortsBefore (env : Env) (lease other : Lease) : Bool :=
  let rank := fun (lease : Lease) => if env.isReservedLease lease then 1 else 0
  rank other < rank lease ||
    (rank other = rank lease &&
      (expirySort other < expirySort lease ||
        (expirySort other = expirySort lease && other.id < lease.id)))

/-- The active lease of an address that sorts first among those that pass a test. -/
def firstLease (env : Env) (now subnetId : Nat) (addr : Addr) (test : Lease → Bool) :
    Option Lease :=
  (env.leases.filter fun lease =>
    lease.subnetId = some subnetId && lease.addr = addr && lease.isActive now && test lease).foldl
    (fun best lease =>
      match best with
      | none => some lease
      | some held => if env.leaseSortsBefore lease held then some lease else best)
    none

end Env

/-- `hostname IS NOT NULL AND trim(hostname) != ''`. -/
def hasName (hostname : Option Text) : Bool :=
  hostname.any fun name => ScanCoverage.sqlTrim name ≠ []

/-- `nonEmpty(hostname) ? hostname.trim() : null`. -/
def trimmedName (hostname : Option Text) : Option Text := truthy (hostname.map trim)

namespace IpStore

/-- `resolveCanonicalHostname`. -/
def resolveCanonicalHostname (store : IpStore) (env : Env) (now subnetId : Nat) (addr : Addr) :
    CanonicalHostname :=
  let allocation := (store.findAnyInterface subnetId addr).map (·.info.allocationState)
  let reservation := env.reservations.find? fun reservation =>
    reservation.subnetId = subnetId && reservation.addr = addr && reservation.enabled &&
      hasName reservation.hostname
  let lease := env.firstLease now subnetId addr fun lease => hasName lease.hostname
  let record := env.records.find? fun record => env.names addr record && env.isServed record
  canonicalHostnameForAllocation allocation (record.map env.fqdn)
    (trimmedName (reservation.bind (·.hostname))) (trimmedName (lease.bind (·.hostname)))

/-- `syncCanonicalHostname`. -/
def syncCanonicalHostname (store : IpStore) (env : Env) (now subnetId : Nat) (addr : Addr)
    (clearSource : Bool) : Except Failure IpStore := do
  let canonical := store.resolveCanonicalHostname env now subnetId addr
  let (after, _) ← store.upsert env now subnetId addr
    { hostname := some canonical.hostname
      detectionSource :=
        if canonical.source.isSome || clearSource then
          some (canonical.source.map LifecycleSource.detection)
        else none }
  .ok after

/-! ## DNS -/

/-- `syncDnsToIp`. -/
def syncDnsToIp (store : IpStore) (env : Env) (now : Nat) (recordName : Text) (addr : Addr)
    (zoneName : Text) : Except Failure IpStore :=
  match env.findSubnetForIp addr with
  | none => .ok store
  | some subnet => do
      let fqdn := DnsNames.fqdnForRecordName recordName zoneName
      let (named, _) ← store.upsert env now subnet.id addr
        { hostname := some (some fqdn), detectionSource := some (some .dns) }
      .ok ((named.clearRogue subnet.id addr).emitEvent subnet.id addr .dnsAdded)

/-- `clearDnsFromIp`, without the reverse record. -/
def clearDnsFromIp (store : IpStore) (env : Env) (now : Nat) (recordName : Text) (addr : Addr)
    (zoneName : Text) : Except Failure IpStore :=
  match env.findSubnetForIp addr with
  | none => .ok store
  | some subnet => do
      let fqdn := DnsNames.fqdnForRecordName recordName zoneName
      let existing ← store.findBySubnetAndIp subnet.id addr
      if existing.any fun row =>
          row.info.hostname = some fqdn || row.info.allocationState = .staticDns then do
        let synced ← store.syncCanonicalHostname env now subnet.id addr true
        .ok (synced.emitEvent subnet.id addr .dnsRemoved)
      else .ok store

/-! ## Reservations -/

/-- What a reservation gives its address. `none` is a field that is not given. -/
structure ReservationFields where
  hostname : Option (Option Text) := none
  macAddress : Option (Option Text) := none
  dhcpVersion : Option DhcpVersion := none
  dhcpDuid : Option Text := none
  dhcpIaid : Option Text := none
  deriving DecidableEq, Repr

/-- A null hostname is an explicit clear; a missing or empty one takes a name made from
the MAC's vendor, if there is one. -/
def effectiveHostname (env : Env) (fields : ReservationFields) : Option (Option Text) :=
  match fields.hostname with
  | some none => some none
  | some (some name) =>
    if name ≠ [] then some (some name)
    else (env.vendorHostname (fields.macAddress.getD none)).map some
  | none => (env.vendorHostname (fields.macAddress.getD none)).map some

/-- `syncDhcpReservationToIp`. -/
def syncDhcpReservationToIp (store : IpStore) (env : Env) (now subnetId : Nat) (addr : Addr)
    (fields : ReservationFields) : Except Failure IpStore := do
  let (named, _) ← store.upsert env now subnetId addr
    { hostname := effectiveHostname env fields
      macAddress := fields.macAddress
      detectionSource := some (some .dhcpReservation) }
  .ok (named.clearRogue subnetId addr)

/-- `clearDhcpReservationFromIp`. A row only the reservation wrote goes altogether. -/
def clearDhcpReservationFromIp (store : IpStore) (env : Env) (now subnetId : Nat) (addr : Addr)
    (macAddress : Option Text) : Except Failure IpStore := do
  let existing ← store.findBySubnetAndIp subnetId addr
  match existing with
  | none => .ok store
  | some row =>
    if row.info.detectionSource = some .dhcpReservation then
      match env.firstLease now subnetId addr fun _ => true with
      | some lease => do
          let (leased, _) ← store.upsert env now subnetId addr
            { hostname := (truthy lease.hostname).map some
              macAddress := (truthy lease.macAddress).map some
              lastSeenMac := (truthy lease.macAddress).map some
              detectionSource := some (some .dhcpLease) }
          leased.syncCanonicalHostname env now subnetId addr false
      | none =>
        let canonical := store.resolveCanonicalHostname env now subnetId addr
        if canonical.hostname.isSome then do
          let (named, _) ← store.upsert env now subnetId addr
            { hostname := some canonical.hostname
              macAddress := some none
              detectionSource := some (canonical.source.map LifecycleSource.detection) }
          .ok named
        else .ok (store.deleteById row.id)
    else do
      let (cleared, _) ← store.upsert env now subnetId addr
        { macAddress :=
        some (if row.info.macAddress = macAddress then none else row.info.macAddress)
          hostname := some none
          detectionSource := some none }
      .ok cleared

/-! ## Leases -/

/-- A lease as the lease sync hands it on. `newLease` is `newLease !== false`. -/
structure ObservedLease where
  subnetId : Option Nat
  addr : Addr
  mac : Option Text
  hostname : Option Text
  dhcpVersion : DhcpVersion
  duid : Option Text
  iaid : Text
  expiresAt : Expiry
  observedActivity : Bool
  newLease : Bool
  deriving DecidableEq, Repr

/-- One lease of `syncLeasesToIps`. Holding a lease is not evidence that the host is up:
only observed activity brings the row online. -/
def syncLeaseToIp (store : IpStore) (env : Env) (now : Nat) (lease : ObservedLease) :
    Except Failure IpStore :=
  match lease.subnetId with
  | none => .ok store
  | some subnetId => do
      let store := store.removeOtherRowsForMac env now subnetId lease.addr lease.mac
      let before ← store.findBySubnetAndIp subnetId lease.addr
      let reserved := before.any (·.info.allocationState = .staticDhcp) &&
        env.reservations.any fun reservation =>
          reservation.subnetId = subnetId && reservation.addr = lease.addr &&
            reservation.enabled && hasName reservation.hostname
      let (leased, _) ← store.upsert env now subnetId lease.addr
        { hostname := if reserved then none else (truthy lease.hostname).map some
          macAddress := (truthy lease.mac).map some
          isOnline := if !reserved && lease.observedActivity then some true else none
          lastSeenMac := (truthy lease.mac).map some
          detectionSource := some (some .dhcpLease) }
      let synced ←
        if reserved then leased.syncCanonicalHostname env now subnetId lease.addr false
        else .ok leased
      let cleared := synced.clearRogue subnetId lease.addr
      .ok (if lease.newLease then cleared.emitEvent subnetId lease.addr .leaseObtained else cleared)

/-- `syncLeasesToIps`. -/
def syncLeasesToIps (store : IpStore) (env : Env) (now : Nat) (leases : List ObservedLease) :
    Except Failure IpStore :=
  leases.foldlM (fun store lease => store.syncLeaseToIp env now lease) store

end IpStore

end Cidrella
