import Cidrella.Lib.Table
import Cidrella.Network
import Cidrella.DnsNames
import Cidrella.IpLifecycle

/-!
# The database

The tables the address lifecycle reads and writes. `IpStore` holds `ip_addresses` and
`ip_events`, which only the lifecycle writes; `Env` holds everything else it reads.

Times are whole seconds, as `datetime()` compares them. Address columns hold an `Addr`,
for which the stored canonical spelling stands.
-/

set_option autoImplicit false

namespace Cidrella

/-! ## Address rows -/

/-- `detection_source`: who found the address. -/
inductive DetectionSource where
  | scanner
  | passive
  | neighborDiscovery
  | dns
  | dhcpReservation
  | dhcpLease
  | dhcpv6Lease
  | slaac
  | slaacPrivacy
  | topology
  | routerAdvertisement
  | manual
  | other (name : Text)
  deriving DecidableEq, Repr

/-- The source a canonical hostname leaves on its row. -/
def LifecycleSource.detection : LifecycleSource → DetectionSource
  | .dns => .dns
  | .dhcpReservation => .dhcpReservation
  | .dhcpLease => .dhcpLease
  | .slaac => .slaac
  | .topology => .topology
  | .adminReservation => .other "admin_reservation".toList
  | .reconciliation => .other "reconciliation".toList

/-- `dhcp_version`. -/
inductive DhcpVersion where
  | v4
  | v6
  deriving DecidableEq, Repr

/-- The identity of an address row. Only an IPv6 link-local address has an interface. -/
structure IpKey where
  subnetId : Nat
  addr : Addr
  interfaceId : Option Text
  deriving DecidableEq, Repr

/-- The other columns of `ip_addresses`. -/
structure IpInfo where
  hostname : Option Text := none
  macAddress : Option Text := none
  isOnline : Bool := false
  lastSeenAt : Option Nat := none
  lastSeenMac : Option Text := none
  isRogue : Bool := false
  rogueReason : Option Text := none
  lastScannedAt : Option Nat := none
  firstSeenAt : Option Nat := none
  detectionSource : Option DetectionSource := none
  allocationState : AllocationState := .unassigned
  allocationSourceType : Option LifecycleSource := none
  allocationSourceId : Option Nat := none
  preferredUntil : Option Nat := none
  validUntil : Option Nat := none
  dhcpVersion : Option DhcpVersion := none
  dhcpDuid : Option Text := none
  dhcpIaid : Option Text := none
  reservationNote : Option Text := none
  scanEnabled : Option Bool := none
  offlineSinceAt : Option Nat := none
  deriving DecidableEq, Repr

abbrev IpRow := Row IpKey IpInfo

/-- `event_type` of an address's history. -/
inductive EventType where
  | online
  | offline
  | hostnameChanged
  | macChanged
  | allocationChanged
  | rogueDetected
  | rogueCleared
  | retired
  | dnsAdded
  | dnsRemoved
  | dnsHoldTaken
  | dnsHoldReleased
  | dhcpReservationCreated
  | dhcpReservationRemoved
  | leaseObtained
  | leaseExpired
  | ipReservationCreated
  | ipReservationReleased
  | scanEnabledChanged
  deriving DecidableEq, Repr

/-- One row of `ip_events`. It outlives the address row it names. -/
structure IpEvent where
  ipAddressId : Option Nat
  subnetId : Nat
  addr : Addr
  interfaceId : Option Text
  type : EventType
  deriving DecidableEq, Repr

/-- `ip_addresses` and `ip_events`, the oldest event first. -/
structure IpStore where
  table : Table IpKey IpInfo
  events : List IpEvent

/-- No rows and no history. -/
def IpStore.empty : IpStore := ⟨.empty, []⟩

/-! ## The tables the lifecycle reads -/

/-- `subnets.status`. -/
inductive SubnetStatus where
  | allocated
  | unallocated
  deriving DecidableEq, Repr

/-- `subnets.gateway_policy`. -/
inductive GatewayPolicy where
  | first
  | last
  | custom
  | none
  deriving DecidableEq, Repr

/-- A row of `subnets`, whose key is its `cidr`. Names and descriptions, which nothing
here reads, are left out. -/
structure SubnetInfo where
  parentId : Option Nat := none
  depth : Nat := 0
  vlanId : Option Nat := none
  folderId : Option Nat := none
  hasReverseDns : Bool := false
  status : SubnetStatus := .unallocated
  gatewayPolicy : GatewayPolicy := .none
  gatewayAddress : Option Addr := none
  domainName : Option Text := none
  scanEnabled : Option Bool := none
  scanInterval : Option Text := none
  deriving DecidableEq, Repr

abbrev SubnetRow := Row Network SubnetInfo

/-- `dhcp_scopes.v6_mode`. -/
inductive V6Mode where
  | stateless
  | slaac
  | stateful
  deriving DecidableEq, Repr

/-- A row of `range_types`: the ones a new database has, and the operator's own. -/
inductive RangeType where
  | network
  | gateway
  | broadcast
  | dhcpScope
  | static
  | custom (id : Nat)
  deriving DecidableEq, Repr

/-- `range_types.is_system`. -/
def RangeType.isSystem : RangeType → Bool
  | .custom _ => false
  | _ => true

/-- A row of `ranges`. -/
structure AddressRange where
  id : Nat
  subnetId : Nat
  type : RangeType
  startIp : Addr
  endIp : Addr
  description : Option Text
  deriving DecidableEq, Repr

/-- A row of `dhcp_scope_options`. A row without a value follows the default. -/
structure ScopeOption where
  code : Nat
  value : Option Text
  deriving DecidableEq, Repr

/-- A row of `dhcp_scopes` with its option rows, in the order of their codes. -/
structure Scope where
  id : Nat
  rangeId : Nat
  subnetId : Nat
  addressFamily : Family
  v6Mode : Option V6Mode
  leaseTime : Text
  enabled : Bool
  domainName : Option Text
  gateway : Option Addr := none
  dnsServers : Option Text := none
  ntpServers : Option Text := none
  domainSearch : Option Text := none
  description : Option Text := none
  options : List ScopeOption := []
  deriving DecidableEq, Repr

/-- A row of `dhcp_scope_pools`. -/
structure Pool where
  scopeId : Nat
  rangeId : Nat
  startIp : Addr
  endIp : Addr
  deriving DecidableEq, Repr

/-- A row of `dhcp_reservations`. -/
structure Reservation where
  id : Nat
  subnetId : Nat
  addr : Addr
  macAddress : Option Text
  duid : Option Text
  hostname : Option Text
  enabled : Bool
  deriving DecidableEq, Repr

/-- `dhcp_leases.expires_at`. -/
inductive Expiry where
  | infinite
  | at (time : Nat)
  deriving DecidableEq, Repr

/-- A row of `dhcp_leases`. -/
structure Lease where
  id : Nat
  subnetId : Option Nat
  addr : Addr
  macAddress : Option Text
  hostname : Option Text
  expiresAt : Expiry
  duid : Option Text
  deriving DecidableEq, Repr

/-- `dns_records.source`. -/
inductive RecordSource where
  | manual
  | dhcp
  | reservation
  | other (name : Text)
  deriving DecidableEq, Repr

/-- An `A` or `AAAA` row of `dns_records`. -/
structure DnsRecord where
  id : Nat
  zoneId : Nat
  name : Text
  value : Addr
  enabled : Bool
  source : Option RecordSource
  updatedAt : Nat
  deriving DecidableEq, Repr

/-- A row of `dns_zones`. -/
structure DnsZone where
  id : Nat
  name : Text
  forward : Bool
  enabled : Bool
  deriving DecidableEq, Repr

/-- The settings that are read here. -/
structure Settings where
  defaultScanEnabled : Option Text
  defaultScanInterval : Option Text
  ipv6Enabled : Bool

/-- Everything but the address rows and their history. `vendorHostname` is
`generateFallbackHostname`, which reads a vendor list downloaded at run time. -/
structure Env where
  subnets : Table Network SubnetInfo
  ranges : List AddressRange := []
  scopes : List Scope
  pools : List Pool
  reservations : List Reservation
  leases : List Lease
  records : List DnsRecord
  zones : List DnsZone
  settings : Settings
  vendorHostname : Option Text → Option Text

/-! ## Queries -/

/-- `activeLeaseSql`. -/
def Lease.isActive (lease : Lease) (now : Nat) : Bool :=
  match lease.expiresAt with
  | .infinite => true
  | .at time => now < time

/-- `addressPoolScopeSql`: a SLAAC or stateless scope hands out no addresses. -/
def Scope.isAddressPool (scope : Scope) : Bool :=
  scope.addressFamily ≠ .v6 || scope.v6Mode = some .stateful

/-- `addressInRange`, as `findEnabledScopeForIp` writes it out. -/
def Pool.contains (pool : Pool) (addr : Addr) : Bool :=
  pool.startIp.family = addr.family && pool.startIp.value ≤ addr.value &&
    addr.value ≤ pool.endIp.value

namespace Env

/-- `findEnabledScopeForIp`: the id of an enabled scope with a pool around the address. -/
def findEnabledScopeForIp (env : Env) (subnetId : Nat) (addr : Addr) : Option Nat :=
  (env.scopes.find? fun scope =>
    scope.subnetId = subnetId && scope.enabled && scope.isAddressPool &&
      env.pools.any fun pool => pool.scopeId = scope.id && pool.contains addr).map (·.id)

/-- Networks without children. -/
def isLeaf (env : Env) (row : SubnetRow) : Bool :=
  env.subnets.rows.all fun child => child.info.parentId ≠ some row.id

/-- `findSubnetForIp`: the leaf with the longest prefix that holds the address, the
first one when several have it. -/
def findSubnetForIp (env : Env) (addr : Addr) : Option SubnetRow :=
  ((env.subnets.rows.filter env.isLeaf).filter (·.key.contains addr)).foldl
    (fun best row =>
      match best with
      | none => some row
      | some held => if held.key.prefixLen < row.key.prefixLen then some row else best)
    none

/-- The zone of a record. -/
def zoneOf (env : Env) (record : DnsRecord) : Option DnsZone :=
  env.zones.find? (·.id == record.zoneId)

/-- `COALESCE(source, 'manual') = 'manual'`. -/
def isManual (record : DnsRecord) : Bool :=
  record.source = none || record.source = some .manual

/-- A manual record of a forward zone that names the address. -/
def names (env : Env) (addr : Addr) (record : DnsRecord) : Bool :=
  record.value = addr && isManual record && (env.zoneOf record).any (·.forward)

/-- The record and its zone are both enabled. -/
def isServed (env : Env) (record : DnsRecord) : Bool :=
  record.enabled && (env.zoneOf record).any (·.enabled)

/-- The record with the lowest id, for `ORDER BY id LIMIT 1`. -/
def lowest (records : List DnsRecord) : Option DnsRecord :=
  records.foldl
    (fun best record =>
      match best with
      | none => some record
      | some held => if record.id < held.id then some record else best)
    none

/-- The name a record is served as. -/
def fqdn (env : Env) (record : DnsRecord) : Text :=
  DnsNames.fqdnForRecordName record.name (((env.zoneOf record).map (·.name)).getD [])

/-- `enabledReservationAt`. -/
def enabledReservationAt (env : Env) (subnetId : Nat) (addr : Addr) : Option Reservation :=
  env.reservations.find? fun reservation =>
    reservation.subnetId = subnetId && reservation.addr = addr && reservation.enabled

/-- An active lease of the address. -/
def hasActiveLease (env : Env) (now subnetId : Nat) (addr : Addr) : Bool :=
  env.leases.any fun lease =>
    lease.subnetId = some subnetId && lease.addr = addr && lease.isActive now

end Env

end Cidrella
