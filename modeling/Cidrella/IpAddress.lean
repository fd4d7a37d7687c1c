import Cidrella.ScanCoverage

/-!
# The address model

`models/ip-address.js`, the single owner of `ip_addresses` writes. Every function takes
the store and returns the store it leaves; a function that throws returns the failure,
and its caller's transaction rolls back.

`upsert` updates only the columns it is given. Lookups by subnet and address alone
ignore the interface, as the source's do; where two link-local rows share an address SQL
leaves the choice open, and here the older row is taken.
-/

set_option autoImplicit false

namespace Cidrella

open Address

/-- What the lifecycle throws. -/
inductive Failure where
  /-- `Invalid interface context`. -/
  | invalidInterface
  /-- `IPv6 link-local addresses require interface context`. -/
  | interfaceRequired
  /-- `Interface context is only valid for IPv6 link-local addresses`. -/
  | interfaceNotAllowed
  /-- The trigger `ip_addresses_interface_scope_insert`. -/
  | interfaceTrigger
  /-- `FOREIGN KEY constraint failed`. -/
  | foreignKey
  /-- `UNIQUE constraint failed`. -/
  | unique
  /-- `Address does not belong to a managed subnet`. -/
  | unmanaged
  /-- The address is protected by topology, in this state. -/
  | protectedBy (state : AllocationState)
  /-- `Cannot change … from … to … via …`. -/
  | transition (current target : AllocationState) (source : LifecycleSource)
  /-- `Cannot allocate … through DNS because it is inside enabled DHCP scope …`. -/
  | insideScope (scopeId : Nat)
  /-- `… is held by a disabled DNS record`. -/
  | heldByDns
  /-- `DHCP lease … has no managed subnet`. -/
  | leaseWithoutSubnet
  /-- `DHCP Lease … does not match its DHCP Reservation client`. -/
  | leaseOfAnotherClient
  /-- `Dynamic lease … is outside an enabled DHCP scope`. -/
  | leaseOutsideScope
  /-- `SLAAC valid lifetime is required` and its DHCPv6 counterpart. -/
  | lifetimeRequired
  /-- `DHCPv6 lease requires DUID and IAID identity`. -/
  | clientIdentityRequired
  /-- `DHCPv6 lease requires validated enabled-pool membership`. -/
  | poolNotValidated
  /-- `Invalid protected topology state`. -/
  | invalidTopologyState (state : AllocationState)
  /-- `Untrusted Router Advertisement cannot set gateway authority`. -/
  | untrustedAdvertisement
  deriving DecidableEq, Repr

/-! ## Identity -/

/-- An address text with the zone after its `%`. -/
structure ScopedAddr where
  addr : Addr
  zone : Option Text := none
  deriving DecidableEq, Repr

instance : Coe Addr ScopedAddr := ⟨fun addr => ⟨addr, none⟩⟩

/-- `fe80::/10`. -/
def Addr.isV6LinkLocal (addr : Addr) : Bool :=
  addr.family = .v6 && 0xfe80 <<< 112 ≤ addr.value && addr.value ≤ (0xfec0 <<< 112) - 1

/-- The texts that match `fe[89ab]*`: the first group is `fe80` to `febf`, or one of
`fe8`, `fe9`, `fea` and `feb`. -/
def Addr.looksLinkLocal (addr : Addr) : Bool :=
  addr.family = .v6 &&
    (let group := addr.value / 2 ^ 112
     (0xfe80 ≤ group && group ≤ 0xfebf) || (0xfe8 ≤ group && group ≤ 0xfeb))

/-- `/^[a-zA-Z0-9._:-]{1,64}$/`. -/
def isInterfaceName (text : Text) : Bool :=
  1 ≤ text.length && text.length ≤ 64 &&
    text.all fun c => c.isAlphanum || c ∈ ['.', '_', ':', '-']

/-- `canonicalIdentity`: the address and the interface its row is keyed by. -/
def canonicalIdentity (ip : ScopedAddr) : Except Failure (Addr × Option Text) :=
  let interfaceId := truthy (ip.zone.map trim)
  if interfaceId.any fun name => !isInterfaceName name then .error .invalidInterface
  else if ip.addr.isV6LinkLocal && interfaceId.isNone then .error .interfaceRequired
  else if !ip.addr.isV6LinkLocal && interfaceId.isSome then .error .interfaceNotAllowed
  else .ok (ip.addr, interfaceId)

/-- The key of an address in a subnet. -/
def identityKey (subnetId : Nat) (ip : ScopedAddr) : Except Failure IpKey := do
  let identity ← canonicalIdentity ip
  .ok ⟨subnetId, identity.1, identity.2⟩

/-! ## Reading and events -/

namespace IpStore

/-- `findBySubnetAndIp`. -/
def findBySubnetAndIp (store : IpStore) (subnetId : Nat) (ip : ScopedAddr) :
    Except Failure (Option IpRow) := do
  let key ← identityKey subnetId ip
  .ok (store.table.lookup key)

/-- `WHERE subnet_id = ? AND ip_address = ?`, whatever the interface. -/
def findAnyInterface (store : IpStore) (subnetId : Nat) (addr : Addr) : Option IpRow :=
  store.table.find? fun row => row.key.subnetId == subnetId && row.key.addr == addr

/-- New columns for the row with an id. -/
def setInfo (store : IpStore) (id : Nat) (change : IpInfo → IpInfo) : IpStore :=
  { store with table := store.table.update (·.id == id) fun row => change row.info }

/-- `emit`: an event for a row, which supplies the address and interface. -/
def emit (store : IpStore) (id subnetId : Nat) (addr : Addr) (type : EventType) : IpStore :=
  let row := store.table.byId id
  { store with
    events := store.events ++
      [⟨some id, subnetId, (row.map (·.key.addr)).getD addr, row.bind (·.key.interfaceId), type⟩] }

/-- Several events for one row, in order. -/
def emitAll (store : IpStore) (id subnetId : Nat) (addr : Addr) (types : List EventType) :
    IpStore :=
  types.foldl (fun store type => store.emit id subnetId addr type) store

/-- `emitEvent`: an event for an address that has a row. -/
def emitEvent (store : IpStore) (subnetId : Nat) (addr : Addr) (type : EventType) : IpStore :=
  match store.findAnyInterface subnetId addr with
  | some row => store.emit row.id subnetId addr type
  | none => store

/-- `recordEvent`: an event for an address whether or not it still has a row. -/
def recordEvent (store : IpStore) (subnetId : Nat) (ip : ScopedAddr) (type : EventType) :
    Except Failure IpStore := do
  let key ← identityKey subnetId ip
  let id := (store.table.lookup key).map (·.id)
  .ok { store with events := store.events ++ [⟨id, subnetId, key.addr, key.interfaceId, type⟩] }

end IpStore

/-! ## The partial update -/

/-- The columns an `upsert` gives. `none` is a column that is not given; a column that
is given may be given as null. `allocationEvent` names an allocation change. -/
structure Fields where
  hostname : Option (Option Text) := none
  macAddress : Option (Option Text) := none
  isOnline : Option Bool := none
  lastSeenMac : Option (Option Text) := none
  isRogue : Option Bool := none
  rogueReason : Option (Option Text) := none
  lastScannedAt : Option (Option Nat) := none
  detectionSource : Option (Option DetectionSource) := none
  allocationState : Option AllocationState := none
  allocationSourceType : Option (Option LifecycleSource) := none
  allocationSourceId : Option (Option Nat) := none
  preferredUntil : Option (Option Nat) := none
  validUntil : Option (Option Nat) := none
  dhcpVersion : Option (Option DhcpVersion) := none
  dhcpDuid : Option (Option Text) := none
  dhcpIaid : Option (Option Text) := none
  reservationNote : Option (Option Text) := none
  scanEnabled : Option (Option Bool) := none
  allocationEvent : Option EventType := none
  deriving DecidableEq, Repr

namespace Fields

/-- The `UPDATE` of a row that exists. Only `is_online` touches the sighting times. -/
def apply (fields : Fields) (now : Nat) (old : IpInfo) : IpInfo where
  hostname := fields.hostname.getD old.hostname
  macAddress := fields.macAddress.getD old.macAddress
  isOnline := fields.isOnline.getD old.isOnline
  lastSeenAt := if fields.isOnline = some true then some now else old.lastSeenAt
  lastSeenMac := fields.lastSeenMac.getD old.lastSeenMac
  isRogue := fields.isRogue.getD old.isRogue
  rogueReason := fields.rogueReason.getD old.rogueReason
  lastScannedAt := fields.lastScannedAt.getD old.lastScannedAt
  firstSeenAt := if fields.isOnline = some true then some (old.firstSeenAt.getD now)
    else old.firstSeenAt
  detectionSource := fields.detectionSource.getD old.detectionSource
  allocationState := fields.allocationState.getD old.allocationState
  allocationSourceType := fields.allocationSourceType.getD old.allocationSourceType
  allocationSourceId := fields.allocationSourceId.getD old.allocationSourceId
  preferredUntil := fields.preferredUntil.getD old.preferredUntil
  validUntil := fields.validUntil.getD old.validUntil
  dhcpVersion := fields.dhcpVersion.getD old.dhcpVersion
  dhcpDuid := fields.dhcpDuid.getD old.dhcpDuid
  dhcpIaid := fields.dhcpIaid.getD old.dhcpIaid
  reservationNote := fields.reservationNote.getD old.reservationNote
  scanEnabled := fields.scanEnabled.getD old.scanEnabled
  offlineSinceAt :=
    match fields.isOnline with
    | some true => none
    | some false => some (old.offlineSinceAt.getD now)
    | none => old.offlineSinceAt

/-- The events of an `UPDATE`. A liveness event stands for an edge, not for a write. -/
def updateEvents (fields : Fields) (old : IpInfo) : List EventType :=
  (if fields.hostname.any (· ≠ old.hostname) then [.hostnameChanged] else []) ++
  (if fields.macAddress.any (· ≠ old.macAddress) then [.macChanged] else []) ++
  (match fields.isOnline with
    | some online =>
      if online ≠ old.isOnline then [if online then .online else .offline] else []
    | none => []) ++
  (if fields.allocationState.any (· ≠ old.allocationState) then
    [fields.allocationEvent.getD .allocationChanged] else [])

/-- The row an `INSERT` makes. An empty text is stored as null. -/
def initial (fields : Fields) (now : Nat) : IpInfo where
  hostname := truthy (fields.hostname.getD none)
  macAddress := truthy (fields.macAddress.getD none)
  isOnline := fields.isOnline.getD false
  lastSeenAt := if fields.isOnline = some true then some now else none
  lastSeenMac := truthy (fields.lastSeenMac.getD none)
  isRogue := fields.isRogue.getD false
  rogueReason := truthy (fields.rogueReason.getD none)
  lastScannedAt := fields.lastScannedAt.getD none
  firstSeenAt :=
    if fields.isOnline = some true || (truthy (fields.macAddress.getD none)).isSome ||
      (truthy (fields.lastSeenMac.getD none)).isSome then some now else none
  detectionSource := fields.detectionSource.getD none
  allocationState := fields.allocationState.getD .unassigned
  allocationSourceType := fields.allocationSourceType.getD none
  allocationSourceId := fields.allocationSourceId.getD none
  preferredUntil := fields.preferredUntil.getD none
  validUntil := fields.validUntil.getD none
  dhcpVersion := fields.dhcpVersion.getD none
  dhcpDuid := truthy (fields.dhcpDuid.getD none)
  dhcpIaid := fields.dhcpIaid.getD none
  reservationNote := truthy (fields.reservationNote.getD none)
  scanEnabled := fields.scanEnabled.getD none
  offlineSinceAt := none

/-- The events of an `INSERT`: the allocation, and no liveness edge. -/
def insertEvents (fields : Fields) : List EventType :=
  if fields.allocationState.any (· ≠ .unassigned) then
    [fields.allocationEvent.getD .allocationChanged]
  else []

end Fields

namespace IpStore

/-- The `INSERT` of `upsert`, with the checks the schema makes. -/
def create (store : IpStore) (env : Env) (key : IpKey) (info : IpInfo) (types : List EventType) :
    Except Failure (IpStore × Nat) :=
  if (env.subnets.byId key.subnetId).isNone then .error .foreignKey
  else if key.addr.looksLinkLocal ≠ key.interfaceId.isSome then .error .interfaceTrigger
  else
    match store.table.insert key info with
    | none => .error .unique
    | some table =>
      .ok (emitAll { store with table := table } store.table.nextId key.subnetId key.addr types,
        store.table.nextId)

/-- `upsert`: update the row of the address, or make one. Returns the row's id. -/
def upsert (store : IpStore) (env : Env) (now subnetId : Nat) (ip : ScopedAddr) (fields : Fields) :
    Except Failure (IpStore × Nat) := do
  let key ← identityKey subnetId ip
  match store.table.lookup key with
  | some row =>
    .ok (emitAll (store.setInfo row.id (fields.apply now)) row.id subnetId key.addr
      (fields.updateEvents row.info), row.id)
  | none => store.create env key (fields.initial now) fields.insertEvents

/-! ## Liveness -/

/-- `markOnline`: the row is there; unknown addresses get none. -/
def markOnline (store : IpStore) (now subnetId : Nat) (addr : Addr) (mac : Option Text)
    (source : Option DetectionSource) : IpStore :=
  match store.findAnyInterface subnetId addr with
  | none => store
  | some row =>
    let patched := store.setInfo row.id fun old =>
      { old with
        isOnline := true
        lastSeenAt := some now
        firstSeenAt := some (old.firstSeenAt.getD now)
        offlineSinceAt := none
        lastSeenMac := if (truthy mac).isSome then mac else old.lastSeenMac
        detectionSource := if source.isSome then source else old.detectionSource }
    if row.info.isOnline then patched else patched.emit row.id subnetId addr .online

/-- `addressClaim`. -/
def addressClaim (row : Option IpRow) : Bool :=
  row.any (·.info.allocationState ≠ .unassigned)

/-- `recordPassiveActivity`. An unknown address may be created as rogue. -/
def recordPassiveActivity (store : IpStore) (env : Env) (now subnetId : Nat) (addr : Addr)
    (mac : Option Text) (source : DetectionSource) (createRogue : Bool) (rogueReason : Text) :
    Except Failure IpStore :=
  match store.findAnyInterface subnetId addr with
  | some _ => .ok (store.markOnline now subnetId addr mac (some source))
  | none =>
    if !createRogue then .ok store
    else do
      let (created, id) ← store.upsert env now subnetId addr
        { isOnline := some true
          lastSeenMac := some (truthy mac)
          isRogue := some true
          rogueReason := some (some rogueReason)
          detectionSource := some (some source)
          allocationState := some .unassigned
          allocationSourceType := some none }
      .ok (created.emitAll id subnetId addr [.online, .rogueDetected])

/-- The update `markOffline` and the staleness sweep share. -/
def offlineInfo (now : Nat) (old : IpInfo) : IpInfo :=
  { old with
    isOnline := false
    isRogue := false
    offlineSinceAt := some (old.offlineSinceAt.getD now) }

/-- The events of a row that is taken offline. -/
def offlineEvents (row : IpRow) : List EventType :=
  (if row.info.isOnline then [.offline] else []) ++
    (if row.info.isRogue then [.rogueCleared] else [])

/-- `markOffline`. -/
def markOffline (store : IpStore) (now subnetId : Nat) (addr : Addr) : IpStore :=
  match store.findAnyInterface subnetId addr with
  | none => store
  | some row =>
    (store.emitAll row.id subnetId addr (offlineEvents row)).setInfo row.id (offlineInfo now)

/-- `clearRogue`. -/
def clearRogue (store : IpStore) (subnetId : Nat) (addr : Addr) : IpStore :=
  match store.findAnyInterface subnetId addr with
  | none => store
  | some row =>
    if !row.info.isRogue then store
    else
      emit
        { store with
          table := store.table.update
            (fun row => row.key.subnetId == subnetId && row.key.addr == addr)
            fun row => { row.info with isRogue := false, rogueReason := none } }
        row.id subnetId addr .rogueCleared

/-- `clearRogueAfterScan`: only the addresses the scan probed and did not flag. -/
def clearRogueAfterScan (store : IpStore) (subnetId : Nat) (probedIps exceptIps : List Addr) :
    IpStore :=
  let rows := store.table.rows.filter fun row =>
    row.key.subnetId = subnetId && row.info.isRogue && row.key.addr ∈ probedIps &&
      row.key.addr ∉ exceptIps
  rows.foldl
    (fun store row =>
      (store.emit row.id subnetId row.key.addr .rogueCleared).setInfo row.id fun old =>
        { old with isRogue := false, rogueReason := none })
    store

/-- `bulkMarkStale`: rows not seen for `staleSeconds` on networks the scanner leaves alone. -/
def bulkMarkStale (store : IpStore) (env : Env) (now staleSeconds : Nat) : IpStore :=
  let staleIps := store.table.rows.filter fun row =>
    row.info.isOnline && (row.info.lastSeenAt.any fun seen => seen + staleSeconds < now) &&
      (env.subnets.byId row.key.subnetId).any fun subnet =>
        !ScanCoverage.scannerCovered env subnet row.info ||
          !ScanCoverage.isAutomaticScanAllowed env subnet
  let logged := staleIps.foldl
    (fun store row => store.emitAll row.id row.key.subnetId row.key.addr (offlineEvents row)) store
  staleIps.foldl (fun store row => store.setInfo row.id (offlineInfo now)) logged

/-! ## Scans -/

/-- One result of a scan. -/
structure ScanResult where
  responded : Bool
  mac : Option Text
  isConflict : Bool
  conflictReason : Option Text
  deriving DecidableEq, Repr

/-- Something heard from the host after its last scan. -/
def seenSinceScan (info : IpInfo) : Bool :=
  match info.lastSeenAt, info.lastScannedAt with
  | some seen, some scanned => scanned < seen
  | _, _ => false

/-- A new MAC answers where DHCP does not set it. -/
def macReplaced (info : IpInfo) (mac : Option Text) : Bool :=
  match truthy mac, truthy info.macAddress with
  | some seen, some stored =>
    DnsNames.toLowerCase stored ≠ DnsNames.toLowerCase seen &&
      !macIsAuthoritative info.allocationState
  | _, _ => false

/-- The `UPDATE` of `updateFromScan`. -/
def scannedInfo (now : Nat) (result : ScanResult) (conflict : Bool) (old : IpInfo) : IpInfo :=
  let online := result.responded || (old.isOnline && seenSinceScan old)
  let seenMac := truthy result.mac
  let orphan := result.responded && conflict && old.detectionSource = some .dhcpLease
  { old with
    isOnline := online
    lastScannedAt := some now
    detectionSource :=
      if orphan then some .scanner
      else if result.responded then some (old.detectionSource.getD .scanner)
      else old.detectionSource
    lastSeenAt := if result.responded then some now else old.lastSeenAt
    firstSeenAt := if result.responded then some (old.firstSeenAt.getD now) else old.firstSeenAt
    offlineSinceAt :=
      if result.responded then none
      else if !online then some (old.offlineSinceAt.getD now)
      else old.offlineSinceAt
    lastSeenMac := if seenMac.isSome then seenMac else old.lastSeenMac
    macAddress :=
      if seenMac.isSome && ((truthy old.macAddress).isNone || macReplaced old result.mac)
        then seenMac
      else old.macAddress
    isRogue := result.responded && conflict
    rogueReason := if result.responded && conflict then result.conflictReason else none
    hostname := if orphan then none else old.hostname }

/-- The events of `updateFromScan` for a row that exists. -/
def scanEvents (result : ScanResult) (conflict : Bool) (old : IpInfo) : List EventType :=
  let online := result.responded || (old.isOnline && seenSinceScan old)
  (if result.responded && !old.isOnline then [.online]
    else if !online && old.isOnline then [.offline]
    else []) ++
  (if macReplaced old result.mac then [.macChanged] else []) ++
  (if conflict && !old.isRogue then [.rogueDetected]
    else if !conflict && old.isRogue then [.rogueCleared]
    else [])

/-- `updateFromScan`. The claim of the row is checked again: its allocation may have
changed after the scanner built its assignment map. -/
def updateFromScan (store : IpStore) (env : Env) (now subnetId : Nat) (addr : Addr)
    (result : ScanResult) : Except Failure IpStore :=
  let existing := store.findAnyInterface subnetId addr
  let conflict := result.isConflict && !addressClaim existing
  match existing with
  | some row =>
    .ok ((store.setInfo row.id (scannedInfo now result conflict)).emitAll row.id subnetId addr
      (scanEvents result conflict row.info))
  | none =>
    if !result.responded then .ok store
    else do
      let (created, id) ← store.upsert env now subnetId addr
        { isOnline := some true
          lastSeenMac := some (truthy result.mac)
          macAddress := some (truthy result.mac)
          isRogue := some conflict
          rogueReason := some (if conflict then result.conflictReason else none)
          lastScannedAt := some (some now)
          detectionSource := some (some .scanner) }
      .ok (created.emitAll id subnetId addr
        (.online :: if conflict then [.rogueDetected] else []))

/-- `setScanEnabled`: the per-address override. -/
def setScanEnabled (store : IpStore) (env : Env) (now subnetId : Nat) (addr : Addr)
    (scanEnabled : Option Bool) : Except Failure IpStore :=
  match store.findAnyInterface subnetId addr with
  | some row =>
    let patched := store.setInfo row.id fun old => { old with scanEnabled := scanEnabled }
    .ok (if row.info.scanEnabled = scanEnabled then patched
      else patched.emit row.id subnetId addr .scanEnabledChanged)
  | none => do
      let (created, id) ← store.upsert env now subnetId addr {}
      .ok ((created.setInfo id fun old => { old with scanEnabled := scanEnabled }).emit id subnetId
        addr .scanEnabledChanged)

/-! ## Removal -/

/-- `deleteById`. -/
def deleteById (store : IpStore) (id : Nat) : IpStore :=
  { store with table := store.table.delete (·.id == id) }

/-- `deleteBySubnet`. -/
def deleteBySubnet (store : IpStore) (subnetId : Nat) : IpStore :=
  { store with table := store.table.delete (·.key.subnetId == subnetId) }

/-- `deleteByIpAddress`. -/
def deleteByIpAddress (store : IpStore) (addr : Addr) : IpStore :=
  { store with table := store.table.delete (·.key.addr == addr) }

/-- The row of the moved address that is already in the target goes, whatever its
interface. -/
def clearDuplicate (store : IpStore) (id : Nat) (addr : Addr) (targetSubnetId : Nat) : IpStore :=
  match store.findAnyInterface targetSubnetId addr with
  | some dup => if dup.id ≠ id then store.deleteById dup.id else store
  | none => store

/-- `moveToSubnet`: the row goes to another network and its history with it. -/
def moveToSubnet (store : IpStore) (env : Env) (id : Nat) (addr : Addr) (targetSubnetId : Nat) :
    Except Failure IpStore :=
  let cleared := store.clearDuplicate id addr targetSubnetId
  if (cleared.table.byId id).isSome && (env.subnets.byId targetSubnetId).isNone then
    .error .foreignKey
  else
    match cleared.table.rekey id fun key => { key with subnetId := targetSubnetId } with
    | none => .error .unique
    | some table =>
      .ok
        { table := table
          events := cleared.events.map fun event =>
            if event.ipAddressId = some id then { event with subnetId := targetSubnetId }
            else event }

/-- A MAC column that is the given MAC, in any case. -/
def macIs (mac : Text) (column : Option Text) : Bool :=
  column.any fun stored => DnsNames.toLowerCase stored = DnsNames.toLowerCase mac

/-- `removeOtherRowsForMac`: dynamic rows of the same MAC that neither a reservation nor
an active lease keeps. -/
def removeOtherRowsForMac (store : IpStore) (env : Env) (now subnetId : Nat) (addr : Addr)
    (mac : Option Text) : IpStore :=
  match truthy mac with
  | none => store
  | some mac =>
    { store with
      table := store.table.delete fun stale =>
        (macIs mac stale.info.macAddress || macIs mac stale.info.lastSeenMac) &&
        !(stale.key.subnetId = subnetId && stale.key.addr = addr) &&
        stale.info.allocationState = .dynamicDhcp &&
        (env.enabledReservationAt stale.key.subnetId stale.key.addr).isNone &&
        !env.hasActiveLease now stale.key.subnetId stale.key.addr }

/-! ## Retirement -/

/-- A DHCP lease's DNS record still names the address. -/
def holdsLeaseRecord (env : Env) (addr : Addr) : Bool :=
  env.records.any fun record => record.source = some .dhcp && record.value = addr

/-- The detection sources whose findings lapse. -/
def isLearned (source : Option DetectionSource) : Bool :=
  source ∈ [some .dhcpLease, some .slaac, some .scanner, some .passive, some .neighborDiscovery]

/-- The `WHERE` of `findRetirementCandidates`. -/
def isRetirementCandidate (env : Env) (cutoff now : Nat) (row : IpRow) : Bool :=
  !row.info.isOnline &&
  (row.info.offlineSinceAt.any fun since => since ≤ cutoff) &&
  (row.info.allocationState = .dynamicDhcp ||
    (row.info.allocationState = .slaac && row.info.validUntil.any fun until_ => until_ ≤ now) ||
    (row.info.allocationState = .unassigned &&
      (env.enabledReservationAt row.key.subnetId row.key.addr).isNone &&
      !(env.records.any fun record => env.names row.key.addr record && env.isServed record) &&
      (row.info.isRogue || isLearned row.info.detectionSource ||
        holdsLeaseRecord env row.key.addr)))

/-- `ORDER BY datetime(offline_since_at), id`. -/
def retiresBefore (row other : IpRow) : Bool :=
  let since := fun (row : IpRow) => row.info.offlineSinceAt.getD 0
  since row < since other || (since row = since other && row.id ≤ other.id)

/-- `findRetirementCandidates`. -/
def findRetirementCandidates (store : IpStore) (env : Env) (cutoff now limit : Nat) : List IpRow :=
  ((store.table.rows.filter (isRetirementCandidate env cutoff now)).mergeSort retiresBefore).take
    limit

/-- `startMissingRetirementWindows`. -/
def startMissingRetirementWindows (store : IpStore) (env : Env) (now : Nat) : IpStore :=
  { store with
    table := store.table.update
      (fun row =>
        !row.info.isOnline && row.info.offlineSinceAt.isNone &&
          (row.info.allocationState = .dynamicDhcp || row.info.allocationState = .slaac ||
            row.info.isRogue || isLearned row.info.detectionSource ||
            holdsLeaseRecord env row.key.addr))
      fun row => { row.info with offlineSinceAt := some now } }

/-- The `UPDATE` of `retireLearnedMetadata`. What an operator wrote stays. -/
def retiredInfo (old : IpInfo) : IpInfo :=
  { old with
    hostname := none
    macAddress := none
    lastSeenMac := none
    lastSeenAt := none
    firstSeenAt := none
    lastScannedAt := none
    offlineSinceAt := none
    detectionSource := none
    isRogue := false
    rogueReason := none
    allocationState := .unassigned
    allocationSourceType := none
    allocationSourceId := none
    preferredUntil := none
    validUntil := none
    dhcpVersion := none
    dhcpDuid := none
    dhcpIaid := none }

/-- `retireLearnedMetadata`, for a row as it was when it was selected. -/
def retireLearnedMetadata (store : IpStore) (row : IpRow) : IpStore :=
  let cleared :=
    if row.info.isRogue then store.emit row.id row.key.subnetId row.key.addr .rogueCleared
    else store
  let retired := cleared.setInfo row.id retiredInfo
  if row.info.allocationState ≠ .unassigned || row.info.isRogue ||
      (truthy row.info.hostname).isSome || (truthy row.info.macAddress).isSome ||
      (truthy row.info.lastSeenMac).isSome || row.info.lastSeenAt.isSome then
    retired.emit row.id row.key.subnetId row.key.addr .retired
  else retired

end IpStore

end Cidrella
