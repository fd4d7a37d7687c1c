import Cidrella.Dns

/-!
# Managed reverse DNS

`reconcileManagedReverseDns`, which gives every address of a managed network its `PTR`,
and `cleanupDnsForDeallocatedSubnet`, which takes out what a network wrote for itself, with
the naming of reverse zones in `utils/reverse-zones.js`.
-/

set_option autoImplicit false

namespace Cidrella

open Address DnsNames

namespace Dns

/-! ## Names of reverse zones -/

/-- `generateReverseNames`. -/
def generateReverseNames (net : Network) : List Text :=
  match net.family with
  | .v6 =>
    let zoneNibbles := min 31 (max 1 (net.prefixLen / 4))
    [dotted ((nibblesOf net.networkBig).take zoneNibbles).reverse ++ ip6Arpa]
  | .v4 =>
    let octets := Text.groups 8 4 net.networkBig
    let zone := fun (labels : List Nat) => dotted (labels.reverse.map (Nat.toDigits 10)) ++
        inAddrArpa
    if 24 ≤ net.prefixLen then [zone (octets.take 3)]
    else if 17 ≤ net.prefixLen then
      (List.range (2 ^ (24 - net.prefixLen))).map fun i =>
        zone (octets.take 2 ++ [octets.getD 2 0 + i])
    else if 16 ≤ net.prefixLen then [zone (octets.take 2)]
    else if 8 ≤ net.prefixLen then [zone (octets.take 1)]
    else [zone (octets.take 3)]

/-- The labels of a reverse zone before its ending, when it has that ending. -/
def arpaLabels (ending name : Text) : Option (List Text) :=
  if endsWith name ending then some ((name.take (name.length - ending.length)).splitOn '.')
  else none

/-- `reverseZoneNetwork`: the CIDR text of the network a reverse zone covers. -/
def reverseZoneNetwork (zoneName : Text) : Option Text :=
  let name := dropFinalDot (toLowerCase zoneName)
  match arpaLabels inAddrArpa name, arpaLabels ip6Arpa name with
  | some labels, _ =>
    if labels.length ≤ 3 && labels.all isOctet then
      let octets := labels.reverse
      if octets.any (fun octet => 255 < Text.readDigits 10 octet) then none
      else
        some (dotted (octets ++ List.replicate (4 - octets.length) ['0']) ++
          '/' :: Nat.toDigits 10 (octets.length * 8))
    else none
  | none, some labels =>
    if labels.length ≤ 32 &&
        labels.all (fun label => label.length = 1 && label.all Text.isHexDigit) then
      let nibbles := labels.reverse
      let value :=
          Text.readDigits 16 (nibbles ++ List.replicate (32 - nibbles.length) ['0']).flatten
      (networkAt .v6 value (nibbles.length * 4)).map fun net =>
        (addressAt net.family net.networkBig).text ++ '/' :: Nat.toDigits 10 (nibbles.length * 4)
    else none
  | none, none => none

/-- `reverseNameOf`. -/
def reverseNameOf (address : Text) : Option Text :=
  (parseNetwork (address ++ '/' :: Nat.toDigits 10 (if ':' ∈ address then 128 else 32))).map
      fun net =>
    match net.family with
    | .v6 => dotted (nibblesOf net.networkBig).reverse ++ ip6Arpa
    | .v4 => dotted ((Text.groups 8 4 net.networkBig).map (Nat.toDigits 10)).reverse ++ inAddrArpa

/-- A name without an ending, its dot in front and the dot behind it. -/
def dropArpa (ending name : Text) : Text :=
  let bare := dropFinalDot name
  if endsWith bare ending then dropFinalDot (bare.take (bare.length - ending.length)) else name

/-- `split('.').filter(Boolean)`. -/
def labelsOf (name : Text) : List Text := (name.splitOn '.').filter (· ≠ [])

/-- `ipForPtrRecord`. -/
def ipForPtrRecord (recordName zoneName : Text) : Option Text :=
  let zone := toLowerCase zoneName
  let recordLabels := labelsOf (toLowerCase recordName)
  let ip6 := "ip6.arpa".toList
  if endsWith (dropFinalDot zone) ip6 then
    let nibbles := (recordLabels ++ labelsOf (dropArpa ip6 zone)).reverse
    if nibbles.length = 32 && nibbles.all (fun label => label.length = 1 &&
        label.all Text.isHexDigit) then
      some (formatIp (Text.readDigits 16 nibbles.flatten) ipv6Bits)
    else none
  else
    let ip := dotted (recordLabels ++ labelsOf (dropArpa "in-addr.arpa".toList zone)).reverse
    if (parseIp ip { zoneId := false }).any (·.bits = ipv4Bits) && ':' ∉ ip then some ip else none

namespace Store

/-! ## Reconciling -/

/-- Which protocol a name comes from. -/
inductive NameSource where
  | manual
  | reservation
  | dhcp
  deriving DecidableEq, Repr

/-- A name of an address. -/
structure ProtocolName where
  ip : Text
  source : NameSource
  hostname : Text
  deriving DecidableEq, Repr

/-- `dhcpFqdn`. -/
def dhcpFqdn (hostname : Text) (domainName : Option Text) : Text :=
  match truthy domainName with
  | some domain => fqdnForRecordName hostname domain
  | none => normalizeDnsName hostname

/-- The domain of a subnet's first enabled scope that has one, else the subnet's. -/
def protocolDomain (env : Env) (subnet : SubnetRow) : Option Text :=
  let scopes := (env.scopes.filter fun scope =>
    scope.subnetId = subnet.id && scope.enabled && hasName scope.domainName).mergeSort (·.id ≤ ·.id)
  match scopes.head? with
  | some scope => scope.domainName
  | none => subnet.info.domainName

/-- The names that records give. -/
def recordNames (s : Store) : List ProtocolName :=
  (s.records.mergeSort (·.id ≤ ·.id)).filterMap fun record => do
    let zone ← s.zoneOf record
    if record.type.isAddress && record.enabled && zone.type = .forward && zone.enabled then
      some ⟨record.value,
        match record.source with
        | .dhcp => .dhcp
        | .reservation => .reservation
        | _ => .manual,
        fqdnForRecordName record.name zone.name⟩
    else none

/-- The names that reservations give. -/
def reservationNames (env : Env) : List ProtocolName :=
  ((env.reservations.filter fun reservation => reservation.enabled &&
    hasName reservation.hostname).mergeSort (·.id ≤ ·.id)).filterMap fun reservation => do
      let subnet ← env.subnets.byId reservation.subnetId
      some ⟨reservation.addr.text, .reservation,
        dhcpFqdn (reservation.hostname.getD []) (protocolDomain env subnet)⟩

/-- The names that active leases give. -/
def leaseNames (env : Env) (now : Nat) : List ProtocolName :=
  ((env.leases.filter fun lease => lease.isActive now && hasName lease.hostname).mergeSort
    fun lease other => !env.leaseSortsBefore other lease).filterMap fun lease => do
      let subnet ← env.subnets.byId (← lease.subnetId)
      some ⟨lease.addr.text, .dhcp, dhcpFqdn (lease.hostname.getD []) (protocolDomain env subnet)⟩

/-- The first name of an address from a protocol. -/
def protocolName (names : List ProtocolName) (ip : Text) (source : NameSource) : Option Text :=
  (names.find? fun name => name.ip = ip && name.source = source && name.hostname ≠ []).map
    (·.hostname)

/-- A `PTR` that should be there. -/
structure DesiredPtr where
  zoneId : Nat
  ptrName : Text
  value : Text
  source : Source
  deriving DecidableEq, Repr

/-- The source of a `PTR` with a canonical name. -/
def ptrSource (canonical : CanonicalHostname) : Source :=
  match canonical.source with
  | some .dhcpReservation => .reservation
  | some .dhcpLease => .dhcp
  | some .dns => .dns
  | _ => .placeholder

/-- `considerAddress`: the first network to ask for a `PTR` decides it. -/
def considerAddress (s : Store) (context : Context) (names : List ProtocolName) (subnet : SubnetRow)
    (desired : List DesiredPtr) (ip : Text) : List DesiredPtr :=
  let zoneNamed := fun (candidate : PtrCandidate) =>
    s.zones.findRev? fun zone => zone.type = .reverse && zone.enabled && zone.name = candidate.name
  match (reversePtrCandidates ip).findSome? fun candidate =>
      (zoneNamed candidate).map fun zone => (zone, candidate.ptrName) with
  | none => desired
  | some (zone, ptrName) =>
    if desired.any fun row => row.zoneId = zone.id && row.ptrName = ptrName then desired
    else
      let state := (context.ips.table.rows.findRev? fun row =>
        row.key.subnetId = subnet.id && row.key.addr.text = ip).map (·.info.allocationState)
      let canonical := canonicalHostnameForAllocation state (protocolName names ip .manual)
        (protocolName names ip .reservation) (protocolName names ip .dhcp)
      desired ++ [⟨zone.id, ptrName, (truthy canonical.hostname).getD ip, ptrSource canonical⟩]

/-- The addresses of a network that have a `PTR`: all usable ones of an IPv4 network that is
not too large, the allocated ones of an IPv6 network. -/
def reconciledAddresses (context : Context) (maxAddressesPerSubnet : Nat) (subnet : SubnetRow) :
    List Text :=
  match subnet.key.family with
  | .v6 =>
    (context.ips.table.rows.filter fun row =>
      row.key.subnetId = subnet.id && row.info.allocationState ≠ .unassigned).map (·.key.addr.text)
  | .v4 =>
    let first := subnet.key.firstUsable.value
    let last := subnet.key.lastUsable.value
    if maxAddressesPerSubnet < last - first + 1 then []
    else (List.range (last - first + 1)).map fun i => formatIp (first + i) ipv4Bits

/-- The `PTR`s that should be there. -/
def desiredPtrs (s : Store) (context : Context) (subnetIds : List Nat)
    (maxAddressesPerSubnet : Nat) :
    List DesiredPtr :=
  let names := s.recordNames ++ reservationNames context.env ++ leaseNames context.env context.now
  let subnets := (context.env.subnets.rows.filter fun subnet =>
    subnet.info.status = .allocated && subnet.info.hasReverseDns &&
      (subnetIds = [] || subnet.id ∈ subnetIds)).mergeSort fun subnet other =>
        other.key.prefixLen < subnet.key.prefixLen ||
          (other.key.prefixLen = subnet.key.prefixLen && subnet.id ≤ other.id)
  subnets.foldl
    (fun desired subnet =>
      (reconciledAddresses context maxAddressesPerSubnet subnet).foldl
        (s.considerAddress context names subnet) desired)
    []

/-- A row that reconciling may write: an empty or bare address, one the application wrote,
or one with the name it should have. -/
def isGeneratedRow (current : Record) (desired : DesiredPtr) : Bool :=
  let value := trim current.value
  value = [] || isValidAddress value || current.source.isGenerated ||
    toLowerCase value = toLowerCase desired.value

/-- A row that differs from what it should be. -/
def ptrDiffers (current : Record) (desired : DesiredPtr) : Bool :=
  toLowerCase (trim current.value) ≠ toLowerCase desired.value || current.source ≠ desired.source ||
    !current.enabled

/-- One `PTR` of `reconcileManagedReverseDns`: the store and whether it changed. `before` is
the store as it was read. -/
def reconcilePtr (before s : Store) (desired : DesiredPtr) : Store × Bool :=
  match before.records.findRev? fun record =>
      record.type = .ptr && record.zoneId = desired.zoneId && record.name = desired.ptrName with
  | none => (s.insert ⟨0, desired.zoneId, desired.ptrName, .ptr, desired.value, desired.source,
      true⟩, true)
  | some current =>
    if isGeneratedRow current desired && ptrDiffers current desired then
      (s.update current.id fun record =>
        { record with value := desired.value, source := desired.source, enabled := true }, true)
    else (s, false)

/-- Where the loop of `reconcileManagedReverseDns` is. -/
structure ReconcileState where
  store : Store
  changedZones : List Nat := []

/-- One round of the loop. -/
def reconcileStep (before : Store) (state : ReconcileState) (desired : DesiredPtr) :
    ReconcileState :=
  match before.reconcilePtr state.store desired with
  | (store, true) => ⟨store, state.changedZones ++ [desired.zoneId]⟩
  | (store, false) => { state with store }

/-- `reconcileManagedReverseDns`. No ids stand for all networks. -/
def reconcileManagedReverseDns (s : Store) (context : Context) (subnetIds : List Nat)
    (maxAddressesPerSubnet : Nat := 65536) : Store :=
  let desired := s.desiredPtrs context subnetIds maxAddressesPerSubnet
  let done := desired.foldl (reconcileStep s) ⟨s, []⟩
  done.changedZones.eraseDups.foldl bumpZoneSerial done.store

/-! ## A network that is deallocated -/

/-- What deallocating a network takes out of DNS. -/
structure DeallocationImpact where
  generatedPtrs : List Record
  generatedAddressRecords : List Record
  reverseZones : List (Zone × Bool)

/-- The network a zone covers. A text that cannot be read again throws. -/
def coveredNetwork (zone : Zone) : Option (Option Network) :=
  match reverseZoneNetwork zone.name with
  | none => some none
  | some cidr => (parseNetwork cidr).map some

/-- `dnsDeallocationImpact`, which throws for a zone or an address it cannot read. -/
def dnsDeallocationImpact (s : Store) (env : Env) (subnet : SubnetRow)
    (excludeSubnetIds : List Nat) :
    Option DeallocationImpact := do
  let zones := (generateReverseNames subnet.key).filterMap fun name => s.zones.find? (·.name = name)
  let reverse := s.zones.filter (·.type = .reverse)
  let covered ← reverse.mapM fun zone => (coveredNetwork zone).map fun net => (zone, net)
  let ptrZones := covered.filterMap fun (zone, net) =>
    if net.any (·.overlaps subnet.key) then some zone else none
  let generatedPtrs := s.records.filter fun record =>
    record.type = .ptr && record.source ∈ [Source.placeholder, .dhcp, .reservation] &&
      ptrZones.any fun zone => zone.id = record.zoneId &&
        (ipForPtrRecord record.name zone.name).any fun ip =>
        (addressToBig ip).any subnet.key.contains
  let addressRecords := s.records.filter fun record =>
    record.type.isAddress && record.source ∈ [Source.dhcp, .reservation]
  let addresses ← addressRecords.mapM fun record => (addressToBig record.value).map fun addr =>
      (record, addr)
  let generatedAddressRecords := addresses.filterMap fun (record, addr) =>
    if subnet.key.contains addr then some record else none
  let others := env.subnets.rows.filter fun other =>
    other.info.status = .allocated && other.info.hasReverseDns && other.id ∉ subnet.id ::
      excludeSubnetIds
  let reverseZones ← zones.mapM fun zone => (coveredNetwork zone).map fun net =>
    (zone, !net.any fun net => others.any fun other => other.key.overlaps net)
  some ⟨generatedPtrs, generatedAddressRecords, reverseZones⟩

/-- Rows go one by one. -/
def deleteAll (s : Store) (records : List Record) : Store :=
  records.foldl (fun s record => s.deleteId record.id) s

/-- Serials are raised one by one. -/
def bumpAll (s : Store) (zoneIds : List Nat) : Store := zoneIds.foldl bumpZoneSerial s

/-- `cleanupDnsForDeallocatedSubnet`. -/
def cleanupDnsForDeallocatedSubnet (s : Store) (env : Env) (subnet : SubnetRow)
    (excludeSubnetIds : List Nat) :
    Option Store := do
  let impact ← s.dnsDeallocationImpact env subnet excludeSubnetIds
  let reverseZoneIds := impact.reverseZones.map (·.1.id)
  let s := s.deleteAll impact.generatedPtrs
  let s := s.bumpAll ((impact.generatedPtrs.map Record.zoneId).eraseDups.filter
      (· ∉ reverseZoneIds))
  let s := s.deleteAll impact.generatedAddressRecords
  let s := s.bumpAll (impact.generatedAddressRecords.map Record.zoneId).eraseDups
  some (impact.reverseZones.foldl
    (fun s (zone, willDisable) =>
      let s := s.bumpZoneSerial zone.id
      if willDisable then s.updateZone zone.id fun zone => { zone with enabled := false } else s)
    s)

/-- `deleteARecordsByIps`. -/
def deleteARecordsByIps (s : Store) (ips : List Text) : Store :=
  ips.foldl (fun s ip => s.delete fun record => record.type.isAddress && record.value = ip) s

/-- `deleteARecordByIdentity`. -/
def deleteARecordByIdentity (s : Store) (id : Nat) (ip : Text) : Store :=
  s.delete fun record => record.id = id && record.type.isAddress && record.value = ip

end Store

end Dns

end Cidrella
