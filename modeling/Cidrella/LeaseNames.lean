import Cidrella.Dns
import Cidrella.Observations
import Cidrella.ScopeOptions

/-!
# The names of leases

`assignLeaseNames` of `models/dhcp-lease.js`: the effective name of every lease of a list,
decided before the leases are stored. Addresses that hold a lease record keep its name
first; the other leases then claim names in the order of their addresses, with a suffix
where the name is taken. `replaceLeases` stores the leases with their names.
-/

set_option autoImplicit false

namespace Cidrella

open Address DnsNames

namespace LeaseNames

open Dns

/-- A lease as a backend reports it. -/
structure BackendLease where
  ip : Addr
  mac : Option Text := none
  hostname : Option Text := none
  subnetId : Option Nat := none
  duid : Option Text := none
  expiresAt : Expiry := .infinite
  deriving DecidableEq, Repr

/-- What naming reads beside the DNS tables: `fallbackName` is the vendor's name of a MAC,
`parseList` what `JSON.parse` makes of a legacy column. -/
structure Naming extends Context where
  parseList : Text → Option (List Text)
  optionDefaults : Family → Nat → Option Text
  fallbackName : Text → Option Text

/-- A zone without its serial. -/
structure ZoneRef where
  id : Nat
  name : Text
  type : ZoneType
  enabled : Bool
  deriving DecidableEq, Repr

/-- A zone without its serial. -/
def zoneRef (zone : Zone) : ZoneRef := ⟨zone.id, zone.name, zone.type, zone.enabled⟩

/-- The zones without their serials, which names do not depend on. -/
def zoneRefs (s : Store) : List ZoneRef := s.zones.map zoneRef

/-! ## The forward zone of an address -/

namespace Naming

/-- `effective_domain` of a scope. -/
def effectiveDomain (n : Naming) (scope : Scope) (subnet : SubnetRow) : Option Text :=
  let code := if scope.addressFamily = .v6 then 24 else 15
  let value := ScopeOptions.served n.parseList (n.optionDefaults scope.addressFamily)
      scope subnet code
  (truthy (value.map fun text => trim ((text.splitOn ',').headD []))).or
    (truthy subnet.info.domainName)

/-- `domainFor`: the domain of the enabled scope whose pool holds the address, else the
subnet's. -/
def domainFor (n : Naming) (subnetId : Nat) (ip : Addr) : Option Text := do
  let subnet ← n.env.subnets.byId subnetId
  let scope := n.env.scopes.find? fun scope =>
    scope.enabled && scope.subnetId = subnetId &&
      n.env.pools.any fun pool => pool.scopeId = scope.id && pool.contains ip
  (scope.bind fun scope => n.effectiveDomain scope subnet).or (truthy subnet.info.domainName)

/-- `zoneByName`: enabled forward zones; of two with one name the later one. -/
def zoneByName (zones : List ZoneRef) (name : Text) : Option ZoneRef :=
  zones.findRev? fun zone => zone.type = .forward && zone.enabled && zone.name = name

/-- `zoneFor`. -/
def zoneFor (n : Naming) (zones : List ZoneRef) (subnetId : Option Nat) (ip : Addr) :
    Option ZoneRef := do
  let domain ← n.domainFor (← subnetId) ip
  zoneByName zones domain

end Naming

/-- `recordTypeFor`. -/
def recordTypeFor (ip : Addr) : RecordType :=
  match ip.family with
  | .v4 => .a
  | .v6 => .aaaa

/-! ## Names -/

/-- The suffix `-00` to `-FF` of a number. -/
def nameSuffix (i : Nat) : Text :=
  '-' :: (Nat.toDigits 16 (i / 16) ++ Nat.toDigits 16 (i % 16)).map Char.toUpper

/-- `NAME_SUFFIXES`. -/
def nameSuffixes : List Text := (List.range 256).map nameSuffix

/-- `MAX_LABEL`. -/
def maxLabel : Nat := 63

/-- The names a lease tries in turn. -/
def nameOptions (candidate : Text) : List Text :=
  candidate :: nameSuffixes.map fun suffix => candidate.take (maxLabel - 3) ++ suffix

/-- `[0-9a-f]`. -/
def isLowerHex (c : Char) : Bool := Text.isHexDigit c && c.toLower = c

/-- `held` is `wanted` with a suffix. -/
def isSuffixed (wanted held : Text) : Bool :=
  wanted.isPrefixOf held &&
    match held.drop wanted.length with
    | ['-', high, low] => isLowerHex high && isLowerHex low
    | _ => false

/-- `normalizeDuid` and `macFromDuid`. -/
def macFromDuid (value : Text) : Option Text :=
  let bytes := (toLowerCase (trim value)).splitOn ':'
  let number := fun (i : Nat) => Text.readDigits 16 (bytes.getD i [] ++ bytes.getD (i + 1) [])
  if bytes.length < 2 || 130 < bytes.length ||
      !bytes.all (fun byte => byte.length = 2 && byte.all isLowerHex) then none
  else
    let offset := if number 0 = 1 then some 8 else if number 0 = 3 then some 4 else none
    match offset with
    | none => none
    | some offset =>
      if number 2 ≠ 1 || bytes.length ≠ offset + 6 then none
      else some (List.intercalate [':'] (bytes.drop offset))

/-- `vendorMac`. -/
def vendorMac (lease : BackendLease) : Option Text :=
  (truthy lease.mac).or ((truthy lease.duid).bind macFromDuid)

/-- A name settled in a batch. -/
structure Claim where
  zoneId : Nat
  name : Text
  type : RecordType
  ip : Addr
  deriving DecidableEq, Repr

/-- The records that `recordsIn` reads: `A`, `AAAA` and `CNAME`. -/
def recordsIn (s : Store) (zoneId : Nat) : List Record :=
  s.records.filter fun record => record.zoneId = zoneId &&
    (record.type.isAddress || record.type = .cname)

/-- The MAC last seen at the address of a record, in lower case. -/
def holderMac (n : Naming) (record : Record) : Option Text :=
  (n.ips.table.rows.find? fun row =>
    row.key.addr.text = record.value && row.info.macAddress.isSome).bind fun row =>
      row.info.macAddress.map toLowerCase

/-- `ownLapsedName`: the record of a lapsed lease of the same client. -/
def ownLapsedName (n : Naming) (leasedIps : List Addr) (mac : Option Text) (record : Record) :
    Bool :=
  record.source = .dhcp && (leasedIps.map Addr.text).all (· ≠ record.value) &&
    (truthy mac).any fun mac => holderMac n record = some (toLowerCase mac)

/-- `clash`, for a record. -/
def clashes (n : Naming) (leasedIps : List Addr) (ip : Addr) (mac : Option Text) (record : Record) :
    Bool :=
  record.type = .cname ||
    (record.type = recordTypeFor ip && record.value ≠ ip.text &&
    !ownLapsedName n leasedIps mac record)

/-- `isFree`. -/
def isFree (n : Naming) (s : Store) (leasedIps : List Addr) (claimed : List Claim) (zone : ZoneRef)
    (name : Text) (ip : Addr) (mac : Option Text) : Bool :=
  !((recordsIn s zone.id).any fun record =>
      toLowerCase record.name = name && clashes n leasedIps ip mac record) &&
    !(claimed.any fun claim => claim.zoneId = zone.id && claim.name = name &&
      claim.type = recordTypeFor ip && claim.ip ≠ ip)

/-- The name of the lease record an address holds. -/
def heldName (s : Store) (zone : ZoneRef) (ip : Addr) : Option Text :=
  ((recordsIn s zone.id).find? fun record =>
    record.source = .dhcp && record.value = ip.text && record.type = recordTypeFor ip).map
    fun record => toLowerCase record.name

/-- The name a lease was stored with: of two rows the later one. -/
def previousName (n : Naming) (ip : Addr) : Option Text :=
  (n.env.leases.findRev? fun lease => lease.addr = ip && lease.hostname.isSome).bind (·.hostname)

/-- `wanted`. -/
def wantedName (zone : ZoneRef) (lease : BackendLease) : Option Text :=
  (truthy lease.hostname).map fun hostname => normalizeRecordNameForZone hostname zone.name

/-- `keepsHeld`. -/
def keepsHeld (zone : ZoneRef) (lease : BackendLease) (held : Text) : Bool :=
  held ≠ [] &&
    match wantedName zone lease with
    | none => true
    | some wanted => wanted = [] || held = wanted || isSuffixed wanted held

/-- The spelling a held name is kept in. -/
def keptSpelling (n : Naming) (zone : ZoneRef) (lease : BackendLease) (held : Text) : Text :=
  match truthy (previousName n lease.ip) with
  | some previous =>
    if normalizeRecordNameForZone previous zone.name = held then previous
    else if wantedName zone lease = some held then lease.hostname.getD [] else held
  | none => if wantedName zone lease = some held then lease.hostname.getD [] else held

/-- A lease that has still to claim a name. `index` is its place in the list. -/
structure PendingLease where
  index : Nat
  lease : BackendLease
  zone : ZoneRef
  candidate : Option Text
  deriving DecidableEq, Repr

/-- Where naming is. -/
structure State where
  claimed : List Claim := []
  names : List (Nat × Option Text) := []
  pending : List PendingLease := []

/-- `claim`. -/
def State.claim (state : State) (zone : ZoneRef) (index : Nat) (lease : BackendLease)
    (hostname : Option Text) : State :=
  { state with
    names := Assoc.put state.names index hostname
    claimed :=
      match truthy hostname with
      | none => state.claimed
      | some hostname => state.claimed ++
          [⟨zone.id, normalizeRecordNameForZone hostname zone.name, recordTypeFor lease.ip,
          lease.ip⟩] }

/-- The first loop: leases outside of a zone, and those that keep what they hold. -/
def settleHeld (n : Naming) (s : Store) (state : State) (item : BackendLease × Nat) : State :=
  let (lease, index) := item
  match n.zoneFor (zoneRefs s) lease.subnetId lease.ip with
  | none =>
    match truthy lease.hostname, vendorMac lease with
    | none, some mac =>
        { state with names := Assoc.put state.names index (truthy (n.fallbackName mac)) }
    | _, _ => state
  | some zone =>
    match heldName s zone lease.ip with
    | some held =>
      if keepsHeld zone lease held then
        state.claim zone index lease (some (keptSpelling n zone lease held))
      else { state with pending := state.pending ++ [⟨index, lease, zone, candidateOf n lease⟩] }
    | none => { state with pending := state.pending ++ [⟨index, lease, zone, candidateOf n lease⟩] }
where
  /-- The name a lease asks for: its own, or its vendor's. -/
  candidateOf (n : Naming) (lease : BackendLease) : Option Text :=
    (truthy lease.hostname).or (truthy ((vendorMac lease).bind n.fallbackName))

/-- The second loop: a lease claims the first of its names that is free. -/
def settlePending (n : Naming) (s : Store) (leasedIps : List Addr) (state : State)
    (pending : PendingLease) :
    State :=
  match pending.candidate with
  | none => { state with names := Assoc.put state.names pending.index none }
  | some candidate =>
    let free := (nameOptions candidate).find? fun option =>
      isFree n s leasedIps state.claimed pending.zone
        (normalizeRecordNameForZone option pending.zone.name) pending.lease.ip
        (vendorMac pending.lease)
    state.claim pending.zone pending.index pending.lease free

/-- The order of `sortKey`. -/
def sortsBefore (ip other : Addr) : Bool :=
  match ip.family, other.family with
  | .v4, .v6 => true
  | .v6, .v4 => false
  | _, _ => ip.value ≤ other.value

/-- The state after both loops. -/
def settle (n : Naming) (s : Store) (leases : List BackendLease) : State :=
  let first := leases.zipIdx.foldl (settleHeld n s) {}
  (first.pending.mergeSort fun left right => sortsBefore left.lease.ip right.lease.ip).foldl
    (settlePending n s (leases.map (·.ip))) first

/-- `assignLeaseNames`. -/
def assignLeaseNames (n : Naming) (s : Store) (leases : List BackendLease) : List BackendLease :=
  let state := settle n s leases
  leases.zipIdx.map fun (lease, index) =>
    { lease with hostname := (Assoc.get state.names index).getD lease.hostname }

/-! ## Storing -/

/-- The rows as a map by network and address: of two rows with one key the later one, in the
place of the first. -/
def previousLeases (rows : List Lease) : List Lease :=
  (rows.map fun row => (row.subnetId, row.addr)).eraseDups.filterMap fun key =>
    rows.findRev? fun row => (row.subnetId, row.addr) = key

/-- A lease that the backend no longer holds is kept, expired, for the offline window. -/
def isKeptExpired (env : Env) (now : Nat) (leases : List BackendLease) (old : Lease) : Bool :=
  (leases.all fun lease => (lease.subnetId, lease.ip) ≠ (old.subnetId, old.addr)) &&
    (env.reservations.all fun reservation =>
      !reservation.enabled || (some reservation.subnetId, reservation.addr) ≠
        (old.subnetId, old.addr)) &&
    match old.expiresAt with
    | .infinite => true
    | .at time => now - Db.offlineRetirement ≤ time

/-- `replaceLeases`, the rows of `dhcp_leases`. -/
def replaceLeases (env : Env) (now : Nat) (leases : List BackendLease) : Env :=
  let firstId := freshId (env.leases.map Lease.id)
  let stored := leases.zipIdx.map fun (lease, i) =>
    { id := firstId + i
      subnetId := lease.subnetId
      addr := lease.ip
      macAddress := truthy lease.mac
      hostname := lease.hostname
      expiresAt := lease.expiresAt
      duid := truthy lease.duid : Lease }
  let expired := ((previousLeases env.leases).filter (isKeptExpired env now leases)).zipIdx.map
      fun (old, i) =>
    { old with
      id := firstId + leases.length + i
      expiresAt :=
        match old.expiresAt with
        | .infinite => .at now
        | .at time => .at (min time now) }
  { env with leases := stored ++ expired }

end LeaseNames

end Cidrella
