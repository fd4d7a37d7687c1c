import Cidrella.Lib.Assoc
import Cidrella.DhcpTopology
import Cidrella.IpSync

/-!
# DNS zones and records

The tables `dns_zones` and `dns_records` with every kind of record, and the writers of
`models/dns-record.js`. A record's value is a text; the row that answers for an address in
reverse is the `PTR` of the most specific reverse zone there is. Whoever writes records of
a zone raises its serial by hand.

The other tables are only read here, through a `Context`.
-/

set_option autoImplicit false

namespace Cidrella

open Address DnsNames

namespace Dns

/-- `dns_zones.type`. -/
inductive ZoneType where
  | forward
  | reverse
  deriving DecidableEq, Repr

/-- A row of `dns_zones`. -/
structure Zone where
  id : Nat
  name : Text
  type : ZoneType
  enabled : Bool
  soaSerial : Nat
  deriving DecidableEq, Repr

/-- `dns_records.type`. -/
inductive RecordType where
  | a
  | aaaa
  | cname
  | ptr
  | other (name : Text)
  deriving DecidableEq, Repr

/-- `isAddressRecordType`. -/
def RecordType.isAddress : RecordType → Bool
  | .a | .aaaa => true
  | _ => false

/-- `dns_records.source`. -/
inductive Source where
  | manual
  | dns
  | dhcp
  | reservation
  | placeholder
  | other (name : Text)
  deriving DecidableEq, Repr

/-- The sources of rows that the application writes on its own. -/
def Source.isGenerated : Source → Bool
  | .dns | .dhcp | .reservation | .placeholder => true
  | _ => false

/-- A row of `dns_records`. -/
structure Record where
  id : Nat
  zoneId : Nat
  name : Text
  type : RecordType
  value : Text
  source : Source
  enabled : Bool
  deriving DecidableEq, Repr

/-- Both tables. No two records have one id. -/
structure Store where
  zones : List Zone
  records : List Record
  ids : (records.map Record.id).Nodup

/-- What else a writer reads. -/
structure Context where
  env : Env
  ips : IpStore
  now : Nat

namespace Store

/-! ## Writing rows -/

/-- The id of the next record. -/
def nextId (s : Store) : Nat := freshId (s.records.map Record.id)

/-- A new record. The id it comes with does not matter. -/
def insert (s : Store) (record : Record) : Store where
  zones := s.zones
  records := s.records ++ [{ record with id := s.nextId }]
  ids := by
    rw [List.map_append]
    refine s.ids.append (List.nodup_singleton _) ?_
    intro id old new
    obtain rfl : id = s.nextId := List.mem_singleton.mp new
    exact freshId_not_mem _ old

/-- A record with new fields. -/
def update (s : Store) (id : Nat) (change : Record → Record) : Store where
  zones := s.zones
  records := s.records.map fun record =>
    if record.id = id then { change record with id := record.id } else record
  ids := by
    rw [List.map_map]
    refine (congrArg List.Nodup (List.map_congr_left fun record _ => ?_)).mpr s.ids
    dsimp only [Function.comp_apply]
    split <;> rfl

/-- The records of a test go. -/
def delete (s : Store) (test : Record → Bool) : Store where
  zones := s.zones
  records := s.records.filter fun record => !test record
  ids := s.ids.sublist (List.filter_sublist.map _)

/-- `DELETE FROM dns_records WHERE id = ?`. -/
def deleteId (s : Store) (id : Nat) : Store := s.delete (·.id = id)

/-- A zone with new fields. -/
def updateZone (s : Store) (zoneId : Nat) (change : Zone → Zone) : Store :=
  { s with zones := s.zones.map fun zone => if zone.id = zoneId then change zone else zone }

/-- `bumpZoneSerial`. -/
def bumpZoneSerial (s : Store) (zoneId : Nat) : Store :=
  s.updateZone zoneId fun zone => { zone with soaSerial := zone.soaSerial + 1 }

end Store

/-! ## Where an address answers in reverse -/

/-- `.in-addr.arpa`. -/
def inAddrArpa : Text := ".in-addr.arpa".toList

/-- `.ip6.arpa`. -/
def ip6Arpa : Text := ".ip6.arpa".toList

/-- Texts joined by dots. -/
def dotted (labels : List Text) : Text := List.intercalate ['.'] labels

/-- The 32 nibbles of an IPv6 value, as digits. -/
def nibblesOf (value : Nat) : List Text := (Text.groups 4 32 value).map (Nat.toDigits 16)

/-- A reverse zone that may hold the `PTR` of an address, with the record's name there. -/
structure PtrCandidate where
  name : Text
  ptrName : Text
  deriving DecidableEq, Repr

/-- `reversePtrCandidates`: the most specific zone first. -/
def reversePtrCandidates (ip : Text) : List PtrCandidate :=
  match parseIp ip { zoneId := false } with
  | none => []
  | some parsed =>
    if parsed.bits = ipv4Bits then
      let octets := (Text.groups 8 4 parsed.value).map (Nat.toDigits 10)
      [3, 2, 1].map fun count =>
        ⟨dotted (octets.take count).reverse ++ inAddrArpa, dotted (octets.drop count).reverse⟩
    else
      let nibbles := nibblesOf parsed.value
      (List.range 31).map fun i =>
        ⟨dotted (nibbles.take (31 - i)).reverse ++ ip6Arpa, dotted (nibbles.drop (31 - i)).reverse⟩

/-- `isValidAddress`. -/
def isValidAddress (text : Text) : Bool := (parseIp text { zoneId := false }).isSome

/-- `parseIp(ip)?.bits === IPV6_BITS`. -/
def isV6 (ip : Text) : Bool := (parseIp ip).any (·.bits = ipv6Bits)

/-- A reverse zone and a record's name in it. -/
structure PtrLocation where
  zone : Zone
  ptrName : Text
  deriving DecidableEq, Repr

/-- What became of a `PTR`. -/
inductive PtrResult where
  | unchanged
  | updated
  | conflict (existing proposed reverseZone : Text)
  deriving DecidableEq, Repr

namespace Store

/-- `findReversePtrLocation`. -/
def findReversePtrLocation (s : Store) (ip : Text) (enabledOnly : Bool) : Option PtrLocation :=
  (reversePtrCandidates ip).findSome? fun candidate =>
    (s.zones.find? fun zone =>
      zone.type = .reverse && zone.name = candidate.name && (!enabledOnly || zone.enabled)).map
      fun zone => ⟨zone, candidate.ptrName⟩

/-- The `PTR` row of a zone with a name. -/
def ptrRow (s : Store) (location : PtrLocation) : Option Record :=
  s.records.find? fun record =>
    record.zoneId = location.zone.id && record.type = .ptr && record.name = location.ptrName

/-- A `PTR` row is written, and its zone's serial raised. -/
def writePtr (s : Store) (location : PtrLocation) (existing : Option Record) (value : Text)
    (source : Source) :
    Store :=
  match existing with
  | some row =>
    (s.update row.id fun record => { record with value, source, enabled := true }).bumpZoneSerial
      location.zone.id
  | none =>
    (s.insert ⟨0, location.zone.id, location.ptrName, .ptr, value, source, true⟩).bumpZoneSerial
      location.zone.id

/-- `syncPtrForARecord` keeps a `PTR` that names something outside of the forward zone. -/
def ptrConflicts (existing : Record) (ip fqdn forwardZoneName : Text) : Bool :=
  existing.value ≠ [] && existing.value ≠ ip && !isValidAddress existing.value &&
    toLowerCase existing.value ≠ toLowerCase fqdn &&
    !endsWith (toLowerCase existing.value) ('.' :: toLowerCase forwardZoneName) &&
    toLowerCase existing.value ≠ toLowerCase forwardZoneName

/-- `syncPtrForARecord`. -/
def syncPtrForARecord (s : Store) (recordName ip forwardZoneName : Text) (source : Source := .dns)
    (force : Bool := false) : Store × PtrResult :=
  match s.findReversePtrLocation ip true with
  | none => (s, .unchanged)
  | some location =>
    let fqdn := fqdnForRecordName recordName forwardZoneName
    match s.ptrRow location with
    | some existing =>
      if !force && ptrConflicts existing ip fqdn forwardZoneName then
        (s, .conflict existing.value fqdn location.zone.name)
      else if existing.value = fqdn && existing.source = source && existing.enabled
        then (s, .unchanged)
      else (s.writePtr location (some existing) fqdn source, .updated)
    | none => (s.writePtr location none fqdn source, .updated)

/-- `isAllocatedAddress`. -/
def isAllocatedAddress (context : Context) (ip : Text) : Bool :=
  context.ips.table.rows.any fun row =>
    row.key.addr.text = ip && row.info.allocationState ≠ .unassigned

/-- A `PTR` row goes, and its zone's serial is raised. -/
def removePtr (s : Store) (location : PtrLocation) (row : Record) : Store :=
  (s.deleteId row.id).bumpZoneSerial location.zone.id

/-- `setPtrForIp`. -/
def setPtrForIp (s : Store) (context : Context) (ip : Text) (hostname : Option Text)
    (enabledOnly : Bool) (source : Source) : Store :=
  match s.findReversePtrLocation ip enabledOnly with
  | none => s
  | some location =>
    let fqdn := trim ((truthy hostname).getD ip)
    let existing := s.ptrRow location
    let placeholder := truthy hostname = none || isValidAddress fqdn
    if placeholder && isV6 ip && !isAllocatedAddress context ip then
      match existing with
      | none => s
      | some row => s.removePtr location row
    else
      match existing with
      | some row =>
        if row.value = fqdn && row.source = source && row.enabled then s
        else s.writePtr location (some row) fqdn source
      | none => if fqdn = [] then s else s.writePtr location none fqdn source

/-- `dropUnallocatedIpv6Ptr`. -/
def dropUnallocatedIpv6Ptr (s : Store) (context : Context) (ip : Text) : Store :=
  if !(parseIp ip { zoneId := false }).any (·.bits = ipv6Bits) || isAllocatedAddress context ip
    then s
  else
    match s.findReversePtrLocation ip false with
    | none => s
    | some location =>
      match s.ptrRow location with
      | none => s
      | some row => if isValidAddress row.value then s.removePtr location row else s

/-- `clearPtrForIp`. -/
def clearPtrForIp (s : Store) (context : Context) (ip : Text) : Store :=
  s.setPtrForIp context ip (some ip) true .placeholder

/-- `clearPtrForARecord`. -/
def clearPtrForARecord (s : Store) (context : Context) (recordName ip forwardZoneName : Text) :
    Store :=
  match s.findReversePtrLocation ip true with
  | none => s
  | some location =>
    let fqdn := toLowerCase (fqdnForRecordName recordName forwardZoneName)
    match s.ptrRow location with
    | none => s
    | some existing => if toLowerCase existing.value ≠ fqdn then s else s.clearPtrForIp context ip

/-! ## Records -/

/-- What a record is created with or changed to. -/
structure RecordFields where
  name : Text
  type : RecordType
  value : Text
  enabled : Option Bool := none
  deriving DecidableEq, Repr

/-- `createRecord`: a `PTR` that names something else refuses the record. -/
def createRecord (s : Store) (zone : Zone) (fields : RecordFields) (forcePtr : Bool) :
    Except PtrResult Store :=
  let enabled := fields.enabled.getD true
  let inserted :=
    (s.insert ⟨0, zone.id, normalizeRecordNameForZone fields.name zone.name, fields.type,
      fields.value, .manual, enabled⟩).bumpZoneSerial zone.id
  if enabled && fields.type.isAddress && zone.type = .forward then
    match inserted.syncPtrForARecord fields.name fields.value zone.name .dns forcePtr with
    | (_, .conflict existing proposed reverseZone) => .error
        (.conflict existing proposed reverseZone)
    | (after, _) => .ok after
  else .ok inserted

/-- `updateRecord`. -/
def updateRecord (s : Store) (context : Context) (zone : Zone) (record : Record)
    (fields : RecordFields) : Store :=
  let oldEnabledA := record.enabled && record.type.isAddress && zone.type = .forward
  let newEnabled := fields.enabled.getD record.enabled
  let newEnabledA := newEnabled && fields.type.isAddress && zone.type = .forward
  let s := (s.update record.id fun row =>
    { row with
      name := normalizeRecordNameForZone fields.name zone.name
      type := fields.type
      value := fields.value
      enabled := newEnabled }).bumpZoneSerial zone.id
  let s :=
    if oldEnabledA && (!newEnabledA || record.value ≠ fields.value) then
      s.clearPtrForARecord context record.name record.value zone.name
    else s
  if newEnabledA then (s.syncPtrForARecord fields.name fields.value zone.name).1 else s

/-- `deleteRecord`. -/
def deleteRecord (s : Store) (context : Context) (zone : Zone) (record : Record) : Store :=
  let s := (s.deleteId record.id).bumpZoneSerial zone.id
  if record.enabled && record.type.isAddress && zone.type = .forward then
    s.clearPtrForARecord context record.name record.value zone.name
  else s

/-- The zone of a record. -/
def zoneOf (s : Store) (record : Record) : Option Zone := s.zones.find? (·.id = record.zoneId)

/-- The zones a subnet's leases are named in: of its enabled scopes, else its own. -/
def leaseZoneNames (env : Env) (subnetId : Nat) : List Text :=
  match env.subnets.byId subnetId with
  | none => []
  | some subnet =>
    let scopes := env.scopes.filter fun scope => scope.subnetId = subnetId && scope.enabled
    if scopes = [] then (truthy subnet.info.domainName).toList
    else scopes.filterMap fun scope => (truthy scope.domainName).or (truthy subnet.info.domainName)

/-- The lease records of an address, in the zones of its subnet when it comes with one. -/
def dynamicDhcpRecords (s : Store) (env : Env) (ip : Text) (subnetId : Option Nat) : List Record :=
  let isIt := fun (record : Record) => record.type.isAddress && record.source = .dhcp &&
      record.value = ip
  match subnetId with
  | none => s.records.filter fun record => isIt record && (s.zoneOf record).isSome
  | some id =>
    s.records.filter fun record =>
      isIt record && (s.zoneOf record).any fun zone => zone.name ∈ leaseZoneNames env id

/-- One record of `deleteDynamicDhcpRecordsByIps`, with the `PTR` that names it. -/
def deleteDynamicDhcpRecord (s : Store) (context : Context) (record : Record) : Store :=
  match s.zoneOf record with
  | none => s
  | some zone =>
    let fqdn := toLowerCase (fqdnForRecordName record.name zone.name)
    let reverse := s.findReversePtrLocation record.value true
    let ptr := reverse.bind fun location =>
      (s.records.find? fun row =>
        row.zoneId = location.zone.id && row.type = .ptr && row.name = location.ptrName &&
          toLowerCase row.value = fqdn).map fun row => (location, row)
    let s := s.deleteRecord context zone record
    match ptr with
    | none => s
    | some (location, row) => s.removePtr location row

/-- `deleteDynamicDhcpRecordsByIps`. -/
def deleteDynamicDhcpRecordsByIps (s : Store) (context : Context)
    (addresses : List (Text × Option Nat)) :
    Store :=
  let matched :=
      (addresses.flatMap fun (ip, subnetId) => s.dynamicDhcpRecords context.env ip
        subnetId).eraseDups
  matched.foldl (fun s record => s.deleteDynamicDhcpRecord context record) s

/-! ## Importing -/

/-- What became of an imported record. -/
inductive Imported where
  | created
  | updated
  | skipped
  deriving DecidableEq, Repr

/-- Where `importRecords` is: the store, the records of the zone as it knows them, and what
it has to report. -/
structure ImportState where
  store : Store
  existingExact : List (RecordType × Text × Text)
  existingByNameType : List ((RecordType × Text) × (Nat × Text))
  results : List (RecordType × Imported) := []
  addressRecordsToSync : List (Nat × Text × Text × Option Text) := []
  changed : Bool := false

/-- One record of `importRecords`. -/
def importRecord (zone : Zone) (state : ImportState) (fields : RecordFields) : ImportState :=
  if !fields.type.isAddress && fields.type ≠ .cname then state
  else
    let name := normalizeRecordNameForZone fields.name zone.name
    let exact := (fields.type, name, fields.value)
    if exact ∈ state.existingExact then { state with results := state.results ++
      [(fields.type, .skipped)] }
    else
      let existing := Assoc.get state.existingByNameType (fields.type, name)
      let id := (existing.map Prod.fst).getD state.store.nextId
      let store :=
        match existing with
        | some (id, _) => state.store.update id fun record => { record with value := fields.value }
        | none => state.store.insert ⟨0, zone.id, name, fields.type, fields.value, .manual, true⟩
      let kept :=
        match existing with
        | some (_, old) => state.existingExact.filter (· ≠ (fields.type, name, old))
        | none => state.existingExact
      { store
        existingExact := kept ++ [exact]
        existingByNameType := Assoc.put state.existingByNameType (fields.type, name) (id,
        fields.value)
        results := state.results ++ [(fields.type, if existing.isSome then .updated else .created)]
        addressRecordsToSync := state.addressRecordsToSync ++
          (if fields.type.isAddress then [(id, name, fields.value, existing.map Prod.snd)] else [])
        changed := true }

/-- What `importRecords` knows of a zone before it starts. Of two records with one name and
type the later one counts. -/
def importStart (s : Store) (zone : Zone) : ImportState :=
  let rows := s.records.filter (·.zoneId = zone.id)
  { store := s
    existingExact := rows.map fun row => (row.type, row.name, row.value)
    existingByNameType := rows.foldl
      (fun items row => Assoc.put items (row.type, row.name) (row.id, row.value)) [] }

/-- `importRecords`. -/
def importRecords (s : Store) (zone : Zone) (records : List RecordFields) : ImportState :=
  let done := records.foldl (importRecord zone) (s.importStart zone)
  if done.changed then { done with store := done.store.bumpZoneSerial zone.id } else done

end Store

end Dns

end Cidrella
