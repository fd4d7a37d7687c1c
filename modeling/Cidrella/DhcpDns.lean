import Cidrella.LeaseNames

/-!
# Publishing lease names

`syncDhcpDnsRecords` of `models/dhcp-lease.js`: the names of leases and reservations become
records of their forward zones, with their `PTR`s, and the records that no lease or
reservation answers any more go. Nothing here raises the serial of a forward zone.
-/

set_option autoImplicit false

namespace Cidrella

open Address DnsNames

namespace LeaseNames

open Dns

/-- A name to publish. -/
structure Entry where
  ip : Addr
  hostname : Option Text
  subnetId : Option Nat
  source : Source
  deriving DecidableEq, Repr

/-- The enabled reservations with a name. -/
def namedReservations (env : Env) : List Reservation :=
  env.reservations.filter fun reservation => reservation.enabled &&
    (truthy reservation.hostname).isSome

/-- `entries`: a reservation takes the place of a lease of its address. -/
def entries (env : Env) (leases : List BackendLease) : List Entry :=
  let reservations := namedReservations env
  (leases.filter fun lease => lease.ip ∉ reservations.map Reservation.addr).map
      (fun lease => ⟨lease.ip, lease.hostname, lease.subnetId, .dhcp⟩) ++
    reservations.map fun reservation =>
      ⟨reservation.addr, reservation.hostname, some reservation.subnetId, .reservation⟩

/-- `allDomains`. -/
def allDomains (n : Naming) : List Text :=
  n.env.scopes.filterMap (fun scope => do
    let subnet ← n.env.subnets.byId scope.subnetId
    if scope.enabled then n.effectiveDomain scope subnet else none) ++
    n.env.subnets.rows.filterMap fun subnet => truthy subnet.info.domainName

/-- A record's zone, name and type. -/
abbrev NameKey := Nat × Text × RecordType

/-- Where `syncDhcpDnsRecords` is. -/
structure SyncState where
  store : Store
  processedZoneIds : List Nat
  activeRecordIds : List Nat := []
  activeIps : List Text := []
  activeNames : List NameKey := []
  configChanged : Bool := false

namespace SyncState

/-- A record is active, and its `PTR` follows it. -/
def publish (state : SyncState) (store : Store) (zone : ZoneRef) (recordName : Text)
    (entry : Entry) (id : Nat) (changed : Bool) : SyncState :=
  let result := store.syncPtrForARecord recordName entry.ip.text zone.name entry.source
  { state with
    store := result.1
    activeRecordIds := state.activeRecordIds ++ [id]
    activeIps := state.activeIps ++ [entry.ip.text]
    configChanged := state.configChanged || changed || result.2 = .updated }

end SyncState

/-- `findRecord`. -/
def findRecord (s : Store) (zoneId : Nat) (name : Text) (type : RecordType) (value : Text) :
    Option Record :=
  s.records.find? fun record =>
    record.zoneId = zoneId && record.name = name && record.type = type && record.value = value

/-- One round of the loop over the entries. -/
def syncEntry (n : Naming) (zones : List ZoneRef) (state : SyncState) (entry : Entry) : SyncState :=
  match truthy entry.hostname, n.zoneFor zones entry.subnetId entry.ip with
  | some hostname, some zone =>
    let recordName := normalizeRecordNameForZone hostname zone.name
    let type := recordTypeFor entry.ip
    let state := { state with
      processedZoneIds := state.processedZoneIds ++ [zone.id]
      activeNames := state.activeNames ++ [(zone.id, recordName, type)] }
    match findRecord state.store zone.id recordName type entry.ip.text with
    | some existing =>
      if existing.source = .dhcp || existing.source = .reservation then
        if existing.source = entry.source then
          state.publish state.store zone recordName entry existing.id false
        else
          state.publish (state.store.update existing.id fun record =>
            { record with source := entry.source }) zone recordName entry existing.id true
      else state
    | none =>
      state.publish (state.store.insert ⟨0, zone.id, recordName, type, entry.ip.text,
        entry.source, true⟩) zone recordName entry state.store.nextId true
  | _, _ => state

/-- The records that the second loop looks at. -/
def generatedRecords (state : SyncState) : List (Record × Zone) :=
  state.store.records.filterMap fun record =>
    if (record.source = .dhcp || record.source = .reservation) &&
        record.zoneId ∈ state.processedZoneIds then
      (state.store.zoneOf record).map fun zone => (record, zone)
    else none

instance instLawfulBEqKey : LawfulBEq (Nat × Text × RecordType) := inferInstance

/-- A lease record that nothing replaces outlives its lease. -/
def isRetained (state : SyncState) (record : Record) : Bool :=
  record.source = .dhcp && record.value ∉ state.activeIps &&
    (record.zoneId, record.name, record.type) ∉ state.activeNames

/-- The records that go. -/
def staleRecords (state : SyncState) : List (Record × Zone) :=
  (generatedRecords state).filter fun (record, _) =>
    record.id ∉ state.activeRecordIds && !isRetained state record

/-- A stale record goes, and the `PTR` that names it unless its address is active. -/
def removeStale (context : Context) (activeIps : List Text) (s : Store) (stale : Record × Zone) :
    Store :=
  let s :=
    if stale.1.value ∉ activeIps then
      s.clearPtrForARecord context stale.1.name stale.1.value stale.2.name
    else s
  s.deleteId stale.1.id

/-- The state after the loop over the entries. -/
def syncEntries (n : Naming) (s : Store) (leases : List BackendLease) : SyncState :=
  let zones := zoneRefs s
  let processed := (allDomains n).filterMap fun domain =>
      (Naming.zoneByName zones domain).map ZoneRef.id
  (entries n.env leases).foldl (syncEntry n zones) { store := s, processedZoneIds := processed }

/-- `syncDhcpDnsRecords`: the store, and whether DNS is to be regenerated. -/
def syncDhcpDnsRecords (n : Naming) (s : Store) (leases : List BackendLease) : Store × Bool :=
  let state := syncEntries n s leases
  let stale := staleRecords state
  (stale.foldl (removeStale n.toContext state.activeIps) state.store,
    state.configChanged || stale ≠ [])

end LeaseNames

end Cidrella
