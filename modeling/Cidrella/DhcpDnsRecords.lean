import Cidrella.DhcpDns
import Cidrella.DnsWrites

/-!
# What publishing does to forward zones

`syncDhcpDnsRecords` reads and writes rows of forward zones, and `PTR` rows through their
own writers. Here are the rows of all zones but the reverse ones: no writer of a `PTR`
touches them (`forwardRows_ptrWrite`), an entry adds its row or takes over the one that is
there (`syncEntry_of_named`), and the stale ones go (`forwardRows_syncDhcpDnsRecords`).
-/

set_option autoImplicit false

namespace Cidrella

open Address DnsNames

namespace LeaseNames

open Dns Dns.Store

/-! ## Rows outside of reverse zones -/

/-- A reverse zone has the id. -/
def isReverseId (zones : List ZoneRef) (id : Nat) : Bool := zones.any fun zone => zone.id = id &&
    zone.type = .reverse

/-- The rows outside of reverse zones. -/
def forwardRows (s : Store) : List Record := s.records.filter fun record => !isReverseId
    (zoneRefs s) record.zoneId

section Frame

variable {s t : Store} {ip : Text} {enabledOnly : Bool} {location : PtrLocation}
    {record row : Record}

theorem mem_forwardRows : record ∈ forwardRows s ↔
    record ∈ s.records ∧ isReverseId (zoneRefs s) record.zoneId = false := by
  simp [forwardRows]

theorem zoneRefs_bumpZoneSerial (id : Nat) : zoneRefs (s.bumpZoneSerial id) = zoneRefs s := by
  rw [zoneRefs, bumpZoneSerial, updateZone, List.map_map]
  refine List.map_congr_left fun zone _ => ?_
  dsimp only [Function.comp_apply]
  split <;> rfl

theorem zoneRefs_eq (zones : t.zones = s.zones) :
    zoneRefs t = zoneRefs s := by rw [zoneRefs, zoneRefs, zones]

theorem isReverseId_of_location (found : s.findReversePtrLocation ip enabledOnly = some location) :
    isReverseId (zoneRefs s) location.zone.id = true := by
  obtain ⟨member, type⟩ := findReversePtrLocation_eq_some found
  refine List.any_eq_true.mpr ⟨zoneRef location.zone, List.mem_map_of_mem member, ?_⟩
  simp [zoneRef, type]

theorem forwardRows_insert (record : Record) : forwardRows (s.insert record) =
    if isReverseId (zoneRefs s) record.zoneId then forwardRows s
    else forwardRows s ++ [{ record with id := s.nextId }] := by
  rw [forwardRows, zoneRefs_eq (zones_insert record)]
  change (s.records ++ [_]).filter _ = _
  rw [List.filter_append]
  cases reverse : isReverseId (zoneRefs s) record.zoneId <;> simp [forwardRows, reverse]

theorem forwardRows_bumpZoneSerial (id : Nat) : forwardRows (s.bumpZoneSerial id) =
    forwardRows s := by
  rw [forwardRows, zoneRefs_bumpZoneSerial]
  rfl

theorem forwardRows_update {id : Nat} {change : Record → Record} (zones : ∀ row,
    (change row).zoneId = row.zoneId) :
    forwardRows (s.update id change) = (forwardRows s).map fun row =>
      if row.id = id then { change row with id := row.id } else row := by
  rw [forwardRows, zoneRefs_eq zones_update]
  change (s.records.map _).filter _ = _
  rw [List.filter_map]
  refine congrArg _ (List.filter_congr fun row _ => ?_)
  dsimp only [Function.comp_apply]
  split
  · rw [zones row]
  · rfl

theorem forwardRows_deleteId (id : Nat) : forwardRows (s.deleteId id) = (forwardRows s).filter
    (·.id ≠ id) := by
  rw [forwardRows, zoneRefs_eq zones_deleteId]
  change (s.records.filter _).filter _ = _
  rw [forwardRows, List.filter_filter, List.filter_filter]
  refine List.filter_congr fun row _ => ?_
  simp [Bool.and_comm]

theorem id_ne_of_mem_forwardRows (isRow : row ∈ s.records)
    (reverse : isReverseId (zoneRefs s) row.zoneId = true) (member : record ∈ forwardRows s) :
    record.id ≠ row.id := by
  intro same
  obtain ⟨isRecord, outside⟩ := mem_forwardRows.mp member
  rw [eq_of_id_eq isRecord isRow same, reverse] at outside
  exact absurd outside (by simp)

/-- No writer of a `PTR` touches a row outside of reverse zones. -/
theorem forwardRows_ptrWrite (write : PtrWrite s ip enabledOnly t) :
    zoneRefs t = zoneRefs s ∧ forwardRows t = forwardRows s := by
  cases write with
  | same => exact ⟨rfl, rfl⟩
  | write location value source found =>
    have reverse := isReverseId_of_location found
    cases isRow : s.ptrRow location with
    | none =>
      refine ⟨zoneRefs_bumpZoneSerial _, (forwardRows_bumpZoneSerial _).trans ?_⟩
      rw [forwardRows_insert, if_pos reverse]
    | some row =>
      obtain ⟨member, inZone, -, -⟩ := ptrRow_eq_some isRow
      refine ⟨zoneRefs_bumpZoneSerial _, (forwardRows_bumpZoneSerial _).trans ?_⟩
      have updated := @forwardRows_update s row.id
        (fun record => { record with value, source, enabled := true }) fun _ => rfl
      refine updated.trans ?_
      refine (List.map_congr_left fun other isOther => ?_).trans (List.map_id _)
      exact if_neg (id_ne_of_mem_forwardRows member (inZone ▸ reverse) isOther)
  | remove location row found isRow =>
    have reverse := isReverseId_of_location found
    obtain ⟨member, inZone, -, -⟩ := ptrRow_eq_some isRow
    refine ⟨zoneRefs_bumpZoneSerial _, (forwardRows_bumpZoneSerial _).trans ?_⟩
    rw [forwardRows_deleteId, List.filter_eq_self]
    intro other isOther
    simpa using id_ne_of_mem_forwardRows member (inZone ▸ reverse) isOther

end Frame

/-! ## One entry -/

/-- A record of a lease or a reservation. -/
def isGenerated (record : Record) : Bool := record.source = .dhcp || record.source = .reservation

/-- The zone and the record name of an entry. -/
def publishedAs (n : Naming) (zones : List ZoneRef) (entry : Entry) : Option (ZoneRef × Text) := do
  let hostname ← truthy entry.hostname
  let zone ← n.zoneFor zones entry.subnetId entry.ip
  some (zone, normalizeRecordNameForZone hostname zone.name)

theorem Naming.zoneByName_eq_some {zones : List ZoneRef} {name : Text} {zone : ZoneRef}
    (found : Naming.zoneByName zones name = some zone) : zone ∈ zones ∧ zone.type = .forward := by
  rw [Naming.zoneByName, List.findRev?_eq_find?_reverse] at found
  have test := List.find?_some found
  simp only [Bool.and_eq_true, decide_eq_true_eq] at test
  exact ⟨List.mem_reverse.mp (List.mem_of_find?_eq_some found), test.1.1⟩

theorem Naming.zoneFor_eq_some {n : Naming} {zones : List ZoneRef} {subnetId : Option Nat}
    {ip : Addr} {zone : ZoneRef} (found : n.zoneFor zones subnetId ip = some zone) : zone ∈ zones ∧
    zone.type = .forward := by
  obtain ⟨id, -, found⟩ := Option.bind_eq_some_iff.mp found
  obtain ⟨domain, -, found⟩ := Option.bind_eq_some_iff.mp found
  exact Naming.zoneByName_eq_some found

section OneEntry

variable {n : Naming} {zones : List ZoneRef} {state : SyncState} {entry : Entry} {zone : ZoneRef}
    {name : Text}

theorem publishedAs_eq_some (published : publishedAs n zones entry = some (zone, name)) :
    ∃ hostname, truthy entry.hostname = some hostname ∧
      n.zoneFor zones entry.subnetId entry.ip = some zone ∧
      name = normalizeRecordNameForZone hostname zone.name := by
  obtain ⟨hostname, named, published⟩ := Option.bind_eq_some_iff.mp published
  obtain ⟨zone', inZone, published⟩ := Option.bind_eq_some_iff.mp published
  obtain ⟨rfl, rfl⟩ := Prod.mk.inj (Option.some.inj published)
  exact ⟨hostname, named, inZone, rfl⟩

theorem syncEntry_of_unpublished (unpublished : publishedAs n zones entry = none) :
    syncEntry n zones state entry = state := by
  unfold syncEntry
  cases named : truthy entry.hostname with
  | none => rfl
  | some hostname =>
    cases inZone : n.zoneFor zones entry.subnetId entry.ip with
    | none => rfl
    | some zone =>
      rw [publishedAs, named, inZone] at unpublished
      exact absurd unpublished (by simp)

/-- A row is taken over by an entry. -/
def takeOver (s : Store) (id : Nat) (source : Source) : Store := s.update id fun record =>
    { record with source }

theorem takeOver_of_same {s : Store} {existing : Record} (member : existing ∈ s.records) :
    takeOver s existing.id existing.source = s := by
  have records : (takeOver s existing.id existing.source).records = s.records := by
    refine (List.map_congr_left fun row isRow => ?_).trans (List.map_id _)
    split
    · rename_i same
      rw [eq_of_id_eq isRow member same]
      rfl
    · rfl
  obtain ⟨zones, rows, ids⟩ := s
  unfold takeOver update at records ⊢
  simp only at records
  simp only [records]

/-- What an entry with a name does: its zone and name are noted; a row that is there is taken
over if it is a lease's or a reservation's, otherwise it is left, and where there is none it
is added. -/
theorem syncEntry_of_published (published : publishedAs n zones entry = some (zone, name)) :
    let after := syncEntry n zones state entry
    after.processedZoneIds = state.processedZoneIds ++ [zone.id] ∧
    after.activeNames = state.activeNames ++ [(zone.id, name, recordTypeFor entry.ip)] ∧
    ((∃ existing, findRecord state.store zone.id name (recordTypeFor entry.ip) entry.ip.text =
        some existing ∧ isGenerated existing = false ∧ after.store = state.store ∧
        after.activeRecordIds = state.activeRecordIds ∧ after.activeIps = state.activeIps) ∨
      (∃ existing, findRecord state.store zone.id name (recordTypeFor entry.ip) entry.ip.text =
        some existing ∧ isGenerated existing = true ∧
        PtrWrite (takeOver state.store existing.id entry.source) entry.ip.text true after.store ∧
        after.activeRecordIds = state.activeRecordIds ++ [existing.id] ∧
        after.activeIps = state.activeIps ++ [entry.ip.text]) ∨
      (findRecord state.store zone.id name (recordTypeFor entry.ip) entry.ip.text = none ∧
        PtrWrite (state.store.insert ⟨0, zone.id, name, recordTypeFor entry.ip, entry.ip.text,
          entry.source, true⟩) entry.ip.text true after.store ∧
        after.activeRecordIds = state.activeRecordIds ++ [state.store.nextId] ∧
        after.activeIps = state.activeIps ++ [entry.ip.text])) := by
  obtain ⟨hostname, named, inZone, rfl⟩ := publishedAs_eq_some published
  simp only [syncEntry, named, inZone]
  cases found : findRecord state.store zone.id (normalizeRecordNameForZone hostname zone.name)
      (recordTypeFor entry.ip) entry.ip.text with
  | none => exact ⟨rfl, rfl, .inr (.inr ⟨rfl, ptrWrite_syncPtrForARecord, rfl, rfl⟩)⟩
  | some existing =>
    dsimp only
    split
    · rename_i generated
      split
      · rename_i same
        refine ⟨rfl, rfl, .inr (.inl ⟨existing, rfl, generated, ?_, rfl, rfl⟩)⟩
        rw [← same, takeOver_of_same (List.mem_of_find?_eq_some found)]
        exact ptrWrite_syncPtrForARecord
      · exact ⟨rfl,
          rfl, .inr (.inl ⟨existing, rfl, generated, ptrWrite_syncPtrForARecord, rfl, rfl⟩)⟩
    · rename_i other
      exact ⟨rfl, rfl, .inl ⟨existing, rfl, by simpa [isGenerated] using other, rfl, rfl, rfl⟩⟩

end OneEntry

/-! ## All entries -/

/-- A row later on: what it says is the same, and so is the rest unless it is active. -/
structure Succeeds (active : List Nat) (old new : Record) : Prop where
  id : new.id = old.id
  zoneId : new.zoneId = old.zoneId
  name : new.name = old.name
  type : new.type = old.type
  value : new.value = old.value
  enabled : new.enabled = old.enabled
  generated : isGenerated new = isGenerated old
  inactive : old.id ∉ active → new = old

theorem Succeeds.refl (active : List Nat) (row : Record) : Succeeds active row row :=
  ⟨rfl, rfl, rfl, rfl, rfl, rfl, rfl, fun _ => rfl⟩

theorem Succeeds.trans {active later : List Nat} {old middle new : Record} (sub : active ⊆ later)
    (first : Succeeds active old middle) (second : Succeeds later middle new) :
    Succeeds later old new where
  id := second.id.trans first.id
  zoneId := second.zoneId.trans first.zoneId
  name := second.name.trans first.name
  type := second.type.trans first.type
  value := second.value.trans first.value
  enabled := second.enabled.trans first.enabled
  generated := second.generated.trans first.generated
  inactive := fun idle =>
    (second.inactive (first.id ▸ idle)).trans (first.inactive fun member => idle (sub member))

/-- The row of an entry: it is in the entry's zone with its name, type and address. -/
structure IsRowOf (zone : ZoneRef) (name : Text) (entry : Entry) (row : Record) : Prop where
  zoneId : row.zoneId = zone.id
  name : row.name = name
  type : row.type = recordTypeFor entry.ip
  value : row.value = entry.ip.text

theorem IsRowOf.succeeds {zone : ZoneRef} {name : Text} {entry : Entry} {active : List Nat}
    {old new : Record} (isRow : IsRowOf zone name entry old) (succeeds : Succeeds active old new) :
    IsRowOf zone name entry new :=
  ⟨succeeds.zoneId.trans isRow.zoneId, succeeds.name.trans isRow.name,
    succeeds.type.trans isRow.type, succeeds.value.trans isRow.value⟩

/-- Entries are leases' or reservations'. -/
def Entry.IsGenerated (entry : Entry) : Prop := entry.source = .dhcp ∨ entry.source = .reservation

section Entries

variable {n : Naming} {s : Store} {zones : List ZoneRef} {state : SyncState} {entry : Entry}
    {zone : ZoneRef} {name : Text}
variable {row : Record}

theorem isGenerated_of_entry (source : entry.IsGenerated) (same : row.source = entry.source) :
    LeaseNames.isGenerated row = true := by
  unfold LeaseNames.isGenerated
  rcases source with dhcp | reservation
  · simp [same, dhcp]
  · simp [same, reservation]

theorem findRecord_eq_some {type : RecordType} {value : Text}
    (found : findRecord s zone.id name type value = some row) : row ∈ s.records ∧
      row.zoneId = zone.id ∧ row.name = name ∧ row.type = type ∧ row.value = value := by
  have test := List.find?_some found
  simp only [Bool.and_eq_true, decide_eq_true_eq] at test
  exact ⟨List.mem_of_find?_eq_some found, test.1.1.1, test.1.1.2, test.1.2, test.2⟩

theorem succeeds_takeOver (active : List Nat) {id : Nat} {source : Source} (old : Record)
    (generated : old.id = id → LeaseNames.isGenerated old = true) (isSource : source = .dhcp ∨
    source = .reservation) :
    Succeeds (active ++ [id]) old (if old.id = id then { old with source } else old) := by
  split
  · rename_i here
    refine ⟨rfl, rfl, rfl, rfl, rfl, rfl, ?_, ?_⟩
    · rw [generated here]
      rcases isSource with rfl | rfl <;> rfl
    · intro idle
      exact absurd (by simp [here]) idle
  · exact .refl _ _

theorem forwardRows_of_takeOver {existing : Record} {after : Store} {ip : Text}
    (write : PtrWrite (takeOver state.store existing.id entry.source) ip true after) :
    zoneRefs after = zoneRefs state.store ∧ forwardRows after =
    (forwardRows state.store).map fun row =>
      if row.id = existing.id then { row with source := entry.source } else row := by
  obtain ⟨refs, rows⟩ := forwardRows_ptrWrite write
  refine ⟨refs.trans (zoneRefs_eq zones_update), rows.trans ?_⟩
  exact @forwardRows_update state.store existing.id
    (fun record => { record with source := entry.source }) fun _ => rfl

theorem forwardRows_of_insert {after : Store} {ip : Text}
    (outside : isReverseId (zoneRefs state.store) zone.id = false)
      (write : PtrWrite (state.store.insert ⟨0, zone.id, name, recordTypeFor entry.ip,
      entry.ip.text, entry.source, true⟩) ip true after) :
    zoneRefs after = zoneRefs state.store ∧ forwardRows after = forwardRows state.store ++
      [⟨state.store.nextId, zone.id, name, recordTypeFor entry.ip, entry.ip.text, entry.source,
      true⟩] := by
  obtain ⟨refs, rows⟩ := forwardRows_ptrWrite write
  refine ⟨refs.trans (zoneRefs_eq (zones_insert _)), rows.trans ?_⟩
  rw [forwardRows_insert, if_neg]
  rw [outside]
  simp

/-- What an entry with a name does to rows: every row has a successor, there is a row of the
entry, and what is active is either the entry's or was active before. -/
structure EntryEffect (zone : ZoneRef) (name : Text) (entry : Entry) (state after : SyncState) :
    Prop where
  zones : zoneRefs after.store = zoneRefs state.store
  ids : state.activeRecordIds ⊆ after.activeRecordIds
  ips : state.activeIps ⊆ after.activeIps
  persist : ∀ old ∈ forwardRows state.store, ∃ new ∈ forwardRows after.store,
    Succeeds after.activeRecordIds old new
  present : ∃ row ∈ forwardRows after.store, IsRowOf zone name entry row ∧
    (LeaseNames.isGenerated row = true → row.id ∈ after.activeRecordIds ∧
    entry.ip.text ∈ after.activeIps)
  active : ∀ row ∈ forwardRows after.store, row.id ∈ after.activeRecordIds →
    (IsRowOf zone name entry row ∧ row.source = entry.source) ∨
      (row ∈ forwardRows state.store ∧ row.id ∈ state.activeRecordIds)
  origin : ∀ row ∈ forwardRows after.store, LeaseNames.isGenerated row = false →
    row ∈ forwardRows state.store

theorem entryEffect (published : publishedAs n zones entry = some (zone, name))
    (source : entry.IsGenerated) (outside : isReverseId (zoneRefs state.store) zone.id = false) :
    EntryEffect zone name entry state (syncEntry n zones state entry) := by
  obtain ⟨-, -, effect⟩ := @syncEntry_of_published n zones state entry zone name published
  rcases effect with ⟨existing, found, manual, store, ids, ips⟩ | ⟨existing, found, generated,
    write, ids, ips⟩ | ⟨absent, write, ids, ips⟩
  · obtain ⟨member, inZone, isName, type, value⟩ := findRecord_eq_some found
    have isRow : existing ∈ forwardRows state.store :=
      mem_forwardRows.mpr ⟨member, inZone ▸ outside⟩
    refine ⟨by rw [store], by rw [ids]; simp, by rw [ips]; simp, ?_, ?_, ?_,
      fun row isRow _ => store ▸ isRow⟩
    · intro old isOld
      exact ⟨old, store ▸ isOld, .refl _ _⟩
    · refine ⟨existing, store ▸ isRow, ⟨inZone, isName, type, value⟩, fun generated => ?_⟩
      rw [manual] at generated
      exact absurd generated (by simp)
    · intro row member' active
      exact .inr ⟨store ▸ member', ids ▸ active⟩
  · obtain ⟨member, inZone, isName, type, value⟩ := findRecord_eq_some found
    have isRow : existing ∈ forwardRows state.store :=
      mem_forwardRows.mpr ⟨member, inZone ▸ outside⟩
    obtain ⟨refs, rows⟩ := forwardRows_of_takeOver write
    have only : ∀ old ∈ forwardRows state.store, old.id = existing.id → old = existing :=
      fun old isOld same => eq_of_id_eq (mem_forwardRows.mp isOld).1 member same
    refine ⟨refs, by rw [ids]; simp, by rw [ips]; simp, ?_, ?_, ?_, ?_⟩
    · intro old isOld
      refine ⟨_, by rw [rows]; exact List.mem_map_of_mem isOld, ?_⟩
      rw [ids]
      exact succeeds_takeOver _ old (fun here => only old isOld here ▸ generated) source
    · refine ⟨{ existing with source := entry.source }, ?_, ⟨inZone, isName, type, value⟩,
        fun _ => ?_⟩
      · rw [rows]
        refine List.mem_map.mpr ⟨existing, isRow, if_pos rfl⟩
      · rw [ids, ips]
        simp
    · intro row member' active
      rw [rows] at member'
      obtain ⟨old, isOld, rfl⟩ := List.mem_map.mp member'
      by_cases here : old.id = existing.id
      · obtain rfl := only old isOld here
        rw [if_pos rfl]
        exact .inl ⟨⟨inZone, isName, type, value⟩, rfl⟩
      · rw [if_neg here, ids] at active
        rw [if_neg here]
        refine .inr ⟨isOld, ?_⟩
        simpa [here] using active
    · intro row member' manual
      rw [rows] at member'
      obtain ⟨old, isOld, rfl⟩ := List.mem_map.mp member'
      split at manual
      · rw [isGenerated_of_entry source rfl] at manual
        exact absurd manual (by simp)
      · rename_i elsewhere
        rw [if_neg elsewhere]
        exact isOld
  · obtain ⟨refs, rows⟩ := forwardRows_of_insert outside write
    refine ⟨refs, by rw [ids]; simp, by rw [ips]; simp, ?_, ?_, ?_, ?_⟩
    · intro old isOld
      exact ⟨old, by rw [rows]; exact List.mem_append_left _ isOld, .refl _ _⟩
    · refine ⟨_, by rw [rows]; exact List.mem_append_right _ List.mem_cons_self,
        ⟨rfl, rfl, rfl, rfl⟩, fun _ => ?_⟩
      rw [ids, ips]
      simp
    · intro row member' active
      rw [rows] at member'
      rcases List.mem_append.mp member' with old | new
      · refine .inr ⟨old, ?_⟩
        have known : row.id ≠ state.store.nextId := by
          intro isNext
          have taken : row.id ∈ state.store.records.map Record.id :=
            List.mem_map_of_mem (mem_forwardRows.mp old).1
          exact nextId_not_mem (isNext ▸ taken)
        rw [ids] at active
        simpa [known] using active
      · obtain rfl := List.mem_singleton.mp new
        exact .inl ⟨⟨rfl, rfl, rfl, rfl⟩, rfl⟩
    · intro row member' manual
      rw [rows] at member'
      rcases List.mem_append.mp member' with old | new
      · exact old
      · obtain rfl := List.mem_singleton.mp new
        rw [isGenerated_of_entry source rfl] at manual
        exact absurd manual (by simp)

end Entries

/-- The ids of the zones of all domains. -/
def domainZoneIds (n : Naming) (zones : List ZoneRef) : List Nat :=
  (allDomains n).filterMap fun domain => (Naming.zoneByName zones domain).map ZoneRef.id

/-- Where the loop over the entries is. -/
structure Synced (n : Naming) (s : Store) (done : List Entry) (state : SyncState) : Prop where
  zones : zoneRefs state.store = zoneRefs s
  present : ∀ entry ∈ done, ∀ zone name, publishedAs n (zoneRefs s) entry = some (zone, name) →
    ∃ row ∈ forwardRows state.store, IsRowOf zone name entry row ∧
      (isGenerated row = true → row.id ∈ state.activeRecordIds ∧ entry.ip.text ∈ state.activeIps)
  active : ∀ row ∈ forwardRows state.store, row.id ∈ state.activeRecordIds → ∃ entry ∈ done,
    ∃ zone name, publishedAs n (zoneRefs s) entry = some (zone, name) ∧
    IsRowOf zone name entry row ∧ row.source = entry.source
  origin : ∀ row ∈ forwardRows state.store, isGenerated row = false → row ∈ forwardRows s
  names : ∀ key, key ∈ state.activeNames ↔ ∃ entry ∈ done, ∃ zone name,
    publishedAs n (zoneRefs s) entry = some (zone, name) ∧
    key = (zone.id, name, recordTypeFor entry.ip)
  processed : ∀ id, id ∈ state.processedZoneIds ↔ id ∈ domainZoneIds n (zoneRefs s) ∨
    ∃ entry ∈ done, ∃ zone name, publishedAs n (zoneRefs s) entry = some (zone, name) ∧ id = zone.id

/-- No forward zone has the id of a reverse zone. -/
def ZonesApart (zones : List ZoneRef) : Prop :=
  ∀ zone ∈ zones, zone.type = .forward → isReverseId zones zone.id = false

section Loop

variable {n : Naming} {s : Store} {done : List Entry} {state : SyncState} {entry : Entry}
    {zone : ZoneRef} {name : Text}

theorem zonesApart_of_distinct (distinct : (s.zones.map Zone.id).Nodup) :
    ZonesApart (zoneRefs s) := by
  intro zone member forward
  rw [isReverseId, List.any_eq_false]
  intro other isOther test
  simp only [Bool.and_eq_true, decide_eq_true_eq] at test
  obtain ⟨origin, isOrigin, rfl⟩ := List.mem_map.mp member
  obtain ⟨origin', isOrigin', rfl⟩ := List.mem_map.mp isOther
  have same : origin' = origin := List.inj_on_of_nodup_map distinct isOrigin' isOrigin test.1
  rw [same, forward] at test
  exact absurd test.2 (by simp)

theorem ZonesApart.outside (apart : ZonesApart (zoneRefs s))
    (published : publishedAs n (zoneRefs s) entry = some (zone, name)) :
    isReverseId (zoneRefs s) zone.id = false := by
  obtain ⟨_, -, inZone, -⟩ := publishedAs_eq_some published
  obtain ⟨member, forward⟩ := Naming.zoneFor_eq_some inZone
  exact apart zone member forward

theorem exists_mem_append_singleton {P : Entry → Prop} :
    (∃ other ∈ done ++ [entry], P other) ↔ (∃ other ∈ done, P other) ∨ P entry := by
  simp [or_and_right, exists_or]

theorem Synced.step (synced : Synced n s done state) (apart : ZonesApart (zoneRefs s))
    (source : entry.IsGenerated) :
    Synced n s (done ++ [entry]) (syncEntry n (zoneRefs s) state entry) := by
  cases published : publishedAs n (zoneRefs s) entry with
  | none =>
    rw [syncEntry_of_unpublished published]
    constructor
    case zones => exact synced.zones
    case present =>
      intro other member zone name isOther
      rcases List.mem_append.mp member with old | last
      · exact synced.present other old zone name isOther
      · rw [List.mem_singleton.mp last, published] at isOther
        exact absurd isOther (by simp)
    case active =>
      intro row member active
      obtain ⟨other, old, found⟩ := synced.active row member active
      exact ⟨other, List.mem_append_left _ old, found⟩
    case origin => exact synced.origin
    case names =>
      intro key
      rw [synced.names, exists_mem_append_singleton]
      simp [published]
    case processed =>
      intro id
      rw [synced.processed, exists_mem_append_singleton]
      simp [published]
  | some found =>
    obtain ⟨zone, name⟩ := found
    have outside := apart.outside published
    obtain ⟨processed, names, -⟩ := @syncEntry_of_published n (zoneRefs s) state entry zone
      name published
    obtain ⟨zones, ids, ips, persist, present, active, origin⟩ :=
      entryEffect published source (synced.zones.symm ▸ outside)
    constructor
    case zones => exact zones.trans synced.zones
    case present =>
      intro other member zone' name' isOther
      rcases List.mem_append.mp member with old | last
      · obtain ⟨row, isRow, rowOf, generated⟩ := synced.present other old zone' name' isOther
        obtain ⟨new, isNew, succeeds⟩ := persist row isRow
        refine ⟨new, isNew, rowOf.succeeds succeeds, fun isGenerated => ?_⟩
        obtain ⟨id, ip⟩ := generated (succeeds.generated ▸ isGenerated)
        exact ⟨ids (succeeds.id ▸ id), ips ip⟩
      · obtain rfl := List.mem_singleton.mp last
        obtain ⟨rfl, rfl⟩ := Prod.mk.inj (Option.some.inj (published.symm.trans isOther))
        exact present
    case active =>
      intro row member isActive
      rw [exists_mem_append_singleton]
      rcases active row member isActive with ⟨rowOf, sameSource⟩ | ⟨old, oldActive⟩
      · exact .inr ⟨zone, name, published, rowOf, sameSource⟩
      · exact .inl (synced.active row old oldActive)
    case origin => exact fun row member manual =>
      synced.origin row (origin row member manual) manual
    case names =>
      intro key
      rw [names, List.mem_append, synced.names, exists_mem_append_singleton]
      simp [published]
    case processed =>
      intro id
      rw [processed, List.mem_append, synced.processed, exists_mem_append_singleton, or_assoc]
      simp [published]

theorem synced_foldl (apart : ZonesApart (zoneRefs s)) (done : List Entry) (source : ∀ entry ∈ done,
    entry.IsGenerated) :
    Synced n s done (done.foldl (syncEntry n (zoneRefs s))
      { store := s, processedZoneIds := domainZoneIds n (zoneRefs s) }) := by
  induction done using List.reverseRecOn with
  | nil => exact ⟨rfl, by simp, by simp, fun row member _ => member, by simp, by simp⟩
  | append_singleton done entry ih =>
    rw [List.foldl_append]
    exact (ih fun other member => source other (List.mem_append_left _ member)).step apart
      (source entry (by simp))

theorem isGenerated_of_mem_entries {env : Env} {leases : List BackendLease}
    (member : entry ∈ entries env leases) :
    entry.IsGenerated := by
  rcases List.mem_append.mp member with lease | reservation
  · obtain ⟨_, -, rfl⟩ := List.mem_map.mp lease
    exact .inl rfl
  · obtain ⟨_, -, rfl⟩ := List.mem_map.mp reservation
    exact .inr rfl

/-- **The entries are published.** -/
theorem synced_syncEntries (apart : ZonesApart (zoneRefs s)) (leases : List BackendLease) :
    Synced n s (entries n.env leases) (syncEntries n s leases) :=
  synced_foldl apart _ fun _ => isGenerated_of_mem_entries

end Loop

/-! ## Stale rows -/

/-- The row is a lease's or a reservation's, in a zone that was looked at, and nothing
answers it any more. -/
structure IsStale (state : SyncState) (row : Record) : Prop where
  generated : isGenerated row = true
  processed : row.zoneId ∈ state.processedZoneIds
  inactive : row.id ∉ state.activeRecordIds
  unretained : isRetained state row = false

section Stale

variable {n : Naming} {s : Store} {leases : List BackendLease} {row : Record}

theorem within_removeStale {context : Context} (activeIps : List Text) (stale : Record × Zone) :
    Within s (removeStale context activeIps s stale) := by
  rw [removeStale]
  split_ifs
  · exact within_delete _
  · exact (within_clearPtrForARecord _ _ _).trans (within_delete _)

theorem forwardRows_removeStale (context : Context) (activeIps : List Text)
    (stale : Record × Zone) :
    zoneRefs (removeStale context activeIps s stale) = zoneRefs s ∧
    forwardRows (removeStale context activeIps s stale) = (forwardRows s).filter
    (·.id ≠ stale.1.id) := by
  unfold removeStale
  dsimp only
  split
  · obtain ⟨refs, rows⟩ :=
      forwardRows_ptrWrite (@ptrWrite_clearPtrForARecord s context stale.1.value stale.1.name
        stale.2.name)
    exact ⟨(zoneRefs_eq zones_deleteId).trans refs, (forwardRows_deleteId _).trans (by rw [rows])⟩
  · exact ⟨zoneRefs_eq zones_deleteId, forwardRows_deleteId _⟩

theorem forwardRows_removeAll (context : Context) (activeIps : List Text)
    (stale : List (Record × Zone)) :
    zoneRefs (stale.foldl (removeStale context activeIps) s) = zoneRefs s ∧
    forwardRows (stale.foldl (removeStale context activeIps) s) =
      (forwardRows s).filter fun row => row.id ∉ stale.map (·.1.id) := by
  induction stale generalizing s with
  | nil => simp
  | cons first stale ih =>
    obtain ⟨refs, rows⟩ := @forwardRows_removeStale s context activeIps first
    obtain ⟨laterRefs, laterRows⟩ := @ih (removeStale context activeIps s first)
    refine ⟨laterRefs.trans refs, laterRows.trans ?_⟩
    rw [rows, List.filter_filter]
    refine List.filter_congr fun row _ => ?_
    rw [List.map_cons, ← Bool.decide_and]
    refine decide_eq_decide.mpr ?_
    rw [List.mem_cons, not_or, and_comm]

theorem mem_zoneRefs_of_processed (apart : ZonesApart (zoneRefs s)) {id : Nat}
    (processed : id ∈ (syncEntries n s leases).processedZoneIds) :
    ∃ zone ∈ zoneRefs s, zone.id = id ∧ zone.type = .forward := by
  rcases ((synced_syncEntries apart leases).processed id).mp processed with domain | ⟨entry, -,
    zone, name, published, rfl⟩
  · obtain ⟨domain, -, found⟩ := List.mem_filterMap.mp domain
    obtain ⟨zone, isZone, rfl⟩ := Option.map_eq_some_iff.mp found
    obtain ⟨member, forward⟩ := Naming.zoneByName_eq_some isZone
    exact ⟨zone, member, rfl, forward⟩
  · obtain ⟨_, -, inZone, -⟩ := publishedAs_eq_some published
    obtain ⟨member, forward⟩ := Naming.zoneFor_eq_some inZone
    exact ⟨zone, member, rfl, forward⟩

theorem zoneOf_isSome {t : Store} {zone : ZoneRef} (member : zone ∈ zoneRefs t)
    (inZone : row.zoneId = zone.id) :
    (t.zoneOf row).isSome := by
  obtain ⟨origin, isOrigin, rfl⟩ := List.mem_map.mp member
  rw [zoneOf, List.find?_isSome]
  exact ⟨origin, isOrigin, decide_eq_true inZone.symm⟩

theorem mem_staleRecords (apart : ZonesApart (zoneRefs s))
    (member : row ∈ (syncEntries n s leases).store.records) :
    row.id ∈ (staleRecords (syncEntries n s leases)).map (·.1.id) ↔
    IsStale (syncEntries n s leases) row := by
  constructor
  · intro isStale
    obtain ⟨⟨record, zone⟩, found, same⟩ := List.mem_map.mp isStale
    obtain ⟨generated, test⟩ := List.mem_filter.mp found
    obtain ⟨origin, isOrigin, chosen⟩ := List.mem_filterMap.mp generated
    split at chosen
    · rename_i isIt
      obtain ⟨zone', -, pair⟩ := Option.map_eq_some_iff.mp chosen
      obtain ⟨rfl, rfl⟩ := Prod.mk.inj pair
      obtain rfl := eq_of_id_eq isOrigin member same
      simp only [Bool.and_eq_true, decide_eq_true_eq, Bool.not_eq_true'] at isIt test
      exact ⟨isIt.1, isIt.2, test.1, test.2⟩
    · exact absurd chosen (by simp)
  · rintro ⟨generated, processed, inactive, unretained⟩
    obtain ⟨zone, isZone, isId, -⟩ := mem_zoneRefs_of_processed apart processed
    have refs := (@synced_syncEntries n s apart leases).zones
    obtain ⟨found, isFound⟩ := Option.isSome_iff_exists.mp
      (@zoneOf_isSome row (syncEntries n s leases).store zone (refs.symm ▸ isZone) isId.symm)
    refine List.mem_map.mpr
      ⟨(row, found), List.mem_filter.mpr ⟨List.mem_filterMap.mpr ⟨row, member, ?_⟩, ?_⟩, rfl⟩
    · rw [if_pos, isFound]
      · rfl
      · simp only [Bool.and_eq_true, decide_eq_true_eq]
        exact ⟨generated, processed⟩
    · simp [inactive, unretained]

/-- **What publishing leaves in forward zones**: the rows of the loop without the stale ones. -/
theorem mem_forwardRows_syncDhcpDnsRecords (apart : ZonesApart (zoneRefs s)) :
    row ∈ forwardRows (syncDhcpDnsRecords n s leases).1 ↔
      row ∈ forwardRows (syncEntries n s leases).store ∧
      ¬ IsStale (syncEntries n s leases) row := by
  have rows :=
    (@forwardRows_removeAll (syncEntries n s leases).store n.toContext
      (syncEntries n s leases).activeIps (staleRecords (syncEntries n s leases))).2
  have same : forwardRows (syncDhcpDnsRecords n s leases).1 = _ := rows
  rw [same, List.mem_filter, decide_eq_true_eq]
  refine and_congr_right fun member => not_congr ?_
  exact mem_staleRecords apart (mem_forwardRows.mp member).1

theorem zoneRefs_syncDhcpDnsRecords (apart : ZonesApart (zoneRefs s)) :
    zoneRefs (syncDhcpDnsRecords n s leases).1 = zoneRefs s := by
  have refs :=
    (@forwardRows_removeAll (syncEntries n s leases).store n.toContext
      (syncEntries n s leases).activeIps (staleRecords (syncEntries n s leases))).1
  exact refs.trans (synced_syncEntries apart leases).zones

end Stale

end LeaseNames

end Cidrella
