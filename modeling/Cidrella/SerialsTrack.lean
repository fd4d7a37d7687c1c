import Cidrella.DhcpDnsRecords
import Cidrella.UniqueNames
import Cidrella.ZoneSerials

/-!
# Writers that forget a serial

Three writers never raise the serial of a forward zone: `deleteARecordsByIps`,
`deleteARecordByIdentity` and `syncDhcpDnsRecords`. Their serials track the content of
zones exactly when they change nothing that a zone says, and the serials of all other
writers always do (`serials_track_iff`).
-/

set_option autoImplicit false

namespace Cidrella

open Address DnsNames

namespace Dns

open LeaseNames

namespace Store

/-- Zones that say something else have a larger serial, and no serial falls. -/
def SerialsTrack (s t : Store) : Prop :=
  ∀ zone ∈ s.zones, ∃ zone' ∈ t.zones, zone'.id = zone.id ∧ zone.soaSerial ≤ zone'.soaSerial ∧
    (s.content zone.id ≠ t.content zone.id → zone.soaSerial < zone'.soaSerial)

section Serials

variable {s t u : Store} {zone : Zone}

theorem serial_eq (distinct : s.zoneIds.Nodup) (member : zone ∈ s.zones) :
    s.serial zone.id = zone.soaSerial := by
  have found : s.zones.find? (·.id = zone.id) = some zone := Keyed.find?_of_mem distinct member
  rw [serial, found]
  rfl

theorem serialsTrack_iff (distinct : s.zoneIds.Nodup) (ids : t.zoneIds = s.zoneIds) :
    SerialsTrack s t ↔ ∀ id ∈ s.zoneIds, s.serial id ≤ t.serial id ∧
    (s.content id ≠ t.content id → s.serial id < t.serial id) := by
  have distinctLater : t.zoneIds.Nodup := ids ▸ distinct
  constructor
  · intro tracks id member
    obtain ⟨zone, isZone, rfl⟩ := List.mem_map.mp member
    obtain ⟨zone', isZone', same, le, lt⟩ := tracks zone isZone
    rw [serial_eq distinct isZone, ← same, serial_eq distinctLater isZone', same]
    exact ⟨le, lt⟩
  · intro tracks zone isZone
    have known : zone.id ∈ s.zoneIds := List.mem_map_of_mem isZone
    obtain ⟨le, lt⟩ := tracks zone.id known
    rw [← ids] at known
    obtain ⟨zone', isZone', same⟩ := List.mem_map.mp known
    have serial' := serial_eq distinctLater isZone'
    rw [same] at serial'
    rw [serial_eq distinct isZone, serial'] at le lt
    exact ⟨zone', isZone', same, le, lt⟩

theorem Follows.serialsTrack (follows : Follows ∅ s t) (distinct : s.zoneIds.Nodup) :
    SerialsTrack s t := by
  refine (serialsTrack_iff distinct follows.zoneIds).mpr fun id known => ⟨follows.tracks.le id, ?_⟩
  refine follows.tracks.lt id ?_
  rintro (isDirty | missing)
  · exact isDirty
  · exact missing known

theorem serialsTrack_iff_of_zones (distinct : s.zoneIds.Nodup) (zones : t.zones = s.zones) :
    SerialsTrack s t ↔ ∀ id ∈ s.zoneIds, s.content id = t.content id := by
  have serials : t.serial = s.serial := by
    funext id
    rw [serial, serial, zones]
  rw [serialsTrack_iff distinct (by rw [zoneIds, zoneIds, zones])]
  refine forall₂_congr fun id _ => ?_
  rw [serials]
  constructor
  · rintro ⟨-, lt⟩
    by_contra differs
    exact absurd (lt differs) (lt_irrefl _)
  · exact fun same => ⟨le_refl _, fun differs => absurd same differs⟩

end Serials

/-! ## Deleting by address -/

section Deletes

variable {s : Store} {ips : List Text} {id : Nat} {ip : Text}

theorem zones_deleteARecordsByIps : (s.deleteARecordsByIps ips).zones = s.zones := by
  induction ips generalizing s with
  | nil => rfl
  | cons first ips ih => exact @ih (s.delete fun record => record.type.isAddress &&
      record.value = first)

theorem mem_deleteARecordsByIps {record : Record} : record ∈ (s.deleteARecordsByIps ips).records ↔
    record ∈ s.records ∧ ¬ (record.type.isAddress = true ∧ record.value ∈ ips) := by
  induction ips generalizing s with
  | nil => simp [deleteARecordsByIps]
  | cons first ips ih =>
    have rest := @ih (s.delete fun record => record.type.isAddress && record.value = first)
    refine Iff.trans rest ?_
    rw [mem_delete, List.mem_cons]
    by_cases isAddress : record.type.isAddress = true
    · simp [isAddress, and_assoc]
    · simp [isAddress]

/-- No address record of a zone has one of the addresses. -/
def NoneAt (s : Store) (ips : List Text) : Prop :=
  ∀ record ∈ s.records, record.zoneId ∈ s.zoneIds → record.type.isAddress = true →
    record.value ∉ ips

theorem deleteARecordsByIps_tracks_iff (distinct : s.zoneIds.Nodup) :
    SerialsTrack s (s.deleteARecordsByIps ips) ↔ NoneAt s ips := by
  rw [serialsTrack_iff_of_zones distinct zones_deleteARecordsByIps]
  constructor
  · intro same record member known isAddress isAt
    have said : record.item ∈ s.content record.zoneId := ⟨record, member, rfl, rfl⟩
    rw [same record.zoneId known] at said
    obtain ⟨other, isOther, -, sameItem⟩ := said
    obtain ⟨-, sameType, sameValue, -⟩ : _ ∧ _ ∧ _ ∧ _ := by simpa [Record.item] using sameItem
    exact (mem_deleteARecordsByIps.mp isOther).2 ⟨sameType ▸ isAddress, sameValue ▸ isAt⟩
  · intro none id known
    ext item
    constructor
    · rintro ⟨record, member, rfl, rfl⟩
      refine ⟨record, mem_deleteARecordsByIps.mpr ⟨member, ?_⟩, rfl, rfl⟩
      exact fun both => none record member known both.1 both.2
    · rintro ⟨record, member, rfl, rfl⟩
      exact ⟨record, (mem_deleteARecordsByIps.mp member).1, rfl, rfl⟩

/-- The address record of a zone that has the id and the address, if there is one, has a
twin in its zone. -/
def HasTwin (s : Store) (id : Nat) (ip : Text) : Prop :=
  ∀ record ∈ s.records, record.zoneId ∈ s.zoneIds → record.id = id → record.type.isAddress = true →
    record.value = ip → ∃ twin ∈ s.records, twin.id ≠ id ∧ twin.zoneId = record.zoneId ∧
    twin.item = record.item

theorem deleteARecordByIdentity_tracks_iff (distinct : s.zoneIds.Nodup) :
    SerialsTrack s (s.deleteARecordByIdentity id ip) ↔ HasTwin s id ip := by
  have members : ∀ {record}, record ∈ (s.deleteARecordByIdentity id ip).records ↔
      record ∈ s.records ∧ ¬ (record.id = id ∧ record.type.isAddress = true ∧
      record.value = ip) := by
    intro record
    rw [deleteARecordByIdentity, mem_delete]
    simp
  have zones : (s.deleteARecordByIdentity id ip).zones = s.zones := rfl
  rw [serialsTrack_iff_of_zones distinct zones]
  constructor
  · intro same record member known isId isAddress isAt
    have said : record.item ∈ s.content record.zoneId := ⟨record, member, rfl, rfl⟩
    rw [same record.zoneId known] at said
    obtain ⟨twin, isTwin, sameZone, sameItem⟩ := said
    obtain ⟨isTwin, stays⟩ := members.mp isTwin
    refine ⟨twin, isTwin, fun isIt => stays ?_, sameZone, sameItem⟩
    obtain rfl := eq_of_id_eq isTwin member (isIt.trans isId.symm)
    exact ⟨isId, isAddress, isAt⟩
  · intro twins zoneId known
    ext item
    constructor
    · rintro ⟨record, member, rfl, rfl⟩
      by_cases goes : record.id = id ∧ record.type.isAddress = true ∧ record.value = ip
      · obtain ⟨twin, isTwin, other, sameZone, sameItem⟩ :=
          twins record member known goes.1 goes.2.1 goes.2.2
        exact ⟨twin, members.mpr ⟨isTwin, fun isIt => other isIt.1⟩, sameZone, sameItem⟩
      · exact ⟨record, members.mpr ⟨member, goes⟩, rfl, rfl⟩
    · rintro ⟨record, member, rfl, rfl⟩
      exact ⟨record, (members.mp member).1, rfl, rfl⟩

end Deletes

/-! ## Publishing leases -/

/-- Reverse zones follow, and the serials of all others stay. -/
structure Publishes (s t : Store) : Prop where
  zones : zoneRefs t = zoneRefs s
  follows : Follows {id | isReverseId (zoneRefs s) id = false} s t
  serials : ∀ id, isReverseId (zoneRefs s) id = false → t.serial id = s.serial id

section Publishing

variable {s t u : Store} {ip : Text} {enabledOnly : Bool} {n : Naming} {leases : List BackendLease}

theorem Publishes.refl (s : Store) : Publishes s s := ⟨rfl, .refl _ _, fun _ _ => rfl⟩

theorem Publishes.trans (first : Publishes s t) (second : Publishes t u) : Publishes s u := by
  have follows := second.follows
  rw [first.zones] at follows
  refine ⟨second.zones.trans first.zones, first.follows.step follows, fun id outside => ?_⟩
  rw [second.serials id (first.zones.symm ▸ outside), first.serials id outside]

theorem publishes_ptrWrite (write : PtrWrite s ip enabledOnly t) : Publishes s t := by
  refine ⟨(forwardRows_ptrWrite write).1, (follows_ptrWrite write).mono (Set.empty_subset _),
    fun id outside => ?_⟩
  have raised : ∀ {now : Store} {location : PtrLocation}, s.findReversePtrLocation ip enabledOnly =
      some location → now.serial = s.serial → (now.bumpZoneSerial location.zone.id).serial id =
      s.serial id := by
    intro now location found same
    rw [serial_bumpZoneSerial, if_neg, same]
    rintro ⟨rfl, -⟩
    rw [isReverseId_of_location found] at outside
    exact absurd outside (by simp)
  cases write with
  | same => rfl
  | write location value source found =>
    cases isRow : s.ptrRow location with
    | none => exact raised found rfl
    | some row => exact raised found rfl
  | remove location row found isRow => exact raised found rfl

theorem publishes_of_zones (zones : t.zones = s.zones)
    (follows : Follows {id | isReverseId (zoneRefs s) id = false} s t) : Publishes s t := by
  refine ⟨zoneRefs_eq zones, follows, fun id _ => ?_⟩
  rw [serial, serial, zones]

theorem publishes_syncEntry {state : SyncState} {entry : Entry} {zones : List ZoneRef}
    (apart : ZonesApart zones) (refs : zoneRefs state.store = zones) :
    Publishes state.store (syncEntry n zones state entry).store := by
  cases published : publishedAs n zones entry with
  | none =>
    rw [syncEntry_of_unpublished published]
    exact .refl _
  | some found =>
    obtain ⟨zone, name⟩ := found
    have outside : isReverseId (zoneRefs state.store) zone.id = false := by
      obtain ⟨_, -, inZone, -⟩ := publishedAs_eq_some published
      obtain ⟨member, forward⟩ := Naming.zoneFor_eq_some inZone
      exact refs.symm ▸ apart zone member forward
    obtain ⟨-, -, effect⟩ := @syncEntry_of_published n zones state entry zone name published
    rcases effect with ⟨existing, -, -, store, -, -⟩ | ⟨existing, found, -, write, -, -⟩ | ⟨-,
      write, -, -⟩
    · rw [store]
      exact .refl _
    · obtain ⟨member, inZone, -⟩ := findRecord_eq_some found
      refine (publishes_of_zones zones_update (follows_update fun row isRow same => ?_)).trans
        (publishes_ptrWrite write)
      rw [eq_of_id_eq isRow member same, inZone]
      exact ⟨outside, outside⟩
    · refine (publishes_of_zones (zones_insert _) ?_).trans (publishes_ptrWrite write)
      exact (follows_insert _).mono (Set.singleton_subset_iff.mpr outside)

theorem publishes_syncEntries (apart : ZonesApart (zoneRefs s)) :
    Publishes s (syncEntries n s leases).store := by
  have loop : ∀ (entries : List Entry) (state : SyncState), zoneRefs state.store = zoneRefs s →
      Publishes state.store (entries.foldl (syncEntry n (zoneRefs s)) state).store := by
    intro entries
    induction entries with
    | nil => exact fun state _ => .refl _
    | cons entry entries ih =>
      intro state refs
      have first := @publishes_syncEntry n state entry (zoneRefs s) apart refs
      exact first.trans (ih _ (first.zones.trans refs))
  exact loop (entries n.env leases) { store := s, processedZoneIds := domainZoneIds n (zoneRefs s) }
    rfl

theorem publishes_removeStale {context : Context} {activeIps : List Text} {stale : Record × Zone}
    {now : Store} (member : stale.1 ∈ s.records) (within : Within s now)
    (outside : isReverseId (zoneRefs now) stale.1.zoneId = false) :
    Publishes now (removeStale context activeIps now stale) := by
  have deleted : ∀ {later : Store}, Within s later → zoneRefs later = zoneRefs now →
      Publishes later (later.deleteId stale.1.id) := by
    intro later withinLater refs
    refine publishes_of_zones zones_deleteId ?_
    refine (follows_deleteId fun row isRow same => withinLater.zoneId_eq member isRow same).mono ?_
    rw [Set.singleton_subset_iff, refs]
    exact outside
  unfold removeStale
  dsimp only
  split
  · have cleared := publishes_ptrWrite (@ptrWrite_clearPtrForARecord now context stale.1.value
      stale.1.name stale.2.name)
    exact cleared.trans (deleted (within.trans (within_clearPtrForARecord _ _ _)) cleared.zones)
  · exact deleted within rfl

theorem publishes_syncDhcpDnsRecords (apart : ZonesApart (zoneRefs s)) :
    Publishes s (syncDhcpDnsRecords n s leases).1 := by
  have entries := @publishes_syncEntries s n leases apart
  have loop : ∀ (stale : List (Record × Zone)) (now : Store),
      Within (syncEntries n s leases).store now → zoneRefs now = zoneRefs s →
      (∀ pair ∈ stale, pair.1 ∈ (syncEntries n s leases).store.records ∧
        isReverseId (zoneRefs s) pair.1.zoneId = false) →
      Publishes now
          (stale.foldl (removeStale n.toContext (syncEntries n s leases).activeIps) now) := by
    intro stale
    induction stale with
    | nil => exact fun now _ _ _ => .refl _
    | cons first stale ih =>
      intro now within refs members
      obtain ⟨member, outside⟩ := members first List.mem_cons_self
      have removed := @publishes_removeStale _ n.toContext (syncEntries n s leases).activeIps first
        now member within (refs.symm ▸ outside)
      refine removed.trans (ih _ (within.trans (within_removeStale _ _))
        (removed.zones.trans refs) ?_)
      exact fun pair later => members pair (List.mem_cons_of_mem _ later)
  refine entries.trans (loop _ _ (.refl _) entries.zones fun pair isStale => ?_)
  obtain ⟨generated, -⟩ := List.mem_filter.mp isStale
  obtain ⟨record, isRecord, chosen⟩ := List.mem_filterMap.mp generated
  split at chosen
  · rename_i test
    obtain ⟨zone, -, rfl⟩ := Option.map_eq_some_iff.mp chosen
    simp only [Bool.and_eq_true, decide_eq_true_eq] at test
    obtain ⟨found, isZone, sameId, forward⟩ := mem_zoneRefs_of_processed apart test.2
    exact ⟨isRecord, sameId ▸ apart found isZone forward⟩
  · exact absurd chosen (by simp)

theorem Publishes.tracks_iff (publishes : Publishes s t) (distinct : s.zoneIds.Nodup) :
    SerialsTrack s t ↔ ∀ id ∈ s.zoneIds, isReverseId (zoneRefs s) id = false →
    s.content id = t.content id := by
  rw [serialsTrack_iff distinct publishes.follows.zoneIds]
  constructor
  · intro tracks id known outside
    by_contra differs
    have lt := (tracks id known).2 differs
    rw [publishes.serials id outside] at lt
    exact absurd lt (lt_irrefl _)
  · intro same id known
    refine ⟨publishes.follows.tracks.le id, fun differs => publishes.follows.tracks.lt
      id ?_ differs⟩
    rintro (outside | missing)
    · exact differs (same id known outside)
    · exact missing known

end Publishing

/-! ## When publishing has nothing to write -/

/-- The row of a lease or a reservation that an entry answers. -/
def ownRecord (n : Naming) (s : Store) (entry : Entry) : Option Record :=
  (publishedAs n (zoneRefs s) entry).bind fun (zone, name) =>
    (findRecord s zone.id name (recordTypeFor entry.ip) entry.ip.text).filter isGenerated

/-- A row that publishing takes out: it is a lease's or a reservation's, in a zone of a
domain or of an entry, and no entry answers it. A lease's goes only when an entry took
over a row of its address or has its name. -/
structure Goes (n : Naming) (s : Store) (leases : List BackendLease) (row : Record) : Prop where
  generated : isGenerated row = true
  processed : row.zoneId ∈ domainZoneIds n (zoneRefs s) ∨ ∃ entry ∈ entries n.env leases,
    ∃ zone name, publishedAs n (zoneRefs s) entry = some (zone, name) ∧ row.zoneId = zone.id
  unanswered : ∀ entry ∈ entries n.env leases, ownRecord n s entry ≠ some row
  replaced : row.source = .dhcp →
    (∃ entry ∈ entries n.env leases, (ownRecord n s entry).isSome ∧ row.value = entry.ip.text) ∨
    ∃ entry ∈ entries n.env leases, ∃ zone name, publishedAs n (zoneRefs s) entry =
      some (zone, name) ∧ (row.zoneId, row.name, row.type) = (zone.id, name, recordTypeFor entry.ip)

/-- Every name to publish has its record, and every row that goes has a twin that stays. -/
structure NothingToWrite (n : Naming) (s : Store) (leases : List BackendLease) : Prop where
  present : ∀ entry ∈ entries n.env leases, ∀ zone name, publishedAs n (zoneRefs s) entry =
    some (zone, name) → (findRecord s zone.id name (recordTypeFor entry.ip) entry.ip.text).isSome
  twins : ∀ row ∈ s.records, Goes n s leases row →
    ∃ twin ∈ s.records, twin.zoneId = row.zoneId ∧ twin.item = row.item ∧ ¬ Goes n s leases twin

section Steady

variable {n : Naming} {s t : Store} {leases : List BackendLease} {done : List Entry}
    {state : SyncState} {entry : Entry}
variable {zone : ZoneRef} {name : Text} {row : Record}

theorem findRecord_eq_forward {zoneId : Nat} {type : RecordType} {value : Text}
    (outside : isReverseId (zoneRefs s) zoneId = false) : findRecord s zoneId name type value =
      (forwardRows s).find? fun record =>
        record.zoneId = zoneId && record.name = name && record.type = type &&
            record.value = value := by
  rw [forwardRows, List.find?_filter, findRecord]
  refine congrArg (fun test => s.records.find? test) ?_
  funext record
  by_cases here : record.zoneId = zoneId
  · simp [here, outside]
  · simp [here]

theorem findRecord_map {rename : Record → Record} {active : List Nat} {zoneId : Nat}
    {type : RecordType} {value : Text} (refs : zoneRefs t = zoneRefs s)
    (rows : forwardRows t = (forwardRows s).map rename) (succeeds : ∀ row ∈ forwardRows s,
    Succeeds active row (rename row)) (outside : isReverseId (zoneRefs s) zoneId = false) :
    findRecord t zoneId name type value = (findRecord s zoneId name type value).map rename := by
  rw [findRecord_eq_forward outside, findRecord_eq_forward (refs.symm ▸ outside), rows,
    List.find?_map]
  refine congrArg _ (List.find?_congr fun row member => ?_)
  have same := succeeds row member
  simp only [Function.comp_apply, same.zoneId, same.name, same.type, same.value]

/-- The loop over entries that all have their rows. -/
structure Steady (n : Naming) (s : Store) (done : List Entry) (state : SyncState) : Prop where
  rows : ∃ rename : Record → Record, forwardRows state.store = (forwardRows s).map rename ∧
    ∀ row ∈ forwardRows s, Succeeds state.activeRecordIds row (rename row)
  ids : ∀ id, id ∈ state.activeRecordIds ↔ ∃ entry ∈ done, ∃ row, ownRecord n s entry = some row ∧
    row.id = id
  ips : ∀ ip, ip ∈ state.activeIps ↔ ∃ entry ∈ done, (ownRecord n s entry).isSome ∧
    ip = entry.ip.text

theorem ownRecord_of_unpublished (unpublished : publishedAs n (zoneRefs s) entry = none) :
    ownRecord n s entry = none := by
  rw [ownRecord, unpublished]
  rfl

theorem ownRecord_of_published (published : publishedAs n (zoneRefs s) entry = some (zone, name)) :
    ownRecord n s entry =
      (findRecord s zone.id name (recordTypeFor entry.ip) entry.ip.text).filter
      LeaseNames.isGenerated := by
  rw [ownRecord, published]
  rfl

theorem Steady.idle {after : SyncState} (steady : Steady n s done state)
    (idle : ownRecord n s entry = none) (store : after.store = state.store)
    (ids : after.activeRecordIds = state.activeRecordIds)
    (ips : after.activeIps = state.activeIps) : Steady n s (done ++ [entry]) after := by
  refine ⟨by rw [store, ids]; exact steady.rows, fun id => ?_, fun ip => ?_⟩
  · rw [ids, steady.ids, exists_mem_append_singleton]
    simp [idle]
  · rw [ips, steady.ips, exists_mem_append_singleton]
    simp [idle]

theorem Steady.step (steady : Steady n s done state) (synced : Synced n s done state)
    (apart : ZonesApart (zoneRefs s)) (source : entry.IsGenerated)
    (present : ∀ zone name, publishedAs n (zoneRefs s) entry = some (zone, name) →
      (findRecord s zone.id name (recordTypeFor entry.ip) entry.ip.text).isSome) :
    Steady n s (done ++ [entry]) (syncEntry n (zoneRefs s) state entry) := by
  cases published : publishedAs n (zoneRefs s) entry with
  | none =>
    rw [syncEntry_of_unpublished published]
    exact steady.idle (ownRecord_of_unpublished published) rfl rfl rfl
  | some pair =>
    obtain ⟨zone, name⟩ := pair
    have outside := apart.outside published
    obtain ⟨rename, rows, succeeds⟩ := steady.rows
    obtain ⟨own, isOwn⟩ := Option.isSome_iff_exists.mp (present zone name published)
    obtain ⟨ownMember, ownZone, -⟩ := findRecord_eq_some isOwn
    have ownRow : own ∈ forwardRows s := mem_forwardRows.mpr ⟨ownMember, ownZone ▸ outside⟩
    have found : findRecord state.store zone.id name (recordTypeFor entry.ip) entry.ip.text =
        some (rename own) := by
      rw [findRecord_map synced.zones rows succeeds outside, isOwn]
      rfl
    have sameKind := (succeeds own ownRow).generated
    have sameId := (succeeds own ownRow).id
    obtain ⟨-, -, effect⟩ := @syncEntry_of_published n (zoneRefs s) state entry zone name published
    rcases effect with ⟨existing, isExisting, manual, store, ids, ips⟩ |
      ⟨existing, isExisting, generated, write, ids, ips⟩ | ⟨absent, -, -, -⟩
    · obtain rfl := Option.some.inj (found.symm.trans isExisting)
      refine steady.idle ?_ store ids ips
      rw [ownRecord_of_published published, isOwn]
      simp [← sameKind, manual]
    · obtain rfl := Option.some.inj (found.symm.trans isExisting)
      have isOwnRecord : ownRecord n s entry = some own := by
        rw [ownRecord_of_published published, isOwn]
        simp [← sameKind, generated]
      obtain ⟨-, laterRows⟩ := forwardRows_of_takeOver write
      refine ⟨⟨fun row => if (rename row).id = (rename own).id then { rename row with source :=
        entry.source }
        else rename row, ?_, fun row member => ?_⟩, fun id => ?_, fun ip => ?_⟩
      · rw [laterRows, rows, List.map_map]
        rfl
      · rw [ids]
        refine (succeeds row member).trans (List.subset_append_left _ _)
          (succeeds_takeOver _ _ (fun here => ?_) source)
        rw [(succeeds row member).id, sameId] at here
        obtain rfl := eq_of_id_eq (mem_forwardRows.mp member).1 ownMember here
        exact generated
      · rw [ids, List.mem_append, steady.ids, exists_mem_append_singleton, List.mem_singleton]
        refine or_congr_right ?_
        simp [isOwnRecord, sameId, eq_comm]
      · rw [ips, List.mem_append, steady.ips, exists_mem_append_singleton, List.mem_singleton]
        refine or_congr_right ?_
        simp [isOwnRecord]
    · rw [found] at absent
      exact absurd absent (by simp)

theorem steady_syncEntries (apart : ZonesApart (zoneRefs s))
    (present : ∀ entry ∈ entries n.env leases, ∀ zone name, publishedAs n (zoneRefs s) entry =
      some (zone, name) →
      (findRecord s zone.id name (recordTypeFor entry.ip) entry.ip.text).isSome) :
    Steady n s (entries n.env leases) (syncEntries n s leases) := by
  have loop : ∀ done : List Entry, (∀ entry ∈ done, entry.IsGenerated ∧ ∀ zone name,
      publishedAs n (zoneRefs s) entry = some (zone, name) →
        (findRecord s zone.id name (recordTypeFor entry.ip) entry.ip.text).isSome) →
      Steady n s done (done.foldl (syncEntry n (zoneRefs s))
        { store := s, processedZoneIds := domainZoneIds n (zoneRefs s) }) := by
    intro done
    induction done using List.reverseRecOn with
    | nil =>
      intro _
      exact ⟨⟨id, (List.map_id _).symm, fun row _ => .refl _ _⟩, by simp, by simp⟩
    | append_singleton done entry ih =>
      intro each
      rw [List.foldl_append]
      have before : ∀ other ∈ done, _ :=
        fun other member => each other (List.mem_append_left _ member)
      obtain ⟨source, isPresent⟩ := each entry (by simp)
      exact (ih before).step (synced_foldl apart done fun other member => (before other member).1)
        apart source isPresent
  exact loop _ fun entry member => ⟨isGenerated_of_mem_entries member, present entry member⟩

/-- With all rows there, the rows that are stale are those that go. -/
theorem isStale_iff_goes {rename : Record → Record} (apart : ZonesApart (zoneRefs s))
    (steady : Steady n s (entries n.env leases) (syncEntries n s leases))
    (member : row ∈ forwardRows s) (succeeds : Succeeds (syncEntries n s leases).activeRecordIds row
    (rename row)) :
    IsStale (syncEntries n s leases) (rename row) ↔ Goes n s leases row := by
  have synced := @synced_syncEntries n s apart leases
  have isRow := (mem_forwardRows.mp member).1
  -- a row is active when an entry answers it
  have active : row.id ∈ (syncEntries n s leases).activeRecordIds ↔
      ∃ entry ∈ entries n.env leases, ownRecord n s entry = some row := by
    rw [steady.ids]
    constructor
    · rintro ⟨entry, isEntry, other, isOwn, sameId⟩
      have isOther : other ∈ s.records := by
        obtain ⟨⟨zone, name⟩, -, found⟩ := Option.bind_eq_some_iff.mp isOwn
        exact (findRecord_eq_some (Option.filter_eq_some_iff.mp found).1).1
      exact ⟨entry, isEntry, eq_of_id_eq isOther isRow sameId ▸ isOwn⟩
    · rintro ⟨entry, isEntry, isOwn⟩
      exact ⟨entry, isEntry, row, isOwn, rfl⟩
  have retained : isRetained (syncEntries n s leases) row = false ↔ (row.source = .dhcp →
      (∃ entry ∈ entries n.env leases, (ownRecord n s entry).isSome ∧ row.value = entry.ip.text) ∨
      ∃ entry ∈ entries n.env leases, ∃ zone name, publishedAs n (zoneRefs s) entry =
        some (zone, name) ∧ (row.zoneId, row.name, row.type) =
        (zone.id, name, recordTypeFor entry.ip)) := by
    rw [← steady.ips, ← synced.names, isRetained]
    by_cases dhcp : row.source = .dhcp
    · simp only [dhcp, decide_true, Bool.true_and, Bool.and_eq_false_iff,
        decide_eq_false_iff_not, not_not, true_imp_iff]
    · simp [dhcp]
  constructor
  · rintro ⟨generated, processed, inactive, unretained⟩
    rw [succeeds.id] at inactive
    rw [succeeds.inactive inactive] at unretained
    refine ⟨succeeds.generated ▸ generated, ?_, ?_, retained.mp unretained⟩
    · rw [succeeds.zoneId] at processed
      exact (synced.processed _).mp processed
    · exact fun entry isEntry isOwn => inactive (active.mpr ⟨entry, isEntry, isOwn⟩)
  · rintro ⟨generated, processed, unanswered, replaced⟩
    have inactive : row.id ∉ (syncEntries n s leases).activeRecordIds := by
      intro isActive
      obtain ⟨entry, isEntry, isOwn⟩ := active.mp isActive
      exact unanswered entry isEntry isOwn
    rw [succeeds.inactive inactive]
    exact ⟨generated, (synced.processed _).mpr processed, inactive, retained.mpr replaced⟩

/-- With all rows there, a zone goes on saying what its remaining rows say. -/
theorem content_syncDhcpDnsRecords (apart : ZonesApart (zoneRefs s))
    (steady : Steady n s (entries n.env leases) (syncEntries n s leases)) {zoneId : Nat}
    (outside : isReverseId (zoneRefs s) zoneId = false) (item : Item) :
    item ∈ (syncDhcpDnsRecords n s leases).1.content zoneId ↔
      ∃ row ∈ s.records, row.zoneId = zoneId ∧ row.item = item ∧ ¬ Goes n s leases row := by
  obtain ⟨rename, rows, succeeds⟩ := steady.rows
  have refs := @zoneRefs_syncDhcpDnsRecords n s leases apart
  have items : ∀ row ∈ forwardRows s, (rename row).item = row.item := by
    intro row member
    have same := succeeds row member
    simp only [Record.item, same.name, same.type, same.value, same.enabled]
  constructor
  · rintro ⟨row, member, inZone, isItem⟩
    have isRow : row ∈ forwardRows (syncDhcpDnsRecords n s leases).1 :=
      mem_forwardRows.mpr ⟨member, by rw [refs, inZone, outside]⟩
    obtain ⟨inLoop, stays⟩ := (mem_forwardRows_syncDhcpDnsRecords apart).mp isRow
    rw [rows] at inLoop
    obtain ⟨old, isOld, rfl⟩ := List.mem_map.mp inLoop
    refine ⟨old, (mem_forwardRows.mp isOld).1, (succeeds old isOld).zoneId.symm.trans inZone,
      (items old isOld).symm.trans isItem, fun goes => stays ?_⟩
    exact (isStale_iff_goes apart steady isOld (succeeds old isOld)).mpr goes
  · rintro ⟨row, member, inZone, isItem, stays⟩
    have isOld : row ∈ forwardRows s := mem_forwardRows.mpr ⟨member, by rw [inZone, outside]⟩
    have isRow : rename row ∈ forwardRows (syncDhcpDnsRecords n s leases).1 := by
      refine (mem_forwardRows_syncDhcpDnsRecords apart).mpr ⟨rows ▸ List.mem_map_of_mem isOld,
        fun stale => stays ?_⟩
      exact (isStale_iff_goes apart steady isOld (succeeds row isOld)).mp stale
    exact ⟨rename row, (mem_forwardRows.mp isRow).1, (succeeds row isOld).zoneId.trans inZone,
      (items row isOld).trans isItem⟩

theorem exists_published (apart : ZonesApart (zoneRefs s)) (isEntry : entry ∈ entries n.env leases)
    (published : publishedAs n (zoneRefs s) entry = some (zone, name)) :
    ∃ row ∈ (syncDhcpDnsRecords n s leases).1.records, IsRowOf zone name entry row := by
  obtain ⟨row, member, isRow, generated⟩ := (synced_syncEntries apart leases).present entry isEntry
    zone name published
  have stays : row ∈ forwardRows (syncDhcpDnsRecords n s leases).1 := by
    refine (mem_forwardRows_syncDhcpDnsRecords apart).mpr ⟨member, fun stale => stale.inactive ?_⟩
    exact (generated stale.generated).1
  exact ⟨row, (mem_forwardRows.mp stays).1, isRow⟩

theorem mem_zoneIds_of_zoneRefs (member : zone ∈ zoneRefs s) : zone.id ∈ s.zoneIds := by
  obtain ⟨origin, isOrigin, rfl⟩ := List.mem_map.mp member
  exact List.mem_map_of_mem isOrigin

theorem syncDhcpDnsRecords_tracks_iff (distinct : s.zoneIds.Nodup) :
    SerialsTrack s (syncDhcpDnsRecords n s leases).1 ↔ NothingToWrite n s leases := by
  have apart := zonesApart_of_distinct distinct
  rw [(publishes_syncDhcpDnsRecords apart).tracks_iff distinct]
  constructor
  · intro same
    have present : ∀ entry ∈ entries n.env leases, ∀ zone name, publishedAs n (zoneRefs s) entry =
        some (zone, name) →
        (findRecord s zone.id name (recordTypeFor entry.ip) entry.ip.text).isSome := by
      intro entry isEntry zone name published
      obtain ⟨row, member, isRow⟩ := exists_published apart isEntry published
      obtain ⟨_, -, inZone, -⟩ := publishedAs_eq_some published
      have known := mem_zoneIds_of_zoneRefs (Naming.zoneFor_eq_some inZone).1
      have said : row.item ∈ (syncDhcpDnsRecords n s leases).1.content zone.id :=
        ⟨row, member, isRow.zoneId, rfl⟩
      rw [← same zone.id known (apart.outside published)] at said
      obtain ⟨old, isOld, sameZone, sameItem⟩ := said
      obtain ⟨sameName, sameType, sameValue, -⟩ : _ ∧ _ ∧ _ ∧
        _ := by simpa [Record.item] using sameItem
      rw [findRecord, List.find?_isSome]
      refine ⟨old, isOld, ?_⟩
      simp [sameZone, sameName, sameType, sameValue, isRow.name, isRow.type, isRow.value]
    refine ⟨present, fun row member goes => ?_⟩
    have steady := steady_syncEntries apart present
    have processed := ((synced_syncEntries apart leases).processed row.zoneId).mpr goes.processed
    obtain ⟨zone, isZone, sameId, forward⟩ := mem_zoneRefs_of_processed apart processed
    have known : row.zoneId ∈ s.zoneIds := sameId ▸ mem_zoneIds_of_zoneRefs isZone
    have outside : isReverseId (zoneRefs s) row.zoneId = false := sameId ▸ apart zone isZone forward
    have said : row.item ∈ s.content row.zoneId := ⟨row, member, rfl, rfl⟩
    rw [same _ known outside] at said
    exact (content_syncDhcpDnsRecords apart steady outside _).mp said
  · rintro ⟨present, twins⟩ id - outside
    have steady := steady_syncEntries apart present
    ext item
    rw [content_syncDhcpDnsRecords apart steady outside]
    constructor
    · rintro ⟨row, member, rfl, rfl⟩
      by_cases goes : Goes n s leases row
      · exact twins row member goes
      · exact ⟨row, member, rfl, rfl, goes⟩
    · rintro ⟨row, member, inZone, isItem, -⟩
      exact ⟨row, member, inZone, isItem⟩

end Steady

/-! ## All writers -/

/-- A call of a writer. -/
inductive Write where
  | createRecord (zone : Zone) (fields : RecordFields) (forcePtr : Bool)
  | updateRecord (context : Context) (zone : Zone) (record : Record) (fields : RecordFields)
  | deleteRecord (context : Context) (zone : Zone) (record : Record)
  | importRecords (zone : Zone) (records : List RecordFields)
  | syncPtrForARecord (recordName ip forwardZoneName : Text) (source : Source) (force : Bool)
  | setPtrForIp (context : Context) (ip : Text) (hostname : Option Text) (enabledOnly : Bool)
      (source : Source)
  | reconcileManagedReverseDns (context : Context) (subnetIds : List Nat)
      (maxAddressesPerSubnet : Nat)
  | deleteDynamicDhcpRecordsByIps (context : Context) (addresses : List (Text × Option Nat))
  | cleanupDnsForDeallocatedSubnet (env : Env) (subnet : SubnetRow) (excludeSubnetIds : List Nat)
  | syncDhcpDnsRecords (naming : Naming) (leases : List BackendLease)
  | deleteARecordsByIps (ips : List Text)
  | deleteARecordByIdentity (id : Nat) (ip : Text)

/-- The store after a call, unless it throws. -/
def Write.run (s : Store) : Write → Option Store
  | .createRecord zone fields forcePtr => (s.createRecord zone fields forcePtr).toOption
  | .updateRecord context zone record fields => some (s.updateRecord context zone record fields)
  | .deleteRecord context zone record => some (s.deleteRecord context zone record)
  | .importRecords zone records => some (s.importRecords zone records).store
  | .syncPtrForARecord recordName ip forwardZoneName source force =>
    some (s.syncPtrForARecord recordName ip forwardZoneName source force).1
  | .setPtrForIp context ip hostname enabledOnly source =>
    some (s.setPtrForIp context ip hostname enabledOnly source)
  | .reconcileManagedReverseDns context subnetIds maxAddressesPerSubnet =>
    some (s.reconcileManagedReverseDns context subnetIds maxAddressesPerSubnet)
  | .deleteDynamicDhcpRecordsByIps context addresses =>
      some (s.deleteDynamicDhcpRecordsByIps context addresses)
  | .cleanupDnsForDeallocatedSubnet env subnet excludeSubnetIds =>
    s.cleanupDnsForDeallocatedSubnet env subnet excludeSubnetIds
  | .syncDhcpDnsRecords naming leases => some (LeaseNames.syncDhcpDnsRecords naming s leases).1
  | .deleteARecordsByIps ips => some (s.deleteARecordsByIps ips)
  | .deleteARecordByIdentity id ip => some (s.deleteARecordByIdentity id ip)

/-- The routes look a record up in its zone before they change it. -/
def Write.Called (s : Store) : Write → Prop
  | .updateRecord _ zone record _ | .deleteRecord _ zone record => record ∈ s.records ∧
      record.zoneId = zone.id
  | _ => True

/-- The call changes nothing that it forgets to account for. -/
def Write.Accounts (s : Store) : Write → Prop
  | .syncDhcpDnsRecords naming leases => NothingToWrite naming s leases
  | .deleteARecordsByIps ips => NoneAt s ips
  | .deleteARecordByIdentity id ip => HasTwin s id ip
  | _ => True

/-- **When serials track content.** -/
theorem serials_track_iff {s t : Store} (write : Write) (distinct : s.zoneIds.Nodup)
    (called : write.Called s) (done : write.run s = some t) : SerialsTrack s t ↔
    write.Accounts s := by
  have follows : Follows ∅ s t → (SerialsTrack s t ↔ True) :=
    fun follows => iff_of_true (follows.serialsTrack distinct) trivial
  cases write with
  | createRecord zone fields forcePtr =>
    cases created : s.createRecord zone fields forcePtr with
    | error failure =>
      rw [Write.run, created] at done
      exact absurd done (by simp [Except.toOption])
    | ok after =>
      rw [Write.run, created] at done
      obtain rfl : after = t := Option.some.inj done
      exact follows (follows_createRecord created)
  | updateRecord context zone record fields =>
    obtain rfl := Option.some.inj done
    exact follows (follows_updateRecord called.1 called.2 fields)
  | deleteRecord context zone record =>
    obtain rfl := Option.some.inj done
    refine follows (follows_deleteRecord fun row member same => ?_)
    rw [eq_of_id_eq member called.1 same]
    exact called.2
  | importRecords zone records =>
    obtain rfl := Option.some.inj done
    exact follows (follows_importRecords zone records)
  | syncPtrForARecord recordName ip forwardZoneName source force =>
    obtain rfl := Option.some.inj done
    exact follows (follows_ptrWrite ptrWrite_syncPtrForARecord)
  | setPtrForIp context ip hostname enabledOnly source =>
    obtain rfl := Option.some.inj done
    exact follows (follows_ptrWrite ptrWrite_setPtrForIp)
  | reconcileManagedReverseDns context subnetIds maxAddressesPerSubnet =>
    obtain rfl := Option.some.inj done
    exact follows (follows_reconcileManagedReverseDns subnetIds maxAddressesPerSubnet)
  | deleteDynamicDhcpRecordsByIps context addresses =>
    obtain rfl := Option.some.inj done
    exact follows (follows_deleteDynamicDhcpRecordsByIps addresses)
  | cleanupDnsForDeallocatedSubnet env subnet excludeSubnetIds =>
    exact follows (follows_cleanupDnsForDeallocatedSubnet done)
  | syncDhcpDnsRecords naming leases =>
    obtain rfl := Option.some.inj done
    exact syncDhcpDnsRecords_tracks_iff distinct
  | deleteARecordsByIps ips =>
    obtain rfl := Option.some.inj done
    exact deleteARecordsByIps_tracks_iff distinct
  | deleteARecordByIdentity id ip =>
    obtain rfl := Option.some.inj done
    exact deleteARecordByIdentity_tracks_iff distinct

/-- A record is created in `z.lan`, whose serial goes from 1 to 2. -/
theorem serials_track_sample : ∃ t, (sampleStore ['p', 'c'] ['t', 'v']).createRecord
      ⟨1, "z.lan".toList, .forward, true, 1⟩ ⟨['n', 's'], .a, "10.0.0.9".toList, none⟩
      false = .ok t ∧
    t.zones.map Zone.soaSerial = [2] ∧ SerialsTrack (sampleStore ['p', 'c'] ['t', 'v']) t := by
  have done : ∃ t, (sampleStore ['p', 'c'] ['t', 'v']).createRecord
      ⟨1, "z.lan".toList, .forward, true, 1⟩ ⟨['n', 's'], .a, "10.0.0.9".toList, none⟩ false = .ok
      t ∧ t.zones.map Zone.soaSerial = [2] := ⟨_, rfl, rfl⟩
  obtain ⟨t, created, raised⟩ := done
  refine ⟨t, created, raised,
    (serials_track_iff (.createRecord ⟨1, "z.lan".toList, .forward, true, 1⟩
    ⟨['n', 's'], .a, "10.0.0.9".toList, none⟩ false) (by decide) trivial ?_).mpr trivial⟩
  rw [Write.run, created]
  rfl

/-- A lease named `nas` is published in `z.lan`, and the zone's serial stays. -/
theorem published_lease_keeps_serial : ∃ (s : Store) (naming : Naming) (leases : List BackendLease),
    s.zoneIds.Nodup ∧ ¬ SerialsTrack s (LeaseNames.syncDhcpDnsRecords naming s leases).1 := by
  refine ⟨sampleStore ['p', 'c'] ['t', 'v'], sampleNaming,
    [{ ip := sampleAddr 3, subnetId := some 1, hostname := some "nas".toList }], by decide,
    fun tracks => ?_⟩
  have present := ((syncDhcpDnsRecords_tracks_iff (by decide)).mp tracks).present
    ⟨sampleAddr 3, some "nas".toList, some 1, .dhcp⟩ (by decide) ⟨1, "z.lan".toList, .forward, true⟩
    "nas".toList (by decide)
  revert present
  decide

end Store

end Dns

end Cidrella
