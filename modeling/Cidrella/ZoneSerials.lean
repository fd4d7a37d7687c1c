import Cidrella.Lib.Keyed
import Cidrella.Lib.Versioned
import Cidrella.DnsWrites

/-!
# Serials track content

A zone's serial tells secondaries and caches that its records changed. Whoever writes
records raises the serials of their zones by hand, some at once and some only when all
rows are written; in between the zones are dirty. Here are the writers that leave nothing
dirty behind.
-/

set_option autoImplicit false

namespace Cidrella

open Address DnsNames

namespace Dns

/-- What a record says. -/
abbrev Item := Text × RecordType × Text × Bool

/-- What a record says. -/
def Record.item (record : Record) : Item := (record.name, record.type, record.value, record.enabled)

namespace Store

/-- What the records of a zone say. -/
def content (s : Store) (zoneId : Nat) : Set Item :=
  {item | ∃ record ∈ s.records, record.zoneId = zoneId ∧ record.item = item}

/-- The serial of a zone. -/
def serial (s : Store) (zoneId : Nat) : Nat :=
  ((s.zones.find? (·.id = zoneId)).map Zone.soaSerial).getD 0

/-- The ids of the zones. -/
def zoneIds (s : Store) : List Nat := s.zones.map Zone.id

/-- Zones are the parts of a store. -/
def view : Versioned.View Store Nat (Set Item) := ⟨content, serial⟩

/-- No serial falls, and every zone that is not dirty and says something else has a larger
serial. -/
structure Follows (dirty : Set Nat) (s t : Store) : Prop where
  zoneIds : t.zoneIds = s.zoneIds
  tracks : Versioned.Tracks view (dirty ∪ {id | id ∉ s.zoneIds}) s t

/-! ## Writing and raising -/

section Steps

variable {s t u : Store} {dirty other : Set Nat}

theorem Follows.refl (dirty : Set Nat) (s : Store) : Follows dirty s s := ⟨rfl, .refl _ _ _⟩

theorem Follows.mono (follows : Follows dirty s t) (sub : dirty ⊆ other) : Follows other s t :=
  ⟨follows.zoneIds, follows.tracks.mono (Set.union_subset_union_left _ sub)⟩

theorem Follows.trans (first : Follows dirty s t) (second : Follows other t u) :
    Follows (dirty ∪ other) s u := by
  refine ⟨second.zoneIds.trans first.zoneIds, (first.tracks.trans second.tracks).mono ?_⟩
  rw [first.zoneIds]
  rintro id ((inFirst | missing) | (inSecond | missing))
  · exact .inl (.inl inFirst)
  · exact .inr missing
  · exact .inl (.inr inSecond)
  · exact .inr missing

theorem Follows.step (first : Follows dirty s t) (second : Follows dirty t u) : Follows dirty s u :=
  (first.trans second).mono (Set.union_self dirty).subset

theorem Follows.clean (first : Follows dirty s t) (second : Follows ∅ t u) : Follows dirty s u :=
  first.step (second.mono (Set.empty_subset _))

theorem follows_of_write (zones : t.zones = s.zones) (contents : ∀ id ∉ dirty,
    s.content id = t.content id) :
    Follows dirty s t := by
  have serials : t.serial = s.serial := by
    funext id
    rw [serial, serial, zones]
  refine ⟨by rw [Store.zoneIds, Store.zoneIds, zones], .of_write (fun id => ?_) fun id clean => ?_⟩
  · exact (congrFun serials id).ge
  · exact contents id fun member => clean (.inl member)

theorem follows_insert (record : Record) : Follows {record.zoneId} s (s.insert record) := by
  refine follows_of_write rfl fun id clean => ?_
  have elsewhere : record.zoneId ≠ id := fun same => clean same.symm
  ext item
  simp [content, mem_insert, elsewhere, or_and_right, exists_or]

theorem follows_update {id : Nat} {change : Record → Record}
    (zones : ∀ row ∈ s.records, row.id = id → row.zoneId ∈ dirty ∧ (change row).zoneId ∈ dirty) :
    Follows dirty s (s.update id change) := by
  refine follows_of_write rfl fun zoneId clean => ?_
  ext item
  constructor
  · rintro ⟨record, member, rfl, rfl⟩
    have untouched : record.id ≠ id := fun same => clean (zones record member same).1
    exact ⟨record, mem_update.mpr ⟨record, member, .inl ⟨untouched, rfl⟩⟩, rfl, rfl⟩
  · rintro ⟨record, member, rfl, rfl⟩
    obtain ⟨old, isOld, ⟨-, rfl⟩ | ⟨same, rfl⟩⟩ := mem_update.mp member
    · exact ⟨record, isOld, rfl, rfl⟩
    · exact absurd (zones old isOld same).2 clean

theorem follows_delete {test : Record → Bool} (zones : ∀ row ∈ s.records, test row = true →
    row.zoneId ∈ dirty) :
    Follows dirty s (s.delete test) := by
  refine follows_of_write rfl fun zoneId clean => ?_
  ext item
  constructor
  · rintro ⟨record, member, rfl, rfl⟩
    refine ⟨record, mem_delete.mpr ⟨member, ?_⟩, rfl, rfl⟩
    rw [← Bool.not_eq_true]
    exact fun goes => clean (zones record member goes)
  · rintro ⟨record, member, rfl, rfl⟩
    exact ⟨record, (mem_delete.mp member).1, rfl, rfl⟩

theorem find?_map_zone {change : Zone → Zone} (ids : ∀ zone, (change zone).id = zone.id)
    (zones : List Zone) (id : Nat) :
    (zones.map change).find? (·.id = id) = (zones.find? (·.id = id)).map change := by
  rw [List.find?_map]
  refine congrArg _ (congrArg (fun test => zones.find? test) ?_)
  funext zone
  simp only [Function.comp_apply, ids]

theorem serial_bumpZoneSerial (zoneId id : Nat) :
    (s.bumpZoneSerial zoneId).serial id = if id = zoneId ∧ id ∈ s.zoneIds then s.serial id + 1
    else s.serial id := by
  have ids : ∀ zone : Zone,
      (if zone.id = zoneId then { zone with soaSerial := zone.soaSerial + 1 } else zone).id =
      zone.id := by
    intro zone
    split <;> rfl
  rw [serial, bumpZoneSerial, updateZone, find?_map_zone ids, serial]
  cases found : s.zones.find? (·.id = id) with
  | none =>
    have missing : id ∉ s.zoneIds := by
      intro member
      obtain ⟨zone, isZone, rfl⟩ := List.mem_map.mp member
      exact List.find?_eq_none.mp found zone isZone (decide_eq_true rfl)
    rw [if_neg fun both => missing both.2]
    rfl
  | some zone =>
    have test := List.find?_some found
    have here : zone.id = id := of_decide_eq_true test
    have known : id ∈ s.zoneIds := here ▸ List.mem_map_of_mem (List.mem_of_find?_eq_some found)
    simp only [Option.map_some, Option.getD_some, here, known, and_true]
    split <;> rfl

theorem zoneIds_updateZone {zoneId : Nat} {change : Zone → Zone} (ids : ∀ zone,
    (change zone).id = zone.id) :
    (s.updateZone zoneId change).zoneIds = s.zoneIds := by
  rw [Store.zoneIds, updateZone, List.map_map]
  refine List.map_congr_left fun zone _ => ?_
  dsimp only [Function.comp_apply]
  split
  · exact ids zone
  · rfl

theorem Follows.bump (follows : Follows dirty s t) (id : Nat) :
    Follows (dirty \ {id}) s (t.bumpZoneSerial id) := by
  have raised : Versioned.Tracks view
      ((dirty ∪ {id | id ∉ s.zoneIds}) \ {other | other = id ∧ other ∈ t.zoneIds}) s
      (t.bumpZoneSerial id) := by
    refine follows.tracks.raise rfl (fun other => ?_) ?_
    · change t.serial other ≤ (t.bumpZoneSerial id).serial other
      rw [serial_bumpZoneSerial]
      split <;> omega
    · rintro other ⟨here, known⟩
      change t.serial other < (t.bumpZoneSerial id).serial other
      rw [serial_bumpZoneSerial, if_pos ⟨here, known⟩]
      exact Nat.lt_succ_self _
  have sameIds : (t.bumpZoneSerial id).zoneIds = t.zoneIds := zoneIds_updateZone fun _ => rfl
  refine ⟨sameIds.trans follows.zoneIds, raised.mono ?_⟩
  rintro other ⟨inDirty | missing, notRaised⟩
  · by_cases known : other ∈ s.zoneIds
    · exact .inl ⟨inDirty, fun here => notRaised ⟨here, follows.zoneIds ▸ known⟩⟩
    · exact .inr known
  · exact .inr missing

theorem follows_updateZone {zoneId : Nat} {change : Zone → Zone} (ids : ∀ zone,
    (change zone).id = zone.id) (serials : ∀ zone, (change zone).soaSerial = zone.soaSerial) :
    Follows ∅ s (s.updateZone zoneId change) := by
  have each : ∀ zone : Zone, (if zone.id = zoneId then change zone else zone).id = zone.id := by
    intro zone
    split
    · exact ids zone
    · rfl
  refine ⟨zoneIds_updateZone ids, .of_write (fun id => le_of_eq ?_) fun _ _ => rfl⟩
  change s.serial id = (s.updateZone zoneId change).serial id
  rw [serial, serial, updateZone, find?_map_zone each, Option.map_map]
  refine congrArg (Option.getD · 0) (congrArg (Option.map · _) ?_)
  funext zone
  dsimp only [Function.comp_apply]
  split
  · exact (serials zone).symm
  · rfl

theorem Follows.raise {id : Nat} (follows : Follows {id} s t) :
    Follows ∅ s (t.bumpZoneSerial id) := by
  have raised := follows.bump id
  rwa [Set.sdiff_self] at raised

end Steps

/-! ## Writers that raise what they write -/

section Writers

variable {s t : Store} {context : Context} {ip : Text} {enabledOnly : Bool} {dirty : Set Nat}

theorem follows_deleteId {id : Nat} {zoneId : Nat}
    (zones : ∀ row ∈ s.records, row.id = id → row.zoneId = zoneId) :
    Follows {zoneId} s (s.deleteId id) :=
  follows_delete fun row member goes => zones row member (of_decide_eq_true goes)

theorem follows_removePtr {location : PtrLocation} {row : Record}
    (zones : ∀ other ∈ s.records, other.id = row.id → other.zoneId = location.zone.id) :
    Follows ∅ s (s.removePtr location row) :=
  (follows_deleteId zones).raise

theorem follows_writePtr {location : PtrLocation} {row : Record}
    (isRow : s.ptrRow location = some row) (value : Text) (source : Source) :
    Follows ∅ s (s.writePtr location (some row) value source) := by
  obtain ⟨member, inZone, -, -⟩ := ptrRow_eq_some isRow
  refine Follows.raise (follows_update fun other isOther same => ?_)
  obtain rfl := eq_of_id_eq isOther member same
  exact ⟨inZone, inZone⟩

/-- Every writer of one `PTR` raises the serial of its zone. -/
theorem follows_ptrWrite (write : PtrWrite s ip enabledOnly t) : Follows ∅ s t := by
  cases write with
  | same => exact .refl _ _
  | write location value source found =>
    cases isRow : s.ptrRow location with
    | none => exact (follows_insert _).raise
    | some row => exact follows_writePtr isRow value source
  | remove location row found isRow =>
    obtain ⟨member, inZone, -, -⟩ := ptrRow_eq_some isRow
    refine follows_removePtr fun other isOther same => ?_
    rw [eq_of_id_eq isOther member same]
    exact inZone

theorem follows_createRecord {zone : Zone} {fields : RecordFields} {forcePtr : Bool}
    (done : s.createRecord zone fields forcePtr = .ok t) : Follows ∅ s t := by
  have inserted :
      Follows ∅ s ((s.insert ⟨0, zone.id, normalizeRecordNameForZone fields.name zone.name,
      fields.type, fields.value, .manual, fields.enabled.getD true⟩).bumpZoneSerial zone.id) :=
    (follows_insert _).raise
  unfold createRecord at done
  dsimp only at done
  split at done
  · split at done
    · exact absurd done (by simp)
    · rename_i after result _ synced
      obtain rfl := Except.ok.inj done
      have written := (congrArg Prod.fst synced).symm
      dsimp only at written
      rw [written]
      exact inserted.clean (follows_ptrWrite ptrWrite_syncPtrForARecord)
  · obtain rfl := Except.ok.inj done
    exact inserted

theorem follows_updateRecord {zone : Zone} {record : Record} (member : record ∈ s.records)
    (inZone : record.zoneId = zone.id) (fields : RecordFields) :
    Follows ∅ s (s.updateRecord context zone record fields) := by
  have updated : Follows ∅ s ((s.update record.id fun row =>
      { row with
        name := normalizeRecordNameForZone fields.name zone.name
        type := fields.type
        value := fields.value
        enabled := fields.enabled.getD record.enabled }).bumpZoneSerial zone.id) := by
    refine Follows.raise (follows_update fun row isRow same => ?_)
    rw [eq_of_id_eq isRow member same]
    exact ⟨inZone, inZone⟩
  unfold updateRecord
  dsimp only
  split
  · refine Follows.clean ?_ (follows_ptrWrite ptrWrite_syncPtrForARecord)
    split
    · exact updated.clean (follows_ptrWrite ptrWrite_clearPtrForARecord)
    · exact updated
  · split
    · exact updated.clean (follows_ptrWrite ptrWrite_clearPtrForARecord)
    · exact updated

theorem follows_deleteRecord {zone : Zone} {record : Record}
    (zones : ∀ row ∈ s.records, row.id = record.id → row.zoneId = zone.id) :
    Follows ∅ s (s.deleteRecord context zone record) := by
  have gone : Follows ∅ s ((s.deleteId record.id).bumpZoneSerial zone.id) :=
    (follows_deleteId zones).raise
  unfold deleteRecord
  dsimp only
  split
  · exact gone.clean (follows_ptrWrite ptrWrite_clearPtrForARecord)
  · exact gone

theorem id_of_zoneOf {zone : Zone} {record : Record} (found : s.zoneOf record = some zone) :
    zone.id = record.zoneId := by
  have test := List.find?_some found
  exact of_decide_eq_true test

theorem follows_deleteDynamicDhcpRecord {record : Record}
    (zones : ∀ row ∈ s.records, row.id = record.id → row.zoneId = record.zoneId) :
    Follows ∅ s (s.deleteDynamicDhcpRecord context record) := by
  unfold deleteDynamicDhcpRecord
  split
  · exact .refl _ _
  · rename_i zone isZone
    have deleted : Follows ∅ s (s.deleteRecord context zone record) := by
      refine follows_deleteRecord fun row member same => ?_
      rw [id_of_zoneOf isZone]
      exact zones row member same
    dsimp only
    split
    · exact deleted
    · rename_i location row found
      obtain ⟨location', located, isPtr⟩ := Option.bind_eq_some_iff.mp found
      obtain ⟨ptr, isRow, same⟩ := Option.map_eq_some_iff.mp isPtr
      obtain ⟨rfl, rfl⟩ := Prod.mk.inj same
      have test := List.find?_some isRow
      simp only [Bool.and_eq_true, decide_eq_true_eq] at test
      refine deleted.clean (follows_removePtr fun other isOther sameId => ?_)
      rw [← test.1.1.1]
      exact (within_deleteRecord zone record).zoneId_eq (List.mem_of_find?_eq_some isRow)
        isOther sameId

theorem follows_deleteDynamicDhcpRecordsByIps (addresses : List (Text × Option Nat)) :
    Follows ∅ s (s.deleteDynamicDhcpRecordsByIps context addresses) := by
  -- the matched records are rows of `s`, and no round moves a row to another zone
  have loop : ∀ (records : List Record) (now : Store), (∀ record ∈ records, record ∈ s.records) →
      Within s now → Follows ∅ now
      (records.foldl (fun now record => now.deleteDynamicDhcpRecord context record) now) := by
    intro records
    induction records with
    | nil => exact fun now _ _ => .refl _ _
    | cons record records ih =>
      intro now members within
      have member := members record List.mem_cons_self
      refine Follows.clean (follows_deleteDynamicDhcpRecord fun row isRow same => ?_) (ih _ ?_ ?_)
      · exact within.zoneId_eq member isRow same
      · exact fun other later => members other (List.mem_cons_of_mem _ later)
      · exact within.trans (within_deleteDynamicDhcpRecord record)
  refine loop _ s (fun record matched => ?_) (.refl s)
  rw [List.mem_eraseDups] at matched
  obtain ⟨⟨ip, subnetId⟩, -, isDynamic⟩ := List.mem_flatMap.mp matched
  unfold dynamicDhcpRecords at isDynamic
  cases subnetId with
  | none => exact List.mem_of_mem_filter isDynamic
  | some id => exact List.mem_of_mem_filter isDynamic

end Writers

/-! ## Writers that raise serials at the end -/

section Later

variable {s t : Store} {context : Context} {dirty : Set Nat}

theorem Follows.bumpAll (follows : Follows dirty s t) (ids : List Nat) :
    Follows (dirty \ {id | id ∈ ids}) s (t.bumpAll ids) := by
  induction ids generalizing t dirty with
  | nil => exact follows.mono fun id member => ⟨member, by simp⟩
  | cons first ids ih =>
    refine (ih (follows.bump first)).mono ?_
    rintro id ⟨⟨member, notFirst⟩, notLater⟩
    refine ⟨member, fun inList => ?_⟩
    rcases List.mem_cons.mp inList with here | later
    · exact notFirst here
    · exact notLater later

theorem within_deleteAll (records : List Record) : Within s (s.deleteAll records) := by
  induction records generalizing s with
  | nil => exact .refl s
  | cons record records ih => exact (within_delete _).trans ih

theorem within_bumpAll (ids : List Nat) : Within s (s.bumpAll ids) := by
  induction ids generalizing s with
  | nil => exact .refl s
  | cons id ids ih => exact @ih (s.bumpZoneSerial id)

theorem follows_deleteAll {now : Store} {records : List Record} (members : ∀ record ∈ records,
    record ∈ s.records) (within : Within s now) : Follows {id | id ∈ records.map Record.zoneId} now
    (now.deleteAll records) := by
  induction records generalizing now with
  | nil => exact .refl _ _
  | cons record records ih =>
    have member := members record List.mem_cons_self
    have first : Follows {record.zoneId} now (now.deleteId record.id) :=
      follows_deleteId fun row isRow same => within.zoneId_eq member isRow same
    have later := @ih (now.deleteId record.id)
      (fun other isOther => members other (List.mem_cons_of_mem _ isOther))
      (within.trans (within_delete _))
    refine (first.trans later).mono ?_
    rintro id (rfl | isLater)
    · exact List.mem_cons_self
    · exact List.mem_cons_of_mem _ isLater

/-! ### Importing -/

theorem forall_get_put {κ α : Type} [DecidableEq κ] {items : List (κ × α)} {good : α → Prop}
    {key : κ} {value : α} (each : ∀ other found, Assoc.get items other = some found → good found)
    (new : good value) (other : κ) (found : α) (isIt : Assoc.get (Assoc.put items key value) other =
    some found) : good found := by
  by_cases here : other = key
  · rw [here, Assoc.get_put_self] at isIt
    exact Option.some.inj isIt ▸ new
  · rw [Assoc.get_put_of_ne _ _ here] at isIt
    exact each other found isIt

/-- What `importRecords` knows of is in its zone, and so is what it wrote. -/
structure Importing (s : Store) (zone : Zone) (state : ImportState) : Prop where
  follows : Follows {zone.id} s state.store
  unchanged : state.changed = false → state.store = s
  known : ∀ key found, Assoc.get state.existingByNameType key = some found →
    ∀ row ∈ state.store.records, row.id = found.1 → row.zoneId = zone.id

theorem importing_importStart (zone : Zone) : Importing s zone (s.importStart zone) := by
  refine ⟨.refl _ _, fun _ => rfl, ?_⟩
  have known : ∀ (rows : List Record) (items : List ((RecordType × Text) × (Nat × Text))),
      (∀ row ∈ rows, row ∈ s.records ∧ row.zoneId = zone.id) →
      (∀ key found, Assoc.get items key = some found → ∀ row ∈ s.records, row.id = found.1 →
      row.zoneId = zone.id) → ∀ key found,
        Assoc.get (rows.foldl (fun items row => Assoc.put items (row.type, row.name)
        (row.id, row.value)) items) key = some found → ∀ row ∈ s.records, row.id = found.1 →
        row.zoneId = zone.id := by
    intro rows
    induction rows with
    | nil => exact fun items _ each => each
    | cons first rows ih =>
      intro items members each
      obtain ⟨member, inZone⟩ := members first List.mem_cons_self
      refine ih _ (fun row later => members row (List.mem_cons_of_mem _ later)) ?_
      refine forall_get_put each fun row isRow same => ?_
      rw [eq_of_id_eq isRow member same]
      exact inZone
  refine known _ [] (fun row member => ?_) (by simp)
  rw [List.mem_filter] at member
  exact ⟨member.1, of_decide_eq_true member.2⟩

theorem Importing.step {zone : Zone} {state : ImportState} (importing : Importing s zone state)
    (fields : RecordFields) : Importing s zone (importRecord zone state fields) := by
  obtain ⟨follows, unchanged, known⟩ := importing
  unfold importRecord
  split
  · exact ⟨follows, unchanged, known⟩
  · dsimp only
    split
    · exact ⟨follows, unchanged, known⟩
    · cases existing : Assoc.get state.existingByNameType
          (fields.type, normalizeRecordNameForZone fields.name zone.name) with
      | none =>
        have inserted :
            ∀ row ∈ (state.store.insert
            ⟨0, zone.id, normalizeRecordNameForZone fields.name zone.name, fields.type,
            fields.value, .manual, true⟩).records, row ∈ state.store.records ∨
            row.zoneId = zone.id := by
          intro row isRow
          rcases mem_insert.mp isRow with old | rfl
          · exact .inl old
          · exact .inr rfl
        have inserting := @follows_insert state.store
          ⟨0, zone.id, normalizeRecordNameForZone fields.name zone.name, fields.type,
          fields.value, .manual, true⟩
        refine ⟨follows.step inserting, by simp, forall_get_put ?_ ?_⟩
        · intro key found isIt row isRow same
          rcases inserted row isRow with old | inZone
          · exact known key found isIt row old same
          · exact inZone
        · intro row isRow same
          rcases inserted row isRow with old | inZone
          · have isNext : row.id = state.store.nextId := same
            have taken : row.id ∈ state.store.records.map Record.id := List.mem_map_of_mem old
            exact absurd (isNext ▸ taken) nextId_not_mem
          · exact inZone
      | some found =>
        obtain ⟨id, old⟩ := found
        have within : Within state.store (state.store.update id fun record =>
            { record with value := fields.value }) :=
          within_update fun _ => rfl
        have kept : ∀ key found, Assoc.get state.existingByNameType key = some found →
            ∀ row ∈ (state.store.update id fun record =>
              { record with value := fields.value }).records, row.id = found.1 →
                  row.zoneId = zone.id := by
          intro key found isIt row isRow same
          obtain ⟨before, isBefore, sameId, sameZone⟩ := within row isRow
          rw [← sameZone]
          exact known key found isIt before isBefore (sameId.trans same)
        have updating : Follows {zone.id} state.store
            (state.store.update id fun record => { record with value := fields.value }) := by
          refine follows_update fun row isRow same => ?_
          have inZone := known _ _ existing row isRow same
          exact ⟨inZone, inZone⟩
        refine ⟨follows.step updating, by simp, forall_get_put kept ?_⟩
        exact fun row isRow same => kept _ _ existing row isRow same

theorem follows_importRecords (zone : Zone) (records : List RecordFields) :
    Follows ∅ s (s.importRecords zone records).store := by
  have done : ∀ (records : List RecordFields) (state : ImportState), Importing s zone state →
      Importing s zone (records.foldl (importRecord zone) state) := by
    intro records
    induction records with
    | nil => exact fun _ importing => importing
    | cons fields records ih => exact fun state importing => ih _ (importing.step fields)
  obtain ⟨follows, unchanged, -⟩ := done records _ (importing_importStart zone)
  unfold importRecords
  dsimp only
  split
  · exact follows.raise
  · rename_i same
    rw [unchanged (by simpa using same)]
    exact .refl _ _

/-! ### Reconciling -/

/-- The zones that were written are noted, and no row is gone or in another zone. -/
structure Reconciling (s : Store) (state : ReconcileState) : Prop where
  follows : Follows {id | id ∈ state.changedZones} s state.store
  kept : ∀ row ∈ s.records, ∃ now ∈ state.store.records, now.id = row.id ∧ now.zoneId = row.zoneId

theorem Reconciling.step {state : ReconcileState} (reconciling : Reconciling s state)
    (desired : DesiredPtr) :
    Reconciling s (reconcileStep s state desired) := by
  obtain ⟨follows, kept⟩ := reconciling
  have noted : ∀ {now : Store}, Follows {desired.zoneId} state.store now →
      Follows {id | id ∈ state.changedZones ++ [desired.zoneId]} s now := by
    intro now written
    refine (follows.trans written).mono ?_
    rintro id (old | rfl)
    · exact List.mem_append_left _ old
    · exact List.mem_append_right _ List.mem_cons_self
  unfold reconcileStep reconcilePtr
  cases isRow : s.records.findRev? fun record =>
      record.type = .ptr && record.zoneId = desired.zoneId && record.name = desired.ptrName with
  | none =>
    refine ⟨noted (follows_insert ⟨0, desired.zoneId, desired.ptrName, .ptr, desired.value,
      desired.source, true⟩), ?_⟩
    intro row member
    obtain ⟨now, isNow, same⟩ := kept row member
    exact ⟨now, mem_insert.mpr (.inl isNow), same⟩
  | some current =>
    dsimp only
    split
    · rename_i store writes
      split at writes
      · obtain ⟨rfl, -⟩ := Prod.mk.inj writes
        rw [List.findRev?_eq_find?_reverse] at isRow
        have test := List.find?_some isRow
        simp only [Bool.and_eq_true, decide_eq_true_eq] at test
        have member : current ∈ s.records := List.mem_reverse.mp (List.mem_of_find?_eq_some isRow)
        refine ⟨noted (follows_update fun row isNow same => ?_), ?_⟩
        · obtain ⟨now, isCurrent, sameId, sameZone⟩ := kept current member
          obtain rfl := eq_of_id_eq isNow isCurrent (same.trans sameId.symm)
          have inZone := sameZone.trans test.1.2
          exact ⟨inZone, inZone⟩
        · intro row isRow
          obtain ⟨now, isNow, sameId, sameZone⟩ := kept row isRow
          by_cases here : now.id = current.id
          · exact ⟨_, mem_update.mpr ⟨now, isNow, .inr ⟨here, rfl⟩⟩, sameId, sameZone⟩
          · exact ⟨now, mem_update.mpr ⟨now, isNow, .inl ⟨here, rfl⟩⟩, sameId, sameZone⟩
      · exact absurd (Prod.mk.inj writes).2 (by simp)
    · rename_i store writes
      split at writes
      · exact absurd (Prod.mk.inj writes).2 (by simp)
      · obtain ⟨rfl, -⟩ := Prod.mk.inj writes
        exact ⟨follows, kept⟩

theorem follows_reconcileManagedReverseDns (subnetIds : List Nat) (maxAddressesPerSubnet : Nat) :
    Follows ∅ s (s.reconcileManagedReverseDns context subnetIds maxAddressesPerSubnet) := by
  have loop : ∀ (desired : List DesiredPtr) (state : ReconcileState), Reconciling s state →
      Reconciling s (desired.foldl (reconcileStep s) state) := by
    intro desired
    induction desired with
    | nil => exact fun _ reconciling => reconciling
    | cons first desired ih => exact fun state reconciling => ih _ (reconciling.step first)
  have start : Reconciling s ⟨s, []⟩ := ⟨.refl _ _, fun row member => ⟨row, member, rfl, rfl⟩⟩
  have done := loop (s.desiredPtrs context subnetIds maxAddressesPerSubnet) _ start
  refine (done.follows.bumpAll _).mono ?_
  rintro id ⟨changed, unraised⟩
  exact absurd (List.mem_eraseDups.mpr changed) unraised

/-! ### Deallocating -/

theorem Follows.finish (follows : Follows dirty s t) (zones : List (Zone × Bool)) :
    Follows (dirty \ {id | id ∈ zones.map (·.1.id)}) s (zones.foldl
      (fun s (zone, willDisable) =>
        let s := s.bumpZoneSerial zone.id
        if willDisable then s.updateZone zone.id fun zone => { zone with enabled := false } else s)
            t) := by
  induction zones generalizing t dirty with
  | nil => exact follows.mono fun id member => ⟨member, by simp⟩
  | cons first zones ih =>
    obtain ⟨zone, willDisable⟩ := first
    have raised : Follows (dirty \ {zone.id}) s (if willDisable = true then
        (t.bumpZoneSerial zone.id).updateZone zone.id fun zone => { zone with enabled := false }
        else t.bumpZoneSerial zone.id) := by
      split
      · exact (follows.bump zone.id).clean (follows_updateZone (fun _ => rfl) fun _ => rfl)
      · exact follows.bump zone.id
    refine (ih raised).mono ?_
    rintro id ⟨⟨member, notFirst⟩, notLater⟩
    refine ⟨member, fun inList => ?_⟩
    rcases List.mem_cons.mp inList with here | later
    · exact notFirst here
    · exact notLater later

/-- What a network wrote for itself: generated `PTR`s and address records of the store. -/
theorem mem_of_dnsDeallocationImpact {env : Env} {subnet : SubnetRow} {exclude : List Nat}
    {impact : DeallocationImpact} (found : s.dnsDeallocationImpact env subnet exclude =
    some impact) :
    (∀ record ∈ impact.generatedPtrs, record ∈ s.records ∧ record.source.isGenerated = true) ∧
      ∀ record ∈ impact.generatedAddressRecords, record ∈ s.records ∧
      record.type.isAddress = true := by
  unfold dnsDeallocationImpact at found
  obtain ⟨covered, -, found⟩ := Option.bind_eq_some_iff.mp found
  obtain ⟨addresses, located, found⟩ := Option.bind_eq_some_iff.mp found
  obtain ⟨reverseZones, -, found⟩ := Option.bind_eq_some_iff.mp found
  obtain rfl := Option.some.inj found
  constructor
  · intro record member
    obtain ⟨isRecord, test⟩ := List.mem_filter.mp member
    simp only [Bool.and_eq_true, decide_eq_true_eq] at test
    refine ⟨isRecord, ?_⟩
    have generated := test.1.2
    simp only [List.mem_cons, List.not_mem_nil, or_false] at generated
    rcases generated with source | source | source <;> rw [source] <;> rfl
  · intro record member
    obtain ⟨⟨row, addr⟩, isRow, chosen⟩ := List.mem_filterMap.mp member
    obtain ⟨old, isOld, read⟩ := exists_of_mem_mapM located isRow
    obtain ⟨_, -, pair⟩ := Option.map_eq_some_iff.mp read
    obtain ⟨rfl, -⟩ := Prod.mk.inj pair
    dsimp only at chosen
    split at chosen
    · obtain rfl := Option.some.inj chosen
      obtain ⟨isRecord, test⟩ := List.mem_filter.mp isOld
      simp only [Bool.and_eq_true] at test
      exact ⟨isRecord, test.1⟩
    · exact absurd chosen (by simp)

theorem follows_cleanupDnsForDeallocatedSubnet {env : Env} {subnet : SubnetRow} {exclude : List Nat}
    (done : s.cleanupDnsForDeallocatedSubnet env subnet exclude = some t) : Follows ∅ s t := by
  obtain ⟨impact, found, done⟩ := Option.bind_eq_some_iff.mp done
  obtain rfl := Option.some.inj done
  obtain ⟨ptrs, addresses⟩ := mem_of_dnsDeallocationImpact found
  have first := follows_deleteAll (fun record member => (ptrs record member).1) (.refl s)
  have within : Within s (s.deleteAll impact.generatedPtrs) := within_deleteAll _
  have raised := first.bumpAll ((impact.generatedPtrs.map Record.zoneId).eraseDups.filter
    (· ∉ impact.reverseZones.map (·.1.id)))
  have second := follows_deleteAll (fun record member => (addresses record member).1)
    (within.trans
    (within_bumpAll ((impact.generatedPtrs.map Record.zoneId).eraseDups.filter
    (· ∉ impact.reverseZones.map (·.1.id)))))
  have both :=
    (raised.trans second).bumpAll (impact.generatedAddressRecords.map Record.zoneId).eraseDups
  refine (both.finish impact.reverseZones).mono ?_
  rintro id ⟨⟨⟨ptrZone, unraised⟩ | address, notAddress⟩, notReverse⟩
  · refine unraised (List.mem_filter.mpr ⟨List.mem_eraseDups.mpr ptrZone, ?_⟩)
    simpa using notReverse
  · exact notAddress (List.mem_eraseDups.mpr address)

end Later

end Store

end Dns

end Cidrella
