import Cidrella.ReverseDns

/-!
# What the writers of DNS rows do

One lemma for each writer of `PTR` rows: it leaves the store alone, writes the row of the
address's reverse location, or takes that row out. What later modules show about serials
and about an operator's rows rests on these.
-/

set_option autoImplicit false

namespace Cidrella

open Address DnsNames

namespace Dns

namespace Store

/-! ## Rows -/

section Rows

variable {s : Store} {record row : Record} {id : Nat} {change : Record → Record}
    {test : Record → Bool}

theorem eq_of_id_eq (member : record ∈ s.records) (isRow : row ∈ s.records)
    (same : record.id = row.id) :
    record = row :=
  List.inj_on_of_nodup_map s.ids member isRow same

theorem mem_insert : record ∈ (s.insert row).records ↔ record ∈ s.records ∨
    record = { row with id := s.nextId } := by
  simp [insert]

theorem mem_update : record ∈ (s.update id change).records ↔ ∃ old ∈ s.records,
    (old.id ≠ id ∧ record = old) ∨ (old.id = id ∧ record = { change old with id := old.id }) := by
  simp only [update, List.mem_map]
  refine exists_congr fun old => and_congr_right fun _ => ?_
  by_cases here : old.id = id
  · simp only [here, if_true, ne_eq, not_true, false_and, false_or, true_and]
    exact eq_comm
  · simp only [here, if_false, ne_eq, not_false_iff, true_and, false_and, or_false]
    exact eq_comm

theorem mem_delete : record ∈ (s.delete test).records ↔ record ∈ s.records ∧
    test record = false := by
  simp [delete]

theorem mem_deleteId : record ∈ (s.deleteId id).records ↔ record ∈ s.records ∧ record.id ≠ id := by
  simp [deleteId, delete]

@[simp] theorem records_bumpZoneSerial (zoneId : Nat) : (s.bumpZoneSerial zoneId).records =
    s.records := rfl

@[simp] theorem zones_insert (record : Record) : (s.insert record).zones = s.zones := rfl

@[simp] theorem zones_update : (s.update id change).zones = s.zones := rfl

@[simp] theorem zones_deleteId : (s.deleteId id).zones = s.zones := rfl

theorem nextId_not_mem : s.nextId ∉ s.records.map Record.id := freshId_not_mem _

end Rows

/-! ## Where a `PTR` is -/

section Locations

variable {s : Store} {ip : Text} {enabledOnly : Bool} {location : PtrLocation} {row : Record}

theorem findReversePtrLocation_eq_some (found : s.findReversePtrLocation ip enabledOnly =
    some location) :
    location.zone ∈ s.zones ∧ location.zone.type = .reverse := by
  obtain ⟨candidate, -, located⟩ := List.exists_of_findSome?_eq_some found
  obtain ⟨zone, isZone, rfl⟩ := Option.map_eq_some_iff.mp located
  have test := List.find?_some isZone
  simp only [Bool.and_eq_true, decide_eq_true_eq] at test
  exact ⟨List.mem_of_find?_eq_some isZone, test.1.1⟩

theorem ptrRow_eq_some (found : s.ptrRow location = some row) : row ∈ s.records ∧
    row.zoneId = location.zone.id ∧ row.type = .ptr ∧ row.name = location.ptrName := by
  have test := List.find?_some found
  simp only [Bool.and_eq_true, decide_eq_true_eq] at test
  exact ⟨List.mem_of_find?_eq_some found, test.1.1, test.1.2, test.2⟩

end Locations

/-! ## One `PTR` -/

/-- What a writer of one `PTR` does: nothing, or it writes or removes the row at a location. -/
inductive PtrWrite (s : Store) (ip : Text) (enabledOnly : Bool) : Store → Prop
  | same : PtrWrite s ip enabledOnly s
  | write (location : PtrLocation) (value : Text) (source : Source)
      (found : s.findReversePtrLocation ip enabledOnly = some location) :
      PtrWrite s ip enabledOnly (s.writePtr location (s.ptrRow location) value source)
  | remove (location : PtrLocation) (row : Record)
      (found : s.findReversePtrLocation ip enabledOnly = some location)
      (isRow : s.ptrRow location = some row) :
      PtrWrite s ip enabledOnly (s.removePtr location row)

section Writers

variable {s : Store} {context : Context} {ip recordName forwardZoneName : Text} {source : Source}
    {force : Bool}
variable {enabledOnly : Bool} {hostname : Option Text}

/-- `syncPtrForARecord` writes the row of the address unless the row names something else. -/
theorem syncPtrForARecord_cases :
    (s.syncPtrForARecord recordName ip forwardZoneName source force).1 = s ∨ ∃ location,
      s.findReversePtrLocation ip true = some location ∧
        (∀ existing, s.ptrRow location = some existing → force = false → ptrConflicts existing ip
        (fqdnForRecordName recordName forwardZoneName) forwardZoneName = false) ∧
      (s.syncPtrForARecord recordName ip forwardZoneName source force).1 =
        s.writePtr location (s.ptrRow location) (fqdnForRecordName recordName forwardZoneName)
        source := by
  unfold syncPtrForARecord
  cases found : s.findReversePtrLocation ip true with
  | none => exact .inl rfl
  | some location =>
    cases isRow : s.ptrRow location with
    | none => exact .inr ⟨location, rfl, by simp [isRow], by simp [isRow]⟩
    | some existing =>
      dsimp only
      rw [isRow]
      dsimp only
      split
      · exact .inl rfl
      · rename_i unforced
        split
        · exact .inl rfl
        · refine .inr ⟨location, rfl, ?_, by rw [isRow]⟩
          intro row same notForced
          obtain rfl := Option.some.inj (isRow.symm.trans same)
          simpa [notForced] using unforced

theorem ptrWrite_syncPtrForARecord :
    PtrWrite s ip true (s.syncPtrForARecord recordName ip forwardZoneName source force).1 := by
  rcases @syncPtrForARecord_cases s ip recordName forwardZoneName source
    force with same | ⟨location, found, -, written⟩
  · rw [same]
    exact .same
  · rw [written]
    exact .write location _ _ found

theorem ptrWrite_setPtrForIp : PtrWrite s ip enabledOnly
    (s.setPtrForIp context ip hostname enabledOnly source) := by
  unfold setPtrForIp
  cases found : s.findReversePtrLocation ip enabledOnly with
  | none => exact .same
  | some location =>
    dsimp only
    cases isRow : s.ptrRow location with
    | none =>
      have written : s.writePtr location none = s.writePtr location
          (s.ptrRow location) := by rw [isRow]
      dsimp only
      split
      · exact .same
      · split
        · exact .same
        · rw [written]
          exact .write location _ _ found
    | some row =>
      have written : s.writePtr location (some row) = s.writePtr location
          (s.ptrRow location) := by rw [isRow]
      dsimp only
      split
      · exact .remove location row found isRow
      · split
        · exact .same
        · rw [written]
          exact .write location _ _ found

theorem clearPtrForARecord_cases : s.clearPtrForARecord context recordName ip forwardZoneName = s ∨
    ∃ location existing, s.findReversePtrLocation ip true = some location ∧
      s.ptrRow location = some existing ∧ toLowerCase existing.value = toLowerCase
      (fqdnForRecordName recordName forwardZoneName) ∧ s.clearPtrForARecord context recordName ip
      forwardZoneName = s.clearPtrForIp context ip := by
  unfold clearPtrForARecord
  cases found : s.findReversePtrLocation ip true with
  | none => exact .inl rfl
  | some location =>
    dsimp only
    cases isRow : s.ptrRow location with
    | none => exact .inl rfl
    | some existing =>
      dsimp only
      split
      · exact .inl rfl
      · rename_i named
        exact .inr ⟨location, existing, rfl, isRow, not_not.mp named, rfl⟩

theorem ptrWrite_clearPtrForARecord :
    PtrWrite s ip true (s.clearPtrForARecord context recordName ip forwardZoneName) := by
  rcases @clearPtrForARecord_cases s context ip recordName forwardZoneName with same | ⟨_, _, _,
    _, _, cleared⟩
  · rw [same]
    exact .same
  · rw [cleared]
    exact ptrWrite_setPtrForIp

/-- Clearing the `PTR` of a record rewrites or removes a row that names the record. -/
theorem clearPtrForARecord_row : s.clearPtrForARecord context recordName ip forwardZoneName = s ∨
    ∃ location row, s.findReversePtrLocation ip true = some location ∧
      s.ptrRow location = some row ∧ toLowerCase row.value = toLowerCase
      (fqdnForRecordName recordName forwardZoneName) ∧
        (s.clearPtrForARecord context recordName ip forwardZoneName = s.removePtr location row ∨
          ∃ value source, s.clearPtrForARecord context recordName ip forwardZoneName = s.writePtr
          location (some row) value source) := by
  rcases @clearPtrForARecord_cases s context ip recordName forwardZoneName with
    same | ⟨location, row, found, isRow, named, cleared⟩
  · exact .inl same
  · rw [cleared]
    have write : PtrWrite s ip true (s.clearPtrForIp context ip) := ptrWrite_setPtrForIp
    generalize s.clearPtrForIp context ip = after at write
    cases write with
    | same => exact .inl rfl
    | write location' value source found' =>
      obtain rfl := Option.some.inj (found.symm.trans found')
      exact .inr ⟨location, row, found, isRow, named, .inr ⟨value, source, by rw [isRow]⟩⟩
    | remove location' row' found' isRow' =>
      obtain rfl := Option.some.inj (found.symm.trans found')
      obtain rfl := Option.some.inj (isRow.symm.trans isRow')
      exact .inr ⟨location, row, found, isRow, named, .inl rfl⟩

end Writers

/-! ## Rows keep their zones -/

/-- Every row was there before, in its zone. -/
def Within (s t : Store) : Prop := ∀ row ∈ t.records, ∃ old ∈ s.records, old.id = row.id ∧
    old.zoneId = row.zoneId

section Within

variable {s t u : Store} {context : Context} {record row : Record}

theorem Within.refl (s : Store) : Within s s := fun row member => ⟨row, member, rfl, rfl⟩

theorem Within.trans (first : Within s t) (second : Within t u) : Within s u := by
  intro row member
  obtain ⟨middle, isMiddle, sameId, sameZone⟩ := second row member
  obtain ⟨old, isOld, oldId, oldZone⟩ := first middle isMiddle
  exact ⟨old, isOld, oldId.trans sameId, oldZone.trans sameZone⟩

theorem Within.zoneId_eq (within : Within s t) (isOld : record ∈ s.records)
    (member : row ∈ t.records) (same : row.id = record.id) : row.zoneId = record.zoneId := by
  obtain ⟨old, isRow, sameId, sameZone⟩ := within row member
  rw [← sameZone, eq_of_id_eq isRow isOld (sameId.trans same)]

theorem within_delete (test : Record → Bool) : Within s (s.delete test) :=
  fun row member => ⟨row, (mem_delete.mp member).1, rfl, rfl⟩

theorem within_update {id : Nat} {change : Record → Record} (zones : ∀ row,
    (change row).zoneId = row.zoneId) :
    Within s (s.update id change) := by
  intro row member
  obtain ⟨old, isOld, ⟨-, rfl⟩ | ⟨-, rfl⟩⟩ := mem_update.mp member
  · exact ⟨row, isOld, rfl, rfl⟩
  · exact ⟨old, isOld, rfl, (zones old).symm⟩

theorem within_removePtr (location : PtrLocation) (row : Record) :
    Within s (s.removePtr location row) :=
  within_delete _

theorem within_writePtr (location : PtrLocation) (row : Record) (value : Text) (source : Source) :
    Within s (s.writePtr location (some row) value source) :=
  within_update fun _ => rfl

theorem within_clearPtrForARecord (recordName ip forwardZoneName : Text) :
    Within s (s.clearPtrForARecord context recordName ip forwardZoneName) := by
  rcases @clearPtrForARecord_row s context ip recordName forwardZoneName with
    same | ⟨location, row, -, -, -, removed | ⟨value, source, written⟩⟩
  · rw [same]
    exact .refl s
  · rw [removed]
    exact within_removePtr location row
  · rw [written]
    exact within_writePtr location row value source

theorem within_deleteRecord (zone : Zone) (record : Record) :
    Within s (s.deleteRecord context zone record) := by
  have gone : Within s ((s.deleteId record.id).bumpZoneSerial zone.id) := within_delete _
  unfold deleteRecord
  dsimp only
  split
  · exact gone.trans (within_clearPtrForARecord _ _ _)
  · exact gone

theorem within_deleteDynamicDhcpRecord (record : Record) :
    Within s (s.deleteDynamicDhcpRecord context record) := by
  unfold deleteDynamicDhcpRecord
  split
  · exact .refl s
  · dsimp only
    split
    · exact within_deleteRecord _ _
    · exact (within_deleteRecord _ _).trans (within_removePtr _ _)

end Within

end Store

end Dns

end Cidrella
