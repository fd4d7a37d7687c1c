import Cidrella.DhcpDnsRecords
import Cidrella.RecordNames
import Cidrella.UniqueNames
import Cidrella.ZoneSerials

/-!
# An operator's `PTR`

A `PTR` row that an operator wrote, which names a host, is an override: the application is
to leave it alone when it writes and removes names of its own. Its writers guard such rows
in different ways, by value, by source or not at all. Over any run of them an override
stays as it is as long as no step clears the DNS of its address, none publishes a lease at
its address into a forward zone that its own value is in, and its value is not blank where
reverse DNS is reconciled (`override_survives`).
-/

set_option autoImplicit false

namespace Cidrella

open Address DnsNames

namespace Dns

open LeaseNames

/-- `ptrSourceForCanonical`. -/
def ptrSourceForCanonical (canonical : CanonicalHostname) : Source :=
  match truthy canonical.hostname with
  | none => .placeholder
  | some _ =>
    match canonical.source with
    | some .dhcpReservation => .reservation
    | some .dhcpLease => .dhcp
    | _ => .dns

namespace Store

/-- `clearDnsFromIp`, the reverse record. -/
def clearDnsFromIp (s : Store) (context : Context) (addr : Addr) : Store :=
  match context.env.findSubnetForIp addr with
  | none => s
  | some subnet =>
    let canonical := context.ips.resolveCanonicalHostname context.env context.now subnet.id addr
    s.setPtrForIp context addr.text (some ((truthy canonical.hostname).getD addr.text)) true
      (ptrSourceForCanonical canonical)

end Store

/-- A call of one of the writers that run on their own. -/
inductive Automatic where
  | reconcileManagedReverseDns (context : Context) (subnetIds : List Nat)
      (maxAddressesPerSubnet : Nat)
  | clearDnsFromIp (context : Context) (recordName : Text) (addr : Addr) (zoneName : Text)
  | clearPtrForARecord (context : Context) (recordName ip forwardZoneName : Text)
  | dropUnallocatedIpv6Ptr (context : Context) (ip : Text)
  | deleteDynamicDhcpRecordsByIps (context : Context) (addresses : List (Text × Option Nat))
  | syncDhcpDnsRecords (naming : Naming) (leases : List BackendLease)
  | cleanupDnsForDeallocatedSubnet (env : Env) (subnet : SubnetRow) (excludeSubnetIds : List Nat)

namespace Automatic

/-- The store after a call. One that throws writes nothing. -/
def run (s : Store) : Automatic → Store
  | .reconcileManagedReverseDns context subnetIds maxAddressesPerSubnet =>
    s.reconcileManagedReverseDns context subnetIds maxAddressesPerSubnet
  | .clearDnsFromIp context _ addr _ => s.clearDnsFromIp context addr
  | .clearPtrForARecord context recordName ip forwardZoneName =>
    s.clearPtrForARecord context recordName ip forwardZoneName
  | .dropUnallocatedIpv6Ptr context ip => s.dropUnallocatedIpv6Ptr context ip
  | .deleteDynamicDhcpRecordsByIps context addresses => s.deleteDynamicDhcpRecordsByIps
      context addresses
  | .syncDhcpDnsRecords naming leases => (LeaseNames.syncDhcpDnsRecords naming s leases).1
  | .cleanupDnsForDeallocatedSubnet env subnet excludeSubnetIds =>
    (s.cleanupDnsForDeallocatedSubnet env subnet excludeSubnetIds).getD s

end Automatic

/-- A `PTR` of the operator that names something: no address, and not from the application. -/
structure IsOverride (row : Record) : Prop where
  type : row.type = .ptr
  value : isValidAddress row.value = false
  source : row.source.isGenerated = false

/-- The row's value is a name, up to case and white space around it. -/
def Says (row : Record) (fqdn : Text) : Prop :=
  toLowerCase row.value = toLowerCase fqdn ∨ toLowerCase (trim row.value) = toLowerCase fqdn

/-- The records that `deleteDynamicDhcpRecordsByIps` deletes. -/
def dynamicRecords (s : Store) (context : Context) (addresses : List (Text × Option Nat)) :
    List Record :=
  (addresses.flatMap fun (ip, subnetId) => s.dynamicDhcpRecords context.env ip subnetId).eraseDups

namespace Automatic

/-- The row's value is the name of a record or a lease that a call writes or removes. -/
def Names (s : Store) (row : Record) : Automatic → Prop
  | .reconcileManagedReverseDns context subnetIds maxAddressesPerSubnet =>
    ∃ desired ∈ s.desiredPtrs context subnetIds maxAddressesPerSubnet, Says row desired.value
  | .clearDnsFromIp _ recordName _ zoneName => Says row (fqdnForRecordName recordName zoneName)
  | .clearPtrForARecord _ recordName _ forwardZoneName =>
      Says row (fqdnForRecordName recordName forwardZoneName)
  | .dropUnallocatedIpv6Ptr _ _ => False
  | .deleteDynamicDhcpRecordsByIps context addresses =>
    ∃ record ∈ dynamicRecords s context addresses, ∃ zone ∈ zoneRefs s, zone.id = record.zoneId ∧
      Says row (fqdnForRecordName record.name zone.name)
  | .syncDhcpDnsRecords naming leases =>
    (∃ entry ∈ entries naming.env leases, ∃ zone name, publishedAs naming (zoneRefs s) entry =
      some (zone, name) ∧ Says row (fqdnForRecordName name zone.name)) ∨
    ∃ stale ∈ staleRecords (syncEntries naming s leases),
      Says row (fqdnForRecordName stale.1.name stale.2.name)
  | .cleanupDnsForDeallocatedSubnet _ _ _ => False

/-- A value under a zone or the zone's own. -/
def InZone (value zoneName : Text) : Prop :=
  endsWith (toLowerCase value) ('.' :: toLowerCase zoneName) = true ∨
    toLowerCase value = toLowerCase zoneName

/-- The row is where an address answers in reverse. -/
def AnswersFor (s : Store) (row : Record) (ip : Text) : Prop :=
  ∃ location, s.findReversePtrLocation ip true = some location ∧ row.zoneId = location.zone.id ∧
    row.name = location.ptrName

/-- A call that leaves an override alone: it does not clear the DNS of the row's address in a
known network, it publishes no entry at the row's address into a forward zone that the row's
value is in, and the value is not blank when it reconciles or publishes. -/
def Spares (s : Store) (row : Record) : Automatic → Prop
  | .reconcileManagedReverseDns _ _ _ => trim row.value ≠ []
  | .clearDnsFromIp context _ addr _ =>
    (context.env.findSubnetForIp addr).isSome → ∀ location, s.findReversePtrLocation addr.text
      true = some location → s.ptrRow location ≠ some row
  | .syncDhcpDnsRecords naming leases =>
    row.value ≠ [] ∧ ∀ entry ∈ entries naming.env leases, ∀ zone name,
      publishedAs naming (zoneRefs s) entry = some (zone, name) → AnswersFor s row entry.ip.text →
        ¬ InZone row.value zone.name
  | _ => True

end Automatic

/-! ## Each writer -/

section Writers

variable {s t : Store} {context : Context} {row other : Record} {location : PtrLocation}

namespace Store

theorem mem_update_of_ne {id : Nat} {change : Record → Record} (member : row ∈ s.records)
    (differs : row.id ≠ id) :
    row ∈ (s.update id change).records :=
  mem_update.mpr ⟨row, member, .inl ⟨differs, rfl⟩⟩

theorem mem_deleteId_of_ne (member : row ∈ s.records) (isOther : other ∈ s.records)
    (differs : row ≠ other) :
    row ∈ (s.deleteId other.id).records :=
  mem_deleteId.mpr ⟨member, fun same => differs (eq_of_id_eq member isOther same)⟩

/-- A `PTR` is written elsewhere. -/
theorem mem_writePtr (member : row ∈ s.records) (elsewhere : s.ptrRow location ≠ some row)
    (value : Text) (source : Source) :
    row ∈ (s.writePtr location (s.ptrRow location) value source).records := by
  cases isRow : s.ptrRow location with
  | none => exact mem_insert.mpr (.inl member)
  | some existing =>
    refine mem_update_of_ne member fun same => elsewhere ?_
    rw [isRow, eq_of_id_eq member (ptrRow_eq_some isRow).1 same]

/-- A `PTR` is removed elsewhere. -/
theorem mem_removePtr (member : row ∈ s.records) (isOther : other ∈ s.records)
    (differs : row ≠ other) :
    row ∈ (s.removePtr location other).records :=
  mem_deleteId_of_ne member isOther differs

theorem mem_setPtrForIp {ip : Text} {hostname : Option Text} {source : Source} {enabledOnly : Bool}
    (member : row ∈ s.records)
    (elsewhere : ∀ location, s.findReversePtrLocation ip enabledOnly = some location →
    s.ptrRow location ≠ some row) :
    row ∈ (s.setPtrForIp context ip hostname enabledOnly source).records := by
  have write : PtrWrite s ip enabledOnly (s.setPtrForIp context ip hostname enabledOnly source) :=
    ptrWrite_setPtrForIp
  generalize s.setPtrForIp context ip hostname enabledOnly source = after at write
  cases write with
  | same => exact member
  | write location value source found =>
      exact mem_writePtr member (elsewhere location found) value source
  | remove location existing found isRow =>
    refine mem_removePtr member (ptrRow_eq_some isRow).1 fun same => elsewhere location found ?_
    rw [isRow, same]

theorem mem_clearPtrForARecord {recordName ip forwardZoneName : Text} (member : row ∈ s.records)
    (unnamed : ¬ Says row (fqdnForRecordName recordName forwardZoneName)) :
    row ∈ (s.clearPtrForARecord context recordName ip forwardZoneName).records := by
  rcases @clearPtrForARecord_row s context ip recordName forwardZoneName with
    same | ⟨location, existing, -, isRow, named, removed | ⟨value, source, written⟩⟩
  · rw [same]
    exact member
  all_goals
    have differs : row ≠ existing := by
      rintro rfl
      exact unnamed (.inl named)
  · rw [removed]
    exact mem_removePtr member (ptrRow_eq_some isRow).1 differs
  · rw [written]
    exact mem_update_of_ne member fun same =>
      differs (eq_of_id_eq member (ptrRow_eq_some isRow).1 same)

theorem mem_dropUnallocatedIpv6Ptr {ip : Text} (member : row ∈ s.records)
    (value : isValidAddress row.value = false) :
    row ∈ (s.dropUnallocatedIpv6Ptr context ip).records := by
  unfold dropUnallocatedIpv6Ptr
  split
  · exact member
  · split
    · exact member
    · split
      · exact member
      · rename_i existing isRow
        split
        · rename_i address
          refine mem_removePtr member (ptrRow_eq_some isRow).1 ?_
          rintro rfl
          rw [value] at address
          exact absurd address (by simp)
        · exact member

theorem mem_deleteRecord {zone : Zone} {record : Record} (member : row ∈ s.records)
    (differs : row.id ≠ record.id)
    (unnamed : ¬ Says row (fqdnForRecordName record.name zone.name)) :
    row ∈ (s.deleteRecord context zone record).records := by
  have kept : row ∈ ((s.deleteId record.id).bumpZoneSerial zone.id).records :=
    mem_deleteId.mpr ⟨member, differs⟩
  unfold deleteRecord
  dsimp only
  split
  · exact mem_clearPtrForARecord kept unnamed
  · exact kept

end Store

open Store

theorem isValidAddress_trim (text : Text) : isValidAddress (trim text) = isValidAddress text := by
  unfold isValidAddress parseIp
  rw [trim_trim]

theorem IsOverride.not_isGeneratedRow (override : IsOverride row) (solid : trim row.value ≠ [])
    {desired : DesiredPtr} (unnamed : ¬ Says row desired.value) :
    isGeneratedRow row desired = false := by
  have differs : toLowerCase (trim row.value) ≠ toLowerCase desired.value :=
    fun same => unnamed (.inr same)
  simp [isGeneratedRow, solid, isValidAddress_trim, override.value, override.source, differs]

theorem mem_reconcileStep {state : ReconcileState} {desired : DesiredPtr}
    (override : IsOverride row) (solid : trim row.value ≠ []) (old : row ∈ s.records)
    (unnamed : ¬ Says row desired.value) (member : row ∈ state.store.records) :
    row ∈ (reconcileStep s state desired).store.records := by
  have kept : row ∈ (s.reconcilePtr state.store desired).1.records := by
    unfold reconcilePtr
    split
    · exact mem_insert.mpr (.inl member)
    · rename_i current isCurrent
      split
      · rename_i writes
        refine mem_update_of_ne member fun same => ?_
        rw [List.findRev?_eq_find?_reverse] at isCurrent
        have isOld : current ∈ s.records :=
          List.mem_reverse.mp (List.mem_of_find?_eq_some isCurrent)
        rw [← eq_of_id_eq old isOld same, override.not_isGeneratedRow solid unnamed] at writes
        exact absurd writes (by simp)
      · exact member
  unfold reconcileStep
  split
  · rename_i store result
    rw [result] at kept
    exact kept
  · rename_i store result
    rw [result] at kept
    exact kept

theorem records_bumpAll (ids : List Nat) : (s.bumpAll ids).records = s.records := by
  induction ids generalizing s with
  | nil => rfl
  | cons id ids ih => exact @ih (s.bumpZoneSerial id)

theorem mem_reconcileManagedReverseDns {subnetIds : List Nat} {maxAddressesPerSubnet : Nat}
    (override : IsOverride row) (solid : trim row.value ≠ []) (member : row ∈ s.records)
    (unnamed : ∀ desired ∈ s.desiredPtrs context subnetIds maxAddressesPerSubnet,
    ¬ Says row desired.value) :
    row ∈ (s.reconcileManagedReverseDns context subnetIds maxAddressesPerSubnet).records := by
  have loop : ∀ (desired : List DesiredPtr) (state : ReconcileState),
      (∀ ptr ∈ desired, ¬ Says row ptr.value) → row ∈ state.store.records →
      row ∈ (desired.foldl (reconcileStep s) state).store.records := by
    intro desired
    induction desired with
    | nil => exact fun _ _ member => member
    | cons first desired ih =>
      intro state each isRow
      refine ih _ (fun ptr later => each ptr (List.mem_cons_of_mem _ later)) ?_
      exact mem_reconcileStep override solid member (each first List.mem_cons_self) isRow
  have done := loop _ ⟨s, []⟩ unnamed member
  have raised : (s.reconcileManagedReverseDns context subnetIds maxAddressesPerSubnet).records =
      ((s.desiredPtrs context subnetIds maxAddressesPerSubnet).foldl (reconcileStep s)
      ⟨s, []⟩).store.records :=
    records_bumpAll _
  rw [raised]
  exact done

/-! ### Lease records -/

theorem zoneRefs_deleteRecord (zone : Zone) (record : Record) :
    zoneRefs (s.deleteRecord context zone record) = zoneRefs s := by
  have gone : zoneRefs ((s.deleteId record.id).bumpZoneSerial zone.id) = zoneRefs s :=
    (zoneRefs_bumpZoneSerial _).trans (zoneRefs_eq zones_deleteId)
  unfold deleteRecord
  dsimp only
  split
  · exact (forwardRows_ptrWrite ptrWrite_clearPtrForARecord).1.trans gone
  · exact gone

theorem zoneRefs_deleteDynamicDhcpRecord (record : Record) :
    zoneRefs (s.deleteDynamicDhcpRecord context record) = zoneRefs s := by
  unfold deleteDynamicDhcpRecord
  split
  · rfl
  · dsimp only
    split
    · exact zoneRefs_deleteRecord _ _
    · exact (zoneRefs_bumpZoneSerial _).trans
        ((zoneRefs_eq zones_deleteId).trans (zoneRefs_deleteRecord _ _))

theorem mem_deleteDynamicDhcpRecord {record : Record} (member : row ∈ s.records)
    (differs : row.id ≠ record.id) (unnamed : ∀ zone ∈ zoneRefs s, zone.id = record.zoneId →
    ¬ Says row (fqdnForRecordName record.name zone.name)) :
    row ∈ (s.deleteDynamicDhcpRecord context record).records := by
  unfold deleteDynamicDhcpRecord
  split
  · exact member
  · rename_i zone isZone
    have notNamed : ¬ Says row (fqdnForRecordName record.name zone.name) :=
      unnamed (zoneRef zone) (List.mem_map_of_mem (List.mem_of_find?_eq_some isZone))
        (id_of_zoneOf isZone)
    have kept : row ∈ (s.deleteRecord context zone record).records :=
      mem_deleteRecord member differs notNamed
    dsimp only
    split
    · exact kept
    · rename_i location ptr found
      obtain ⟨location', -, isPtr⟩ := Option.bind_eq_some_iff.mp found
      obtain ⟨existing, isRow, same⟩ := Option.map_eq_some_iff.mp isPtr
      obtain ⟨rfl, rfl⟩ := Prod.mk.inj same
      have test := List.find?_some isRow
      simp only [Bool.and_eq_true, decide_eq_true_eq] at test
      refine mem_deleteId.mpr ⟨kept, fun sameId => notNamed (.inl ?_)⟩
      rw [eq_of_id_eq member (List.mem_of_find?_eq_some isRow) sameId]
      exact test.2

theorem mem_dynamicRecords {addresses : List (Text × Option Nat)} {record : Record}
    (member : record ∈ dynamicRecords s context addresses) : record ∈ s.records ∧
    record.type.isAddress = true := by
  rw [dynamicRecords, List.mem_eraseDups] at member
  obtain ⟨⟨ip, subnetId⟩, -, isDynamic⟩ := List.mem_flatMap.mp member
  unfold dynamicDhcpRecords at isDynamic
  cases subnetId with
  | none =>
    obtain ⟨isRecord, test⟩ := List.mem_filter.mp isDynamic
    simp only [Bool.and_eq_true] at test
    exact ⟨isRecord, test.1.1.1⟩
  | some id =>
    obtain ⟨isRecord, test⟩ := List.mem_filter.mp isDynamic
    simp only [Bool.and_eq_true] at test
    exact ⟨isRecord, test.1.1.1⟩

theorem IsOverride.ne_of_isAddress (override : IsOverride row)
    (isAddress : other.type.isAddress = true) : row ≠ other := by
  rintro rfl
  rw [override.type] at isAddress
  exact absurd isAddress (by simp [RecordType.isAddress])

theorem mem_deleteDynamicDhcpRecordsByIps {addresses : List (Text × Option Nat)}
    (override : IsOverride row) (member : row ∈ s.records)
    (unnamed : ∀ record ∈ dynamicRecords s context addresses, ∀ zone ∈ zoneRefs s,
      zone.id = record.zoneId → ¬ Says row (fqdnForRecordName record.name zone.name)) :
    row ∈ (s.deleteDynamicDhcpRecordsByIps context addresses).records := by
  have loop : ∀ (records : List Record) (now : Store), zoneRefs now = zoneRefs s →
      row ∈ now.records → (∀ record ∈ records, record ∈ dynamicRecords s context addresses) →
      row ∈ (records.foldl (fun now record => now.deleteDynamicDhcpRecord context record)
      now).records := by
    intro records
    induction records with
    | nil => exact fun _ _ member _ => member
    | cons record records ih =>
      intro now refs isRow each
      have dynamic := each record List.mem_cons_self
      obtain ⟨isRecord, isAddress⟩ := mem_dynamicRecords dynamic
      refine ih _ ((zoneRefs_deleteDynamicDhcpRecord record).trans refs) ?_
        fun other later => each other (List.mem_cons_of_mem _ later)
      refine mem_deleteDynamicDhcpRecord isRow (fun same => ?_) (refs.symm ▸ unnamed record dynamic)
      exact override.ne_of_isAddress isAddress (eq_of_id_eq member isRecord same)
  exact loop _ s rfl member fun _ isIt => isIt

/-! ### Deallocated networks -/

theorem mem_deleteAll {now : Store} {records : List Record} (old : row ∈ s.records)
    (each : ∀ record ∈ records, record ∈ s.records ∧ row ≠ record) (member : row ∈ now.records) :
    row ∈ (now.deleteAll records).records := by
  induction records generalizing now with
  | nil => exact member
  | cons record records ih =>
    obtain ⟨isRecord, differs⟩ := each record List.mem_cons_self
    refine @ih (now.deleteId record.id)
      (fun other later => each other (List.mem_cons_of_mem _ later)) ?_
    exact mem_deleteId.mpr ⟨member, fun same => differs (eq_of_id_eq old isRecord same)⟩

theorem records_finish (zones : List (Zone × Bool)) : (zones.foldl
    (fun s (zone, willDisable) =>
      let s := s.bumpZoneSerial zone.id
      if willDisable then s.updateZone zone.id fun zone => { zone with enabled := false } else s)
        s).records =
    s.records := by
  induction zones generalizing s with
  | nil => rfl
  | cons first zones ih =>
    obtain ⟨zone, willDisable⟩ := first
    rw [List.foldl_cons, ih]
    cases willDisable <;> rfl

theorem mem_cleanupDnsForDeallocatedSubnet {env : Env} {subnet : SubnetRow} {exclude : List Nat}
    (override : IsOverride row) (member : row ∈ s.records) :
    row ∈ ((s.cleanupDnsForDeallocatedSubnet env subnet exclude).getD s).records := by
  cases done : s.cleanupDnsForDeallocatedSubnet env subnet exclude with
  | none => exact member
  | some after =>
    obtain ⟨impact, found, done⟩ := Option.bind_eq_some_iff.mp done
    obtain rfl := Option.some.inj done
    obtain ⟨ptrs, addresses⟩ := mem_of_dnsDeallocationImpact found
    rw [Option.getD_some, records_finish, records_bumpAll]
    refine mem_deleteAll member (fun record isRecord => ?_) ?_
    · obtain ⟨isOld, isAddress⟩ := addresses record isRecord
      exact ⟨isOld, override.ne_of_isAddress isAddress⟩
    · rw [records_bumpAll]
      refine mem_deleteAll member (fun record isRecord => ?_) member
      obtain ⟨isOld, generated⟩ := ptrs record isRecord
      refine ⟨isOld, ?_⟩
      rintro rfl
      rw [override.source] at generated
      exact absurd generated (by simp)

/-! ### Publishing -/

/-- Where an address answers in reverse, by zones without serials. -/
def refLocation (zones : List ZoneRef) (ip : Text) (enabledOnly : Bool) : Option (ZoneRef × Text) :=
  (reversePtrCandidates ip).findSome? fun candidate =>
    (zones.find? fun zone => zone.type = .reverse && zone.name = candidate.name &&
      (!enabledOnly || zone.enabled)).map fun zone => (zone, candidate.ptrName)

theorem refLocation_eq (ip : Text) (enabledOnly : Bool) : refLocation (zoneRefs s) ip enabledOnly =
    (s.findReversePtrLocation ip enabledOnly).map fun location =>
    (zoneRef location.zone, location.ptrName) := by
  rw [refLocation, findReversePtrLocation, List.map_findSome?]
  refine congrArg (fun test => List.findSome? test _) ?_
  funext candidate
  rw [zoneRefs, List.find?_map, Option.map_map]
  change _ = Option.map _ (Option.map _ _)
  rw [Option.map_map]
  rfl

theorem AnswersFor.of_zoneRefs {ip : Text} (refs : zoneRefs t = zoneRefs s)
    (answers : Automatic.AnswersFor t row ip) :
    Automatic.AnswersFor s row ip := by
  obtain ⟨location, found, inZone, name⟩ := answers
  have same := @refLocation_eq t ip true
  rw [refs, refLocation_eq, found] at same
  obtain ⟨location', found', pair⟩ := Option.map_eq_some_iff.mp same
  obtain ⟨sameZone, sameName⟩ := Prod.mk.inj pair
  refine ⟨location', found', inZone.trans ?_, name.trans sameName.symm⟩
  exact (congrArg ZoneRef.id sameZone).symm

/-- What an entry with a name leaves: the store as it was, or its row with the `PTR` that
follows it. -/
theorem syncEntry_store {n : Naming} {zones : List ZoneRef} {state : SyncState} {entry : Entry}
    {zone : ZoneRef} {name : Text} (published : publishedAs n zones entry = some (zone, name)) :
    (syncEntry n zones state entry).store = state.store ∨ ∃ base : Store,
      ((∃ existing, findRecord state.store zone.id name (recordTypeFor entry.ip) entry.ip.text =
          some existing ∧ base = takeOver state.store existing.id entry.source) ∨
        base = state.store.insert ⟨0, zone.id, name, recordTypeFor entry.ip, entry.ip.text,
        entry.source, true⟩) ∧
      (syncEntry n zones state entry).store =
        (base.syncPtrForARecord name entry.ip.text zone.name entry.source).1 := by
  obtain ⟨hostname, named, inZone, rfl⟩ := publishedAs_eq_some published
  simp only [syncEntry, named, inZone]
  cases found : findRecord state.store zone.id (normalizeRecordNameForZone hostname zone.name)
      (recordTypeFor entry.ip) entry.ip.text with
  | none => exact .inr ⟨_, .inr rfl, rfl⟩
  | some existing =>
    dsimp only
    split
    · split
      · rename_i same
        refine .inr ⟨state.store, .inl ⟨existing, rfl, ?_⟩, rfl⟩
        rw [← same, takeOver_of_same (List.mem_of_find?_eq_some found)]
      · exact .inr ⟨_, .inl ⟨existing, rfl, rfl⟩, rfl⟩
    · exact .inl rfl

theorem isValidAddress_text (addr : Addr) : isValidAddress addr.text = true := by
  have read := addr.parseIp_text
  unfold parseIp at read
  unfold isValidAddress parseIp
  dsimp only at read ⊢
  generalize splitZone (trim addr.text) = parts at read ⊢
  obtain ⟨body, zone⟩ := parts
  cases zone with
  | none =>
    dsimp only at read ⊢
    simp only [Option.isSome_none, Bool.false_and, Bool.false_eq_true, if_false] at read ⊢
    rw [read]
    rfl
  | some zone =>
    exfalso
    dsimp only at read
    split at read
    · exact absurd read (by simp)
    · split at read
      · exact absurd read (by simp)
      · split at read
        · obtain ⟨value, -, rest⟩ := Option.bind_eq_some_iff.mp read
          split at rest
          · exact absurd (congrArg ParsedIp.zoneId (Option.some.inj rest)) (by simp)
          · exact absurd (congrArg ParsedIp.zoneId (Option.some.inj rest)) (by simp)
        · exact absurd read (by simp)

/-- An override outside of the forward zone is in the way of a record's `PTR`. -/
theorem IsOverride.ptrConflicts {recordName zoneName : Text} {ip : Addr} (override : IsOverride row)
    (solid : row.value ≠ []) (unnamed : ¬ Says row (fqdnForRecordName recordName zoneName))
    (outside : ¬ Automatic.InZone row.value zoneName) :
    Store.ptrConflicts row ip.text (fqdnForRecordName recordName zoneName) zoneName = true := by
  have notAddress : row.value ≠ ip.text := by
    intro same
    have valid := isValidAddress_text ip
    rw [← same, override.value] at valid
    exact absurd valid (by simp)
  have notNamed : toLowerCase row.value ≠ toLowerCase (fqdnForRecordName recordName zoneName) :=
    fun same => unnamed (.inl same)
  rw [Automatic.InZone, not_or, Bool.not_eq_true] at outside
  simp [Store.ptrConflicts, solid, notAddress, override.value, notNamed, outside.1, outside.2]

theorem mem_syncPtrForARecord {recordName zoneName : Text} {ip : Addr} {source : Source}
    (override : IsOverride row) (member : row ∈ s.records) (solid : row.value ≠ [])
    (unnamed : ¬ Says row (fqdnForRecordName recordName zoneName))
    (outside : Automatic.AnswersFor s row ip.text → ¬ Automatic.InZone row.value zoneName) :
    row ∈ (s.syncPtrForARecord recordName ip.text zoneName source).1.records := by
  rcases @syncPtrForARecord_cases s ip.text recordName zoneName source false with
    same | ⟨location, found, unforced, written⟩
  · rw [same]
    exact member
  · rw [written]
    refine mem_writePtr member (fun isRow => ?_) _ _
    obtain ⟨-, inZone, -, name⟩ := ptrRow_eq_some isRow
    have conflicts := @IsOverride.ptrConflicts row recordName zoneName ip override solid unnamed
      (outside ⟨location, found, inZone, name⟩)
    rw [unforced row isRow rfl] at conflicts
    exact absurd conflicts (by simp)

section Publishing

variable {n : Naming} {leases : List BackendLease}

/-- The override is not named by an entry, nor in its forward zone where both answer for one
address. -/
def Undisturbed (n : Naming) (s : Store) (row : Record) (entry : Entry) : Prop :=
  ∀ zone name, publishedAs n (zoneRefs s) entry = some (zone, name) →
    ¬ Says row (fqdnForRecordName name zone.name) ∧
      (Automatic.AnswersFor s row entry.ip.text → ¬ Automatic.InZone row.value zone.name)

theorem mem_syncEntry {state : SyncState} {entry : Entry} (override : IsOverride row)
    (solid : row.value ≠ []) (undisturbed : Undisturbed n s row entry)
    (refs : zoneRefs state.store = zoneRefs s) (member : row ∈ state.store.records) :
    row ∈ (syncEntry n (zoneRefs s) state entry).store.records := by
  cases published : publishedAs n (zoneRefs s) entry with
  | none =>
    rw [syncEntry_of_unpublished published]
    exact member
  | some pair =>
    obtain ⟨zone, name⟩ := pair
    obtain ⟨unnamed, outside⟩ := undisturbed zone name published
    rcases @syncEntry_store n (zoneRefs s) state entry zone name published with same | ⟨base,
      isBase, written⟩
    · rw [same]
      exact member
    · have kept : row ∈ base.records ∧ zoneRefs base = zoneRefs state.store := by
        rcases isBase with ⟨existing, found, rfl⟩ | rfl
        · obtain ⟨isExisting, -, -, type, -⟩ := findRecord_eq_some found
          refine ⟨mem_update_of_ne member fun same => ?_, zoneRefs_eq zones_update⟩
          exact override.ne_of_isAddress (type ▸ isAddress_recordTypeFor entry.ip)
            (eq_of_id_eq member isExisting same)
        · exact ⟨mem_insert.mpr (.inl member), zoneRefs_eq (zones_insert _)⟩
      rw [written]
      refine mem_syncPtrForARecord override kept.1 solid unnamed fun answers => outside ?_
      exact AnswersFor.of_zoneRefs (kept.2.trans refs) answers

theorem zoneRefs_syncEntry {zones : List ZoneRef} {state : SyncState} {entry : Entry} :
    zoneRefs (syncEntry n zones state entry).store = zoneRefs state.store := by
  cases published : publishedAs n zones entry with
  | none => rw [syncEntry_of_unpublished published]
  | some pair =>
    obtain ⟨zone, name⟩ := pair
    rcases @syncEntry_store n zones state entry zone name published with same | ⟨base,
      isBase, written⟩
    · rw [same]
    · rw [written]
      refine (forwardRows_ptrWrite ptrWrite_syncPtrForARecord).1.trans ?_
      rcases isBase with ⟨existing, -, rfl⟩ | rfl
      · exact zoneRefs_eq zones_update
      · exact zoneRefs_eq (zones_insert _)

theorem mem_syncEntries (override : IsOverride row) (solid : row.value ≠ [])
    (undisturbed : ∀ entry ∈ entries n.env leases, Undisturbed n s row entry)
    (member : row ∈ s.records) :
    row ∈ (syncEntries n s leases).store.records := by
  have loop : ∀ (todo : List Entry) (state : SyncState),
      (∀ entry ∈ todo, Undisturbed n s row entry) → zoneRefs state.store = zoneRefs s →
      row ∈ state.store.records →
      row ∈ (todo.foldl (syncEntry n (zoneRefs s)) state).store.records := by
    intro todo
    induction todo with
    | nil => exact fun _ _ _ member => member
    | cons entry todo ih =>
      intro state each refs isRow
      refine ih _ (fun other later => each other (List.mem_cons_of_mem _ later))
        (zoneRefs_syncEntry.trans refs) ?_
      exact mem_syncEntry override solid (each entry List.mem_cons_self) refs isRow
  exact loop (entries n.env leases) { store := s, processedZoneIds := domainZoneIds n (zoneRefs s) }
    undisturbed rfl member

theorem mem_syncDhcpDnsRecords (override : IsOverride row) (solid : row.value ≠ [])
    (undisturbed : ∀ entry ∈ entries n.env leases, Undisturbed n s row entry)
    (unnamed : ∀ stale ∈ staleRecords (syncEntries n s leases),
    ¬ Says row (fqdnForRecordName stale.1.name stale.2.name)) (member : row ∈ s.records) :
    row ∈ (LeaseNames.syncDhcpDnsRecords n s leases).1.records := by
  have inLoop := mem_syncEntries override solid undisturbed member
  have loop : ∀ (stale : List (Record × Zone)) (now : Store), row ∈ now.records →
      (∀ pair ∈ stale, row.id ≠ pair.1.id ∧ ¬ Says row (fqdnForRecordName pair.1.name pair.2.name))
      → row ∈ (stale.foldl (removeStale n.toContext (syncEntries n s leases).activeIps)
      now).records := by
    intro stale
    induction stale with
    | nil => exact fun _ member _ => member
    | cons first stale ih =>
      intro now isRow each
      obtain ⟨differs, notNamed⟩ := each first List.mem_cons_self
      refine ih _ ?_ fun pair later => each pair (List.mem_cons_of_mem _ later)
      unfold removeStale
      dsimp only
      split
      · exact mem_deleteId.mpr ⟨mem_clearPtrForARecord isRow notNamed, differs⟩
      · exact mem_deleteId.mpr ⟨isRow, differs⟩
  refine loop _ _ inLoop fun pair isStale => ⟨fun same => ?_, unnamed pair isStale⟩
  obtain ⟨generated, -⟩ := List.mem_filter.mp isStale
  obtain ⟨record, isRecord, chosen⟩ := List.mem_filterMap.mp generated
  split at chosen
  · rename_i test
    obtain ⟨zone, -, rfl⟩ := Option.map_eq_some_iff.mp chosen
    simp only [Bool.and_eq_true, Bool.or_eq_true, decide_eq_true_eq] at test
    have source := override.source
    rw [eq_of_id_eq inLoop isRecord same] at source
    rcases test.1 with dhcp | reservation
    · rw [dhcp] at source
      exact absurd source (by simp [Source.isGenerated])
    · rw [reservation] at source
      exact absurd source (by simp [Source.isGenerated])
  · exact absurd chosen (by simp)

end Publishing

end Writers

/-! ## Runs -/

/-- Every step of a run writes and removes other names, and spares the override. -/
inductive SparedRun (row : Record) : Store → List Automatic → Store → Prop
  | done (s : Store) : SparedRun row s [] s
  | step {s t : Store} {call : Automatic} {calls : List Automatic} (other : ¬ call.Names s row)
      (spares : call.Spares s row) (rest : SparedRun row (call.run s) calls t) :
      SparedRun row s (call :: calls) t

theorem mem_run {s : Store} {row : Record} (call : Automatic) (override : IsOverride row)
    (member : row ∈ s.records) (other : ¬ call.Names s row) (spares : call.Spares s row) :
    row ∈ (call.run s).records := by
  cases call with
  | reconcileManagedReverseDns context subnetIds maxAddressesPerSubnet =>
    exact mem_reconcileManagedReverseDns override spares member fun desired isDesired named =>
      other ⟨desired, isDesired, named⟩
  | clearDnsFromIp context recordName addr zoneName =>
    change row ∈ (s.clearDnsFromIp context addr).records
    unfold Store.clearDnsFromIp
    cases found : context.env.findSubnetForIp addr with
    | none => exact member
    | some subnet => exact Store.mem_setPtrForIp member (spares (by rw [found]; rfl))
  | clearPtrForARecord context recordName ip forwardZoneName =>
      exact Store.mem_clearPtrForARecord member other
  | dropUnallocatedIpv6Ptr context ip =>
      exact Store.mem_dropUnallocatedIpv6Ptr member override.value
  | deleteDynamicDhcpRecordsByIps context addresses =>
    refine mem_deleteDynamicDhcpRecordsByIps override member fun record isDynamic zone isZone
      inZone named => ?_
    exact other ⟨record, isDynamic, zone, isZone, inZone, named⟩
  | syncDhcpDnsRecords naming leases =>
    refine mem_syncDhcpDnsRecords override spares.1 (fun entry isEntry zone name published => ?_) ?_
      member
    · exact ⟨fun named => other (.inl ⟨entry, isEntry, zone, name, published, named⟩),
        spares.2 entry isEntry zone name published⟩
    · exact fun stale isStale named => other (.inr ⟨stale, isStale, named⟩)
  | cleanupDnsForDeallocatedSubnet env subnet excludeSubnetIds =>
    exact mem_cleanupDnsForDeallocatedSubnet override member

/-- **Overrides survive** every run of automatic writers whose steps spare them. -/
theorem override_survives {s t : Store} {row : Record} {calls : List Automatic}
    (override : IsOverride row) (member : row ∈ s.records) (run : SparedRun row s calls t) :
    row ∈ t.records := by
  induction run with
  | done s => exact member
  | step other spares rest ih => exact ih (mem_run _ override member other spares)

/-- The `PTR` of `10.0.0.1`, set by the operator to a name elsewhere. -/
def sampleOverride : Record :=
  ⟨3, 2, ['1'], .ptr, "gw.corp.example".toList, .manual, true⟩

/-- `z.lan` with a record at `10.0.0.1`, and the reverse zone with the override. -/
def sampleOverridden : Store where
  zones := [⟨1, "z.lan".toList, .forward, true, 1⟩,
    ⟨2, "0.0.10.in-addr.arpa".toList, .reverse, true, 1⟩]
  records := [⟨1, 1, ['p', 'c'], .a, (sampleAddr 1).text, .dhcp, true⟩, sampleOverride]
  ids := by decide

theorem isOverride_sampleOverride : IsOverride sampleOverride := ⟨rfl, by decide, rfl⟩

/-- A lease of the address lapses: its record is deleted and its `PTR` cleared if it names that. -/
def lapseCalls : List Automatic :=
  [.deleteDynamicDhcpRecordsByIps sampleNaming.toContext [((sampleAddr 1).text, none)],
    .clearPtrForARecord sampleNaming.toContext ['p', 'c'] (sampleAddr 1).text "z.lan".toList]

theorem override_survives_sample : ∃ t, SparedRun sampleOverride sampleOverridden lapseCalls t ∧
    t.records.length = 1 ∧ sampleOverride ∈ t.records := by
  have run : SparedRun sampleOverride sampleOverridden lapseCalls _ :=
    .step (fun named => absurd named (by unfold Automatic.Names Says; decide)) trivial
      (.step (fun named => absurd named (by unfold Automatic.Names Says; decide)) trivial (.done _))
  exact ⟨_, run, by decide, override_survives isOverride_sampleOverride (by decide) run⟩

/-- Clearing the DNS of `10.0.0.1` when the record `pc` is deleted overwrites the override,
which names another host. -/
theorem cleared_override_is_lost : IsOverride sampleOverride ∧
    sampleOverride ∈ sampleOverridden.records ∧
      ¬ (Automatic.clearDnsFromIp sampleNaming.toContext ['p', 'c'] (sampleAddr 1)
      "z.lan".toList).Names sampleOverridden sampleOverride ∧
    ∀ row ∈ ((Automatic.clearDnsFromIp sampleNaming.toContext ['p', 'c'] (sampleAddr 1)
      "z.lan".toList).run sampleOverridden).records, row.value ≠ sampleOverride.value := by
  refine ⟨isOverride_sampleOverride, by decide, ?_, by decide⟩
  unfold Automatic.Names Says
  decide

end Dns

end Cidrella
