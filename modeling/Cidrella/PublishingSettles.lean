import Cidrella.PtrFaces

/-!
# Publishing lease names settles

`syncDhcpDnsRecords` runs after every read of the leases. Each of its entries takes over the
row of its name or adds it, and asks for the `PTR` of its address; then stale rows go. Rows
of other sources stay as they are and no name is added where one is (`Upholds`), and a second
run finds every row as it wants it. Only the `PTR`s may disagree: what stands at a place is
what the last name wrote that was not refused, less what stale rows clear
(`faces_syncDhcpDnsRecords`), and a second run writes unless each name of the address
writes just that or is refused by it (`publishing_settles_iff`).
-/

set_option autoImplicit false

namespace Cidrella

open Address DnsNames

namespace LeaseNames

open Dns Dns.Store

/-! ## What an entry publishes -/

/-- The row of a name that is published. -/
def publishedRow (s : Store) (p : Publication) : Option Record :=
  findRecord s p.zone.id p.name (recordTypeFor p.ip) p.ip.text

/-- What an entry publishes: nothing where the row of its name is another source's. -/
def publication (n : Naming) (s : Store) (entry : Entry) : Option Publication :=
  (publishedAs n (zoneRefs s) entry).bind fun (zone, name) =>
    if (publishedRow s ⟨entry.ip, zone, name, entry.source⟩).any fun record =>
      !isGenerated record then none
    else some ⟨entry.ip, zone, name, entry.source⟩

/-- What the entries publish. -/
def publications (n : Naming) (s : Store) (leases : List BackendLease) : List Publication :=
  (entries n.env leases).filterMap (publication n s)

/-- Two rows have one name, type and value in one zone. -/
structure SameKey (left right : Record) : Prop where
  zoneId : left.zoneId = right.zoneId
  name : left.name = right.name
  type : left.type = right.type
  value : left.value = right.value

/-- Rows stay and keep what they say, but for `PTR`s; those of other sources stay as they
are; and a new row is a lease's or a reservation's and says what no row said. -/
structure Upholds (s t : Store) : Prop where
  zones : zoneRefs t = zoneRefs s
  persist : ∀ old ∈ s.records, old.type ≠ .ptr → ∃ row ∈ t.records, row.id = old.id ∧
    SameKey old row ∧ isGenerated row = isGenerated old ∧ (isGenerated old = false → row = old)
  fresh : ∀ row ∈ t.records, row.type ≠ .ptr →
    (∃ old ∈ s.records, old.id = row.id ∧ SameKey old row ∧ isGenerated row = isGenerated old) ∨
      isGenerated row = true ∧ ∀ old ∈ s.records, ¬ SameKey old row
  rows : ∀ p old, publishedRow s p = some old →
    ∃ row, publishedRow t p = some row ∧ row.id = old.id ∧ isGenerated row = isGenerated old
  stay : ∀ old ∈ forwardRows s, ∃ row ∈ forwardRows t, row.id = old.id ∧ SameKey old row

/-- How the row of a published name is written. -/
inductive RowWritten (s : Store) (p : Publication) : Store → Nat → Bool → Prop
  | kept (existing : Record) (found : publishedRow s p = some existing)
      (generated : isGenerated existing = true) (same : existing.source = p.source) :
      RowWritten s p s existing.id false
  | takenOver (existing : Record) (found : publishedRow s p = some existing)
      (generated : isGenerated existing = true) (differs : existing.source ≠ p.source) :
      RowWritten s p (takeOver s existing.id p.source) existing.id true
  | inserted (absent : publishedRow s p = none) :
      RowWritten s p (s.insert ⟨0, p.zone.id, p.name, recordTypeFor p.ip, p.ip.text, p.source,
      true⟩) s.nextId true

section Rows

variable {s t u : Store} {n : Naming} {entry : Entry} {p q : Publication}
  {row old : Record} {ip : Text} {enabledOnly : Bool} {state : SyncState} {id : Nat}
  {changed : Bool} {place : Nat × Text}

theorem SameKey.refl (row : Record) : SameKey row row := ⟨rfl, rfl, rfl, rfl⟩

theorem SameKey.symm (same : SameKey row old) : SameKey old row :=
  ⟨same.zoneId.symm, same.name.symm, same.type.symm, same.value.symm⟩

theorem SameKey.trans {middle : Record} (first : SameKey row middle) (second : SameKey middle old) :
    SameKey row old :=
  ⟨first.zoneId.trans second.zoneId, first.name.trans second.name, first.type.trans second.type,
    first.value.trans second.value⟩

theorem recordTypeFor_ne_ptr (ip : Addr) : recordTypeFor ip ≠ .ptr := by
  rw [recordTypeFor]
  split <;> decide

/-- The row says what is published. -/
structure Answers (p : Publication) (row : Record) : Prop where
  zoneId : row.zoneId = p.zone.id
  name : row.name = p.name
  type : row.type = recordTypeFor p.ip
  value : row.value = p.ip.text

theorem publishedRow_eq_some (found : publishedRow s p = some row) : row ∈ s.records ∧
    Answers p row := by
  obtain ⟨member, zoneId, name, type, value⟩ := findRecord_eq_some found
  exact ⟨member, zoneId, name, type, value⟩

theorem Answers.type_ne_ptr (answers : Answers p row) : row.type ≠ .ptr :=
  answers.type ▸ recordTypeFor_ne_ptr p.ip

theorem Answers.of_sameKey (answers : Answers p row) (same : SameKey row old) : Answers p old :=
  ⟨same.zoneId.symm.trans answers.zoneId, same.name.symm.trans answers.name,
    same.type.symm.trans answers.type, same.value.symm.trans answers.value⟩

/-- The test of `findRecord`. -/
def answersTest (p : Publication) (row : Record) : Bool :=
  row.zoneId = p.zone.id && row.name = p.name && row.type = recordTypeFor p.ip &&
    row.value = p.ip.text

theorem answersTest_iff : answersTest p row = true ↔ Answers p row := by
  simp only [answersTest, Bool.and_eq_true, decide_eq_true_eq]
  exact ⟨fun ⟨⟨⟨zoneId, name⟩, type⟩, value⟩ => ⟨zoneId, name, type, value⟩,
    fun answers => ⟨⟨⟨answers.zoneId, answers.name⟩, answers.type⟩, answers.value⟩⟩

theorem publishedRow_eq : publishedRow s p = s.records.find? (answersTest p) := rfl

theorem publishedRow_eq_none (absent : publishedRow s p = none) (member : row ∈ s.records) :
    ¬ Answers p row := by
  rw [publishedRow_eq, List.find?_eq_none] at absent
  exact fun answers => absent row member (answersTest_iff.mpr answers)

/-- The row of a name is none of the `PTR`s. -/
theorem publishedRow_eq_others : publishedRow s p = (s.records.filter (·.type ≠ .ptr)).find?
    (answersTest p) := by
  rw [List.find?_filter, publishedRow_eq]
  refine congrArg (fun test => List.find? test s.records) (funext fun row => ?_)
  cases test : answersTest p row with
  | false => rw [decide_eq_false (by simp)]
  | true => rw [decide_eq_true ⟨decide_eq_true (answersTest_iff.mp test).type_ne_ptr, rfl⟩]

theorem publishedRow_of_others (others : t.records.filter (·.type ≠ .ptr) = s.records.filter
    (·.type ≠ .ptr)) :
    publishedRow t p = publishedRow s p := by
  rw [publishedRow_eq_others, others, ← publishedRow_eq_others]

/-- No writer of a `PTR` touches other rows. -/
theorem others_ptrWrite (write : PtrWrite s ip enabledOnly t) :
    t.records.filter (·.type ≠ .ptr) = s.records.filter (·.type ≠ .ptr) := by
  cases write with
  | same => rfl
  | write location value source found =>
    cases isRow : s.ptrRow location with
    | none =>
      change (s.records ++ [_]).filter _ = _
      rw [List.filter_append, List.filter_cons_of_neg (by simp), List.filter_nil, List.append_nil]
    | some row =>
      obtain ⟨member, -, isPtr, -⟩ := ptrRow_eq_some isRow
      exact filter_others_update member isPtr fun _ => rfl
  | remove location row found isRow =>
    obtain ⟨member, -, isPtr, -⟩ := ptrRow_eq_some isRow
    rw [removePtr, records_bumpZoneSerial, deleteId, delete, List.filter_filter]
    refine List.filter_congr fun other isOther => ?_
    rw [Bool.and_eq_left_iff_imp]
    intro differs
    rw [Bool.not_eq_true', decide_eq_false_iff_not]
    intro same
    rw [eq_of_id_eq isOther member same, isPtr] at differs
    exact absurd differs (by simp)

theorem mem_of_others (others : t.records.filter (·.type ≠ .ptr) = s.records.filter (·.type ≠ .ptr))
    (isOther : row.type ≠ .ptr) : row ∈ t.records ↔ row ∈ s.records := by
  have both : row ∈ t.records.filter (·.type ≠ .ptr) ↔
      row ∈ s.records.filter (·.type ≠ .ptr) := by rw [others]
  rwa [List.mem_filter, List.mem_filter, and_iff_left (decide_eq_true isOther),
    and_iff_left (decide_eq_true isOther)] at both

/-! ## How rows go on -/

theorem Upholds.refl (s : Store) : Upholds s s where
  zones := rfl
  persist := fun old member _ => ⟨old, member, rfl, .refl old, rfl, fun _ => rfl⟩
  fresh := fun row member _ => .inl ⟨row, member, rfl, .refl row, rfl⟩
  rows := fun _ old found => ⟨old, found, rfl, rfl⟩
  stay := fun old member => ⟨old, member, rfl, .refl old⟩

theorem Upholds.trans (first : Upholds s t) (second : Upholds t u) : Upholds s u where
  zones := second.zones.trans first.zones
  persist := by
    intro old member isOther
    obtain ⟨middle, isMiddle, id, key, generated, kept⟩ := first.persist old member isOther
    obtain ⟨row, isRow, id', key', generated', kept'⟩ :=
      second.persist middle isMiddle (key.type ▸ isOther)
    refine ⟨row, isRow, id'.trans id, key.trans key', generated'.trans generated, fun manual => ?_⟩
    rw [kept' (generated.trans manual), kept manual]
  fresh := by
    intro row member isOther
    rcases second.fresh row member isOther with ⟨middle, isMiddle, id, key,
      generated⟩ | ⟨generated, unsaid⟩
    · rcases first.fresh middle isMiddle (key.type ▸ isOther) with ⟨old, isOld, id', key',
        generated'⟩ | ⟨new, unsaid⟩
      · exact .inl ⟨old, isOld, id'.trans id, key'.trans key, generated.trans generated'⟩
      · exact .inr ⟨generated.trans new, fun old isOld same => unsaid old isOld
          (same.trans key.symm)⟩
    · refine .inr ⟨generated, fun old isOld same => ?_⟩
      obtain ⟨middle, isMiddle, -, key, -⟩ := first.persist old isOld (same.type ▸ isOther)
      exact unsaid middle isMiddle (key.symm.trans same)
  rows := by
    intro p old found
    obtain ⟨middle, isMiddle, id, generated⟩ := first.rows p old found
    obtain ⟨row, isRow, id', generated'⟩ := second.rows p middle isMiddle
    exact ⟨row, isRow, id'.trans id, generated'.trans generated⟩
  stay := by
    intro old member
    obtain ⟨middle, isMiddle, id, key⟩ := first.stay old member
    obtain ⟨row, isRow, id', key'⟩ := second.stay middle isMiddle
    exact ⟨row, isRow, id'.trans id, key.trans key'⟩

theorem upholds_ptrWrite (write : PtrWrite s ip enabledOnly t) : Upholds s t where
  zones := (forwardRows_ptrWrite write).1
  persist := fun old member isOther =>
    ⟨old, (mem_of_others (others_ptrWrite write) isOther).mpr member, rfl, .refl old, rfl,
      fun _ => rfl⟩
  fresh := fun row member isOther =>
    .inl ⟨row, (mem_of_others (others_ptrWrite write) isOther).mp member, rfl, .refl row, rfl⟩
  rows := fun _ old found => ⟨old, (publishedRow_of_others (others_ptrWrite write)).trans found,
    rfl, rfl⟩
  stay := fun old member => ⟨old, (forwardRows_ptrWrite write).2 ▸ member, rfl, .refl old⟩

theorem publishedRow_takeOver (id : Nat) (source : Source) : publishedRow (takeOver s id source) p =
    (publishedRow s p).map fun row => if row.id = id then { row with source } else row := by
  rw [publishedRow_eq, takeOver, update, List.find?_map, publishedRow_eq]
  refine congrArg (Option.map _) (congrArg (fun test => List.find? test s.records)
    (funext fun row => ?_))
  dsimp only [Function.comp_apply]
  split <;> rfl

theorem publishedRow_insert (record : Record) : publishedRow (s.insert record) p =
    (publishedRow s p).or (if answersTest p record then some { record with id := s.nextId }
    else none) := by
  change (s.records ++ [_]).find? _ = _
  rw [List.find?_append, publishedRow_eq, List.find?_singleton]
  rfl

theorem isGenerated_takenOver (source : p.source = .dhcp ∨ p.source = .reservation) :
    isGenerated { row with source := p.source } = true := by
  rw [isGenerated]
  rcases source with dhcp | reservation
  · simp [dhcp]
  · simp [reservation]

theorem upholds_takeOver {existing : Record} (found : publishedRow s p = some existing)
    (generated : isGenerated existing = true) (source : p.source = .dhcp ∨
    p.source = .reservation) :
    Upholds s (takeOver s existing.id p.source) := by
  have member := (publishedRow_eq_some found).1
  have step : ∀ old ∈ s.records,
      SameKey old (if old.id = existing.id then { old with source := p.source } else old) ∧
      isGenerated (if old.id = existing.id then { old with source := p.source } else old) =
      isGenerated old := by
    intro old isOld
    split
    · rename_i same
      rw [isGenerated_takenOver source, eq_of_id_eq isOld member same, generated]
      exact ⟨⟨rfl, rfl, rfl, rfl⟩, rfl⟩
    · exact ⟨.refl old, rfl⟩
  constructor
  case zones => exact zoneRefs_eq zones_update
  case persist =>
    intro old isOld _
    refine ⟨_, List.mem_map_of_mem isOld, ?_, (step old isOld).1, (step old isOld).2,
      fun manual => ?_⟩
    · split <;> rfl
    · refine if_neg fun same => ?_
      rw [eq_of_id_eq isOld member same, generated] at manual
      cases manual
  case fresh =>
    intro row isRow _
    obtain ⟨old, isOld, rfl⟩ := List.mem_map.mp isRow
    refine .inl ⟨old, isOld, ?_, (step old isOld).1, (step old isOld).2⟩
    split <;> rfl
  case rows =>
    intro q old isOld
    refine ⟨_, (publishedRow_takeOver _ _).trans (congrArg (Option.map _) isOld), ?_, ?_⟩
    · dsimp only
      split <;> rfl
    · exact (step old (publishedRow_eq_some isOld).1).2
  case stay =>
    intro old isOld
    obtain ⟨isRecord, outside⟩ := mem_forwardRows.mp isOld
    refine ⟨_, mem_forwardRows.mpr ⟨List.mem_map_of_mem isRecord, ?_⟩, ?_, (step old isRecord).1⟩
    · have zones : zoneRefs (takeOver s existing.id p.source) = zoneRefs s :=
        zoneRefs_eq zones_update
      rw [zones]
      split <;> exact outside
    · dsimp only
      split <;> rfl

theorem upholds_insert (absent : publishedRow s p = none) (source : p.source = .dhcp ∨
    p.source = .reservation) :
    Upholds s (s.insert ⟨0, p.zone.id, p.name, recordTypeFor p.ip, p.ip.text, p.source, true⟩) where
  zones := zoneRefs_eq (zones_insert _)
  persist := fun old member _ => ⟨old, mem_insert.mpr (.inl member), rfl, .refl old, rfl,
    fun _ => rfl⟩
  fresh := by
    intro row member _
    rcases mem_insert.mp member with old | rfl
    · exact .inl ⟨row, old, rfl, .refl row, rfl⟩
    · refine .inr ⟨?_, fun old isOld same => ?_⟩
      · exact @isGenerated_takenOver p
          ⟨s.nextId, p.zone.id, p.name, recordTypeFor p.ip, p.ip.text, p.source, true⟩ source
      · exact publishedRow_eq_none absent isOld (Answers.of_sameKey ⟨rfl, rfl, rfl, rfl⟩ same.symm)
  rows := fun q old found => ⟨old, by rw [publishedRow_insert, found, Option.some_or], rfl, rfl⟩
  stay := by
    intro old member
    obtain ⟨isRecord, outside⟩ := mem_forwardRows.mp member
    exact ⟨old, mem_forwardRows.mpr ⟨mem_insert.mpr (.inl isRecord), outside⟩, rfl, .refl old⟩

theorem RowWritten.upholds (written : RowWritten s p t id changed) (source : p.source = .dhcp ∨
    p.source = .reservation) :
    Upholds s t := by
  cases written with
  | kept => exact .refl s
  | takenOver existing found generated differs => exact upholds_takeOver found generated source
  | inserted absent => exact upholds_insert absent source

/-- Rows of names are no `PTR`s. -/
theorem RowWritten.ptrRows (written : RowWritten s p t id changed) :
    t.ptrRows place = s.ptrRows place := by
  cases written with
  | kept => rfl
  | takenOver existing found generated differs =>
    obtain ⟨member, answers⟩ := publishedRow_eq_some found
    refine (@ptrRows_update s place existing.id (fun record => { record with source := p.source })
      fun _ => ⟨rfl, rfl, rfl⟩).trans ?_
    refine (List.map_congr_left fun row isRow => ?_).trans (List.map_id _)
    obtain ⟨isRecord, isPtr, -⟩ := mem_ptrRows.mp isRow
    refine if_neg fun same => answers.type_ne_ptr ?_
    rw [← eq_of_id_eq isRecord member same, isPtr]
  | inserted absent =>
    rw [ptrRows_insert, if_neg, List.append_nil]
    exact fun isPtr => recordTypeFor_ne_ptr p.ip isPtr.1

theorem RowWritten.found (written : RowWritten s p t id changed) : ∃ row,
    publishedRow t p = some row ∧ row.id = id ∧ row.source = p.source := by
  cases written with
  | kept existing found generated same => exact ⟨existing, found, rfl, same⟩
  | takenOver existing found generated differs =>
    refine ⟨{ existing with source := p.source }, ?_, rfl, rfl⟩
    rw [publishedRow_takeOver, found, Option.map_some, if_pos rfl]
  | inserted absent =>
    refine ⟨⟨s.nextId, p.zone.id, p.name, recordTypeFor p.ip, p.ip.text, p.source, true⟩,
      ?_, rfl, rfl⟩
    rw [publishedRow_insert, absent, Option.none_or, if_pos]
    exact answersTest_iff.mpr ⟨rfl, rfl, rfl, rfl⟩

theorem Upholds.publication_eq (upholds : Upholds s t) (entry : Entry) :
    publication n t entry = publication n s entry := by
  rw [publication, publication, upholds.zones]
  refine congrArg (Option.bind _) (funext fun (zone, name) => ?_)
  have manual : (publishedRow t ⟨entry.ip, zone, name, entry.source⟩).any
      (fun record => !isGenerated record) =
      (publishedRow s ⟨entry.ip, zone, name, entry.source⟩).any fun record =>
      !isGenerated record := by
    generalize (⟨entry.ip, zone, name, entry.source⟩ : Publication) = p
    cases found : publishedRow s p with
    | some old =>
      obtain ⟨row, isRow, -, generated⟩ := upholds.rows p old found
      rw [isRow, Option.any_some, Option.any_some, generated]
    | none =>
      cases now : publishedRow t p with
      | none => rfl
      | some row =>
        obtain ⟨member, answers⟩ := publishedRow_eq_some now
        rcases upholds.fresh row member answers.type_ne_ptr with ⟨old, isOld, -, key,
          -⟩ | ⟨generated, -⟩
        · exact absurd (answers.of_sameKey key.symm) (publishedRow_eq_none found isOld)
        · rw [Option.any_some, generated]
          rfl
  dsimp only
  rw [manual]

/-! ## One entry -/

theorem publication_eq_some (published : publication n s entry = some p) :
    publishedAs n (zoneRefs s) entry = some (p.zone, p.name) ∧ p.ip = entry.ip ∧
      p.source = entry.source ∧ (∀ row, publishedRow s p = some row → isGenerated row = true) := by
  obtain ⟨⟨zone, name⟩, named, published⟩ := Option.bind_eq_some_iff.mp published
  dsimp only at published
  split_ifs at published with manual
  obtain rfl := Option.some.inj published
  refine ⟨named, rfl, rfl, fun row found => ?_⟩
  rw [found, Option.any_some, Bool.not_eq_true', Bool.not_eq_false] at manual
  exact manual

theorem syncEntry_of_silent (silent : publication n state.store entry = none) :
    let after := syncEntry n (zoneRefs state.store) state entry
    after.store = state.store ∧ after.activeRecordIds = state.activeRecordIds ∧
      after.activeIps = state.activeIps ∧ after.configChanged = state.configChanged := by
  cases named : publishedAs n (zoneRefs state.store) entry with
  | none =>
    rw [syncEntry_of_unpublished named]
    exact ⟨rfl, rfl, rfl, rfl⟩
  | some found =>
    obtain ⟨zone, name⟩ := found
    obtain ⟨hostname, isName, inZone, rfl⟩ := publishedAs_eq_some named
    rw [publication, named, Option.bind_some] at silent
    dsimp only at silent
    split_ifs at silent with manual
    cases isRow : findRecord state.store zone.id (normalizeRecordNameForZone hostname zone.name)
        (recordTypeFor entry.ip) entry.ip.text with
    | none =>
      rw [publishedRow, isRow] at manual
      cases manual
    | some existing =>
      rw [publishedRow, isRow, Option.any_some, Bool.not_eq_true', isGenerated] at manual
      simp only [syncEntry, isName, inZone, isRow]
      rw [if_neg (by rw [manual]; exact Bool.false_ne_true)]
      exact ⟨rfl, rfl, rfl, rfl⟩

/-- **What an entry that publishes does**: it writes its row, then the `PTR` of its address. -/
theorem syncEntry_of_publication (published : publication n state.store entry = some p) :
    ∃ base id changed, RowWritten state.store p base id changed ∧
      let after := syncEntry n (zoneRefs state.store) state entry
      let result := base.syncPtrForARecord p.name p.ip.text p.zone.name p.source
      after.store = result.1 ∧ after.activeRecordIds = state.activeRecordIds ++ [id] ∧
        after.activeIps = state.activeIps ++ [p.ip.text] ∧
        after.configChanged = (state.configChanged || changed || decide (result.2 = .updated)) := by
  obtain ⟨ip, zone, name, source⟩ := p
  obtain ⟨named, rfl, rfl, generated⟩ := publication_eq_some published
  obtain ⟨hostname, isName, inZone, normalized⟩ := publishedAs_eq_some named
  dsimp only at isName inZone normalized generated ⊢
  subst normalized
  cases isRow : findRecord state.store zone.id (normalizeRecordNameForZone hostname zone.name)
      (recordTypeFor entry.ip) entry.ip.text with
  | none =>
    simp only [syncEntry, isName, inZone, isRow]
    exact ⟨_, _, true, .inserted isRow, rfl, rfl, rfl, rfl⟩
  | some existing =>
    have taken := generated existing isRow
    rw [LeaseNames.isGenerated] at taken
    simp only [syncEntry, isName, inZone, isRow, if_pos taken]
    split_ifs with same
    · exact ⟨_, _, false, .kept existing isRow taken same, rfl, rfl, rfl, rfl⟩
    · exact ⟨_, _, true, .takenOver existing isRow taken same, rfl, rfl, rfl, rfl⟩

end Rows

/-! ## All entries -/

/-- The names that are published at a place. -/
def namesAt (s : Store) (place : Nat × Text) (ps : List Publication) : List Publication :=
  ps.filter fun p => s.placeOf p.ip.text = some place

/-- Where the loop over the entries is. -/
structure Publishing (n : Naming) (s : Store) (done : List Entry) (state : SyncState) : Prop where
  upholds : Upholds s state.store
  faces : ∀ place, state.store.faces place =
    (namesAt s place (done.filterMap (publication n s))).foldl
    (Contest.contend Publication.refusedBy Publication.write) (s.faces place)
  ips : state.activeIps = (done.filterMap (publication n s)).map (·.ip.text)
  found : ∀ p ∈ done.filterMap (publication n s),
    ∃ row, publishedRow state.store p = some row ∧ row.id ∈ state.activeRecordIds
  active : ∀ id ∈ state.activeRecordIds, ∃ p ∈ done.filterMap (publication n s),
    ∃ row, publishedRow state.store p = some row ∧ row.id = id
  idle : (forwardRows state.store).filter (·.id ∉ state.activeRecordIds) =
    (forwardRows s).filter (·.id ∉ state.activeRecordIds)

section Loop

variable {s t : Store} {n : Naming} {done : List Entry} {entry : Entry} {p : Publication}
  {state : SyncState} {id : Nat} {changed : Bool} {leases : List BackendLease} {place : Nat × Text}

theorem RowWritten.idle (written : RowWritten s p t id changed) {ids : List Nat}
    (among : id ∈ ids) :
    (forwardRows t).filter (·.id ∉ ids) = (forwardRows s).filter (·.id ∉ ids) := by
  cases written with
  | kept => rfl
  | takenOver existing found generated differs =>
    have rows : forwardRows (takeOver s existing.id p.source) = _ :=
      @forwardRows_update s existing.id (fun record => { record with source := p.source })
        fun _ => rfl
    have ids' : ∀ row : Record,
        (decide ((if row.id = existing.id then { row with source := p.source } else row).id ∉
        ids)) = decide (row.id ∉ ids) := by
      intro row
      split <;> rfl
    rw [rows, List.filter_map]
    refine (congrArg _ (List.filter_congr fun row _ => ids' row)).trans ?_
    refine (List.map_congr_left fun row member => ?_).trans (List.map_id _)
    refine if_neg fun same => ?_
    have isIdle := of_decide_eq_true (List.mem_filter.mp member).2
    rw [same] at isIdle
    exact isIdle among
  | inserted absent =>
    rw [forwardRows_insert]
    split_ifs
    · rfl
    · rw [List.filter_append, List.filter_cons_of_neg (by simpa using among), List.filter_nil,
        List.append_nil]

theorem filter_idle_append {rows rows' : List Record} {ids : List Nat}
    (same : rows.filter (·.id ∉ ids) = rows'.filter (·.id ∉ ids)) :
    rows.filter (·.id ∉ ids ++ [id]) = rows'.filter (·.id ∉ ids ++ [id]) := by
  have nested : ∀ rows : List Record, rows.filter (·.id ∉ ids ++ [id]) =
      (rows.filter (·.id ∉ ids)).filter (·.id ≠ id) := by
    intro rows
    rw [List.filter_filter]
    refine List.filter_congr fun row _ => ?_
    rw [← Bool.decide_and]
    refine decide_eq_decide.mpr ?_
    rw [List.mem_append, not_or, List.mem_singleton, and_comm]
  rw [nested, nested, same]

theorem Publishing.step (publishing : Publishing n s done state) (source : entry.IsGenerated) :
    Publishing n s (done ++ [entry]) (syncEntry n (zoneRefs s) state entry) := by
  have zones := publishing.upholds.zones
  have same := publishing.upholds.publication_eq entry (n := n)
  rw [← zones]
  cases published : publication n state.store entry with
  | none =>
    obtain ⟨store, ids, ips, -⟩ := syncEntry_of_silent published
    rw [published] at same
    have none : (done ++ [entry]).filterMap (publication n s) = done.filterMap
        (publication n s) := by
      rw [List.filterMap_append, List.filterMap_cons_none same.symm, List.filterMap_nil,
        List.append_nil]
    constructor
    case upholds => rw [store]; exact publishing.upholds
    case faces => exact fun place => by rw [store, none, publishing.faces]
    case ips => rw [ips, none, publishing.ips]
    case found => rw [store, ids, none]; exact publishing.found
    case active => rw [store, ids, none]; exact publishing.active
    case idle => rw [store, ids]; exact publishing.idle
  | some p =>
    obtain ⟨base, id, changed, written, store, ids, ips, -⟩ := syncEntry_of_publication published
    obtain ⟨-, -, isSource, -⟩ := publication_eq_some published
    rw [published] at same
    have some : (done ++ [entry]).filterMap (publication n s) = done.filterMap (publication n s) ++
        [p] := by
      rw [List.filterMap_append, List.filterMap_cons_some same.symm, List.filterMap_nil]
    have write : PtrWrite base p.ip.text true
        (syncEntry n (zoneRefs state.store) state entry).store :=
      store ▸ ptrWrite_syncPtrForARecord
    have onward := (written.upholds (isSource ▸ source)).trans (upholds_ptrWrite write)
    have later : ∀ q row, publishedRow state.store q = Option.some row →
        ∃ row', publishedRow (syncEntry n (zoneRefs state.store) state entry).store q =
          Option.some row' ∧ row'.id = row.id := by
      intro q row isRow
      obtain ⟨row', isRow', sameId, -⟩ := onward.rows q row isRow
      exact ⟨row', isRow', sameId⟩
    have own : ∃ row, publishedRow (syncEntry n (zoneRefs state.store) state entry).store p =
        Option.some row ∧ row.id = id := by
      obtain ⟨row, isRow, isId, -⟩ := written.found
      exact ⟨row, (publishedRow_of_others (others_ptrWrite write)).trans isRow, isId⟩
    constructor
    case upholds => exact publishing.upholds.trans onward
    case faces =>
      intro place
      rw [store, faces_syncPtrForARecord, Store.faces, written.ptrRows, ← Store.faces, some,
        namesAt, List.filter_append, List.foldl_append, ← namesAt, ← publishing.faces,
        List.filter_singleton, placeOf_eq_of_zoneRefs
        ((written.upholds (isSource ▸ source)).zones.trans zones), cond_eq_ite]
      simp only [decide_eq_true_eq]
      split_ifs <;> rfl
    case ips => rw [ips, some, publishing.ips, List.map_append, List.map_singleton]
    case found =>
      rw [some, ids]
      intro q member
      rcases List.mem_append.mp member with old | new
      · obtain ⟨row, isRow, active⟩ := publishing.found q old
        obtain ⟨row', isRow', sameId⟩ := later q row isRow
        exact ⟨row', isRow', List.mem_append_left _ (sameId ▸ active)⟩
      · rw [List.mem_singleton.mp new]
        obtain ⟨row, isRow, isId⟩ := own
        exact ⟨row, isRow, List.mem_append_right _ (List.mem_singleton.mpr isId)⟩
    case active =>
      rw [some, ids]
      intro other member
      rcases List.mem_append.mp member with old | new
      · obtain ⟨q, isOld, row, isRow, isId⟩ := publishing.active other old
        obtain ⟨row', isRow', sameId⟩ := later q row isRow
        exact ⟨q, List.mem_append_left _ isOld, row', isRow', sameId.trans isId⟩
      · rw [List.mem_singleton.mp new]
        exact ⟨p, List.mem_append_right _ (List.mem_singleton_self _), own⟩
    case idle =>
      rw [(forwardRows_ptrWrite write).2, ids,
        written.idle (List.mem_append_right _ (List.mem_singleton_self _))]
      exact filter_idle_append publishing.idle

theorem publishing_foldl (done : List Entry) (source : ∀ entry ∈ done, entry.IsGenerated)
    (ids : List Nat) :
    Publishing n s done (done.foldl (syncEntry n (zoneRefs s)) { store := s, processedZoneIds :=
    ids }) := by
  induction done using List.reverseRecOn with
  | nil => exact ⟨.refl s, fun _ => rfl, rfl, List.forall_mem_nil _, List.forall_mem_nil _, rfl⟩
  | append_singleton done entry ih =>
    rw [List.foldl_append]
    exact (ih fun other member => source other (List.mem_append_left _ member)).step
      (source entry (List.mem_append_right _ (List.mem_singleton_self _)))

/-- **The loop over the entries** writes the rows of the names, and their `PTR`s in turn. -/
theorem publishing_syncEntries : Publishing n s (entries n.env leases) (syncEntries n s leases) :=
  publishing_foldl _ (fun _ => isGenerated_of_mem_entries) _

end Loop

/-! ## Stale rows -/

/-- The zones that are looked at. -/
def lookedAt (n : Naming) (s : Store) (leases : List BackendLease) : List Nat :=
  domainZoneIds n (zoneRefs s) ++
    (entries n.env leases).filterMap fun entry => (publishedAs n (zoneRefs s) entry).map (·.1.id)

/-- The names that entries ask for, of a type. -/
def askedKeys (n : Naming) (s : Store) (leases : List BackendLease) : List NameKey :=
  (entries n.env leases).filterMap fun entry =>
    (publishedAs n (zoneRefs s) entry).map fun (zone, name) =>
      (zone.id, name, recordTypeFor entry.ip)

/-- An address has a name that is published. -/
def isActiveIp (n : Naming) (s : Store) (leases : List BackendLease) (ip : Text) : Bool :=
  (publications n s leases).any fun p => p.ip.text = ip

/-- The row of a lease or a reservation that is not the row of any name, and is not kept for a
lapsed lease. -/
def isLapsed (n : Naming) (s : Store) (leases : List BackendLease) (record : Record) : Bool :=
  isGenerated record && record.zoneId ∈ lookedAt n s leases &&
    !((publications n s leases).any fun p => publishedRow s p = some record) &&
    !(record.source = .dhcp && !isActiveIp n s leases record.value &&
      (record.zoneId, record.name, record.type) ∉ askedKeys n s leases)

/-- The rows that go, with their zones. -/
def lapsedRecords (n : Naming) (s : Store) (leases : List BackendLease) : List (Record × ZoneRef) :=
  s.records.filterMap fun record =>
    if isLapsed n s leases record then
      ((zoneRefs s).find? (·.id = record.zoneId)).map fun zone => (record, zone)
    else none

section Stale

variable {s t : Store} {n : Naming} {p : Publication} {leases : List BackendLease}
    {place : Nat × Text} {record : Record}

theorem mem_lookedAt (apart : ZonesApart (zoneRefs s)) (id : Nat) :
    id ∈ (syncEntries n s leases).processedZoneIds ↔ id ∈ lookedAt n s leases := by
  rw [(synced_syncEntries apart leases).processed, lookedAt, List.mem_append, List.mem_filterMap]
  refine or_congr_right (exists_congr fun entry => and_congr_right fun _ => ?_)
  rw [Option.map_eq_some_iff]
  constructor
  · rintro ⟨zone, name, published, rfl⟩
    exact ⟨(zone, name), published, rfl⟩
  · rintro ⟨⟨zone, name⟩, published, rfl⟩
    exact ⟨zone, name, published, rfl⟩

theorem mem_askedKeys (apart : ZonesApart (zoneRefs s)) (key : NameKey) :
    key ∈ (syncEntries n s leases).activeNames ↔ key ∈ askedKeys n s leases := by
  rw [(synced_syncEntries apart leases).names, askedKeys, List.mem_filterMap]
  refine exists_congr fun entry => and_congr_right fun _ => ?_
  rw [Option.map_eq_some_iff]
  constructor
  · rintro ⟨zone, name, published, rfl⟩
    exact ⟨(zone, name), published, rfl⟩
  · rintro ⟨⟨zone, name⟩, published, rfl⟩
    exact ⟨zone, name, published, rfl⟩

theorem mem_activeIps (ip : Text) : ip ∈ (syncEntries n s leases).activeIps ↔
    isActiveIp n s leases ip = true := by
  rw [publishing_syncEntries.ips, isActiveIp, List.any_eq_true, List.mem_map]
  simp only [decide_eq_true_eq]
  rfl

theorem isReverseId_of_lookedAt (apart : ZonesApart (zoneRefs s)) {id : Nat}
    (looked : id ∈ lookedAt n s leases) :
    isReverseId (zoneRefs s) id = false := by
  obtain ⟨zone, member, rfl, forward⟩ :=
    mem_zoneRefs_of_processed apart ((mem_lookedAt apart id).mpr looked)
  exact apart zone member forward

theorem mem_activeRecordIds (member : record ∈ forwardRows s) :
    record.id ∈ (syncEntries n s leases).activeRecordIds ↔ ∃ p ∈ publications n s leases,
    publishedRow s p = some record := by
  have run := @publishing_syncEntries s n leases
  have isRecord := (mem_forwardRows.mp member).1
  constructor
  · intro active
    obtain ⟨p, isName, row, found, sameId⟩ := run.active _ active
    refine ⟨p, isName, ?_⟩
    cases before : publishedRow s p with
    | some old =>
      obtain ⟨row', found', sameOld, -⟩ := run.upholds.rows p old before
      obtain rfl := Option.some.inj (found.symm.trans found')
      rw [eq_of_id_eq (publishedRow_eq_some before).1 isRecord (sameOld.symm.trans sameId)]
    | none =>
      obtain ⟨row', isRow', sameRecord, key⟩ := run.upholds.stay record member
      obtain ⟨isRow, answers⟩ := publishedRow_eq_some found
      rw [eq_of_id_eq (mem_forwardRows.mp isRow').1 isRow (sameRecord.trans sameId.symm)] at key
      exact absurd (answers.of_sameKey key.symm) (publishedRow_eq_none before isRecord)
  · rintro ⟨p, isName, found⟩
    obtain ⟨row, found', active⟩ := run.found p isName
    obtain ⟨row', found'', sameId, -⟩ := run.upholds.rows p record found
    obtain rfl := Option.some.inj (found'.symm.trans found'')
    exact sameId ▸ active

theorem isRetained_eq (apart : ZonesApart (zoneRefs s)) (record : Record) :
    isRetained (syncEntries n s leases) record =
      (record.source = .dhcp && !isActiveIp n s leases record.value &&
      (record.zoneId, record.name, record.type) ∉ askedKeys n s leases) := by
  have active : decide (record.value ∉ (syncEntries n s leases).activeIps) = !isActiveIp n s leases
      record.value := by
    rw [decide_not, Bool.eq_iff_iff.mpr ((decide_eq_true_iff).trans (mem_activeIps record.value))]
  have asked := @mem_askedKeys s n leases apart (record.zoneId, record.name, record.type)
  rw [isRetained, active, decide_eq_decide.mpr (not_congr asked)]

theorem filterMap_filter_of_none {α β : Type} {items : List α} {test : α → Bool} {f : α → Option β}
    (none : ∀ item ∈ items, test item = false → f item = none) :
    (items.filter test).filterMap f = items.filterMap f := by
  rw [List.filterMap_filter]
  refine List.filterMap_congr fun item member => ?_
  cases isTest : test item with
  | false => exact (none item member isTest).symm
  | true => rfl

/-- **The stale rows are rows from before**, told by what is published. -/
theorem staleRecords_eq (apart : ZonesApart (zoneRefs s)) :
    (staleRecords (syncEntries n s leases)).map (fun stale => (stale.1, zoneRef stale.2)) =
    lapsedRecords n s leases := by
  have run := @publishing_syncEntries s n leases
  have goes := @mem_activeRecordIds s n leases
  have looked := @mem_lookedAt s n leases apart
  have retained := @isRetained_eq s n leases apart
  generalize syncEntries n s leases = state at run goes looked retained
  let chosen : Record → Option (Record × ZoneRef) := fun record =>
    if isGenerated record && record.zoneId ∈ state.processedZoneIds &&
        record.id ∉ state.activeRecordIds && !isRetained state record then
      ((zoneRefs s).find? (·.id = record.zoneId)).map fun zone => (record, zone)
    else none
  have listed : (staleRecords state).map (fun stale => (stale.1, zoneRef stale.2)) =
      state.store.records.filterMap chosen := by
    rw [staleRecords, generatedRecords, List.filter_filterMap, List.map_filterMap]
    refine List.filterMap_congr fun record _ => ?_
    have zone := (@zoneOf_map state.store record).trans (by rw [run.upholds.zones])
    have ready : (decide (record.source = .dhcp) || decide (record.source = .reservation)) =
        isGenerated record := rfl
    dsimp only [chosen]
    rw [ready, ← zone]
    cases isGenerated record && decide (record.zoneId ∈ state.processedZoneIds) with
    | false => rfl
    | true =>
      rw [if_pos rfl, Bool.true_and]
      cases state.store.zoneOf record with
      | none => split <;> rfl
      | some found =>
        rw [Option.map_some, Option.filter_some]
        split <;> rfl
  have restrict : ∀ store : Store, zoneRefs store = zoneRefs s →
      ((forwardRows store).filter (·.id ∉ state.activeRecordIds)).filterMap chosen =
      store.records.filterMap chosen := by
    intro store zones
    rw [forwardRows, List.filter_filter, filterMap_filter_of_none]
    intro record _ left
    refine if_neg fun test => ?_
    simp only [Bool.and_eq_true, decide_eq_true_eq] at test
    rw [zones, isReverseId_of_lookedAt apart ((looked _).mp test.1.1.2),
      decide_eq_true test.1.2] at left
    cases left
  rw [listed, ← restrict _ run.upholds.zones, run.idle, restrict s rfl, lapsedRecords]
  refine List.filterMap_congr fun record member => ?_
  have same : (isGenerated record && decide (record.zoneId ∈ state.processedZoneIds) &&
      decide (record.id ∉ state.activeRecordIds) && !isRetained state record) = isLapsed n s leases
          record := by
    rw [isLapsed, ← retained, decide_eq_decide.mpr (looked record.zoneId)]
    cases isLooked : isGenerated record && decide (record.zoneId ∈ lookedAt n s leases) with
    | false => rfl
    | true =>
      rw [Bool.and_eq_true, decide_eq_true_eq] at isLooked
      have isForward : record ∈ forwardRows s :=
        mem_forwardRows.mpr ⟨member, isReverseId_of_lookedAt apart isLooked.2⟩
      have active : decide (record.id ∈ state.activeRecordIds) =
          (publications n s leases).any fun p => publishedRow s p = some record := by
        rw [Bool.eq_iff_iff, decide_eq_true_eq, goes isForward, List.any_eq_true]
        simp only [decide_eq_true_eq]
      rw [decide_not, active]
  dsimp only [chosen]
  rw [same]

/-! ### What goes with a stale row -/

/-- The stale rows of addresses that answer at a place but have no name. -/
def lapsedAt (n : Naming) (s : Store) (leases : List BackendLease) (place : Nat × Text) :
    List (Record × ZoneRef) :=
  (lapsedRecords n s leases).filter fun lapsed =>
    !isActiveIp n s leases lapsed.1.value && s.placeOf lapsed.1.value = some place

/-- The name of a stale row is cleared. -/
def clearLapsed (context : Context) (faces : List PtrFace) (lapsed : Record × ZoneRef) :
    List PtrFace :=
  clearFaces (ptrGoes context lapsed.1.value) lapsed.1.value
    (fqdnForRecordName lapsed.1.name lapsed.2.name) faces

/-- A row of another zone goes, and a `PTR` of its address with it. -/
theorem faces_removeStale {context : Context} {activeIps : List Text} {stale : Record × Zone}
    (elsewhere : ∀ row ∈ s.records, row.id = stale.1.id → row.zoneId ≠ place.1) :
    (removeStale context activeIps s stale).faces place =
      if !decide (stale.1.value ∈ activeIps) && decide (s.placeOf stale.1.value = some place) then
        clearLapsed context (s.faces place) (stale.1, zoneRef stale.2)
      else s.faces place := by
  have gone : ∀ now : Store, Within s now → (now.deleteId stale.1.id).faces place =
      now.faces place := by
    intro now within
    rw [Store.faces, ptrRows_deleteId, List.filter_eq_self.mpr, ← Store.faces]
    intro row member
    obtain ⟨isRow, -, inZone, -⟩ := mem_ptrRows.mp member
    obtain ⟨old, isOld, sameId, sameZone⟩ := within row isRow
    exact decide_eq_true fun same => elsewhere old isOld (sameId.trans same) (sameZone.trans inZone)
  rw [removeStale]
  by_cases active : stale.1.value ∈ activeIps
  · rw [if_neg (not_not.mpr active), gone s (.refl s), decide_eq_true active]
    rfl
  · rw [if_pos active, gone _ (within_clearPtrForARecord _ _ _), faces_clearPtrForARecord,
      decide_eq_false active, Bool.not_false, Bool.true_and]
    simp only [decide_eq_true_eq]
    rfl

/-- **The `PTR`s after the stale rows went.** -/
theorem faces_removeAll {context : Context} {activeIps : List Text} {stale : List (Record × Zone)}
    (zones : zoneRefs t = zoneRefs s) (elsewhere : ∀ row ∈ t.records, row.id ∈ stale.map (·.1.id) →
    row.zoneId ≠ place.1) :
    (stale.foldl (removeStale context activeIps) t).faces place =
      ((stale.map fun pair => (pair.1, zoneRef pair.2)).filter fun lapsed =>
        !decide (lapsed.1.value ∈ activeIps) &&
          decide (s.placeOf lapsed.1.value = some place)).foldl (clearLapsed context)
              (t.faces place) := by
  induction stale generalizing t with
  | nil => rfl
  | cons first stale ih =>
    have refs := (@forwardRows_removeStale t context activeIps first).1
    rw [List.foldl_cons, ih (refs.trans zones), faces_removeStale, List.map_cons, List.filter_cons,
      placeOf_eq_of_zoneRefs zones]
    · split_ifs <;> rfl
    · exact fun row member same => elsewhere row member (by rw [same]; exact List.mem_cons_self)
    · intro row member isStale
      obtain ⟨old, isOld, sameId, sameZone⟩ := within_removeStale activeIps first row member
      exact sameZone ▸ elsewhere old isOld (List.mem_cons_of_mem _ (sameId ▸ isStale))

/-- **What stands at a place of a reverse zone**: what the names of its address left, less what
stale rows clear. -/
theorem faces_syncDhcpDnsRecords (apart : ZonesApart (zoneRefs s))
    (reverse : isReverseId (zoneRefs s) place.1 = true) :
    (syncDhcpDnsRecords n s leases).1.faces place =
      (lapsedAt n s leases place).foldl (clearLapsed n.toContext)
        (Contest.standing Publication.refusedBy Publication.write (s.faces place)
          (namesAt s place (publications n s leases))) := by
  have run := @publishing_syncEntries s n leases
  have active : ∀ value, decide (value ∈ (syncEntries n s leases).activeIps) = isActiveIp n s
      leases value :=
    fun value => Bool.eq_iff_iff.mpr (decide_eq_true_iff.trans (mem_activeIps value))
  rw [syncDhcpDnsRecords]
  dsimp only
  rw [faces_removeAll run.upholds.zones, staleRecords_eq apart, run.faces,
    Contest.foldl_contend Publication.overwrites, lapsedAt]
  · simp only [active]
    rfl
  · intro row member isStale same
    obtain ⟨-, processed, -, -⟩ := (mem_staleRecords apart member).mp isStale
    rw [← same, isReverseId_of_lookedAt apart ((mem_lookedAt apart _).mp processed)] at reverse
    cases reverse

end Stale

/-! ## The second run -/

section Again

variable {s : Store} {n : Naming} {p : Publication} {leases : List BackendLease}
    {record row : Record} {entry other : Entry}

theorem source_eq_of_ip_eq {env : Env} (member : entry ∈ entries env leases)
    (isOther : other ∈ entries env leases) (same : entry.ip = other.ip) :
    entry.source = other.source := by
  have unreserved : ∀ {lease : BackendLease} {reservation : Reservation},
      lease ∈ leases.filter (fun lease => lease.ip ∉ (namedReservations env).map Reservation.addr) →
      reservation ∈ namedReservations env → lease.ip ≠ reservation.addr := by
    intro lease reservation isLease isReservation sameIp
    exact of_decide_eq_true (List.mem_filter.mp isLease).2
      (sameIp ▸ List.mem_map_of_mem isReservation)
  rw [entries, List.mem_append, List.mem_map, List.mem_map] at member isOther
  rcases member with ⟨lease, isLease, rfl⟩ | ⟨reservation, isReservation, rfl⟩
  · rcases isOther with ⟨_, -, rfl⟩ | ⟨reservation, isReservation, rfl⟩
    · rfl
    · exact absurd same (unreserved isLease isReservation)
  · rcases isOther with ⟨lease, isLease, rfl⟩ | ⟨_, -, rfl⟩
    · exact absurd same.symm (unreserved isLease isReservation)
    · rfl

theorem others_removeStale {context : Context} {activeIps : List Text} (stale : Record × Zone) :
    (removeStale context activeIps s stale).records.filter (·.type ≠ .ptr) =
      (s.records.filter (·.type ≠ .ptr)).filter (·.id ≠ stale.1.id) := by
  have gone : ∀ now : Store, (now.deleteId stale.1.id).records.filter (·.type ≠ .ptr) =
      (now.records.filter (·.type ≠ .ptr)).filter (·.id ≠ stale.1.id) := by
    intro now
    rw [deleteId, delete, List.filter_filter, List.filter_filter]
    refine List.filter_congr fun row _ => ?_
    rw [Bool.and_comm, ← decide_not]
  rw [removeStale]
  split_ifs
  · exact gone s
  · rw [gone, others_ptrWrite ptrWrite_clearPtrForARecord]

theorem others_removeAll {context : Context} {activeIps : List Text}
    (stale : List (Record × Zone)) :
    (stale.foldl (removeStale context activeIps) s).records.filter (·.type ≠ .ptr) =
      (s.records.filter (·.type ≠ .ptr)).filter (·.id ∉ stale.map (·.1.id)) := by
  induction stale generalizing s with
  | nil => exact (List.filter_eq_self.mpr fun _ _ => rfl).symm
  | cons first stale ih =>
    rw [List.foldl_cons, ih, others_removeStale, List.filter_filter]
    refine List.filter_congr fun row _ => ?_
    rw [List.map_cons, ← Bool.decide_and]
    refine decide_eq_decide.mpr ?_
    rw [List.mem_cons, not_or, and_comm]

theorem publishedRow_syncDhcpDnsRecords (found : publishedRow (syncEntries n s leases).store
    p = some row) (stays : row.id ∉ (staleRecords (syncEntries n s leases)).map (·.1.id)) :
    publishedRow (syncDhcpDnsRecords n s leases).1 p = some row := by
  have others : (syncDhcpDnsRecords n s leases).1.records.filter (·.type ≠ .ptr) = _ :=
    others_removeAll (staleRecords (syncEntries n s leases))
  rw [publishedRow_eq_others, List.find?_eq_some_iff_append] at found ⊢
  obtain ⟨test, before, after, split, unanswered⟩ := found
  rw [others, split, List.filter_append, List.filter_cons, if_pos (decide_eq_true stays)]
  exact ⟨test, _, _, rfl, fun other member => unanswered other (List.mem_of_mem_filter member)⟩

theorem stays_of_active (apart : ZonesApart (zoneRefs s))
    (member : row ∈ (syncEntries n s leases).store.records) (active : isGenerated row = true →
    row.id ∈ (syncEntries n s leases).activeRecordIds) :
    row.id ∉ (staleRecords (syncEntries n s leases)).map (·.1.id) := by
  rw [mem_staleRecords apart member]
  exact fun stale => stale.inactive (active stale.generated)

/-- **A second run finds every row as it wants it.** -/
theorem found_again (apart : ZonesApart (zoneRefs s)) (isName : p ∈ publications n s leases) :
    ∃ row, publishedRow (syncDhcpDnsRecords n s leases).1 p = some row ∧ row.source = p.source ∧
      isGenerated row = true := by
  have run := @publishing_syncEntries s n leases
  obtain ⟨row, found, active⟩ := run.found p isName
  obtain ⟨member, answers⟩ := publishedRow_eq_some found
  refine ⟨row, publishedRow_syncDhcpDnsRecords found (stays_of_active apart member fun _ => active),
    ?_⟩
  obtain ⟨entry, isEntry, published⟩ := List.mem_filterMap.mp isName
  obtain ⟨named, ip, source, -⟩ := publication_eq_some published
  have isForward : row ∈ forwardRows (syncEntries n s leases).store := by
    refine mem_forwardRows.mpr ⟨member, ?_⟩
    rw [run.upholds.zones, answers.zoneId]
    exact apart.outside named
  obtain ⟨other, isOther, zone, name, -, rowOf, sameSource⟩ :=
    (synced_syncEntries apart leases).active row isForward active
  have sameIp : entry.ip = other.ip := by
    have texts : other.ip.text = entry.ip.text :=
      rowOf.value.symm.trans (answers.value.trans (congrArg Addr.text ip))
    exact Option.some.inj
      ((addressToBig_text entry.ip).symm.trans
      ((congrArg addressToBig texts.symm).trans (addressToBig_text other.ip)))
  refine ⟨sameSource.trans ((source_eq_of_ip_eq isEntry isOther sameIp).symm.trans source.symm), ?_⟩
  exact isGenerated_of_entry (isGenerated_of_mem_entries isOther) sameSource

/-- **What is published does not change.** -/
theorem publication_again (apart : ZonesApart (zoneRefs s))
    (isEntry : entry ∈ entries n.env leases) :
    publication n (syncDhcpDnsRecords n s leases).1 entry = publication n s entry := by
  rw [publication, zoneRefs_syncDhcpDnsRecords apart]
  cases named : publishedAs n (zoneRefs s) entry with
  | none => rw [publication, named, Option.bind_none, Option.bind_none]
  | some found =>
    obtain ⟨zone, name⟩ := found
    rw [Option.bind_some]
    dsimp only
    cases published : publication n s entry with
    | none =>
      -- the row of the name is another source's, and stays
      rw [publication, named, Option.bind_some] at published
      dsimp only at published
      split_ifs at published with manual
      refine if_pos ?_
      cases before : publishedRow s ⟨entry.ip, zone, name, entry.source⟩ with
      | none => rw [before] at manual; cases manual
      | some old =>
        rw [before, Option.any_some] at manual
        obtain ⟨row, isRow, -, generated⟩ := publishing_syncEntries.upholds.rows _ old before
        have stays := stays_of_active apart (publishedRow_eq_some isRow).1 fun isGenerated => by
          rw [← generated, isGenerated] at manual
          cases manual
        rw [publishedRow_syncDhcpDnsRecords isRow stays, Option.any_some, generated]
        exact manual
    | some p =>
      obtain ⟨row, isRow, -, generated⟩ :=
        found_again apart (List.mem_filterMap.mpr ⟨entry, isEntry, published⟩)
      obtain ⟨named', ip, source, -⟩ := publication_eq_some published
      obtain ⟨rfl, rfl⟩ := Prod.mk.inj (Option.some.inj (named.symm.trans named'))
      have same : p = ⟨entry.ip, p.zone, p.name, entry.source⟩ := by rw [← ip, ← source]
      rw [← same, isRow, Option.any_some, generated, if_neg (by simp)]

theorem publications_again (apart : ZonesApart (zoneRefs s)) :
    publications n (syncDhcpDnsRecords n s leases).1 leases = publications n s leases :=
  List.filterMap_congr fun _ isEntry => publication_again apart isEntry

/-- **No row is stale in a second run.** -/
theorem lapsedRecords_again (apart : ZonesApart (zoneRefs s)) :
    lapsedRecords n (syncDhcpDnsRecords n s leases).1 leases = [] := by
  have run := @publishing_syncEntries s n leases
  have zones := @zoneRefs_syncDhcpDnsRecords n s leases apart
  have names := @publications_again s n leases apart
  rw [lapsedRecords, List.filterMap_eq_nil_iff]
  intro record member
  refine if_neg fun lapsed => ?_
  have looked : lookedAt n (syncDhcpDnsRecords n s leases).1 leases = lookedAt n s
      leases := by rw [lookedAt, zones, lookedAt]
  have asked : askedKeys n (syncDhcpDnsRecords n s leases).1 leases = askedKeys n s leases := by
    rw [askedKeys, zones, askedKeys]
  have ips : isActiveIp n (syncDhcpDnsRecords n s leases).1 leases record.value =
      isActiveIp n s leases record.value := by rw [isActiveIp, names, isActiveIp]
  rw [isLapsed, looked, asked, ips, names, Bool.and_eq_true, Bool.and_eq_true, Bool.and_eq_true,
    decide_eq_true_eq] at lapsed
  obtain ⟨⟨⟨generated, processed⟩, unnamed⟩, unretained⟩ := lapsed
  have isForward : record ∈ forwardRows (syncDhcpDnsRecords n s leases).1 :=
    mem_forwardRows.mpr ⟨member, zones.symm ▸ isReverseId_of_lookedAt apart processed⟩
  obtain ⟨inLoop, fresh⟩ := (mem_forwardRows_syncDhcpDnsRecords apart).mp isForward
  refine fresh ⟨generated, (mem_lookedAt apart _).mpr processed, fun active => ?_, ?_⟩
  · obtain ⟨p, isName, row, found, sameId⟩ := run.active _ active
    obtain rfl := eq_of_id_eq (publishedRow_eq_some found).1 (mem_forwardRows.mp inLoop).1 sameId
    have again := publishedRow_syncDhcpDnsRecords found
      (stays_of_active apart (mem_forwardRows.mp inLoop).1 fun _ => active)
    have named : ((publications n s leases).any fun p =>
        publishedRow (syncDhcpDnsRecords n s leases).1 p = some row) = true :=
      List.any_eq_true.mpr ⟨p, isName, decide_eq_true again⟩
    rw [named] at unnamed
    cases unnamed
  · rw [isRetained_eq apart, ← Bool.not_eq_true']
    exact unretained

/-- Publishing a name changes nothing. -/
def Rests (s : Store) (p : Publication) : Prop := ∀ place, s.placeOf p.ip.text = some place →
  Contest.contend Publication.refusedBy Publication.write (s.faces place) p = s.faces place

theorem configChanged_syncEntry {state : SyncState} (changed : state.configChanged = true) :
    (syncEntry n (zoneRefs state.store) state entry).configChanged = true := by
  cases published : publication n state.store entry with
  | none => rw [(syncEntry_of_silent published).2.2.2, changed]
  | some p =>
    obtain ⟨base, id, also, -, -, -, -, now⟩ := syncEntry_of_publication published
    rw [now, changed]
    rfl

theorem RowWritten.of_same {base : Store} {id : Nat} {changed : Bool}
    (written : RowWritten s p base id changed) (found : publishedRow s p = some row)
    (same : row.source = p.source) : base = s ∧ changed = false := by
  cases written with
  | kept => exact ⟨rfl, rfl⟩
  | takenOver existing isRow generated differs =>
    obtain rfl := Option.some.inj (found.symm.trans isRow)
    exact absurd same differs
  | inserted absent =>
    rw [absent] at found
    cases found

/-- An entry that finds its row as it wants it changes something exactly when its name does
not rest. -/
theorem quiet_syncEntry {state : SyncState} (quiet : state.configChanged = false)
    (found : ∀ p, publication n state.store entry = some p →
      ∃ row, publishedRow state.store p = some row ∧ row.source = p.source) :
    ((syncEntry n (zoneRefs state.store) state entry).configChanged = false ↔
      ∀ p, publication n state.store entry = some p → Rests state.store p) ∧
      ((syncEntry n (zoneRefs state.store) state entry).configChanged = false →
        (syncEntry n (zoneRefs state.store) state entry).store = state.store) := by
  cases published : publication n state.store entry with
  | none =>
    obtain ⟨store, -, -, changed⟩ := syncEntry_of_silent published
    exact ⟨iff_of_true (changed.trans quiet) nofun, fun _ => store⟩
  | some p =>
    obtain ⟨base, id, changed, written, store, -, -, now⟩ := syncEntry_of_publication published
    obtain ⟨row, isRow, same⟩ := found p published
    obtain ⟨rfl, rfl⟩ := written.of_same isRow same
    rw [now, quiet, Bool.false_or, Bool.false_or, decide_eq_false_iff_not, store]
    refine ⟨?_, syncPtrForARecord_quiet⟩
    rw [syncPtrForARecord_updated, not_exists]
    simp only [not_and, not_not, Option.some.injEq, forall_eq']
    rfl

/-- **A loop that finds every row as it wants it** changes something exactly when some name
does not rest. -/
theorem quiet_iff {ids : List Nat} (done : List Entry)
    (found : ∀ p ∈ done.filterMap (publication n s), ∃ row, publishedRow s p = some row ∧
      row.source = p.source ∧ isGenerated row = true) :
    let state := done.foldl (syncEntry n (zoneRefs s)) { store := s, processedZoneIds := ids }
    (state.configChanged = false ↔ ∀ p ∈ done.filterMap (publication n s), Rests s p) ∧
      (state.configChanged = false → state.store = s) ∧ zoneRefs state.store = zoneRefs s := by
  induction done using List.reverseRecOn with
  | nil => exact ⟨iff_of_true rfl (List.forall_mem_nil _), fun _ => rfl, rfl⟩
  | append_singleton done entry ih =>
    rw [List.filterMap_append] at found ⊢
    obtain ⟨quiet, store, zones⟩ := ih fun p member => found p (List.mem_append_left _ member)
    rw [List.foldl_append]
    generalize done.foldl (syncEntry n (zoneRefs s)) { store := s, processedZoneIds := ids } = state
      at quiet store zones
    dsimp only [List.foldl_cons, List.foldl_nil]
    refine (and_assoc.mp ⟨?_, zoneRefs_syncEntry.trans zones⟩)
    rw [← zones, List.forall_mem_append]
    cases before : state.configChanged with
    | true =>
      rw [configChanged_syncEntry before]
      refine ⟨iff_of_false nofun fun rest => ?_, nofun⟩
      rw [quiet.mpr rest.1] at before
      cases before
    | false =>
      obtain rfl := store before
      obtain ⟨now, kept⟩ := @quiet_syncEntry n entry state before fun p published => by
        obtain ⟨row, isRow, same, -⟩ := found p (List.mem_append_right _
          (List.mem_filterMap.mpr ⟨entry, List.mem_singleton_self _, published⟩))
        exact ⟨row, isRow, same⟩
      refine ⟨now.trans ?_, kept⟩
      rw [and_iff_right (quiet.mp before)]
      simp only [List.mem_filterMap, List.mem_singleton, exists_eq_left]

/-- **A second run is quiet** exactly when every name rests on what the first one left, and
then leaves the store as it is. -/
theorem again_iff (apart : ZonesApart (zoneRefs s)) :
    ((syncDhcpDnsRecords n (syncDhcpDnsRecords n s leases).1 leases).2 = false ↔
      ∀ p ∈ publications n s leases, Rests (syncDhcpDnsRecords n s leases).1 p) ∧
      ((syncDhcpDnsRecords n (syncDhcpDnsRecords n s leases).1 leases).2 = false →
        (syncDhcpDnsRecords n (syncDhcpDnsRecords n s leases).1 leases).1 =
        (syncDhcpDnsRecords n s leases).1) := by
  have names := @publications_again s n leases apart
  have found := fun p => @found_again s n p leases apart
  have lapsed := @lapsedRecords_again s n leases apart
  have zones := @zoneRefs_syncDhcpDnsRecords n s leases apart
  generalize (syncDhcpDnsRecords n s leases).1 = t at names found lapsed zones
  rw [← staleRecords_eq (zones.symm ▸ apart), List.map_eq_nil_iff] at lapsed
  obtain ⟨quiet, store, -⟩ := @quiet_iff t n (domainZoneIds n (zoneRefs t)) (entries n.env leases)
      fun p isName =>
    found p (names ▸ isName)
  change (_ ↔ ∀ p ∈ publications n t leases, _) at quiet
  rw [names] at quiet
  rw [syncDhcpDnsRecords]
  dsimp only
  rw [lapsed, List.foldl_nil]
  simp only [ne_eq, not_true_eq_false, decide_false, Bool.or_false]
  exact ⟨quiet, store⟩

end Again

/-! ## What is promised -/

/-- **Publishing settles**: a second run changes no row and asks for no regeneration, and no
`A`, `AAAA` or `CNAME` of another source is changed, deleted or said again. -/
structure PublishingSettles (n : Naming) (s : Store) (leases : List BackendLease) : Prop where
  again : (syncDhcpDnsRecords n (syncDhcpDnsRecords n s leases).1 leases).1.records =
    (syncDhcpDnsRecords n s leases).1.records
  quiet : (syncDhcpDnsRecords n (syncDhcpDnsRecords n s leases).1 leases).2 = false
  spared : ∀ row ∈ s.records, row.type ∈ [RecordType.a, .aaaa, .cname] → isGenerated row = false →
    row ∈ (syncDhcpDnsRecords n s leases).1.records
  unsaid : ∀ old ∈ s.records, old.type ∈ [RecordType.a, .aaaa, .cname] → isGenerated old = false →
    ∀ row ∈ (syncDhcpDnsRecords n s leases).1.records, SameKey old row → ∃ before ∈ s.records,
      before.id = row.id ∧ SameKey before row

/-- The names of an address agree: each is the last one that the `PTR` does not refuse, or is
refused by that. -/
def Agree (faces : List PtrFace) (names : List Publication) : Prop :=
  ∀ last, Contest.lastTaken Publication.refusedBy Publication.write faces names = some last →
    ∀ p ∈ names, p.fqdn = last.fqdn ∨ Publication.refusedBy [last.face] p = true

/-- A stale row has the name that the first row of a place says. -/
def isNamed (faces : List PtrFace) (lapsed : Record × ZoneRef) : Bool :=
  faces.head?.any fun face => toLowerCase face.value = toLowerCase
    (fqdnForRecordName lapsed.1.name lapsed.2.name)

/-- The rows of a place when those that stale rows name are out. -/
def uncovered (faces : List PtrFace) (lapsed : List (Record × ZoneRef)) : List PtrFace :=
  lapsed.foldl (fun faces lapsed => if isNamed faces lapsed then faces.tail else faces) faces

/-- The `PTR` of a place settles: the names of its address agree and no stale row, which gives
the address in another spelling, has the name that stands; or stale rows took out `PTR`s of
an IPv6 address and uncovered one that every name leaves alone. -/
def SettledAt (n : Naming) (s : Store) (leases : List BackendLease) (place : Nat × Text) : Prop :=
  let names := namesAt s place (publications n s leases)
  let standing := Contest.standing Publication.refusedBy Publication.write (s.faces place) names
  ((∀ lapsed ∈ lapsedAt n s leases place, isNamed standing lapsed = false) ∧
    Agree (s.faces place) names) ∨
      (∃ lapsed ∈ lapsedAt n s leases place, isNamed standing lapsed = true) ∧ ∀ p ∈ names,
        p.ip.family = .v6 ∧
        (Publication.refusedBy (uncovered standing (lapsedAt n s leases place)) p = true ∨
        (uncovered standing (lapsedAt n s leases place)).head? = some p.face)

section Settles

variable {s : Store} {n : Naming} {p : Publication} {leases : List BackendLease}
  {place : Nat × Text} {ip : Text} {faces : List PtrFace} {lapsed : Record × ZoneRef}
  {names : List Publication}

theorem placeOf_eq_some (found : s.placeOf ip = some place) :
    ∃ zone ∈ s.zones, zone.id = place.1 ∧
    (⟨zone.name, place.2⟩ : PtrCandidate) ∈ reversePtrCandidates ip := by
  obtain ⟨location, isLocation, rfl⟩ := Option.map_eq_some_iff.mp found
  obtain ⟨candidate, member, located⟩ := List.exists_of_findSome?_eq_some isLocation
  obtain ⟨zone, isZone, rfl⟩ := Option.map_eq_some_iff.mp located
  have test := List.find?_some isZone
  simp only [Bool.and_eq_true, decide_eq_true_eq] at test
  refine ⟨zone, List.mem_of_find?_eq_some isZone, rfl, ?_⟩
  rw [test.1.2]
  exact member

theorem isReverseId_of_placeOf (found : s.placeOf ip = some place) :
    isReverseId (zoneRefs s) place.1 = true := by
  obtain ⟨location, isLocation, rfl⟩ := Option.map_eq_some_iff.mp found
  exact isReverseId_of_location isLocation

theorem addressToBig_of_placeOf (distinct : (s.zones.map Zone.id).Nodup) {addr : Addr}
    (found : s.placeOf ip = some place) (isPlace : s.placeOf addr.text = some place) :
    addressToBig ip = some addr := by
  obtain ⟨zone, isZone, sameId, candidate⟩ := placeOf_eq_some found
  obtain ⟨zone', isZone', sameId', candidate'⟩ := placeOf_eq_some isPlace
  obtain rfl := List.inj_on_of_nodup_map distinct isZone isZone' (sameId.trans sameId'.symm)
  obtain ⟨other, read, count, -, -, cut⟩ := mem_reversePtrCandidates.mp candidate
  have back := ip_of_candidate candidate'
  rw [cut, candidateAt, ipForPtrRecord_recordAt] at back
  have same := congrArg addressToBig (Option.some.inj back)
  rw [addressToBig_text, addressToBig_text] at same
  rw [read, same]

/-- A stale row of an address that has a name takes an IPv6 `PTR` out and bares an IPv4 one. -/
theorem ptrGoes_of_lapsedAt (distinct : (s.zones.map Zone.id).Nodup)
    (isLapsed : lapsed ∈ lapsedAt n s leases place)
    (isName : p ∈ namesAt s place (publications n s leases)) :
    ptrGoes n.toContext lapsed.1.value = decide (p.ip.family = .v6) := by
  obtain ⟨member, isPlace⟩ := List.mem_filter.mp isName
  have test := (List.mem_filter.mp isLapsed).2
  rw [Bool.and_eq_true, Bool.not_eq_true', decide_eq_true_eq] at test
  have read := addressToBig_of_placeOf distinct test.2 (of_decide_eq_true isPlace)
  have unallocated : isAllocatedAddress n.toContext lapsed.1.value = false := by
    rw [isAllocatedAddress, List.any_eq_false]
    intro row _ isRow
    rw [Bool.and_eq_true, decide_eq_true_eq] at isRow
    rw [← isRow.1, addressToBig_text] at read
    rw [isActiveIp, List.any_eq_false] at test
    exact test.1 p member (decide_eq_true (Option.some.inj read ▸ isRow.1))
  rw [ptrGoes, unallocated, Bool.not_false, Bool.and_true, isV6,
    (Address.parseIp_of_noZone (parseIp_of_addressToBig read)).1, Option.any_some]
  cases p.ip.family <;> rfl

theorem clearLapsed_eq (context : Context) : clearLapsed context faces lapsed =
    if isNamed faces lapsed then
      if ptrGoes context lapsed.1.value then faces.tail else ⟨trim lapsed.1.value, .placeholder,
        true⟩ :: faces.tail
    else faces := rfl

theorem foldl_clearLapsed_of_unnamed {context : Context} {stale : List (Record × ZoneRef)}
    (unnamed : ∀ lapsed ∈ stale, isNamed faces lapsed = false) :
    stale.foldl (clearLapsed context) faces = faces := by
  induction stale with
  | nil => rfl
  | cons first stale ih =>
    rw [List.foldl_cons, clearLapsed_eq, unnamed first List.mem_cons_self,
      if_neg Bool.false_ne_true]
    exact ih fun lapsed later => unnamed lapsed (List.mem_cons_of_mem _ later)

/-- Stale rows of an IPv6 address take `PTR`s out. -/
theorem foldl_clearLapsed_of_goes {context : Context} {stale : List (Record × ZoneRef)}
    (goes : ∀ lapsed ∈ stale, ptrGoes context lapsed.1.value = true) :
    stale.foldl (clearLapsed context) faces = uncovered faces stale := by
  induction stale generalizing faces with
  | nil => rfl
  | cons first stale ih =>
    rw [List.foldl_cons, clearLapsed_eq, if_pos (goes first List.mem_cons_self),
      ih fun lapsed later => goes lapsed (List.mem_cons_of_mem _ later)]
    rfl

/-- A bare address stands first. -/
def Bare (faces : List PtrFace) : Prop :=
  ∃ address, isValidAddress address = true ∧ faces.head? = some ⟨address, .placeholder, true⟩

theorem foldl_clearLapsed_of_stays {context : Context} {stale : List (Record × ZoneRef)}
    (stays : ∀ lapsed ∈ stale, ptrGoes context lapsed.1.value = false)
    (valid : ∀ lapsed ∈ stale, isValidAddress lapsed.1.value = true)
    (bares : Bare faces ∨ ∃ lapsed ∈ stale, isNamed faces lapsed = true) :
    Bare (stale.foldl (clearLapsed context) faces) := by
  induction stale generalizing faces with
  | nil => exact bares.resolve_right fun ⟨_, member, _⟩ => absurd member List.not_mem_nil
  | cons first stale ih =>
    rw [List.foldl_cons]
    refine ih (fun lapsed later => stays lapsed (List.mem_cons_of_mem _ later))
      (fun lapsed later => valid lapsed (List.mem_cons_of_mem _ later)) ?_
    rw [clearLapsed_eq, stays first List.mem_cons_self, if_neg Bool.false_ne_true]
    split_ifs with named
    · exact .inl ⟨_, (isValidAddress_trim _).trans (valid first List.mem_cons_self), rfl⟩
    · refine bares.imp_right ?_
      rintro ⟨lapsed, member, isNamed⟩
      rcases List.mem_cons.mp member with rfl | later
      · exact absurd isNamed named
      · exact ⟨lapsed, later, isNamed⟩

theorem not_rests_of_bare (bare : Bare faces) (source : p.source = .dhcp ∨
    p.source = .reservation) :
    Contest.contend Publication.refusedBy Publication.write faces p ≠ faces := by
  obtain ⟨address, valid, first⟩ := bare
  have unrefused : Publication.refusedBy faces p = false := by
    rw [Publication.refusedBy, first, Option.any_some, ptrConflicts, valid]
    simp
  rw [Contest.contend, unrefused, if_neg Bool.false_ne_true, Publication.write]
  intro kept
  rw [← kept, List.head?_cons, Publication.face] at first
  have same := congrArg PtrFace.source (Option.some.inj first)
  rcases source with dhcp | reservation
  · rw [dhcp] at same
    cases same
  · rw [reservation] at same
    cases same

theorem contend_eq_self_iff : Contest.contend Publication.refusedBy Publication.write
    faces p = faces ↔ Publication.refusedBy faces p = true ∨ faces.head? = some p.face := by
  rw [Contest.contend]
  split_ifs with refused
  · exact iff_of_true rfl (.inl refused)
  · rw [or_iff_right refused, Publication.write]
    cases faces with
    | nil => exact iff_of_false (List.cons_ne_nil _ _) (by simp)
    | cons first rest =>
      rw [List.tail_cons, List.head?_cons, List.cons.injEq, and_iff_left rfl,
        Option.some.injEq, eq_comm]

theorem agree_iff (source : ∀ p ∈ names, ∀ q ∈ names, p.source = q.source) :
    (∀ p ∈ names, Contest.contend Publication.refusedBy Publication.write
        (Contest.standing Publication.refusedBy Publication.write faces names) p =
        Contest.standing Publication.refusedBy Publication.write faces names) ↔
        Agree faces names := by
  rw [Contest.settled_iff Publication.overwrites, Agree]
  refine forall_congr' fun last => forall_congr' fun taken => forall₂_congr fun p member => ?_
  have same : Publication.write p faces = Publication.write last faces ↔ p.fqdn = last.fqdn := by
    rw [Publication.write, Publication.write, List.cons.injEq, and_iff_left rfl, Publication.face,
      Publication.face, PtrFace.mk.injEq, and_iff_left rfl,
      and_iff_left (source p member last (Contest.mem_of_lastTaken taken))]
  rw [same, or_comm]
  rfl

theorem isGenerated_source (isName : p ∈ publications n s leases) : p.source = .dhcp ∨
    p.source = .reservation := by
  obtain ⟨entry, isEntry, published⟩ := List.mem_filterMap.mp isName
  obtain ⟨-, -, source, -⟩ := publication_eq_some published
  rw [source]
  exact isGenerated_of_mem_entries isEntry

theorem source_eq_of_namesAt (distinct : (s.zones.map Zone.id).Nodup) {q : Publication}
    (isName : p ∈ namesAt s place (publications n s leases))
    (isOther : q ∈ namesAt s place (publications n s leases)) :
    p.source = q.source := by
  obtain ⟨member, isPlace⟩ := List.mem_filter.mp isName
  obtain ⟨member', isPlace'⟩ := List.mem_filter.mp isOther
  have read := addressToBig_of_placeOf distinct (of_decide_eq_true isPlace)
    (of_decide_eq_true isPlace')
  rw [addressToBig_text] at read
  obtain ⟨entry, isEntry, published⟩ := List.mem_filterMap.mp member
  obtain ⟨entry', isEntry', published'⟩ := List.mem_filterMap.mp member'
  obtain ⟨-, ip, source, -⟩ := publication_eq_some published
  obtain ⟨-, ip', source', -⟩ := publication_eq_some published'
  rw [source, source']
  exact source_eq_of_ip_eq isEntry isEntry' (ip.symm.trans ((Option.some.inj read).trans ip'))

/-- **The names of a place rest on what a run leaves there** exactly when the place settles. -/
theorem settledAt_iff (distinct : (s.zones.map Zone.id).Nodup) :
    (∀ p ∈ namesAt s place (publications n s leases),
      Contest.contend Publication.refusedBy Publication.write
        ((syncDhcpDnsRecords n s leases).1.faces place) p = (syncDhcpDnsRecords n s leases).1.faces
        place) ↔ SettledAt n s leases place := by
  have agree := @agree_iff (s.faces place) (namesAt s place (publications n s leases)) fun p isName
    q isOther =>
    source_eq_of_namesAt distinct isName isOther
  have apart := zonesApart_of_distinct distinct
  rw [SettledAt]
  generalize standing : Contest.standing Publication.refusedBy Publication.write (s.faces place)
    (namesAt s place (publications n s leases)) = left at agree
  by_cases named : ∃ lapsed ∈ lapsedAt n s leases place, isNamed left lapsed = true
  case neg =>
    have unnamed : ∀ lapsed ∈ lapsedAt n s leases place, isNamed left lapsed = false :=
      fun lapsed member =>
      Bool.eq_false_iff.mpr fun isNamed => named ⟨lapsed, member, isNamed⟩
    rw [or_iff_left fun right => named right.1, and_iff_right unnamed, ← agree]
    refine forall₂_congr fun p isName => ?_
    have reverse := isReverseId_of_placeOf (of_decide_eq_true (List.mem_filter.mp isName).2)
    rw [faces_syncDhcpDnsRecords apart reverse, standing, foldl_clearLapsed_of_unnamed unnamed]
  case pos =>
    rw [or_iff_right fun both => by
      obtain ⟨lapsed, member, isNamed⟩ := named
      rw [both.1 lapsed member] at isNamed
      cases isNamed]
    rw [and_iff_right named]
    refine forall₂_congr fun p isName => ?_
    have isPlace := of_decide_eq_true (List.mem_filter.mp isName).2
    have goes := fun lapsed member => @ptrGoes_of_lapsedAt s n p leases place lapsed distinct
      member isName
    rw [faces_syncDhcpDnsRecords apart (isReverseId_of_placeOf isPlace), standing]
    cases family : p.ip.family with
    | v6 =>
      rw [foldl_clearLapsed_of_goes fun lapsed member => (goes lapsed member).trans
        (decide_eq_true family), contend_eq_self_iff, and_iff_right rfl]
    | v4 =>
      refine iff_of_false
        (not_rests_of_bare ?_ (isGenerated_source (List.mem_of_mem_filter isName))) fun both =>
        nomatch both.1
      refine foldl_clearLapsed_of_stays (fun lapsed member => ?_) (fun lapsed member => ?_)
        (.inr named)
      · rw [goes lapsed member, family]
        rfl
      · have test := (List.mem_filter.mp member).2
        rw [Bool.and_eq_true, decide_eq_true_eq] at test
        obtain ⟨location, isLocation, -⟩ := Option.map_eq_some_iff.mp test.2
        exact isValidAddress_of_location isLocation

theorem rests_iff (distinct : (s.zones.map Zone.id).Nodup) :
    (∀ p ∈ publications n s leases, Rests (syncDhcpDnsRecords n s leases).1 p) ↔
      ∀ place, SettledAt n s leases place := by
  have places : ∀ ip, (syncDhcpDnsRecords n s leases).1.placeOf ip = s.placeOf ip := fun ip =>
    placeOf_eq_of_zoneRefs (zoneRefs_syncDhcpDnsRecords (zonesApart_of_distinct distinct))
  constructor
  · intro rests place
    refine (settledAt_iff distinct).mp fun p isName => ?_
    obtain ⟨member, isPlace⟩ := List.mem_filter.mp isName
    exact rests p member place ((places _).trans (of_decide_eq_true isPlace))
  · intro settled p member place isPlace
    exact (settledAt_iff distinct).mpr (settled place) p
      (List.mem_filter.mpr ⟨member, decide_eq_true ((places _).symm.trans isPlace)⟩)

/-! ### Rows of other sources -/

theorem type_ne_ptr {row : Record} (type : row.type ∈ [RecordType.a, .aaaa, .cname]) :
    row.type ≠ .ptr := by
  intro isPtr
  rw [isPtr] at type
  exact absurd type (by decide)

/-- The rows after a run but for `PTR`s: those of the loop that are not stale. -/
theorem mem_syncDhcpDnsRecords_iff (apart : ZonesApart (zoneRefs s)) {row : Record}
    (isOther : row.type ≠ .ptr) :
    row ∈ (syncDhcpDnsRecords n s leases).1.records ↔ row ∈ (syncEntries n s leases).store.records ∧
      ¬ IsStale (syncEntries n s leases) row := by
  have others : (syncDhcpDnsRecords n s leases).1.records.filter (·.type ≠ .ptr) = _ :=
    others_removeAll (staleRecords (syncEntries n s leases))
  have both : row ∈ (syncDhcpDnsRecords n s leases).1.records.filter (·.type ≠ .ptr) ↔
      row ∈ ((syncEntries n s leases).store.records.filter (·.type ≠ .ptr)).filter
        (·.id ∉ (staleRecords (syncEntries n s leases)).map (·.1.id)) := by rw [others]
  rw [List.mem_filter, and_iff_left (decide_eq_true isOther), List.mem_filter, List.mem_filter,
    and_iff_left (decide_eq_true isOther), decide_eq_true_eq] at both
  rw [both]
  exact and_congr_right fun member => not_congr (mem_staleRecords apart member)

/-- **A run leaves the rows of other sources** as they are. -/
theorem spared_by_run (apart : ZonesApart (zoneRefs s)) {row : Record} (member : row ∈ s.records)
    (isOther : row.type ≠ .ptr) (manual : isGenerated row = false) :
    row ∈ (syncDhcpDnsRecords n s leases).1.records := by
  obtain ⟨row', isRow', -, -, -, same⟩ := (@publishing_syncEntries s n leases).upholds.persist row
    member isOther
  rw [same manual] at isRow'
  refine (mem_syncDhcpDnsRecords_iff apart isOther).mpr ⟨isRow', fun stale => ?_⟩
  rw [stale.generated] at manual
  cases manual

/-- **A run says nothing again** that a row says. -/
theorem unsaid_by_run (apart : ZonesApart (zoneRefs s)) {row old : Record} (isOld : old ∈ s.records)
    (isOther : old.type ≠ .ptr) (member : row ∈ (syncDhcpDnsRecords n s leases).1.records)
    (key : SameKey old row) :
    ∃ before ∈ s.records, before.id = row.id ∧ SameKey before row := by
  have type : row.type ≠ .ptr := key.type ▸ isOther
  have inLoop := ((mem_syncDhcpDnsRecords_iff apart type).mp member).1
  rcases publishing_syncEntries.upholds.fresh row inLoop type with ⟨before, isBefore, id, same,
    -⟩ | ⟨-, unsaid⟩
  · exact ⟨before, isBefore, id, same⟩
  · exact absurd key (unsaid old isOld)

/-- **Publishing settles exactly where every `PTR` does.** -/
theorem publishing_settles_iff (distinct : (s.zones.map Zone.id).Nodup) :
    PublishingSettles n s leases ↔ ∀ place, SettledAt n s leases place := by
  have apart := zonesApart_of_distinct distinct
  obtain ⟨quiet, same⟩ := @again_iff s n leases apart
  rw [← rests_iff distinct, ← quiet]
  constructor
  · exact fun settles => settles.quiet
  · intro isQuiet
    refine ⟨congrArg Store.records (same isQuiet), isQuiet, fun row member type manual => ?_, ?_⟩
    · exact spared_by_run apart member (type_ne_ptr type) manual
    · exact fun old isOld type _ row member key => unsaid_by_run apart isOld
        (type_ne_ptr type) member key

/-! ## A network inside another -/

/-- `10.0.0.0/24` and, inside it, `10.0.0.0/25`, with one domain. -/
def nestedNaming : Naming :=
  { sampleNaming with
    env := { sampleNaming.env with
      subnets :=
        { rows := [⟨1, ⟨.v4, 0x0a000000, 24, Network.ten_prefix_le_24, Network.ten_aligned_24,
            Network.ten_fits, Network.ten_unmapped⟩, { domainName := some "z.lan".toList }⟩,
            ⟨2, ⟨.v4, 0x0a000000, 25, Network.ten_prefix_le_25, Network.ten_aligned_25,
            Network.ten_fits, Network.ten_unmapped⟩, { domainName := some "z.lan".toList }⟩]
          nextId := 3
          fresh := by decide
          idsDistinct := by decide
          keysDistinct := by decide } } }

/-- The forward zone of the domain and the reverse zone of the networks, both empty. -/
def nestedStore : Store where
  zones := [⟨1, "z.lan".toList, .forward, true, 1⟩,
    ⟨2, "0.0.10.in-addr.arpa".toList, .reverse, true, 1⟩]
  records := []
  ids := .nil

/-- The lease of an address, read in the network that it is in now and kept from the one
where it was before. -/
def movedLeases : List BackendLease :=
  [{ ip := addressAt .v4 0x0a000009, hostname := some "phone".toList, subnetId := some 2 },
    { ip := addressAt .v4 0x0a000009, hostname := some "laptop".toList, subnetId := some 1 }]

/-- Before the address moves its names are published once. -/
theorem publishing_settles_iff_nested :
    (syncDhcpDnsRecords nestedNaming nestedStore (movedLeases.take 1)).2 = true ∧
      PublishingSettles nestedNaming nestedStore (movedLeases.take 1) := by
  have one : (publications nestedNaming nestedStore (movedLeases.take 1)).length = 1 := by decide
  obtain ⟨only, alone⟩ := List.length_eq_one_iff.mp one
  refine ⟨by decide, (publishing_settles_iff (by decide)).mpr fun place =>
    .inl ⟨fun lapsed stale => ?_, fun last taken p isName => .inl ?_⟩⟩
  · cases (List.mem_filter.mp stale).1
  · have isLast := (List.mem_filter.mp (Contest.mem_of_lastTaken taken)).1
    have isOnly := (List.mem_filter.mp isName).1
    rw [alone, List.mem_singleton] at isLast isOnly
    rw [isLast, isOnly]

/-- **An address that has a lease in two networks** has its `PTR` written twice in every run. -/
theorem moved_lease_never_settles : ¬ PublishingSettles nestedNaming nestedStore movedLeases := by
  intro settles
  have asks : (syncDhcpDnsRecords nestedNaming
      (syncDhcpDnsRecords nestedNaming nestedStore movedLeases).1 movedLeases).2 = true := by decide
  rw [settles.quiet] at asks
  cases asks

end Settles

end LeaseNames

end Cidrella
