import Cidrella.Lib.Alternation
import Cidrella.Lib.Fallible
import Cidrella.Observations

/-!
# What a write can do

Every lifecycle operation is a sequence of writes to the address table and its history.
`Write` says once what one write can do: change the columns of rows, add a row, delete
rows, or only add to the history. Each carries what the invariants need:

* `AllocStep`: the owner of the allocation stays in order, and an address is released,
  leased or held only where the operation's `Licence` says so;
* `LiveStep`: the liveness events are the edges of `is_online`. A row is added as online
  without its edge only where the licence says so.
-/

set_option autoImplicit false

namespace Cidrella

/-! ## The liveness log -/

/-- The liveness edge an event records. -/
def EventType.edge? : EventType → Option Bool
  | .online => some true
  | .offline => some false
  | _ => none

/-- The liveness edges among some events. -/
def edgesOf (types : List EventType) : List Bool := types.filterMap EventType.edge?

namespace IpStore

/-- The liveness edges recorded for a row, the oldest first. -/
def edges (store : IpStore) (id : Nat) : List Bool :=
  store.events.filterMap fun event => if event.ipAddressId = some id then event.type.edge? else none

theorem edges_append (table : Table IpKey IpInfo) (events : List IpEvent) (event : IpEvent)
    (id : Nat) :
    edges ⟨table, events ++ [event]⟩ id = edges ⟨table, events⟩ id ++
      if event.ipAddressId = some id then event.type.edge?.toList else [] := by
  simp only [edges, List.filterMap_append, List.filterMap_cons, List.filterMap_nil]
  split_ifs <;> cases event.type.edge? <;> simp

theorem edges_emit (store : IpStore) (id subnetId : Nat) (addr : Addr) (type : EventType)
    (other : Nat) : (store.emit id subnetId addr type).edges other =
      store.edges other ++ if other = id then type.edge?.toList else [] := by
  refine (edges_append store.table store.events _ other).trans ?_
  simp only [Option.some.injEq, eq_comm]

@[simp] theorem emitAll_table (store : IpStore) (id subnetId : Nat) (addr : Addr)
    (types : List EventType) : (store.emitAll id subnetId addr types).table = store.table := by
  induction types generalizing store with
  | nil => rfl
  | cons type types ih => exact ih (store.emit id subnetId addr type)

theorem edges_emitAll (store : IpStore) (id subnetId : Nat) (addr : Addr) (types : List EventType)
    (other : Nat) : (store.emitAll id subnetId addr types).edges other =
      store.edges other ++ if other = id then edgesOf types else [] := by
  induction types generalizing store with
  | nil => simp [emitAll, edgesOf]
  | cons type types ih =>
    refine (ih (store.emit id subnetId addr type)).trans ?_
    rw [edges_emit]
    by_cases same : other = id
    · cases edge : type.edge? <;> simp [same, edgesOf, edge]
    · simp [same]

@[simp] theorem setInfo_edges (store : IpStore) (id : Nat) (change : IpInfo → IpInfo)
    (other : Nat) :
    (store.setInfo id change).edges other = store.edges other := rfl

end IpStore

/-! ## Ownership -/

/-- The sources that may own a state. -/
def sourceMatches : AllocationState → Option LifecycleSource → Prop
  | .unassigned, source => source = none
  | .reserved, source => source = some .adminReservation ∨ source = some .dns
  | .staticDns, source => source = some .dns
  | .dynamicDhcp, source => source = some .dhcpLease
  | .staticDhcp, source => source = some .dhcpReservation
  | .slaac, source => source = some .slaac
  | .system, source => source = some .topology
  | .gateway, source => source = some .topology
  | .quarantined, _ => True

/-- Nothing of an allocation is left on the row. -/
structure Unowned (info : IpInfo) : Prop where
  sourceType : info.allocationSourceType = none
  sourceId : info.allocationSourceId = none
  version : info.dhcpVersion = none
  duid : info.dhcpDuid = none
  iaid : info.dhcpIaid = none
  preferred : info.preferredUntil = none
  valid : info.validUntil = none

/-- The allocation of a row is in order. -/
structure Owned (info : IpInfo) : Prop where
  unowned : info.allocationState = .unassigned → Unowned info
  source : sourceMatches info.allocationState info.allocationSourceType
  rogue : info.isRogue = true → info.allocationState = .unassigned ∧ info.isOnline = true

theorem owned_blank : Owned {} :=
  ⟨fun _ => ⟨rfl, rfl, rfl, rfl, rfl, rfl, rfl⟩, rfl, fun rogue => absurd rogue (by decide)⟩

/-- A row that a DNS record holds. -/
def IsHold (info : IpInfo) : Prop :=
  info.allocationState = .reserved ∧ info.allocationSourceType = some .dns

/-- What the writes of an operation may do to the row of a key. -/
structure Licence where
  /-- The records that may hold the address. -/
  hold : IpKey → Nat → Prop
  /-- The row may be released or deleted. -/
  free : IpKey → Prop := fun _ => False
  /-- The row may become dynamic. -/
  lease : IpKey → Prop := fun _ => False
  /-- The row may be added as online without an event. -/
  blind : IpKey → Prop := fun _ => False

/-- One licence allows all that another does. -/
structure Licence.Le (may more : Licence) : Prop where
  hold : ∀ key id, may.hold key id → more.hold key id
  free : ∀ key, may.free key → more.free key
  lease : ∀ key, may.lease key → more.lease key
  blind : ∀ key, may.blind key → more.blind key

/-- One change of the allocation of the row of a key. -/
structure AllocStep (may : Licence) (key : IpKey) (old new : IpInfo) : Prop where
  owned : Owned old → Owned new
  released : new.allocationState = .unassigned → old.allocationState = .unassigned ∨ may.free key
  leased : new.allocationState = .dynamicDhcp → old.allocationState = .dynamicDhcp ∨ may.lease key
  held : IsHold new → (IsHold old ∧ new.allocationSourceId = old.allocationSourceId) ∨
    ∃ id, new.allocationSourceId = some id ∧ may.hold key id

/-- One change of a row's liveness, with the edges it records. -/
structure LiveStep (old new : IpInfo) (log : List Bool) : Prop where
  edges : Edges old.isOnline log new.isOnline
  since : new.isOnline = true →
    new.offlineSinceAt = none ∨ (old.isOnline = true ∧ new.offlineSinceAt = old.offlineSinceAt)

theorem AllocStep.mono {may more : Licence} {key : IpKey} {old new : IpInfo}
    (step : AllocStep may key old new) (le : may.Le more) : AllocStep more key old new where
  owned := step.owned
  released := fun unassigned => (step.released unassigned).imp_right (le.free key)
  leased := fun dynamic => (step.leased dynamic).imp_right (le.lease key)
  held := by
    intro isHold
    rcases step.held isHold with kept | ⟨id, given, holds⟩
    · exact .inl kept
    · exact .inr ⟨id, given, le.hold key id holds⟩

/-- A change that leaves the owner alone. A rogue mark is kept, or set on an unassigned
address that is online. -/
theorem AllocStep.of_same {may : Licence} {key : IpKey} {old new : IpInfo}
    (state : new.allocationState = old.allocationState)
    (sourceType : new.allocationSourceType = old.allocationSourceType)
    (sourceId : new.allocationSourceId = old.allocationSourceId)
    (unowned : Unowned old → Unowned new)
    (rogue : new.isRogue = true →
      old.isRogue = true ∧ (old.isOnline = true → new.isOnline = true) ∨
      old.allocationState = .unassigned ∧ new.isOnline = true) :
    AllocStep may key old new where
  owned := by
    intro owned
    refine ⟨fun unassigned => unowned (owned.unowned (state ▸ unassigned)), ?_, ?_⟩
    · rw [state, sourceType]
      exact owned.source
    · intro isRogue
      rcases rogue isRogue with ⟨wasRogue, online⟩ | ⟨unassigned, online⟩
      · obtain ⟨unassigned, wasOnline⟩ := owned.rogue wasRogue
        exact ⟨state.trans unassigned, online wasOnline⟩
      · exact ⟨state.trans unassigned, online⟩
  released := fun unassigned => .inl (state ▸ unassigned)
  leased := fun dynamic => .inl (state ▸ dynamic)
  held := fun isHold => .inl ⟨⟨state ▸ isHold.1, sourceType ▸ isHold.2⟩, sourceId⟩

/-! ## Identity -/

theorem canonicalIdentity_eq_ok {ip : ScopedAddr} {identity : Addr × Option Text}
    (done : canonicalIdentity ip = .ok identity) :
    identity = (ip.addr, truthy (ip.zone.map Address.trim)) := by
  simp only [canonicalIdentity] at done
  split_ifs at done
  exact (Except.ok.inj done).symm

theorem identityKey_eq_ok {subnetId : Nat} {ip : ScopedAddr} {key : IpKey}
    (done : identityKey subnetId ip = .ok key) :
    key = ⟨subnetId, ip.addr, truthy (ip.zone.map Address.trim)⟩ := by
  obtain ⟨identity, found, same⟩ := bind_eq_ok.mp done
  obtain rfl := canonicalIdentity_eq_ok found
  exact (Except.ok.inj same).symm

theorem identityKey_addr {subnetId : Nat} {addr : Addr} {key : IpKey}
    (done : identityKey subnetId addr = .ok key) : key = ⟨subnetId, addr, none⟩ :=
  identityKey_eq_ok done

/-- A key that the identity of its own columns gives again. -/
def CanonicalKey (key : IpKey) : Prop :=
  identityKey key.subnetId ⟨key.addr, key.interfaceId⟩ = .ok key

theorem isTrimmed_of_interfaceChar {c : Char}
    (named : (c.isAlphanum || decide (c ∈ ['.', '_', ':', '-'])) = true) :
    Address.isTrimmed c = false := by
  simp only [Bool.or_eq_true, Text.isAlphanum_iff_toNat, decide_eq_true_eq, List.mem_cons,
    List.not_mem_nil, or_false, ← Char.toNat_inj, Char.reduceToNat] at named
  simp only [Address.isTrimmed, List.mem_cons, List.not_mem_nil, or_false, Bool.or_eq_false_iff,
    decide_eq_false_iff_not, Bool.and_eq_false_iff, Address.char_le_iff, ← Char.toNat_inj,
    Char.reduceToNat]
  omega

theorem canonicalKey_of_identityKey {subnetId : Nat} {ip : ScopedAddr} {key : IpKey}
    (done : identityKey subnetId ip = .ok key) : CanonicalKey key := by
  obtain rfl := identityKey_eq_ok done
  obtain ⟨identity, found, -⟩ := bind_eq_ok.mp done
  have again : truthy ((truthy (ip.zone.map Address.trim)).map Address.trim) =
      truthy (ip.zone.map Address.trim) := by
    simp only [canonicalIdentity] at found
    cases given : truthy (ip.zone.map Address.trim) with
    | none => rfl
    | some name =>
      have filled : name ≠ [] := by
        have kept := Option.filter_eq_some_iff.mp given
        simpa using kept.2
      have valid : isInterfaceName name = true := by
        by_contra invalid
        rw [given] at found
        simp [invalid] at found
      have solid : Address.trim name = name := by
        refine Address.trim_eq_self fun c member => isTrimmed_of_interfaceChar ?_
        simp only [isInterfaceName, Bool.and_eq_true, List.all_eq_true] at valid
        exact valid.2 c member
      simp [solid, truthy, filled]
  simp only [CanonicalKey, identityKey, canonicalIdentity, again] at found ⊢
  rw [found]
  obtain rfl := canonicalIdentity_eq_ok found
  rfl

/-! ## Writes -/

/-- One write to the address table and its history. -/
inductive Write (may : Licence) (store after : IpStore) : Prop where
  | note (table : after.table = store.table) (edges : ∀ id, after.edges id = store.edges id)
  | update (test : IpRow → Bool) (change : IpRow → IpInfo) (log : Nat → List Bool)
      (table : after.table = store.table.update test change)
      (edges : ∀ id, after.edges id = store.edges id ++ log id)
      (quiet : ∀ id, (∀ row ∈ store.table.rows, row.id = id → test row = false) → log id = [])
      (alloc : ∀ row ∈ store.table.rows, test row = true →
        AllocStep may row.key row.info (change row))
      (live : ∀ row ∈ store.table.rows, test row = true →
        LiveStep row.info (change row) (log row.id))
  | insert (key : IpKey) (info : IpInfo) (log : List Bool) (canonical : CanonicalKey key)
      (table : store.table.insert key info = some after.table)
      (edges : ∀ id, after.edges id =
        store.edges id ++ if id = store.table.nextId then log else [])
      (alloc : AllocStep may key {} info)
      (live : LiveStep {} info log ∨ may.blind key)
  | delete (test : IpRow → Bool) (table : after.table = store.table.delete test)
      (edges : ∀ id, after.edges id = store.edges id)
      (freed : ∀ row ∈ store.table.rows, test row = true → may.free row.key)

/-- Any number of writes. -/
def Writes (may : Licence) : IpStore → IpStore → Prop := Relation.ReflTransGen (Write may)

section

variable {may more : Licence} {store after : IpStore}

theorem Write.mono (write : Write may store after) (le : may.Le more) : Write more store after := by
  cases write with
  | note table edges => exact .note table edges
  | update test change log table edges quiet alloc live =>
    exact .update test change log table edges quiet
      (fun row member tested => (alloc row member tested).mono le) live
  | insert key info log canonical table edges alloc live =>
    exact .insert key info log canonical table edges (alloc.mono le) (live.imp_right (le.blind key))
  | delete test table edges freed =>
    exact .delete test table edges fun row member tested => le.free _ (freed row member tested)

theorem Writes.refl (store : IpStore) : Writes may store store := Relation.ReflTransGen.refl

theorem Writes.trans {middle : IpStore} (first : Writes may store middle)
    (second : Writes may middle after) : Writes may store after :=
  Relation.ReflTransGen.trans first second

theorem Write.writes (write : Write may store after) : Writes may store after :=
  Relation.ReflTransGen.single write

theorem Writes.mono (writes : Writes may store after) (le : may.Le more) :
    Writes more store after := by
  induction writes with
  | refl => exact Writes.refl store
  | tail _ write ih => exact ih.trans (write.mono le).writes

theorem Writes.invariant {P : IpStore → Prop}
    (step : ∀ store after, Write may store after → P store → P after)
    (writes : Writes may store after) (start : P store) : P after := by
  induction writes with
  | refl => exact start
  | tail _ write ih => exact step _ _ write ih

theorem Writes.identity (writes : Writes may store after) :
    store.table.nextId ≤ after.table.nextId ∧
      ∀ row ∈ after.table.rows, row.id < store.table.nextId →
        ∃ old ∈ store.table.rows, old.id = row.id ∧ old.key = row.key := by
  refine writes.invariant (P := fun reached => store.table.nextId ≤ reached.table.nextId ∧
    ∀ row ∈ reached.table.rows, row.id < store.table.nextId →
      ∃ old ∈ store.table.rows, old.id = row.id ∧ old.key = row.key) ?_
    ⟨le_rfl, fun row member _ => ⟨row, member, rfl, rfl⟩⟩
  rintro before next write ⟨bound, same⟩
  cases write with
  | note table _ =>
    rw [table]
    exact ⟨bound, same⟩
  | update test change log table =>
    rw [table]
    refine ⟨bound, ?_⟩
    intro row member old
    obtain ⟨found, within, rfl⟩ := Table.mem_update.mp member
    split_ifs at old ⊢
    · exact same found within old
    · exact same found within old
  | insert key info log _ table =>
    obtain ⟨-, -, next⟩ := Table.insert_eq_some table
    refine ⟨by omega, ?_⟩
    intro row member old
    rcases (Table.mem_insert table).mp member with within | rfl
    · exact same row within old
    · exact absurd old (by simpa using bound)
  | delete test table =>
    rw [table]
    exact ⟨bound, fun row member => same row (Table.mem_delete.mp member).1⟩

theorem Writes.present {key : IpKey} (writes : Writes may store after) (kept : ¬ may.free key)
    (there : store.table.lookup key ≠ none) : after.table.lookup key ≠ none := by
  refine writes.invariant (P := fun reached => reached.table.lookup key ≠ none) ?_ there
  intro before next write there
  cases write with
  | note table _ =>
    rw [table]
    exact there
  | update test change log table =>
    rw [table, Table.lookup_update]
    simpa using there
  | insert other info log _ table =>
    rw [Table.lookup_insert table]
    split
    · simp
    · exact there
  | delete test table edges freed =>
    rw [table, Table.lookup_delete]
    obtain ⟨row, found⟩ := Option.ne_none_iff_exists'.mp there
    obtain ⟨member, rfl⟩ := Table.lookup_eq_some.mp found
    rw [found]
    have stays : test row = false := by
      by_contra gone
      exact kept (freed row member (by simpa using gone))
    simp [stays]

theorem Writes.dynamic (writes : Writes may store after) {row : IpRow}
    (member : row ∈ after.table.rows) (dynamic : row.info.allocationState = .dynamicDhcp) :
    may.lease row.key ∨ ∃ old ∈ store.table.rows, old.key = row.key ∧
      old.info.allocationState = .dynamicDhcp := by
  refine writes.invariant (P := fun reached => ∀ row ∈ reached.table.rows,
    row.info.allocationState = .dynamicDhcp → may.lease row.key ∨
      ∃ old ∈ store.table.rows, old.key = row.key ∧ old.info.allocationState = .dynamicDhcp) ?_
    (fun row member dynamic => .inr ⟨row, member, rfl, dynamic⟩) row member dynamic
  intro before next write known row member dynamic
  cases write with
  | note table _ =>
    rw [table] at member
    exact known row member dynamic
  | update test change log table _ _ alloc =>
    rw [table] at member
    obtain ⟨old, within, rfl⟩ := Table.mem_update.mp member
    split_ifs at dynamic ⊢ with tested
    · rcases (alloc old within tested).leased dynamic with was | may
      · exact known old within was
      · exact .inl may
    · exact known old within dynamic
  | insert key info log _ table _ alloc =>
    rcases (Table.mem_insert table).mp member with within | rfl
    · exact known row within dynamic
    · rcases alloc.leased dynamic with was | may
      · exact absurd was (by decide)
      · exact .inl may
  | delete test table =>
    rw [table] at member
    exact known row (Table.mem_delete.mp member).1 dynamic

theorem Write.patch {row : IpRow} {change : IpInfo → IpInfo} {log : List Bool}
    (member : row ∈ store.table.rows)
    (table : after.table = store.table.update (·.id == row.id) fun row => change row.info)
    (edges : ∀ id, after.edges id = store.edges id ++ if id = row.id then log else [])
    (alloc : AllocStep may row.key row.info (change row.info))
    (live : LiveStep row.info (change row.info) log) : Write may store after := by
  have only : ∀ found ∈ store.table.rows, (found.id == row.id) = true → found = row :=
    fun found within same => store.table.eq_of_id_eq within member (by simpa using same)
  refine .update _ _ (fun id => if id = row.id then log else []) table edges ?_ ?_ ?_
  · intro id untouched
    by_cases same : id = row.id
    · exact absurd (untouched row member same.symm) (by simp)
    · rw [if_neg same]
  · intro found within same
    obtain rfl := only found within same
    exact alloc
  · intro found within same
    obtain rfl := only found within same
    rw [if_pos rfl]
    exact live

end

/-! ## The partial update -/

theorem findBySubnetAndIp_eq_ok {store : IpStore} {subnetId : Nat} {ip : ScopedAddr}
    {existing : Option IpRow} (done : store.findBySubnetAndIp subnetId ip = .ok existing) :
    ∃ key, identityKey subnetId ip = .ok key ∧ existing = store.table.lookup key := by
  obtain ⟨key, found, same⟩ := bind_eq_ok.mp done
  exact ⟨key, found, (Except.ok.inj same).symm⟩

/-- What `upsert` does: it updates the row of the address, or makes one. -/
theorem upsert_cases {store after : IpStore} {env : Env} {now subnetId id : Nat} {ip : ScopedAddr}
    {fields : Fields} (done : store.upsert env now subnetId ip fields = .ok (after, id)) :
    ∃ key, identityKey subnetId ip = .ok key ∧
      ((∃ row, store.table.lookup key = some row ∧ id = row.id ∧
        after = (store.setInfo row.id (fields.apply now)).emitAll row.id subnetId key.addr
          (fields.updateEvents row.info)) ∨
      (store.table.lookup key = none ∧ id = store.table.nextId ∧
        ∃ table, store.table.insert key (fields.initial now) = some table ∧
          after = IpStore.emitAll { store with table := table } store.table.nextId key.subnetId
            key.addr fields.insertEvents)) := by
  obtain ⟨key, found, done⟩ := bind_eq_ok.mp done
  refine ⟨key, found, ?_⟩
  cases existing : store.table.lookup key with
  | some row =>
    rw [existing] at done
    obtain ⟨rfl, rfl⟩ := Prod.mk.inj (Except.ok.inj done)
    exact .inl ⟨row, rfl, rfl, rfl⟩
  | none =>
    rw [existing] at done
    simp only [IpStore.create] at done
    split_ifs at done
    cases inserted : store.table.insert key (fields.initial now) with
    | none =>
      rw [inserted] at done
      exact absurd done (by simp)
    | some table =>
      rw [inserted] at done
      obtain ⟨rfl, rfl⟩ := Prod.mk.inj (Except.ok.inj done)
      exact .inr ⟨rfl, rfl, table, rfl, rfl⟩

/-- An update records exactly the edge it makes. -/
theorem liveStep_apply (fields : Fields) (now : Nat) (old : IpInfo)
    (named : ∀ type, fields.allocationEvent = some type → type.edge? = none) :
    LiveStep old (fields.apply now old) (edgesOf (fields.updateEvents old)) := by
  have allocation : edgesOf (if fields.allocationState.any (· ≠ old.allocationState) then
      [fields.allocationEvent.getD .allocationChanged] else []) = [] := by
    split
    · cases event : fields.allocationEvent with
      | none => rfl
      | some type => simp [edgesOf, named type event]
    · rfl
  have hostname :
      edgesOf (if fields.hostname.any (· ≠ old.hostname) then [.hostnameChanged] else []) = [] := by
    split <;> rfl
  have mac : edgesOf (if fields.macAddress.any (· ≠ old.macAddress) then [.macChanged] else []) =
      [] := by
    split <;> rfl
  have events : edgesOf (fields.updateEvents old) =
      fields.isOnline.elim [] fun online => if online ≠ old.isOnline then [online] else [] := by
    simp only [edgesOf] at allocation hostname mac
    simp only [Fields.updateEvents, edgesOf, List.filterMap_append, allocation, hostname, mac,
      List.nil_append, List.append_nil]
    cases fields.isOnline with
    | none => rfl
    | some online => cases online <;> cases old.isOnline <;> rfl
  rw [events]
  cases given : fields.isOnline with
  | none =>
    refine ⟨?_, ?_⟩
    · simp [Fields.apply, given, Edges]
    · intro online
      simp only [Fields.apply, given, Option.getD_none] at online ⊢
      exact .inr ⟨online, trivial⟩
  | some online =>
    refine ⟨?_, ?_⟩
    · simp only [Fields.apply, given, Option.getD_some]
      cases online <;> cases was : old.isOnline <;> simp [Edges]
    · intro isOnline
      simp only [Fields.apply, given, Option.getD_some] at isOnline ⊢
      subst isOnline
      exact .inl rfl

theorem edgesOf_insertEvents (fields : Fields)
    (named : ∀ type, fields.allocationEvent = some type → type.edge? = none) :
    edgesOf fields.insertEvents = [] := by
  unfold Fields.insertEvents
  split
  · cases event : fields.allocationEvent with
    | none => rfl
    | some type => simp [edgesOf, named type event]
  · rfl

theorem liveStep_initial (fields : Fields) (now : Nat) (offline : fields.isOnline ≠ some true) :
    LiveStep {} (fields.initial now) [] := by
  have online : (fields.initial now).isOnline = false := by
    simp only [Fields.initial]
    cases given : fields.isOnline with
    | none => rfl
    | some value =>
      cases value with
      | false => rfl
      | true => exact absurd given offline
  refine ⟨online, fun isOnline => ?_⟩
  rw [online] at isOnline
  exact absurd isOnline (by decide)

section

variable {may : Licence}

theorem write_setInfo_emitAll {store : IpStore} {row : IpRow} {change : IpInfo → IpInfo}
    {subnetId : Nat} {addr : Addr} {types : List EventType} (member : row ∈ store.table.rows)
    (alloc : AllocStep may row.key row.info (change row.info))
    (live : LiveStep row.info (change row.info) (edgesOf types)) :
    Write may store
      ((store.setInfo row.id change).emitAll row.id subnetId addr types) := by
  refine .patch member ?_ ?_ alloc live
  · rw [IpStore.emitAll_table]
    rfl
  · intro id
    rw [IpStore.edges_emitAll, IpStore.setInfo_edges]

theorem write_insert_emitAll {store : IpStore} {table : Table IpKey IpInfo} {key : IpKey}
    {info : IpInfo} {subnetId : Nat} {addr : Addr} {types : List EventType}
    (canonical : CanonicalKey key) (inserted : store.table.insert key info = some table)
    (alloc : AllocStep may key {} info)
    (live : LiveStep {} info (edgesOf types) ∨ may.blind key) :
    Write may store
      (IpStore.emitAll { store with table := table } store.table.nextId subnetId addr types) := by
  refine .insert key info (edgesOf types) canonical ?_ ?_ alloc live
  · rw [IpStore.emitAll_table]
    exact inserted
  · intro id
    rw [IpStore.edges_emitAll]
    rfl

/-- `upsert` is one write. -/
theorem writes_upsert {store after : IpStore} {env : Env} {now subnetId id : Nat} {ip : ScopedAddr}
    {fields : Fields} (done : store.upsert env now subnetId ip fields = .ok (after, id))
    (named : ∀ type, fields.allocationEvent = some type → type.edge? = none)
    (alloc : ∀ key row, identityKey subnetId ip = .ok key → store.table.lookup key = some row →
      AllocStep may key row.info (fields.apply now row.info))
    (allocNew : ∀ key, identityKey subnetId ip = .ok key → store.table.lookup key = none →
      AllocStep may key {} (fields.initial now))
    (sighted : ∀ key, identityKey subnetId ip = .ok key → store.table.lookup key = none →
      fields.isOnline = some true → may.blind key) :
    Writes may store after := by
  obtain ⟨key, found, ⟨row, existing, -, rfl⟩ | ⟨absent, -, table, inserted, rfl⟩⟩ :=
    upsert_cases done
  · obtain ⟨member, keyed⟩ := Table.lookup_eq_some.mp existing
    refine (write_setInfo_emitAll member ?_ (liveStep_apply fields now row.info named)).writes
    rw [keyed]
    exact alloc key row found existing
  · refine (write_insert_emitAll (canonicalKey_of_identityKey found) inserted
      (allocNew key found absent) ?_).writes
    rw [edgesOf_insertEvents fields named]
    by_cases online : fields.isOnline = some true
    · exact .inr (sighted key found absent online)
    · exact .inl (liveStep_initial fields now online)

end

end Cidrella
