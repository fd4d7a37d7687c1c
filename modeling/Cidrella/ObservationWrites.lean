import Cidrella.LifecycleWrites

/-!
# Observations as writes

The second half of the lifecycle as sequences of writes: sightings and scans, leases,
self-assigned addresses, and retirement.
-/

set_option autoImplicit false

namespace Cidrella

theorem foldl_foldl_of_commute {σ α : Type} {first second : σ → α → σ}
    (commute : ∀ state item other, first (second state item) other = second
    (first state other) item) (state : σ) (items : List α) :
    items.foldl second (items.foldl first state) =
      items.foldl (fun state item => second (first state item) item) state := by
  have push : ∀ (items : List α) (state : σ) (item : α),
      items.foldl first (second state item) = second (items.foldl first state) item := by
    intro items
    induction items with
    | nil => intro state item; rfl
    | cons other items ih =>
      intro state item
      rw [List.foldl_cons, commute, ih, List.foldl_cons]
  induction items generalizing state with
  | nil => rfl
  | cons item items ih =>
    rw [List.foldl_cons, List.foldl_cons, List.foldl_cons, ← push, ih]

section

variable {may : Licence} {store after : IpStore} {env : Env} {now subnetId id : Nat}
  {ip : ScopedAddr} {addr : Addr}

theorem unowned_of_same {old new : IpInfo}
    (sourceType : new.allocationSourceType = old.allocationSourceType)
    (sourceId : new.allocationSourceId = old.allocationSourceId)
    (version : new.dhcpVersion = old.dhcpVersion) (duid : new.dhcpDuid = old.dhcpDuid)
    (iaid : new.dhcpIaid = old.dhcpIaid) (preferred : new.preferredUntil = old.preferredUntil)
    (valid : new.validUntil = old.validUntil) (unowned : Unowned old) : Unowned new :=
  ⟨sourceType.trans unowned.sourceType, sourceId.trans unowned.sourceId,
    version.trans unowned.version, duid.trans unowned.duid, iaid.trans unowned.iaid,
    preferred.trans unowned.preferred, valid.trans unowned.valid⟩

/-! ## Sightings -/

theorem writes_setInfo {change : IpInfo → IpInfo}
    (alloc : ∀ row ∈ store.table.rows, row.id = id → AllocStep may row.key row.info
    (change row.info)) (live : ∀ row ∈ store.table.rows, row.id = id →
    LiveStep row.info (change row.info) []) :
    Writes may store (store.setInfo id change) := by
  apply Write.writes
  refine .update _ _ (fun _ => []) rfl ?_ (fun _ _ => rfl) ?_ ?_
  · intro other
    simp
  · intro row member same
    exact alloc row member (by simpa using same)
  · intro row member same
    exact live row member (by simpa using same)

theorem writes_markOnline {mac : Option Text} {source : Option DetectionSource} :
    Writes may store (store.markOnline now subnetId addr mac source) := by
  unfold IpStore.markOnline
  split
  · exact Writes.refl store
  · rename_i row found
    simp only
    generalize changed : (fun old : IpInfo => _) = change
    have alloc : AllocStep may row.key row.info (change row.info) := by
      subst changed
      exact .of_same rfl rfl rfl (unowned_of_same rfl rfl rfl rfl rfl rfl rfl)
        fun rogue => .inl ⟨rogue, fun _ => rfl⟩
    have since : (change row.info).offlineSinceAt = none := by rw [← changed]
    have isOnline : (change row.info).isOnline = true := by rw [← changed]
    have member := Table.mem_of_find? found
    split
    · rename_i online
      change Writes may store ((store.setInfo row.id change).emitAll row.id subnetId addr [])
      refine (write_setInfo_emitAll member alloc ⟨?_, fun _ => .inl since⟩).writes
      exact isOnline.trans online.symm
    · rename_i offline
      change Writes may store ((store.setInfo row.id change).emitAll row.id subnetId addr [.online])
      have edge : Edges row.info.isOnline [true] (change row.info).isOnline :=
        ⟨Ne.symm offline, isOnline⟩
      have live : LiveStep row.info (change row.info) (edgesOf [.online]) :=
        ⟨edge, fun _ => .inl since⟩
      exact (write_setInfo_emitAll member alloc live).writes

theorem IpStore.emitAll_append (store : IpStore) (id subnetId : Nat) (addr : Addr)
    (types more : List EventType) :
    (store.emitAll id subnetId addr types).emitAll id subnetId addr more =
      store.emitAll id subnetId addr (types ++ more) :=
  (List.foldl_append).symm

theorem lookup_of_findAnyInterface (absent : store.findAnyInterface subnetId addr = none) :
    store.table.lookup ⟨subnetId, addr, none⟩ = none := by
  rw [Table.lookup_eq_none]
  intro row member same
  have missing := List.find?_eq_none.mp absent row member
  simp [same] at missing

/-- An unknown address that is made with its own `online` event. -/
theorem writes_sighted {fields : Fields} {types : List EventType}
    (absent : store.findAnyInterface subnetId addr = none)
    (done : store.upsert env now subnetId addr fields = .ok (after, id))
    (named : fields.allocationEvent = none) (online : fields.isOnline = some true)
    (alloc : AllocStep may ⟨subnetId, addr, none⟩ {} (fields.initial now))
    (edge : edgesOf types = [true]) :
    Writes may store (after.emitAll id subnetId addr types) := by
  obtain ⟨key, found, ⟨row, existing, -, rfl⟩ | ⟨-, rfl, table, inserted, rfl⟩⟩ := upsert_cases done
  · obtain rfl := identityKey_addr found
    rw [lookup_of_findAnyInterface absent] at existing
    exact absurd existing (by simp)
  · have canonical := canonicalKey_of_identityKey found
    obtain rfl := identityKey_addr found
    rw [IpStore.emitAll_append]
    refine (write_insert_emitAll canonical inserted alloc (.inl ?_)).writes
    have log : edgesOf (fields.insertEvents ++ types) = [true] := by
      have none := edgesOf_insertEvents fields (by simp [named])
      unfold edgesOf at none edge ⊢
      rw [List.filterMap_append, none, edge]
      rfl
    rw [log]
    have isOnline : (fields.initial now).isOnline = true := by simp [Fields.initial, online]
    exact ⟨⟨by simp, isOnline⟩, fun _ => .inl rfl⟩

theorem writes_recordPassiveActivity {mac : Option Text} {source : DetectionSource}
    {createRogue : Bool} {rogueReason : Text}
    (done : store.recordPassiveActivity env now subnetId addr mac source createRogue rogueReason =
      .ok after) : Writes may store after := by
  unfold IpStore.recordPassiveActivity at done
  split at done
  · obtain rfl := Except.ok.inj done
    exact writes_markOnline
  · rename_i absent
    split at done
    · obtain rfl := Except.ok.inj done
      exact Writes.refl store
    · obtain ⟨⟨created, id⟩, upserted, same⟩ := bind_eq_ok.mp done
      obtain rfl := Except.ok.inj same
      refine writes_sighted absent upserted rfl rfl ?_ rfl
      exact .of_same rfl rfl rfl (unowned_of_same rfl rfl rfl rfl rfl rfl rfl)
        fun _ => .inr ⟨rfl, rfl⟩

/-! ## Going offline -/

theorem allocStep_offline {key : IpKey} (now : Nat) (old : IpInfo) :
    AllocStep may key old (IpStore.offlineInfo now old) :=
  .of_same rfl rfl rfl (unowned_of_same rfl rfl rfl rfl rfl rfl rfl)
    fun rogue => absurd rogue (by simp [IpStore.offlineInfo])

theorem liveStep_offline (now : Nat) (row : IpRow) :
    LiveStep row.info (IpStore.offlineInfo now row.info) (edgesOf (IpStore.offlineEvents row)) := by
  refine ⟨?_, fun online => absurd online (by simp [IpStore.offlineInfo])⟩
  unfold IpStore.offlineEvents IpStore.offlineInfo
  cases row.info.isOnline <;> cases row.info.isRogue <;> simp [edgesOf, EventType.edge?, Edges,
    List.filterMap_cons]

theorem writes_offline {row : IpRow} (member : row ∈ store.table.rows) :
    Writes may store
      ((store.emitAll row.id subnetId addr (IpStore.offlineEvents row)).setInfo row.id
      (IpStore.offlineInfo now)) := by
  apply Write.writes
  refine .patch member ?_ ?_ (allocStep_offline now row.info) (liveStep_offline now row)
  · simp only [IpStore.setInfo, IpStore.emitAll_table]
  · intro other
    rw [IpStore.setInfo_edges, IpStore.edges_emitAll]

theorem writes_markOffline : Writes may store (store.markOffline now subnetId addr) := by
  unfold IpStore.markOffline
  split
  · exact Writes.refl store
  · rename_i row found
    exact writes_offline (Table.mem_of_find? found)

theorem writes_clearRogueAfterScan {probedIps exceptIps : List Addr} :
    Writes may store (store.clearRogueAfterScan subnetId probedIps exceptIps) := by
  unfold IpStore.clearRogueAfterScan
  simp only
  generalize store.table.rows.filter _ = rows
  induction rows generalizing store with
  | nil => exact Writes.refl store
  | cons row rows ih =>
    refine Writes.trans ?_ ih
    refine (writes_emit rfl).trans (writes_setInfo ?_ ?_)
    · intro found _ _
      exact .of_same rfl rfl rfl (unowned_of_same rfl rfl rfl rfl rfl rfl rfl)
        fun rogue => absurd rogue (by simp)
    · intro found _ _
      exact ⟨rfl, fun online => .inr ⟨online, rfl⟩⟩

theorem IpStore.emit_setInfo (store : IpStore) (changed : Nat) (change : IpInfo → IpInfo)
    (id subnetId : Nat) (addr : Addr) (type : EventType) :
    (store.setInfo changed change).emit id subnetId addr type =
      (store.emit id subnetId addr type).setInfo changed change := by
  unfold IpStore.emit
  simp only [IpStore.setInfo, Table.byId_update, Option.map_map]
  cases store.table.byId id with
  | none => rfl
  | some row =>
    have addr : (if row.id == changed then { row with info := change row.info } else row).key =
        row.key := by
      split <;> rfl
    simp only [Option.map_some, Function.comp_apply, Option.bind_some, addr]

theorem IpStore.emitAll_setInfo (store : IpStore) (changed : Nat) (change : IpInfo → IpInfo)
    (id subnetId : Nat) (addr : Addr) (types : List EventType) :
    (store.setInfo changed change).emitAll id subnetId addr types =
      (store.emitAll id subnetId addr types).setInfo changed change := by
  induction types generalizing store with
  | nil => rfl
  | cons type types ih =>
    refine Eq.trans ?_ (ih (store.emit id subnetId addr type))
    rw [← IpStore.emit_setInfo]
    rfl

theorem writes_offline_rows {rows : List IpRow} (members : ∀ row ∈ rows, row ∈ store.table.rows)
    (distinct : (rows.map Row.id).Nodup) :
    Writes may store (rows.foldl (fun store row =>
      (store.emitAll row.id row.key.subnetId row.key.addr (IpStore.offlineEvents row)).setInfo
        row.id (IpStore.offlineInfo now)) store) := by
  induction rows generalizing store with
  | nil => exact Writes.refl store
  | cons row rows ih =>
    rw [List.map_cons, List.nodup_cons] at distinct
    refine Writes.trans (writes_offline (members row List.mem_cons_self)) (ih ?_ distinct.2)
    intro other within
    have differs : other.id ≠ row.id := by
      intro same
      exact distinct.1 (same ▸ List.mem_map_of_mem within)
    simp only [IpStore.setInfo, IpStore.emitAll_table]
    exact Table.mem_update.mpr
      ⟨other, members other (List.mem_cons_of_mem _ within), by simp [differs]⟩

theorem writes_bulkMarkStale {staleSeconds : Nat} :
    Writes may store (store.bulkMarkStale env now staleSeconds) := by
  unfold IpStore.bulkMarkStale
  simp only
  rw [foldl_foldl_of_commute]
  · exact writes_offline_rows (fun row member => List.mem_of_mem_filter member)
      (store.table.idsDistinct.sublist ((List.filter_sublist).map Row.id))
  · intro state row other
    exact IpStore.emitAll_setInfo _ _ _ _ _ _ _

/-! ## Scans -/

theorem allocStep_scanned {key : IpKey} {result : IpStore.ScanResult} {conflict : Bool}
    {old : IpInfo} (unclaimed : conflict = true → old.allocationState = .unassigned) (now : Nat) :
    AllocStep may key old (IpStore.scannedInfo now result conflict old) := by
  refine .of_same rfl rfl rfl (unowned_of_same rfl rfl rfl rfl rfl rfl rfl) ?_
  intro rogue
  simp only [IpStore.scannedInfo, Bool.and_eq_true] at rogue
  refine .inr ⟨unclaimed rogue.2, ?_⟩
  simp [IpStore.scannedInfo, rogue.1]

theorem edgesOf_scanEvents (result : IpStore.ScanResult) (conflict : Bool) (old : IpInfo) :
    edgesOf (IpStore.scanEvents result conflict old) =
      if result.responded && !old.isOnline then [true]
      else if !(result.responded || (old.isOnline && IpStore.seenSinceScan old)) &&
          old.isOnline then
        [false]
      else [] := by
  have mac : edgesOf (if IpStore.macReplaced old result.mac then [.macChanged] else []) = [] := by
    split <;> rfl
  have rogue : edgesOf (if conflict && !old.isRogue then [.rogueDetected]
      else if !conflict && old.isRogue then [.rogueCleared] else []) = [] := by
    split
    · rfl
    · split <;> rfl
  simp only [edgesOf] at mac rogue
  simp only [IpStore.scanEvents, edgesOf, List.filterMap_append, mac, rogue, List.append_nil]
  split
  · rfl
  · split <;> rfl

theorem liveStep_scanned (now : Nat) (result : IpStore.ScanResult) (conflict : Bool)
    (old : IpInfo) :
    LiveStep old (IpStore.scannedInfo now result conflict old)
      (edgesOf (IpStore.scanEvents result conflict old)) := by
  rw [edgesOf_scanEvents]
  unfold IpStore.scannedInfo
  constructor
  · cases result.responded <;> cases old.isOnline <;> cases IpStore.seenSinceScan old <;>
      simp [Edges]
  · cases result.responded with
    | true => exact fun _ => .inl rfl
    | false =>
      cases online : old.isOnline with
      | false => simp
      | true => cases IpStore.seenSinceScan old <;> simp

theorem writes_updateFromScan {result : IpStore.ScanResult}
    (done : store.updateFromScan env now subnetId addr result = .ok after) :
    Writes may store after := by
  unfold IpStore.updateFromScan at done
  simp only at done
  split at done
  · rename_i row found
    obtain rfl := Except.ok.inj done
    refine (write_setInfo_emitAll (Table.mem_of_find? found) (allocStep_scanned ?_ now)
      (liveStep_scanned now result _ row.info)).writes
    intro conflict
    rw [found] at conflict
    simp [IpStore.addressClaim] at conflict
    exact conflict.2
  · rename_i absent
    split at done
    · obtain rfl := Except.ok.inj done
      exact Writes.refl store
    · obtain ⟨⟨created, id⟩, upserted, same⟩ := bind_eq_ok.mp done
      obtain rfl := Except.ok.inj same
      refine writes_sighted absent upserted rfl rfl ?_ ?_
      · exact .of_same rfl rfl rfl (unowned_of_same rfl rfl rfl rfl rfl rfl rfl)
          fun _ => .inr ⟨rfl, rfl⟩
      · split <;> rfl

theorem writes_setScanEnabled {scanEnabled : Option Bool}
    (done : store.setScanEnabled env now subnetId addr scanEnabled = .ok after) :
    Writes may store after := by
  have set : ∀ (before : IpStore) (id : Nat),
      Writes may before (before.setInfo id fun old => { old with scanEnabled := scanEnabled }) := by
    intro before id
    refine writes_setInfo ?_ ?_
    · intro row _ _
      exact .of_same rfl rfl rfl (unowned_of_same rfl rfl rfl rfl rfl rfl rfl)
        fun rogue => .inl ⟨rogue, fun online => online⟩
    · intro row _ _
      exact ⟨rfl, fun online => .inr ⟨online, rfl⟩⟩
  unfold IpStore.setScanEnabled at done
  split at done
  · rename_i row found
    simp only at done
    obtain rfl := Except.ok.inj done
    split
    · exact set store row.id
    · exact (set store row.id).trans (writes_emit rfl)
  · obtain ⟨⟨created, id⟩, upserted, same⟩ := bind_eq_ok.mp done
    obtain rfl := Except.ok.inj same
    exact (writes_metadata_quiet upserted (by constructor <;> simp) rfl).trans
      ((set created id).trans (writes_emit rfl))

/-! ## Neighbors and self-assigned addresses -/

theorem writes_observeSlaac {interfaceId : Option Text} {preferredUntil validUntil : Option Nat}
    {temporary : Bool}
    (done : store.observeSlaac env now subnetId ip interfaceId preferredUntil validUntil temporary =
      .ok after) : Writes may store after := by
  unfold IpStore.observeSlaac at done
  split at done
  · exact absurd done (by simp)
  · obtain ⟨_, -, done⟩ := bind_eq_ok.mp done
    exact writes_setCanonicalAllocation done (fun _ _ => by constructor <;> simp [sourceMatches])
      (by constructor <;> simp [EventType.edge?]) (by simp) (by simp)

theorem writes_observeDhcpv6Lease {lease : IpStore.Dhcpv6Lease}
    (done : store.observeDhcpv6Lease env now subnetId addr lease = .ok after)
    (leased : may.lease ⟨subnetId, addr, none⟩)
    (sighted : lease.observedActivity = true → store.table.lookup ⟨subnetId, addr, none⟩ = none →
      may.blind ⟨subnetId, addr, none⟩) : Writes may store after := by
  unfold IpStore.observeDhcpv6Lease at done
  split at done
  · split at done
    · exact absurd done (by simp)
    · split at done
      · exact absurd done (by simp)
      · obtain ⟨_, -, done⟩ := bind_eq_ok.mp done
        refine writes_setCanonicalAllocation done (fun key found => ?_)
          (by constructor <;> simp [EventType.edge?]) (by simp) ?_
        · obtain rfl := identityKey_addr found
          exact { leased := fun _ => leased }
        · intro key found absent online
          obtain rfl := identityKey_addr found
          cases active : lease.observedActivity with
          | true => exact sighted active absent
          | false => exact absurd online (by simp [active])
  · exact absurd done (by simp)

theorem writes_observeNeighbor {interfaceId mac : Option Text} {rogueAllowed : Bool}
    {source : DetectionSource}
    (done : store.observeNeighbor env now subnetId ip interfaceId mac rogueAllowed
    source = .ok after) (sighted : ∀ key,
      identityKey subnetId (IpStore.lifecycleIdentityIp ip interfaceId) = .ok key →
      store.table.lookup key = none → may.blind key) : Writes may store after := by
  obtain ⟨existing, looked, done⟩ := bind_eq_ok.mp done
  obtain ⟨key, found, rfl⟩ := findBySubnetAndIp_eq_ok looked
  obtain ⟨⟨reached, id⟩, upserted, same⟩ := bind_eq_ok.mp done
  obtain rfl := Except.ok.inj same
  refine writes_upsert upserted (by simp) ?_ ?_ fun other same absent _ => sighted other same absent
  · intro other row same existing
    obtain rfl : key = other := Except.ok.inj (found.symm.trans same)
    refine .of_same rfl rfl rfl (unowned_of_same rfl rfl rfl rfl rfl rfl rfl) ?_
    intro rogue
    simp only [Fields.apply, Option.getD_some, Bool.and_eq_true, decide_eq_true_eq,
      existing] at rogue
    exact .inr ⟨by simpa [IpStore.stateOf] using rogue.2, rfl⟩
  · intro other _ _
    exact .of_same rfl rfl rfl (unowned_of_same rfl rfl rfl rfl rfl rfl rfl)
      fun _ => .inr ⟨rfl, rfl⟩

/-- Whether `observeIpv6Presence` gives an address it finds unassigned to SLAAC. -/
def selfAssigns (ip : ScopedAddr) (policy : IpStore.DiscoveryPolicy) : Bool :=
  !ip.addr.looksLinkLocal && (policy.mode = some .slaac || policy.mode = some .stateless)

theorem lifecycleIdentityIp_none (ip : ScopedAddr) : IpStore.lifecycleIdentityIp ip none = ip := by
  simp [IpStore.lifecycleIdentityIp, truthy]

/-- The interface only counts for a link-local address. -/
def presenceIdentity (ip : ScopedAddr) (interfaceId : Option Text) : ScopedAddr :=
  if ip.addr.looksLinkLocal then IpStore.lifecycleIdentityIp ip interfaceId else ip

theorem writes_observeIpv6Presence {interfaceId mac : Option Text}
    {policy : IpStore.DiscoveryPolicy} {source : DetectionSource}
    (done : store.observeIpv6Presence env now subnetId ip interfaceId mac policy source = .ok after)
    (sighted : selfAssigns ip policy = false → ∀ key,
      identityKey subnetId (presenceIdentity ip interfaceId) = .ok key →
        store.table.lookup key = none → may.blind key) : Writes may store after := by
  unfold IpStore.observeIpv6Presence at done
  split at done
  · rename_i linkLocal
    refine writes_observeNeighbor done fun key found => ?_
    refine sighted (by simp [selfAssigns, linkLocal]) key ?_
    simpa [presenceIdentity, linkLocal] using found
  · rename_i global
    split at done
    · obtain ⟨existing, looked, done⟩ := bind_eq_ok.mp done
      obtain ⟨key, found, rfl⟩ := findBySubnetAndIp_eq_ok looked
      have known : ∀ claimed, Writes may store claimed → claimed.table.lookup key ≠ none →
          claimed.observeNeighbor env now subnetId ip none mac false source = .ok after →
          Writes may store after := by
        intro claimed first there second
        refine first.trans (writes_observeNeighbor second fun other same absent => ?_)
        rw [lifecycleIdentityIp_none, found] at same
        obtain rfl := Except.ok.inj same
        exact absurd absent there
      simp only at done
      split at done
      · obtain ⟨claimed, first, second⟩ := bind_eq_ok.mp done
        refine known claimed (writes_observeSlaac first) ?_ second
        obtain ⟨_, -, first⟩ := bind_eq_ok.mp first
        obtain ⟨other, row, same, there, -⟩ := lookup_setCanonicalAllocation first
        rw [lifecycleIdentityIp_none, found] at same
        obtain rfl := Except.ok.inj same
        simp [there]
      · rename_i owned
        refine known store (Writes.refl store) (fun absent => owned ?_) done
        simp [absent, IpStore.stateOf]
    · rename_i mode
      refine writes_observeNeighbor done fun key found => ?_
      refine sighted (by simpa [selfAssigns, global] using mode) key ?_
      rw [lifecycleIdentityIp_none] at found
      simpa [presenceIdentity, global] using found

theorem writes_observeRouterAdvertisement {interfaceId : Option Text} {trusted : Bool}
    (done : store.observeRouterAdvertisement env now subnetId ip interfaceId trusted = .ok after) :
    Writes may store after := by
  unfold IpStore.observeRouterAdvertisement at done
  split at done
  · exact absurd done (by simp)
  · obtain ⟨_, -, done⟩ := bind_eq_ok.mp done
    exact writes_setCanonicalAllocation done (fun _ _ => by constructor <;> simp [sourceMatches])
      (by constructor <;> simp [EventType.edge?]) (by simp) (by simp)

/-! ## Leases -/

/-- A reservation or an active lease keeps a dynamic row. -/
def Env.keeps (env : Env) (now : Nat) (key : IpKey) : Bool :=
  (env.enabledReservationAt key.subnetId key.addr).isSome ||
    env.hasActiveLease now key.subnetId key.addr

theorem writes_removeOtherRowsForMac {mac : Option Text}
    (freed : ∀ row ∈ store.table.rows, row.info.allocationState = .dynamicDhcp →
      env.keeps now row.key = false → may.free row.key) :
    Writes may store (store.removeOtherRowsForMac env now subnetId addr mac) := by
  unfold IpStore.removeOtherRowsForMac
  split
  · exact Writes.refl store
  · apply Write.writes
    refine .delete _ rfl (fun _ => rfl) ?_
    intro row member removed
    simp only [Bool.and_eq_true, decide_eq_true_eq, Option.isNone_iff_eq_none,
      Bool.not_eq_true'] at removed
    refine freed row member removed.1.1.2 ?_
    simp [Env.keeps, removed.1.2, removed.2]

theorem writes_syncLeaseToIp {lease : IpStore.ObservedLease}
    (done : store.syncLeaseToIp env now lease = .ok after)
    (freed : ∀ row ∈ store.table.rows, row.info.allocationState = .dynamicDhcp →
      env.keeps now row.key = false → may.free row.key)
    (sighted : ∀ subnetId, lease.subnetId = some subnetId → lease.observedActivity = true →
      (store.removeOtherRowsForMac env now subnetId lease.addr lease.mac).table.lookup
        ⟨subnetId, lease.addr, none⟩ = none → may.blind ⟨subnetId, lease.addr, none⟩) :
    Writes may store after := by
  unfold IpStore.syncLeaseToIp at done
  split at done
  · obtain rfl := Except.ok.inj done
    exact Writes.refl store
  · rename_i subnetId given
    have removed : Writes may store
        (store.removeOtherRowsForMac env now subnetId lease.addr lease.mac) :=
      writes_removeOtherRowsForMac freed
    obtain ⟨before, -, done⟩ := bind_eq_ok.mp done
    obtain ⟨⟨leased, id⟩, upserted, done⟩ := bind_eq_ok.mp done
    have sync : Writes may (store.removeOtherRowsForMac env now subnetId lease.addr lease.mac)
        leased := by
      refine writes_metadata upserted { online := ?_ } ?_
      · simp only
        split <;> simp
      · intro key found absent online
        obtain rfl := identityKey_addr found
        simp only at online
        split at online
        · rename_i active
          refine sighted subnetId given ?_ absent
          simp only [Bool.and_eq_true] at active
          exact active.2
        · exact absurd online (by simp)
    have rest : ∀ synced : IpStore, Writes may leased synced →
        after = (if lease.newLease then
          (synced.clearRogue subnetId lease.addr).emitEvent subnetId lease.addr .leaseObtained
          else synced.clearRogue subnetId lease.addr) → Writes may leased after := by
      intro synced renamed same
      rw [same]
      split
      · exact renamed.trans (writes_clearRogue.trans (writes_emitEvent rfl))
      · exact renamed.trans writes_clearRogue
    refine removed.trans (sync.trans ?_)
    simp only at done
    split at done
    · obtain ⟨synced, renamed, same⟩ := bind_eq_ok.mp done
      exact rest synced (writes_syncCanonicalHostname renamed) (Except.ok.inj same).symm
    · exact rest leased (Writes.refl leased) (Except.ok.inj done).symm

/-- A dynamic row of the key that nothing keeps. -/
def IpStore.Removable (store : IpStore) (env : Env) (now : Nat) (key : IpKey) : Prop :=
  env.keeps now key = false ∧
    ∃ row ∈ store.table.rows, row.key = key ∧ row.info.allocationState = .dynamicDhcp

/-- A lease of the batch names the address of the key. -/
def inBatch (leases : List IpStore.ObservedLease) (key : IpKey) : Prop :=
  ∃ lease ∈ leases, lease.subnetId = some key.subnetId ∧ lease.addr = key.addr

/-- The batch brings the address online, and its row is not there or may go before. -/
def IpStore.BlindLease (store : IpStore) (env : Env) (now : Nat)
    (leases : List IpStore.ObservedLease) (key : IpKey) : Prop :=
  (∃ lease ∈ leases, lease.observedActivity = true ∧ lease.subnetId = some key.subnetId ∧
    lease.addr = key.addr) ∧ (store.table.lookup key = none ∨ store.Removable env now key)

/-- What `syncLeasesToIps` may do. -/
def syncLicence (env : Env) (now : Nat) (store : IpStore) (leases : List IpStore.ObservedLease) :
    Licence where
  hold := holders env
  free := store.Removable env now
  blind := store.BlindLease env now leases

theorem writes_syncLeasesToIps {leases : List IpStore.ObservedLease}
    (done : store.syncLeasesToIps env now leases = .ok after) :
    Writes (syncLicence env now store leases) store after := by
  refine foldlM_invariant ?_ done (Writes.refl store)
  intro lease member before next reached step
  have freed : ∀ row ∈ before.table.rows, row.info.allocationState = .dynamicDhcp →
      env.keeps now row.key = false → store.Removable env now row.key := by
    intro row within dynamic unkept
    rcases reached.dynamic within dynamic with may | was
    · exact may.elim
    · exact ⟨unkept, was⟩
  refine reached.trans (writes_syncLeaseToIp step freed ?_)
  intro subnetId given active absent
  refine ⟨⟨lease, member, active, given, rfl⟩, ?_⟩
  -- a row that is there and stays would have been found
  by_contra known
  rw [not_or] at known
  exact Writes.present (reached.trans (writes_removeOtherRowsForMac freed)) known.2 known.1 absent

/-- What a batch of leases may do. -/
def batchLicence (env : Env) (now : Nat) (store : IpStore) (leases : List IpStore.ObservedLease) :
    Licence where
  hold := holders env
  free := fun key => env.hasActiveLease now key.subnetId key.addr = false ∧
    (inBatch leases key ∨ ∃ row ∈ store.table.rows, row.key.subnetId = key.subnetId ∧
      row.key.addr = key.addr ∧ row.info.allocationState = .dynamicDhcp)
  lease := inBatch leases
  blind := store.BlindLease env now leases

/-- What the allocation loop of a batch may do. -/
def allocateLicence (env : Env) (now : Nat) (store : IpStore)
    (leases : List IpStore.ObservedLease) :
    Licence where
  hold := holders env
  lease := inBatch leases
  blind := store.BlindLease env now leases

theorem writes_allocateLease {lease : IpStore.ObservedLease}
    (done : store.allocateLease env now lease = .ok after)
    (leased : ∀ subnetId, lease.subnetId = some subnetId → may.lease ⟨subnetId, lease.addr, none⟩)
    (sighted : ∀ subnetId, lease.subnetId = some subnetId → lease.observedActivity = true →
      store.table.lookup ⟨subnetId, lease.addr, none⟩ = none →
        may.blind ⟨subnetId, lease.addr, none⟩) : Writes may store after := by
  unfold IpStore.allocateLease at done
  split at done
  · obtain rfl := Except.ok.inj done
    exact Writes.refl store
  · rename_i subnetId given
    split at done
    · exact writes_setCanonicalAllocation done (fun _ _ => by constructor <;> simp [sourceMatches])
        (by constructor <;> simp [EventType.edge?]) (by simp) (by simp)
    · exact writes_setCanonicalAllocation done (fun _ _ => by constructor <;> simp [sourceMatches])
        (by constructor <;> simp [EventType.edge?]) (by simp) (by simp)
    · exact writes_observeDhcpv6Lease done (leased subnetId given) (sighted subnetId given)
    · refine writes_setCanonicalAllocation done (fun key found => ?_)
        (by constructor <;> simp [EventType.edge?]) (by simp) (by simp)
      obtain rfl := identityKey_addr found
      exact { leased := fun _ => leased subnetId given }

/-! ## Expiry and retirement -/

/-- Two environments with the same networks whose addresses have the same holders. -/
structure Env.SameHolds (env after : Env) : Prop where
  subnets : after.subnets = env.subnets
  holding : ∀ subnetId addr, IpStore.dnsHoldingRecord after subnetId addr =
    IpStore.dnsHoldingRecord env subnetId addr

theorem Env.SameHolds.refl (env : Env) : env.SameHolds env := ⟨rfl, fun _ _ => rfl⟩

theorem Env.SameHolds.trans {env middle after : Env} (first : env.SameHolds middle)
    (second : middle.SameHolds after) : env.SameHolds after :=
  ⟨second.subnets.trans first.subnets,
    fun subnetId addr => (second.holding subnetId addr).trans (first.holding subnetId addr)⟩

theorem Env.sameHolds_deleteDynamicDhcpRecords (env : Env) (subnet : Option Nat) (addr : Addr) :
    env.SameHolds (env.deleteDynamicDhcpRecords subnet addr) := by
  unfold Env.deleteDynamicDhcpRecords
  simp only
  split
  · exact .refl env
  · refine ⟨rfl, fun subnetId other => ?_⟩
    unfold IpStore.dnsHoldingRecord
    have same : ∀ test : DnsRecord → Bool,
        (∀ record, test record = true → record.source = some .dhcp) →
          (env.records.filter fun record => !test record).filter
          (fun record => env.names other record && !env.isServed record) =
        env.records.filter fun record => env.names other record && !env.isServed record := by
      intro test dynamic
      rw [List.filter_filter]
      refine List.filter_congr fun record _ => ?_
      cases tested : test record with
      | false => simp
      | true => simp [Env.names, Env.isManual, dynamic record tested]
    refine if_congr Iff.rfl rfl (if_congr Iff.rfl rfl ?_)
    refine congrArg Env.lowest (same _ ?_)
    intro record tested
    simp only [Bool.and_eq_true, decide_eq_true_eq] at tested
    exact tested.1.1

theorem Env.sameHolds_deleteLeasesByAddress (env : Env) (subnetId : Nat) (addr : Addr) :
    env.SameHolds (env.deleteLeasesByAddress subnetId addr) :=
  ⟨rfl, fun _ _ => rfl⟩

theorem expireLease_writes {db next : Db} {row : IpRow} (done : db.expireLease now row = .ok next)
    (freed : may.free ⟨row.key.subnetId, row.key.addr, none⟩) :
    db.env.SameHolds next.env ∧ Writes may db.store next.store := by
  obtain ⟨_, -, done⟩ := bind_eq_ok.mp done
  obtain ⟨released, first, done⟩ := bind_eq_ok.mp done
  have release : Writes may db.store released :=
    writes_release first (by constructor <;> simp [EventType.edge?]) (by simp) (freed_addr freed)
  split at done
  · obtain ⟨synced, renamed, same⟩ := bind_eq_ok.mp done
    obtain rfl := Except.ok.inj same
    exact ⟨db.env.sameHolds_deleteDynamicDhcpRecords _ _,
      release.trans (writes_syncCanonicalHostname renamed)⟩
  · obtain rfl := Except.ok.inj done
    exact ⟨.refl db.env, release⟩

theorem reconcileExpired_writes {db next : Db}
    (done : db.reconcileExpiredDhcpAllocations now = .ok next) (freed : ∀ row ∈ db.store.table.rows,
      row.info.allocationState = .dynamicDhcp → db.env.hasActiveLease now row.key.subnetId
        row.key.addr = false → may.free ⟨row.key.subnetId, row.key.addr, none⟩) :
    db.env.SameHolds next.env ∧ Writes may db.store next.store := by
  refine foldlM_invariant (P := fun reached : Db =>
    db.env.SameHolds reached.env ∧ Writes may db.store reached.store) ?_ done
    ⟨.refl db.env, Writes.refl db.store⟩
  rintro row member before after ⟨same, reached⟩ step
  obtain ⟨within, expired⟩ := List.mem_filter.mp member
  simp only [IpStore.isExpired, Bool.and_eq_true, decide_eq_true_eq, Bool.not_eq_true'] at expired
  obtain ⟨same', writes⟩ := expireLease_writes step (freed row within expired.1.1 expired.1.2)
  exact ⟨same.trans same', reached.trans writes⟩

theorem observeDhcpLeases_parts {db next : Db} {leases : List IpStore.ObservedLease}
    {prevalidated : Bool} (done : db.observeDhcpLeases now leases prevalidated = .ok next) :
    ∃ synced allocated, db.store.syncLeasesToIps db.env now leases = .ok synced ∧
      leases.foldlM (fun store lease => store.allocateLease db.env now lease)
      synced = .ok allocated ∧ Db.reconcileExpiredDhcpAllocations ⟨db.env, allocated⟩
      now = .ok next := by
  unfold Db.observeDhcpLeases at done
  cases prevalidated with
  | true =>
    obtain ⟨_, -, done⟩ := bind_eq_ok.mp done
    obtain ⟨synced, first, done⟩ := bind_eq_ok.mp done
    obtain ⟨allocated, second, third⟩ := bind_eq_ok.mp done
    exact ⟨synced, allocated, first, second, third⟩
  | false =>
    obtain ⟨_, -, done⟩ := bind_eq_ok.mp done
    obtain ⟨synced, first, done⟩ := bind_eq_ok.mp done
    obtain ⟨allocated, second, third⟩ := bind_eq_ok.mp done
    exact ⟨synced, allocated, first, second, third⟩

theorem observeDhcpLeases_writes {db next : Db} {leases : List IpStore.ObservedLease}
    {prevalidated : Bool} (done : db.observeDhcpLeases now leases prevalidated = .ok next) :
    db.env.SameHolds next.env ∧
      Writes (batchLicence db.env now db.store leases) db.store next.store := by
  obtain ⟨synced, allocated, first, second, third⟩ := observeDhcpLeases_parts done
  have sync := writes_syncLeasesToIps first
  have allocate : Writes (allocateLicence db.env now db.store leases) synced allocated := by
    refine foldlM_invariant ?_ second (Writes.refl synced)
    intro lease member before after reached step
    refine reached.trans (writes_allocateLease step ?_ ?_)
    · intro subnetId given
      exact ⟨lease, member, given, rfl⟩
    · intro subnetId given active absent
      refine ⟨⟨lease, member, active, given, rfl⟩, ?_⟩
      by_contra known
      rw [not_or] at known
      exact reached.present not_false (sync.present known.2 known.1) absent
  have loosened : Writes (batchLicence db.env now db.store leases) db.store allocated := by
    refine Writes.trans (sync.mono ⟨fun _ _ => id, ?_, fun _ => False.elim, fun _ => id⟩)
      (allocate.mono ⟨fun _ _ => id, fun _ => False.elim, fun _ => id, fun _ => id⟩)
    rintro key ⟨unkept, row, within, rfl, dynamic⟩
    simp only [Env.keeps, Bool.or_eq_false_iff] at unkept
    exact ⟨unkept.2, .inr ⟨row, within, rfl, rfl, dynamic⟩⟩
  refine (reconcileExpired_writes third ?_).imp_right loosened.trans
  intro row within dynamic inactive
  refine ⟨inactive, ?_⟩
  rcases loosened.dynamic within dynamic with batch | ⟨old, there, keyed, was⟩
  · exact .inl batch
  · exact .inr ⟨old, there, by rw [keyed], by rw [keyed], was⟩

theorem writes_startMissingRetirementWindows :
    Writes may store (store.startMissingRetirementWindows env now) := by
  apply Write.writes
  refine .update _ _ (fun _ => []) rfl ?_ (fun _ _ => rfl) ?_ ?_
  · intro other
    simp [IpStore.startMissingRetirementWindows, IpStore.edges]
  · intro row _ _
    exact .of_same rfl rfl rfl (unowned_of_same rfl rfl rfl rfl rfl rfl rfl)
      fun rogue => .inl ⟨rogue, fun online => online⟩
  · intro row _ missing
    refine ⟨rfl, fun online => ?_⟩
    simp only [Bool.and_eq_true, Bool.not_eq_true'] at missing
    rw [missing.1.1] at online
    exact absurd online (by decide)

theorem writes_retireLearnedMetadata {candidate : IpRow}
    (freed : ∀ row ∈ store.table.rows, row.id = candidate.id → may.free row.key) :
    Writes may store (store.retireLearnedMetadata candidate) := by
  unfold IpStore.retireLearnedMetadata
  simp only
  have retire : ∀ before : IpStore, before.table = store.table → Writes may store before →
      Writes may store (before.setInfo candidate.id IpStore.retiredInfo) := by
    intro before same reached
    refine reached.trans (writes_setInfo ?_ ?_)
    · intro row member named
      rw [same] at member
      refine ⟨fun _ => ?_, fun _ => .inr (freed row member named), ?_, ?_⟩
      · exact ⟨fun _ => ⟨rfl, rfl, rfl, rfl, rfl, rfl, rfl⟩, rfl, fun rogue => absurd rogue (by
          simp [IpStore.retiredInfo])⟩
      · exact fun dynamic => absurd dynamic (by simp [IpStore.retiredInfo])
      · exact fun isHold => absurd isHold.1 (by simp [IpStore.retiredInfo])
    · intro row _ _
      exact ⟨rfl, fun _ => .inl rfl⟩
  have retired : Writes may store ((if candidate.info.isRogue then
      store.emit candidate.id candidate.key.subnetId candidate.key.addr .rogueCleared
      else store).setInfo candidate.id IpStore.retiredInfo) := by
    split
    · exact retire _ rfl (writes_emit rfl)
    · exact retire store rfl (Writes.refl store)
  split
  · exact retired.trans (writes_emit rfl)
  · exact retired

theorem retireLearnedMetadata_table (store : IpStore) (candidate : IpRow) :
    (store.retireLearnedMetadata candidate).table =
      store.table.update (·.id == candidate.id) fun row => IpStore.retiredInfo row.info := by
  have retired : ((if candidate.info.isRogue then
      store.emit candidate.id candidate.key.subnetId candidate.key.addr .rogueCleared
      else store).setInfo candidate.id IpStore.retiredInfo).table =
      store.table.update (·.id == candidate.id) fun row => IpStore.retiredInfo row.info := by
    split <;> rfl
  unfold IpStore.retireLearnedMetadata
  simp only
  split
  · exact retired
  · exact retired

/-- Only the rows of the candidates are released, found by their ids. -/
theorem finishRetirement_writes {db next : Db} {eligible : List IpRow}
    (done : db.finishRetirement now eligible = .ok next)
    (freed : ∀ row ∈ db.store.table.rows, (∃ candidate ∈ eligible, candidate.id = row.id) →
      may.free row.key) :
    db.env.SameHolds next.env ∧ Writes may db.store next.store := by
  have sweep : ∀ (env : Env) (addrs : List Addr),
      env.SameHolds (addrs.foldl (fun env addr => env.deleteDynamicDhcpRecords none addr) env) := by
    intro env addrs
    induction addrs generalizing env with
    | nil => exact .refl env
    | cons addr addrs ih =>
      exact (env.sameHolds_deleteDynamicDhcpRecords none addr).trans (ih _)
  have clear : ∀ (env : Env) (rows : List IpRow), env.SameHolds (rows.foldl (fun env row =>
      env.deleteDynamicDhcpRecords (some row.key.subnetId) row.key.addr) env) := by
    intro env rows
    induction rows generalizing env with
    | nil => exact .refl env
    | cons row rows ih => exact (env.sameHolds_deleteDynamicDhcpRecords _ _).trans (ih _)
  obtain ⟨retired, retiring, same⟩ := bind_eq_ok.mp done
  obtain rfl := Except.ok.inj same
  have loop := foldlM_invariant (P := fun reached : Db => db.env.SameHolds reached.env ∧
    Writes may db.store reached.store ∧ ∀ row ∈ reached.store.table.rows,
      ∃ old ∈ db.store.table.rows, old.id = row.id ∧ old.key = row.key) ?_ retiring
    ⟨sweep db.env _, Writes.refl db.store, fun row member => ⟨row, member, rfl, rfl⟩⟩
  · exact ⟨loop.1.trans (clear retired.env eligible), loop.2.1⟩
  · rintro candidate member before after ⟨holds, reached, identified⟩ step
    obtain ⟨_, -, same⟩ := bind_eq_ok.mp step
    obtain rfl := Except.ok.inj same
    refine ⟨holds.trans (before.env.sameHolds_deleteLeasesByAddress _ _),
      reached.trans (writes_retireLearnedMetadata ?_), ?_⟩
    · intro row within named
      obtain ⟨old, there, sameId, sameKey⟩ := identified row within
      exact sameKey ▸ freed old there ⟨candidate, member, by rw [sameId, named]⟩
    · intro row within
      rw [retireLearnedMetadata_table] at within
      obtain ⟨found, there, rfl⟩ := Table.mem_update.mp within
      split
      · exact identified found there
      · exact identified found there

end

end Cidrella
