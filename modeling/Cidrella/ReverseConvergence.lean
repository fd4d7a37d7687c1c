import Cidrella.Lib.Keyed
import Cidrella.Operations
import Cidrella.PtrOverrides
import Cidrella.ReverseNames

/-!
# Reconciling reverse DNS converges

`reconcileManagedReverseDns` runs at every start and after every change of a managed
network. What it wants of a `PTR` depends on nothing that it writes (`desiredPtrs_eq`), and
of several networks with one address the most specific decides (`mem_desiredPtrs`).

It looks at one row of a name and compares values without the white space around them. A
second row of the name, or a name that is chosen with white space around it, is not what it
leaves: `reverse_dns_settles_iff` says that nothing else goes wrong.
-/

set_option autoImplicit false

namespace Cidrella

open Address DnsNames

namespace Dns

open LeaseNames

namespace Store

/-! ## What is wanted of an address -/

/-- The networks that are reconciled, the most specific first. -/
def managedSubnets (context : Context) (subnetIds : List Nat) : List SubnetRow :=
  (context.env.subnets.rows.filter fun subnet =>
    subnet.info.status = .allocated && subnet.info.hasReverseDns &&
      (subnetIds = [] || subnet.id ∈ subnetIds)).mergeSort fun subnet other =>
        other.key.prefixLen < subnet.key.prefixLen ||
          (other.key.prefixLen = subnet.key.prefixLen && subnet.id ≤ other.id)

/-- The reverse zone that answers for an address, and the record's name there. -/
def managedZone (s : Store) (ip : Text) : Option (Zone × Text) :=
  (reversePtrCandidates ip).findSome? fun candidate =>
    (s.zones.findRev? fun zone => zone.type = .reverse && zone.enabled &&
      zone.name = candidate.name).map fun zone => (zone, candidate.ptrName)

/-- The names that records, reservations and leases give. -/
def protocolNames (s : Store) (context : Context) : List ProtocolName :=
  s.recordNames ++ reservationNames context.env ++ leaseNames context.env context.now

/-- The canonical name of an address in a network, by its allocation state there. -/
def canonicalOf (names : List ProtocolName) (context : Context) (subnet : SubnetRow) (ip : Text) :
    CanonicalHostname :=
  canonicalHostnameForAllocation
    ((context.ips.table.rows.findRev? fun row =>
      row.key.subnetId = subnet.id && row.key.addr.text = ip).map (·.info.allocationState))
    (protocolName names ip .manual) (protocolName names ip .reservation)
      (protocolName names ip .dhcp)

/-- The value of an address's `PTR`: the canonical name, else the address itself. -/
def wantedValue (s : Store) (context : Context) (subnet : SubnetRow) (ip : Text) : Text :=
  (truthy (canonicalOf (s.protocolNames context) context subnet ip).hostname).getD ip

/-- What a network wants of an address. -/
def desiredOf (s : Store) (context : Context) (visit : SubnetRow × Text) : Option DesiredPtr :=
  (s.managedZone visit.2).map fun (zone, ptrName) =>
    ⟨zone.id, ptrName, s.wantedValue context visit.1 visit.2,
      ptrSource (canonicalOf (s.protocolNames context) context visit.1 visit.2)⟩

/-- The addresses of the networks, as they are visited. -/
def visits (context : Context) (subnetIds : List Nat) (maxAddressesPerSubnet : Nat) :
    List (SubnetRow × Text) :=
  (managedSubnets context subnetIds).flatMap fun subnet =>
    (reconciledAddresses context maxAddressesPerSubnet subnet).map fun ip => (subnet, ip)

/-- The place of a `PTR`. -/
def DesiredPtr.place (desired : DesiredPtr) : Nat × Text := (desired.zoneId, desired.ptrName)

/-- A network decides about an address: it is reconciled there, and no more specific network is. -/
structure Decides (context : Context) (subnetIds : List Nat) (maxAddressesPerSubnet : Nat)
    (subnet : SubnetRow) (ip : Text) : Prop where
  managed : subnet ∈ managedSubnets context subnetIds
  listed : ip ∈ reconciledAddresses context maxAddressesPerSubnet subnet
  first : ∀ other ∈ managedSubnets context subnetIds,
    ip ∈ reconciledAddresses context maxAddressesPerSubnet other →
      other.key.prefixLen < subnet.key.prefixLen ∨
        other.key.prefixLen = subnet.key.prefixLen ∧ subnet.id ≤ other.id

section Desired

variable {s t : Store} {context : Context} {subnetIds : List Nat} {maxAddressesPerSubnet : Nat}
variable {subnet other : SubnetRow} {ip : Text} {desired : DesiredPtr}

theorem considerAddress_eq (done : List DesiredPtr) :
    s.considerAddress context (s.protocolNames context) subnet done ip =
      match s.desiredOf context (subnet, ip) with
      | some ptr => if done.any fun row => row.place = ptr.place then done else done ++ [ptr]
      | none => done := by
  rw [considerAddress, desiredOf, managedZone]
  cases (reversePtrCandidates ip).findSome? _ with
  | none => rfl
  | some found =>
    obtain ⟨zone, ptrName⟩ := found
    dsimp only [Option.map_some]
    have places : (done.any fun row => row.zoneId = zone.id && row.ptrName = ptrName) =
        done.any fun row => decide (row.place = (zone.id, ptrName)) := by
      refine congrArg _ (funext fun row => ?_)
      rw [DesiredPtr.place, ← Bool.decide_and]
      exact decide_eq_decide.mpr Prod.mk_inj.symm
    rw [places]
    rfl

/-- **The first visit of a place decides it.** -/
theorem desiredPtrs_eq : s.desiredPtrs context subnetIds maxAddressesPerSubnet =
    Keyed.firsts DesiredPtr.place
      ((visits context subnetIds maxAddressesPerSubnet).filterMap (s.desiredOf context)) := by
  rw [Keyed.firsts, List.foldl_filterMap, visits, List.foldl_flatMap, desiredPtrs]
  refine congrArg (fun step => List.foldl step [] _) (funext fun done => funext fun subnet => ?_)
  rw [List.foldl_map]
  refine congrArg (fun step => List.foldl step done _) (funext fun kept => funext fun ip => ?_)
  refine (considerAddress_eq kept).trans ?_
  cases s.desiredOf context (subnet, ip) <;> rfl

theorem ip_of_candidate {addr : Addr} {candidate : PtrCandidate}
    (member : candidate ∈ reversePtrCandidates addr.text) :
    ipForPtrRecord candidate.ptrName candidate.name = some addr.text := by
  obtain ⟨read, found, count, -, -, rfl⟩ := mem_reversePtrCandidates.mp member
  obtain rfl := Option.some.inj ((addressToBig_text addr).symm.trans found)
  exact ipForPtrRecord_recordAt addr count

theorem managedZone_eq_some {zone : Zone} {ptrName : Text}
    (found : s.managedZone ip = some (zone, ptrName)) :
    zone ∈ s.zones ∧ (⟨zone.name, ptrName⟩ : PtrCandidate) ∈ reversePtrCandidates ip := by
  obtain ⟨candidate, member, located⟩ := List.exists_of_findSome?_eq_some found
  obtain ⟨zone', isZone, same⟩ := Option.map_eq_some_iff.mp located
  obtain ⟨rfl, rfl⟩ := Prod.mk.inj same
  rw [List.findRev?_eq_find?_reverse] at isZone
  have test := List.find?_some isZone
  simp only [Bool.and_eq_true, decide_eq_true_eq] at test
  refine ⟨List.mem_reverse.mp (List.mem_of_find?_eq_some isZone), ?_⟩
  rw [test.2]
  exact member

theorem ip_of_place (distinct : (s.zones.map Zone.id).Nodup) {addr other : Addr} {zone zone' : Zone}
    {ptrName : Text} (found : s.managedZone addr.text = some (zone, ptrName))
    (isOther : s.managedZone other.text = some (zone', ptrName)) (same : zone.id = zone'.id) :
    addr.text = other.text := by
  obtain ⟨member, candidate⟩ := managedZone_eq_some found
  obtain ⟨member', candidate'⟩ := managedZone_eq_some isOther
  obtain rfl := List.inj_on_of_nodup_map distinct member member' same
  exact Option.some.inj ((ip_of_candidate candidate).symm.trans (ip_of_candidate candidate'))

theorem text_addressAt_v4 {value : Nat} (fits : value < 2 ^ 32) :
    (addressAt .v4 value).text = formatIp value ipv4Bits :=
  congrArg (fun small => formatIp small ipv4Bits) (Nat.mod_eq_of_lt fits)

theorem lastUsable_lt (four : subnet.key.family = .v4) : subnet.key.lastUsable.value < 2 ^ 32 := by
  rw [Network.lastUsable, four]
  exact Nat.mod_lt _ (by decide)

theorem exists_text_of_reconciled
    (listed : ip ∈ reconciledAddresses context maxAddressesPerSubnet subnet) :
    ∃ addr : Addr, ip = addr.text := by
  rw [reconciledAddresses] at listed
  split at listed
  · obtain ⟨row, -, rfl⟩ := List.mem_map.mp listed
    exact ⟨row.key.addr, rfl⟩
  · rename_i four
    dsimp only at listed
    split at listed
    · cases listed
    · obtain ⟨i, within, rfl⟩ := List.mem_map.mp listed
      have below := List.mem_range.mp within
      have last := lastUsable_lt four
      have fits : subnet.key.firstUsable.value + i < 2 ^ 32 := by
        have first : subnet.key.firstUsable.value < 2 ^ 32 := by
          rw [Network.firstUsable, four]
          exact Nat.mod_lt _ (by decide)
        omega
      exact ⟨addressAt .v4 (subnet.key.firstUsable.value + i), (text_addressAt_v4 fits).symm⟩

theorem managedSubnets_pairwise : (managedSubnets context subnetIds).Pairwise fun subnet other =>
    other.key.prefixLen < subnet.key.prefixLen ∨
      other.key.prefixLen = subnet.key.prefixLen ∧ subnet.id ≤ other.id := by
  have sorted : (managedSubnets context subnetIds).Pairwise fun subnet other =>
      (decide (other.key.prefixLen < subnet.key.prefixLen) ||
        (decide (other.key.prefixLen = subnet.key.prefixLen) && decide (subnet.id ≤ other.id))) =
        true :=
    List.pairwise_mergeSort (fun a b c first second => by simp at first second ⊢; omega)
      (fun a b => by simp; omega) _
  exact sorted.imp fun le => by simpa using le

theorem visits_pairwise : (visits context subnetIds maxAddressesPerSubnet).Pairwise
    fun visit later =>
    later.1.key.prefixLen < visit.1.key.prefixLen ∨
      later.1.key.prefixLen = visit.1.key.prefixLen ∧ visit.1.id ≤ later.1.id := by
  rw [visits, List.pairwise_flatMap]
  constructor
  · intro subnet _
    refine List.pairwise_map.mpr (List.pairwise_of_forall fun _ _ => ?_)
    exact .inr ⟨rfl, le_rfl⟩
  · refine managedSubnets_pairwise.imp fun le visit member later isLater => ?_
    obtain ⟨_, -, rfl⟩ := List.mem_map.mp member
    obtain ⟨_, -, rfl⟩ := List.mem_map.mp isLater
    exact le

theorem mem_visits : (subnet, ip) ∈ visits context subnetIds maxAddressesPerSubnet ↔
    subnet ∈ managedSubnets context subnetIds ∧
    ip ∈ reconciledAddresses context maxAddressesPerSubnet subnet := by
  rw [visits, List.mem_flatMap]
  constructor
  · rintro ⟨from', managed, member⟩
    obtain ⟨_, listed, same⟩ := List.mem_map.mp member
    obtain ⟨rfl, rfl⟩ := Prod.mk.inj same
    exact ⟨managed, listed⟩
  · rintro ⟨managed, listed⟩
    exact ⟨subnet, managed, List.mem_map_of_mem listed⟩

theorem Decides.unique (decides : Decides context subnetIds maxAddressesPerSubnet subnet ip)
    (others : Decides context subnetIds maxAddressesPerSubnet other ip) : subnet = other := by
  have first := decides.first other others.managed others.listed
  have second := others.first subnet decides.managed decides.listed
  have same : subnet.id = other.id := by omega
  have member : ∀ row, row ∈ managedSubnets context subnetIds → row ∈ context.env.subnets.rows :=
    fun row managed => List.mem_of_mem_filter (List.mem_mergeSort.mp managed)
  exact context.env.subnets.eq_of_id_eq (member _ decides.managed) (member _ others.managed) same

theorem place_of_desiredOf {visit : SubnetRow × Text}
    (wanted : s.desiredOf context visit = some desired) :
    ∃ zone, s.managedZone visit.2 = some (zone, desired.ptrName) ∧ desired.zoneId = zone.id ∧
      desired.value = s.wantedValue context visit.1 visit.2 := by
  obtain ⟨⟨zone, ptrName⟩, found, rfl⟩ := Option.map_eq_some_iff.mp wanted
  exact ⟨zone, found, rfl, rfl⟩

theorem ip_of_desiredOf (distinct : (s.zones.map Zone.id).Nodup) {addr addr' : Addr}
    {ptr : DesiredPtr} (wanted : s.desiredOf context (subnet, addr.text) = some desired)
    (wanted' : s.desiredOf context (other, addr'.text) = some ptr)
    (same : desired.place = ptr.place) :
    addr.text = addr'.text := by
  obtain ⟨zone, found, isZone, -⟩ := place_of_desiredOf wanted
  obtain ⟨zone', found', isZone', -⟩ := place_of_desiredOf wanted'
  obtain ⟨ids, names⟩ := Prod.mk.inj same
  rw [names] at found
  exact ip_of_place distinct found found' (by rw [← isZone, ← isZone', ids])

/-- **The deciding networks say what is wanted.** -/
theorem mem_desiredPtrs (distinct : (s.zones.map Zone.id).Nodup) :
    desired ∈ s.desiredPtrs context subnetIds maxAddressesPerSubnet ↔ ∃ subnet ip,
      Decides context subnetIds maxAddressesPerSubnet subnet ip ∧
        s.desiredOf context (subnet, ip) = some desired := by
  have decided : ∀ desired ∈ s.desiredPtrs context subnetIds maxAddressesPerSubnet, ∃ subnet ip,
      Decides context subnetIds maxAddressesPerSubnet subnet ip ∧
        s.desiredOf context (subnet, ip) = some desired := by
    intro desired member
    rw [desiredPtrs_eq, Keyed.mem_firsts, List.find?_filterMap] at member
    obtain ⟨⟨subnet, ip⟩, found, wanted⟩ := Option.bind_eq_some_iff.mp member
    obtain ⟨-, before, after, split, unwanted⟩ := List.find?_eq_some_iff_append.mp found
    have visited := mem_visits.mp (List.mem_of_find?_eq_some found)
    refine ⟨subnet, ip, ⟨visited.1, visited.2, fun other managed listed => ?_⟩, wanted⟩
    have isVisit := mem_visits.mpr ⟨managed, listed⟩
    have sorted := @visits_pairwise context subnetIds maxAddressesPerSubnet
    rw [split] at isVisit sorted
    rcases List.mem_append.mp isVisit with earlier | own
    · -- an earlier network would have decided
      obtain ⟨zone, located, isZone, -⟩ := place_of_desiredOf wanted
      have unasked := unwanted _ earlier
      rw [desiredOf, located, Option.map_some, Option.any_some, DesiredPtr.place, DesiredPtr.place,
        isZone] at unasked
      simp at unasked
    · rcases List.mem_cons.mp own with same | later
      · obtain ⟨rfl, -⟩ := Prod.mk.inj same
        exact .inr ⟨rfl, le_rfl⟩
      · exact (List.pairwise_cons.mp (List.pairwise_append.mp sorted).2.1).1 _ later
  refine ⟨decided desired, ?_⟩
  rintro ⟨subnet, ip, decides, wanted⟩
  have visited : desired ∈ (visits context subnetIds maxAddressesPerSubnet).filterMap
      (s.desiredOf context) :=
    List.mem_filterMap.mpr ⟨(subnet, ip), mem_visits.mpr ⟨decides.managed, decides.listed⟩, wanted⟩
  obtain ⟨first, kept, same⟩ := @Keyed.exists_firsts _ _ _ DesiredPtr.place _ _ visited
  rw [← desiredPtrs_eq] at kept
  obtain ⟨subnet', ip', decides', wanted'⟩ := decided first kept
  obtain ⟨addr, rfl⟩ := exists_text_of_reconciled decides.listed
  obtain ⟨addr', rfl⟩ := exists_text_of_reconciled decides'.listed
  rw [ip_of_desiredOf distinct wanted' wanted same] at decides' wanted'
  rw [decides'.unique decides, wanted] at wanted'
  exact Option.some.inj wanted' ▸ kept

theorem exists_decides (distinct : (s.zones.map Zone.id).Nodup)
    (managed : subnet ∈ managedSubnets context subnetIds)
    (listed : ip ∈ reconciledAddresses context maxAddressesPerSubnet subnet)
    (wanted : s.desiredOf context (subnet, ip) = some desired) : ∃ decider ptr,
      Decides context subnetIds maxAddressesPerSubnet decider ip ∧
        s.desiredOf context (decider, ip) = some ptr ∧ ptr ∈ s.desiredPtrs context subnetIds
        maxAddressesPerSubnet ∧ ptr.place = desired.place := by
  have visited : desired ∈ (visits context subnetIds maxAddressesPerSubnet).filterMap
      (s.desiredOf context) :=
    List.mem_filterMap.mpr ⟨(subnet, ip), mem_visits.mpr ⟨managed, listed⟩, wanted⟩
  obtain ⟨ptr, kept, same⟩ := @Keyed.exists_firsts _ _ _ DesiredPtr.place _ _ visited
  rw [← desiredPtrs_eq] at kept
  obtain ⟨decider, ip', decides, wanted'⟩ := (mem_desiredPtrs distinct).mp kept
  obtain ⟨addr, rfl⟩ := exists_text_of_reconciled listed
  obtain ⟨addr', rfl⟩ := exists_text_of_reconciled decides.listed
  rw [ip_of_desiredOf distinct wanted' wanted same] at decides wanted'
  exact ⟨decider, ptr, decides, wanted', kept, same⟩

end Desired

/-! ## The rows of a place -/

/-- The `PTR` rows with one name in a zone. -/
def ptrRows (s : Store) (place : Nat × Text) : List Record :=
  s.records.filter fun record => record.type = .ptr && record.zoneId = place.1 &&
    record.name = place.2

/-- The row of a place that is looked at. -/
def lastPtr (s : Store) (place : Nat × Text) : Option Record :=
  s.records.findRev? fun record => record.type = .ptr && record.zoneId = place.1 &&
    record.name = place.2

/-- The row is generated and not what it should be, or there is none. -/
def changes (s : Store) (desired : DesiredPtr) : Bool :=
  match s.lastPtr desired.place with
  | none => true
  | some current => isGeneratedRow current desired && ptrDiffers current desired

/-- A row with what is wanted. -/
def rewritten (desired : DesiredPtr) (row : Record) : Record :=
  { row with value := desired.value, source := desired.source, enabled := true }

section Rows

variable {s state : Store} {place : Nat × Text} {desired : DesiredPtr} {row : Record} {id : Nat}

theorem lastPtr_eq : s.lastPtr place = (s.ptrRows place).getLast? := by
  rw [lastPtr, ptrRows, List.getLast?_filter, List.findRev?_eq_find?_reverse]

theorem mem_ptrRows : row ∈ s.ptrRows place ↔
    row ∈ s.records ∧ row.type = .ptr ∧ row.zoneId = place.1 ∧ row.name = place.2 := by
  rw [ptrRows, List.mem_filter, Bool.and_eq_true, Bool.and_eq_true, decide_eq_true_eq,
    decide_eq_true_eq,
    decide_eq_true_eq, and_assoc]

theorem mem_of_lastPtr (found : s.lastPtr place = some row) : row ∈ s.ptrRows place := by
  rw [lastPtr_eq] at found
  exact List.mem_of_getLast? found

theorem ptrRows_insert {record : Record} : (s.insert record).ptrRows place = s.ptrRows place ++
    if record.type = .ptr ∧ record.zoneId = place.1 ∧ record.name = place.2
      then [{ record with id := s.nextId }]
    else [] := by
  rw [ptrRows, insert, List.filter_append, ptrRows]
  refine congrArg _ ?_
  rw [List.filter_singleton, cond_eq_ite]
  simp only [Bool.and_eq_true, decide_eq_true_eq, and_assoc]

theorem ptrRows_update {change : Record → Record} (kept : ∀ record,
    (change record).type = record.type ∧ (change record).zoneId = record.zoneId ∧
    (change record).name = record.name) :
    (s.update id change).ptrRows place =
      (s.ptrRows place).map fun row => if row.id = id then { change row with id := row.id }
      else row := by
  rw [ptrRows, update, List.filter_map, ptrRows]
  refine congrArg _ (List.filter_congr fun row _ => ?_)
  dsimp only [Function.comp_apply]
  split
  · rw [(kept row).1, (kept row).2.1, (kept row).2.2]
  · rfl

theorem ptrRows_rewrite_of_ne {current : Record} (isRow : current ∈ s.ptrRows place)
    {other : Nat × Text} (differs : other ≠ place) :
    (s.update current.id (rewritten desired)).ptrRows other = s.ptrRows other := by
  refine (@ptrRows_update s other current.id (rewritten desired) fun _ => ⟨rfl, rfl, rfl⟩).trans ?_
  refine (List.map_congr_left fun row member => ?_).trans (List.map_id _)
  refine if_neg fun same => differs ?_
  obtain ⟨isRecord, -, zoneId, name⟩ := mem_ptrRows.mp member
  obtain ⟨isCurrent, -, zoneId', name'⟩ := mem_ptrRows.mp isRow
  rw [eq_of_id_eq isRecord isCurrent same] at zoneId name
  exact Prod.ext (zoneId.symm.trans zoneId') (name.symm.trans name')

/-- A `PTR` row is none of the others. -/
theorem filter_others_update {current : Record} {change : Record → Record}
    (member : current ∈ s.records) (isPtr : current.type = .ptr) (kept : ∀ record,
    (change record).type = record.type) :
    (s.update current.id change).records.filter (·.type ≠ .ptr) = s.records.filter
    (·.type ≠ .ptr) := by
  have types : ∀ row ∈ s.records,
      (decide ((if row.id = current.id then { change row with id := row.id } else row).type ≠
        RecordType.ptr)) = decide (row.type ≠ RecordType.ptr) := by
    intro row _
    split
    · rw [kept row]
    · rfl
  rw [update, List.filter_map]
  refine (congrArg _ (List.filter_congr types)).trans ?_
  refine (List.map_congr_left fun row isRow => ?_).trans (List.map_id _)
  obtain ⟨isRecord, other⟩ := List.mem_filter.mp isRow
  refine if_neg fun same => of_decide_eq_true other ?_
  rw [eq_of_id_eq isRecord member same, isPtr]

end Rows

/-! ## One run -/

/-- What a run leaves at a place: a new row where there was none, the row it looks at
rewritten, or the rows as they were. -/
def LeavesAt (before : Store) (desired : DesiredPtr) (rows : List Record) : Prop :=
  match before.lastPtr desired.place with
  | none => ∃ id,
      rows = [⟨id, desired.zoneId, desired.ptrName, .ptr, desired.value, desired.source, true⟩]
  | some current =>
    rows = if before.changes desired then (before.ptrRows desired.place).map fun row =>
        if row.id = current.id then { rewritten desired row with id := row.id } else row
      else before.ptrRows desired.place

/-- Where a run is. -/
structure Reconciled (before : Store) (done : List DesiredPtr) (state : ReconcileState) : Prop where
  at' : ∀ desired ∈ done, LeavesAt before desired (state.store.ptrRows desired.place)
  elsewhere : ∀ place, place ∉ done.map DesiredPtr.place → state.store.ptrRows place =
    before.ptrRows place
  others : state.store.records.filter (·.type ≠ .ptr) = before.records.filter (·.type ≠ .ptr)
  zones : state.store.zones = before.zones
  raised : state.changedZones = (done.filter before.changes).map DesiredPtr.zoneId

section Run

variable {before s t : Store} {done : List DesiredPtr} {state : ReconcileState}
    {desired : DesiredPtr}
variable {context : Context} {subnetIds : List Nat} {maxAddressesPerSubnet : Nat}

theorem reconcileStep_eq : reconcileStep before state desired =
    if before.changes desired then
      ⟨match before.lastPtr desired.place with
        | none =>
          state.store.insert ⟨0, desired.zoneId, desired.ptrName, .ptr, desired.value,
            desired.source, true⟩
        | some current => state.store.update current.id (rewritten desired),
        state.changedZones ++ [desired.zoneId]⟩
    else state := by
  have look : (before.records.findRev? fun record => record.type = .ptr && record.zoneId =
      desired.zoneId && record.name = desired.ptrName) = before.lastPtr desired.place := rfl
  rw [reconcileStep, reconcilePtr, look, changes]
  cases before.lastPtr desired.place with
  | none => rfl
  | some current =>
    dsimp only
    split_ifs <;> rfl

theorem Reconciled.extend (reconciled : Reconciled before done state) {after : ReconcileState}
    (fresh : desired.place ∉ done.map DesiredPtr.place)
    (own : LeavesAt before desired (after.store.ptrRows desired.place))
    (frame : ∀ place, place ≠ desired.place → after.store.ptrRows place = state.store.ptrRows place)
    (others : after.store.records.filter (·.type ≠ .ptr) = state.store.records.filter
    (·.type ≠ .ptr)) (zones : after.store.zones = state.store.zones)
    (raised : after.changedZones =
      state.changedZones ++ if before.changes desired then [desired.zoneId] else []) :
    Reconciled before (done ++ [desired]) after := by
  refine ⟨fun ptr member => ?_, fun place outside => ?_, others.trans reconciled.others,
    zones.trans reconciled.zones, ?_⟩
  · rcases List.mem_append.mp member with old | new
    · have differs : ptr.place ≠ desired.place := fun same => fresh (same ▸ List.mem_map_of_mem old)
      rw [frame _ differs]
      exact reconciled.at' ptr old
    · rw [List.mem_singleton.mp new]
      exact own
  · rw [List.map_append, List.mem_append, not_or, List.map_singleton, List.mem_singleton] at outside
    exact (frame _ outside.2).trans (reconciled.elsewhere _ outside.1)
  · rw [raised, reconciled.raised, List.filter_append, List.map_append, List.filter_singleton,
      cond_eq_ite]
    split_ifs <;> rfl

theorem Reconciled.step (reconciled : Reconciled before done state)
    (fresh : desired.place ∉ done.map DesiredPtr.place) :
    Reconciled before (done ++ [desired]) (reconcileStep before state desired) := by
  have rows := reconciled.elsewhere desired.place fresh
  rw [reconcileStep_eq]
  by_cases writes : before.changes desired = true
  · rw [if_pos writes]
    cases looked : before.lastPtr desired.place with
    | none =>
      have empty : before.ptrRows desired.place = [] := by
        rw [lastPtr_eq] at looked
        exact List.getLast?_eq_none_iff.mp looked
      refine reconciled.extend fresh ?_ (fun place differs => ?_) ?_ rfl (by rw [if_pos writes])
      · rw [LeavesAt, looked, ptrRows_insert, rows, empty, if_pos ⟨rfl, rfl, rfl⟩]
        exact ⟨_, rfl⟩
      · rw [ptrRows_insert, if_neg, List.append_nil]
        exact fun same => differs (Prod.ext same.2.1.symm same.2.2.symm)
      · dsimp only [insert]
        rw [List.filter_append, List.filter_cons_of_neg (by simp), List.filter_nil, List.append_nil]
    | some current =>
      have isRow : current ∈ state.store.ptrRows desired.place := rows ▸ mem_of_lastPtr looked
      refine reconciled.extend fresh ?_ (fun place differs => ptrRows_rewrite_of_ne isRow differs)
        ?_ rfl (by rw [if_pos writes])
      · rw [LeavesAt, looked]
        dsimp only
        rw [if_pos writes, ← rows]
        exact ptrRows_update fun _ => ⟨rfl, rfl, rfl⟩
      · obtain ⟨isCurrent, isPtr, -⟩ := mem_ptrRows.mp isRow
        exact filter_others_update isCurrent isPtr fun _ => rfl
  · rw [if_neg writes]
    refine reconciled.extend fresh ?_ (fun _ _ => rfl) rfl rfl
      (by rw [if_neg writes, List.append_nil])
    rw [rows, LeavesAt]
    cases looked : before.lastPtr desired.place with
    | none =>
      rw [changes, looked] at writes
      exact absurd rfl writes
    | some current =>
      dsimp only
      rw [if_neg writes]

/-- **What one run leaves.** -/
theorem reconciled_foldl (distinct : (done.map DesiredPtr.place).Nodup) :
    Reconciled before done (done.foldl (reconcileStep before) ⟨before, []⟩) := by
  induction done using List.reverseRecOn with
  | nil => exact ⟨List.forall_mem_nil _, fun _ _ => rfl, rfl, rfl, rfl⟩
  | append_singleton done desired ih =>
    rw [List.map_append, List.nodup_append] at distinct
    rw [List.foldl_append]
    exact (ih distinct.1).step fun member =>
      distinct.2.2 _ member _ (List.mem_singleton_self _) rfl

theorem nodup_places :
    ((s.desiredPtrs context subnetIds maxAddressesPerSubnet).map DesiredPtr.place).Nodup := by
  rw [desiredPtrs_eq]
  exact Keyed.nodup_firsts _ _

/-- A run, before serials are raised. -/
def reconciledState (s : Store) (context : Context) (subnetIds : List Nat)
    (maxAddressesPerSubnet : Nat) :
    ReconcileState :=
  (s.desiredPtrs context subnetIds maxAddressesPerSubnet).foldl (reconcileStep s) ⟨s, []⟩

theorem reconciled_run : Reconciled s (s.desiredPtrs context subnetIds maxAddressesPerSubnet)
    (s.reconciledState context subnetIds maxAddressesPerSubnet) :=
  reconciled_foldl nodup_places

theorem reconcileManagedReverseDns_eq : s.reconcileManagedReverseDns context subnetIds
    maxAddressesPerSubnet =
      (s.reconciledState context subnetIds maxAddressesPerSubnet).store.bumpAll
      (s.reconciledState context subnetIds maxAddressesPerSubnet).changedZones.eraseDups := rfl

theorem zoneRefs_bumpAll (ids : List Nat) : zoneRefs (s.bumpAll ids) = zoneRefs s := by
  induction ids generalizing s with
  | nil => rfl
  | cons id ids ih => exact (@ih (s.bumpZoneSerial id)).trans (zoneRefs_bumpZoneSerial id)

theorem ptrRows_reconcile (place : Nat × Text) :
    (s.reconcileManagedReverseDns context subnetIds maxAddressesPerSubnet).ptrRows place =
      (s.reconciledState context subnetIds maxAddressesPerSubnet).store.ptrRows place := by
  rw [reconcileManagedReverseDns_eq, ptrRows, records_bumpAll, ptrRows]

theorem zoneRefs_reconcile :
    zoneRefs (s.reconcileManagedReverseDns context subnetIds maxAddressesPerSubnet) =
    zoneRefs s := by
  rw [reconcileManagedReverseDns_eq, zoneRefs_bumpAll, zoneRefs, reconciled_run.zones, zoneRefs]

/-! ### What is wanted does not change -/

/-- The name a record gives, by the zones without their serials. -/
def nameOf (zones : List ZoneRef) (record : Record) : Option ProtocolName := do
  let zone ← zones.find? (·.id = record.zoneId)
  if record.type.isAddress && record.enabled && zone.type = .forward && zone.enabled then
    some ⟨record.value,
      match record.source with
      | .dhcp => .dhcp
      | .reservation => .reservation
      | _ => .manual,
      fqdnForRecordName record.name zone.name⟩
  else none

theorem zoneOf_map (record : Record) :
    (s.zoneOf record).map zoneRef = (zoneRefs s).find? (·.id = record.zoneId) := by
  rw [zoneRefs, List.find?_map, zoneOf]
  rfl

theorem filter_mergeSort (test : Record → Bool) :
    (s.records.mergeSort (·.id ≤ ·.id)).filter test = (s.records.filter test).mergeSort
    (·.id ≤ ·.id) := by
  have sorted : ∀ records : List Record, (records.mergeSort (·.id ≤ ·.id)).Pairwise
      fun left right =>
      left.id ≤ right.id := fun records =>
    (@List.pairwise_mergeSort Record (fun left right => decide (left.id ≤ right.id))
      (fun a b c first second => by simp at first second ⊢; omega) (fun a b => by simp; omega)
        records).imp fun le => of_decide_eq_true le
  refine List.Perm.eq_of_pairwise (fun left right isLeft isRight le ge => ?_) ((sorted _).filter _)
    (sorted _) ?_
  · have member := List.mem_mergeSort.mp (List.mem_of_mem_filter isLeft)
    exact eq_of_id_eq member (List.mem_of_mem_filter (List.mem_mergeSort.mp isRight))
      (le_antisymm le ge)
  · exact ((List.mergeSort_perm _ _).filter _).trans (List.mergeSort_perm _ _).symm

theorem recordNames_of_others : s.recordNames =
    ((s.records.filter (·.type ≠ .ptr)).mergeSort (·.id ≤ ·.id)).filterMap
    (nameOf (zoneRefs s)) := by
  rw [← filter_mergeSort, List.filterMap_filter, recordNames]
  refine List.filterMap_congr fun record _ => ?_
  rw [nameOf, ← zoneOf_map]
  cases zone : s.zoneOf record with
  | none => simp
  | some zone =>
    dsimp only [Option.bind_eq_bind, Option.bind_some, Option.map_some, zoneRef]
    by_cases isPtr : record.type = .ptr
    · rw [isPtr]
      rfl
    · refine Eq.trans ?_ (if_pos (decide_eq_true isPtr)).symm
      cases record.source <;> rfl

/-- Names come from rows that are no `PTR`s, and from zones without their serials. -/
theorem recordNames_eq (zones : zoneRefs t = zoneRefs s)
    (others : t.records.filter (·.type ≠ .ptr) = s.records.filter (·.type ≠ .ptr)) :
    t.recordNames = s.recordNames := by
  rw [recordNames_of_others, recordNames_of_others, zones, others]

theorem managedZone_eq (zones : zoneRefs t = zoneRefs s) (ip : Text) :
    (t.managedZone ip).map (fun found => (found.1.id, found.2)) =
      (s.managedZone ip).map fun found => (found.1.id, found.2) := by
  have byRefs : ∀ store : Store, (store.managedZone ip).map (fun found => (found.1.id, found.2)) =
      (reversePtrCandidates ip).findSome? fun candidate =>
        ((zoneRefs store).reverse.find? fun zone =>
          zone.type = .reverse && zone.enabled && zone.name = candidate.name).map fun zone =>
            (zone.id, candidate.ptrName) := by
    intro store
    rw [managedZone, List.map_findSome?]
    refine congrArg (fun f => List.findSome? f _) (funext fun candidate => ?_)
    rw [Function.comp_apply, List.findRev?_eq_find?_reverse, zoneRefs, ← List.map_reverse,
      List.find?_map, Option.map_map, Option.map_map]
    rfl
  rw [byRefs, byRefs, zones]

/-- **What is wanted after a run is what was wanted before it.** -/
theorem desiredPtrs_reconcile :
    (s.reconcileManagedReverseDns context subnetIds maxAddressesPerSubnet).desiredPtrs
      context subnetIds maxAddressesPerSubnet = s.desiredPtrs context subnetIds
      maxAddressesPerSubnet := by
  have zones := @zoneRefs_reconcile s context subnetIds maxAddressesPerSubnet
  have others :
      (s.reconcileManagedReverseDns context subnetIds maxAddressesPerSubnet).records.filter
      (·.type ≠ .ptr) = s.records.filter (·.type ≠ .ptr) := by
    rw [reconcileManagedReverseDns_eq, records_bumpAll]
    exact reconciled_run.others
  have names : (s.reconcileManagedReverseDns context subnetIds maxAddressesPerSubnet).protocolNames
      context = s.protocolNames context := by
    rw [protocolNames, recordNames_eq zones others, protocolNames]
  rw [desiredPtrs_eq, desiredPtrs_eq]
  refine congrArg _ (List.filterMap_congr fun visit _ => ?_)
  have located := managedZone_eq zones visit.2
  rw [desiredOf, desiredOf, wantedValue, wantedValue, names]
  generalize (s.reconcileManagedReverseDns context subnetIds maxAddressesPerSubnet).managedZone
    visit.2 = left at located
  generalize s.managedZone visit.2 = right at located
  cases left with
  | none =>
    cases right with
    | none => rfl
    | some found => exact absurd located (by simp)
  | some found =>
    cases right with
    | none => exact absurd located (by simp)
    | some other =>
      obtain ⟨ids, ptrNames⟩ := Prod.mk.inj (Option.some.inj located)
      dsimp only [Option.map_some]
      rw [ids, ptrNames]

/-! ### Running again -/

theorem solid_iff {text : Text} : toLowerCase (trim text) = toLowerCase text ↔
    trim text = text := by
  constructor
  · intro same
    have length := congrArg List.length same
    rw [length_toLowerCase, length_toLowerCase] at length
    have part : (trim text).Sublist text :=
      (List.rdropWhile_prefix isTrimmed _).sublist.trans (List.dropWhile_sublist isTrimmed)
    exact part.eq_of_length length
  · exact congrArg _

theorem padded_ne {text value : Text} (padded : trim value ≠ value) :
    toLowerCase (trim text) ≠ toLowerCase value := by
  intro same
  refine padded (solid_iff.mp ?_)
  rw [← trim_toLowerCase, ← same, trim_toLowerCase, trim_trim]

theorem isGeneratedRow_eq_decide {row : Record} (override : IsOverride row)
    (solid : trim row.value ≠ []) :
    isGeneratedRow row desired = decide
    (toLowerCase (trim row.value) = toLowerCase desired.value) := by
  rw [isGeneratedRow, decide_eq_false solid, isValidAddress_trim, override.value, override.source]
  rfl

theorem isOverride_of_not_generated {row : Record} (isPtr : row.type = .ptr)
    (operators : ¬ isGeneratedRow row desired = true) : IsOverride row ∧ trim row.value ≠ [] := by
  simp only [isGeneratedRow, isValidAddress_trim, Bool.or_eq_true, decide_eq_true_eq, not_or,
    Bool.not_eq_true] at operators
  exact ⟨⟨isPtr, operators.1.1.2, operators.1.2⟩, operators.1.1.1⟩

theorem isGenerated_ptrSource (canonical : CanonicalHostname) :
    (ptrSource canonical).isGenerated = true := by
  rw [ptrSource]
  split <;> rfl

theorem source_of_desired
    (member : desired ∈ s.desiredPtrs context subnetIds maxAddressesPerSubnet) :
    desired.source.isGenerated = true := by
  rw [desiredPtrs_eq] at member
  obtain ⟨visit, -, wanted⟩ :=
    List.mem_filterMap.mp (List.mem_of_find?_eq_some (Keyed.mem_firsts.mp member))
  obtain ⟨⟨zone, ptrName⟩, -, rfl⟩ := Option.map_eq_some_iff.mp wanted
  exact isGenerated_ptrSource _

theorem changes_written {row : Record} (value : row.value = desired.value)
    (source : row.source = desired.source) (enabled : row.enabled = true)
    (generated : desired.source.isGenerated = true) :
    (isGeneratedRow row desired && ptrDiffers row desired) = true ↔
    trim desired.value ≠ desired.value := by
  rw [isGeneratedRow, ptrDiffers, value, source, enabled]
  simp [generated, solid_iff]

/-- The operator's row that a run leaves as it is. -/
def Kept (s : Store) (place : Nat × Text) : Prop :=
  ∃ row, s.lastPtr place = some row ∧ IsOverride row ∧ trim row.value ≠ []

/-- **A second run changes a row** exactly when what is wanted has white space around it and
the row is not the operator's. -/
theorem changes_again_iff
    (member : desired ∈ s.desiredPtrs context subnetIds maxAddressesPerSubnet) :
    (s.reconcileManagedReverseDns context subnetIds maxAddressesPerSubnet).changes desired = false ↔
      trim desired.value = desired.value ∨ Kept s desired.place := by
  have leaves := (@reconciled_run s context subnetIds maxAddressesPerSubnet).at' desired member
  have generated := source_of_desired member
  rw [changes, lastPtr_eq, ptrRows_reconcile, Kept]
  rw [LeavesAt] at leaves
  cases looked : s.lastPtr desired.place with
  | none =>
    rw [looked] at leaves
    obtain ⟨id, rows⟩ := leaves
    rw [rows, List.getLast?_singleton]
    dsimp only
    rw [← Bool.not_eq_true, changes_written rfl rfl rfl generated, not_not]
    simp
  | some current =>
    rw [looked] at leaves
    dsimp only at leaves
    have last : (s.ptrRows desired.place).getLast? = some current := lastPtr_eq.symm.trans looked
    have decided : s.changes desired =
        (isGeneratedRow current desired && ptrDiffers current desired) := by
      rw [changes, looked]
    have isPtr : current.type = .ptr := (mem_ptrRows.mp (mem_of_lastPtr looked)).2.1
    by_cases writes : s.changes desired = true
    · rw [leaves, if_pos writes, List.getLast?_map, last, Option.map_some, if_pos rfl]
      dsimp only
      rw [← Bool.not_eq_true, changes_written rfl rfl rfl generated, not_not]
      refine (or_iff_left_of_imp ?_).symm
      rintro ⟨row, found, override, solid⟩
      obtain rfl := Option.some.inj found
      by_contra padded
      rw [decided, isGeneratedRow_eq_decide override solid,
        decide_eq_false (padded_ne padded)] at writes
      cases writes
    · rw [leaves, if_neg writes, last]
      dsimp only
      rw [← decided]
      refine iff_of_true (by simpa using writes) ?_
      rw [decided, Bool.and_eq_true, not_and_or] at writes
      rcases writes with operators | settled
      · exact .inr ⟨current, rfl, isOverride_of_not_generated isPtr operators⟩
      · refine .inl (by_contra fun padded => settled ?_)
        rw [ptrDiffers, decide_eq_true (padded_ne padded)]
        rfl

/-! ### What a run that changes nothing finds -/

theorem zones_bumpAll (ids : List Nat) : (s.bumpAll ids).zones =
    s.zones.map fun zone => { zone with soaSerial := zone.soaSerial + ids.count zone.id } := by
  induction ids generalizing s with
  | nil => exact (List.map_id _).symm
  | cons id ids ih =>
    rw [bumpAll, List.foldl_cons, ← bumpAll, ih, bumpZoneSerial, updateZone, List.map_map]
    refine List.map_congr_left fun zone _ => ?_
    dsimp only [Function.comp_apply]
    rw [List.count_cons]
    split_ifs with own other other
    · rw [Nat.add_assoc, Nat.add_comm 1]
    · exact absurd (beq_iff_eq.mpr own.symm) other
    · exact absurd (beq_iff_eq.mp other).symm own
    · rfl

theorem zone_of_desired (member : desired ∈ s.desiredPtrs context subnetIds maxAddressesPerSubnet) :
    ∃ zone ∈ s.zones, zone.id = desired.zoneId := by
  rw [desiredPtrs_eq] at member
  obtain ⟨visit, -, wanted⟩ :=
    List.mem_filterMap.mp (List.mem_of_find?_eq_some (Keyed.mem_firsts.mp member))
  obtain ⟨zone, found, isZone, -⟩ := place_of_desiredOf wanted
  exact ⟨zone, (managedZone_eq_some found).1, isZone.symm⟩

theorem foldl_reconcileStep_of_unchanged (unchanged : ∀ ptr ∈ done, before.changes ptr = false) :
    done.foldl (reconcileStep before) state = state := by
  induction done with
  | nil => rfl
  | cons ptr done ih =>
    rw [List.foldl_cons, reconcileStep_eq, unchanged ptr List.mem_cons_self,
      if_neg Bool.false_ne_true]
    exact ih fun later member => unchanged later (List.mem_cons_of_mem _ member)

/-- **A run changes nothing** exactly when every row is as it should be: each change raises a
serial. -/
theorem reconcile_eq_self_iff : s.reconcileManagedReverseDns context subnetIds
    maxAddressesPerSubnet = s ↔ ∀ desired ∈ s.desiredPtrs context subnetIds maxAddressesPerSubnet,
    s.changes desired = false := by
  constructor
  · intro same desired member
    rw [← Bool.not_eq_true]
    intro writes
    have run := @reconciled_run s context subnetIds maxAddressesPerSubnet
    have raised : desired.zoneId ∈
        (s.reconciledState context subnetIds maxAddressesPerSubnet).changedZones.eraseDups := by
      rw [List.mem_eraseDups, run.raised]
      exact List.mem_map_of_mem (List.mem_filter.mpr ⟨member, writes⟩)
    obtain ⟨zone, isZone, sameId⟩ := zone_of_desired member
    have zones := congrArg Store.zones same
    rw [reconcileManagedReverseDns_eq, zones_bumpAll, run.zones] at zones
    have serial := congrArg Zone.soaSerial (List.map_inj_left.mp (zones.trans (List.map_id _).symm)
      zone isZone)
    rw [sameId] at serial
    have counted := List.count_pos_iff.mpr raised
    dsimp only [id_eq] at serial
    omega
  · intro unchanged
    rw [reconcileManagedReverseDns_eq, reconciledState, foldl_reconcileStep_of_unchanged unchanged]
    rfl

theorem reconcile_again_iff :
    (s.reconcileManagedReverseDns context subnetIds
        maxAddressesPerSubnet).reconcileManagedReverseDns context subnetIds maxAddressesPerSubnet =
        s.reconcileManagedReverseDns context subnetIds maxAddressesPerSubnet ↔
      ∀ desired ∈ s.desiredPtrs context subnetIds maxAddressesPerSubnet,
        trim desired.value = desired.value ∨ Kept s desired.place := by
  rw [reconcile_eq_self_iff, desiredPtrs_reconcile]
  exact forall₂_congr fun _ member => changes_again_iff member

end Run

/-! ## What is promised -/

/-- An address of a managed IPv4 network that is not too large, and the place where it answers. -/
structure AnswersAt (s : Store) (context : Context) (subnetIds : List Nat)
    (maxAddressesPerSubnet : Nat) (addr : Addr) (place : Nat × Text) : Prop where
  usable : ∃ subnet ∈ managedSubnets context subnetIds, subnet.key.family = .v4 ∧
    subnet.key.lastUsable.value - subnet.key.firstUsable.value + 1 ≤ maxAddressesPerSubnet ∧
      addr.family = .v4 ∧ subnet.key.firstUsable.value ≤ addr.value ∧
      addr.value ≤ subnet.key.lastUsable.value
  located : ∃ zone ptrName, s.managedZone addr.text = some (zone, ptrName) ∧
    place = (zone.id, ptrName)

/-- A row carries a name, up to case and the white space around it. -/
def Carries (row : Record) (value : Text) : Prop := toLowerCase (trim row.value) = toLowerCase
    (trim value)

/-- A row is the operator's or carries what the deciding network wants of the address. -/
def Fits (s : Store) (context : Context) (subnetIds : List Nat) (maxAddressesPerSubnet : Nat)
    (addr : Addr) (row : Record) : Prop :=
  IsOverride row ∨ ∃ subnet, Decides context subnetIds maxAddressesPerSubnet subnet addr.text ∧
    Carries row (s.wantedValue context subnet addr.text)

/-- **Reverse DNS settles**: a second run changes nothing, and after the first each usable
address that has a reverse zone has a `PTR`, and each `PTR` of it fits. -/
structure ReverseDnsSettles (s : Store) (context : Context) (subnetIds : List Nat)
    (maxAddressesPerSubnet : Nat) :
    Prop where
  again : (s.reconcileManagedReverseDns context subnetIds
    maxAddressesPerSubnet).reconcileManagedReverseDns context subnetIds maxAddressesPerSubnet =
    s.reconcileManagedReverseDns context subnetIds maxAddressesPerSubnet
  present : ∀ addr place, AnswersAt s context subnetIds maxAddressesPerSubnet addr place →
    (s.reconcileManagedReverseDns context subnetIds maxAddressesPerSubnet).ptrRows place ≠ []
  fits : ∀ addr place, AnswersAt s context subnetIds maxAddressesPerSubnet addr place →
    ∀ row ∈ (s.reconcileManagedReverseDns context subnetIds maxAddressesPerSubnet).ptrRows place,
      Fits s context subnetIds maxAddressesPerSubnet addr row

/-- What reverse DNS settles from: names have no white space around them, unless an operator
named the address, and a row that is not looked at fits. -/
structure Tidy (s : Store) (context : Context) (subnetIds : List Nat)
    (maxAddressesPerSubnet : Nat) : Prop where
  trimmed : ∀ subnet ip, Decides context subnetIds maxAddressesPerSubnet subnet ip →
    ∀ zone ptrName, s.managedZone ip = some (zone, ptrName) →
      trim (s.wantedValue context subnet ip) = s.wantedValue context subnet ip ∨
      Kept s (zone.id, ptrName)
  hidden : ∀ addr place, AnswersAt s context subnetIds maxAddressesPerSubnet addr place →
    ∀ row ∈ s.ptrRows place, s.lastPtr place ≠ some row →
    Fits s context subnetIds maxAddressesPerSubnet addr row

section Settles

variable {s : Store} {context : Context} {subnetIds : List Nat} {maxAddressesPerSubnet : Nat}
variable {subnet : SubnetRow} {addr : Addr} {place : Nat × Text} {desired : DesiredPtr}

theorem mem_reconciledAddresses (four : subnet.key.family = .v4)
    (small : subnet.key.lastUsable.value - subnet.key.firstUsable.value + 1 ≤ maxAddressesPerSubnet)
    (isFour : addr.family = .v4) (first : subnet.key.firstUsable.value ≤ addr.value)
    (last : addr.value ≤ subnet.key.lastUsable.value) :
    addr.text ∈ reconciledAddresses context maxAddressesPerSubnet subnet := by
  rw [reconciledAddresses, four]
  dsimp only
  rw [if_neg (Nat.not_lt.mpr small)]
  refine List.mem_map.mpr ⟨addr.value - subnet.key.firstUsable.value, List.mem_range.mpr (by omega),
    ?_⟩
  rw [Nat.add_sub_cancel' first, Addr.text, isFour]
  rfl

/-- **An address that answers is decided**, and what is wanted of it is written there. -/
theorem AnswersAt.decided (distinct : (s.zones.map Zone.id).Nodup)
    (answers : AnswersAt s context subnetIds maxAddressesPerSubnet addr place) : ∃ subnet ptr,
      Decides context subnetIds maxAddressesPerSubnet subnet addr.text ∧
        ptr ∈ s.desiredPtrs context subnetIds maxAddressesPerSubnet ∧ ptr.place = place ∧
          ptr.value = s.wantedValue context subnet addr.text := by
  obtain ⟨subnet, managed, four, small, isFour, first, last⟩ := answers.usable
  obtain ⟨zone, ptrName, located, rfl⟩ := answers.located
  have listed : addr.text ∈ reconciledAddresses context maxAddressesPerSubnet subnet :=
    mem_reconciledAddresses four small isFour first last
  have wanted : s.desiredOf context (subnet, addr.text) = some ⟨zone.id, ptrName, _, _⟩ :=
    congrArg (Option.map _) located
  obtain ⟨decider, ptr, decides, wanted', kept, same⟩ :=
    exists_decides distinct managed listed wanted
  obtain ⟨_, -, -, value⟩ := place_of_desiredOf wanted'
  exact ⟨decider, ptr, decides, kept, same, value⟩

theorem ptrRows_ne_nil (member : desired ∈ s.desiredPtrs context subnetIds maxAddressesPerSubnet) :
    (s.reconcileManagedReverseDns context subnetIds maxAddressesPerSubnet).ptrRows desired.place ≠
    [] := by
  have leaves := (@reconciled_run s context subnetIds maxAddressesPerSubnet).at' desired member
  rw [ptrRows_reconcile]
  rw [LeavesAt] at leaves
  cases looked : s.lastPtr desired.place with
  | none =>
    rw [looked] at leaves
    obtain ⟨id, rows⟩ := leaves
    rw [rows]
    exact List.cons_ne_nil _ _
  | some current =>
    have some : s.ptrRows desired.place ≠ [] := List.ne_nil_of_mem (mem_of_lastPtr looked)
    rw [looked] at leaves
    dsimp only at leaves
    rw [leaves]
    split_ifs
    · exact List.map_eq_nil_iff.not.mpr some
    · exact some

theorem mem_ptrRows_reconcile
    (member : desired ∈ s.desiredPtrs context subnetIds maxAddressesPerSubnet) {row : Record}
    (isRow : row ∈ s.ptrRows desired.place) (unseen : s.lastPtr desired.place ≠ some row) :
    row ∈ (s.reconcileManagedReverseDns context subnetIds maxAddressesPerSubnet).ptrRows
    desired.place := by
  have leaves := (@reconciled_run s context subnetIds maxAddressesPerSubnet).at' desired member
  rw [ptrRows_reconcile]
  rw [LeavesAt] at leaves
  cases looked : s.lastPtr desired.place with
  | none =>
    rw [lastPtr_eq] at looked
    rw [List.getLast?_eq_none_iff.mp looked] at isRow
    cases isRow
  | some current =>
    rw [looked] at leaves unseen
    dsimp only at leaves
    rw [leaves]
    split_ifs
    · refine List.mem_map.mpr ⟨row, isRow, if_neg fun same => unseen (congrArg some ?_)⟩
      exact (eq_of_id_eq (mem_ptrRows.mp isRow).1 (mem_ptrRows.mp (mem_of_lastPtr looked)).1
        same).symm
    · exact isRow

/-- **A row after a run** was not looked at, is the operator's or carries what is wanted. -/
theorem mem_ptrRows_cases (member : desired ∈ s.desiredPtrs context subnetIds maxAddressesPerSubnet)
    {row : Record}
    (isRow : row ∈ (s.reconcileManagedReverseDns context subnetIds maxAddressesPerSubnet).ptrRows
    desired.place) :
    row ∈ s.ptrRows desired.place ∧ s.lastPtr desired.place ≠ some row ∨
      IsOverride row ∨ Carries row desired.value := by
  have leaves := (@reconciled_run s context subnetIds maxAddressesPerSubnet).at' desired member
  rw [ptrRows_reconcile] at isRow
  rw [LeavesAt] at leaves
  cases looked : s.lastPtr desired.place with
  | none =>
    rw [looked] at leaves
    obtain ⟨id, rows⟩ := leaves
    rw [rows, List.mem_singleton] at isRow
    rw [isRow]
    exact .inr (.inr rfl)
  | some current =>
    rw [looked] at leaves
    dsimp only at leaves
    rw [leaves] at isRow
    split_ifs at isRow with writes
    · obtain ⟨old, isOld, rfl⟩ := List.mem_map.mp isRow
      split_ifs with same
      · exact .inr (.inr rfl)
      · exact .inl ⟨isOld, fun seen => same (congrArg Record.id (Option.some.inj seen)).symm⟩
    · by_cases seen : row = current
      · rw [changes, looked, ← seen] at writes
        dsimp only at writes
        rw [Bool.and_eq_true, not_and_or] at writes
        rcases writes with operators | settled
        · exact .inr (.inl (isOverride_of_not_generated (mem_ptrRows.mp isRow).2.1 operators).1)
        · right; right
          have same : toLowerCase (trim row.value) = toLowerCase desired.value := by
            by_contra differs
            exact settled (by simp [ptrDiffers, differs])
          rw [Carries, same, eq_comm, solid_iff]
          by_contra padded
          exact padded_ne padded same
      · exact .inl ⟨isRow, fun found => seen (Option.some.inj found).symm⟩

/-- **Reverse DNS settles exactly where nothing is untidy.** -/
theorem reverse_dns_settles_iff (distinct : (s.zones.map Zone.id).Nodup) :
    ReverseDnsSettles s context subnetIds maxAddressesPerSubnet ↔
      Tidy s context subnetIds maxAddressesPerSubnet := by
  constructor
  · intro settles
    refine ⟨fun subnet ip decides zone ptrName located => ?_,
      fun addr place answers row isRow unseen => ?_⟩
    · have wanted : s.desiredOf context (subnet, ip) = some ⟨zone.id, ptrName, _, _⟩ :=
        congrArg (Option.map _) located
      exact reconcile_again_iff.mp settles.again _
        ((mem_desiredPtrs distinct).mpr ⟨subnet, ip, decides, wanted⟩)
    · obtain ⟨_, ptr, -, member, rfl, -⟩ := answers.decided distinct
      exact settles.fits addr _ answers row (mem_ptrRows_reconcile member isRow unseen)
  · intro tidy
    refine ⟨reconcile_again_iff.mpr fun desired member => ?_, fun addr place answers => ?_,
      fun addr place answers row isRow => ?_⟩
    · obtain ⟨subnet, ip, decides, wanted⟩ := (mem_desiredPtrs distinct).mp member
      obtain ⟨zone, located, isZone, value⟩ := place_of_desiredOf wanted
      rw [value, DesiredPtr.place, isZone]
      exact tidy.trimmed subnet ip decides zone _ located
    · obtain ⟨_, ptr, -, member, rfl, -⟩ := answers.decided distinct
      exact ptrRows_ne_nil member
    · obtain ⟨subnet, ptr, decides, member, rfl, value⟩ := answers.decided distinct
      rcases mem_ptrRows_cases member isRow with hidden | override | carries
      · exact tidy.hidden addr _ answers row hidden.1 hidden.2
      · exact .inl override
      · exact .inr ⟨subnet, decides, value ▸ carries⟩

/-! ## A link of two addresses -/

/-- `10.0.0.0/30`, which is reconciled. -/
def linkRow : SubnetRow :=
  ⟨1, ⟨.v4, 0x0a000000, 30, Network.ten_prefix_le_30, Network.ten_aligned_30, Network.ten_fits,
    Network.ten_unmapped⟩, { status := .allocated, hasReverseDns := true }⟩

/-- The link with its leases. -/
def linkContext (leases : List Lease) : Context where
  env := { officeEnv with
    leases
    subnets :=
      { rows := [linkRow]
        nextId := 2
        fresh := Table.fresh_singleton linkRow
        idsDistinct := by simp
        keysDistinct := by simp } }
  ips := .empty
  now := 1

/-- A `PTR` of `10.0.0.1`. -/
def linkPtr (id : Nat) (value : Text) (source : Source) : Record :=
  ⟨id, 1, "1".toList, .ptr, value, source, true⟩

/-- The reverse zone of the link with some records. -/
def linkDns (records : List Record) (ids : (records.map Record.id).Nodup) : Store :=
  ⟨[⟨1, "0.0.10.in-addr.arpa".toList, .reverse, true, 1⟩], records, ids⟩

/-- A generated name, and the operator's behind it. -/
def doubledDns : Store :=
  linkDns [linkPtr 1 "laptop.lan".toList .dhcp, linkPtr 2 "gw.example".toList .manual] (by decide)

/-- A lease whose client reports a blank in its name. -/
def blankLease : Lease := ⟨1, some 1, officeAddr 1, none, some "host .".toList, .infinite, none⟩

theorem managedSubnets_link (leases : List Lease) : managedSubnets (linkContext leases) [] =
    [linkRow] :=
  List.mergeSort_of_pairwise (List.pairwise_singleton _ linkRow)

theorem managedZone_link {records : List Record} (ids : (records.map Record.id).Nodup) :
    (linkDns records ids).managedZone (officeAddr 1).text =
      some (⟨1, "0.0.10.in-addr.arpa".toList, .reverse, true, 1⟩, "1".toList) := by
  have found : (linkDns [] .nil).managedZone (officeAddr 1).text =
      some (⟨1, "0.0.10.in-addr.arpa".toList, .reverse, true, 1⟩, "1".toList) := by decide
  exact found

theorem answersAt_link {records : List Record} (ids : (records.map Record.id).Nodup)
    (leases : List Lease) :
    AnswersAt (linkDns records ids) (linkContext leases) [] 65536 (officeAddr 1)
    (1, "1".toList) := by
  refine ⟨⟨linkRow, ?_, by decide⟩, ⟨_, _, managedZone_link ids, rfl⟩⟩
  rw [managedSubnets_link]
  exact List.mem_singleton_self _

theorem wantedValue_doubled : doubledDns.wantedValue (linkContext []) linkRow (officeAddr 1).text =
    "10.0.0.1".toList := by
  have names : doubledDns.protocolNames (linkContext []) = [] := by
    rw [protocolNames, recordNames, reservationNames, leaseNames, List.mergeSort_of_pairwise
      (by decide), List.mergeSort_of_pairwise (by decide), List.mergeSort_of_pairwise (by decide)]
    decide
  rw [wantedValue, names]
  decide

theorem wantedValue_blank : (linkDns [] .nil).wantedValue (linkContext [blankLease]) linkRow
    (officeAddr 1).text = "host ".toList := by
  have names : (linkDns [] .nil).protocolNames (linkContext [blankLease]) =
      [⟨(officeAddr 1).text, .dhcp, "host ".toList⟩] := by
    rw [protocolNames, recordNames, reservationNames, leaseNames, List.mergeSort_of_pairwise
      (by decide), List.mergeSort_of_pairwise (by decide), List.mergeSort_of_pairwise (by decide)]
    decide +kernel
  rw [wantedValue, names]
  decide

theorem reverse_dns_settles_iff_link :
    ReverseDnsSettles (linkDns [] .nil) (linkContext []) [] 65536 ↔
      Tidy (linkDns [] .nil) (linkContext []) [] 65536 :=
  reverse_dns_settles_iff (by decide)

/-- **A stale name behind the operator's stays, and a name with a blank is written in every
run.** -/
theorem hidden_and_blank_names_never_settle :
    ¬ ReverseDnsSettles doubledDns (linkContext []) [] 65536 ∧
      ¬ ReverseDnsSettles (linkDns [] .nil) (linkContext [blankLease]) [] 65536 := by
  have decided : ∀ {leases : List Lease} {subnet : SubnetRow} {ip : Text},
      Decides (linkContext leases) [] 65536 subnet ip → subnet = linkRow := by
    intro leases subnet ip decides
    have managed := decides.managed
    rw [managedSubnets_link] at managed
    exact List.mem_singleton.mp managed
  constructor
  · intro settles
    have answers : AnswersAt doubledDns (linkContext []) [] 65536 (officeAddr 1) (1, "1".toList) :=
      answersAt_link _ _
    obtain ⟨_, ptr, -, member, place, -⟩ := answers.decided (by decide)
    have stays : linkPtr 1 "laptop.lan".toList .dhcp ∈ doubledDns.ptrRows ptr.place :=
      place ▸ by decide
    have kept := mem_ptrRows_reconcile member stays (place ▸ by decide)
    rw [place] at kept
    rcases settles.fits _ _ answers _ kept with override | ⟨subnet, decides, carries⟩
    · exact absurd override.source (by decide)
    · rw [decided decides, wantedValue_doubled] at carries
      exact absurd carries (by unfold Carries; decide)
  · intro settles
    have answers : AnswersAt (linkDns [] .nil) (linkContext [blankLease]) [] 65536 (officeAddr 1)
        (1, "1".toList) := answersAt_link _ _
    obtain ⟨subnet, ptr, decides, member, place, value⟩ := answers.decided (by decide)
    rw [decided decides, wantedValue_blank] at value
    rcases reconcile_again_iff.mp settles.again ptr member with trimmed | ⟨row, found, -⟩
    · rw [value] at trimmed
      exact absurd trimmed (by decide)
    · cases found

end Settles

end Store

end Dns

end Cidrella
