import Cidrella.LeaseRetention

/-!
# The rows of the DHCP table

`unifiedDhcpRows` of `models/ip-row-facts.js`: every reservation, with the active lease of its
client if there is one, and every lease that no reservation accounts for.

Reservations and leases are joined by a key of MAC and address, and the lease sync tells
clients apart by MAC or by DUID (`leaseIsReservationClient`). The table shows what the sync
goes by as long as a reservation shares its key with the leases of its client at its network
and address and with no others. Of each reservation by itself this is exact; with several, one
may account for a lease that another has hidden (`shows_claims_iff`). Under DHCPv4 keys are
such (`keysIdentify_of_v4`); a DHCPv6 lease has no MAC, and its key is the same whichever
client holds it.
-/

set_option autoImplicit false

namespace Cidrella

namespace UnifiedDhcp

open DnsNames LeaseTable

/-! ## Tables -/

/-- A row of `subnets`. -/
structure SubnetRecord where
  id : Nat
  cidr : Text
  name : Text
  domainName : Option Text
  folderId : Option Nat

/-- A row of `dhcp_reservations`. -/
structure ReservationRecord where
  id : Nat
  subnetId : Nat
  macAddress : Option Text
  ipAddress : Text
  enabled : Bool
  addressFamily : Family
  duid : Option Text
  deriving DecidableEq

/-- A row of `dhcp_leases`. -/
structure LeaseRecord where
  id : Nat
  ipAddress : Text
  macAddress : Option Text
  expiresAt : Text
  subnetId : Option Nat
  dhcpVersion : Family
  duid : Option Text
  deriving DecidableEq

/-- The tables that are read. -/
structure Tables where
  subnets : List SubnetRecord
  reservations : List ReservationRecord
  leases : List LeaseRecord
  lease_ids : (leases.map (·.id)).Nodup

/-- `${text(row.mac_address)}:${row.ip_address}`. -/
def identity (macAddress : Option Text) (ipAddress : Text) : Text :=
  toLowerCase (macAddress.getD []) ++ ':' :: ipAddress

/-- The key of a reservation. -/
def ReservationRecord.key (reservation : ReservationRecord) : Text :=
  identity reservation.macAddress reservation.ipAddress

/-- The key of a lease. -/
def LeaseRecord.key (lease : LeaseRecord) : Text := identity lease.macAddress lease.ipAddress

/-! ## The rows -/

/-- `dhcp_assignment_type`. -/
inductive AssignmentType where
  | reserved
  | dynamic
  deriving DecidableEq

/-- `lease_status`. -/
inductive LeaseStatus where
  | active
  | offline
  deriving DecidableEq

/-- What `subnetFields` returns. -/
structure SubnetFields where
  cidr : Option Text
  name : Option Text
  domainName : Option Text
  folderId : Option Nat
  deriving DecidableEq

/-- A row: the record it is made from, and what it has besides. -/
structure Row where
  record : ReservationRecord ⊕ LeaseRecord
  protocolId : Text
  reservationId : Option Nat
  leaseId : Option Nat
  dhcpAssignmentType : AssignmentType
  leaseStatus : LeaseStatus
  expiresAt : Option Text
  enabled : Bool
  subnet : SubnetFields
  deriving DecidableEq

section

variable (times : TimeTexts) (now : Int) (tables : Tables)

/-- Whether a lease is active. -/
def LeaseRecord.active (lease : LeaseRecord) : Bool := isLeaseActive times now lease.expiresAt

/-- `activeByIdentity.get`: of leases with one key the last one stays. -/
def activeByIdentity (key : Text) : Option LeaseRecord :=
  (tables.leases.filter fun lease => lease.active times now && lease.key = key).getLast?

/-- `subnetFields`. -/
def subnetFields (id : Option Nat) : SubnetFields :=
  let subnet := tables.subnets.find? fun subnet => some subnet.id = id
  { cidr       := subnet.map (·.cidr)
    name       := subnet.map (·.name)
    domainName := subnet.bind (·.domainName)
    folderId   := subnet.bind (·.folderId) }

/-- The row of a reservation. -/
def reservationRow (reservation : ReservationRecord) : Row :=
  let lease := activeByIdentity times now tables reservation.key
  { record             := .inl reservation
    protocolId         := "reservation:".toList ++ Nat.toDigits 10 reservation.id
    reservationId      := some reservation.id
    leaseId            := lease.map (·.id)
    dhcpAssignmentType := .reserved
    leaseStatus        := if lease.isSome then .active else .offline
    expiresAt          := lease.map (·.expiresAt)
    enabled            := reservation.enabled
    subnet             := subnetFields tables (some reservation.subnetId) }

/-- The row of a lease. -/
def leaseRow (lease : LeaseRecord) : Row :=
  { record             := .inr lease
    protocolId         := "lease:".toList ++ Nat.toDigits 10 lease.id
    reservationId      := none
    leaseId            := some lease.id
    dhcpAssignmentType := .dynamic
    leaseStatus        := if lease.active times now then .active else .offline
    expiresAt          := some lease.expiresAt
    enabled            := true
    subnet             := subnetFields tables lease.subnetId }

/-- `matched.has`. -/
def isMatched (key : Text) : Bool :=
  tables.reservations.any fun reservation =>
    reservation.key = key && (activeByIdentity times now tables reservation.key).isSome

/-- `unifiedDhcpRows`. -/
def unifiedDhcpRows : List Row :=
  tables.reservations.map (reservationRow times now tables) ++
    (tables.leases.filter fun lease => !isMatched times now tables lease.key).map
    (leaseRow times now tables)

end

/-! ## Whose lease it is -/

/-- `leaseIsReservationClient`. -/
def leaseIsReservationClient (reservation : ReservationRecord) (lease : LeaseRecord) : Bool :=
  let same := fun (expected observed : Option Text) =>
    toLowerCase (expected.getD []) = toLowerCase (observed.getD [])
  match lease.dhcpVersion with
  | .v6 => same reservation.duid lease.duid
  | .v4 => same reservation.macAddress lease.macAddress

/-- The lease is at the reservation's network and address and its client's. -/
def OfClient (reservation : ReservationRecord) (lease : LeaseRecord) : Prop :=
  lease.subnetId = some reservation.subnetId ∧ lease.ipAddress = reservation.ipAddress ∧
    leaseIsReservationClient reservation lease = true

instance (reservation : ReservationRecord) (lease : LeaseRecord) :
    Decidable (OfClient reservation lease) :=
  inferInstanceAs (Decidable (_ ∧ _ ∧ _))

section

variable (times : TimeTexts) (now : Int) (tables : Tables)

/-- A reservation whose client holds an active lease at its address accounts for its client's
leases there. -/
def Absorbs (reservation : ReservationRecord) (lease : LeaseRecord) : Prop :=
  OfClient reservation lease ∧
    ∃ other ∈ tables.leases, other.active times now = true ∧ OfClient reservation other

/-- One row for each reservation, and one for each lease that none absorbs; and a reservation
carries only an active lease of its client. -/
structure ShowsClaims : Prop where
  reserved : (unifiedDhcpRows times now tables).filterMap (·.record.getLeft?) = tables.reservations
  dynamic : ∀ lease ∈ tables.leases,
    (¬ ∃ row ∈ unifiedDhcpRows times now tables, row.record = .inr lease) ↔
      ∃ reservation ∈ tables.reservations, Absorbs times now tables reservation lease
  carried : ∀ row ∈ unifiedDhcpRows times now tables, ∀ reservation, row.record = .inl reservation →
    (row.leaseId = none ∧ row.leaseStatus = .offline ∧ row.expiresAt = none) ∨
      ∃ lease ∈ tables.leases, row.leaseId = some lease.id ∧ row.leaseStatus = .active ∧
        row.expiresAt = some lease.expiresAt ∧ lease.active times now = true ∧
        OfClient reservation lease

/-- A lease shares its key with a reservation and with an active lease. -/
def SharesKey (lease : LeaseRecord) : Prop :=
  ∃ reservation ∈ tables.reservations, reservation.key = lease.key ∧
    ∃ other ∈ tables.leases, other.active times now = true ∧ other.key = lease.key

/-- Of a reservation with an active lease that has its key, or is its client's at its network and
address, the leases with its key are exactly those of its client there. -/
def KeysIdentify : Prop :=
  ∀ reservation ∈ tables.reservations, ∀ active ∈ tables.leases, active.active times now = true →
    reservation.key = active.key ∨ OfClient reservation active →
      ∀ lease ∈ tables.leases, reservation.key = lease.key ↔ OfClient reservation lease

/-- The tables with one reservation. -/
def Tables.only (reservation : ReservationRecord) : Tables :=
  { tables with reservations := [reservation] }

end

/-! ## What the rows come to -/

section

variable {times : TimeTexts} {now : Int} {tables : Tables}

theorem of_activeByIdentity {key : Text} {lease : LeaseRecord}
    (newest : activeByIdentity times now tables key = some lease) :
    lease ∈ tables.leases ∧ lease.active times now = true ∧ lease.key = key := by
  obtain ⟨listed, fits⟩ := List.mem_filter.mp (List.mem_of_getLast? newest)
  rw [Bool.and_eq_true, decide_eq_true_eq] at fits
  exact ⟨listed, fits⟩

theorem isSome_activeByIdentity {key : Text} :
    (activeByIdentity times now tables key).isSome = true ↔
      ∃ lease ∈ tables.leases, lease.active times now = true ∧ lease.key = key := by
  have fits {lease : LeaseRecord} :
      lease ∈ (tables.leases.filter fun lease => lease.active times now && lease.key = key) ↔
        lease ∈ tables.leases ∧ lease.active times now = true ∧ lease.key = key := by
    rw [List.mem_filter, Bool.and_eq_true, decide_eq_true_eq]
  rw [activeByIdentity, List.getLast?_isSome]
  constructor
  · intro filled
    obtain ⟨lease, member⟩ := List.exists_mem_of_ne_nil _ filled
    exact ⟨lease, fits.mp member⟩
  · rintro ⟨lease, fitting⟩
    exact List.ne_nil_of_mem (fits.mpr fitting)

theorem isMatched_iff {lease : LeaseRecord} :
    isMatched times now tables lease.key = true ↔ SharesKey times now tables lease := by
  rw [isMatched, List.any_eq_true]
  refine exists_congr fun reservation => and_congr_right fun _ => ?_
  rw [Bool.and_eq_true, decide_eq_true_eq, isSome_activeByIdentity]
  refine and_congr_right fun same => ?_
  rw [same]

theorem reserved_rows :
    (unifiedDhcpRows times now tables).filterMap (·.record.getLeft?) = tables.reservations := by
  have none : ((tables.leases.filter fun lease => !isMatched times now tables lease.key).map
      (leaseRow times now tables)).filterMap (·.record.getLeft?) = [] := by
    rw [List.filterMap_map]
    exact List.filterMap_eq_nil_iff.mpr fun _ _ => rfl
  rw [unifiedDhcpRows, List.filterMap_append, none, List.append_nil, List.filterMap_map]
  exact List.filterMap_some

theorem mem_unifiedDhcpRows {row : Row} : row ∈ unifiedDhcpRows times now tables ↔
    (∃ reservation ∈ tables.reservations, reservationRow times now tables reservation = row) ∨
      ∃ lease ∈ tables.leases, ¬ SharesKey times now tables lease ∧
      leaseRow times now tables lease = row := by
  rw [unifiedDhcpRows, List.mem_append, List.mem_map, List.mem_map]
  refine or_congr_right (exists_congr fun lease => ?_)
  rw [List.mem_filter, and_assoc, Bool.not_eq_true', ← Bool.not_eq_true, isMatched_iff]

theorem no_row_iff {lease : LeaseRecord} (listed : lease ∈ tables.leases) :
    (¬ ∃ row ∈ unifiedDhcpRows times now tables, row.record = .inr lease) ↔
    SharesKey times now tables lease := by
  rw [not_iff_comm]
  constructor
  · intro apart
    exact ⟨_, mem_unifiedDhcpRows.mpr (.inr ⟨lease, listed, apart, rfl⟩), rfl⟩
  · rintro ⟨row, member, record⟩
    obtain ⟨reservation, -, rfl⟩ | ⟨other, -, apart, rfl⟩ := mem_unifiedDhcpRows.mp member
    · cases record
    · cases record
      exact apart

theorem mem_of_id {first second : LeaseRecord} (listedFirst : first ∈ tables.leases)
    (listedSecond : second ∈ tables.leases) (same : first.id = second.id) : first = second :=
  List.inj_on_of_nodup_map tables.lease_ids listedFirst listedSecond same

theorem carried_iff {reservation : ReservationRecord} :
    ((reservationRow times now tables reservation).leaseId = none ∧
        (reservationRow times now tables reservation).leaseStatus = .offline ∧
        (reservationRow times now tables reservation).expiresAt = none ∨
      ∃ lease ∈ tables.leases, (reservationRow times now tables reservation).leaseId =
        some lease.id ∧ (reservationRow times now tables reservation).leaseStatus = .active ∧
        (reservationRow times now tables reservation).expiresAt = some lease.expiresAt ∧
        lease.active times now = true ∧ OfClient reservation lease) ↔
      ∀ lease, activeByIdentity times now tables reservation.key = some lease →
      OfClient reservation lease := by
  unfold reservationRow
  cases newest : activeByIdentity times now tables reservation.key with
  | none => exact ⟨fun _ _ => nofun, fun _ => .inl ⟨rfl, rfl, rfl⟩⟩
  | some lease =>
    obtain ⟨listed, active, -⟩ := of_activeByIdentity newest
    constructor
    · rintro (⟨none, -⟩ | ⟨other, listedOther, id, -, -, -, ofClient⟩) found ⟨⟩
      · cases none
      · rwa [mem_of_id listed listedOther (Option.some.inj id)]
    · intro ofClient
      exact .inr ⟨lease, listed, rfl, rfl, rfl, active, ofClient lease rfl⟩

end

/-- **The table shows the claims** when keys stand for clients. -/
theorem shows_claims_of_keysIdentify {times : TimeTexts} {now : Int} {tables : Tables}
    (identify : KeysIdentify times now tables) : ShowsClaims times now tables := by
  refine ⟨reserved_rows, fun lease listed => (no_row_iff listed).trans ?_,
    fun row member reservation record => ?_⟩
  · refine exists_congr fun reservation => and_congr_right fun reserved => ?_
    constructor
    · rintro ⟨same, other, listedOther, active, key⟩
      have joined := identify reservation reserved other listedOther active
        (.inl (same.trans key.symm))
      exact ⟨(joined lease listed).mp same, other, listedOther, active,
        (joined other listedOther).mp (same.trans key.symm)⟩
    · rintro ⟨ofClient, other, listedOther, active, otherOfClient⟩
      have joined := identify reservation reserved other listedOther active (.inr otherOfClient)
      have same := (joined lease listed).mpr ofClient
      exact ⟨same, other, listedOther, active,
        ((joined other listedOther).mpr otherOfClient).symm.trans same⟩
  · obtain ⟨other, reserved, rfl⟩ | ⟨lease, -, -, rfl⟩ := mem_unifiedDhcpRows.mp member
    · cases record
      refine carried_iff.mpr fun lease newest => ?_
      obtain ⟨listed, active, key⟩ := of_activeByIdentity newest
      exact (identify _ reserved lease listed active (.inl key.symm) lease listed).mp key.symm
    · cases record

theorem keysIdentify_of_showsClaims {times : TimeTexts} {now : Int} {tables : Tables}
    {reservation : ReservationRecord} (shows : ShowsClaims times now (tables.only reservation)) :
    KeysIdentify times now (tables.only reservation) := by
  -- hidden leases are absorbed ones, of the only reservation there is
  have hidden : ∀ lease ∈ tables.leases,
      (reservation.key = lease.key ∧
          ∃ other ∈ tables.leases, other.active times now = true ∧ other.key = lease.key) ↔
        OfClient reservation lease ∧
          ∃ other ∈ tables.leases, other.active times now = true ∧ OfClient reservation other := by
    intro lease listed
    have same := (@no_row_iff times now (tables.only reservation) lease listed).symm.trans
      (shows.dynamic lease listed)
    have one : ∀ P : ReservationRecord → Prop,
        (∃ other ∈ (tables.only reservation).reservations, P other) ↔ P reservation :=
        fun P => by simp [Tables.only]
    rw [SharesKey, one, one] at same
    exact same
  intro only isOnly other listedOther active either
  obtain rfl := List.mem_singleton.mp isOnly
  have both : only.key = other.key ∧ OfClient only other := by
    rcases either with key | ofClient
    · exact ⟨key, ((hidden other listedOther).mp ⟨key, other, listedOther, active, rfl⟩).1⟩
    · exact ⟨((hidden other listedOther).mpr ⟨ofClient, other, listedOther, active, ofClient⟩).1,
        ofClient⟩
  intro lease listed
  constructor
  · intro key
    exact ((hidden lease listed).mp ⟨key, other, listedOther, active, both.1.symm.trans key⟩).1
  · intro ofClient
    exact ((hidden lease listed).mpr ⟨ofClient, other, listedOther, active, both.2⟩).1

/-- **The table shows the claims of each reservation exactly when keys stand for clients**, and
then it shows all of them. -/
theorem shows_claims_iff (times : TimeTexts) (now : Int) (tables : Tables) :
    ((∀ reservation ∈ tables.reservations, ShowsClaims times now (tables.only reservation)) ↔
        KeysIdentify times now tables) ∧
      (KeysIdentify times now tables → ShowsClaims times now tables) := by
  refine ⟨⟨fun shows reservation reserved => ?_, fun identify reservation reserved => ?_⟩,
    shows_claims_of_keysIdentify⟩
  · exact keysIdentify_of_showsClaims (shows reservation reserved) reservation
      (List.mem_singleton_self _)
  · refine shows_claims_of_keysIdentify fun only isOnly => ?_
    obtain rfl := List.mem_singleton.mp isOnly
    exact identify _ reserved

/-! ## Where keys stand for clients -/

theorem identity_inj {mac mac' : Option Text} {ip ip' : Text} (plain : ':' ∉ ip)
    (plain' : ':' ∉ ip') (same : identity mac ip = identity mac' ip') :
    toLowerCase (mac.getD []) = toLowerCase (mac'.getD []) ∧ ip = ip' := by
  obtain ⟨others, first, second⟩ | ⟨others, first, second⟩ := List.append_eq_append_iff.mp same
  · cases others with
    | nil => exact ⟨by rw [first, List.append_nil], (List.cons.inj second).2⟩
    | cons c others =>
      rw [(List.cons.inj second).2] at plain
      exact absurd (List.mem_append_right _ List.mem_cons_self) plain
  · cases others with
    | nil => exact ⟨by rw [first, List.append_nil], (List.cons.inj second).2.symm⟩
    | cons c others =>
      rw [(List.cons.inj second).2] at plain'
      exact absurd (List.mem_append_right _ List.mem_cons_self) plain'

/-- **Under DHCPv4 keys stand for clients**, as long as no lease of one network is at an
address that another one has reserved. -/
theorem keysIdentify_of_v4 (times : TimeTexts) (now : Int) {tables : Tables}
    (v4 : ∀ lease ∈ tables.leases, lease.dhcpVersion = .v4 ∧ ':' ∉ lease.ipAddress)
    (plain : ∀ reservation ∈ tables.reservations, ':' ∉ reservation.ipAddress)
    (apart : ∀ reservation ∈ tables.reservations, ∀ lease ∈ tables.leases,
      lease.ipAddress = reservation.ipAddress → lease.subnetId = some reservation.subnetId) :
    KeysIdentify times now tables := by
  have joined {reservation : ReservationRecord} {lease : LeaseRecord}
      (reserved : reservation ∈ tables.reservations) (listed : lease ∈ tables.leases) :
      reservation.key = lease.key ↔ OfClient reservation lease := by
    have client : leaseIsReservationClient reservation lease = true ↔
        toLowerCase (reservation.macAddress.getD []) = toLowerCase (lease.macAddress.getD []) := by
      rw [leaseIsReservationClient, (v4 lease listed).1]
      exact decide_eq_true_iff
    constructor
    · intro same
      obtain ⟨mac, ip⟩ := identity_inj (plain reservation reserved) (v4 lease listed).2 same
      exact ⟨apart reservation reserved lease listed ip.symm, ip.symm, client.mpr mac⟩
    · rintro ⟨-, ip, mac⟩
      rw [ReservationRecord.key, LeaseRecord.key, identity, identity, client.mp mac, ip]
  exact fun _ reserved _ _ _ _ _ listed => joined reserved listed

/-- **Under DHCPv4 the table shows each claim once, and whose it is.** -/
theorem shows_claims_of_v4 (times : TimeTexts) (now : Int) {tables : Tables}
    (v4 : ∀ lease ∈ tables.leases, lease.dhcpVersion = .v4 ∧ ':' ∉ lease.ipAddress)
    (plain : ∀ reservation ∈ tables.reservations, ':' ∉ reservation.ipAddress)
    (apart : ∀ reservation ∈ tables.reservations, ∀ lease ∈ tables.leases,
      lease.ipAddress = reservation.ipAddress → lease.subnetId = some reservation.subnetId) :
    ShowsClaims times now tables :=
    shows_claims_of_keysIdentify (keysIdentify_of_v4 times now v4 plain apart)

theorem reservedAndDynamic_ids : ([7, 8] : List Nat).Nodup := by decide

/-- A reserved client with its lease, and another client. -/
def reservedAndDynamic : Tables where
  subnets      := []
  reservations := [⟨1, 1, some "AA:01".toList, "10.0.0.5".toList, true, .v4, none⟩]
  leases       := [⟨7, "10.0.0.5".toList, some "aa:01".toList, infinite, some 1, .v4, none⟩,
    ⟨8, "10.0.0.6".toList, some "aa:02".toList, infinite, some 1, .v4, none⟩]
  lease_ids    := reservedAndDynamic_ids

theorem shows_claims_of_v4_example :
    ShowsClaims ⟨fun _ => none, fun _ => none, fun _ => []⟩ 0 reservedAndDynamic :=
  shows_claims_of_v4 _ 0 (by decide) (by decide) (by decide)

/-- A reservation of one DHCPv6 client, and a lease of another one that is still active at its
address. -/
def heldByAnother : Tables where
  subnets      := []
  reservations := [⟨1, 1, none, "fd00::5".toList, true, .v6, some "00:01".toList⟩]
  leases       := [⟨7, "fd00::5".toList, none, infinite, some 1, .v6, some "00:02".toList⟩]
  lease_ids    := List.nodup_singleton 7

/-- The reservation shows as active, with the other client's lease. -/
theorem another_client_is_shown : ¬ ∀ times now tables, ShowsClaims times now tables :=
  fun shows => by
  have newest : activeByIdentity ⟨fun _ => none, fun _ => none, fun _ => []⟩ 0 heldByAnother
      ":fd00::5".toList = some ⟨7, "fd00::5".toList, none, infinite, some 1, .v6,
      some "00:02".toList⟩ := by decide
  have ofClient := carried_iff.mp ((shows _ _ heldByAnother).carried _
    (mem_unifiedDhcpRows.mpr (.inl ⟨_, List.mem_cons_self, rfl⟩)) _ rfl) _ newest
  exact absurd ofClient (by decide)

end UnifiedDhcp

end Cidrella
