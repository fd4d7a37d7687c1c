import Cidrella.DhcpTopology
import Cidrella.ReservedRows
import Cidrella.Retirement

/-!
# DHCP reservations

`models/dhcp-reservation.js`: a reservation's row is written, and its address is taken or
left through the lifecycle service.

An enabled reservation and a row in `static_dhcp` are two records of one fact, kept in step
by hand. `Db.Linked` says that they agree at every key; each call on a reservation changes
both in the same place, and the lifecycle's other operations change neither. Retirement is
the exception: it clears the row of a candidate that was selected as unassigned and has
been reserved since (`reserved_exactly_of_run`).
-/

set_option autoImplicit false

namespace Cidrella

/-! ## The rows -/

/-- Why a call on a reservation fails. -/
inductive ReservationFailure where
  /-- `FOREIGN KEY constraint failed`. -/
  | foreignKey
  /-- `CHECK constraint failed`. -/
  | check
  /-- `UNIQUE constraint failed`. -/
  | unique
  | lifecycle (failure : Failure)
  deriving DecidableEq, Repr

/-- What a caller sends. A field that is `none` is `undefined`. The column `iaid` is not
kept; `iaid` is what it holds after the call. -/
structure ReservationInput where
  addr : Addr
  macAddress : Option Text
  hostname : Option (Option Text) := none
  duid : Option (Option Text) := none
  iaid : Option Text := none
  enabled : Option Bool := none

/-- The schema's `CHECK`: a client identity of the family. -/
def Reservation.hasClient (row : Reservation) : Bool :=
  match row.addr.family with
  | .v4 => row.macAddress.isSome
  | .v6 => row.duid.isSome

/-- The schema's `UNIQUE`: the address, the MAC and the DUID, in one network. -/
def Reservation.clashes (row other : Reservation) : Bool :=
  row.subnetId = other.subnetId &&
    (row.addr = other.addr || (row.macAddress.isSome && row.macAddress = other.macAddress) ||
      (row.duid.isSome && row.duid = other.duid))

/-- The constraints on a row that is written. -/
def Env.checkReservation (env : Env) (row : Reservation) : Except ReservationFailure Unit :=
  if (env.subnets.byId row.subnetId).isNone then .error .foreignKey
  else if !row.hasClient then .error .check
  else if (env.reservations.filter (·.id ≠ row.id)).any row.clashes then .error .unique
  else .ok ()

/-- What the row gives its address. -/
def Reservation.fields (row : Reservation) (iaid : Option Text) : IpStore.ReservationFields where
  hostname := some row.hostname
  macAddress := some row.macAddress
  dhcpVersion := some (match row.addr.family with | .v4 => .v4 | .v6 => .v6)
  dhcpDuid := row.duid
  dhcpIaid := iaid

/-- The lifecycle's part of a call. -/
def lifecyclePart (result : Except Failure IpStore) : Except ReservationFailure IpStore :=
  result.mapError .lifecycle

namespace Db

/-- `createReservation`, without the reverse record. -/
def createReservation (db : Db) (now subnetId : Nat) (input : ReservationInput) :
    Except ReservationFailure Db := do
  let row : Reservation :=
    { id := freshId (db.env.reservations.map (·.id))
      subnetId := subnetId
      addr := input.addr
      macAddress := truthy input.macAddress
      duid := truthy (input.duid.getD none)
      hostname := truthy (input.hostname.getD none)
      enabled := true }
  db.env.checkReservation row
  let env := { db.env with reservations := db.env.reservations ++ [row] }
  let store ← lifecyclePart
    (db.store.allocateStaticDhcp env now subnetId input.addr (row.fields input.iaid) (some row.id))
  .ok ⟨env, store⟩

/-- The row an update leaves. -/
def updatedReservation (reservation : Reservation) (input : ReservationInput) : Reservation :=
  { reservation with
    macAddress := truthy input.macAddress
    addr := input.addr
    hostname := (input.hostname.map truthy).getD reservation.hostname
    enabled := input.enabled.getD reservation.enabled
    duid := (input.duid.map truthy).getD reservation.duid }

/-- `updateReservation`, without the reverse records. A disabled reservation holds no
allocation, so it has nothing to release. -/
def updateReservation (db : Db) (now : Nat) (reservation : Reservation) (input : ReservationInput) :
    Except ReservationFailure Db := do
  let row := updatedReservation reservation input
  db.env.checkReservation row
  let env :=
    { db.env with
      reservations := db.env.reservations.map fun other => if other.id = reservation.id then row
        else other }
  let left ←
    (if reservation.enabled && input.addr ≠ reservation.addr then
      lifecyclePart (db.store.deallocateStaticDhcp env now reservation.subnetId reservation.addr
        reservation.macAddress)
    else .ok db.store)
  let store ←
    (if row.enabled then
      lifecyclePart (left.allocateStaticDhcp env now reservation.subnetId input.addr
        (row.fields input.iaid) (some reservation.id))
    else if reservation.enabled && input.addr = reservation.addr then
      lifecyclePart (left.deallocateStaticDhcp env now reservation.subnetId input.addr
        input.macAddress)
    else .ok left)
  .ok ⟨env, store⟩

/-- `deleteReservation`, without the reverse record. -/
def deleteReservation (db : Db) (now : Nat) (reservation : Reservation) :
    Except ReservationFailure Db := do
  let env := { db.env with reservations := db.env.reservations.filter (·.id ≠ reservation.id) }
  if reservation.enabled then do
    let store ← lifecyclePart (db.store.deallocateStaticDhcp env now reservation.subnetId
      reservation.addr reservation.macAddress)
    .ok ⟨env, store⟩
  else .ok ⟨env, db.store⟩

end Db

/-! ## The owner of a key -/

/-- The reservation that owns a key. -/
def Env.owner (env : Env) (key : IpKey) : Option (Option Nat) :=
  if key.interfaceId = none then
    (env.enabledReservationAt key.subnetId key.addr).map fun reservation => some reservation.id
  else none

/-- The rows and the reservations agree. -/
def Db.Linked (db : Db) : Prop := db.store.reservedBy = db.env.owner

/-- What the schema promises of the reservations. -/
structure Env.ReservationsDistinct (env : Env) : Prop where
  ids : (env.reservations.map (·.id)).Nodup
  addrs : ∀ row ∈ env.reservations, ∀ other ∈ env.reservations, row.subnetId = other.subnetId →
    row.addr = other.addr → row = other

section Owner

variable {env : Env}

theorem enabledReservationAt_eq_some_iff (distinct : env.ReservationsDistinct) {subnetId : Nat}
    {addr : Addr} {row : Reservation} : env.enabledReservationAt subnetId addr = some row ↔
      row ∈ env.reservations ∧ row.subnetId = subnetId ∧ row.addr = addr ∧ row.enabled = true := by
  constructor
  · intro found
    have test := List.find?_some found
    simp only [Bool.and_eq_true, decide_eq_true_eq] at test
    exact ⟨List.mem_of_find?_eq_some found, test.1.1, test.1.2, test.2⟩
  · rintro ⟨member, rfl, rfl, enabled⟩
    cases found : env.enabledReservationAt row.subnetId row.addr with
    | none =>
      have test := List.find?_eq_none.mp found row member
      simp [enabled] at test
    | some other =>
      have test := List.find?_some found
      simp only [Bool.and_eq_true, decide_eq_true_eq] at test
      rw [distinct.addrs other (List.mem_of_find?_eq_some found) row member test.1.1 test.1.2]

theorem owner_of_mem (distinct : env.ReservationsDistinct) {row : Reservation}
    (member : row ∈ env.reservations) : env.owner ⟨row.subnetId, row.addr, none⟩ =
      if row.enabled then some (some row.id) else none := by
  unfold Env.owner
  rw [if_pos rfl]
  split
  · rename_i enabled
    rw [(enabledReservationAt_eq_some_iff distinct).mpr ⟨member, rfl, rfl, enabled⟩]
    rfl
  · rename_i disabled
    cases found : env.enabledReservationAt row.subnetId row.addr with
    | none => rfl
    | some other =>
      obtain ⟨inside, subnet, addr, enabled⟩ := (enabledReservationAt_eq_some_iff distinct).mp found
      obtain rfl := distinct.addrs other inside row member subnet addr
      exact absurd enabled disabled

theorem owner_of_absent {subnetId : Nat} {addr : Addr}
    (absent : ∀ row ∈ env.reservations, row.subnetId = subnetId → row.addr ≠ addr) :
    env.owner ⟨subnetId, addr, none⟩ = none := by
  have free : env.enabledReservationAt subnetId addr = none := by
    refine List.find?_eq_none.mpr fun row member test => ?_
    simp only [Bool.and_eq_true, decide_eq_true_eq] at test
    exact absent row member test.1.1 test.1.2
  rw [Env.owner, if_pos rfl, free]
  rfl

theorem owner_congr {after : Env} (distinct : env.ReservationsDistinct)
    (distinctAfter : after.ReservationsDistinct) {key : IpKey}
    (same : key.interfaceId = none → ∀ row : Reservation, row.subnetId = key.subnetId →
      row.addr = key.addr → (row ∈ after.reservations ↔ row ∈ env.reservations)) :
      after.owner key = env.owner key := by
  unfold Env.owner
  split
  · rename_i plain
    refine congrArg _ (Option.ext fun row => ?_)
    rw [enabledReservationAt_eq_some_iff distinctAfter, enabledReservationAt_eq_some_iff distinct]
    constructor
    · rintro ⟨member, subnet, addr, enabled⟩
      exact ⟨(same plain row subnet addr).mp member, subnet, addr, enabled⟩
    · rintro ⟨member, subnet, addr, enabled⟩
      exact ⟨(same plain row subnet addr).mpr member, subnet, addr, enabled⟩
  · rfl

theorem differs_of_ne_plain {key : IpKey} {row : Reservation}
    (other : key ≠ ⟨row.subnetId, row.addr, none⟩) (plain : key.interfaceId = none) :
    ¬ (row.subnetId = key.subnetId ∧ row.addr = key.addr) := by
  rintro ⟨subnet, addr⟩
  refine other ?_
  cases key
  simp_all

theorem checkReservation_ok {row : Reservation} (checked : env.checkReservation row = .ok ()) :
    ∀ other ∈ env.reservations, other.id ≠ row.id → other.subnetId = row.subnetId →
      other.addr ≠ row.addr := by
  intro other member differs subnet addr
  unfold Env.checkReservation at checked
  split at checked
  · cases checked
  · split at checked
    · cases checked
    · split at checked
      · cases checked
      · rename_i unique
        refine unique
          (List.any_eq_true.mpr ⟨other, List.mem_filter.mpr ⟨member, by simpa using differs⟩, ?_⟩)
        simp [Reservation.clashes, subnet, addr]

end Owner

/-! ## Writing a row -/

section Rows

variable {env : Env} (distinct : env.ReservationsDistinct)

include distinct

/-- A row is added. -/
theorem owner_append {row : Reservation} (new : row.id ∉ env.reservations.map (·.id))
    (checked : env.checkReservation row = .ok ()) :
    ({ env with reservations := env.reservations ++ [row] } : Env).ReservationsDistinct ∧
      ({ env with reservations := env.reservations ++ [row] } : Env).owner =
        Function.update env.owner ⟨row.subnetId, row.addr, none⟩
          (if row.enabled then some (some row.id) else none) := by
  have alone : ∀ other ∈ env.reservations, other.subnetId = row.subnetId →
      other.addr ≠ row.addr := by
    intro other member
    exact checkReservation_ok checked other member fun same =>
      new (List.mem_map.mpr ⟨other, member, same⟩)
  have distinctAfter :
      ({ env with reservations := env.reservations ++ [row] } : Env).ReservationsDistinct := by
    constructor
    · rw [List.map_append]
      refine List.Nodup.append distinct.ids (List.nodup_singleton _) ?_
      intro id member single
      obtain rfl := List.mem_singleton.mp single
      exact new member
    · intro left memberLeft right memberRight subnet addr
      rcases List.mem_append.mp memberLeft with oldLeft | newLeft
      · rcases List.mem_append.mp memberRight with oldRight | newRight
        · exact distinct.addrs left oldLeft right oldRight subnet addr
        · obtain rfl := List.mem_singleton.mp newRight
          exact absurd addr (alone left oldLeft subnet)
      · obtain rfl := List.mem_singleton.mp newLeft
        rcases List.mem_append.mp memberRight with oldRight | newRight
        · exact absurd addr.symm (alone right oldRight subnet.symm)
        · exact (List.mem_singleton.mp newRight).symm
  refine ⟨distinctAfter, ?_⟩
  funext key
  by_cases here : key = ⟨row.subnetId, row.addr, none⟩
  · rw [here, Function.update_self]
    exact owner_of_mem distinctAfter (List.mem_append_right _ (List.mem_singleton_self row))
  · rw [Function.update_of_ne here]
    refine owner_congr distinct distinctAfter fun plain other subnet addr => ?_
    rw [List.mem_append, List.mem_singleton]
    refine or_iff_left ?_
    rintro rfl
    exact differs_of_ne_plain here plain ⟨subnet, addr⟩

/-- A row is deleted. -/
theorem owner_filter {reservation : Reservation} (member : reservation ∈ env.reservations) :
    ({ env with reservations := env.reservations.filter (·.id ≠ reservation.id) } :
      Env).ReservationsDistinct ∧
        ({ env with reservations := env.reservations.filter (·.id ≠ reservation.id) } : Env).owner =
        Function.update env.owner ⟨reservation.subnetId, reservation.addr, none⟩ none := by
  have distinctAfter : ({ env with
      reservations := env.reservations.filter (·.id ≠ reservation.id) } :
          Env).ReservationsDistinct :=
    ⟨distinct.ids.sublist (List.filter_sublist.map _), fun left memberLeft right memberRight =>
      distinct.addrs left (List.mem_filter.mp memberLeft).1 right
        (List.mem_filter.mp memberRight).1⟩
  have members : ∀ row, row ∈ env.reservations.filter (·.id ≠ reservation.id) ↔
      row ∈ env.reservations ∧ row ≠ reservation := by
    intro row
    rw [List.mem_filter]
    refine and_congr_right fun inside => ?_
    rw [decide_eq_true_eq]
    refine not_congr ⟨fun same => ?_, fun same => same ▸ rfl⟩
    exact List.inj_on_of_nodup_map distinct.ids inside member same
  refine ⟨distinctAfter, ?_⟩
  funext key
  by_cases here : key = ⟨reservation.subnetId, reservation.addr, none⟩
  · rw [here, Function.update_self]
    refine owner_of_absent fun row inside subnet addr => ?_
    obtain ⟨old, other⟩ := (members row).mp inside
    exact other (distinct.addrs row old reservation member subnet addr)
  · rw [Function.update_of_ne here]
    refine owner_congr distinct distinctAfter fun plain row subnet addr => ?_
    rw [members]
    refine and_iff_left ?_
    rintro rfl
    exact differs_of_ne_plain here plain ⟨subnet, addr⟩

/-- A row is replaced. -/
theorem owner_replace {reservation row : Reservation} (member : reservation ∈ env.reservations)
    (sameId : row.id = reservation.id) (sameSubnet : row.subnetId = reservation.subnetId)
    (checked : env.checkReservation row = .ok ()) :
    let after : Env := { env with
      reservations := env.reservations.map fun other => if other.id = reservation.id then row
        else other }
    after.ReservationsDistinct ∧ after.owner =
      Function.update
        (Function.update env.owner ⟨reservation.subnetId, reservation.addr, none⟩ none)
        ⟨reservation.subnetId, row.addr, none⟩ (if row.enabled then some (some row.id)
        else none) := by
  intro after
  have members : ∀ other, other ∈ after.reservations ↔
      (other ∈ env.reservations ∧ other ≠ reservation) ∨ other = row := by
    intro other
    refine List.mem_map.trans ⟨?_, ?_⟩
    · rintro ⟨old, inside, rfl⟩
      split
      · exact .inr rfl
      · rename_i differs
        exact .inl ⟨inside, fun same => differs (same ▸ rfl)⟩
    · rintro (⟨inside, differs⟩ | rfl)
      · refine ⟨other, inside, if_neg fun same => differs ?_⟩
        exact List.inj_on_of_nodup_map distinct.ids inside member same
      · exact ⟨reservation, member, if_pos rfl⟩
  have alone : ∀ other ∈ env.reservations, other ≠ reservation → other.subnetId = row.subnetId →
      other.addr ≠ row.addr := by
    intro other inside differs
    refine checkReservation_ok checked other inside fun same => differs ?_
    exact List.inj_on_of_nodup_map distinct.ids inside member (same.trans sameId)
  have distinctAfter : after.ReservationsDistinct := by
    constructor
    · have ids : after.reservations.map (·.id) = env.reservations.map (·.id) := by
        rw [List.map_map]
        refine List.map_congr_left fun other _ => ?_
        simp only [Function.comp_apply]
        split
        · rename_i same
          exact sameId.trans same.symm
        · rfl
      rw [ids]
      exact distinct.ids
    · intro left memberLeft right memberRight subnet addr
      rcases (members left).mp memberLeft with ⟨oldLeft, otherLeft⟩ | rfl
      · rcases (members right).mp memberRight with ⟨oldRight, -⟩ | rfl
        · exact distinct.addrs left oldLeft right oldRight subnet addr
        · exact absurd addr (alone left oldLeft otherLeft subnet)
      · rcases (members right).mp memberRight with ⟨oldRight, otherRight⟩ | rfl
        · exact absurd addr.symm (alone right oldRight otherRight subnet.symm)
        · rfl
  refine ⟨distinctAfter, ?_⟩
  funext key
  by_cases here : key = ⟨reservation.subnetId, row.addr, none⟩
  · rw [here, Function.update_self, ← sameSubnet]
    exact owner_of_mem distinctAfter ((members row).mpr (.inr rfl))
  · rw [Function.update_of_ne here]
    by_cases before : key = ⟨reservation.subnetId, reservation.addr, none⟩
    · rw [before, Function.update_self]
      refine owner_of_absent fun other inside subnet addr => ?_
      rcases (members other).mp inside with ⟨old, differs⟩ | rfl
      · exact differs (distinct.addrs other old reservation member subnet addr)
      · rw [addr] at here
        exact here before
    · rw [Function.update_of_ne before]
      refine owner_congr distinct distinctAfter fun plain other subnet addr => ?_
      rw [members]
      constructor
      · rintro (⟨inside, -⟩ | rfl)
        · exact inside
        · rw [← sameSubnet] at here
          exact absurd ⟨subnet, addr⟩ (differs_of_ne_plain here plain)
      · intro inside
        refine .inl ⟨inside, ?_⟩
        rintro rfl
        exact differs_of_ne_plain before plain ⟨subnet, addr⟩

end Rows

/-! ## Calls -/

theorem lifecyclePart_eq_ok {result : Except Failure IpStore} {store : IpStore} :
    lifecyclePart result = .ok store ↔ result = .ok store := by
  cases result with
  | error failure => exact ⟨nofun, nofun⟩
  | ok reached => exact ⟨fun same => congrArg _ (Except.ok.inj same),
      fun same => congrArg _ (Except.ok.inj same)⟩

/-- The invariant: rows and reservations agree, and no two reservations share an address. -/
structure Db.InStep (db : Db) : Prop where
  linked : db.Linked
  distinct : db.env.ReservationsDistinct

section Calls

variable {db next : Db} {now : Nat} (inStep : db.InStep)

include inStep

theorem inStep_createReservation {subnetId : Nat} {input : ReservationInput}
    (done : db.createReservation now subnetId input = .ok next) : next.InStep := by
  obtain ⟨_, checked, done⟩ := bind_eq_ok.mp done
  obtain ⟨store, allocated, same⟩ := bind_eq_ok.mp done
  obtain rfl := Except.ok.inj same
  obtain ⟨distinct, owner⟩ := owner_append inStep.distinct (freshId_not_mem _) checked
  refine ⟨?_, distinct⟩
  rw [Db.Linked, reservedBy_allocateStaticDhcp (lifecyclePart_eq_ok.mp allocated), owner,
    inStep.linked, if_pos rfl]

theorem inStep_deleteReservation {reservation : Reservation}
    (member : reservation ∈ db.env.reservations)
    (done : db.deleteReservation now reservation = .ok next) : next.InStep := by
  obtain ⟨distinct, owner⟩ := owner_filter inStep.distinct member
  unfold Db.deleteReservation at done
  dsimp only at done
  split at done
  · obtain ⟨store, released, same⟩ := bind_eq_ok.mp done
    obtain rfl := Except.ok.inj same
    refine ⟨?_, distinct⟩
    rw [Db.Linked, reservedBy_deallocateStaticDhcp (lifecyclePart_eq_ok.mp released), owner,
      inStep.linked]
  · rename_i disabled
    obtain rfl := Except.ok.inj done
    refine ⟨?_, distinct⟩
    -- A disabled reservation owns nothing that would have to be released.
    have free := owner_of_mem inStep.distinct member
    rw [if_neg disabled] at free
    rw [Db.Linked, owner, inStep.linked, ← free, Function.update_eq_self]

theorem reservedBy_left {reservation : Reservation} {input : ReservationInput} {env : Env}
    {left : IpStore} (member : reservation ∈ db.env.reservations)
    (released : (if reservation.enabled && input.addr ≠ reservation.addr then
      lifecyclePart (db.store.deallocateStaticDhcp env now reservation.subnetId reservation.addr
        reservation.macAddress) else .ok db.store) = .ok left) :
    left.reservedBy = Function.update db.env.owner ⟨reservation.subnetId, reservation.addr,
      none⟩ none ∨ (left.reservedBy = db.env.owner ∧ reservation.enabled = true ∧
      input.addr = reservation.addr) := by
  split at released
  · exact .inl (by rw [reservedBy_deallocateStaticDhcp (lifecyclePart_eq_ok.mp released),
      inStep.linked])
  · rename_i stays
    obtain rfl := Except.ok.inj released
    cases enabled : reservation.enabled with
    | true =>
      rw [enabled] at stays
      exact .inr ⟨inStep.linked, rfl, by simpa using stays⟩
    | false =>
      have free := owner_of_mem inStep.distinct member
      rw [enabled, if_neg (by decide)] at free
      exact .inl (by rw [inStep.linked, ← free, Function.update_eq_self])

theorem inStep_updateReservation {reservation : Reservation} {input : ReservationInput}
    (member : reservation ∈ db.env.reservations)
    (done : db.updateReservation now reservation input = .ok next) : next.InStep := by
  obtain ⟨_, checked, done⟩ := bind_eq_ok.mp done
  obtain ⟨left, released, done⟩ := bind_eq_ok.mp done
  obtain ⟨store, decided, same⟩ := bind_eq_ok.mp done
  obtain rfl := Except.ok.inj same
  obtain ⟨distinct, owner⟩ := @owner_replace _ inStep.distinct _
    (Db.updatedReservation reservation input) member rfl rfl checked
  refine ⟨?_, distinct⟩
  rw [Db.Linked, owner]
  have leaves := reservedBy_left inStep member released
  have alone : input.addr ≠ reservation.addr →
      db.env.owner ⟨reservation.subnetId, input.addr, none⟩ = none := by
    intro moves
    refine owner_of_absent fun other inside subnet addr => ?_
    refine checkReservation_ok checked other inside (fun same => ?_) subnet addr
    obtain rfl := List.inj_on_of_nodup_map inStep.distinct.ids inside member same
    exact moves addr.symm
  change store.reservedBy = Function.update _ ⟨reservation.subnetId, input.addr, none⟩ _
  split at decided
  · rename_i enabled
    rw [reservedBy_allocateStaticDhcp (lifecyclePart_eq_ok.mp decided), if_pos enabled]
    rcases leaves with gone | ⟨stays, -, here⟩
    · rw [gone]
      rfl
    · rw [stays, here, Function.update_idem]
      rfl
  · rename_i disabled
    rw [if_neg disabled]
    split at decided
    · rename_i heldHere
      have here : input.addr = reservation.addr := by
        simp only [Bool.and_eq_true, decide_eq_true_eq] at heldHere
        exact heldHere.2
      rw [reservedBy_deallocateStaticDhcp (lifecyclePart_eq_ok.mp decided)]
      rcases leaves with gone | ⟨stays, -, -⟩
      · rw [gone]
      · rw [stays, here, Function.update_idem]
    · rename_i notHeld
      obtain rfl := Except.ok.inj decided
      rcases leaves with gone | ⟨-, enabled, here⟩
      · rw [gone]
        by_cases here : input.addr = reservation.addr
        · rw [here, Function.update_idem]
        · have free : Function.update db.env.owner ⟨reservation.subnetId, reservation.addr, none⟩
              none ⟨reservation.subnetId, input.addr, none⟩ = none := by
            rw [Function.update_of_ne, alone here]
            exact fun same => here (congrArg IpKey.addr same)
          calc Function.update db.env.owner ⟨reservation.subnetId, reservation.addr, none⟩ none
              = Function.update
                  (Function.update db.env.owner ⟨reservation.subnetId, reservation.addr, none⟩ none)
                  ⟨reservation.subnetId, input.addr, none⟩ _ := (Function.update_eq_self _ _).symm
            _ = Function.update
                  (Function.update db.env.owner ⟨reservation.subnetId, reservation.addr, none⟩ none)
                  ⟨reservation.subnetId, input.addr, none⟩ none := by rw [free]
      · exact absurd (by simp [enabled, here]) notHeld

end Calls

/-! ## The other operations -/

/-- The operations that calls on reservations are mixed with: leases, manual reservations,
DNS, scans and retirement. -/
def Operation.mixes : Operation → Bool
  | .observeDhcpLeases .. | .reconcileExpiredDhcpAllocations | .setManualReservation ..
  | .allocateStaticDns .. | .deallocateStaticDns .. | .reconcileDnsHold _ | .observeScanResult ..
  | .reconcileScanRogues .. | .beginRetirement _ | .finishRetirement _ => true
  | _ => false

/-- Retirement finds no candidate's row reserved since it was selected. -/
def Operation.SparesReserved (op : Operation) (db : Db) : Prop :=
  match op with
  | .finishRetirement eligible => ∀ candidate ∈ eligible, ∀ row ∈ db.store.table.rows,
      row.id = candidate.id → row.info.allocationState ≠ .staticDhcp
  | _ => True

theorem inStep_of_same {db next : Db} (inStep : db.InStep)
    (rows : next.store.reservedBy = db.store.reservedBy)
    (reservations : next.env.reservations = db.env.reservations) : next.InStep where
  linked := by
    have owner : next.env.owner = db.env.owner := by
      funext key
      unfold Env.owner Env.enabledReservationAt
      rw [reservations]
    rw [Db.Linked, rows, owner]
    exact inStep.linked
  distinct := by
    constructor
    · rw [reservations]
      exact inStep.distinct.ids
    · rw [reservations]
      exact inStep.distinct.addrs

theorem reservations_deleteDynamicDhcpRecords (env : Env) (subnetId : Option Nat) (addr : Addr) :
    (env.deleteDynamicDhcpRecords subnetId addr).reservations = env.reservations := by
  unfold Env.deleteDynamicDhcpRecords
  dsimp only
  split <;> rfl

theorem reservations_foldl {α : Type} {step : Env → α → Env}
    (same : ∀ env item, (step env item).reservations = env.reservations) (items : List α)
    (env : Env) :
    (items.foldl step env).reservations = env.reservations := by
  induction items generalizing env with
  | nil => rfl
  | cons item items ih => exact (ih _).trans (same env item)

section Operations

variable {db next : Db} {now : Nat} (inStep : db.InStep)

include inStep

omit inStep in
/-- A lease of a reservation's client finds the row as it is; any other lease finds none. -/
theorem reservedBy_allocateLease {store after : IpStore} {lease : IpStore.ObservedLease}
    (linked : store.reservedBy = db.env.owner)
    (done : store.allocateLease db.env now lease = .ok after) :
    after.reservedBy = db.env.owner := by
  unfold IpStore.allocateLease at done
  split at done
  · obtain rfl := Except.ok.inj done
    exact linked
  · rename_i subnetId _
    have kept : ∀ reservation, db.env.enabledReservationAt subnetId lease.addr = some reservation →
        ∀ fields : Fields, store.setCanonicalAllocation db.env now subnetId lease.addr .staticDhcp
          (some .dhcpReservation) (some reservation.id) fields = .ok after →
          after.reservedBy = db.env.owner := by
      intro reservation found fields set
      obtain ⟨key, identified, changed⟩ := reservedBy_setCanonicalAllocation set
      obtain rfl := identityKey_addr identified
      have owns : db.env.owner ⟨subnetId, lease.addr, none⟩ = some (some reservation.id) := by
        rw [Env.owner, if_pos rfl, found]
        rfl
      rw [changed, if_pos rfl, linked, ← owns, Function.update_eq_self]
    split at done
    · rename_i reservation found _
      exact kept reservation found _ done
    · rename_i reservation found _
      exact kept reservation found _ done
    · exact (reservedBy_observeDhcpv6Lease done).trans linked
    · rename_i absent _
      refine (reservedBy_setCanonicalAllocation_of_free done (by decide) fun key identified =>
        ?_).trans linked
      obtain rfl := identityKey_addr identified
      rw [linked, Env.owner, if_pos rfl, absent]
      rfl

theorem inStep_expireLease {row : IpRow} (done : db.expireLease now row = .ok next) :
    next.InStep := by
  obtain ⟨_, asserted, done⟩ := bind_eq_ok.mp done
  obtain ⟨released, releases, done⟩ := bind_eq_ok.mp done
  have free := reservedBy_setCanonicalAllocation_of_free releases (by decide) fun key found =>
    reservedBy_of_asserted asserted (by decide) found
  split at done
  · obtain ⟨synced, syncs, same⟩ := bind_eq_ok.mp done
    obtain rfl := Except.ok.inj same
    exact inStep_of_same inStep ((reservedBy_syncCanonicalHostname syncs).trans free)
      (reservations_deleteDynamicDhcpRecords _ _ _)
  · obtain rfl := Except.ok.inj done
    exact inStep_of_same inStep free rfl

theorem inStep_reconcileExpired (done : db.reconcileExpiredDhcpAllocations now = .ok next) :
    next.InStep :=
  foldlM_invariant (P := Db.InStep) (fun _ _ _ _ reached step => inStep_expireLease reached
    step) done inStep

theorem inStep_observeDhcpLeases {leases : List IpStore.ObservedLease} {prevalidated : Bool}
    (done : db.observeDhcpLeases now leases prevalidated = .ok next) : next.InStep := by
  obtain ⟨synced, allocated, syncs, allocates, done⟩ := observeDhcpLeases_parts done
  have linked : allocated.reservedBy = db.env.owner :=
    foldlM_invariant (P := fun store => store.reservedBy = db.env.owner)
      (fun _ _ _ _ reached step => reservedBy_allocateLease reached step) allocates
      ((reservedBy_syncLeasesToIps syncs).trans inStep.linked)
  have reached : (⟨db.env, allocated⟩ : Db).InStep := ⟨linked, inStep.distinct⟩
  exact inStep_reconcileExpired reached done

theorem inStep_finishRetirement {eligible : List IpRow}
    (spared : (Operation.finishRetirement eligible).SparesReserved db)
    (done : db.finishRetirement now eligible = .ok next) : next.InStep := by
  obtain ⟨retired, retires, same⟩ := bind_eq_ok.mp done
  obtain rfl := Except.ok.inj same
  -- A candidate's row stays in another state while the candidates before it are retired.
  have reached : retired.InStep ∧ (Operation.finishRetirement eligible).SparesReserved retired := by
    refine foldlM_invariant (P := fun reached : Db =>
      reached.InStep ∧ (Operation.finishRetirement eligible).SparesReserved reached) ?_ retires
      ⟨inStep_of_same inStep rfl (reservations_foldl
        (fun env addr => reservations_deleteDynamicDhcpRecords env none addr) _ _), spared⟩
    rintro candidate member before after ⟨kept, spares⟩ step
    obtain ⟨_, -, same⟩ := bind_eq_ok.mp step
    obtain rfl := Except.ok.inj same
    refine ⟨inStep_of_same kept (reservedBy_retireLearnedMetadata fun row inside sameId => ?_) rfl,
      ?_⟩
    · rw [staticSource, if_neg (spares candidate member row inside sameId)]
    · intro other memberOther row inside sameId
      dsimp only at inside
      rw [retireLearnedMetadata_table] at inside
      obtain ⟨old, within, rfl⟩ := Table.mem_update.mp inside
      by_cases named : old.id == candidate.id
      · rw [if_pos named]
        simp [IpStore.retiredInfo]
      · rw [if_neg named] at sameId ⊢
        exact spares other memberOther old within sameId
  exact inStep_of_same reached.1 rfl
    (reservations_foldl (fun env row => reservations_deleteDynamicDhcpRecords env _ _) _ _)

/-- **The other operations keep rows and reservations in step.** -/
theorem inStep_run {op : Operation} (mixes : op.mixes = true) (spared : op.SparesReserved db)
    (done : op.run db now = .ok next) : next.InStep := by
  have stored : ∀ {result : Except Failure IpStore}, Operation.onStore db result = .ok next →
      (result = .ok next.store → next.store.reservedBy = db.store.reservedBy) → next.InStep := by
    intro result ran same
    obtain ⟨reached, env⟩ := Operation.onStore_eq_ok ran
    exact inStep_of_same inStep (same reached) (by rw [env])
  cases op with
  | observeDhcpLeases => exact inStep_observeDhcpLeases inStep done
  | reconcileExpiredDhcpAllocations => exact inStep_reconcileExpired inStep done
  | setManualReservation => exact stored done reservedBy_setManualReservation
  | allocateStaticDns => exact stored done reservedBy_allocateStaticDns
  | deallocateStaticDns => exact stored done reservedBy_deallocateStaticDns
  | reconcileDnsHold => exact stored done reservedBy_reconcileDnsHold
  | observeScanResult => exact stored done reservedBy_updateFromScan
  | reconcileScanRogues =>
    obtain rfl := Except.ok.inj done
    exact inStep_of_same inStep reservedBy_clearRogueAfterScan rfl
  | beginRetirement =>
    obtain rfl := Except.ok.inj done
    exact inStep_of_same inStep reservedBy_startMissingRetirementWindows rfl
  | finishRetirement => exact inStep_finishRetirement inStep spared done
  | _ => cases mixes

end Operations

/-! ## Runs -/

/-- One step: a call on a reservation, another operation that meets a condition, or any
change of the other tables. -/
inductive ReservationStep (meets : Operation → Db → Prop) (db next : Db) : Prop where
  | create (now subnetId : Nat) (input : ReservationInput)
      (done : db.createReservation now subnetId input = .ok next)
  | update (now : Nat) (reservation : Reservation) (member : reservation ∈ db.env.reservations)
      (input : ReservationInput) (done : db.updateReservation now reservation input = .ok next)
  | delete (now : Nat) (reservation : Reservation) (member : reservation ∈ db.env.reservations)
      (done : db.deleteReservation now reservation = .ok next)
  | operate (op : Operation) (now : Nat) (mixes : op.mixes = true) (met : meets op db)
      (done : op.run db now = .ok next)
  | surroundings (env : Env) (same : env.reservations = db.env.reservations)
      (reached : next = ⟨env, db.store⟩)

/-- Any number of steps. -/
def ReservationRun (meets : Operation → Db → Prop) : Db → Db → Prop :=
  Relation.ReflTransGen (ReservationStep meets)

theorem ReservationStep.inStep {db next : Db}
    (step : ReservationStep Operation.SparesReserved db next) (before : db.InStep) :
    next.InStep := by
  cases step with
  | create now subnetId input done => exact inStep_createReservation before done
  | update now reservation member input done => exact inStep_updateReservation before member done
  | delete now reservation member done => exact inStep_deleteReservation before member done
  | operate op now mixes met done => exact inStep_run before mixes met done
  | surroundings env same reached =>
    subst reached
    exact inStep_of_same before rfl same

/-- An address has a row in `static_dhcp` exactly when it has an enabled reservation, and the
row's source is that reservation. -/
def Db.ReservedExactly (db : Db) : Prop :=
  ∀ subnetId addr,
    ((∃ row ∈ db.store.table.rows, row.key.subnetId = subnetId ∧ row.key.addr = addr ∧
        row.info.allocationState = .staticDhcp) ↔
      ∃ reservation ∈ db.env.reservations, reservation.subnetId = subnetId ∧
        reservation.addr = addr ∧ reservation.enabled = true) ∧
    ∀ row ∈ db.store.table.rows, row.key.subnetId = subnetId → row.key.addr = addr →
      row.info.allocationState = .staticDhcp → ∀ reservation ∈ db.env.reservations,
        reservation.subnetId = subnetId → reservation.addr = addr → reservation.enabled = true →
          row.info.allocationSourceId = some reservation.id

theorem Db.InStep.reservedExactly {db : Db} (inStep : db.InStep) : db.ReservedExactly := by
  have owned : ∀ row ∈ db.store.table.rows, row.info.allocationState = .staticDhcp →
      ∃ reservation ∈ db.env.reservations, reservation.subnetId = row.key.subnetId ∧
        reservation.addr = row.key.addr ∧ reservation.enabled = true ∧
        row.info.allocationSourceId = some reservation.id := by
    intro row member state
    have source : db.env.owner row.key = some row.info.allocationSourceId := by
      rw [← inStep.linked]
      exact reservedBy_eq_some_iff.mpr ⟨row, member, rfl, state, rfl⟩
    unfold Env.owner at source
    split at source
    · obtain ⟨reservation, found, same⟩ := Option.map_eq_some_iff.mp source
      obtain ⟨inside, subnet, addr, enabled⟩ :=
        (enabledReservationAt_eq_some_iff inStep.distinct).mp found
      exact ⟨reservation, inside, subnet, addr, enabled, same.symm⟩
    · cases source
  intro subnetId addr
  refine ⟨⟨?_, ?_⟩, ?_⟩
  · rintro ⟨row, member, rfl, rfl, state⟩
    obtain ⟨reservation, inside, subnet, same, enabled, -⟩ := owned row member state
    exact ⟨reservation, inside, subnet, same, enabled⟩
  · rintro ⟨reservation, inside, rfl, rfl, enabled⟩
    have owner := owner_of_mem inStep.distinct inside
    rw [if_pos enabled, ← inStep.linked] at owner
    obtain ⟨row, member, key, state, -⟩ := reservedBy_eq_some_iff.mp owner
    exact ⟨row, member, by rw [key], by rw [key], state⟩
  · rintro row member rfl rfl state reservation inside subnet same enabled
    obtain ⟨other, insideOther, subnetOther, sameOther, -, source⟩ := owned row member state
    rw [source, inStep.distinct.addrs other insideOther reservation inside
      (subnetOther.trans subnet.symm) (sameOther.trans same.symm)]

/-- **In every state a run reaches, static DHCP rows and enabled reservations are the same**,
when retirement finds no candidate's row reserved since it was selected. -/
theorem reserved_exactly_of_run {start db : Db} (noReservations : start.env.reservations = [])
    (noRows : start.store.table.rows = [])
    (run : ReservationRun Operation.SparesReserved start db) :
    db.ReservedExactly := by
  have initial : start.InStep := by
    refine ⟨?_, ⟨by rw [noReservations]; exact List.nodup_nil, by rw [noReservations]; exact nofun⟩⟩
    funext key
    have noRow : start.store.table.lookup key = none :=
      Table.lookup_eq_none.mpr fun row member => by rw [noRows] at member; cases member
    have noOwner : start.env.enabledReservationAt key.subnetId key.addr = none := by
      rw [Env.enabledReservationAt, noReservations]
      rfl
    rw [IpStore.reservedBy, noRow, Env.owner, noOwner, Option.map_none, ite_self]
    rfl
  refine Db.InStep.reservedExactly ?_
  induction run with
  | refl => exact initial
  | tail _ step ih => exact step.inStep ih

/-! ## A reserved candidate -/

/-- Where a call leads. -/
def reachedBy {ε : Type} (db : Db) (result : Except ε Db) : Db := result.toOption.getD db

/-- A network nothing was heard in. -/
def quietOffice : Db := ⟨officeEnv, .empty⟩

/-- A host answers a scan. -/
def hostAnswers : Operation := .observeScanResult 1 (officeAddr 20) ⟨true, none, false, none⟩

/-- It does not answer the next one. -/
def hostIsSilent : Operation := .observeScanResult 1 (officeAddr 20) ⟨false, none, false, none⟩

def heardOffice : Db := reachedBy quietOffice (hostAnswers.run quietOffice 100)

def silentOffice : Db := reachedBy heardOffice (hostIsSilent.run heardOffice 200)

/-- The silent host's row, selected at a later time. -/
def officeSelection : Db × List IpRow := silentOffice.beginRetirement 4000 500

/-- A client for the silent host's address. -/
def officeReservation : ReservationInput where
  addr := officeAddr 20
  macAddress := some "02:00:00:00:00:20".toList

theorem officeSelection_reached {meets : Operation → Db → Prop}
    (heard : meets hostAnswers quietOffice) (silent : meets hostIsSilent heardOffice)
    (begun : meets (.beginRetirement 500) silentOffice) :
    ReservationRun meets quietOffice officeSelection.1 := by
  have answers : ReservationStep meets quietOffice heardOffice :=
    .operate _ 100 rfl heard (eq_ok_of_isOk quietOffice (by decide))
  have silence : ReservationStep meets heardOffice silentOffice :=
    .operate _ 200 rfl silent (eq_ok_of_isOk heardOffice (by decide))
  exact ((Relation.ReflTransGen.single answers).tail silence).tail (.operate _ 4000 rfl begun rfl)

/-- The row is retired, and its address reserved. -/
def retiredFirst : Db :=
  reachedBy officeSelection.1 (officeSelection.1.finishRetirement 4000 officeSelection.2)

def reservedLast : Db :=
  reachedBy retiredFirst (retiredFirst.createReservation 4001 1 officeReservation)

theorem reserved_exactly_office : reservedLast.env.reservations.map (·.id) = [1] ∧
    reservedLast.store.table.rows.map (·.info.allocationSourceId) = [some 1] ∧
    reservedLast.ReservedExactly := by
  have retire : ReservationStep Operation.SparesReserved officeSelection.1 retiredFirst := by
    refine .operate (.finishRetirement officeSelection.2) 4000 rfl ?_
      (eq_ok_of_isOk officeSelection.1 (by decide +kernel))
    change ∀ candidate ∈ officeSelection.2, ∀ row ∈ officeSelection.1.store.table.rows, _
    decide +kernel
  have reserve : ReservationStep Operation.SparesReserved retiredFirst reservedLast :=
    .create 4001 1 officeReservation (eq_ok_of_isOk retiredFirst (by decide +kernel))
  refine ⟨by decide +kernel, by decide +kernel, ?_⟩
  exact reserved_exactly_of_run rfl rfl
    (((officeSelection_reached trivial trivial trivial).tail retire).tail reserve)

/-- Retirement gets the rows that were selected. -/
def Operation.RetiresSelection (op : Operation) (_ : Db) : Prop :=
  ∀ eligible, op = .finishRetirement eligible → eligible = officeSelection.2

/-- The address is reserved between the selection and the row's retirement. -/
def reservedMidway : Db :=
  reachedBy officeSelection.1 (officeSelection.1.createReservation 4001 1 officeReservation)

def retiredLast : Db :=
  reachedBy reservedMidway (reservedMidway.finishRetirement 4000 officeSelection.2)

/-- The reservation stays enabled, and its row is unassigned: what is retired is what was
selected. -/
theorem reserved_candidate_cleared : ¬ ∀ start db : Db, start.env.reservations = [] →
    start.store.table.rows = [] →
    ReservationRun Operation.RetiresSelection start db → db.ReservedExactly := by
  intro claim
  have reserve : ReservationStep Operation.RetiresSelection officeSelection.1 reservedMidway :=
    .create 4001 1 officeReservation (eq_ok_of_isOk officeSelection.1 (by decide))
  have retire : ReservationStep Operation.RetiresSelection reservedMidway retiredLast := by
    refine .operate (.finishRetirement officeSelection.2) 4000 rfl ?_
      (eq_ok_of_isOk reservedMidway (by decide +kernel))
    intro eligible same
    injection same with same
    exact same.symm
  have selected : ReservationRun Operation.RetiresSelection quietOffice officeSelection.1 :=
    officeSelection_reached nofun nofun nofun
  have run := (selected.tail reserve).tail retire
  have exact := (claim quietOffice retiredLast rfl rfl run 1 (officeAddr 20)).1
  revert exact
  decide +kernel

end Cidrella
