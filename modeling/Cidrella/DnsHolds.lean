import Cidrella.Operations

/-!
# Held addresses

A disabled DNS record holds its address (ADR 004). `Grounded` is the invariant: an
address of a managed leaf that some unserved manual record may hold is never left
unassigned, and where a hold is on it, it is the hold of the lowest such record.

`reconcileDnsHold` establishes the invariant at one address, and the operations that
release an address have to call it. Some do not: the theorem is about the runs in which
what these release is held by no record, or is reconciled afterwards.
-/

set_option autoImplicit false

namespace Cidrella

open Address

/-! ## The invariant -/

/-- The address is owned in this network: by the record that holds it or by something
else. -/
def Settled (env : Env) (store : IpStore) (subnetId : Nat) (addr : Addr) : Prop :=
  ∀ record, IpStore.dnsHoldingRecord env subnetId addr = some record →
    ∃ row, store.table.lookup ⟨subnetId, addr, none⟩ = some row ∧
      row.info.allocationState ≠ .unassigned ∧
      (IsHold row.info → row.info.allocationSourceId = some record.id)

/-- Every address outside a list is settled in its leaf. -/
def GroundedBut (pending : List Addr) (db : Db) : Prop :=
  ∀ addr, addr ∉ pending → ∀ subnet, db.env.findSubnetForIp addr = some subnet →
    Settled db.env db.store subnet.id addr

/-- Every address is settled in its leaf. -/
def Grounded (db : Db) : Prop :=
  ∀ addr subnet, db.env.findSubnetForIp addr = some subnet → Settled db.env db.store subnet.id addr

theorem lowest_isSome {records : List DnsRecord} (some' : records ≠ []) :
    (Env.lowest records).isSome = true := by
  obtain ⟨front, last, rfl⟩ := (List.eq_nil_or_concat records).resolve_left some'
  rw [List.concat_eq_append, Env.lowest, List.foldl_append, ← Env.lowest, List.foldl_cons,
    List.foldl_nil]
  cases Env.lowest front with
  | none => rfl
  | some held =>
    dsimp only
    split_ifs <;> rfl

theorem lowest_spec {records : List DnsRecord} {record : DnsRecord}
    (found : Env.lowest records = some record) :
    record ∈ records ∧ ∀ other ∈ records, record.id ≤ other.id := by
  induction records using List.reverseRecOn generalizing record with
  | nil => cases found
  | append_singleton records last ih =>
    rw [Env.lowest, List.foldl_append, ← Env.lowest, List.foldl_cons, List.foldl_nil] at found
    cases best : Env.lowest records with
    | none =>
      rw [best] at found
      obtain rfl := Option.some.inj found
      have empty : records = [] := by
        by_contra filled
        have held := lowest_isSome filled
        rw [best] at held
        cases held
      subst empty
      simp
    | some held =>
      obtain ⟨member, least⟩ := ih best
      rw [best] at found
      dsimp only at found
      split_ifs at found with lower
      · obtain rfl := Option.some.inj found
        refine ⟨by simp, fun other listed => ?_⟩
        rcases List.mem_append.mp listed with old | new
        · exact lower.le.trans (least other old)
        · rw [List.mem_singleton.mp new]
      · obtain rfl := Option.some.inj found
        refine ⟨List.mem_append_left _ member, fun other listed => ?_⟩
        rcases List.mem_append.mp listed with old | new
        · exact least other old
        · rw [List.mem_singleton.mp new]
          exact Nat.le_of_not_lt lower

theorem dnsHoldingRecord_spec {env : Env} {subnetId : Nat} {addr : Addr} {record : DnsRecord}
    (holder : IpStore.dnsHoldingRecord env subnetId addr = some record) :
    env.protectedAddress subnetId addr = none ∧ env.findEnabledScopeForIp subnetId addr = none ∧
      record ∈ env.records ∧ env.names addr record = true ∧ env.isServed record = false ∧
      ∀ other ∈ env.records, env.names addr other = true → env.isServed other = false →
        record.id ≤ other.id := by
  unfold IpStore.dnsHoldingRecord at holder
  split_ifs at holder with guarded pooled
  obtain ⟨member, least⟩ := lowest_spec holder
  simp only [List.mem_filter, Bool.and_eq_true, Bool.not_eq_true'] at member least
  refine ⟨by simpa using guarded, by simpa using pooled, member.1, member.2.1, member.2.2, ?_⟩
  intro other within named unserved
  exact least other ⟨within, named, unserved⟩

theorem grounded_of_no_records {db : Db} (none : db.env.records = []) : Grounded db := by
  intro addr subnet _ record holder
  have member := (dnsHoldingRecord_spec holder).2.2.1
  rw [none] at member
  exact absurd member (by simp)

/-! ## What a write keeps -/

/-- The owner of a settled address stays where the address may not be freed. -/
theorem Writes.settled {may : Licence} {store after : IpStore} {key : IpKey} {record : DnsRecord}
    (writes : Writes may store after) (kept : ¬ may.free key)
    (held : ∀ id, may.hold key id → id = record.id)
    (owned : ∃ row, store.table.lookup key = some row ∧ row.info.allocationState ≠ .unassigned ∧
      (IsHold row.info → row.info.allocationSourceId = some record.id)) :
    ∃ row, after.table.lookup key = some row ∧ row.info.allocationState ≠ .unassigned ∧
      (IsHold row.info → row.info.allocationSourceId = some record.id) := by
  refine writes.invariant (P := fun reached => ∃ row, reached.table.lookup key = some row ∧
    row.info.allocationState ≠ .unassigned ∧
      (IsHold row.info → row.info.allocationSourceId = some record.id)) ?_ owned
  rintro before next write ⟨row, found, assigned, source⟩
  obtain ⟨member, rfl⟩ := Table.lookup_eq_some.mp found
  cases write with
  | note table _ =>
    rw [table]
    exact ⟨row, found, assigned, source⟩
  | update test change log table _ _ alloc =>
    rw [table, Table.lookup_update, found]
    cases tested : test row with
    | false => exact ⟨row, by simp [tested], assigned, source⟩
    | true =>
      have step := alloc row member tested
      refine ⟨{ row with info := change row }, by simp [tested], ?_, ?_⟩
      · intro unassigned
        rcases step.released unassigned with was | freed
        · exact assigned was
        · exact kept freed
      · intro isHold
        rcases step.held isHold with ⟨was, same⟩ | ⟨id, given, holds⟩
        · exact same.trans (source was)
        · exact given.trans (congrArg some (held id holds))
  | insert other info log _ table =>
    refine ⟨row, ?_, assigned, source⟩
    have differs : row.key ≠ other := by
      intro same
      exact Table.lookup_eq_none.mp (Table.insert_eq_some table).1 row member same
    rw [Table.lookup_insert table, if_neg differs]
    exact found
  | delete test table _ freed =>
    refine ⟨row, ?_, assigned, source⟩
    have stays : test row = false := by
      by_contra gone
      exact kept (freed row member (by simpa using gone))
    rw [table, Table.lookup_delete, found]
    simp [stays]

theorem Env.SameHolds.findSubnetForIp {env after : Env} (same : env.SameHolds after) (addr : Addr) :
    after.findSubnetForIp addr = env.findSubnetForIp addr := by
  unfold Env.findSubnetForIp Env.isLeaf
  rw [same.subnets]

theorem Env.SameHolds.settled {env after : Env} (same : env.SameHolds after) {store : IpStore}
    {subnetId : Nat} {addr : Addr} (settled : Settled env store subnetId addr) :
    Settled after store subnetId addr := by
  intro record holder
  rw [same.holding] at holder
  exact settled record holder

/-- `reconcileDnsHold` settles its address. -/
theorem settled_reconcileDnsHold {store after : IpStore} {env : Env} {now : Nat} {addr : Addr}
    (done : store.reconcileDnsHold env now addr = .ok after) {subnet : SubnetRow}
    (leaf : env.findSubnetForIp addr = some subnet) : Settled env after subnet.id addr := by
  intro record holder
  unfold IpStore.reconcileDnsHold at done
  rw [leaf] at done
  obtain ⟨existing, looked, done⟩ := bind_eq_ok.mp done
  obtain ⟨key, identified, rfl⟩ := findBySubnetAndIp_eq_ok looked
  obtain rfl := identityKey_addr identified
  simp only [holder] at done
  split_ifs at done with owned held
  · obtain rfl := Except.ok.inj done
    cases found : store.table.lookup ⟨subnet.id, addr, none⟩ with
    | none => exact absurd owned (by simp [found, IpStore.stateOf])
    | some row =>
      simp only [found, IpStore.stateOf, IpStore.isDnsHold, Option.map_some, Option.getD_some,
        Option.any_some, ne_eq, Bool.and_eq_true, decide_eq_true_eq, Bool.not_eq_true',
        Bool.and_eq_false_iff, decide_eq_false_iff_not] at owned
      refine ⟨row, rfl, owned.1, fun isHold => ?_⟩
      rcases owned.2 with other | other
      · exact absurd isHold.1 other
      · exact absurd isHold.2 other
  · obtain rfl := Except.ok.inj done
    cases found : store.table.lookup ⟨subnet.id, addr, none⟩ with
    | none => exact absurd held (by simp [found])
    | some row =>
      simp only [found, IpStore.isDnsHold, Option.any_some, Bool.and_eq_true,
        decide_eq_true_eq] at held
      refine ⟨row, rfl, ?_, fun _ => held.2⟩
      rw [held.1.1]
      decide
  · obtain ⟨_, -, done⟩ := bind_eq_ok.mp done
    obtain ⟨key, row, found, there, state, -, source⟩ := lookup_setCanonicalAllocation done
    obtain rfl := identityKey_addr found
    refine ⟨row, there, ?_, fun _ => source⟩
    rw [state]
    decide

namespace Operation

/-- The addresses an operation frees and settles again itself. -/
def restores (op : Operation) (key : IpKey) : Prop :=
  match op with
  | deallocateStaticDhcp subnetId addr _ | setManualReservation subnetId addr _ _ =>
    key = ⟨subnetId, addr, none⟩
  | _ => False

theorem settled_restores {op : Operation} {db next : Db} {now : Nat}
    (done : op.run db now = .ok next) {key : IpKey} (restored : op.restores key)
    (freed : op.frees db now key) {subnet : SubnetRow}
    (leaf : db.env.findSubnetForIp key.addr = some subnet) (own : subnet.id = key.subnetId) :
    Settled db.env next.store subnet.id key.addr := by
  cases op with
  | deallocateStaticDhcp subnetId addr macAddress =>
    obtain rfl : key = ⟨subnetId, addr, none⟩ := restored
    obtain ⟨reached, -⟩ := onStore_eq_ok done
    have may : (licence (.deallocateStaticDhcp subnetId addr macAddress) db now).free
        ⟨subnetId, addr, none⟩ := .inl rfl
    obtain ⟨middle, -, rest | ⟨-, row, found, dynamic⟩⟩ :=
      writes_deallocateStaticDhcp reached may rfl
    · exact settled_reconcileDnsHold rest leaf
    · intro record _
      rw [own]
      refine ⟨row, found, ?_, fun isHold => ?_⟩
      · rw [dynamic]
        decide
      · exact absurd (dynamic.symm.trans isHold.1) (by decide)
  | setManualReservation subnetId addr reserved note =>
    obtain rfl : key = ⟨subnetId, addr, none⟩ := restored
    obtain ⟨reached, -⟩ := onStore_eq_ok done
    have may : reserved = false → (licence (.setManualReservation subnetId addr reserved note) db
        now).free ⟨subnetId, addr, none⟩ := fun released => ⟨released, .inl rfl⟩
    obtain ⟨middle, -, ⟨taken, -⟩ | ⟨-, rest⟩⟩ := writes_setManualReservation reached may
    · exact absurd (freed.1.symm.trans taken) (by decide)
    · exact settled_reconcileDnsHold rest leaf
  | _ => exact restored.elim

/-- What the operation releases is held by no record, or the operation settles it again,
or it is reconciled afterwards. -/
def GivesBack (op : Operation) (db : Db) (now : Nat) (reconciled : List Addr) : Prop :=
  ∀ key subnet record, op.frees db now key → db.env.findSubnetForIp key.addr = some subnet →
    subnet.id = key.subnetId → IpStore.dnsHoldingRecord db.env key.subnetId key.addr = some record →
    op.restores key ∨ key.addr ∈ reconciled

theorem groundedBut_run {op : Operation} {db next : Db} {now : Nat} {reconciled : List Addr}
    (done : op.run db now = .ok next) (gives : op.GivesBack db now reconciled)
    (grounded : GroundedBut reconciled db) : GroundedBut reconciled next := by
  obtain ⟨same, writes⟩ := run_writes done
  intro addr absent subnet leaf
  rw [same.findSubnetForIp] at leaf
  refine same.settled ?_
  intro record holder
  by_cases freed : op.frees db now ⟨subnet.id, addr, none⟩
  · rcases gives ⟨subnet.id, addr, none⟩ subnet record freed leaf rfl holder with restored | listed
    · exact settled_restores done restored freed leaf rfl record holder
    · exact absurd listed absent
  · refine writes.settled freed ?_ (grounded addr absent subnet leaf record holder)
    rintro id ⟨other, found, rfl⟩
    rw [holder] at found
    rw [Option.some.inj found]

end Operation

/-! ## Runs -/

/-- A committed change: the new environment, the operations that run in it, and the
addresses that are reconciled last. -/
structure Change where
  env : Env
  ops : List (Operation × Nat)
  reconciled : List Addr
  now : Nat

namespace Change

/-- The operations of a change. -/
def operate (ops : List (Operation × Nat)) (db : Db) : Except Failure Db :=
  ops.foldlM (fun db step => step.1.run db step.2) db

/-- The reconciliation of a change. -/
def reconcile (addrs : List Addr) (now : Nat) (db : Db) : Except Failure Db :=
  addrs.foldlM (fun db addr => (Operation.reconcileDnsHold addr).run db now) db

/-- What the change does. -/
def run (change : Change) (db : Db) : Except Failure Db := do
  let operated ← operate change.ops ⟨change.env, db.store⟩
  reconcile change.reconciled change.now operated

/-- Every operation of the change gives back what it releases. -/
def GivesBack (reconciled : List Addr) : List (Operation × Nat) → Db → Prop
  | [], _ => True
  | (op, now) :: ops, db =>
    op.GivesBack db now reconciled ∧ ∀ next, op.run db now = .ok next →
      GivesBack reconciled ops next

/-- An address that the change does not reconcile has the holder it had, or is owned by
something that is no hold. -/
def ExposesNothing (change : Change) (db : Db) : Prop :=
  ∀ addr, addr ∉ change.reconciled → ∀ subnet record,
    change.env.findSubnetForIp addr = some subnet →
    IpStore.dnsHoldingRecord change.env subnet.id addr = some record →
    (∃ old holder, db.env.findSubnetForIp addr = some old ∧ old.id = subnet.id ∧
      IpStore.dnsHoldingRecord db.env subnet.id addr = some holder ∧ holder.id = record.id) ∨
    ∃ row, db.store.table.lookup ⟨subnet.id, addr, none⟩ = some row ∧
      row.info.allocationState ≠ .unassigned ∧ ¬ IsHold row.info

/-- The change leaves no address to a release that forgets its hold. -/
structure Careful (change : Change) (db : Db) : Prop where
  exposes : change.ExposesNothing db
  gives : GivesBack change.reconciled change.ops ⟨change.env, db.store⟩

theorem groundedBut_operate {reconciled : List Addr} {ops : List (Operation × Nat)} {db next : Db}
    (done : operate ops db = .ok next) (gives : GivesBack reconciled ops db)
    (grounded : GroundedBut reconciled db) : GroundedBut reconciled next := by
  induction ops generalizing db with
  | nil =>
    obtain rfl := Except.ok.inj done
    exact grounded
  | cons step ops ih =>
    unfold operate at done
    rw [List.foldlM_cons] at done
    obtain ⟨middle, first, rest⟩ := bind_eq_ok.mp done
    exact ih rest (gives.2 middle first) (Operation.groundedBut_run first gives.1 grounded)

/-- `reconcileDnsHold` only frees what nothing holds. -/
theorem givesBack_reconcileDnsHold (addr : Addr) (db : Db) (now : Nat) (reconciled : List Addr) :
    (Operation.reconcileDnsHold addr).GivesBack db now reconciled := by
  rintro key subnet record ⟨other, -, rfl, unheld⟩ - - holder
  exact absurd (holder.symm.trans unheld) (by simp)

theorem grounded_reconcile {addrs : List Addr} {now : Nat} {db next : Db}
    (done : reconcile addrs now db = .ok next) (grounded : GroundedBut addrs db) :
    Grounded next := by
  induction addrs generalizing db with
  | nil =>
    obtain rfl := Except.ok.inj done
    exact fun addr subnet leaf => grounded addr (by simp) subnet leaf
  | cons addr addrs ih =>
    unfold reconcile at done
    rw [List.foldlM_cons] at done
    obtain ⟨middle, first, rest⟩ := bind_eq_ok.mp done
    refine ih rest ?_
    intro other absent subnet leaf
    by_cases same : other = addr
    · subst same
      obtain ⟨reached, env⟩ := Operation.onStore_eq_ok first
      rw [env] at leaf ⊢
      exact settled_reconcileDnsHold reached leaf
    · have kept := Operation.groundedBut_run first
        (givesBack_reconcileDnsHold addr db now (addr :: addrs)) grounded
      exact kept other (by simp [same, absent]) subnet leaf

theorem grounded_run {change : Change} {db next : Db} (done : change.run db = .ok next)
    (careful : change.Careful db) (grounded : Grounded db) : Grounded next := by
  obtain ⟨operated, first, second⟩ := bind_eq_ok.mp done
  refine grounded_reconcile second (groundedBut_operate first careful.gives ?_)
  intro addr absent subnet leaf record holder
  rcases careful.exposes addr absent subnet record leaf holder with
    ⟨old, before, leafBefore, sameNet, held, same⟩ | ⟨row, found, assigned, other⟩
  · rw [← sameNet] at held ⊢
    obtain ⟨row, found, assigned, source⟩ := grounded addr old leafBefore before held
    exact ⟨row, found, assigned, fun isHold => same ▸ source isHold⟩
  · exact ⟨row, found, assigned, fun isHold => absurd isHold other⟩

end Change

/-- A committed change that meets a condition. -/
def ChangeStep (meets : Change → Db → Prop) (db next : Db) : Prop :=
  ∃ change : Change, meets change db ∧ change.run db = .ok next

/-- **Held addresses.** In every run of careful changes from a database without records,
every address that an unserved record may hold is held or owned. -/
theorem grounded_of_careful_run {start db : Db} (none : start.env.records = [])
    (run : Relation.ReflTransGen (ChangeStep Change.Careful) start db) : Grounded db := by
  induction run with
  | refl => exact grounded_of_no_records none
  | tail _ step ih =>
    obtain ⟨change, careful, done⟩ := step
    exact Change.grounded_run done careful ih

/-! ## A parked address -/

/-- A forward zone and a disabled record of it. -/
def parkedEnv (env : Env) (host : Fin 256) : Env :=
  { env with
    zones := [⟨1, "lan".toList, true, true⟩]
    records := [⟨7, 1, "www".toList, officeAddr host, false, none, 0⟩] }

/-- Where a change leads. -/
def Change.after (change : Change) (db : Db) : Db := (change.run db).toOption.getD db

theorem Change.run_eq_ok {change : Change} {db : Db} (done : (change.run db).isOk = true) :
    change.run db = .ok (change.after db) :=
  eq_ok_of_isOk db done

theorem Change.exposesNothing_of_same {change : Change} {db : Db} (same : change.env = db.env) :
    change.ExposesNothing db := by
  intro addr _ subnet record leaf holder
  rw [same] at leaf holder
  exact .inl ⟨subnet, record, leaf, rfl, holder, rfl⟩

/-- The record is written and its address reconciled. -/
def parkAddress : Change := ⟨parkedEnv officeEnv 20, [], [officeAddr 20], 100⟩

/-- A reservation takes the address and gives it up again. -/
def reserveAddress : Change :=
  ⟨parkedEnv officeEnv 20, [(.allocateStaticDhcp 1 (officeAddr 20) {} (some 3), 200),
    (.deallocateStaticDhcp 1 (officeAddr 20) none, 300)], [], 300⟩

/-- The office before anything has happened. -/
def officeDb : Db := ⟨officeEnv, .empty⟩

theorem parkAddress_careful : parkAddress.Careful officeDb := by
  refine ⟨?_, trivial⟩
  intro addr absent subnet record _ holder
  obtain ⟨-, -, member, named, -⟩ := dnsHoldingRecord_spec holder
  obtain rfl := List.mem_singleton.mp member
  simp only [Env.names, Bool.and_eq_true, decide_eq_true_eq] at named
  exact absurd (List.mem_singleton.mpr named.1.1.symm) absent

theorem reserveAddress_careful : reserveAddress.Careful (parkAddress.after officeDb) := by
  refine ⟨Change.exposesNothing_of_same rfl, ?_, fun next _ => ⟨?_, fun _ _ => trivial⟩⟩
  · intro key subnet record freed
    exact freed.elim
  · rintro key subnet record (own | ⟨other, -, rfl, unheld⟩) - - holder
    · exact .inl own
    · exact absurd (holder.symm.trans unheld) (by simp)

theorem grounded_of_careful_run_office : ∃ db, Grounded db ∧
    db.store.table.rows.map (fun row => (row.info.allocationState, row.info.allocationSourceId)) =
      [(.reserved, some 7)] := by
  have first : ChangeStep Change.Careful officeDb (parkAddress.after officeDb) :=
    ⟨parkAddress, parkAddress_careful, Change.run_eq_ok (by decide)⟩
  have second : ChangeStep Change.Careful (parkAddress.after officeDb)
      (reserveAddress.after (parkAddress.after officeDb)) :=
    ⟨reserveAddress, reserveAddress_careful, Change.run_eq_ok (by decide)⟩
  exact ⟨_, grounded_of_careful_run rfl ((Relation.ReflTransGen.single first).tail second),
    by decide⟩

/-- The changes the invariant is meant for: a write of records is followed by
`reconcileDnsHold` for its addresses, a change of a gateway by
`reconcileTopologyAddresses`, and nothing else changes what may be held. -/
structure Change.Orderly (change : Change) (db : Db) : Prop where
  dns : ∀ addr, addr ∉ change.reconciled →
    (change.env.records.filter (change.env.names addr)).map
        (fun record => (record.id, change.env.isServed record)) =
      (db.env.records.filter (db.env.names addr)).map
        fun record => (record.id, db.env.isServed record)
  scopes : change.env.scopes = db.env.scopes ∧ change.env.pools = db.env.pools
  topology : change.env.subnets = db.env.subnets ∨ ∃ id subnet gateway now,
    db.env.subnets.byId id = some subnet ∧
    change.env.subnets = db.env.subnets.update (·.id == id)
      (fun row => { row.info with gatewayAddress := gateway }) ∧
    (Operation.reconcileTopologyAddresses id subnet.key gateway, now) ∈ change.ops

/-- The gateway of the office is protected. -/
def protectGateway : Change :=
  ⟨officeEnv, [(.reconcileTopologyAddresses 1 officeNet (some (officeAddr 1)), 100)], [], 100⟩

/-- A disabled record names the gateway. -/
def parkGateway : Change := ⟨parkedEnv officeEnv 1, [], [officeAddr 1], 200⟩

/-- The gateway moves to `10.0.0.254`. -/
def moveGateway : Change :=
  ⟨{ parkedEnv officeEnv 1 with
      subnets := officeEnv.subnets.update (·.id == 1)
        fun row => { row.info with gatewayAddress := some (officeAddr 254) } },
    [(.reconcileTopologyAddresses 1 officeNet (some (officeAddr 254)), 300)], [], 300⟩

theorem parkGateway_orderly (store : IpStore) : parkGateway.Orderly ⟨officeEnv, store⟩ := by
  refine ⟨?_, ⟨rfl, rfl⟩, .inl rfl⟩
  intro addr absent
  have other : officeAddr 1 ≠ addr := by
    rintro rfl
    exact absent (List.mem_singleton.mpr rfl)
  simp [parkGateway, parkedEnv, officeEnv, Env.names, other]

/-- The former gateway is released without its hold. -/
theorem former_gateway_left_unassigned : ¬ ∀ start db : Db, start.env.records = [] →
    Relation.ReflTransGen (ChangeStep Change.Orderly) start db → Grounded db := by
  intro claim
  have first : ChangeStep Change.Orderly officeDb (protectGateway.after officeDb) :=
    ⟨protectGateway, ⟨fun _ _ => rfl, ⟨rfl, rfl⟩, .inl rfl⟩, Change.run_eq_ok (by decide)⟩
  have second : ChangeStep Change.Orderly (protectGateway.after officeDb)
      (parkGateway.after (protectGateway.after officeDb)) :=
    ⟨parkGateway, parkGateway_orderly _, Change.run_eq_ok (by decide)⟩
  have third : ChangeStep Change.Orderly (parkGateway.after (protectGateway.after officeDb))
      (moveGateway.after (parkGateway.after (protectGateway.after officeDb))) := by
    refine ⟨moveGateway, ⟨fun _ _ => rfl, ⟨rfl, rfl⟩, .inr ?_⟩, Change.run_eq_ok (by decide)⟩
    exact ⟨1, _, some (officeAddr 254), 300, rfl, rfl, List.mem_singleton.mpr rfl⟩
  have grounded := claim _ _ rfl (((Relation.ReflTransGen.single first).tail second).tail third)
  generalize reached : moveGateway.after (parkGateway.after (protectGateway.after officeDb)) = db
    at grounded
  have leaf : (db.env.findSubnetForIp (officeAddr 1)).map (·.id) = some 1 := by
    rw [← reached]
    decide
  have held : (IpStore.dnsHoldingRecord db.env 1 (officeAddr 1)).map (·.id) = some 7 := by
    rw [← reached]
    decide
  have free : (db.store.table.lookup ⟨1, officeAddr 1, none⟩).map (·.info.allocationState) =
      some .unassigned := by
    rw [← reached]
    decide
  obtain ⟨subnet, found, named⟩ := Option.map_eq_some_iff.mp leaf
  obtain ⟨record, holder, -⟩ := Option.map_eq_some_iff.mp held
  obtain ⟨row, there, unassigned⟩ := Option.map_eq_some_iff.mp free
  rw [← named] at holder there
  obtain ⟨other, same, assigned, -⟩ := grounded (officeAddr 1) subnet found record holder
  rw [there] at same
  exact assigned (Option.some.inj same ▸ unassigned)

end Cidrella
