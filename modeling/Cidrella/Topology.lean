import Cidrella.Lib.Forest
import Cidrella.DhcpTopology

/-!
# The network tree

`services/subnet-topology.js`: the rows of `subnets`, the ranges that go with them, and
what foreign keys remove when a row is deleted. A network's parent is another row; a
network without children is a leaf.
-/

set_option autoImplicit false

namespace Cidrella

/-! ## Reading the tree -/

namespace Subnets

/-- `SELECT * FROM subnets WHERE parent_id = ?`. -/
def children (subnets : Table Network SubnetInfo) (id : Nat) : List SubnetRow :=
  subnets.rows.filter (·.info.parentId = some id)

/-- Every row's id with its `parent_id`. -/
def links (subnets : Table Network SubnetInfo) : List (Nat × Option Nat) :=
  subnets.rows.map fun row => (row.id, row.info.parentId)

/-- An unallocated network that has children. -/
def isIntermediary (subnets : Table Network SubnetInfo) (row : SubnetRow) : Bool :=
  row.info.status = .unallocated && !(children subnets row.id).isEmpty

/-- The row with an id gets new columns. -/
def setInfo (subnets : Table Network SubnetInfo) (id : Nat) (change : SubnetInfo → SubnetInfo) :
    Table Network SubnetInfo :=
  subnets.update (·.id == id) fun row => change row.info

/-- `UPDATE subnets SET parent_id = ?, depth = ? WHERE parent_id = ?`. -/
def reparent (subnets : Table Network SubnetInfo) (old new depth : Nat) :
    Table Network SubnetInfo :=
  subnets.update (·.info.parentId == some old) fun row =>
    { row.info with parentId := some new, depth := depth }

end Subnets

/-! ## Gateways -/

/-- `gatewayPolicyForAddress`. -/
def gatewayPolicyForAddress (net : Network) : Option Addr → GatewayPolicy
  | none => .none
  | some addr =>
    if addr = net.firstUsable then .first else if addr = net.lastUsable then .last else .custom

/-- `resolveGatewayAddress`. -/
def resolveGatewayAddress (net : Network) (policy : GatewayPolicy) (customAddress : Option Addr) :
    Option Addr :=
  match policy with
  | .none => none
  | .last => some net.lastUsable
  | .custom => customAddress
  | .first => some net.firstUsable

/-! ## Ranges -/

namespace Env

/-- A new range. -/
def insertRange (env : Env) (subnetId : Nat) (type : RangeType) (start stop : Addr)
    (description : Option Text) : Env :=
  { env with
    ranges := env.ranges ++
      [⟨freshId (env.ranges.map (·.id)), subnetId, type, start, stop, description⟩] }

/-- `createSystemRanges`: the ranges of the network address, the gateway and the broadcast. -/
def createSystemRanges (env : Env) (subnetId : Nat) (net : Network) (gateway : Option Addr) : Env :=
  if net.topologyAddresses = [] then env
  else
    let network := addressAt net.family net.networkBig
    let broadcast := addressAt net.family net.lastBig
    let withNetwork := env.insertRange subnetId .network network network
      (some "Network address".toList)
    let withGateway :=
      match gateway with
      | some addr => withNetwork.insertRange subnetId .gateway addr addr
          (some "Default gateway".toList)
      | none => withNetwork
    if net.family = .v4 then
      withGateway.insertRange subnetId .broadcast broadcast broadcast
        (some "Broadcast address".toList)
    else withGateway

/-- The part of a range that lies in a network. -/
def clip (range : AddressRange) (net : Network) : Option (Addr × Addr) :=
  if range.startIp.family ≠ net.family then none
  else
    let clippedStart := max range.startIp.value net.networkBig
    let clippedEnd := min range.endIp.value net.lastBig
    if clippedStart ≤ clippedEnd then
      some (addressAt net.family clippedStart, addressAt net.family clippedEnd)
    else none

/-- `copyUserRangesToChild`. -/
def copyUserRangesToChild (env : Env) (parentId childId : Nat) (net : Network) : Env :=
  (env.ranges.filter fun range => range.subnetId = parentId && !range.type.isSystem).foldl
    (fun env range =>
      match clip range net with
      | some (start, stop) => env.insertRange childId range.type start stop range.description
      | none => env)
    env

/-- The id of a custom type; the built-in ones do not meet it. -/
def typeOrder : RangeType → Nat
  | .custom id => id
  | _ => 0

/-- `ORDER BY range_type_id, start_ip, end_ip, id`, which compares addresses as texts. -/
def rangeTextOrder (left right : AddressRange) : Bool :=
  typeOrder left.type < typeOrder right.type ||
    (typeOrder left.type = typeOrder right.type &&
      (left.startIp.text < right.startIp.text ||
        (left.startIp.text = right.startIp.text &&
          (left.endIp.text < right.endIp.text ||
            (left.endIp.text = right.endIp.text && left.id ≤ right.id)))))

/-- The order of the following `sort`, which keeps the order of what it does not tell apart. -/
def rangeValueOrder (left right : AddressRange) : Bool :=
  typeOrder left.type < typeOrder right.type ||
    (typeOrder left.type = typeOrder right.type && left.startIp.value ≤ right.startIp.value)

/-- Ranges of one type and description that overlap or touch. -/
def joins (previous current : AddressRange) : Bool :=
  previous.type = current.type && previous.description = current.description &&
    previous.startIp.family = current.startIp.family &&
    current.startIp.value ≤ previous.endIp.value + 1

/-- The loop of `moveCustomRangesToSubnet`: a range that joins the one before it is taken
into that one. -/
def coalesce (previous : AddressRange) : List AddressRange → List AddressRange
  | [] => [previous]
  | current :: rest =>
    if joins previous current then
      coalesce { previous with
        endIp := addressAt previous.startIp.family (max previous.endIp.value current.endIp.value) }
        rest
    else previous :: coalesce current rest

/-- `moveCustomRangesToSubnet`. -/
def moveCustomRangesToSubnet (env : Env) (sourceIds : List Nat) (targetId : Nat) : Env :=
  if sourceIds = [] then env
  else
    let moved := env.ranges.map fun range =>
      if range.subnetId ∈ sourceIds && !range.type.isSystem then { range with subnetId := targetId }
      else range
    let isOwn := fun (range : AddressRange) => range.subnetId = targetId && !range.type.isSystem
    let own :=
      ((moved.filter isOwn).insertionSort (rangeTextOrder · ·)).insertionSort (rangeValueOrder · ·)
    let joined :=
      match own with
      | [] => []
      | first :: rest => coalesce first rest
    -- A range that stays keeps its place, with the end it was given; the others are deleted.
    { env with
      ranges := moved.filterMap fun range =>
        if isOwn range then joined.find? (·.id == range.id) else some range }

/-! ## Foreign keys -/

/-- Deleted ranges take their scopes and pools with them. -/
def deleteRanges (env : Env) (test : AddressRange → Bool) : Env :=
  let goneRange := fun id => env.ranges.any fun range => range.id = id && test range
  let goneScope := fun id => env.scopes.any fun scope => scope.id = id && goneRange scope.rangeId
  { env with
    ranges := env.ranges.filter (!test ·)
    scopes := env.scopes.filter fun scope => !goneRange scope.rangeId
    pools := env.pools.filter fun pool => !goneRange pool.rangeId && !goneScope pool.scopeId }

/-- Deleted scopes take their pools with them. -/
def deleteScopes (env : Env) (test : Scope → Bool) : Env :=
  let goneScope := fun id => env.scopes.any fun scope => scope.id = id && test scope
  { env with
    scopes := env.scopes.filter (!test ·)
    pools := env.pools.filter fun pool => !goneScope pool.scopeId }

/-- `deleteDhcpStateForSubnet` and `deleteDhcpStateForSubtree`. -/
def deleteDhcpState (env : Env) (subnetIds : List Nat) : Env :=
  let unscoped := env.deleteScopes (·.subnetId ∈ subnetIds)
  { unscoped with leases := unscoped.leases.filter fun lease =>
    !lease.subnetId.any (· ∈ subnetIds) }

/-- Deleted networks take their ranges, scopes and reservations with them; a lease loses
its network. -/
def deleteSubnets (env : Env) (ids : List Nat) : Env :=
  let unranged := (env.deleteRanges (·.subnetId ∈ ids)).deleteScopes (·.subnetId ∈ ids)
  { unranged with
    subnets := env.subnets.delete (·.id ∈ ids)
    reservations := env.reservations.filter fun reservation => reservation.subnetId ∉ ids
    leases := env.leases.map fun lease =>
      if lease.subnetId.any (· ∈ ids) then { lease with subnetId := none } else lease }

end Env

/-- `DELETE FROM ip_addresses` of some networks, as their foreign key does it. -/
def IpStore.deleteSubnets (store : IpStore) (ids : List Nat) : IpStore :=
  { store with table := store.table.delete (·.key.subnetId ∈ ids) }

namespace Db

/-- Networks go, with everything that refers to them. -/
def deleteSubnets (db : Db) (ids : List Nat) : Db :=
  ⟨db.env.deleteSubnets ids, db.store.deleteSubnets ids⟩

/-- A network and all networks below it. -/
def subtreeOf (db : Db) (id : Nat) : List Nat := subtree (Subnets.links db.env.subnets) id

/-- `deleteSubnetRow`, which the foreign key on `parent_id` carries on down. -/
def deleteSubnetRow (db : Db) (id : Nat) : Db := db.deleteSubnets (db.subtreeOf id)

/-- `deleteDescendantSubnets`. -/
def deleteDescendantSubnets (db : Db) (id : Nat) : Db :=
  let below := (db.subtreeOf id).filter (· ≠ id)
  { db with env := db.env.deleteDhcpState below }.deleteSubnets below

/-- `deleteSubnetData`. -/
def deleteSubnetData (db : Db) (id : Nat) : Db :=
  ⟨(db.env.deleteDhcpState [id]).deleteRanges (·.subnetId = id), db.store.deleteBySubnet id⟩

/-- The columns of one network change. -/
def setSubnet (db : Db) (id : Nat) (change : SubnetInfo → SubnetInfo) : Db :=
  { db with env := { db.env with subnets := Subnets.setInfo db.env.subnets id change } }

/-! ## Inserting a network -/

/-- The columns of a new row: without a policy it has the one its gateway shows. -/
def insertedInfo (net : Network) (policy : Option GatewayPolicy) (info : SubnetInfo) : SubnetInfo :=
  { info with gatewayPolicy := policy.getD (gatewayPolicyForAddress net info.gatewayAddress) }

/-- `insertSubnet`: the new row's id with the database. -/
def insertSubnet (db : Db) (net : Network) (policy : Option GatewayPolicy) (info : SubnetInfo) :
    Except Refusal (Db × Nat) :=
  match db.env.subnets.insert net (insertedInfo net policy info) with
  | some subnets => .ok ({ db with env := { db.env with subnets := subnets } },
      db.env.subnets.nextId)
  | none => .error .unique

/-- `reconcileSubnetTopology`. -/
def reconcileSubnetTopology (db : Db) (now id : Nat) : Except Refusal Db :=
  match db.env.subnets.byId id with
  | none => .ok db
  | some subnet => do
      let store ← lifecycleStep
        (db.store.reconcileTopologyAddresses db.env now id subnet.key subnet.info.gatewayAddress)
      .ok { db with store := store }

/-! ## Flattening -/

/-- One child of `consolidateIntermediate`: its children move up and it goes. The depth
is written for these alone. -/
def flattenChild (parentId : Nat) (db : Db) (child : SubnetRow) : Db :=
  let raised := Subnets.reparent db.env.subnets child.id parentId child.info.depth
  { db with env := { db.env with subnets := raised } }.deleteSubnetRow child.id

/-- The networks of one level are all intermediaries. -/
def flattens (db : Db) (parentId : Nat) : Bool :=
  !(Subnets.children db.env.subnets parentId).isEmpty &&
    (Subnets.children db.env.subnets parentId).all (Subnets.isIntermediary db.env.subnets)

/-- One level of `consolidateIntermediate`. -/
def flattenLevel (db : Db) (parentId : Nat) : Db :=
  (Subnets.children db.env.subnets parentId).foldl (flattenChild parentId) db

/-- `consolidateIntermediate`. Every level that goes on deletes rows, so as many levels as
there are rows are enough. -/
def consolidateLevels : Nat → Db → Option Nat → Db
  | 0, db, _ => db
  | _ + 1, db, none => db
  | levels + 1, db, some parentId =>
    match db.flattens parentId, db.env.subnets.byId parentId with
    | true, some parent => consolidateLevels levels (db.flattenLevel parentId) parent.info.parentId
    | _, _ => db

/-- `consolidateIntermediate`. -/
def consolidateIntermediate (db : Db) (parentId : Option Nat) : Db :=
  consolidateLevels db.env.subnets.rows.length db parentId

/-! ## Deleting a network -/

/-- `deallocateSubnetRow`: the network keeps only its address space. -/
def deallocatedInfo (info : SubnetInfo) : SubnetInfo :=
  { info with
    status := .unallocated
    vlanId := none
    gatewayAddress := none
    gatewayPolicy := .none
    hasReverseDns := false
    domainName := none
    folderId := none
    scanInterval := none
    scanEnabled := none }

/-- `deleteSubnet`, without the generated DNS records that go with an allocated network. -/
def deleteSubnet (db : Db) (subnet : SubnetRow) : Db :=
  let hasChildren := !(Subnets.children db.env.subnets subnet.id).isEmpty
  if subnet.info.status = .allocated then
    let bare := if hasChildren then db.deleteDescendantSubnets subnet.id else db
    (bare.deleteSubnetData subnet.id).setSubnet subnet.id deallocatedInfo
  else if subnet.info.parentId.isNone then
    let emptied := db.deleteSubnetData subnet.id
    let below := (emptied.subtreeOf subnet.id).filter (· ≠ subnet.id)
    let bare :=
      if hasChildren then { emptied with env := emptied.env.deleteDhcpState below } else emptied
    bare.deleteSubnetRow subnet.id
  else if !hasChildren then (db.deleteSubnetData subnet.id).deleteSubnetRow subnet.id
  else db.deleteDescendantSubnets subnet.id

end Db

end Cidrella
