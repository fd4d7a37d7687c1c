import Cidrella.TransformationPlan

/-!
# The subnet requests

The handlers of `routes/subnets.js` that change the network tree. A handler answers with
a refusal and changes nothing, or commits its transaction and returns the database it
leaves. Checks of names, descriptions and other display fields, which only refuse more
requests, are left out.
-/

set_option autoImplicit false

namespace Cidrella

namespace Db

/-! ## Creating a supernet -/

/-- The fields of a new supernet. -/
structure NewSubnet where
  cidr : Text
  vlanId : Option Nat := none
  folderId : Option Nat := none
  deriving DecidableEq, Repr

/-- `refuseIpv6Unless`. -/
def refusesIpv6 (db : Db) (net : Network) : Bool := net.family = .v6 && !db.env.settings.ipv6Enabled

/-- `SELECT cidr FROM subnets WHERE parent_id IS NULL`. -/
def roots (db : Db) : List SubnetRow := db.env.subnets.rows.filter (·.info.parentId = none)

/-- `POST /api/subnets`. -/
def createSubnet (db : Db) (request : NewSubnet) : Except Refusal Db :=
  match parseNetwork request.cidr with
  | none => .error (.cidr .invalidNotation)
  | some net =>
    if db.refusesIpv6 net then .error .ipv6Disabled
    else if (db.env.subnets.lookup net).isSome then .error .alreadyExists
    else do
      cidrStep (validateNetworkBounds net)
      match db.roots.find? (net.overlaps ·.key) with
      | some root => .error (.overlapsRoot root.key)
      | none => do
          let (after, _) ← db.insertSubnet net none
            { vlanId := request.vlanId, folderId := request.folderId }
          .ok after

/-! ## What a divide would lose -/

/-- `carries`: the kind of record that would be lost. -/
inductive Carrier where
  | dhcpReservation
  | ipAddress
  | dnsRecord
  | dhcpLease
  deriving DecidableEq, Repr

/-- A record that a divide would leave without a usable address. -/
structure Lossy where
  carries : Carrier
  recordId : Nat
  addr : Addr
  hostname : Option Text
  deriving DecidableEq, Repr

/-- `classify`: the address is a child's own, or in no child. -/
def losesAddress (nets : List Network) (addr : Addr) : Bool :=
  nets.any (addr ∈ ·.topologyAddresses) || !nets.any (·.contains addr)

/-- A row that says something about a host. -/
def carriesState (info : IpInfo) : Bool :=
  info.hostname.isSome || info.macAddress.isSome || info.allocationState ≠ .unassigned

/-- `detectLossyIpsForDivision`. Topology's own rows are not facts about hosts. -/
def detectLossyIpsForDivision (db : Db) (now : Nat) (parent : SubnetRow) (nets : List Network) :
    List Lossy :=
  (db.env.reservations.filter fun reservation =>
      reservation.subnetId = parent.id && losesAddress nets reservation.addr).map
    (fun reservation => ⟨.dhcpReservation, reservation.id, reservation.addr,
      truthy reservation.hostname⟩) ++
  (db.store.table.rows.filter fun row =>
      row.key.subnetId = parent.id && carriesState row.info && losesAddress nets row.key.addr &&
        row.info.allocationSourceType ≠ some .topology).map
    (fun row => ⟨.ipAddress, row.id, row.key.addr, truthy row.info.hostname⟩) ++
  (db.env.records.filter fun record =>
      db.env.isServed record && (db.env.zoneOf record).any (·.forward) && Env.isManual record &&
        parent.key.contains record.value && losesAddress nets record.value).map
    (fun record => ⟨.dnsRecord, record.id, record.value,
      some (DnsNames.joinFqdn record.name (((db.env.zoneOf record).map (·.name)).getD []))⟩) ++
  (db.env.leases.filter fun lease =>
      lease.subnetId = some parent.id && lease.isActive now && losesAddress nets lease.addr).map
    fun lease => ⟨.dhcpLease, lease.id, lease.addr, truthy lease.hostname⟩

/-- One entry of `conflict_resolutions`. -/
structure Resolution where
  carries : Carrier
  recordId : Nat
  isDelete : Bool
  deriving DecidableEq, Repr

/-- `conflictResolutionKey`. -/
def Lossy.key (item : Lossy) : Carrier × Nat := (item.carries, item.recordId)

/-- `conflictResolutionKey`. -/
def Resolution.key (resolution : Resolution) : Carrier × Nat :=
  (resolution.carries, resolution.recordId)

/-- The loop of `validateConflictResolutions`: every resolution is a deletion of a
different item of the plan. -/
def acceptAll (lossy : List Lossy) : List Resolution → List Lossy → Except Refusal (List Lossy)
  | [], accepted => .ok accepted
  | resolution :: rest, accepted =>
    if !resolution.isDelete then .error .invalidResolution
    else
      match lossy.find? (·.key = resolution.key) with
      | none => .error .invalidResolution
      | some item =>
        if accepted.any (·.key = resolution.key) then .error .invalidResolution
        else acceptAll lossy rest (accepted ++ [item])

/-- `validateConflictResolutions`, with the refusal of a list that is not complete. -/
def validateConflictResolutions (lossy : List Lossy) (resolutions : Option (List Resolution)) :
    Except Refusal (List Lossy) :=
  if lossy = [] then .ok []
  else
    match resolutions with
    | none => .error .resolutionsRequired
    | some resolutions => do
        let accepted ← acceptAll lossy resolutions []
        if accepted.length ≠ (lossy.map Lossy.key).dedup.length then .error .resolutionsRequired
        else .ok accepted

/-! ## Dividing a network -/

/-- The columns of a new child. -/
def childInfo (parent : SubnetRow) (target : PlanTarget) : SubnetInfo where
  parentId := some parent.id
  depth := parent.info.depth + 1
  vlanId := parent.info.vlanId
  folderId := parent.info.folderId
  hasReverseDns := false
  status := parent.info.status
  gatewayAddress := target.gateway.address
  domainName := parent.info.domainName
  scanEnabled := parent.info.scanEnabled
  scanInterval := parent.info.scanInterval

/-- `migrateConfigToChild`. -/
def migrateConfigToChild (db : Db) (parent : SubnetRow) (childId : Nat) (net : Network)
    (gateway : Option Addr) : Except Refusal Db := do
  let ranged := db.env.createSystemRanges childId net gateway
  let withScope ← createDefaultScopeFromSource ranged db.store
    (ranged.firstScopeForSubnets [parent.id]) childId net gateway
  let copied : Db := { db with env := withScope.copyUserRangesToChild parent.id childId net }
  .ok (if parent.info.hasReverseDns then
    copied.setSubnet childId fun info => { info with hasReverseDns := true } else copied)

/-- One child of a divide. -/
def insertChild (parent : SubnetRow) (db : Db) (target : PlanTarget) : Except Refusal Db := do
  let (inserted, childId) ← db.insertSubnet target.net target.gateway.policy
      (childInfo parent target)
  inserted.migrateConfigToChild parent childId target.net target.gateway.address

/-- `childContaining`: the child whose prefix holds the address. -/
def childContaining (db : Db) (parentId : Nat) (addr : Addr) : Option SubnetRow :=
  (Subnets.children db.env.subnets parentId).find? (·.key.contains addr)

/-- `moveReservationsToChildren`. -/
def moveReservationsToChildren (db : Db) (parentId : Nat) : Db :=
  { db with
    env := { db.env with
      reservations := db.env.reservations.map fun reservation =>
        if reservation.subnetId = parentId then
          match db.childContaining parentId reservation.addr with
          | some child => { reservation with subnetId := child.id }
          | none => reservation
        else reservation } }

/-- `moveLeasesToChildren`. -/
def moveLeasesToChildren (db : Db) (parentId : Nat) : Db :=
  { db with
    env := { db.env with
      leases := db.env.leases.map fun lease =>
        if lease.subnetId = some parentId then
          match db.childContaining parentId lease.addr with
          | some child => { lease with subnetId := some child.id }
          | none => lease
        else lease } }

/-- One address row of `transferPerIpArtifactsToChildren`. -/
def moveRowToChild (parentId : Nat) (db : Db) (row : IpRow) : Except Refusal Db :=
  match db.childContaining parentId row.key.addr with
  | none => .ok db
  | some child => do
      let store ← lifecycleStep (db.store.moveToSubnet db.env row.id row.key.addr child.id)
      .ok { db with store := store }

/-- `transferPerIpArtifactsToChildren`. -/
def transferPerIpArtifactsToChildren (db : Db) (parentId : Nat) : Except Refusal Db :=
  let moved := (db.moveReservationsToChildren parentId).moveLeasesToChildren parentId
  (moved.store.table.rows.filter (·.key.subnetId = parentId)).foldlM (moveRowToChild parentId) moved

/-- One item of `cleanupLossyArtifactsAfterDivide`. Reservations and leases are looked for
in the children only. -/
def cleanupLossy (parentId : Nat) (db : Db) (item : Lossy) : Db :=
  let isChild := fun id => (Subnets.children db.env.subnets parentId).any (·.id = id)
  match item.carries with
  | .dhcpReservation =>
    { db with env := { db.env with
      reservations := db.env.reservations.filter fun reservation =>
        !(reservation.id = item.recordId && isChild reservation.subnetId) } }
  | .dhcpLease =>
    { db with env := { db.env with
      leases := db.env.leases.filter fun lease =>
        !(lease.id = item.recordId && lease.subnetId.any isChild) } }
  | .dnsRecord =>
    { db with env := { db.env with
      records := db.env.records.filter fun record =>
        !(record.id = item.recordId && record.value = item.addr) } }
  | .ipAddress => { db with store := db.store.deleteById item.recordId }

/-- `cleanupLossyArtifactsAfterDivide`. -/
def cleanupLossyArtifactsAfterDivide (db : Db) (parentId : Nat) (accepted : List Lossy) : Db :=
  accepted.foldl (cleanupLossy parentId) db

/-- `reconcileChildTopology`. -/
def reconcileChildTopology (db : Db) (now parentId : Nat) : Except Refusal Db :=
  (Subnets.children db.env.subnets parentId).foldlM
    (fun db child => db.reconcileSubnetTopology now child.id) db

/-- The columns `clearParentConfig` resets. The gateway policy stays. -/
def clearedInfo (info : SubnetInfo) : SubnetInfo :=
  { info with
    status := .unallocated
    vlanId := none
    gatewayAddress := none
    hasReverseDns := false
    domainName := none }

/-- `clearParentConfig`. -/
def clearParentConfig (db : Db) (parentId : Nat) : Db :=
  { db with env :=
    (db.env.deleteDhcpState [parentId]).deleteRanges (·.subnetId = parentId) }.setSubnet
      parentId clearedInfo

/-- The transaction of a divide. -/
def executeDivide (db : Db) (now : Nat) (parent : SubnetRow) (targets : List PlanTarget)
    (accepted : List Lossy) : Except Refusal Db := do
  let inserted ← targets.foldlM (insertChild parent) db
  let moved ← inserted.transferPerIpArtifactsToChildren parent.id
  let cleaned := moved.cleanupLossyArtifactsAfterDivide parent.id accepted
  let reconciled ← cleaned.reconcileChildTopology now parent.id
  .ok ((reconciled.clearParentConfig parent.id).consolidateIntermediate parent.info.parentId)

/-- The body of a divide request. `planIsCurrent` is false when it carries a token of an
older plan. -/
structure DivideRequest where
  mode : DivideMode
  force : Bool := false
  selectedCidrs : List Text := []
  targetGateways : List GatewayOverride := []
  resolutions : Option (List Resolution) := none
  planIsCurrent : Bool := true
  deriving DecidableEq, Repr

/-- `POST /api/subnets/:id/divide`. -/
def divide (db : Db) (now id : Nat) (request : DivideRequest) : Except Refusal Db :=
  match db.env.subnets.byId id with
  | none => .error .notFound
  | some parent =>
    if db.refusesIpv6 parent.key then .error .ipv6Disabled
    else if !(Subnets.children db.env.subnets parent.id).isEmpty then .error .hasChildren
    else if parent.info.status = .allocated && !request.force then .error .confirmationRequired
    else do
      let plan ← db.buildDividePlan now parent request.mode request.selectedCidrs
        request.targetGateways
      if plan.conflicts ≠ [] then .error .planConflicts
      else if !request.planIsCurrent then .error .stalePlan
      else do
        let lossy := db.detectLossyIpsForDivision now parent (plan.targets.map (·.net))
        let accepted ← validateConflictResolutions lossy request.resolutions
        db.executeDivide now parent plan.targets accepted

/-! ## Merging networks -/

/-- `UNIQUE(subnet_id, mac_address)`, `UNIQUE(subnet_id, duid)` and
`UNIQUE(subnet_id, ip_address)` of a network's reservations. -/
def reservationsDistinct (reservations : List Reservation) (subnetId : Nat) : Prop :=
  (reservations.filter (·.subnetId = subnetId)).Pairwise fun left right =>
    (left.macAddress = none ∨ left.macAddress ≠ right.macAddress) ∧
      (left.duid = none ∨ left.duid ≠ right.duid) ∧ left.addr ≠ right.addr

instance (reservations : List Reservation) (subnetId : Nat) :
    Decidable (reservationsDistinct reservations subnetId) :=
  inferInstanceAs (Decidable (List.Pairwise _ _))

/-- `moveReservationsToSubnet`. -/
def moveReservationsToSubnet (env : Env) (sourceIds : List Nat) (targetId : Nat) :
    Except Refusal Env :=
  let moved := env.reservations.map fun reservation =>
    if reservation.subnetId ∈ sourceIds then { reservation with subnetId := targetId }
    else reservation
  if reservationsDistinct moved targetId then .ok { env with reservations := moved }
  else .error .unique

/-- `moveLeasesToSubnet`. -/
def moveLeasesToSubnet (env : Env) (sourceIds : List Nat) (targetId : Nat) : Env :=
  { env with
    leases := env.leases.map fun lease =>
      if lease.subnetId.any (· ∈ sourceIds) then { lease with subnetId := some targetId }
      else lease }

/-- `movePerIpArtifactsToSubnet`. -/
def movePerIpArtifactsToSubnet (db : Db) (sourceIds : List Nat) (targetId : Nat) :
    Except Refusal Db := do
  let reserved ← moveReservationsToSubnet db.env sourceIds targetId
  let leased := moveLeasesToSubnet reserved sourceIds targetId
  (db.store.table.rows.filter (·.key.subnetId ∈ sourceIds)).foldlM
    (fun db row => do
      let store ← lifecycleStep (db.store.moveToSubnet db.env row.id row.key.addr targetId)
      .ok { db with store := store })
    { db with env := leased }

/-- `deleteSubnetRowsWithRanges`. -/
def deleteSubnetRowsWithRanges (db : Db) (ids : List Nat) : Db :=
  ids.foldl
    (fun db id => { db with env := db.env.deleteRanges (·.subnetId = id) }.deleteSubnetRow id) db

/-- The policy and the address `mergeSubnets` gives the merged network. The column is never
null, so the defaults that follow it in the source are not reached. -/
def mergedGateway (allocated : List SubnetInfo) (parent : SubnetInfo) (merged : Network) :
    GatewayPolicy × Option Addr :=
  let policy := (allocated.head?.map (·.gatewayPolicy)).getD parent.gatewayPolicy
  let custom := if policy = .custom then allocated.head?.bind (·.gatewayAddress) else none
  (policy, resolveGatewayAddress merged policy custom)

/-- `configSource`: the first allocated network with a gateway, or the first allocated one. -/
def configSource (allocated : List SubnetInfo) : Option SubnetInfo :=
  allocated.find? (·.gatewayAddress.isSome) <|> allocated.head?

/-- The columns `restoreMergedParent` gives the parent. -/
def restoredInfo (config : Option SubnetInfo) (policy : GatewayPolicy) (gateway : Option Addr)
    (info : SubnetInfo) : SubnetInfo :=
  match config with
  | some config =>
    { info with
      status := .allocated
      vlanId := config.vlanId
      gatewayAddress := gateway
      gatewayPolicy := policy
      hasReverseDns := config.hasReverseDns
      domainName := config.domainName
      folderId := config.folderId
      scanInterval := config.scanInterval
      scanEnabled := config.scanEnabled }
  | none =>
    { info with status := .unallocated, gatewayAddress := gateway, gatewayPolicy := policy }

/-- The columns of a merged network that is not its parent. -/
def mergedInfo (config : Option SubnetInfo) (gateway : Option Addr) (parent : SubnetRow) :
    SubnetInfo where
  parentId := some parent.id
  depth := parent.info.depth + 1
  vlanId := config.bind (·.vlanId)
  folderId := config.bind (·.folderId) <|> parent.info.folderId
  hasReverseDns := config.any (·.hasReverseDns)
  status := if config.isSome then .allocated else .unallocated
  gatewayAddress := gateway
  domainName := config.bind (·.domainName)
  scanInterval := config.bind (·.scanInterval) <|> parent.info.scanInterval
  scanEnabled := config.bind (·.scanEnabled) <|> parent.info.scanEnabled

/-- What both ways of `mergeSubnets` do once the merged network is there: the facts of the
sources move to it and the sources go. -/
def absorbSources (db : Db) (sources : List SubnetRow) (targetId : Nat) : Except Refusal Db := do
  let ids := sources.map (·.id)
  let moved ← db.movePerIpArtifactsToSubnet ids targetId
  let ranged : Db := { moved with env := moved.env.moveCustomRangesToSubnet ids targetId }
  .ok (ranged.deleteSubnetRowsWithRanges ids)

/-- The end of `mergeSubnets`: system ranges, topology and the scope of the merged network. -/
def finishMerge (db : Db) (now : Nat) (source : Option Scope) (targetId : Nat) (merged : Network)
    (gateway : Option Addr) : Except Refusal Db := do
  let ranged : Db := { db with env := db.env.createSystemRanges targetId merged gateway }
  let reconciled ← ranged.reconcileSubnetTopology now targetId
  let withScope ← createDefaultScopeFromSource reconciled.env reconciled.store source
    targetId merged gateway
  .ok { reconciled with env := withScope }

/-- `mergeSubnets`: the merged network's id with the database. -/
def mergeSubnets (db : Db) (now : Nat) (sources : List SubnetRow) (parent : SubnetRow)
    (merged : Network) : Except Refusal (Db × Nat) := do
  let allocated := (sources.map (·.info)).filter (·.status = .allocated)
  let (policy, gateway) := mergedGateway allocated parent.info merged
  let config := configSource allocated
  let scope := db.env.firstScopeForSubnets (sources.map (·.id))
  if merged = parent.key then do
    let absorbed ← db.absorbSources sources parent.id
    let restored := absorbed.setSubnet parent.id (restoredInfo config policy gateway)
    let after ← restored.finishMerge now scope parent.id merged gateway
    .ok (after, parent.id)
  else do
    let (inserted, mergedId) ← db.insertSubnet merged (some policy)
      (mergedInfo config gateway parent)
    let absorbed ← inserted.absorbSources sources mergedId
    let after ← absorbed.finishMerge now scope mergedId merged gateway
    .ok (after, mergedId)

/-- `detectForwardZoneConflict`. -/
def forwardZonesDiffer (sources : List SubnetRow) : Bool :=
  1 < ((sources.filterMap (·.info.domainName)).dedup).length

/-- The body of a merge request. -/
structure MergeRequest where
  subnetIds : List Nat
  planIsCurrent : Bool := true
  deriving DecidableEq, Repr

/-- The rows of a merge request, with their parent and the merged network: the checks of
the handler before it looks at the plan. -/
def mergeSources (db : Db) (subnetIds : List Nat) :
    Except Refusal (List SubnetRow × SubnetRow × Network) :=
  if subnetIds.length < 2 then .error .needTwoSubnets
  else
    match subnetIds.mapM db.env.subnets.byId with
    | none => .error .notFound
    | some sources =>
      if sources.any (db.refusesIpv6 ·.key) then .error .ipv6Disabled
      else
        match sources.head?.bind (·.info.parentId) with
        | none => .error .notSiblings
        | some parentId =>
          if sources.any (·.info.parentId ≠ some parentId) then .error .notSiblings
          else if sources.any fun row => !(Subnets.children db.env.subnets row.id).isEmpty then
            .error .hasChildren
          else do
            let merged ← cidrStep (mergeNetworks (sources.map (·.key)))
            match db.env.subnets.byId parentId with
            | none => .error .missingRow
            | some parent => .ok (sources, parent, merged)

/-- `POST /api/subnets/merge`. -/
def merge (db : Db) (now : Nat) (request : MergeRequest) : Except Refusal Db := do
  let (sources, parent, merged) ← db.mergeSources request.subnetIds
  let plan ← db.buildMergePlan now sources merged
  let allocated := (sources.map (·.info)).filter (·.status = .allocated)
  let policies := (allocated.map (·.gatewayPolicy)).eraseDups
  if !request.planIsCurrent then .error .stalePlan
  else if 1 < policies.length || (policies.head? = some .custom &&
      1 < (allocated.map (·.gatewayAddress)).dedup.length) then
    .error .gatewayPolicyConflict
  else if forwardZonesDiffer sources then .error .forwardZoneConflict
  else if plan.conflicts ≠ [] then .error .planConflicts
  else do
    let (after, _) ← db.mergeSubnets now sources parent merged
    .ok after

/-! ## Deleting and configuring a network -/

/-- `DELETE /api/subnets/:id`. -/
def delete (db : Db) (id : Nat) : Except Refusal Db :=
  match db.env.subnets.byId id with
  | none => .error .notFound
  | some subnet =>
    if subnet.info.status = .allocated &&
        db.env.reservations.any (·.subnetId ∈ db.subtreeOf subnet.id) then
      .error .reservationsPresent
    else .ok (db.deleteSubnet subnet)

/-- The columns `configureSubnet` writes. -/
structure Configuration where
  vlanId : Option Nat
  folderId : Option Nat
  hasReverseDns : Bool
  gatewayPolicy : GatewayPolicy
  gatewayAddress : Option Addr
  domainName : Option Text
  scanEnabled : Option Bool
  scanInterval : Option Text
  deriving DecidableEq, Repr

/-- The columns of a configured network. Its place in the tree stays as it is. -/
def configuredInfo (fields : Configuration) (info : SubnetInfo) : SubnetInfo :=
  { info with
    status := .allocated
    vlanId := fields.vlanId
    folderId := fields.folderId
    hasReverseDns := fields.hasReverseDns
    gatewayPolicy := fields.gatewayPolicy
    gatewayAddress := fields.gatewayAddress
    domainName := fields.domainName
    scanEnabled := fields.scanEnabled
    scanInterval := fields.scanInterval }

end Db

end Cidrella
