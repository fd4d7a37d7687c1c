import Cidrella.Topology

/-!
# Transformation plans

`services/network-transformation-plan.js`: what a divide or a merge is going to do, and
what stands in its way, worked out without changing anything. Lists that the source reads
in the order of their ids are in table order here, which only shows in the order of the
conflicts; where one row is chosen, the order is explicit.
-/

set_option autoImplicit false

namespace Cidrella

/-! ## Plans -/

/-- The gateway of a target. A custom gateway that is in another target leaves no policy. -/
structure PlanGateway where
  policy : Option GatewayPolicy
  address : Option Addr
  deriving DecidableEq, Repr

/-- A scope a target gets. -/
structure PlanScope where
  sourceScopeId : Nat
  enabled : Bool
  leaseTime : Text
  v6Mode : Option V6Mode
  interval : Addr × Addr
  deriving DecidableEq, Repr

/-- A network the transformation makes. -/
structure PlanTarget where
  net : Network
  selected : Bool
  gateway : PlanGateway
  scope : Option PlanScope
  deriving DecidableEq, Repr

/-- The fields merged networks have to agree on. -/
inductive PolicyField where
  | vlanId
  | folderId
  | domainName
  | scanInterval
  | scanEnabled
  | hasReverseDns
  deriving DecidableEq, Repr

/-- The identities of a reservation that a merge checks. -/
inductive IdentityField where
  | macAddress
  | ipAddress
  deriving DecidableEq, Repr

/-- A conflict of a plan. -/
inductive PlanConflict where
  | customGatewayPolicyRequired
  | dhcpScopePolicy (scopeIds : List Nat) (variants : Nat)
  | gatewayAllocation (addr : Addr) (recordId : Nat) (state : AllocationState)
  | gatewayReservation (addr : Addr) (recordId : Nat)
  | gatewayLease (addr : Addr) (recordId : Nat)
  | gatewayPolicy
  | networkPolicy (field : PolicyField)
  | reservationIdentity (field : IdentityField) (recordIds : List Nat)
  deriving DecidableEq, Repr

/-- `targets` and `conflicts` of a plan. -/
structure Plan where
  targets : List PlanTarget
  conflicts : List PlanConflict
  deriving DecidableEq, Repr

/-- A gateway the operator gives one target. An unknown policy is `none`. -/
structure GatewayOverride where
  cidr : Text
  policy : Option GatewayPolicy
  address : Option Text
  deriving DecidableEq, Repr

/-- `targetGateway` for a target with an override. -/
def overriddenGateway (net : Network) (override : GatewayOverride) : Except Refusal PlanGateway :=
  match override.policy with
  | none => .error (.unusableGateway net)
  | some .custom =>
    match override.address.bind addressToBig with
    | none => .error (.unusableGateway net)
    | some addr =>
      if !net.contains addr || addr ∈ net.topologyAddresses then .error (.unusableGateway net)
      else .ok ⟨some .custom, some addr⟩
  | some policy => .ok ⟨some policy, resolveGatewayAddress net policy none⟩

/-- `targetGateway`. -/
def targetGateway (parent : SubnetInfo) (net : Network) (override : Option GatewayOverride) :
    Except Refusal PlanGateway :=
  match override with
  | some override => overriddenGateway net override
  | none =>
    if parent.gatewayPolicy = .custom then
      match parent.gatewayAddress.filter (net.contains ·) with
      | some addr => .ok ⟨some .custom, some addr⟩
      | none => .ok ⟨none, none⟩
    else .ok ⟨some parent.gatewayPolicy, resolveGatewayAddress net parent.gatewayPolicy none⟩

/-- The scope with the lowest id, for `ORDER BY id`. -/
def Env.lowestScope (env : Env) (subnetIds : List Nat) : Option Scope :=
  leastScope (fun scope held => scope.id < held.id) (env.scopes.filter (·.subnetId ∈ subnetIds))

/-- The scope a target gets from a source scope: the rule of the plan. -/
def planScope (source : Scope) (net : Network) (gateway : Option Addr) :
    Except Refusal (Option PlanScope) :=
  match net.family with
  | .v6 =>
    .ok ((defaultV6ScopeForTarget source.v6Mode net gateway).map fun plan =>
      ⟨source.id, source.enabled, source.leaseTime, some plan.mode, plan.interval⟩)
  | .v4 => do
      let pool ← defaultDhcpPoolForSubnet net gateway
      .ok (pool.map fun pool =>
        ⟨source.id, source.enabled, source.leaseTime, none,
          (addressAt .v4 pool.start, addressAt .v4 pool.stop)⟩)

/-- `defaultScopesForTarget`. -/
def Env.defaultScopesForTarget (env : Env) (sourceIds : List Nat) (net : Network)
    (gateway : Option Addr) : Except Refusal (Option PlanScope) :=
  match env.lowestScope sourceIds with
  | none => .ok none
  | some source => planScope source net gateway

/-! ## Conflicts -/

/-- The columns of a scope that every source has to share. -/
structure ScopeSignature where
  enabled : Bool
  leaseTime : Text
  dnsServers : Option Text
  domainName : Option Text
  ntpServers : Option Text
  domainSearch : Option Text
  description : Option Text
  options : List ScopeOption
  deriving DecidableEq, Repr

/-- The signature `dhcpScopePolicyConflicts` compares. The DHCPv6 mode is not part of it. -/
def Scope.signature (scope : Scope) : ScopeSignature where
  enabled := scope.enabled
  leaseTime := scope.leaseTime
  dnsServers := scope.dnsServers
  domainName := scope.domainName
  ntpServers := scope.ntpServers
  domainSearch := scope.domainSearch
  description := scope.description
  options := scope.options.filter fun option => option.code ∉ [1, 3, 28]

/-- `dhcpScopePolicyConflicts`. -/
def Env.dhcpScopePolicyConflicts (env : Env) (sourceIds : List Nat) : List PlanConflict :=
  let scopes := env.scopes.filter (·.subnetId ∈ sourceIds)
  let variants := (scopes.map Scope.signature).dedup.length
  if variants < 2 then [] else [.dhcpScopePolicy (scopes.map (·.id)) variants]

/-- `gatewayClaimConflicts`: what already holds an address that a target's gateway takes. A
row without a source is not looked at. -/
def Db.gatewayClaimConflicts (db : Db) (now : Nat) (gateways : List Addr) (sourceIds : List Nat) :
    List PlanConflict :=
  (db.store.table.rows.filter fun row =>
      row.key.subnetId ∈ sourceIds && row.info.allocationSourceType.any (· ≠ .topology) &&
        row.info.allocationState ≠ .unassigned && row.info.allocationState ≠ .staticDns &&
        row.key.addr ∈ gateways).map
    (fun row => .gatewayAllocation row.key.addr row.id row.info.allocationState) ++
  (db.env.reservations.filter fun reservation =>
      reservation.subnetId ∈ sourceIds && reservation.enabled && reservation.addr ∈ gateways).map
    (fun reservation => .gatewayReservation reservation.addr reservation.id) ++
  (db.env.leases.filter fun lease =>
      lease.subnetId.any (· ∈ sourceIds) && lease.isActive now && lease.addr ∈ gateways).map
    fun lease => .gatewayLease lease.addr lease.id

/-! ## Divide -/

/-- How a network is divided. -/
inductive DivideMode where
  | equal (newPrefix : Nat)
  | carve (cidr : Text)
  deriving DecidableEq, Repr

/-- The networks of a divide. -/
def divideNetworks (parent : Network) : DivideMode → Except Refusal (List Network)
  | .equal newPrefix => cidrStep (splitNetwork parent newPrefix 256)
  | .carve cidr =>
    match parseNetwork cidr with
    | none => .error (.cidr .invalidNotation)
    | some child => do
        let remainder ← cidrStep (subtractNetwork parent child)
        .ok (child :: remainder)

/-- The networks a divide is asked for: the selected ones, or the carved one. -/
def isSelected (mode : DivideMode) (selectedCidrs : List Text) (first net : Network) : Bool :=
  match mode with
  | .equal _ => selectedCidrs.isEmpty || net.cidr ∈ selectedCidrs
  | .carve _ => net = first

/-- Only networks of the divide can be selected. -/
def selectionFails (mode : DivideMode) (selectedCidrs : List Text) (nets : List Network) : Bool :=
  match mode with
  | .equal _ => selectedCidrs.any (· ∉ nets.map Network.cidr)
  | .carve _ => false

/-- A target of a divide. -/
def Env.divideTarget (env : Env) (parent : SubnetRow) (overrides : List GatewayOverride)
    (selected : Network → Bool) (net : Network) : Except Refusal PlanTarget := do
  let gateway ← targetGateway parent.info net (overrides.reverse.find? (·.cidr = net.cidr))
  let scope ← env.defaultScopesForTarget [parent.id] net gateway.address
  .ok ⟨net, selected net, gateway, scope⟩

/-- `buildDividePlan`. -/
def Db.buildDividePlan (db : Db) (now : Nat) (parent : SubnetRow) (mode : DivideMode)
    (selectedCidrs : List Text) (overrides : List GatewayOverride) : Except Refusal Plan := do
  let nets ← divideNetworks parent.key mode
  if selectionFails mode selectedCidrs nets then .error .invalidSelection
  else if overrides.any (·.cidr ∉ nets.map Network.cidr) then .error .unknownGatewayTarget
  else do
    let targets ← nets.mapM
      (db.env.divideTarget parent overrides (isSelected mode selectedCidrs (nets.headD parent.key)))
    let custom := if targets.any (·.gateway.policy.isNone) then
      [PlanConflict.customGatewayPolicyRequired] else []
    .ok
      { targets := targets
        conflicts := custom ++ db.env.dhcpScopePolicyConflicts [parent.id] ++
          db.gatewayClaimConflicts now (targets.filterMap (·.gateway.address)) [parent.id] }

/-! ## Merge -/

/-- The value of a field, as merged networks have to agree on it. -/
def PolicyField.differs (field : PolicyField) (allocated : List SubnetInfo) : Bool :=
  match field with
  | .vlanId => 1 < (allocated.map (·.vlanId)).dedup.length
  | .folderId => 1 < (allocated.map (·.folderId)).dedup.length
  | .domainName => 1 < (allocated.map (·.domainName)).dedup.length
  | .scanInterval => 1 < (allocated.map (·.scanInterval)).dedup.length
  | .scanEnabled => 1 < (allocated.map (·.scanEnabled)).dedup.length
  | .hasReverseDns => 1 < (allocated.map (·.hasReverseDns)).dedup.length

/-- The reservations of each value that more than one of them has. -/
def sharedIdentities {α : Type} [DecidableEq α] (field : IdentityField) (value : Reservation → α)
    (reservations : List Reservation) : List PlanConflict :=
  ((reservations.map value).dedup.map fun shared =>
      reservations.filter fun reservation => value reservation = shared).filterMap fun group =>
    if 1 < group.length then some (.reservationIdentity field (group.map (·.id))) else none

/-- The gateway of a merge, from its allocated sources. -/
def mergeGateway (allocated : List SubnetInfo) (merged : Network) : PlanGateway :=
  let policies := (allocated.map (·.gatewayPolicy)).eraseDups
  let customAddresses :=
    ((allocated.filter (·.gatewayPolicy = .custom)).map (·.gatewayAddress)).eraseDups
  if 1 < policies.length || 1 < customAddresses.length then ⟨none, none⟩
  else
    let policy := policies.head?.getD .none
    ⟨some policy, resolveGatewayAddress merged policy customAddresses.head?.join⟩

/-- `buildMergePlan`. -/
def Db.buildMergePlan (db : Db) (now : Nat) (sources : List SubnetRow) (merged : Network) :
    Except Refusal Plan := do
  let allocated := (sources.map (·.info)).filter (·.status = .allocated)
  let gateway := mergeGateway allocated merged
  let ids := sources.map (·.id)
  let reservations := db.env.reservations.filter (·.subnetId ∈ ids)
  let scope ← db.env.defaultScopesForTarget ids merged gateway.address
  let fields := [PolicyField.vlanId, .folderId, .domainName, .scanInterval, .scanEnabled,
    .hasReverseDns]
  .ok
    { targets := [⟨merged, true, gateway, scope⟩]
      conflicts :=
        (if gateway.policy.isNone then [.gatewayPolicy] else []) ++
        ((fields.filter (·.differs allocated)).map PlanConflict.networkPolicy) ++
        sharedIdentities .macAddress (·.macAddress) reservations ++
        sharedIdentities .ipAddress (·.addr) reservations ++
        db.gatewayClaimConflicts now gateway.address.toList ids ++
        db.env.dhcpScopePolicyConflicts ids }

end Cidrella
