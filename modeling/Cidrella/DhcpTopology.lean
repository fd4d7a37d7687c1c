import Cidrella.Cidr
import Cidrella.Observations

/-!
# DHCP scopes of a network

`services/subnet-dhcp-topology.js` and the pool checks of `models/dhcp-scope.js`: the
default pool of a network, what keeps a pool from being created, and the scope a network
gets from the scope of the network it was made from.

`createAutoScope` and `createAutoScopeV6` fill a new scope's options from the defaults;
here they are only called for a scope whose options are replaced right after, so the
options are the caller's.
-/

set_option autoImplicit false

namespace Cidrella

/-! ## Refusals -/

/-- What a dynamic pool collides with: `type` and `ip_address` of `dynamicPoolConflict`. -/
inductive PoolConflict where
  | system (addr : Addr)
  | gateway (addr : Addr)
  | staticDns (addr : Addr) (recordId : Nat)
  | protectedRow (state : AllocationState) (addr : Addr)
  deriving DecidableEq, Repr

/-- What a change of the topology throws or answers instead of a result. -/
inductive Refusal where
  /-- The lifecycle threw. -/
  | lifecycle (failure : Failure)
  /-- `utils/cidr.js` threw. -/
  | cidr (error : CidrError)
  /-- `Invalid IP address`. -/
  | invalidAddress (addr : Addr)
  /-- `dynamicPoolConflict` found something. -/
  | pool (conflict : PoolConflict)
  /-- `UNIQUE constraint failed`. -/
  | unique
  /-- A row that is not there is read. -/
  | missingRow
  /-- `Subnet not found`. -/
  | notFound
  /-- `IPv6 is disabled`. -/
  | ipv6Disabled
  /-- `Subnet already exists`. -/
  | alreadyExists
  /-- `Overlaps with existing supernet …`. -/
  | overlapsRoot (root : Network)
  /-- `Subnet already has children. Cannot divide further.` -/
  | hasChildren
  /-- `Subnet is allocated. Division will migrate or remove its configuration.` -/
  | confirmationRequired
  /-- The plan has conflicts. -/
  | planConflicts
  /-- `Transformation plan is stale`. -/
  | stalePlan
  /-- `Invalid selected CIDRs: …`. -/
  | invalidSelection
  /-- `Gateway resolution targets are not in the plan: …`. -/
  | unknownGatewayTarget
  /-- `Custom gateway for … must be a usable address in that network`. -/
  | unusableGateway (target : Network)
  /-- Facts of hosts would be lost and not all of these losses were accepted. -/
  | resolutionsRequired
  /-- A conflict resolution that is unknown, repeated or no deletion. -/
  | invalidResolution
  /-- `At least 2 subnet IDs required`. -/
  | needTwoSubnets
  /-- `All subnets must be siblings (same parent)`. -/
  | notSiblings
  /-- `Cannot merge networks with conflicting gateway policies.` -/
  | gatewayPolicyConflict
  /-- `Cannot merge: child subnets own forward zones with different domain names.` -/
  | forwardZoneConflict
  /-- `Remove the … DHCP reservations in this network first.` -/
  | reservationsPresent
  deriving DecidableEq, Repr

/-- A lifecycle operation inside a change of the topology. -/
def lifecycleStep {α : Type} : Except Failure α → Except Refusal α
  | .ok value => .ok value
  | .error failure => .error (.lifecycle failure)

/-- A computation of `utils/cidr.js` inside a change of the topology. -/
def cidrStep {α : Type} : Except CidrError α → Except Refusal α
  | .ok value => .ok value
  | .error error => .error (.cidr error)

/-- An id no row has. SQLite never gives one out twice; here it is only used that it is
new. -/
def freshId (ids : List Nat) : Nat := ids.foldl max 0 + 1

theorem le_foldl_max (ids : List Nat) (start : Nat) : start ≤ ids.foldl max start ∧
    ∀ id ∈ ids, id ≤ ids.foldl max start := by
  induction ids generalizing start with
  | nil => simp
  | cons first ids ih =>
    obtain ⟨above, each⟩ := ih (max start first)
    refine ⟨(le_max_left _ _).trans above, fun id member => ?_⟩
    rcases List.mem_cons.mp member with rfl | later
    · exact (le_max_right _ _).trans above
    · exact each id later

theorem freshId_not_mem (ids : List Nat) : freshId ids ∉ ids := by
  intro member
  have bound := (le_foldl_max ids 0).2 _ member
  exact absurd bound (Nat.not_succ_le_self _)

/-! ## Default pools -/

/-- `nearestPow2` of the fraction `num / den`. The sizes it is asked for are far from the
middle of two powers, so the source's floating point does not matter. -/
def nearestPow2 (num den : Nat) : Nat :=
  if num ≤ den then 1
  else
    let lower := 2 ^ Nat.log2 (num / den)
    if 2 * num ≤ 3 * lower * den then lower else 2 * lower

/-- The ends of a pool, as values of the network's family. -/
structure PoolBounds where
  start : Nat
  stop : Nat
  deriving DecidableEq, Repr

/-- The pool of `defaultDhcpPoolForSubnet` before the gateway is looked at. -/
def sizedPool (net : Network) : PoolBounds :=
  let (poolEnd, poolSize) :=
    if 21 ≤ net.prefixLen && net.prefixLen ≤ 23 then (net.networkBig + 128, 64)
    else (net.networkBig + nearestPow2 (net.sizeBig * 35) 100,
      max 2 (nearestPow2 (net.sizeBig * 15) 100))
  ⟨max (poolEnd + 1 - poolSize) (net.networkBig + 1), min poolEnd (net.lastBig - 1)⟩

/-- `defaultDhcpPoolForSubnet`. The gateway is only stepped over at an end of the pool. -/
def defaultDhcpPoolForSubnet (net : Network) (gateway : Option Addr) :
    Except Refusal (Option PoolBounds) :=
  if net.family ≠ .v4 then .ok none
  else if net.prefixLen < 16 || 29 < net.prefixLen then .ok none
  else do
    let pool := sizedPool net
    let gatewayLong ← match gateway with
      | none => .ok none
      | some addr => if addr.family = .v4
          then .ok (some addr.value) else .error (.invalidAddress addr)
    let adjusted : PoolBounds :=
      if gatewayLong = some pool.start then ⟨pool.start + 1, pool.stop⟩
      else if gatewayLong = some pool.stop then ⟨pool.start, pool.stop - 1⟩
      else pool
    .ok (if adjusted.start ≤ adjusted.stop then some adjusted else none)

/-- The pool of `defaultDhcpV6PoolForSubnet` with the gateway taken out: past it at an
end, the larger side in the middle. -/
def poolAround (pool : PoolBounds) (gateway : Nat) : PoolBounds :=
  if gateway < pool.start || pool.stop < gateway then pool
  else if gateway = pool.start then ⟨pool.start + 1, pool.stop⟩
  else if gateway = pool.stop then ⟨pool.start, pool.stop - 1⟩
  else if gateway - pool.start ≤ pool.stop - gateway then ⟨gateway + 1, pool.stop⟩
  else ⟨pool.start, gateway - 1⟩

/-- `defaultDhcpV6PoolForSubnet`. -/
def defaultDhcpV6PoolForSubnet (net : Network) (gateway : Option Addr) : Option (Addr × Addr) :=
  if net.family ≠ .v6 then none
  else if net.prefixLen < 64 || net.bits - 1 ≤ net.prefixLen then none
  else
    let pool : PoolBounds :=
      if 0x2000 < net.sizeBig then
        ⟨(addressAt .v6 (net.networkBig + 0x1000)).value,
          (addressAt .v6 (net.networkBig + 0x1fff)).value⟩
      else ⟨net.firstUsable.value, net.lastUsable.value⟩
    let shaped : PoolBounds :=
      match gateway with
      | some addr => if addr.family = .v6 then poolAround pool addr.value else pool
      | none => pool
    if shaped.stop < shaped.start then none
    else some (addressAt .v6 shaped.start, addressAt .v6 shaped.stop)

/-- `dhcpV6ModesFor`: the DHCPv6 modes a prefix can use. -/
def dhcpV6ModesFor (prefixLen : Nat) : List V6Mode :=
  if prefixLen = 64 then [.stateless, .slaac, .stateful]
  else if 64 < prefixLen then [.stateful]
  else []

/-- The DHCPv6 scope of a target: its mode and interval. -/
structure V6ScopePlan where
  mode : V6Mode
  interval : Addr × Addr
  deriving DecidableEq, Repr

/-- `defaultV6ScopeForTarget`: the source's mode when the prefix allows it. -/
def defaultV6ScopeForTarget (sourceMode : Option V6Mode) (net : Network) (gateway : Option Addr) :
    Option V6ScopePlan :=
  match sourceMode with
  | none => none
  | some mode =>
    if mode ∉ dhcpV6ModesFor net.prefixLen then none
    else if mode ≠ .stateful then some ⟨mode, net.firstUsable, net.lastUsable⟩
    else (defaultDhcpV6PoolForSubnet net gateway).map fun pool => ⟨.stateful, pool⟩

/-! ## What a pool collides with -/

/-- `addressInRange`. -/
def addressInRange (addr start stop : Addr) : Bool :=
  addr.family = start.family && addr.value ≤ stop.value && start.value ≤ addr.value

/-- `staticDnsConflictsInPool`: served manual records that name an address of the pool. -/
def Env.staticDnsConflictsInPool (env : Env) (start stop : Addr) : List DnsRecord :=
  env.records.filter fun record =>
    env.isServed record && (env.zoneOf record).any (·.forward) && Env.isManual record &&
      addressInRange record.value start stop

/-- A protected row of the network inside the pool. -/
def protectedInPool (store : IpStore) (subnetId : Nat) (start stop : Addr) : Option IpRow :=
  store.table.find? fun row =>
    row.key.subnetId = subnetId &&
      (row.info.allocationState = .system || row.info.allocationState = .gateway) &&
      addressInRange row.key.addr start stop

/-- `dynamicPoolConflict`, for a network with the given gateway. -/
def dynamicPoolConflict (env : Env) (store : IpStore) (subnet : SubnetRow) (gateway : Option Addr)
    (start stop : Addr) : Option PoolConflict :=
  let net := subnet.key
  if start.family ≠ net.family || start.value ≤ net.networkBig then
    some (.system (addressAt net.family net.networkBig))
  else if stop.family ≠ net.family || net.lastBig < stop.value ||
      (net.family = .v4 && net.lastBig ≤ stop.value) then
    some (.system (addressAt net.family net.lastBig))
  else
    match gateway.filter (addressInRange · start stop) with
    | some addr => some (.gateway addr)
    | none =>
      match (env.staticDnsConflictsInPool start stop).head? with
      | some record => some (.staticDns record.value record.id)
      | none =>
        (protectedInPool store subnet.id start stop).map fun row =>
          .protectedRow row.info.allocationState row.key.addr

/-! ## Scopes from a source scope -/

/-- The scope that sorts first, for `ORDER BY … LIMIT 1`. -/
def leastScope (before : Scope → Scope → Bool) (scopes : List Scope) : Option Scope :=
  scopes.foldl
    (fun best scope =>
      match best with
      | none => some scope
      | some held => if before scope held then some scope else best)
    none

/-- `firstScopeForSubnets`: `ORDER BY subnet_id, id LIMIT 1`. -/
def Env.firstScopeForSubnets (env : Env) (subnetIds : List Nat) : Option Scope :=
  leastScope (fun scope held => scope.subnetId < held.subnetId ||
      (scope.subnetId = held.subnetId && scope.id < held.id))
    (env.scopes.filter (·.subnetId ∈ subnetIds))

/-- An option in its place among options sorted by code. -/
def insertOption (option : ScopeOption) (options : List ScopeOption) : List ScopeOption :=
  options.orderedInsert (fun left right => left.code ≤ right.code) option

/-- `rebaseScopeTopologyOptions`: mask, router and broadcast follow the network. -/
def rebaseScopeTopologyOptions (options : List ScopeOption) (net : Network)
    (gateway : Option Addr) :
    List ScopeOption :=
  let kept := options.filter fun option => option.code ∉ [1, 3, 28]
  let masked := insertOption
    ⟨1, some (Address.formatIp (maskOf net.bits net.prefixLen) net.bits)⟩ kept
  let routed :=
    match gateway with
    | some addr => insertOption ⟨3, some addr.text⟩ masked
    | none => masked
  insertOption ⟨28, some (addressAt net.family net.lastBig).text⟩ routed

/-- A new scope with its range and its pool. -/
def Env.insertScope (env : Env) (subnetId : Nat) (start stop : Addr) (rangeDescription : Text)
    (scope : Nat → Nat → Scope) : Env :=
  let rangeId := freshId (env.ranges.map (·.id))
  let scopeId := freshId (env.scopes.map (·.id))
  { env with
    ranges := env.ranges ++ [⟨rangeId, subnetId, .dhcpScope, start, stop, some rangeDescription⟩]
    scopes := env.scopes ++ [scope scopeId rangeId]
    pools := env.pools ++ [⟨scopeId, rangeId, start, stop⟩] }

/-- `createDefaultScopeFromSource` for an IPv4 network, with `createAutoScope`. -/
def createDefaultV4Scope (env : Env) (store : IpStore) (source : Scope) (targetId : Nat)
    (net : Network) (gateway : Option Addr) : Except Refusal Env := do
  match ← defaultDhcpPoolForSubnet net gateway with
  | none => .ok env
  | some pool =>
    let start := addressAt .v4 pool.start
    let stop := addressAt .v4 pool.stop
    match env.subnets.byId targetId with
    | none => .error .missingRow
    | some subnet =>
      match dynamicPoolConflict env store subnet gateway start stop with
      | some conflict => .error (.pool conflict)
      | none =>
        .ok (env.insertScope targetId start stop "DHCP scope".toList fun scopeId rangeId =>
          { source with
            id := scopeId
            rangeId := rangeId
            subnetId := targetId
            addressFamily := .v4
            v6Mode := none
            gateway := gateway
            options := rebaseScopeTopologyOptions source.options net gateway })

/-- The description of a DHCPv6 scope's range. -/
def v6RangeDescription : V6Mode → Text
  | .stateful => "DHCPv6 pool".toList
  | .stateless => "DHCPv6 stateless".toList
  | .slaac => "DHCPv6 slaac".toList

/-- `createDefaultV6ScopeFromSource`, with `createAutoScopeV6`. -/
def createDefaultV6Scope (env : Env) (store : IpStore) (source : Scope) (targetId : Nat)
    (net : Network) (gateway : Option Addr) : Except Refusal Env :=
  match defaultV6ScopeForTarget source.v6Mode net gateway with
  | none => .ok env
  | some plan =>
    match env.subnets.byId targetId with
    | none => .error .missingRow
    | some subnet =>
      let conflict :=
        if plan.mode = .stateful then
          dynamicPoolConflict env store subnet subnet.info.gatewayAddress plan.interval.1
            plan.interval.2
        else none
      match conflict with
      | some conflict => .error (.pool conflict)
      | none =>
        .ok (env.insertScope targetId plan.interval.1 plan.interval.2
          (v6RangeDescription plan.mode) fun scopeId rangeId =>
            { id := scopeId
              rangeId := rangeId
              subnetId := targetId
              addressFamily := .v6
              v6Mode := some plan.mode
              leaseTime := source.leaseTime
              enabled := source.enabled
              domainName := source.domainName
              description := source.description
              options := source.options })

/-- `createDefaultScopeFromSource`. -/
def createDefaultScopeFromSource (env : Env) (store : IpStore) (source : Option Scope)
    (targetId : Nat) (net : Network) (gateway : Option Addr) : Except Refusal Env :=
  match source with
  | none => .ok env
  | some source =>
    match net.family with
    | .v6 => createDefaultV6Scope env store source targetId net gateway
    | .v4 => createDefaultV4Scope env store source targetId net gateway

end Cidrella
