import Cidrella.NetworkRelations
import Cidrella.TransformationPlan

/-!
# Planned gateways

The gateway `buildDividePlan` gives each target. A gateway that is the first or the last
usable address of its target is usable, and a custom one that the operator gives for a
target is checked. A custom gateway that a target inherits from the parent is only tested
to lie in the target: when the parent's gateway becomes the network or broadcast address
of a child, the plan keeps it.

`planned_gateways_usable_iff` says that this is the only way: the planned gateways are
usable exactly when the network of the divide that holds the parent's custom gateway does
not have it as one of its topology addresses, or has a gateway of its own.
-/

set_option autoImplicit false

namespace Cidrella

open Network

/-- An address of the network that topology does not keep for itself. -/
def UsableIn (net : Network) (addr : Addr) : Prop :=
  net.contains addr = true ∧ addr ∉ net.topologyAddresses

instance (net : Network) (addr : Addr) : Decidable (UsableIn net addr) :=
  inferInstanceAs (Decidable (_ ∧ _))

/-! ## Addresses of a network -/

theorem addressAt_of_hasValue {net : Network} (avoids : net.AvoidsMapped) {value : Nat}
    (inside : net.HasValue value) :
    (addressAt net.family value).family = net.family ∧
    (addressAt net.family value).value = value := by
  have fits : value < 2 ^ net.family.bits := lt_of_le_of_lt inside.2 net.lastBig_lt
  have back := addressAt_value
    ⟨net.family, value, fits, fun six => avoids.unmapped_value six inside⟩
  simp only at back
  rw [back]
  exact ⟨rfl, rfl⟩

/-- What topology keeps: the ends of a network, the upper one on IPv4 only, and neither on
point-to-point and host prefixes. -/
theorem mem_topologyAddresses_iff {net : Network} (avoids : net.AvoidsMapped) {addr : Addr} :
    addr ∈ net.topologyAddresses ↔
      net.prefixLen < net.bits - 1 ∧ addr.family = net.family ∧
        (addr.value = net.networkBig ∨ (net.family = .v4 ∧ addr.value = net.lastBig)) := by
  have low := addressAt_of_hasValue avoids ⟨le_rfl, net.networkBig_le_lastBig⟩
  have high := addressAt_of_hasValue avoids ⟨net.networkBig_le_lastBig, le_rfl⟩
  have same : ∀ value, net.HasValue value →
      (addr = addressAt net.family value ↔ addr.family = net.family ∧ addr.value = value) := by
    intro value inside
    obtain ⟨family, read⟩ := addressAt_of_hasValue avoids inside
    constructor
    · rintro rfl
      exact ⟨family, read⟩
    · rintro ⟨family', value'⟩
      exact Addr.eq_of_value_eq (family'.trans family.symm) (value'.trans read.symm)
  have first := same net.networkBig ⟨le_rfl, net.networkBig_le_lastBig⟩
  have last := same net.lastBig ⟨net.networkBig_le_lastBig, le_rfl⟩
  unfold topologyAddresses
  by_cases short : net.bits - 1 ≤ net.prefixLen
  · rw [if_pos short]
    simp [Nat.not_lt.mpr short]
  · rw [if_neg short]
    have reserves : net.prefixLen < net.bits - 1 := Nat.lt_of_not_le short
    cases family : net.family with
    | v4 =>
      rw [family] at first last
      simp only [List.mem_cons, List.not_mem_nil, or_false, first, last, reserves, true_and]
      tauto
    | v6 =>
      rw [family] at first
      simp [first, reserves]

theorem four_le_sizeBig {net : Network} (reserves : net.prefixLen < net.bits - 1) :
    4 ≤ net.sizeBig := by
  have power : 2 ^ 2 ≤ 2 ^ (net.bits - net.prefixLen) :=
    Nat.pow_le_pow_right (by decide) (by omega)
  exact power

theorem firstUsable_usable {net : Network} (avoids : net.AvoidsMapped) :
    UsableIn net net.firstUsable := by
  have reach := net.networkBig_le_lastBig
  by_cases reserves : net.prefixLen < net.bits - 1
  · have four := four_le_sizeBig reserves
    have last := net.lastBig_eq
    obtain ⟨family, value⟩ := @addressAt_of_hasValue net avoids (net.networkBig + 1)
      ⟨Nat.le_succ _, by omega⟩
    have first : net.firstUsable = addressAt net.family (net.networkBig + 1) := by
      rw [firstUsable, reservesEndpoints, decide_eq_true reserves, if_pos rfl]
    rw [first]
    refine ⟨contains_iff.mpr ⟨family, ?_⟩, ?_⟩
    · rw [value]
      exact ⟨Nat.le_succ _, by omega⟩
    · rw [mem_topologyAddresses_iff avoids, value]
      omega
  · obtain ⟨family, value⟩ := @addressAt_of_hasValue net avoids net.networkBig ⟨le_rfl, reach⟩
    have first : net.firstUsable = addressAt net.family net.networkBig := by
      rw [firstUsable, reservesEndpoints, decide_eq_false reserves, if_neg Bool.false_ne_true]
    rw [first]
    refine ⟨contains_iff.mpr ⟨family, ?_⟩, ?_⟩
    · rw [value]
      exact ⟨le_rfl, reach⟩
    · rw [mem_topologyAddresses_iff avoids]
      exact fun kept => reserves kept.1

theorem lastUsable_usable {net : Network} (avoids : net.AvoidsMapped) :
    UsableIn net net.lastUsable := by
  have reach := net.networkBig_le_lastBig
  have last := net.lastBig_eq
  by_cases steps : net.prefixLen < net.bits - 1 ∧ net.family = .v4
  · have four := four_le_sizeBig steps.1
    obtain ⟨family, value⟩ := @addressAt_of_hasValue net avoids (net.lastBig - 1)
      ⟨by omega, Nat.sub_le _ _⟩
    have final : net.lastUsable = addressAt net.family (net.lastBig - 1) := by
      rw [lastUsable, reservesEndpoints, decide_eq_true steps.1, decide_eq_true steps.2]
      rfl
    rw [final]
    refine ⟨contains_iff.mpr ⟨family, ?_⟩, ?_⟩
    · rw [value]
      exact ⟨by omega, Nat.sub_le _ _⟩
    · rw [mem_topologyAddresses_iff avoids, value]
      omega
  · obtain ⟨family, value⟩ := @addressAt_of_hasValue net avoids net.lastBig ⟨reach, le_rfl⟩
    have final : net.lastUsable = addressAt net.family net.lastBig := by
      have stays : ¬ (net.reservesEndpoints && net.family = .v4) = true := by
        simpa [reservesEndpoints] using steps
      rw [lastUsable, if_neg stays]
    rw [final]
    refine ⟨contains_iff.mpr ⟨family, ?_⟩, ?_⟩
    · rw [value]
      exact ⟨reach, le_rfl⟩
    · rw [mem_topologyAddresses_iff avoids, value]
      rintro ⟨reserves, -, atStart | ⟨four, -⟩⟩
      · have four := four_le_sizeBig reserves
        omega
      · exact steps ⟨reserves, four⟩

/-! ## The gateway of a target -/

theorem resolveGatewayAddress_usable {net : Network} (avoids : net.AvoidsMapped)
    {policy : GatewayPolicy} {addr : Addr} (done : resolveGatewayAddress net policy none =
    some addr) :
    UsableIn net addr := by
  cases policy with
  | none => cases done
  | custom => cases done
  | first =>
    obtain rfl := Option.some.inj done
    exact firstUsable_usable avoids
  | last =>
    obtain rfl := Option.some.inj done
    exact lastUsable_usable avoids

theorem overriddenGateway_usable {net : Network} (avoids : net.AvoidsMapped)
    {override : GatewayOverride} {gateway : PlanGateway}
    (done : overriddenGateway net override = .ok gateway) {addr : Addr}
    (has : gateway.address = some addr) : UsableIn net addr := by
  unfold overriddenGateway at done
  split at done
  · cases done
  · split at done
    · cases done
    · split at done
      · cases done
      · rename_i checked
        obtain rfl := Except.ok.inj done
        obtain rfl := Option.some.inj has
        simp only [Bool.or_eq_true, Bool.not_eq_true', decide_eq_true_eq, not_or,
          Bool.not_eq_false] at checked
        exact checked
  · obtain rfl := Except.ok.inj done
    exact resolveGatewayAddress_usable avoids has

/-- The gateway of a target is usable, unless it is the parent's custom gateway and a
topology address of the target. -/
theorem targetGateway_usable_iff {parent : SubnetInfo} {net : Network} (avoids : net.AvoidsMapped)
    {override : Option GatewayOverride} {gateway : PlanGateway}
    (done : targetGateway parent net override = .ok gateway) :
    (∀ addr, gateway.address = some addr → UsableIn net addr) ↔
      (override = none → parent.gatewayPolicy = .custom → ∀ addr,
        parent.gatewayAddress = some addr → net.contains addr = true →
        addr ∉ net.topologyAddresses) := by
  cases override with
  | some override =>
    refine iff_of_true (fun addr has => overriddenGateway_usable avoids done has) ?_
    intro absent
    cases absent
  | none =>
    simp only [targetGateway] at done
    by_cases custom : parent.gatewayPolicy = .custom
    · rw [if_pos custom] at done
      cases stored : parent.gatewayAddress with
      | none =>
        rw [stored, Option.filter_none] at done
        obtain rfl := Except.ok.inj done
        refine iff_of_true (fun addr has => ?_) fun _ _ addr has => ?_
        · cases has
        · cases has
      | some addr =>
        by_cases inside : net.contains addr = true
        · rw [stored, Option.filter_some, if_pos inside] at done
          obtain rfl := Except.ok.inj done
          constructor
          · intro usable _ _ other same _
            obtain rfl := Option.some.inj same
            exact (usable addr rfl).2
          · intro clear other same
            obtain rfl := Option.some.inj same
            exact ⟨inside, clear rfl custom addr rfl inside⟩
        · rw [stored, Option.filter_some, if_neg inside] at done
          obtain rfl := Except.ok.inj done
          refine iff_of_true (fun other has => ?_) fun _ _ other same within => ?_
          · cases has
          · obtain rfl := Option.some.inj same
            exact absurd within inside
    · rw [if_neg custom] at done
      obtain rfl := Except.ok.inj done
      refine iff_of_true (fun addr has => resolveGatewayAddress_usable avoids has) ?_
      intro _ same
      exact absurd same custom

/-! ## The gateways of a plan -/

theorem within_of_divideNetworks {parent : Network} (avoids : parent.AvoidsMapped)
    {mode : DivideMode} {nets : List Network} (done : divideNetworks parent mode = .ok nets) :
    ∀ net ∈ nets, net.isWithin parent = true := by
  have step : ∀ {α : Type} {x : Except CidrError α} {value : α},
      cidrStep x = .ok value → x = .ok value := by
    intro α x value same
    cases x with
    | ok result => exact congrArg Except.ok (Except.ok.inj same)
    | error error => cases same
  cases mode with
  | equal newPrefix =>
    have split := step done
    exact (splitNetwork_partitions avoids split).within
  | carve cidr =>
    simp only [divideNetworks] at done
    split at done
    · cases done
    · rename_i child read
      obtain ⟨remainder, cut, same⟩ := bind_eq_ok.mp done
      obtain rfl := Except.ok.inj same
      exact (subtractNetwork_partitions avoids (step cut)).within

/-- The parent's custom gateway is no topology address of the network of the divide that
holds it, or that network has a gateway of its own. -/
def GatewayClear (parent : SubnetRow) (mode : DivideMode) (overrides : List GatewayOverride) :
    Prop :=
  parent.info.gatewayPolicy = .custom → ∀ addr, parent.info.gatewayAddress = some addr →
    ∀ nets, divideNetworks parent.key mode = .ok nets → ∀ net ∈ nets, net.contains addr = true →
      (∀ override ∈ overrides, override.cidr ≠ net.cidr) → addr ∉ net.topologyAddresses

theorem override_eq_none_iff {overrides : List GatewayOverride} {net : Network} :
    overrides.reverse.find? (·.cidr = net.cidr) = none ↔
      ∀ override ∈ overrides, override.cidr ≠ net.cidr := by
  simp only [List.find?_eq_none, List.mem_reverse, decide_eq_true_eq, ne_eq]

theorem targets_of_buildDividePlan {db : Db} {now : Nat} {parent : SubnetRow} {mode : DivideMode}
    {selectedCidrs : List Text} {overrides : List GatewayOverride} {plan : Plan}
    (done : db.buildDividePlan now parent mode selectedCidrs overrides = .ok plan) :
    ∃ nets, divideNetworks parent.key mode = .ok nets ∧
      List.Forall₂ (fun net (target : PlanTarget) => target.net = net ∧
        targetGateway parent.info net (overrides.reverse.find? (·.cidr = net.cidr)) =
          .ok target.gateway) nets plan.targets := by
  unfold Db.buildDividePlan at done
  obtain ⟨nets, cut, done⟩ := bind_eq_ok.mp done
  refine ⟨nets, cut, ?_⟩
  split at done
  · cases done
  split at done
  · cases done
  obtain ⟨targets, built, same⟩ := bind_eq_ok.mp done
  obtain rfl := Except.ok.inj same
  refine (forall₂_of_mapM built).imp fun net target made => ?_
  unfold Env.divideTarget at made
  obtain ⟨gateway, given, made⟩ := bind_eq_ok.mp made
  obtain ⟨scope, -, same⟩ := bind_eq_ok.mp made
  obtain rfl := Except.ok.inj same
  exact ⟨rfl, given⟩

/-- **The planned gateways are usable exactly when the parent's custom gateway is clear.**
For a parent that does not reach into `::ffff:0:0/96`, as no stored network does. -/
theorem planned_gateways_usable_iff {db : Db} {now : Nat} {parent : SubnetRow} {mode : DivideMode}
    {selectedCidrs : List Text} {overrides : List GatewayOverride} {plan : Plan}
    (avoids : parent.key.AvoidsMapped)
    (done : db.buildDividePlan now parent mode selectedCidrs overrides = .ok plan) :
    (∀ target ∈ plan.targets, ∀ addr, target.gateway.address = some addr → UsableIn target.net addr)
      ↔ GatewayClear parent mode overrides := by
  obtain ⟨nets, cut, targets⟩ := targets_of_buildDividePlan done
  have avoidsEach : ∀ net ∈ nets, net.AvoidsMapped := by
    intro net member
    obtain ⟨family, low, high, -⟩ :=
      isWithin_iff.mp (within_of_divideNetworks avoids cut net member)
    exact avoids.of_subset family low high
  have each : ∀ {nets : List Network} {targets : List PlanTarget},
      (∀ net ∈ nets, net.AvoidsMapped) →
      List.Forall₂ (fun net (target : PlanTarget) => target.net = net ∧
        targetGateway parent.info net (overrides.reverse.find? (·.cidr = net.cidr)) =
          .ok target.gateway) nets targets →
      ((∀ target ∈ targets, ∀ addr, target.gateway.address = some addr → UsableIn target.net addr) ↔
        ∀ net ∈ nets, overrides.reverse.find? (·.cidr = net.cidr) = none →
          parent.info.gatewayPolicy = .custom → ∀ addr, parent.info.gatewayAddress = some addr →
            net.contains addr = true → addr ∉ net.topologyAddresses) := by
    intro nets targets avoidsAll all
    induction all with
    | nil => simp
    | cons made _ ih =>
      obtain ⟨rfl, given⟩ := made
      obtain ⟨avoidsFirst, avoidsRest⟩ := List.forall_mem_cons.mp avoidsAll
      rw [List.forall_mem_cons, List.forall_mem_cons, ih avoidsRest,
        targetGateway_usable_iff avoidsFirst given]
  rw [each avoidsEach targets]
  constructor
  · intro clear custom addr stored others cut' net member inside free
    obtain rfl : nets = others := Except.ok.inj (cut.symm.trans cut')
    exact clear net member (override_eq_none_iff.mpr free) custom addr stored inside
  · intro clear net member free custom addr stored inside
    exact clear custom addr stored nets cut net member inside (override_eq_none_iff.mp free)

/-! ## A gateway at the split point -/

/-- A database with nothing in it. -/
def bareDb : Db where
  env :=
    { subnets := .empty
      scopes := []
      pools := []
      reservations := []
      leases := []
      records := []
      zones := []
      settings := ⟨none, none, true⟩
      vendorHostname := fun _ => none }
  store := .empty

/-- The network `10.0.0.0/24`. -/
def tenNet : Network where
  family := .v4
  networkBig := 0x0a000000
  prefixLen := 24
  prefix_le := Network.ten_prefix_le_24
  aligned := Network.ten_aligned_24
  fits := Network.ten_fits
  unmapped := Network.ten_unmapped

/-- The network `10.0.0.0/24` with a custom gateway. -/
def tenSubnet (gateway : Nat) : SubnetRow where
  id := 1
  key := tenNet
  info := { status := .allocated, gatewayPolicy := .custom, gatewayAddress := some (addressAt .v4
    gateway) }

/-- Divided in two, the network with the gateway `10.0.0.127` keeps it: the broadcast
address of its lower half. -/
theorem inherited_gateway_is_broadcast :
    ¬ ∀ (db : Db) (now : Nat) (parent : SubnetRow) (mode : DivideMode) (selectedCidrs : List Text)
      (overrides : List GatewayOverride) (plan : Plan), parent.key.AvoidsMapped →
      (∀ addr, parent.info.gatewayAddress = some addr → UsableIn parent.key addr) →
      db.buildDividePlan now parent mode selectedCidrs overrides = .ok plan →
      ∀ target ∈ plan.targets, ∀ addr, target.gateway.address = some addr →
      UsableIn target.net addr := by
  intro usable
  have own : ∀ addr, (tenSubnet 0x0a00007f).info.gatewayAddress = some addr →
      UsableIn (tenSubnet 0x0a00007f).key addr := by
    intro addr stored
    obtain rfl := Option.some.inj stored
    decide
  obtain ⟨plan, built, target, member, broadcast⟩ : ∃ plan,
      bareDb.buildDividePlan 0 (tenSubnet 0x0a00007f) (.equal 25) [] [] = .ok plan ∧
      ∃ target ∈ plan.targets, target.gateway.address = some (addressAt .v4 0x0a00007f) ∧
        ¬ UsableIn target.net (addressAt .v4 0x0a00007f) :=
    ⟨_, rfl, _, List.mem_cons_self, by decide, by decide⟩
  exact broadcast.2 (usable bareDb 0 _ (.equal 25) [] [] plan (by decide) own built target member _
    broadcast.1)

theorem planned_gateways_usable_with_override :
    ∃ plan, bareDb.buildDividePlan 0 (tenSubnet 0x0a00007f) (.equal 25) []
        [⟨"10.0.0.0/25".toList, some .first, none⟩] = .ok plan ∧
      ((∀ target ∈ plan.targets, ∀ addr, target.gateway.address = some addr →
        UsableIn target.net addr) ↔ GatewayClear (tenSubnet 0x0a00007f) (.equal 25)
          [⟨"10.0.0.0/25".toList, some .first, none⟩]) := by
  have avoids : (tenSubnet 0x0a00007f).key.AvoidsMapped := by decide
  obtain ⟨plan, built⟩ : ∃ plan, bareDb.buildDividePlan 0 (tenSubnet 0x0a00007f) (.equal 25) []
      [⟨"10.0.0.0/25".toList, some .first, none⟩] = .ok plan := ⟨_, rfl⟩
  exact ⟨plan, built, planned_gateways_usable_iff avoids built⟩

end Cidrella
