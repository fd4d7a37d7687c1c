import Cidrella.SubnetForest

/-!
# Planned scopes

The scope a plan describes for a target and the scope `createDefaultScopeFromSource` makes
come from the same rule (`createDefaultScopeFromSource_spec`), so they differ only where
their sources do. Scopes without a policy conflict agree in all that is compared, which
leaves the DHCPv6 mode (`defaultV6ScopeForTarget_eq_iff`).
-/

set_option autoImplicit false

namespace Cidrella

/-! ## Scopes that sort first -/

section LeastScope

variable {before : Scope → Scope → Bool} {scopes : List Scope}

/-- The loop of `leastScope` ends with the scope it holds or a later one. -/
theorem leastScope_loop (held : Scope) (scopes : List Scope) :
    ∃ scope ∈ held :: scopes, scopes.foldl
      (fun best scope =>
        match best with
        | none => some scope
        | some held => if before scope held then some scope else best) (some held) =
            some scope := by
  induction scopes generalizing held with
  | nil => exact ⟨held, List.mem_singleton_self held, rfl⟩
  | cons first rest ih =>
    rw [List.foldl_cons]
    simp only
    split
    · obtain ⟨scope, member, found⟩ := ih first
      exact ⟨scope, List.mem_cons_of_mem _ member, found⟩
    · obtain ⟨scope, member, found⟩ := ih held
      refine ⟨scope, ?_, found⟩
      rcases List.mem_cons.mp member with rfl | later
      · exact List.mem_cons_self
      · exact List.mem_cons_of_mem _ (List.mem_cons_of_mem _ later)

theorem leastScope_eq_none : leastScope before scopes = none ↔ scopes = [] := by
  cases scopes with
  | nil => simp [leastScope]
  | cons first rest =>
    obtain ⟨scope, -, found⟩ := @leastScope_loop before first rest
    have some : leastScope before (first :: rest) = some scope := found
    simp [some]

theorem mem_of_leastScope {scope : Scope} (found : leastScope before scopes = some scope) :
    scope ∈ scopes := by
  cases scopes with
  | nil => exact absurd found (by simp [leastScope])
  | cons first rest =>
    obtain ⟨other, member, same⟩ := @leastScope_loop before first rest
    obtain rfl : other = scope := Option.some.inj (same.symm.trans found)
    exact member

end LeastScope

namespace Env

variable {env : Env} {ids : List Nat}

theorem chosenScopes (env : Env) (ids : List Nat) :
    (env.lowestScope ids = none ∧ env.firstScopeForSubnets ids = none) ∨
      ∃ planned made, env.lowestScope ids = some planned ∧
        env.firstScopeForSubnets ids = some made ∧ planned ∈ env.scopes.filter (·.subnetId ∈ ids) ∧
        made ∈ env.scopes.filter (·.subnetId ∈ ids) := by
  cases planned : env.lowestScope ids with
  | none =>
    have empty := leastScope_eq_none.mp planned
    exact .inl ⟨rfl, leastScope_eq_none.mpr empty⟩
  | some scope =>
    have member := mem_of_leastScope planned
    cases made : env.firstScopeForSubnets ids with
    | none =>
      rw [leastScope_eq_none.mp made] at member
      exact absurd member List.not_mem_nil
    | some other => exact .inr ⟨scope, other, rfl, rfl, member, mem_of_leastScope made⟩

theorem signature_eq (clean : env.dhcpScopePolicyConflicts ids = []) {left right : Scope}
    (memberLeft : left ∈ env.scopes.filter (·.subnetId ∈ ids))
    (memberRight : right ∈ env.scopes.filter (·.subnetId ∈ ids)) :
    left.signature = right.signature := by
  have few : ((env.scopes.filter (·.subnetId ∈ ids)).map Scope.signature).dedup.length < 2 := by
    by_contra many
    simp [dhcpScopePolicyConflicts, many] at clean
  have one := fun {signature : ScopeSignature} => @List.mem_dedup _ _ signature
    ((env.scopes.filter (·.subnetId ∈ ids)).map Scope.signature)
  have first := one.mpr (List.mem_map_of_mem memberLeft)
  have second := one.mpr (List.mem_map_of_mem memberRight)
  generalize ((env.scopes.filter (·.subnetId ∈ ids)).map Scope.signature).dedup =
    signatures at few first second
  match signatures, few with
  | [], _ => exact absurd first List.not_mem_nil
  | [signature], _ => rw [List.mem_singleton.mp first, List.mem_singleton.mp second]

end Env

/-! ## Default pools of IPv6 networks -/

section V6Pools

variable {net : Network}

theorem low_part_add_lt {host : Nat} (small : host < 2 ^ 32) (inside : host < net.sizeBig) :
    net.networkBig % 2 ^ 32 + host < 2 ^ 32 := by
  have aligned : net.sizeBig ∣ net.networkBig := net.aligned
  by_cases wide : 2 ^ 32 ≤ net.sizeBig
  · have divides : 2 ^ 32 ∣ net.networkBig :=
      ((Nat.pow_dvd_pow_iff_le_right (by decide)).mpr
        ((Nat.pow_le_pow_iff_right (by decide)).mp wide)).trans aligned
    rw [Nat.mod_eq_zero_of_dvd divides]
    omega
  · have divides : net.sizeBig ∣ 2 ^ 32 :=
      (Nat.pow_dvd_pow_iff_le_right (by decide)).mpr
        ((Nat.pow_le_pow_iff_right (by decide)).mp (Nat.le_of_lt (Nat.lt_of_not_le wide)))
    obtain ⟨block, base⟩ := aligned
    obtain ⟨count, whole⟩ := divides
    have positive : 0 < count := Nat.pos_of_ne_zero (by rintro rfl; simp at whole)
    have below : block % count < count := Nat.mod_lt _ positive
    have room : net.sizeBig * (block % count) + net.sizeBig ≤ net.sizeBig * count := by
      rw [← Nat.mul_succ]
      exact Nat.mul_le_mul_left _ below
    rw [base, whole, Nat.mul_mod_mul_left]
    omega

theorem unmapped_host (family : net.family = .v6) {host : Nat} (small : host < 2 ^ 32)
    (inside : host < net.sizeBig) :
    net.networkBig + host < 2 ^ 128 ∧ (net.networkBig + host) / 2 ^ 32 ≠ 0xffff := by
  have bits : net.bits = 128 := by rw [Network.bits, family]; rfl
  constructor
  · have last := net.lastBig_lt
    rw [net.lastBig_eq, bits] at last
    omega
  · have low := low_part_add_lt small inside
    have same : (net.networkBig + host) / 2 ^ 32 = net.networkBig / 2 ^ 32 := by omega
    rw [same]
    exact net.unmapped family

theorem addressAt_host (family : net.family = .v6) {host : Nat} (small : host < 2 ^ 32)
    (inside : host < net.sizeBig) :
    (addressAt .v6 (net.networkBig + host)).value = net.networkBig + host := by
  obtain ⟨fits, unmapped⟩ := unmapped_host family small inside
  rw [addressAt, dif_neg]
  · exact Nat.mod_eq_of_lt fits
  · rwa [Nat.mod_eq_of_lt fits]

theorem addressAt_host_family (family : net.family = .v6) {host : Nat} (small : host < 2 ^ 32)
    (inside : host < net.sizeBig) : (addressAt .v6 (net.networkBig + host)).family = .v6 := by
  obtain ⟨fits, unmapped⟩ := unmapped_host family small inside
  rw [addressAt, dif_neg]
  rwa [Nat.mod_eq_of_lt fits]

theorem poolAround_nonempty {pool : PoolBounds} (two : pool.start < pool.stop) (gateway : Nat) :
    (poolAround pool gateway).start ≤ (poolAround pool gateway).stop := by
  unfold poolAround
  split
  · exact two.le
  split
  · exact two
  split
  · simp only
    omega
  split
  · simp only
    omega
  · simp only
    omega

/-- Every network between a /64 and a /126 has a default pool. -/
theorem defaultDhcpV6PoolForSubnet_isSome (family : net.family = .v6) (long : 64 ≤ net.prefixLen)
    (short : net.prefixLen < 127) (gateway : Option Addr) :
    (defaultDhcpV6PoolForSubnet net gateway).isSome = true := by
  have bits : net.bits = 128 := by rw [Network.bits, family]; rfl
  unfold defaultDhcpV6PoolForSubnet
  rw [if_neg (by simp [family]), if_neg (by simp [bits]; omega)]
  simp only
  generalize sized : (if 0x2000 < net.sizeBig then _ else _ : PoolBounds) = pool
  have two : pool.start < pool.stop := by
    split at sized
    · rename_i large
      rw [← sized, addressAt_host family (by decide) (by omega),
        addressAt_host family (by decide) (by omega)]
      simp
    · rename_i little
      have four : 4 ≤ net.sizeBig := by
        have steps : (2 : Nat) ^ 2 ≤ 2 ^ (net.bits - net.prefixLen) :=
          Nat.pow_le_pow_right (by decide) (by omega)
        exact steps
      have ends : net.reservesEndpoints = true := by
        rw [Network.reservesEndpoints, bits]
        simpa using short
      have last : net.lastUsable = addressAt .v6 (net.networkBig + (net.sizeBig - 1)) := by
        rw [Network.lastUsable, family, net.lastBig_eq, ends]
        rfl
      have first : net.firstUsable = addressAt .v6 (net.networkBig + 1) := by
        rw [Network.firstUsable, family, ends]
        rfl
      rw [← sized, first, last, addressAt_host family (by decide) (by omega),
        addressAt_host family (by omega) (by omega)]
      simp only
      omega
  have shaped : ∀ bounds : PoolBounds, bounds.start ≤ bounds.stop →
      (if bounds.stop < bounds.start then none
        else some (addressAt .v6 bounds.start, addressAt .v6 bounds.stop)).isSome = true := by
    intro bounds ordered
    rw [if_neg (Nat.not_lt.mpr ordered)]
    rfl
  apply shaped
  cases gateway with
  | none => exact two.le
  | some addr =>
    simp only
    split
    · exact poolAround_nonempty two addr.value
    · exact two.le

end V6Pools

/-! ## The scope that is made -/

/-- What a plan says of a scope. -/
structure ScopeFacts where
  enabled : Bool
  leaseTime : Text
  v6Mode : Option V6Mode
  interval : Option (Addr × Addr)
  deriving DecidableEq, Repr

/-- A planned scope. -/
def PlanScope.facts (plan : PlanScope) : ScopeFacts :=
  ⟨plan.enabled, plan.leaseTime, plan.v6Mode, some plan.interval⟩

/-- A stored scope, with the interval of its range. -/
def Env.scopeFacts (env : Env) (scope : Scope) : ScopeFacts :=
  ⟨scope.enabled, scope.leaseTime, scope.v6Mode,
    (env.ranges.find? (·.id = scope.rangeId)).map fun range => (range.startIp, range.endIp)⟩

/-- The scope a network gets from a source scope, as the plan works it out. -/
def scopeFromSource (source : Option Scope) (net : Network) (gateway : Option Addr) :
    Except Refusal (Option PlanScope) :=
  match source with
  | none => .ok none
  | some source => planScope source net gateway

theorem Env.defaultScopesForTarget_eq (env : Env) (ids : List Nat) (net : Network)
    (gateway : Option Addr) :
    env.defaultScopesForTarget ids net gateway = scopeFromSource (env.lowestScope ids) net
    gateway := by
  unfold defaultScopesForTarget scopeFromSource
  cases env.lowestScope ids <;> rfl

theorem Env.insertScope_spec {env after : Env} {subnetId : Nat} {start stop : Addr}
    {description : Text} {scope : Nat → Nat → Scope}
    (isAfter : env.insertScope subnetId start stop description scope = after)
    (ranged : ∀ scopeId rangeId, (scope scopeId rangeId).rangeId = rangeId) :
    ∃ scopeId rangeId, after.scopes = env.scopes ++ [scope scopeId rangeId] ∧
      after.scopeFacts (scope scopeId rangeId) = ⟨(scope scopeId rangeId).enabled,
        (scope scopeId rangeId).leaseTime, (scope scopeId rangeId).v6Mode, some (start, stop)⟩ := by
  subst isAfter
  refine ⟨_, _, rfl, ?_⟩
  have absent : env.ranges.find? (·.id = freshId (env.ranges.map (·.id))) = none := by
    rw [List.find?_eq_none]
    intro range member same
    have inside : range.id ∈ env.ranges.map (·.id) := List.mem_map_of_mem member
    rw [of_decide_eq_true same] at inside
    exact freshId_not_mem _ inside
  simp only [scopeFacts, insertScope, ranged, List.find?_append, absent, Option.none_or,
    List.find?_singleton,
    decide_true, if_true, Option.map_some]

section

variable {source : Scope} {net : Network} {gateway : Option Addr}

theorem planScope_of_v6 (isV6 : net.family = .v6) : planScope source net gateway =
    .ok ((defaultV6ScopeForTarget source.v6Mode net gateway).map fun plan =>
      ⟨source.id, source.enabled, source.leaseTime, some plan.mode, plan.interval⟩) := by
  unfold planScope
  rw [isV6]

theorem planScope_of_v4 (isV4 : net.family = .v4) : planScope source net gateway = (do
    let pool ← defaultDhcpPoolForSubnet net gateway
    .ok (pool.map fun pool => ⟨source.id, source.enabled, source.leaseTime, none,
      (addressAt .v4 pool.start, addressAt .v4 pool.stop)⟩)) := by
  unfold planScope
  rw [isV4]

end

/-- What `createDefaultV6Scope` does. -/
theorem createDefaultV6Scope_spec {env after : Env} {store : IpStore} {source : Scope}
    {targetId : Nat} {net : Network} {gateway : Option Addr} (isV6 : net.family = .v6)
    (done : createDefaultV6Scope env store source targetId net gateway = .ok after) :
    ∃ plan made, planScope source net gateway = .ok plan ∧ after.scopes = env.scopes ++ made ∧
      (∀ scope ∈ made, scope.subnetId = targetId) ∧
      made.map after.scopeFacts = plan.toList.map PlanScope.facts := by
  rw [planScope_of_v6 isV6]
  unfold createDefaultV6Scope at done
  split at done
  · rename_i noPlan
    obtain rfl := Except.ok.inj done
    exact ⟨none, [], by rw [noPlan]; rfl, by simp, by simp, rfl⟩
  · rename_i plan planned
    split at done
    · exact absurd done (by simp)
    · simp only at done
      split at done
      · exact absurd done (by simp)
      · rw [planned]
        obtain ⟨scopeId, rangeId, scopes, facts⟩ := Env.insertScope_spec (Except.ok.inj done)
          (fun _ _ => rfl)
        refine ⟨_, _, rfl, scopes, ?_, ?_⟩
        · intro scope member
          rw [List.mem_singleton.mp member]
        · rw [List.map_singleton, facts]
          rfl

/-- What `createDefaultV4Scope` does. -/
theorem createDefaultV4Scope_spec {env after : Env} {store : IpStore} {source : Scope}
    {targetId : Nat} {net : Network} {gateway : Option Addr} (isV4 : net.family = .v4)
    (done : createDefaultV4Scope env store source targetId net gateway = .ok after) :
    ∃ plan made, planScope source net gateway = .ok plan ∧ after.scopes = env.scopes ++ made ∧
      (∀ scope ∈ made, scope.subnetId = targetId) ∧
      made.map after.scopeFacts = plan.toList.map PlanScope.facts := by
  unfold createDefaultV4Scope at done
  obtain ⟨pool, sized, done⟩ := bind_eq_ok.mp done
  rw [planScope_of_v4 isV4, sized]
  cases pool with
  | none =>
    obtain rfl := Except.ok.inj done
    exact ⟨none, [], rfl, by simp, by simp, rfl⟩
  | some pool =>
    simp only at done
    split at done
    · exact absurd done (by simp)
    · split at done
      · exact absurd done (by simp)
      · obtain ⟨scopeId, rangeId, scopes, facts⟩ := Env.insertScope_spec (Except.ok.inj done)
          (fun _ _ => rfl)
        refine ⟨_, _, rfl, scopes, ?_, ?_⟩
        · intro scope member
          rw [List.mem_singleton.mp member]
        · rw [List.map_singleton, facts]
          rfl

/-- What `createDefaultScopeFromSource` does: it adds the scope that a plan describes for the
same source. -/
theorem createDefaultScopeFromSource_spec {env after : Env} {store : IpStore}
    {source : Option Scope} {targetId : Nat} {net : Network} {gateway : Option Addr}
    (done : createDefaultScopeFromSource env store source targetId net gateway = .ok after) :
    ∃ plan made, scopeFromSource source net gateway = .ok plan ∧ after.scopes = env.scopes ++ made ∧
      (∀ scope ∈ made, scope.subnetId = targetId) ∧
      made.map after.scopeFacts = plan.toList.map PlanScope.facts := by
  cases source with
  | none =>
    obtain rfl := Except.ok.inj done
    exact ⟨none, [], rfl, by simp, by simp, rfl⟩
  | some source =>
    unfold createDefaultScopeFromSource at done
    simp only at done
    split at done
    · rename_i isV6
      exact createDefaultV6Scope_spec isV6 done
    · rename_i isV4
      exact createDefaultV4Scope_spec isV4 done

/-! ## Modes -/

/-- Two DHCPv6 modes make the same scope in a network: a /64 keeps every mode, a longer prefix
only `stateful`, and there is no pool in a /127. -/
def ModesAgree (net : Network) (left right : Option V6Mode) : Prop :=
  (net.prefixLen = 64 → left = right) ∧
    (64 < net.prefixLen → net.prefixLen < 127 → (left = some .stateful ↔ right = some .stateful))

section Modes

variable {net : Network} {gateway : Option Addr}

theorem defaultV6ScopeForTarget_of_short (short : net.prefixLen < 64) (mode : Option V6Mode) :
    defaultV6ScopeForTarget mode net gateway = none := by
  cases mode with
  | none => rfl
  | some mode =>
    have none : mode ∉ dhcpV6ModesFor net.prefixLen := by
      rw [dhcpV6ModesFor, if_neg (by omega), if_neg (by omega)]
      exact List.not_mem_nil
    simp [defaultV6ScopeForTarget, none]

theorem defaultV6ScopeForTarget_mode (family : net.family = .v6) (whole : net.prefixLen = 64)
    (mode : Option V6Mode) :
    (defaultV6ScopeForTarget mode net gateway).map V6ScopePlan.mode = mode := by
  cases mode with
  | none => rfl
  | some mode =>
    have allowed : mode ∈ dhcpV6ModesFor net.prefixLen := by
      rw [dhcpV6ModesFor, if_pos whole]
      cases mode <;> decide
    rw [defaultV6ScopeForTarget]
    simp only [allowed, not_true_eq_false, if_false]
    split
    · rfl
    · rename_i stateful
      obtain ⟨pool, found⟩ := Option.isSome_iff_exists.mp
        (defaultDhcpV6PoolForSubnet_isSome family whole.ge (by omega) gateway)
      rw [found, Decidable.not_not.mp stateful]
      rfl

/-- A longer prefix has a scope for `stateful` alone. -/
theorem defaultV6ScopeForTarget_of_long (long : 64 < net.prefixLen) (mode : Option V6Mode) :
    defaultV6ScopeForTarget mode net gateway =
      if mode = some .stateful then (defaultDhcpV6PoolForSubnet net gateway).map fun pool =>
        ⟨.stateful, pool⟩
      else none := by
  cases mode with
  | none => rfl
  | some mode =>
    have modes : dhcpV6ModesFor net.prefixLen = [.stateful] := by
      rw [dhcpV6ModesFor, if_neg (by omega), if_pos long]
    rw [defaultV6ScopeForTarget]
    simp only [modes]
    cases mode <;> rfl

theorem defaultDhcpV6PoolForSubnet_of_pair (family : net.family = .v6)
    (pair : 127 ≤ net.prefixLen) :
    defaultDhcpV6PoolForSubnet net gateway = none := by
  have bits : net.bits = 128 := by rw [Network.bits, family]; rfl
  rw [defaultDhcpV6PoolForSubnet, if_neg (by simp [family]), if_pos (by simp [bits, pair])]

theorem defaultV6ScopeForTarget_eq_iff (family : net.family = .v6) {left right : Option V6Mode} :
    defaultV6ScopeForTarget left net gateway = defaultV6ScopeForTarget right net gateway ↔
      ModesAgree net left right := by
  rcases Nat.lt_trichotomy net.prefixLen 64 with short | whole | long
  · refine iff_of_true ?_ ⟨fun whole => by omega, fun long => by omega⟩
    rw [defaultV6ScopeForTarget_of_short short, defaultV6ScopeForTarget_of_short short]
  · constructor
    · intro same
      refine ⟨fun _ => ?_, fun long => by omega⟩
      rw [← @defaultV6ScopeForTarget_mode net gateway family whole left, same,
        defaultV6ScopeForTarget_mode family whole]
    · intro agree
      rw [agree.1 whole]
  · rw [defaultV6ScopeForTarget_of_long long, defaultV6ScopeForTarget_of_long long]
    by_cases pair : 127 ≤ net.prefixLen
    · refine iff_of_true ?_ ⟨fun whole => by omega, fun _ short => by omega⟩
      simp [defaultDhcpV6PoolForSubnet_of_pair family pair]
    · obtain ⟨pool, found⟩ := Option.isSome_iff_exists.mp
        (defaultDhcpV6PoolForSubnet_isSome family long.le (Nat.lt_of_not_le pair) gateway)
      rw [found]
      constructor
      · intro same
        refine ⟨fun whole => by omega, fun _ _ => ?_⟩
        by_cases isLeft : left = some .stateful
        · by_cases isRight : right = some .stateful
          · exact iff_of_true isLeft isRight
          · simp [isLeft, isRight] at same
        · by_cases isRight : right = some .stateful
          · simp [isLeft, isRight] at same
          · exact iff_of_false isLeft isRight
      · intro agree
        have both := agree.2 long (Nat.lt_of_not_le pair)
        simp only [both]

end Modes

end Cidrella
