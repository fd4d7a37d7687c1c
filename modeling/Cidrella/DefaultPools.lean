import Cidrella.PlannedGateways
import Cidrella.ScopePlans

/-!
# Default pools

The pool a network gets when nobody chooses one. A pool is `Servable` when it is a
nonempty interval of host addresses of the network without the gateway, so that the
system and gateway checks of `dynamicPoolConflict` let it pass.

The IPv6 default is shaped around the gateway wherever the gateway stands, and is always
servable. The IPv4 default steps past a gateway at either end and leaves one in the
middle where it is: `default_pools_servable_iff` says that this is the only way to get a
pool that cannot be served. Where the middle is follows from the size of the network
alone (`sizedPool_eq`).
-/

set_option autoImplicit false

namespace Cidrella

open Network

/-- A pool of a network with a gateway that can be served. -/
structure Servable (net : Network) (gateway : Option Addr) (start stop : Addr) : Prop where
  families : start.family = net.family ∧ stop.family = net.family
  nonempty : start.value ≤ stop.value
  hosts : ∀ addr, addressInRange addr start stop = true →
    net.contains addr = true ∧ addr.value ≠ net.networkBig ∧
      (net.family = .v4 → addr.value ≠ net.lastBig)
  withoutGateway : ∀ addr, gateway = some addr → addressInRange addr start stop = false
  checks : ∀ (env : Env) (store : IpStore) (subnet : SubnetRow), subnet.key = net →
    ∀ addr, dynamicPoolConflict env store subnet gateway start stop ≠ some (.system addr) ∧
      dynamicPoolConflict env store subnet gateway start stop ≠ some (.gateway addr)

theorem addressInRange_iff {addr start stop : Addr} : addressInRange addr start stop = true ↔
    addr.family = start.family ∧ start.value ≤ addr.value ∧ addr.value ≤ stop.value := by
  simp only [addressInRange, Bool.and_eq_true, decide_eq_true_eq]
  tauto

/-- An interval strictly above the network address, not beyond the last host address, and
without the gateway, is servable. -/
theorem servable_of_bounds {net : Network} {gateway : Option Addr} {start stop : Addr}
    (families : start.family = net.family ∧ stop.family = net.family)
    (nonempty : start.value ≤ stop.value) (above : net.networkBig < start.value)
    (below : stop.value ≤ net.lastBig) (broadcast : net.family = .v4 → stop.value < net.lastBig)
    (free : ∀ addr, gateway = some addr → addressInRange addr start stop = false) :
    Servable net gateway start stop where
  families := families
  nonempty := nonempty
  hosts := by
    intro addr inside
    obtain ⟨family, low, high⟩ := addressInRange_iff.mp inside
    refine ⟨contains_iff.mpr ⟨family.trans families.1, by omega, by omega⟩, by omega,
      fun four => ?_⟩
    have := broadcast four
    omega
  withoutGateway := free
  checks := by
    rintro env store subnet rfl addr
    have belowHosts : ¬ (start.family ≠ subnet.key.family ||
        start.value ≤ subnet.key.networkBig) = true := by
      simp only [families.1, ne_eq, not_true_eq_false, decide_false, Bool.false_or,
        decide_eq_true_eq, Nat.not_le]
      exact above
    have aboveHosts : ¬ (stop.family ≠ subnet.key.family || subnet.key.lastBig < stop.value ||
        (subnet.key.family = .v4 && subnet.key.lastBig ≤ stop.value)) = true := by
      simp only [families.2, ne_eq, not_true_eq_false, decide_false, Bool.false_or,
        Bool.or_eq_true, Bool.and_eq_true, decide_eq_true_eq, not_or, not_and,
        Nat.not_le, Nat.not_lt]
      exact ⟨below, broadcast⟩
    have gatewayFree : gateway.filter (addressInRange · start stop) = none := by
      rw [Option.filter_eq_none_iff]
      intro held same
      rw [free held same]
      exact Bool.false_ne_true
    unfold dynamicPoolConflict
    dsimp only
    rw [if_neg belowHosts, if_neg aboveHosts, gatewayFree]
    dsimp only
    split
    · exact ⟨by simp, by simp⟩
    · cases protectedInPool store subnet.id start stop with
      | none => exact ⟨by simp, by simp⟩
      | some row => exact ⟨by simp, by simp⟩

/-! ## The IPv4 default -/

/-- The ends of the default pool, counted from the network address. -/
def poolOffsets (net : Network) : Nat × Nat :=
  if 21 ≤ net.prefixLen ∧ net.prefixLen ≤ 23 then (65, 128)
  else if net.prefixLen = 29 then (1, 2)
  else (net.sizeBig / 8 + 1, net.sizeBig / 4)

/-- A gateway strictly between the ends of the default IPv4 pool. -/
def GatewayInMiddle (net : Network) (addr : Addr) : Prop :=
  net.family = .v4 ∧ 16 ≤ net.prefixLen ∧ net.prefixLen ≤ 29 ∧
    net.networkBig + (poolOffsets net).1 < addr.value ∧
    addr.value < net.networkBig + (poolOffsets net).2

theorem sizeBig_of_v4 {net : Network} (four : net.family = .v4) :
    net.sizeBig = 2 ^ (32 - net.prefixLen) := by
  rw [sizeBig, bits, four]
  rfl

theorem sizedPool_eq {net : Network} (four : net.family = .v4) (long : 16 ≤ net.prefixLen)
    (short : net.prefixLen ≤ 29) :
    sizedPool net = ⟨net.networkBig + (poolOffsets net).1, net.networkBig + (poolOffsets net).2⟩ ∧
      0 < (poolOffsets net).1 ∧ (poolOffsets net).1 < (poolOffsets net).2 ∧
      net.networkBig + (poolOffsets net).2 < net.lastBig := by
  have last := net.lastBig_eq
  have size := sizeBig_of_v4 four
  unfold sizedPool poolOffsets
  generalize net.prefixLen = len at long short size ⊢
  rw [last, size]
  generalize net.networkBig = base
  have sizes : ∀ len, 16 ≤ len → len ≤ 29 →
      nearestPow2 (2 ^ (32 - len) * 35) 100 = 2 ^ (32 - len) / 4 ∧
      max 2 (nearestPow2 (2 ^ (32 - len) * 15) 100) = max 2 (2 ^ (32 - len) / 8) := by
    decide
  obtain ⟨large, small⟩ := sizes len long short
  rw [large, small]
  interval_cases len <;> simp

theorem defaultDhcpPoolForSubnet_eq {net : Network} (four : net.family = .v4)
    (long : 16 ≤ net.prefixLen) (short : net.prefixLen ≤ 29) {gateway : Option Addr}
    (usable : ∀ addr, gateway = some addr → UsableIn net addr) :
    defaultDhcpPoolForSubnet net gateway =
      .ok
        (if gateway.map (·.value) = some (sizedPool net).start then
          some ⟨(sizedPool net).start + 1, (sizedPool net).stop⟩
        else if gateway.map (·.value) = some (sizedPool net).stop then
          some ⟨(sizedPool net).start, (sizedPool net).stop - 1⟩
        else some (sizedPool net)) := by
  obtain ⟨bounds, -, order, -⟩ := sizedPool_eq four long short
  have less : (sizedPool net).start < (sizedPool net).stop := by
    rw [bounds]
    simp only
    omega
  have range : ¬ (net.prefixLen < 16 || 29 < net.prefixLen) = true := by
    simp only [Bool.or_eq_true, decide_eq_true_eq, not_or, Nat.not_lt]
    exact ⟨long, short⟩
  rw [defaultDhcpPoolForSubnet, if_neg (not_not.mpr four), if_neg range]
  generalize sizedPool net = pool at less
  cases gateway with
  | none =>
    simp only [Option.map_none, bind, Except.bind, reduceCtorEq, if_false, less.le, if_true]
  | some addr =>
    have family : addr.family = .v4 := (contains_iff.mp (usable addr rfl).1).1.trans four
    simp only [Option.map_some, bind, Except.bind, family, if_true, Option.some.injEq]
    by_cases atStart : addr.value = pool.start
    · simp only [atStart, if_true, Nat.succ_le_of_lt less]
    · by_cases atStop : addr.value = pool.stop
      · have stops : pool.start ≤ pool.stop - 1 := Nat.le_sub_one_of_lt less
        have apart : ¬ pool.stop = pool.start := less.ne'
        simp only [atStop, apart, if_true, if_false, stops]
      · simp only [atStart, atStop, if_false, less.le, if_true]

/-- An IPv4 pool between the ends of a network is servable exactly without the gateway. -/
theorem servable_v4_iff {net : Network} (four : net.family = .v4) {gateway : Option Addr}
    (usable : ∀ addr, gateway = some addr → UsableIn net addr) {pool : PoolBounds}
    (above : net.networkBig < pool.start) (order : pool.start ≤ pool.stop)
    (below : pool.stop < net.lastBig) :
    Servable net gateway (addressAt .v4 pool.start) (addressAt .v4 pool.stop) ↔
      ∀ addr, gateway = some addr → ¬ (pool.start ≤ addr.value ∧ addr.value ≤ pool.stop) := by
  have top : net.lastBig < 2 ^ 32 := by
    have bound := net.lastBig_lt
    rwa [bits, four] at bound
  have start : (addressAt .v4 pool.start).value = pool.start := Nat.mod_eq_of_lt (by omega)
  have stop : (addressAt .v4 pool.stop).value = pool.stop := Nat.mod_eq_of_lt (by omega)
  have inRange : ∀ addr, gateway = some addr →
      (addressInRange addr (addressAt .v4 pool.start) (addressAt .v4 pool.stop) = true ↔
        pool.start ≤ addr.value ∧ addr.value ≤ pool.stop) := by
    intro addr held
    have family : addr.family = .v4 := (contains_iff.mp (usable addr held).1).1.trans four
    rw [addressInRange_iff, start, stop, family]
    exact ⟨fun inside => inside.2, fun inside => ⟨rfl, inside⟩⟩
  constructor
  · intro served addr held inside
    have free := served.withoutGateway addr held
    rw [(inRange addr held).mpr inside] at free
    cases free
  · intro clear
    refine servable_of_bounds ⟨four.symm, four.symm⟩ (by omega) (by omega) (by omega)
      (fun _ => by omega) fun addr held => ?_
    rw [Bool.eq_false_iff, ne_eq, inRange addr held]
    exact clear addr held

/-- **The default IPv4 pool is servable unless the gateway stands in its middle.** -/
theorem default_v4_servable_iff {net : Network} {gateway : Option Addr}
    (usable : ∀ addr, gateway = some addr → UsableIn net addr) {pool : PoolBounds}
    (done : defaultDhcpPoolForSubnet net gateway = .ok (some pool)) :
    Servable net gateway (addressAt .v4 pool.start) (addressAt .v4 pool.stop) ↔
      ∀ addr, gateway = some addr → ¬ GatewayInMiddle net addr := by
  by_cases sized : net.family = .v4 ∧ 16 ≤ net.prefixLen ∧ net.prefixLen ≤ 29
  · obtain ⟨four, long, short⟩ := sized
    obtain ⟨bounds, positive, order, below⟩ := sizedPool_eq four long short
    have middle : ∀ addr, GatewayInMiddle net addr ↔
        (sizedPool net).start < addr.value ∧ addr.value < (sizedPool net).stop := by
      intro addr
      rw [bounds]
      exact ⟨fun inside => inside.2.2.2, fun inside => ⟨four, long, short, inside⟩⟩
    rw [defaultDhcpPoolForSubnet_eq four long short usable] at done
    have starts : (sizedPool net).start = net.networkBig + (poolOffsets net).1 := by rw [bounds]
    have stops : (sizedPool net).stop = net.networkBig + (poolOffsets net).2 := by rw [bounds]
    simp only [middle]
    cases gateway with
    | none =>
      simp only [Option.map_none, reduceCtorEq, if_false] at done
      obtain rfl := Option.some.inj (Except.ok.inj done)
      rw [servable_v4_iff four usable (by omega) (by omega) (by omega)]
      exact iff_of_true (fun addr held => by cases held) fun addr held => by cases held
    | some gateway =>
      simp only [Option.map_some, Option.some.injEq] at done
      by_cases atStart : gateway.value = (sizedPool net).start
      · rw [if_pos atStart] at done
        obtain rfl := Option.some.inj (Except.ok.inj done)
        rw [servable_v4_iff four usable (by simp only; omega) (by simp only; omega)
          (by simp only; omega)]
        refine iff_of_true (fun addr held => ?_) fun addr held => ?_
        · obtain rfl := Option.some.inj held
          simp only
          omega
        · obtain rfl := Option.some.inj held
          omega
      · by_cases atStop : gateway.value = (sizedPool net).stop
        · rw [if_neg atStart, if_pos atStop] at done
          obtain rfl := Option.some.inj (Except.ok.inj done)
          rw [servable_v4_iff four usable (by simp only; omega) (by simp only; omega)
            (by simp only; omega)]
          refine iff_of_true (fun addr held => ?_) fun addr held => ?_
          · obtain rfl := Option.some.inj held
            simp only
            omega
          · obtain rfl := Option.some.inj held
            omega
        · rw [if_neg atStart, if_neg atStop] at done
          obtain rfl := Option.some.inj (Except.ok.inj done)
          rw [servable_v4_iff four usable (by omega) (by omega) (by omega)]
          refine forall_congr' fun addr => imp_congr_right fun held => ?_
          obtain rfl := Option.some.inj held
          omega
  · -- Of other networks there is no default IPv4 pool.
    exfalso
    unfold defaultDhcpPoolForSubnet at done
    split at done
    · cases done
    · rename_i four
      split at done
      · cases done
      · rename_i range
        simp only [Bool.or_eq_true, decide_eq_true_eq, not_or, Nat.not_lt] at range
        exact sized ⟨not_not.mp four, range.1, range.2⟩

/-! ## The IPv6 default -/

theorem poolAround_bounds (pool : PoolBounds) (gateway : Nat) :
    pool.start ≤ (poolAround pool gateway).start ∧ (poolAround pool gateway).stop ≤ pool.stop ∧
      ¬ ((poolAround pool gateway).start ≤ gateway ∧ gateway ≤ (poolAround pool gateway).stop) := by
  unfold poolAround
  split
  · rename_i outside
    simp only [Bool.or_eq_true, decide_eq_true_eq] at outside
    omega
  rename_i inside
  simp only [Bool.or_eq_true, decide_eq_true_eq, not_or, Nat.not_lt] at inside
  split
  · simp only
    omega
  split
  · simp only
    omega
  split
  · simp only
    omega
  · simp only
    omega

/-- A pool shaped around the gateway, if there is one of its family. -/
def awayFromGateway (pool : PoolBounds) : Option Addr → PoolBounds
  | none => pool
  | some addr => if addr.family = .v6 then poolAround pool addr.value else pool

theorem awayFromGateway_bounds (pool : PoolBounds) (gateway : Option Addr) :
    pool.start ≤ (awayFromGateway pool gateway).start ∧
      (awayFromGateway pool gateway).stop ≤ pool.stop ∧
      ∀ addr, gateway = some addr → addr.family = .v6 →
        ¬ ((awayFromGateway pool gateway).start ≤ addr.value ∧
          addr.value ≤ (awayFromGateway pool gateway).stop) := by
  cases gateway with
  | none => exact ⟨le_rfl, le_rfl, fun addr held => by cases held⟩
  | some addr =>
    by_cases family : addr.family = .v6
    · rw [awayFromGateway, if_pos family]
      obtain ⟨low, high, free⟩ := poolAround_bounds pool addr.value
      refine ⟨low, high, fun other held _ => ?_⟩
      obtain rfl := Option.some.inj held
      exact free
    · rw [awayFromGateway, if_neg family]
      refine ⟨le_rfl, le_rfl, fun other held same => ?_⟩
      obtain rfl := Option.some.inj held
      exact absurd same family

/-- The IPv6 default before the gateway is looked at. -/
def sizedV6Pool (net : Network) : PoolBounds :=
  if 0x2000 < net.sizeBig then
    ⟨(addressAt .v6 (net.networkBig + 0x1000)).value,
      (addressAt .v6 (net.networkBig + 0x1fff)).value⟩
  else ⟨net.firstUsable.value, net.lastUsable.value⟩

theorem sizedV6Pool_bounds {net : Network} (six : net.family = .v6) (long : 64 ≤ net.prefixLen)
    (short : net.prefixLen < 127) :
    net.networkBig < (sizedV6Pool net).start ∧ (sizedV6Pool net).stop ≤ net.lastBig ∧
      (sizedV6Pool net).stop ≤ net.networkBig + 0x1fff := by
  have bits : net.bits = 128 := by rw [Network.bits, six]; rfl
  have last := net.lastBig_eq
  have four : 4 ≤ net.sizeBig := four_le_sizeBig (by omega)
  unfold sizedV6Pool
  split
  · rename_i large
    rw [addressAt_host six (by decide) (by omega), addressAt_host six (by decide) (by omega)]
    simp only
    omega
  · rename_i small
    have first : net.firstUsable.value = net.networkBig + 1 := by
      have reserves : net.reservesEndpoints = true := by
        simp only [reservesEndpoints, decide_eq_true_eq]
        omega
      rw [firstUsable, reserves, if_pos rfl, six]
      exact addressAt_host six (by decide) (by omega)
    have final : net.lastUsable.value = net.networkBig + (net.sizeBig - 1) := by
      have stays : ¬ (net.reservesEndpoints && net.family = .v4) = true := by simp [six]
      rw [lastUsable, if_neg stays, six, last]
      exact addressAt_host six (by omega) (by omega)
    rw [first, final]
    simp only
    omega

theorem defaultDhcpV6PoolForSubnet_eq (net : Network) (gateway : Option Addr) :
    defaultDhcpV6PoolForSubnet net gateway =
      if net.family ≠ .v6 then none
      else if net.prefixLen < 64 || net.bits - 1 ≤ net.prefixLen then none
      else if (awayFromGateway (sizedV6Pool net) gateway).stop <
          (awayFromGateway (sizedV6Pool net) gateway).start then none
      else some (addressAt .v6 (awayFromGateway (sizedV6Pool net) gateway).start,
        addressAt .v6 (awayFromGateway (sizedV6Pool net) gateway).stop) := by
  cases gateway <;> rfl

/-- **The default IPv6 pool is always servable.** -/
theorem default_v6_servable {net : Network} {gateway : Option Addr} {pool : Addr × Addr}
    (done : defaultDhcpV6PoolForSubnet net gateway = some pool) :
    Servable net gateway pool.1 pool.2 := by
  rw [defaultDhcpV6PoolForSubnet_eq] at done
  split at done
  · cases done
  rename_i six
  rw [ne_eq, not_not] at six
  split at done
  · cases done
  rename_i range
  have bits : net.bits = 128 := by rw [Network.bits, six]; rfl
  simp only [Bool.or_eq_true, decide_eq_true_eq, not_or, Nat.not_lt, Nat.not_le, bits] at range
  obtain ⟨above, below, near⟩ := sizedV6Pool_bounds six range.1 (by omega)
  obtain ⟨low, high, free⟩ := awayFromGateway_bounds (sizedV6Pool net) gateway
  generalize awayFromGateway (sizedV6Pool net) gateway = shaped at done low high free
  split at done
  · cases done
  rename_i order
  obtain rfl := Option.some.inj done
  have last := net.lastBig_eq
  have written : ∀ value, net.networkBig < value → value ≤ net.lastBig →
      value ≤ net.networkBig + 0x1fff →
      (addressAt .v6 value).family = .v6 ∧ (addressAt .v6 value).value = value := by
    intro value start stop close
    obtain ⟨host, rfl⟩ := Nat.exists_eq_add_of_le start.le
    exact ⟨addressAt_host_family six (by omega) (by omega),
      addressAt_host six (by omega) (by omega)⟩
  obtain ⟨startFamily, start⟩ := written shaped.start (by omega) (by omega) (by omega)
  obtain ⟨stopFamily, stop⟩ := written shaped.stop (by omega) (by omega) (by omega)
  refine servable_of_bounds ⟨startFamily.trans six.symm, stopFamily.trans six.symm⟩
    (by simp only [start, stop]; omega) (by simp only [start]; omega) (by simp only [stop]; omega)
    (fun four => by rw [six] at four; cases four) fun addr held => ?_
  rw [Bool.eq_false_iff, ne_eq, addressInRange_iff, startFamily, start, stop]
  exact fun inside => free addr held inside.1 inside.2

/-! ## Both families -/

/-- **Default pools are servable exactly when no gateway stands in the middle of an IPv4
one.** -/
theorem default_pools_servable_iff {net : Network} {gateway : Option Addr}
    (usable : ∀ addr, gateway = some addr → UsableIn net addr) :
    ((∀ pool, defaultDhcpPoolForSubnet net gateway = .ok (some pool) →
        Servable net gateway (addressAt .v4 pool.start) (addressAt .v4 pool.stop)) ∧
      (∀ pool, defaultDhcpV6PoolForSubnet net gateway = some pool →
        Servable net gateway pool.1 pool.2)) ↔
      ∀ addr, gateway = some addr → ¬ GatewayInMiddle net addr := by
  constructor
  · rintro ⟨served, -⟩ addr held middle
    obtain ⟨four, long, short, -⟩ := id middle
    have returned : ∃ pool, defaultDhcpPoolForSubnet net gateway = .ok (some pool) := by
      rw [defaultDhcpPoolForSubnet_eq four long short usable]
      split
      · exact ⟨_, rfl⟩
      · split
        · exact ⟨_, rfl⟩
        · exact ⟨_, rfl⟩
    obtain ⟨pool, done⟩ := returned
    exact (default_v4_servable_iff usable done).mp (served pool done) addr held middle
  · intro clear
    exact ⟨fun pool done => (default_v4_servable_iff usable done).mpr clear,
      fun pool done => default_v6_servable done⟩

/-- The default pool of `10.0.0.0/24` holds a gateway at `10.0.0.50`. -/
theorem default_pool_holds_gateway :
    ¬ ∀ (net : Network) (gateway : Option Addr),
      (∀ addr, gateway = some addr → UsableIn net addr) →
      ∀ pool, defaultDhcpPoolForSubnet net gateway = .ok (some pool) →
        Servable net gateway (addressAt .v4 pool.start) (addressAt .v4 pool.stop) := by
  intro served
  have usable : ∀ addr, some (addressAt .v4 0x0a000032) = some addr → UsableIn tenNet addr := by
    intro addr held
    obtain rfl := Option.some.inj held
    decide
  have pool := served tenNet (some (addressAt .v4 0x0a000032)) usable ⟨0x0a000021, 0x0a000040⟩
    (by rfl)
  exact absurd (pool.withoutGateway _ rfl) (by decide)

theorem default_pools_servable_at_first_address :
    (∀ pool, defaultDhcpPoolForSubnet tenNet (some (addressAt .v4 0x0a000001)) = .ok (some pool) →
        Servable tenNet (some (addressAt .v4 0x0a000001)) (addressAt .v4 pool.start)
          (addressAt .v4 pool.stop)) ∧
      (∀ pool, defaultDhcpV6PoolForSubnet tenNet (some (addressAt .v4 0x0a000001)) = some pool →
        Servable tenNet (some (addressAt .v4 0x0a000001)) pool.1 pool.2) := by
  have usable : ∀ addr, some (addressAt .v4 0x0a000001) = some addr → UsableIn tenNet addr := by
    intro addr held
    obtain rfl := Option.some.inj held
    decide
  refine (default_pools_servable_iff usable).mpr fun addr held middle => ?_
  obtain rfl := Option.some.inj held
  exact absurd middle.2.2.2.1 (by decide)

end Cidrella
