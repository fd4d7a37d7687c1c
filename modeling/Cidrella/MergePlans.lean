import Cidrella.ScopePlans

/-!
# A merge and its plan

`buildMergePlan` and `mergeSubnets` work out the gateway and the scope of the merged network
by rules of their own. Without an allocated source the plan has no gateway, while the merge
takes the policy of the parent; with scopes on several sources the plan copies the scope with
the lowest id, and the merge the one of the lowest network (`merge_follows_plan_iff`).
-/

set_option autoImplicit false

namespace Cidrella

/-! ## Sources that go -/

theorem Env.subnetId_of_mem_coalesce {targetId : Nat} {previous : AddressRange}
    {rest : List AddressRange} (own : ∀ range ∈ previous :: rest, range.subnetId = targetId) :
    ∀ range ∈ coalesce previous rest, range.subnetId = targetId := by
  induction rest generalizing previous with
  | nil => exact own
  | cons current rest ih =>
    obtain ⟨first, others⟩ := List.forall_mem_cons.mp own
    rw [coalesce]
    split
    · exact ih (List.forall_mem_cons.mpr ⟨first, (List.forall_mem_cons.mp others).2⟩)
    · exact List.forall_mem_cons.mpr ⟨first, ih others⟩

/-- The ranges that sources still have once their custom ranges are moved. -/
theorem Env.mem_moveCustomRangesToSubnet {env : Env} {ids : List Nat} {targetId : Nat}
    (outside : targetId ∉ ids) {range : AddressRange} (source : range.subnetId ∈ ids) :
    range ∈ (env.moveCustomRangesToSubnet ids targetId).ranges ↔ range ∈ env.ranges ∧
    range.type.isSystem = true := by
  rw [moveCustomRangesToSubnet, if_neg (List.ne_nil_of_mem source)]
  simp only
  rw [List.mem_filterMap]
  constructor
  · rintro ⟨moved, member, kept⟩
    split at kept
    · -- a range of the target is joined with ranges of the target
      exfalso
      have inJoined := List.mem_of_find?_eq_some kept
      split at inJoined
      · exact List.not_mem_nil inJoined
      · rename_i first rest sorted
        have own : ∀ range ∈ first :: rest, range.subnetId = targetId := by
          intro range inside
          rw [← sorted, List.mem_insertionSort, List.mem_insertionSort] at inside
          have isOwn := (List.mem_filter.mp inside).2
          simp only [Bool.and_eq_true, decide_eq_true_eq] at isOwn
          exact isOwn.1
        rw [Env.subnetId_of_mem_coalesce own range inJoined] at source
        exact outside source
    · obtain rfl := Option.some.inj kept
      obtain ⟨old, isOld, isMoved⟩ := List.mem_map.mp member
      split at isMoved
      · rw [← isMoved] at source
        exact absurd source outside
      · rename_i stays
        obtain rfl := isMoved
        simp only [Bool.and_eq_true, decide_eq_true_eq, Bool.not_eq_true', not_and,
          Bool.not_eq_false] at stays
        exact ⟨isOld, stays source⟩
  · rintro ⟨member, system⟩
    have still :
        (if range.subnetId ∈ ids && !range.type.isSystem then { range with subnetId := targetId }
        else range) = range := by simp [system]
    refine ⟨range, List.mem_map.mpr ⟨range, member, still⟩, ?_⟩
    simp [system]

namespace Db

theorem movePerIpArtifactsToSubnet_scopes {db after : Db} {ids : List Nat} {targetId : Nat}
    (done : db.movePerIpArtifactsToSubnet ids targetId = .ok after) :
    after.env.scopes = db.env.scopes ∧ after.env.ranges = db.env.ranges := by
  unfold movePerIpArtifactsToSubnet at done
  obtain ⟨reserved, moved, done⟩ := bind_eq_ok.mp done
  have kept : reserved.scopes = db.env.scopes ∧ reserved.ranges = db.env.ranges := by
    unfold moveReservationsToSubnet at moved
    simp only at moved
    split at moved
    · obtain rfl := Except.ok.inj moved
      exact ⟨rfl, rfl⟩
    · exact absurd moved (by simp)
  refine foldlM_invariant (P := fun current : Db => current.env.scopes = db.env.scopes ∧
    current.env.ranges = db.env.ranges) ?_ done kept
  intro row _ before later held step
  obtain ⟨store, -, same⟩ := bind_eq_ok.mp step
  obtain rfl := Except.ok.inj same
  exact held

/-- A scope stays when networks go: it is not theirs and its range is not theirs. -/
def scopeStays (ranges : List AddressRange) (ids : List Nat) (scope : Scope) : Bool :=
  scope.subnetId ∉ ids && !ranges.any fun range => range.id = scope.rangeId && range.subnetId ∈ ids

theorem deleteSubnetRow_spec {db : Db} {id : Nat} (leaf : ∀ place ∈ db.tree,
    place.parentId ≠ some id) :
    let after := { db with env := db.env.deleteRanges (·.subnetId = id) }.deleteSubnetRow id
    after.env.subnets.rows = db.env.subnets.rows.filter (·.id ∉ [id]) ∧
      after.env.ranges = db.env.ranges.filter (·.subnetId ∉ [id]) ∧
      after.env.scopes = db.env.scopes.filter (scopeStays db.env.ranges [id]) := by
  have alone : ({ db with env := db.env.deleteRanges (·.subnetId = id) } : Db).subtreeOf
    id = [id] := by
    rw [subtreeOf_eq]
    refine subtree_of_childless fun child member => ?_
    obtain ⟨place, within, entry⟩ := List.mem_map.mp member
    exact leaf place within (Prod.mk.inj entry).2
  intro after
  have isAfter : after =
      ({ db with env := db.env.deleteRanges (·.subnetId = id) } : Db).deleteSubnets [id] := by
    simp only [after, deleteSubnetRow, alone]
  rw [isAfter]
  refine ⟨?_, ?_, ?_⟩
  · simp only [deleteSubnets, Env.deleteSubnets, Table.delete, Env.deleteRanges, decide_not]
  · simp only [deleteSubnets, Env.deleteSubnets, Env.deleteScopes, Env.deleteRanges,
      List.filter_filter, List.mem_singleton, decide_not, Bool.and_self]
  · simp only [deleteSubnets, Env.deleteSubnets, Env.deleteScopes, Env.deleteRanges,
      List.filter_filter]
    refine List.filter_congr fun scope member => ?_
    rw [scopeStays, Bool.eq_iff_iff]
    simp only [List.mem_singleton, Bool.and_eq_true, Bool.not_eq_true', decide_eq_true_eq,
      List.any_eq_false, List.mem_filter, decide_eq_false_iff_not, decide_not]
    exact and_congr_right fun _ =>
      ⟨fun both => both.2, fun none => ⟨fun range inside => none range inside.1, none⟩⟩

/-- What is left when childless networks go with their ranges. -/
theorem deleteSubnetRowsWithRanges_spec {db : Db} {ids : List Nat}
    (leaves : ∀ place ∈ db.tree, ∀ id, place.parentId = some id → id ∉ ids) :
    (db.deleteSubnetRowsWithRanges ids).env.subnets.rows = db.env.subnets.rows.filter (·.id ∉ ids) ∧
      (db.deleteSubnetRowsWithRanges ids).env.ranges = db.env.ranges.filter (·.subnetId ∉ ids) ∧
      (db.deleteSubnetRowsWithRanges ids).env.scopes = db.env.scopes.filter
      (scopeStays db.env.ranges ids) := by
  unfold deleteSubnetRowsWithRanges
  induction ids generalizing db with
  | nil =>
    refine ⟨?_, ?_, ?_⟩
    · simp
    · simp
    · rw [List.foldl_nil, List.filter_eq_self.mpr]
      intro scope _
      simp [scopeStays]
  | cons id ids ih =>
    obtain ⟨rows, ranges, scopes⟩ := deleteSubnetRow_spec fun place member up =>
      leaves place member id up List.mem_cons_self
    generalize first :
      ({ db with env := db.env.deleteRanges (·.subnetId = id) } : Db).deleteSubnetRow id =
      next at rows ranges scopes
    have stillLeaves : ∀ place ∈ next.tree, ∀ other, place.parentId = some other → other ∉ ids := by
      intro place member other up inside
      obtain ⟨row, within, rfl⟩ := List.mem_map.mp member
      rw [rows] at within
      exact leaves _ (mem_tree_of_mem (List.mem_of_mem_filter within)) other up
        (List.mem_cons_of_mem _ inside)
    obtain ⟨rows', ranges', scopes'⟩ := ih stillLeaves
    rw [List.foldl_cons, first]
    refine ⟨?_, ?_, ?_⟩
    · rw [rows', rows, List.filter_filter]
      refine List.filter_congr fun row _ => ?_
      rw [Bool.eq_iff_iff]
      simp only [Bool.and_eq_true, decide_eq_true_eq, List.mem_cons, not_or, List.not_mem_nil,
        not_false_eq_true, and_true]
      exact and_comm
    · rw [ranges', ranges, List.filter_filter]
      refine List.filter_congr fun range _ => ?_
      rw [Bool.eq_iff_iff]
      simp only [Bool.and_eq_true, decide_eq_true_eq, List.mem_cons, not_or, List.not_mem_nil,
        not_false_eq_true, and_true]
      exact and_comm
    · rw [scopes', scopes, List.filter_filter]
      refine List.filter_congr fun scope _ => ?_
      rw [Bool.eq_iff_iff]
      simp only [scopeStays, ranges, Bool.and_eq_true, decide_eq_true_eq, Bool.not_eq_true',
        List.any_eq_false, List.mem_filter, List.mem_cons, not_or, List.not_mem_nil,
        not_false_eq_true, and_true, not_and]
      constructor
      · rintro ⟨⟨outside, later⟩, differs, now⟩
        exact ⟨⟨differs, outside⟩, fun range member same => ⟨now range member same, later range
          ⟨member, now range member same⟩ same⟩⟩
      · rintro ⟨⟨differs, outside⟩, none⟩
        exact ⟨⟨outside, fun range member same => (none range member.1 same).2⟩, differs,
          fun range member same => (none range member same).1⟩

/-- The scopes of a network that stay when other networks are merged into it: all but those
whose range is a source's. -/
def keptScopes (db : Db) (ids : List Nat) (targetId : Nat) : List Scope :=
  db.env.scopes.filter fun scope => scope.subnetId = targetId &&
    !db.env.ranges.any fun range =>
      range.id = scope.rangeId && (range.subnetId ∈ ids && range.type.isSystem)

/-- The scopes of a network. -/
def scopesOf (db : Db) (id : Nat) : List Scope := db.env.scopes.filter (·.subnetId = id)

/-- What `absorbSources` leaves. -/
theorem absorbSources_spec {db after : Db} {sources : List SubnetRow} {targetId : Nat}
    (leaves : ∀ place ∈ db.tree, ∀ id, place.parentId = some id → id ∉ sources.map (·.id))
    (outside : targetId ∉ sources.map (·.id))
    (done : db.absorbSources sources targetId = .ok after) :
    after.env.subnets.rows = db.env.subnets.rows.filter (·.id ∉ sources.map (·.id)) ∧
      after.scopesOf targetId = db.keptScopes (sources.map (·.id)) targetId := by
  unfold absorbSources at done
  obtain ⟨moved, first, same⟩ := bind_eq_ok.mp done
  obtain rfl := Except.ok.inj same
  generalize isRanged :
    ({ moved with env := moved.env.moveCustomRangesToSubnet (sources.map (·.id)) targetId } : Db) =
    ranged
  have subnets : ranged.env.subnets = db.env.subnets := by
    rw [← isRanged]
    exact (Env.moveCustomRangesToSubnet_subnets ..).trans (movePerIpArtifactsToSubnet_subnets first)
  obtain ⟨sameScopes, sameRanges⟩ := movePerIpArtifactsToSubnet_scopes first
  have scopes : ranged.env.scopes = db.env.scopes := by
    rw [← isRanged]
    exact (Env.moveCustomRangesToSubnet_scopes ..).trans sameScopes
  have ranges : ∀ range : AddressRange, range.subnetId ∈ sources.map (·.id) →
      (range ∈ ranged.env.ranges ↔ range ∈ db.env.ranges ∧ range.type.isSystem = true) := by
    intro range source
    rw [← isRanged, ← sameRanges]
    exact Env.mem_moveCustomRangesToSubnet outside source
  obtain ⟨rows', -, scopes'⟩ := deleteSubnetRowsWithRanges_spec
    (show ∀ place ∈ ranged.tree, _ by rw [tree_eq_of_subnets subnets]; exact leaves)
  refine ⟨by rw [rows', subnets], ?_⟩
  rw [scopesOf, scopes', scopes, List.filter_filter, keptScopes]
  refine List.filter_congr fun scope _ => ?_
  rw [Bool.eq_iff_iff]
  simp only [scopeStays, Bool.and_eq_true, decide_eq_true_eq, Bool.not_eq_true',
    List.any_eq_false, not_and]
  constructor
  · rintro ⟨own, -, none⟩
    exact ⟨own, fun range member same source system =>
      none range ((ranges range source).mpr ⟨member, system⟩) same source⟩
  · rintro ⟨own, none⟩
    refine ⟨own, own ▸ outside, fun range member same source => ?_⟩
    obtain ⟨before, system⟩ := (ranges range source).mp member
    exact none range before same source system

end Db

/-! ## What the merge writes -/

theorem Env.createSystemRanges_scopes (env : Env) (subnetId : Nat) (net : Network)
    (gateway : Option Addr) :
    (env.createSystemRanges subnetId net gateway).scopes = env.scopes := by
  unfold createSystemRanges
  split
  · rfl
  · simp only
    cases gateway <;> split <;> rfl

namespace Db

/-- The new row of an accepted `insertSubnet`. -/
theorem mem_insertSubnet {db after : Db} {net : Network} {policy : Option GatewayPolicy}
    {info : SubnetInfo} {id : Nat} (done : db.insertSubnet net policy info = .ok (after, id)) :
    after.env.subnets.rows = db.env.subnets.rows ++ [⟨id, net, insertedInfo net policy info⟩] ∧
      after.env.scopes = db.env.scopes ∧ after.env.ranges = db.env.ranges := by
  obtain ⟨rfl, -, subnets, env, inserted⟩ := insertSubnet_eq_ok done
  rw [env]
  exact ⟨(Table.insert_eq_some inserted).2.1, rfl, rfl⟩

theorem finishMerge_spec {db after : Db} {now : Nat} {source : Option Scope} {targetId : Nat}
    {merged : Network} {gateway : Option Addr}
    (done : db.finishMerge now source targetId merged gateway = .ok after) :
    after.env.subnets = db.env.subnets ∧ ∃ plan made,
      scopeFromSource source merged gateway = .ok plan ∧ after.scopesOf targetId = db.scopesOf
      targetId ++ made ∧ made.map after.env.scopeFacts = plan.toList.map PlanScope.facts := by
  unfold finishMerge at done
  obtain ⟨reconciled, first, done⟩ := bind_eq_ok.mp done
  obtain ⟨withScope, second, same⟩ := bind_eq_ok.mp done
  obtain rfl := Except.ok.inj same
  have env := reconcileSubnetTopology_env first
  have scopes : reconciled.env.scopes = db.env.scopes := by
    rw [env]
    exact Env.createSystemRanges_scopes db.env targetId merged gateway
  obtain ⟨plan, made, planned, grown, own, facts⟩ := createDefaultScopeFromSource_spec second
  refine ⟨?_, plan, made, planned, ?_, facts⟩
  · rw [createDefaultScopeFromSource_subnets second, env, Env.createSystemRanges_subnets]
  · have all : made.filter (·.subnetId = targetId) = made :=
      List.filter_eq_self.mpr fun scope member => decide_eq_true (own scope member)
    rw [scopesOf, scopesOf, grown, scopes, List.filter_append, all]

/-- What `mergeSubnets` writes for the merged network. -/
theorem mergeSubnets_spec {db after : Db} {now mergedId : Nat} {sources : List SubnetRow}
    {parent : SubnetRow} {merged : Network} (mergeable : Mergeable db sources parent merged)
    (done : db.mergeSubnets now sources parent merged = .ok (after, mergedId)) :
    let ids := sources.map (·.id)
    let gateway := mergedGateway ((sources.map (·.info)).filter (·.status = .allocated))
        parent.info merged
    (∃ row ∈ after.env.subnets.rows, row.id = mergedId ∧ row.key = merged ∧
      row.info.gatewayPolicy = gateway.1 ∧ row.info.gatewayAddress = gateway.2) ∧
    ∃ plan made, scopeFromSource (db.env.firstScopeForSubnets ids) merged gateway.2 = .ok plan ∧
      after.scopesOf mergedId = db.keptScopes ids mergedId ++ made ∧
      made.map after.env.scopeFacts = plan.toList.map PlanScope.facts := by
  intro ids gateway
  unfold mergeSubnets at done
  simp only at done
  split at done
  · rename_i same
    obtain ⟨absorbed, first, done⟩ := bind_eq_ok.mp done
    obtain ⟨finished, second, last⟩ := bind_eq_ok.mp done
    obtain ⟨rfl, rfl⟩ := Prod.mk.inj (Except.ok.inj last)
    obtain ⟨rows, kept⟩ := absorbSources_spec mergeable.leaves_ids mergeable.parent_not_source first
    obtain ⟨subnets, plan, made, planned, grown, facts⟩ := finishMerge_spec second
    refine ⟨?_, plan, made, planned, ?_, facts⟩
    · rw [subnets]
      have member : parent ∈ absorbed.env.subnets.rows := by
        rw [rows]
        exact List.mem_filter.mpr ⟨mergeable.memberParent,
          decide_eq_true mergeable.parent_not_source⟩
      refine ⟨_, Table.mem_update.mpr ⟨parent, member, rfl⟩, ?_⟩
      rw [if_pos (beq_self_eq_true _)]
      refine ⟨rfl, same.symm, ?_⟩
      unfold restoredInfo
      split <;> exact ⟨rfl, rfl⟩
    · rw [grown]
      exact congrArg (· ++ made) kept
  · obtain ⟨⟨inserted, newId⟩, zeroth, done⟩ := bind_eq_ok.mp done
    obtain ⟨absorbed, first, done⟩ := bind_eq_ok.mp done
    obtain ⟨finished, second, last⟩ := bind_eq_ok.mp done
    obtain ⟨rfl, rfl⟩ := Prod.mk.inj (Except.ok.inj last)
    obtain ⟨rows, scopes, ranges⟩ := mem_insertSubnet zeroth
    obtain rfl := (insertSubnet_eq_ok zeroth).1
    obtain ⟨left, kept⟩ := absorbSources_spec (mergeable.leaves_inserted zeroth rfl)
      mergeable.nextId_not_source first
    obtain ⟨subnets, plan, made, planned, grown, facts⟩ := finishMerge_spec second
    refine ⟨?_, plan, made, planned, ?_, facts⟩
    · rw [subnets, left, rows]
      exact ⟨_, List.mem_filter.mpr ⟨List.mem_append_right _ (List.mem_singleton_self _),
        decide_eq_true mergeable.nextId_not_source⟩, rfl, rfl, rfl, rfl⟩
    · rw [grown, kept, keptScopes, keptScopes, scopes, ranges]

end Db

/-! ## The plan and the merge -/

theorem resolveGatewayAddress_of_ne_custom {net : Network} {policy : GatewayPolicy}
    (fixed : policy ≠ .custom) (left right : Option Addr) : resolveGatewayAddress net policy left =
    resolveGatewayAddress net policy right := by
  cases policy with
  | custom => exact absurd rfl fixed
  | first => rfl
  | last => rfl
  | none => rfl

theorem mergeGateway_of_allocated {first : SubnetInfo} {rest : List SubnetInfo} {merged : Network}
    (settled : (mergeGateway (first :: rest) merged).policy.isNone = false) (parent : SubnetInfo) :
    mergeGateway (first :: rest) merged =
      ⟨some (Db.mergedGateway (first :: rest) parent merged).1,
      (Db.mergedGateway (first :: rest) parent merged).2⟩ := by
  have one : ¬ (1 < ((first :: rest).map (·.gatewayPolicy)).eraseDups.length ||
      1 < ((((first :: rest).filter (·.gatewayPolicy = .custom)).map
      (·.gatewayAddress)).eraseDups).length) = true := by
    intro many
    have none : mergeGateway (first :: rest) merged = ⟨none, none⟩ := if_pos many
    rw [none] at settled
    exact absurd settled (by simp)
  have made : Db.mergedGateway (first :: rest) parent merged = (first.gatewayPolicy,
      resolveGatewayAddress merged first.gatewayPolicy
        (if first.gatewayPolicy = .custom then first.gatewayAddress else none)) := rfl
  rw [made]
  refine (if_neg one).trans ?_
  simp only [List.map_cons, List.eraseDups_cons, List.head?_cons, Option.getD_some]
  refine congrArg (PlanGateway.mk _) ?_
  by_cases custom : first.gatewayPolicy = .custom
  · simp [custom, List.eraseDups_cons]
  · exact resolveGatewayAddress_of_ne_custom custom _ _

theorem mergeGateway_nil_iff {merged : Network} {parent : SubnetInfo} :
    mergeGateway [] merged = ⟨some (Db.mergedGateway [] parent merged).1,
      (Db.mergedGateway [] parent merged).2⟩ ↔ parent.gatewayPolicy = .none := by
  constructor
  · intro same
    exact (Option.some.inj (congrArg PlanGateway.policy same)).symm
  · intro none
    simp [Db.mergedGateway, none, mergeGateway, resolveGatewayAddress]

theorem facts_eq_iff {left right : Scope} {net : Network} {gateway : Option Addr}
    {planned made : Option PlanScope} (alike : left.signature = right.signature)
    (isPlanned : planScope left net gateway = .ok planned)
    (isMade : planScope right net gateway = .ok made) :
    made.toList.map PlanScope.facts = planned.toList.map PlanScope.facts ↔
      (net.family = .v6 → ModesAgree net left.v6Mode right.v6Mode) := by
  have enabled : left.enabled = right.enabled := congrArg ScopeSignature.enabled alike
  have leaseTime : left.leaseTime = right.leaseTime := congrArg ScopeSignature.leaseTime alike
  cases family : net.family with
  | v4 =>
    rw [planScope_of_v4 family] at isPlanned isMade
    obtain ⟨pool, sized, isPlanned⟩ := bind_eq_ok.mp isPlanned
    obtain ⟨pool', sized', isMade⟩ := bind_eq_ok.mp isMade
    obtain rfl : pool = pool' := Except.ok.inj (sized.symm.trans sized')
    obtain rfl := Except.ok.inj isPlanned
    obtain rfl := Except.ok.inj isMade
    refine iff_of_true ?_ (by simp)
    cases pool with
    | none => rfl
    | some pool => simp [PlanScope.facts, enabled, leaseTime]
  | v6 =>
    rw [planScope_of_v6 family] at isPlanned isMade
    obtain rfl := Except.ok.inj isPlanned
    obtain rfl := Except.ok.inj isMade
    rw [← @defaultV6ScopeForTarget_eq_iff net gateway family]
    cases defaultV6ScopeForTarget left.v6Mode net gateway with
    | none => cases defaultV6ScopeForTarget right.v6Mode net gateway <;> simp
    | some plan =>
      cases defaultV6ScopeForTarget right.v6Mode net gateway with
      | none => simp
      | some plan' =>
        obtain ⟨mode, interval⟩ := plan
        obtain ⟨mode', interval'⟩ := plan'
        simp [PlanScope.facts, enabled, leaseTime, eq_comm]

namespace Db

theorem buildMergePlan_spec {db : Db} {now : Nat} {sources : List SubnetRow} {merged : Network}
    {plan : Plan} (planned : db.buildMergePlan now sources merged = .ok plan)
    (clean : plan.conflicts = []) :
    let gateway := mergeGateway ((sources.map (·.info)).filter (·.status = .allocated)) merged
    gateway.policy.isNone = false ∧ db.env.dhcpScopePolicyConflicts (sources.map (·.id)) = [] ∧
      ∃ scope, scopeFromSource (db.env.lowestScope (sources.map (·.id))) merged
        gateway.address = .ok scope ∧ plan.targets = [⟨merged, true, gateway, scope⟩] := by
  intro gateway
  unfold buildMergePlan at planned
  obtain ⟨scope, isScope, planned⟩ := bind_eq_ok.mp planned
  obtain rfl := Except.ok.inj planned
  simp only [List.append_eq_nil_iff] at clean
  obtain ⟨⟨⟨⟨⟨noGateway, -⟩, -⟩, -⟩, -⟩, noScopes⟩ := clean
  refine ⟨?_, noScopes, scope, ?_, rfl⟩
  · rw [← Bool.not_eq_true]
    intro none
    rw [if_pos none] at noGateway
    exact List.cons_ne_nil _ _ noGateway
  · rw [← Env.defaultScopesForTarget_eq]
    exact isScope

/-- What a merge writes for the merged network is what a target of its plan says: the gateway
policy, the gateway and the scopes that the network did not have. -/
structure FollowsPlan (db after : Db) (ids : List Nat) (mergedId : Nat) (target : PlanTarget) :
    Prop where
  gateway : ∃ row ∈ after.env.subnets.rows, row.id = mergedId ∧ row.key = target.net ∧
    target.gateway = ⟨some row.info.gatewayPolicy, row.info.gatewayAddress⟩
  scope : ∃ made, after.scopesOf mergedId = db.keptScopes ids mergedId ++ made ∧
    made.map after.env.scopeFacts = target.scope.toList.map PlanScope.facts

/-- The condition under which the rules of the plan and of the merge agree. -/
structure RulesAgree (db : Db) (sources : List SubnetRow) (parent : SubnetRow) (merged : Network) :
    Prop where
  gateway : (∃ source ∈ sources, source.info.status = .allocated) ∨
    parent.info.gatewayPolicy = .none
  modes : merged.family = .v6 →
    ModesAgree merged ((db.env.lowestScope (sources.map (·.id))).bind (·.v6Mode))
    ((db.env.firstScopeForSubnets (sources.map (·.id))).bind (·.v6Mode))

theorem gateway_eq_iff {allocated : List SubnetInfo} {merged : Network} {parent : SubnetInfo}
    (settled : (mergeGateway allocated merged).policy.isNone = false) :
    mergeGateway allocated merged =
        ⟨some (mergedGateway allocated parent merged).1, (mergedGateway allocated parent merged).2⟩
        ↔
      allocated ≠ [] ∨ parent.gatewayPolicy = .none := by
  cases allocated with
  | nil => simpa using mergeGateway_nil_iff
  | cons first rest =>
    exact iff_of_true (mergeGateway_of_allocated settled parent) (.inl (List.cons_ne_nil _ _))

theorem allocated_ne_nil_iff {sources : List SubnetRow} :
    (sources.map (·.info)).filter (·.status = .allocated) ≠ [] ↔
      ∃ source ∈ sources, source.info.status = .allocated := by
  rw [Ne, List.filter_eq_nil_iff]
  simp

theorem scope_eq_iff {db : Db} {ids : List Nat} {net : Network} {gateway : Option Addr}
    {planned made : Option PlanScope} (clean : db.env.dhcpScopePolicyConflicts ids = [])
    (isPlanned : scopeFromSource (db.env.lowestScope ids) net gateway = .ok planned)
    (isMade : scopeFromSource (db.env.firstScopeForSubnets ids) net gateway = .ok made) :
    made.toList.map PlanScope.facts = planned.toList.map PlanScope.facts ↔
      (net.family = .v6 → ModesAgree net ((db.env.lowestScope ids).bind (·.v6Mode))
        ((db.env.firstScopeForSubnets ids).bind (·.v6Mode))) := by
  rcases db.env.chosenScopes ids with ⟨noPlan, noMade⟩ | ⟨low, first, isLow, isFirst, memberLow,
    memberFirst⟩
  · rw [noPlan] at isPlanned ⊢
    rw [noMade] at isMade ⊢
    obtain rfl := Except.ok.inj isPlanned
    obtain rfl := Except.ok.inj isMade
    exact iff_of_true rfl fun _ => ⟨fun _ => rfl, fun _ _ => Iff.rfl⟩
  · rw [isLow] at isPlanned ⊢
    rw [isFirst] at isMade ⊢
    exact facts_eq_iff (Env.signature_eq clean memberLow memberFirst) isPlanned isMade

/-- **A merge does what its plan says exactly when** a source is allocated or the parent has no
gateway policy, and the scopes they copy have DHCPv6 modes that agree in the merged network. -/
theorem merge_follows_plan_iff (db after : Db) (now mergedId : Nat) (subnetIds : List Nat)
    (sources : List SubnetRow) (parent : SubnetRow) (merged : Network) (plan : Plan)
    (mergeable : db.mergeSources subnetIds = .ok (sources, parent, merged))
    (planned : db.buildMergePlan now sources merged = .ok plan) (clean : plan.conflicts = [])
    (done : db.mergeSubnets now sources parent merged = .ok (after, mergedId)) :
    (∃ target, plan.targets = [target] ∧ FollowsPlan db after (sources.map (·.id)) mergedId target)
      ↔ RulesAgree db sources parent merged := by
  obtain ⟨settled, noScopes, scope, isScope, targets⟩ := buildMergePlan_spec planned clean
  obtain ⟨⟨row, member, isMerged, key, policy, address⟩, made, written, isMade, scopes, facts⟩ :=
    mergeSubnets_spec (mergeSources_eq_ok mergeable) done
  have gateways := @gateway_eq_iff _ _ parent.info settled
  rw [allocated_ne_nil_iff] at gateways
  constructor
  · rintro ⟨target, isTarget, follows⟩
    obtain rfl := (List.cons.inj (targets.symm.trans isTarget)).1
    obtain ⟨other, memberOther, isOther, -, same⟩ := follows.gateway
    obtain rfl : other = row := after.env.subnets.eq_of_id_eq memberOther member
      (isOther.trans isMerged.symm)
    simp only at same
    have equal := same
    rw [policy, address] at equal
    refine ⟨gateways.mp equal, ?_⟩
    obtain ⟨written', scopes', facts'⟩ := follows.scope
    obtain rfl : written = written' := List.append_cancel_left (scopes.symm.trans scopes')
    rw [equal] at isScope
    exact (scope_eq_iff noScopes isScope isMade).mp (facts.symm.trans facts')
  · intro agree
    have equal := gateways.mpr agree.gateway
    refine ⟨_, targets, ⟨row, member, isMerged, key, ?_⟩, written, scopes, ?_⟩
    · rw [policy, address]
      exact equal
    · rw [equal] at isScope
      exact facts.trans ((scope_eq_iff noScopes isScope isMade).mpr agree.modes)

/-- A merge beside its plan, when both go through. -/
def mergeOutcome (db : Db) (now : Nat) (subnetIds : List Nat) :
    Option ((List SubnetRow × SubnetRow × Network) × Plan × Db × Nat) :=
  match db.mergeSources subnetIds with
  | .error _ => none
  | .ok (sources, parent, merged) =>
    match db.buildMergePlan now sources merged, db.mergeSubnets now sources parent merged with
    | .ok plan, .ok written => some ((sources, parent, merged), plan, written)
    | _, _ => none

theorem mergeOutcome_eq_some {db after : Db} {now mergedId : Nat} {subnetIds : List Nat}
    {sources : List SubnetRow} {parent : SubnetRow} {merged : Network} {plan : Plan}
    (done : db.mergeOutcome now subnetIds = some ((sources, parent, merged), plan, after,
    mergedId)) :
    db.mergeSources subnetIds = .ok (sources, parent, merged) ∧
      db.buildMergePlan now sources merged = .ok plan ∧ db.mergeSubnets now sources parent
      merged = .ok (after, mergedId) := by
  unfold mergeOutcome at done
  split at done
  · exact absurd done (by simp)
  · rename_i found
    split at done
    · rename_i planned ran
      obtain ⟨rows, rest⟩ := Prod.mk.inj (Option.some.inj done)
      obtain ⟨rfl, rfl⟩ := Prod.mk.inj rest
      obtain ⟨rfl, others⟩ := Prod.mk.inj rows
      obtain ⟨rfl, rfl⟩ := Prod.mk.inj others
      exact ⟨found, planned, ran⟩
    · exact absurd done (by simp)

/-- The office network gets a DHCP scope and is cut in halves. -/
def officeHalves : Option Db :=
  let start := addressAt .v4 0x0a000020
  let stop := addressAt .v4 0x0a00002f
  let env := officeEnv.insertScope 1 start stop "DHCP scope".toList fun scopeId rangeId =>
    { id := scopeId, rangeId, subnetId := 1, addressFamily := .v4, v6Mode := none, leaseTime :=
      "24h".toList, enabled := true, domainName := none }
  replay anyRequest ⟨env, .empty⟩ [.divide 100 1 { mode := .equal 25, force := true }]

/-- The halves lose their configuration. -/
def bareHalves : Option Db := officeHalves.bind fun halves => replay anyRequest halves
    [.delete 2, .delete 3]

/-- The halves of the office network are merged with the gateway and the scope of the plan. -/
theorem merge_follows_plan_halves : ∃ (db after : Db) (sources : List SubnetRow)
    (parent : SubnetRow) (merged : Network) (target : PlanTarget), officeHalves = some db ∧
      db.mergeSubnets 200 sources parent merged = .ok (after, 1) ∧
      target.gateway = ⟨some .first, some (officeAddr 1)⟩ ∧ target.scope.isSome = true ∧
      FollowsPlan db after (sources.map (·.id)) 1 target := by
  have shape : (officeHalves.any fun db => (db.mergeOutcome 200 [2, 3]).any
      fun ((sources, _, merged), plan, _, mergedId) =>
        sources.all (·.info.status = .allocated) && merged.family = .v4 && plan.conflicts = [] &&
          mergedId = 1 && plan.targets.all fun target =>
            target.gateway = ⟨some .first, some (officeAddr 1)⟩ && target.scope.isSome) = true := by
    decide
  obtain ⟨db, isDb, outcome⟩ := (Option.any_eq_true _ _).mp shape
  obtain ⟨⟨⟨sources, parent, merged⟩, plan, after, mergedId⟩, ran, facts⟩ :=
    (Option.any_eq_true _ _).mp outcome
  simp only [Bool.and_eq_true, decide_eq_true_eq] at facts
  obtain ⟨⟨⟨⟨statuses, family⟩, clean⟩, rfl⟩, targets⟩ := facts
  obtain ⟨mergeable, planned, done⟩ := mergeOutcome_eq_some ran
  obtain ⟨source, member⟩ := List.exists_mem_of_ne_nil _ (mergeSources_eq_ok mergeable).nonempty
  obtain ⟨target, isTarget, follows⟩ :=
    (merge_follows_plan_iff db after 200 1 [2, 3] sources parent merged plan mergeable planned
      clean done).mpr
        ⟨.inl ⟨source, member, of_decide_eq_true (List.all_eq_true.mp statuses source member)⟩,
        fun v6 => absurd (family.symm.trans v6) (by decide)⟩
  have facts := List.all_eq_true.mp targets target (isTarget ▸ List.mem_singleton_self target)
  simp only [Bool.and_eq_true, decide_eq_true_eq] at facts
  exact ⟨db, after, sources, parent, merged, target, isDb, done, facts.1, facts.2, follows⟩

/-- The merge of deallocated halves gives the network the policy that their parent kept, while
its plan has no gateway. -/
theorem merge_keeps_parent_policy : ¬ ∀ (db after : Db) (now mergedId : Nat) (subnetIds : List Nat)
    (sources : List SubnetRow) (parent : SubnetRow) (merged : Network) (plan : Plan),
    db.mergeSources subnetIds = .ok (sources, parent, merged) →
    db.buildMergePlan now sources merged = .ok plan → plan.conflicts = [] →
    db.mergeSubnets now sources parent merged = .ok (after, mergedId) →
    ∃ target, plan.targets = [target] ∧ FollowsPlan db after (sources.map (·.id)) mergedId
    target := by
  intro claim
  have shape : (bareHalves.any fun db => (db.mergeOutcome 200 [2, 3]).any fun (_, plan, after, _) =>
        plan.conflicts = [] && plan.targets.all (·.gateway.policy = some .none) &&
          after.env.subnets.rows.all (·.info.gatewayPolicy = .first)) = true := by
    decide
  obtain ⟨db, -, outcome⟩ := (Option.any_eq_true _ _).mp shape
  obtain ⟨⟨⟨sources, parent, merged⟩, plan, after, mergedId⟩, ran, facts⟩ :=
    (Option.any_eq_true _ _).mp outcome
  simp only [Bool.and_eq_true, decide_eq_true_eq] at facts
  obtain ⟨⟨clean, policies⟩, rows⟩ := facts
  obtain ⟨mergeable, planned, done⟩ := mergeOutcome_eq_some ran
  obtain ⟨target, isTarget, follows⟩ :=
    claim db after 200 mergedId [2, 3] sources parent merged plan mergeable planned clean done
  obtain ⟨row, member, -, -, same⟩ := follows.gateway
  have isFirst := of_decide_eq_true (List.all_eq_true.mp rows row member)
  have isNone := of_decide_eq_true
    (List.all_eq_true.mp policies target (isTarget ▸ List.mem_singleton_self target))
  rw [same, isFirst] at isNone
  exact GatewayPolicy.noConfusion (Option.some.inj isNone)

end Db

end Cidrella
