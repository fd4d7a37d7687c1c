import Cidrella.Operations
import Cidrella.TopologyEffects

/-!
# The networks form a forest

In every state the subnet requests lead to, networks nest along `parent_id` and networks
with one parent, or none, are apart (`forest_of_run`). Every address is then in at most
one leaf, which is what `findSubnetForIp` looks for.
-/

set_option autoImplicit false

namespace Cidrella

open Places

namespace Db

/-! ## Divide -/

theorem divideNetworks_partitions {parent : Network} {mode : DivideMode} {nets : List Network}
    (avoids : parent.AvoidsMapped) (done : divideNetworks parent mode = .ok nets) :
    Partitions parent nets := by
  cases mode with
  | equal newPrefix => exact splitNetwork_partitions avoids (cidrStep_eq_ok.mp done)
  | carve cidr =>
    unfold divideNetworks at done
    simp only at done
    split at done
    · exact absurd done (by simp)
    · obtain ⟨remainder, cut, same⟩ := bind_eq_ok.mp done
      obtain rfl := Except.ok.inj same
      exact subtractNetwork_partitions avoids (cidrStep_eq_ok.mp cut)

theorem buildDividePlan_nets {db : Db} {now : Nat} {parent : SubnetRow} {mode : DivideMode}
    {selectedCidrs : List Text} {overrides : List GatewayOverride} {plan : Plan}
    (done : db.buildDividePlan now parent mode selectedCidrs overrides = .ok plan) :
    divideNetworks parent.key mode = .ok (plan.targets.map (·.net)) := by
  unfold buildDividePlan at done
  obtain ⟨nets, cut, done⟩ := bind_eq_ok.mp done
  split at done
  · exact absurd done (by simp)
  split at done
  · exact absurd done (by simp)
  obtain ⟨targets, mapped, same⟩ := bind_eq_ok.mp done
  obtain rfl := Except.ok.inj same
  have netOf : ∀ (net : Network) (target : PlanTarget), db.env.divideTarget parent overrides
      (isSelected mode selectedCidrs (nets.headD parent.key)) net = .ok target →
      target.net = net := by
    intro net target built
    obtain ⟨gateway, -, built⟩ := bind_eq_ok.mp built
    obtain ⟨scope, -, same⟩ := bind_eq_ok.mp built
    obtain rfl := Except.ok.inj same
    rfl
  rw [cut]
  exact congrArg Except.ok (map_of_mapM netOf mapped).symm

/-- The children of a divide are new places, apart from each other and inside the parent. -/
theorem insertChildren_tree {parent : SubnetRow} {targets : List PlanTarget} {db after : Db}
    (forest : IsForest db.tree) (memberParent : placeOf parent ∈ db.tree)
    (within : ∀ target ∈ targets, target.net.isWithin parent.key = true)
    (apart : (targets.map (·.net)).Pairwise fun left right => left.overlaps right = false)
    (clear : ∀ place ∈ db.tree, place.parentId = some parent.id → ∀ target ∈ targets,
      place.net.overlaps target.net = false)
    (done : targets.foldlM (insertChild parent) db = .ok after) :
    IsForest after.tree ∧ ∃ added, after.tree = db.tree ++ added ∧
      ∀ place ∈ added, place.parentId = some parent.id ∧ place.depth = parent.info.depth + 1 := by
  induction targets generalizing db with
  | nil =>
    obtain rfl := Except.ok.inj done
    exact ⟨forest, [], (List.append_nil _).symm, by simp⟩
  | cons target targets ih =>
    rw [List.foldlM_cons] at done
    obtain ⟨middle, first, rest⟩ := bind_eq_ok.mp done
    have tree := insertChild_tree first
    have inside := within target List.mem_cons_self
    rw [List.map_cons, List.pairwise_cons] at apart
    have middleForest : IsForest middle.tree := by
      rw [tree]
      refine forest.add db.fresh_nextId ?_ ?_ ?_
      · intro id up
        obtain rfl := Option.some.inj up
        exact ⟨placeOf parent, memberParent, rfl, inside⟩
      · exact fun place member up => clear place member up target List.mem_cons_self
      · obtain ⟨family, low, high, -⟩ := Network.isWithin_iff.mp inside
        exact (forest.unmapped _ memberParent).of_subset family low high
    obtain ⟨result, added, grown, columns⟩ := ih middleForest
      (by rw [tree]; exact List.mem_append_left _ memberParent)
      (fun other member => within other (List.mem_cons_of_mem _ member)) apart.2 (by
        intro place member up other memberOther
        rw [tree] at member
        rcases List.mem_append.mp member with member | new
        · exact clear place member up other (List.mem_cons_of_mem _ memberOther)
        · rw [List.mem_singleton.mp new]
          exact apart.1 other.net (List.mem_map_of_mem memberOther)) rest
    rw [tree, List.append_assoc] at grown
    refine ⟨result, _, grown, List.forall_mem_cons.mpr ⟨⟨rfl, rfl⟩, columns⟩⟩

/-! ## Flattening -/

theorem parentId_ne {db : Db} (forest : IsForest db.tree) {row : SubnetRow}
    (member : placeOf row ∈ db.tree) {parentId : Nat} (up : row.info.parentId = some parentId) :
    parentId ≠ row.id := by
  rintro rfl
  have shorter := forest.prefix_lt member member up
  omega

theorem mem_flattenChild {db : Db} (forest : IsForest db.tree) {child : SubnetRow} {parentId : Nat}
    (member : placeOf child ∈ db.tree) (up : child.info.parentId = some parentId) {place : Place}
    (memberPlace : place ∈ db.tree) (differs : place.id ≠ child.id)
    (kept : place.parentId ≠ some child.id) : place ∈ (flattenChild parentId db child).tree := by
  rw [flattenChild_tree (parentId_ne forest member up)]
  exact IsForest.mem_flatten.mpr (.inr ⟨memberPlace, differs, kept⟩)

theorem flattenChild_forest {db : Db} (forest : IsForest db.tree) {child : SubnetRow}
    {parentId : Nat} (member : placeOf child ∈ db.tree) (up : child.info.parentId = some parentId) :
    IsForest (flattenChild parentId db child).tree := by
  rw [flattenChild_tree (parentId_ne forest member up)]
  exact forest.flatten member up child.info.depth

/-- The children of one place, with different ids. -/
structure AreChildren (db : Db) (parentId : Nat) (rows : List SubnetRow) : Prop where
  placed : ∀ row ∈ rows, placeOf row ∈ db.tree
  up : ∀ row ∈ rows, row.info.parentId = some parentId
  distinct : (rows.map Row.id).Nodup

theorem areChildren_children (db : Db) (parentId : Nat) :
    AreChildren db parentId (Subnets.children db.env.subnets parentId) where
  placed := fun _ member => mem_tree_of_mem (List.mem_of_mem_filter member)
  up := fun _ member => of_decide_eq_true (List.mem_filter.mp member).2
  distinct := db.env.subnets.idsDistinct.sublist (List.filter_sublist.map _)

theorem AreChildren.flattenChild {db : Db} {parentId : Nat} {child : SubnetRow}
    {rows : List SubnetRow} (forest : IsForest db.tree)
    (children : AreChildren db parentId (child :: rows)) :
    AreChildren (flattenChild parentId db child) parentId rows where
  placed := by
    intro row member
    have memberChild := children.placed child List.mem_cons_self
    have upChild := children.up child List.mem_cons_self
    have up := children.up row (List.mem_cons_of_mem _ member)
    refine mem_flattenChild forest memberChild upChild
      (children.placed row (List.mem_cons_of_mem _ member)) ?_ ?_
    · rintro same
      exact (List.nodup_cons.mp children.distinct).1 (same ▸ List.mem_map_of_mem member)
    · intro cycle
      exact parentId_ne forest memberChild upChild (Option.some.inj (up.symm.trans cycle))
  up := fun row member => children.up row (List.mem_cons_of_mem _ member)
  distinct := (List.nodup_cons.mp children.distinct).2

theorem flattenLevel_forest {db : Db} (forest : IsForest db.tree) (parentId : Nat) :
    IsForest (db.flattenLevel parentId).tree := by
  have fold : ∀ (rows : List SubnetRow) (db : Db), IsForest db.tree → AreChildren db parentId rows →
      IsForest (rows.foldl (Db.flattenChild parentId) db).tree := by
    intro rows
    induction rows with
    | nil => exact fun _ forest _ => forest
    | cons child rows ih =>
      intro db forest children
      rw [List.foldl_cons]
      exact ih _ (flattenChild_forest forest (children.placed child List.mem_cons_self)
        (children.up child List.mem_cons_self)) (children.flattenChild forest)
  exact fold _ db forest (areChildren_children db parentId)

theorem consolidateLevels_forest (levels : Nat) {db : Db} (forest : IsForest db.tree)
    (parentId : Option Nat) : IsForest (consolidateLevels levels db parentId).tree := by
  induction levels generalizing db parentId with
  | zero => exact forest
  | succ levels ih =>
    cases parentId with
    | none => exact forest
    | some parentId =>
      unfold consolidateLevels
      split
      · exact ih (flattenLevel_forest forest parentId) _
      · exact forest

theorem executeDivide_eq_ok {db after : Db} {now : Nat} {parent : SubnetRow}
    {targets : List PlanTarget} {accepted : List Lossy}
    (done : db.executeDivide now parent targets accepted = .ok after) :
    ∃ inserted reconciled : Db, targets.foldlM (insertChild parent) db = .ok inserted ∧
      reconciled.env.subnets = inserted.env.subnets ∧
      after = (reconciled.clearParentConfig parent.id).consolidateIntermediate
        parent.info.parentId := by
  unfold executeDivide at done
  obtain ⟨inserted, first, done⟩ := bind_eq_ok.mp done
  obtain ⟨moved, second, done⟩ := bind_eq_ok.mp done
  obtain ⟨reconciled, third, same⟩ := bind_eq_ok.mp done
  refine ⟨inserted, reconciled, first, ?_, (Except.ok.inj same).symm⟩
  rw [reconcileChildTopology_env third, cleanupLossyArtifactsAfterDivide_subnets,
    transferPerIpArtifactsToChildren_env second]
  rfl

theorem divide_eq_ok {db after : Db} {now id : Nat} {request : DivideRequest}
    (done : db.divide now id request = .ok after) :
    ∃ parent plan accepted, db.env.subnets.byId id = some parent ∧
      (∀ place ∈ db.tree, place.parentId ≠ some parent.id) ∧
      db.buildDividePlan now parent request.mode request.selectedCidrs request.targetGateways =
        .ok plan ∧ plan.conflicts = [] ∧
      validateConflictResolutions (db.detectLossyIpsForDivision now parent
        (plan.targets.map (·.net))) request.resolutions = .ok accepted ∧
      db.executeDivide now parent plan.targets accepted = .ok after := by
  unfold divide at done
  split at done
  · exact absurd done (by simp)
  rename_i parent found
  split at done
  · exact absurd done (by simp)
  split at done
  · exact absurd done (by simp)
  rename_i leaf
  split at done
  · exact absurd done (by simp)
  obtain ⟨plan, built, done⟩ := bind_eq_ok.mp done
  split at done
  · exact absurd done (by simp)
  rename_i clean
  split at done
  · exact absurd done (by simp)
  obtain ⟨accepted, resolved, done⟩ := bind_eq_ok.mp done
  rw [ne_eq, not_not] at clean
  simp only [Bool.not_eq_true', Bool.not_eq_false] at leaf
  exact ⟨parent, plan, accepted, found, children_isEmpty_iff.mp leaf, built, clean, resolved, done⟩

/-- A divide before it is flattened: new places under the divided one. -/
structure Divided (db : Db) (parent : SubnetRow) (targets : List PlanTarget) (inserted cleared : Db)
    (added : List Place) : Prop where
  member : parent ∈ db.env.subnets.rows
  leaf : ∀ place ∈ db.tree, place.parentId ≠ some parent.id
  within : ∀ target ∈ targets, target.net.isWithin parent.key = true
  inserts : targets.foldlM (insertChild parent) db = .ok inserted
  clears : cleared.env.subnets = Subnets.setInfo inserted.env.subnets parent.id clearedInfo
  forest : IsForest cleared.tree
  tree : cleared.tree = db.tree ++ added
  columns : ∀ place ∈ added, place.parentId = some parent.id ∧ place.depth = parent.info.depth + 1

theorem divided_of_divide {db after : Db} {now id : Nat} {request : DivideRequest}
    (forest : IsForest db.tree) (done : db.divide now id request = .ok after) :
    ∃ (parent : SubnetRow) (targets : List PlanTarget) (inserted cleared : Db) (added : List Place),
      db.env.subnets.byId id = some parent ∧ Divided db parent targets inserted cleared added ∧
      after = cleared.consolidateIntermediate parent.info.parentId := by
  obtain ⟨parent, plan, accepted, found, leaf, built, -, -, done⟩ := divide_eq_ok done
  obtain ⟨inserted, reconciled, first, subnets, same⟩ := executeDivide_eq_ok done
  have member := (Table.byId_eq_some.mp found).1
  have placed : placeOf parent ∈ db.tree := mem_tree_of_mem member
  have cut := divideNetworks_partitions (forest.unmapped _ placed) (buildDividePlan_nets built)
  have within : ∀ target ∈ plan.targets, target.net.isWithin parent.key = true :=
    fun target memberTarget => cut.within _ (List.mem_map_of_mem memberTarget)
  obtain ⟨result, added, grown, columns⟩ := insertChildren_tree forest placed within cut.apart
    (fun place memberPlace up => absurd up (leaf place memberPlace)) first
  have tree : (reconciled.clearParentConfig parent.id).tree = inserted.tree := by
    rw [clearParentConfig_tree, tree_eq_of_subnets subnets]
  refine ⟨parent, plan.targets, inserted, _, added, found, ?_, same⟩
  exact {
    member := member
    leaf := leaf
    within := within
    inserts := first
    clears := congrArg (Subnets.setInfo · parent.id clearedInfo) subnets
    forest := tree ▸ result
    tree := tree.trans grown
    columns := columns }

theorem divide_forest {db after : Db} {now id : Nat} {request : DivideRequest}
    (forest : IsForest db.tree) (done : db.divide now id request = .ok after) :
    IsForest after.tree := by
  obtain ⟨parent, targets, inserted, cleared, added, -, divided, rfl⟩ :=
    divided_of_divide forest done
  exact consolidateLevels_forest _ divided.forest _

/-! ## The other requests -/

theorem createSubnet_eq_ok {db after : Db} {request : NewSubnet}
    (done : db.createSubnet request = .ok after) :
    ∃ net, net.AvoidsMapped ∧
      (∀ row ∈ db.env.subnets.rows, row.info.parentId = none → net.overlaps row.key = false) ∧
      after.tree = db.tree ++ [⟨db.env.subnets.nextId, net, none, 0⟩] := by
  unfold createSubnet at done
  split at done
  · exact absurd done (by simp)
  rename_i net read
  split at done
  · exact absurd done (by simp)
  split at done
  · exact absurd done (by simp)
  obtain ⟨⟨⟩, bounds, done⟩ := bind_eq_ok.mp done
  split at done
  · exact absurd done (by simp)
  rename_i none
  obtain ⟨⟨inserted, id⟩, first, same⟩ := bind_eq_ok.mp done
  obtain rfl := Except.ok.inj same
  refine ⟨net, avoidsMapped_of_validateNetworkBounds (cidrStep_eq_ok.mp bounds), ?_,
    tree_insertSubnet first⟩
  intro row member root
  have apart := List.find?_eq_none.mp none row (List.mem_filter.mpr ⟨member, decide_eq_true root⟩)
  rwa [Bool.not_eq_true] at apart

theorem createSubnet_forest {db after : Db} {request : NewSubnet} (forest : IsForest db.tree)
    (done : db.createSubnet request = .ok after) : IsForest after.tree := by
  obtain ⟨net, avoids, apart, tree⟩ := createSubnet_eq_ok done
  rw [tree]
  refine forest.add db.fresh_nextId (fun id up => absurd up (by simp)) ?_ avoids
  intro place member root
  obtain ⟨row, within, rfl⟩ := List.mem_map.mp member
  rw [Network.overlaps_comm]
  exact apart row within root

/-- Where `deleteSubnet` leads: a whole subtree goes, or what is below the network. -/
theorem deleteSubnet_tree (db : Db) (subnet : SubnetRow) :
    (db.deleteSubnet subnet).tree = db.tree ∨
      (db.deleteSubnet subnet).tree = remove db.tree (below db.tree subnet.id) ∨
      (db.deleteSubnet subnet).tree =
        remove db.tree ((below db.tree subnet.id).filter (· ≠ subnet.id)) := by
  unfold deleteSubnet
  simp only
  split
  · rw [tree_setSubnet _ _ (by exact fun _ => ⟨rfl, rfl⟩), tree_deleteSubnetData]
    split
    · exact .inr (.inr (tree_deleteDescendantSubnets db subnet.id))
    · exact .inl rfl
  · split
    · refine .inr (.inl ?_)
      rw [tree_deleteSubnetRow]
      split <;> rfl
    · split
      · exact .inr (.inl (tree_deleteSubnetRow _ _))
      · exact .inr (.inr (tree_deleteDescendantSubnets db subnet.id))

theorem delete_eq_ok {db after : Db} {id : Nat} (done : db.delete id = .ok after) :
    ∃ subnet ∈ db.env.subnets.rows, after = db.deleteSubnet subnet := by
  unfold delete at done
  split at done
  · exact absurd done (by simp)
  rename_i subnet found
  split at done
  · exact absurd done (by simp)
  · exact ⟨subnet, (Table.byId_eq_some.mp found).1, (Except.ok.inj done).symm⟩

theorem delete_forest {db after : Db} {id : Nat} (forest : IsForest db.tree)
    (done : db.delete id = .ok after) : IsForest after.tree := by
  obtain ⟨subnet, member, rfl⟩ := delete_eq_ok done
  rcases db.deleteSubnet_tree subnet with tree | tree | tree
  · rw [tree]
    exact forest
  · rw [tree]
    exact forest.remove_below subnet.id
  · rw [tree]
    exact forest.remove_strictly_below (mem_tree_of_mem member)

/-! ## Merge -/

theorem deleteSubnetRowsWithRanges_tree {db : Db} {ids : List Nat}
    (leaves : ∀ place ∈ db.tree, ∀ id, place.parentId = some id → id ∉ ids) :
    (db.deleteSubnetRowsWithRanges ids).tree = remove db.tree ids := by
  unfold deleteSubnetRowsWithRanges
  induction ids generalizing db with
  | nil => simp [remove]
  | cons id ids ih =>
    have childless : ∀ child, (child, some id) ∉ db.tree.map fun place =>
        (place.id, place.parentId) := by
      intro child member
      obtain ⟨place, within, entry⟩ := List.mem_map.mp member
      exact leaves place within id (Prod.mk.inj entry).2 List.mem_cons_self
    have first : ({ db with env := db.env.deleteRanges (·.subnetId = id) }.deleteSubnetRow id).tree
        = remove db.tree [id] := by
      rw [tree_deleteSubnetRow]
      exact congrArg (remove db.tree) (subtree_of_childless childless)
    rw [List.foldl_cons, ih, first]
    · simp only [remove, List.filter_filter]
      refine List.filter_congr fun place _ => ?_
      simp only [List.mem_cons, List.not_mem_nil, or_false, not_or, Bool.decide_and]
      exact Bool.and_comm _ _
    · intro place member other up inside
      rw [first] at member
      exact leaves place (mem_remove.mp member).1 other up (List.mem_cons_of_mem _ inside)

theorem absorbSources_tree {db after : Db} {sources : List SubnetRow} {targetId : Nat}
    (leaves : ∀ place ∈ db.tree, ∀ id, place.parentId = some id → id ∉ sources.map (·.id))
    (done : db.absorbSources sources targetId = .ok after) :
    after.tree = remove db.tree (sources.map (·.id)) := by
  unfold absorbSources at done
  obtain ⟨moved, first, same⟩ := bind_eq_ok.mp done
  obtain rfl := Except.ok.inj same
  have kept : ({ moved with env :=
    moved.env.moveCustomRangesToSubnet (sources.map (·.id)) targetId } :
      Db).tree = db.tree := by
    refine tree_eq_of_subnets ?_
    exact (Env.moveCustomRangesToSubnet_subnets ..).trans (movePerIpArtifactsToSubnet_subnets first)
  rw [deleteSubnetRowsWithRanges_tree (by rwa [kept]), kept]

theorem finishMerge_tree {db after : Db} {now : Nat} {source : Option Scope} {targetId : Nat}
    {merged : Network} {gateway : Option Addr}
    (done : db.finishMerge now source targetId merged gateway = .ok after) :
    after.tree = db.tree := by
  unfold finishMerge at done
  obtain ⟨reconciled, first, done⟩ := bind_eq_ok.mp done
  obtain ⟨withScope, second, same⟩ := bind_eq_ok.mp done
  obtain rfl := Except.ok.inj same
  refine tree_eq_of_subnets ?_
  rw [createDefaultScopeFromSource_subnets second, reconcileSubnetTopology_env first,
    Env.createSystemRanges_subnets]

/-- The rows of a merge: childless siblings with their parent and their union. -/
structure Mergeable (db : Db) (sources : List SubnetRow) (parent : SubnetRow) (merged : Network) :
    Prop where
  members : ∀ source ∈ sources, source ∈ db.env.subnets.rows
  memberParent : parent ∈ db.env.subnets.rows
  up : ∀ source ∈ sources, source.info.parentId = some parent.id
  leaves : ∀ source ∈ sources, ∀ place ∈ db.tree, place.parentId ≠ some source.id
  union : Partitions merged (sources.map (·.key))
  nonempty : sources ≠ []

theorem mem_of_mapM_byId {db : Db} {ids : List Nat} {sources : List SubnetRow}
    (found : ids.mapM db.env.subnets.byId = some sources) :
    ∀ source ∈ sources, source ∈ db.env.subnets.rows := by
  induction ids generalizing sources with
  | nil =>
    obtain rfl : [] = sources := by simpa using found
    simp
  | cons id ids ih =>
    rw [List.mapM_cons] at found
    obtain ⟨first, head, found⟩ := Option.bind_eq_some_iff.mp found
    obtain ⟨rest, tail, same⟩ := Option.bind_eq_some_iff.mp found
    obtain rfl := Option.some.inj same
    exact List.forall_mem_cons.mpr ⟨(Table.byId_eq_some.mp head).1, ih tail⟩

theorem mergeSources_eq_ok {db : Db} {subnetIds : List Nat} {sources : List SubnetRow}
    {parent : SubnetRow} {merged : Network}
    (done : db.mergeSources subnetIds = .ok (sources, parent, merged)) :
    Mergeable db sources parent merged := by
  unfold mergeSources at done
  split at done
  · exact absurd done (by simp)
  split at done
  · exact absurd done (by simp)
  rename_i rows found
  split at done
  · exact absurd done (by simp)
  split at done
  · exact absurd done (by simp)
  rename_i parentId head
  split at done
  · exact absurd done (by simp)
  rename_i siblings
  split at done
  · exact absurd done (by simp)
  rename_i leaves
  obtain ⟨net, joined, done⟩ := bind_eq_ok.mp done
  split at done
  · exact absurd done (by simp)
  rename_i top byId
  obtain ⟨rfl, rest⟩ := Prod.mk.inj (Except.ok.inj done)
  obtain ⟨rfl, rfl⟩ := Prod.mk.inj rest
  obtain ⟨memberTop, rfl⟩ := Table.byId_eq_some.mp byId
  refine ⟨mem_of_mapM_byId found, memberTop, ?_, ?_,
    mergeNetworks_partitions (cidrStep_eq_ok.mp joined), ?_⟩
  · intro source member
    by_contra differs
    exact siblings (List.any_eq_true.mpr ⟨source, member, by simpa using differs⟩)
  · intro source member
    refine children_isEmpty_iff.mp ?_
    by_contra some
    exact leaves (List.any_eq_true.mpr ⟨source, member, by simpa using some⟩)
  · rintro rfl
    simp at head

namespace Mergeable

variable {db : Db} {sources : List SubnetRow} {parent : SubnetRow} {merged : Network}

theorem leaves_ids (mergeable : Mergeable db sources parent merged) :
    ∀ place ∈ db.tree, ∀ id, place.parentId = some id → id ∉ sources.map (·.id) := by
  intro place member id up inside
  obtain ⟨source, memberSource, rfl⟩ := List.mem_map.mp inside
  exact mergeable.leaves source memberSource place member up

theorem parent_not_source (mergeable : Mergeable db sources parent merged) :
    parent.id ∉ sources.map (·.id) := by
  intro inside
  obtain ⟨source, member, same⟩ := List.mem_map.mp inside
  have memberSource := mem_tree_of_mem (mergeable.members source member)
  refine mergeable.leaves source member (placeOf source) memberSource ?_
  exact (mergeable.up source member).trans (congrArg some same.symm)

theorem nextId_not_source (mergeable : Mergeable db sources parent merged) :
    db.env.subnets.nextId ∉ sources.map (·.id) := by
  intro inside
  obtain ⟨source, member, same⟩ := List.mem_map.mp inside
  exact absurd same (db.env.subnets.fresh source (mergeable.members source member)).ne

theorem leaves_inserted (mergeable : Mergeable db sources parent merged) {inserted : Db}
    {net : Network} {policy : Option GatewayPolicy} {info : SubnetInfo} {newId : Nat}
    (done : db.insertSubnet net policy info = .ok (inserted, newId))
    (below : info.parentId = some parent.id) :
    ∀ place ∈ inserted.tree, ∀ id, place.parentId = some id → id ∉ sources.map (·.id) := by
  intro place member id up
  rw [tree_insertSubnet done] at member
  rcases List.mem_append.mp member with member | new
  · exact mergeable.leaves_ids place member id up
  · rw [List.mem_singleton.mp new] at up
    obtain rfl : parent.id = id := Option.some.inj (below.symm.trans up)
    exact mergeable.parent_not_source

/-- The union of children is inside their parent, and is the parent when it is not
strictly inside. -/
theorem within_parent (mergeable : Mergeable db sources parent merged) (forest : IsForest db.tree)
    (differs : merged ≠ parent.key) : merged.isWithin parent.key = true := by
  have nested : ∀ source ∈ sources, source.key.isWithin parent.key = true := fun source member =>
    forest.within_of_child (mem_tree_of_mem (mergeable.members source member))
      (mem_tree_of_mem mergeable.memberParent) (mergeable.up source member)
  obtain ⟨some, memberSome⟩ := List.exists_mem_of_ne_nil _ mergeable.nonempty
  have family : merged.family = parent.key.family := by
    have inner := Network.isWithin_iff.mp
      (mergeable.union.within some.key (List.mem_map_of_mem memberSome))
    exact inner.1.symm.trans (Network.isWithin_iff.mp (nested some memberSome)).1
  have inside : ∀ value, merged.HasValue value → parent.key.HasValue value := by
    intro value has
    obtain ⟨key, memberKey, hasKey⟩ := mergeable.union.covers value has
    obtain ⟨source, member, rfl⟩ := List.mem_map.mp memberKey
    have bounds := Network.isWithin_iff.mp (nested source member)
    simp only [Network.HasValue] at hasKey ⊢
    omega
  have low := (inside merged.networkBig ⟨le_refl _, merged.networkBig_le_lastBig⟩).1
  have high := (inside merged.lastBig ⟨merged.networkBig_le_lastBig, le_refl _⟩).2
  refine Network.isWithin_iff.mpr ⟨family, low, high, ?_⟩
  have bits : merged.bits = parent.key.bits := by rw [Network.bits, Network.bits, family]
  have size : merged.sizeBig ≤ parent.key.sizeBig := by
    have first := merged.sizeBig_pos
    have second := parent.key.sizeBig_pos
    rw [Network.lastBig_eq, Network.lastBig_eq] at high
    omega
  have exponents : merged.bits - merged.prefixLen ≤ parent.key.bits - parent.key.prefixLen :=
    (Nat.pow_le_pow_iff_right (by decide : 1 < 2)).mp size
  have bound : merged.prefixLen ≤ merged.bits := merged.prefix_le
  have bound' : parent.key.prefixLen ≤ parent.key.bits := parent.key.prefix_le
  refine lt_of_le_of_ne (by omega) fun same => differs ?_
  have sizes : merged.sizeBig = parent.key.sizeBig := by
    rw [Network.sizeBig, Network.sizeBig, bits, same]
  rw [Network.lastBig_eq, Network.lastBig_eq, sizes] at high
  exact Network.eq_of_fields family (by omega) same.symm

end Mergeable

/-- Where `mergeSubnets` leads: the sources go, and the union is their parent or a new
place under it. -/
theorem mergeSubnets_tree {db after : Db} {now id : Nat} {sources : List SubnetRow}
    {parent : SubnetRow} {merged : Network} (mergeable : Mergeable db sources parent merged)
    (done : db.mergeSubnets now sources parent merged = .ok (after, id)) :
    (merged = parent.key ∧ after.tree = remove db.tree (sources.map (·.id))) ∨
      (merged ≠ parent.key ∧ after.tree = remove db.tree (sources.map (·.id)) ++
        [⟨db.env.subnets.nextId, merged, some parent.id, parent.info.depth + 1⟩]) := by
  unfold mergeSubnets at done
  simp only at done
  split at done
  · rename_i same
    obtain ⟨absorbed, first, done⟩ := bind_eq_ok.mp done
    obtain ⟨finished, second, last⟩ := bind_eq_ok.mp done
    obtain ⟨rfl, -⟩ := Prod.mk.inj (Except.ok.inj last)
    refine .inl ⟨same, ?_⟩
    rw [finishMerge_tree second, tree_setSubnet, absorbSources_tree mergeable.leaves_ids first]
    intro info
    unfold restoredInfo
    split <;> exact ⟨rfl, rfl⟩
  · rename_i differs
    obtain ⟨⟨inserted, mergedId⟩, zeroth, done⟩ := bind_eq_ok.mp done
    obtain ⟨absorbed, first, done⟩ := bind_eq_ok.mp done
    obtain ⟨finished, second, last⟩ := bind_eq_ok.mp done
    obtain ⟨rfl, -⟩ := Prod.mk.inj (Except.ok.inj last)
    refine .inr ⟨differs, ?_⟩
    have leaves := mergeable.leaves_inserted zeroth rfl
    rw [finishMerge_tree second, absorbSources_tree leaves first, tree_insertSubnet zeroth, remove,
      List.filter_append]
    refine congrArg _ ?_
    simp only [List.filter_cons, List.filter_nil, mergeable.nextId_not_source, not_false_eq_true,
      decide_true, if_true]
    rfl

theorem merge_eq_ok {db after : Db} {now : Nat} {request : MergeRequest}
    (done : db.merge now request = .ok after) :
    ∃ sources parent merged id, Mergeable db sources parent merged ∧
      db.mergeSubnets now sources parent merged = .ok (after, id) := by
  unfold merge at done
  obtain ⟨⟨sources, parent, merged⟩, found, done⟩ := bind_eq_ok.mp done
  obtain ⟨plan, -, done⟩ := bind_eq_ok.mp done
  simp only at done
  split at done
  · exact absurd done (by simp)
  split at done
  · exact absurd done (by simp)
  split at done
  · exact absurd done (by simp)
  split at done
  · exact absurd done (by simp)
  obtain ⟨⟨result, id⟩, ran, same⟩ := bind_eq_ok.mp done
  obtain rfl := Except.ok.inj same
  exact ⟨sources, parent, merged, id, mergeSources_eq_ok found, ran⟩

theorem merge_forest {db after : Db} {now : Nat} {request : MergeRequest}
    (forest : IsForest db.tree) (done : db.merge now request = .ok after) :
    IsForest after.tree := by
  obtain ⟨sources, parent, merged, id, mergeable, ran⟩ := merge_eq_ok done
  rcases mergeSubnets_tree mergeable ran with ⟨-, tree⟩ | ⟨differs, tree⟩
  · rw [tree]
    exact forest.remove fun place member above up inside =>
      absurd inside (mergeable.leaves_ids place member above up)
  · rw [tree]
    refine forest.join (mem_tree_of_mem mergeable.memberParent) rfl
      (mergeable.within_parent forest differs) db.fresh_nextId
      mergeable.parent_not_source ?_ mergeable.leaves_ids ?_
    · intro place member inside
      obtain ⟨source, memberSource, same⟩ := List.mem_map.mp inside
      have memberPlace := mem_tree_of_mem (mergeable.members source memberSource)
      rw [forest.ids place member _ memberPlace same.symm]
      exact mergeable.up source memberSource
    · intro value has
      obtain ⟨key, memberKey, hasKey⟩ := mergeable.union.covers value has
      obtain ⟨source, memberSource, rfl⟩ := List.mem_map.mp memberKey
      refine ⟨placeOf source, mem_tree_of_mem (mergeable.members source memberSource),
        List.mem_map_of_mem memberSource, ?_, hasKey⟩
      exact (Network.isWithin_iff.mp (mergeable.union.within _ memberKey)).1

/-! ## Runs -/

/-- The requests that change the tree. -/
inductive SubnetRequest where
  | create (fields : NewSubnet)
  | divide (now id : Nat) (request : DivideRequest)
  | merge (now : Nat) (request : MergeRequest)
  | delete (id : Nat)
  deriving DecidableEq, Repr

/-- The answer to a request. -/
def handle (db : Db) : SubnetRequest → Except Refusal Db
  | .create fields => db.createSubnet fields
  | .divide now id request => db.divide now id request
  | .merge now request => db.merge now request
  | .delete id => db.delete id

/-- One step of the server as the networks see it: a request of the tree that commits, a
configured network, or anything that leaves the `subnets` table alone. What else a
configuration writes is free. -/
inductive SubnetStep (allows : Db → SubnetRequest → Prop) : Db → Db → Prop where
  | handled {db after : Db} (request : SubnetRequest) (allowed : allows db request)
      (done : db.handle request = .ok after) : SubnetStep allows db after
  | configured {db after : Db} (id : Nat) (fields : Configuration)
      (written : after.env.subnets = Subnets.setInfo db.env.subnets id (configuredInfo fields)) :
      SubnetStep allows db after
  | elsewhere {db after : Db} (kept : after.env.subnets = db.env.subnets) :
      SubnetStep allows db after

/-- Any number of steps, whose requests are allowed where they are made. -/
def SubnetRun (allows : Db → SubnetRequest → Prop) : Db → Db → Prop :=
  Relation.ReflTransGen (SubnetStep allows)

/-- Every request may be made. -/
def anyRequest (_ : Db) (_ : SubnetRequest) : Prop := True

theorem configured_tree {db after : Db} {id : Nat} {fields : Configuration}
    (written : after.env.subnets = Subnets.setInfo db.env.subnets id (configuredInfo fields)) :
    after.tree = db.tree := by
  have same : after.tree = (db.setSubnet id (configuredInfo fields)).tree :=
    tree_eq_of_subnets written
  rw [same, tree_setSubnet _ _ (by exact fun _ => ⟨rfl, rfl⟩)]

theorem handle_forest {db after : Db} {request : SubnetRequest} (forest : IsForest db.tree)
    (done : db.handle request = .ok after) : IsForest after.tree := by
  cases request with
  | create fields => exact createSubnet_forest forest done
  | divide now id request => exact divide_forest forest done
  | merge now request => exact merge_forest forest done
  | delete id => exact delete_forest forest done

theorem SubnetStep.forest {allows : Db → SubnetRequest → Prop} {db after : Db}
    (step : SubnetStep allows db after) (forest : IsForest db.tree) : IsForest after.tree := by
  cases step with
  | handled request _ done => exact handle_forest forest done
  | configured id fields written =>
    rw [configured_tree written]
    exact forest
  | elsewhere kept =>
    rw [tree_eq_of_subnets kept]
    exact forest

theorem SubnetRun.forest {allows : Db → SubnetRequest → Prop} {start after : Db}
    (run : SubnetRun allows start after) (forest : IsForest start.tree) : IsForest after.tree := by
  induction run with
  | refl => exact forest
  | tail _ step held => exact step.forest held

theorem tree_of_no_rows {db : Db} (empty : db.env.subnets.rows = []) : db.tree = [] := by
  rw [tree, empty, List.map_nil]

theorem isLeaf_iff {db : Db} {row : SubnetRow} :
    db.env.isLeaf row = true ↔ ∀ place ∈ db.tree, place.parentId ≠ some row.id := by
  rw [Env.isLeaf, List.all_eq_true]
  constructor
  · intro all place member
    obtain ⟨child, within, rfl⟩ := List.mem_map.mp member
    exact of_decide_eq_true (all child within)
  · exact fun none child member => decide_eq_true (none _ (mem_tree_of_mem member))

/-- `findSubnetForIp` has at most one candidate. -/
theorem candidates_length_le {db : Db} (forest : IsForest db.tree) (addr : Addr) :
    ((db.env.subnets.rows.filter db.env.isLeaf).filter (·.key.contains addr)).length ≤ 1 := by
  have rows : db.env.subnets.rows.Nodup := List.Nodup.of_map _ db.env.subnets.idsDistinct
  have distinct := (rows.filter db.env.isLeaf).filter (·.key.contains addr)
  rcases found : (db.env.subnets.rows.filter db.env.isLeaf).filter (·.key.contains addr) with
    _ | ⟨first, _ | ⟨second, rest⟩⟩
  · rw [found]
    exact Nat.zero_le 1
  · rw [found]
    exact le_refl 1
  · have candidate : ∀ row ∈ first :: second :: rest, row ∈ db.env.subnets.rows ∧
        db.env.isLeaf row = true ∧ row.key.contains addr = true := by
      intro row member
      rw [← found] at member
      obtain ⟨leaf, inside⟩ := List.mem_filter.mp member
      exact ⟨(List.mem_filter.mp leaf).1, (List.mem_filter.mp leaf).2, inside⟩
    obtain ⟨memberFirst, leafFirst, insideFirst⟩ := candidate first List.mem_cons_self
    obtain ⟨memberSecond, leafSecond, insideSecond⟩ :=
      candidate second (List.mem_cons_of_mem _ List.mem_cons_self)
    have same := forest.leaf_unique (mem_tree_of_mem memberFirst) (mem_tree_of_mem memberSecond)
      insideFirst insideSecond (isLeaf_iff.mp leafFirst) (isLeaf_iff.mp leafSecond)
    have ids : first.id = second.id := congrArg Place.id same
    rw [found] at distinct
    refine absurd ?_ (List.nodup_cons.mp distinct).1
    rw [db.env.subnets.eq_of_id_eq memberFirst memberSecond ids]
    exact List.mem_cons_self

/-- **From an empty table, networks are strictly inside their parents, networks with one
parent or none share no address, and an address is in at most one leaf.** -/
theorem forest_of_run {start after : Db} (empty : start.env.subnets.rows = [])
    (run : SubnetRun anyRequest start after) :
    (∀ row ∈ after.env.subnets.rows, ∀ id, row.info.parentId = some id →
      ∃ parent ∈ after.env.subnets.rows, parent.id = id ∧ row.key.isWithin parent.key = true) ∧
    (∀ row ∈ after.env.subnets.rows, ∀ other ∈ after.env.subnets.rows,
      row.info.parentId = other.info.parentId → row.id ≠ other.id →
        ∀ addr, ¬(row.key.contains addr = true ∧ other.key.contains addr = true)) ∧
    ∀ addr, ((after.env.subnets.rows.filter after.env.isLeaf).filter (·.key.contains addr)).length ≤
    1 := by
  have forest : IsForest after.tree := by
    refine run.forest ?_
    rw [tree_of_no_rows empty]
    exact IsForest.nil
  refine ⟨?_, ?_, candidates_length_le forest⟩
  · intro row member id up
    obtain ⟨above, memberAbove, same, inside⟩ := forest.nests _ (mem_tree_of_mem member) id up
    obtain ⟨parent, memberParent, rfl⟩ := List.mem_map.mp memberAbove
    exact ⟨parent, memberParent, same, inside⟩
  · rintro row member other memberOther up differs addr ⟨inside, insideOther⟩
    have apart := forest.siblings _ (mem_tree_of_mem member) _
      (mem_tree_of_mem memberOther) up differs
    exact Network.not_contains_of_overlaps apart inside insideOther

/-- Requests one after another, as long as each is allowed and commits. -/
def replay (allows : Db → SubnetRequest → Prop) [DecidableRel allows] (db : Db) :
    List SubnetRequest → Option Db
  | [] => some db
  | request :: rest =>
    if allows db request then
      match db.handle request with
      | .ok after => replay allows after rest
      | .error _ => none
    else none

theorem run_of_replay {allows : Db → SubnetRequest → Prop} [DecidableRel allows] {start after : Db}
    {requests : List SubnetRequest} (done : replay allows start requests = some after) :
    SubnetRun allows start after := by
  induction requests generalizing start with
  | nil =>
    obtain rfl := Option.some.inj done
    exact .refl
  | cons request rest ih =>
    unfold replay at done
    split at done
    · rename_i allowed
      split at done
      · rename_i middle committed
        exact (ih done).head (.handled request allowed committed)
      · exact absurd done (by simp)
    · exact absurd done (by simp)

instance : DecidableRel anyRequest := fun _ _ => inferInstanceAs (Decidable True)

/-- The database before the first network. -/
def vacant : Db := ⟨{ officeEnv with subnets := .empty }, .empty⟩

/-- A supernet that is cut in halves, one of them again, and put together again there. -/
def halvings : List SubnetRequest :=
  [.create { cidr := "10.0.0.0/24".toList },
    .divide 100 1 { mode := .equal 25 },
    .divide 200 2 { mode := .equal 26 },
    .merge 300 { subnetIds := [4, 5] },
    .divide 400 3 { mode := .carve "10.0.0.128/26".toList }]

theorem forest_of_run_halvings : ∃ after : Db, replay anyRequest vacant halvings = some after ∧
    after.env.subnets.rows.map (fun row => (row.id, row.info.parentId)) =
      [(1, none), (2, some 1), (3, some 1), (6, some 3), (7, some 3)] ∧
    ∀ addr, ((after.env.subnets.rows.filter after.env.isLeaf).filter
      (·.key.contains addr)).length ≤ 1 := by
  have shape : (replay anyRequest vacant halvings).map (fun after => after.env.subnets.rows.map
      fun row => (row.id, row.info.parentId)) =
      some [(1, none), (2, some 1), (3, some 1), (6, some 3), (7, some 3)] := by decide +kernel
  obtain ⟨after, done, rows⟩ := Option.map_eq_some_iff.mp shape
  exact ⟨after, done, rows, (forest_of_run rfl (run_of_replay done)).2.2⟩

end Db

end Cidrella
