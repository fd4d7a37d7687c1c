import Cidrella.SubnetRoutes
import Cidrella.SubnetTree

/-!
# What the requests do to the tree

Each operation of the requests with what it does to `subnets`: most leave the table as it
is, and the others are one operation on `Db.tree` each.
-/

set_option autoImplicit false

namespace Cidrella

open Places

/-! ## Operations that leave the networks alone -/

namespace Env

theorem createSystemRanges_subnets (env : Env) (subnetId : Nat) (net : Network)
    (gateway : Option Addr) : (env.createSystemRanges subnetId net gateway).subnets =
    env.subnets := by
  unfold createSystemRanges
  split
  · rfl
  · simp only
    cases gateway <;> split <;> rfl

theorem copyUserRangesToChild_subnets (env : Env) (parentId childId : Nat) (net : Network) :
    (env.copyUserRangesToChild parentId childId net).subnets = env.subnets := by
  unfold copyUserRangesToChild
  refine List.foldlRecOn (motive := fun copied : Env => copied.subnets = env.subnets) _ _ rfl
    fun copied same range _ => ?_
  rw [← same]
  split <;> rfl

theorem moveCustomRangesToSubnet_subnets (env : Env) (sourceIds : List Nat) (targetId : Nat) :
    (env.moveCustomRangesToSubnet sourceIds targetId).subnets = env.subnets := by
  unfold moveCustomRangesToSubnet
  split <;> rfl

theorem moveCustomRangesToSubnet_scopes (env : Env) (sourceIds : List Nat) (targetId : Nat) :
    (env.moveCustomRangesToSubnet sourceIds targetId).scopes = env.scopes := by
  unfold moveCustomRangesToSubnet
  split <;> rfl

end Env

/-- A new scope leaves everything but ranges, scopes and pools alone. -/
theorem createDefaultScopeFromSource_subnets {env after : Env} {store : IpStore}
    {source : Option Scope} {targetId : Nat} {net : Network} {gateway : Option Addr}
    (done : createDefaultScopeFromSource env store source targetId net gateway = .ok after) :
    after.subnets = env.subnets := by
  cases source with
  | none =>
    obtain rfl := Except.ok.inj done
    rfl
  | some source =>
    unfold createDefaultScopeFromSource at done
    simp only at done
    split at done
    · unfold createDefaultV6Scope at done
      split at done
      · obtain rfl := Except.ok.inj done
        rfl
      · split at done
        · exact absurd done (by simp)
        · simp only at done
          split at done
          · exact absurd done (by simp)
          · obtain rfl := Except.ok.inj done
            rfl
    · unfold createDefaultV4Scope at done
      obtain ⟨pool, -, done⟩ := bind_eq_ok.mp done
      cases pool with
      | none =>
        obtain rfl := Except.ok.inj done
        rfl
      | some pool =>
        simp only at done
        split at done
        · exact absurd done (by simp)
        · split at done
          · exact absurd done (by simp)
          · obtain rfl := Except.ok.inj done
            rfl

theorem cidrStep_eq_ok {α : Type} {result : Except CidrError α} {value : α} :
    cidrStep result = .ok value ↔ result = .ok value := by
  cases result <;> simp [cidrStep]

namespace Db

theorem reconcileSubnetTopology_env {db after : Db} {now id : Nat}
    (done : db.reconcileSubnetTopology now id = .ok after) : after.env = db.env := by
  unfold reconcileSubnetTopology at done
  split at done
  · obtain rfl := Except.ok.inj done
    rfl
  · obtain ⟨store, -, same⟩ := bind_eq_ok.mp done
    obtain rfl := Except.ok.inj same
    rfl

theorem reconcileChildTopology_env {db after : Db} {now parentId : Nat}
    (done : db.reconcileChildTopology now parentId = .ok after) : after.env = db.env :=
  foldlM_invariant (P := fun current : Db => current.env = db.env)
    (fun _ _ _ _ held step => (reconcileSubnetTopology_env step).trans held) done rfl

theorem moveRowToChild_env {db after : Db} {parentId : Nat} {row : IpRow}
    (done : moveRowToChild parentId db row = .ok after) : after.env = db.env := by
  unfold moveRowToChild at done
  split at done
  · obtain rfl := Except.ok.inj done
    rfl
  · obtain ⟨store, -, same⟩ := bind_eq_ok.mp done
    obtain rfl := Except.ok.inj same
    rfl

theorem transferPerIpArtifactsToChildren_env {db after : Db} {parentId : Nat}
    (done : db.transferPerIpArtifactsToChildren parentId = .ok after) :
    after.env = ((db.moveReservationsToChildren parentId).moveLeasesToChildren parentId).env :=
  foldlM_invariant (P := fun current : Db => current.env =
      ((db.moveReservationsToChildren parentId).moveLeasesToChildren parentId).env)
    (fun _ _ _ _ held step => (moveRowToChild_env step).trans held) done rfl

theorem cleanupLossy_subnets (db : Db) (parentId : Nat) (item : Lossy) :
    (cleanupLossy parentId db item).env.subnets = db.env.subnets := by
  unfold cleanupLossy
  cases item.carries <;> rfl

theorem cleanupLossyArtifactsAfterDivide_subnets (db : Db) (parentId : Nat)
    (accepted : List Lossy) :
    (db.cleanupLossyArtifactsAfterDivide parentId accepted).env.subnets = db.env.subnets := by
  unfold cleanupLossyArtifactsAfterDivide
  induction accepted generalizing db with
  | nil => rfl
  | cons item accepted ih => rw [List.foldl_cons, ih, cleanupLossy_subnets]

theorem movePerIpArtifactsToSubnet_subnets {db after : Db} {sourceIds : List Nat} {targetId : Nat}
    (done : db.movePerIpArtifactsToSubnet sourceIds targetId = .ok after) :
    after.env.subnets = db.env.subnets := by
  unfold movePerIpArtifactsToSubnet at done
  obtain ⟨reserved, moved, done⟩ := bind_eq_ok.mp done
  have kept : reserved.subnets = db.env.subnets := by
    unfold moveReservationsToSubnet at moved
    simp only at moved
    split at moved
    · obtain rfl := Except.ok.inj moved
      rfl
    · exact absurd moved (by simp)
  refine foldlM_invariant (P := fun current : Db => current.env.subnets = db.env.subnets)
    ?_ done kept
  intro row _ before later held step
  obtain ⟨store, -, same⟩ := bind_eq_ok.mp step
  obtain rfl := Except.ok.inj same
  exact held

/-! ## The tree -/

/-- The place of a row. -/
def placeOf (row : SubnetRow) : Place := ⟨row.id, row.key, row.info.parentId, row.info.depth⟩

/-- The network tree. -/
def tree (db : Db) : List Place := db.env.subnets.rows.map placeOf

theorem mem_tree_of_mem {db : Db} {row : SubnetRow} (member : row ∈ db.env.subnets.rows) :
    placeOf row ∈ db.tree := List.mem_map_of_mem member

theorem tree_eq_of_subnets {db other : Db} (same : other.env.subnets = db.env.subnets) :
    other.tree = db.tree := by
  rw [tree, tree, same]

theorem tree_setSubnet (db : Db) (id : Nat) {change : SubnetInfo → SubnetInfo}
    (kept : ∀ info, (change info).parentId = info.parentId ∧ (change info).depth = info.depth) :
    (db.setSubnet id change).tree = db.tree := by
  simp only [tree, setSubnet, Subnets.setInfo, Table.update, List.map_map]
  refine List.map_congr_left fun row _ => ?_
  simp only [Function.comp_apply]
  split
  · simp only [placeOf, kept row.info]
  · rfl

theorem tree_deleteSubnets (db : Db) (ids : List Nat) :
    (db.deleteSubnets ids).tree = remove db.tree ids := by
  simp only [tree, deleteSubnets, Env.deleteSubnets, Table.delete, remove, List.filter_map]
  congr 1
  refine List.filter_congr fun row _ => ?_
  rw [Function.comp_apply, ← decide_not]
  exact decide_eq_decide.mpr Iff.rfl

theorem subtreeOf_eq (db : Db) (id : Nat) : db.subtreeOf id = below db.tree id := by
  rw [subtreeOf, below, tree, Subnets.links, List.map_map]
  rfl

theorem tree_deleteSubnetRow (db : Db) (id : Nat) :
    (db.deleteSubnetRow id).tree = remove db.tree (below db.tree id) := by
  rw [deleteSubnetRow, tree_deleteSubnets, subtreeOf_eq]

theorem tree_deleteDescendantSubnets (db : Db) (id : Nat) :
    (db.deleteDescendantSubnets id).tree =
      remove db.tree ((below db.tree id).filter (· ≠ id)) := by
  simp only [deleteDescendantSubnets, tree_deleteSubnets, subtreeOf_eq]
  rfl

theorem tree_deleteSubnetData (db : Db) (id : Nat) : (db.deleteSubnetData id).tree = db.tree := rfl

theorem children_isEmpty_iff {db : Db} {id : Nat} :
    (Subnets.children db.env.subnets id).isEmpty = true ↔
      ∀ place ∈ db.tree, place.parentId ≠ some id := by
  rw [List.isEmpty_iff, Subnets.children, List.filter_eq_nil_iff]
  constructor
  · intro none place member
    obtain ⟨row, within, rfl⟩ := List.mem_map.mp member
    exact fun up => none row within (decide_eq_true up)
  · intro none row member up
    exact none _ (mem_tree_of_mem member) (of_decide_eq_true up)

/-! ## New networks -/

/-- What an accepted `insertSubnet` does. -/
theorem insertSubnet_eq_ok {db after : Db} {net : Network} {policy : Option GatewayPolicy}
    {info : SubnetInfo} {id : Nat} (done : db.insertSubnet net policy info = .ok (after, id)) :
    id = db.env.subnets.nextId ∧ after.store = db.store ∧
      ∃ subnets, after.env = { db.env with subnets := subnets } ∧
        db.env.subnets.insert net (insertedInfo net policy info) = some subnets := by
  unfold insertSubnet at done
  split at done
  · rename_i subnets inserted
    obtain ⟨rfl, rfl⟩ := Prod.mk.inj (Except.ok.inj done)
    exact ⟨rfl, rfl, subnets, rfl, inserted⟩
  · exact absurd done (by simp)

theorem tree_insertSubnet {db after : Db} {net : Network} {policy : Option GatewayPolicy}
    {info : SubnetInfo} {id : Nat} (done : db.insertSubnet net policy info = .ok (after, id)) :
    after.tree = db.tree ++ [⟨db.env.subnets.nextId, net, info.parentId, info.depth⟩] := by
  obtain ⟨-, -, subnets, env, inserted⟩ := insertSubnet_eq_ok done
  rw [tree, env, (Table.insert_eq_some inserted).2.1, List.map_append]
  rfl

theorem fresh_nextId (db : Db) : ∀ place ∈ db.tree, place.id ≠ db.env.subnets.nextId := by
  intro place member
  obtain ⟨row, within, rfl⟩ := List.mem_map.mp member
  exact (db.env.subnets.fresh row within).ne

theorem migrateConfigToChild_tree {db after : Db} {parent : SubnetRow} {childId : Nat}
    {net : Network} {gateway : Option Addr}
    (done : db.migrateConfigToChild parent childId net gateway = .ok after) :
    after.tree = db.tree := by
  unfold migrateConfigToChild at done
  obtain ⟨withScope, created, done⟩ := bind_eq_ok.mp done
  have kept : withScope.subnets = db.env.subnets := by
    rw [createDefaultScopeFromSource_subnets created, Env.createSystemRanges_subnets]
  have copied : (⟨withScope.copyUserRangesToChild parent.id childId net, db.store⟩ : Db).tree =
      db.tree := tree_eq_of_subnets (by
    rw [Env.copyUserRangesToChild_subnets]
    exact kept)
  simp only at done
  obtain rfl := Except.ok.inj done
  split
  · rw [tree_setSubnet _ _ (by exact fun _ => ⟨rfl, rfl⟩)]
    exact copied
  · exact copied

theorem insertChild_tree {db after : Db} {parent : SubnetRow} {target : PlanTarget}
    (done : insertChild parent db target = .ok after) :
    after.tree = db.tree ++
      [⟨db.env.subnets.nextId, target.net, some parent.id, parent.info.depth + 1⟩] := by
  unfold insertChild at done
  obtain ⟨⟨inserted, childId⟩, first, second⟩ := bind_eq_ok.mp done
  rw [migrateConfigToChild_tree second, tree_insertSubnet first]
  rfl

theorem clearParentConfig_tree (db : Db) (parentId : Nat) :
    (db.clearParentConfig parentId).tree = db.tree := by
  rw [clearParentConfig, tree_setSubnet _ _ (by exact fun _ => ⟨rfl, rfl⟩)]
  rfl

/-! ## Flattening -/

theorem subtree_reparent (subnets : Table Network SubnetInfo) {old new depth : Nat}
    (differs : new ≠ old) :
    subtree (Subnets.links (Subnets.reparent subnets old new depth)) old = [old] := by
  refine subtree_of_childless fun id member => ?_
  obtain ⟨row, within, entry⟩ := List.mem_map.mp member
  have up := (Prod.mk.inj entry).2
  obtain ⟨former, -, rfl⟩ := Table.mem_update.mp within
  split at up
  · exact differs (Option.some.inj up)
  · rename_i other
    exact other (beq_iff_eq.mpr up)

theorem flattenChild_tree {db : Db} {child : SubnetRow} {parentId : Nat}
    (differs : parentId ≠ child.id) :
    (flattenChild parentId db child).tree =
      remove (raise db.tree child.id parentId child.info.depth) [child.id] := by
  let subnets := Subnets.reparent db.env.subnets child.id parentId child.info.depth
  have raised : ({ db with env := { db.env with subnets := subnets } } : Db).tree =
      raise db.tree child.id parentId child.info.depth := by
    simp only [tree, subnets, Subnets.reparent, Table.update, raise, List.map_map]
    refine List.map_congr_left fun row _ => ?_
    by_cases up : row.info.parentId = some child.id
    · simp [placeOf, up]
    · simp [placeOf, up]
  rw [flattenChild, deleteSubnetRow, tree_deleteSubnets, raised, subtreeOf,
    subtree_reparent db.env.subnets differs]

theorem mem_flattenChild_rows {db : Db} {child : SubnetRow} {parentId : Nat}
    (differs : parentId ≠ child.id) {row : SubnetRow} :
    row ∈ (flattenChild parentId db child).env.subnets.rows ↔
      row ∈ (Subnets.reparent db.env.subnets child.id parentId child.info.depth).rows ∧
        row.id ≠ child.id := by
  simp only [flattenChild, deleteSubnetRow, subtreeOf, subtree_reparent db.env.subnets differs,
    deleteSubnets, Env.deleteSubnets, Table.mem_delete, List.mem_singleton, decide_eq_false_iff_not]

end Db

end Cidrella
