import Cidrella.SubnetForest

/-!
# Depths of networks

`consolidateIntermediate` writes the depth of the networks it raises and of none below
them. The depths stay right along every run whose divides flatten only levels without
great-grandchildren (`depthsRight_of_run`); a run without this proviso leaves a network
two levels too deep (`flattened_level_keeps_old_depths`).
-/

set_option autoImplicit false

namespace Cidrella

open Places

/-! ## Which levels a divide flattens -/

namespace Subnets

/-- Every network of the level but `below` is an intermediary. -/
def flattensAround (subnets : Table Network SubnetInfo) (below parentId : Nat) : Bool :=
  (children subnets parentId).all fun row => row.id = below || isIntermediary subnets row

/-- The networks of the level but `below` have no grandchildren. -/
def isShallow (subnets : Table Network SubnetInfo) (below parentId : Nat) : Bool :=
  (children subnets parentId).all fun row => row.id = below ||
    (children subnets row.id).all fun child => (children subnets child.id).isEmpty

/-- On the way up from `below`, every level that is flattened is shallow. A level above an
allocated network is not flattened. -/
def shallowUp (subnets : Table Network SubnetInfo) : Nat → Nat → Option Nat → Bool
  | 0, _, _ => true
  | _ + 1, _, none => true
  | levels + 1, below, some parentId =>
    !flattensAround subnets below parentId ||
      (isShallow subnets below parentId &&
        match subnets.byId parentId with
        | none => true
        | some parent => parent.info.status ≠ .unallocated ||
            shallowUp subnets levels parentId parent.info.parentId)

end Subnets

/-! ## Raising networks without children -/

/-- No network has this parent. -/
def Childless (tree : List Place) (id : Nat) : Prop := ∀ lower ∈ tree, lower.parentId ≠ some id

theorem Childless.flatten {tree : List Place} {old parentId depth id : Nat}
    (childless : Childless tree id) (differs : id ≠ parentId) :
    Childless (Places.remove (raise tree old parentId depth) [old]) id := by
  intro lower member up
  rcases IsForest.mem_flatten.mp member with ⟨former, -, -, -, rfl⟩ | ⟨inTree, -, -⟩
  · exact differs (Option.some.inj up).symm
  · exact childless lower inTree up

/-- The children of `parentId` have no children of their own, those that are still to be
flattened no grandchildren. -/
structure ShallowLevel (tree : List Place) (parentId : Nat) (pending : List Nat) : Prop where
  raised : ∀ place ∈ tree, place.parentId = some parentId → place.id ∉ pending →
    Childless tree place.id
  waiting : ∀ place ∈ tree, ∀ id ∈ pending, place.parentId = some id → Childless tree place.id

theorem ShallowLevel.flatten {tree : List Place} (forest : IsForest tree) {child : Place}
    {parentId : Nat} {pending : List Nat}
    (shallow : ShallowLevel tree parentId (child.id :: pending)) (member : child ∈ tree)
    (parent : child.parentId = some parentId) (siblings : ∀ id ∈ pending, ∃ place ∈ tree,
    place.id = id ∧ place.parentId = some parentId) :
    ShallowLevel (Places.remove (raise tree child.id parentId child.depth) [child.id]) parentId
      pending := by
  obtain ⟨top, memberTop, rfl, -⟩ := forest.nests child member parentId parent
  -- What is below the level is not the level's own parent: its prefix is longer.
  have deeper : ∀ place ∈ tree, top.net.prefixLen < place.net.prefixLen → place.id ≠ top.id := by
    intro place within longer same
    rw [forest.ids place within top memberTop same] at longer
    exact lt_irrefl _ longer
  constructor
  · intro place memberPlace up waits
    rcases IsForest.mem_flatten.mp memberPlace with ⟨former, inTree, -, raised,
      rfl⟩ | ⟨inTree, stays, -⟩
    · refine (shallow.waiting former inTree child.id List.mem_cons_self raised).flatten ?_
      exact deeper former inTree ((forest.prefix_lt member memberTop parent).trans
        (forest.prefix_lt inTree member raised))
    · refine (shallow.raised place inTree up ?_).flatten ?_
      · exact List.not_mem_cons_of_ne_of_not_mem stays waits
      · exact deeper place inTree (forest.prefix_lt inTree memberTop up)
  · intro place memberPlace id waits up
    obtain ⟨sibling, memberSibling, rfl, upSibling⟩ := siblings id waits
    have below := forest.prefix_lt memberSibling memberTop upSibling
    rcases IsForest.mem_flatten.mp memberPlace with ⟨former, -, -, -, rfl⟩ | ⟨inTree, -, -⟩
    · exact absurd (Option.some.inj up).symm (deeper sibling memberSibling below)
    · refine (shallow.waiting place inTree _ (List.mem_cons_of_mem _ waits) up).flatten ?_
      exact deeper place inTree (below.trans (forest.prefix_lt inTree memberSibling up))

namespace Db

/-- A shallow level is flattened with the right depths, and its networks are then leaves. -/
theorem flattenLevel_depths {db : Db} (forest : IsForest db.tree) (right : DepthsRight db.tree)
    {parentId : Nat}
    (shallow : ShallowLevel db.tree parentId
    ((Subnets.children db.env.subnets parentId).map Row.id)) :
    DepthsRight (db.flattenLevel parentId).tree ∧ ShallowLevel (db.flattenLevel parentId).tree
    parentId [] := by
  have fold : ∀ (rows : List SubnetRow) (db : Db), IsForest db.tree → DepthsRight db.tree →
      AreChildren db parentId rows → ShallowLevel db.tree parentId (rows.map Row.id) →
      DepthsRight (rows.foldl (Db.flattenChild parentId) db).tree ∧
        ShallowLevel (rows.foldl (Db.flattenChild parentId) db).tree parentId [] := by
    intro rows
    induction rows with
    | nil => exact fun _ _ right _ shallow => ⟨right, shallow⟩
    | cons child rows ih =>
      intro db forest right children shallow
      have placed := children.placed child List.mem_cons_self
      have up := children.up child List.mem_cons_self
      have tree : (Db.flattenChild parentId db child).tree = _ :=
        flattenChild_tree (parentId_ne forest placed up)
      rw [List.foldl_cons]
      refine ih _ (flattenChild_forest forest placed up) ?_ (children.flattenChild forest) ?_
      · rw [tree]
        exact right.flatten forest placed up fun place member below =>
          shallow.waiting place member child.id List.mem_cons_self below
      · rw [tree]
        refine shallow.flatten forest placed up fun id waits => ?_
        obtain ⟨row, member, rfl⟩ := List.mem_map.mp waits
        have later := List.mem_cons_of_mem child member
        exact ⟨placeOf row, children.placed row later, rfl, children.up row later⟩
  exact fold _ db forest right (areChildren_children db parentId) shallow

/-! ## What a divide leaves alone -/

/-- The rows outside a network are the same before and after. -/
def SameOutside (net : Network) (db after : Db) : Prop :=
  ∀ row : SubnetRow, row.key.isWithin net = false → row.key ≠ net →
    (row ∈ after.env.subnets.rows ↔ row ∈ db.env.subnets.rows)

namespace SameOutside

theorem trans {net : Network} {db middle after : Db} (first : SameOutside net db middle)
    (second : SameOutside net middle after) : SameOutside net db after :=
  fun row outside differs => (second row outside differs).trans (first row outside differs)

theorem of_subnets {net : Network} {db after : Db} (same : after.env.subnets = db.env.subnets) :
    SameOutside net db after := by
  intro row _ _
  rw [same]

theorem widen {net larger : Network} {db after : Db} (same : SameOutside net db after)
    (inside : net.isWithin larger = true) : SameOutside larger db after := by
  intro row outside differs
  refine same row ?_ ?_
  · by_contra within
    rw [Bool.not_eq_false] at within
    rw [Network.isWithin_trans within inside] at outside
    exact absurd outside (by simp)
  · rintro rfl
    rw [inside] at outside
    exact absurd outside (by simp)

theorem setSubnet {net : Network} (db : Db) {id : Nat} (change : SubnetInfo → SubnetInfo)
    (inside : ∀ row ∈ db.env.subnets.rows, row.id = id → row.key.isWithin net = true ∨
    row.key = net) :
    SameOutside net db (db.setSubnet id change) := by
  intro row outside differs
  have untouched : ∀ former ∈ db.env.subnets.rows, former.key = row.key → former.id ≠ id := by
    intro former member key same
    rcases inside former member same with within | equal
    · rw [key, outside] at within
      exact absurd within (by simp)
    · exact differs (key.symm.trans equal)
  exact Table.mem_update_of_untouched fun former member key =>
    beq_eq_false_iff_ne.mpr (untouched former member key)

theorem insertSubnet {net child : Network} {db after : Db} {policy : Option GatewayPolicy}
    {info : SubnetInfo} {id : Nat} (inside : child.isWithin net = true)
    (done : db.insertSubnet child policy info = .ok (after, id)) : SameOutside net db after := by
  obtain ⟨-, -, subnets, env, inserted⟩ := insertSubnet_eq_ok done
  intro row outside _
  rw [env, Table.mem_insert inserted]
  refine ⟨?_, .inl⟩
  rintro (member | rfl)
  · exact member
  · rw [inside] at outside
    exact absurd outside (by simp)

theorem insertChild {parent : SubnetRow} {db after : Db} {target : PlanTarget}
    (inside : target.net.isWithin parent.key = true)
    (done : insertChild parent db target = .ok after) : SameOutside parent.key db after := by
  unfold Db.insertChild at done
  obtain ⟨⟨inserted, childId⟩, first, done⟩ := bind_eq_ok.mp done
  refine (SameOutside.insertSubnet inside first).trans ?_
  obtain ⟨rfl, -, subnets, env, stored⟩ := insertSubnet_eq_ok first
  simp only [migrateConfigToChild] at done
  obtain ⟨withScope, created, same⟩ := bind_eq_ok.mp done
  obtain rfl := Except.ok.inj same
  have kept : (withScope.copyUserRangesToChild parent.id db.env.subnets.nextId target.net).subnets =
      inserted.env.subnets := by
    rw [Env.copyUserRangesToChild_subnets, createDefaultScopeFromSource_subnets created,
      Env.createSystemRanges_subnets]
  have copied : SameOutside parent.key inserted { inserted with
      env := withScope.copyUserRangesToChild parent.id db.env.subnets.nextId target.net } :=
    of_subnets kept
  split
  · refine copied.trans (setSubnet _ _ fun row member named => .inl ?_)
    rw [kept, env] at member
    rcases (Table.mem_insert stored).mp member with former | rfl
    · exact absurd named (db.env.subnets.fresh row former).ne
    · exact inside
  · exact copied

theorem flattenChild {db : Db} (forest : IsForest db.tree) {parent child : SubnetRow}
    (memberParent : placeOf parent ∈ db.tree) (member : placeOf child ∈ db.tree)
    (up : child.info.parentId = some parent.id) :
    SameOutside parent.key db (flattenChild parent.id db child) := by
  have insideChild : child.key.isWithin parent.key = true :=
    forest.within_of_child member memberParent up
  intro row outside differs
  have apart : ∀ former ∈ db.env.subnets.rows, former.key = row.key →
      former.info.parentId ≠ some child.id := by
    intro former within key below
    have inside : former.key.isWithin child.key = true :=
      forest.within_of_child (mem_tree_of_mem within) member below
    rw [key] at inside
    rw [Network.isWithin_trans inside insideChild] at outside
    exact absurd outside (by simp)
  rw [mem_flattenChild_rows (parentId_ne forest member up), Subnets.reparent,
    Table.mem_update_of_untouched fun former within key =>
      beq_eq_false_iff_ne.mpr (apart former within key)]
  refine ⟨And.left, fun within => ⟨within, fun same => ?_⟩⟩
  have equal := forest.ids _ (mem_tree_of_mem within) _ member same
  rw [show row.key = child.key from congrArg Place.net equal, insideChild] at outside
  exact absurd outside (by simp)

end SameOutside

theorem mem_flattenChild_parent {db : Db} (forest : IsForest db.tree) {parent child : SubnetRow}
    (memberParent : parent ∈ db.env.subnets.rows) (member : placeOf child ∈ db.tree)
    (up : child.info.parentId = some parent.id) :
    parent ∈ (flattenChild parent.id db child).env.subnets.rows := by
  have placed := mem_tree_of_mem memberParent
  have shorter := forest.prefix_lt member placed up
  rw [mem_flattenChild_rows (parentId_ne forest member up)]
  refine ⟨Table.mem_update.mpr ⟨parent, memberParent, ?_⟩, parentId_ne forest member up⟩
  rw [if_neg]
  intro cycle
  have longer := forest.prefix_lt placed member (beq_iff_eq.mp cycle)
  omega

theorem sameOutside_flattenLevel {db : Db} (forest : IsForest db.tree) {parent : SubnetRow}
    (memberParent : parent ∈ db.env.subnets.rows) :
    SameOutside parent.key db (db.flattenLevel parent.id) ∧
      parent ∈ (db.flattenLevel parent.id).env.subnets.rows := by
  have fold : ∀ (rows : List SubnetRow) (current : Db), IsForest current.tree →
      parent ∈ current.env.subnets.rows → AreChildren current parent.id rows →
      SameOutside parent.key db current →
      SameOutside parent.key db (rows.foldl (Db.flattenChild parent.id) current) ∧
        parent ∈ (rows.foldl (Db.flattenChild parent.id) current).env.subnets.rows := by
    intro rows
    induction rows with
    | nil => exact fun _ _ stays _ same => ⟨same, stays⟩
    | cons child rows ih =>
      intro current forest stays children same
      have placed := children.placed child List.mem_cons_self
      have up := children.up child List.mem_cons_self
      rw [List.foldl_cons]
      exact ih _ (flattenChild_forest forest placed up)
        (mem_flattenChild_parent forest stays placed up) (children.flattenChild forest)
        (same.trans (SameOutside.flattenChild forest (mem_tree_of_mem stays) placed up))
  exact fold _ db forest memberParent (areChildren_children db parent.id) (.of_subnets rfl)

/-! ## Going up -/

theorem mem_children {db : Db} {id : Nat} {row : SubnetRow} :
    row ∈ Subnets.children db.env.subnets id ↔
      row ∈ db.env.subnets.rows ∧ row.info.parentId = some id := by
  rw [Subnets.children, List.mem_filter, decide_eq_true_eq]

/-- How far a divide has been flattened: `now` is the network the next level lies around,
`former` its row before the divide. -/
structure Climb (before current : Db) (former now : SubnetRow) : Prop where
  forestBefore : IsForest before.tree
  forest : IsForest current.tree
  right : DepthsRight current.tree
  memberFormer : former ∈ before.env.subnets.rows
  member : now ∈ current.env.subnets.rows
  sameId : now.id = former.id
  sameKey : now.key = former.key
  sameParent : now.info.parentId = former.info.parentId
  same : SameOutside now.key before current
  leaves : ∀ place ∈ current.tree, place.parentId = some now.id → Childless current.tree place.id

namespace Climb

variable {before current : Db} {former now : SubnetRow}

theorem mem_iff_of_apart (climb : Climb before current former now) {row : SubnetRow}
    (apart : row.key.overlaps now.key = false) :
    row ∈ current.env.subnets.rows ↔ row ∈ before.env.subnets.rows := by
  refine climb.same row ?_ ?_
  · by_contra within
    rw [Bool.not_eq_false] at within
    rw [Network.overlaps_comm] at apart
    have alone := Network.overlaps_of_isWithin within apart
    rw [Network.overlaps_self] at alone
    exact absurd alone (by simp)
  · intro equal
    rw [equal, Network.overlaps_self] at apart
    exact absurd apart (by simp)

theorem mem_below_iff (climb : Climb before current former now) {sibling : SubnetRow}
    (apart : sibling.key.overlaps now.key = false) (memberNow : sibling ∈ current.env.subnets.rows)
    {row : SubnetRow} (up : row.info.parentId = some sibling.id) :
    row ∈ current.env.subnets.rows ↔ row ∈ before.env.subnets.rows := by
  have memberBefore := (climb.mem_iff_of_apart apart).mp memberNow
  constructor
  · intro member
    have inside : row.key.isWithin sibling.key = true := climb.forest.within_of_child
      (mem_tree_of_mem member) (mem_tree_of_mem memberNow) up
    exact (climb.mem_iff_of_apart (Network.overlaps_of_isWithin inside apart)).mp member
  · intro member
    have inside : row.key.isWithin sibling.key = true := climb.forestBefore.within_of_child
      (mem_tree_of_mem member) (mem_tree_of_mem memberBefore) up
    exact (climb.mem_iff_of_apart (Network.overlaps_of_isWithin inside apart)).mpr member

variable {parentId : Nat}

theorem sibling_apart (climb : Climb before current former now)
    (up : now.info.parentId = some parentId) {row : SubnetRow}
    (member : row ∈ Subnets.children current.env.subnets parentId) (differs : row.id ≠ now.id) :
    row.key.overlaps now.key = false := by
  obtain ⟨inside, upRow⟩ := mem_children.mp member
  exact climb.forest.siblings _ (mem_tree_of_mem inside) _ (mem_tree_of_mem climb.member)
    (upRow.trans up.symm) differs

theorem mem_level_iff (climb : Climb before current former now)
    (up : now.info.parentId = some parentId) {row : SubnetRow} (differs : row.id ≠ now.id) :
    row ∈ Subnets.children current.env.subnets parentId ↔
      row ∈ Subnets.children before.env.subnets parentId := by
  constructor
  · intro member
    have apart := climb.sibling_apart up member differs
    obtain ⟨inside, upRow⟩ := mem_children.mp member
    exact mem_children.mpr ⟨(climb.mem_iff_of_apart apart).mp inside, upRow⟩
  · intro member
    obtain ⟨inside, upRow⟩ := mem_children.mp member
    have apart : row.key.overlaps former.key = false := climb.forestBefore.siblings _
      (mem_tree_of_mem inside) _ (mem_tree_of_mem climb.memberFormer)
      (upRow.trans (climb.sameParent.symm.trans up).symm) fun same =>
      differs (same.trans climb.sameId.symm)
    rw [← climb.sameKey] at apart
    exact mem_children.mpr ⟨(climb.mem_iff_of_apart apart).mpr inside, upRow⟩

theorem flattensAround (climb : Climb before current former now)
    (up : now.info.parentId = some parentId) (flattens : current.flattens parentId = true) :
    Subnets.flattensAround before.env.subnets former.id parentId = true := by
  have all := List.all_eq_true.mp (Bool.and_eq_true_iff.mp flattens).2
  refine List.all_eq_true.mpr fun row member => ?_
  by_cases named : row.id = former.id
  · simp [named]
  · have differs : row.id ≠ now.id := climb.sameId ▸ named
    have memberNow := (climb.mem_level_iff up differs).mpr member
    obtain ⟨status, some⟩ := Bool.and_eq_true_iff.mp (all row memberNow)
    refine Bool.or_eq_true_iff.mpr (.inr (Bool.and_eq_true_iff.mpr ⟨status, ?_⟩))
    rw [Bool.not_eq_true', List.isEmpty_eq_false_iff_exists_mem] at some ⊢
    obtain ⟨child, below⟩ := some
    obtain ⟨inside, upChild⟩ := mem_children.mp below
    have apart := climb.sibling_apart up memberNow differs
    have memberRow := (mem_children.mp memberNow).1
    exact ⟨child, mem_children.mpr ⟨(climb.mem_below_iff apart memberRow upChild).mp inside,
      upChild⟩⟩

theorem shallowLevel (climb : Climb before current former now)
    (up : now.info.parentId = some parentId)
    (shallow : Subnets.isShallow before.env.subnets former.id parentId = true) :
    ShallowLevel current.tree parentId
      ((Subnets.children current.env.subnets parentId).map Row.id) := by
  constructor
  · intro place member upPlace waits
    obtain ⟨row, inside, rfl⟩ := List.mem_map.mp member
    exact absurd (List.mem_map_of_mem (mem_children.mpr ⟨inside, upPlace⟩)) waits
  · intro place member id waits upPlace
    obtain ⟨sibling, memberSibling, rfl⟩ := List.mem_map.mp waits
    by_cases named : sibling.id = now.id
    · exact climb.leaves place member (named ▸ upPlace)
    · -- The sibling, its children and theirs are all from before.
      have apart := climb.sibling_apart up memberSibling named
      have memberRow := (mem_children.mp memberSibling).1
      have level := List.all_eq_true.mp shallow sibling
        ((climb.mem_level_iff up named).mp memberSibling)
      rw [Bool.or_eq_true_iff, decide_eq_true_eq, ← climb.sameId] at level
      have grandchildren := List.all_eq_true.mp (level.resolve_left named)
      obtain ⟨row, inside, rfl⟩ := List.mem_map.mp member
      have rowBefore := (climb.mem_below_iff apart memberRow upPlace).mp inside
      have rowApart : row.key.overlaps now.key = false := Network.overlaps_of_isWithin
        (climb.forest.within_of_child member (mem_tree_of_mem memberRow) upPlace) apart
      have none := grandchildren row (mem_children.mpr ⟨rowBefore, upPlace⟩)
      rintro lower memberLower upLower
      obtain ⟨other, insideOther, rfl⟩ := List.mem_map.mp memberLower
      have otherBefore := (climb.mem_below_iff rowApart inside upLower).mp insideOther
      have found : other ∈ Subnets.children before.env.subnets row.id :=
        mem_children.mpr ⟨otherBefore, upLower⟩
      rw [List.isEmpty_iff.mp none] at found
      exact absurd found (by simp)

theorem up (climb : Climb before current former now) {parent : SubnetRow}
    (above : now.info.parentId = some parent.id) (memberParent : parent ∈ current.env.subnets.rows)
    (shallow : Subnets.isShallow before.env.subnets former.id parent.id = true) :
    Climb before (current.flattenLevel parent.id) parent parent := by
  have inside : now.key.isWithin parent.key = true := climb.forest.within_of_child
    (mem_tree_of_mem climb.member) (mem_tree_of_mem memberParent) above
  have shorter := (Network.isWithin_iff.mp inside).2.2.2
  have parentBefore : parent ∈ before.env.subnets.rows := by
    refine (climb.same parent ?_ ?_).mp memberParent
    · by_contra within
      rw [Bool.not_eq_false, Network.isWithin_iff] at within
      omega
    · rintro equal
      rw [equal] at shorter
      exact lt_irrefl _ shorter
  obtain ⟨right, level⟩ := flattenLevel_depths climb.forest climb.right
    (climb.shallowLevel above shallow)
  obtain ⟨same, stays⟩ := sameOutside_flattenLevel climb.forest memberParent
  exact {
    forestBefore := climb.forestBefore
    forest := flattenLevel_forest climb.forest parent.id
    right := right
    memberFormer := parentBefore
    member := stays
    sameId := rfl
    sameKey := rfl
    sameParent := rfl
    same := (climb.same.widen inside).trans same
    leaves := fun place member upPlace => level.raised place member upPlace (List.not_mem_nil) }

end Climb

theorem consolidateLevels_depths (levels : Nat) {before current : Db} {former now : SubnetRow}
    {bits : Nat} (climb : Climb before current former now) (enough : now.key.prefixLen ≤ bits)
    (shallow : now.info.status = .unallocated → Subnets.shallowUp before.env.subnets bits former.id
      former.info.parentId = true) :
    DepthsRight (consolidateLevels levels current now.info.parentId).tree := by
  induction levels generalizing current former now bits with
  | zero => exact climb.right
  | succ levels ih =>
    cases above : now.info.parentId with
    | none => exact climb.right
    | some parentId =>
      unfold consolidateLevels
      split
      · rename_i parent flattens found
        obtain ⟨memberParent, rfl⟩ := Table.byId_eq_some.mp found
        have inside : now.key.isWithin parent.key = true := climb.forest.within_of_child
          (mem_tree_of_mem climb.member) (mem_tree_of_mem memberParent) above
        have shorter := (Network.isWithin_iff.mp inside).2.2.2
        obtain ⟨fewer, rfl⟩ : ∃ fewer, bits = fewer + 1 := ⟨bits - 1, by omega⟩
        have intermediary := List.all_eq_true.mp (Bool.and_eq_true_iff.mp flattens).2 now
          (mem_children.mpr ⟨climb.member, above⟩)
        have held := shallow (of_decide_eq_true (Bool.and_eq_true_iff.mp intermediary).1)
        rw [← climb.sameParent, above, Subnets.shallowUp, climb.flattensAround above flattens,
          Bool.not_true, Bool.false_or, Bool.and_eq_true_iff] at held
        have next := climb.up above memberParent held.1
        refine ih next (show parent.key.prefixLen ≤ fewer by omega) fun unallocated => ?_
        have rest := held.2
        rw [Table.byId_eq_some.mpr ⟨next.memberFormer, rfl⟩] at rest
        simpa [unallocated] using rest
      · exact climb.right

namespace Divided

variable {db : Db} {parent : SubnetRow} {targets : List PlanTarget} {inserted cleared : Db}
  {added : List Place}

theorem sameOutside (divided : Divided db parent targets inserted cleared added) :
    SameOutside parent.key db cleared := by
  have grown : SameOutside parent.key db inserted :=
    foldlM_invariant (P := SameOutside parent.key db)
      (fun target member _ _ held step =>
        held.trans (SameOutside.insertChild (divided.within target member) step))
      divided.inserts (.of_subnets rfl)
  refine grown.trans (SameOutside.trans (SameOutside.setSubnet inserted clearedInfo ?_)
    (.of_subnets divided.clears))
  intro row member named
  refine .inr ?_
  have memberTree : placeOf row ∈ cleared.tree := by
    have same : cleared.tree = (inserted.setSubnet parent.id clearedInfo).tree :=
      tree_eq_of_subnets divided.clears
    rw [same, tree_setSubnet _ _ (by exact fun _ => ⟨rfl, rfl⟩)]
    exact mem_tree_of_mem member
  have placed : placeOf parent ∈ cleared.tree := by
    rw [divided.tree]
    exact List.mem_append_left _ (mem_tree_of_mem divided.member)
  exact congrArg Place.net (divided.forest.ids _ memberTree _ placed named)

theorem added_childless (divided : Divided db parent targets inserted cleared added)
    (forest : IsForest db.tree) {place : Place} (new : place ∈ added) :
    Childless cleared.tree place.id := by
  have member : place ∈ cleared.tree := by
    rw [divided.tree]
    exact List.mem_append_right _ new
  intro lower memberLower up
  rw [divided.tree] at memberLower
  rcases List.mem_append.mp memberLower with inTree | newLower
  · obtain ⟨above, memberAbove, same, -⟩ := forest.nests lower inTree place.id up
    have memberAbove' : above ∈ cleared.tree := by
      rw [divided.tree]
      exact List.mem_append_left _ memberAbove
    have equal := divided.forest.ids above memberAbove' place member same
    exact divided.leaf above memberAbove (equal ▸ (divided.columns place new).1)
  · have own : place.parentId = some place.id :=
      (divided.columns place new).1.trans ((divided.columns lower newLower).1.symm.trans up)
    exact absurd (divided.forest.prefix_lt member member own) (lt_irrefl _)

theorem depthsRight (divided : Divided db parent targets inserted cleared added)
    (forest : IsForest db.tree) (right : DepthsRight db.tree) : DepthsRight cleared.tree where
  roots := by
    intro place member up
    rw [divided.tree] at member
    rcases List.mem_append.mp member with inTree | new
    · exact right.roots place inTree up
    · rw [(divided.columns place new).1] at up
      exact absurd up (by simp)
  below := by
    intro place member above memberAbove up
    have inAbove := memberAbove
    rw [divided.tree] at inAbove
    rcases List.mem_append.mp inAbove with old | newAbove
    · rw [divided.tree] at member
      rcases List.mem_append.mp member with inTree | new
      · exact right.below place inTree above old up
      · obtain ⟨upNew, depth⟩ := divided.columns place new
        have same := forest.ids above old _ (mem_tree_of_mem divided.member)
          (Option.some.inj (up.symm.trans upNew))
        rw [depth, same]
        rfl
    · exact absurd up (divided.added_childless forest newAbove place member)

theorem climb (divided : Divided db parent targets inserted cleared added)
    (forest : IsForest db.tree) (right : DepthsRight db.tree) :
    ∃ now : SubnetRow, placeOf now = placeOf parent ∧ Climb db cleared parent now := by
  have placed : placeOf parent ∈ cleared.tree := by
    rw [divided.tree]
    exact List.mem_append_left _ (mem_tree_of_mem divided.member)
  obtain ⟨now, member, same⟩ := List.mem_map.mp placed
  have key : now.key = parent.key := congrArg Place.net same
  have id : now.id = parent.id := congrArg Place.id same
  refine ⟨now, same, ?_⟩
  exact {
    forestBefore := forest
    forest := divided.forest
    right := divided.depthsRight forest right
    memberFormer := divided.member
    member := member
    sameId := id
    sameKey := key
    sameParent := congrArg Place.parentId same
    same := key ▸ divided.sameOutside
    leaves := by
      intro place memberPlace up
      have inTree := memberPlace
      rw [divided.tree] at inTree
      rcases List.mem_append.mp inTree with old | new
      · exact absurd (id ▸ up) (divided.leaf place old)
      · exact divided.added_childless forest new }

end Divided

/-! ## Runs -/

/-- Every level that a divide flattens is shallow. Prefixes get shorter on the way up, so
as many levels as the divided prefix is long are enough. -/
def shallowDivide (db : Db) : SubnetRequest → Prop
  | .divide _ id _ => ∀ parent, db.env.subnets.byId id = some parent →
      Subnets.shallowUp db.env.subnets parent.key.prefixLen parent.id parent.info.parentId = true
  | _ => True

theorem divide_depths {db after : Db} {now id : Nat} {request : DivideRequest}
    (forest : IsForest db.tree) (right : DepthsRight db.tree)
    (shallow : shallowDivide db (.divide now id request))
    (done : db.divide now id request = .ok after) : DepthsRight after.tree := by
  obtain ⟨parent, targets, inserted, cleared, added, found, divided, rfl⟩ :=
    divided_of_divide forest done
  obtain ⟨now, same, climb⟩ := divided.climb forest right
  have up : now.info.parentId = parent.info.parentId := congrArg Place.parentId same
  rw [consolidateIntermediate, ← up]
  exact consolidateLevels_depths _ climb (le_of_eq (congrArg Network.prefixLen climb.sameKey))
    fun _ => shallow parent found

theorem createSubnet_depths {db after : Db} {request : NewSubnet} (forest : IsForest db.tree)
    (right : DepthsRight db.tree) (done : db.createSubnet request = .ok after) :
    DepthsRight after.tree := by
  obtain ⟨net, -, -, tree⟩ := createSubnet_eq_ok done
  rw [tree]
  exact right.add forest db.fresh_nextId (fun _ => rfl) (fun _ _ up => absurd up (by simp))
    (by simp)

theorem delete_depths {db after : Db} {id : Nat} (right : DepthsRight db.tree)
    (done : db.delete id = .ok after) : DepthsRight after.tree := by
  obtain ⟨subnet, -, rfl⟩ := delete_eq_ok done
  rcases db.deleteSubnet_tree subnet with tree | tree | tree
  · rw [tree]
    exact right
  · rw [tree]
    exact right.remove _
  · rw [tree]
    exact right.remove _

theorem merge_depths {db after : Db} {now : Nat} {request : MergeRequest}
    (forest : IsForest db.tree) (right : DepthsRight db.tree)
    (done : db.merge now request = .ok after) :
    DepthsRight after.tree := by
  obtain ⟨sources, parent, merged, id, mergeable, ran⟩ := merge_eq_ok done
  rcases mergeSubnets_tree mergeable ran with ⟨-, tree⟩ | ⟨-, tree⟩
  · rw [tree]
    exact right.remove _
  · have placed := mem_tree_of_mem mergeable.memberParent
    have bare : IsForest (remove db.tree (sources.map (·.id))) :=
      forest.remove fun place member above up inside =>
        absurd inside (mergeable.leaves_ids place member above up)
    rw [tree]
    refine (right.remove _).add bare ?_ (fun up => absurd up (by simp)) ?_ ?_
    · exact fun other member => db.fresh_nextId other (mem_remove.mp member).1
    · intro above member up
      rw [forest.ids above (mem_remove.mp member).1 _ placed (Option.some.inj up).symm]
      rfl
    · exact fun own => db.fresh_nextId _ placed (Option.some.inj own)

theorem SubnetStep.depths {db after : Db} (step : SubnetStep shallowDivide db after)
    (forest : IsForest db.tree) (right : DepthsRight db.tree) : DepthsRight after.tree := by
  cases step with
  | handled request allowed done =>
    cases request with
    | create fields => exact createSubnet_depths forest right done
    | divide now id request => exact divide_depths forest right allowed done
    | merge now request => exact merge_depths forest right done
    | delete id => exact delete_depths right done
  | configured id fields written =>
    rw [configured_tree written]
    exact right
  | elsewhere kept =>
    rw [tree_eq_of_subnets kept]
    exact right

/-- **From an empty table, a network that is no root is one deeper than its parent in every
state reached by divides that flatten shallow levels only.** -/
theorem depthsRight_of_run {start after : Db} (empty : start.env.subnets.rows = [])
    (run : SubnetRun shallowDivide start after) :
    (∀ row ∈ after.env.subnets.rows, row.info.parentId = none → row.info.depth = 0) ∧
    ∀ row ∈ after.env.subnets.rows, ∀ parent ∈ after.env.subnets.rows,
      row.info.parentId = some parent.id → row.info.depth = parent.info.depth + 1 := by
  have right : IsForest after.tree ∧ DepthsRight after.tree := by
    induction run with
    | refl =>
      rw [tree_of_no_rows empty]
      exact ⟨IsForest.nil, DepthsRight.nil⟩
    | tail _ step held => exact ⟨step.forest held.1, step.depths held.1 held.2⟩
  refine ⟨?_, ?_⟩
  · exact fun row member => right.2.roots _ (mem_tree_of_mem member)
  · exact fun row member parent memberParent =>
      right.2.below _ (mem_tree_of_mem member) _ (mem_tree_of_mem memberParent)

instance : DecidableRel shallowDivide
  | db, .divide now id request =>
    match found : db.env.subnets.byId id with
    | none => .isTrue (by simp [shallowDivide, found])
    | some parent => decidable_of_iff (Subnets.shallowUp db.env.subnets parent.key.prefixLen
        parent.id parent.info.parentId = true) (by simp [shallowDivide, found])
  | _, .create _ => inferInstanceAs (Decidable True)
  | _, .merge _ _ => inferInstanceAs (Decidable True)
  | _, .delete _ => inferInstanceAs (Decidable True)

/-- Both halves of a supernet are cut, and their level is flattened. -/
def quarterings : List SubnetRequest :=
  [.create { cidr := "10.0.0.0/24".toList },
    .divide 100 1 { mode := .equal 25 },
    .divide 200 2 { mode := .equal 26 },
    .divide 300 3 { mode := .equal 26 }]

theorem depthsRight_of_run_quarterings :
    ∃ after : Db, replay shallowDivide vacant quarterings = some after ∧
      after.env.subnets.rows.map (fun row => (row.id, row.info.parentId, row.info.depth)) =
        [(1, none, 0), (4, some 1, 1), (5, some 1, 1), (6, some 1, 1), (7, some 1, 1)] ∧
      ∀ row ∈ after.env.subnets.rows, ∀ parent ∈ after.env.subnets.rows,
        row.info.parentId = some parent.id → row.info.depth = parent.info.depth + 1 := by
  have shape : (replay shallowDivide vacant quarterings).map (fun after =>
      after.env.subnets.rows.map fun row => (row.id, row.info.parentId, row.info.depth)) =
      some [(1, none, 0), (4, some 1, 1), (5, some 1, 1), (6, some 1, 1), (7, some 1, 1)] := by
    decide
  obtain ⟨after, done, rows⟩ := Option.map_eq_some_iff.mp shape
  exact ⟨after, done, rows, (depthsRight_of_run rfl (run_of_replay done)).2⟩

/-- One half is cut twice before the other one is. -/
def deepQuarterings : List SubnetRequest :=
  [.create { cidr := "10.0.0.0/24".toList },
    .divide 100 1 { mode := .equal 25 },
    .divide 200 2 { mode := .equal 26 },
    .divide 300 4 { mode := .equal 27 },
    .divide 400 3 { mode := .equal 26 }]

/-- The networks below a raised one keep the depth they had. -/
theorem flattened_level_keeps_old_depths :
    ¬ ∀ after : Db, SubnetRun anyRequest vacant after →
      ∀ row ∈ after.env.subnets.rows, ∀ parent ∈ after.env.subnets.rows,
        row.info.parentId = some parent.id → row.info.depth = parent.info.depth + 1 := by
  intro right
  have shape : (replay anyRequest vacant deepQuarterings).map (fun after =>
      after.env.subnets.rows.any fun row => after.env.subnets.rows.any fun parent =>
        row.info.parentId = some parent.id && row.info.depth ≠ parent.info.depth + 1) =
            some true := by
    decide
  obtain ⟨after, done, some⟩ := Option.map_eq_some_iff.mp shape
  obtain ⟨row, member, some⟩ := List.any_eq_true.mp some
  obtain ⟨parent, memberParent, found⟩ := List.any_eq_true.mp some
  obtain ⟨up, stale⟩ := Bool.and_eq_true_iff.mp found
  exact of_decide_eq_true stale
    (right after (run_of_replay done) row member parent memberParent (of_decide_eq_true up))

end Db

end Cidrella
