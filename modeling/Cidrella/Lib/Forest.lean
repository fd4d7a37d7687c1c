import Mathlib.Logic.Relation
import Mathlib.Data.Set.Disjoint
import Mathlib.Tactic
import Mathlib.Order.CompletePartialOrder

/-!
# Forests of nested regions

Nodes that each have at most one parent and a region inside the parent's region, the
regions of siblings disjoint. Two nodes that share a point then lie on one branch
(`Laminar.comparable`), so a point lies in at most one leaf (`Laminar.leaf_unique`).

The second part computes the nodes below a node from a list of links, level by level.
The search stops when a level adds nothing, and `subtree_closed` says that it has stopped
after as many levels as there are links.
-/

set_option autoImplicit false

namespace Cidrella

/-! ## Regions -/

section Laminar

variable {node point : Type}

/-- Regions that nest along `parent`. The rank grows from a parent to its children, so no
node is above itself. -/
structure Laminar (nodes : Set node) (parent : node → Option node) (region : node → Set point)
    (rank : node → Nat) : Prop where
  closed : ∀ a ∈ nodes, ∀ above, parent a = some above → above ∈ nodes
  inside : ∀ a ∈ nodes, ∀ above, parent a = some above → region a ⊆ region above
  descends : ∀ a ∈ nodes, ∀ above, parent a = some above → rank above < rank a
  siblings : ∀ a ∈ nodes, ∀ b ∈ nodes, parent a = parent b → a ≠ b →
    Disjoint (region a) (region b)

/-- The first node is the second one or lies below it. -/
def Below (parent : node → Option node) : node → node → Prop :=
  Relation.ReflTransGen fun a above => parent a = some above

namespace Laminar

variable {nodes : Set node} {parent : node → Option node} {region : node → Set point}
  {rank : node → Nat}

theorem mem_of_below (forest : Laminar nodes parent region rank) {a above : node} {x : point}
    (below : Below parent a above) (member : a ∈ nodes) (within : x ∈ region a) :
    above ∈ nodes ∧ x ∈ region above := by
  induction below with
  | refl => exact ⟨member, within⟩
  | tail _ step ih =>
    obtain ⟨memberStep, withinStep⟩ := ih
    exact ⟨forest.closed _ memberStep _ step, forest.inside _ memberStep _ step withinStep⟩

theorem eq_of_siblings (forest : Laminar nodes parent region rank) {a b : node} {x : point}
    (memberA : a ∈ nodes) (memberB : b ∈ nodes) (withinA : x ∈ region a) (withinB : x ∈ region b)
    (same : parent a = parent b) : a = b := by
  by_contra differs
  exact Set.disjoint_left.mp (forest.siblings a memberA b memberB same differs) withinA withinB

/-- Two nodes that share a point lie on one branch. -/
theorem comparable (forest : Laminar nodes parent region rank) {a b : node} {x : point}
    (memberA : a ∈ nodes) (memberB : b ∈ nodes) (withinA : x ∈ region a)
    (withinB : x ∈ region b) : Below parent a b ∨ Below parent b a := by
  -- Induction on the two ranks: the node that has a parent is replaced by it.
  induction total : rank a + rank b using Nat.strong_induction_on generalizing a b with
  | _ total ih =>
    cases parentA : parent a with
    | none =>
      cases parentB : parent b with
      | none =>
        have same : parent a = parent b := parentA.trans parentB.symm
        rw [forest.eq_of_siblings memberA memberB withinA withinB same]
        exact .inl .refl
      | some above =>
        have lower := forest.descends b memberB above parentB
        have branch := ih _ (by omega) memberA (forest.closed b memberB above parentB) withinA
          (forest.inside b memberB above parentB withinB) rfl
        rcases branch with up | down
        · rcases Relation.ReflTransGen.cases_head up with rfl | ⟨next, step, -⟩
          · exact .inr (.single parentB)
          · rw [parentA] at step
            exact absurd step (by simp)
        · exact .inr (down.head parentB)
    | some above =>
      have lower := forest.descends a memberA above parentA
      have branch := ih _ (by omega) (forest.closed a memberA above parentA) memberB
        (forest.inside a memberA above parentA withinA) withinB rfl
      rcases branch with up | down
      · exact .inl (up.head parentA)
      · -- The last node of the branch before `above` is a sibling of `a` with the point.
        rcases Relation.ReflTransGen.cases_tail down with same | ⟨last, path, step⟩
        · rw [← same]
          exact .inl (.single parentA)
        · obtain ⟨memberLast, withinLast⟩ := forest.mem_of_below path memberB withinB
          have sibling : a = last := forest.eq_of_siblings memberA memberLast withinA withinLast
            (parentA.trans step.symm)
          rw [sibling]
          exact .inr path

theorem leaf_unique (forest : Laminar nodes parent region rank) {a b : node} {x : point}
    (memberA : a ∈ nodes) (memberB : b ∈ nodes) (withinA : x ∈ region a) (withinB : x ∈ region b)
    (leafA : ∀ c ∈ nodes, parent c ≠ some a) (leafB : ∀ c ∈ nodes, parent c ≠ some b) : a = b := by
  rcases forest.comparable memberA memberB withinA withinB with up | down
  · rcases Relation.ReflTransGen.cases_tail up with same | ⟨last, path, step⟩
    · exact same.symm
    · exact absurd step (leafB last (forest.mem_of_below path memberA withinA).1)
  · rcases Relation.ReflTransGen.cases_tail down with same | ⟨last, path, step⟩
    · exact same
    · exact absurd step (leafA last (forest.mem_of_below path memberB withinB).1)

end Laminar

end Laminar

/-! ## Searching downwards -/

section Subtree

variable {α : Type} [DecidableEq α]

/-- The nodes found and the children of those, from links of a node to its parent. -/
def grow (links : List (α × Option α)) (found : List α) : List α :=
  found ++ (links.filter fun link => decide (link.1 ∉ found) && link.2.any (· ∈ found)).map (·.1)

/-- A node and everything below it. -/
def subtree (links : List (α × Option α)) (top : α) : List α := (grow links)^[links.length] [top]

theorem subset_grow (links : List (α × Option α)) (found : List α) : found ⊆ grow links found :=
  List.subset_append_left _ _

theorem closed_of_grow_eq {links : List (α × Option α)} {found : List α}
    (stable : grow links found = found) {child above : α} (link : (child, some above) ∈ links)
    (member : above ∈ found) : child ∈ found := by
  by_contra missing
  have added : child ∈ grow links found := by
    refine List.mem_append_right _ (List.mem_map.mpr ⟨(child, some above), ?_, rfl⟩)
    simp [List.mem_filter, link, missing, member]
  rw [stable] at added
  exact missing added

/-- The links to nodes that are not found yet. -/
def remaining (links : List (α × Option α)) (found : List α) : Nat :=
  links.countP fun link => decide (link.1 ∉ found)

theorem remaining_grow_lt {links : List (α × Option α)} {found : List α}
    (grown : grow links found ≠ found) :
    remaining links (grow links found) < remaining links found := by
  have nonempty : (links.filter fun link => decide (link.1 ∉ found) && link.2.any (· ∈ found)) ≠
      [] :=
    fun none => grown (by rw [grow, none, List.map_nil, List.append_nil])
  obtain ⟨link, member⟩ := List.exists_mem_of_ne_nil _ nonempty
  obtain ⟨within, fresh⟩ := List.mem_filter.mp member
  rw [Bool.and_eq_true, decide_eq_true_eq] at fresh
  have added : link.1 ∈ grow links found :=
    List.mem_append_right _ (List.mem_map.mpr ⟨link, member, rfl⟩)
  have fewer : ∀ part : List (α × Option α), remaining part (grow links found) ≤
      remaining part found := by
    intro part
    refine List.countP_mono_left fun other _ unseen => ?_
    rw [decide_eq_true_eq] at unseen ⊢
    exact fun seen => unseen (subset_grow links found seen)
  obtain ⟨before, after, rfl⟩ := List.append_of_mem within
  have first := fewer before
  have second := fewer after
  simp only [remaining] at first second ⊢
  rw [List.countP_append, List.countP_append, List.countP_cons_of_neg (by simpa using added),
    List.countP_cons_of_pos (by simpa using fresh.1)]
  omega

theorem grow_iterate_eq {links : List (α × Option α)} (levels : Nat) {found : List α}
    (few : remaining links found ≤ levels) :
    grow links ((grow links)^[levels] found) = (grow links)^[levels] found := by
  induction levels generalizing found with
  | zero =>
    by_contra grown
    have fewer := remaining_grow_lt grown
    simp only [Function.iterate_zero, id_eq] at fewer
    omega
  | succ levels ih =>
    by_cases stable : grow links found = found
    · rw [Function.iterate_fixed stable]
      exact stable
    · rw [Function.iterate_succ_apply]
      refine ih ?_
      have fewer := remaining_grow_lt stable
      omega

theorem subtree_closed {links : List (α × Option α)} {top child above : α}
    (link : (child, some above) ∈ links) (member : above ∈ subtree links top) :
    child ∈ subtree links top :=
  closed_of_grow_eq (grow_iterate_eq links.length List.countP_le_length) link member

theorem subtree_induction {links : List (α × Option α)} {top : α} {P : α → Prop} (start : P top)
    (step : ∀ child above, (child, some above) ∈ links → P above → P child) :
    ∀ x ∈ subtree links top, P x := by
  have grown : ∀ levels found, (∀ x ∈ found, P x) → ∀ x ∈ (grow links)^[levels] found, P x := by
    intro levels
    induction levels with
    | zero => exact fun found all => all
    | succ levels ih =>
      intro found all
      rw [Function.iterate_succ_apply]
      refine ih _ fun x member => ?_
      rcases List.mem_append.mp member with member | member
      · exact all x member
      · obtain ⟨⟨child, above⟩, within, rfl⟩ := List.mem_map.mp member
        obtain ⟨link, test⟩ := List.mem_filter.mp within
        cases above with
        | none => simp at test
        | some above =>
          simp only [Option.any_some, Bool.and_eq_true, decide_eq_true_eq] at test
          exact step child above link (all above test.2)
  exact grown _ _ fun x member => List.mem_singleton.mp member ▸ start

theorem subtree_of_childless {links : List (α × Option α)} {top : α}
    (childless : ∀ child, (child, some top) ∉ links) : subtree links top = [top] := by
  refine Function.iterate_fixed ?_ links.length
  have none : (links.filter fun link => decide (link.1 ∉ [top]) && link.2.any (· ∈ [top])) =
      [] := by
    rw [List.filter_eq_nil_iff]
    rintro ⟨child, above⟩ member found
    cases above with
    | none => simp at found
    | some above =>
      simp only [List.mem_singleton, Option.any_some, Bool.and_eq_true, decide_eq_true_eq] at found
      rw [found.2] at member
      exact childless child member
  rw [grow, none, List.map_nil, List.append_nil]

end Subtree

end Cidrella
