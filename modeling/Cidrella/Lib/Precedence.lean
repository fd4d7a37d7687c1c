import Mathlib.Data.List.Lex
import Mathlib.Data.Prod.Lex
import Mathlib.Data.Sum.Order
import Mathlib.Order.WithBot
import Mathlib.Order.Compare
import Mathlib.Tactic

/-!
# Comparisons in a linear order

What a comparison answers about two elements of a linear order (`ordering`), and how the
answer for a pair, a list, an alternative or an element with a top over it comes from the
answers for its parts. A function that compares by these steps compares ranks, so it is
oriented and transitive without a further proof.
-/

set_option autoImplicit false

namespace Cidrella

namespace Precedence

variable {α β : Type} [LinearOrder α] [LinearOrder β]

/-- Which of two elements comes first. -/
def ordering (x y : α) : Ordering := if x < y then .lt else if y < x then .gt else .eq

theorem ordering_eq_lt {x y : α} : ordering x y = .lt ↔ x < y := by
  unfold ordering
  split
  · simpa
  · rename_i notLess
    split <;> simpa using notLess

theorem ordering_eq_gt {x y : α} : ordering x y = .gt ↔ y < x := by
  unfold ordering
  split
  · rename_i less
    simpa using less.le
  · split
    · rename_i greater
      simpa using greater
    · rename_i notGreater
      simpa using notGreater

theorem ordering_eq_eq {x y : α} : ordering x y = .eq ↔ x = y := by
  unfold ordering
  split
  · rename_i less
    simpa using less.ne
  · split
    · rename_i greater
      simpa using greater.ne'
    · rename_i notLess notGreater
      simpa using le_antisymm (not_lt.mp notGreater) (not_lt.mp notLess)

@[simp] theorem ordering_self (x : α) : ordering x x = .eq := ordering_eq_eq.mpr rfl

theorem ordering_swap (x y : α) : (ordering x y).swap = ordering y x := by
  obtain less | rfl | greater := lt_trichotomy x y
  · rw [ordering_eq_lt.mpr less, ordering_eq_gt.mpr less]
    rfl
  · rw [ordering_self]
    rfl
  · rw [ordering_eq_gt.mpr greater, ordering_eq_lt.mpr greater]
    rfl

theorem ordering_ne_gt {x y : α} : ordering x y ≠ .gt ↔ x ≤ y := by
  rw [ne_eq, ordering_eq_gt, not_lt]

theorem ordering_map {f : α → β} (mono : StrictMono f) (x y : α) :
    ordering (f x) (f y) = ordering x y := by
  simp only [ordering, mono.lt_iff_lt]

/-! ## Compound orders -/

theorem ordering_then {γ : Type} [LinearOrder γ] {x y : γ} {a c : α} {b d : β}
    (less : x < y ↔ a < c ∨ a = c ∧ b < d) (greater : y < x ↔ c < a ∨ c = a ∧ d < b) :
    ordering x y = (ordering a c).then (ordering b d) := by
  obtain first | rfl | first := lt_trichotomy a c
  · rw [ordering_eq_lt.mpr first, ordering_eq_lt.mpr (less.mpr (.inl first))]
    rfl
  · rw [ordering_self, Ordering.then]
    obtain second | rfl | second := lt_trichotomy b d
    · rw [ordering_eq_lt.mpr second, ordering_eq_lt.mpr (less.mpr (.inr ⟨rfl, second⟩))]
    · have same : x = y := by
        refine le_antisymm (not_lt.mp fun above => ?_) (not_lt.mp fun below => ?_)
        · simpa using greater.mp above
        · simpa using less.mp below
      rw [same, ordering_self, ordering_self]
    · rw [ordering_eq_gt.mpr second, ordering_eq_gt.mpr (greater.mpr (.inr ⟨rfl, second⟩))]
  · rw [ordering_eq_gt.mpr first, ordering_eq_gt.mpr (greater.mpr (.inl first))]
    rfl

theorem ordering_toLex (a c : α) (b d : β) :
    ordering (toLex (a, b)) (toLex (c, d)) = (ordering a c).then (ordering b d) :=
  ordering_then Prod.Lex.toLex_lt_toLex Prod.Lex.toLex_lt_toLex

theorem ordering_cons (a b : α) (as bs : List α) :
    ordering (a :: as) (b :: bs) = (ordering a b).then (ordering as bs) :=
  ordering_then List.cons_lt_cons_iff List.cons_lt_cons_iff

theorem cons_le_cons_iff {a b : α} {as bs : List α} : a :: as ≤ b :: bs ↔ a < b ∨ a = b ∧
    as ≤ bs := by
  rw [← not_lt, List.cons_lt_cons_iff, not_or, not_and, not_lt]
  constructor
  · rintro ⟨first, rest⟩
    exact (lt_or_eq_of_le first).imp_right fun same => ⟨same, not_lt.mp (rest same.symm)⟩
  · rintro (less | ⟨rfl, rest⟩)
    · exact ⟨less.le, fun same => absurd same less.ne'⟩
    · exact ⟨le_refl a, fun _ => not_lt.mpr rest⟩

theorem append_lt_append {as bs : List α} (common : List α) (less : as < bs) : common ++
    as < common ++ bs := by
  induction common with
  | nil => exact less
  | cons c common ih => exact List.cons_lt_cons_iff.mpr (.inr ⟨rfl, ih⟩)

theorem ordering_nil_cons (b : α) (bs : List α) : ordering [] (b :: bs) = .lt :=
  ordering_eq_lt.mpr (List.nil_lt_cons b bs)

theorem ordering_cons_nil (a : α) (as : List α) : ordering (a :: as) [] = .gt :=
  ordering_eq_gt.mpr (List.nil_lt_cons a as)

theorem ordering_inlₗ (x y : α) : ordering (Sum.inlₗ x : α ⊕ₗ β) (Sum.inlₗ y) = ordering x y :=
  ordering_map Sum.Lex.inl_strictMono x y

theorem ordering_inrₗ (x y : β) : ordering (Sum.inrₗ x : α ⊕ₗ β) (Sum.inrₗ y) = ordering x y :=
  ordering_map Sum.Lex.inr_strictMono x y

theorem ordering_inlₗ_inrₗ (x : α) (y : β) : ordering (Sum.inlₗ x : α ⊕ₗ β) (Sum.inrₗ y) = .lt :=
  ordering_eq_lt.mpr (Sum.Lex.inl_lt_inr x y)

theorem ordering_inrₗ_inlₗ (x : β) (y : α) : ordering (Sum.inrₗ x : α ⊕ₗ β) (Sum.inlₗ y) = .gt :=
  ordering_eq_gt.mpr (Sum.Lex.inl_lt_inr y x)

theorem ordering_coe (x y : α) : ordering (WithTop.some x) (WithTop.some y) = ordering x y :=
  ordering_map WithTop.coe_strictMono x y

theorem ordering_top_coe (y : α) : ordering ⊤ (WithTop.some y) = .gt :=
  ordering_eq_gt.mpr (WithTop.coe_lt_top y)

theorem ordering_coe_top (x : α) : ordering (WithTop.some x) ⊤ = .lt :=
  ordering_eq_lt.mpr (WithTop.coe_lt_top x)

/-! ## Lists -/

/-- Two lists compared element by element, a list being below any longer one it begins. -/
def compareLists {γ : Type} (cmp : γ → γ → Ordering) : List γ → List γ → Ordering
  | [], [] => .eq
  | [], _ :: _ => .lt
  | _ :: _, [] => .gt
  | x :: xs, y :: ys => (cmp x y).then (compareLists cmp xs ys)

/-- **Lists are compared by rank if their elements are.** -/
theorem compareLists_map {γ δ : Type} {cmp : γ → γ → Ordering} {element : δ → γ} {rank : δ → α}
    {xs ys : List δ}
    (each : ∀ x ∈ xs, ∀ y ∈ ys, cmp (element x) (element y) = ordering (rank x) (rank y)) :
    compareLists cmp (xs.map element) (ys.map element) = ordering (xs.map rank) (ys.map rank) := by
  induction xs generalizing ys with
  | nil =>
    cases ys with
    | nil => exact (ordering_self _).symm
    | cons y ys => exact (ordering_nil_cons _ _).symm
  | cons x xs ih =>
    cases ys with
    | nil => exact (ordering_cons_nil _ _).symm
    | cons y ys =>
      have rest := ih fun x listed y others =>
        each x (List.mem_cons_of_mem _ listed) y (List.mem_cons_of_mem _ others)
      simp only [List.map_cons]
      rw [compareLists, ordering_cons, each x List.mem_cons_self y List.mem_cons_self, rest]

theorem compareLists_ordering (xs ys : List α) : compareLists ordering xs ys = ordering xs ys := by
  simpa using @compareLists_map α _ α α ordering id id xs ys fun _ _ _ _ => rfl

end Precedence

end Cidrella
