import Mathlib.Tactic

/-!
# Greedy walks up a ladder

Elements of a linear order are reached by hops, each from the place where the last one ended.
No hop goes down, and what can be reached from a lower element and lies above a higher one
can be reached from the higher one too (`Ladder`). Then always hopping to the greatest element
in reach is the best way up: such a walk stays ahead of any other (`Ladder.ahead`), so it ends
at the greatest element that can be reached at all, after the fewest hops that reach it
(`Ladder.best_of_greedy`).
-/

set_option autoImplicit false

namespace Cidrella

/-- Elements that are reached by hops from places. -/
structure Ladder (σ α L : Type) [LinearOrder L] where
  /-- Where a hop to an element ends. -/
  place : α → σ
  rank : α → L
  listed : α → Prop
  hop : σ → α → Prop
  listed_of_hop : ∀ {s a}, hop s a → listed a
  up : ∀ {a b}, listed a → hop (place a) b → rank a ≤ rank b
  keep : ∀ {a a' b}, listed a → listed a' → rank a ≤ rank a' → rank a' < rank b → hop (place a) b →
    hop (place a') b

namespace Ladder

variable {σ α L : Type} [LinearOrder L]

/-- Hops one after another. -/
inductive Path (ladder : Ladder σ α L) : σ → List α → Prop where
  | nil (s : σ) : ladder.Path s []
  | cons {s : σ} {a : α} {rest : List α} : ladder.hop s a → ladder.Path (ladder.place a) rest →
      ladder.Path s (a :: rest)

variable (ladder : Ladder σ α L)

/-- The greatest element in reach. -/
def Greatest (s : σ) (a : α) : Prop :=
  ladder.hop s a ∧ ∀ b, ladder.hop s b → ladder.rank b ≤ ladder.rank a

/-- Greatest hops, each of which goes up, until none goes higher. -/
def GreedyFrom : α → List α → Prop
  | a, [] => ∀ b, ladder.hop (ladder.place a) b → ladder.rank b ≤ ladder.rank a
  | a, b :: rest => ladder.Greatest (ladder.place a) b ∧ ladder.rank a < ladder.rank b ∧
      GreedyFrom b rest

variable {ladder}

theorem GreedyFrom.path {a : α} {hops : List α} (greedy : ladder.GreedyFrom a hops) :
    ladder.Path (ladder.place a) hops := by
  induction hops generalizing a with
  | nil => exact .nil _
  | cons b rest ih => exact .cons greedy.1.1 (ih greedy.2.2)

theorem GreedyFrom.rank_le {a : α} {hops : List α} (greedy : ladder.GreedyFrom a hops)
    (count : Nat) :
    ladder.rank ((hops.take count).getLastD a) ≤ ladder.rank (hops.getLastD a) := by
  induction hops generalizing a count with
  | nil => rw [List.take_nil]
  | cons b rest ih =>
    cases count with
    | zero =>
      have above := ih greedy.2.2 0
      rw [List.take_zero, List.getLastD_nil] at above ⊢
      rw [List.getLastD_cons]
      exact greedy.2.1.le.trans above
    | succ count =>
      rw [List.take_succ_cons, List.getLastD_cons, List.getLastD_cons]
      exact ih greedy.2.2 count

theorem GreedyFrom.rank_lt {a : α} {hops : List α} (greedy : ladder.GreedyFrom a hops) {count : Nat}
    (short : count < hops.length) :
    ladder.rank ((hops.take count).getLastD a) < ladder.rank (hops.getLastD a) := by
  induction hops generalizing a count with
  | nil => cases short
  | cons b rest ih =>
    cases count with
    | zero =>
      have above := greedy.2.2.rank_le 0
      rw [List.take_zero, List.getLastD_nil] at above ⊢
      rw [List.getLastD_cons]
      exact greedy.2.1.trans_le above
    | succ count =>
      rw [List.take_succ_cons, List.getLastD_cons, List.getLastD_cons]
      exact ih greedy.2.2 (Nat.lt_of_succ_lt_succ short)

/-- **A greedy walk stays ahead**: as many hops take it at least as high. -/
theorem ahead {a b : α} {path hops : List α} (listedA : ladder.listed a) (listedB : ladder.listed b)
    (below : ladder.rank a ≤ ladder.rank b) (walked : ladder.Path (ladder.place a) path)
    (greedy : ladder.GreedyFrom b hops) :
    ladder.rank (path.getLastD a) ≤ ladder.rank ((hops.take path.length).getLastD b) := by
  induction path generalizing a b hops with
  | nil => simpa using below
  | cons x path ih =>
    cases walked with
    | cons hop walked =>
      have listedX := ladder.listed_of_hop hop
      rw [List.getLastD_cons, List.length_cons]
      cases hops with
      | nil =>
        -- the greedy walk has ended: nothing in reach is higher
        have within : ladder.rank x ≤ ladder.rank b := by
          by_contra above
          exact above (greedy x (ladder.keep listedA listedB below (not_le.mp above) hop))
        have rest := ih listedX listedB within walked greedy
        rwa [List.take_nil] at rest ⊢
      | cons c hops =>
        obtain ⟨⟨hopC, greatest⟩, higher, greedy⟩ := greedy
        have within : ladder.rank x ≤ ladder.rank c := by
          obtain low | high := le_or_gt (ladder.rank x) (ladder.rank b)
          · exact low.trans higher.le
          · exact greatest x (ladder.keep listedA listedB below high hop)
        rw [List.take_succ_cons, List.getLastD_cons]
        exact ih listedX (ladder.listed_of_hop hopC) within walked greedy

/-- **A greedy walk is the best one**: no path ends higher, and none that ends as high is
shorter. -/
theorem best_of_greedy {s : σ} {a b : α} {path hops : List α} (first : ladder.Greatest s b)
    (greedy : ladder.GreedyFrom b hops) (walked : ladder.Path s (a :: path)) :
    ladder.rank (path.getLastD a) ≤ ladder.rank (hops.getLastD b) ∧
      (ladder.rank (path.getLastD a) = ladder.rank (hops.getLastD b) →
      hops.length ≤ path.length) := by
  cases walked with
  | cons hop walked =>
    have stays :=
      ahead (ladder.listed_of_hop hop) (ladder.listed_of_hop first.1) (first.2 a hop) walked greedy
    refine ⟨stays.trans (greedy.rank_le _), fun same => ?_⟩
    by_contra short
    exact absurd same (stays.trans_lt (greedy.rank_lt (not_le.mp short))).ne

end Ladder

end Cidrella
