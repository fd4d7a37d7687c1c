import Mathlib.Tactic

/-!
# Weighted votes

Votes for labels, each with a weight, counted one after the other: a label voted for again
gains weight where it stands, and a new one is put last. The winner is the heaviest label,
and of several as heavy the one voted for first (`wins_of_winner`).

Labels are told apart by a key. Weights are added by `plus`, which need not be exact: the
count is right where every sum it came across was (`Exact`).
-/

set_option autoImplicit false

namespace Cidrella

namespace Tally

variable {α κ ω : Type} [DecidableEq κ] [DecidableEq α] [AddCommMonoid ω] [LinearOrder ω]

/-- One more vote. -/
def vote (key : α → κ) (plus : ω → ω → ω) (entries : List (α × ω)) (label : α) (weight : ω) :
    List (α × ω) :=
  if entries.any fun entry => key entry.1 = key label then
    entries.map fun entry => if key entry.1 = key label then (entry.1, plus entry.2 weight)
      else entry
  else entries ++ [(label, weight)]

/-- All votes. -/
def tally (key : α → κ) (plus : ω → ω → ω) (votes : List (α × ω)) : List (α × ω) :=
  votes.foldl (fun entries v => vote key plus entries v.1 v.2) []

omit [DecidableEq α] [AddCommMonoid ω] [LinearOrder ω] in
theorem tally_concat (key : α → κ) (plus : ω → ω → ω) (votes : List (α × ω)) (label : α)
    (weight : ω) :
    tally key plus (votes ++ [(label, weight)]) = vote key plus (tally key plus votes) label
    weight := by
  rw [tally, List.foldl_append]
  rfl

/-- The first of the heaviest. -/
def winner (entries : List (α × ω)) : Option (α × ω) :=
  entries.foldl
    (fun best entry =>
      match best with
      | none => some entry
      | some leading => if leading.2 < entry.2 then some entry else some leading)
    none

/-- The sum of the votes for a label. -/
def weightOf (votes : List (α × ω)) (label : α) : ω :=
  ((votes.filter (·.1 = label)).map Prod.snd).sum

/-- The label was voted for, no label is heavier, and none as heavy was voted for earlier. -/
def Wins (votes : List (α × ω)) (label : α) : Prop :=
  label ∈ votes.map Prod.fst ∧
    ∀ other ∈ votes.map Prod.fst, weightOf votes other ≤ weightOf votes label ∧
      (weightOf votes other = weightOf votes label →
        (votes.map Prod.fst).idxOf label ≤ (votes.map Prod.fst).idxOf other)

/-- Every sum that the count comes across is exact. -/
def Exact (plus : ω → ω → ω) (votes : List (α × ω)) : Prop :=
  ∀ front label weight, front ++ [(label, weight)] <+: votes →
    plus (weightOf front label) weight = weightOf front label + weight

/-- What the entries say of the votes. -/
structure Counted (votes entries : List (α × ω)) : Prop where
  labels : ∀ label, label ∈ entries.map Prod.fst ↔ label ∈ votes.map Prod.fst
  weights : ∀ entry ∈ entries, entry.2 = weightOf votes entry.1
  order : entries.Pairwise fun entry later =>
    (votes.map Prod.fst).idxOf entry.1 < (votes.map Prod.fst).idxOf later.1

section

variable {key : α → κ} {plus : ω → ω → ω} {votes entries : List (α × ω)} {label : α}

omit [DecidableEq κ] [LinearOrder ω] in
theorem weightOf_concat (votes : List (α × ω)) (label other : α) (weight : ω) :
    weightOf (votes ++ [(label, weight)]) other = weightOf votes other + if label = other
    then weight else 0 := by
  rw [weightOf, weightOf, List.filter_append, List.map_append, List.sum_append]
  congr 1
  by_cases same : label = other
  · simp [same]
  · simp [same]

omit [LinearOrder ω] in
/-- **A vote is counted.** -/
theorem Counted.vote (injective : Function.Injective key) (counted : Counted votes entries)
    (label : α) (weight : ω) (exact_ : plus (weightOf votes label) weight = weightOf votes
    label + weight) :
    Counted (votes ++ [(label, weight)]) (vote key plus entries label weight) := by
  have labelsOf : (votes ++ [(label, weight)]).map Prod.fst = votes.map Prod.fst ++
      [label] := by simp
  have kept {other : α} (listed : other ∈ votes.map Prod.fst) :
      ((votes ++ [(label, weight)]).map Prod.fst).idxOf other =
      (votes.map Prod.fst).idxOf other := by
    rw [labelsOf, List.idxOf_append_of_mem listed]
  have listed {entry : α × ω} (member : entry ∈ entries) : entry.1 ∈ votes.map Prod.fst :=
    (counted.labels _).mp (List.mem_map_of_mem member)
  rw [Tally.vote]
  split
  · rename_i known
    obtain ⟨old, member, sameKey⟩ := List.any_eq_true.mp known
    have again : label ∈ votes.map Prod.fst := injective (of_decide_eq_true sameKey) ▸ listed member
    have firsts : (entries.map fun entry =>
        if key entry.1 = key label then (entry.1, plus entry.2 weight) else entry).map Prod.fst =
          entries.map Prod.fst := by
      rw [List.map_map]
      refine List.map_congr_left fun entry _ => ?_
      rw [Function.comp_apply]
      split <;> rfl
    refine ⟨fun other => ?_, fun entry member => ?_, ?_⟩
    · rw [firsts, labelsOf, counted.labels, List.mem_append, List.mem_singleton]
      exact ⟨.inl, fun either => either.elim id fun same => same ▸ again⟩
    · obtain ⟨before, counted', rfl⟩ := List.mem_map.mp member
      have sum := counted.weights before counted'
      by_cases same : before.1 = label
      · rw [if_pos (congrArg key same), weightOf_concat, if_pos same.symm, sum, same, exact_]
      · rw [if_neg (injective.ne same), weightOf_concat, if_neg (Ne.symm same), add_zero, sum]
    · refine List.pairwise_map.mpr (counted.order.imp_of_mem fun {first later} memberFirst
        memberLater order => ?_)
      have fst (entry : α × ω) :
          (if key entry.1 = key label then (entry.1, plus entry.2 weight) else entry).1 =
          entry.1 := by
        split <;> rfl
      rw [fst, fst, kept (listed memberFirst), kept (listed memberLater)]
      exact order
  · rename_i unknown
    have fresh : label ∉ votes.map Prod.fst := by
      intro again
      obtain ⟨old, member, same⟩ := List.mem_map.mp ((counted.labels _).mpr again)
      exact unknown (List.any_eq_true.mpr ⟨old, member, decide_eq_true (congrArg key same)⟩)
    refine ⟨fun other => ?_, fun entry member => ?_, ?_⟩
    · rw [List.map_append, List.map_append, List.mem_append, List.mem_append, counted.labels]
    · rcases List.mem_append.mp member with before | new
      · have other : label ≠ entry.1 := fun same => fresh (same ▸ listed before)
        rw [weightOf_concat, if_neg other, add_zero]
        exact counted.weights entry before
      · rw [List.mem_singleton.mp new, weightOf_concat, if_pos rfl]
        have none : votes.filter (·.1 = label) = [] :=
          List.filter_eq_nil_iff.mpr fun entry member same =>
            fresh (of_decide_eq_true same ▸ List.mem_map_of_mem member)
        rw [weightOf, none]
        exact (zero_add _).symm
    · refine List.pairwise_append.mpr
        ⟨counted.order.imp_of_mem fun {first later} memberFirst memberLater order => ?_,
        List.pairwise_singleton _ _, fun first member later new => ?_⟩
      · rw [kept (listed memberFirst), kept (listed memberLater)]
        exact order
      · rw [List.mem_singleton.mp new, kept (listed member), labelsOf,
          List.idxOf_append_of_notMem fresh]
        have before := List.idxOf_lt_length_of_mem (listed member)
        simpa using before

omit [LinearOrder ω] in
/-- **Votes counted one after the other.** -/
theorem counted_tally (injective : Function.Injective key) (exact_ : Exact plus votes) :
    Counted votes (tally key plus votes) := by
  induction votes using List.reverseRecOn with
  | nil => exact ⟨fun _ => Iff.rfl, nofun, List.Pairwise.nil⟩
  | append_singleton votes last ih =>
    rw [tally_concat]
    have before := ih fun front label weight earlier =>
      exact_ front label weight (earlier.trans (List.prefix_append _ _))
    exact before.vote injective last.1 last.2 (exact_ votes last.1 last.2 (List.prefix_refl _))

omit [DecidableEq κ] [DecidableEq α] [AddCommMonoid ω] in
theorem exists_winner (some' : entries ≠ []) : ∃ front best back, entries = front ++ best :: back ∧
    winner entries = some best ∧ (∀ entry ∈ front, entry.2 < best.2) ∧ ∀ entry ∈ back,
    entry.2 ≤ best.2 := by
  induction entries using List.reverseRecOn with
  | nil => exact absurd rfl some'
  | append_singleton entries last ih =>
    rcases eq_or_ne entries [] with rfl | more
    · exact ⟨[], last, [], rfl, rfl, nofun, nofun⟩
    · obtain ⟨front, best, back, whole, wins, before, behind⟩ := ih more
      have step : winner (entries ++ [last]) = if best.2 < last.2 then some last
          else some best := by
        rw [winner, List.foldl_append, ← winner, wins]
        rfl
      by_cases heavier : best.2 < last.2
      · refine ⟨entries, last, [], rfl, by rw [step, if_pos heavier], fun entry member => ?_, nofun⟩
        rw [whole] at member
        rcases List.mem_append.mp member with first | later
        · exact (before entry first).trans heavier
        · rcases List.mem_cons.mp later with rfl | later
          · exact heavier
          · exact (behind entry later).trans_lt heavier
      · refine ⟨front, best, back ++ [last], by rw [whole]; simp, by rw [step, if_neg heavier],
          before, fun entry member => ?_⟩
        rcases List.mem_append.mp member with later | new
        · exact behind entry later
        · rw [List.mem_singleton.mp new]
          exact not_lt.mp heavier

/-- **The winner wins.** -/
theorem wins_of_winner (injective : Function.Injective key) (exact_ : Exact plus votes)
    {best : α × ω} (wins : winner (tally key plus votes) = some best) : Wins votes best.1 := by
  have counted := counted_tally injective exact_
  generalize tally key plus votes = entries at wins counted
  have some' : entries ≠ [] := by
    rintro rfl
    cases wins
  obtain ⟨front, best', back, rfl, wins', before, behind⟩ := exists_winner some'
  obtain rfl := Option.some.inj (wins.symm.trans wins')
  have member : best ∈ front ++ best :: back := by simp
  refine ⟨(counted.labels _).mp (List.mem_map_of_mem member), fun other voted => ?_⟩
  obtain ⟨entry, listed, rfl⟩ := List.mem_map.mp ((counted.labels _).mpr voted)
  rw [← counted.weights entry listed, ← counted.weights best member]
  rcases List.mem_append.mp listed with first | later
  · have lighter := before entry first
    exact ⟨lighter.le, fun same => absurd same lighter.ne⟩
  · rcases List.mem_cons.mp later with rfl | later
    · exact ⟨le_refl _, fun _ => le_refl _⟩
    · refine ⟨behind entry later, fun _ => ?_⟩
      have order := (List.pairwise_append.mp counted.order).2.1
      exact (List.rel_of_pairwise_cons order later).le

omit [DecidableEq κ] [DecidableEq α] [AddCommMonoid ω] in
theorem winner_eq_none : winner entries = none ↔ entries = [] := by
  constructor
  · intro none
    by_contra some'
    obtain ⟨front, best, back, -, wins, -⟩ := exists_winner some'
    rw [none] at wins
    cases wins
  · rintro rfl
    rfl

omit [DecidableEq κ] in
theorem exact_of_sums [IsOrderedAddMonoid ω] (nonneg : ∀ v ∈ votes, 0 ≤ v.2)
    (sums : ∀ a b, 0 ≤ a → 0 ≤ b → a + b ≤ (votes.map Prod.snd).sum → plus a b = a + b) :
    Exact plus votes := by
  intro front label weight earlier
  have weights {part : List (α × ω)} (sub : part.Sublist votes) :
      ∀ a ∈ part.map Prod.snd, 0 ≤ a := by
    intro a member
    obtain ⟨v, listed, rfl⟩ := List.mem_map.mp member
    exact nonneg v (sub.subset listed)
  have chosen : (front.filter (·.1 = label) ++ [(label, weight)]).Sublist votes :=
    (List.filter_sublist.append (List.Sublist.refl _)).trans earlier.sublist
  refine sums _ _ ?_ ?_ ?_
  · exact List.sum_nonneg (weights ((List.sublist_append_left _ _).trans chosen))
  · exact nonneg (label, weight) (chosen.subset (by simp))
  · have total := (chosen.map Prod.snd).sum_le_sum (weights (List.Sublist.refl _))
    rwa [List.map_append, List.sum_append, List.map_singleton, List.sum_singleton] at total

omit [DecidableEq α] [AddCommMonoid ω] [LinearOrder ω] in
theorem vote_ne_nil (label : α) (weight : ω) : vote key plus entries label weight ≠ [] := by
  rw [vote]
  split
  · rename_i known
    obtain ⟨old, member, -⟩ := List.any_eq_true.mp known
    exact List.ne_nil_of_length_pos (by rw [List.length_map]; exact List.length_pos_of_mem member)
  · exact List.append_ne_nil_of_right_ne_nil _ (List.cons_ne_nil _ _)

omit [DecidableEq α] [AddCommMonoid ω] [LinearOrder ω] in
theorem tally_eq_nil : tally key plus votes = [] ↔ votes = [] := by
  cases votes using List.reverseRecOn with
  | nil => exact Iff.rfl
  | append_singleton votes last =>
    rw [tally_concat]
    exact iff_of_false (vote_ne_nil _ _)
      (List.append_ne_nil_of_right_ne_nil _ (List.cons_ne_nil _ _))

end

end Tally

end Cidrella
