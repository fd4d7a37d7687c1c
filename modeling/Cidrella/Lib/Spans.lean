import Mathlib.Tactic

/-!
# Cutting spans of numbers

A span is the numbers from a start to an end, both included. `cutAll` takes spans out of a
span, one after the other, and leaves the pieces in order.

The pieces hold exactly what the cuts leave (`has_cutAll`), they lie inside the span
(`within_cutAll`), and no two of them meet (`pairwise_cutAll`).

Of the numbers of a window, spans that do not meet have as many as each of them taken alone
(`card_covered`).
-/

set_option autoImplicit false

namespace Cidrella

/-- The numbers from `start` to `stop`. A span whose end lies before its start is empty. -/
structure Span where
  start : Nat
  stop : Nat
  deriving DecidableEq, Repr

namespace Span

/-- The number lies in the span. -/
def Has (span : Span) (value : Nat) : Prop := span.start ≤ value ∧ value ≤ span.stop

instance (span : Span) (value : Nat) : Decidable (span.Has value) :=
  inferInstanceAs (Decidable (_ ∧ _))

/-- One span taken out of a piece: what stands before it and what stands after it. -/
def cut (piece taken : Span) : List Span :=
  if taken.stop < piece.start ∨ piece.stop < taken.start then [piece]
  else
    (if piece.start < taken.start then [⟨piece.start, taken.start - 1⟩] else []) ++
      if taken.stop < piece.stop then [⟨taken.stop + 1, piece.stop⟩] else []

/-- Spans taken out of a span. -/
def cutAll (span : Span) (cuts : List Span) : List Span :=
  cuts.foldl (fun pieces taken => pieces.flatMap (·.cut taken)) [span]

theorem cutAll_concat (span taken : Span) (cuts : List Span) :
    span.cutAll (cuts ++ [taken]) = (span.cutAll cuts).flatMap (·.cut taken) := by
  rw [cutAll, List.foldl_append]
  rfl

theorem has_cut {piece taken : Span} {value : Nat} :
    (∃ part ∈ piece.cut taken, part.Has value) ↔ piece.Has value ∧ ¬ taken.Has value := by
  unfold cut Has
  split
  · rw [List.exists_mem_cons_iff]
    simp only [List.not_mem_nil, false_and, exists_false, or_false]
    omega
  · constructor
    · rintro ⟨part, member, low, high⟩
      rcases List.mem_append.mp member with before | after
      · split at before
        · obtain rfl := List.mem_singleton.mp before
          simp only at low high
          omega
        · cases before
      · split at after
        · obtain rfl := List.mem_singleton.mp after
          simp only at low high
          omega
        · cases after
    · rintro ⟨⟨low, high⟩, outside⟩
      by_cases before : value < taken.start
      · refine ⟨⟨piece.start, taken.start - 1⟩, List.mem_append_left _ ?_, low, ?_⟩
        · rw [if_pos (by omega)]
          exact List.mem_singleton_self _
        · simp only
          omega
      · refine ⟨⟨taken.stop + 1, piece.stop⟩, List.mem_append_right _ ?_, ?_, high⟩
        · rw [if_pos (by omega)]
          exact List.mem_singleton_self _
        · simp only
          omega

/-- **The pieces hold what the cuts leave.** -/
theorem has_cutAll {span : Span} {cuts : List Span} {value : Nat} :
    (∃ piece ∈ span.cutAll cuts, piece.Has value) ↔ span.Has value ∧ ∀ taken ∈ cuts,
    ¬ taken.Has value := by
  induction cuts using List.reverseRecOn with
  | nil => simp [cutAll]
  | append_singleton cuts taken ih =>
    rw [cutAll_concat]
    calc (∃ part ∈ (span.cutAll cuts).flatMap (·.cut taken), part.Has value)
        ↔ ∃ piece ∈ span.cutAll cuts, ∃ part ∈ piece.cut taken, part.Has value := by
          simp only [List.mem_flatMap]
          constructor
          · rintro ⟨part, ⟨piece, member, cut⟩, inside⟩
            exact ⟨piece, member, part, cut, inside⟩
          · rintro ⟨piece, member, part, cut, inside⟩
            exact ⟨part, ⟨piece, member, cut⟩, inside⟩
      _ ↔ (∃ piece ∈ span.cutAll cuts, piece.Has value) ∧ ¬ taken.Has value := by
          simp only [has_cut]
          constructor
          · rintro ⟨piece, member, inside, outside⟩
            exact ⟨⟨piece, member, inside⟩, outside⟩
          · rintro ⟨⟨piece, member, inside⟩, outside⟩
            exact ⟨piece, member, inside, outside⟩
      _ ↔ span.Has value ∧ ∀ other ∈ cuts ++ [taken], ¬ other.Has value := by
          rw [ih, and_assoc]
          refine and_congr_right fun _ => ?_
          simp only [List.mem_append, List.mem_singleton, or_imp, forall_and, forall_eq]

theorem within_cut {piece taken part : Span} (order : piece.start ≤ piece.stop)
    (member : part ∈ piece.cut taken) :
    piece.start ≤ part.start ∧ part.start ≤ part.stop ∧ part.stop ≤ piece.stop := by
  unfold cut at member
  split at member
  · obtain rfl := List.mem_singleton.mp member
    exact ⟨le_rfl, order, le_rfl⟩
  · rcases List.mem_append.mp member with before | after
    · split at before
      · obtain rfl := List.mem_singleton.mp before
        simp only
        omega
      · cases before
    · split at after
      · obtain rfl := List.mem_singleton.mp after
        simp only
        omega
      · cases after

theorem within_cutAll {span : Span} (order : span.start ≤ span.stop) {cuts : List Span} :
    ∀ piece ∈ span.cutAll cuts,
      span.start ≤ piece.start ∧ piece.start ≤ piece.stop ∧ piece.stop ≤ span.stop := by
  induction cuts using List.reverseRecOn with
  | nil =>
    intro piece member
    obtain rfl := List.mem_singleton.mp member
    exact ⟨le_rfl, order, le_rfl⟩
  | append_singleton cuts taken ih =>
    intro part member
    rw [cutAll_concat] at member
    obtain ⟨piece, within, cut⟩ := List.mem_flatMap.mp member
    obtain ⟨low, ordered, high⟩ := ih piece within
    obtain ⟨lower, inner, higher⟩ := within_cut ordered cut
    exact ⟨low.trans lower, inner, higher.trans high⟩

/-- The spans share no number. -/
def Apart (left right : Span) : Prop := ∀ value, ¬ (left.Has value ∧ right.Has value)

theorem pairwise_cut {piece taken : Span} (order : taken.start ≤ taken.stop) :
    (piece.cut taken).Pairwise Apart := by
  unfold cut
  split
  · exact List.pairwise_singleton _ _
  · split
    · split
      · refine List.pairwise_pair.mpr fun value both => ?_
        obtain ⟨⟨-, before⟩, after, -⟩ := both
        simp only at before after
        omega
      · exact List.pairwise_singleton _ _
    · split
      · exact List.pairwise_singleton _ _
      · exact List.Pairwise.nil

/-- **No two pieces meet.** -/
theorem pairwise_cutAll (span : Span) {cuts : List Span} (order : ∀ taken ∈ cuts,
    taken.start ≤ taken.stop) :
    (span.cutAll cuts).Pairwise Apart := by
  induction cuts using List.reverseRecOn with
  | nil => exact List.pairwise_singleton _ _
  | append_singleton cuts taken ih =>
    rw [cutAll_concat, List.pairwise_flatMap]
    refine ⟨fun piece _ => pairwise_cut (order taken (by simp)), ?_⟩
    refine (ih fun other member => order other (by simp [member])).imp ?_
    intro left right apart part member other memberOther value both
    exact apart value ⟨(has_cut.mp ⟨part, member, both.1⟩).1,
      (has_cut.mp ⟨other, memberOther, both.2⟩).1⟩

/-! ## Parts of a window -/

/-- How many numbers of a window a span has. -/
def overlap (span window : Span) : Nat := min span.stop window.stop + 1 - max span.start
    window.start

/-- The numbers of a window that one of the spans has. -/
def covered (spans : List Span) (window : Span) : Finset Nat :=
  (Finset.Icc window.start window.stop).filter fun value => ∃ span ∈ spans, span.Has value

theorem card_covered_singleton (span window : Span) : (covered [span] window).card = span.overlap
    window := by
  have whole : covered [span] window =
      Finset.Icc (max span.start window.start) (min span.stop window.stop) := by
    ext value
    simp only [covered, Has, List.mem_singleton, exists_eq_left, Finset.mem_filter, Finset.mem_Icc]
    omega
  rw [whole, Nat.card_Icc, overlap]

/-- **Spans apart have as many numbers of a window as each of them taken alone.** -/
theorem card_covered {spans : List Span} (apart : spans.Pairwise Apart) (window : Span) :
    (covered spans window).card = (spans.map (·.overlap window)).sum := by
  induction spans with
  | nil => simp [covered]
  | cons span spans ih =>
    obtain ⟨first, rest⟩ := List.pairwise_cons.mp apart
    have split : covered (span :: spans) window = covered [span] window ∪ covered spans window := by
      ext value
      simp only [covered, List.mem_cons, List.not_mem_nil, or_false, exists_eq_or_imp,
        exists_eq_left, Finset.mem_union, Finset.mem_filter, and_or_left]
    have disjoint : Disjoint (covered [span] window) (covered spans window) := by
      refine Finset.disjoint_left.mpr fun value here there => ?_
      simp only [covered, List.mem_singleton, exists_eq_left, Finset.mem_filter] at here there
      obtain ⟨other, member, has⟩ := there.2
      exact first other member value ⟨here.2, has⟩
    rw [split, Finset.card_union_of_disjoint disjoint, card_covered_singleton, ih rest,
      List.map_cons, List.sum_cons]

end Span

end Cidrella
