import Cidrella.Lib.Text
import Mathlib.Data.List.Perm.Subperm

/-!
# One line per item

A writer renders each of its items as a text and joins the texts with a separator; a reader
splits the whole at the separator and takes the pieces for lines.  When no text has the
separator in it the lines are the texts.  When one does, its pieces pass for lines of their
own.

`OneEach` says that the lines that count can be assigned to distinct items such that every
line is the rendering of its item.  `oneEach_iff` says when this is so: each text counts with
at least one of its pieces, so a text that falls apart leaves a line that no item is left for.
-/

set_option autoImplicit false

namespace RenderedLines

variable {α β : Type}

section Separator

variable [BEq α] [LawfulBEq α] {sep : α}

theorem splitOn_intercalate_flatMap {texts : List (List α)} (some : texts ≠ []) :
    ([sep].intercalate texts).splitOn sep = texts.flatMap (·.splitOn sep) := by
  induction texts with
  | nil => exact absurd rfl some
  | cons text rest ih =>
    cases rest with
    | nil => simp [List.intercalate]
    | cons next others =>
      have joined : [sep].intercalate (text :: next :: others) =
          text ++ sep :: [sep].intercalate (next :: others) := by
        simp [List.intercalate]
      rw [joined, List.splitOn_append_cons_self, ih (List.cons_ne_nil _ _)]
      exact List.flatMap_cons.symm

end Separator

/-- The lines that count are the renderings of distinct items. -/
def OneEach (counts : List α → Bool) (render : β → Option (List α)) (items : List β)
    (lines : List (List α)) : Prop :=
  ∃ rendered, List.Subperm rendered items ∧ rendered.map render = (lines.filter counts).map some

theorem map_render_filter {render : β → Option (List α)} (items : List β) :
    (items.filter fun item => (render item).isSome).map render =
    (items.filterMap render).map some := by
  induction items with
  | nil => rfl
  | cons item rest ih =>
    cases text : render item with
    | none => simpa [text] using ih
    | some text' => simpa [text] using ih

section Count

variable {counts : List α → Bool} {render : β → Option (List α)} {items : List β}

theorem OneEach.perm_items {items' : List β} {lines : List (List α)} (reordered : items.Perm items')
    (oneEach : OneEach counts render items lines) : OneEach counts render items' lines := by
  obtain ⟨rendered, among, assigned⟩ := oneEach
  exact ⟨rendered, reordered.subperm_left.mp among, assigned⟩

theorem OneEach.perm_lines {lines lines' : List (List α)} (reordered : lines'.Perm lines)
    (oneEach : OneEach counts render items lines) : OneEach counts render items lines' := by
  obtain ⟨rendered, among, assigned⟩ := oneEach
  have pairs : ∀ (items : List β) (lines : List (List α)), items.map render = lines.map some ↔
      List.Forall₂ (fun line item => some line = render item) lines items := by
    intro items lines
    rw [eq_comm, ← List.forall₂_eq_eq_eq, List.forall₂_map_left_iff, List.forall₂_map_right_iff]
  obtain ⟨rendered', paired, others⟩ := List.perm_comp_forall₂ (reordered.filter counts)
    ((pairs _ _).mp assigned)
  exact ⟨rendered', others.subperm.trans among, (pairs _ _).mpr paired⟩

variable [BEq α] {sep : α}

theorem length_le_of_counts {texts : List (List α)}
    (counted : ∀ text ∈ texts, ∃ piece ∈ text.splitOn sep, counts piece = true) :
    texts.length ≤ ((texts.flatMap (·.splitOn sep)).filter counts).length := by
  induction texts with
  | nil => exact Nat.zero_le _
  | cons text rest ih =>
    obtain ⟨⟨piece, member, isCounted⟩, others⟩ := List.forall_mem_cons.mp counted
    have atLeast : 0 < ((text.splitOn sep).filter counts).length :=
      List.length_pos_of_mem (List.mem_filter.mpr ⟨member, isCounted⟩)
    have rest := ih others
    rw [List.flatMap_cons, List.filter_append, List.length_append, List.length_cons]
    omega

variable [LawfulBEq α]

theorem flatMap_splitOn_eq_self {texts : List (List α)} (whole : ∀ text ∈ texts, sep ∉ text) :
    texts.flatMap (·.splitOn sep) = texts := by
  induction texts with
  | nil => rfl
  | cons text rest ih =>
    obtain ⟨first, others⟩ := List.forall_mem_cons.mp whole
    rw [List.flatMap_cons, List.splitOn_eq_singleton first, ih others, List.singleton_append]

theorem splitOn_starts {front : List α} (whole : sep ∉ front) (rest : List α) :
    ∃ back others, (front ++ rest).splitOn sep = (front ++ back) :: others := by
  by_cases cut : sep ∈ rest
  · obtain ⟨back, others, rfl, absent⟩ := List.eq_append_cons_of_mem cut
    have first : sep ∉ front ++ back := by simp [whole, absent]
    exact ⟨back, others.splitOn sep,
      by rw [← List.append_assoc, List.splitOn_append_cons_self_of_not_mem first]⟩
  · exact ⟨rest, [], by rw [List.splitOn_eq_singleton (by simp [whole, cut])]⟩

/-- **Every line has an item of its own exactly when no text falls apart.** -/
theorem oneEach_iff {header : List (List α)}
    (counted : ∀ text ∈ items.filterMap render, ∃ piece ∈ text.splitOn sep, counts piece = true) :
    OneEach counts render items (header ++ (items.filterMap render).flatMap (·.splitOn sep)) ↔
      (∀ line ∈ header, counts line = false) ∧ ∀ text ∈ items.filterMap render, sep ∉ text := by
  let shown := items.filter fun item => (render item).isSome
  have shownTexts : shown.map render = (items.filterMap render).map some := map_render_filter items
  have shownLength : shown.length = (items.filterMap render).length := by
    have same := congrArg List.length shownTexts
    rwa [List.length_map, List.length_map] at same
  constructor
  · rintro ⟨rendered, among, assigned⟩
    have isShown : ∀ item ∈ rendered, (render item).isSome = true := by
      intro item member
      have image : render item ∈ rendered.map render := List.mem_map_of_mem member
      rw [assigned] at image
      obtain ⟨line, -, same⟩ := List.mem_map.mp image
      rw [← same]
      rfl
    have amongShown : List.Subperm rendered shown := by
      have filtered := among.filter fun item => (render item).isSome
      rwa [List.filter_eq_self.mpr isShown] at filtered
    have lines := congrArg List.length assigned
    rw [List.length_map, List.length_map, List.filter_append, List.length_append] at lines
    have enough := length_le_of_counts counted
    have few := amongShown.length_le
    have everyShown : ∀ item ∈ shown, item ∈ rendered :=
      (amongShown.perm_of_length_le (by omega)).symm.subset
    have comments : ∀ line ∈ header, counts line = false := by
      have none : (header.filter counts).length = 0 := by omega
      intro line member
      exact Bool.eq_false_iff.mpr (List.filter_eq_nil_iff.mp (List.length_eq_zero_iff.mp none)
        line member)
    refine ⟨comments, fun text member => ?_⟩
    obtain ⟨item, isItem, renders⟩ := List.mem_filterMap.mp member
    have isRendered := everyShown item (List.mem_filter.mpr ⟨isItem, by rw [renders]; rfl⟩)
    have image : render item ∈ rendered.map render := List.mem_map_of_mem isRendered
    rw [assigned] at image
    obtain ⟨line, isLine, same⟩ := List.mem_map.mp image
    obtain rfl : line = text := Option.some.inj (same.trans renders)
    obtain ⟨among, counts⟩ := List.mem_filter.mp isLine
    obtain inHeader | inTexts := List.mem_append.mp among
    · rw [comments line inHeader] at counts
      exact absurd counts Bool.false_ne_true
    · obtain ⟨text, -, isPiece⟩ := List.mem_flatMap.mp inTexts
      exact Cidrella.Text.not_mem_of_mem_splitOn isPiece
  · rintro ⟨comments, whole⟩
    refine ⟨shown, List.filter_sublist.subperm, ?_⟩
    have dropped : header.filter counts = [] := List.filter_eq_nil_iff.mpr fun line member => by
      simp [comments line member]
    have kept : (items.filterMap render).filter counts = items.filterMap render := by
      refine List.filter_eq_self.mpr fun text member => ?_
      obtain ⟨piece, isPiece, counts⟩ := counted text member
      rw [List.splitOn_eq_singleton (whole text member), List.mem_singleton] at isPiece
      exact isPiece ▸ counts
    rw [List.filter_append, dropped, List.nil_append, flatMap_splitOn_eq_self whole, kept,
      map_render_filter]

end Count

end RenderedLines
