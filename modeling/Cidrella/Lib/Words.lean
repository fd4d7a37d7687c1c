import Mathlib.Data.List.Basic

/-!
# Words

A text is a list of words with blanks between them.  `words` reads them, whatever blanks
stand before, between and after; a text made by putting one blank between words gives them
back when none of them is empty or has a blank in it.
-/

set_option autoImplicit false

namespace Words

variable {α : Type} {blank : α → Bool}

/-- The words of a text: the runs of what is not blank. -/
def words (blank : α → Bool) (text : List α) : List (List α) :=
  (text.splitOnP blank).filter fun word => !word.isEmpty

theorem solid_of_mem_splitOnP {text piece : List α} (member : piece ∈ text.splitOnP blank) :
    ∀ c ∈ piece, blank c = false := by
  induction text generalizing piece with
  | nil =>
    rw [List.splitOnP_nil, List.mem_singleton] at member
    rw [member]
    exact fun c inside => absurd inside List.not_mem_nil
  | cons x rest ih =>
    rw [List.splitOnP_cons_eq_if_modifyHead] at member
    split at member
    · obtain rfl | later := List.mem_cons.mp member
      · exact fun c inside => absurd inside List.not_mem_nil
      · exact ih later
    · rename_i solid
      obtain ⟨first, others, pieces⟩ := List.exists_cons_of_ne_nil (List.splitOnP_ne_nil blank rest)
      rw [pieces, List.modifyHead_cons] at member
      obtain rfl | later := List.mem_cons.mp member
      · exact List.forall_mem_cons.mpr ⟨Bool.eq_false_iff.mpr solid,
          ih (pieces ▸ List.mem_cons_self)⟩
      · exact ih (pieces ▸ List.mem_cons_of_mem first later)

theorem of_mem_words {text word : List α} (member : word ∈ words blank text) :
    word ≠ [] ∧ ∀ c ∈ word, blank c = false := by
  obtain ⟨piece, filled⟩ := List.mem_filter.mp member
  exact ⟨by simpa using filled, solid_of_mem_splitOnP piece⟩

theorem words_append_blank {sep : α} (isBlank : blank sep = true) (front back : List α) :
    words blank (front ++ sep :: back) = words blank front ++ words blank back := by
  rw [words, List.splitOnP_append_cons front back isBlank, List.filter_append]
  rfl

theorem words_of_solid {word : List α} (filled : word ≠ []) (solid : ∀ c ∈ word, blank c = false) :
    words blank word = [word] := by
  rw [words, List.splitOnP_eq_singleton solid, List.filter_cons_of_pos]
  · rfl
  · simpa using filled

/-- **Words with a blank between them are read back.** -/
theorem words_intercalate {sep : α} (isBlank : blank sep = true) {ws : List (List α)}
    (solid : ∀ word ∈ ws, word ≠ [] ∧ ∀ c ∈ word, blank c = false) :
    words blank ([sep].intercalate ws) = ws := by
  induction ws with
  | nil => rfl
  | cons word rest ih =>
    obtain ⟨⟨filled, noBlank⟩, others⟩ := List.forall_mem_cons.mp solid
    cases rest with
    | nil =>
      have single : [sep].intercalate [word] = word := by simp [List.intercalate]
      rw [single, words_of_solid filled noBlank]
    | cons next rest =>
      have joined : [sep].intercalate (word :: next :: rest) =
          word ++ sep :: [sep].intercalate (next :: rest) := by
        simp [List.intercalate]
      rw [joined, words_append_blank isBlank, words_of_solid filled noBlank, ih others]
      rfl

end Words
