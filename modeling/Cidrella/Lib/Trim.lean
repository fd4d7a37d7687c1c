import Cidrella.Lib.Text
import Mathlib.Data.List.TakeWhile

/-!
# Trimmed texts

What is left of a text when the characters of a kind are taken from both its ends. A text is
its trimmed form between two paddings of that kind (`exists_padding`), and around a core that
has no such character the paddings are determined (`padding_unique`).
-/

set_option autoImplicit false

namespace Cidrella

namespace Text

/-- A text without the characters of a kind at its ends. -/
def trimBy (blank : Char → Bool) (text : Text) : Text :=
  ((text.dropWhile blank).reverse.dropWhile blank).reverse

variable {blank : Char → Bool} {front core back : Text}

theorem exists_padding (blank : Char → Bool) (text : Text) :
    ∃ front back, text = front ++ trimBy blank text ++ back ∧ ∀ c ∈ front ++ back,
    blank c = true := by
  refine ⟨text.takeWhile blank, ((text.dropWhile blank).reverse.takeWhile blank).reverse, ?_, ?_⟩
  · rw [trimBy, List.append_assoc, ← List.reverse_append, List.takeWhile_append_dropWhile,
      List.reverse_reverse, List.takeWhile_append_dropWhile]
  · intro c member
    obtain before | behind := List.mem_append.mp member
    · exact List.mem_takeWhile_imp before
    · exact List.mem_takeWhile_imp (List.mem_reverse.mp behind)

theorem dropWhile_padded (pads : ∀ c ∈ front, blank c = true) (solid : ∀ c ∈ core, blank c = false)
    (some : core ≠ []) (rest : Text) : (front ++ (core ++ rest)).dropWhile blank = core ++
    rest := by
  rw [List.dropWhile_append_of_pos pads]
  obtain ⟨c, cs, rfl⟩ := List.exists_cons_of_ne_nil some
  rw [List.cons_append, List.dropWhile_cons_of_neg]
  simp [solid c List.mem_cons_self]

/-- **A core without such characters is what trimming leaves.** -/
theorem trimBy_padded (pads : ∀ c ∈ front ++ back, blank c = true) (solid : ∀ c ∈ core,
    blank c = false) (some : core ≠ []) : trimBy blank (front ++ core ++ back) = core := by
  have behind : ∀ c ∈ back.reverse, blank c = true := fun c member =>
    pads c (List.mem_append_right _ (List.mem_reverse.mp member))
  have reversed : ∀ c ∈ core.reverse, blank c = false :=
    fun c member => solid c (List.mem_reverse.mp member)
  have before : ∀ c ∈ front, blank c = true :=
    fun c member => pads c (List.mem_append_left _ member)
  rw [trimBy, List.append_assoc, dropWhile_padded before solid some, List.reverse_append,
    ← List.append_nil core.reverse, dropWhile_padded behind reversed (by simpa using some),
    List.append_nil, List.reverse_reverse]

/-- **The paddings of such a core are determined.** -/
theorem padding_unique {front' back' : Text} (pads : ∀ c ∈ front ++ back, blank c = true)
    (pads' : ∀ c ∈ front' ++ back', blank c = true) (solid : ∀ c ∈ core, blank c = false)
    (some : core ≠ []) (same : front ++ core ++ back = front' ++ core ++ back') : front = front' ∧
    back = back' := by
  rw [List.append_assoc, List.append_assoc] at same
  have rests : core ++ back = core ++ back' := by
    rw [← dropWhile_padded (fun c member => pads c (List.mem_append_left _ member)) solid some back,
      same, dropWhile_padded (fun c member => pads' c (List.mem_append_left _ member))
      solid some back']
  rw [rests] at same
  exact ⟨List.append_cancel_right same, List.append_cancel_left rests⟩

/-! ## Parts of a trimmed text -/

theorem trimBy_append_left (pads : ∀ c ∈ front, blank c = true) (text : Text) :
    trimBy blank (front ++ text) = trimBy blank text := by
  rw [trimBy, trimBy, List.dropWhile_append_of_pos pads]

theorem trimBy_append_right (pads : ∀ c ∈ back, blank c = true) (text : Text) :
    trimBy blank (text ++ back) = trimBy blank text := by
  have behind : ∀ c ∈ back.reverse, blank c = true :=
    fun c member => pads c (List.mem_reverse.mp member)
  rw [trimBy, trimBy, List.dropWhile_append]
  split
  · rename_i empty
    rw [List.isEmpty_iff.mp empty, List.dropWhile_eq_nil_iff.mpr pads]
  · rw [List.reverse_append, List.dropWhile_append_of_pos behind]

theorem splitOn_append_left {sep : Char} (whole : sep ∉ front) (text : Text) :
    ∃ first rest, text.splitOn sep = first :: rest ∧ (front ++ text).splitOn sep =
    (front ++ first) :: rest := by
  induction front with
  | nil =>
    obtain ⟨first, rest, parts⟩ := List.exists_cons_of_ne_nil (List.splitOn_ne_nil sep text)
    exact ⟨first, rest, parts, parts⟩
  | cons c front ih =>
    rw [List.mem_cons, not_or] at whole
    obtain ⟨first, rest, parts, grown⟩ := ih whole.2
    refine ⟨first, rest, parts, ?_⟩
    rw [List.cons_append, List.splitOn_cons_eq_if_modifyHead,
      if_neg (by simpa using Ne.symm whole.1), grown]
    rfl

theorem splitOn_append_right {sep : Char} (whole : sep ∉ back) (text : Text) :
    ∃ init last, text.splitOn sep = init ++ [last] ∧ (text ++ back).splitOn sep = init ++
    [last ++ back] := by
  induction text with
  | nil => exact ⟨[], [], List.splitOn_nil sep, List.splitOn_eq_singleton whole⟩
  | cons c text ih =>
    obtain ⟨init, last, parts, grown⟩ := ih
    rw [List.cons_append, List.splitOn_cons_eq_if_modifyHead, List.splitOn_cons_eq_if_modifyHead,
      parts, grown]
    by_cases cut : (c == sep) = true
    · rw [if_pos cut, if_pos cut]
      exact ⟨[] :: init, last, rfl, rfl⟩
    · rw [if_neg cut, if_neg cut]
      cases init with
      | nil => exact ⟨[], c :: last, rfl, rfl⟩
      | cons first others => exact ⟨(c :: first) :: others, last, rfl, rfl⟩

/-- **The parts of a trimmed text** are those of the text but for blanks at their ends. -/
theorem map_splitOn_trimBy {sep : Char} (solid : blank sep = false) (text : Text) :
    ((trimBy blank text).splitOn sep).map (trimBy blank) = (text.splitOn sep).map
    (trimBy blank) := by
  obtain ⟨front, back, padded, pads⟩ := exists_padding blank text
  have before : ∀ c ∈ front, blank c = true :=
    fun c member => pads c (List.mem_append_left _ member)
  have behind : ∀ c ∈ back, blank c = true :=
    fun c member => pads c (List.mem_append_right _ member)
  have outside {pad : Text} (padding : ∀ c ∈ pad, blank c = true) : sep ∉ pad := fun member => by
    simp [padding sep member] at solid
  obtain ⟨init, last, parts, grown⟩ := splitOn_append_right (outside behind) (trimBy blank text)
  obtain ⟨first, rest, parts', grown'⟩ := splitOn_append_left (outside before)
    (trimBy blank text ++ back)
  have cut : text.splitOn sep = (front ++ first) ::
      rest := by rw [← grown', ← List.append_assoc, ← padded]
  rw [cut, List.map_cons, trimBy_append_left before, ← List.map_cons, ← parts', grown,
    parts, List.map_append, List.map_append, List.map_singleton, List.map_singleton,
    trimBy_append_right behind]

end Text

end Cidrella
