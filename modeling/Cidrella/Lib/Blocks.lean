import Mathlib.Data.List.Basic

/-!
# Two writers of one list

A file of lines that two writers share.  Each writer drops the lines it manages and puts
its own block back: one *after* the first anchor line (or at the front), with a further
block at the end; the other *before* the first line that closes the file (or at the end).
Where one puts its block depends on what the other wrote, so neither is idempotent in the
company of the other without further conditions.

`SharedLines` states the conditions.  Under them one run of each writer brings every list
into the form `settled`, which both writers leave alone, and which holds the lines neither
manages in their first order.
-/

set_option autoImplicit false

namespace Blocks

variable {α : Type}

/-- `splice(i, 0, ...block)`. -/
def splice (i : Nat) (block lines : List α) : List α := lines.take i ++ block ++ lines.drop i

/-- The block after the first anchor line, or at the front. -/
def insertAfter (anchor : α → Bool) (block lines : List α) : List α :=
  splice (match lines.findIdx? anchor with | some i => i + 1 | none => 0) block lines

/-- The block before the first closing line, or at the end. -/
def insertBefore (closing : α → Bool) (block lines : List α) : List α :=
  splice ((lines.findIdx? closing).getD lines.length) block lines

theorem splice_length (front block back : List α) :
    splice front.length block (front ++ back) = front ++ (block ++ back) := by
  simp [splice]

theorem filter_splice {kept : α → Bool} {block : List α} (dropped : ∀ line ∈ block,
    kept line = false) (i : Nat) (lines : List α) : (splice i block lines).filter kept =
    lines.filter kept := by
  have gone : block.filter kept = [] := List.filter_eq_nil_iff.mpr fun line member => by
    simp [dropped line member]
  rw [splice, List.filter_append, List.filter_append, gone, List.append_nil, ← List.filter_append,
    List.take_append_drop]

theorem mem_splice {i : Nat} {block lines : List α} {line : α}
    (member : line ∈ splice i block lines) :
    line ∈ block ∨ line ∈ lines := by
  simp only [splice, List.mem_append] at member
  obtain (taken | inBlock) | dropped := member
  · exact .inr (List.mem_of_mem_take taken)
  · exact .inl inBlock
  · exact .inr (List.mem_of_mem_drop dropped)

/-! ## Behind the first anchor -/

section Anchor

variable {anchor : α → Bool}

theorem insertAfter_of_none {lines : List α} (absent : ∀ line ∈ lines, anchor line = false)
    (block : List α) : insertAfter anchor block lines = block ++ lines := by
  have nowhere : lines.findIdx? anchor = none := List.findIdx?_eq_none_iff.mpr absent
  simp [insertAfter, nowhere, splice]

theorem insertAfter_of_first {front : List α} (absent : ∀ line ∈ front, anchor line = false)
    {line : α} (first : anchor line = true) (block back : List α) :
    insertAfter anchor block (front ++ line :: back) = front ++ line :: (block ++ back) := by
  have nowhere : front.findIdx? anchor = none := List.findIdx?_eq_none_iff.mpr absent
  have here : (front ++ line :: back).findIdx? anchor = some front.length := by
    rw [List.findIdx?_append, nowhere, List.findIdx?_cons, if_pos first]
    simp
  rw [insertAfter, here]
  have cut := splice_length (front ++ [line]) block back
  simpa using cut

theorem first_anchor (anchor : α → Bool) (lines : List α) :
    (∀ line ∈ lines, anchor line = false) ∨
      ∃ front line back, lines = front ++ line :: back ∧ (∀ other ∈ front, anchor other = false) ∧
        anchor line = true := by
  induction lines with
  | nil => exact .inl fun line member => absurd member List.not_mem_nil
  | cons line rest ih =>
    by_cases found : anchor line = true
    · exact .inr ⟨[], line, rest, rfl, fun _ member => absurd member List.not_mem_nil, found⟩
    have other : anchor line = false := Bool.eq_false_iff.mpr found
    obtain absent | ⟨front, first, back, rfl, absent, isFirst⟩ := ih
    · exact .inl (List.forall_mem_cons.mpr ⟨other, absent⟩)
    · exact .inr ⟨line :: front, first, back, rfl, List.forall_mem_cons.mpr ⟨other, absent⟩,
        isFirst⟩

theorem filter_insertAfter {kept : α → Bool} {block : List α}
    (anchors : ∀ line, anchor line = true → kept line = true) (blockKept : ∀ line ∈ block,
    kept line = true) (lines : List α) :
    (insertAfter anchor block lines).filter kept = insertAfter anchor block
    (lines.filter kept) := by
  have whole : block.filter kept = block := List.filter_eq_self.mpr blockKept
  obtain absent | ⟨front, line, back, rfl, absent, first⟩ := first_anchor anchor lines
  · rw [insertAfter_of_none absent, insertAfter_of_none fun line member =>
      absent line (List.mem_of_mem_filter member), List.filter_append, whole]
  · rw [insertAfter_of_first absent first, List.filter_append, List.filter_append,
      List.filter_cons_of_pos (anchors line first), List.filter_cons_of_pos (anchors line first),
      List.filter_append, whole, insertAfter_of_first
        (fun line member => absent line (List.mem_of_mem_filter member)) first]

theorem insertAfter_append {behind : List α} (absent : ∀ line ∈ behind, anchor line = false)
    (block lines : List α) :
    insertAfter anchor block (lines ++ behind) = insertAfter anchor block lines ++ behind := by
  obtain none | ⟨front, line, back, rfl, before, first⟩ := first_anchor anchor lines
  · have nowhere : ∀ line ∈ lines ++ behind, anchor line = false :=
      List.forall_mem_append.mpr ⟨none, absent⟩
    rw [insertAfter_of_none nowhere, insertAfter_of_none none, List.append_assoc]
  · rw [insertAfter_of_first before first, List.append_assoc, List.cons_append,
      insertAfter_of_first before first]
    simp

theorem mem_insertAfter {block lines : List α} {line : α}
    (member : line ∈ insertAfter anchor block lines) :
    line ∈ block ∨ line ∈ lines :=
  mem_splice member

end Anchor

theorem insertBefore_append {closing : α → Bool} {front back : List α}
    (opened : ∀ line ∈ front, closing line = false) (closed : ∀ line ∈ back, closing line = true)
    (block : List α) : insertBefore closing block (front ++ back) = front ++ (block ++ back) := by
  have nowhere : front.findIdx? closing = none := List.findIdx?_eq_none_iff.mpr opened
  have here : ((front ++ back).findIdx? closing).getD (front ++ back).length = front.length := by
    rw [List.findIdx?_append, nowhere]
    cases back with
    | nil => simp
    | cons line rest =>
      rw [List.findIdx?_cons, if_pos (closed line List.mem_cons_self)]
      simp
  rw [insertBefore, here, splice_length]

/-! ## The two writers -/

/-- What two writers of one list agree on. -/
structure SharedLines (α : Type) where
  /-- The lines the first writer manages. -/
  upper : α → Bool
  /-- The lines the second writer manages. -/
  lower : α → Bool
  /-- Where the first writer's block goes. -/
  anchor : α → Bool
  /-- The lines the second writer's block stays above. -/
  closing : α → Bool
  /-- The first writer's block, the second writer's block, and the lines at the end. -/
  head : List α
  middle : List α
  tail : List α
  anchor_upper : ∀ line, anchor line = true → upper line = false
  anchor_lower : ∀ line, anchor line = true → lower line = false
  closing_upper : ∀ line, closing line = true → upper line = true
  head_upper : ∀ line ∈ head, upper line = true
  head_lower : ∀ line ∈ head, lower line = false
  head_closing : ∀ line ∈ head, closing line = false
  middle_lower : ∀ line ∈ middle, lower line = true
  middle_upper : ∀ line ∈ middle, upper line = false
  tail_closing : ∀ line ∈ tail, closing line = true
  tail_lower : ∀ line ∈ tail, lower line = false

namespace SharedLines

variable (shared : SharedLines α)

/-- The first writer. -/
def writeUpper (lines : List α) : List α :=
  insertAfter shared.anchor shared.head (lines.filter fun line => !shared.upper line) ++ shared.tail

/-- The second writer. -/
def writeLower (lines : List α) : List α :=
  insertBefore shared.closing shared.middle (lines.filter fun line => !shared.lower line)

/-- A line neither writer manages. -/
def isFree (line : α) : Bool := !shared.upper line && !shared.lower line

/-- The lines neither writer manages. -/
def free (lines : List α) : List α := lines.filter shared.isFree

/-- Where both writers come to rest. -/
def settled (lines : List α) : List α :=
  insertAfter shared.anchor shared.head (shared.free lines) ++ (shared.middle ++ shared.tail)

theorem tail_upper {line : α} (member : line ∈ shared.tail) : shared.upper line = true :=
  shared.closing_upper line (shared.tail_closing line member)

theorem filter_free {kept : α → Bool} (weaker : ∀ line, shared.isFree line = true →
    kept line = true) (lines : List α) : (shared.free lines).filter kept = shared.free lines :=
  List.filter_eq_self.mpr fun line member => weaker line (List.of_mem_filter member)

theorem free_writeUpper (lines : List α) : shared.free (shared.writeUpper lines) =
    shared.free lines := by
  have headGone : ∀ line ∈ shared.head, shared.isFree line = false := fun line member => by
    simp [isFree, shared.head_upper line member]
  have tailGone : shared.tail.filter shared.isFree = [] :=
    List.filter_eq_nil_iff.mpr fun line member => by
    simp [isFree, shared.tail_upper member]
  rw [free, writeUpper, List.filter_append, insertAfter, filter_splice headGone, tailGone,
    List.append_nil, List.filter_filter]
  refine List.filter_congr fun line _ => ?_
  simp only [isFree]
  cases shared.upper line <;> simp

theorem free_writeLower (lines : List α) : shared.free (shared.writeLower lines) =
    shared.free lines := by
  have middleGone : ∀ line ∈ shared.middle, shared.isFree line = false := fun line member => by
    simp [isFree, shared.middle_lower line member]
  rw [free, writeLower, insertBefore, filter_splice middleGone, List.filter_filter]
  refine List.filter_congr fun line _ => ?_
  simp only [isFree]
  cases shared.lower line <;> simp

theorem opened_of_mem_insertAfter {lines : List α} (unmanaged : ∀ line ∈ lines,
    shared.upper line = false) {line : α}
    (member : line ∈ insertAfter shared.anchor shared.head lines) :
    shared.closing line = false := by
  obtain inHead | inLines := mem_insertAfter member
  · exact shared.head_closing line inHead
  · by_contra closes
    have managed := shared.closing_upper line (eq_true_of_ne_false closes)
    rw [unmanaged line inLines] at managed
    exact absurd managed Bool.false_ne_true

theorem upper_of_mem_free {lines : List α} {line : α} (member : line ∈ shared.free lines) :
    shared.upper line = false := by
  have kept := List.of_mem_filter member
  simp only [isFree, Bool.and_eq_true, Bool.not_eq_true'] at kept
  exact kept.1

theorem filter_lower_insertAfter (lines : List α) :
    (insertAfter shared.anchor shared.head lines).filter (fun line => !shared.lower line) =
      insertAfter shared.anchor shared.head (lines.filter fun line => !shared.lower line) :=
  filter_insertAfter (fun line isAnchor => by simp [shared.anchor_lower line isAnchor])
    (fun line member => by simp [shared.head_lower line member]) lines

theorem filter_lower_tail : (shared.tail.filter fun line => !shared.lower line) = shared.tail :=
  List.filter_eq_self.mpr fun line member => by simp [shared.tail_lower line member]

/-- **One run of each writer settles the lines.** -/
theorem writeLower_writeUpper (lines : List α) :
    shared.writeLower (shared.writeUpper lines) = shared.settled lines := by
  have kept : ((lines.filter fun line => !shared.upper line).filter fun line => !shared.lower line)
      = shared.free lines := by
    rw [List.filter_filter]
    exact List.filter_congr fun line _ => Bool.and_comm _ _
  rw [writeLower, writeUpper, List.filter_append, filter_lower_insertAfter, kept, filter_lower_tail,
    insertBefore_append (fun line member => ?_) shared.tail_closing]
  · rfl
  · exact shared.opened_of_mem_insertAfter (fun _ => shared.upper_of_mem_free) member

/-- **The first writer leaves the settled lines alone.** -/
theorem writeUpper_settled (lines : List α) :
    shared.writeUpper (shared.settled lines) = shared.settled lines := by
  have headGone : ∀ line ∈ shared.head, (!shared.upper line) = false := fun line member => by
    simp [shared.head_upper line member]
  have tailGone : (shared.tail.filter fun line => !shared.upper line) = [] :=
    List.filter_eq_nil_iff.mpr fun line member => by simp [shared.tail_upper member]
  have middleKept : (shared.middle.filter fun line => !shared.upper line) = shared.middle :=
    List.filter_eq_self.mpr fun line member => by simp [shared.middle_upper line member]
  have freeKept : (shared.free lines).filter (fun line => !shared.upper line) = shared.free lines :=
    List.filter_eq_self.mpr fun line member => by simp [shared.upper_of_mem_free member]
  have stripped : ((shared.settled lines).filter fun line => !shared.upper line) =
      shared.free lines ++ shared.middle := by
    rw [settled, List.filter_append, List.filter_append, insertAfter,
      filter_splice headGone, freeKept, middleKept, tailGone, List.append_nil]
  have noAnchor : ∀ line ∈ shared.middle, shared.anchor line = false := fun line member => by
    by_contra isAnchor
    have other := shared.anchor_lower line (eq_true_of_ne_false isAnchor)
    rw [shared.middle_lower line member] at other
    exact absurd other.symm Bool.false_ne_true
  rw [writeUpper, stripped, insertAfter_append noAnchor, List.append_assoc]
  rfl

/-- **The second writer leaves the settled lines alone.** -/
theorem writeLower_settled (lines : List α) :
    shared.writeLower (shared.settled lines) = shared.settled lines := by
  have middleGone : (shared.middle.filter fun line => !shared.lower line) = [] :=
    List.filter_eq_nil_iff.mpr fun line member => by simp [shared.middle_lower line member]
  have freeKept : (shared.free lines).filter (fun line => !shared.lower line) = shared.free lines :=
    shared.filter_free (fun line isFree => by
      simp only [SharedLines.isFree, Bool.and_eq_true] at isFree
      exact isFree.2) lines
  rw [writeLower, settled, List.filter_append, List.filter_append, filter_lower_insertAfter,
    freeKept, middleGone, List.nil_append, filter_lower_tail,
    insertBefore_append (fun line member => ?_) shared.tail_closing]
  exact shared.opened_of_mem_insertAfter (fun _ => shared.upper_of_mem_free) member

end SharedLines

end Blocks
