import Cidrella.Lib.Spans

/-!
# Runs of equal labels

A list of spans with labels, built from left to right. A span that begins where the last one
ends and has its label makes that one longer, and any other is put behind it (`emit`). Spans
built so ascend, are disjoint, and no two side by side have one label (`Merged`).

Labels are told apart by a key.
-/

set_option autoImplicit false

namespace Cidrella

namespace Runs

variable {α κ : Type} [DecidableEq κ]

/-- A span with a label. -/
structure Run (α : Type) extends Span where
  label : α
  deriving DecidableEq

/-- A span behind the others, or the last one longer. -/
def emit (key : α → κ) (runs : List (Run α)) (start stop : Nat) (label : α) : List (Run α) :=
  match runs.getLast? with
  | some last =>
    if key last.label = key label ∧ last.stop + 1 = start then
      runs.dropLast ++ [{ last with stop := stop }]
    else runs ++ [⟨⟨start, stop⟩, label⟩]
  | none => runs ++ [⟨⟨start, stop⟩, label⟩]

/-- The number has the label. -/
def Says (runs : List (Run α)) (value : Nat) (label : α) : Prop := ∃ run ∈ runs, run.Has value ∧
    run.label = label

/-- Spans in order, apart, and none longer than it must end. -/
structure Merged (runs : List (Run α)) : Prop where
  filled : ∀ run ∈ runs, run.start ≤ run.stop
  ascending : runs.Pairwise fun run later => run.stop < later.start
  apart : runs.Pairwise fun run later => run.stop + 1 = later.start → run.label ≠ later.label

theorem merged_nil : Merged ([] : List (Run α)) := ⟨nofun, List.Pairwise.nil, List.Pairwise.nil⟩

section

variable {key : α → κ} {runs : List (Run α)} {start stop : Nat} {label : α}

theorem emit_cases (key : α → κ) (runs : List (Run α)) (start stop : Nat) (label : α) :
    (emit key runs start stop label = runs ++ [⟨⟨start, stop⟩, label⟩] ∧
        ∀ front last, runs = front ++ [last] →
        ¬ (key last.label = key label ∧ last.stop + 1 = start)) ∨
      ∃ front last, runs = front ++ [last] ∧ key last.label = key label ∧ last.stop + 1 = start ∧
        emit key runs start stop label = front ++ [{ last with stop := stop }] := by
  rw [emit]
  cases last' : runs.getLast? with
  | none =>
    refine .inl ⟨rfl, fun front last whole => ?_⟩
    rw [whole, List.getLast?_concat] at last'
    cases last'
  | some last =>
    obtain ⟨front, rfl⟩ := List.getLast?_eq_some_iff.mp last'
    simp only
    by_cases joined : key last.label = key label ∧ last.stop + 1 = start
    · rw [if_pos joined, List.dropLast_concat]
      exact .inr ⟨front, last, rfl, joined.1, joined.2, rfl⟩
    · rw [if_neg joined]
      refine .inl ⟨rfl, fun front' last' whole => ?_⟩
      obtain ⟨-, same⟩ := List.append_inj' whole rfl
      obtain rfl := (List.cons.inj same).1
      exact joined

theorem says_append_singleton (run : Run α) (value : Nat) (other : α) :
    Says (runs ++ [run]) value other ↔ Says runs value other ∨
    (run.Has value ∧ run.label = other) := by
  simp only [Says, List.mem_append, List.mem_singleton, or_and_right, exists_or, exists_eq_left]

/-- **What was emitted is said**, and what was said before. -/
theorem says_emit (injective : Function.Injective key) (filled : ∀ run ∈ runs, run.start ≤ run.stop)
    (ordered : start ≤ stop) (value : Nat) (other : α) :
    Says (emit key runs start stop label) value other ↔
      Says runs value other ∨ (start ≤ value ∧ value ≤ stop ∧ label = other) := by
  obtain ⟨behind, -⟩ | ⟨front, last, rfl, same, next, longer⟩ :=
    emit_cases key runs start stop label
  · rw [behind, says_append_singleton, Span.Has, and_assoc]
  · have lastFilled := filled last (by simp)
    rw [longer, says_append_singleton, says_append_singleton, or_assoc, Span.Has, Span.Has,
      injective same]
    refine or_congr_right ⟨?_, ?_⟩
    · rintro ⟨⟨from_, to_⟩, rfl⟩
      simp only at from_ to_
      by_cases old : value ≤ last.stop
      · exact .inl ⟨⟨from_, old⟩, rfl⟩
      · exact .inr ⟨by omega, to_, rfl⟩
    · rintro (⟨⟨from_, to_⟩, rfl⟩ | ⟨from_, to_, rfl⟩)
      · exact ⟨⟨from_, by simp only; omega⟩, rfl⟩
      · exact ⟨⟨by simp only; omega, to_⟩, rfl⟩

theorem Merged.append_singleton (merged : Merged runs) {run : Run α}
    (ordered : run.start ≤ run.stop) (below : ∀ earlier ∈ runs, earlier.stop < run.start)
    (apart : ∀ earlier ∈ runs, earlier.stop + 1 = run.start → earlier.label ≠ run.label) :
    Merged (runs ++ [run]) where
  filled := fun other member => by
    rcases List.mem_append.mp member with earlier | last
    · exact merged.filled other earlier
    · rw [List.mem_singleton.mp last]
      exact ordered
  ascending := by
    refine List.pairwise_append.mpr
      ⟨merged.ascending, List.pairwise_singleton _ _, fun earlier member later last => ?_⟩
    rw [List.mem_singleton.mp last]
    exact below earlier member
  apart := by
    refine List.pairwise_append.mpr
      ⟨merged.apart, List.pairwise_singleton _ _, fun earlier member later last => ?_⟩
    rw [List.mem_singleton.mp last]
    exact apart earlier member

/-- **Emitting keeps the spans in order and apart.** -/
theorem merged_emit (merged : Merged runs) (below : ∀ run ∈ runs, run.stop < start)
    (ordered : start ≤ stop) :
    Merged (emit key runs start stop label) ∧ ∀ run ∈ emit key runs start stop label,
    run.stop ≤ stop := by
  obtain ⟨behind, other⟩ | ⟨front, last, rfl, same, next, longer⟩ :=
    emit_cases key runs start stop label
  · rw [behind]
    refine ⟨merged.append_singleton ordered below fun earlier member touches sameLabel => ?_,
      fun run member => ?_⟩
    · -- only the last one can end just before
      obtain ⟨front, back, rfl⟩ := List.append_of_mem member
      cases back using List.reverseRecOn with
      | nil => exact other front earlier rfl ⟨congrArg key sameLabel, touches⟩
      | append_singleton back last =>
        have order := (List.pairwise_append.mp merged.ascending).2.1
        have before :=
          List.rel_of_pairwise_cons order (List.mem_append_right back List.mem_cons_self)
        have lastFilled := merged.filled last (by simp)
        have lastBelow := below last (by simp)
        simp only at touches
        omega
    · rcases List.mem_append.mp member with earlier | last
      · exact (below run earlier).le.trans ordered
      · rw [List.mem_singleton.mp last]
  · rw [longer]
    have order := List.pairwise_append.mp merged.ascending
    have gaps := List.pairwise_append.mp merged.apart
    have frontMerged : Merged front :=
      ⟨fun run member => merged.filled run (by simp [member]), order.1, gaps.1⟩
    have lastFilled := merged.filled last (by simp)
    refine ⟨frontMerged.append_singleton (by simp only; omega) (fun earlier member => ?_)
      fun earlier member => ?_, fun run member => ?_⟩
    · exact order.2.2 earlier member last List.mem_cons_self
    · exact gaps.2.2 earlier member last List.mem_cons_self
    · rcases List.mem_append.mp member with earlier | last'
      · exact (below run (by simp [earlier])).le.trans ordered
      · rw [List.mem_singleton.mp last']

end

end Runs

end Cidrella
