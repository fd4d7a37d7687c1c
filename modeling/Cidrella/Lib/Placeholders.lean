import Mathlib.Tactic

/-!
# Replacing every occurrence

`replaceAll` goes over a list once, from the left, and puts a replacement where it finds a
needle. What is put in is not looked at again.

A needle that begins with a mark is only found where the mark is: parts without the mark are
passed over (`replaceAll_append`), whether they stood there or were put in before.
-/

set_option autoImplicit false

namespace Cidrella

namespace Placeholders

variable {α : Type} [DecidableEq α]

/-- The walk, with the number of characters still to be passed over. -/
def replaceFrom (needle replacement : List α) : Nat → List α → List α
  | _, [] => []
  | skip + 1, _ :: rest => replaceFrom needle replacement skip rest
  | 0, c :: rest =>
    if needle <+: c :: rest then replacement ++ replaceFrom needle replacement
      (needle.length - 1) rest
    else c :: replaceFrom needle replacement 0 rest

/-- Every occurrence of a needle replaced. -/
def replaceAll (needle replacement text : List α) : List α := replaceFrom needle replacement 0 text

section

variable {mark : α} {tail replacement front back : List α}

theorem replaceAll_cons {c : α} (other : c ≠ mark) (back : List α) :
    replaceAll (mark :: tail) replacement (c :: back) = c :: replaceAll (mark :: tail)
    replacement back := by
  rw [replaceAll, replaceFrom, if_neg]
  · rfl
  · exact fun found => other (List.cons_prefix_cons.mp found).1.symm

theorem replaceAll_append (free : mark ∉ front) (back : List α) :
    replaceAll (mark :: tail) replacement (front ++ back) =
      front ++ replaceAll (mark :: tail) replacement back := by
  induction front with
  | nil => rfl
  | cons c front ih =>
    rw [List.mem_cons, not_or] at free
    rw [List.cons_append, replaceAll_cons (Ne.symm free.1), ih free.2, List.cons_append]

end

end Placeholders

end Cidrella
