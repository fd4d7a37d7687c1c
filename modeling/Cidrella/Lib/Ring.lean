import Mathlib.Tactic

/-!
# Rings

A fixed number of slots addressed by a number that only grows: what is numbered `s` goes to
slot `s % size` and stays there until `size` more have been numbered.

`Ring.Keeps` says what a ring holds of the history of everything it was given: the last
`size` of it, each in its own slot. Recording keeps that up (`Keeps.record`), and what it
comes to is that any window of numbers that are still there reads as the end of the history
(`Keeps.window_eq`).
-/

set_option autoImplicit false

namespace Cidrella

/-- `size` slots and the last number given out. -/
structure Ring (α : Type) (size : Nat) where
  slots : Vector (Option α) size
  seq : Nat

namespace Ring

variable {α : Type} {size : Nat}

/-- Nothing has been recorded. -/
def empty : Ring α size := ⟨Vector.replicate size none, 0⟩

variable [NeZero size]

/-- What the slot of a number holds. -/
def slot (ring : Ring α size) (number : Nat) : Option α :=
  have inside : number % size < size := Nat.mod_lt _ (NeZero.pos size)
  ring.slots[number % size]

/-- The next number is given out, and what is made for it overwrites the slot. -/
def record (ring : Ring α size) (make : Nat → α) : Ring α size where
  slots := ring.slots.set ((ring.seq + 1) % size) (some (make (ring.seq + 1)))
    (Nat.mod_lt _ (NeZero.pos size))
  seq := ring.seq + 1

/-- The slots from a number up to the last one. -/
def window (ring : Ring α size) (first : Nat) : List (Option α) :=
  (List.range' first (ring.seq + 1 - first)).map ring.slot

/-- What a ring holds of its history: the entry numbered `s` is the history's `s`-th, and it
is in its slot while fewer than `size` have been numbered since. -/
structure Keeps (ring : Ring α size) (history : List α) : Prop where
  seq_eq : ring.seq = history.length
  kept : ∀ number, 0 < number → number ≤ ring.seq → ring.seq < number + size →
    ring.slot number = history[number - 1]?

theorem keeps_empty : (empty : Ring α size).Keeps [] where
  seq_eq := rfl
  kept number positive within _ := by
    have : number ≤ 0 := within
    omega

theorem slot_record_last (ring : Ring α size) (make : Nat → α) :
    (ring.record make).slot (ring.seq + 1) = some (make (ring.seq + 1)) := by
  simp [slot, record]

/-- Numbers less than `size` apart have slots of their own. -/
theorem slot_record_of_near (ring : Ring α size) (make : Nat → α) {number : Nat}
    (earlier : number ≤ ring.seq) (near : ring.seq + 1 < number + size) :
    (ring.record make).slot number = ring.slot number := by
  have apart : (ring.seq + 1) % size ≠ number % size := by
    intro same
    have divides : size ∣ ring.seq + 1 - number := (Nat.modEq_iff_dvd' (by omega)).mp same.symm
    have := Nat.le_of_dvd (by omega) divides
    omega
  simp only [slot, record]
  exact Vector.getElem_set_ne _ _ apart

/-- **Recording keeps the last `size` entries.** -/
theorem Keeps.record {ring : Ring α size} {history : List α} (keeps : ring.Keeps history)
    (make : Nat → α) :
    (ring.record make).Keeps (history ++ [make (history.length + 1)]) where
  seq_eq := by
    rw [List.length_append, List.length_singleton, ← keeps.seq_eq]
    rfl
  kept number positive within near := by
    change number ≤ ring.seq + 1 at within
    change ring.seq + 1 < number + size at near
    obtain earlier | last := Nat.lt_or_eq_of_le within
    · have before : number ≤ ring.seq := Nat.le_of_lt_succ earlier
      have inside : number - 1 < history.length := by
        rw [← keeps.seq_eq]
        omega
      rw [slot_record_of_near ring make before near, keeps.kept number positive before (by omega),
        List.getElem?_append_left inside]
    · subst last
      rw [slot_record_last, keeps.seq_eq, Nat.add_sub_cancel, List.getElem?_append_right
        (le_refl _), Nat.sub_self]
      rfl

/-- **A window that is still there is the end of the history.** -/
theorem Keeps.window_eq {ring : Ring α size} {history : List α} (keeps : ring.Keeps history)
    {first : Nat} (positive : 0 < first) (near : ring.seq < first + size) :
    ring.window first = (history.drop (first - 1)).map some := by
  apply List.ext_getElem?
  intro i
  rw [window, List.getElem?_map, List.getElem?_map, List.getElem?_drop]
  obtain inside | past := Nat.lt_or_ge i (ring.seq + 1 - first)
  · have entry : first + i - 1 < history.length := by
      rw [← keeps.seq_eq]
      omega
    rw [List.getElem?_range' inside, Option.map_some, Nat.one_mul,
      keeps.kept (first + i) (by omega) (by omega) (by omega), show first - 1 + i = first +
      i - 1 by omega, List.getElem?_eq_getElem entry]
    rfl
  · have beyond : history.length ≤ first - 1 + i := by
      rw [← keeps.seq_eq]
      omega
    rw [List.getElem?_eq_none (by simpa using past), List.getElem?_eq_none beyond]
    rfl

end Ring

end Cidrella
