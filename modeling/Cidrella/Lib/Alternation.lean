import Mathlib.Data.List.Chain

/-!
# Edges of a switch

A switch that is on or off, and the log of its edges. `Edges start log stop` says that
the log takes the switch from `start` to `stop` with every entry a change. Logs compose
(`Edges.append`), and a log that starts at off alternates, begins with on, and ends at
the position of the switch (`Edges.alternates`, `Edges.head`, `Edges.last`).
-/

set_option autoImplicit false

namespace Cidrella

/-- The log records exactly the changes of a switch on the way from `start` to `stop`. -/
def Edges : (start : Bool) → (log : List Bool) → (stop : Bool) → Prop
  | start, [], stop => stop = start
  | start, edge :: log, stop => edge ≠ start ∧ Edges edge log stop

namespace Edges

theorem append {start middle stop : Bool} {log more : List Bool} (before : Edges start log middle)
    (after : Edges middle more stop) : Edges start (log ++ more) stop := by
  induction log generalizing start with
  | nil =>
    obtain rfl : middle = start := before
    exact after
  | cons edge log ih => exact ⟨before.1, ih before.2⟩

theorem isChain {start stop : Bool} {log : List Bool} (edges : Edges start log stop) :
    (start :: log).IsChain (· ≠ ·) := by
  induction log generalizing start with
  | nil => exact List.isChain_singleton _
  | cons edge log ih => exact List.isChain_cons_cons.mpr ⟨edges.1.symm, ih edges.2⟩

theorem alternates {start stop : Bool} {log : List Bool} (edges : Edges start log stop) :
    log.IsChain (· ≠ ·) :=
  edges.isChain.tail

theorem head {start stop : Bool} {log : List Bool} (edges : Edges start log stop) {first : Bool}
    (found : log.head? = some first) : first ≠ start := by
  cases log with
  | nil => exact absurd found (by simp)
  | cons edge log =>
    obtain rfl : edge = first := by simpa using found
    exact edges.1

theorem last {start stop : Bool} {log : List Bool} (edges : Edges start log stop) :
    log.getLast?.getD start = stop := by
  induction log generalizing start with
  | nil => exact edges.symm
  | cons edge log ih =>
    have rest := ih edges.2
    rw [List.getLast?_cons]
    exact rest

end Edges

end Cidrella
