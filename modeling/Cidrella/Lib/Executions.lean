import Mathlib.Data.List.GetD
import Mathlib.Tactic

/-!
# Infinite executions

A machine whose events happen one at a time, and its executions that go on for ever. A
finite run is an execution that ends in an event that changes nothing (`ofEvents`).

The rules are the usual ones: what the start has and every step keeps holds always
(`always`), and what every step keeps until something happens holds as long as it has not
happened (`holds_until`). With them a leads-to property is a proof by contradiction: as long
as the goal is not reached nothing changes, and then fairness reaches it.
-/

set_option autoImplicit false

namespace Cidrella

/-- Where a machine may start, what can happen in a state, and what that does. -/
structure Machine (State Event : Type) where
  starts : State → Prop
  possible : State → Event → Prop
  apply : State → Event → State

/-- States and events for ever. -/
structure Execution {State Event : Type} (machine : Machine State Event) where
  state : ℕ → State
  event : ℕ → Event
  starts : machine.starts (state 0)
  possible : ∀ n, machine.possible (state n) (event n)
  next : ∀ n, state (n + 1) = machine.apply (state n) (event n)

namespace Execution

variable {State Event : Type} {machine : Machine State Event}

theorem always (execution : Execution machine) (invariant : State → Prop)
    (start : ∀ s, machine.starts s → invariant s)
    (step : ∀ n, invariant (execution.state n) →
    invariant (machine.apply (execution.state n) (execution.event n))) (n : ℕ) :
    invariant (execution.state n) := by
  induction n with
  | zero => exact start _ execution.starts
  | succ n ih =>
    rw [execution.next]
    exact step n ih

/-- What the steps keep as long as something does not happen holds as long as it has not
happened. -/
theorem holds_until (execution : Execution machine) (kept : State → Prop)
    (happens : ℕ → Prop) {start : ℕ} (now : kept (execution.state start))
    (step : ∀ n, start ≤ n → ¬ happens n → kept (execution.state n) →
      kept (machine.apply (execution.state n) (execution.event n)))
    {n : ℕ} (later : start ≤ n) (never : ∀ k, start ≤ k → k < n → ¬ happens k) :
    kept (execution.state n) := by
  induction n, later using Nat.le_induction with
  | base => exact now
  | succ n later ih =>
    rw [execution.next]
    exact step n later (never n later (Nat.lt_succ_self n))
      (ih fun k from_start before => never k from_start (Nat.lt_succ_of_lt before))

/-! ## Finite runs -/

/-- The state after the first events of a list, and after all of them. -/
def after (machine : Machine State Event) (s : State) (events : List Event) (n : ℕ) : State :=
  (events.take n).foldl machine.apply s

/-- Every event of the list can happen when its turn comes. -/
def CanRun (machine : Machine State Event) : State → List Event → Prop
  | _, [] => True
  | s, event :: events => machine.possible s event ∧ CanRun machine (machine.apply s event) events

instance decidableCanRun [∀ s event, Decidable (machine.possible s event)] :
    (s : State) → (events : List Event) → Decidable (CanRun machine s events)
  | _, [] => inferInstanceAs (Decidable True)
  | s, event :: events =>
    have := decidableCanRun (machine.apply s event) events
    inferInstanceAs
      (Decidable (machine.possible s event ∧ CanRun machine (machine.apply s event) events))

theorem possible_of_canRun {s : State} {events : List Event} (can : CanRun machine s events) {n : ℕ}
    (inside : n < events.length) : machine.possible (after machine s events n) events[n] := by
  induction events generalizing s n with
  | nil => exact absurd inside (Nat.not_lt_zero n)
  | cons event events ih =>
    cases n with
    | zero => exact can.1
    | succ n => exact ih can.2 (Nat.lt_of_succ_lt_succ inside)

theorem after_succ {s : State} {events : List Event} {n : ℕ} (inside : n < events.length) :
    after machine s events (n + 1) = machine.apply (after machine s events n) events[n] := by
  unfold after
  rw [List.take_succ_eq_append_getElem inside, List.foldl_append]
  rfl

theorem after_of_length_le {s : State} {events : List Event} {n : ℕ} (past : events.length ≤ n) :
    after machine s events n = after machine s events events.length := by
  unfold after
  rw [List.take_of_length_le past, List.take_length]

/-- The events of a list and then, for ever, one that changes nothing. -/
def ofEvents (s : State) (events : List Event) (idle : Event) (starts : machine.starts s)
    (can : CanRun machine s events) (rests : ∀ s, machine.possible s idle ∧
    machine.apply s idle = s) :
    Execution machine where
  state := after machine s events
  event n := events.getD n idle
  starts := starts
  possible n := by
    by_cases inside : n < events.length
    · rw [List.getD_eq_getElem _ _ inside]
      exact possible_of_canRun can inside
    · rw [List.getD_eq_default _ _ (Nat.le_of_not_lt inside)]
      exact (rests _).1
  next n := by
    by_cases inside : n < events.length
    · rw [List.getD_eq_getElem _ _ inside]
      exact after_succ inside
    · have past := Nat.le_of_not_lt inside
      rw [List.getD_eq_default _ _ past, (rests _).2, after_of_length_le past,
        after_of_length_le (past.trans (Nat.le_succ n))]

theorem event_of_mem_drop {s : State} {events : List Event} {idle : Event}
    {starts : machine.starts s} {can : CanRun machine s events}
    {rests : ∀ s, machine.possible s idle ∧ machine.apply s idle = s} {n : ℕ} {event : Event}
    (toCome : event ∈ events.drop n) :
    ∃ m, n ≤ m ∧ (ofEvents s events idle starts can rests).event m = event := by
  obtain ⟨i, inside, isIt⟩ := List.mem_iff_getElem.mp toCome
  rw [List.getElem_drop] at isIt
  refine ⟨n + i, Nat.le_add_right n i, ?_⟩
  rw [← isIt]
  exact List.getD_eq_getElem _ _ _

end Execution

end Cidrella
