import Mathlib.Logic.Relation
import Mathlib.Tactic

/-!
# Programs that are cut short

A program keeps part of its state on disk and part in memory. An event makes its writes one
after the other and then goes on in memory. It may be cut short after any of them: what is in
memory is gone then, and the program starts again from what is on disk.

What the writes keep, each where it is made, holds on disk in every run, and what the program
has in memory of the disk holds with it (`Run.holds`).
-/

set_option autoImplicit false

namespace Cidrella

namespace Crashes

/-- A write to the disk, what an event writes and leaves in memory, and what a start makes of
the disk. -/
structure Program (Disk Memory Write Event : Type) where
  write : Disk → Write → Disk
  plan : Event → Disk → Memory → Option (List Write × Memory)
  boot : Disk → Memory

variable {Disk Memory Write Event : Type}

namespace Program

variable (program : Program Disk Memory Write Event)

/-- Writes one after the other. -/
def apply (disk : Disk) (writes : List Write) : Disk := writes.foldl program.write disk

/-- What is on disk when an event is cut short after some of its writes. -/
def cut (disk : Disk) (writes : List Write) (count : Nat) : Disk :=
  program.apply disk (writes.take count)

/-- An event, or one that is cut short. -/
inductive Step : Disk × Memory → Disk × Memory → Prop where
  | done (event : Event) (disk : Disk) (memory after : Memory) (writes : List Write)
      (plan : program.plan event disk memory = some (writes, after)) :
      Step (disk, memory) (program.apply disk writes, after)
  | cutShort (event : Event) (disk : Disk) (memory after : Memory) (writes : List Write)
      (count : Nat) (plan : program.plan event disk memory = some (writes, after)) :
      Step (disk, memory) (program.cut disk writes count,
      program.boot (program.cut disk writes count))
  | restarted (disk : Disk) (memory : Memory) : Step (disk, memory) (disk, program.boot disk)

/-- Events in any order, each of them cut short or not. -/
def Run : Disk × Memory → Disk × Memory → Prop := Relation.ReflTransGen program.Step

variable {program}

theorem apply_append (disk : Disk) (writes more : List Write) :
    program.apply disk (writes ++ more) = program.apply (program.apply disk writes) more :=
  List.foldl_append

/-- Each of the writes may be made where it is made. -/
def AllFine (program : Program Disk Memory Write Event) (fine : Disk → Write → Prop) : Disk →
    List Write → Prop
  | _, [] => True
  | disk, write :: writes => fine disk write ∧
      program.AllFine fine (program.write disk write) writes

variable {fine : Disk → Write → Prop} {Durable : Disk → Prop} {Coupled : Disk → Memory → Prop}

theorem AllFine.append {disk : Disk} {writes more : List Write}
    (first : program.AllFine fine disk writes)
    (then_ : program.AllFine fine (program.apply disk writes) more) :
    program.AllFine fine disk (writes ++ more) := by
  induction writes generalizing disk with
  | nil => exact then_
  | cons write writes ih => exact ⟨first.1, ih first.2 then_⟩

theorem AllFine.cut (keeps : ∀ disk write, Durable disk → fine disk write →
    Durable (program.write disk write)) {disk : Disk} {writes : List Write}
    (all : program.AllFine fine disk writes) (durable : Durable disk) (count : Nat) :
    Durable (program.cut disk writes count) := by
  induction writes generalizing disk count with
  | nil =>
    rw [Program.cut, List.take_nil]
    exact durable
  | cons write writes ih =>
    cases count with
    | zero => exact durable
    | succ count => exact ih all.2 (keeps disk write durable all.1) count

/-- **What holds in every run** on disk, and between the disk and the memory. -/
theorem Run.holds (keeps : ∀ disk write, Durable disk → fine disk write →
    Durable (program.write disk write)) (boot : ∀ disk, Durable disk →
    Coupled disk (program.boot disk)) (events : ∀ event disk memory after writes, Durable disk →
      Coupled disk memory → program.plan event disk memory = some (writes, after) →
      program.AllFine fine disk writes ∧ Coupled (program.apply disk writes) after)
    {start now : Disk × Memory} (run : program.Run start now)
    (first : Durable start.1 ∧ Coupled start.1 start.2) : Durable now.1 ∧ Coupled now.1 now.2 := by
  induction run with
  | refl => exact first
  | tail _ step ih =>
    obtain ⟨durable, coupled⟩ := ih
    cases step with
    | done event disk memory after writes plan =>
      obtain ⟨all, next⟩ := events event disk memory after writes durable coupled plan
      have kept := all.cut keeps durable writes.length
      rw [Program.cut, List.take_length] at kept
      exact ⟨kept, next⟩
    | cutShort event disk memory after writes count plan =>
      have kept := (events event disk memory after writes durable coupled plan).1.cut keeps
        durable count
      exact ⟨kept, boot _ kept⟩
    | restarted disk memory => exact ⟨durable, boot disk durable⟩

/-- Events one after the other, each with the number of writes it is cut short after, if it is. -/
def exec (program : Program Disk Memory Write Event) : Disk × Memory → List (Event × Option Nat) →
    Option (Disk × Memory)
  | state, [] => some state
  | state, (event, cutAfter) :: events =>
    (program.plan event state.1 state.2).bind fun planned =>
      match cutAfter with
      | none => program.exec (program.apply state.1 planned.1, planned.2) events
      | some count =>
        let left := program.cut state.1 planned.1 count
        program.exec (left, program.boot left) events

theorem run_of_exec {events : List (Event × Option Nat)} {state now : Disk × Memory}
    (ends : program.exec state events = some now) : program.Run state now := by
  induction events generalizing state with
  | nil =>
    obtain rfl := Option.some.inj ends
    exact .refl
  | cons first events ih =>
    obtain ⟨event, cutAfter⟩ := first
    obtain ⟨⟨writes, after⟩, plan, rest⟩ := Option.bind_eq_some_iff.mp ends
    cases cutAfter with
    | none => exact .head (.done event state.1 state.2 after writes plan) (ih rest)
    | some count => exact .head (.cutShort event state.1 state.2 after writes count plan) (ih rest)

end Program

end Crashes

end Cidrella
