import Cidrella.Lib.Framing
import Cidrella.Lib.Fallible

/-!
# Reads of a byte buffer

A buffer is read at offsets that come out of the buffer itself. A read of a number whose
bytes are not all there throws, a read of a single element that is not there finds nothing;
both are faults here (`Fault`), and so is a loop that has used up its rounds.

`Survives` says that a computation has no fault. It is closed under sequence, and a read
survives when its bytes are there, so a parser survives when its own tests keep every read
inside.
-/

set_option autoImplicit false

namespace Cidrella

namespace Buffer

/-- What can go wrong with a read. -/
inductive Fault where
  /-- A number's bytes reach past the end, which throws. -/
  | outOfRange
  /-- There is no such element. -/
  | undefined
  /-- A loop has used up its rounds. -/
  | running
  deriving DecidableEq, Repr

/-- The number in `count` bytes, high byte first. -/
def numberBE (bytes : Bytes) : Nat := bytes.foldl (fun value byte => value * 256 + byte.toNat) 0

/-- `buf.readUIntBE(offset, count)`, with `readUInt8`, `readUInt16BE` and the like as its
cases. -/
def readUIntBE (buf : Bytes) (offset count : Nat) : Except Fault Nat :=
  if offset + count ≤ buf.length then .ok (numberBE ((buf.drop offset).take count))
  else .error .outOfRange

/-- `buf.readUInt8(offset)`. -/
def readUInt8 (buf : Bytes) (offset : Nat) : Except Fault Nat := readUIntBE buf offset 1

/-- `buf[offset]`. -/
def element (buf : Bytes) (offset : Nat) : Except Fault Nat :=
  match buf[offset]? with
  | some byte => .ok byte.toNat
  | none => .error .undefined

/-- `buf.subarray(start, stop)`: a view, cut off at the end of the buffer. -/
def subarray (buf : Bytes) (start stop : Nat) : Bytes := (buf.take stop).drop start

/-! ## Surviving -/

section
variable {α β : Type}

/-- The computation has no fault. -/
def Survives (x : Except Fault α) : Prop := ∃ value, x = .ok value

theorem survives_ok (value : α) : Survives (.ok value) := ⟨value, rfl⟩

theorem survives_bind {x : Except Fault α} {f : α → Except Fault β} (first : Survives x)
    (next : ∀ value, x = .ok value → Survives (f value)) : Survives (x >>= f) := by
  obtain ⟨value, rfl⟩ := first
  exact next value rfl

theorem survives_ite {p : Prop} [Decidable p] {x y : Except Fault α} (whenTrue : p → Survives x)
    (whenFalse : ¬ p → Survives y) : Survives (if p then x else y) := by
  split
  case isTrue holds => exact whenTrue holds
  case isFalse fails => exact whenFalse fails

theorem survives_mapM {f : α → Except Fault β} {items : List α} (each : ∀ item ∈ items,
    Survives (f item)) :
    Survives (items.mapM f) := by
  induction items with
  | nil => exact ⟨[], rfl⟩
  | cons item items ih =>
    rw [List.mapM_cons]
    refine survives_bind (each item List.mem_cons_self) fun _ _ => ?_
    exact survives_bind (ih fun other member => each other (List.mem_cons_of_mem _ member))
        fun _ _ =>
      survives_ok _

theorem survives_foldlM {body : β → α → Except Fault β} (each : ∀ state item,
    Survives (body state item)) (items : List α) (start : β) :
    Survives (items.foldlM body start) := by
  induction items generalizing start with
  | nil => exact survives_ok start
  | cons item items ih =>
    rw [List.foldlM_cons]
    exact survives_bind (each start item) fun next _ => ih next

end

section
variable {buf : Bytes} {offset count : Nat}

theorem survives_readUIntBE (inside : offset + count ≤ buf.length) :
    Survives (readUIntBE buf offset count) :=
  ⟨_, if_pos inside⟩

theorem survives_readUInt8 (inside : offset < buf.length) : Survives (readUInt8 buf offset) :=
  survives_readUIntBE inside

theorem readUInt8_eq (inside : offset < buf.length) :
    readUInt8 buf offset = .ok buf[offset].toNat := by
  have here : (buf.drop offset).take 1 = [buf[offset]] := by
    rw [List.drop_eq_getElem_cons inside]
    rfl
  rw [readUInt8, readUIntBE, if_pos (show offset + 1 ≤ buf.length from inside), here, numberBE]
  simp

theorem survives_element (inside : offset < buf.length) : Survives (element buf offset) := by
  rw [element, List.getElem?_eq_getElem inside]
  exact survives_ok _

end

end Buffer

end Cidrella
