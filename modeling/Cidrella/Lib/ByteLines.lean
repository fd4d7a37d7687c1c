import Cidrella.Lib.Text
import Cidrella.Lib.Utf8
import Mathlib.Data.List.TakeWhile

/-!
# Lines of bytes

Bytes cut at newlines. A newline ends whatever character was begun, so the lines of decoded
bytes are the decoded lines (`splitOn_decode`). Lines that are complete stay when more bytes are
appended (`completeLines_append`).
-/

set_option autoImplicit false

namespace Utf8

/-- What decoding can have reached: the next byte is no byte of seven bits, and the character
begun will have more than those. -/
structure State.Reached (s : State) : Prop where
  high : s.needed ≠ 0 → 0x80 ≤ s.lower
  large : s.needed ≠ 0 → 2 ≤ s.code * 0x40 + (s.lower - 0x80)
  last : s.needed = 1 → 2 ≤ s.code

theorem reached_start : State.start.Reached :=
  ⟨fun some => absurd rfl some, fun some => absurd rfl some, nofun⟩

theorem reached_lead (byte : Nat) : (lead byte).2.Reached := by
  unfold lead
  split_ifs with one two three zero surrogate zero' surrogate' four
  all_goals first
    | exact reached_start
    | exact ⟨fun _ => by simp only; omega, fun _ => by simp only; omega,
        fun last => by simp only at *; omega⟩

theorem reached_next {s : State} (reached : s.Reached) (byte : Nat) : (s.next byte).2.Reached := by
  unfold State.next
  split_ifs with none inside one
  · exact reached_lead byte
  · exact reached_start
  · have high := reached.high none
    have large := reached.large none
    exact ⟨fun _ => le_refl _, fun _ => by simp only; omega, fun _ => by simp only; omega⟩
  · exact reached_lead byte

theorem ofNat_ne_newline {n : Nat} (other : n ≠ 10) : Char.ofNat n ≠ '\n' := by
  intro same
  by_cases valid : n.isValidChar
  · have value : (Char.ofNat n).toNat = n := by
      rw [Char.ofNat, dif_pos valid]
      rfl
    rw [same] at value
    exact other value.symm
  · rw [Char.ofNat, dif_neg valid] at same
    exact absurd same (by decide)

theorem newline_not_mem_lead {byte : Nat} (other : byte ≠ 10) : '\n' ∉ (lead byte).1 := by
  unfold lead
  split_ifs
  all_goals first
    | exact List.not_mem_nil
    | exact fun member => ofNat_ne_newline other (List.mem_singleton.mp member).symm
    | exact fun member => absurd (List.mem_singleton.mp member) (by decide)

theorem newline_not_mem_next {s : State} (reached : s.Reached) {byte : Nat} (other : byte ≠ 10) :
    '\n' ∉ (s.next byte).1 := by
  unfold State.next
  split_ifs with none inside one
  · exact newline_not_mem_lead other
  · have large := reached.last one
    exact fun member => ofNat_ne_newline (by omega) (List.mem_singleton.mp member).symm
  · exact List.not_mem_nil
  · rintro (_ | ⟨_, member⟩)
    exact newline_not_mem_lead other member

/-- **A newline ends the character begun**, and decoding starts anew. -/
theorem decode_newline {s : State} (reached : s.Reached) (front back : List UInt8) :
    s.decode (front ++ 0x0a :: back) = s.decode front ++ '\n' :: decode back := by
  induction front generalizing s with
  | nil =>
    have newline : lead (0x0a : UInt8).toNat = (['\n'], .start) := rfl
    have step : s.decode (0x0a :: back) = (s.next (0x0a : UInt8).toNat).1 ++
        (s.next (0x0a : UInt8).toNat).2.decode back := rfl
    rw [List.nil_append, step, State.next]
    by_cases none : s.needed = 0
    · rw [if_pos none, newline, State.decode, if_pos none]
      rfl
    · have high := reached.high none
      have outside : ¬ (s.lower ≤ (0x0a : UInt8).toNat ∧ (0x0a : UInt8).toNat ≤ s.upper) := by
        rintro ⟨low, -⟩
        have value : (0x0a : UInt8).toNat = 10 := rfl
        omega
      rw [if_neg none, if_neg outside, newline, State.decode, if_neg none]
      rfl
  | cons byte front ih =>
    rw [List.cons_append, State.decode, State.decode, ih (reached_next reached _),
      List.append_assoc]

theorem newline_not_mem_decode {s : State} (reached : s.Reached) {bytes : List UInt8}
    (whole : 0x0a ∉ bytes) :
    '\n' ∉ s.decode bytes := by
  induction bytes generalizing s with
  | nil =>
    rw [State.decode]
    split
    · exact List.not_mem_nil
    · exact fun member => absurd (List.mem_singleton.mp member) (by decide)
  | cons byte bytes ih =>
    rw [List.mem_cons, not_or] at whole
    rw [State.decode, List.mem_append, not_or]
    refine ⟨newline_not_mem_next reached fun same => ?_, ih (reached_next reached _) whole.2⟩
    exact whole.1 (UInt8.toNat_inj.mp same).symm

/-- **The lines of decoded bytes are the decoded lines.** -/
theorem splitOn_decode (bytes : List UInt8) : (decode bytes).splitOn '\n' = (bytes.splitOn 0x0a).map
    decode := by
  by_cases cut : (0x0a : UInt8) ∈ bytes
  · obtain ⟨front, back, whole, first⟩ := List.eq_append_cons_of_mem cut
    have shorter : back.length < bytes.length := by
      rw [whole, List.length_append, List.length_cons]
      omega
    rw [whole, List.splitOn_append_cons_self_of_not_mem first, decode, decode_newline reached_start,
      List.splitOn_append_cons_self_of_not_mem (newline_not_mem_decode reached_start first),
      List.map_cons,
      splitOn_decode back]
    rfl
  · rw [List.splitOn_eq_singleton cut, decode, List.splitOn_eq_singleton
      (newline_not_mem_decode reached_start cut)]
    rfl
termination_by bytes.length

end Utf8

namespace Cidrella

namespace ByteLines

/-- The lines that have ended. -/
def completeLines (bytes : List UInt8) : List (List UInt8) := (bytes.splitOn 0x0a).dropLast

/-- Nothing, or bytes whose last line has ended. -/
def AtLineStart (bytes : List UInt8) : Prop := bytes = [] ∨ ∃ front, bytes = front ++ [0x0a]

/-- The bytes before the last newline. -/
def beforeLastNewline (bytes : List UInt8) : Option (List UInt8) :=
  match bytes.reverse.dropWhile (· ≠ 0x0a) with
  | [] => none
  | _ :: front => some front.reverse

section

variable {bytes front : List UInt8}

theorem splitOn_newline (front back : List UInt8) :
    (front ++ 0x0a :: back).splitOn 0x0a = front.splitOn 0x0a ++ back.splitOn 0x0a :=
  List.splitOn_append_cons_self front back

theorem completeLines_newline (front : List UInt8) : completeLines (front ++ [0x0a]) =
    front.splitOn 0x0a := by
  rw [completeLines, splitOn_newline, List.splitOn_nil, List.dropLast_concat]

theorem completeLines_of_not_mem (whole : 0x0a ∉ bytes) : completeLines bytes = [] := by
  rw [completeLines, List.splitOn_eq_singleton whole]
  rfl

theorem AtLineStart.append {back : List UInt8} (first : AtLineStart front)
    (second : AtLineStart back) :
    AtLineStart (front ++ back) := by
  rcases second with rfl | ⟨lines, rfl⟩
  · rwa [List.append_nil]
  · exact .inr ⟨front ++ lines, (List.append_assoc _ _ _).symm⟩

/-- **What comes after a line's end adds its own lines.** -/
theorem completeLines_append (start : AtLineStart front) (back : List UInt8) :
    completeLines (front ++ back) = completeLines front ++ completeLines back := by
  rcases start with rfl | ⟨lines, rfl⟩
  · rfl
  · rw [completeLines_newline, List.append_assoc, List.singleton_append, completeLines,
      splitOn_newline, List.dropLast_append_of_ne_nil (List.splitOn_ne_nil _ _), completeLines]

theorem beforeLastNewline_eq_none : beforeLastNewline bytes = none ↔ 0x0a ∉ bytes := by
  rw [beforeLastNewline]
  constructor
  · intro none
    split at none
    · rename_i empty
      rw [List.dropWhile_eq_nil_iff] at empty
      intro member
      simpa using empty _ (List.mem_reverse.mpr member)
    · cases none
  · intro whole
    have empty : bytes.reverse.dropWhile (· ≠ 0x0a) = [] := by
      rw [List.dropWhile_eq_nil_iff]
      intro byte member
      exact decide_eq_true fun same => whole (same ▸ List.mem_reverse.mp member)
    rw [empty]

theorem exists_of_beforeLastNewline (found : beforeLastNewline bytes = some front) :
    ∃ back, bytes = front ++ 0x0a :: back := by
  rw [beforeLastNewline] at found
  split at found
  · cases found
  · rename_i byte rest parts
    obtain rfl := Option.some.inj found
    have newline : byte = 0x0a := by
      have stops := List.head?_dropWhile_not (· ≠ (0x0a : UInt8)) bytes.reverse
      rw [parts] at stops
      simpa using stops
    refine ⟨(bytes.reverse.takeWhile (· ≠ 0x0a)).reverse, ?_⟩
    have whole := congrArg List.reverse (@List.takeWhile_append_dropWhile _ (· ≠ (0x0a : UInt8))
      bytes.reverse)
    rw [parts, newline, List.reverse_reverse, List.reverse_append, List.reverse_cons,
      List.append_assoc] at whole
    exact whole.symm

end

end ByteLines

end Cidrella
