import Cidrella.Lib.Text
import Mathlib.Data.List.Lex

/-!
# Texts by their UTF-16 units

The order in which a comparison with `<` puts two strings: by their UTF-16 units. A text is
determined by its units (`codeUnits_injective`), because the first unit of a pair is no
character, and a text without pairs has one unit a character (`codeUnits_of_bmp`).
-/

set_option autoImplicit false

namespace Cidrella

namespace Text

/-- The UTF-16 units of a character. -/
def charUnits (c : Char) : List Nat :=
  if c.toNat < 0x10000 then [c.toNat]
  else [0xd800 + (c.toNat - 0x10000) / 0x400, 0xdc00 + (c.toNat - 0x10000) % 0x400]

/-- The UTF-16 units of a text. -/
def codeUnits (text : Text) : List Nat := text.flatMap charUnits

theorem char_scalar (c : Char) : c.toNat < 0xd800 ∨ (0xdfff < c.toNat ∧ c.toNat < 0x110000) :=
  c.valid

theorem charUnits_append_inj {c d : Char} {rest other : List Nat}
    (same : charUnits c ++ rest = charUnits d ++ other) : c = d ∧ rest = other := by
  have validC := char_scalar c
  have validD := char_scalar d
  unfold charUnits at same
  split at same <;> split at same
  · simp only [List.cons_append, List.nil_append, List.cons.injEq] at same
    exact ⟨Char.toNat_inj.mp same.1, same.2⟩
  · -- one unit that is a character against the first of a pair
    simp only [List.cons_append, List.nil_append, List.cons.injEq] at same
    omega
  · simp only [List.cons_append, List.nil_append, List.cons.injEq] at same
    omega
  · simp only [List.cons_append, List.nil_append, List.cons.injEq] at same
    exact ⟨Char.toNat_inj.mp (by omega), same.2.2⟩

/-- **A text is determined by its units.** -/
theorem codeUnits_injective : Function.Injective codeUnits := by
  have some (c : Char) (rest : Text) : codeUnits (c :: rest) ≠ [] := by
    unfold codeUnits charUnits
    rw [List.flatMap_cons]
    split <;> simp
  intro text
  induction text with
  | nil =>
    intro other same
    cases other with
    | nil => rfl
    | cons d ds => exact absurd same.symm (some d ds)
  | cons c cs ih =>
    intro other same
    cases other with
    | nil => exact absurd same (some c cs)
    | cons d ds =>
      obtain ⟨rfl, rest⟩ := charUnits_append_inj same
      rw [ih rest]

theorem codeUnits_of_bmp {text : Text} (plane : ∀ c ∈ text, c.toNat < 0x10000) :
    codeUnits text = text.map Char.toNat := by
  induction text with
  | nil => rfl
  | cons c cs ih =>
    have first : charUnits c = [c.toNat] := if_pos (plane c List.mem_cons_self)
    rw [List.map_cons, ← ih fun d member => plane d (List.mem_cons_of_mem _ member)]
    unfold codeUnits
    rw [List.flatMap_cons, first]
    rfl

end Text

end Cidrella
