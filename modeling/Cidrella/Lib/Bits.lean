import Mathlib.Data.Nat.Bitwise
import Mathlib.Tactic

/-!
# Numbers as bits, high bit first

`bits width value` are the low bits of a number. An accumulator of 32 bits into which groups
are shifted holds the last of them in its low bits, whatever it has lost at the top
(`bits_shiftIn`), and gives them back from there (`bits_takeOut`).
-/

set_option autoImplicit false

namespace Cidrella

namespace Bits

/-- The low bits of a number, the highest of them first. -/
def bits (width value : Nat) : List Bool := (List.range width).reverse.map value.testBit

section

variable {width value other : Nat}

@[simp] theorem length_bits (width value : Nat) : (bits width value).length = width := by
  rw [bits, List.length_map, List.length_reverse, List.length_range]

theorem bits_congr (same : ∀ i < width, value.testBit i = other.testBit i) :
    bits width value = bits width other := by
  refine List.map_congr_left fun i member => same i ?_
  rwa [List.mem_reverse, List.mem_range] at member

theorem bits_add (high low value : Nat) :
    bits (high + low) value = bits high (value >>> low) ++ bits low value := by
  rw [bits, Nat.add_comm, List.range_add, List.reverse_append, List.map_append, bits, bits]
  refine congrArg (· ++ _) ?_
  rw [← List.map_reverse, List.map_map]
  refine List.map_congr_left fun i _ => ?_
  rw [Function.comp_apply, Nat.testBit_shiftRight]

theorem bits_zero_value (width : Nat) : bits width 0 = List.replicate width false := by
  rw [List.eq_replicate_iff]
  refine ⟨length_bits _ _, fun bit member => ?_⟩
  obtain ⟨i, -, rfl⟩ := List.mem_map.mp member
  exact Nat.zero_testBit i

theorem eq_of_bits_eq (small : value < 2 ^ width) (small' : other < 2 ^ width)
    (same : bits width value = bits width other) : value = other := by
  refine Nat.eq_of_testBit_eq fun i => ?_
  rcases Nat.lt_or_ge i width with inside | beyond
  · exact List.map_inj_left.mp same i (List.mem_reverse.mpr (List.mem_range.mpr inside))
  · have order : 2 ^ width ≤ 2 ^ i := Nat.pow_le_pow_right (by decide) beyond
    rw [Nat.testBit_lt_two_pow (small.trans_le order),
      Nat.testBit_lt_two_pow (small'.trans_le order)]

theorem bits_mask (width value : Nat) : bits width (value &&& (2 ^ width - 1)) =
    bits width value := by
  refine bits_congr fun i inside => ?_
  rw [Nat.testBit_and, Nat.testBit_two_pow_sub_one, decide_eq_true inside, Bool.and_true]

end

/-! ## A word of 32 bits -/

section

variable {width kept : Nat} {value group : UInt32}

/-- **A group shifted in** stands behind the bits that are kept. -/
theorem bits_shiftIn (fits : kept + width ≤ 32) (small : group.toNat < 2 ^ width)
    (short : width < 32) :
    bits (kept + width) ((value <<< UInt32.ofNat width) ||| group).toNat =
      bits kept value.toNat ++ bits width group.toNat := by
  have amount : (UInt32.ofNat width).toNat % 32 = width := by
    rw [UInt32.toNat_ofNat']
    omega
  have word : ∀ i, ((value <<< UInt32.ofNat width) ||| group).toNat.testBit i =
      (decide (i < 32) &&
      (decide (width ≤ i) && value.toNat.testBit (i - width)) || group.toNat.testBit i) := by
    intro i
    rw [UInt32.toNat_or, UInt32.toNat_shiftLeft, amount, Nat.testBit_or, Nat.testBit_mod_two_pow,
      Nat.testBit_shiftLeft]
  rw [bits_add]
  refine congrArg₂ _ (bits_congr fun i inside => ?_) (bits_congr fun i inside => ?_)
  · rw [Nat.testBit_shiftRight, word, decide_eq_true (by omega),
      decide_eq_true (Nat.le_add_right _ _), Nat.testBit_lt_two_pow
        (small.trans_le (Nat.pow_le_pow_right (by decide) (Nat.le_add_right _ _))),
      Nat.add_sub_cancel_left, Bool.true_and, Bool.true_and, Bool.or_false]
  · rw [word, decide_eq_false (show ¬ width ≤ i by omega), Bool.false_and, Bool.and_false,
      Bool.false_or]

/-- **A group taken out** from in front of the bits that are kept. -/
theorem bits_takeOut (mask : UInt32) (masks : mask.toNat = 2 ^ width - 1) (short : kept < 32) :
    bits (width + kept) value.toNat =
      bits width ((value >>> UInt32.ofNat kept) &&& mask).toNat ++ bits kept value.toNat := by
  have amount : (UInt32.ofNat kept).toNat % 32 = kept := by
    rw [UInt32.toNat_ofNat']
    omega
  rw [bits_add, UInt32.toNat_and, masks, bits_mask, UInt32.toNat_shiftRight, amount]

end

end Bits

end Cidrella
