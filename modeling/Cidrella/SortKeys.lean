import Cidrella.AddressRoundTrip

/-!
# Sort keys

`sortKey` turns an address text into 33 characters, one digit for the family and the
value in 32 hexadecimal digits. The column it is stored in is sorted by bytes, so the
order of the table is the order of the bytes of the keys.

`sortKey_compare` says that this order is the order of the addresses, IPv4 before IPv6
and by value within a family. The digits of a value are the value cut into groups of four
bits, and groups compare as the values they are cut from.
-/

set_option autoImplicit false

namespace Cidrella

namespace Address

open Text

/-- `sortKey`: the family digit, then the value in 32 hexadecimal digits. -/
def sortKey (text : Text) : Option Text := do
  let parsed ← parseIp text
  let family := if parsed.bits = ipv4Bits then '4' else '6'
  some (family :: padStart 32 '0' (Nat.toDigits 16 parsed.value))

/-- The bytes of a text, as SQLite compares them. -/
def bytes (text : Text) : List UInt8 := text.flatMap String.utf8EncodeChar

/-! ## The bytes of digits -/

/-- The byte of a hexadecimal digit. -/
def digitByte (n : Nat) : UInt8 := UInt8.ofNat n.digitChar.toNat

theorem utf8_digitChar : ∀ n < 16, String.utf8EncodeChar n.digitChar = [digitByte n] := by
  decide

theorem compare_digitByte : ∀ m < 16, ∀ n < 16, compare (digitByte m) (digitByte n) =
    compare m n := by
  decide

theorem bytes_digits {digits : List Nat} (small : ∀ n ∈ digits, n < 16) :
    bytes (digits.map Nat.digitChar) = digits.map digitByte := by
  induction digits with
  | nil => rfl
  | cons n digits ih =>
    obtain ⟨first, rest⟩ := List.forall_mem_cons.mp small
    have tail := ih rest
    rw [bytes] at tail ⊢
    rw [List.map_cons, List.flatMap_cons, tail, utf8_digitChar n first]
    rfl

theorem compare_digits {left right : List Nat} (smallLeft : ∀ n ∈ left, n < 16)
    (smallRight : ∀ n ∈ right, n < 16) :
    compare (left.map digitByte) (right.map digitByte) = compare left right := by
  induction left generalizing right with
  | nil => cases right <;> rfl
  | cons m left ih =>
    cases right with
    | nil => rfl
    | cons n right =>
      obtain ⟨firstLeft, restLeft⟩ := List.forall_mem_cons.mp smallLeft
      obtain ⟨firstRight, restRight⟩ := List.forall_mem_cons.mp smallRight
      rw [List.map_cons, List.map_cons, List.compare_cons_cons, List.compare_cons_cons,
        compare_digitByte m firstLeft n firstRight, ih restLeft restRight]

/-! ## Keys -/

/-- What `parseIp` returns has 32 or 128 bits, and fits in 32 hexadecimal digits. -/
theorem parseIp_fits {text : Text} {parsed : ParsedIp} (read : parseIp text = some parsed) :
    (parsed.bits = ipv4Bits ∨ parsed.bits = ipv6Bits) ∧ parsed.value < 16 ^ 32 := by
  rcases parseIp_bounds read with ⟨four, fits⟩ | ⟨six, fits, -⟩
  · exact ⟨.inl four, lt_of_lt_of_le fits (by decide)⟩
  · exact ⟨.inr six, fits⟩

/-- The number whose hexadecimal digit is the family digit. -/
def familyDigit (bits : Nat) : Nat := if bits = ipv4Bits then 4 else 6

theorem sortKey_eq {text : Text} {parsed : ParsedIp} (read : parseIp text = some parsed) :
    sortKey text =
      some ((familyDigit parsed.bits :: groups 4 32 parsed.value).map Nat.digitChar) := by
  have digits := padStart_toDigits (by decide : 0 < 32) (parseIp_fits read).2
  rw [sortKey, read, Option.bind_eq_bind, Option.bind_some, digits, List.map_cons, familyDigit]
  split <;> rfl

theorem familyDigit_lt (bits : Nat) : familyDigit bits < 16 := by
  unfold familyDigit
  split <;> decide

theorem key_digits_small (bits value : Nat) :
    ∀ n ∈ familyDigit bits :: groups 4 32 value, n < 16 :=
  List.forall_mem_cons.mpr ⟨familyDigit_lt bits, fun _ => lt_of_mem_groups⟩

theorem compare_familyDigit {left right : Nat} (widthLeft : left = ipv4Bits ∨ left = ipv6Bits)
    (widthRight : right = ipv4Bits ∨ right = ipv6Bits) :
    compare (familyDigit left) (familyDigit right) = compare left right := by
  rcases widthLeft with rfl | rfl <;> rcases widthRight with rfl | rfl <;> decide

/-- **Keys sort as addresses do.** For texts that are read as addresses, the bytes of the
keys compare as the family and then the value; so the keys are equal exactly when the
addresses are. All keys have one length. -/
theorem sortKey_compare {left right : Text} {x y : ParsedIp} (readLeft : parseIp left = some x)
    (readRight : parseIp right = some y) :
    ∃ keyLeft keyRight, sortKey left = some keyLeft ∧ sortKey right = some keyRight ∧
      compare (bytes keyLeft) (bytes keyRight) = (compare x.bits y.bits).then
      (compare x.value y.value) ∧ (keyLeft = keyRight ↔ x.bits = y.bits ∧ x.value = y.value) ∧
      keyLeft.length = 33 ∧ keyRight.length = 33 := by
  obtain ⟨widthLeft, fitsLeft⟩ := parseIp_fits readLeft
  obtain ⟨widthRight, fitsRight⟩ := parseIp_fits readRight
  have order : compare (bytes ((familyDigit x.bits :: groups 4 32 x.value).map Nat.digitChar))
      (bytes ((familyDigit y.bits :: groups 4 32 y.value).map Nat.digitChar)) =
      (compare x.bits y.bits).then (compare x.value y.value) := by
    rw [bytes_digits (key_digits_small _ _), bytes_digits (key_digits_small _ _),
      compare_digits (key_digits_small _ _) (key_digits_small _ _), List.compare_cons_cons,
      compare_familyDigit widthLeft widthRight, compare_groups fitsLeft fitsRight]
  refine ⟨_, _, sortKey_eq readLeft, sortKey_eq readRight, order, ?_, ?_, ?_⟩
  · constructor
    · intro same
      rw [same, Std.ReflOrd.compare_self] at order
      have equal := order.symm
      rw [Ordering.then_eq_eq] at equal
      exact ⟨compare_eq_iff_eq.mp equal.1, compare_eq_iff_eq.mp equal.2⟩
    · rintro ⟨widths, values⟩
      rw [widths, values]
  · simp [length_groups]
  · simp [length_groups]

theorem sortKey_compare_across_families :
    ∃ keyLeft keyRight, sortKey "255.255.255.255".toList = some keyLeft ∧
      sortKey "::1".toList = some keyRight ∧
      compare (bytes keyLeft) (bytes keyRight) =
        (compare ipv4Bits ipv6Bits).then (compare 0xffffffff 1) ∧
      (keyLeft = keyRight ↔ ipv4Bits = ipv6Bits ∧ 0xffffffff = 1) ∧
      keyLeft.length = 33 ∧ keyRight.length = 33 := by
  have four : parseIp "255.255.255.255".toList = some ⟨0xffffffff, ipv4Bits, none⟩ := by decide
  have six : parseIp "::1".toList = some ⟨1, ipv6Bits, none⟩ := by decide
  exact sortKey_compare four six

end Address

end Cidrella
