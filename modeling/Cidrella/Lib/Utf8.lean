import Mathlib.Tactic.SplitIfs
import Mathlib.Tactic.Ring.RingNF

/-!
# UTF-8

Texts as bytes and bytes as texts.  Bytes that are no character are replaced, one replacement
for a lead byte and the bytes after it that could have belonged to it.  A text's bytes are
decoded to the text, whatever follows them (`decode_encode_append`).
-/

set_option autoImplicit false

namespace Utf8

/-- The bytes of a text. -/
def encode (text : List Char) : List UInt8 := text.flatMap String.utf8EncodeChar

/-- A decoder between two bytes: how many bytes of a character are still to come, where the
next must lie, and the value so far. -/
structure State where
  needed : Nat
  lower : Nat
  upper : Nat
  code : Nat

/-- Between two characters. -/
def State.start : State := ⟨0, 0x80, 0xbf, 0⟩

/-- What stands for bytes that are no character. -/
def replacement : Char := '\ufffd'

/-- The first byte of a character. -/
def lead (byte : Nat) : List Char × State :=
  if byte < 0x80 then ([Char.ofNat byte], .start)
  else if 0xc2 ≤ byte ∧ byte ≤ 0xdf then ([], ⟨1, 0x80, 0xbf, byte - 0xc0⟩)
  else if 0xe0 ≤ byte ∧ byte ≤ 0xef then
    ([], ⟨2, if byte = 0xe0 then 0xa0 else 0x80, if byte = 0xed then 0x9f else 0xbf, byte - 0xe0⟩)
  else if 0xf0 ≤ byte ∧ byte ≤ 0xf4 then
    ([], ⟨3, if byte = 0xf0 then 0x90 else 0x80, if byte = 0xf4 then 0x8f else 0xbf, byte - 0xf0⟩)
  else ([replacement], .start)

/-- The next byte. -/
def State.next (s : State) (byte : Nat) : List Char × State :=
  if s.needed = 0 then lead byte
  else if s.lower ≤ byte ∧ byte ≤ s.upper then
    let code := s.code * 0x40 + (byte - 0x80)
    if s.needed = 1 then ([Char.ofNat code], .start) else ([], ⟨s.needed - 1, 0x80, 0xbf, code⟩)
  -- the byte does not belong to the character begun, and may begin another
  else (replacement :: (lead byte).1, (lead byte).2)

/-- The text of the bytes to come. -/
def State.decode : State → List UInt8 → List Char
  | s, [] => if s.needed = 0 then [] else [replacement]
  | s, byte :: rest => (s.next byte.toNat).1 ++ (s.next byte.toNat).2.decode rest

/-- The text of bytes. -/
def decode (bytes : List UInt8) : List Char := State.start.decode bytes

section
variable {byte : Nat} (small : byte < 256)
include small

theorem toNat_byte : (UInt8.ofNat byte).toNat = byte := by
  rw [UInt8.toNat_ofNat']
  omega

theorem decode_lead {text : List Char} {s : State} (first : lead byte = (text, s))
    (rest : List UInt8) :
    State.start.decode (UInt8.ofNat byte :: rest) = text ++ s.decode rest := by
  rw [State.decode, toNat_byte small, show State.start.next byte = lead byte from rfl, first]

theorem decode_more {needed lower upper code : Nat} (inside : lower ≤ byte ∧ byte ≤ upper)
    (rest : List UInt8) :
    State.decode ⟨needed + 2, lower, upper, code⟩ (UInt8.ofNat byte :: rest) =
      State.decode ⟨needed + 1, 0x80, 0xbf, code * 0x40 + (byte - 0x80)⟩ rest := by
  rw [State.decode, toNat_byte small, State.next, if_neg (Nat.succ_ne_zero _), if_pos inside,
    if_neg (by dsimp only; omega)]
  rfl

theorem decode_last {lower upper code : Nat} (inside : lower ≤ byte ∧ byte ≤ upper)
    (rest : List UInt8) :
    State.decode ⟨1, lower, upper, code⟩ (UInt8.ofNat byte :: rest) =
      Char.ofNat (code * 0x40 + (byte - 0x80)) :: State.start.decode rest := by
  rw [State.decode, toNat_byte small, State.next, if_neg Nat.one_ne_zero, if_pos inside, if_pos rfl]
  rfl

end

/-- The bytes of one character are decoded to it. -/
theorem decode_char (c : Char) (rest : List UInt8) :
    decode (String.utf8EncodeChar c ++ rest) = c :: decode rest := by
  have valid : c.toNat < 0xd800 ∨ (0xdfff < c.toNat ∧ c.toNat < 0x110000) := c.valid
  have named {code : Nat} (same : code = c.toNat) : Char.ofNat code = c := by
    rw [same, Char.ofNat_toNat]
  have value : c.val.toNat = c.toNat := rfl
  generalize c.toNat = v at valid named value
  rw [String.utf8EncodeChar, value, decode]
  split_ifs with one two three
  · -- one byte
    have first : lead v = ([c], .start) := by rw [lead, if_pos (by omega), named rfl]
    rw [List.cons_append, List.nil_append, decode_lead (by omega) first]
    rfl
  · -- two bytes
    have first : lead (v / 64 % 0x20 + 0xc0) = ([], ⟨1, 0x80, 0xbf, v / 64⟩) := by
      rw [lead, if_neg (by omega), if_pos (by omega), show v / 64 % 0x20 + 0xc0 - 0xc0 =
        v / 64 by omega]
    rw [List.cons_append, List.cons_append, List.nil_append, decode_lead (by omega) first,
      List.nil_append, decode_last (by omega) (by omega), named (by omega)]
    rfl
  · -- three bytes; the second lies where neither a shorter form nor a surrogate would put it
    have first : lead (v / 4096 % 0x10 + 0xe0) =
        ([], ⟨2, if v / 4096 % 0x10 + 0xe0 = 0xe0 then 0xa0 else 0x80,
          if v / 4096 % 0x10 + 0xe0 = 0xed then 0x9f else 0xbf, v / 4096⟩) := by
      rw [lead, if_neg (by omega), if_neg (by omega), if_pos (by omega),
        show v / 4096 % 0x10 + 0xe0 - 0xe0 = v / 4096 by omega]
    rw [List.cons_append, List.cons_append, List.cons_append, List.nil_append,
      decode_lead (by omega) first, List.nil_append,
      decode_more (by omega) (by split_ifs <;> omega), decode_last (by omega) (by omega),
      named (by omega)]
    rfl
  · -- four bytes
    have first : lead (v / 262144 % 0x08 + 0xf0) =
        ([], ⟨3, if v / 262144 % 0x08 + 0xf0 = 0xf0 then 0x90 else 0x80,
          if v / 262144 % 0x08 + 0xf0 = 0xf4 then 0x8f else 0xbf, v / 262144⟩) := by
      rw [lead, if_neg (by omega), if_neg (by omega), if_neg (by omega), if_pos (by omega),
        show v / 262144 % 0x08 + 0xf0 - 0xf0 = v / 262144 by omega]
    rw [List.cons_append, List.cons_append, List.cons_append, List.cons_append, List.nil_append,
      decode_lead (by omega) first, List.nil_append,
      decode_more (by omega) (by split_ifs <;> omega), decode_more (by omega) (by omega),
      decode_last (by omega) (by omega), named (by omega)]
    rfl

/-- **A text's bytes are decoded to the text, whatever follows.** -/
theorem decode_encode_append (text : List Char) (rest : List UInt8) :
    decode (encode text ++ rest) = text ++ decode rest := by
  induction text with
  | nil => rfl
  | cons c text ih =>
    rw [encode, List.flatMap_cons, List.append_assoc, decode_char, ← encode, ih, List.cons_append]

theorem decode_encode (text : List Char) : decode (encode text) = text := by
  have whole := decode_encode_append text []
  rwa [List.append_nil, show decode [] = [] from rfl, List.append_nil] at whole

/-! ## Seven bits -/

theorem encode_append (text more : List Char) : encode (text ++ more) = encode text ++
    encode more :=
  List.flatMap_append

theorem length_encode_of_ascii {text : List Char} (ascii : ∀ c ∈ text, c.toNat ≤ 0x7f) :
    (encode text).length = text.length := by
  induction text with
  | nil => rfl
  | cons c text ih =>
    have first : String.utf8EncodeChar c = [UInt8.ofNat c.toNat] :=
      if_pos (ascii c List.mem_cons_self)
    rw [encode, List.flatMap_cons, first, List.length_append, List.length_singleton, ← encode,
      ih fun d member => ascii d (List.mem_cons_of_mem c member), List.length_cons, Nat.add_comm]

theorem take_encode_of_ascii {text : List Char} (ascii : ∀ c ∈ text, c.toNat ≤ 0x7f) (count : Nat) :
    (encode text).take count = encode (text.take count) := by
  have split : encode text = encode (text.take count) ++ encode (text.drop count) := by
    rw [← encode_append, List.take_append_drop]
  have length := length_encode_of_ascii fun c member => ascii c (List.take_subset count text member)
  by_cases short : text.length ≤ count
  · have whole := length_encode_of_ascii ascii
    rw [List.take_of_length_le short, List.take_of_length_le (by omega)]
  · rw [split, List.take_left' (by rw [length, List.length_take]; omega)]

end Utf8
