import Cidrella.Lib.Bits
import Cidrella.RecordNames
import Cidrella.Totp

/-!
# Base 32

`base32Encode` and `base32Decode` of `auth/totp.js`. Both shift their input into a word of 32
bits that is never cleared, and take their output from its low bits. What is still to be put
out are always the low `bits` bits of the word, fewer than a character or a byte has, and with
what is shifted in they fit into it; what wraps was put out before.

Secrets come back as they were (`base32_reads_back`). A text that was typed in may have either
case and anything between its characters, as long as that has no upper case in the alphabet
(`sharp_s_is_read`).
-/

set_option autoImplicit false

namespace Cidrella

namespace Totp

open Bits DnsNames

/-! ## Encoding -/

/-- `BASE32_ALPHABET[index]`. -/
def base32Char (index : UInt32) : Char := base32Alphabet.getD index.toNat 'A'

/-- The `while` loop of `base32Encode`: the characters, and the bits that are left. -/
def emitChars (bits : Nat) (value : UInt32) : Text × Nat :=
  if 5 ≤ bits then
    let (out, rest) := emitChars (bits - 5) value
    (base32Char ((value >>> UInt32.ofNat (bits - 5)) &&& 31) :: out, rest)
  else ([], bits)

/-- The loop of `base32Encode`, and the character for what is left. -/
def base32EncodeLoop : Bytes → Nat → UInt32 → Text
  | [], bits, value => if 0 < bits then [base32Char ((value <<< UInt32.ofNat (5 - bits)) &&& 31)]
      else []
  | byte :: rest, bits, value =>
    let value := (value <<< 8) ||| byte.toUInt32
    let (out, bits) := emitChars (bits + 8) value
    out ++ base32EncodeLoop rest bits value

/-- `base32Encode`. -/
def base32Encode (buf : Bytes) : Text := base32EncodeLoop buf 0 0

/-- What decoding is for: a secret comes back, the case of ASCII letters (`Char.toLower` changes
no others) does not matter, nor do some characters. -/
structure Decodes (ignored : Char → Prop) (decode : Text → Bytes) : Prop where
  reads_back : ∀ buf, decode (base32Encode buf) = buf
  case : ∀ str : Text, decode (str.map Char.toLower) = decode str
  ignores : ∀ front c back, ignored c → decode (front ++ c :: back) = decode (front ++ back)

/-! ## Characters and bytes as bits -/

/-- The five bits of a character. -/
def charBits (c : Char) : List Bool := bits 5 (base32Alphabet.idxOf c)

/-- The eight bits of a byte. -/
def byteBits (byte : UInt8) : List Bool := bits 8 byte.toNat

theorem alphabet_index : ∀ i < 32, base32Alphabet.getD i 'A' ∈ base32Alphabet ∧
    base32Alphabet.idxOf (base32Alphabet.getD i 'A') = i ∧
    upperAscii (base32Alphabet.getD i 'A') = [base32Alphabet.getD i 'A'] := by decide

theorem toNat_mask_lt (value : UInt32) : (value &&& 31).toNat < 32 := by
  rw [UInt32.toNat_and]
  exact Nat.and_lt_two_pow _ (by decide : (31 : UInt32).toNat < 2 ^ 5)

theorem charBits_base32Char (value : UInt32) :
    charBits (base32Char (value &&& 31)) = bits 5 (value &&& 31).toNat := by
  rw [charBits, base32Char, (alphabet_index _ (toNat_mask_lt value)).2.1]

theorem length_byteBits (buf : Bytes) : (buf.flatMap byteBits).length = 8 * buf.length := by
  induction buf with
  | nil => rfl
  | cons byte buf ih =>
    rw [List.flatMap_cons, List.length_append, ih, byteBits, length_bits, List.length_cons]
    omega

theorem eq_of_byteBits_eq {left right : Bytes}
    (same : left.flatMap byteBits = right.flatMap byteBits) :
    left = right := by
  have lengths := congrArg List.length same
  rw [length_byteBits, length_byteBits] at lengths
  induction left generalizing right with
  | nil => exact (List.length_eq_zero_iff.mp (by simpa using lengths.symm)).symm
  | cons byte left ih =>
    cases right with
    | nil => simp at lengths
    | cons other right =>
      rw [List.flatMap_cons, List.flatMap_cons] at same
      obtain ⟨first, rest⟩ :=
        List.append_inj same (by rw [byteBits, byteBits, length_bits, length_bits])
      have number : byte.toNat = other.toNat := eq_of_bits_eq byte.toNat_lt other.toNat_lt first
      rw [UInt8.toNat_inj.mp number, ih rest (by simpa using lengths)]

/-! ## The encoder -/

/-- The characters that are put out hold the front of the low bits, and what is left is their
end. -/
theorem bits_emitChars (n : Nat) (value : UInt32) (fits : n ≤ 32) :
    (emitChars n value).1.flatMap charBits ++ bits (emitChars n value).2 value.toNat =
      bits n value.toNat ∧ (emitChars n value).2 < 5 := by
  induction n using Nat.strongRecOn with
  | ind n ih =>
    rw [emitChars]
    split
    · next enough =>
        obtain ⟨rest, short⟩ := ih (n - 5) (by omega) (by omega)
        have out := @bits_takeOut 5 (n - 5) value 31 rfl (by omega)
        rw [show 5 + (n - 5) = n by omega] at out
        refine ⟨?_, short⟩
        rw [List.flatMap_cons, charBits_base32Char, List.append_assoc, rest, ← out]
    · next few => exact ⟨rfl, by omega⟩

theorem charBits_last {n : Nat} (value : UInt32) (short : n < 5) :
    charBits (base32Char ((value <<< UInt32.ofNat (5 - n)) &&& 31)) =
      bits n value.toNat ++ List.replicate (5 - n) false := by
  have shifted := @bits_shiftIn (5 - n) n value 0 (by omega) (Nat.two_pow_pos _) (by omega)
  rw [UInt32.or_zero, show n + (5 - n) = 5 by omega, UInt32.toNat_zero, bits_zero_value] at shifted
  rw [charBits_base32Char, UInt32.toNat_and]
  exact (bits_mask 5 _).trans shifted

/-- **The characters hold what was left over and the bytes**, and fewer than five zeros. -/
theorem bits_base32EncodeLoop (buf : Bytes) {n : Nat} (value : UInt32) (short : n < 5) :
    ∃ padding < 5, (base32EncodeLoop buf n value).flatMap charBits =
      bits n value.toNat ++ buf.flatMap byteBits ++ List.replicate padding false := by
  induction buf generalizing n value with
  | nil =>
    rw [base32EncodeLoop]
    split
    · next left =>
        refine ⟨5 - n, by omega, ?_⟩
        rw [List.flatMap_cons, charBits_last value short, List.flatMap_nil, List.append_nil,
          List.flatMap_nil, List.append_nil]
    · next none =>
        obtain rfl : n = 0 := by omega
        exact ⟨0, by decide, rfl⟩
  | cons byte buf ih =>
    obtain ⟨emitted, rest⟩ := bits_emitChars (n + 8) ((value <<< 8) ||| byte.toUInt32) (by omega)
    obtain ⟨padding, few, done⟩ := ih ((value <<< 8) ||| byte.toUInt32) rest
    have shifted := @bits_shiftIn 8 n value byte.toUInt32 (by omega) (by exact byte.toNat_lt)
      (by decide)
    refine ⟨padding, few, ?_⟩
    rw [base32EncodeLoop, List.flatMap_append, done, ← List.append_assoc, ← List.append_assoc,
      emitted]
    rw [List.flatMap_cons, ← List.append_assoc]
    exact congrArg (· ++ _ ++ _) shifted

theorem clean_of_mem_base32EncodeLoop (buf : Bytes) (n : Nat) (value : UInt32) :
    ∀ c ∈ base32EncodeLoop buf n value, upperAscii c = [c] ∧ c ∈ base32Alphabet := by
  have char (value : UInt32) : upperAscii (base32Char (value &&& 31)) =
      [base32Char (value &&& 31)] ∧ base32Char (value &&& 31) ∈ base32Alphabet := by
    obtain ⟨member, -, upper⟩ := alphabet_index _ (toNat_mask_lt value)
    exact ⟨upper, member⟩
  have emitted (n : Nat) (value : UInt32) :
      ∀ c ∈ (emitChars n value).1, upperAscii c = [c] ∧ c ∈ base32Alphabet := by
    induction n using Nat.strongRecOn with
    | ind n ih =>
      rw [emitChars]
      split
      · next enough => exact List.forall_mem_cons.mpr ⟨char _, ih (n - 5) (by omega)⟩
      · exact fun _ => nofun
  induction buf generalizing n value with
  | nil =>
    rw [base32EncodeLoop]
    split
    · exact List.forall_mem_singleton.mpr (char _)
    · exact fun _ => nofun
  | cons byte buf ih =>
    rw [base32EncodeLoop]
    exact List.forall_mem_append.mpr ⟨emitted _ _, ih _ _⟩

theorem cleanBase32_base32Encode (buf : Bytes) : cleanBase32 (base32Encode buf) =
    base32Encode buf := by
  have clean := clean_of_mem_base32EncodeLoop buf 0 0
  have upper : (base32Encode buf).flatMap upperAscii = base32Encode buf := by
    have kept := List.flatMap_congr fun c member => (clean c member).1
    rwa [List.flatMap_singleton'] at kept
  rw [cleanBase32, upper, List.filter_eq_self]
  exact fun c member => decide_eq_true (clean c member).2

/-! ## The decoder -/

/-- **The bytes hold what was left over and the characters**, but for fewer than eight bits. -/
theorem bits_base32DecodeLoop {chars : Text} {n : Nat} (value : UInt32) (short : n < 8)
    (clean : ∀ c ∈ chars, c ∈ base32Alphabet) :
    ∃ rest : List Bool, rest.length < 8 ∧
      (base32DecodeLoop chars n value).flatMap byteBits ++ rest =
        bits n value.toNat ++ chars.flatMap charBits := by
  induction chars generalizing n value with
  | nil =>
    refine ⟨bits n value.toNat, by rwa [length_bits], ?_⟩
    rw [base32DecodeLoop, List.flatMap_nil, List.flatMap_nil, List.nil_append, List.append_nil]
  | cons ch chars ih =>
    obtain ⟨listed, others⟩ := List.forall_mem_cons.mp clean
    have index : base32Alphabet.idxOf ch < 32 := List.idxOf_lt_length_of_mem listed
    have group : (UInt32.ofNat (base32Alphabet.idxOf ch)).toNat = base32Alphabet.idxOf ch := by
      rw [UInt32.toNat_ofNat']
      omega
    have shifted := @bits_shiftIn 5 n value (UInt32.ofNat (base32Alphabet.idxOf ch)) (by omega)
      (by omega) (by decide)
    rw [group] at shifted
    rw [base32DecodeLoop, List.flatMap_cons, ← List.append_assoc, charBits]
    rw [← show _ = _ from shifted]
    split
    · next enough =>
        obtain ⟨rest, few, done⟩ := @ih (n + 5 - 8) _ (by omega) others
        refine ⟨rest, few, ?_⟩
        have out := @bits_takeOut 8 (n + 5 - 8)
          ((value <<< 5) ||| UInt32.ofNat (base32Alphabet.idxOf ch)) 255
          rfl (by omega)
        rw [show 8 + (n + 5 - 8) = n + 5 by omega] at out
        rw [List.flatMap_cons, List.append_assoc, done, ← List.append_assoc]
        refine congrArg (· ++ _) (Eq.trans (congrArg (· ++ _) ?_) out.symm)
        rw [byteBits, UInt32.toNat_toUInt8, Nat.mod_eq_of_lt]
        rw [UInt32.toNat_and]
        exact Nat.and_lt_two_pow _ (by decide : (255 : UInt32).toNat < 2 ^ 8)
    · next few => exact @ih (n + 5) _ (by omega) others

/-! ## Both -/

theorem cleanBase32_append (front back : Text) :
    cleanBase32 (front ++ back) = cleanBase32 front ++ cleanBase32 back := by
  rw [cleanBase32, List.flatMap_append, List.filter_append, cleanBase32, cleanBase32]

theorem base32Decode_base32Encode (buf : Bytes) : base32Decode (base32Encode buf) = buf := by
  obtain ⟨padding, few, encoded⟩ := @bits_base32EncodeLoop buf 0 0 (by decide)
  obtain ⟨rest, left, decoded⟩ := @bits_base32DecodeLoop (base32Encode buf) 0 0 (by decide)
    fun c member => (clean_of_mem_base32EncodeLoop buf 0 0 c member).2
  rw [base32Decode, cleanBase32_base32Encode]
  rw [show (base32Encode buf).flatMap charBits = _ from encoded] at decoded
  -- The padding is too short for a byte, so as many bytes come out as went in.
  have lengths := congrArg List.length decoded
  simp only [List.length_append, length_byteBits, length_bits, List.length_replicate] at lengths
  rw [List.append_assoc, bits, List.range_zero, List.reverse_nil, List.map_nil,
    List.nil_append] at decoded
  refine eq_of_byteBits_eq (List.append_inj_left decoded ?_)
  rw [length_byteBits, length_byteBits]
  omega

theorem cleanBase32_toLower (str : Text) : cleanBase32 (str.map Char.toLower) =
    cleanBase32 str := by
  have lower (c : Char) : upperAscii c.toLower = upperAscii c := by
    obtain same | upper := toLower_eq_self_or_upper c
    · rw [same]
    · exact of_decide_eq_true
        (@upperLetters_all (fun c => upperAscii c.toLower = upperAscii c) (by decide) c upper)
  rw [cleanBase32, List.flatMap_map, cleanBase32]
  exact congrArg _ (List.flatMap_congr fun c _ => lower c)

theorem cleanBase32_ignores {c : Char} (ignored : ∀ d ∈ upperAscii c, d ∉ base32Alphabet)
    (front back : Text) :
    cleanBase32 (front ++ c :: back) = cleanBase32 (front ++ back) := by
  have lost : cleanBase32 [c] = [] := by
    rw [cleanBase32, List.flatMap_singleton, List.filter_eq_nil_iff]
    exact fun d member => by simpa using ignored d member
  rw [← List.singleton_append, cleanBase32_append, cleanBase32_append, lost, List.nil_append,
    cleanBase32_append]

/-- **Every secret is read back**, its ASCII letters in either case and with anything between its
characters that has no upper case in the alphabet. -/
theorem base32_reads_back :
    Decodes (fun c => ∀ d ∈ upperAscii c, d ∉ base32Alphabet) base32Decode where
  reads_back := base32Decode_base32Encode
  case str := by rw [base32Decode, cleanBase32_toLower, base32Decode]
  ignores front c back ignored := by rw [base32Decode, cleanBase32_ignores ignored, base32Decode]

/-- `ß` is in the alphabet in neither case, and its upper case is two characters of it. -/
theorem sharp_s_is_read :
    ¬ Decodes (fun c => c ∉ base32Alphabet ∧ c.toUpper ∉ base32Alphabet) base32Decode :=
    fun decodes => by
  have ignored := decodes.ignores [] 'ß' [] ⟨by decide, by decide⟩
  exact absurd ignored (by decide)

end Totp

end Cidrella
