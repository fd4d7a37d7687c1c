import Cidrella.PdnsZones

/-!
# TXT values on the wire

`txtContent` of `backends/pdns/render.js` writes a TXT value as the quoted strings of a zone
file: the UTF-8 bytes of the value in strings of at most 255, with quotes and backslashes
escaped and every byte outside printable ASCII written as a backslash and three digits.

`readTxt` reads such strings as a zone file's reader does. What is written is read back: the
strings fit, and together they are the bytes of the value (`txtContent_faithful`). A byte is
written and read whole, so it does not matter that the strings are cut inside characters.
-/

set_option autoImplicit false

namespace Cidrella

namespace Pdns

open Address Text

/-! ## Reading -/

/-- A byte in front of the string that is being read. -/
def prependBytes (front : List UInt8) : List (List UInt8) → List (List UInt8)
  | string :: strings => (front ++ string) :: strings
  | [] => [front]

/-- The rest of a zone file's strings, from inside one. A backslash and three digits are that
byte; a backslash and another character are that character. -/
def readInside : Text → Option (List (List UInt8))
  | '\\' :: a :: b :: c :: rest =>
    if a.isDigit && b.isDigit && c.isDigit then
      if readDigits 10 [a, b, c] < 256 then
        (readInside rest).map (prependBytes [UInt8.ofNat (readDigits 10 [a, b, c])])
      else none
    else (readInside (b :: c :: rest)).map (prependBytes (bytes [a]))
  | '\\' :: a :: rest => (readInside rest).map (prependBytes (bytes [a]))
  | ['\\'] => none
  | ['"'] => some [[]]
  | '"' :: ' ' :: '"' :: rest => (readInside rest).map ([] :: ·)
  | '"' :: _ => none
  | c :: rest => (readInside rest).map (prependBytes (bytes [c]))
  | [] => none

/-- The strings of a zone file, separated by spaces. -/
def readTxt : Text → Option (List (List UInt8))
  | '"' :: rest => readInside rest
  | _ => none

/-- A character cut between two strings. -/
example : readTxt "\"a\\\"\\195\" \"\\169\"".toList = some [[0x61, 0x22, 195], [169]] := by decide

theorem bytes_injective {left right : Text} (same : bytes left = bytes right) : left = right := by
  have texts : String.ofList left = String.ofList right := by
    rw [← String.toByteArray_inj, String.toByteArray_ofList, String.toByteArray_ofList]
    exact congrArg List.toByteArray same
  exact String.ofList_injective texts

/-! ## One byte -/

theorem padded_byte : ∀ n < 256, ∃ a b c, padStart 3 '0' (Nat.toDigits 10 n) = [a, b, c] ∧
    (a.isDigit && b.isDigit && c.isDigit) = true ∧ readDigits 10 [a, b, c] = n := by
  have shape : ∀ n < 256, (padStart 3 '0' (Nat.toDigits 10 n)).length = 3 ∧
      (padStart 3 '0' (Nat.toDigits 10 n)).all Char.isDigit = true ∧
      readDigits 10 (padStart 3 '0' (Nat.toDigits 10 n)) = n := by
    decide +kernel
  intro n small
  obtain ⟨size, digits, value⟩ := shape n small
  match padStart 3 '0' (Nat.toDigits 10 n), size, digits, value with
  | [a, b, c], _, digits, value =>
    refine ⟨a, b, c, rfl, ?_, value⟩
    simpa [Bool.and_assoc] using digits

theorem utf8_printable : ∀ n < 0x7f, String.utf8EncodeChar (Char.ofNat n) = [UInt8.ofNat n] := by
  decide

theorem ofNat_eq_quote : ∀ n < 0x7f, (Char.ofNat n = '"' ↔ n = 0x22) ∧
    (Char.ofNat n = '\\' ↔ n = 0x5c) := by
  decide

theorem readInside_plain {c : Char} (notQuote : c ≠ '"') (notBackslash : c ≠ '\\') (rest : Text) :
    readInside (c :: rest) = (readInside rest).map (prependBytes (bytes [c])) := by
  conv_lhs => unfold readInside
  split <;> simp_all

theorem readInside_escaped {c : Char} (notDigit : c.isDigit = false) (rest : Text) :
    readInside ('\\' :: c :: rest) = (readInside rest).map (prependBytes (bytes [c])) := by
  match rest with
  | [] => rfl
  | [_] => rfl
  | b :: d :: rest =>
    rw [readInside, notDigit]
    rfl

theorem readInside_digits {a b c : Char} (digits : (a.isDigit && b.isDigit && c.isDigit) = true)
    (small : readDigits 10 [a, b, c] < 256) (rest : Text) :
      readInside ('\\' :: a :: b :: c :: rest) = (readInside rest).map
      (prependBytes [UInt8.ofNat (readDigits 10 [a, b, c])]) := by
  rw [readInside, if_pos digits, if_pos small]

/-- **A byte is read as it was written**, whatever follows it. -/
theorem readInside_txtByte (byte : UInt8) (rest : Text) :
    readInside (txtByte byte ++ rest) = (readInside rest).map (prependBytes [byte]) := by
  rw [txtByte]
  split
  case isTrue escaped =>
    rw [Bool.or_eq_true, decide_eq_true_eq, decide_eq_true_eq] at escaped
    rcases escaped with rfl | rfl
    · exact readInside_escaped (by decide) rest
    · exact readInside_escaped (by decide) rest
  case isFalse plain =>
    simp only [Bool.or_eq_true, decide_eq_true_eq, not_or] at plain
    split
    case isTrue printable =>
      simp only [Bool.and_eq_true, decide_eq_true_eq] at printable
      have low : byte.toNat < 0x7f := UInt8.lt_iff_toNat_lt.mp printable.2
      obtain ⟨quote, backslash⟩ := ofNat_eq_quote byte.toNat low
      have notQuote : Char.ofNat byte.toNat ≠ '"' := fun same =>
        plain.1 (UInt8.toNat_inj.mp (quote.mp same))
      have notBackslash : Char.ofNat byte.toNat ≠ '\\' := fun same =>
        plain.2 (UInt8.toNat_inj.mp (backslash.mp same))
      have encoded : bytes [Char.ofNat byte.toNat] = [byte] := by
        rw [bytes, List.flatMap_singleton, utf8_printable byte.toNat low, UInt8.ofNat_toNat]
      rw [List.singleton_append, readInside_plain notQuote notBackslash, encoded]
    case isFalse =>
      obtain ⟨a, b, c, padded, digits, value⟩ := padded_byte byte.toNat byte.toNat_lt
      rw [padded]
      refine (readInside_digits digits (value ▸ byte.toNat_lt) rest).trans ?_
      rw [value, UInt8.ofNat_toNat]

/-! ## Strings -/

theorem readInside_string (string : List UInt8) {rest : Text} {strings : List (List UInt8)}
    (closed : readInside rest = some ([] :: strings)) :
    readInside (string.flatMap txtByte ++ rest) = some (string :: strings) := by
  induction string with
  | nil => exact closed
  | cons byte string ih =>
    rw [List.flatMap_cons, List.append_assoc, readInside_txtByte, ih]
    rfl

/-- A string between its quotes. -/
def quoted (string : List UInt8) : Text := '"' :: string.flatMap txtByte ++ ['"']

/-- **Quoted strings are read as they were written.** -/
theorem readTxt_quoted (first : List UInt8) (strings : List (List UInt8)) :
    readTxt ([' '].intercalate ((first :: strings).map quoted)) = some (first :: strings) := by
  induction strings generalizing first with
  | nil =>
    have whole : [' '].intercalate ([first].map quoted) = '"' :: (first.flatMap txtByte ++
        ['"']) := by
      simp [quoted]
    rw [whole]
    exact readInside_string first rfl
  | cons next strings ih =>
    have later := ih next
    obtain ⟨more, starts⟩ : ∃ more, [' '].intercalate ((next :: strings).map quoted) =
        '"' :: more := by
      cases strings with
      | nil => exact ⟨_, rfl⟩
      | cons other strings =>
        rw [List.map_cons, List.map_cons, List.intercalate_cons_cons]
        exact ⟨_, rfl⟩
    rw [starts] at later
    have closed : readInside ('"' :: ' ' :: '"' :: more) = some ([] :: next :: strings) := by
      rw [readInside, show readInside more = some (next :: strings) from later]
      rfl
    rw [List.map_cons, List.map_cons, List.intercalate_cons_cons, ← List.map_cons, starts]
    have whole : quoted first ++ [' '] ++ '"' :: more =
        '"' :: (first.flatMap txtByte ++ '"' :: ' ' :: '"' :: more) := by
      simp [quoted]
    rw [whole]
    exact readInside_string first closed

/-! ## Strings of at most 255 bytes -/

theorem flatten_toChunks_go {α : Type} (n : Nat) (items : List α) (current : Array α)
    (done : Array (List α)) : (List.toChunks.go n items current done).flatten =
      done.toList.flatten ++ current.toList ++ items := by
  induction items generalizing current done with
  | nil => simp [List.toChunks.go]
  | cons item items ih =>
    rw [List.toChunks.go]
    split <;> simp [ih]

theorem length_toChunks_go {α : Type} {n : Nat} (positive : 0 < n) (items : List α)
    {current : Array α} {done : Array (List α)} (short : current.size ≤ n) (others : ∀ chunk ∈ done,
    chunk.length ≤ n) :
    ∀ chunk ∈ List.toChunks.go n items current done, chunk.length ≤ n := by
  induction items generalizing current done with
  | nil =>
    intro chunk member
    simp only [List.toChunks.go, Array.toList_push, List.mem_append, Array.mem_toList_iff,
      List.mem_singleton] at member
    rcases member with old | rfl
    · exact others chunk old
    · simpa using short
  | cons item items ih =>
    rw [List.toChunks.go]
    split
    case isTrue =>
      refine ih (show 1 ≤ n from positive) fun chunk member => ?_
      rcases Array.mem_push.mp member with old | rfl
      · exact others chunk old
      · simpa using short
    case isFalse room =>
      refine ih ?_ others
      simp only [beq_iff_eq] at room
      rw [Array.size_push]
      omega

theorem txtContent_eq (value : Text) : ∃ first strings,
    txtContent value = [' '].intercalate ((first :: strings).map quoted) ∧
      (first :: strings).flatten = bytes value ∧ ∀ string ∈ first :: strings,
      string.length ≤ 255 := by
  cases all : bytes value with
  | nil =>
    refine ⟨[], [], ?_, rfl, by simp⟩
    rw [txtContent, all]
    rfl
  | cons byte rest =>
    have whole : (List.toChunks 255 (byte :: rest)).flatten = byte :: rest := by
      rw [List.toChunks, flatten_toChunks_go]
      · rfl
      · exact fun zero => absurd zero (by decide)
    have short : ∀ string ∈ List.toChunks 255 (byte :: rest), string.length ≤ 255 := by
      refine length_toChunks_go (by decide) rest (show 1 ≤ 255 by decide) fun chunk member => ?_
      cases Array.not_mem_empty chunk member
    cases chunks : List.toChunks 255 (byte :: rest) with
    | nil => rw [chunks] at whole; cases whole
    | cons first strings =>
      rw [chunks] at whole short
      refine ⟨first, strings, ?_, whole, short⟩
      rw [txtContent, all]
      simp only [chunks]
      rfl

/-- **TXT values are encoded faithfully**, those that `validateTxtValue` accepts and all
others. What is written for a value is read back as strings of at most 255 bytes, which
together are its UTF-8 bytes; so no two values are written alike. -/
theorem txtContent_faithful : (∀ value, ∃ strings, readTxt (txtContent value) = some strings ∧
    (∀ string ∈ strings, string.length ≤ 255) ∧ strings.flatten = bytes value) ∧
      Function.Injective txtContent := by
  have faithful : ∀ value, ∃ strings, readTxt (txtContent value) = some strings ∧
      (∀ string ∈ strings, string.length ≤ 255) ∧ strings.flatten = bytes value := by
    intro value
    obtain ⟨first, strings, content, whole, short⟩ := txtContent_eq value
    exact ⟨first :: strings, content ▸ readTxt_quoted first strings, short, whole⟩
  refine ⟨faithful, fun value other same => ?_⟩
  obtain ⟨strings, read, -, whole⟩ := faithful value
  obtain ⟨others, readOther, -, wholeOther⟩ := faithful other
  rw [same, readOther] at read
  obtain rfl := Option.some.inj read
  exact bytes_injective (whole.symm.trans wholeOther)

end Pdns

end Cidrella
