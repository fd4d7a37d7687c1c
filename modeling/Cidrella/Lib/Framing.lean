import Mathlib.Tactic

/-!
# Messages on a byte stream

Every message on the stream is prefixed with its length in two bytes. However the stream
is cut into chunks, the messages that are taken out of it are those that were put in, in
order (`extract_of_stream`).
-/

set_option autoImplicit false

namespace Cidrella

abbrev Bytes := List UInt8

namespace Framing

/-- The number in the first two bytes, high byte first. -/
def readUInt16BE : Bytes → UInt16
  | high :: low :: _ => UInt16.ofNat (high.toNat * 256 + low.toNat)
  | _ => 0

/-- A number in two bytes, high byte first. -/
def uint16BE (value : UInt16) : Bytes :=
  [UInt8.ofNat (value.toNat / 256), UInt8.ofNat (value.toNat % 256)]

/-- A number written over the first two bytes. -/
def writeUInt16BE (value : UInt16) (buf : Bytes) : Bytes := uint16BE value ++ buf.drop 2

/-- A message behind its length. -/
def frame (payload : Bytes) : Bytes := uint16BE (UInt16.ofNat payload.length) ++ payload

/-- The complete messages of a buffer and its tail. Every message takes two bytes at least,
so as many rounds as there are bytes are enough. -/
def extractLoop : Nat → Bytes → List Bytes × Bytes
  | rounds + 1, high :: low :: tail =>
    let length := (readUInt16BE (high :: low :: tail)).toNat
    if tail.length < length then ([], high :: low :: tail)
    else
      let (messages, rest) := extractLoop rounds (tail.drop length)
      (tail.take length :: messages, rest)
  | _, buf => ([], buf)

/-- The complete messages of a buffer and its tail. -/
def extract (buf : Bytes) : List Bytes × Bytes := extractLoop buf.length buf

/-! ## Two bytes -/

theorem readUInt16BE_uint16BE (value : UInt16) (tail : Bytes) :
    readUInt16BE (uint16BE value ++ tail) = value := by
  have small := value.toNat_lt
  simp only [uint16BE, List.cons_append, List.nil_append, readUInt16BE]
  have high : (UInt8.ofNat (value.toNat / 256)).toNat = value.toNat / 256 := by
    rw [UInt8.toNat_ofNat']
    omega
  have low : (UInt8.ofNat (value.toNat % 256)).toNat = value.toNat % 256 := by
    rw [UInt8.toNat_ofNat']
    omega
  rw [high, low, Nat.div_add_mod', UInt16.ofNat_toNat]

theorem readUInt16BE_writeUInt16BE (value : UInt16) (buf : Bytes) :
    readUInt16BE (writeUInt16BE value buf) = value := readUInt16BE_uint16BE value _

theorem length_frame (payload : Bytes) : (frame payload).length = payload.length + 2 := by
  rw [frame, List.length_append]
  exact Nat.add_comm _ _

/-! ## Taking messages out -/

theorem extractLoop_frame {payload : Bytes} (fits : payload.length < 2 ^ 16) (rounds : Nat)
    (tail : Bytes) :
    extractLoop (rounds + 1) (frame payload ++ tail) =
      (payload :: (extractLoop rounds tail).1, (extractLoop rounds tail).2) := by
  have length : (readUInt16BE (frame payload ++ tail)).toNat = payload.length := by
    rw [frame, List.append_assoc, readUInt16BE_uint16BE, UInt16.toNat_ofNat', Nat.mod_eq_of_lt fits]
  simp only [frame, uint16BE, List.cons_append, List.nil_append] at length ⊢
  simp only [extractLoop, length, List.length_append]
  rw [if_neg (by omega), List.take_left, List.drop_left]

theorem extractLoop_incomplete {payload buf more : Bytes} (fits : payload.length < 2 ^ 16)
    (cut : buf ++ more = frame payload) (short : more ≠ []) (rounds : Nat) :
    extractLoop rounds buf = ([], buf) := by
  cases rounds with
  | zero => rfl
  | succ rounds =>
    match buf, cut with
    | [], _ => rfl
    | [_], _ => rfl
    | high :: low :: tail, cut =>
      have positive := List.length_pos_of_ne_nil short
      have total := congrArg List.length cut
      rw [length_frame] at total
      simp only [List.length_append, List.length_cons] at total
      have length : (readUInt16BE (high :: low :: tail)).toNat = payload.length := by
        have head : readUInt16BE (high :: low :: tail) = readUInt16BE (frame payload) := by
          rw [← cut]
          rfl
        rw [head, frame, readUInt16BE_uint16BE, UInt16.toNat_ofNat', Nat.mod_eq_of_lt fits]
      simp only [extractLoop, length]
      rw [if_pos (by omega)]

/-- **What is taken out of the first part of a stream is the first of its messages, and the
rest of the stream is the rest of them.** -/
theorem extract_of_stream {payloads : List Bytes} (fits : ∀ payload ∈ payloads,
    payload.length < 2 ^ 16) {buf unread : Bytes}
    (stream : buf ++ unread = (payloads.map frame).flatten) :
    ∃ taken left, payloads = taken ++ left ∧ (extract buf).1 = taken ∧
      (extract buf).2 ++ unread = (left.map frame).flatten := by
  have loop : ∀ (rounds : Nat) (buf : Bytes), buf.length ≤ rounds →
      buf ++ unread = (payloads.map frame).flatten → ∃ taken left, payloads = taken ++ left ∧
        (extractLoop rounds buf).1 = taken ∧
        (extractLoop rounds buf).2 ++ unread = (left.map frame).flatten := by
    clear stream
    induction payloads with
    | nil =>
      intro rounds buf _ stream
      obtain ⟨rfl, rfl⟩ := List.append_eq_nil_iff.mp stream
      refine ⟨[], [], rfl, ?_, ?_⟩
      · cases rounds <;> rfl
      · cases rounds <;> rfl
    | cons payload payloads ih =>
      intro rounds buf enough stream
      rw [List.map_cons, List.flatten_cons] at stream
      have small := fits payload List.mem_cons_self
      rcases List.append_eq_append_iff.mp stream with ⟨more, cut, later⟩ | ⟨tail, rfl, later⟩
      · by_cases complete : more = []
        · subst complete
          rw [List.append_nil] at cut
          rw [List.nil_append] at later
          have whole : buf = frame payload ++ [] := by rw [List.append_nil, cut]
          have size := length_frame payload
          rw [cut] at size
          obtain ⟨fewer, rfl⟩ : ∃ fewer, rounds = fewer + 1 := ⟨rounds - 1, by omega⟩
          obtain ⟨taken, left, split, first, rest⟩ :=
            ih (fun other member => fits other (List.mem_cons_of_mem _ member)) fewer []
              (Nat.zero_le _) later
          rw [whole, extractLoop_frame small]
          exact ⟨payload :: taken, left, by rw [split]; rfl, by rw [first], rest⟩
        · rw [extractLoop_incomplete small cut.symm complete]
          exact ⟨[], payload :: payloads, rfl, rfl, by
            rw [List.map_cons, List.flatten_cons]; exact stream⟩
      · have size := length_frame payload
        rw [List.length_append] at enough
        obtain ⟨fewer, rfl⟩ : ∃ fewer, rounds = fewer + 1 := ⟨rounds - 1, by omega⟩
        obtain ⟨taken, left, split, first, rest⟩ :=
          ih (fun other member => fits other (List.mem_cons_of_mem _ member)) fewer tail
            (by omega) later.symm
        rw [extractLoop_frame small]
        exact ⟨payload :: taken, left, by rw [split]; rfl, by rw [first], rest⟩
  exact loop buf.length buf (le_refl _) stream

/-! ## What stays -/

theorem extractLoop_rest (more rounds : Nat) {buf : Bytes} (enough : buf.length ≤ rounds) :
    extractLoop more (extractLoop rounds buf).2 = ([], (extractLoop rounds buf).2) := by
  induction rounds generalizing buf with
  | zero =>
    obtain rfl := List.length_eq_zero_iff.mp (Nat.le_zero.mp enough)
    cases more <;> rfl
  | succ rounds ih =>
    match buf, enough with
    | [], _ => cases more <;> rfl
    | [_], _ => cases more <;> rfl
    | high :: low :: tail, enough =>
      simp only [extractLoop]
      split
      case isTrue incomplete =>
        cases more with
        | zero => rfl
        | succ more => simp only [extractLoop, if_pos incomplete]
      case isFalse =>
        refine ih ?_
        simp only [List.length_cons] at enough
        rw [List.length_drop]
        omega

theorem extract_rest (buf : Bytes) : extract (extract buf).2 = ([], (extract buf).2) :=
  extractLoop_rest _ _ le_rfl

theorem ne_frame_append_of_extract {buf payload tail : Bytes} (fits : payload.length < 2 ^ 16)
    (stays : extract buf = ([], buf)) : buf ≠ frame payload ++ tail := by
  intro whole
  have size : buf.length = payload.length + tail.length + 1 + 1 := by
    rw [whole, List.length_append, length_frame]
    omega
  rw [extract, size, whole, extractLoop_frame fits] at stays
  cases congrArg Prod.fst stays

/-- **What stays of a stream is the beginning of its next message, and not the whole of it.** -/
theorem rest_of_stream {payloads : List Bytes} (fits : ∀ payload ∈ payloads,
    payload.length < 2 ^ 16) {buf unread : Bytes} (stays : extract buf = ([], buf))
    (stream : buf ++ unread = (payloads.map frame).flatten) :
    buf = [] ∨ ∃ payload ∈ payloads, buf <+: frame payload ∧ buf ≠ frame payload := by
  cases payloads with
  | nil => exact .inl (List.append_eq_nil_iff.mp stream).1
  | cons payload payloads =>
    have small := fits payload List.mem_cons_self
    rw [List.map_cons, List.flatten_cons] at stream
    rcases List.append_eq_append_iff.mp stream with ⟨more, cut, -⟩ | ⟨tail, whole, -⟩
    · refine .inr ⟨payload, List.mem_cons_self, ⟨more, cut.symm⟩, fun same => ?_⟩
      exact ne_frame_append_of_extract small stays (by rw [List.append_nil, same])
    · exact absurd whole (ne_frame_append_of_extract small stays)

theorem eq_nil_of_whole_stream {payloads : List Bytes} (fits : ∀ payload ∈ payloads,
    payload.length < 2 ^ 16) {buf : Bytes} (stays : extract buf = ([], buf))
    (stream : buf = (payloads.map frame).flatten) :
    payloads = [] := by
  cases payloads with
  | nil => rfl
  | cons payload payloads =>
    rw [List.map_cons, List.flatten_cons] at stream
    exact absurd stream (ne_frame_append_of_extract (fits payload List.mem_cons_self) stays)

end Framing

end Cidrella
