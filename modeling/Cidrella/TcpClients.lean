import Cidrella.Lib.Framing

/-!
# DNS queries on a TCP connection

`frameTcpMessage` and `extractTcpMessages` of `utils/dns-wire.js`, and the handler of
`onTcpConnection` in `utils/dns-proxy.js` that reads a client's stream with them. A TCP
stream arrives in chunks that know nothing of messages: a chunk can end between the two
bytes of a length, and it can hold several messages.

The handler keeps what is left over and reads it again in front of the next chunk. Whatever
the cuts, it hands on the messages that were sent, and what it keeps never reaches the size
at which it gives the connection up (`messages_ignore_chunks`).
-/

set_option autoImplicit false

namespace Cidrella

open Framing

namespace TcpClient

/-- `frameTcpMessage`. -/
def frameTcpMessage (payload : Bytes) : Bytes := frame payload

/-- `extractTcpMessages`: the messages and the rest. -/
def extractTcpMessages (buf : Bytes) : List Bytes × Bytes := extract buf

/-- A client's connection: the bytes not yet read, whether it was given up, and the messages
handed to `handleTcpQuery`, in order. -/
structure Connection where
  buf : Bytes := []
  closed : Bool := false
  handled : List Bytes := []
  deriving DecidableEq, Repr

/-- `cleanup`. -/
def Connection.cleanup (c : Connection) : Connection := { c with closed := true }

/-- The handler of `data`. A peer that announces a message and never sends it is cut off. -/
def Connection.onData (c : Connection) (chunk : Bytes) : Connection :=
  let (messages, rest) := extractTcpMessages (c.buf ++ chunk)
  let read := { c with buf := rest, handled := c.handled ++ messages }
  if read.buf.length > 0xffff + 2 then read.cleanup else read

/-- The chunks of a stream, one after the other. -/
def Connection.receive (c : Connection) (chunks : List Bytes) : Connection := chunks.foldl onData c

/-- The bytes a client sends for its messages. -/
def streamOf (payloads : List Bytes) : Bytes := (payloads.map frameTcpMessage).flatten

/-- The bytes begin a frame and do not complete it. -/
def BeginsFrame (bytes : Bytes) : Prop :=
  ∃ payload : Bytes, payload.length ≤ 65535 ∧
    bytes <+: frameTcpMessage payload ∧ bytes ≠ frameTcpMessage payload

theorem BeginsFrame.length_lt {bytes : Bytes} (begins : BeginsFrame bytes) :
    bytes.length < 65537 := by
  obtain ⟨payload, fits, starts, proper⟩ := begins
  have shorter : bytes.length < (frameTcpMessage payload).length :=
    lt_of_le_of_ne starts.length_le fun same => proper (starts.eq_of_length same)
  rw [frameTcpMessage, length_frame] at shorter
  omega

theorem beginsFrame_nil : BeginsFrame [] :=
  ⟨[], Nat.zero_le _, List.nil_prefix, fun same => by cases congrArg List.length same⟩

/-- What holds between two chunks: the messages handed on are the first of those sent, the
rest of them is still to come, and no whole message is kept. -/
structure Reading (payloads : List Bytes) (unread : Bytes) (c : Connection) : Prop where
  split : ∃ left, payloads = c.handled ++ left ∧ c.buf ++ unread = streamOf left
  stays : extractTcpMessages c.buf = ([], c.buf)
  alive : c.closed = false

section
variable {payloads : List Bytes}

theorem reading_fresh (payloads : List Bytes) : Reading payloads (streamOf payloads) {} where
  split := ⟨payloads, rfl, rfl⟩
  stays := rfl
  alive := rfl

theorem beginsFrame_of_stream {left : List Bytes} (fits : ∀ payload ∈ left, payload.length ≤ 65535)
    {buf unread : Bytes} (stays : extractTcpMessages buf = ([], buf))
    (stream : buf ++ unread = streamOf left) :
    BeginsFrame buf := by
  have small : ∀ payload ∈ left, payload.length < 2 ^ 16 := fun payload member =>
    Nat.lt_succ_of_le (fits payload member)
  rcases rest_of_stream small stays stream with rfl | ⟨payload, member, starts, proper⟩
  · exact beginsFrame_nil
  · exact ⟨payload, fits payload member, starts, proper⟩

theorem Reading.begins (fits : ∀ payload ∈ payloads, payload.length ≤ 65535) {unread : Bytes}
    {c : Connection} (reading : Reading payloads unread c) : BeginsFrame c.buf := by
  obtain ⟨left, sent, stream⟩ := reading.split
  refine beginsFrame_of_stream (fun payload member => ?_) reading.stays stream
  exact fits payload (sent ▸ List.mem_append_right _ member)

theorem Reading.onData (fits : ∀ payload ∈ payloads, payload.length ≤ 65535) {chunk unread : Bytes}
    {c : Connection} (reading : Reading payloads (chunk ++ unread) c) :
    Reading payloads unread (c.onData chunk) := by
  obtain ⟨left, sent, stream⟩ := reading.split
  have fitsLeft : ∀ payload ∈ left, payload.length ≤ 65535 := fun payload member =>
    fits payload (sent ▸ List.mem_append_right _ member)
  rw [← List.append_assoc] at stream
  obtain ⟨taken, later, parts, first, rest⟩ :=
    extract_of_stream (fun payload member => Nat.lt_succ_of_le (fitsLeft payload member)) stream
  have stays : extractTcpMessages (extractTcpMessages (c.buf ++ chunk)).2 =
      ([], (extractTcpMessages (c.buf ++ chunk)).2) := extract_rest _
  -- what is kept begins a frame, so the connection is not given up
  have short : ¬ (extractTcpMessages (c.buf ++ chunk)).2.length > 0xffff + 2 := by
    have begins : BeginsFrame (extractTcpMessages (c.buf ++ chunk)).2 := by
      refine beginsFrame_of_stream (fun payload member => ?_) stays rest
      exact fitsLeft payload (parts ▸ List.mem_append_right _ member)
    have := begins.length_lt
    omega
  have next : c.onData chunk = { c with
      buf := (extractTcpMessages (c.buf ++ chunk)).2,
      handled := c.handled ++ (extractTcpMessages (c.buf ++ chunk)).1 } := if_neg short
  rw [next]
  refine ⟨⟨later, ?_, rest⟩, stays, reading.alive⟩
  calc payloads = c.handled ++ (taken ++ later) := by rw [← parts, ← sent]
    _ = c.handled ++ (extractTcpMessages (c.buf ++ chunk)).1 ++ later := by
      rw [extractTcpMessages, first, List.append_assoc]

theorem Reading.receive (fits : ∀ payload ∈ payloads, payload.length ≤ 65535) {chunks : List Bytes}
    {unread : Bytes} {c : Connection} (reading : Reading payloads (chunks.flatten ++ unread) c) :
    Reading payloads unread (c.receive chunks) := by
  induction chunks generalizing c with
  | nil => exact reading
  | cons chunk chunks ih =>
    rw [List.flatten_cons, List.append_assoc] at reading
    exact ih (reading.onData fits)

/-- **However the stream is cut, the messages handed on are those that were sent, and what
is kept after any chunk is the beginning of a frame.** -/
theorem messages_ignore_chunks {chunks : List Bytes} (fits : ∀ payload ∈ payloads,
    payload.length ≤ 65535) (cut : chunks.flatten = streamOf payloads) :
    (Connection.receive {} chunks).handled = payloads ∧ (Connection.receive {} chunks).buf = [] ∧
      ∀ read later, chunks = read ++ later →
        (Connection.receive {} read).handled <+: payloads ∧
          BeginsFrame (Connection.receive {} read).buf ∧
          (Connection.receive {} read).buf.length < 65537 ∧
          (Connection.receive {} read).closed = false := by
  have between : ∀ read later, chunks = read ++ later →
      Reading payloads later.flatten (Connection.receive {} read) := by
    intro read later parts
    refine Reading.receive fits ?_
    rw [← List.flatten_append, ← parts, cut]
    exact reading_fresh payloads
  have last := between chunks [] (List.append_nil _).symm
  obtain ⟨left, sent, stream⟩ := last.split
  rw [List.flatten_nil, List.append_nil] at stream
  have none : left = [] := by
    refine eq_nil_of_whole_stream (fun payload member => ?_) last.stays stream
    exact Nat.lt_succ_of_le (fits payload (sent ▸ List.mem_append_right _ member))
  subst none
  refine ⟨?_, stream, fun read later parts => ?_⟩
  · rw [sent, List.append_nil]
  · have reading := between read later parts
    obtain ⟨rest, split, -⟩ := reading.split
    exact ⟨⟨rest, split.symm⟩, reading.begins fits, (reading.begins fits).length_lt, reading.alive⟩

/-- Two messages, one of them empty, cut inside a length and inside a body. -/
theorem messages_ignore_chunks_sample :
    (Connection.receive {} [[0], [2, 7, 8, 0], [0]]).handled = [[7, 8], []] :=
  (@messages_ignore_chunks [[7, 8], []] _ (by decide) (by decide)).1

end

end TcpClient

end Cidrella
