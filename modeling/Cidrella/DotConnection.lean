import Cidrella.Lib.Framing
import Cidrella.Lib.CyclicScan
import Cidrella.Lib.Keyed

/-!
# One DNS-over-TLS connection

`DotConnection` of `utils/upstream-pool.js`. Many queries share one stream: each goes out
under an id of its own, and a reply is matched back by that id. A call leaves the
connection when its reply comes, when its timer fires, which destroys the socket, or when
the socket closes. Whatever the order, a call settles once, and only a reply to its own
query answers it (`replies_never_cross`).
-/

set_option autoImplicit false

namespace Cidrella

open Framing

namespace Dot

/-- `FAIL`, as far as DNS over TLS fails. -/
inductive Fail where
  | connect
  | closed
  | timeout
  deriving DecidableEq, Repr

/-- What a send resolves with. -/
inductive Outcome where
  | response (message : Bytes)
  | fail (kind : Fail)
  deriving DecidableEq, Repr

/-- A query has an id and fits a frame. -/
structure Query where
  bytes : Bytes
  hasId : 2 ≤ bytes.length
  fits : bytes.length < 2 ^ 16

/-- A call in flight. `serial` tells one call from another. -/
structure Call where
  serial : Nat
  originalId : UInt16
  wireId : UInt16
  deriving DecidableEq, Repr

/-- A query as it goes out. -/
structure Sent where
  serial : Nat
  wire : Bytes
  deriving DecidableEq, Repr

/-- The server's answer to a query. -/
structure Reply where
  serial : Nat
  message : Bytes
  deriving DecidableEq, Repr

/-- A connection and what is outside of it: the sends so far and what they resolved with,
the queries the server has not answered, the stream that has not been read, the answers
in that stream and all answers. -/
structure Connection where
  inflight : List Call := []
  pending : List (UInt16 × Call) := []
  timers : List Nat := []
  idleTimer : Bool := false
  isOpen : Bool := false
  ended : Bool := false
  destroyed : Bool := false
  failure : Option Fail := none
  nextId : UInt16
  queued : List Sent := []
  buf : Bytes := []
  queries : List Query := []
  settled : List (Nat × Outcome) := []
  written : List Sent := []
  unread : Bytes := []
  replies : List Reply := []
  answers : List Reply := []

namespace Connection

/-- `close`: `socket.destroy()`, after which no data comes. -/
def close (c : Connection) : Connection := { c with destroyed := true }

/-- `begin`. -/
def begin (c : Connection) (call : Call) : Connection :=
  { c with
    idleTimer := false
    timers := c.timers ++ [call.serial]
    inflight := c.inflight ++ [call] }

/-- `finish`, with the cleanup of `send`. A call that is not in flight is done. -/
def finish (c : Connection) (call : Call) (outcome : Outcome) : Connection :=
  if call ∈ c.inflight then
    let inflight := c.inflight.filter (·.serial ≠ call.serial)
    { c with
      timers := c.timers.filter (· ≠ call.serial)
      pending := c.pending.filter (·.1 ≠ call.wireId)
      inflight := inflight
      settled := c.settled ++ [(call.serial, outcome)]
      idleTimer := c.idleTimer || (inflight.isEmpty && !c.ended) }
  else c

/-- Why the connection failed, when nothing has said so. -/
def defaultFailure (c : Connection) : Fail := if c.isOpen then .closed else .connect

/-- `failed`. -/
def failed (c : Connection) : Connection :=
  { c with failure := some (c.failure.getD c.defaultFailure) }

/-- `end`: everything in flight fails. -/
def finishAll (c : Connection) : Connection :=
  if c.ended then c
  else
    let kind := c.failure.getD c.defaultFailure
    c.inflight.foldl (fun c call => c.finish call (.fail kind))
      { c with ended := true, idleTimer := false }

/-- `allocateId`. -/
def allocateId (c : Connection) : Option UInt16 :=
  scan (fun id => decide (id ∈ c.pending.map Prod.fst)) (· + 1) 65536 c.nextId

/-- `send`. -/
def send (c : Connection) (query : Query) : Connection :=
  let serial := c.queries.length
  match c.allocateId with
  | none =>
    { c with
      queries := c.queries ++ [query]
      settled := c.settled ++ [(serial, .fail .closed)] }
  | some id =>
    let call : Call := ⟨serial, readUInt16BE query.bytes, id⟩
    let sent : Sent := ⟨serial, writeUInt16BE id query.bytes⟩
    let begun := { c with queries := c.queries ++ [query], nextId := id + 1 }.begin call
    { begun with
      pending := c.pending ++ [(id, call)]
      written := if c.isOpen then c.written ++ [sent] else c.written
      queued := if c.isOpen then c.queued else c.queued ++ [sent] }

/-- One message of `onData`. -/
def deliver (c : Connection) (message : Bytes) : Connection :=
  if message.length < 2 then c
  else
    match c.pending.find? (·.1 = readUInt16BE message) with
    | none => c
    | some (_, call) => c.finish call (.response (writeUInt16BE call.originalId message))

/-- `onData`. -/
def onData (c : Connection) (chunk : Bytes) : Connection :=
  let (messages, rest) := extract (c.buf ++ chunk)
  messages.foldl deliver { c with buf := rest }

/-- The handshake is done: what has waited is written. -/
def secure (c : Connection) : Connection :=
  { c with isOpen := true, written := c.written ++ c.queued, queued := [] }

/-- The server puts its answer to a query on the stream. -/
def answer (c : Connection) (written : List Sent) (reply : Reply) : Connection :=
  { c with
    written := written
    unread := c.unread ++ frame reply.message
    replies := c.replies ++ [reply]
    answers := c.answers ++ [reply] }

/-- The next bytes of the stream arrive. -/
def receive (c : Connection) (count : Nat) : Connection :=
  { c.onData (c.unread.take count) with
    unread := c.unread.drop count
    replies := c.replies.drop (extract (c.buf ++ c.unread.take count)).1.length }

/-- A connection as it is made, with a random first id. -/
def fresh (nextId : UInt16) : Connection := { nextId := nextId }

/-- One event: a send, the end of the handshake, an error, an answer of the server to a
query it has, a chunk of the stream, a timer or the end of the socket. -/
inductive Step : Connection → Connection → Prop where
  | send (c : Connection) (query : Query) : Step c (c.send query)
  | secured (c : Connection) (alive : c.destroyed = false) : Step c c.secure
  | refused (c : Connection) : Step c ({ c with failure := some .connect }).close
  | errored (c : Connection) : Step c c.failed
  | answered (c : Connection) (before after : List Sent) (sent : Sent) (message : Bytes)
      (asked : c.written = before ++ sent :: after) (fits : message.length < 2 ^ 16)
      (hasId : 2 ≤ message.length) (sameId : readUInt16BE message = readUInt16BE sent.wire) :
      Step c (c.answer (before ++ after) ⟨sent.serial, message⟩)
  | data (c : Connection) (count : Nat) (alive : c.destroyed = false) : Step c (c.receive count)
  | timedOut (c : Connection) (call : Call) (inflight : call ∈ c.inflight)
      (armed : call.serial ∈ c.timers) : Step c (c.finish call (.fail .timeout)).close
  | idled (c : Connection) (armed : c.idleTimer = true) : Step c { c with idleTimer := false }.close
  | closed (c : Connection) : Step c c.close.finishAll

/-- Events in any order. -/
def Run : Connection → Connection → Prop := Relation.ReflTransGen Step

/-! ## The books -/

/-- The calls in flight, their timers and the map of ids say the same, and a send is either
in flight or has settled. -/
structure Kept (c : Connection) : Prop where
  serials : (c.settled.map Prod.fst ++ c.inflight.map Call.serial).Nodup
  known : ∀ serial, serial ∈ c.settled.map Prod.fst ++ c.inflight.map Call.serial ↔
    serial < c.queries.length
  timers : c.timers = c.inflight.map Call.serial
  pending : c.pending = c.inflight.map fun call => (call.wireId, call)
  ids : (c.inflight.map Call.wireId).Nodup
  originals : ∀ call ∈ c.inflight, ∃ query, c.queries[call.serial]? = some query ∧
    call.originalId = readUInt16BE query.bytes

namespace Kept

variable {c : Connection}

theorem congr {after : Connection} (kept : Kept c) (settled : after.settled = c.settled)
    (inflight : after.inflight = c.inflight) (queries : after.queries = c.queries)
    (timers : after.timers = c.timers) (pending : after.pending = c.pending) : Kept after := by
  refine ⟨?_, ?_, ?_, ?_, ?_, ?_⟩
  · rw [settled, inflight]
    exact kept.serials
  · rw [settled, inflight, queries]
    exact kept.known
  · rw [timers, inflight]
    exact kept.timers
  · rw [pending, inflight]
    exact kept.pending
  · rw [inflight]
    exact kept.ids
  · rw [inflight, queries]
    exact kept.originals

theorem inflight_serials (kept : Kept c) : (c.inflight.map Call.serial).Nodup :=
  (List.nodup_append.mp kept.serials).2.1

theorem finish (kept : Kept c) (call : Call) (outcome : Outcome) :
    Kept (c.finish call outcome) := by
  unfold Connection.finish
  split
  · rename_i member
    have moved : (c.settled.map Prod.fst ++ [call.serial] ++
        (c.inflight.filter (·.serial ≠ call.serial)).map Call.serial).Perm
        (c.settled.map Prod.fst ++ c.inflight.map Call.serial) := by
      rw [List.append_assoc]
      exact List.Perm.append_left _ (Keyed.perm_filter_of_mem kept.inflight_serials member)
    refine ⟨?_, ?_, ?_, ?_, ?_, ?_⟩
    · simp only [List.map_append, List.map_cons, List.map_nil]
      exact moved.nodup_iff.mpr kept.serials
    · intro serial
      simp only [List.map_append, List.map_cons, List.map_nil]
      rw [moved.mem_iff]
      exact kept.known serial
    · simp only [kept.timers, List.filter_map]
      rfl
    · simp only [kept.pending, List.filter_map]
      exact congrArg _ (Keyed.filter_ne_congr kept.ids kept.inflight_serials member)
    · exact kept.ids.sublist (List.filter_sublist.map _)
    · exact fun other memberOther => kept.originals other (List.mem_of_mem_filter memberOther)
  · exact kept

theorem finishAll (kept : Kept c) : Kept c.finishAll := by
  unfold Connection.finishAll
  split
  · exact kept
  · have fold : ∀ (calls : List Call) (kind : Fail) (c : Connection), Kept c →
        Kept (calls.foldl (fun c call => c.finish call (.fail kind)) c) := by
      intro calls kind
      induction calls with
      | nil => exact fun _ kept => kept
      | cons call calls ih => exact fun c kept => ih _ (kept.finish call _)
    exact fold _ _ _ (kept.congr rfl rfl rfl rfl rfl)

theorem deliver (kept : Kept c) (message : Bytes) : Kept (c.deliver message) := by
  unfold Connection.deliver
  split
  · exact kept
  · split
    · exact kept
    · exact kept.finish _ _

theorem onData (kept : Kept c) (chunk : Bytes) : Kept (c.onData chunk) := by
  have fold : ∀ (messages : List Bytes) (c : Connection), Kept c →
      Kept (messages.foldl Connection.deliver c) := by
    intro messages
    induction messages with
    | nil => exact fun _ kept => kept
    | cons message messages ih => exact fun c kept => ih _ (kept.deliver message)
  exact fold _ _ (kept.congr rfl rfl rfl rfl rfl)

theorem allocateId_free (kept : Kept c) {id : UInt16} (found : c.allocateId = some id) :
    id ∉ c.inflight.map Call.wireId := by
  have free := scan_is_free found
  rw [kept.pending, List.map_map] at free
  exact of_decide_eq_false free

theorem serials_extend (kept : Kept c) {l : List Nat}
    (extends_ : l.Perm
    (c.queries.length :: (c.settled.map Prod.fst ++ c.inflight.map Call.serial))) :
    l.Nodup ∧ ∀ serial, serial ∈ l ↔ serial < c.queries.length + 1 := by
  constructor
  · refine extends_.nodup_iff.mpr (List.nodup_cons.mpr ⟨?_, kept.serials⟩)
    rw [kept.known]
    exact lt_irrefl _
  · intro serial
    rw [extends_.mem_iff, List.mem_cons, kept.known]
    omega

theorem originals_append (kept : Kept c) (query : Query) : ∀ call ∈ c.inflight, ∃ found,
    (c.queries ++ [query])[call.serial]? = some found ∧
    call.originalId = readUInt16BE found.bytes := by
  intro call member
  obtain ⟨found, place, same⟩ := kept.originals call member
  exact ⟨found, List.getElem?_append_left (List.getElem?_eq_some_iff.mp place).1 ▸ place, same⟩

theorem send (kept : Kept c) (query : Query) : Kept (c.send query) := by
  unfold Connection.send
  split
  · obtain ⟨distinct, known⟩ := kept.serials_extend (l := c.settled.map Prod.fst ++
      c.queries.length :: c.inflight.map Call.serial) List.perm_middle
    refine ⟨?_, ?_, kept.timers, kept.pending, kept.ids, kept.originals_append query⟩
    · simpa using distinct
    · simpa using known
  · rename_i id found
    obtain ⟨distinct, known⟩ := kept.serials_extend (l := c.settled.map Prod.fst ++
      (c.inflight.map Call.serial ++ [c.queries.length])) (by
        rw [← List.append_assoc]
        exact List.perm_append_singleton _ _)
    refine ⟨?_, ?_, ?_, ?_, ?_, ?_⟩
    · simpa [begin] using distinct
    · simpa [begin] using known
    · simp [begin, kept.timers]
    · simp [begin, kept.pending]
    · simp only [begin, List.map_append, List.map_cons, List.map_nil]
      refine List.nodup_append.mpr ⟨kept.ids, by simp, ?_⟩
      rintro other member _ new rfl
      rw [List.mem_singleton.mp new] at member
      exact kept.allocateId_free found member
    · intro call member
      rcases List.mem_append.mp member with member | new
      · exact kept.originals_append query call member
      · rw [List.mem_singleton.mp new]
        exact ⟨query, by simp [begin], rfl⟩

end Kept

/-! ## What finishing a call leaves alone -/

section Frame

variable (c : Connection) (call : Call) (outcome : Outcome)

theorem finish_queries : (c.finish call outcome).queries = c.queries := by
  unfold finish
  split <;> rfl

theorem finish_answers : (c.finish call outcome).answers = c.answers := by
  unfold finish
  split <;> rfl

theorem finish_queued : (c.finish call outcome).queued = c.queued := by
  unfold finish
  split <;> rfl

theorem finish_written : (c.finish call outcome).written = c.written := by
  unfold finish
  split <;> rfl

theorem finish_destroyed : (c.finish call outcome).destroyed = c.destroyed := by
  unfold finish
  split <;> rfl

theorem finish_stream : (c.finish call outcome).buf = c.buf ∧
    (c.finish call outcome).unread = c.unread ∧ (c.finish call outcome).replies = c.replies := by
  unfold finish
  split <;> exact ⟨rfl, rfl, rfl⟩

theorem mem_finish_settled {entry : Nat × Outcome}
    (member : entry ∈ (c.finish call outcome).settled) :
    entry ∈ c.settled ∨ entry = (call.serial, outcome) ∧ call ∈ c.inflight := by
  unfold finish at member
  split at member
  · rename_i inflight
    rcases List.mem_append.mp member with old | new
    · exact .inl old
    · exact .inr ⟨List.mem_singleton.mp new, inflight⟩
  · exact .inl member

theorem mem_finish_inflight {other : Call} (member : other ∈ c.inflight)
    (differs : other.serial ≠ call.serial) : other ∈ (c.finish call outcome).inflight := by
  unfold finish
  split
  · exact List.mem_filter.mpr ⟨member, decide_eq_true differs⟩
  · exact member

end Frame

/-! ## The wire -/

/-- A query on its way, or the reply to it, has its own call in flight while the socket
lives. `replies` are those still in the stream. -/
structure Matched (c : Connection) (replies : List Reply) : Prop where
  serials : (c.queued.map Sent.serial ++ c.written.map Sent.serial ++
    replies.map Reply.serial).Nodup
  known : ∀ serial ∈ c.queued.map Sent.serial ++ c.written.map Sent.serial ++
    replies.map Reply.serial, serial < c.queries.length
  sent : c.destroyed = false → ∀ sent ∈ c.queued ++ c.written, ∃ call ∈ c.inflight,
    call.serial = sent.serial ∧ call.wireId = readUInt16BE sent.wire
  replied : c.destroyed = false → ∀ reply ∈ replies, ∃ call ∈ c.inflight,
    call.serial = reply.serial ∧ call.wireId = readUInt16BE reply.message

/-- What is read and what is still to be read are the replies in the stream. -/
structure Streamed (c : Connection) : Prop where
  stream : c.buf ++ c.unread = ((c.replies.map Reply.message).map frame).flatten
  whole : ∀ reply ∈ c.replies, 2 ≤ reply.message.length ∧ reply.message.length < 2 ^ 16
  given : ∀ reply ∈ c.replies, reply ∈ c.answers

/-- A send that resolved with a message got the server's answer to it under its own id. -/
def Answered (c : Connection) : Prop :=
  ∀ serial message, (serial, Outcome.response message) ∈ c.settled →
    ∃ query reply, c.queries[serial]? = some query ∧ reply ∈ c.answers ∧ reply.serial = serial ∧
      message = writeUInt16BE (readUInt16BE query.bytes) reply.message

theorem Answered.finish_fail {c : Connection} (answered : Answered c) (call : Call) (kind : Fail) :
    Answered (c.finish call (.fail kind)) := by
  intro serial message member
  rw [finish_queries, finish_answers]
  rcases mem_finish_settled _ _ _ member with old | ⟨new, -⟩
  · exact answered serial message old
  · exact absurd (Prod.mk.inj new).2 (by simp)

theorem Answered.finishAll {c : Connection} (answered : Answered c) : Answered c.finishAll := by
  unfold Connection.finishAll
  split
  · exact answered
  · have fold : ∀ (calls : List Call) (kind : Fail) (c : Connection), Answered c →
        Answered (calls.foldl (fun c call => c.finish call (.fail kind)) c) := by
      intro calls kind
      induction calls with
      | nil => exact fun _ answered => answered
      | cons call calls ih => exact fun c answered => ih _ (answered.finish_fail call kind)
    exact fold _ _ _ answered

theorem deliver_reply {c : Connection} {reply : Reply} {rest : List Reply} (kept : Kept c)
    (matched : Matched c (reply :: rest)) (alive : c.destroyed = false)
    (hasId : 2 ≤ reply.message.length) : ∃ call ∈ c.inflight, call.serial = reply.serial ∧
      c.deliver reply.message = c.finish call
      (.response (writeUInt16BE call.originalId reply.message)) := by
  obtain ⟨call, member, serial, id⟩ := matched.replied alive reply List.mem_cons_self
  refine ⟨call, member, serial, ?_⟩
  have found : c.pending.find? (·.1 = readUInt16BE reply.message) = some (call.wireId, call) := by
    have distinct : (c.pending.map Prod.fst).Nodup := by
      rw [kept.pending, List.map_map]
      exact kept.ids
    have inside : (call.wireId, call) ∈ c.pending := by
      rw [kept.pending]
      exact List.mem_map_of_mem member
    rw [← id]
    exact Keyed.find?_of_mem distinct inside
  rw [Connection.deliver, if_neg (by omega), found]

theorem Matched.finish_reply {c : Connection} {reply : Reply} {rest : List Reply} {call : Call}
    (matched : Matched c (reply :: rest)) (serial : call.serial = reply.serial)
    (outcome : Outcome) :
    Matched (c.finish call outcome) rest := by
  have others : (reply.serial :: (c.queued.map Sent.serial ++ c.written.map Sent.serial ++
      rest.map Reply.serial)).Nodup := by
    refine (List.Perm.nodup_iff ?_).mp matched.serials
    rw [List.map_cons]
    exact List.perm_middle
  have differs : ∀ other ∈ c.queued.map Sent.serial ++ c.written.map Sent.serial ++
      rest.map Reply.serial, other ≠ call.serial := by
    rintro other member rfl
    exact (List.nodup_cons.mp others).1 (serial ▸ member)
  refine ⟨?_, ?_, ?_, ?_⟩
  · rw [finish_queued, finish_written]
    exact (List.nodup_cons.mp others).2
  · rw [finish_queued, finish_written, finish_queries]
    intro other member
    refine matched.known other ?_
    rw [List.map_cons]
    exact List.perm_middle.mem_iff.mpr (List.mem_cons_of_mem _ member)
  · rw [finish_destroyed, finish_queued, finish_written]
    intro alive sent member
    obtain ⟨other, memberOther, same, id⟩ := matched.sent alive sent member
    refine ⟨other, mem_finish_inflight _ _ _ memberOther ?_, same, id⟩
    rw [same]
    refine differs _ (List.mem_append_left _ ?_)
    rw [← List.map_append]
    exact List.mem_map_of_mem member
  · rw [finish_destroyed]
    intro alive later member
    obtain ⟨other, memberOther, same, id⟩ :=
      matched.replied alive later (List.mem_cons_of_mem _ member)
    refine ⟨other, mem_finish_inflight _ _ _ memberOther ?_, same, id⟩
    rw [same]
    exact differs _ (List.mem_append_right _ (List.mem_map_of_mem member))

theorem deliver_replies {taken left : List Reply} {c : Connection} (kept : Kept c)
    (matched : Matched c (taken ++ left)) (alive : c.destroyed = false)
    (whole : ∀ reply ∈ taken, 2 ≤ reply.message.length) (given : ∀ reply ∈ taken, reply ∈ c.answers)
    (answered : Answered c) :
    Matched ((taken.map Reply.message).foldl deliver c) left ∧
      Answered ((taken.map Reply.message).foldl deliver c) := by
  induction taken generalizing c with
  | nil => exact ⟨matched, answered⟩
  | cons reply taken ih =>
    obtain ⟨call, member, serial, delivered⟩ :=
      deliver_reply kept matched alive (whole reply List.mem_cons_self)
    rw [List.map_cons, List.foldl_cons, delivered]
    refine ih (kept.finish _ _) (matched.finish_reply serial _) ((finish_destroyed ..).trans alive)
      (fun other later => whole other (List.mem_cons_of_mem _ later)) ?_ ?_
    · intro other later
      rw [finish_answers]
      exact given other (List.mem_cons_of_mem _ later)
    · intro other message settled
      rw [finish_queries, finish_answers]
      rcases mem_finish_settled _ _ _ settled with old | ⟨new, -⟩
      · exact answered other message old
      · obtain ⟨rfl, same⟩ := Prod.mk.inj new
        obtain ⟨query, place, original⟩ := kept.originals call member
        refine ⟨query, reply, place, given reply List.mem_cons_self, serial.symm, ?_⟩
        rw [← original]
        exact Outcome.response.inj same

/-! ## Runs -/

/-- What holds along every run. -/
structure Inv (c : Connection) : Prop where
  kept : Kept c
  matched : Matched c c.replies
  streamed : Streamed c
  answered : Answered c

theorem inv_fresh (nextId : UInt16) : Inv (fresh nextId) where
  kept := ⟨by simp [fresh], by simp [fresh], rfl, rfl, by simp [fresh], by simp [fresh]⟩
  matched := ⟨by simp [fresh], by simp [fresh], by simp [fresh], by simp [fresh]⟩
  streamed := ⟨rfl, by simp [fresh], by simp [fresh]⟩
  answered := by simp [Answered, fresh]

theorem Matched.of_destroyed {c after : Connection} {replies : List Reply}
    (matched : Matched c replies) (queued : after.queued = c.queued)
    (written : after.written = c.written) (queries : after.queries = c.queries)
    (destroyed : after.destroyed = true) :
    Matched after replies := by
  refine ⟨?_, ?_, ?_, ?_⟩
  · rw [queued, written]
    exact matched.serials
  · rw [queued, written, queries]
    exact matched.known
  · exact fun alive => absurd (destroyed.symm.trans alive) (by simp)
  · exact fun alive => absurd (destroyed.symm.trans alive) (by simp)

theorem Streamed.finish {c : Connection} (streamed : Streamed c) (call : Call) (outcome : Outcome) :
    Streamed (c.finish call outcome) := by
  obtain ⟨buf, unread, replies⟩ := finish_stream c call outcome
  refine ⟨?_, ?_, ?_⟩
  · rw [buf, unread, replies]
    exact streamed.stream
  · rw [replies]
    exact streamed.whole
  · rw [replies, finish_answers]
    exact streamed.given

/-- What a loop of `finish` leaves alone. -/
theorem finishAll_frame (c : Connection) : c.finishAll.queries = c.queries ∧
    c.finishAll.queued = c.queued ∧ c.finishAll.written = c.written ∧
    c.finishAll.destroyed = c.destroyed ∧ c.finishAll.replies = c.replies ∧
    (Streamed c → Streamed c.finishAll) := by
  have fold : ∀ (calls : List Call) (kind : Fail) (c : Connection),
      let after := calls.foldl (fun c call => c.finish call (.fail kind)) c
      after.queries = c.queries ∧ after.queued = c.queued ∧ after.written = c.written ∧
        after.destroyed = c.destroyed ∧ after.replies = c.replies ∧
        (Streamed c → Streamed after) := by
    intro calls kind
    induction calls with
    | nil => exact fun _ => ⟨rfl, rfl, rfl, rfl, rfl, id⟩
    | cons call calls ih =>
      intro c
      obtain ⟨queries, queued, written, destroyed, replies, streamed⟩ :=
        ih (c.finish call (.fail kind))
      exact ⟨queries.trans (finish_queries ..), queued.trans (finish_queued ..),
        written.trans (finish_written ..), destroyed.trans (finish_destroyed ..),
        replies.trans (finish_stream ..).2.2, fun before => streamed (before.finish call _)⟩
  unfold Connection.finishAll
  split
  · exact ⟨rfl, rfl, rfl, rfl, rfl, id⟩
  · obtain ⟨queries, queued, written, destroyed, replies, streamed⟩ := fold c.inflight
      (c.failure.getD c.defaultFailure) { c with ended := true, idleTimer := false }
    exact ⟨queries, queued, written, destroyed, replies,
      fun before => streamed ⟨before.stream, before.whole, before.given⟩⟩

theorem Answered.send {c : Connection} (answered : Answered c) (query : Query) :
    Answered (c.send query) := by
  have later : ∀ serial message, (serial, Outcome.response message) ∈ c.settled →
      ∃ found reply, (c.queries ++ [query])[serial]? = some found ∧ reply ∈ c.answers ∧
        reply.serial = serial ∧ message = writeUInt16BE (readUInt16BE found.bytes)
        reply.message := by
    intro serial message member
    obtain ⟨found, reply, place, rest⟩ := answered serial message member
    refine ⟨found, reply, ?_, rest⟩
    rw [List.getElem?_append_left (List.getElem?_eq_some_iff.mp place).1]
    exact place
  unfold Connection.send
  split
  · intro serial message member
    rcases List.mem_append.mp member with old | new
    · exact later serial message old
    · exact absurd (Prod.mk.inj (List.mem_singleton.mp new)).2 (by simp)
  · exact later

/-- The new query has a new serial and its own call. -/
theorem Matched.send {c : Connection} (matched : Matched c c.replies) (query : Query) :
    Matched (c.send query) (c.send query).replies := by
  have fresh : c.queries.length ∉ c.queued.map Sent.serial ++ c.written.map Sent.serial ++
      c.replies.map Reply.serial := fun member => lt_irrefl _ (matched.known _ member)
  have small : ∀ serial ∈ c.queued.map Sent.serial ++ c.written.map Sent.serial ++
      c.replies.map Reply.serial, serial < (c.queries ++ [query]).length := by
    intro serial member
    rw [List.length_append]
    exact (matched.known serial member).trans (Nat.lt_succ_self _)
  unfold Connection.send
  split
  · exact ⟨matched.serials, small, matched.sent, matched.replied⟩
  · rename_i id found
    have grown : ∀ serials : List Nat,
        serials.Perm (c.queries.length :: (c.queued.map Sent.serial ++ c.written.map Sent.serial ++
          c.replies.map Reply.serial)) → serials.Nodup ∧ ∀ serial ∈ serials,
          serial < (c.queries ++ [query]).length := by
      intro serials perm
      refine ⟨perm.nodup_iff.mpr (List.nodup_cons.mpr ⟨fresh, matched.serials⟩), ?_⟩
      intro serial member
      rcases List.mem_cons.mp (perm.mem_iff.mp member) with rfl | old
      · simp
      · exact small serial old
    have calls : ∀ sent : Sent, (c.destroyed = false → ∀ other ∈ c.queued ++ c.written,
        ∃ call ∈ c.inflight, call.serial = other.serial ∧ call.wireId = readUInt16BE other.wire) →
        sent = ⟨c.queries.length, writeUInt16BE id query.bytes⟩ → c.destroyed = false →
        ∀ other, other ∈ c.queued ++ c.written ∨ other = sent →
          ∃ call ∈ c.inflight ++ [⟨c.queries.length, readUInt16BE query.bytes, id⟩],
            call.serial = other.serial ∧ call.wireId = readUInt16BE other.wire := by
      rintro sent held rfl alive other (old | rfl)
      · obtain ⟨call, member, same⟩ := held alive other old
        exact ⟨call, List.mem_append_left _ member, same⟩
      · exact ⟨_, List.mem_append_right _ (List.mem_singleton.mpr rfl), rfl,
          (readUInt16BE_writeUInt16BE id query.bytes).symm⟩
    have replied : c.destroyed = false → ∀ reply ∈ c.replies,
        ∃ call ∈ c.inflight ++ [⟨c.queries.length, readUInt16BE query.bytes, id⟩],
          call.serial = reply.serial ∧ call.wireId = readUInt16BE reply.message := by
      intro alive reply member
      obtain ⟨call, memberCall, same⟩ := matched.replied alive reply member
      exact ⟨call, List.mem_append_left _ memberCall, same⟩
    -- The frame goes to the server at once or waits for the handshake.
    cases opened : c.isOpen with
    | true =>
      obtain ⟨distinct, known⟩ := grown (c.queued.map Sent.serial ++
        (c.written.map Sent.serial ++ [c.queries.length]) ++ c.replies.map Reply.serial) (by
          simp only [List.append_assoc, List.singleton_append]
          exact (List.perm_middle.append_left _).trans List.perm_middle)
      refine ⟨?_, ?_, fun alive other member => calls _ matched.sent rfl alive other ?_, replied⟩
      · simpa [begin, opened] using distinct
      · simpa [begin, opened] using known
      · simp only [if_true, List.mem_append, List.mem_singleton] at member ⊢
        tauto
    | false =>
      obtain ⟨distinct, known⟩ := grown (c.queued.map Sent.serial ++ [c.queries.length] ++
        c.written.map Sent.serial ++ c.replies.map Reply.serial) (by
          simp only [List.append_assoc, List.singleton_append]
          exact List.perm_middle)
      refine ⟨?_, ?_, fun alive other member => calls _ matched.sent rfl alive other ?_, replied⟩
      · simpa [begin, opened] using distinct
      · simpa [begin, opened] using known
      · simp only [Bool.false_eq_true, if_false, List.mem_append, List.mem_singleton] at member ⊢
        tauto

theorem deliverAll_frame (messages : List Bytes) (c : Connection) :
    (messages.foldl deliver c).buf = c.buf ∧ (messages.foldl deliver c).answers = c.answers := by
  induction messages generalizing c with
  | nil => exact ⟨rfl, rfl⟩
  | cons message messages ih =>
    have one : (c.deliver message).buf = c.buf ∧ (c.deliver message).answers = c.answers := by
      unfold deliver
      split
      · exact ⟨rfl, rfl⟩
      · split
        · exact ⟨rfl, rfl⟩
        · exact ⟨(finish_stream ..).1, finish_answers ..⟩
    rw [List.foldl_cons, (ih _).1, (ih _).2]
    exact one

/-- A chunk is read: its replies reach their calls. -/
theorem Inv.data {c : Connection} (inv : Inv c) (count : Nat) (alive : c.destroyed = false) :
    Inv (c.receive count) := by
  have stream : (c.buf ++ c.unread.take count) ++ c.unread.drop count =
      ((c.replies.map Reply.message).map frame).flatten := by
    rw [List.append_assoc, List.take_append_drop]
    exact inv.streamed.stream
  have fits : ∀ payload ∈ c.replies.map Reply.message, payload.length < 2 ^ 16 := by
    intro payload member
    obtain ⟨reply, inside, rfl⟩ := List.mem_map.mp member
    exact (inv.streamed.whole reply inside).2
  obtain ⟨messages, rest, split, first, later⟩ := extract_of_stream fits stream
  obtain ⟨taken, left, parts, rfl, rfl⟩ := List.map_eq_append_iff.mp split
  have counted : c.replies.drop (extract (c.buf ++ c.unread.take count)).1.length = left := by
    rw [first, List.length_map, parts, List.drop_left]
  have inTaken : ∀ reply ∈ taken, reply ∈ c.replies := fun reply member =>
    parts ▸ List.mem_append_left _ member
  have inLeft : ∀ reply ∈ left, reply ∈ c.replies := fun reply member =>
    parts ▸ List.mem_append_right _ member
  let cut : Connection := { c with buf := (extract (c.buf ++ c.unread.take count)).2 }
  have onData : c.onData (c.unread.take count) = (taken.map Reply.message).foldl deliver cut := by
    rw [Connection.onData, ← first]
  obtain ⟨buf, answers⟩ := deliverAll_frame (taken.map Reply.message) cut
  have matchedAll : Matched cut (taken ++ left) := by
    rw [← parts]
    exact ⟨inv.matched.serials, inv.matched.known, inv.matched.sent, inv.matched.replied⟩
  obtain ⟨matched, answered⟩ :=
    deliver_replies (inv.kept.congr rfl rfl rfl rfl rfl : Kept cut) matchedAll alive
      (fun reply member => (inv.streamed.whole reply (inTaken reply member)).1)
    (fun reply member => inv.streamed.given reply (inTaken reply member)) inv.answered
  have kept := inv.kept.onData (c.unread.take count)
  rw [receive, counted]
  rw [onData] at kept ⊢
  refine ⟨kept.congr rfl rfl rfl rfl rfl,
    ⟨matched.serials, matched.known, matched.sent, matched.replied⟩, ⟨?_, ?_, ?_⟩, answered⟩
  · simp only [buf]
    exact later
  · exact fun reply member => inv.streamed.whole reply (inLeft reply member)
  · simp only [answers]
    exact fun reply member => inv.streamed.given reply (inLeft reply member)

/-- The server answers a query that it has. -/
theorem Inv.answer {c : Connection} (inv : Inv c) {before later : List Sent} {sent : Sent}
    {message : Bytes} (asked : c.written = before ++ sent :: later) (fits : message.length < 2 ^ 16)
    (hasId : 2 ≤ message.length) (sameId : readUInt16BE message = readUInt16BE sent.wire) :
    Inv (c.answer (before ++ later) ⟨sent.serial, message⟩) := by
  obtain ⟨kept, matched, streamed, answered⟩ := inv
  have moved : (c.queued.map Sent.serial ++ (before ++ later).map Sent.serial ++
      (c.replies ++ [(⟨sent.serial, message⟩ : Reply)]).map Reply.serial).Perm
      (c.queued.map Sent.serial ++ c.written.map Sent.serial ++ c.replies.map Reply.serial) := by
    rw [asked]
    simp only [List.map_append, List.map_cons, List.map_nil, List.append_assoc, List.cons_append]
    refine List.Perm.append_left _ (List.Perm.append_left _ ?_)
    rw [← List.append_assoc]
    exact List.perm_append_singleton _ _
  refine ⟨kept.congr rfl rfl rfl rfl rfl, ⟨?_, ?_, ?_, ?_⟩, ⟨?_, ?_, ?_⟩, ?_⟩
  · exact moved.nodup_iff.mpr matched.serials
  · exact fun serial member => matched.known serial (moved.mem_iff.mp member)
  · intro alive other member
    refine matched.sent alive other ?_
    rw [asked]
    simp only [Connection.answer, List.mem_append, List.mem_cons] at member ⊢
    tauto
  · intro alive reply member
    rcases List.mem_append.mp member with old | new
    · exact matched.replied alive reply old
    · rw [List.mem_singleton.mp new, sameId]
      refine matched.sent alive sent ?_
      rw [asked]
      simp
  · change c.buf ++ (c.unread ++ frame message) =
      (((c.replies ++ [(⟨sent.serial, message⟩ : Reply)]).map Reply.message).map frame).flatten
    rw [← List.append_assoc, streamed.stream]
    simp
  · intro reply member
    rcases List.mem_append.mp member with old | new
    · exact streamed.whole reply old
    · rw [List.mem_singleton.mp new]
      exact ⟨hasId, fits⟩
  · intro reply member
    rcases List.mem_append.mp member with old | new
    · exact List.mem_append_left _ (streamed.given reply old)
    · exact List.mem_append_right _ new
  · intro serial answer member
    obtain ⟨query, reply, place, given, rest⟩ := answered serial answer member
    exact ⟨query, reply, place, List.mem_append_left _ given, rest⟩

theorem Step.inv {c after : Connection} (step : Step c after) (inv : Inv c) : Inv after := by
  obtain ⟨kept, matched, streamed, answered⟩ := inv
  cases step with
  | send query =>
    refine ⟨kept.send query, matched.send query, ?_, answered.send query⟩
    unfold Connection.send
    split <;> exact ⟨streamed.stream, streamed.whole, streamed.given⟩
  | secured alive =>
    have moved : (([] : List Sent).map Sent.serial ++ (c.written ++ c.queued).map Sent.serial ++
        c.replies.map Reply.serial).Perm (c.queued.map Sent.serial ++ c.written.map Sent.serial ++
        c.replies.map Reply.serial) := by
      rw [List.map_nil, List.nil_append, List.map_append]
      exact List.Perm.append_right _ List.perm_append_comm
    refine ⟨kept.congr rfl rfl rfl rfl rfl, ⟨?_, ?_, ?_, matched.replied⟩,
      ⟨streamed.stream, streamed.whole, streamed.given⟩, answered⟩
    · exact moved.nodup_iff.mpr matched.serials
    · exact fun serial member => matched.known serial (moved.mem_iff.mp member)
    · intro living other member
      exact matched.sent living other (List.perm_append_comm.mem_iff.mp member)
  | refused =>
    exact ⟨kept.congr rfl rfl rfl rfl rfl, matched.of_destroyed rfl rfl rfl rfl,
      ⟨streamed.stream, streamed.whole, streamed.given⟩, answered⟩
  | errored =>
    exact ⟨kept.congr rfl rfl rfl rfl rfl,
      ⟨matched.serials, matched.known, matched.sent, matched.replied⟩,
      ⟨streamed.stream, streamed.whole, streamed.given⟩, answered⟩
  | answered before later sent message asked fits hasId sameId =>
    exact Inv.answer ⟨kept, matched, streamed, answered⟩ asked fits hasId sameId
  | data count alive => exact Inv.data ⟨kept, matched, streamed, answered⟩ count alive
  | timedOut call inflight armed =>
    have stream := streamed.finish call (.fail .timeout)
    refine ⟨(kept.finish call _).congr rfl rfl rfl rfl rfl, ?_,
      ⟨stream.stream, stream.whole, stream.given⟩, answered.finish_fail call .timeout⟩
    have replies := (finish_stream c call (.fail .timeout)).2.2
    simp only [close, replies]
    exact matched.of_destroyed (finish_queued ..) (finish_written ..) (finish_queries ..) rfl
  | idled armed =>
    exact ⟨kept.congr rfl rfl rfl rfl rfl, matched.of_destroyed rfl rfl rfl rfl,
      ⟨streamed.stream, streamed.whole, streamed.given⟩, answered⟩
  | closed =>
    obtain ⟨queries, queued, written, destroyed, replies, stream⟩ := finishAll_frame c.close
    refine ⟨(kept.congr rfl rfl rfl rfl rfl : Kept c.close).finishAll, ?_,
      stream ⟨streamed.stream, streamed.whole, streamed.given⟩, Answered.finishAll answered⟩
    rw [replies]
    exact matched.of_destroyed queued written queries destroyed

theorem Run.inv {nextId : UInt16} {c : Connection} (run : Run (fresh nextId) c) : Inv c := by
  induction run with
  | refl => exact inv_fresh nextId
  | tail _ step inv => exact step.inv inv

theorem timeout_settles {c : Connection} (kept : Kept c) {call : Call}
    (member : call ∈ c.inflight) :
    ∃ after, Step c after ∧ call.serial ∈ after.settled.map Prod.fst := by
  have armed : call.serial ∈ c.timers := by
    rw [kept.timers]
    exact List.mem_map_of_mem member
  refine ⟨_, .timedOut c call member armed, ?_⟩
  simp [close, finish, member]

/-- **However sends, replies, timers and the end of the socket fall together: no send
settles twice, one that has not settled has its timer, a send resolves with a message only
when that is the server's answer to it under the id it was sent with, and queries in
flight have different ids on the wire.** -/
theorem replies_never_cross {nextId : UInt16} {c : Connection} (run : Run (fresh nextId) c) :
    (c.settled.map Prod.fst).Nodup ∧
    (∀ serial < c.queries.length, serial ∈ c.settled.map Prod.fst ∨
      serial ∈ c.timers ∧ ∃ after, Step c after ∧ serial ∈ after.settled.map Prod.fst) ∧
    (∀ serial message, (serial, Outcome.response message) ∈ c.settled →
      ∃ query reply, c.queries[serial]? = some query ∧ reply ∈ c.answers ∧ reply.serial = serial ∧
        message = writeUInt16BE (readUInt16BE query.bytes) reply.message) ∧
    (c.inflight.map Call.wireId).Nodup := by
  obtain ⟨kept, -, -, answered⟩ := run.inv
  refine ⟨(List.nodup_append.mp kept.serials).1, ?_, answered, kept.ids⟩
  intro serial sent
  rcases List.mem_append.mp ((kept.known serial).mpr sent) with settled | inflight
  · exact .inl settled
  · obtain ⟨call, member, rfl⟩ := List.mem_map.mp inflight
    refine .inr ⟨?_, timeout_settles kept member⟩
    rw [kept.timers]
    exact inflight

/-- Queries with the id `0x1234`. -/
def sampleQuery (last : UInt8) : Query := ⟨[0x12, 0x34, last], by simp, by simp⟩

/-- Two queries go out under the last id and the first. The second is answered first, and the
answers come in chunks that end elsewhere than they do. -/
def sampleRun : Connection :=
  ((((((fresh 65535).send (sampleQuery 1)).send (sampleQuery 2)).secure.answer
    [⟨0, [0xff, 0xff, 1]⟩] ⟨1, [0, 0, 8]⟩).answer [] ⟨0, [0xff, 0xff, 9]⟩).receive 7).receive 3

theorem run_sampleRun : Run (fresh 65535) sampleRun := by
  have first : Run (fresh 65535) ((fresh 65535).send (sampleQuery 1)) := .single (.send _ _)
  have secured := (first.tail (.send _ (sampleQuery 2))).tail (.secured _ (by decide))
  have second := secured.tail (.answered _ [⟨0, [0xff, 0xff, 1]⟩] [] ⟨1, [0, 0, 2]⟩ [0, 0, 8]
    (by decide) (by decide) (by decide) (by decide))
  have both := second.tail (.answered _ [] [] ⟨0, [0xff, 0xff, 1]⟩ [0xff, 0xff, 9]
    (by decide) (by decide) (by decide) (by decide))
  exact (both.tail (.data _ 7 (by decide))).tail (.data _ 3 (by decide))

theorem replies_never_cross_sample :
    sampleRun.settled = [(1, .response [0x12, 0x34, 8]), (0, .response [0x12, 0x34, 9])] ∧
    (sampleRun.settled.map Prod.fst).Nodup ∧
    ∃ query reply, sampleRun.queries[1]? = some query ∧ reply ∈ sampleRun.answers ∧
      reply.serial = 1 ∧ [0x12, 0x34, 8] = writeUInt16BE (readUInt16BE query.bytes)
      reply.message := by
  have settled : sampleRun.settled =
      [(1, .response [0x12, 0x34, 8]), (0, .response [0x12, 0x34, 9])] := by decide
  obtain ⟨distinct, -, answer, -⟩ := replies_never_cross run_sampleRun
  refine ⟨settled, distinct, answer 1 _ ?_⟩
  rw [settled]
  exact List.mem_cons_self

end Connection

end Dot

end Cidrella
