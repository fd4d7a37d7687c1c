import Cidrella.Lib.Framing
import Cidrella.Lib.CyclicScan
import Cidrella.Lib.Keyed
import Cidrella.Lib.Text

/-!
# The UDP proxy

`utils/dns-proxy.js`: a client's query is forwarded to the backend under an id of a
16-bit counter that wraps, and the backend's reply is matched back by that id alone. What
the policy says about a query or an answer changes over time, so each event carries the
verdict it met. An id is free again once its query was answered or timed out; a reply that
comes later than that is taken for the answer to whichever query has the id by then. No one hears of
a query whose handler throws before it is in the table or once it is out of it (`Faulty`).
-/

set_option autoImplicit false

namespace Cidrella

open Framing

namespace DnsProxy

/-- Where a query came from. -/
structure Client where
  address : Text
  port : Nat
  socket : Nat
  deriving DecidableEq, Repr

/-- A query as it came in. -/
structure Query where
  message : Bytes
  client : Client
  deriving DecidableEq, Repr

/-- A row of `pendingQueries`. `serial` is the place of the query among those received. -/
structure Pending where
  serial : Nat
  client : Client
  originalId : UInt16
  clientRd : Bool
  query : Bytes
  deriving DecidableEq, Repr

/-- A message that belongs to a query: one forwarded to the backend, or an answer to it. -/
structure Message where
  serial : Nat
  bytes : Bytes
  deriving DecidableEq, Repr

/-- What a client is sent: a refusal of the policy, a failure, or what was made of an
answer. -/
inductive Content where
  | blocked
  | servfail
  | nxdomain (answer : Bytes)
  | relayed (answer : Bytes)
  deriving DecidableEq, Repr

/-- A response on its way to a client. -/
structure Response where
  serial : Nat
  client : Client
  id : UInt16
  clientRd : Bool
  content : Content
  deriving DecidableEq, Repr

/-- The proxy and what is outside of it: the queries received, the forwarded messages the
backend has not answered, its answers, the forwarder's, and the responses. -/
structure Proxy where
  pendingQueries : List (UInt16 × Pending) := []
  timers : List (Nat × UInt16) := []
  nextQueryId : UInt16 := 1
  retrying : List (Pending × Bytes) := []
  queries : List Query := []
  forwarded : List Message := []
  answers : List Message := []
  forwarderAnswers : List Message := []
  sent : List Response := []

/-- `RD_BIT` of the third byte. -/
def rdBit : UInt8 := 0x01

/-- `asksRecursion`. -/
def asksRecursion : Bytes → Bool
  | _ :: _ :: flags :: _ => flags &&& rdBit ≠ 0
  | _ => false

/-- `withRecursionDesired`. -/
def withRecursionDesired : Bytes → Bytes
  | high :: low :: flags :: rest => high :: low :: (flags ||| rdBit) :: rest
  | message => message

/-- `withClientRd`. -/
def withClientRd (clientRd : Bool) : Bytes → Bytes
  | high :: low :: flags :: rest =>
    high :: low :: ((flags &&& ~~~rdBit) ||| (if clientRd then rdBit else 0)) :: rest
  | reply => reply

/-- `MAX_PENDING_QUERIES`. -/
def maxPendingQueries : Nat := 10000

/-- What a policy check said. -/
inductive Verdict where
  | forward
  | block
  deriving DecidableEq, Repr

namespace Proxy

/-- The ids in flight. -/
def ids (p : Proxy) : List UInt16 := p.pendingQueries.map Prod.fst

/-- `allocateQueryId`: the first free id after the last one that was given out. -/
def allocateQueryId (p : Proxy) : Option UInt16 :=
  scan (fun id => decide (id ∈ p.ids)) (· + 1) 65536 (p.nextQueryId + 1)

/-- A response made at once. -/
def respond (p : Proxy) (query : Query) (content : Content) : Proxy :=
  { p with
    queries := p.queries ++ [query]
    sent := p.sent ++ [⟨p.queries.length, query.client, readUInt16BE query.message,
      asksRecursion query.message, content⟩] }

/-- A query is given an id, a timer and a place in the table, and goes to the backend. -/
def forward (p : Proxy) (query : Query) (id : UInt16) : Proxy :=
  let serial := p.queries.length
  { p with
    queries := p.queries ++ [query]
    nextQueryId := id
    timers := p.timers ++ [(serial, id)]
    pendingQueries := p.pendingQueries ++ [(id,
      ⟨serial, query.client, readUInt16BE query.message, asksRecursion query.message,
      query.message⟩)]
    forwarded := p.forwarded ++ [⟨serial, writeUInt16BE id (withRecursionDesired query.message)⟩] }

/-- `handleQuery`, for a query that could be decoded. -/
def handleQuery (p : Proxy) (query : Query) (inbound : Verdict) : Proxy :=
  if inbound = .block then p.respond query .blocked
  else if maxPendingQueries ≤ p.pendingQueries.length then p.respond query .servfail
  else
    match p.allocateQueryId with
    | none => p.respond query .servfail
    | some id => p.forward query id

/-- `deliverResponse`. -/
def deliverResponse (p : Proxy) (pending : Pending) (answer : Bytes) (resolved : Verdict) : Proxy :=
  { p with sent := p.sent ++ [⟨pending.serial, pending.client, pending.originalId, pending.clientRd,
      if resolved = .block then .nxdomain answer else .relayed answer⟩] }

/-- The entry of an id goes. -/
def release (p : Proxy) (id : UInt16) : Proxy :=
  { p with pendingQueries := p.pendingQueries.filter (·.1 ≠ id) }

/-- The entry of an id. -/
def find (p : Proxy) (id : UInt16) : Option Pending :=
  (p.pendingQueries.find? (·.1 = id)).map Prod.snd

/-- `handleDnsmasqResponse`, for a reply that could be decoded. `retry` is what
`wantsUnknownRetry` said. -/
def handleDnsmasqResponse (p : Proxy) (reply : Bytes) (retry : Bool) (resolved : Verdict) : Proxy :=
  let id := readUInt16BE reply
  match p.find id with
  | none => p
  | some pending =>
    let released := { p.release id with timers := p.timers.filter (·.1 ≠ pending.serial) }
    if retry then { released with retrying := released.retrying ++ [(pending, reply)] }
    else released.deliverResponse pending reply resolved

/-- The timer of a query fires: whatever has the id by then gets a failure. -/
def timeout (p : Proxy) (serial : Nat) (id : UInt16) : Proxy :=
  let fired := { p with timers := p.timers.filter (·.1 ≠ serial) }
  match p.find id with
  | none => fired
  | some pending =>
    { fired.release id with sent := p.sent ++
      [⟨pending.serial, pending.client, pending.originalId, pending.clientRd, .servfail⟩] }

/-- The forwarder has answered, or not, a query that was asked again. -/
def retried (p : Proxy) (pending : Pending) (reply : Bytes) (answer : Option Bytes)
    (resolved : Verdict) :
    Proxy :=
  let done := { p with retrying := p.retrying.filter (·.1.serial ≠ pending.serial) }
  match answer with
  | none => done.deliverResponse pending reply resolved
  | some again =>
    let heard := { done with forwarderAnswers := p.forwarderAnswers ++
        [(⟨pending.serial, again⟩ : Message)] }
    heard.deliverResponse pending again resolved

/-- The backend's answer to a forwarded message arrives. -/
def answer (p : Proxy) (forwarded : List Message) (reply : Message) (retry : Bool)
    (resolved : Verdict) :
    Proxy :=
  let heard := { p with forwarded := forwarded, answers := p.answers ++ [reply] }
  heard.handleDnsmasqResponse reply.bytes retry resolved

/-- Which queries may come in a state, with what the policy says of them. -/
abbrev Admits := Proxy → Verdict → Prop

/-- One event. The backend answers a forwarded message at most once, under its id, and any
time later; a query or reply that cannot be decoded does nothing. -/
inductive Step (admits : Admits) : Proxy → Proxy → Prop where
  | query (p : Proxy) (query : Query) (inbound : Verdict) (allowed : admits p inbound) :
      Step admits p (p.handleQuery query inbound)
  | answered (p : Proxy) (before after : List Message) (forwarded : Message) (reply : Bytes)
      (retry : Bool) (resolved : Verdict) (asked : p.forwarded = before ++ forwarded :: after)
      (sameId : readUInt16BE reply = readUInt16BE forwarded.bytes) :
      Step admits p (p.answer (before ++ after) ⟨forwarded.serial, reply⟩ retry resolved)
  | timedOut (p : Proxy) (serial : Nat) (id : UInt16) (armed : (serial, id) ∈ p.timers) :
      Step admits p (p.timeout serial id)
  | retried (p : Proxy) (pending : Pending) (reply : Bytes) (answer : Option Bytes)
      (resolved : Verdict) (waits : (pending, reply) ∈ p.retrying) :
      Step admits p (p.retried pending reply answer resolved)

/-- Events in any order, with every query let in where it comes. -/
def Run (admits : Admits) : Proxy → Proxy → Prop := Relation.ReflTransGen (Step admits)

/-! ## One response each -/

/-- The table row is the query's own. -/
def Own (queries : List Query) (pending : Pending) : Prop :=
  queries[pending.serial]? = some ⟨pending.query, pending.client⟩ ∧
    pending.originalId = readUInt16BE pending.query

/-- The response is addressed as its query asks. -/
def Addressed (queries : List Query) (response : Response) : Prop :=
  ∃ query, queries[response.serial]? = some query ∧ response.client = query.client ∧
    response.id = readUInt16BE query.message

/-- The queries that have their response, are pending or are asked again. -/
def serials (p : Proxy) : List Nat :=
  p.sent.map Response.serial ++ p.pendingQueries.map (·.2.serial) ++ p.retrying.map (·.1.serial)

/-- A query is in one place at most, and every place has what is the query's own. -/
structure Kept (p : Proxy) : Prop where
  serials : p.serials.Nodup
  known : ∀ serial ∈ p.serials, serial < p.queries.length
  ids : p.ids.Nodup
  timers : p.timers = p.pendingQueries.map fun entry => (entry.2.serial, entry.1)
  pending : ∀ entry ∈ p.pendingQueries, Own p.queries entry.2
  retrying : ∀ entry ∈ p.retrying, Own p.queries entry.1
  sent : ∀ response ∈ p.sent, Addressed p.queries response

theorem getElem?_append_query {queries : List Query} {serial : Nat} {found : Query}
    (place : queries[serial]? = some found) (query : Query) :
    (queries ++ [query])[serial]? = some found := by
  rw [List.getElem?_append_left (List.getElem?_eq_some_iff.mp place).1]
  exact place

theorem Own.append {queries : List Query} {pending : Pending} (own : Own queries pending)
    (query : Query) :
    Own (queries ++ [query]) pending := ⟨getElem?_append_query own.1 query, own.2⟩

theorem Addressed.append {queries : List Query} {response : Response}
    (addressed : Addressed queries response) (query : Query) :
    Addressed (queries ++ [query]) response := by
  obtain ⟨found, place, rest⟩ := addressed
  exact ⟨found, getElem?_append_query place query, rest⟩

theorem Own.addressed {queries : List Query} {pending : Pending} (own : Own queries pending)
    (content : Content) : Addressed queries
      ⟨pending.serial, pending.client, pending.originalId, pending.clientRd, content⟩ :=
  ⟨_, own.1, rfl, own.2⟩

theorem find_eq_some {p : Proxy} {id : UInt16} {pending : Pending}
    (found : p.find id = some pending) :
    (id, pending) ∈ p.pendingQueries := by
  obtain ⟨⟨other, row⟩, first, rfl⟩ := Option.map_eq_some_iff.mp found
  have test := List.find?_some first
  obtain rfl : other = id := of_decide_eq_true test
  exact List.mem_of_find?_eq_some first

namespace Kept

variable {p : Proxy}

theorem pending_serials (kept : Kept p) : (p.pendingQueries.map (·.2.serial)).Nodup :=
  (List.nodup_append.mp (List.nodup_append.mp kept.serials).1).2.1

theorem retrying_serials (kept : Kept p) : (p.retrying.map (·.1.serial)).Nodup :=
  (List.nodup_append.mp kept.serials).2.1

theorem find_of_mem (kept : Kept p) {id : UInt16} {pending : Pending}
    (member : (id, pending) ∈ p.pendingQueries) : p.find id = some pending := by
  have found : p.pendingQueries.find? (·.1 = id) = some (id, pending) :=
    Keyed.find?_of_mem kept.ids member
  rw [find, found]
  rfl

theorem congr {after : Proxy} (kept : Kept p) (pending : after.pendingQueries = p.pendingQueries)
    (timers : after.timers = p.timers) (retrying : after.retrying = p.retrying)
    (queries : after.queries = p.queries) (sent : after.sent = p.sent) : Kept after := by
  have serials : after.serials = p.serials := by
    rw [Proxy.serials, pending, retrying, sent]
    rfl
  refine ⟨serials ▸ kept.serials, ?_, ?_, ?_, ?_, ?_, ?_⟩
  · rw [serials, queries]
    exact kept.known
  · rw [Proxy.ids, pending]
    exact kept.ids
  · rw [timers, pending]
    exact kept.timers
  · rw [pending, queries]
    exact kept.pending
  · rw [retrying, queries]
    exact kept.retrying
  · rw [sent, queries]
    exact kept.sent

theorem release_perm (kept : Kept p) {id : UInt16} {pending : Pending}
    (member : (id, pending) ∈ p.pendingQueries) :
    (pending.serial :: (p.release id).pendingQueries.map (·.2.serial)).Perm
        (p.pendingQueries.map (·.2.serial)) ∧
      p.timers.filter (·.1 ≠ pending.serial) =
        (p.release id).pendingQueries.map fun entry => (entry.2.serial, entry.1) := by
  have same : p.pendingQueries.filter (·.1 ≠ id) =
      p.pendingQueries.filter (·.2.serial ≠ pending.serial) :=
    Keyed.filter_ne_congr kept.ids kept.pending_serials member
  constructor
  · rw [release, same]
    exact Keyed.perm_filter_of_mem kept.pending_serials member
  · rw [release, same, kept.timers, List.filter_map]
    rfl

theorem respond_pending (kept : Kept p) {id : UInt16} {pending : Pending}
    (member : (id, pending) ∈ p.pendingQueries) (content : Content) :
    Kept { p.release id with
      timers := p.timers.filter (·.1 ≠ pending.serial)
      sent := p.sent ++
        [⟨pending.serial, pending.client, pending.originalId, pending.clientRd, content⟩] } := by
  obtain ⟨perm, timers⟩ := kept.release_perm member
  have moved : ((p.sent ++ [(⟨pending.serial, pending.client, pending.originalId, pending.clientRd,
      content⟩ : Response)]).map Response.serial ++ (p.release id).pendingQueries.map
        (·.2.serial) ++ p.retrying.map (·.1.serial)).Perm p.serials := by
    rw [List.map_append, List.append_assoc _ _ ((p.release id).pendingQueries.map _)]
    exact List.Perm.append_right _ (List.Perm.append_left _ perm)
  refine ⟨moved.nodup_iff.mpr kept.serials, ?_, ?_, timers, ?_, kept.retrying, ?_⟩
  · exact fun serial place => kept.known serial (moved.mem_iff.mp place)
  · exact kept.ids.sublist (List.filter_sublist.map _)
  · exact fun entry inside => kept.pending entry (List.mem_of_mem_filter inside)
  · intro response inside
    rcases List.mem_append.mp inside with old | new
    · exact kept.sent response old
    · rw [List.mem_singleton.mp new]
      exact (kept.pending _ member).addressed content

theorem ask_again (kept : Kept p) {id : UInt16} {pending : Pending}
    (member : (id, pending) ∈ p.pendingQueries) (reply : Bytes) :
    Kept { p.release id with
      timers := p.timers.filter (·.1 ≠ pending.serial)
      retrying := p.retrying ++ [(pending, reply)] } := by
  obtain ⟨perm, timers⟩ := kept.release_perm member
  have moved : (p.sent.map Response.serial ++ (p.release id).pendingQueries.map (·.2.serial) ++
      (p.retrying ++ [(pending, reply)]).map (·.1.serial)).Perm p.serials := by
    rw [List.map_append, ← List.append_assoc, Proxy.serials]
    refine (List.perm_append_singleton pending.serial _).trans ?_
    rw [← List.cons_append]
    refine List.Perm.append_right _ ?_
    exact List.perm_middle.symm.trans (List.Perm.append_left _ perm)
  refine ⟨moved.nodup_iff.mpr kept.serials, ?_, ?_, timers, ?_, ?_, kept.sent⟩
  · exact fun serial place => kept.known serial (moved.mem_iff.mp place)
  · exact kept.ids.sublist (List.filter_sublist.map _)
  · exact fun entry inside => kept.pending entry (List.mem_of_mem_filter inside)
  · intro entry inside
    rcases List.mem_append.mp inside with old | new
    · exact kept.retrying entry old
    · rw [List.mem_singleton.mp new]
      exact kept.pending _ member

theorem respond_retrying (kept : Kept p) {pending : Pending} {reply : Bytes}
    (member : (pending, reply) ∈ p.retrying) (content : Content) :
    Kept { p with
      retrying := p.retrying.filter (·.1.serial ≠ pending.serial)
      sent := p.sent ++
        [⟨pending.serial, pending.client, pending.originalId, pending.clientRd, content⟩] } := by
  have perm : (pending.serial :: (p.retrying.filter (·.1.serial ≠ pending.serial)).map
      (·.1.serial)).Perm (p.retrying.map (·.1.serial)) :=
    Keyed.perm_filter_of_mem kept.retrying_serials member
  have moved : ((p.sent ++ [(⟨pending.serial, pending.client, pending.originalId, pending.clientRd,
      content⟩ : Response)]).map Response.serial ++ p.pendingQueries.map (·.2.serial) ++
        (p.retrying.filter (·.1.serial ≠ pending.serial)).map (·.1.serial)).Perm p.serials := by
    rw [List.map_append, List.append_assoc, List.append_assoc, Proxy.serials, List.append_assoc]
    refine List.Perm.append_left _ ?_
    exact (@List.perm_middle _ _ (p.pendingQueries.map (·.2.serial)) _).symm.trans
      (List.Perm.append_left _ perm)
  refine ⟨moved.nodup_iff.mpr kept.serials, ?_, kept.ids, kept.timers, kept.pending, ?_, ?_⟩
  · exact fun serial place => kept.known serial (moved.mem_iff.mp place)
  · exact fun entry inside => kept.retrying entry (List.mem_of_mem_filter inside)
  · intro response inside
    rcases List.mem_append.mp inside with old | new
    · exact kept.sent response old
    · rw [List.mem_singleton.mp new]
      exact (kept.retrying _ member).addressed content

theorem fresh_serial (kept : Kept p) : (p.queries.length :: p.serials).Nodup :=
  List.nodup_cons.mpr ⟨fun place => absurd (kept.known _ place) (lt_irrefl _), kept.serials⟩

theorem known_of_perm (kept : Kept p) {serials : List Nat} (query : Query)
    (moved : serials.Perm (p.queries.length :: p.serials)) :
    ∀ serial ∈ serials, serial < (p.queries ++ [query]).length := by
  intro serial place
  rw [List.length_append]
  rcases List.mem_cons.mp (moved.mem_iff.mp place) with rfl | old
  · exact Nat.lt_succ_self _
  · exact Nat.lt_succ_of_lt (kept.known serial old)

theorem respond (kept : Kept p) (query : Query) (content : Content) :
    Kept (p.respond query content) := by
  have moved : (p.respond query content).serials.Perm (p.queries.length :: p.serials) := by
    rw [Proxy.serials, Proxy.serials, Proxy.respond, List.map_append, List.append_assoc,
      List.append_assoc, List.append_assoc]
    exact List.perm_middle
  refine ⟨moved.nodup_iff.mpr kept.fresh_serial, kept.known_of_perm query moved, kept.ids,
    kept.timers, ?_, ?_, ?_⟩
  · exact fun entry inside => (kept.pending entry inside).append query
  · exact fun entry inside => (kept.retrying entry inside).append query
  · intro response inside
    rcases List.mem_append.mp inside with old | new
    · exact (kept.sent response old).append query
    · rw [List.mem_singleton.mp new]
      exact ⟨query, List.getElem?_concat_length, rfl, rfl⟩

theorem forward (kept : Kept p) (query : Query) {id : UInt16} (free : id ∉ p.ids) :
    Kept (p.forward query id) := by
  have moved : (p.forward query id).serials.Perm (p.queries.length :: p.serials) := by
    rw [Proxy.serials, Proxy.serials, Proxy.forward, List.map_append, List.append_assoc,
      List.append_assoc, List.append_assoc]
    exact (List.Perm.append_left _ List.perm_middle).trans List.perm_middle
  refine ⟨moved.nodup_iff.mpr kept.fresh_serial, kept.known_of_perm query moved, ?_, ?_, ?_, ?_, ?_⟩
  · rw [Proxy.ids, Proxy.forward, List.map_append]
    refine kept.ids.append (List.nodup_singleton id) ?_
    intro other inside new
    obtain rfl : other = id := List.mem_singleton.mp new
    exact free inside
  · rw [Proxy.forward, List.map_append, kept.timers]
    rfl
  · intro entry inside
    rcases List.mem_append.mp inside with old | new
    · exact (kept.pending entry old).append query
    · rw [List.mem_singleton.mp new]
      exact ⟨List.getElem?_concat_length, rfl⟩
  · exact fun entry inside => (kept.retrying entry inside).append query
  · exact fun response inside => (kept.sent response inside).append query

end Kept

/-! ## The backend's own answer -/

/-- What a response with an answer in it is made of: the backend has answered this very
query, and the answer is that one or the forwarder's to the same query. -/
def Derives (p : Proxy) (response : Response) : Prop :=
  ∀ answer, response.content = .nxdomain answer ∨ response.content = .relayed answer →
    ∃ reply ∈ p.answers, reply.serial = response.serial ∧
      (answer = reply.bytes ∨ (⟨response.serial, answer⟩ : Message) ∈ p.forwarderAnswers)

/-- An id on the wire is that of one query only, and every answer is its query's own. -/
structure Matched (p : Proxy) : Prop where
  forwarded : ∀ message ∈ p.forwarded, ∀ entry ∈ p.pendingQueries,
    entry.1 = readUInt16BE message.bytes → entry.2.serial = message.serial
  retrying : ∀ entry ∈ p.retrying, (⟨entry.1.serial, entry.2⟩ : Message) ∈ p.answers
  sent : ∀ response ∈ p.sent, Derives p response

/-- No message that the backend has still to answer carries the id that comes next. -/
def idUnspent : Admits := fun p inbound =>
  inbound = .forward → p.pendingQueries.length < maxPendingQueries →
    ∀ id, p.allocateQueryId = some id → ∀ message ∈ p.forwarded, readUInt16BE message.bytes ≠ id

theorem Derives.mono {p after : Proxy} {response : Response} (derives : Derives p response)
    (answers : p.answers ⊆ after.answers)
    (forwarderAnswers : p.forwarderAnswers ⊆ after.forwarderAnswers) :
    Derives after response := by
  intro answer made
  obtain ⟨reply, given, own, source⟩ := derives answer made
  exact ⟨reply, answers given, own, source.imp_right fun again => forwarderAnswers again⟩

theorem derives_of_answer {p : Proxy} {pending : Pending} {answer : Bytes}
    (source : ∃ reply ∈ p.answers, reply.serial = pending.serial ∧
      (answer = reply.bytes ∨ (⟨pending.serial, answer⟩ : Message) ∈ p.forwarderAnswers))
      (resolved : Verdict) :
    Derives p ⟨pending.serial, pending.client, pending.originalId, pending.clientRd,
      if resolved = .block then .nxdomain answer else .relayed answer⟩ := by
  intro other made
  obtain rfl : other = answer := by
    dsimp only at made
    split at made <;> rcases made with same | same <;> injection same <;> simp_all
  exact source

theorem derives_of_silent {p : Proxy} {response : Response}
    (silent : response.content = .blocked ∨ response.content = .servfail) : Derives p response := by
  intro answer made
  rcases silent with same | same <;> rcases made with other | other <;>
    rw [same] at other <;> cases other

namespace Matched

variable {p : Proxy}

theorem respond (matched : Matched p) (query : Query) {content : Content}
    (silent : content = .blocked ∨ content = .servfail) : Matched (p.respond query content) := by
  refine ⟨matched.forwarded, matched.retrying, ?_⟩
  intro response inside
  rcases List.mem_append.mp inside with old | new
  · exact matched.sent response old
  · rw [List.mem_singleton.mp new]
    exact derives_of_silent silent

theorem forward (matched : Matched p) (query : Query) {id : UInt16} (free : id ∉ p.ids)
    (unspent : ∀ message ∈ p.forwarded, readUInt16BE message.bytes ≠ id) :
    Matched (p.forward query id) := by
  refine ⟨?_, matched.retrying, matched.sent⟩
  intro message asked entry inside same
  rcases List.mem_append.mp asked with old | new <;> rcases List.mem_append.mp inside with was | now
  · exact matched.forwarded message old entry was same
  · rw [List.mem_singleton.mp now] at same
    exact absurd same.symm (unspent message old)
  · rw [List.mem_singleton.mp new, readUInt16BE_writeUInt16BE] at same
    exact absurd (same ▸ List.mem_map_of_mem was) free
  · rw [List.mem_singleton.mp new, List.mem_singleton.mp now]

theorem respond_pending (matched : Matched p) (id : UInt16) (timers : List (Nat × UInt16))
    {response : Response} (derives : Derives p response) :
    Matched { p.release id with timers := timers, sent := p.sent ++ [response] } := by
  refine ⟨?_, matched.retrying, ?_⟩
  · exact fun message asked entry inside => matched.forwarded message asked entry
      (List.mem_of_mem_filter inside)
  · intro other inside
    rcases List.mem_append.mp inside with old | new
    · exact matched.sent other old
    · rw [List.mem_singleton.mp new]
      exact derives

theorem ask_again (matched : Matched p) (id : UInt16) (timers : List (Nat × UInt16))
    {pending : Pending} {reply : Bytes} (given : (⟨pending.serial, reply⟩ : Message) ∈ p.answers) :
    Matched { p.release id with timers := timers, retrying := p.retrying ++
    [(pending, reply)] } := by
  refine ⟨?_, ?_, matched.sent⟩
  · exact fun message asked entry inside => matched.forwarded message asked entry
      (List.mem_of_mem_filter inside)
  · intro entry inside
    rcases List.mem_append.mp inside with old | new
    · exact matched.retrying entry old
    · rw [List.mem_singleton.mp new]
      exact given

theorem hear (matched : Matched p) {before after : List Message} {forwarded : Message}
    (asked : p.forwarded = before ++ forwarded :: after) (reply : Message) :
    Matched { p with forwarded := before ++ after, answers := p.answers ++ [reply] } := by
  refine ⟨?_, ?_, ?_⟩
  · intro message inside
    refine matched.forwarded message ?_
    rw [asked]
    exact List.Sublist.mem inside ((List.sublist_cons_self _ _).append_left _)
  · exact fun entry inside => List.mem_append_left _ (matched.retrying entry inside)
  · exact fun response inside => (matched.sent response inside).mono
      (List.subset_append_left _ _) (List.Subset.refl _)

theorem retried (matched : Matched p) {pending : Pending} {reply : Bytes}
    (waits : (pending, reply) ∈ p.retrying) (answer : Option Bytes) (resolved : Verdict) :
    Matched (p.retried pending reply answer resolved) := by
  have given := matched.retrying _ waits
  have left : ∀ entry ∈ p.retrying.filter (·.1.serial ≠ pending.serial),
      (⟨entry.1.serial, entry.2⟩ : Message) ∈ p.answers :=
    fun entry inside => matched.retrying entry (List.mem_of_mem_filter inside)
  cases answer with
  | none =>
    refine ⟨matched.forwarded, left, ?_⟩
    intro response inside
    rcases List.mem_append.mp inside with old | new
    · exact matched.sent response old
    · rw [List.mem_singleton.mp new]
      exact derives_of_answer ⟨_, given, rfl, .inl rfl⟩ resolved
  | some again =>
    refine ⟨matched.forwarded, left, ?_⟩
    intro response inside
    rcases List.mem_append.mp inside with old | new
    · exact (matched.sent response old).mono (List.Subset.refl _) (List.subset_append_left _ _)
    · rw [List.mem_singleton.mp new]
      refine derives_of_answer ?_ resolved
      exact ⟨_, given, rfl, .inr (List.mem_append_right _ List.mem_cons_self)⟩

end Matched

/-! ## Runs -/

/-- Each query is in one place, and nothing on the wire is taken for another's. -/
structure Inv (p : Proxy) : Prop where
  kept : Kept p
  matched : Matched p

theorem Inv.handleQuery {p : Proxy} (inv : Inv p) (query : Query) {inbound : Verdict}
    (unspent : idUnspent p inbound) : Inv (p.handleQuery query inbound) := by
  obtain ⟨kept, matched⟩ := inv
  unfold Proxy.handleQuery
  split_ifs with blocked full
  · exact ⟨kept.respond query _, matched.respond query (.inl rfl)⟩
  · exact ⟨kept.respond query _, matched.respond query (.inr rfl)⟩
  · split
    · exact ⟨kept.respond query _, matched.respond query (.inr rfl)⟩
    · rename_i id allocated
      have unused := scan_is_free allocated
      have free : id ∉ p.ids := of_decide_eq_false unused
      have forwards : inbound = .forward := by
        cases inbound with
        | forward => rfl
        | block => exact absurd rfl blocked
      exact ⟨kept.forward query free,
        matched.forward query free (unspent forwards (not_le.mp full) id allocated)⟩

theorem Inv.timeout {p : Proxy} (inv : Inv p) {serial : Nat} {id : UInt16}
    (armed : (serial, id) ∈ p.timers) : Inv (p.timeout serial id) := by
  obtain ⟨kept, matched⟩ := inv
  rw [kept.timers] at armed
  obtain ⟨⟨other, pending⟩, member, same⟩ := List.mem_map.mp armed
  obtain ⟨rfl, rfl⟩ := Prod.mk.inj same
  simp only [Proxy.timeout, kept.find_of_mem member]
  exact ⟨kept.respond_pending member .servfail,
    matched.respond_pending other _ (derives_of_silent (.inr rfl))⟩

theorem Inv.answer {p : Proxy} (inv : Inv p) {before after : List Message} {forwarded : Message}
    (asked : p.forwarded = before ++ forwarded :: after) {reply : Bytes}
    (sameId : readUInt16BE reply = readUInt16BE forwarded.bytes) (retry : Bool)
    (resolved : Verdict) :
    Inv (p.answer (before ++ after) ⟨forwarded.serial, reply⟩ retry resolved) := by
  have heard := inv.matched.hear asked ⟨forwarded.serial, reply⟩
  have kept : Kept { p with
      forwarded := before ++ after
      answers := p.answers ++ [(⟨forwarded.serial, reply⟩ : Message)] } :=
        inv.kept.congr rfl rfl rfl rfl rfl
  unfold Proxy.answer handleDnsmasqResponse
  dsimp only
  split
  · exact ⟨kept, heard⟩
  · rename_i pending found
    have member := find_eq_some found
    have own : pending.serial = forwarded.serial :=
      inv.matched.forwarded forwarded (by rw [asked]; simp) _ member sameId
    have given : (⟨pending.serial, reply⟩ : Message) ∈ p.answers ++
        [⟨forwarded.serial, reply⟩] := by
      rw [own]
      exact List.mem_append_right _ List.mem_cons_self
    split
    · exact ⟨kept.ask_again member reply, heard.ask_again _ _ given⟩
    · refine ⟨kept.respond_pending member _, heard.respond_pending _ _ ?_⟩
      refine derives_of_answer ?_ resolved
      exact ⟨_, given, rfl, .inl rfl⟩

theorem Inv.retried {p : Proxy} (inv : Inv p) {pending : Pending} {reply : Bytes}
    (waits : (pending, reply) ∈ p.retrying) (answer : Option Bytes) (resolved : Verdict) :
    Inv (p.retried pending reply answer resolved) := by
  refine ⟨?_, inv.matched.retried waits answer resolved⟩
  cases answer with
  | none => exact (inv.kept.respond_retrying waits _).congr rfl rfl rfl rfl rfl
  | some again => exact (inv.kept.respond_retrying waits _).congr rfl rfl rfl rfl rfl

theorem Step.inv {p after : Proxy} (step : Step idUnspent p after) (inv : Inv p) : Inv after := by
  cases step with
  | query query inbound unspent => exact inv.handleQuery query unspent
  | answered before later forwarded reply retry resolved asked sameId =>
    exact inv.answer asked sameId retry resolved
  | timedOut serial id armed => exact inv.timeout armed
  | retried pending reply answer resolved waits => exact inv.retried waits answer resolved

theorem inv_start : Inv {} :=
  ⟨⟨List.nodup_nil, by simp [serials], List.nodup_nil, rfl, by simp, by simp, by simp⟩,
    ⟨by simp, by simp, by simp⟩⟩

theorem Run.inv {p : Proxy} (run : Run idUnspent {} p) : Inv p := by
  induction run with
  | refl => exact inv_start
  | tail _ step inv => exact step.inv inv

/-- **While no id is given out again that the backend has still to answer under, each query
has one response at most, under its own id to its own client, with an answer only when the
backend has answered this very query, and a free id is found while there is one.** -/
theorem answers_never_cross {p : Proxy} (run : Run idUnspent {} p) :
    (p.sent.map Response.serial).Nodup ∧
    (∀ response ∈ p.sent, Addressed p.queries response ∧ Derives p response) ∧
    (p.pendingQueries.length < 65536 → ∃ id, p.allocateQueryId = some id ∧ id ∉ p.ids) := by
  obtain ⟨kept, matched⟩ := run.inv
  refine ⟨(List.nodup_append.mp (List.nodup_append.mp kept.serials).1).1, ?_, ?_⟩
  · exact fun response inside => ⟨kept.sent response inside, matched.sent response inside⟩
  · intro few
    exact scan_uint16_isSome (by rwa [ids, List.length_map]) _

/-- Three queries of three clients. -/
def sampleQuery (client : Char) : Query := ⟨[client.toNat.toUInt8, 0x34, 1, 0], ⟨[client], 5300, 0⟩⟩

/-- Two queries in flight, of which the second is answered first and the first times out. -/
def twoAsked : Proxy :=
  ((({} : Proxy).handleQuery (sampleQuery 'a') .forward).handleQuery
    (sampleQuery 'b') .forward).answer [⟨0, [0, 2, 1, 0]⟩] ⟨1, [0, 3, 0x81, 0]⟩ false .forward

/-- A third query, and then the answer to the first, which comes too late. -/
def sampleRun : Proxy :=
  ((twoAsked.timeout 0 2).handleQuery (sampleQuery 'c') .forward).answer [⟨2, [0, 4, 1, 0]⟩]
    ⟨0, [0, 2, 0x81, 0]⟩ false .forward

theorem idUnspent_of_next {p : Proxy} (next : UInt16) (given : p.allocateQueryId = some next)
    (unspent : ∀ message ∈ p.forwarded, readUInt16BE message.bytes ≠ next) (inbound : Verdict) :
    idUnspent p inbound := by
  intro _ _ id allocated
  rwa [← Option.some.inj (given.symm.trans allocated)]

theorem run_twoAsked : Run idUnspent {} twoAsked := by
  have first : Run idUnspent {} (({} : Proxy).handleQuery (sampleQuery 'a') .forward) :=
    .single (.query _ _ _ (idUnspent_of_next 2 (by decide) (by decide) _))
  have second := first.tail (.query _ (sampleQuery 'b') .forward
    (idUnspent_of_next 3 (by decide) (by decide) _))
  exact second.tail (.answered _ [⟨0, [0, 2, 1, 0]⟩] [] ⟨1, [0, 3, 1, 0]⟩ [0, 3, 0x81, 0]
    false .forward (by decide) (by decide))

theorem run_sampleRun : Run idUnspent {} sampleRun := by
  have timedOut := run_twoAsked.tail (.timedOut _ 0 2 (by decide))
  have third := timedOut.tail (.query _ (sampleQuery 'c') .forward
    (idUnspent_of_next 4 (by decide) (by decide) _))
  exact third.tail (.answered _ [] [⟨2, [0, 4, 1, 0]⟩] ⟨0, [0, 2, 1, 0]⟩ [0, 2, 0x81, 0]
    false .forward (by decide) (by decide))

theorem answers_never_cross_sample :
    sampleRun.sent = [⟨1, ⟨['b'], 5300, 0⟩, 0x6234, true, .relayed [0, 3, 0x81, 0]⟩,
      ⟨0, ⟨['a'], 5300, 0⟩, 0x6134, true, .servfail⟩] ∧
    (sampleRun.sent.map Response.serial).Nodup ∧
    ∀ response ∈ sampleRun.sent, Addressed sampleRun.queries response ∧
    Derives sampleRun response := by
  obtain ⟨once, own, -⟩ := answers_never_cross run_sampleRun
  exact ⟨by decide, once, own⟩

/-! ## No query is lost -/

/-- The places there are for a query, and how many are pending. -/
structure Placed (p : Proxy) : Prop where
  kept : Kept p
  every : p.sent.length + p.pendingQueries.length + p.retrying.length = p.queries.length
  bounded : p.pendingQueries.length ≤ maxPendingQueries

namespace Placed

variable {p : Proxy}

theorem release_length (placed : Placed p) {id : UInt16} {pending : Pending}
    (member : (id, pending) ∈ p.pendingQueries) :
    (p.release id).pendingQueries.length + 1 = p.pendingQueries.length := by
  have length := (placed.kept.release_perm member).1.length_eq
  simpa using length

theorem respond (placed : Placed p) (query : Query) (content : Content) :
    Placed (p.respond query content) := by
  refine ⟨placed.kept.respond query content, ?_, placed.bounded⟩
  have every := placed.every
  simp only [Proxy.respond, List.length_append, List.length_singleton]
  omega

theorem handleQuery (placed : Placed p) (query : Query) (inbound : Verdict) :
    Placed (p.handleQuery query inbound) := by
  unfold Proxy.handleQuery
  split_ifs with blocked full
  · exact placed.respond query _
  · exact placed.respond query _
  · split
    · exact placed.respond query _
    · rename_i id allocated
      have unused := scan_is_free allocated
      have every := placed.every
      refine ⟨placed.kept.forward query (of_decide_eq_false unused), ?_, ?_⟩
      · simp only [Proxy.forward, List.length_append, List.length_singleton]
        omega
      · simp only [Proxy.forward, List.length_append, List.length_singleton]
        omega

theorem step {admits : Admits} {after : Proxy} (placed : Placed p) (step : Step admits p after) :
    Placed after := by
  have every := placed.every
  have bounded := placed.bounded
  cases step with
  | query query inbound allowed => exact placed.handleQuery query inbound
  | answered before later forwarded reply retry resolved asked sameId =>
    have kept : Kept { p with
        forwarded := before ++ later
        answers := p.answers ++ [(⟨forwarded.serial, reply⟩ : Message)] } :=
          placed.kept.congr rfl rfl rfl rfl rfl
    unfold Proxy.answer handleDnsmasqResponse
    dsimp only
    split
    · exact ⟨kept, every, bounded⟩
    · rename_i pending found
      have member := find_eq_some found
      have left := placed.release_length member
      split
      · refine ⟨kept.ask_again member reply, ?_, ?_⟩ <;>
          simp only [release, List.length_append, List.length_singleton] at left ⊢ <;> omega
      · refine ⟨kept.respond_pending member _, ?_, ?_⟩ <;>
          simp only [release, deliverResponse, List.length_append,
            List.length_singleton] at left ⊢ <;> omega
  | timedOut serial id armed =>
    rw [placed.kept.timers] at armed
    obtain ⟨⟨other, pending⟩, member, same⟩ := List.mem_map.mp armed
    obtain ⟨rfl, rfl⟩ := Prod.mk.inj same
    have left := placed.release_length member
    simp only [Proxy.timeout, placed.kept.find_of_mem member]
    refine ⟨placed.kept.respond_pending member .servfail, ?_, ?_⟩ <;>
      simp only [release, List.length_append, List.length_singleton] at left ⊢ <;> omega
  | retried pending reply answer resolved waits =>
    have left := (Keyed.perm_filter_of_mem placed.kept.retrying_serials waits).length_eq
    rw [List.length_cons, List.length_map, List.length_map] at left
    dsimp only at left
    have kept (content : Content) := placed.kept.respond_retrying waits content
    cases answer with
    | none =>
      refine ⟨(kept _).congr rfl rfl rfl rfl rfl, ?_, bounded⟩
      simp only [Proxy.retried, deliverResponse, List.length_append, List.length_singleton]
      omega
    | some again =>
      refine ⟨(kept _).congr rfl rfl rfl rfl rfl, ?_, bounded⟩
      simp only [Proxy.retried, deliverResponse, List.length_append, List.length_singleton]
      omega

theorem perm (placed : Placed p) : p.serials.Perm (List.range p.queries.length) := by
  have inside : p.serials ⊆ List.range p.queries.length :=
    fun serial place => List.mem_range.mpr (placed.kept.known serial place)
  refine (List.subperm_of_subset placed.kept.serials inside).perm_of_length_le ?_
  rw [List.length_range, ← placed.every, serials, List.length_append, List.length_append,
    List.length_map, List.length_map, List.length_map]

end Placed

/-- Any query may come at any time. -/
def anyQuery : Admits := fun _ _ => True

/-- What an event leaves: a handler that throws has done all but send its response. -/
def outcome (p after : Proxy) (throws : Bool) : Proxy :=
  if throws then { after with sent := p.sent } else after

/-- The queries an event responds to. -/
def made (p after : Proxy) : List Nat := (after.sent.drop p.sent.length).map Response.serial

/-- A query whose handler throws before it has done anything with it. -/
def unread (p : Proxy) (query : Query) : Proxy := { p with queries := p.queries ++ [query] }

/-- A run in which handlers may throw, and the queries that have no response for it. A query
that is not forwarded for it, but is in the table, is one the backend never answers. -/
inductive Faulty (admits : Admits) : Proxy → List Nat → Prop where
  | start : Faulty admits {} []
  | step {p after : Proxy} {lost : List Nat} (before : Faulty admits p lost)
      (step : Step admits p after) (throws : Bool) : Faulty admits (p.outcome after throws)
      (lost ++ if throws then p.made after else [])
  | unread {p : Proxy} {lost : List Nat} (before : Faulty admits p lost) (query : Query) :
      Faulty admits (p.unread query) (lost ++ [p.queries.length])

theorem handleQuery_apart (p : Proxy) (query : Query) (inbound : Verdict) :
    ∃ made, (p.handleQuery query inbound).sent = p.sent ++ made ∧ ∀ sent,
      { p with sent := sent }.handleQuery query inbound =
        { p.handleQuery query inbound with sent := sent ++ made } := by
  have same (sent : List Response) : allocateQueryId { p with sent := sent } = p.allocateQueryId :=
    rfl
  unfold handleQuery
  simp only [same]
  split_ifs
  · exact ⟨_, rfl, fun _ => rfl⟩
  · exact ⟨_, rfl, fun _ => rfl⟩
  · cases p.allocateQueryId with
    | none => exact ⟨_, rfl, fun _ => rfl⟩
    | some id => exact ⟨[], (List.append_nil _).symm, fun sent => by rw [List.append_nil]; rfl⟩

theorem answer_apart (p : Proxy) (forwarded : List Message) (reply : Message) (retry : Bool)
    (resolved : Verdict) :
    ∃ made, (p.answer forwarded reply retry resolved).sent = p.sent ++ made ∧ ∀ sent,
      { p with sent := sent }.answer forwarded reply retry resolved =
        { p.answer forwarded reply retry resolved with sent := sent ++ made } := by
  unfold Proxy.answer handleDnsmasqResponse
  simp only [find]
  cases (p.pendingQueries.find? (·.1 = readUInt16BE reply.bytes)).map Prod.snd with
  | none => exact ⟨[], (List.append_nil _).symm, fun sent => by rw [List.append_nil]⟩
  | some pending =>
    cases retry with
    | false => exact ⟨_, rfl, fun _ => rfl⟩
    | true => exact ⟨[], (List.append_nil _).symm, fun sent => by rw [List.append_nil]; rfl⟩

theorem timeout_apart (p : Proxy) (serial : Nat) (id : UInt16) :
    ∃ made, (p.timeout serial id).sent = p.sent ++ made ∧ ∀ sent,
      { p with sent := sent }.timeout serial id = { p.timeout serial id with sent :=
      sent ++ made } := by
  unfold timeout
  simp only [find]
  cases (p.pendingQueries.find? (·.1 = id)).map Prod.snd with
  | none => exact ⟨[], (List.append_nil _).symm, fun sent => by rw [List.append_nil]⟩
  | some pending => exact ⟨_, rfl, fun _ => rfl⟩

/-- **No handler looks at what was sent**: the same events lead to the same state, whatever was. -/
theorem Step.apart {admits : Admits} {p after : Proxy} (step : Step admits p after) :
    ∃ made, after.sent = p.sent ++ made ∧
      ∀ sent, Step anyQuery { p with sent := sent } { after with sent := sent ++ made } := by
  cases step with
  | query query inbound allowed =>
    obtain ⟨made, own, same⟩ := p.handleQuery_apart query inbound
    exact ⟨made, own, fun sent => same sent ▸ .query _ query inbound trivial⟩
  | answered before later forwarded reply retry resolved asked sameId =>
    obtain ⟨made, own, same⟩ := p.answer_apart (before ++ later) ⟨forwarded.serial, reply⟩
      retry resolved
    exact ⟨made, own, fun sent => same sent ▸ .answered _ before later forwarded reply retry
      resolved asked sameId⟩
  | timedOut serial id armed =>
    obtain ⟨made, own, same⟩ := p.timeout_apart serial id
    exact ⟨made, own, fun sent => same sent ▸ .timedOut { p with sent := sent } serial id armed⟩
  | retried pending reply answer resolved waits =>
    cases answer with
    | none => exact ⟨_, rfl, fun sent => .retried { p with sent := sent } pending reply none
        resolved waits⟩
    | some again =>
      exact ⟨_, rfl, fun sent => .retried { p with sent := sent } pending reply (some again)
        resolved waits⟩

/-- **A run with throws is one without**, in which the responses that are missing were sent. -/
theorem Faulty.run {admits : Admits} {p : Proxy} {lost : List Nat}
    (faulty : Faulty admits p lost) :
    ∃ all, Run anyQuery {} { p with sent := all } ∧ p.sent ⊆ all ∧
      (all.map Response.serial).Perm (p.sent.map Response.serial ++ lost) := by
  induction faulty with
  | start => exact ⟨[], .refl, List.Subset.refl _, .refl _⟩
  | @step p after lost before step throws ih =>
    obtain ⟨all, run, inside, same⟩ := ih
    obtain ⟨made, own, apart⟩ := step.apart
    have responds : p.made after = made.map Response.serial := by
      rw [Proxy.made, own, List.drop_left]
    have more : ((all ++ made).map Response.serial).Perm
        (p.sent.map Response.serial ++ lost ++ made.map Response.serial) := by
      rw [List.map_append]
      exact same.append_right _
    have next := run.tail (apart all)
    refine ⟨all ++ made, ?_⟩
    cases throws with
    | true =>
      refine ⟨next, List.subset_append_of_subset_left made inside, ?_⟩
      simpa [outcome, responds] using more
    | false =>
      rw [List.append_assoc] at more
      have sent : p.sent ++ made ⊆ all ++ made := List.append_subset.mpr
        ⟨List.subset_append_of_subset_left made inside, List.subset_append_right all made⟩
      refine ⟨next, own ▸ sent, ?_⟩
      simpa [outcome, own] using more.trans (List.perm_append_comm.append_left _)
  | @unread p lost before query ih =>
    obtain ⟨all, run, inside, same⟩ := ih
    -- as if the query had been refused
    refine ⟨_, run.tail (.query _ query .block trivial),
      List.subset_append_of_subset_left _ inside, ?_⟩
    rw [List.map_append, ← List.append_assoc]
    exact same.append_right _

/-- **A query is lost by a throw only**, whatever becomes of the answers. Every query received
has had one response, to its own client, or is pending with a timer that will see to one, or
waits for the forwarder, or its handler threw; and the table never holds more than its limit. -/
theorem lost_by_a_throw_only {admits : Admits} {p : Proxy} {lost : List Nat}
    (run : Faulty admits p lost) :
    (p.sent.map Response.serial ++ lost ++ p.pendingQueries.map (·.2.serial) ++
        p.retrying.map (·.1.serial)).Perm (List.range p.queries.length) ∧
      (∀ response ∈ p.sent, Addressed p.queries response) ∧
      p.timers = p.pendingQueries.map (fun entry => (entry.2.serial, entry.1)) ∧
      p.pendingQueries.length ≤ maxPendingQueries := by
  obtain ⟨all, unfaulty, inside, same⟩ := run.run
  have placed : Placed { p with sent := all } := by
    generalize { p with sent := all } = q at unfaulty
    induction unfaulty with
    | refl => exact ⟨inv_start.kept, rfl, Nat.zero_le _⟩
    | tail _ step ih => exact ih.step step
  refine ⟨?_, ?_, placed.kept.timers, placed.bounded⟩
  · exact ((same.symm.append_right _).append_right _).trans placed.perm
  · exact fun response sent => placed.kept.sent response (inside sent)

theorem faulty_twoAsked :
    Faulty anyQuery ({ twoAsked with sent := [] }.unread (sampleQuery 'c')) [1, 2] := by
  have first : Faulty anyQuery _ [] :=
    Faulty.start.step (.query {} (sampleQuery 'a') .forward trivial) false
  have second : Faulty anyQuery _ [] :=
    first.step (.query _ (sampleQuery 'b') .forward trivial) false
  have answered := second.step (.answered _ [⟨0, [0, 2, 1, 0]⟩] [] ⟨1, [0, 3, 1, 0]⟩
    [0, 3, 0x81, 0] false .forward (by decide) (by decide)) true
  exact answered.unread (sampleQuery 'c')

/-- The first query is pending, the answer to the second is not sent, the third is not read. -/
theorem lost_by_a_throw_only_sample :
    twoAsked.pendingQueries.map (·.2.serial) = [0] ∧
    ([1, 2] ++ twoAsked.pendingQueries.map (·.2.serial) ++ twoAsked.retrying.map (·.1.serial) :
      List Nat).Perm (List.range 3) :=
  ⟨by decide, (lost_by_a_throw_only faulty_twoAsked).1⟩

/-! ## A late answer -/

/-- A query that the backend leaves until it times out. -/
def round (p : Proxy) (query : Query) : Proxy :=
  (p.handleQuery query .forward).timeout p.queries.length (p.nextQueryId + 1)

/-- Nothing is pending. -/
structure Idle (p : Proxy) : Prop where
  pending : p.pendingQueries = []
  timers : p.timers = []

theorem Idle.handleQuery {p : Proxy} (idle : Idle p) (query : Query) :
    p.handleQuery query .forward = p.forward query (p.nextQueryId + 1) := by
  have free : p.allocateQueryId = some (p.nextQueryId + 1) := by
    refine scan_of_free ?_ _
    simp [ids, idle.pending]
  have room : ¬ maxPendingQueries ≤ p.pendingQueries.length := by
    rw [idle.pending]
    decide
  rw [Proxy.handleQuery, if_neg (by decide), if_neg room, free]

theorem Idle.round_eq {p : Proxy} (idle : Idle p) (query : Query) :
    p.round query = { p with
      queries := p.queries ++ [query]
      nextQueryId := p.nextQueryId + 1
      forwarded := p.forwarded ++
        [⟨p.queries.length, writeUInt16BE (p.nextQueryId + 1) (withRecursionDesired query.message)⟩]
      sent := p.sent ++ [⟨p.queries.length, query.client, readUInt16BE query.message,
        asksRecursion query.message, .servfail⟩] } := by
  rw [round, idle.handleQuery]
  simp [forward, timeout, find, release, idle.pending, idle.timers]

theorem Idle.round {p : Proxy} (idle : Idle p) (query : Query) : Idle (p.round query) := by
  rw [idle.round_eq]
  exact ⟨idle.pending, idle.timers⟩

theorem Idle.run_round {p : Proxy} (idle : Idle p) (query : Query) :
    Run anyQuery p (p.round query) := by
  have asked : Run anyQuery p (p.handleQuery query .forward) := .single (.query _ _ _ trivial)
  refine asked.tail (.timedOut _ _ _ ?_)
  rw [idle.handleQuery]
  exact List.mem_append_right _ List.mem_cons_self

theorem Idle.rounds (query : Query) (count : Nat) {p : Proxy} (idle : Idle p) :
    ∃ after, Run anyQuery p after ∧ Idle after ∧ after.nextQueryId = p.nextQueryId +
      UInt16.ofNat count ∧ after.queries.length = p.queries.length + count ∧
      after.answers = p.answers ∧ ∃ more, after.forwarded = p.forwarded ++ more := by
  induction count with
  | zero => exact ⟨p, .refl, idle, by simp, rfl, rfl, [], by simp⟩
  | succ count ih =>
    obtain ⟨mid, run, still, next, length, answers, more, forwarded⟩ := ih
    refine ⟨mid.round query, run.trans (still.run_round query), still.round query, ?_⟩
    rw [still.round_eq]
    refine ⟨?_, ?_, answers, ?_⟩
    · rw [next, UInt16.ofNat_add, UInt16.add_assoc]
      rfl
    · rw [List.length_append, length]
      rfl
    · exact ⟨_, by rw [forwarded, List.append_assoc]⟩

theorem Idle.crosses {p : Proxy} (idle : Idle p) (query : Query) {old : Message}
    {more : List Message} (asked : p.forwarded = old :: more)
    (reused : readUInt16BE old.bytes = p.nextQueryId + 1) (reply : Bytes)
    (sameId : readUInt16BE reply = readUInt16BE old.bytes) :
    ∃ after, Run anyQuery p after ∧ after.answers = p.answers ++ [⟨old.serial, reply⟩] ∧
      ⟨p.queries.length, query.client, readUInt16BE query.message, asksRecursion query.message,
        .relayed reply⟩ ∈ after.sent := by
  have again : Run anyQuery p (p.handleQuery query .forward) := .single (.query _ _ _ trivial)
  rw [idle.handleQuery] at again
  have waiting : (p.forward query (p.nextQueryId + 1)).forwarded = [] ++ old :: (more ++
      [⟨p.queries.length, writeUInt16BE (p.nextQueryId + 1)
      (withRecursionDesired query.message)⟩]) := by
    rw [forward, asked]
    rfl
  refine ⟨_, again.tail (.answered _ _ _ _ reply false .forward waiting sameId), ?_, ?_⟩
  · simp [answer, handleDnsmasqResponse, find, forward, idle.pending, sameId, reused,
      deliverResponse, release]
  · simp [answer, handleDnsmasqResponse, find, forward, idle.pending, sameId, reused,
      deliverResponse]

/-- **A query that timed out, 65535 more that do, and the late answer to the first goes to
the client of the next.** -/
theorem late_answer_crosses : ∃ p, Run anyQuery {} p ∧ ∃ response ∈ p.sent,
    ¬ Derives p response := by
  have start : Idle ({} : Proxy) := ⟨rfl, rfl⟩
  let first : Query := ⟨[0x11, 0x11, 1, 0], ⟨['a'], 5300, 0⟩⟩
  let other : Query := ⟨[0x22, 0x22, 1, 0], ⟨['b'], 5301, 0⟩⟩
  obtain ⟨p, run, idle, next, length, answers, more, forwarded⟩ :=
    (start.round first).rounds first 65535
  rw [start.round_eq] at next length answers forwarded
  have asked : p.forwarded = ⟨0, [0, 2, 1, 0]⟩ :: more := forwarded
  have reused : readUInt16BE [0, 2, 1, 0] = p.nextQueryId + 1 := by
    rw [next]
    decide
  obtain ⟨after, late, given, response⟩ :=
    idle.crosses other asked reused [0, 2, 0x81, 0] rfl
  refine ⟨after, ((start.run_round first).trans run).trans late, _, response, ?_⟩
  intro derives
  obtain ⟨reply, member, own, -⟩ := derives _ (.inr rfl)
  rw [given, answers, List.nil_append, List.mem_singleton] at member
  rw [member, length] at own
  simp at own

end Proxy

end DnsProxy

end Cidrella
