import Cidrella.Lib.Ring
import Cidrella.Lib.Text

/-!
# The resolution feed

`utils/resolution-feed.js`: the last filtering decisions in a ring of `feedSize` slots, and
the events a poll gets. `resolutionSince_recordAll` says in closed form what a poll answers
after any sequence of decisions, and `feed_exact` what that means for one poll and for a
client that polls for as long as it likes, always from the number it was last given.

A poll that reads a slot nothing was written to would push `undefined` among the events and
throw in the summary, so an event is read as an option and a poll may fail. None does.
-/

set_option autoImplicit false

namespace Cidrella

namespace ResolutionFeed

/-- `FEED_SIZE`. -/
abbrev feedSize : Nat := 2000

/-- `SUMMARY_WINDOW_MS`. -/
def summaryWindowMs : Int := 60 * 1000

/-- `NAME_MAX`. -/
def nameMax : Nat := 253

/-- A JavaScript string that may be cut anywhere, by its UTF-16 units. -/
abbrev CodeUnits := List UInt16

variable {Point : Type}

/-- Where GeoIP puts an answer. -/
structure Destination (Point : Type) where
  country : Option Text
  point : Option Point

/-- What `recordResolution` is called with. A name that is not a string is `none`. -/
structure Decision (Point : Type) where
  kind : Text
  name : Option CodeUnits
  type : Option Text
  destination : Option (Destination Point)

/-- An entry of the ring. `atMs` is the source's `at`. -/
structure Event (Point : Type) where
  seq : Nat
  atMs : Int
  kind : Text
  name : CodeUnits
  type : Option Text
  country : Option Text
  point : Option Point

/-- `text || null`. -/
def orNull (text : Option Text) : Option Text := text.filter (· ≠ [])

/-- The event of a decision. -/
def Decision.event (decision : Decision Point) (now : Int) (seq : Nat) : Event Point where
  seq     := seq
  atMs    := now
  kind    := decision.kind
  name    := (decision.name.map (·.take nameMax)).getD []
  type    := orNull decision.type
  country := orNull (decision.destination.bind (·.country))
  point   := decision.destination.bind (·.point)

/-- `ring` and `seq`. -/
abbrev Feed (Point : Type) := Ring (Event Point) feedSize

/-- `recordResolution`. -/
def recordResolution (feed : Feed Point) (decision : Decision Point) (now : Int) : Feed Point :=
  feed.record (decision.event now)

/-! ## The summary -/

/-- `counts[key] = (counts[key] || 0) + 1`, which keeps the keys in the order they came. -/
def countUp (counts : List (Text × Nat)) (key : Text) : List (Text × Nat) :=
  match counts with
  | [] => [(key, 1)]
  | (other, n) :: rest => if other = key then (other, n + 1) :: rest else (other, n) ::
      countUp rest key

/-- `kinds` and `countries` while the ring is walked. -/
structure Tally where
  kinds : List (Text × Nat) := [("answer".toList, 0), ("geoip".toList, 0), ("blocklist".toList, 0)]
  countries : List (Text × Nat) := []

/-- One event counted. -/
def Tally.count (tally : Tally) (event : Event Point) : Tally where
  kinds := countUp tally.kinds event.kind
  countries :=
    match event.country with
    | some country => if event.kind = "answer".toList then countUp tally.countries country
        else tally.countries
    | none => tally.countries

/-- The loop over the slots, newest first, until an event is too old. An empty slot throws. -/
def tallySlots (now : Int) (tally : Tally) : List (Option (Event Point)) → Option Tally
  | [] => some tally
  | none :: _ => none
  | some event :: older =>
    if now - event.atMs > summaryWindowMs then some tally else tallySlots now
      (tally.count event) older

structure Summary where
  windowMs : Int
  kinds : List (Text × Nat)
  countries : Nat
  topCountries : List (Text × Nat)

/-- The summary of a tally. `localeCompare` is the order of the host's locale. -/
def Tally.summary (tally : Tally) (localeCompare : Text → Text → Ordering) : Summary where
  windowMs  := summaryWindowMs
  kinds     := tally.kinds
  countries := tally.countries.length
  topCountries :=
    (tally.countries.mergeSort fun a b =>
      b.2 < a.2 || (a.2 = b.2 && (localeCompare a.1 b.1).isLE)).take 10

/-! ## Polls -/

/-- What a poll answers. -/
structure Answer (Point : Type) where
  seq : Nat
  events : List (Option (Event Point))
  summary : Summary

/-- The oldest number still in the ring. -/
def oldest (feed : Feed Point) : Nat := max 1 (feed.seq + 1 - feedSize)

/-- A cursor past the end came from before a restart. -/
def after (feed : Feed Point) (since : Nat) : Nat := if feed.seq < since then 0 else since

/-- `from`: where the answer begins. `seq - limit + 1` counts only where it is positive. -/
def first (feed : Feed Point) (since limit : Nat) : Nat :=
  max (max (oldest feed) (after feed since + 1)) (feed.seq + 1 - limit)

/-- `resolutionSince`. -/
def resolutionSince (localeCompare : Text → Text → Ordering) (feed : Feed Point) (since limit : Nat)
    (now : Int) : Option (Answer Point) := do
  let tally ← tallySlots now {} (feed.window (oldest feed)).reverse
  return {
    seq     := feed.seq
    events  := feed.window (first feed since limit)
    summary := tally.summary localeCompare }

/-! ## After any decisions -/

/-- The feed after some decisions, each with the time it was recorded at. -/
def recordAll (calls : List (Decision Point × Int)) : Feed Point :=
  calls.foldl (fun feed call => recordResolution feed call.1 call.2) Ring.empty

/-- Every event there has been, oldest first. -/
def eventsOf (calls : List (Decision Point × Int)) : List (Event Point) :=
  calls.mapIdx fun i call => call.1.event call.2 (i + 1)

theorem recordAll_append_singleton (calls : List (Decision Point × Int))
    (call : Decision Point × Int) :
    recordAll (calls ++ [call]) = recordResolution (recordAll calls) call.1 call.2 := by
  simp [recordAll]

theorem eventsOf_append_singleton (calls : List (Decision Point × Int))
    (call : Decision Point × Int) :
    eventsOf (calls ++ [call]) = eventsOf calls ++ [call.1.event call.2 (calls.length + 1)] := by
  simp [eventsOf]

@[simp] theorem length_eventsOf (calls : List (Decision Point × Int)) :
    (eventsOf calls).length = calls.length := by
  simp [eventsOf]

theorem seq_eventsOf (calls : List (Decision Point × Int)) :
    (eventsOf calls).map (·.seq) = List.range' 1 calls.length := by
  apply List.ext_getElem
  · simp
  · intro i _ _
    simp [eventsOf, Decision.event, Nat.add_comm]

/-- **The ring keeps the last `feedSize` events.** -/
theorem keeps_recordAll (calls : List (Decision Point × Int)) :
    (recordAll calls).Keeps (eventsOf calls) := by
  induction calls using List.reverseRecOn with
  | nil => exact Ring.keeps_empty
  | append_singleton calls call ih =>
    rw [recordAll_append_singleton, eventsOf_append_singleton, ← length_eventsOf calls]
    exact ih.record (call.1.event call.2)

theorem seq_recordAll (calls : List (Decision Point × Int)) :
    (recordAll calls).seq = calls.length := by
  rw [(keeps_recordAll calls).seq_eq, length_eventsOf]

/-- The tally of events that are all there. -/
def tallyEvents (now : Int) (tally : Tally) (events : List (Event Point)) : Tally :=
  (events.takeWhile fun event => now - event.atMs ≤ summaryWindowMs).foldl Tally.count tally

theorem tallySlots_map_some (now : Int) (tally : Tally) (events : List (Event Point)) :
    tallySlots now tally (events.map some) = some (tallyEvents now tally events) := by
  induction events generalizing tally with
  | nil => rfl
  | cons event older ih =>
    rw [List.map_cons, tallySlots, tallyEvents, List.takeWhile_cons]
    by_cases recent : now - event.atMs ≤ summaryWindowMs
    · rw [if_neg (not_lt.mpr recent), ih, if_pos (by simpa using recent), List.foldl_cons]
      rfl
    · rw [if_pos (not_le.mp recent), if_neg (by simpa using recent)]
      rfl

/-- **What a poll answers**: the last events from `first` on, and the count of the recent ones
among those the ring still holds. -/
theorem resolutionSince_recordAll (localeCompare : Text → Text → Ordering)
    (calls : List (Decision Point × Int)) (since limit : Nat) (now : Int) :
    resolutionSince localeCompare (recordAll calls) since limit now =
      some {
        seq     := calls.length
        events  := ((eventsOf calls).drop (first (recordAll calls) since limit - 1)).map some
        summary :=
          (tallyEvents now {}
            ((eventsOf calls).drop (oldest (recordAll calls) - 1)).reverse).summary
            localeCompare } := by
  have keeps := keeps_recordAll calls
  have kept : (recordAll calls).seq < oldest (recordAll calls) + feedSize := by
    unfold oldest
    omega
  have later : oldest (recordAll calls) ≤ first (recordAll calls) since limit := by
    unfold first
    omega
  have positive : 0 < oldest (recordAll calls) := by
    unfold oldest
    omega
  rw [resolutionSince, keeps.window_eq positive kept, keeps.window_eq (by omega) (by omega),
    seq_recordAll, ← List.map_reverse, tallySlots_map_some]
  rfl

/-! ## The events of a poll -/

theorem drop_eventsOf (calls : List (Decision Point × Int)) (count : Nat) :
    (eventsOf calls).drop count = (eventsOf calls).filter fun event => count < event.seq := by
  induction calls using List.reverseRecOn with
  | nil => simp [eventsOf]
  | append_singleton calls call ih =>
    rw [eventsOf_append_singleton, List.drop_append, List.filter_append, ih, length_eventsOf]
    congr 1
    obtain past | before := Nat.lt_or_ge calls.length count
    · rw [List.drop_of_length_le (Nat.sub_pos_of_lt past), List.filter_cons_of_neg, List.filter_nil]
      simpa [Decision.event] using past
    · rw [Nat.sub_eq_zero_of_le before, List.drop_zero, List.filter_cons_of_pos, List.filter_nil]
      simpa [Decision.event] using before

/-- Everything up to this number is left out of an answer. -/
def floor (seq since limit : Nat) : Nat := max (if seq < since then 0 else since)
    (seq - min limit feedSize)

theorem first_recordAll (calls : List (Decision Point × Int)) (since limit : Nat) :
    first (recordAll calls) since limit - 1 = floor calls.length since limit := by
  simp only [first, oldest, after, floor, seq_recordAll]
  omega

/-- The events a poll gets. -/
def newer (calls : List (Decision Point × Int)) (since limit : Nat) : List (Event Point) :=
  (eventsOf calls).filter fun event => floor calls.length since limit < event.seq

/-- **Every poll is answered**, with the last number and the events beyond the floor. -/
theorem poll_answered (localeCompare : Text → Text → Ordering) (calls : List (Decision Point × Int))
    (since limit : Nat) (now : Int) :
    ∃ answer : Answer Point, resolutionSince localeCompare (recordAll calls) since limit now =
      some answer ∧ answer.seq = calls.length ∧
      answer.events = (newer calls since limit).map some := by
  refine ⟨_, resolutionSince_recordAll localeCompare calls since limit now, rfl, ?_⟩
  rw [first_recordAll, drop_eventsOf, newer]

theorem ascending_eventsOf (calls : List (Decision Point × Int)) :
    (eventsOf calls).Pairwise fun event later => event.seq < later.seq := by
  have numbers : ((eventsOf calls).map (·.seq)).Pairwise (· < ·) := by
    rw [seq_eventsOf]
    exact List.pairwise_lt_range'
  exact List.pairwise_map.mp numbers

theorem seq_le_of_mem_eventsOf {calls : List (Decision Point × Int)} {event : Event Point}
    (member : event ∈ eventsOf calls) : event.seq ≤ calls.length := by
  have numbered : event.seq ∈ (eventsOf calls).map (·.seq) := List.mem_map_of_mem member
  rw [seq_eventsOf, List.mem_range'_1] at numbered
  omega

/-! ## A client -/

/-- What happens while a client is connected: the proxy records, the client polls. -/
inductive Action (Point : Type) where
  | record (decision : Decision Point) (now : Int)
  | poll (limit : Nat) (now : Int)

/-- A poll that was answered: its cursor, its limit and the number it was given. -/
structure Poll where
  cursor : Nat
  limit : Nat
  seq : Nat

/-- A feed and a client, which keeps the last number it was given as its cursor. -/
structure Session (Point : Type) where
  feed : Feed Point := Ring.empty
  cursor : Nat := 0
  received : List (Option (Event Point)) := []
  polls : List Poll := []

/-- One step of a session. -/
def Session.step (localeCompare : Text → Text → Ordering) (session : Session Point) :
    Action Point → Option (Session Point)
  | .record decision now => some { session with feed := recordResolution session.feed decision now }
  | .poll limit now => do
      let answer ← resolutionSince localeCompare session.feed session.cursor limit now
      return {
        feed     := session.feed
        cursor   := answer.seq
        received := session.received ++ answer.events
        polls    := session.polls ++ [⟨session.cursor, limit, answer.seq⟩] }

/-- A session from its start. -/
def run (localeCompare : Text → Text → Ordering) (actions : List (Action Point)) :
    Option (Session Point) :=
  actions.foldlM (Session.step localeCompare) {}

/-- What was recorded during some actions. -/
def decisions (actions : List (Action Point)) : List (Decision Point × Int) :=
  actions.filterMap fun
    | .record decision now => some (decision, now)
    | .poll _ _ => none

/-- A poll passed an event over, and the event was older than the newest it could have had. -/
def Poll.PassesOver (poll : Poll) (event : Event Point) : Prop :=
  poll.cursor < event.seq ∧ event.seq ≤ poll.seq - min poll.limit feedSize

/-- What holds of a session after some calls. -/
structure Session.Follows (session : Session Point) (calls : List (Decision Point × Int))
    (events : List (Event Point)) : Prop where
  feed_eq : session.feed = recordAll calls
  behind : session.cursor ≤ calls.length
  received_eq : session.received = events.map some
  ascending : events.Pairwise fun event later => event.seq < later.seq
  recorded : ∀ event ∈ events, event ∈ eventsOf calls ∧ event.seq ≤ session.cursor
  missed : ∀ event ∈ eventsOf calls, event.seq ≤ session.cursor →
    event ∈ events ∨ ∃ poll ∈ session.polls, poll.PassesOver event

theorem Session.Follows.record {session : Session Point} {calls : List (Decision Point × Int)}
    {events : List (Event Point)} (follows : session.Follows calls events)
    (decision : Decision Point) (now : Int) :
    Session.Follows { session with feed := recordResolution session.feed decision now }
      (calls ++ [(decision, now)]) events where
  feed_eq := by rw [recordAll_append_singleton, follows.feed_eq]
  behind := by
    rw [List.length_append]
    exact follows.behind.trans (Nat.le_add_right _ _)
  received_eq := follows.received_eq
  ascending := follows.ascending
  recorded event member := by
    rw [eventsOf_append_singleton]
    exact ⟨List.mem_append_left _ (follows.recorded event member).1,
      (follows.recorded event member).2⟩
  missed event member within := by
    rw [eventsOf_append_singleton] at member
    obtain before | new := List.mem_append.mp member
    · exact follows.missed event before within
    · -- the event just recorded is beyond the cursor
      rw [List.mem_singleton.mp new] at within
      exact absurd follows.behind (Nat.not_le_of_lt within)

/-- **A poll delivers every event beyond the cursor but those it passes over.** -/
theorem Session.Follows.poll {session : Session Point} {calls : List (Decision Point × Int)}
    {events : List (Event Point)} (follows : session.Follows calls events) (limit : Nat) :
    Session.Follows {
        feed     := session.feed
        cursor   := calls.length
        received := session.received ++ (newer calls session.cursor limit).map some
        polls    := session.polls ++ [⟨session.cursor, limit, calls.length⟩] }
      calls (events ++ newer calls session.cursor limit) := by
  have floor_eq : floor calls.length session.cursor limit =
      max session.cursor (calls.length - min limit feedSize) := by
    rw [floor, if_neg (Nat.not_lt_of_le follows.behind)]
  refine ⟨follows.feed_eq, le_refl _, by rw [follows.received_eq, List.map_append], ?_, ?_, ?_⟩
  · refine List.pairwise_append.mpr ⟨follows.ascending, (ascending_eventsOf calls).filter _, ?_⟩
    intro event old later new
    have oldBelow := (follows.recorded event old).2
    have newAbove := of_decide_eq_true (List.mem_filter.mp new).2
    omega
  · intro event member
    obtain old | new := List.mem_append.mp member
    · exact ⟨(follows.recorded event old).1, (follows.recorded event old).2.trans follows.behind⟩
    · have listed := (List.mem_filter.mp new).1
      exact ⟨listed, seq_le_of_mem_eventsOf listed⟩
  · intro event listed _
    obtain new | old := Nat.lt_or_ge session.cursor event.seq
    · obtain delivered | tooOld := Nat.lt_or_ge (calls.length - min limit feedSize) event.seq
      · refine .inl (List.mem_append_right _ (List.mem_filter.mpr ⟨listed, decide_eq_true ?_⟩))
        omega
      · exact .inr ⟨_, List.mem_append_right _ (List.mem_singleton_self _), new, tooOld⟩
    · obtain delivered | ⟨poll, answered, passed⟩ := follows.missed event listed old
      · exact .inl (List.mem_append_left _ delivered)
      · exact .inr ⟨poll, List.mem_append_left _ answered, passed⟩

theorem run_follows (localeCompare : Text → Text → Ordering) (actions : List (Action Point)) :
    ∃ session events,
      run localeCompare actions = some session ∧ session.Follows (decisions actions) events := by
  induction actions using List.reverseRecOn with
  | nil =>
    refine ⟨{}, [], rfl, rfl, le_refl 0, rfl, .nil, nofun, ?_⟩
    intro event member
    cases member
  | append_singleton actions action ih =>
    obtain ⟨session, events, reached, follows⟩ := ih
    have next : run localeCompare (actions ++ [action]) = session.step localeCompare action := by
      rw [run, List.foldlM_append, ← run, reached]
      exact bind_pure (session.step localeCompare action)
    rw [next, decisions, List.filterMap_append]
    cases action with
    | record decision now => exact ⟨_, events, rfl, follows.record decision now⟩
    | poll limit now =>
      obtain ⟨answer, answered, given, got⟩ :=
        poll_answered localeCompare (decisions actions) session.cursor limit now
      have polled := follows.poll limit
      rw [← got, ← given] at polled
      rw [List.filterMap_cons_none rfl, List.filterMap_nil, List.append_nil]
      refine ⟨_, _, ?_, polled⟩
      rw [Session.step, follows.feed_eq, answered]
      rfl

/-- **The feed shows each event once.** The ring holds the last `feedSize` events, a poll
gets those beyond its cursor among the newest `limit`, and a client never gets an event
twice and misses only what was older than that when it polled. -/
theorem feed_exact (localeCompare : Text → Text → Ordering) :
    (∀ calls : List (Decision Point × Int),
      (eventsOf calls).map (·.seq) = List.range' 1 calls.length ∧
      (∀ number, 0 < number → number ≤ calls.length → calls.length < number + feedSize →
        (recordAll calls).slot number = (eventsOf calls)[number - 1]?) ∧
      ∀ (since limit : Nat) (now : Int), ∃ answer : Answer Point, ∃ events : List (Event Point),
        resolutionSince localeCompare (recordAll calls) since limit now = some answer ∧
        answer.seq = calls.length ∧ answer.events = events.map some ∧
        (events.Pairwise fun event later => event.seq < later.seq) ∧
        ∀ event, event ∈ events ↔ event ∈ eventsOf calls ∧
          max (if calls.length < since then 0 else since) (calls.length - min limit feedSize) <
          event.seq) ∧
    ∀ actions : List (Action Point), ∃ session : Session Point, ∃ events : List (Event Point),
      run localeCompare actions = some session ∧ session.received = events.map some ∧
      (events.Pairwise fun event later => event.seq < later.seq) ∧
      (∀ event ∈ events, event ∈ eventsOf (decisions actions)) ∧
      ∀ event ∈ eventsOf (decisions actions), event.seq ≤ session.cursor →
        event ∈ events ∨ ∃ poll ∈ session.polls, poll.PassesOver event := by
  refine ⟨fun calls =>
      ⟨seq_eventsOf calls, fun number positive within near => ?_, fun since limit now => ?_⟩,
    fun actions => ?_⟩
  · rw [← seq_recordAll calls] at within near
    exact (keeps_recordAll calls).kept number positive within near
  · obtain ⟨answer, answered, given, got⟩ := poll_answered localeCompare calls since limit now
    refine ⟨answer, _, answered, given, got, (ascending_eventsOf calls).filter _, fun event => ?_⟩
    rw [newer, List.mem_filter, decide_eq_true_eq, floor]
  · obtain ⟨session, events, reached, follows⟩ := run_follows localeCompare actions
    exact ⟨session, events, reached, follows.received_eq, follows.ascending,
      fun event member => (follows.recorded event member).1, follows.missed⟩

end ResolutionFeed

end Cidrella
