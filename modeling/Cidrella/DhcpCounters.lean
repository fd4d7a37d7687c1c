import Cidrella.Network

/-!
# DHCP messages counted from totals

`keaPacketCounters` of `backends/kea/leases.js`, and `counterDelta` and `dhcpCounterCounts` of
`utils/metrics-aggregator.js`. Each daemon counts since it started; a reading asks one after
the other and adds up what they say. A total that went down is taken for a restart, and all of
it for new.

The total of two daemons is not the total of one. Where it went down because one of them was
restarted, what the other had already counted is counted again, and that is made up for by the
messages the restart lost or it is not (`counterDelta_le_iff`). A run whose readings all make
up for it never reports more messages than there were (`reported_le_handled`), and a run without
a restart always reports what there was.
-/

set_option autoImplicit false

namespace Cidrella

namespace DhcpCounters

/-- Messages from clients and messages to them. -/
inductive Direction where
  | received
  | sent
  deriving DecidableEq

/-- `{ received, sent }`. -/
structure Totals where
  received : Nat := 0
  sent : Nat := 0
  deriving DecidableEq, Repr

/-- `{ dhcpClientMsgs, dhcpServerMsgs }`. -/
structure Counts where
  dhcpClientMsgs : Nat := 0
  dhcpServerMsgs : Nat := 0
  deriving DecidableEq, Repr

def Direction.total : Direction → Totals → Nat
  | .received => Totals.received
  | .sent => Totals.sent

def Direction.count : Direction → Counts → Nat
  | .received => Counts.dhcpClientMsgs
  | .sent => Counts.dhcpServerMsgs

def Totals.bump (totals : Totals) : Direction → Totals
  | .received => { totals with received := totals.received + 1 }
  | .sent => { totals with sent := totals.sent + 1 }

def Counts.add (left right : Counts) : Counts where
  dhcpClientMsgs := left.dhcpClientMsgs + right.dhcpClientMsgs
  dhcpServerMsgs := left.dhcpServerMsgs + right.dhcpServerMsgs

/-- A daemon: what it has counted since it started, what it has handled since the beginning,
and how often it was restarted. Only the first is reported. -/
structure Daemon where
  counted : Totals := {}
  handled : Totals := {}
  restarts : Nat := 0
  deriving DecidableEq, Repr

def Daemon.message (daemon : Daemon) (direction : Direction) : Daemon :=
  { daemon with
    counted := daemon.counted.bump direction
    handled := daemon.handled.bump direction }

def Daemon.restart (daemon : Daemon) : Daemon :=
  { daemon with
    counted  := {}
    restarts := daemon.restarts + 1 }

/-- `keaPacketCounters`, for what the two daemons say when they are asked. -/
def keaPacketCounters (dhcp4 dhcp6 : Daemon) : Totals where
  received := 0 + dhcp4.counted.received + dhcp6.counted.received
  sent     := 0 + dhcp4.counted.sent + dhcp6.counted.sent

/-- `counterDelta`. -/
def counterDelta (last : Option Totals) (current : Totals) : Counts :=
  match last with
  | none => {}
  | some last =>
    let delta := fun key : Totals → Nat => if key last ≤ key current then key current - key last
        else key current
    ⟨delta Totals.received, delta Totals.sent⟩

/-- The daemons, the aggregator, the sum of the counts it reported, and what the readings that
did not fail found, the latest first. -/
structure Metrics where
  dhcp4 : Daemon := {}
  dhcp6 : Daemon := {}
  /-- what the first daemon answered to the reading under way -/
  asked : Option Daemon := none
  lastDhcpCounters : Option Totals := none
  reported : Counts := {}
  readings : List (Daemon × Daemon) := []
  deriving DecidableEq, Repr

/-- What can happen. A reading asks the first daemon, then the second, or it fails. -/
inductive Event where
  | message (family : Family) (direction : Direction)
  | restart (family : Family)
  | ask
  | answer
  | fail
  deriving DecidableEq

/-- `dhcpCounterCounts`, for a reading that did not fail. -/
def dhcpCounterCounts (m : Metrics) (dhcp4 dhcp6 : Daemon) : Metrics :=
  let current := keaPacketCounters dhcp4 dhcp6
  { m with
    asked            := none
    lastDhcpCounters := some current
    reported         := m.reported.add (counterDelta m.lastDhcpCounters current)
    readings         := (dhcp4, dhcp6) :: m.readings }

def apply (m : Metrics) : Event → Metrics
  | .message .v4 direction => { m with dhcp4 := m.dhcp4.message direction }
  | .message .v6 direction => { m with dhcp6 := m.dhcp6.message direction }
  | .restart .v4 => { m with dhcp4 := m.dhcp4.restart }
  | .restart .v6 => { m with dhcp6 := m.dhcp6.restart }
  | .ask => { m with asked := some m.dhcp4 }
  | .answer =>
    match m.asked with
    | none => m
    | some dhcp4 => dhcpCounterCounts m dhcp4 m.dhcp6
  | .fail => { m with asked := none }

/-- A history from the beginning. -/
def run (events : List Event) : Metrics := events.foldl apply {}

/-! ## What a daemon does between two readings -/

/-- What can be said of a daemon and of the same daemon later. -/
structure Since (before now : Daemon) : Prop where
  restarts : before.restarts ≤ now.restarts
  handled : ∀ k : Direction, k.total before.handled ≤ k.total now.handled
  kept : before.restarts = now.restarts → ∀ k : Direction,
    k.total now.counted + k.total before.handled = k.total before.counted + k.total now.handled
  restarted : before.restarts < now.restarts → ∀ k : Direction,
    k.total now.counted + k.total before.handled ≤ k.total now.handled

section

variable {before now : Daemon}

theorem Since.refl (daemon : Daemon) : Since daemon daemon where
  restarts := le_refl _
  handled _ := le_refl _
  kept _ _ := rfl
  restarted more := absurd more (lt_irrefl _)

theorem total_bump (k direction : Direction) (totals : Totals) :
    k.total (totals.bump direction) = k.total totals + if k = direction then 1 else 0 := by
  cases k <;> cases direction <;> rfl

theorem Since.message (since : Since before now) (direction : Direction) :
    Since before (now.message direction) where
  restarts := since.restarts
  handled k := by
    have := since.handled k
    rw [Daemon.message, total_bump]
    omega
  kept same k := by
    have := since.kept same k
    rw [Daemon.message, total_bump, total_bump]
    omega
  restarted more k := by
    have := since.restarted more k
    rw [Daemon.message, total_bump, total_bump]
    omega

theorem Since.restart (since : Since before now) : Since before now.restart where
  restarts := since.restarts.trans (Nat.le_succ _)
  handled := since.handled
  kept same := by
    have := since.restarts
    simp only [Daemon.restart] at same
    omega
  restarted _ k := by
    have := since.handled k
    have zero : k.total now.restart.counted = 0 := by cases k <;> rfl
    rw [zero, Nat.zero_add]
    exact this

end

/-! ## One reading -/

/-- The messages both daemons had handled at a reading. -/
def handled (k : Direction) (reading : Daemon × Daemon) : Nat :=
  k.total reading.1.handled + k.total reading.2.handled

/-- What a daemon handled since a reading and does not count any more. -/
def lost (k : Direction) (before now : Daemon) : Nat :=
  k.total now.handled - k.total before.handled - k.total now.counted

theorem total_keaPacketCounters (k : Direction) (dhcp4 dhcp6 : Daemon) :
    k.total (keaPacketCounters dhcp4 dhcp6) = k.total dhcp4.counted + k.total dhcp6.counted := by
  cases k <;> simp [Direction.total, keaPacketCounters]

theorem count_counterDelta (k : Direction) (last current : Totals) :
    k.count (counterDelta (some last) current) =
      if k.total last ≤ k.total current then k.total current - k.total last
      else k.total current := by
  cases k <;> rfl

theorem count_add (k : Direction) (left right : Counts) :
    k.count (left.add right) = k.count left + k.count right := by
  cases k <;> rfl

/-- Where a total went down, what a daemon that was not restarted had counted before is at most
what the other one lost. -/
def Covered (k : Direction) (last : Daemon × Daemon) (dhcp4 dhcp6 : Daemon) : Prop :=
  k.total (keaPacketCounters dhcp4 dhcp6) < k.total (keaPacketCounters last.1 last.2) →
    (dhcp4.restarts = last.1.restarts → k.total last.1.counted ≤ lost k last.2 dhcp6) ∧
      (dhcp6.restarts = last.2.restarts → k.total last.2.counted ≤ lost k last.1 dhcp4)

instance (k : Direction) (last : Daemon × Daemon) (dhcp4 dhcp6 : Daemon) :
    Decidable (Covered k last dhcp4 dhcp6) :=
  inferInstanceAs (Decidable (_ → _))

section

variable {last : Daemon × Daemon} {dhcp4 dhcp6 : Daemon} {k : Direction}

/-- **A reading counts no message twice exactly when what it counts again is made up for.** -/
theorem counterDelta_le_iff (since4 : Since last.1 dhcp4) (since6 : Since last.2 dhcp6) :
    k.count (counterDelta (some (keaPacketCounters last.1 last.2)) (keaPacketCounters dhcp4 dhcp6))
        + handled k last ≤ handled k (dhcp4, dhcp6) ↔ Covered k last dhcp4 dhcp6 := by
  have more4 := since4.handled k
  have more6 := since6.handled k
  have kept4 := since4.kept
  have kept6 := since6.kept
  have new4 := since4.restarted
  have new6 := since6.restarted
  have order4 := since4.restarts
  have order6 := since6.restarts
  rw [count_counterDelta, Covered, lost, lost, handled, handled]
  simp only [total_keaPacketCounters]
  rcases Nat.eq_or_lt_of_le order4 with same4 | later4
  · have sum4 := kept4 same4 k
    rcases Nat.eq_or_lt_of_le order6 with same6 | later6
    · have sum6 := kept6 same6 k
      split <;> omega
    · have sum6 := new6 later6 k
      split <;> omega
  · have sum4 := new4 later4 k
    rcases Nat.eq_or_lt_of_le order6 with same6 | later6
    · have sum6 := kept6 same6 k
      split <;> omega
    · have sum6 := new6 later6 k
      split <;> omega

theorem counterDelta_eq (since4 : Since last.1 dhcp4) (since6 : Since last.2 dhcp6)
    (same4 : last.1.restarts = dhcp4.restarts) (same6 : last.2.restarts = dhcp6.restarts) :
    k.count (counterDelta (some (keaPacketCounters last.1 last.2)) (keaPacketCounters dhcp4 dhcp6))
      + handled k last = handled k (dhcp4, dhcp6) := by
  have more4 := since4.handled k
  have more6 := since6.handled k
  have sum4 := since4.kept same4 k
  have sum6 := since6.kept same6 k
  rw [count_counterDelta, handled, handled]
  simp only [total_keaPacketCounters]
  split <;> omega

end

/-! ## Histories -/

/-- The messages handled between the first and the last reading. -/
def handledBetween (k : Direction) (m : Metrics) : Nat :=
  match m.readings.head?, m.readings.getLast? with
  | some last, some first => handled k last - handled k first
  | _, _ => 0

/-- No daemon was restarted between the first and the last reading. -/
def NoRestart (m : Metrics) : Prop :=
  ∀ last ∈ m.readings.head?, ∀ first ∈ m.readings.getLast?,
    first.1.restarts = last.1.restarts ∧ first.2.restarts = last.2.restarts

/-- The reading that is answered now, after another one, counts no message twice. -/
def CoveredNow (m : Metrics) : Prop :=
  ∀ dhcp4 ∈ m.asked, ∀ last ∈ m.readings.head?, ∀ k, Covered k last dhcp4 m.dhcp6

/-- What holds of every history: the aggregator has the last reading, and the daemons are those
that were read, some time later. -/
structure Consistent (m : Metrics) : Prop where
  last : m.lastDhcpCounters = m.readings.head?.map fun r => keaPacketCounters r.1 r.2
  empty : m.readings = [] → ∀ k : Direction, k.count m.reported = 0
  asked : ∀ dhcp4 ∈ m.asked, Since dhcp4 m.dhcp4
  since : ∀ r ∈ m.readings.head?, Since r.1 m.dhcp4 ∧ Since r.2 m.dhcp6 ∧ ∀ dhcp4 ∈ m.asked,
    Since r.1 dhcp4
  order : ∀ last ∈ m.readings.head?, ∀ first ∈ m.readings.getLast?,
    first.1.restarts ≤ last.1.restarts ∧ first.2.restarts ≤ last.2.restarts ∧
      ∀ k, handled k first ≤ handled k last
  exact : NoRestart m → ∀ k : Direction, ∀ last ∈ m.readings.head?, ∀ first ∈ m.readings.getLast?,
    k.count m.reported + handled k first = handled k last

/-- What holds as long as the readings count no message twice. -/
def Bounded (m : Metrics) : Prop :=
  ∀ k : Direction, ∀ last ∈ m.readings.head?, ∀ first ∈ m.readings.getLast?,
    k.count m.reported + handled k first ≤ handled k last

section

variable {m : Metrics}

theorem Consistent.message (held : Consistent m) (family : Family) (direction : Direction) :
    Consistent (apply m (.message family direction)) := by
  cases family with
  | v4 => exact { held with
      asked := fun d member => (held.asked d member).message direction
      since := fun r member =>
        let ⟨since4, since6, sinceAsked⟩ := held.since r member
        ⟨since4.message direction, since6, sinceAsked⟩ }
  | v6 => exact { held with
      since := fun r member =>
        let ⟨since4, since6, sinceAsked⟩ := held.since r member
        ⟨since4, since6.message direction, sinceAsked⟩ }

theorem Consistent.restart (held : Consistent m) (family : Family) :
    Consistent (apply m (.restart family)) := by
  cases family with
  | v4 => exact { held with
      asked := fun d member => (held.asked d member).restart
      since := fun r member =>
        let ⟨since4, since6, sinceAsked⟩ := held.since r member
        ⟨since4.restart, since6, sinceAsked⟩ }
  | v6 => exact { held with
      since := fun r member =>
        let ⟨since4, since6, sinceAsked⟩ := held.since r member
        ⟨since4, since6.restart, sinceAsked⟩ }

theorem Consistent.ask (held : Consistent m) : Consistent (apply m .ask) := { held with
  asked := fun d member => by
    obtain rfl := Option.some.inj member
    exact Since.refl _
  since := fun r member => by
    obtain ⟨since4, since6, -⟩ := held.since r member
    refine ⟨since4, since6, fun d asked => ?_⟩
    obtain rfl := Option.some.inj asked
    exact since4 }

theorem Consistent.fail (held : Consistent m) : Consistent (apply m .fail) := { held with
  asked := nofun
  since := fun r member =>
    let ⟨since4, since6, _⟩ := held.since r member
    ⟨since4, since6, nofun⟩ }

theorem reported_first {dhcp4 : Daemon} (held : Consistent m) (empty : m.readings = [])
    (k : Direction) :
    k.count (dhcpCounterCounts m dhcp4 m.dhcp6).reported = 0 := by
  have none : m.lastDhcpCounters = none := by rw [held.last, empty]; rfl
  have before := held.empty empty k
  simp only [dhcpCounterCounts, none]
  rw [count_add, before]
  cases k <;> rfl

theorem reported_later {dhcp4 : Daemon} {r : Daemon × Daemon} {rest : List (Daemon × Daemon)}
    (held : Consistent m) (readings : m.readings = r :: rest) (k : Direction) :
    k.count (dhcpCounterCounts m dhcp4 m.dhcp6).reported = k.count m.reported +
      k.count (counterDelta (some (keaPacketCounters r.1 r.2))
      (keaPacketCounters dhcp4 m.dhcp6)) := by
  have before :
      m.lastDhcpCounters = some (keaPacketCounters r.1 r.2) := by rw [held.last, readings]; rfl
  simp only [dhcpCounterCounts, before]
  rw [count_add]

theorem first_of_later {dhcp4 : Daemon} {r first : Daemon × Daemon} {rest : List (Daemon × Daemon)}
    (readings : m.readings = r :: rest)
    (isFirst : first ∈ (dhcpCounterCounts m dhcp4 m.dhcp6).readings.getLast?) :
    m.readings.getLast? = some first := by
  simp only [dhcpCounterCounts, readings, List.getLast?_cons_cons] at isFirst
  rw [readings]
  exact isFirst

theorem Consistent.answer (held : Consistent m) {dhcp4 : Daemon} (asked : m.asked = some dhcp4) :
    Consistent (dhcpCounterCounts m dhcp4 m.dhcp6) := by
  have sinceAsked := held.asked dhcp4 asked
  refine ⟨rfl, nofun, nofun, fun r member => ?_, fun last isLast first isFirst => ?_,
    fun calm k last isLast first isFirst => ?_⟩
  · obtain rfl := Option.some.inj member
    exact ⟨sinceAsked, Since.refl _, nofun⟩
  · obtain rfl := Option.some.inj isLast
    cases readings : m.readings with
    | nil =>
      simp only [dhcpCounterCounts, readings] at isFirst
      obtain rfl := Option.some.inj isFirst
      exact ⟨le_refl _, le_refl _, fun k => le_refl _⟩
    | cons r rest =>
      have head : m.readings.head? = some r := by rw [readings]; rfl
      have isFirst' := first_of_later readings isFirst
      obtain ⟨-, since6, since4⟩ := held.since r head
      obtain ⟨before4, before6, before⟩ := held.order r head first isFirst'
      refine ⟨before4.trans (since4 dhcp4 asked).restarts, before6.trans since6.restarts,
        fun k => ?_⟩
      exact (before k).trans (Nat.add_le_add ((since4 dhcp4 asked).handled k) (since6.handled k))
  · obtain rfl := Option.some.inj isLast
    cases readings : m.readings with
    | nil =>
      rw [reported_first held readings]
      simp only [dhcpCounterCounts, readings] at isFirst
      obtain rfl := Option.some.inj isFirst
      exact Nat.zero_add _
    | cons r rest =>
      have head : m.readings.head? = some r := by rw [readings]; rfl
      have isFirst' := first_of_later readings isFirst
      obtain ⟨-, since6, since4⟩ := held.since r head
      obtain ⟨before4, before6, -⟩ := held.order r head first isFirst'
      obtain ⟨calm4, calm6⟩ := calm _ rfl first isFirst
      have later4 := (since4 dhcp4 asked).restarts
      have later6 := since6.restarts
      -- no restart from the first reading to this one is none before and none after the last
      have earlier : NoRestart m := by
        intro last' isLast' first' isFirst''
        rw [head] at isLast'
        rw [isFirst'] at isFirst''
        obtain rfl := Option.some.inj isLast'
        obtain rfl := Option.some.inj isFirst''
        simp only at calm4 calm6
        omega
      have sum := held.exact earlier k r head first isFirst'
      have one := counterDelta_eq (k := k) (since4 dhcp4 asked) since6
        (by simp only at calm4; omega) (by simp only at calm6; omega)
      rw [reported_later held readings]
      omega

/-- **Every event keeps it.** -/
theorem Consistent.apply (held : Consistent m) (event : Event) : Consistent (apply m event) := by
  cases event with
  | message family direction => exact held.message family direction
  | restart family => exact held.restart family
  | ask => exact held.ask
  | answer =>
    rw [DhcpCounters.apply]
    split
    · exact held
    · rename_i dhcp4 asked
      exact held.answer asked
  | fail => exact held.fail

theorem Bounded.answer (held : Consistent m) (bounded : Bounded m) {dhcp4 : Daemon}
    (asked : m.asked = some dhcp4) (covered : CoveredNow m) :
    Bounded (dhcpCounterCounts m dhcp4 m.dhcp6) := by
  intro k last isLast first isFirst
  obtain rfl := Option.some.inj isLast
  cases readings : m.readings with
  | nil =>
    rw [reported_first held readings]
    simp only [dhcpCounterCounts, readings] at isFirst
    obtain rfl := Option.some.inj isFirst
    exact (Nat.zero_add _).le
  | cons r rest =>
    have head : m.readings.head? = some r := by rw [readings]; rfl
    have isFirst' := first_of_later readings isFirst
    obtain ⟨-, since6, since4⟩ := held.since r head
    have sum := bounded k r head first isFirst'
    have one := (counterDelta_le_iff (since4 dhcp4 asked) since6).mpr (covered dhcp4 asked r head k)
    rw [reported_later held readings]
    omega

theorem Bounded.apply (held : Consistent m) (bounded : Bounded m) (event : Event)
    (covered : event = .answer → CoveredNow m) : Bounded (apply m event) := by
  cases event with
  | message family direction => cases family <;> exact bounded
  | restart family => cases family <;> exact bounded
  | ask => exact bounded
  | answer =>
    rw [DhcpCounters.apply]
    split
    · exact bounded
    · rename_i dhcp4 asked
      exact bounded.answer held asked (covered rfl)
  | fail => exact bounded

end

theorem run_concat (events : List Event) (event : Event) : run (events ++ [event]) =
    apply (run events) event := by
  rw [run, List.foldl_append]
  rfl

theorem consistent_run (events : List Event) : Consistent (run events) := by
  induction events using List.reverseRecOn with
  | nil => exact ⟨rfl, fun _ k => by cases k <;> rfl, nofun, nofun, nofun, nofun⟩
  | append_singleton events event ih =>
    rw [run_concat]
    exact ih.apply event

/-- Every answer of a history counts no message twice. -/
def CoveredRun (events : List Event) : Prop :=
  ∀ n < events.length, events[n]? = some .answer → CoveredNow (run (events.take n))

theorem bounded_run {events : List Event} (covered : CoveredRun events) : Bounded (run events) := by
  induction events using List.reverseRecOn with
  | nil => exact nofun
  | append_singleton events event ih =>
    have longer : (events ++ [event]).length = events.length + 1 := by simp
    have earlier : CoveredRun events := by
      intro n inside answer
      have now := covered n (by omega)
      rw [List.getElem?_append_left inside, List.take_append_of_le_length
        (Nat.le_of_lt inside)] at now
      exact now answer
    rw [run_concat]
    refine (ih earlier).apply (consistent_run events) event fun answer => ?_
    have now := covered events.length (by omega)
    rw [List.getElem?_concat_length, List.take_left] at now
    exact now (congrArg some answer)

/-- **Exactly the messages there were**, in every history without a restart, and **no more than
there were** in every one whose readings make up for what they count again. -/
theorem reported_le_handled (events : List Event) (k : Direction) :
    (CoveredRun events → k.count (run events).reported ≤ handledBetween k (run events)) ∧
      (NoRestart (run events) → k.count (run events).reported = handledBetween k (run events)) := by
  have held := consistent_run events
  have bounded : CoveredRun events → Bounded (run events) := bounded_run
  generalize run events = m at held bounded
  rw [handledBetween]
  cases readings : m.readings with
  | nil =>
    rw [held.empty readings k]
    exact ⟨fun _ => Nat.zero_le _, fun _ => rfl⟩
  | cons last rest =>
    have isLast : last ∈ m.readings.head? := by rw [readings]; rfl
    obtain ⟨first, isFirst⟩ : ∃ first, (last :: rest).getLast? = some first :=
      ⟨_, List.getLast?_eq_some_getLast (List.cons_ne_nil _ _)⟩
    have isFirst' : first ∈ m.readings.getLast? := by rw [readings]; exact isFirst
    simp only [List.head?_cons, isFirst]
    refine ⟨fun covered => ?_, fun calm => ?_⟩
    · have most := bounded covered k last isLast first isFirst'
      omega
    · have all := held.exact calm k last isLast first isFirst'
      omega

instance (m : Metrics) : Decidable (CoveredNow m) :=
  decidable_of_iff (∀ dhcp4 ∈ m.asked.toList, ∀ last ∈ m.readings.head?.toList,
      Covered .received last dhcp4 m.dhcp6 ∧ Covered .sent last dhcp4 m.dhcp6) <| by
    simp only [Option.mem_toList]
    refine forall_congr' fun dhcp4 => imp_congr_right fun _ => forall_congr' fun last =>
      imp_congr_right fun _ => ?_
    exact ⟨fun both k => by cases k; exacts [both.1, both.2], fun all => ⟨all _, all _⟩⟩

instance (events : List Event) : Decidable (CoveredRun events) :=
  inferInstanceAs (Decidable (∀ n < _, _ → _))

/-- Two messages to the first daemon and one to the second before the baseline, and then a message
and a restart of the first. -/
def quietRestart : List Event :=
  [.message .v4 .received, .message .v4 .received, .message .v6 .received, .ask, .answer,
    .message .v4 .received, .restart .v4, .ask, .answer]

theorem reported_le_handled_quietRestart :
    Direction.received.count (run quietRestart).reported ≤ handledBetween .received
    (run quietRestart) :=
  (reported_le_handled quietRestart .received).1 (by decide)

/-- What the second daemon had counted before a restart of the first is counted again. -/
theorem restart_counts_again :
    ¬ ∀ (events : List Event) (k : Direction),
      k.count (run events).reported ≤ handledBetween k (run events) ∧
        (NoRestart (run events) → k.count (run events).reported = handledBetween k (run events)) :=
        fun all =>
  absurd (all [.message .v4 .received, .message .v6 .received, .ask, .answer, .restart .v4,
    .ask, .answer] .received).1 (by decide)

end DhcpCounters

end Cidrella
