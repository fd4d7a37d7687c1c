import Cidrella.Lib.Keyed
import Cidrella.LeaseNames

/-!
# How long a lapsed lease is kept

`replaceLeases` of `models/dhcp-lease.js` on the rows of `dhcp_leases` as they are stored, with
the texts of their expiries. A lease that the backend no longer holds stays, expired, for an
hour. Its expiry is set to the present once, at the first list without it, and from then on
the hour runs.

Whether a row is active SQLite decides; whether its hour is up, JavaScript. The two read the
same text, and `leases_bounded` needs that they read the same time. A text that JavaScript
cannot read stays for good (`unread_expiry_is_kept`).
-/

set_option autoImplicit false

namespace Cidrella

open Address DnsNames

namespace LeaseTable

/-! ## Times as texts -/

/-- What reads and writes times as texts: `Date.parse`, which gives milliseconds, SQLite's
`datetime`, here the second it stands for, and the text of `datetime('now')` in a second. The
texts of SQLite are in the order of their seconds. -/
structure TimeTexts where
  dateParse : Text → Option Int
  datetime : Text → Option Int
  datetimeNow : Int → Text

/-- `'infinite'`. -/
def infinite : Text := "infinite".toList

/-- What `leaseExpiryMs` gives. -/
inductive ExpiryMs where
  | infinity
  | nan
  | at (ms : Int)
  deriving DecidableEq, Repr

/-- `/(?:Z|[+-]\d\d:\d\d)$/`. -/
def endsInZone (raw : Text) : Bool :=
  raw.getLast? = some 'Z' ||
    match raw.drop (raw.length - 6) with
    | [sign, a, b, ':', c, d] => (sign = '+' || sign = '-') && [a, b, c, d].all Char.isDigit
    | _ => false

/-- `raw.replace(' ', 'T')`. -/
def replaceSpace : Text → Text
  | [] => []
  | c :: rest => if c = ' ' then 'T' :: rest else c :: replaceSpace rest

/-- `leaseExpiryMs`. -/
def leaseExpiryMs (times : TimeTexts) (expiresAt : Text) : ExpiryMs :=
  if expiresAt = infinite then .infinity
  else
    let raw := trim expiresAt
    if raw = [] then .nan
    else
      let zoned := if 'T' ∈ raw || endsInZone raw then raw else replaceSpace raw ++ ['Z']
      match times.dateParse zoned with
      | none => .nan
      | some ms => .at ms

/-- `isLeaseActive`. -/
def isLeaseActive (times : TimeTexts) (now : Int) (expiresAt : Text) : Bool :=
  match leaseExpiryMs times expiresAt with
  | .infinity => true
  | .nan => false
  | .at ms => now ≤ ms

/-- The second of a time in milliseconds. -/
def second (ms : Int) : Int := ms / 1000

/-- `datetime(expiresAt) > datetime('now')`. -/
def isLater (times : TimeTexts) (now : Int) (expiresAt : Text) : Bool :=
  (times.datetime expiresAt).any fun expiry => second now < expiry

/-- `activeLeaseSql`. -/
def activeLease (times : TimeTexts) (now : Int) (expiresAt : Text) : Bool :=
  expiresAt = infinite || isLater times now expiresAt

/-! ## The table -/

/-- A network, if any, and an address. -/
abbrev LeaseKey := Option Nat × Text

/-- A row of `dhcp_leases`. -/
structure LeaseRow where
  ipAddress : Text
  macAddress : Option Text := none
  hostname : Option Text := none
  clientId : Option Text := none
  expiresAt : Text
  subnetId : Option Nat
  lastSeen : Text
  dhcpVersion : Family := .v4
  duid : Option Text := none
  iaid : Option Nat := none
  deriving DecidableEq, Repr

/-- A lease of a list. -/
structure GivenLease where
  ip : Text
  mac : Option Text := none
  hostname : Option Text := none
  clientId : Option Text := none
  expiresAt : Text
  subnetId : Option Nat
  dhcpVersion : Option Family := none
  duid : Option Text := none
  iaid : Option Nat := none
  deriving DecidableEq, Repr

/-- `${subnet_id}|${ip_address}` of a row. -/
def LeaseRow.key (row : LeaseRow) : LeaseKey := (row.subnetId, row.ipAddress)

/-- `${subnetId}|${ip}` of a lease. -/
def GivenLease.key (lease : GivenLease) : LeaseKey := (lease.subnetId, lease.ip)

/-- A call of `replaceLeases`: when, with which list, and the addresses of the enabled
reservations. -/
structure LeaseCall where
  now : Int
  leases : List GivenLease
  reserved : List LeaseKey := []
  deriving DecidableEq, Repr

/-- `OFFLINE_RETIREMENT_MS`. -/
def offlineRetirementMs : Int := 3600000

/-- `currentKeys`. -/
def LeaseCall.currentKeys (call : LeaseCall) : List LeaseKey := call.leases.map GivenLease.key

/-- `previous`. -/
def previousLeases (rows : List LeaseRow) : List LeaseRow := Keyed.asMap LeaseRow.key rows

/-- `clientOf`. -/
def clientOf (mac duid : Option Text) : Text :=
  toLowerCase (((truthy duid).or (truthy mac)).getD [])

/-- A lease with what its history depends on. -/
structure ObservedLease where
  lease : GivenLease
  newLease : Bool
  observedActivity : Bool
  deriving DecidableEq, Repr

/-- One of `observedLeases`. -/
def observeLease (times : TimeTexts) (now : Int) (rows : List LeaseRow) (lease : GivenLease) :
    ObservedLease :=
  match Keyed.latest LeaseRow.key rows lease.key with
  | none => ⟨lease, true, true⟩
  | some old =>
    let newLease := clientOf old.macAddress old.duid ≠ clientOf lease.mac lease.duid ||
      !isLeaseActive times now old.expiresAt
    ⟨lease, newLease, newLease || old.expiresAt ≠ lease.expiresAt⟩

/-- The row of a lease of the list. -/
def storedRow (times : TimeTexts) (now : Int) (lease : GivenLease) : LeaseRow where
  ipAddress := lease.ip
  macAddress := truthy lease.mac
  hostname := lease.hostname
  clientId := lease.clientId
  expiresAt := lease.expiresAt
  subnetId := lease.subnetId
  lastSeen := times.datetimeNow (second now)
  dhcpVersion := lease.dhcpVersion.getD .v4
  duid := truthy lease.duid
  iaid := lease.iaid

/-- Whether a row that the list has no lease for is kept: comparing with `NaN` is false. -/
def isKept (times : TimeTexts) (call : LeaseCall) (old : LeaseRow) : Bool :=
  old.key ∉ call.currentKeys && old.key ∉ call.reserved &&
    match leaseExpiryMs times old.expiresAt with
    | .infinity => true
    | .nan => true
    | .at ms => !(ms < call.now - offlineRetirementMs)

/-- `retainExpired`. -/
def retainExpired (times : TimeTexts) (now : Int) (old : LeaseRow) : LeaseRow :=
  { old with
    expiresAt :=
      if old.expiresAt = infinite || isLater times now old.expiresAt then times.datetimeNow
        (second now)
      else old.expiresAt }

/-- The rows that do not come from the list. -/
def retained (times : TimeTexts) (call : LeaseCall) (rows : List LeaseRow) : List LeaseRow :=
  ((previousLeases rows).filter (isKept times call)).map (retainExpired times call.now)

/-- `replaceLeases`: the rows, and the leases as they are observed afterwards. -/
def replaceLeases (times : TimeTexts) (call : LeaseCall) (rows : List LeaseRow) :
    List LeaseRow × List ObservedLease :=
  let observed := call.leases.map (observeLease times call.now rows)
  (observed.map (fun lease => storedRow times call.now lease.lease) ++ retained times call rows,
    observed)

/-- A run of calls. A call that throws changes nothing, so the calls of a run return. -/
def run (times : TimeTexts) (rows : List LeaseRow) (calls : List LeaseCall) : List LeaseRow :=
  calls.foldl (fun rows call => (replaceLeases times call rows).1) rows

/-! ## What is read alike -/

/-- The text of `datetime('now')` in a second is read back, by SQLite and by JavaScript. -/
structure ReadsBack (times : TimeTexts) (sec : Int) : Prop where
  finite : times.datetimeNow sec ≠ infinite
  sql : times.datetime (times.datetimeNow sec) = some sec
  js : leaseExpiryMs times (times.datetimeNow sec) = .at (1000 * sec)

/-- An expiry that is infinite or a time that both read, in the same second. -/
def Readable (times : TimeTexts) (expiresAt : Text) : Prop :=
  expiresAt = infinite ∨
    ∃ ms, leaseExpiryMs times expiresAt = .at ms ∧ times.datetime expiresAt = some (second ms)

section Step

variable {times : TimeTexts} {call : LeaseCall} {rows : List LeaseRow} {row old : LeaseRow}
    {key : LeaseKey}

theorem replaceLeases_rows : (replaceLeases times call rows).1 =
    call.leases.map (storedRow times call.now) ++ retained times call rows := by
  rw [replaceLeases, List.map_map]
  refine congrArg (· ++ retained times call rows) (List.map_congr_left fun lease _ => ?_)
  rw [Function.comp_apply, observeLease]
  split <;> rfl

theorem mem_retained : row ∈ retained times call rows ↔ ∃ old,
    Keyed.latest LeaseRow.key rows old.key = some old ∧ isKept times call old = true ∧
    retainExpired times call.now old = row := by
  rw [retained, List.mem_map]
  simp only [List.mem_filter, previousLeases, Keyed.mem_asMap, and_assoc]

theorem key_retainExpired (times : TimeTexts) (now : Int) (old : LeaseRow) :
    (retainExpired times now old).key = old.key := rfl

theorem nodup_retained (times : TimeTexts) (call : LeaseCall) (rows : List LeaseRow) :
    ((retained times call rows).map LeaseRow.key).Nodup := by
  rw [retained, List.map_map]
  exact (Keyed.nodup_asMap LeaseRow.key rows).sublist (List.filter_sublist.map _)

theorem isKept_iff : isKept times call old = true ↔ old.key ∉ call.currentKeys ∧
    old.key ∉ call.reserved ∧ ∀ ms, leaseExpiryMs times old.expiresAt = .at ms →
    call.now ≤ ms + offlineRetirementMs := by
  rw [isKept]
  cases leaseExpiryMs times old.expiresAt <;> simp [and_assoc]

theorem exists_of_absent (absent : key ∉ call.currentKeys)
    (member : row ∈ (replaceLeases times call rows).1) (named : row.key = key) :
    row ∈ retained times call rows := by
  rw [replaceLeases_rows, List.mem_append] at member
  rcases member with stored | kept
  · obtain ⟨lease, listed, rfl⟩ := List.mem_map.mp stored
    exact absurd (List.mem_map.mpr ⟨lease, listed, named⟩) absent
  · exact kept

theorem inactive_retainExpired {now later : Int} (back : ReadsBack times (second now))
    (ordered : now ≤ later) :
    activeLease times later (retainExpired times now old).expiresAt = false := by
  have forward : second now ≤ second later := Int.ediv_le_ediv (by decide) ordered
  rw [activeLease, Bool.or_eq_false_iff, decide_eq_false_iff_not, retainExpired]
  dsimp only
  split
  · refine ⟨back.finite, ?_⟩
    rw [isLater, back.sql, Option.any_some, decide_eq_false_iff_not]
    omega
  · rename_i past
    rw [Bool.or_eq_true, decide_eq_true_eq, not_or] at past
    refine ⟨past.1, ?_⟩
    rw [isLater]
    cases read : times.datetime old.expiresAt with
    | none => rfl
    | some expiry =>
      have notYet := past.2
      rw [isLater, read, Option.any_some, decide_eq_true_eq] at notYet
      rw [Option.any_some, decide_eq_false_iff_not]
      omega

/-- **An expiry is rewritten once**: a list after the first without the lease leaves it. -/
theorem retainExpired_twice {now later : Int} (back : ReadsBack times (second now))
    (ordered : now ≤ later) :
    retainExpired times later (retainExpired times now old) = retainExpired times now old := by
  have inactive := @inactive_retainExpired times old now later back ordered
  rw [activeLease] at inactive
  rw [retainExpired, if_neg (by rw [inactive]; decide)]

end Step

/-! ## Runs -/

/-- When a lease is lapsed: at its expiry, or at the first list without it when that comes in an
earlier second. -/
def lapse (first : Int) : ExpiryMs → Int
  | .infinity => first
  | .nan => first
  | .at ms => if second first < second ms then first else ms

/-- The time that the expiry of a lapsed lease lies behind `t`. -/
def behind (t first : Int) (expiry : ExpiryMs) : Int := max 0 (lapse first expiry - t)

/-- What holds after the last call of a run: its active leases and no others are active, there is
one row beside the list for each address, and a row that no list since `t` has a lease for is
gone an hour after its expiry. -/
structure Bounded (times : TimeTexts) (rows : List LeaseRow) (calls : List LeaseCall)
    (call : LeaseCall) :
    Prop where
  active : (run times rows (calls ++ [call])).filter
    (fun row => activeLease times call.now row.expiresAt) = (call.leases.filter fun lease =>
    activeLease times call.now lease.expiresAt).map (storedRow times call.now)
  outside : ∃ others, run times rows (calls ++ [call]) = call.leases.map
    (storedRow times call.now) ++ others ∧ (others.map LeaseRow.key).Nodup ∧ ∀ row ∈ others,
    row.key ∉ call.currentKeys
  lapsed : ∀ before first rest, calls ++ [call] = before ++ first :: rest → ∀ t ≤ first.now, ∀ key,
    (∀ later ∈ first :: rest, key ∉ later.currentKeys) →
      ∀ row ∈ run times rows (calls ++ [call]), row.key = key →
        ∃ old, Keyed.latest LeaseRow.key (run times rows before) key = some old ∧
          call.now ≤ t + offlineRetirementMs + behind t first.now
          (leaseExpiryMs times old.expiresAt)

section Run

variable {times : TimeTexts} {rows : List LeaseRow} {calls rest : List LeaseCall}
  {call first : LeaseCall} {row old : LeaseRow} {key : LeaseKey}

theorem run_append (times : TimeTexts) (rows : List LeaseRow) (before after : List LeaseCall) :
    run times rows (before ++ after) = run times (run times rows before) after := List.foldl_append

theorem run_concat (times : TimeTexts) (rows : List LeaseRow) (calls : List LeaseCall)
    (call : LeaseCall) :
    run times rows (calls ++ [call]) = (replaceLeases times call (run times rows calls)).1 := by
  rw [run_append]
  rfl

theorem readable_retainExpired (back : ReadsBack times (second call.now))
    (read : Readable times old.expiresAt) :
    Readable times (retainExpired times call.now old).expiresAt := by
  rw [retainExpired]
  dsimp only
  split
  · refine .inr ⟨_, back.js, ?_⟩
    have same : second (1000 * second call.now) = second call.now :=
      Int.mul_ediv_cancel_left _ (by decide)
    rw [back.sql, same]
  · exact read

/-- **What is stored stays readable.** -/
theorem readable_run (clock : ∀ call ∈ calls, ReadsBack times (second call.now))
    (stored : ∀ row ∈ rows, Readable times row.expiresAt)
    (given : ∀ call ∈ calls, ∀ lease ∈ call.leases, Readable times lease.expiresAt) :
    ∀ row ∈ run times rows calls, Readable times row.expiresAt := by
  induction calls using List.reverseRecOn with
  | nil => exact stored
  | append_singleton calls call ih =>
    intro row member
    rw [run_concat, replaceLeases_rows, List.mem_append] at member
    have last : call ∈ calls ++ [call] := List.mem_append_right _ (List.mem_singleton_self call)
    rcases member with fresh | kept
    · obtain ⟨lease, listed, rfl⟩ := List.mem_map.mp fresh
      exact given call last lease listed
    · obtain ⟨old, latest, -, rfl⟩ := mem_retained.mp kept
      refine readable_retainExpired (clock call last)
        (ih (fun other listed => ?_) (fun other listed => ?_) old (Keyed.of_latest latest).1)
      · exact clock other (List.mem_append_left _ listed)
      · exact given other (List.mem_append_left _ listed)

theorem exists_lapsed (back : ReadsBack times (second first.now))
    (read : Readable times old.expiresAt) :
    ∃ ms, leaseExpiryMs times (retainExpired times first.now old).expiresAt = .at ms ∧
      ms ≤ lapse first.now (leaseExpiryMs times old.expiresAt) := by
  have start : 1000 * second first.now ≤ first.now := Int.mul_ediv_self_le (by decide)
  rw [retainExpired]
  dsimp only
  rcases read with isInfinite | ⟨ms, js, sql⟩
  · rw [isInfinite, decide_eq_true rfl, Bool.true_or, if_pos rfl]
    exact ⟨_, back.js, start⟩
  · rw [isLater, sql, Option.any_some, js, lapse]
    have finite : old.expiresAt ≠ infinite := fun isInfinite => by
      rw [isInfinite, leaseExpiryMs, if_pos rfl] at js
      cases js
    rw [decide_eq_false finite, Bool.false_or]
    by_cases later : second first.now < second ms
    · rw [decide_eq_true later, if_pos rfl, if_pos later]
      exact ⟨_, back.js, start⟩
    · rw [decide_eq_false later, if_neg (by decide), if_neg later]
      exact ⟨ms, js, le_rfl⟩

/-- **A row that no list has a lease for is what the first of them made of it**, and its hour is
not up. -/
theorem lapsed_of_absent (ordered : (first :: rest).Pairwise (·.now ≤ ·.now))
    (clock : ∀ call ∈ first :: rest, ReadsBack times (second call.now))
    (stored : ∀ row ∈ rows, Readable times row.expiresAt)
    (absent : ∀ call ∈ first :: rest, key ∉ call.currentKeys)
    (member : row ∈ run times rows (first :: rest)) (named : row.key = key) :
    ∃ old, Keyed.latest LeaseRow.key rows key = some old ∧ row = retainExpired times first.now old ∧
      ∀ call ∈ (first :: rest).getLast?,
        call.now ≤ lapse first.now (leaseExpiryMs times old.expiresAt) + offlineRetirementMs := by
  induction rest using List.reverseRecOn generalizing row with
  | nil =>
    obtain ⟨old, latest, kept, rfl⟩ := mem_retained.mp
      (exists_of_absent (absent first List.mem_cons_self) member named)
    rw [key_retainExpired] at named
    rw [named] at latest
    refine ⟨old, latest, rfl, fun call last => ?_⟩
    obtain rfl := Option.some.inj last
    have inTime := (isKept_iff.mp kept).2.2
    have hour : 0 ≤ offlineRetirementMs := by decide
    cases read : leaseExpiryMs times old.expiresAt with
    | infinity => exact Int.le_add_of_nonneg_right hour
    | nan => exact Int.le_add_of_nonneg_right hour
    | «at» ms =>
      rw [lapse]
      split
      · exact Int.le_add_of_nonneg_right hour
      · exact inTime ms read
  | append_singleton rest last ih =>
    have whole : first :: (rest ++ [last]) = (first :: rest) ++ [last] := rfl
    rw [whole, run_concat] at member
    have listed : last ∈ first :: (rest ++ [last]) := by simp
    obtain ⟨old, latest, kept, rfl⟩ :=
      mem_retained.mp (exists_of_absent (absent last listed) member named)
    rw [key_retainExpired] at named
    rw [whole, List.pairwise_append] at ordered
    obtain ⟨start, found, rfl, -⟩ := ih ordered.1
      (fun call earlier => clock call (by rw [whole]; exact List.mem_append_left _ earlier))
      (fun call earlier => absent call (by rw [whole]; exact List.mem_append_left _ earlier))
      (Keyed.of_latest latest).1 named
    have back := clock first List.mem_cons_self
    refine ⟨start, found, retainExpired_twice back
      (ordered.2.2 first List.mem_cons_self last (List.mem_singleton_self last)),
      fun call isLast => ?_⟩
    rw [whole, List.getLast?_append, List.getLast?_singleton, Option.some_or] at isLast
    obtain rfl := Option.some.inj isLast
    obtain ⟨ms, js, early⟩ := exists_lapsed back (stored start (Keyed.of_latest found).1)
    have inTime := (isKept_iff.mp kept).2.2 ms js
    omega

/-- **Lapsed leases are bounded**, where every expiry is readable. -/
theorem leases_bounded (times : TimeTexts) (rows : List LeaseRow) (calls : List LeaseCall)
    (call : LeaseCall) (ordered : (calls ++ [call]).Pairwise (·.now ≤ ·.now))
    (clock : ∀ other ∈ calls ++ [call], ReadsBack times (second other.now))
    (stored : ∀ row ∈ rows, Readable times row.expiresAt)
    (given : ∀ other ∈ calls ++ [call], ∀ lease ∈ other.leases, Readable times lease.expiresAt) :
    Bounded times rows calls call := by
  have back := clock call (List.mem_append_right _ (List.mem_singleton_self call))
  refine ⟨?_, ⟨_, (run_concat times rows calls call).trans replaceLeases_rows,
    nodup_retained times call _, fun row member => ?_⟩, fun before first rest split t early key
    absent row member named => ?_⟩
  · rw [run_concat, replaceLeases_rows, List.filter_append, List.filter_map]
    have nothing : (retained times call (run times rows calls)).filter
        (fun row => activeLease times call.now row.expiresAt) = [] := by
      rw [List.filter_eq_nil_iff]
      intro row member
      obtain ⟨old, -, -, rfl⟩ := mem_retained.mp member
      rw [inactive_retainExpired back le_rfl]
      decide
    rw [nothing, List.append_nil]
    rfl
  · obtain ⟨old, -, kept, rfl⟩ := mem_retained.mp member
    exact (isKept_iff.mp kept).1
  · have within : ∀ other ∈ before, other ∈ calls ++ [call] := fun other listed =>
      split ▸ List.mem_append_left _ listed
    have since : ∀ other ∈ first :: rest, other ∈ calls ++ [call] := fun other listed =>
      split ▸ List.mem_append_right _ listed
    rw [split, run_append] at member
    obtain ⟨old, found, -, inTime⟩ := lapsed_of_absent
      (List.pairwise_append.mp (split ▸ ordered)).2.1
      (fun other listed => clock other (since other listed))
        (readable_run (fun other listed => clock other (within other listed)) stored fun other
        listed => given other (within other listed))
      absent member named
    refine ⟨old, found, ?_⟩
    have last : (first :: rest).getLast? = some call := by
      have ends := congrArg List.getLast? split
      obtain ⟨last, isLast⟩ :=
        Option.isSome_iff_exists.mp (List.getLast?_isSome.mpr (List.cons_ne_nil first rest))
      rw [List.getLast?_concat, List.getLast?_append, isLast, Option.some_or] at ends
      rw [isLast, ← ends]
    have bound := inTime call last
    rw [behind]
    omega

/-- **A row whose expiry JavaScript cannot read stays** for as long as no list has a lease for its
address, no reservation takes it, and SQLite reads no time to come in it. -/
theorem unread_expiry_is_kept (unread : leaseExpiryMs times old.expiresAt = .nan)
    (absent : ∀ call ∈ calls, old.key ∉ call.currentKeys ∧ old.key ∉ call.reserved)
    (past : ∀ call ∈ calls, isLater times call.now old.expiresAt = false)
    (held : Keyed.latest LeaseRow.key rows old.key = some old) :
    Keyed.latest LeaseRow.key (run times rows calls) old.key = some old := by
  have finite : old.expiresAt ≠ infinite := fun isInfinite => by
    rw [leaseExpiryMs, if_pos isInfinite] at unread
    cases unread
  induction calls using List.reverseRecOn with
  | nil => exact held
  | append_singleton calls call ih =>
    have last : call ∈ calls ++ [call] := List.mem_append_right _ (List.mem_singleton_self call)
    have before := ih (fun other listed => absent other (List.mem_append_left _ listed))
      (fun other listed => past other (List.mem_append_left _ listed))
    have same : retainExpired times call.now old = old := by
      rw [retainExpired, past call last, decide_eq_false finite, if_neg (by decide)]
    have kept : isKept times call old = true :=
      isKept_iff.mpr ⟨(absent call last).1, (absent call last).2,
        fun ms js => by rw [unread] at js; cases js⟩
    have member : old ∈ retained times call (run times rows calls) :=
      mem_retained.mpr ⟨old, before, kept, same⟩
    rw [run_concat, replaceLeases_rows, Keyed.latest_append,
      Keyed.latest_of_mem (nodup_retained times call _) member, Option.some_or]

end Run

/-! ## A day of leases -/

/-- `HH:MM:SS` and what stands behind it. -/
def readClock : Text → Option (Int × Text)
  | a :: b :: ':' :: c :: d :: ':' :: e :: f :: rest =>
    if [a, b, c, d, e, f].all Char.isDigit then
      some (Text.readDigits 10 [a, b] * 3600 + Text.readDigits 10 [c, d] * 60 + Text.readDigits 10
        [e, f], rest)
    else none
  | _ => none

/-- `HH:MM:SS` of a second of the day. -/
def writeClock (sec : Int) : Text :=
  let two := fun (n : Int) => Text.padStart 2 '0' (Nat.toDigits 10 n.toNat)
  two (sec / 3600) ++ ':' :: two (sec / 60 % 60) ++ ':' :: two (sec % 60)

/-- The first of January 1970, as the readers read it and `datetime('now')` writes it. -/
def firstDay : TimeTexts where
  dateParse text :=
    if "1970-01-01T".toList.isPrefixOf text then
      (readClock (text.drop 11)).bind fun (sec, rest) => if rest = ['Z']
        then some (1000 * sec) else none
    else none
  datetime text :=
    if "1970-01-01".toList.isPrefixOf text then
      (readClock (text.drop 11)).bind fun (sec, rest) => if rest = [] || rest = ['Z']
        then some sec else none
    else none
  datetimeNow sec := "1970-01-01 ".toList ++ writeClock sec

/-- A lease of an address. -/
def givenLease (ip expiresAt : Text) : GivenLease where
  ip
  expiresAt
  subnetId := some 1

/-- Two leases at midnight, one of them without an end; at one o'clock neither is in the list. -/
def dayCalls : List LeaseCall :=
  [⟨0, [givenLease "10.0.1.70".toList infinite,
   givenLease "10.0.1.71".toList "1970-01-01T00:30:00Z".toList], []⟩, ⟨3600000, [], []⟩]

theorem leases_bounded_first_day : Bounded firstDay [] dayCalls ⟨7200000, [], []⟩ :=
  leases_bounded firstDay [] dayCalls ⟨7200000, [], []⟩ (by decide)
    (fun call member => by
      have ticks : ∀ call ∈ dayCalls ++ [⟨7200000, [], []⟩],
          second call.now ∈ [0, 3600, 7200] := by decide
      have back : ∀ sec ∈ ([0, 3600, 7200] : List Int), firstDay.datetimeNow sec ≠ infinite ∧
          firstDay.datetime (firstDay.datetimeNow sec) = some sec ∧
          leaseExpiryMs firstDay (firstDay.datetimeNow sec) = .at (1000 * sec) := by decide
      obtain ⟨finite, sql, js⟩ := back _ (ticks call member)
      exact ⟨finite, sql, js⟩)
    (fun row member => absurd member List.not_mem_nil)
    (fun call member lease listed => by
      have texts : ∀ call ∈ dayCalls ++ [⟨7200000, [], []⟩], ∀ lease ∈ call.leases,
          lease.expiresAt ∈ [infinite, "1970-01-01T00:30:00Z".toList] := by decide
      have half : leaseExpiryMs firstDay "1970-01-01T00:30:00Z".toList = .at 1800000 ∧
          firstDay.datetime "1970-01-01T00:30:00Z".toList = some (second 1800000) := by decide
      rcases List.mem_cons.mp (texts call member lease listed) with isInfinite | isHalf
      · exact .inl isInfinite
      · rw [List.mem_singleton.mp isHalf]
        exact .inr ⟨_, half⟩)

/-- **A lease whose expiry cannot be read has its row twenty hours after it was gone.** -/
theorem unread_expiry_outlives_its_hour : ¬ ∀ (times : TimeTexts) (rows : List LeaseRow)
    (calls : List LeaseCall) (call : LeaseCall), (calls ++ [call]).Pairwise (·.now ≤ ·.now) →
      (∀ other ∈ calls ++ [call], ReadsBack times (second other.now)) →
      Bounded times rows calls call := by
  intro all
  let given : LeaseCall := ⟨0, [givenLease "10.0.1.70".toList "not-a-date".toList], []⟩
  have back : ∀ sec ∈ ([0, 3600, 72000] : List Int), firstDay.datetimeNow sec ≠ infinite ∧
      firstDay.datetime (firstDay.datetimeNow sec) = some sec ∧
      leaseExpiryMs firstDay (firstDay.datetimeNow sec) = .at (1000 * sec) := by decide
  have ticks : ∀ call ∈ [given, ⟨3600000, [], []⟩] ++ [(⟨72000000, [], []⟩ : LeaseCall)],
      second call.now ∈ [0, 3600, 72000] := by decide
  have bounded := all firstDay [] [given, ⟨3600000, [], []⟩] ⟨72000000, [], []⟩ (by decide)
    fun call member => by
      obtain ⟨finite, sql, js⟩ := back _ (ticks call member)
      exact ⟨finite, sql, js⟩
  let row : LeaseRow := storedRow firstDay 0 (givenLease "10.0.1.70".toList "not-a-date".toList)
  have before : Keyed.latest LeaseRow.key (run firstDay [] [given]) row.key = some row := by decide
  have still : row ∈ run firstDay [] ([given, ⟨3600000, [], []⟩] ++
      [⟨72000000, [], []⟩]) := by decide
  have unread : leaseExpiryMs firstDay row.expiresAt = .nan := by decide
  obtain ⟨old, found, inTime⟩ := bounded.lapsed [given] ⟨3600000, [], []⟩ [⟨72000000, [], []⟩] rfl
    3600000 le_rfl row.key (by decide) row still rfl
  obtain rfl := Option.some.inj (before.symm.trans found)
  rw [unread] at inTime
  exact absurd inTime (by decide)

/-- A row with such an expiry. -/
def unreadRow : LeaseRow := storedRow firstDay 0 (givenLease "10.0.1.70".toList "not-a-date".toList)

theorem unread_expiry_is_kept_first_day :
    Keyed.latest LeaseRow.key (run firstDay [unreadRow] [⟨3600000, [], []⟩, ⟨72000000, [], []⟩])
      unreadRow.key = some unreadRow :=
  unread_expiry_is_kept (by decide) (by decide) (by decide) (by decide)

end LeaseTable

end Cidrella
