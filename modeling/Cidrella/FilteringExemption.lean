import Cidrella.LeaseRetention
import Cidrella.AddressRoundTrip
import Cidrella.RecordNames
import Mathlib.Data.String.Basic

/-!
# Hosts with filtering turned off

`models/filtering-exemption.js`. An exemption is stored under one key, the MAC of the device
behind an address or else the address, and read back over every MAC that is given for the
address: the one stored with it, the one a scan saw last, and those of its active leases.

Where these name two devices, turning filtering on clears only the one `deviceMac` prefers,
and the other keeps the address exempt. `takes_effect_iff` says when a change reaches the
address; the rest of the network keeps what it has in any case.

Everything is read at one moment.
-/

set_option autoImplicit false

namespace Cidrella

namespace FilteringExemption

open Address DnsNames LeaseTable

/-! ## Tables -/

/-- A row of `ip_addresses`. -/
structure AddressRow where
  subnetId : Option Nat
  ipAddress : Text
  interfaceId : Option Text := none
  macAddress : Option Text := none
  lastSeenMac : Option Text := none

/-- What a row of `filtering_exemptions` is about: the table's `CHECK` has one of the two. -/
inductive HostKey where
  | mac (macAddress : Text)
  | ip (ipAddress : Text)
  deriving DecidableEq

/-- The tables, each in the order in which SQLite visits its rows. -/
structure Tables where
  addresses : List AddressRow
  leases : List LeaseRow
  exemptions : List HostKey

/-- A host as it is asked for. -/
structure HostAddress where
  ip : Text
  subnetId : Option Nat := none
  interfaceId : Option Text := none

/-! ## MACs -/

/-- `MAC_RE`. -/
def isValidMac (mac : Text) : Bool :=
  let octets := mac.splitOn ':'
  octets.length = 6 && octets.all fun octet => octet.length = 2 && octet.all Text.isHexDigit

/-- `isClientMac`. -/
def isClientMac (mac : Text) : Bool :=
  let octets := ((toLowerCase mac).splitOn ':').map (Text.readDigits 16)
  isValidMac mac && !octets.all (· = 0) && !octets.all (· = 0xff) && octets.head?.all
    (· &&& 0x01 = 0)

/-- `clientMac`. -/
def clientMac (value : Option Text) : Option Text :=
  let mac := (value.map fun text => toLowerCase (trim text)).getD []
  if isClientMac mac then some mac else none

section

variable (times : TimeTexts) (now : Int) (tables : Tables)

/-- The row that `deviceMac` reads. -/
def rowAt (host : HostAddress) : Option AddressRow :=
  tables.addresses.find? fun row =>
    row.ipAddress = host.ip && (host.subnetId = none || row.subnetId = host.subnetId) &&
      row.interfaceId.getD [] = host.interfaceId.getD []

/-- The lease that `deviceMac` reads: the newest of the active ones with a MAC. -/
def newestLease (ip : Text) : Option LeaseRow :=
  ((tables.leases.filter fun lease =>
      lease.ipAddress = ip && lease.macAddress.isSome && activeLease times now
        lease.expiresAt).mergeSort
    fun first second => second.lastSeen ≤ first.lastSeen).head?

/-- `deviceMac`. -/
def deviceMac (host : HostAddress) : Option Text :=
  let row := rowAt tables host
  let stored := (clientMac (row.bind (·.macAddress))).or (clientMac (row.bind (·.lastSeenMac)))
  stored.or (clientMac ((newestLease times now tables host.ip).bind (·.macAddress)))

/-- `hostKey`. -/
def hostKey (host : HostAddress) : HostKey :=
  match deviceMac times now tables host with
  | some mac => .mac mac
  | none => .ip host.ip

/-! ## The exempt addresses -/

/-- `lower(value) IN (…)`. -/
def lowerIn (macs : List Text) (value : Option Text) : Bool :=
  value.any fun text => toLowerCase text ∈ macs

/-- The addresses of the query over both tables. -/
def held (macs : List Text) : List Text :=
  (tables.addresses.filter fun row => lowerIn macs row.macAddress || lowerIn macs
      row.lastSeenMac).map (·.ipAddress) ++
    (tables.leases.filter fun lease =>
      lowerIn macs lease.macAddress && activeLease times now lease.expiresAt).map (·.ipAddress)

/-- The address of a key. An empty text is none. -/
def HostKey.address? : HostKey → Option Text
  | .ip text => if text = [] then none else some text
  | .mac _ => none

/-- The MAC of a key. An empty text is none. -/
def HostKey.mac? : HostKey → Option Text
  | .mac text => if text = [] then none else some text
  | .ip _ => none

/-- `exemptAddressSet`. -/
def exemptAddressSet : List Text :=
  let macs := tables.exemptions.filterMap (·.mac?)
  tables.exemptions.filterMap (·.address?) ++
    if macs = [] then [] else (held times now tables macs).filterMap canonicalizeIp

/-! ## Turning filtering on or off -/

/-- The two `DELETE`s. -/
def clearHost (key : HostKey) (ip : Text) (exemptions : List HostKey) : List HostKey :=
  let others := exemptions.filter (· ≠ .ip ip)
  match key with
  | .mac mac => others.filter (· ≠ .mac mac)
  | .ip _ => others

/-- `INSERT OR IGNORE`. -/
def insertOrIgnore (key : HostKey) (exemptions : List HostKey) : List HostKey :=
  if key ∈ exemptions then exemptions else exemptions ++ [key]

/-- `setHostFiltering`, without the event it leaves: whether anything changed, and the tables
after it. It throws on a text that is no address. -/
def setHostFiltering (host : HostAddress) (enabled : Bool) : Option (Bool × Tables) := do
  let ip ← canonicalizeIp host.ip
  let key := hostKey times now tables { host with ip := ip }
  let before := decide (ip ∈ exemptAddressSet times now tables)
  if enabled = !before then some (false, tables)
  else
    let exemptions := if enabled then clearHost key ip tables.exemptions
      else insertOrIgnore key tables.exemptions
    some (true, { tables with exemptions := exemptions })

end

/-! ## What a change is for -/

section

variable (times : TimeTexts) (now : Int) (tables : Tables)

/-- A MAC is given for an address: stored with it, seen there by a scan, or on an active lease. -/
inductive GivenAt (ip value : Text) : Prop where
  | stored {row : AddressRow} (listed : row ∈ tables.addresses)
      (place : canonicalizeIp row.ipAddress = some ip) (given : row.macAddress = some value)
  | seen {row : AddressRow} (listed : row ∈ tables.addresses)
      (place : canonicalizeIp row.ipAddress = some ip) (given : row.lastSeenMac = some value)
  | leased {lease : LeaseRow} (listed : lease ∈ tables.leases)
      (active : activeLease times now lease.expiresAt = true)
      (place : canonicalizeIp lease.ipAddress = some ip) (given : lease.macAddress = some value)

/-- A MAC is given for an address, but for its case and the white space around it. -/
def HoldsMac (ip mac : Text) : Prop :=
  ∃ value, GivenAt times now tables ip value ∧ toLowerCase (trim value) = mac

/-- A MAC is given for an address, but for its case. -/
def CoveredBy (ip mac : Text) : Prop :=
  ∃ value, GivenAt times now tables ip value ∧ toLowerCase value = mac

/-- Filtering is off at the host's address exactly if that was asked for, and no address that
shares neither a MAC nor its text with the host changes. -/
structure TakesEffect (ip : Text) (enabled : Bool) (after : Tables) : Prop where
  host : ip ∈ exemptAddressSet times now after ↔ enabled = false
  others : ∀ other, other ≠ ip →
    (¬ ∃ mac, HoldsMac times now tables ip mac ∧ HoldsMac times now tables other mac) →
      (other ∈ exemptAddressSet times now after ↔ other ∈ exemptAddressSet times now tables)

/-- Turned on, no exempt MAC covers the address but the one of its device; turned off where it
was on, the MAC of its device covers it, if there is one. -/
structure KeyDecides (host : HostAddress) (enabled : Bool) : Prop where
  on : enabled = true → ∀ mac, mac ≠ [] → .mac mac ∈ tables.exemptions →
    CoveredBy times now tables host.ip mac → deviceMac times now tables host = some mac
  off : enabled = false → host.ip ∉ exemptAddressSet times now tables →
    ∀ mac, deviceMac times now tables host = some mac → CoveredBy times now tables host.ip mac

end

/-! ## Reading -/

section

variable {times : TimeTexts} {now : Int} {tables : Tables} {ip mac : Text}

theorem lowerIn_iff {macs : List Text} {value : Option Text} :
    lowerIn macs value = true ↔ ∃ text, value = some text ∧ toLowerCase text ∈ macs := by
  rw [lowerIn, Option.any_eq_true]
  exact exists_congr fun text => and_congr_right fun _ => decide_eq_true_iff

theorem mem_held_canonical {macs : List Text} :
    ip ∈ (held times now tables macs).filterMap canonicalizeIp ↔
      ∃ mac ∈ macs, CoveredBy times now tables ip mac := by
  simp only [List.mem_filterMap, held, List.mem_append, List.mem_map, List.mem_filter,
    Bool.or_eq_true, Bool.and_eq_true, lowerIn_iff]
  constructor
  · rintro ⟨text, ⟨row, ⟨listed, ⟨value, given, member⟩ | ⟨value, given, member⟩⟩, rfl⟩ |
      ⟨lease, ⟨listed, ⟨value, given, member⟩, active⟩, rfl⟩, place⟩
    · exact ⟨_, member, value, .stored listed place given, rfl⟩
    · exact ⟨_, member, value, .seen listed place given, rfl⟩
    · exact ⟨_, member, value, .leased listed active place given, rfl⟩
  · rintro ⟨mac, member, value, place, rfl⟩
    cases place with
    | stored listed place given =>
      exact ⟨_, .inl ⟨_, ⟨listed, .inl ⟨value, given, member⟩⟩, rfl⟩, place⟩
    | seen listed place given =>
      exact ⟨_, .inl ⟨_, ⟨listed, .inr ⟨value, given, member⟩⟩, rfl⟩, place⟩
    | leased listed active place given =>
      exact ⟨_, .inr ⟨_, ⟨listed, ⟨value, given, member⟩, active⟩, rfl⟩, place⟩

theorem mem_exempt_macs {exemptions : List HostKey} :
    mac ∈ exemptions.filterMap (·.mac?) ↔ mac ≠ [] ∧ .mac mac ∈ exemptions := by
  rw [List.mem_filterMap]
  constructor
  · rintro ⟨key, listed, found⟩
    cases key with
    | mac text =>
      rw [HostKey.mac?, Option.ite_none_left_eq_some, Option.some.injEq] at found
      exact found.2 ▸ ⟨found.1, listed⟩
    | ip text => cases found
  · rintro ⟨filled, listed⟩
    exact ⟨_, listed, if_neg filled⟩

theorem mem_exempt_addresses {exemptions : List HostKey} :
    ip ∈ exemptions.filterMap (·.address?) ↔ ip ≠ [] ∧ .ip ip ∈ exemptions := by
  rw [List.mem_filterMap]
  constructor
  · rintro ⟨key, listed, found⟩
    cases key with
    | mac text => cases found
    | ip text =>
      rw [HostKey.address?, Option.ite_none_left_eq_some, Option.some.injEq] at found
      exact found.2 ▸ ⟨found.1, listed⟩
  · rintro ⟨filled, listed⟩
    exact ⟨_, listed, if_neg filled⟩

theorem mem_exemptAddressSet : ip ∈ exemptAddressSet times now tables ↔
    (ip ≠ [] ∧ .ip ip ∈ tables.exemptions) ∨
      ∃ mac, (mac ≠ [] ∧ .mac mac ∈ tables.exemptions) ∧ CoveredBy times now tables ip mac := by
  rw [exemptAddressSet, List.mem_append, mem_exempt_addresses]
  refine or_congr_right ?_
  have covered : ip ∈ (held times now tables (tables.exemptions.filterMap (·.mac?))).filterMap
      canonicalizeIp ↔ ∃ mac, (mac ≠ [] ∧ .mac mac ∈ tables.exemptions) ∧
      CoveredBy times now tables ip mac := by
    simp only [mem_held_canonical, mem_exempt_macs]
  split
  · next empty =>
      rw [← covered, mem_held_canonical, empty]
      simp
  · exact covered

end

/-! ## The device of an address -/

section

variable {times : TimeTexts} {now : Int} {tables : Tables} {host : HostAddress} {mac : Text}

theorem of_clientMac {value : Option Text} (client : clientMac value = some mac) :
    mac ≠ [] ∧ ∃ text, value = some text ∧ toLowerCase (trim text) = mac := by
  rw [clientMac, Option.ite_none_right_eq_some, Option.some.injEq] at client
  obtain ⟨client, rfl⟩ := client
  have filled : (value.map fun text => toLowerCase (trim text)).getD [] ≠ [] := fun empty => by
    rw [empty] at client
    exact absurd client (by decide)
  cases value with
  | none => exact absurd rfl filled
  | some text => exact ⟨filled, text, rfl, rfl⟩

theorem holdsMac_of_deviceMac (canonical : canonicalizeIp host.ip = some host.ip)
    (device : deviceMac times now tables host = some mac) :
    mac ≠ [] ∧ HoldsMac times now tables host.ip mac := by
  have inRow {row : AddressRow} (found : rowAt tables host = some row) :
      row ∈ tables.addresses ∧ canonicalizeIp row.ipAddress = some host.ip := by
    have matched := List.find?_some found
    simp only [Bool.and_eq_true, decide_eq_true_eq] at matched
    exact ⟨List.mem_of_find?_eq_some found, matched.1.1 ▸ canonical⟩
  rw [deviceMac, Option.or_eq_some_iff, Option.or_eq_some_iff] at device
  obtain (client | ⟨-, client⟩) | ⟨-, client⟩ := device
  · obtain ⟨filled, text, given, rfl⟩ := of_clientMac client
    obtain ⟨row, found, given⟩ := Option.bind_eq_some_iff.mp given
    exact ⟨filled, text, .stored (inRow found).1 (inRow found).2 given, rfl⟩
  · obtain ⟨filled, text, given, rfl⟩ := of_clientMac client
    obtain ⟨row, found, given⟩ := Option.bind_eq_some_iff.mp given
    exact ⟨filled, text, .seen (inRow found).1 (inRow found).2 given, rfl⟩
  · obtain ⟨filled, text, given, rfl⟩ := of_clientMac client
    obtain ⟨lease, newest, given⟩ := Option.bind_eq_some_iff.mp given
    have listed := List.mem_mergeSort.mp (List.mem_of_head? newest)
    simp only [List.mem_filter, Bool.and_eq_true, decide_eq_true_eq] at listed
    exact ⟨filled, text, .leased listed.1 listed.2.2 (listed.2.1.1 ▸ canonical) given, rfl⟩

theorem holdsMac_of_coveredBy {ip : Text} (bare : trim mac = mac)
    (covered : CoveredBy times now tables ip mac) : HoldsMac times now tables ip mac := by
  obtain ⟨value, given, rfl⟩ := covered
  exact ⟨value, given, by rw [← trim_toLowerCase, bare]⟩

theorem trim_of_holdsMac {ip : Text} (holds : HoldsMac times now tables ip mac) :
    trim mac = mac := by
  obtain ⟨value, -, rfl⟩ := holds
  rw [trim_toLowerCase, trim_trim]

theorem mac_eq_hostKey :
    .mac mac = hostKey times now tables host ↔ deviceMac times now tables host = some mac := by
  unfold hostKey
  cases device : deviceMac times now tables host with
  | some other => simp [eq_comm]
  | none => simp

theorem ip_eq_hostKey {ip : Text} :
    .ip ip = hostKey times now tables host ↔ deviceMac times now tables host = none ∧
    ip = host.ip := by
  unfold hostKey
  cases device : deviceMac times now tables host with
  | some other => simp
  | none => simp

end

/-! ## Writing -/

section

variable {times : TimeTexts} {now : Int} {tables : Tables} {host : HostAddress} {ip : Text}

theorem mem_clearHost {exemptions : List HostKey} {other : HostKey} :
    other ∈ clearHost (hostKey times now tables host) host.ip exemptions ↔
      other ∈ exemptions ∧ other ≠ .ip host.ip ∧ other ≠ hostKey times now tables host := by
  cases key : hostKey times now tables host with
  | mac mac =>
    simp only [clearHost, List.mem_filter, decide_eq_true_eq]
    exact and_assoc
  | ip text =>
    have own : text = host.ip := (ip_eq_hostKey.mp key.symm).2
    simp only [clearHost, List.mem_filter, decide_eq_true_eq, own, and_self]

theorem mem_insertOrIgnore {key other : HostKey} {exemptions : List HostKey} :
    other ∈ insertOrIgnore key exemptions ↔ other ∈ exemptions ∨ other = key := by
  unfold insertOrIgnore
  split
  · next listed => exact ⟨.inl, fun | .inl stored => stored | .inr same => same ▸ listed⟩
  · rw [List.mem_append, List.mem_singleton]

theorem givenAt_exemptions (exemptions : List HostKey) {value : Text} :
    GivenAt times now { tables with exemptions := exemptions } ip value ↔
    GivenAt times now tables ip value := by
  constructor
  · intro given
    cases given with
    | stored listed place given => exact .stored listed place given
    | seen listed place given => exact .seen listed place given
    | leased listed active place given => exact .leased listed active place given
  · intro given
    cases given with
    | stored listed place given => exact .stored listed place given
    | seen listed place given => exact .seen listed place given
    | leased listed active place given => exact .leased listed active place given

theorem mem_exempt_of (exemptions : List HostKey) :
    ip ∈ exemptAddressSet times now { tables with exemptions := exemptions } ↔
      (ip ≠ [] ∧ .ip ip ∈ exemptions) ∨
        ∃ mac, (mac ≠ [] ∧ .mac mac ∈ exemptions) ∧ CoveredBy times now tables ip mac := by
  rw [mem_exemptAddressSet]
  simp only [CoveredBy, givenAt_exemptions]

theorem others_keep (canonical : canonicalizeIp host.ip = some host.ip) {exemptions : List HostKey}
    (same : ∀ key, key ≠ .ip host.ip → key ≠ hostKey times now tables host →
      (key ∈ exemptions ↔ key ∈ tables.exemptions)) (other : Text) (apart : other ≠ host.ip)
    (unshared : ¬ ∃ mac, HoldsMac times now tables host.ip mac ∧
    HoldsMac times now tables other mac) :
    other ∈ exemptAddressSet times now { tables with exemptions := exemptions } ↔
      other ∈ exemptAddressSet times now tables := by
  rw [mem_exempt_of, mem_exemptAddressSet]
  have byAddress : .ip other ∈ exemptions ↔ .ip other ∈ tables.exemptions :=
    same _ (fun own => apart (HostKey.ip.inj own)) fun own => apart (ip_eq_hostKey.mp own).2
  have byMac {mac : Text} (covered : CoveredBy times now tables other mac) :
      .mac mac ∈ exemptions ↔ .mac mac ∈ tables.exemptions := by
    refine same _ nofun fun own => unshared ?_
    have holds := (holdsMac_of_deviceMac canonical (mac_eq_hostKey.mp own)).2
    exact ⟨mac, holds, holdsMac_of_coveredBy (trim_of_holdsMac holds) covered⟩
  rw [byAddress]
  exact or_congr_right (exists_congr fun mac => and_congr_left fun covered =>
    and_congr_right fun _ => byMac covered)

theorem exempt_of_on (canonical : canonicalizeIp host.ip = some host.ip) :
    TakesEffect times now tables host.ip true { tables with
        exemptions := clearHost (hostKey times now tables host) host.ip tables.exemptions } ↔
      ∀ mac, mac ≠ [] → .mac mac ∈ tables.exemptions → CoveredBy times now tables host.ip mac →
        deviceMac times now tables host = some mac := by
  have exempt : host.ip ∉ exemptAddressSet times now { tables with
        exemptions := clearHost (hostKey times now tables host) host.ip tables.exemptions } ↔
      ∀ mac, mac ≠ [] → .mac mac ∈ tables.exemptions → CoveredBy times now tables host.ip mac →
        deviceMac times now tables host = some mac := by
    simp only [mem_exempt_of, mem_clearHost, ne_eq, not_true_eq_false, false_and,
      and_false, false_or, reduceCtorEq, not_false_eq_true, true_and, mac_eq_hostKey, not_exists,
      not_and, and_imp]
    exact forall_congr' fun mac => ⟨fun kept filled listed covered => by_contra fun another =>
        kept filled listed another covered,
      fun only filled listed another covered => another (only filled listed covered)⟩
  constructor
  · intro effect
    exact exempt.mp fun still => absurd (effect.host.mp still) nofun
  · intro only
    refine ⟨⟨fun still => absurd still (exempt.mpr only), nofun⟩,
      others_keep canonical fun key address own => ?_⟩
    rw [mem_clearHost]
    exact ⟨fun kept => kept.1, fun listed => ⟨listed, address, own⟩⟩

theorem exempt_of_off (canonical : canonicalizeIp host.ip = some host.ip)
    (before : host.ip ∉ exemptAddressSet times now tables) :
    TakesEffect times now tables host.ip false { tables with
        exemptions := insertOrIgnore (hostKey times now tables host) tables.exemptions } ↔
      ∀ mac, deviceMac times now tables host = some mac →
          CoveredBy times now tables host.ip mac := by
  have filled : host.ip ≠ [] := fun empty => by
    rw [empty] at canonical
    exact absurd canonical (by decide)
  rw [mem_exemptAddressSet, not_or] at before
  have exempt : host.ip ∈ exemptAddressSet times now { tables with
        exemptions := insertOrIgnore (hostKey times now tables host) tables.exemptions } ↔
      ∀ mac, deviceMac times now tables host = some mac →
          CoveredBy times now tables host.ip mac := by
    rw [mem_exempt_of]
    simp only [mem_insertOrIgnore, mac_eq_hostKey, ip_eq_hostKey]
    constructor
    · rintro (⟨-, listed | ⟨none, -⟩⟩ | ⟨mac, ⟨named, listed | device⟩, covered⟩) own found
      · exact absurd ⟨filled, listed⟩ before.1
      · cases none.symm.trans found
      · exact absurd ⟨mac, ⟨named, listed⟩, covered⟩ before.2
      · rwa [← Option.some.inj (device.symm.trans found)]
    · intro covers
      cases device : deviceMac times now tables host with
      | none => exact .inl ⟨filled, .inr ⟨rfl, trivial⟩⟩
      | some mac =>
        exact .inr ⟨mac, ⟨(holdsMac_of_deviceMac canonical device).1, .inr rfl⟩, covers mac device⟩
  constructor
  · intro effect
    exact exempt.mp (effect.host.mpr rfl)
  · intro covers
    refine ⟨⟨fun _ => rfl, fun _ => exempt.mpr covers⟩, others_keep canonical fun key _ own => ?_⟩
    rw [mem_insertOrIgnore, or_iff_left own]

theorem takesEffect_unchanged {enabled : Bool}
    (already : enabled = !decide (ip ∈ exemptAddressSet times now tables)) :
    TakesEffect times now tables ip enabled tables := by
  refine ⟨?_, fun _ _ _ => Iff.rfl⟩
  rw [already, Bool.not_eq_false', decide_eq_true_iff]

/-- What `setHostFiltering` leaves takes effect exactly where the key of the host decides. -/
theorem takesEffect_of_set {enabled changed : Bool} {after : Tables}
    (valid : canonicalizeIp host.ip = some ip)
    (set : setHostFiltering times now tables host enabled = some (changed, after)) :
    TakesEffect times now tables ip enabled after ↔
      KeyDecides times now tables { host with ip := ip } enabled := by
  have canonical : canonicalizeIp ip = some ip := canonicalizeIp_idempotent valid
  rw [setHostFiltering, valid, Option.bind_eq_bind, Option.bind_some] at set
  by_cases already : enabled = !decide (ip ∈ exemptAddressSet times now tables)
  · rw [if_pos already] at set
    cases set
    refine ⟨fun _ => ⟨fun on mac named listed covered => ?_, fun off out => ?_⟩,
      fun _ => takesEffect_unchanged already⟩
    · rw [on, eq_comm, Bool.not_eq_true', decide_eq_false_iff_not] at already
      exact absurd (mem_exemptAddressSet.mpr (.inr ⟨mac, ⟨named, listed⟩, covered⟩)) already
    · rw [off, eq_comm, Bool.not_eq_false', decide_eq_true_iff] at already
      exact absurd already out
  · rw [if_neg already] at set
    cases set
    cases enabled with
    | true =>
      exact (@exempt_of_on times now tables { host with ip := ip } canonical).trans
        ⟨fun only => ⟨fun _ => only, nofun⟩, fun decides => decides.on rfl⟩
    | false =>
      have before : ip ∉ exemptAddressSet times now tables :=
        fun exempt => already (by simp [exempt])
      exact (@exempt_of_off times now tables { host with ip := ip } canonical before).trans
        ⟨fun covers => ⟨nofun, fun _ _ => covers⟩, fun decides => decides.off rfl before⟩

/-- `setHostFiltering` returns at every address. -/
theorem setHostFiltering_returns (valid : canonicalizeIp host.ip = some ip) (enabled : Bool) :
    ∃ changed after, setHostFiltering times now tables host enabled = some (changed, after) := by
  rw [setHostFiltering, valid, Option.bind_eq_bind, Option.bind_some]
  by_cases already : enabled = !decide (ip ∈ exemptAddressSet times now tables)
  · rw [if_pos already]
    exact ⟨_, _, rfl⟩
  · rw [if_neg already]
    exact ⟨_, _, rfl⟩

end

/-- **A change takes effect** exactly where the key of the host decides over its address. -/
theorem takes_effect_iff (times : TimeTexts) (now : Int) (tables : Tables) (host : HostAddress)
    (enabled : Bool) {ip : Text} (valid : canonicalizeIp host.ip = some ip) :
    (∃ changed after, setHostFiltering times now tables host enabled = some (changed, after) ∧
        TakesEffect times now tables ip enabled after) ↔
      KeyDecides times now tables { host with ip := ip } enabled := by
  constructor
  · rintro ⟨changed, after, set, effect⟩
    exact (takesEffect_of_set valid set).mp effect
  · intro decides
    obtain ⟨changed, after, set⟩ := @setHostFiltering_returns times now tables host ip valid enabled
    exact ⟨changed, after, set, (takesEffect_of_set valid set).mpr decides⟩

/-- An address with the MAC of its device. -/
def oneDevice : Tables where
  addresses  := [⟨none, "10.0.0.5".toList, none, some "02:00:00:00:00:01".toList, none⟩]
  leases     := []
  exemptions := []

/-- Turning filtering off there takes effect. -/
theorem turns_off_one_device :
    ∃ changed after, setHostFiltering ⟨fun _ => none, fun _ => none, fun _ => []⟩ 0 oneDevice
        ⟨"10.0.0.5".toList, none, none⟩ false = some (changed, after) ∧
      TakesEffect ⟨fun _ => none, fun _ => none, fun _ => []⟩ 0 oneDevice "10.0.0.5".toList
      false after := by
  have valid : canonicalizeIp "10.0.0.5".toList = some "10.0.0.5".toList := by decide
  have device : deviceMac ⟨fun _ => none, fun _ => none, fun _ => []⟩ 0 oneDevice
      ⟨"10.0.0.5".toList, none, none⟩ = some "02:00:00:00:00:01".toList := by decide
  refine (takes_effect_iff _ _ _ _ false valid).mpr ⟨nofun, fun _ _ mac found => ?_⟩
  rw [← Option.some.inj (device.symm.trans found)]
  exact ⟨_, .stored List.mem_cons_self valid rfl, rfl⟩

/-- An address with the MAC of one device stored and that of another one, exempt, seen there. -/
def twoDevices : Tables where
  addresses  :=
    [⟨none, "10.0.0.5".toList, none, some "02:00:00:00:00:01".toList,
      some "02:00:00:00:00:02".toList⟩]
  leases     := []
  exemptions := [.mac "02:00:00:00:00:02".toList]

/-- Turning filtering on there leaves the address exempt. -/
theorem second_device_stays_exempt : ¬ ∀ (times : TimeTexts) (now : Int) (tables : Tables)
    (host : HostAddress) (enabled : Bool) (ip : Text), canonicalizeIp host.ip = some ip →
      ∃ changed after, setHostFiltering times now tables host enabled = some (changed, after) ∧
        TakesEffect times now tables ip enabled after := fun settles => by
  have valid : canonicalizeIp "10.0.0.5".toList = some "10.0.0.5".toList := by decide
  obtain ⟨changed, after, set, effect⟩ := settles ⟨fun _ => none, fun _ => none, fun _ => []⟩
    0 twoDevices ⟨"10.0.0.5".toList, none, none⟩ true _ valid
  have decides := (takesEffect_of_set valid set).mp effect
  have device := decides.on rfl "02:00:00:00:00:02".toList nofun List.mem_cons_self
    ⟨_, .seen List.mem_cons_self valid rfl, rfl⟩
  exact absurd device (by decide)

end FilteringExemption

end Cidrella
