import Cidrella.Address
import Cidrella.IpAddress
import Cidrella.Lib.Trim

/-!
# Two readings of a scan interval

`intervalToMs` of `utils/scan-coverage.js`, which the scheduler goes by, beside the interval
arm of `scannerCoveredSql`, which the stale sweep goes by. The same digits and the same names
count in both (`IsInterval`), but the query trims spaces only where the code trims every kind
of white space. `interval_readings_agree_iff` says on which stored texts that shows.

A text with a NUL in it is not considered: what SQLite makes of one is undefined.
-/

set_option autoImplicit false

namespace Cidrella

namespace ScanCoverage

open Address Text

/-! ## The scheduler -/

/-- `INTERVAL_MS`. -/
def intervalMs : List (Text × Option Nat) :=
  [([], none),
    ("off".toList, none),
    ("5m".toList, some (5 * 60 * 1000)),
    ("15m".toList, some (15 * 60 * 1000)),
    ("30m".toList, some (30 * 60 * 1000)),
    ("1h".toList, some (60 * 60 * 1000)),
    ("4h".toList, some (4 * 60 * 60 * 1000))]

/-- What `intervalToMs` makes of a trimmed text: an entry of the table, or minutes. -/
def trimmedToMs (raw : Text) : Option Nat :=
  match intervalMs.find? (·.1 = raw) with
  | some entry => entry.2
  | none =>
    if raw ≠ [] && raw.all Char.isDigit then
      let minutes := readDigits 10 raw
      if 0 < minutes then some (minutes * 60 * 1000) else none
    else none

/-- `intervalToMs`. Minutes past `2 ^ 53` lose digits, but not all of them. -/
def intervalToMs (value : Option Text) : Option Nat := value.bind fun text =>
    trimmedToMs (trim text)

/-- `effectiveIntervalSql`. -/
def effectiveInterval (env : Env) (subnet : SubnetRow) : Option Text :=
  subnet.info.scanInterval <|> env.settings.defaultScanInterval

/-- The networks `checkScheduledScans` scans again and again. -/
def schedules (env : Env) (subnet : SubnetRow) : Bool :=
  subnet.info.status = .allocated &&
  (subnet.key.family = .v6 || subnet.key.sizeBig ≤ maxScanSize) &&
  scanEnabled env subnet.info &&
  isAutomaticScanAllowed env subnet &&
  (intervalToMs (effectiveInterval env subnet)).any (· ≠ 0)

/-- `bulkMarkStale` leaves an address of the network to the scanner. -/
def sweepSpares (env : Env) (subnet : SubnetRow) (ip : IpInfo) : Bool :=
  !(!scannerCovered env subnet ip || !isAutomaticScanAllowed env subnet)

/-- The scanner's own say about one address: it is not switched off there, and on an IPv6
network it is no anycast address. -/
def Probed (subnet : SubnetRow) (ip : IpInfo) : Prop :=
  ip.scanEnabled ≠ some false ∧ (subnet.key.family = .v6 → ip.allocationState ≠ .system)

/-! ## Intervals -/

/-- A text that means "scan": a name of the table or a number above zero. -/
def IsInterval (core : Text) : Prop :=
  core ∈ scanningIntervalKeys ∨ (core ≠ [] ∧ core.all Char.isDigit = true ∧ 0 < readDigits 10 core)

theorem scansAtInterval_iff (text : Text) : scansAtInterval (some text) = true ↔
    IsInterval (sqlTrim text) := by
  simp [scansAtInterval, IsInterval, and_assoc]

theorem trimmedToMs_of_digits {raw : Text} (absent : intervalMs.find? (·.1 = raw) = none) :
    trimmedToMs raw ≠ none ↔ raw ≠ [] ∧ raw.all Char.isDigit = true ∧ 0 < readDigits 10 raw := by
  rw [trimmedToMs, absent]
  by_cases digits : raw ≠ [] ∧ raw.all Char.isDigit = true
  · by_cases positive : 0 < readDigits 10 raw <;> simp [digits, positive]
  · have other : (raw ≠ [] && raw.all Char.isDigit) = false := by
      simpa [Bool.and_eq_true] using digits
    rw [if_neg (by rw [other]; exact Bool.false_ne_true)]
    exact iff_of_false (by simp) fun is => digits ⟨is.1, is.2.1⟩

theorem trimmedToMs_iff (raw : Text) : trimmedToMs raw ≠ none ↔ IsInterval raw := by
  cases found : intervalMs.find? (·.1 = raw) with
  | none =>
    have unnamed : raw ∉ scanningIntervalKeys := by
      intro named
      have entry : ∀ key ∈ scanningIntervalKeys, (intervalMs.find? (·.1 = key)).isSome := by decide
      have := entry raw named
      rw [found] at this
      cases this
    rw [trimmedToMs_of_digits found, IsInterval, or_iff_right unnamed]
  | some entry =>
    have key : entry.1 = raw := by simpa using List.find?_some found
    have listed : entry ∈ intervalMs := List.mem_of_find?_eq_some found
    subst key
    -- the seven entries of the table: two mean "never", and neither is a number
    have decided : ∀ entry ∈ intervalMs, (entry.2 ≠ none ↔ IsInterval entry.1) := by
      unfold IsInterval
      decide
    rw [trimmedToMs, found]
    exact decided entry listed

theorem intervalToMs_iff (text : Text) : intervalToMs (some text) ≠ none ↔ IsInterval (trim text) :=
  trimmedToMs_iff (trim text)

theorem trimmedToMs_ne_zero {raw : Text} : trimmedToMs raw ≠ some 0 := by
  rw [trimmedToMs]
  split
  · rename_i entry found
    have nonzero : ∀ entry ∈ intervalMs, entry.2 ≠ some 0 := by decide
    exact nonzero entry (List.mem_of_find?_eq_some found)
  · split
    · dsimp only
      split
      · rename_i positive
        rw [ne_eq, Option.some.injEq]
        omega
      · nofun
    · nofun

theorem isTrimmed_of_isInterval {core : Text} (interval : IsInterval core) :
    core ≠ [] ∧ ∀ c ∈ core, isTrimmed c = false := by
  obtain named | ⟨some, digits, -⟩ := interval
  · have solid : ∀ key ∈ scanningIntervalKeys, key ≠ [] ∧
      (key.all fun c => !isTrimmed c) = true := by
      decide
    refine ⟨(solid core named).1, fun c member => ?_⟩
    simpa using List.all_eq_true.mp (solid core named).2 c member
  · refine ⟨some, fun c member => isTrimmed_of_isPlain
      (isPlain_of_isHexDigit (isHexDigit_of_isDigit ?_))⟩
    exact List.all_eq_true.mp digits c member

/-! ## Where the readings differ -/

/-- An interval with white space around it that is not all spaces. -/
def IsPadded (text : Text) : Prop :=
  ∃ front core back, text = front ++ core ++ back ∧ IsInterval core ∧
    (∀ c ∈ front ++ back, isTrimmed c = true) ∧ ∃ c ∈ front ++ back, c ≠ ' '

theorem trim_of_sqlTrim {text : Text} (interval : IsInterval (sqlTrim text)) :
    trim text = sqlTrim text := by
  obtain ⟨front, back, parts, pads⟩ := exists_padding (· = ' ') text
  obtain ⟨some, solid⟩ := isTrimmed_of_isInterval interval
  have spaces : ∀ c ∈ front ++ back, isTrimmed c = true := fun c member => by
    rw [of_decide_eq_true (pads c member)]
    decide
  calc trim text = trim (front ++ sqlTrim text ++ back) := congrArg trim parts
    _ = sqlTrim text := trimBy_padded spaces solid some

/-- **The readings differ on the padded intervals**, and the code scans there. -/
theorem isPadded_iff (text : Text) :
    IsPadded text ↔ IsInterval (trim text) ∧ ¬ IsInterval (sqlTrim text) := by
  constructor
  · rintro ⟨front, core, back, rfl, interval, pads, c, member, other⟩
    obtain ⟨some, solid⟩ := isTrimmed_of_isInterval interval
    have trimmed : trim (front ++ core ++ back) = core := trimBy_padded pads solid some
    rw [trimmed]
    refine ⟨interval, fun spaced => ?_⟩
    have same := trim_of_sqlTrim spaced
    obtain ⟨before, behind, parts, spaces⟩ := exists_padding (· = ' ') (front ++ core ++ back)
    change _ = before ++ sqlTrim (front ++ core ++ back) ++ behind at parts
    rw [← same, trimmed] at parts
    have blanks : ∀ c ∈ before ++ behind, isTrimmed c = true := fun c member => by
      rw [of_decide_eq_true (spaces c member)]
      decide
    -- the query took off all of the white space, so all of it is spaces
    obtain ⟨rfl, rfl⟩ := padding_unique pads blanks solid some parts
    exact other (of_decide_eq_true (spaces c member))
  · rintro ⟨interval, unread⟩
    obtain ⟨front, back, parts, pads⟩ := exists_padding isTrimmed text
    change text = front ++ trim text ++ back at parts
    refine ⟨front, trim text, back, parts, interval, pads, ?_⟩
    by_contra none
    push Not at none
    obtain ⟨some, solid⟩ := isTrimmed_of_isInterval interval
    have spaces : ∀ c ∈ front ++ back, decide (c = ' ') = true := fun c member =>
      decide_eq_true (none c member)
    have notSpace : ∀ c ∈ trim text, decide (c = ' ') = false := fun c member => by
      refine decide_eq_false fun space => ?_
      have := solid c member
      rw [space] at this
      exact absurd this (by decide)
    have reduced : sqlTrim text = trim text := by
      calc sqlTrim text = sqlTrim (front ++ trim text ++ back) := congrArg sqlTrim parts
        _ = trim text := trimBy_padded spaces notSpace some
    exact unread (reduced ▸ interval)

theorem readings_agree_iff (value : Option Text) :
    (scansAtInterval value = true ↔ intervalToMs value ≠ none) ↔
      ∀ text, value = some text → ¬ IsPadded text := by
  cases value with
  | none => simp [scansAtInterval, intervalToMs]
  | some text =>
    rw [scansAtInterval_iff, intervalToMs_iff]
    constructor
    · rintro agree _ ⟨⟩ padded
      obtain ⟨interval, unread⟩ := (isPadded_iff text).mp padded
      exact unread (agree.mpr interval)
    · intro unpadded
      refine ⟨fun spaced => trim_of_sqlTrim spaced ▸ spaced, fun interval => ?_⟩
      by_contra unread
      exact unpadded text rfl ((isPadded_iff text).mpr ⟨interval, unread⟩)

theorem schedules_iff (env : Env) (subnet : SubnetRow) :
    schedules env subnet = true ↔ subnet.info.status = .allocated ∧
      (subnet.key.family = .v6 ∨ subnet.key.sizeBig ≤ maxScanSize) ∧
      scanEnabled env subnet.info = true ∧ isAutomaticScanAllowed env subnet = true ∧
      intervalToMs (effectiveInterval env subnet) ≠ none := by
  have nonzero : ((intervalToMs (effectiveInterval env subnet)).any (· ≠ 0)) = true ↔
      intervalToMs (effectiveInterval env subnet) ≠ none := by
    cases value : intervalToMs (effectiveInterval env subnet) with
    | none => simp
    | some ms =>
      have positive : ms ≠ 0 := by
        rintro rfl
        obtain ⟨text, -, read⟩ := Option.bind_eq_some_iff.mp value
        exact trimmedToMs_ne_zero read
      simpa using positive
  rw [schedules, Bool.and_eq_true, Bool.and_eq_true, Bool.and_eq_true, Bool.and_eq_true, nonzero]
  simp [and_assoc]

theorem sweepSpares_iff {env : Env} {subnet : SubnetRow} {ip : IpInfo} (probed : Probed subnet ip) :
    sweepSpares env subnet ip = true ↔ subnet.info.status = .allocated ∧
      (subnet.key.family = .v6 ∨ subnet.key.sizeBig ≤ maxScanSize) ∧
      scanEnabled env subnet.info = true ∧ isAutomaticScanAllowed env subnet = true ∧
      scansAtInterval (effectiveInterval env subnet) = true := by
  have notAnycast : (subnet.key.family ≠ .v6 ∨ ip.allocationState ≠ .system) := by
    by_cases v6 : subnet.key.family = .v6
    · exact .inr (probed.2 v6)
    · exact .inl v6
  simp only [sweepSpares, scannerCovered, effectiveInterval, Bool.not_or, Bool.not_not,
    Bool.and_eq_true, Bool.or_eq_true, decide_eq_true_eq, notAnycast]
  have enabled := probed.1
  tauto

/-- **The two readings of an interval, and with them the sweep and the scheduler, agree on
exactly the texts that are no padded interval.** -/
theorem interval_readings_agree_iff (env : Env) (subnet : SubnetRow) :
    ((scansAtInterval (effectiveInterval env subnet) = true ↔
        intervalToMs (effectiveInterval env subnet) ≠ none) ∧
      ∀ ip : IpInfo, Probed subnet ip → sweepSpares env subnet ip = schedules env subnet) ↔
      ∀ text, effectiveInterval env subnet = some text → ¬ IsPadded text := by
  rw [← readings_agree_iff]
  refine and_iff_left_of_imp fun agree ip probed => ?_
  rw [Bool.eq_iff_iff, sweepSpares_iff probed, schedules_iff, agree]

/-- A network with a tab after its interval is scanned, and swept as if it were not. -/
theorem padded_interval_is_read_once :
    ¬ ∀ scanInterval default : Option Text,
      scansAtInterval (scanInterval <|> default) = true ↔
      intervalToMs (scanInterval <|> default) ≠ none := by
  intro agree
  have scanned := (agree (some "5m\t".toList) none).mpr (by decide)
  exact absurd scanned (by decide)

end ScanCoverage

end Cidrella
