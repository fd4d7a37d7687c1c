import Cidrella.Lib.Fallible
import Cidrella.Lib.Globs

/-!
# What a restore unpacks

`isRuntimeArtifact`, `assertSafeTarEntries` and `analyzeTarEntries` of `utils/backup.js`, and
the exclusions `restoreBackup` runs `tar` with. The size a restore needs is the size of the
entries that are no logs and no process ids; `tar` is told not to unpack those.

`tar` tells upper from lower case and `isRuntimeArtifact` does not. What `tar` leaves out is
spelled in lower case (`excluded_iff`), and the size is enough exactly for archives whose logs
and process ids all are (`never_underestimates_iff`).
-/

set_option autoImplicit false

namespace Cidrella

namespace BackupSizes

open Globs

/-- `RUNTIME_ARTIFACT_EXCLUDES`. -/
def runtimeArtifactExcludes : List Text :=
  ["--exclude=*.log".toList, "--exclude=*.log.*".toList, "--exclude=*.log-*".toList,
    "--exclude=*.pid".toList]

/-- `DEFENSIVE_EXCLUDES`. -/
def defensiveExcludes : List Text :=
  ["--exclude=dnsmasq.log".toList, "--exclude=dnsmasq.pid".toList]

/-- `/\.log(\.|-|$)/` or `/\.pid$/`. -/
def logOrPid (name : Text) : Bool :=
  name.tails.any fun rest =>
    (".log".toList.isPrefixOf rest && (rest.drop 4).head?.all fun c => c = '.' || c = '-') || rest =
      ".pid".toList

/-- `isRuntimeArtifact`. The flag `i` makes letters of both cases one. -/
def isRuntimeArtifact (name : Text) : Bool := logOrPid (name.map Char.toLower)

/-- What `parseTarVerboseLine` reads in a line of the listing. -/
structure TarEntry where
  type : Char
  name : Text
  size : Nat
  deriving DecidableEq, Repr

/-- The segments of a path without `.` and `..`. -/
def normalize (segments : List Text) : List Text :=
  segments.foldl
    (fun stack segment =>
      if segment = [] ∨ segment = ['.'] then stack
      else if segment = ['.', '.'] then stack.dropLast
      else stack ++ [segment])
    []

/-- `path.resolve(dir, name)`, for an absolute directory. -/
def resolve (dir name : Text) : Text :=
  let joined := if name.head? = some '/' then name else dir ++ '/' :: name
  '/' :: ['/'].intercalate (normalize (joined.splitOn '/'))

/-- `assertSafeTarEntries`. -/
def assertSafeTarEntries (dataDir : Text) (entries : List TarEntry) : Except Text Unit :=
  let resolvedDataDir := resolve dataDir []
  entries.forM fun entry => do
    if entry.type ≠ '-' ∧ entry.type ≠ 'd' then
      throw ("Invalid archive: unsupported entry type '".toList ++ [entry.type] ++
        "' for ".toList ++ entry.name)
    let resolved := resolve dataDir entry.name
    if !(resolvedDataDir ++ ['/']).isPrefixOf resolved && resolved ≠ resolvedDataDir then
      throw "Invalid archive: path traversal detected".toList

/-- What `analyzeTarEntries` returns. -/
structure Analysis where
  totalBytes : Nat
  skippedBytes : Nat
  effectiveBytes : Nat
  entries : List (Text × Nat)
  deriving DecidableEq, Repr

/-- `analyzeTarEntries`. -/
def analyzeTarEntries (dataDir : Text) (tarEntries : List TarEntry) : Except Text Analysis := do
  assertSafeTarEntries dataDir tarEntries
  let totalBytes := (tarEntries.map TarEntry.size).sum
  let skippedBytes :=
      ((tarEntries.filter fun entry => isRuntimeArtifact entry.name).map TarEntry.size).sum
  return {
    totalBytes     := totalBytes
    skippedBytes   := skippedBytes
    effectiveBytes := totalBytes - skippedBytes
    entries        := tarEntries.map fun entry => (entry.name, entry.size) }

/-- The patterns `restoreBackup` gives to `tar`. -/
def patterns : List Text := (runtimeArtifactExcludes ++ defensiveExcludes).map
    (·.drop "--exclude=".length)

/-- `tar` leaves the entry out. -/
def excluded (name : Text) : Bool := excludedBy patterns name

/-- The bytes `tar` unpacks. -/
def extractedBytes (entries : List TarEntry) : Nat :=
  ((entries.filter fun entry => !excluded entry.name).map TarEntry.size).sum

/-! ## What `tar` leaves out -/

/-- What may follow `.log` and `.pid`: the name of a log goes on, or it was that of a directory. -/
def goesOn (marks : List Char) (rest : Text) : Bool := rest.head?.all (· ∈ marks)

/-- The path has a log or a process id, spelled in lower case, or a directory of such a name. -/
def spelledInLowerCase (name : Text) : Bool :=
  name.tails.any fun rest =>
    (".log".toList.isPrefixOf rest && goesOn ['.', '-', '/'] (rest.drop 4)) ||
      (".pid".toList.isPrefixOf rest && goesOn ['/'] (rest.drop 4))

section

variable {name : Text}

theorem patterns_eq : patterns =
    ["*.log".toList, "*.log.*".toList, "*.log-*".toList, "*.pid".toList, "dnsmasq.log".toList,
    "dnsmasq.pid".toList] :=
  by decide

theorem head?_all_iff {marks : List Char} {rest : Text} :
    goesOn marks rest = true ↔ rest = [] ∨ ∃ c more, c ∈ marks ∧ rest = c :: more := by
  cases rest with
  | nil => simp [goesOn]
  | cons c more => simp [goesOn]

theorem stands_iff {word : Text} (long : word.length = 4) (marks : List Char) (rest : Text) :
    (word.isPrefixOf rest && goesOn marks (rest.drop 4)) = true ↔
      ∃ more, rest = word ++ more ∧ goesOn marks more = true := by
  rw [Bool.and_eq_true, List.isPrefixOf_iff_prefix]
  constructor
  · rintro ⟨⟨more, rfl⟩, held⟩
    refine ⟨more, rfl, ?_⟩
    rwa [← long, List.drop_left] at held
  · rintro ⟨more, rfl, held⟩
    refine ⟨List.prefix_append _ _, ?_⟩
    rwa [← long, List.drop_left]

theorem spelledInLowerCase_iff : spelledInLowerCase name = true ↔
    (∃ front more, name = front ++ (".log".toList ++ more) ∧ goesOn ['.', '-', '/'] more = true) ∨
      ∃ front more, name = front ++ (".pid".toList ++ more) ∧ goesOn ['/'] more = true := by
  simp only [spelledInLowerCase, List.any_eq_true, List.mem_tails, Bool.or_eq_true,
    stands_iff (show ".log".toList.length = 4 from rfl),
    stands_iff (show ".pid".toList.length = 4 from rfl)]
  constructor
  · rintro ⟨rest, ⟨front, rfl⟩, ⟨more, rfl, held⟩ | ⟨more, rfl, held⟩⟩
    · exact .inl ⟨front, more, rfl, held⟩
    · exact .inr ⟨front, more, rfl, held⟩
  · rintro (⟨front, more, rfl, held⟩ | ⟨front, more, rfl, held⟩)
    · exact ⟨_, List.suffix_append _ _, .inl ⟨more, rfl, held⟩⟩
    · exact ⟨_, List.suffix_append _ _, .inr ⟨more, rfl, held⟩⟩

theorem matches_iff {part : Text} : (∃ pattern ∈ patterns, glob pattern part = true) ↔
    (∃ front more, part = front ++ (".log".toList ++ more) ∧ goesOn ['.', '-'] more = true) ∨
      ∃ front, part = front ++ ".pid".toList := by
  have ends {word : Text} (plain : '*' ∉ word) := @glob_ends part word plain
  have has {word : Text} (plain : '*' ∉ word) := @glob_has part word plain
  rw [patterns_eq]
  constructor
  · rintro ⟨pattern, listed, held⟩
    simp only [List.mem_cons, List.not_mem_nil, or_false] at listed
    rcases listed with rfl | rfl | rfl | rfl | rfl | rfl
    · obtain ⟨front, rfl⟩ := (@ends ".log".toList (by decide)).mp held
      exact .inl ⟨front, [], by rw [List.append_nil], rfl⟩
    · obtain ⟨front, more, rfl⟩ := (@has ".log.".toList (by decide)).mp held
      exact .inl ⟨front, '.' :: more, rfl, rfl⟩
    · obtain ⟨front, more, rfl⟩ := (@has ".log-".toList (by decide)).mp held
      exact .inl ⟨front, '-' :: more, rfl, rfl⟩
    · exact .inr ((@ends ".pid".toList (by decide)).mp held)
    · rw [(glob_letters (by decide)).mp held]
      exact .inl ⟨"dnsmasq".toList, [], rfl, rfl⟩
    · rw [(glob_letters (by decide)).mp held]
      exact .inr ⟨"dnsmasq".toList, rfl⟩
  · rintro (⟨front, more, rfl, goes⟩ | ⟨front, rfl⟩)
    · rcases head?_all_iff.mp goes with rfl | ⟨c, more, mark, rfl⟩
      · exact ⟨"*.log".toList, by simp, (@ends ".log".toList (by decide)).mpr
          ⟨front, by rw [List.append_nil]⟩⟩
      · simp only [List.mem_cons, List.not_mem_nil, or_false] at mark
        rcases mark with rfl | rfl
        · exact ⟨"*.log.*".toList, by simp, (@has ".log.".toList (by decide)).mpr
            ⟨front, more, rfl⟩⟩
        · exact ⟨"*.log-*".toList, by simp, (@has ".log-".toList (by decide)).mpr
            ⟨front, more, rfl⟩⟩
    · exact ⟨"*.pid".toList, by simp, (@ends ".pid".toList (by decide)).mpr ⟨front, rfl⟩⟩

theorem excluded_of_matches {covered : Text} (above : covered = name ∨ ∃ rest, name = covered ++
    '/' :: rest) (held : ∃ pattern ∈ patterns, glob pattern covered = true) :
    excluded name = true :=
  excludedBy_iff.mpr ⟨covered, above, covered, List.mem_cons_self, held⟩

/-- **`tar` leaves out what is spelled in lower case.** -/
theorem excluded_iff : excluded name = true ↔ spelledInLowerCase name = true := by
  rw [spelledInLowerCase_iff]
  constructor
  · intro out
    obtain ⟨covered, above, part, member, held⟩ := excludedBy_iff.mp out
    obtain ⟨before, rfl⟩ := exists_of_mem_trailingParts member
    rcases matches_iff.mp held with ⟨front, more, rfl, goes⟩ | ⟨front, rfl⟩
    · left
      rcases above with rfl | ⟨rest, rfl⟩
      · refine ⟨before ++ front, more, by simp, ?_⟩
        rcases head?_all_iff.mp goes with rfl | ⟨c, more, mark, rfl⟩
        · rfl
        · exact head?_all_iff.mpr (.inr ⟨c, more, by revert mark; simp; tauto, rfl⟩)
      · refine ⟨before ++ front, more ++ '/' :: rest, by simp, ?_⟩
        rcases head?_all_iff.mp goes with rfl | ⟨c, more, mark, rfl⟩
        · rfl
        · exact head?_all_iff.mpr (.inr ⟨c, _, by revert mark; simp; tauto, rfl⟩)
    · right
      rcases above with rfl | ⟨rest, rfl⟩
      · exact ⟨before ++ front, [], by simp, rfl⟩
      · exact ⟨before ++ front, '/' :: rest, by simp, rfl⟩
  · rintro (⟨front, more, rfl, goes⟩ | ⟨front, more, rfl, goes⟩)
    · rcases head?_all_iff.mp goes with rfl | ⟨c, more, mark, rfl⟩
      · exact excluded_of_matches (.inl rfl) (matches_iff.mpr (.inl ⟨front, [], rfl, rfl⟩))
      · simp only [List.mem_cons, List.not_mem_nil, or_false] at mark
        rcases mark with rfl | rfl | rfl
        · exact excluded_of_matches (.inl rfl)
            (matches_iff.mpr (.inl ⟨front, '.' :: more, rfl, rfl⟩))
        · exact excluded_of_matches (.inl rfl)
            (matches_iff.mpr (.inl ⟨front, '-' :: more, rfl, rfl⟩))
        · exact @excluded_of_matches _ (front ++ ".log".toList) (.inr ⟨more, by simp⟩)
            (matches_iff.mpr (.inl ⟨front, [], by simp, rfl⟩))
    · rcases head?_all_iff.mp goes with rfl | ⟨c, more, mark, rfl⟩
      · exact excluded_of_matches (.inl rfl) (matches_iff.mpr (.inr ⟨front, by simp⟩))
      · rw [List.mem_singleton.mp mark]
        exact @excluded_of_matches _ (front ++ ".pid".toList) (.inr ⟨more, by simp⟩)
          (matches_iff.mpr (.inr ⟨front, rfl⟩))

end

/-! ## The size -/

section

variable {dataDir : Text} {entries : List TarEntry}

/-- The size is no less than what `tar` unpacks, and `isRuntimeArtifact` holds only of what `tar`
leaves out. -/
def NeverUnderestimates (dataDir : Text) (entries : List TarEntry) : Prop :=
  ∀ analysis, analyzeTarEntries dataDir entries = .ok analysis →
    extractedBytes entries ≤ analysis.effectiveBytes ∧
      ∀ entry ∈ entries, isRuntimeArtifact entry.name = true → excluded entry.name = true

theorem analyzeTarEntries_eq (safe : assertSafeTarEntries dataDir entries = .ok ()) :
    ∃ analysis, analyzeTarEntries dataDir entries = .ok analysis ∧
      analysis.effectiveBytes = (entries.map TarEntry.size).sum -
        ((entries.filter fun entry => isRuntimeArtifact entry.name).map TarEntry.size).sum := by
  rw [analyzeTarEntries, safe]
  exact ⟨_, rfl, rfl⟩

theorem extracted_add_skipped_le
    (lockstep : ∀ entry ∈ entries, isRuntimeArtifact entry.name = true →
    excluded entry.name = true) :
    extractedBytes entries + ((entries.filter fun entry => isRuntimeArtifact entry.name).map
      TarEntry.size).sum ≤ (entries.map TarEntry.size).sum := by
  induction entries with
  | nil => exact le_refl 0
  | cons entry entries ih =>
    obtain ⟨first, others⟩ := List.forall_mem_cons.mp lockstep
    have rest := ih others
    simp only [extractedBytes, List.filter_cons, List.map_cons, List.sum_cons] at *
    cases artifact : isRuntimeArtifact entry.name with
    | true =>
      rw [first artifact]
      simp only [Bool.not_true, Bool.false_eq_true, if_false, if_true, List.map_cons, List.sum_cons]
      omega
    | false =>
      split
      · simp only [Bool.false_eq_true, if_false, List.map_cons, List.sum_cons]
        omega
      · simp only [Bool.false_eq_true, if_false]
        omega

/-- **The size is enough exactly for archives whose logs and process ids are spelled in lower
case.** -/
theorem never_underestimates_iff (dataDir : Text) (entries : List TarEntry) :
    NeverUnderestimates dataDir entries ↔
      (assertSafeTarEntries dataDir entries = .ok () →
        ∀ entry ∈ entries, isRuntimeArtifact entry.name = true →
        spelledInLowerCase entry.name = true) := by
  constructor
  · intro enough safe entry member artifact
    obtain ⟨analysis, done, -⟩ := analyzeTarEntries_eq safe
    exact excluded_iff.mp ((enough analysis done).2 entry member artifact)
  · intro spelled analysis done
    obtain ⟨⟨⟩, safe, -⟩ := bind_eq_ok.mp done
    obtain ⟨analysis', done', bytes⟩ := analyzeTarEntries_eq safe
    obtain rfl := Except.ok.inj (done.symm.trans done')
    have lockstep : ∀ entry ∈ entries, isRuntimeArtifact entry.name = true →
        excluded entry.name = true :=
      fun entry member artifact => excluded_iff.mpr (spelled safe entry member artifact)
    refine ⟨?_, lockstep⟩
    have sum := extracted_add_skipped_le lockstep
    omega

end

/-- A log of an upper-case name is unpacked and not counted. -/
theorem upper_case_log_is_not_counted : ¬ ∀ (dataDir : Text) (entries : List TarEntry)
    (analysis : Analysis), analyzeTarEntries dataDir entries = .ok analysis →
    extractedBytes entries ≤ analysis.effectiveBytes := by
  intro all
  have enough := all "/srv/cidrella".toList [⟨'-', "dnsmasq/dnsmasq.LOG".toList, 7⟩] _ rfl
  exact absurd enough (by decide)

end BackupSizes

end Cidrella
