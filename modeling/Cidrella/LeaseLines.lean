import Cidrella.LeaseHandover
import Cidrella.Lib.Words
import Cidrella.RecordNames

/-!
# The text of a lease file

`formatLeaseFile` and `parseLeaseFile` of `backends/dnsmasq/dhcp.js` as they write and read
text. A line is the words of a `LeaseLine` with spaces between them, and reading it back
finds words wherever white space stands; what the words of a line mean is the matter of
`LeaseHandover`.

`handover_iff` says which leases of Kea survive both formats: those whose texts are words
and not the star that stands for nothing, with an address of the lease's own family and an
expiry that neither format takes for something else.
-/

set_option autoImplicit false

namespace Cidrella

open Address DnsNames Text

namespace LeaseHandover

/-! ## Lines as text -/

/-- A text, if it is not empty. -/
def Word.of? (text : Text) : Option Word := if filled : text ≠ [] then some ⟨text, filled⟩ else none

/-- `line.trim().split(/\s+/)`; of a blank line that is one empty text, and here nothing. -/
def wordsOf (text : Text) : List Word := (Words.words isTrimmed text).filterMap Word.of?

/-- The words of a line. -/
def readWords : List Word → Option LeaseLine
  | expiry :: identity :: ip :: hostname :: rest =>
    if expiry.text = "duid".toList || !isNumeral expiry.text then none
    else some ⟨readDigits 10 expiry.text, identity, ip.text, hostname, rest.head?⟩
  | _ => none

/-- `parseLeaseLine`. -/
def parseLineText (text : Text) : Option Lease := (readWords (wordsOf text)).bind parseLeaseLine

/-- The text of a line. -/
def LeaseLine.text (line : LeaseLine) : Text :=
  [' '].intercalate
    ([Nat.toDigits 10 line.expiry, line.identity.text, line.ip, line.hostname.text] ++
      line.clientId.toList.map Word.text)

/-- A text without white space. -/
def IsSolid (text : Text) : Prop := ∀ c ∈ text, isTrimmed c = false

/-- The DUID of a server, in the hex digits and colons that `normalizeDuid` leaves. -/
structure ServerDuid where
  word : Word
  solid : IsSolid word.text

/-- The line of a server's DUID. -/
def ServerDuid.line (duid : ServerDuid) : Text := "duid ".toList ++ duid.word.text

/-- The lines of `formatLeaseFile`. -/
def fileLines (serverDuid : Option ServerDuid) (leases : List Lease) : List Text :=
  (leases.filter (·.dhcpVersion ≠ .v6)).map (fun lease => (formatLeaseLine lease).text) ++
    serverDuid.toList.map ServerDuid.line ++
    (leases.filter (·.dhcpVersion = .v6)).map fun lease => (formatLeaseLine lease).text

/-- `formatLeaseFile`. -/
def leaseFileText (serverDuid : Option ServerDuid) (leases : List Lease) : Text :=
  let lines := fileLines serverDuid leases
  if lines = [] then [] else ['\n'].intercalate lines ++ ['\n']

/-- `isWholeLeaseFile`. -/
def isWholeLeaseFile (content : Text) : Bool := content = [] || content.getLast? = some '\n'

/-- `parseLeaseFile`. -/
def parseLeaseFile (content : Text) : Option (List Lease) :=
  if !isWholeLeaseFile content then none else some ((content.splitOn '\n').filterMap parseLineText)

/-! ## What survives -/

/-- The leases are read back from the file they are written to: each of them, and no other. -/
def SurviveFile (serverDuid : Option ServerDuid) (leases : List Lease) : Prop :=
  ∃ parsed, parseLeaseFile (leaseFileText serverDuid leases) = some parsed ∧ parsed.Perm leases

/-- A lease is read back from Kea after it was added there. -/
def SurvivesKea (now subnetLifetime : Nat) (lease : Lease) : Prop :=
  backendLeaseFromKea (leaseAdd now subnetLifetime (keaLeaseArguments now lease)) = some lease

/-- A lease that Kea has in use: a valid address, and what Kea knows the client by. -/
structure FromKea (lease : Lease) : Prop where
  read : ∃ row, backendLeaseFromKea row = some lease
  address : isValidAddress lease.ip = true
  hardware : lease.dhcpVersion = .v4 → lease.mac.isSome = true
  client : lease.dhcpVersion = .v6 → lease.duid.isSome = true

/-- The texts of a lease are words of a line, and mean there what they mean in the lease. -/
structure FitsLine (lease : Lease) : Prop where
  ip : IsSolid lease.ip
  family : isValidIpv6 lease.ip = true ↔ lease.dhcpVersion = .v6
  mac : ∀ word, lease.mac = some word → IsSolid word.text
  hostname : ∀ word, lease.hostname = some word → IsSolid word.text ∧ word ≠ star
  clientId : ∀ word, lease.clientId = some word → IsSolid word.text ∧ word ≠ star
  timed : lease.expiresAt ≠ .at 0

/-- What servers write of a lease: its address and the ids of its client are words, of hex
digits and colons, and its name does not break a line. -/
structure InOneLine (address : Text) (ids names : List Word) : Prop where
  filled : address ≠ []
  solid : IsSolid address
  ids : ∀ word ∈ ids, IsSolid word.text
  names : ∀ word ∈ names, '\n' ∉ word.text

/-- A lease that stays in one line. -/
def Lease.OneLine (lease : Lease) : Prop :=
  InOneLine lease.ip (lease.mac.toList ++ lease.clientId.toList ++ lease.duid.toList)
    lease.hostname.toList

/-! ## Reading words -/

theorem of?_text (word : Word) : Word.of? word.text = some word := dif_pos word.filled

theorem text_of_of? {text : Text} {word : Word} (found : Word.of? text = some word) :
    word.text = text := by
  rw [Word.of?] at found
  split at found
  · rw [← Option.some.inj found]
  · cases found

theorem solid_of_mem_wordsOf {text : Text} {word : Word} (member : word ∈ wordsOf text) :
    IsSolid word.text := by
  obtain ⟨piece, isWord, found⟩ := List.mem_filterMap.mp member
  rw [text_of_of? found]
  exact (Words.of_mem_words isWord).2

/-- **Words with spaces between them are read back.** -/
theorem wordsOf_intercalate {ws : List Word} (solid : ∀ word ∈ ws, IsSolid word.text) :
    wordsOf ([' '].intercalate (ws.map Word.text)) = ws := by
  have kept : Words.words isTrimmed ([' '].intercalate (ws.map Word.text)) = ws.map Word.text := by
    refine Words.words_intercalate (by decide) fun text member => ?_
    obtain ⟨word, isWord, rfl⟩ := List.mem_map.mp member
    exact ⟨word.filled, solid word isWord⟩
  rw [wordsOf, kept, List.filterMap_map]
  have same : Word.of? ∘ Word.text = some := funext of?_text
  rw [same, List.filterMap_some]

theorem isSolid_decimal (n : Nat) : IsSolid (Nat.toDigits 10 n) := fun c member =>
  isTrimmed_of_isPlain <| isPlain_of_isHexDigit <|
    @forall_mem_toDigits 10 (by decide) (isHexDigit · = true)
      (fun _ small => isHexDigit_digitChar (by omega)) n c member

/-! ## A line that is read has words -/

theorem lower_solid {word : Word} (solid : IsSolid word.text) : IsSolid word.lower.text := by
  intro c member
  obtain ⟨d, inside, rfl⟩ := List.mem_map.mp member
  rw [isTrimmed_toLower]
  exact solid d inside

theorem readWords_eq_some {ws : List Word} {line : LeaseLine} (read : readWords ws = some line) :
    ∃ expiry identity ip hostname rest, ws = expiry :: identity :: ip :: hostname :: rest ∧
      line = ⟨readDigits 10 expiry.text, identity, ip.text, hostname, rest.head?⟩ := by
  match ws, read with
  | expiry :: identity :: ip :: hostname :: rest, read =>
    rw [readWords] at read
    split at read
    · exact absurd read nofun
    · exact ⟨expiry, identity, ip, hostname, rest, rfl, (Option.some.inj read).symm⟩

theorem of_unlessStar {word other : Word} (read : unlessStar word = some other) :
    other = word ∧ other ≠ star := by
  have named := ne_star_of_unlessStar read
  rw [unlessStar] at read
  split at read
  · exact absurd read nofun
  · exact ⟨(Option.some.inj read).symm, named⟩

/-- What is read from a line fits one. -/
theorem fitsLine_of_parseLineText {text : Text} {lease : Lease}
    (read : parseLineText text = some lease) :
    FitsLine lease := by
  obtain ⟨line, found, parsed⟩ := Option.bind_eq_some_iff.mp read
  obtain ⟨expiry, identity, ip, hostname, rest, words, rfl⟩ := readWords_eq_some found
  have solid : ∀ word ∈ wordsOf text, IsSolid word.text := fun word => solid_of_mem_wordsOf
  rw [words] at solid
  have named : ∀ word, unlessStar hostname = some word → IsSolid word.text ∧ word ≠ star := by
    intro word kept
    obtain ⟨rfl, other⟩ := of_unlessStar kept
    exact ⟨solid word (by simp), other⟩
  have client : ∀ word, rest.head?.bind unlessStar = some word → IsSolid word.text ∧
      word ≠ star := by
    intro word kept
    obtain ⟨first, isFirst, kept⟩ := Option.bind_eq_some_iff.mp kept
    obtain ⟨rfl, other⟩ := of_unlessStar kept
    exact ⟨solid word (by simp [List.mem_of_head? isFirst]), other⟩
  have timed :
      (if readDigits 10 expiry.text = 0 then Expiry.infinite
      else .at (readDigits 10 expiry.text)) ≠ .at 0 := by
    split
    · exact nofun
    · rename_i later
      exact fun same => later (Expiry.at.inj same)
  rw [parseLeaseLine] at parsed
  split at parsed
  · exact absurd parsed nofun
  · dsimp only at parsed
    split at parsed
    · rename_i six
      obtain ⟨⟨temporary, iaid⟩, -, rfl⟩ := Option.map_eq_some_iff.mp parsed
      exact ⟨solid ip (by simp), iff_of_true six rfl, nofun, named, client, timed⟩
    · rename_i four
      obtain rfl := Option.some.inj parsed
      refine ⟨solid ip (by simp), iff_of_false four nofun, ?_, named, client, timed⟩
      rintro word ⟨⟩
      exact lower_solid (solid identity (by simp))

/-! ## A line that is written is read -/

theorem readWords_line {line : LeaseLine} (filled : line.ip ≠ []) {client : Word}
    (named : line.clientId = some client) :
    readWords [decimal line.expiry, line.identity, ⟨line.ip, filled⟩, line.hostname, client] =
    some line := by
  have numeral : isNumeral (decimal line.expiry).text = true := by
    simp only [isNumeral, decimal, Nat.toDigits_ne_nil, ne_eq, not_false_eq_true, decide_true,
      Bool.true_and, List.all_eq_true]
    exact fun c member => isDigit_of_mem_decimal member
  have noDuid : (decimal line.expiry).text ≠ ['d', 'u', 'i', 'd'] := by
    intro same
    rw [same] at numeral
    exact absurd numeral (by decide)
  have value : readDigits 10 (decimal line.expiry).text = line.expiry :=
    readDigits_toDigits (by decide) (by decide) line.expiry
  rw [readWords, if_neg (by simp [noDuid, numeral]), value, List.head?_cons, ← named]

/-- A line of words. -/
def LeaseLine.Spelled (line : LeaseLine) (ws : List Word) : Prop :=
  (∀ word ∈ ws, IsSolid word.text) ∧ line.text = [' '].intercalate (ws.map Word.text) ∧
    readWords ws = some line

theorem LeaseLine.spelled {line : LeaseLine} (filled : line.ip ≠ []) {client : Word}
    (named : line.clientId = some client) (identity : IsSolid line.identity.text)
    (ip : IsSolid line.ip) (hostname : IsSolid line.hostname.text) (solid : IsSolid client.text) :
    ∃ ws, line.Spelled ws := by
  refine ⟨[decimal line.expiry, line.identity, ⟨line.ip, filled⟩, line.hostname, client], ?_, ?_,
    readWords_line filled named⟩
  · simp only [List.forall_mem_cons]
    exact ⟨isSolid_decimal _, identity, ip, hostname, solid,
      fun _ member => absurd member List.not_mem_nil⟩
  · rw [LeaseLine.text, named]
    rfl

theorem ne_nil_of_isValidAddress {ip : Text} (valid : isValidAddress ip = true) : ip ≠ [] := by
  rintro rfl
  exact absurd valid (by decide)

theorem isSolid_iaidWord (temporary : Bool) (iaid : Option Nat) :
    IsSolid (iaidWord temporary iaid).text := by
  have number : IsSolid ((iaid.map decimal).getD null).text := by
    cases iaid with
    | none => exact solid_of_all (by decide)
    | some n => exact isSolid_decimal n
  cases temporary with
  | false => exact number
  | true => exact List.forall_mem_cons.mpr ⟨by decide, number⟩

theorem isSolid_star : IsSolid star.text := solid_of_all (by decide)

theorem shape_of_read {row : KeaLease} {lease : Lease}
    (read : backendLeaseFromKea row = some lease) :
    (lease.dhcpVersion = .v4 ∧ lease.duid = none ∧ lease.iaid = none ∧ lease.temporary = false ∧
        lease.mac.map Word.lower = lease.mac ∧ lease.clientId.map Word.lower = lease.clientId) ∨
      (lease.dhcpVersion = .v6 ∧ lease.mac = none ∧ lease.clientId = lease.duid ∧
        lease.iaid.isSome = true ∧ lease.duid.map Word.lower = lease.duid) := by
  have lowered : ∀ raw : Option Word, (raw.map Word.lower).map Word.lower = raw.map Word.lower := by
    intro raw
    rw [Option.map_map]
    exact Option.map_congr fun word _ => Word.lower_lower word
  rw [backendLeaseFromKea] at read
  split at read
  · exact absurd read nofun
  · cases family : row.family with
    | v4 =>
      rw [family] at read
      obtain rfl := Option.some.inj read
      exact .inl ⟨rfl, rfl, rfl, rfl, lowered _, lowered _⟩
    | v6 =>
      rw [family] at read
      dsimp only at read
      split at read
      · exact absurd read nofun
      · obtain rfl := Option.some.inj read
        exact .inr ⟨rfl, rfl, rfl, rfl, lowered _⟩

/-- A lease of words is read back from the words of its line. -/
theorem parseLeaseLine_formatLeaseLine {lease : Lease} (known : FromKea lease)
    (fits : FitsLine lease) :
    parseLeaseLine (formatLeaseLine lease) = some lease := by
  obtain ⟨row, read⟩ := known.read
  have name : unlessStar (lease.hostname.getD star) = lease.hostname :=
    unlessStar_getD fun word there => (fits.hostname word there).2
  have client : unlessStar (lease.clientId.getD star) = lease.clientId :=
    unlessStar_getD fun word there => (fits.clientId word there).2
  have expiry : (if (formatLeaseLine lease).expiry = 0 then Expiry.infinite
      else .at (formatLeaseLine lease).expiry) = lease.expiresAt := by
    cases times : lease.expiresAt with
    | infinite => simp [formatLeaseLine, times]
    | «at» time =>
      have later : time ≠ 0 := by
        rintro rfl
        exact fits.timed times
      simp [formatLeaseLine, times, later]
  have valid : ¬ (!isValidAddress (formatLeaseLine lease).ip) = true := by
    rw [Bool.not_eq_true', Bool.not_eq_false]
    exact known.address
  rw [parseLeaseLine, if_neg valid]
  dsimp only
  rw [expiry]
  obtain ⟨version, duid, iaid, temporary, lowered, -⟩ | ⟨version, mac, client', iaid, lowered⟩ :=
    shape_of_read read
  · have four : ¬ isValidIpv6 (formatLeaseLine lease).ip = true := by
      intro six
      rw [fits.family.mp six] at version
      exact absurd version nofun
    obtain ⟨hardware, isMac⟩ := Option.isSome_iff_exists.mp (known.hardware version)
    rw [if_neg four]
    cases lease
    subst version duid iaid temporary isMac
    simp only [formatLeaseLine, Option.bind_some, name, client, Option.getD_some]
    exact congrArg (fun mac => some (Lease.mk _ mac _ _ _ _ _ _ _)) lowered
  · have six : isValidIpv6 (formatLeaseLine lease).ip = true := fits.family.mpr version
    obtain ⟨number, isIaid⟩ := Option.isSome_iff_exists.mp iaid
    obtain ⟨word, isDuid⟩ := Option.isSome_iff_exists.mp (known.client version)
    rw [if_pos six]
    cases lease
    dsimp only at version mac client' isIaid isDuid
    subst version mac client' isIaid isDuid
    simp only [Option.getD_some] at client
    simp only [formatLeaseLine, iaidMatch_iaidWord, Option.map_some, Option.bind_some, name,
      Option.or_some, Option.getD_some, client]
    exact congrArg (fun duid => some (Lease.mk _ _ _ _ _ _ duid _ _)) lowered

theorem oneLine_of_fitsLine {lease : Lease} (valid : isValidAddress lease.ip = true)
    (fits : FitsLine lease) (duid : ∀ word, lease.duid = some word → IsSolid word.text) :
    lease.OneLine where
  filled := ne_nil_of_isValidAddress valid
  solid := fits.ip
  ids := by
    simp only [List.mem_append, Option.mem_toList]
    rintro word ((mac | clientId) | isDuid)
    · exact fits.mac word mac
    · exact (fits.clientId word clientId).1
    · exact duid word isDuid
  names := by
    intro word named newline
    exact absurd ((fits.hostname word (Option.mem_toList.mp named)).1 _ newline) (by decide)

theorem solid_getD {word : Option Word} {other : Word} (solid : IsSolid other.text)
    (each : ∀ w, word = some w → IsSolid w.text) : IsSolid (word.getD other).text := by
  cases word with
  | none => exact solid
  | some w => exact each w rfl

theorem spelled_of_oneLine {lease : Lease} (oneLine : lease.OneLine)
    (name : ∀ word, lease.hostname = some word → IsSolid word.text) : ∃ ws,
    (formatLeaseLine lease).Spelled ws := by
  have hostname : IsSolid (formatLeaseLine lease).hostname.text := solid_getD isSolid_star name
  have ids : ∀ word, lease.mac = some word ∨ lease.clientId = some word ∨ lease.duid = some word →
      IsSolid word.text := by
    intro word known
    refine oneLine.ids word ?_
    simp only [List.mem_append, Option.mem_toList]
    tauto
  cases version : lease.dhcpVersion with
  | v4 =>
    refine @LeaseLine.spelled _ oneLine.filled (lease.clientId.getD star) ?_ ?_
      oneLine.solid hostname (solid_getD isSolid_star fun word there =>
      ids word (.inr (.inl there)))
    · simp only [formatLeaseLine, version]
    · simp only [formatLeaseLine, version]
      exact solid_getD (solid_of_all (by decide)) fun word there => ids word (.inl there)
  | v6 =>
    refine @LeaseLine.spelled _ oneLine.filled ((lease.duid.or lease.clientId).getD star) ?_ ?_
      oneLine.solid hostname (solid_getD isSolid_star fun word there => ?_)
    · simp only [formatLeaseLine, version]
    · simp only [formatLeaseLine, version]
      exact isSolid_iaidWord _ _
    · rcases Option.or_eq_some_iff.mp there with duid | ⟨-, clientId⟩
      · exact ids word (.inr (.inr duid))
      · exact ids word (.inr (.inl clientId))

theorem spelled_formatLeaseLine {lease : Lease} (known : FromKea lease) (fits : FitsLine lease) :
    ∃ ws, (formatLeaseLine lease).Spelled ws := by
  refine spelled_of_oneLine (oneLine_of_fitsLine known.address fits fun word isDuid => ?_)
      fun word there =>
    (fits.hostname word there).1
  obtain ⟨row, read⟩ := known.read
  obtain ⟨-, duid, -⟩ | ⟨-, -, client, -⟩ := shape_of_read read
  · exact absurd (duid.symm.trans isDuid) nofun
  · exact (fits.clientId word (client.trans isDuid)).1

/-- **A lease that fits a line is read back from its own.** -/
theorem parseLineText_text {lease : Lease} (known : FromKea lease) (fits : FitsLine lease) :
    parseLineText (formatLeaseLine lease).text = some lease := by
  obtain ⟨ws, solid, spelled, line⟩ := spelled_formatLeaseLine known fits
  rw [parseLineText, spelled, wordsOf_intercalate solid, line, Option.bind_some,
    parseLeaseLine_formatLeaseLine known fits]

/-! ## The file -/

theorem oneLine_intercalate {ws : List Word} (solid : ∀ word ∈ ws, IsSolid word.text) :
    '\n' ∉ [' '].intercalate (ws.map Word.text) := by
  intro member
  obtain isSpace | ⟨text, isText, inside⟩ := mem_intercalate_singleton member
  · exact absurd isSpace (by decide)
  · obtain ⟨word, isWord, rfl⟩ := List.mem_map.mp isText
    exact absurd (solid word isWord '\n' inside) (by decide)

theorem ServerDuid.words (duid : ServerDuid) :
    '\n' ∉ duid.line ∧ parseLineText duid.line = none := by
  have spelled : duid.line = [' '].intercalate
      ([⟨"duid".toList, by decide⟩, duid.word].map Word.text) := by
    simp [ServerDuid.line, List.intercalate]
  have solid : ∀ word ∈ [⟨"duid".toList, by decide⟩, duid.word], IsSolid word.text := by
    simp only [List.forall_mem_cons]
    exact ⟨solid_of_all (by decide), duid.solid,
      fun _ member => absurd member List.not_mem_nil⟩
  refine ⟨spelled ▸ oneLine_intercalate solid, ?_⟩
  rw [parseLineText, spelled, wordsOf_intercalate solid]
  rfl

theorem parseLineText_nil : parseLineText [] = none := rfl

theorem parseLeaseFile_lines {lines : List Text} (oneLine : ∀ line ∈ lines, '\n' ∉ line) :
    parseLeaseFile (if lines = [] then [] else ['\n'].intercalate lines ++ ['\n']) =
      some (lines.filterMap parseLineText) := by
  split
  · rename_i empty
    rw [empty]
    rfl
  · rename_i filled
    have whole : isWholeLeaseFile (['\n'].intercalate lines ++ ['\n']) = true := by
      simp [isWholeLeaseFile]
    rw [parseLeaseFile, whole, Bool.not_true, if_neg Bool.false_ne_true,
      List.splitOn_append_cons_self, List.splitOn_intercalate '\n' oneLine filled, List.splitOn_nil,
      List.filterMap_append]
    simp [parseLineText_nil]

section File

variable {serverDuid : Option ServerDuid} {leases : List Lease}

/-- **Leases that fit their lines survive the file.** -/
theorem surviveFile_of_fitsLine (known : ∀ lease ∈ leases, FromKea lease)
    (fits : ∀ lease ∈ leases, FitsLine lease) : SurviveFile serverDuid leases := by
  have lines : ∀ kept : Lease → Bool,
      ((leases.filter kept).map fun lease => (formatLeaseLine lease).text).filterMap parseLineText =
        leases.filter kept := by
    intro kept
    rw [List.filterMap_map]
    refine Eq.trans (List.filterMap_congr fun lease member => ?_) List.filterMap_some
    have isLease := List.mem_of_mem_filter member
    exact parseLineText_text (known lease isLease) (fits lease isLease)
  have duidLines : (serverDuid.toList.map ServerDuid.line).filterMap parseLineText = [] := by
    rw [List.filterMap_map, List.filterMap_eq_nil_iff]
    exact fun duid _ => duid.words.2
  have leaseLine : ∀ kept : Lease → Bool,
      ∀ line ∈ (leases.filter kept).map fun lease => (formatLeaseLine lease).text, '\n' ∉ line := by
    intro kept line member
    obtain ⟨lease, isLease, rfl⟩ := List.mem_map.mp member
    have isLease := List.mem_of_mem_filter isLease
    obtain ⟨ws, solid, spelled, -⟩ := spelled_formatLeaseLine (known lease isLease)
      (fits lease isLease)
    exact spelled ▸ oneLine_intercalate solid
  have oneLine : ∀ line ∈ fileLines serverDuid leases, '\n' ∉ line := by
    refine List.forall_mem_append.mpr ⟨List.forall_mem_append.mpr ⟨leaseLine _, ?_⟩, leaseLine _⟩
    intro line member
    obtain ⟨duid, -, rfl⟩ := List.mem_map.mp member
    exact duid.words.1
  refine ⟨_, parseLeaseFile_lines oneLine, ?_⟩
  rw [fileLines, List.filterMap_append, List.filterMap_append, lines, lines, duidLines,
    List.append_nil]
  simpa using List.filter_append_perm (fun lease : Lease => decide (lease.dhcpVersion ≠ .v6)) leases

/-- **Leases that survive the file fit their lines.** -/
theorem fitsLine_of_surviveFile (survive : SurviveFile serverDuid leases) :
    ∀ lease ∈ leases, FitsLine lease := by
  obtain ⟨parsed, read, same⟩ := survive
  intro lease member
  rw [parseLeaseFile] at read
  split at read
  · exact absurd read nofun
  · obtain rfl := Option.some.inj read
    obtain ⟨line, -, found⟩ := List.mem_filterMap.mp (same.symm.subset member)
    exact fitsLine_of_parseLineText found

end File

/-! ## Kea and back -/

theorem read_leaseAdd (now subnetLifetime : Nat) {lease : Lease} (known : FromKea lease) :
    backendLeaseFromKea (leaseAdd now subnetLifetime (keaLeaseArguments now lease)) =
      some { lease with expiresAt :=
      (leaseAdd now subnetLifetime (keaLeaseArguments now lease)).expiresAt } := by
  obtain ⟨row, read⟩ := known.read
  obtain ⟨version, duid, iaid, temporary, mac, client⟩ | ⟨version, mac, client, iaid, duid⟩ :=
    shape_of_read read
  · cases lease
    dsimp only at version duid iaid temporary mac client
    subst version duid iaid temporary
    exact congrArg₂ (fun mac clientId => some (Lease.mk _ mac _ clientId _ _ _ _ _)) mac client
  · obtain ⟨number, isIaid⟩ := Option.isSome_iff_exists.mp iaid
    cases lease with
    | mk ip mac' hostname clientId expiresAt dhcpVersion duid' iaid' temporary =>
      dsimp only at version mac client isIaid duid
      subst version mac client isIaid
      have both : clientId.or clientId = clientId := by cases clientId <;> rfl
      cases temporary with
      | true =>
        have one := congrArg (fun id => some (Lease.mk ip none hostname id
          (leaseAdd now subnetLifetime (keaLeaseArguments now
            ⟨ip, none, hostname, clientId, expiresAt, .v6, clientId, some number, true⟩)).expiresAt
          .v6 id (some number) true)) duid
        simpa [keaLeaseArguments, leaseAdd, backendLeaseFromKea, both] using one
      | false =>
        have one := congrArg (fun id => some (Lease.mk ip none hostname id
          (leaseAdd now subnetLifetime (keaLeaseArguments now
            ⟨ip, none, hostname, clientId, expiresAt, .v6, clientId, some number, false⟩)).expiresAt
          .v6 id (some number) false)) duid
        simpa [keaLeaseArguments, leaseAdd, backendLeaseFromKea, both] using one

theorem expiresAt_leaseAdd (now subnetLifetime : Nat) {lease : Lease} {expire : Nat}
    (finite : lease.expiresAt = .at expire) :
    (leaseAdd now subnetLifetime (keaLeaseArguments now lease)).expiresAt =
      if max 1 (expire - now) = infiniteLifetime then .infinite
      else .at (expire - max 1 (expire - now) + max 1 (expire - now)) := by
  rw [keaLeaseArguments, finite]
  cases lease.dhcpVersion <;> rfl

/-- A finite lease is read back from Kea exactly when its remaining time is not the number
that stands for forever. -/
theorem survivesKea_iff {now subnetLifetime expire : Nat} {lease : Lease} (known : FromKea lease)
    (finite : lease.expiresAt = .at expire) (later : expire ≠ 0) :
    SurvivesKea now subnetLifetime lease ↔ expire - now ≠ infiniteLifetime := by
  have most : max 1 (expire - now) = infiniteLifetime ↔ expire - now = infiniteLifetime := by
    rw [infiniteLifetime]
    omega
  have times : SurvivesKea now subnetLifetime lease ↔
      (leaseAdd now subnetLifetime (keaLeaseArguments now lease)).expiresAt = .at expire := by
    rw [SurvivesKea, read_leaseAdd now subnetLifetime known, Option.some.injEq, ← finite]
    cases lease
    simp
  rw [times, expiresAt_leaseAdd now subnetLifetime finite]
  split
  · rename_i forever
    exact iff_of_false nofun fun other => other (most.mp forever)
  · rename_i timed
    refine iff_of_true (congrArg Expiry.at ?_) fun forever => timed (most.mpr forever)
    omega

/-- **Leases survive both handover formats exactly when their texts are words, no name and no
client id is a star, every address is of its lease's family, and no expiry is read as another.** -/
theorem handover_iff (now subnetLifetime : Nat) (serverDuid : Option ServerDuid)
    {leases : List Lease} (known : ∀ lease ∈ leases, FromKea lease) :
    (SurviveFile serverDuid leases ∧
        ∀ lease ∈ leases, lease.expiresAt ≠ .infinite → SurvivesKea now subnetLifetime lease) ↔
      ∀ lease ∈ leases, FitsLine lease ∧ ∀ expire, lease.expiresAt = .at expire →
      expire - now ≠ infiniteLifetime := by
  constructor
  · rintro ⟨file, kea⟩ lease member
    have fits := fitsLine_of_surviveFile file lease member
    refine ⟨fits, fun expire finite => ?_⟩
    have later : expire ≠ 0 := by
      rintro rfl
      exact fits.timed finite
    exact (survivesKea_iff (known lease member) finite later).mp
      (kea lease member (by rw [finite]; exact nofun))
  · intro fits
    refine ⟨surviveFile_of_fitsLine known fun lease member => (fits lease member).1,
      fun lease member finite => ?_⟩
    cases times : lease.expiresAt with
    | infinite => exact absurd times finite
    | «at» expire =>
      have later : expire ≠ 0 := by
        rintro rfl
        exact (fits lease member).1.timed times
      exact (survivesKea_iff (known lease member) times later).mpr
        ((fits lease member).2 expire times)

/-- A hardware address. -/
def sampleMac : Word := ⟨"02:00:00:00:00:07".toList, by decide⟩

theorem lower_sampleMac : sampleMac.lower = sampleMac := by decide

/-- An address. -/
def sampleAddress : Text := "192.0.2.7".toList

/-- A name of one word. -/
def printer : Word := ⟨"printer".toList, Word.printer_filled⟩

/-- A name of two words. -/
def frontDesk : Word := ⟨"front desk".toList, by decide⟩

/-- A DHCPv4 lease under some name. -/
def sampleLease (hostname : Word) : Lease where
  ip := sampleAddress
  mac := some sampleMac
  hostname := some hostname
  clientId := none
  expiresAt := .at 1700000000
  dhcpVersion := .v4
  duid := none
  iaid := none
  temporary := false

/-- The same lease in Kea. -/
def sampleRow (hostname : Word) : KeaLease where
  family := .v4
  ip := sampleAddress
  hwAddress := some sampleMac
  hostname := some hostname
  cltt := 1699996400
  validLft := 3600

theorem fromKea_sampleLease (hostname : Word) : FromKea (sampleLease hostname) where
  read := by
    have read : backendLeaseFromKea (sampleRow hostname) =
        some { sampleLease hostname with mac := some sampleMac.lower } := rfl
    rw [lower_sampleMac] at read
    exact ⟨sampleRow hostname, read⟩
  address := (by decide : isValidAddress sampleAddress = true)
  hardware := fun _ => rfl
  client := nofun

/-- A DUID. -/
def sampleDuid : Word := ⟨"00:03:00:01:02:00:00:00:00:07".toList, by decide⟩

theorem lower_sampleDuid : sampleDuid.lower = sampleDuid := by decide

/-- A DHCPv6 address. -/
def sampleAddress6 : Text := "2001:db8::7".toList

/-- A temporary DHCPv6 lease without a name. -/
def sampleLease6 : Lease where
  ip := sampleAddress6
  mac := none
  hostname := none
  clientId := some sampleDuid
  expiresAt := .at 1700000000
  dhcpVersion := .v6
  duid := some sampleDuid
  iaid := some 7
  temporary := true

/-- The same lease in Kea. -/
def sampleRow6 : KeaLease where
  family := .v6
  ip := sampleAddress6
  duid := some sampleDuid
  iaid := 7
  type := .ta
  cltt := 1699996400
  validLft := 3600

theorem fromKea_sampleLease6 : FromKea sampleLease6 where
  read := by
    have read : backendLeaseFromKea sampleRow6 =
        some { sampleLease6 with clientId := some sampleDuid.lower, duid := some sampleDuid.lower
        } := rfl
    rw [lower_sampleDuid] at read
    exact ⟨sampleRow6, read⟩
  address := (by decide : isValidAddress sampleAddress6 = true)
  hardware := nofun
  client := fun _ => rfl

/-- Two leases of one client, one of either family, survive both formats. -/
theorem handover_iff_sample :
    SurviveFile none [sampleLease printer, sampleLease6] ∧
      ∀ lease ∈ [sampleLease printer, sampleLease6], lease.expiresAt ≠ .infinite →
        SurvivesKea 1699999000 3600 lease := by
  refine (handover_iff 1699999000 3600 none (List.forall_mem_cons.mpr ⟨fromKea_sampleLease printer,
    List.forall_mem_singleton.mpr fromKea_sampleLease6⟩)).mpr ?_
  refine List.forall_mem_cons.mpr
    ⟨⟨⟨solid_of_all (by decide : (sampleAddress.all fun c => !isTrimmed c) = true), iff_of_false
    (by decide : ¬ isValidIpv6 sampleAddress = true) nofun, ?_, ?_, nofun, nofun⟩, ?_⟩,
      List.forall_mem_singleton.mpr
      ⟨⟨solid_of_all (by decide : (sampleAddress6.all fun c => !isTrimmed c) = true),
      iff_of_true (by decide : isValidIpv6 sampleAddress6 = true) rfl, nofun, nofun, ?_, nofun⟩,
      ?_⟩⟩
  · rintro word ⟨⟩
    exact solid_of_all (by decide)
  · rintro word ⟨⟩
    exact ⟨solid_of_all (by decide), by decide⟩
  · rintro expire ⟨⟩
    decide
  · rintro word ⟨⟩
    exact ⟨solid_of_all (by decide), by decide⟩
  · rintro expire ⟨⟩
    decide

/-- **A name of two words moves the columns of its line.** -/
theorem two_words_shift :
    FromKea (sampleLease frontDesk) ∧
      ¬ SurviveFile none [sampleLease frontDesk] := by
  refine ⟨fromKea_sampleLease _, ?_⟩
  rintro ⟨parsed, read, same⟩
  have one := List.perm_singleton.mp same
  rw [one] at read
  exact absurd read (by decide)

end LeaseHandover

end Cidrella
