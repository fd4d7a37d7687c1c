import Cidrella.DnsmasqConf
import Cidrella.Lib.RenderedLines
import Cidrella.PdnsZones

/-!
# Zones as dnsmasq serves them

`regenerateHostsDir`, `regenerateConfDir` and `writeLocalZones` of
`backends/dnsmasq/dnsmasq.js`, with the part of `utils/config-value-validation.js` that they
pass stored values through. Names, values and SOA fields are put into lines of the files by
templates, and a line break in one of them starts a line of its own.

`noStoredDirective_iff` says which stored texts keep to their line: all do, except a record's
full name, the SOA fields and the two parts of a hosts line, which no check looks at.
-/

set_option autoImplicit false

namespace Cidrella

namespace Dnsmasq

open Address DnsNames RenderedLines
open Pdns (RrType isTxtValue lowerFqdn number servedHostsByAddress utf16Length)

/-! ## The stored rows -/

/-- A value in a column of SQLite. -/
inductive Cell where
  | null
  | number (n : Int)
  | text (t : Text)
  deriving DecidableEq, Repr

/-- `String(cell)`. -/
def Cell.render : Cell → Text
  | null => "null".toList
  | number n => if n < 0 then '-' :: Nat.toDigits 10 n.natAbs else Nat.toDigits 10 n.natAbs
  | text t => t

/-- `Boolean(cell)`. -/
def Cell.truthy : Cell → Bool
  | null => false
  | number n => n ≠ 0
  | text t => t ≠ []

/-- A row of `dns_zones`. -/
structure ZoneRow where
  id : Nat
  name : Text
  type : Dns.ZoneType
  enabled : Bool := true
  forwardUnknown : Bool := false
  soaPrimaryNs : Cell := .null
  soaAdminEmail : Cell := .null
  soaSerial : Cell := .null
  soaRefresh : Cell := .null
  soaRetry : Cell := .null
  soaExpire : Cell := .null
  soaMinimumTtl : Cell := .null
  deriving DecidableEq, Repr

/-- A row of `dns_records`. -/
structure RecordRow where
  id : Nat
  zoneId : Nat
  name : Text
  type : RrType
  value : Text
  priority : Option Nat := none
  weight : Option Nat := none
  port : Option Nat := none
  ttl : Option Nat := none
  enabled : Bool := true
  deriving DecidableEq, Repr

/-- The two tables, by id. -/
structure Tables where
  zones : List ZoneRow
  records : List RecordRow
  deriving DecidableEq, Repr

/-! ## The DNS model -/

/-- How often a dot stands before a digit. -/
def dotDigits : Text → Nat
  | [] => 0
  | c :: rest => (if c = '.' && rest.head?.any Char.isDigit then 1 else 0) + dotDigits rest

/-- `isPlaceholderPtr`, with its `DOTTED_QUAD_LIKE`. -/
def isPlaceholderPtr (value : Text) : Bool :=
  '.' ∉ value || (value.head?.any Char.isDigit && 3 ≤ dotDigits value) || Dns.isValidAddress value

/-- A record as `loadDnsZones` returns it. -/
def loadRecord (row : RecordRow) (zone : ZoneRow) : Pdns.DnsRecord where
  id := row.id
  zoneId := row.zoneId
  zoneName := zone.name
  zoneType := zone.type
  name := row.name
  type := row.type
  value := row.value
  priority := row.priority
  weight := row.weight
  port := row.port
  ttl := row.ttl
  fqdn := fqdnForRecordName row.name zone.name
  placeholder := row.type = .ptr && isPlaceholderPtr row.value

/-- The zones of `loadDnsZones`. -/
def servedZones (tables : Tables) : List ZoneRow := tables.zones.filter (·.enabled)

/-- The records of `loadDnsZones`. -/
def servedRecords (tables : Tables) : List Pdns.DnsRecord :=
  (tables.records.filter (·.enabled)).filterMap fun row =>
    ((servedZones tables).find? (·.id = row.zoneId)).map (loadRecord row)

/-! ## The checks -/

/-- `validateConfigSafeValue(value) == null`. -/
def isConfigSafe (value : Text) : Bool :=
  value ≠ [] && utf16Length value ≤ 4096 && value.all fun c =>
    !(c = '\r' || c = '\n' || c.toNat ≤ 0x08 || (0x0b ≤ c.toNat && c.toNat ≤ 0x1f) || c.toNat =
      0x7f || c = '=' || c = ',')

/-- `isValidPtrName`. -/
def isPtrName (name : Text) : Bool :=
  1 ≤ utf16Length name && utf16Length name ≤ 63 &&
    (name.splitOn '.').all fun label => label ≠ [] && label.all fun c =>
      c.isDigit || ('a' ≤ c && c ≤ 'f')

/-- Whether a record passes the checks of its template. -/
def isRendered (record : Pdns.DnsRecord) : Bool :=
  match record.type with
  | .cname | .mx | .srv => isConfigSafe record.value
  | .txt => isTxtValue record.value
  | .ptr => isPtrName record.name && isConfigSafe record.value
  | .a | .aaaa | .soa | .ns | .other _ => false

/-! ## The zone files -/

/-- The comma and a time to live, if there is one. -/
def ttlSuffix : Option Nat → Text
  | none | some 0 => []
  | some ttl => ',' :: number ttl

/-- `value || fallback`. -/
def orElse (value : Option Nat) (fallback : Nat) : Nat :=
  match value with
  | none | some 0 => fallback
  | some n => n

/-- A value between the quotes of `txt-record`. -/
def escapeTxt (value : Text) : Text :=
  value.flatMap fun c => if c = '\\' || c = '"' then ['\\', c] else [c]

/-- The template of a record: the switch over its type, and the loop over the `PTR` records. -/
def template (zone : ZoneRow) (record : Pdns.DnsRecord) : Text :=
  match record.type with
  | .cname => "cname=".toList ++ record.fqdn ++ ',' :: record.value ++ ttlSuffix record.ttl
  | .mx => "mx-host=".toList ++ record.fqdn ++ ',' :: record.value ++ ',' ::
      number (orElse record.priority 10)
  | .txt => "txt-record=".toList ++ record.fqdn ++ ',' :: '"' :: escapeTxt record.value ++ ['"']
  | .srv => "srv-host=".toList ++ record.fqdn ++ ',' :: record.value ++ ',' ::
      (record.port.map number).getD "null".toList ++ ',' :: number (orElse record.priority 0) ++
      ',' :: number (orElse record.weight 0)
  | .ptr => "ptr-record=".toList ++ record.name ++ '.' :: zone.name ++ ',' :: record.value
  | .a | .aaaa | .soa | .ns | .other _ => []

/-- The line of a record. -/
def recordLine (zone : ZoneRow) (record : Pdns.DnsRecord) : Option Text :=
  if isRendered record then some (template zone record) else none

/-- The text of the SOA comment. -/
def soaText (zone : ZoneRow) : Text :=
  "# SOA: ".toList ++ [' '].intercalate [zone.soaPrimaryNs.render, zone.soaAdminEmail.render,
    if zone.soaSerial.truthy then zone.soaSerial.render else ['1'], zone.soaRefresh.render,
    zone.soaRetry.render, zone.soaExpire.render, zone.soaMinimumTtl.render]

/-- The SOA comment, if the zone has a name server. -/
def soaComment (zone : ZoneRow) : List Text := if zone.soaPrimaryNs.truthy
    then [soaText zone] else []

/-- The records of a zone outside the hosts file and reverse lookups. -/
def zoneRecords (records : List Pdns.DnsRecord) (zone : ZoneRow) : List Pdns.DnsRecord :=
  records.filter fun record =>
    record.zoneId = zone.id && record.type ≠ .a && record.type ≠ .aaaa && record.type ≠ .ptr

/-- `servedPtrs`: the `PTR` records of a zone that the hosts file does not answer. -/
def servedPtrs (records : List Pdns.DnsRecord) (zone : ZoneRow) : List Pdns.DnsRecord :=
  records.filter fun ptr =>
    ptr.zoneId = zone.id && ptr.type = .ptr && !ptr.placeholder &&
      !((Dns.ipForPtrRecord ptr.name zone.name).any fun ip =>
        (((servedHostsByAddress records).find? (·.1 = ip)).bind (·.2.head?)).any fun first =>
          first.key = lowerFqdn ptr.value)

/-- The records the file of a zone is made from. -/
def fileRecords (records : List Pdns.DnsRecord) (zone : ZoneRow) : List Pdns.DnsRecord :=
  zoneRecords records zone ++ servedPtrs records zone

/-- `lines.join('\n') + '\n'`. -/
def fileOf (lines : List Text) : Text := contentOf lines ++ ['\n']

/-- The file of a zone, if one is written. -/
def zoneFile (records : List Pdns.DnsRecord) (zone : ZoneRow) : Option Text :=
  if !isConfigSafe zone.name || fileRecords records zone = [] then none
  else some (fileOf (soaComment zone ++ (fileRecords records zone).filterMap (recordLine zone)))

/-! ## The other files -/

/-- The line of a zone in `local-zones.conf`, if there is one. -/
def localZoneLine (zone : ZoneRow) : Option Text :=
  if !zone.forwardUnknown && isConfigSafe zone.name then some (localLine zone.name) else none

/-- The UTF-16 units of a text, which a sort without a comparator goes by. -/
def codeUnits (text : Text) : List Nat :=
  text.flatMap fun c =>
    if c.toNat < 0x10000 then [c.toNat]
    else [0xd800 + (c.toNat - 0x10000) / 0x400, 0xdc00 + (c.toNat - 0x10000) % 0x400]

/-- `writeLocalZones`: the file, if one is written. -/
def localZonesFile (zones : List ZoneRow) : Option Text :=
  let lines := (zones.filterMap localZoneLine).mergeSort fun left right =>
    (compare (codeUnits left) (codeUnits right)).isLE
  if lines = [] then none else some (fileOf lines)

/-- How the addresses are sorted. The comparison of sort keys throws where its left side has
none, and with which texts an engine gets there is its own affair. -/
structure AddressSort where
  run : List Text → Option (List Text)
  perm : ∀ {keys sorted : List Text}, run keys = some sorted → sorted.Perm keys
  ordered : ∀ {keys : List Text}, (∀ key ∈ keys, (sortKey key).isSome) → ∃ sorted,
    run keys = some sorted ∧ sorted.Pairwise fun left right =>
    (compare (sortKey left) (sortKey right)).isLE

/-- The address and the name of every line of the hosts file. -/
def hostPairs (records : List Pdns.DnsRecord) (addresses : List Text) : List (Text × Text) :=
  addresses.flatMap fun ip =>
    (((servedHostsByAddress records).find? (·.1 = ip)).map (·.2)).getD [] |>.map fun name =>
      (ip, name.fqdn)

/-- A line of the hosts file. -/
def hostLine (pair : Text × Text) : Text := pair.1 ++ ' ' :: pair.2

/-- `regenerateHostsDir`: the file, if one is written. -/
def hostsFile (sort : AddressSort) (records : List Pdns.DnsRecord) : Option Text := do
  let addresses ← sort.run ((servedHostsByAddress records).map (·.1))
  let lines := (hostPairs records addresses).map hostLine
  if lines = [] then none else some (fileOf lines)

/-! ## Lines and what they are made from -/

/-- The lines of a file: what stands before each line break. -/
def fileLines (content : Text) : List Text := (linesOf content).dropLast

/-- A whole-line comment. -/
def isComment (line : Text) : Bool := (trim line).head? = some '#'

/-- The text of one address, with no white space. -/
def isHostAddress (text : Text) : Bool := Dns.isValidAddress text && text.all fun c => !isTrimmed c

/-- The text of one name: not empty, with no white space. -/
def isHostName (text : Text) : Bool := text ≠ [] && text.all fun c => !isTrimmed c

/-- One address, one space and one name. -/
def IsHostLine (line : Text) : Prop :=
  ∃ address name, isHostAddress address = true ∧ isHostName name = true ∧
    line = address ++ ' ' :: name

/-- The served names of all addresses. -/
def servedPairs (records : List Pdns.DnsRecord) : List (Text × Text) :=
  hostPairs records ((servedHostsByAddress records).map (·.1))

/-- No stored value adds a line: every line of a zone file that is no comment is the line of a
record of its own, every line of `local-zones.conf` that of a zone of its own, and every line of
the hosts file that of one served name, with one address, one space and one name. -/
structure NoStoredDirective (sort : AddressSort) (tables : Tables) : Prop where
  zones : ∀ zone ∈ servedZones tables, ∀ content,
    zoneFile (servedRecords tables) zone = some content →
      OneEach (fun line => !isComment line) (recordLine zone)
        (fileRecords (servedRecords tables) zone) (fileLines content)
  localZones : ∀ content, localZonesFile (servedZones tables) = some content →
    OneEach (fun line => !isComment line) localZoneLine (servedZones tables) (fileLines content)
  hosts : ∀ content, hostsFile sort (servedRecords tables) = some content →
    OneEach (fun _ => true) (fun pair => some (hostLine pair)) (servedPairs (servedRecords tables))
        (fileLines content) ∧
      ∀ line ∈ fileLines content, IsHostLine line

/-- The texts of a zone's file keep to their lines: no record that is rendered under its full
name has a line break there, every line break in the SOA fields is followed by a comment, and
there is something to write. -/
structure ZoneKeepsToLines (records : List Pdns.DnsRecord) (zone : ZoneRow) : Prop where
  names : ∀ record ∈ fileRecords records zone, isRendered record = true → record.type ≠ .ptr →
    '\n' ∉ record.fqdn
  soa : zone.soaPrimaryNs.truthy = true → ∀ line ∈ (linesOf (soaText zone)).tail,
    isComment line = true
  something : zone.soaPrimaryNs.truthy = true ∨ ∃ record ∈ fileRecords records zone,
    isRendered record = true

/-- The texts of every file keep to their lines. -/
structure KeepsToLines (sort : AddressSort) (tables : Tables) : Prop where
  zones : ∀ zone ∈ servedZones tables, isConfigSafe zone.name = true →
    fileRecords (servedRecords tables) zone ≠ [] → ZoneKeepsToLines (servedRecords tables) zone
  hosts : (sort.run ((servedHostsByAddress (servedRecords tables)).map (·.1))).isSome = true →
    ∀ pair ∈ servedPairs (servedRecords tables), isHostAddress pair.1 = true ∧
    isHostName pair.2 = true

/-! ## The checks keep line breaks out -/

theorem oneLine_of_isConfigSafe {value : Text} (safe : isConfigSafe value = true) :
    '\n' ∉ value := by
  intro member
  simp only [isConfigSafe, Bool.and_eq_true, List.all_eq_true] at safe
  exact absurd (safe.2 '\n' member) (by decide)

theorem oneLine_of_isTxtValue {value : Text} (safe : isTxtValue value = true) : '\n' ∉ value := by
  intro member
  simp only [isTxtValue, Bool.and_eq_true, List.all_eq_true] at safe
  exact absurd (safe.2 '\n' member) (by decide)

theorem oneLine_of_isPtrName {name : Text} (valid : isPtrName name = true) : '\n' ∉ name := by
  intro member
  simp only [isPtrName, Bool.and_eq_true, List.all_eq_true] at valid
  have whole : ['.'].intercalate (name.splitOn '.') = name := List.intercalate_splitOn '.'
  rw [← whole] at member
  obtain dot | ⟨label, isLabel, inside⟩ := mem_intercalate_singleton member
  · exact absurd dot (by decide)
  · exact absurd ((valid.2 label isLabel).2 '\n' inside) (by decide)

theorem oneLine_number (n : Nat) : '\n' ∉ number n := fun member =>
  absurd (isDigit_of_mem_decimal member) (by decide)

theorem oneLine_ttlSuffix (ttl : Option Nat) : '\n' ∉ ttlSuffix ttl := by
  cases ttl with
  | none => exact List.not_mem_nil
  | some ttl =>
    cases ttl with
    | zero => exact List.not_mem_nil
    | succ n =>
      rw [ttlSuffix, List.mem_cons, not_or]
      · exact ⟨by decide, oneLine_number _⟩
      · exact fun impossible => absurd impossible (Nat.succ_ne_zero n)

theorem mem_escapeTxt_newline {value : Text} : '\n' ∈ escapeTxt value ↔ '\n' ∈ value := by
  rw [escapeTxt, List.mem_flatMap]
  constructor
  · rintro ⟨c, member, escaped⟩
    split at escaped
    · obtain quote | escaped := List.mem_cons.mp escaped
      · exact absurd quote (by decide)
      · exact List.mem_singleton.mp escaped ▸ member
    · exact List.mem_singleton.mp escaped ▸ member
  · intro member
    exact ⟨'\n', member, by decide⟩

theorem oneLine_template_iff {zone : ZoneRow} {record : Pdns.DnsRecord}
    (zoneSafe : isConfigSafe zone.name = true) (rendered : isRendered record = true) :
    '\n' ∉ template zone record ↔ (record.type ≠ .ptr → '\n' ∉ record.fqdn) := by
  rw [isRendered] at rendered
  rw [template]
  cases type : record.type with
  | cname =>
    rw [type] at rendered
    simp [oneLine_of_isConfigSafe rendered, oneLine_ttlSuffix]
  | mx =>
    rw [type] at rendered
    simp [oneLine_of_isConfigSafe rendered, oneLine_number]
  | srv =>
    rw [type] at rendered
    have port : '\n' ∉ (record.port.map number).getD ['n', 'u', 'l', 'l'] := by
      cases record.port with
      | none => decide
      | some port => exact oneLine_number port
    simp [oneLine_of_isConfigSafe rendered, oneLine_number, port]
  | txt =>
    rw [type] at rendered
    simp [mem_escapeTxt_newline, oneLine_of_isTxtValue rendered]
  | ptr =>
    rw [type, Bool.and_eq_true] at rendered
    simp [oneLine_of_isPtrName rendered.1, oneLine_of_isConfigSafe rendered.2,
      oneLine_of_isConfigSafe zoneSafe]
  | a => simp [type] at rendered
  | aaaa => simp [type] at rendered
  | soa => simp [type] at rendered
  | ns => simp [type] at rendered
  | other name => simp [type] at rendered

/-! ## The lines of a file -/

theorem fileLines_fileOf {texts : List Text} (some : texts ≠ []) :
    fileLines (fileOf texts) = texts.flatMap linesOf := by
  have closed : fileOf texts = contentOf texts ++ '\n' :: [] := rfl
  rw [fileLines, closed, linesOf, List.splitOn_append_cons_self, contentOf,
    splitOn_intercalate_flatMap some, List.splitOn_nil, List.dropLast_concat]
  rfl

theorem fileLines_fileOf_nil : fileLines (fileOf []) = [[]] := by decide

theorem isComment_eq_false {c : Char} {front : Text} (solid : ∀ d ∈ c :: front, isTrimmed d = false)
    (other : c ≠ '#') (back : Text) : isComment ((c :: front) ++ back) = false := by
  obtain ⟨rest, same⟩ := prefix_trim solid (List.prefix_append _ back)
  rw [isComment, ← same]
  simpa using other

/-- What the templates start with. -/
def templateKeys : List Text :=
  ["cname=".toList, "mx-host=".toList, "txt-record=".toList, "srv-host=".toList,
    "ptr-record=".toList]

theorem templateKey_plain {front : Text} (key : front ∈ templateKeys) :
    '\n' ∉ front ∧ ∃ c rest, front = c :: rest ∧ c ≠ '#' ∧ ∀ d ∈ front, isTrimmed d = false := by
  simp only [templateKeys, List.mem_cons, List.not_mem_nil, or_false] at key
  obtain rfl | rfl | rfl | rfl | rfl := key <;>
    exact ⟨by decide, _, _, rfl, by decide, solid_of_all (by decide)⟩

theorem template_starts {zone : ZoneRow} {record : Pdns.DnsRecord}
    (rendered : isRendered record = true) :
    ∃ front ∈ templateKeys, front <+: template zone record := by
  have starts : ∀ front back : Text, front ∈ templateKeys → template zone record = front ++ back →
      ∃ front ∈ templateKeys, front <+: template zone record :=
    fun front back key same => ⟨front, key, back, same.symm⟩
  rw [isRendered] at rendered
  cases type : record.type with
  | cname => exact starts "cname=".toList _ (by decide) (by rw [template, type]; exact rfl)
  | mx => exact starts "mx-host=".toList _ (by decide) (by rw [template, type]; exact rfl)
  | txt => exact starts "txt-record=".toList _ (by decide) (by rw [template, type]; exact rfl)
  | srv => exact starts "srv-host=".toList _ (by decide) (by rw [template, type]; exact rfl)
  | ptr => exact starts "ptr-record=".toList _ (by decide) (by rw [template, type]; exact rfl)
  | a => simp [type] at rendered
  | aaaa => simp [type] at rendered
  | soa => simp [type] at rendered
  | ns => simp [type] at rendered
  | other name => simp [type] at rendered

theorem recordLine_counts {zone : ZoneRow} {record : Pdns.DnsRecord} {text : Text}
    (line : recordLine zone record = some text) :
    ∃ piece ∈ linesOf text, (!isComment piece) = true := by
  rw [recordLine] at line
  split at line
  · rename_i rendered
    cases line
    obtain ⟨front, key, back, same⟩ := @template_starts zone _ rendered
    obtain ⟨oneLine, c, rest, rfl, other, solid⟩ := templateKey_plain key
    obtain ⟨more, others, pieces⟩ := splitOn_starts oneLine back
    rw [← same, linesOf, pieces]
    exact ⟨_, List.mem_cons_self, by rw [isComment_eq_false solid other, Bool.not_false]⟩
  · exact absurd line nofun

/-! ## When no value adds a line -/

/-- What `zoneFile` returns, and when. -/
theorem zoneFile_eq_some {records : List Pdns.DnsRecord} {zone : ZoneRow} {content : Text} :
    zoneFile records zone = some content ↔
      (isConfigSafe zone.name = true ∧ fileRecords records zone ≠ []) ∧
        fileOf (soaComment zone ++ (fileRecords records zone).filterMap (recordLine zone)) =
        content := by
  rw [zoneFile]
  split
  · rename_i skipped
    simp only [Bool.or_eq_true, Bool.not_eq_true', decide_eq_true_eq] at skipped
    refine iff_of_false nofun ?_
    rintro ⟨⟨safe, some⟩, -⟩
    obtain unsafeName | none := skipped
    · rw [safe] at unsafeName
      exact absurd unsafeName.symm Bool.false_ne_true
    · exact some none
  · rename_i kept
    simp only [Bool.or_eq_true, Bool.not_eq_true', decide_eq_true_eq, not_or,
      Bool.not_eq_false] at kept
    rw [Option.some.injEq]
    exact (and_iff_right kept).symm

theorem soaComment_comments {zone : ZoneRow} :
    (∀ line ∈ (soaComment zone).flatMap linesOf, isComment line = true) ↔
      (zone.soaPrimaryNs.truthy = true → ∀ line ∈ (linesOf (soaText zone)).tail,
      isComment line = true) := by
  rw [soaComment]
  split
  · rename_i there
    obtain ⟨back, others, pieces⟩ := splitOn_starts (by decide : '\n' ∉ "# SOA: ".toList)
      ([' '].intercalate [zone.soaPrimaryNs.render, zone.soaAdminEmail.render,
        if zone.soaSerial.truthy then zone.soaSerial.render else ['1'], zone.soaRefresh.render,
        zone.soaRetry.render, zone.soaExpire.render, zone.soaMinimumTtl.render])
    have comment : isComment ("# SOA: ".toList ++ back) = true := by
      obtain ⟨rest, same⟩ := @prefix_trim ['#'] _ (solid_of_all (by decide))
        ⟨" SOA: ".toList ++ back, rfl⟩
      exact decide_eq_true (congrArg List.head? same.symm)
    have lines : linesOf (soaText zone) = ("# SOA: ".toList ++ back) :: others := pieces
    rw [List.flatMap_singleton, lines, List.forall_mem_cons, List.tail_cons]
    exact ⟨fun all _ => all.2, fun rest => ⟨comment, rest there⟩⟩
  · rename_i absent
    exact iff_of_true (fun line member => absurd member List.not_mem_nil) fun there =>
      absurd there absent

theorem oneLine_texts_iff {records : List Pdns.DnsRecord} {zone : ZoneRow}
    (safe : isConfigSafe zone.name = true) :
    (∀ text ∈ records.filterMap (recordLine zone), '\n' ∉ text) ↔
      ∀ record ∈ records, isRendered record = true → record.type ≠ .ptr → '\n' ∉ record.fqdn := by
  rw [List.forall_mem_filterMap]
  refine forall₂_congr fun record _ => ?_
  by_cases rendered : isRendered record = true
  · rw [recordLine, if_pos rendered, ← oneLine_template_iff safe rendered]
    exact ⟨fun every _ => every _ rfl, fun whole text same => Option.some.inj same ▸ whole rendered⟩
  · rw [recordLine, if_neg rendered]
    exact iff_of_true nofun fun there => absurd there rendered

/-- **The file of a zone has one line per record exactly when its texts keep to their lines.** -/
theorem zoneFile_oneEach_iff {records : List Pdns.DnsRecord} {zone : ZoneRow}
    (safe : isConfigSafe zone.name = true) :
    OneEach (fun line => !isComment line) (recordLine zone) (fileRecords records zone)
        (fileLines (fileOf (soaComment zone ++ (fileRecords records zone).filterMap
        (recordLine zone)))) ↔
      ZoneKeepsToLines records zone := by
  have counted : ∀ text ∈ (fileRecords records zone).filterMap (recordLine zone),
      ∃ piece ∈ text.splitOn '\n', (!isComment piece) = true := by
    intro text member
    obtain ⟨record, -, line⟩ := List.mem_filterMap.mp member
    exact recordLine_counts line
  have something : soaComment zone ++ (fileRecords records zone).filterMap (recordLine zone) ≠ [] ↔
      (zone.soaPrimaryNs.truthy = true ∨ ∃ record ∈ fileRecords records zone,
      isRendered record = true) := by
    rw [← not_iff_not, not_not, List.append_eq_nil_iff, List.filterMap_eq_nil_iff, not_or]
    simp [soaComment, recordLine]
  by_cases empty : soaComment zone ++ (fileRecords records zone).filterMap (recordLine zone) = []
  · refine iff_of_false ?_ fun keeps => something.mpr keeps.something empty
    rw [empty, fileLines_fileOf_nil]
    rintro ⟨rendered, among, assigned⟩
    have one : rendered.map (recordLine zone) = [some []] := assigned
    obtain ⟨record, isRendered, line⟩ : ∃ record ∈ rendered, recordLine zone record = some [] :=
      List.mem_map.mp (one ▸ List.mem_singleton_self _)
    have inTexts : [] ∈ (fileRecords records zone).filterMap (recordLine zone) :=
      List.mem_filterMap.mpr ⟨record, among.subset isRendered, line⟩
    rw [(List.append_eq_nil_iff.mp empty).2] at inTexts
    exact absurd inTexts List.not_mem_nil
  · rw [fileLines_fileOf empty, List.flatMap_append]
    refine (oneEach_iff counted).trans ?_
    rw [oneLine_texts_iff safe]
    have header : (∀ line ∈ (soaComment zone).flatMap linesOf, (!isComment line) = false) ↔ _ :=
      Iff.trans (by simp only [Bool.not_eq_false']) (@soaComment_comments zone)
    rw [header]
    exact ⟨fun ⟨soa, names⟩ => ⟨names, soa, something.mp empty⟩, fun keeps =>
      ⟨keeps.soa, keeps.names⟩⟩

theorem isComment_localLine (name : Text) : isComment (localLine name) = false := by
  have starts : localLine name = ['l'] ++ ("ocal=/".toList ++ name ++ ['/']) := rfl
  rw [starts]
  exact isComment_eq_false (solid_of_all (by decide)) (by decide) _

/-- `local-zones.conf` has one line per zone, whatever is stored. -/
theorem localZonesFile_oneEach {zones : List ZoneRow} {content : Text}
    (written : localZonesFile zones = some content) :
    OneEach (fun line => !isComment line) localZoneLine zones (fileLines content) := by
  have oneLine : ∀ text ∈ zones.filterMap localZoneLine, '\n' ∉ text ∧ isComment text = false := by
    intro text member
    obtain ⟨zone, -, line⟩ := List.mem_filterMap.mp member
    rw [localZoneLine] at line
    split at line
    · rename_i kept
      cases line
      rw [Bool.and_eq_true] at kept
      refine ⟨fun inside => ?_, ?_⟩
      · obtain inKey | inName | slash := mem_localLine.mp inside
        · exact absurd inKey (by decide)
        · exact oneLine_of_isConfigSafe kept.2 inName
        · exact absurd slash (by decide)
      · exact isComment_localLine zone.name
    · exact absurd line nofun
  rw [localZonesFile] at written
  split at written
  · exact absurd written nofun
  · rename_i some
    cases written
    have sorted := List.mergeSort_perm (zones.filterMap localZoneLine) fun left right =>
      (compare (codeUnits left) (codeUnits right)).isLE
    rw [fileLines_fileOf some]
    have whole := flatMap_splitOn_eq_self fun text member => (oneLine text (sorted.subset member)).1
    refine OneEach.perm_lines (whole ▸ sorted) ?_
    have counted : ∀ text ∈ zones.filterMap localZoneLine,
        ∃ piece ∈ text.splitOn '\n', (!isComment piece) = true := by
      intro text member
      rw [List.splitOn_eq_singleton (oneLine text member).1]
      exact ⟨text, List.mem_singleton_self _, by rw [(oneLine text member).2, Bool.not_false]⟩
    have unsorted := (@oneEach_iff _ _ _ _ _ _ _ _ [] counted).mpr
      ⟨fun line member => absurd member List.not_mem_nil, fun text member =>
      (oneLine text member).1⟩
    rw [List.nil_append, flatMap_splitOn_eq_self fun text member =>
      (oneLine text member).1] at unsorted
    exact unsorted

/-! ## The hosts file -/

theorem isHostLine_hostLine_iff {pair : Text × Text} :
    IsHostLine (hostLine pair) ↔ isHostAddress pair.1 = true ∧ isHostName pair.2 = true := by
  constructor
  · rintro ⟨address, name, isAddress, isName, same⟩
    have noSpace : ∀ text : Text, (text.all fun c => !isTrimmed c) = true → ' ' ∉ text := by
      intro text solid member
      exact absurd (List.all_eq_true.mp solid ' ' member) (by decide)
    have inAddress := noSpace address (Bool.and_eq_true_iff.mp isAddress).2
    have inName := noSpace name (Bool.and_eq_true_iff.mp isName).2
    rw [hostLine] at same
    obtain ⟨more, first, second⟩ | ⟨more, first, second⟩ := List.append_eq_append_iff.mp same
    · cases more with
      | nil =>
        simp only [List.append_nil, List.nil_append, List.cons.injEq, true_and] at first second
        exact ⟨first ▸ isAddress, second ▸ isName⟩
      | cons c rest =>
        obtain ⟨rfl, -⟩ := List.cons.inj second
        exact absurd (first ▸ List.mem_append_right _ List.mem_cons_self) inAddress
    · cases more with
      | nil =>
        simp only [List.append_nil, List.nil_append, List.cons.injEq, true_and] at first second
        exact ⟨first ▸ isAddress, second ▸ isName⟩
      | cons c rest =>
        obtain ⟨-, rest'⟩ := List.cons.inj second
        exact absurd (rest' ▸ List.mem_append_right _ List.mem_cons_self) inName
  · exact fun good => ⟨pair.1, pair.2, good.1, good.2, rfl⟩

theorem oneLine_hostLine {pair : Text × Text} (good : isHostAddress pair.1 = true ∧
    isHostName pair.2 = true) :
    '\n' ∉ hostLine pair := by
  have noBreak : ∀ text : Text, (text.all fun c => !isTrimmed c) = true → '\n' ∉ text := by
    intro text solid member
    exact absurd (List.all_eq_true.mp solid '\n' member) (by decide)
  have inAddress := noBreak pair.1 (Bool.and_eq_true_iff.mp good.1).2
  have inName := noBreak pair.2 (Bool.and_eq_true_iff.mp good.2).2
  rw [hostLine, List.mem_append, List.mem_cons]
  rintro (inside | isSpace | inside)
  · exact inAddress inside
  · exact absurd isSpace (by decide)
  · exact inName inside

/-- **The lines of a hosts file are one address, one space and one name, one for each served name,
exactly when addresses and names have no white space.** -/
theorem hostLines_iff {pairs : List (Text × Text)} :
    (OneEach (fun _ => true) (fun pair => some (hostLine pair)) pairs
        ((pairs.map hostLine).flatMap linesOf) ∧ ∀ line ∈ (pairs.map hostLine).flatMap linesOf,
        IsHostLine line) ↔
      ∀ pair ∈ pairs, isHostAddress pair.1 = true ∧ isHostName pair.2 = true := by
  have texts : pairs.filterMap (fun pair => some (hostLine pair)) = pairs.map hostLine :=
    congrFun List.filterMap_eq_map' pairs
  have counted : ∀ text ∈ pairs.filterMap (fun pair => some (hostLine pair)),
      ∃ piece ∈ text.splitOn '\n', (fun _ => true) piece = true := by
    intro text _
    obtain ⟨piece, rest, pieces⟩ := List.exists_cons_of_ne_nil (List.splitOn_ne_nil '\n' text)
    exact ⟨piece, pieces ▸ List.mem_cons_self, rfl⟩
  have each := @oneEach_iff _ _ _ _ _ _ _ _ [] counted
  rw [List.nil_append, texts] at each
  have whole : (∀ text ∈ pairs.map hostLine, '\n' ∉ text) →
      (pairs.map hostLine).flatMap linesOf = pairs.map hostLine := flatMap_splitOn_eq_self
  constructor
  · rintro ⟨oneEach, lines⟩ pair member
    rw [whole (each.mp oneEach).2] at lines
    exact isHostLine_hostLine_iff.mp (lines _ (List.mem_map_of_mem member))
  · intro good
    have oneLine : ∀ text ∈ pairs.map hostLine, '\n' ∉ text := by
      intro text member
      obtain ⟨pair, isPair, rfl⟩ := List.mem_map.mp member
      exact oneLine_hostLine (good pair isPair)
    refine ⟨each.mpr ⟨fun line member => absurd member List.not_mem_nil, oneLine⟩, ?_⟩
    rw [whole oneLine]
    intro line member
    obtain ⟨pair, isPair, rfl⟩ := List.mem_map.mp member
    exact isHostLine_hostLine_iff.mpr (good pair isPair)

/-- What `hostsFile` returns, and when. -/
theorem hostsFile_iff {sort : AddressSort} {records : List Pdns.DnsRecord} :
    (∀ content, hostsFile sort records = some content →
      OneEach (fun _ => true) (fun pair => some (hostLine pair)) (servedPairs records)
        (fileLines content) ∧ ∀ line ∈ fileLines content, IsHostLine line) ↔
      ((sort.run ((servedHostsByAddress records).map (·.1))).isSome = true →
        ∀ pair ∈ servedPairs records, isHostAddress pair.1 = true ∧ isHostName pair.2 = true) := by
  cases sorted : sort.run ((servedHostsByAddress records).map (·.1)) with
  | none =>
    have unwritten : hostsFile sort records = none := by
      rw [hostsFile, sorted]
      rfl
    rw [unwritten]
    exact iff_of_true nofun nofun
  | some addresses =>
    have reordered : (hostPairs records addresses).Perm (servedPairs records) :=
      (sort.perm sorted).flatMap_right _
    have same : (∀ pair ∈ servedPairs records, isHostAddress pair.1 = true ∧
        isHostName pair.2 = true) ↔ ∀ pair ∈ hostPairs records addresses,
        isHostAddress pair.1 = true ∧ isHostName pair.2 = true :=
      ⟨fun all pair member => all pair (reordered.subset member),
        fun all pair member => all pair (reordered.symm.subset member)⟩
    rw [same, ← hostLines_iff]
    have written : hostsFile sort records =
        if (hostPairs records addresses).map hostLine = [] then none
        else some (fileOf ((hostPairs records addresses).map hostLine)) := by
      rw [hostsFile, sorted]
      rfl
    rw [written]
    split
    · rename_i empty
      rw [empty]
      have nothing := List.map_eq_nil_iff.mp empty
      refine iff_of_true nofun fun _ => ⟨⟨[], List.nil_subperm, rfl⟩, nofun⟩
    · rename_i some
      constructor
      · intro all _
        obtain ⟨oneEach, lines⟩ := all _ rfl
        rw [fileLines_fileOf some] at oneEach lines
        exact ⟨oneEach.perm_items reordered.symm, lines⟩
      · rintro all content ⟨⟩
        obtain ⟨oneEach, lines⟩ := all rfl
        rw [fileLines_fileOf some]
        exact ⟨oneEach.perm_items reordered, lines⟩

/-- **No stored value adds a line to a file of dnsmasq exactly when the texts that no check
looks at keep to their lines.** -/
theorem noStoredDirective_iff (sort : AddressSort) (tables : Tables) :
    NoStoredDirective sort tables ↔ KeepsToLines sort tables := by
  constructor
  · intro holds
    refine ⟨fun zone member safe records => ?_, hostsFile_iff.mp holds.hosts⟩
    exact (zoneFile_oneEach_iff safe).mp
      (holds.zones zone member _ (zoneFile_eq_some.mpr ⟨⟨safe, records⟩, rfl⟩))
  · intro keeps
    refine ⟨fun zone member content written => ?_, fun content => localZonesFile_oneEach,
      hostsFile_iff.mpr keeps.hosts⟩
    obtain ⟨⟨safe, records⟩, rfl⟩ := zoneFile_eq_some.mp written
    exact (zoneFile_oneEach_iff safe).mpr (keeps.zones zone member safe records)

/-! ## A name with a line break -/

/-- A sort that throws at every address without a sort key. -/
def AddressSort.strict : AddressSort where
  run keys := if keys.all fun key => (sortKey key).isSome then
    some (keys.mergeSort fun left right => (compare (sortKey left) (sortKey right)).isLE) else none
  perm := by
    intro keys sorted done
    split at done
    · cases done
      exact List.mergeSort_perm _ _
    · exact absurd done nofun
  ordered := by
    intro keys known
    refine ⟨_, if_pos (List.all_eq_true.mpr known), List.pairwise_mergeSort (fun a b c => ?_)
      (fun a b => ?_) _⟩
    · exact Std.TransCmp.isLE_trans
    · rw [Std.OrientedOrd.eq_swap (a := sortKey b), Ordering.isLE_swap]
      cases compare (sortKey a) (sortKey b) <;> rfl

/-- One zone, with a `CNAME` whose name has a line break. -/
def injecting : Tables where
  zones := [{ id := 1, name := "example.com".toList, type := .forward }]
  records := [
    { id := 1
      zoneId := 1
      name := "x\nserver=203.0.113.6\n#".toList
      type := .cname
      value := "y.example.com".toList }]

/-- **A line of the zone's file is a directive of the stored name's choice.** -/
theorem stored_directive :
    ¬ NoStoredDirective AddressSort.strict injecting ∧
      ∃ zone ∈ servedZones injecting, ∃ content, zoneFile (servedRecords injecting) zone =
        some content ∧ "server=203.0.113.6".toList ∈ fileLines content := by
  refine ⟨fun holds => ?_, ⟨_, List.mem_singleton_self _, _, rfl, by decide⟩⟩
  obtain ⟨zone, served, safe, record, inFile, rendered, noPtr, broken⟩ :
      ∃ zone ∈ servedZones injecting, isConfigSafe zone.name = true ∧
        ∃ record ∈ fileRecords (servedRecords injecting) zone, isRendered record = true ∧
          record.type ≠ .ptr ∧ '\n' ∈ record.fqdn := by
    refine ⟨_, List.mem_singleton_self _, by decide, _, List.mem_cons_self, ?_, ?_, ?_⟩ <;> decide
  have records : fileRecords (servedRecords injecting) zone ≠ [] := List.ne_nil_of_mem inFile
  have oneEach := holds.zones zone served _ (zoneFile_eq_some.mpr ⟨⟨safe, records⟩, rfl⟩)
  exact ((zoneFile_oneEach_iff safe).mp oneEach).names record inFile rendered noPtr broken

end Dnsmasq

end Cidrella
