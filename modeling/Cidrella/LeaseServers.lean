import Cidrella.LeaseLines
import Cidrella.Lib.Register

/-!
# The DHCP servers as tables of leases

A switch of the stack reads the leases of one DHCP server and imports them into the other.
Importing wipes the receiving server first, and a row it refuses is passed over. Both servers
are one `LeaseServer`, a table of rows with a reading and a writing, and what an import leaves
is one theorem for both (`mem_load`).

A row of dnsmasq is a line of the lease file, and it is read as text: a name of two words is
written into one line and read from it as a name and a client id. The lines are what
`parseLeaseFile` cuts the file into (`parseLeaseFile_text`), as no text of a lease that the
servers write breaks its line.
-/

set_option autoImplicit false

namespace Cidrella

open Address DnsNames Text

namespace LeaseHandover

/-! ## Rows and leases that stay in one line -/

/-- A `BackendLease` as a server reports it. -/
structure CarriedLease where
  lease : Lease
  oneLine : lease.OneLine

/-- A lease in Kea's table. -/
structure KeaRow where
  row : KeaLease
  oneLine : InOneLine row.ip (row.hwAddress.toList ++ row.clientId.toList ++ row.duid.toList)
    row.hostname.toList

/-- A line of dnsmasq's lease file. -/
structure FileLine where
  line : LeaseLine
  oneLine : InOneLine line.ip (line.identity :: line.clientId.toList) [line.hostname]

/-- The address of a lease. -/
def CarriedLease.ip (carried : CarriedLease) : Text := carried.lease.ip

/-- The address of a row. -/
def KeaRow.ip (row : KeaRow) : Text := row.row.ip

/-- The address of a line. -/
def FileLine.ip (line : FileLine) : Text := line.line.ip

/-- The same address for the same client under the same name. -/
def CarriedLease.Same (carried other : CarriedLease) : Prop := carried.lease.Same other.lease

theorem CarriedLease.Same.ip_eq {carried other : CarriedLease} (same : carried.Same other) :
    carried.ip = other.ip :=
  same.1

instance (carried other : CarriedLease) : Decidable (carried.Same other) :=
  inferInstanceAs (Decidable (carried.lease.Same other.lease))

theorem pmap_mk_eq_some {read : Option Lease} {oneLine : ∀ lease, read = some lease → lease.OneLine}
    {carried : CarriedLease} : read.pmap CarriedLease.mk oneLine = some carried ↔
    read = some carried.lease := by
  cases read with
  | none => exact iff_of_false nofun nofun
  | some lease =>
    constructor
    · intro same
      rw [← Option.some.inj same]
    · intro same
      cases carried
      obtain rfl := Option.some.inj same
      rfl

theorem map_lease_pmap (read : Option Lease) (oneLine : ∀ lease, read = some lease →
    lease.OneLine) :
    (read.pmap CarriedLease.mk oneLine).map CarriedLease.lease = read := by
  cases read <;> rfl

theorem exists_pmap_mk {read : Option Lease} {oneLine : ∀ lease, read = some lease → lease.OneLine}
    {lease : Lease} (found : read = some lease) : ∃ carried : CarriedLease,
      read.pmap CarriedLease.mk oneLine = some carried ∧ carried.lease = lease :=
  ⟨⟨lease, oneLine lease found⟩, pmap_mk_eq_some.mpr found, rfl⟩

/-! ## Kea -/

theorem oneLine_of_backendLeaseFromKea (row : KeaRow) :
    ∀ lease, backendLeaseFromKea row.row = some lease → lease.OneLine := by
  intro lease read
  obtain ⟨filled, solid, ids, names⟩ := row.oneLine
  have lowered : ∀ word, (∃ raw ∈ row.row.hwAddress.toList ++ row.row.clientId.toList ++
      row.row.duid.toList, raw.lower = word) → IsSolid word.text := by
    rintro _ ⟨raw, member, rfl⟩
    exact lower_solid (ids raw member)
  rw [backendLeaseFromKea] at read
  split at read
  · cases read
  · cases family : row.row.family with
    | v4 =>
      rw [family] at read
      obtain rfl := Option.some.inj read
      refine ⟨filled, solid, fun word member => lowered word ?_, names⟩
      simp only [List.mem_append, Option.mem_toList, Option.map_eq_some_iff, Option.toList_none,
        List.not_mem_nil, or_false] at member ⊢
      rcases member with ⟨raw, found, same⟩ | ⟨raw, found, same⟩
      · exact ⟨raw, .inl (.inl found), same⟩
      · exact ⟨raw, .inl (.inr found), same⟩
    | v6 =>
      rw [family] at read
      dsimp only at read
      split at read
      · cases read
      · obtain rfl := Option.some.inj read
        refine ⟨filled, solid, fun word member => lowered word ?_, names⟩
        simp only [List.mem_append, Option.mem_toList, Option.map_eq_some_iff, Option.toList_none,
          List.not_mem_nil, false_or, or_self] at member ⊢
        obtain ⟨raw, found, same⟩ := member
        exact ⟨raw, .inr found, same⟩

theorem oneLine_leaseAdd (now subnetLifetime : Nat) (carried : CarriedLease) :
    let row := leaseAdd now subnetLifetime (keaLeaseArguments now carried.lease)
    InOneLine row.ip (row.hwAddress.toList ++ row.clientId.toList ++ row.duid.toList)
        row.hostname.toList := by
  obtain ⟨filled, solid, ids, names⟩ := carried.oneLine
  unfold keaLeaseArguments leaseAdd
  cases carried.lease.dhcpVersion with
  | v4 =>
    refine ⟨filled, solid, fun word member => ids word ?_, names⟩
    simp only [Option.toList_none, List.append_nil] at member
    exact List.mem_append_left _ member
  | v6 =>
    refine ⟨filled, solid, fun word member => ids word ?_, names⟩
    simp only [Option.toList_none, List.nil_append, Option.mem_toList,
      Option.or_eq_some_iff] at member
    simp only [List.mem_append, Option.mem_toList]
    tauto

/-! ## The lease file -/

theorem oneLine_of_parseLineText (text : Text) : ∀ lease, parseLineText text = some lease →
    lease.OneLine := by
  intro lease read
  have fits := fitsLine_of_parseLineText read
  obtain ⟨line, -, parsed⟩ := Option.bind_eq_some_iff.mp read
  rw [parseLeaseLine] at parsed
  split at parsed
  · cases parsed
  · rename_i valid
    rw [Bool.not_eq_true', Bool.not_eq_false] at valid
    dsimp only at parsed
    split at parsed
    · obtain ⟨_, -, rfl⟩ := Option.map_eq_some_iff.mp parsed
      refine oneLine_of_fitsLine valid fits fun word isDuid => ?_
      obtain ⟨raw, clientId, rfl⟩ := Option.map_eq_some_iff.mp isDuid
      exact lower_solid (fits.clientId raw clientId).1
    · obtain rfl := Option.some.inj parsed
      exact oneLine_of_fitsLine valid fits fun word isDuid => by cases isDuid

theorem oneLine_formatLeaseLine (carried : CarriedLease) :
    InOneLine (formatLeaseLine carried.lease).ip
      ((formatLeaseLine carried.lease).identity :: (formatLeaseLine carried.lease).clientId.toList)
      [(formatLeaseLine carried.lease).hostname] := by
  obtain ⟨filled, solid, ids, names⟩ := carried.oneLine
  simp only [List.mem_append, Option.mem_toList] at ids names
  refine ⟨filled, solid, ?_, ?_⟩
  · simp only [formatLeaseLine]
    cases carried.lease.dhcpVersion with
    | v4 =>
      simp only [Option.toList_some, List.forall_mem_cons, List.not_mem_nil, false_imp_iff,
        implies_true, and_true]
      exact ⟨solid_getD (solid_of_all (by decide)) fun word mac => ids word (.inl (.inl mac)),
        solid_getD isSolid_star fun word clientId => ids word (.inl (.inr clientId))⟩
    | v6 =>
      simp only [Option.toList_some, List.forall_mem_cons, List.not_mem_nil, false_imp_iff,
        implies_true, and_true]
      refine ⟨isSolid_iaidWord _ _, solid_getD isSolid_star fun word known => ids word ?_⟩
      rcases Option.or_eq_some_iff.mp known with duid | ⟨-, clientId⟩
      · exact .inr duid
      · exact .inl (.inr clientId)
  · rw [List.forall_mem_singleton, formatLeaseLine]
    cases name : carried.lease.hostname with
    | none => exact (by decide : '\n' ∉ star.text)
    | some word => exact names word name

theorem same_of_textRoundTrip {text : Text} {lease : Lease}
    (read : parseLineText text = some lease) :
    ∃ back, parseLineText (formatLeaseLine lease).text = some back ∧ back.Same lease := by
  obtain ⟨line, -, parsed⟩ := Option.bind_eq_some_iff.mp read
  obtain ⟨back, reads, same⟩ := same_of_lineRoundTrip parsed
  have fits := fitsLine_of_parseLineText read
  obtain ⟨ws, solid, spelled, words⟩ :=
    spelled_of_oneLine (oneLine_of_parseLineText text lease read) fun word there =>
      (fits.hostname word there).1
  refine ⟨back, ?_, same⟩
  rw [parseLineText, spelled, wordsOf_intercalate solid, words, Option.bind_some, reads]

theorem wordsOf_text (line : FileLine) : ∃ more, wordsOf line.line.text =
    decimal line.line.expiry :: line.line.identity :: ⟨line.line.ip, line.oneLine.filled⟩ ::
    more := by
  obtain ⟨filled, solid, ids, -⟩ := line.oneLine
  have first : ∀ (word : Word) (back : Text), IsSolid word.text →
      wordsOf (word.text ++ ' ' :: back) = word :: wordsOf back := by
    intro word back solid
    rw [wordsOf, Words.words_append_blank (by decide), Words.words_of_solid word.filled solid,
      List.singleton_append, List.filterMap_cons_some (of?_text word)]
    rfl
  have text : line.line.text = (decimal line.line.expiry).text ++
      ' ' :: (line.line.identity.text ++ ' ' :: ((⟨line.line.ip, filled⟩ : Word).text ++ ' ' ::
        [' '].intercalate (line.line.hostname.text :: line.line.clientId.toList.map
        Word.text))) := by
    cases client : line.line.clientId <;> simp [LeaseLine.text, decimal, List.intercalate, client]
  rw [text, first _ _ (isSolid_decimal _), first _ _ (ids _ List.mem_cons_self), first _ _ solid]
  exact ⟨_, rfl⟩

theorem FileLine.unbroken (line : FileLine) : '\n' ∉ line.line.text := by
  obtain ⟨-, solid, ids, names⟩ := line.oneLine
  have blank : ∀ {word : Text}, IsSolid word → '\n' ∉ word := fun solid inside =>
    absurd (solid _ inside) (by decide)
  intro newline
  obtain isSpace | ⟨word, isWord, inside⟩ := mem_intercalate_singleton newline
  · exact absurd isSpace (by decide)
  · simp only [List.mem_append, List.mem_cons, List.not_mem_nil, or_false, List.mem_map] at isWord
    rcases isWord with (rfl | rfl | rfl | rfl) | ⟨client, isClient, rfl⟩
    · exact blank (isSolid_decimal _) inside
    · exact blank (ids _ List.mem_cons_self) inside
    · exact blank solid inside
    · exact names _ (List.mem_singleton_self _) inside
    · exact blank (ids _ (List.mem_cons_of_mem _ isClient)) inside

/-- **The key of a line** is the address that is read from it. -/
theorem ip_of_parseLineText {line : FileLine} {lease : Lease}
    (read : parseLineText line.line.text = some lease) :
    lease.ip = line.ip := by
  obtain ⟨found, words, parsed⟩ := Option.bind_eq_some_iff.mp read
  obtain ⟨more, split⟩ := wordsOf_text line
  obtain ⟨expiry, identity, ip, hostname, rest, same, rfl⟩ := readWords_eq_some words
  rw [split] at same
  simp only [List.cons.injEq] at same
  rw [ip_of_parseLeaseLine parsed, ← same.2.2.1]
  rfl

/-! ## Servers -/

/-- A DHCP server as a table of leases: how a row is read and in which order the rows are
listed, and how a lease is written and in which order leases are stored. -/
structure LeaseServer where
  Row : Type
  ip : Row → Text
  read : Row → Option CarriedLease
  listed : List Row → List Row
  write : CarriedLease → Row
  stored : List CarriedLease → List CarriedLease
  listed_perm : ∀ rows, (listed rows).Perm rows
  stored_perm : ∀ leases, (stored leases).Perm leases
  ip_of_read : ∀ {row lease}, read row = some lease → lease.ip = ip row
  ip_write : ∀ lease, ip (write lease) = lease.ip
  same_of_roundTrip : ∀ {row lease}, read row = some lease → ∃ back,
    read (write lease) = some back ∧ back.Same lease

/-- Kea, which lists the leases of one family after those of the other. -/
def kea (now subnetLifetime : Nat) : LeaseServer where
  Row := KeaRow
  ip := KeaRow.ip
  read row := (backendLeaseFromKea row.row).pmap CarriedLease.mk
    (oneLine_of_backendLeaseFromKea row)
  listed rows := [.v4, .v6].flatMap fun family => rows.filter (·.row.family = family)
  write carried := ⟨leaseAdd now subnetLifetime (keaLeaseArguments now carried.lease),
    oneLine_leaseAdd now subnetLifetime carried⟩
  stored := id
  listed_perm rows := by
    have others : rows.filter (·.row.family = .v6) = rows.filter fun row =>
        !decide (row.row.family = .v4) := by
      refine List.filter_congr fun row _ => ?_
      cases row.row.family <;> rfl
    simpa [others] using List.filter_append_perm (fun row => decide (row.row.family = .v4)) rows
  stored_perm _ := List.Perm.refl _
  ip_of_read read := ip_of_backendLeaseFromKea (pmap_mk_eq_some.mp read)
  ip_write carried := ip_leaseAdd now subnetLifetime carried.lease
  same_of_roundTrip read := by
    obtain ⟨back, reads, same⟩ := same_of_keaRoundTrip now subnetLifetime (pmap_mk_eq_some.mp read)
    obtain ⟨carried, found, rfl⟩ := exists_pmap_mk reads
    exact ⟨carried, found, same⟩

/-- dnsmasq and its lease file, a line of which is written and read as text. -/
def dnsmasq : LeaseServer where
  Row := FileLine
  ip := FileLine.ip
  read line := (parseLineText line.line.text).pmap CarriedLease.mk
    (oneLine_of_parseLineText line.line.text)
  listed := id
  write carried := ⟨formatLeaseLine carried.lease, oneLine_formatLeaseLine carried⟩
  stored leases := leases.filter (·.lease.dhcpVersion ≠ .v6) ++
    leases.filter (·.lease.dhcpVersion = .v6)
  listed_perm _ := List.Perm.refl _
  stored_perm leases := by
    simpa using List.filter_append_perm
      (fun carried : CarriedLease => decide (carried.lease.dhcpVersion ≠ .v6)) leases
  ip_of_read read := ip_of_parseLineText (pmap_mk_eq_some.mp read)
  ip_write _ := rfl
  same_of_roundTrip read := by
    obtain ⟨back, reads, same⟩ := same_of_textRoundTrip (pmap_mk_eq_some.mp read)
    obtain ⟨carried, found, rfl⟩ := exists_pmap_mk reads
    exact ⟨carried, found, same⟩

namespace LeaseServer

variable (server : LeaseServer)

/-- What a server holds. -/
abbrev Table : Type := Register server.ip

/-- `readLeases`, settled: `readKeaLeases`, `parseLeaseFile`. -/
def leases (table : server.Table) : List CarriedLease :=
  (server.listed table.rows).filterMap server.read

/-- **A table of lines is read as its file is**: `parseLeaseFile` of the texts of the lines, one
under the other, is what `leases` lists. -/
theorem parseLeaseFile_text (table : Register FileLine.ip) :
    parseLeaseFile (if table.rows = [] then [] else
        ['\n'].intercalate (table.rows.map (·.line.text)) ++ ['\n']) =
      some ((dnsmasq.leases table).map CarriedLease.lease) := by
  have unbroken : ∀ text ∈ table.rows.map (·.line.text), '\n' ∉ text := by
    intro text member
    obtain ⟨line, -, rfl⟩ := List.mem_map.mp member
    exact line.unbroken
  have read := parseLeaseFile_lines unbroken
  simp only [List.map_eq_nil_iff] at read
  rw [read, List.filterMap_map]
  refine congrArg some (Eq.trans ?_ List.map_filterMap.symm)
  exact List.filterMap_congr fun line _ => (map_lease_pmap _ _).symm

/-- `importKeaLeases`, and `importLeases` of dnsmasq with the restart that reads the file: the
table is emptied and then takes the leases it does not refuse. -/
def load (refuses : server.Row → Bool) (leases : List CarriedLease) : server.Table :=
  Register.empty.fill refuses ((server.stored leases).map server.write)

variable {server}

theorem mem_leases {table : server.Table} {lease : CarriedLease} :
    lease ∈ server.leases table ↔ ∃ row ∈ table, server.read row = some lease := by
  unfold leases
  rw [List.mem_filterMap]
  exact exists_congr fun row => and_congr_left' (server.listed_perm table.rows).mem_iff

theorem nodup_leases (table : server.Table) :
    ((server.leases table).map CarriedLease.ip).Nodup := by
  have rows : ((server.listed table.rows).map server.ip).Nodup :=
    ((server.listed_perm table.rows).map server.ip).nodup_iff.mpr table.distinct
  unfold leases
  generalize server.listed table.rows = listed at rows
  induction listed with
  | nil => exact List.nodup_nil
  | cons row listed ih =>
    rw [List.map_cons, List.nodup_cons] at rows
    rw [List.filterMap_cons]
    cases read : server.read row with
    | none => exact ih rows.2
    | some lease =>
      rw [List.map_cons, List.nodup_cons]
      refine ⟨?_, ih rows.2⟩
      rintro member
      obtain ⟨other, found, same⟩ := List.mem_map.mp member
      obtain ⟨row', inside, read'⟩ := List.mem_filterMap.mp found
      refine rows.1 (List.mem_map.mpr ⟨row', inside, ?_⟩)
      rw [← server.ip_of_read read', same, server.ip_of_read read]

theorem eq_of_ip_eq {table : server.Table} {lease other : CarriedLease}
    (member : lease ∈ server.leases table) (also : other ∈ server.leases table)
    (same : lease.ip = other.ip) : lease = other :=
  List.inj_on_of_nodup_map (nodup_leases table) member also same

/-- **An import** leaves a row for each lease that is not refused, and nothing else. -/
theorem mem_load {refuses : server.Row → Bool} {leases : List CarriedLease}
    (distinct : (leases.map CarriedLease.ip).Nodup) {row : server.Row} :
    row ∈ server.load refuses leases ↔ ∃ lease ∈ leases, server.write lease = row ∧
    refuses row = false := by
  have ips : (((server.stored leases).map server.write).map server.ip).Nodup := by
    rw [List.map_map, show server.ip ∘ server.write = CarriedLease.ip from funext server.ip_write]
    exact ((server.stored_perm leases).map CarriedLease.ip).nodup_iff.mpr distinct
  unfold load
  rw [Register.mem_fill_empty ips, List.mem_map]
  simp only [(server.stored_perm leases).mem_iff]
  constructor
  · rintro ⟨⟨lease, member, written⟩, accepted⟩
    exact ⟨lease, member, written, accepted⟩
  · rintro ⟨lease, member, written, accepted⟩
    exact ⟨⟨lease, member, written⟩, accepted⟩

/-- The server holds a lease, at its address for its client and under its name. -/
def Holds (server : LeaseServer) (table : server.Table) (lease : CarriedLease) : Prop :=
  ∃ held ∈ server.leases table, held.Same lease

theorem holds_of_mem {table : server.Table} {lease : CarriedLease}
    (member : lease ∈ server.leases table) :
    server.Holds table lease := ⟨lease, member, rfl, rfl, rfl⟩

instance (table : server.Table) (lease : CarriedLease) : Decidable (server.Holds table lease) :=
  inferInstanceAs (Decidable (∃ held ∈ server.leases table, held.Same lease))

/-- A lease that the other server takes, and that reads there and here as it was written. -/
def comesBack (server target : LeaseServer) (refuses : target.Row → Bool) (lease : CarriedLease) :
    Bool :=
  !refuses (target.write lease) && (target.read (target.write lease)).any fun abroad =>
    (server.read (server.write abroad)).any fun back => decide (back.Same lease)

theorem comesBack_iff {target : LeaseServer} {refuses : target.Row → Bool} {lease : CarriedLease} :
    comesBack server target refuses lease = true ↔ refuses (target.write lease) = false ∧
      ∃ abroad, target.read (target.write lease) = some abroad ∧
        ∃ back, server.read (server.write abroad) = some back ∧ back.Same lease := by
  simp [comesBack, Option.any_eq_true]

/-- A table that was given leases and kept those it did not refuse. -/
def Given (server : LeaseServer) (refuses : server.Row → Bool) (leases : List CarriedLease)
    (table : server.Table) : Prop :=
  ∀ row, row ∈ table ↔ ∃ lease ∈ leases, server.write lease = row ∧ refuses row = false

theorem given_load {refuses : server.Row → Bool} {leases : List CarriedLease}
    (distinct : (leases.map CarriedLease.ip).Nodup) :
    Given server refuses leases (server.load refuses leases) := fun _ => mem_load distinct

theorem Given.filter {refuses : server.Row → Bool} {leases : List CarriedLease}
    {table : server.Table} (given : Given server (fun _ => false) leases table) :
    Given server refuses leases (table.filter fun row => !refuses row) := by
  intro row
  rw [Register.mem_filter, given row]
  constructor
  · rintro ⟨⟨lease, member, written, -⟩, kept⟩
    exact ⟨lease, member, written, by simpa using kept⟩
  · rintro ⟨lease, member, written, accepted⟩
    exact ⟨⟨lease, member, written, rfl⟩, by simpa using accepted⟩

/-- **Leases that were given to the other server and taken back**: a lease that the other server
has not replaced by one of its own is held again exactly if it comes back unchanged. -/
theorem holds_taken_back {target : LeaseServer} {refuses : target.Row → Bool} (table : server.Table)
    {abroad : target.Table} (given : Given target refuses (server.leases table) abroad)
    (own : List target.Row) {lease : CarriedLease} (member : lease ∈ server.leases table)
    (free : lease.ip ∉ own.map target.ip) :
    server.Holds (server.load (fun _ => false) (target.leases (abroad.putAll own))) lease ↔
      comesBack server target refuses lease = true := by
  have taken := nodup_leases (abroad.putAll own)
  rw [comesBack_iff]
  constructor
  · rintro ⟨back, held, same⟩
    obtain ⟨row, stored, read⟩ := mem_leases.mp held
    obtain ⟨carried, reported, rfl, -⟩ := (mem_load taken).mp stored
    obtain ⟨row, stored, readAbroad⟩ := mem_leases.mp reported
    have there : target.ip row = lease.ip := by
      rw [← target.ip_of_read readAbroad, ← server.ip_write carried, ← server.ip_of_read read,
        same.ip_eq]
    obtain ⟨origin, first, rfl, accepted⟩ :=
      (given row).mp ((Register.mem_putAll_of_not_mem (there ▸ free)).mp stored)
    obtain rfl := eq_of_ip_eq first member (by rw [← target.ip_write origin, there])
    exact ⟨accepted, carried, readAbroad, back, read, same⟩
  · rintro ⟨accepted, carried, readAbroad, back, read, same⟩
    have stored := (given (target.write lease)).mpr ⟨lease, member, rfl, accepted⟩
    have elsewhere : target.ip (target.write lease) ∉ own.map target.ip :=
      (target.ip_write lease).symm ▸ free
    have kept := (Register.mem_putAll_of_not_mem elsewhere).mpr stored
    have reported : carried ∈ target.leases _ := mem_leases.mpr ⟨_, kept, readAbroad⟩
    exact ⟨back, mem_leases.mpr ⟨_, (mem_load taken).mpr ⟨carried, reported, rfl, rfl⟩, read⟩, same⟩

theorem holds_reloaded (table : server.Table) {lease : CarriedLease}
    (member : lease ∈ server.leases table) :
    server.Holds (server.load (fun _ => false) (server.leases table)) lease := by
  obtain ⟨row, -, read⟩ := mem_leases.mp member
  obtain ⟨back, reads, same⟩ := server.same_of_roundTrip read
  exact ⟨back, mem_leases.mpr ⟨_, (mem_load (nodup_leases table)).mpr ⟨lease, member, rfl, rfl⟩,
    reads⟩, same⟩

end LeaseServer

end LeaseHandover

end Cidrella
