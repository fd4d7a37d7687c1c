import Cidrella.DhcpDnsRecords
import Cidrella.UniqueNames

/-!
# Lease names are sticky

Names go through a cycle: they are assigned, stored with their leases, published as records
and found again by address when the next list of leases is named. An address keeps its name
through the cycle when its name was published as a lease's, which a reservation or an
operator's record of the same name prevents, and when what its client sends is matched by
the name it holds (`names_stick`).
-/

set_option autoImplicit false

namespace Cidrella

open Address DnsNames

namespace LeaseNames

open Dns

/-! ## The name of a lease -/

section Assigned

variable {n : Naming} {s : Store} {leases : List BackendLease} {state : State}
    {lease : BackendLease} {index : Nat}
variable {zone : ZoneRef} {name : Text}

/-- A name after the second loop was there before, or it is one that a waiting lease tried. -/
theorem name_of_settlePending_foldl {ips : List Addr} (todo : List PendingLease)
    (named : Assoc.get (todo.foldl (settlePending n s ips) state).names index = some (some name)) :
    Assoc.get state.names index = some (some name) ∨ ∃ pending ∈ todo, pending.index = index ∧
      ∃ candidate, pending.candidate = some candidate ∧ name ∈ nameOptions candidate := by
  induction todo generalizing state with
  | nil => exact .inl named
  | cons pending todo ih =>
    rcases ih named with before | ⟨other, later, found⟩
    · by_cases here : index = pending.index
      · subst here
        right
        refine ⟨pending, List.mem_cons_self, rfl, ?_⟩
        unfold settlePending at before
        cases asked : pending.candidate with
        | none =>
          rw [asked] at before
          simp only [Assoc.get_put_self] at before
          exact absurd (Option.some.inj before) (by simp)
        | some candidate =>
          rw [asked] at before
          simp only [State.claim, Assoc.get_put_self] at before
          exact ⟨candidate, rfl, List.mem_of_find?_eq_some (Option.some.inj before)⟩
      · left
        obtain ⟨hostname, names⟩ := @settlePending_names n s state ips pending
        rw [names, Assoc.get_put_of_ne _ _ here] at before
        exact before
    · exact .inr ⟨other, List.mem_cons_of_mem _ later, found⟩

theorem name_of_has (has : Has n s leases (settle n s leases) index lease zone name) :
    kept n s zone lease = some name ∨ (kept n s zone lease = none ∧
      ∃ candidate, settleHeld.candidateOf n lease = some candidate ∧
      name ∈ nameOptions candidate) := by
  cases keeps : kept n s zone lease with
  | some spelling =>
    have named := settle_of_kept has.here has.inZone keeps
    left
    exact Option.some.inj (named.symm.trans has.named)
  | none =>
    right
    refine ⟨rfl, ?_⟩
    have member : (lease, index) ∈ leases.zipIdx := List.mem_zipIdx_iff_getElem?.mpr has.here
    rcases name_of_settlePending_foldl _ has.named with before | ⟨pending, waiting, rfl, candidate,
      asked, option⟩
    · have waits := firstSettled_settleFirst.waits lease index zone member has.inZone keeps
      exact absurd (waits.symm.trans before) (by simp)
    · have isPending := waiting
      rw [List.mem_mergeSort] at isPending
      change _ ∈ (settleFirst n s leases).pending at isPending
      rw [firstSettled_settleFirst.pending] at isPending
      obtain ⟨item, isItem, found⟩ := List.mem_filterMap.mp isPending
      obtain ⟨zone', -, rest⟩ := Option.bind_eq_some_iff.mp found
      split at rest
      · exact absurd rest (by simp)
      · obtain rfl := Option.some.inj rest
        have here := List.mem_zipIdx_iff_getElem?.mp isItem
        obtain rfl : item.1 = lease := Option.some.inj (here.symm.trans has.here)
        exact ⟨candidate, asked, option⟩

theorem candidateOf_ne_nil {candidate : Text}
    (asked : settleHeld.candidateOf n lease = some candidate) :
    candidate ≠ [] := by
  rcases Option.or_eq_some_iff.mp asked with sent | ⟨-, vendor⟩
  · exact ne_nil_of_truthy sent
  · exact ne_nil_of_truthy vendor

theorem name_ne_nil (has : Has n s leases (settle n s leases) index lease zone name) :
    name ≠ [] := by
  rcases name_of_has has with keeps | ⟨-, candidate, asked, option⟩
  · obtain ⟨_, _, _, _, _, _, _, _, solid, _⟩ := kept_eq_some keeps
    exact solid
  · exact ne_nil_of_mem_nameOptions (candidateOf_ne_nil asked) option

end Assigned

/-! ## Suffixes -/

/-- A suffix in lower case. -/
def isSuffix (text : Text) : Bool :=
  match text with
  | ['-', high, low] => isLowerHex high && isLowerHex low
  | _ => false

/-- The digits of a suffix. -/
def suffixDigits : Text := "0123456789ABCDEF".toList

theorem upperDigit_eq {d : Nat} (small : d < 16) :
    ∃ digit ∈ suffixDigits, (Nat.toDigits 16 d).map Char.toUpper = [digit] := by
  interval_cases d <;> exact ⟨_, by decide, rfl⟩

theorem suffix_eq_of_mem {suffix : Text} (member : suffix ∈ nameSuffixes) :
    ∃ high ∈ suffixDigits, ∃ low ∈ suffixDigits, suffix = ['-', high, low] := by
  obtain ⟨i, range, rfl⟩ := List.mem_map.mp member
  have small : i < 256 := List.mem_range.mp range
  obtain ⟨high, isHigh, first⟩ := upperDigit_eq (show i / 16 < 16 by omega)
  obtain ⟨low, isLow, second⟩ := upperDigit_eq (show i % 16 < 16 by omega)
  refine ⟨high, isHigh, low, isLow, ?_⟩
  rw [nameSuffix, List.map_append, first, second]
  rfl

theorem suffixDigits_all {test : Char → Bool} (all : suffixDigits.all test = true) {digit : Char}
    (member : digit ∈ suffixDigits) : test digit = true := List.all_eq_true.mp all digit member

theorem isSuffix_of_mem {suffix : Text} (member : suffix ∈ nameSuffixes) :
    isSuffix (toLowerCase suffix) = true := by
  obtain ⟨high, isHigh, low, isLow, rfl⟩ := suffix_eq_of_mem member
  have hex := fun {digit : Char} => @suffixDigits_all (fun c => isLowerHex c.toLower)
    (by decide) digit
  have lower : toLowerCase ['-', high, low] = ['-', high.toLower, low.toLower] := rfl
  rw [lower, isSuffix, hex isHigh, hex isLow]
  rfl

theorem isSuffixed_append {wanted suffix : Text} (isIt : isSuffix suffix = true) :
    isSuffixed wanted (wanted ++ suffix) = true := by
  have front : wanted.isPrefixOf (wanted ++ suffix) = true :=
    List.isPrefixOf_iff_prefix.mpr ⟨suffix, rfl⟩
  have rest : (wanted ++ suffix).drop wanted.length = suffix := List.drop_left
  rw [isSuffixed, front, Bool.true_and, rest]
  exact isIt

theorem eq_append_of_isSuffixed {wanted held : Text} (suffixed : isSuffixed wanted held = true) :
    ∃ suffix, isSuffix (toLowerCase suffix) = true ∧ held = wanted ++ suffix := by
  rw [isSuffixed, Bool.and_eq_true] at suffixed
  obtain ⟨rest, rfl⟩ := List.isPrefixOf_iff_prefix.mp suffixed.1
  have isIt : isSuffix rest = true := by
    have test := suffixed.2
    rw [List.drop_left] at test
    exact test
  refine ⟨rest, ?_, rfl⟩
  have lower : toLowerCase rest = rest := by
    unfold isSuffix at isIt
    split at isIt
    · simp only [isLowerHex, Bool.and_eq_true, decide_eq_true_eq] at isIt
      simp only [toLowerCase, List.map_cons, List.map_nil, isIt.1.2, isIt.2.2]
      rfl
    · exact absurd isIt (by decide)
  rw [lower]
  exact isIt

/-- A suffix of the name that a client was given, added to what it sent, cut to its length, or
to its normalized form, is in the record of the name a suffix of the normalized form. -/
def SuffixShows (hostname name zoneName : Text) : Prop :=
  ∀ suffix, isSuffix (toLowerCase suffix) = true →
    name = hostname.take (maxLabel - 3) ++ suffix ∨
      name = normalizeRecordNameForZone hostname zoneName ++ suffix →
    isSuffixed (normalizeRecordNameForZone hostname zoneName)
      (normalizeRecordNameForZone name zoneName) = true

theorem dot_mem_toLowerCase {text : Text} : '.' ∈ toLowerCase text ↔ '.' ∈ text := by
  rw [toLowerCase, List.mem_map]
  constructor
  · rintro ⟨c, member, lower⟩
    rwa [(toLower_eq_mark (.inl rfl)).mp lower] at member
  · exact fun member => ⟨'.', member, rfl⟩

theorem normalize_of_label {text zoneName : Text} (label : '.' ∉ text) (trimmed : trim text = text)
    (notAt : text ≠ ['@']) (zone : '.' ∈ normalizeDnsName zoneName) :
    normalizeRecordNameForZone text zoneName = toLowerCase text := by
  have raw : rawName text = toLowerCase text := by rw [rawName, trimmed]
  have noDot : '.' ∉ rawName text := by
    rw [raw, dot_mem_toLowerCase]
    exact label
  have relative : endsWith (rawName text) ['.'] = false := by
    rw [← Bool.not_eq_true]
    intro ends
    obtain ⟨front, same⟩ := endsWith_iff.mp ends
    exact noDot (by simp [same])
  have bare : bareName text = rawName text := dropFinalDot_eq_self relative
  have outside : IsOutside text zoneName := by
    refine ⟨?_, ?_⟩
    · rintro (isAt | isZone)
      · rw [bare, raw, toLowerCase, List.map_eq_singleton_iff] at isAt
        obtain ⟨c, rfl, lower⟩ := isAt
        exact notAt (by rw [(toLower_eq_mark (.inr rfl)).mp lower])
      · rw [bare] at isZone
        exact noDot (isZone ▸ zone)
    · rw [← Bool.not_eq_true]
      intro ends
      obtain ⟨front, same⟩ := endsWith_iff.mp ends
      rw [bare] at same
      exact noDot (by simp [same])
  rw [normalize_of_outside outside, raw]

theorem trim_append {front back : Text} (solid : trim front = front) (nonempty : front ≠ [])
    (ends : ∀ last, back.getLast? = some last → isTrimmed last = false) (some : back ≠ []) :
    trim (front ++ back) = front ++ back := by
  have start : (front ++ back).dropWhile isTrimmed = front ++ back := by
    have whole : front.dropWhile isTrimmed = front := by
      refine (List.dropWhile_suffix isTrimmed).eq_of_length_le ?_
      have shorter := (List.rdropWhile_prefix isTrimmed (front.dropWhile isTrimmed)).length_le
      rw [← trim_eq_rdropWhile, solid] at shorter
      exact shorter
    cases front with
    | nil => exact absurd rfl nonempty
    | cons c rest =>
      rw [List.dropWhile_cons] at whole
      split at whole
      · have longer := (List.dropWhile_suffix (l := rest) isTrimmed).length_le
        rw [whole] at longer
        simp at longer
      · rename_i keeps
        rw [List.cons_append, List.dropWhile_cons, if_neg keeps]
  rw [trim_eq_rdropWhile, start, List.rdropWhile_eq_self_iff]
  intro long
  have last : (front ++ back).getLast? = back.getLast? := by
    rw [List.getLast?_append_of_ne_nil _ some]
  rw [List.getLast?_eq_some_getLast long] at last
  simp [ends _ last.symm]

theorem solid_of_isSuffix {suffix : Text} (isIt : isSuffix (toLowerCase suffix) = true) :
    suffix ≠ [] ∧ '.' ∉ suffix ∧ ∀ c ∈ suffix, isTrimmed c = false := by
  have lowerHex : ∀ c, isLowerHex c = true → c ≠ '.' ∧ isTrimmed c = false := by
    intro c hex
    rw [isLowerHex, Bool.and_eq_true] at hex
    exact ⟨fun dot => absurd (dot ▸ hex.1) (by decide),
      isTrimmed_of_isPlain (isPlain_of_isHexDigit hex.1)⟩
  have marks : ∀ c ∈ toLowerCase suffix, c ≠ '.' ∧ isTrimmed c = false := by
    unfold isSuffix at isIt
    split at isIt
    · rename_i high low same
      obtain ⟨isHigh, isLow⟩ := Bool.and_eq_true_iff.mp isIt
      rw [same]
      simp only [List.mem_cons, List.not_mem_nil, or_false, forall_eq_or_imp, forall_eq]
      exact ⟨by decide, lowerHex high isHigh, lowerHex low isLow⟩
    · exact absurd isIt (by decide)
  refine ⟨fun none => absurd isIt (by rw [none]; decide), fun dot => ?_, fun c member => ?_⟩
  · exact (marks '.' (dot_mem_toLowerCase.mpr dot)).1 rfl
  · rw [← isTrimmed_toLower]
    exact (marks c.toLower (List.mem_map_of_mem member)).2

/-- **A label of at most 60 characters takes a suffix**, whichever it is. -/
theorem suffixShows_of_label {hostname zoneName : Text} (short : hostname.length ≤ maxLabel - 3)
    (label : '.' ∉ hostname) (trimmed : trim hostname = hostname) (nonempty : hostname ≠ [])
    (notAt : hostname ≠ ['@']) (zone : '.' ∈ normalizeDnsName zoneName) (name : Text) :
    SuffixShows hostname name zoneName := by
  intro suffix isIt given
  obtain ⟨some, noDot, solid⟩ := solid_of_isSuffix isIt
  have isWanted : normalizeRecordNameForZone hostname zoneName = toLowerCase hostname :=
    normalize_of_label label trimmed notAt zone
  -- either way a label with the suffix after it
  have recorded : ∀ front : Text, '.' ∉ front → trim front = front → front ≠ [] →
      normalizeRecordNameForZone (front ++ suffix) zoneName = toLowerCase (front ++ suffix) := by
    intro front bare whole filled
    refine normalize_of_label ?_ (trim_append whole filled ?_ some) ?_ zone
    · rw [List.mem_append, not_or]
      exact ⟨bare, noDot⟩
    · exact fun last isLast => solid last (List.mem_of_getLast? isLast)
    · intro same
      have lengths := congrArg List.length same
      have one := List.length_pos_iff.mpr filled
      have three : 3 ≤ suffix.length := by
        rw [← length_toLowerCase]
        unfold isSuffix at isIt
        split at isIt
        · rename_i same
          simp [same]
        · exact absurd isIt (by decide)
      rw [List.length_append, List.length_singleton] at lengths
      omega
  have shown : normalizeRecordNameForZone name zoneName = toLowerCase hostname ++
      toLowerCase suffix := by
    rcases given with rfl | rfl
    · rw [List.take_of_length_le short, recorded hostname label trimmed nonempty,
        toLowerCase_append]
    · rw [isWanted, recorded, toLowerCase_append, toLowerCase_toLowerCase]
      · rw [dot_mem_toLowerCase]
        exact label
      · rw [trim_toLowerCase, trimmed]
      · exact fun none => nonempty (List.map_eq_nil_iff.mp none)
  rw [isWanted, shown]
  exact isSuffixed_append isIt

/-! ## Publishing and finding again -/

section Published

variable {n : Naming} {s : Store} {leases : List BackendLease} {lease : BackendLease}
    {zone : ZoneRef} {hostname : Text}

/-- The entry of a lease. -/
def entryOf (lease : BackendLease) : Entry := ⟨lease.ip, lease.hostname, lease.subnetId, .dhcp⟩

theorem mem_entries (member : lease ∈ leases) (unreserved : lease.ip ∉ (namedReservations n.env).map
    Reservation.addr) :
    entryOf lease ∈ entries n.env leases := by
  refine List.mem_append_left _ (List.mem_map.mpr ⟨lease, List.mem_filter.mpr ⟨member, ?_⟩, rfl⟩)
  simpa using unreserved

theorem eq_entryOf (distinct : (leases.map (·.ip)).Nodup) (member : lease ∈ leases)
    (unreserved : lease.ip ∉ (namedReservations n.env).map Reservation.addr) {entry : Entry}
    (isEntry : entry ∈ entries n.env leases) (sameIp : entry.ip = lease.ip) :
    entry = entryOf lease := by
  rcases List.mem_append.mp isEntry with ofLease | ofReservation
  · obtain ⟨other, isOther, rfl⟩ := List.mem_map.mp ofLease
    obtain rfl : other = lease := List.inj_on_of_nodup_map distinct (List.mem_of_mem_filter isOther)
      member sameIp
    rfl
  · obtain ⟨reservation, isReservation, rfl⟩ := List.mem_map.mp ofReservation
    exact absurd (sameIp ▸ List.mem_map_of_mem isReservation) unreserved

/-- No record of another source has the lease's name and address. -/
def OwnsName (s : Store) (zone : ZoneRef) (ip : Addr) (name : Text) : Prop :=
  ∀ record ∈ s.records, record.zoneId = zone.id → record.name = name →
    record.type = recordTypeFor ip → record.value = ip.text → isGenerated record = true

/-- Publishing leaves the address with one lease record, by the lease's name. -/
theorem heldName_published (apart : ZonesApart (zoneRefs s)) (distinct : (leases.map (·.ip)).Nodup)
    (member : lease ∈ leases) (named : truthy lease.hostname = some hostname)
    (inZone : n.zoneFor (zoneRefs s) lease.subnetId lease.ip = some zone)
    (unreserved : lease.ip ∉ (namedReservations n.env).map Reservation.addr)
    (owns : OwnsName s zone lease.ip (normalizeRecordNameForZone hostname zone.name)) :
    heldName (syncDhcpDnsRecords n s leases).1 zone lease.ip =
    some (normalizeRecordNameForZone hostname zone.name) := by
  have synced := @synced_syncEntries n s apart leases
  have isEntry := mem_entries member unreserved
  have published : publishedAs n (zoneRefs s) (entryOf lease) =
      some (zone, normalizeRecordNameForZone hostname zone.name) := by
    simp [publishedAs, entryOf, named, inZone]
  have outside := apart.outside published
  have processed := (synced.processed zone.id).mpr (.inr ⟨_, isEntry, zone, _, published, rfl⟩)
  obtain ⟨row, isRow, rowOf, active⟩ := synced.present _ isEntry zone _ published
  -- what is active at the address is the lease's own
  have isOwn : ∀ other ∈ forwardRows (syncEntries n s leases).store, other.value = lease.ip.text →
      other.id ∈ (syncEntries n s leases).activeRecordIds → other.source = .dhcp ∧
        other.name = normalizeRecordNameForZone hostname zone.name := by
    intro other isOther value isActive
    obtain ⟨entry, isIt, zone', name, publishedIt, otherOf, source⟩ :=
      synced.active other isOther isActive
    have sameIp : entry.ip = lease.ip := Addr.text_injective (otherOf.value.symm.trans value)
    obtain rfl := eq_entryOf distinct member unreserved isIt sameIp
    obtain ⟨-, rfl⟩ := Prod.mk.inj (Option.some.inj (publishedIt.symm.trans published))
    exact ⟨source, otherOf.name⟩
  have generated : isGenerated row = true := by
    cases manual : isGenerated row with
    | true => rfl
    | false =>
      have old := (mem_forwardRows.mp (synced.origin row isRow manual)).1
      rw [owns row old rowOf.zoneId rowOf.name rowOf.type rowOf.value] at manual
      exact absurd manual (by simp)
  obtain ⟨isActive, ipActive⟩ := active generated
  obtain ⟨source, -⟩ := isOwn row isRow rowOf.value isActive
  have refs := @zoneRefs_syncDhcpDnsRecords n s leases apart
  have stays : row ∈ forwardRows (syncDhcpDnsRecords n s leases).1 :=
    (mem_forwardRows_syncDhcpDnsRecords apart).mpr ⟨isRow, fun stale => stale.inactive isActive⟩
  have test : ∀ record, record ∈ recordsIn (syncDhcpDnsRecords n s leases).1 zone.id →
      (record.source = .dhcp && record.value = lease.ip.text && record.type = recordTypeFor
      lease.ip) = true → record.name = normalizeRecordNameForZone hostname zone.name := by
    intro record isRecord isIt
    simp only [recordsIn, List.mem_filter, Bool.and_eq_true, decide_eq_true_eq] at isRecord
    simp only [Bool.and_eq_true, decide_eq_true_eq] at isIt
    have forward : record ∈ forwardRows (syncDhcpDnsRecords n s leases).1 :=
      mem_forwardRows.mpr ⟨isRecord.1, by rw [refs, isRecord.2.1, outside]⟩
    obtain ⟨inLoop, fresh⟩ := (mem_forwardRows_syncDhcpDnsRecords apart).mp forward
    refine (isOwn record inLoop isIt.1.2 ?_).2
    by_contra idle
    refine fresh ⟨by simp [isGenerated, isIt.1.1], isRecord.2.1 ▸ processed, idle, ?_⟩
    simp [isRetained, isIt.1.2,
      show lease.ip.text ∈ (syncEntries n s leases).activeIps from ipActive]
  have isHeld : row ∈ recordsIn (syncDhcpDnsRecords n s leases).1 zone.id := by
    simp only [recordsIn, List.mem_filter, Bool.and_eq_true, Bool.or_eq_true, decide_eq_true_eq]
    refine ⟨(mem_forwardRows.mp stays).1, rowOf.zoneId, .inl ?_⟩
    rw [rowOf.type]
    exact isAddress_recordTypeFor _
  rw [heldName]
  cases found : (recordsIn (syncDhcpDnsRecords n s leases).1 zone.id).find? fun record =>
      record.source = .dhcp && record.value = lease.ip.text && record.type = recordTypeFor
          lease.ip with
  | none =>
    have none := List.find?_eq_none.mp found row isHeld
    refine absurd ?_ none
    simp only [Bool.and_eq_true, decide_eq_true_eq]
    exact ⟨⟨source, rowOf.value⟩, rowOf.type⟩
  | some record =>
    have isIt := List.find?_some found
    rw [Option.map_some, test record (List.mem_of_find?_eq_some found) isIt,
      toLowerCase_normalizeRecordNameForZone]

end Published

/-! ## The stored name -/

/-- Naming once leases are stored. Storing them also writes address rows. -/
def Naming.after (n : Naming) (ips : IpStore) (now : Nat) (leases : List BackendLease) : Naming :=
  { n with env := replaceLeases n.env now leases, ips, now }

section Stored

variable {n : Naming} {ips : IpStore} {now : Nat} {leases : List BackendLease}
    {lease : BackendLease} {name : Text}

theorem mem_of_mem_previousLeases {rows : List Lease} {row : Lease}
    (member : row ∈ previousLeases rows) :
    row ∈ rows := by
  obtain ⟨key, -, found⟩ := List.mem_filterMap.mp member
  rw [List.findRev?_eq_find?_reverse] at found
  exact List.mem_reverse.mp (List.mem_of_find?_eq_some found)

theorem hostname_of_stored (distinct : (leases.map (·.ip)).Nodup) (member : lease ∈ leases)
    (alone : ∀ old ∈ n.env.leases, old.addr = lease.ip → old.subnetId = lease.subnetId)
    {row : Lease} (isRow : row ∈ (n.after ips now leases).env.leases)
    (sameIp : row.addr = lease.ip) :
    row.hostname = lease.hostname := by
  rcases List.mem_append.mp isRow with stored | expired
  · obtain ⟨⟨other, i⟩, isOther, rfl⟩ := List.mem_map.mp stored
    have isLease : other ∈ leases := List.mem_of_getElem? (List.mem_zipIdx_iff_getElem?.mp isOther)
    rw [List.inj_on_of_nodup_map distinct isLease member sameIp]
  · obtain ⟨⟨old, i⟩, isOld, rfl⟩ := List.mem_map.mp expired
    have isKept := List.mem_of_getElem? (List.mem_zipIdx_iff_getElem?.mp isOld)
    obtain ⟨isPrevious, test⟩ := List.mem_filter.mp isKept
    have sameSubnet := alone old (mem_of_mem_previousLeases isPrevious) sameIp
    simp only [isKeptExpired, Bool.and_eq_true, List.all_eq_true, decide_eq_true_eq] at test
    refine absurd ?_ (test.1.1 lease member)
    rw [← sameIp, ← sameSubnet]

theorem exists_stored (ips : IpStore) (now : Nat) (member : lease ∈ leases) :
    ∃ row ∈ (n.after ips now leases).env.leases, row.addr = lease.ip ∧
    row.hostname = lease.hostname := by
  obtain ⟨i, here⟩ := List.mem_iff_getElem?.mp member
  have isItem : (lease, i) ∈ leases.zipIdx := List.mem_zipIdx_iff_getElem?.mpr here
  exact ⟨_, List.mem_append_left _ (List.mem_map.mpr ⟨(lease, i), isItem, rfl⟩), rfl, rfl⟩

theorem previousName_stored (distinct : (leases.map (·.ip)).Nodup) (member : lease ∈ leases)
    (named : lease.hostname = some name)
    (alone : ∀ old ∈ n.env.leases, old.addr = lease.ip → old.subnetId = lease.subnetId) :
    previousName (n.after ips now leases) lease.ip = some name := by
  rw [previousName, List.findRev?_eq_find?_reverse]
  cases found : (n.after ips now leases).env.leases.reverse.find? fun row =>
      row.addr = lease.ip && row.hostname.isSome with
  | none =>
    obtain ⟨row, isRow, sameIp, sameName⟩ := @exists_stored n leases lease ips now member
    have none := List.find?_eq_none.mp found row (List.mem_reverse.mpr isRow)
    exact absurd (by simp [sameIp, sameName, named]) none
  | some row =>
    have isRow := List.mem_reverse.mp (List.mem_of_find?_eq_some found)
    have test := List.find?_some found
    simp only [Bool.and_eq_true, decide_eq_true_eq] at test
    rw [Option.bind_some, hostname_of_stored distinct member alone isRow test.1, named]

end Stored

/-! ## The cycle -/

/-- What a client sends after it was named: nothing, the base of its name, or what it sent
before, unless it was given a suffix that does not show in the record of its name. -/
def SendsAgain (zone : ZoneRef) (before again : BackendLease) (name : Text) : Prop :=
  truthy again.hostname = none ∨
  (∃ base, truthy again.hostname = some base ∧
    isSuffixed (normalizeRecordNameForZone base zone.name)
    (normalizeRecordNameForZone name zone.name) = true) ∨
  (again.hostname = before.hostname ∧ ∀ hostname, truthy before.hostname = some hostname →
    normalizeRecordNameForZone hostname zone.name = [] ∨
    normalizeRecordNameForZone hostname zone.name = normalizeRecordNameForZone name zone.name ∨
    SuffixShows hostname name zone.name)

/-- The name of a lease can be published as its own and found again: its address has no
reservation with a name, no record of another source has its name and address, the name is
not blank, and either normalizing it once more leaves it or no other network has a lease
row of the address. -/
structure CanHold (n : Naming) (s : Store) (zone : ZoneRef) (lease : BackendLease) (name : Text) :
    Prop where
  unreserved : lease.ip ∉ (namedReservations n.env).map Reservation.addr
  owns : OwnsName s zone lease.ip (normalizeRecordNameForZone name zone.name)
  solid : normalizeRecordNameForZone name zone.name ≠ []
  spelled : normalizeRecordNameForZone (normalizeRecordNameForZone name zone.name) zone.name =
      normalizeRecordNameForZone name zone.name ∨
    ∀ old ∈ n.env.leases, old.addr = lease.ip → old.subnetId = lease.subnetId

section Cycle

variable {n : Naming} {s : Store} {leases : List BackendLease} {lease again : BackendLease}
    {index : Nat}
variable {zone : ZoneRef} {name : Text}

theorem recorded_or_eq_held {held : Text} : normalizeRecordNameForZone
    (keptSpelling n zone lease held) zone.name = held ∨ keptSpelling n zone lease held = held ∧
    wantedName zone lease ≠ some held := by
  unfold keptSpelling
  split
  · split_ifs with stored wanted
    · exact .inl stored
    · exact .inl (normalize_sent wanted)
    · exact .inr ⟨rfl, wanted⟩
  · split_ifs with wanted
    · exact .inl (normalize_sent wanted)
    · exact .inr ⟨rfl, wanted⟩

/-- A name is given as it was sent or found, or with a suffix to it. -/
theorem suffixed_of_has {hostname : Text}
    (has : Has n s leases (settle n s leases) index lease zone name)
    (sent : truthy lease.hostname = some hostname)
    (filled : normalizeRecordNameForZone hostname zone.name ≠ [])
    (other : normalizeRecordNameForZone hostname zone.name ≠ normalizeRecordNameForZone name
    zone.name) :
    isSuffixed (normalizeRecordNameForZone hostname zone.name)
      (normalizeRecordNameForZone name zone.name) = true ∨ ∃ suffix, isSuffix (toLowerCase suffix) =
        true ∧ (name = hostname.take (maxLabel - 3) ++ suffix ∨
        name = normalizeRecordNameForZone hostname zone.name ++ suffix) := by
  have wanted : wantedName zone lease = some (normalizeRecordNameForZone hostname zone.name) := by
    rw [wantedName, sent]
    rfl
  rcases name_of_has has with keeps | ⟨-, candidate, asked, option⟩
  · obtain ⟨held, -, found⟩ := Option.bind_eq_some_iff.mp keeps
    split at found
    · rename_i matched
      simp only [keepsHeld, wanted, Bool.and_eq_true, Bool.or_eq_true, decide_eq_true_eq, filled,
        false_or] at matched
      obtain rfl := Option.some.inj found
      obtain recorded | ⟨same, notSent⟩ := @recorded_or_eq_held n lease zone held
      · rw [recorded] at other ⊢
        exact .inl (matched.2.resolve_left (Ne.symm other))
      · rw [same] at other ⊢
        rcases matched.2 with asSent | suffixed
        · exact absurd (wanted.trans (congrArg some asSent.symm)) notSent
        · obtain ⟨suffix, isIt, rfl⟩ := eq_append_of_isSuffixed suffixed
          exact .inr ⟨suffix, isIt, .inr rfl⟩
    · exact absurd found (by simp)
  · rw [settleHeld.candidateOf, sent] at asked
    obtain rfl : hostname = candidate := Option.some.inj asked
    rcases List.mem_cons.mp option with rfl | suffixed
    · exact absurd rfl other
    · obtain ⟨suffix, isSuffix, rfl⟩ := List.mem_map.mp suffixed
      exact .inr ⟨suffix, isSuffix_of_mem isSuffix, .inl rfl⟩

theorem keepsHeld_of_sendsAgain (has : Has n s leases (settle n s leases) index lease zone name)
    (sends : SendsAgain zone lease again name)
    (solid : normalizeRecordNameForZone name zone.name ≠ []) :
    keepsHeld zone again (normalizeRecordNameForZone name zone.name) = true := by
  rcases sends with unnamed | ⟨base, sent, suffixed⟩ | ⟨same, shows⟩
  · simp [keepsHeld, wantedName, unnamed, solid]
  · simp [keepsHeld, wantedName, sent, solid, suffixed]
  · cases sent : truthy lease.hostname with
    | none => simp [keepsHeld, wantedName, same, sent, solid]
    | some hostname =>
      simp only [keepsHeld, wantedName, same, sent, Option.map_some, Bool.and_eq_true,
        Bool.or_eq_true,
        decide_eq_true_eq]
      refine ⟨solid, ?_⟩
      by_cases filled : normalizeRecordNameForZone hostname zone.name = []
      · exact .inl (.inl filled)
      · by_cases asSent : normalizeRecordNameForZone hostname zone.name = normalizeRecordNameForZone
          name zone.name
        · exact .inl (.inr asSent.symm)
        · have shown := ((shows hostname sent).resolve_left filled).resolve_left asSent
          rcases suffixed_of_has has sent filled asSent with suffixed | ⟨suffix, isIt, given⟩
          · exact .inr suffixed
          · exact .inr (shown suffix isIt given)

theorem keptName_of_stored {ips : IpStore} {now : Nat} {assigned : BackendLease}
    (distinct : (leases.map (·.ip)).Nodup) (member : assigned ∈ leases)
    (named : assigned.hostname = some name) (nonempty : name ≠ []) (sameIp : again.ip = assigned.ip)
    (spelled : normalizeRecordNameForZone (normalizeRecordNameForZone name zone.name) zone.name =
        normalizeRecordNameForZone name zone.name ∨
      ∀ old ∈ n.env.leases, old.addr = assigned.ip → old.subnetId = assigned.subnetId) :
    keptName (n.after ips now leases) zone again (normalizeRecordNameForZone name zone.name) =
      normalizeRecordNameForZone name zone.name := by
  rw [keptName]
  split
  · rfl
  · rename_i unspelled
    rcases spelled with stable | alone
    · exact stable
    · refine absurd ?_ unspelled
      have previous := @previousName_stored n ips now leases assigned name distinct
        member named alone
      rw [spellsHeld, sameIp, previous, ScopeOptions.truthy_some nonempty]
      simp

end Cycle

/-- **Names stick**: a lease that is named, stored and published, and whose name can be held,
has the same name when a later list is named, whatever else the list has. -/
theorem names_stick (n : Naming) (s published : Store) (leases later : List BackendLease)
    (ips : IpStore) (now : Nat) (distinct : (leases.map (·.ip)).Nodup)
    (zones : (s.zones.map Zone.id).Nodup) (refs : zoneRefs published = zoneRefs s) {i j : Nat}
    {lease assigned again : BackendLease} {zone : ZoneRef} {name : Text}
    (here : leases[i]? = some lease) (isAssigned : (assignLeaseNames n s leases)[i]? =
    some assigned) (inZone : n.zoneFor (zoneRefs s) lease.subnetId lease.ip = some zone)
    (named : assigned.hostname = some name) (holds : CanHold n published zone assigned name)
    (isAgain : later[j]? = some again) (sameIp : again.ip = lease.ip)
    (sameSubnet : again.subnetId = lease.subnetId) (sends : SendsAgain zone lease again name) :
    let after := n.after ips now (assignLeaseNames n s leases)
    ∃ renamed name', (assignLeaseNames after
        (syncDhcpDnsRecords after published (assignLeaseNames n s leases)).1 later)[j]? =
        some renamed ∧
      renamed.ip = lease.ip ∧ renamed.hostname = some name' ∧
      normalizeRecordNameForZone name' zone.name = normalizeRecordNameForZone name zone.name := by
  intro after
  have isLease : assigned = assignedLease n s leases (lease, i) := by
    rw [assignLeaseNames_eq, List.getElem?_map, List.getElem?_zipIdx, here] at isAssigned
    simpa using isAssigned.symm
  have assignedIp : assigned.ip = lease.ip := by rw [isLease]; rfl
  have assignedSubnet : assigned.subnetId = lease.subnetId := by rw [isLease]; rfl
  have member : assigned ∈ assignLeaseNames n s leases := List.mem_of_getElem? isAssigned
  have addresses : ((assignLeaseNames n s leases).map (·.ip)).Nodup := by
    rw [map_ip_assignLeaseNames]
    exact distinct
  have apart := zonesApart_of_distinct zones
  have has : Has n s leases (settle n s leases) i lease zone name :=
    has_of_assigned (List.mem_zipIdx_iff_getElem?.mpr here) inZone (isLease ▸ named)
  have nonempty := name_ne_nil has
  -- the record that publishing leaves is the name held in the later round
  have held : heldName (syncDhcpDnsRecords after published (assignLeaseNames n s leases)).1
      zone again.ip = some (normalizeRecordNameForZone name zone.name) := by
    rw [sameIp, ← assignedIp]
    refine heldName_published (refs.symm ▸ apart) addresses member ?_ ?_ holds.unreserved holds.owns
    · rw [named, ScopeOptions.truthy_some nonempty]
    · rw [refs, assignedSubnet, assignedIp]
      exact inZone
  have laterRefs : zoneRefs (syncDhcpDnsRecords after published (assignLeaseNames n s leases)).1 =
      zoneRefs s :=
    (zoneRefs_syncDhcpDnsRecords (refs.symm ▸ apart)).trans refs
  have inZoneAgain :
      after.zoneFor (zoneRefs (syncDhcpDnsRecords after published (assignLeaseNames n s leases)).1)
      again.subnetId again.ip = some zone := by
    rw [laterRefs, sameSubnet, sameIp]
    exact inZone
  have keeps : kept after (syncDhcpDnsRecords after published (assignLeaseNames n s leases)).1
      zone again =
      some (keptSpelling after zone again (normalizeRecordNameForZone name zone.name)) := by
    rw [kept, held]
    exact if_pos (keepsHeld_of_sendsAgain has sends holds.solid)
  refine ⟨{ again with hostname := some (keptSpelling after zone again
    (normalizeRecordNameForZone name zone.name)) }, _, ?_, sameIp, rfl, ?_⟩
  · rw [assignLeaseNames_eq, List.getElem?_map, List.getElem?_zipIdx, isAgain]
    simp only [Option.map_some, Nat.zero_add, assignedLease, settle_of_kept isAgain inZoneAgain
      keeps, Option.getD_some]
  · rw [normalize_keptSpelling]
    exact keptName_of_stored addresses member named nonempty (sameIp.trans assignedIp.symm)
      holds.spelled

/-- The zone `z.lan` without records. -/
def emptyStore : Store where
  zones := [⟨1, "z.lan".toList, .forward, true, 1⟩]
  records := []
  ids := by simp

/-- A lease of `10.0.0.x` that sends a name. -/
def sampleLease (x : Nat) (hostname : Option Text) : BackendLease :=
  { ip := sampleAddr x, subnetId := some 1, hostname }

/-- Another address holds `pc`: a client that sends `pc` is named `pc-00` and keeps that name
when it sends `pc` again beside a new client. -/
theorem names_stick_sample :
    assignLeaseNames sampleNaming (sampleStore ['p', 'c'] ['t', 'v'])
      [sampleLease 3 (some ['p', 'c'])] = [sampleLease 3 (some "pc-00".toList)] ∧
    ∃ renamed name',
        (assignLeaseNames (sampleNaming.after .empty 0 [sampleLease 3 (some "pc-00".toList)])
          (syncDhcpDnsRecords (sampleNaming.after .empty 0 [sampleLease 3 (some "pc-00".toList)])
          (sampleStore ['p', 'c'] ['t', 'v']) [sampleLease 3 (some "pc-00".toList)]).1
        [sampleLease 3 (some ['p', 'c']), sampleLease 4 none])[0]? = some renamed ∧
      renamed.ip = sampleAddr 3 ∧ renamed.hostname = some name' ∧
      normalizeRecordNameForZone name' "z.lan".toList = "pc-00".toList := by
  have assigned : assignLeaseNames sampleNaming (sampleStore ['p', 'c'] ['t', 'v'])
      [sampleLease 3 (some ['p', 'c'])] = [sampleLease 3 (some "pc-00".toList)] := by decide +kernel
  have holds : CanHold sampleNaming (sampleStore ['p', 'c'] ['t', 'v'])
      ⟨1, "z.lan".toList, .forward, true⟩ (sampleLease 3 (some "pc-00".toList)) "pc-00".toList :=
    ⟨by decide, by unfold OwnsName; decide, by decide, .inl (by decide)⟩
  have sends : SendsAgain ⟨1, "z.lan".toList, .forward, true⟩ (sampleLease 3 (some ['p', 'c']))
      (sampleLease 3 (some ['p', 'c'])) "pc-00".toList := by
    refine .inr (.inr ⟨rfl, fun hostname sent => .inr (.inr ?_)⟩)
    obtain rfl : ['p', 'c'] = hostname := Option.some.inj sent
    exact suffixShows_of_label (by decide) (by decide) (by decide) (by decide) (by decide)
      (by decide) _
  have stays := names_stick sampleNaming (sampleStore ['p', 'c'] ['t', 'v'])
    (sampleStore ['p', 'c'] ['t', 'v']) [sampleLease 3 (some ['p', 'c'])]
    [sampleLease 3 (some ['p', 'c']), sampleLease 4 none] .empty 0 (by decide) (by decide) rfl
    (i := 0) (j := 0) rfl (by rw [assigned]; rfl) (by decide) rfl holds
    rfl rfl rfl sends
  rw [assigned] at stays
  have same : normalizeRecordNameForZone "pc-00".toList "z.lan".toList = "pc-00".toList := by decide
  rw [same] at stays
  exact ⟨assigned, stays⟩

/-- An enabled reservation of `10.0.0.1` with the name `printer`. -/
def reservedNaming : Naming :=
  { sampleNaming with
    env := { sampleNaming.env with
      reservations := [⟨1, 1, sampleAddr 1, none, none, some "printer".toList, true⟩] } }

/-- The lease of a reserved address is named `pc`, but its reservation's name is published:
when the client sends no name, the lease has none. -/
theorem reserved_name_is_lost :
    assignLeaseNames reservedNaming emptyStore [sampleLease 1 (some ['p', 'c'])] =
    [sampleLease 1 (some ['p', 'c'])] ∧
      assignLeaseNames (reservedNaming.after .empty 0 [sampleLease 1 (some ['p', 'c'])])
        (syncDhcpDnsRecords (reservedNaming.after .empty 0 [sampleLease 1 (some ['p', 'c'])])
        emptyStore [sampleLease 1 (some ['p', 'c'])]).1 [sampleLease 1 none] =
        [sampleLease 1 none] :=
  ⟨by decide +kernel, by decide +kernel⟩

end LeaseNames

end Cidrella
