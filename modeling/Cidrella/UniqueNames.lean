import Cidrella.LeaseNames
import Cidrella.RecordNames

/-!
# Lease names are unique

After `assignLeaseNames` no two leases of a zone and a family have one name, and no lease
has the name of a record that bars it. The second loop only hands out names that are free.
The first loop hands out names that addresses already hold, and where it falls back on the
spelling of a record it normalizes that spelling once more: the names are unique exactly
when no name that changes there is taken (`names_unique_iff`).
-/

set_option autoImplicit false

namespace Cidrella

open Address DnsNames

namespace LeaseNames

open Dns

theorem ne_nil_of_truthy {text : Option Text} {solid : Text} (found : truthy text = some solid) :
    solid ≠ [] := by
  simpa using (Option.filter_eq_some_iff.mp found).2

/-! ## Names that are kept -/

/-- The record whose name an address holds. -/
def heldRecord (s : Store) (zone : ZoneRef) (ip : Addr) : Option Record :=
  (recordsIn s zone.id).find? fun record =>
    record.source = .dhcp && record.value = ip.text && record.type = recordTypeFor ip

/-- The spelling in which a lease keeps its name. -/
def kept (n : Naming) (s : Store) (zone : ZoneRef) (lease : BackendLease) : Option Text :=
  (heldName s zone lease.ip).bind fun held =>
    if keepsHeld zone lease held then some (keptSpelling n zone lease held) else none

/-- The name that a lease is stored with or sends is the one it holds. -/
def spellsHeld (n : Naming) (zone : ZoneRef) (lease : BackendLease) (held : Text) : Bool :=
  ((truthy (previousName n lease.ip)).any fun previous =>
    normalizeRecordNameForZone previous zone.name = held) || wantedName zone lease = some held

/-- The name a lease has when it keeps the one it holds. -/
def keptName (n : Naming) (zone : ZoneRef) (lease : BackendLease) (held : Text) : Text :=
  if spellsHeld n zone lease held then held else normalizeRecordNameForZone held zone.name

section Kept

variable {n : Naming} {s : Store} {zone : ZoneRef} {lease : BackendLease} {held spelling : Text}

theorem normalize_sent (wanted : wantedName zone lease = some held) :
    normalizeRecordNameForZone (lease.hostname.getD []) zone.name = held := by
  obtain ⟨hostname, sent, same⟩ := Option.map_eq_some_iff.mp wanted
  rw [(Option.filter_eq_some_iff.mp sent).1]
  exact same

theorem normalize_keptSpelling : normalizeRecordNameForZone
    (keptSpelling n zone lease held) zone.name = keptName n zone lease held := by
  unfold keptSpelling keptName spellsHeld
  cases truthy (previousName n lease.ip) with
  | none =>
    by_cases wanted : wantedName zone lease = some held
    · simp [wanted, normalize_sent wanted]
    · simp [wanted]
  | some previous =>
    by_cases stored : normalizeRecordNameForZone previous zone.name = held
    · simp [stored]
    · by_cases wanted : wantedName zone lease = some held
      · simp [stored, wanted, normalize_sent wanted]
      · simp [stored, wanted]

theorem keptSpelling_ne_nil (solid : held ≠ []) : keptSpelling n zone lease held ≠ [] := by
  have sent : wantedName zone lease = some held → lease.hostname.getD [] ≠ [] := by
    intro wanted
    obtain ⟨hostname, sent, -⟩ := Option.map_eq_some_iff.mp wanted
    rw [(Option.filter_eq_some_iff.mp sent).1]
    exact ne_nil_of_truthy sent
  unfold keptSpelling
  cases stored : truthy (previousName n lease.ip) with
  | none =>
    dsimp only
    split
    · exact sent ‹_›
    · exact solid
  | some previous =>
    dsimp only
    split
    · exact ne_nil_of_truthy stored
    · split
      · exact sent ‹_›
      · exact solid

theorem kept_eq_some (found : kept n s zone lease = some spelling) :
    ∃ record ∈ s.records, heldRecord s zone lease.ip = some record ∧ record.zoneId = zone.id ∧
      record.source = .dhcp ∧ record.value = lease.ip.text ∧ record.type = recordTypeFor lease.ip ∧
      keepsHeld zone lease (toLowerCase record.name) = true ∧ spelling ≠ [] ∧
      normalizeRecordNameForZone spelling zone.name = keptName n zone lease
      (toLowerCase record.name) := by
  obtain ⟨held, isHeld, same⟩ := Option.bind_eq_some_iff.mp found
  obtain ⟨record, isIt, rfl⟩ := Option.map_eq_some_iff.mp isHeld
  have inZone := List.mem_of_find?_eq_some isIt
  have test := List.find?_some isIt
  simp only [recordsIn, List.mem_filter, Bool.and_eq_true, decide_eq_true_eq] at inZone
  simp only [Bool.and_eq_true, decide_eq_true_eq] at test
  split at same
  · rename_i keeps
    obtain rfl := Option.some.inj same
    have solid : toLowerCase record.name ≠ [] := by
      simp only [keepsHeld, Bool.and_eq_true, decide_eq_true_eq] at keeps
      exact keeps.1
    exact ⟨record, inZone.1, isIt, inZone.2.1, test.1.1, test.1.2, test.2, keeps,
      keptSpelling_ne_nil solid, normalize_keptSpelling⟩
  · exact absurd same (by simp)

theorem kept_of_heldRecord {record : Record} (found : heldRecord s zone lease.ip = some record)
    (keeps : keepsHeld zone lease (toLowerCase record.name) = true) :
    kept n s zone lease = some (keptSpelling n zone lease (toLowerCase record.name)) := by
  have held : heldName s zone lease.ip = some (toLowerCase record.name) := by
    have same : heldName s zone lease.ip = (heldRecord s zone lease.ip).map fun r =>
        toLowerCase r.name := rfl
    rw [same, found]
    rfl
  rw [kept, held]
  exact if_pos keeps

end Kept

/-! ## The first loop -/

/-- The claim of a name. -/
def claimOf (zone : ZoneRef) (lease : BackendLease) (hostname : Text) : Claim :=
  ⟨zone.id, normalizeRecordNameForZone hostname zone.name, recordTypeFor lease.ip, lease.ip⟩

theorem State.claimed_claim (state : State) (zone : ZoneRef) (index : Nat) (lease : BackendLease)
    {hostname : Text} (solid : hostname ≠ []) :
    (state.claim zone index lease (some hostname)).claimed = state.claimed ++
    [claimOf zone lease hostname] := by
  have named : truthy (some hostname) = some hostname := ScopeOptions.truthy_some solid
  simp only [State.claim, named]
  rfl

/-- The lease as the second loop meets it. -/
def pendingOf (n : Naming) (s : Store) (item : BackendLease × Nat) : Option PendingLease := do
  let zone ← n.zoneFor (zoneRefs s) item.1.subnetId item.1.ip
  if (kept n s zone item.1).isSome then none
  else some ⟨item.2, item.1, zone, settleHeld.candidateOf n item.1⟩

section FirstLoop

variable {n : Naming} {s : Store} {state : State} {lease : BackendLease} {index : Nat}
    {zone : ZoneRef}

theorem settleHeld_of_kept {spelling : Text}
    (inZone : n.zoneFor (zoneRefs s) lease.subnetId lease.ip = some zone)
    (keeps : kept n s zone lease = some spelling) :
    settleHeld n s state (lease, index) = state.claim zone index lease (some spelling) := by
  obtain ⟨held, isHeld, same⟩ := Option.bind_eq_some_iff.mp keeps
  simp only [settleHeld, inZone, isHeld]
  split at same
  · rename_i keeps
    rw [if_pos keeps, Option.some.inj same]
  · exact absurd same (by simp)

theorem settleHeld_of_pending (inZone : n.zoneFor (zoneRefs s) lease.subnetId lease.ip = some zone)
    (free : kept n s zone lease = none) : settleHeld n s state (lease, index) =
      { state with pending := state.pending ++
      [⟨index, lease, zone, settleHeld.candidateOf n lease⟩] } := by
  unfold kept at free
  cases isHeld : heldName s zone lease.ip with
  | none => simp only [settleHeld, inZone, isHeld]
  | some held =>
    rw [isHeld] at free
    simp only [Option.bind_some] at free
    split at free
    · exact absurd free (by simp)
    · rename_i lets
      simp only [settleHeld, inZone, isHeld]
      rw [if_neg lets]

theorem settleHeld_of_no_zone (outside : n.zoneFor (zoneRefs s) lease.subnetId lease.ip = none) :
    (settleHeld n s state (lease, index)).claimed = state.claimed ∧
    (settleHeld n s state (lease, index)).pending = state.pending ∧
    ∀ other ≠ index, Assoc.get (settleHeld n s state (lease, index)).names other =
      Assoc.get state.names other := by
  simp only [settleHeld, outside]
  split
  · exact ⟨rfl, rfl, fun other differs => Assoc.get_put_of_ne _ _ differs⟩
  · exact ⟨rfl, rfl, fun _ _ => rfl⟩

/-- What the first loop has done with some leases: those that keep a name have it and have
claimed it, and the others wait. -/
structure FirstSettled (n : Naming) (s : Store) (items : List (BackendLease × Nat))
    (state : State) : Prop where
  keeps : ∀ lease index zone spelling, (lease, index) ∈ items →
    n.zoneFor (zoneRefs s) lease.subnetId lease.ip = some zone →
      kept n s zone lease = some spelling → Assoc.get state.names index = some (some spelling) ∧
      claimOf zone lease spelling ∈ state.claimed
  waits : ∀ lease index zone, (lease, index) ∈ items →
    n.zoneFor (zoneRefs s) lease.subnetId lease.ip = some zone → kept n s zone lease = none →
      Assoc.get state.names index = none
  untouched : ∀ index ∉ items.map Prod.snd, Assoc.get state.names index = none
  pending : state.pending = items.filterMap (pendingOf n s)

theorem settleHeld_frame : state.claimed ⊆ (settleHeld n s state (lease, index)).claimed ∧
    (settleHeld n s state (lease, index)).pending = state.pending ++
    (pendingOf n s (lease, index)).toList ∧ ∀ other ≠ index,
      Assoc.get (settleHeld n s state (lease, index)).names other = Assoc.get
      state.names other := by
  cases inZone : n.zoneFor (zoneRefs s) lease.subnetId lease.ip with
  | none =>
    obtain ⟨claimed, pending, names⟩ := @settleHeld_of_no_zone n s state lease index inZone
    refine ⟨claimed ▸ List.Subset.refl _, ?_, names⟩
    rw [pending, pendingOf, inZone]
    simp
  | some zone =>
    cases keeps : kept n s zone lease with
    | none =>
      rw [settleHeld_of_pending inZone keeps, pendingOf]
      simp [inZone, keeps]
    | some spelling =>
      obtain ⟨_, _, _, _, _, _, _, _, solid, _⟩ := kept_eq_some keeps
      rw [settleHeld_of_kept inZone keeps, State.claimed_claim _ _ _ _ solid, pendingOf]
      refine ⟨List.subset_append_left _ _, ?_, fun other differs => Assoc.get_put_of_ne _ _ differs⟩
      simp [inZone, keeps, State.claim]

theorem FirstSettled.step {items : List (BackendLease × Nat)}
    (settled : FirstSettled n s items state) (new : index ∉ items.map Prod.snd) :
    FirstSettled n s (items ++ [(lease, index)]) (settleHeld n s state (lease, index)) := by
  obtain ⟨claimed, pending, names⟩ := @settleHeld_frame n s state lease index
  have older : ∀ {other place}, (other, place) ∈ items → place ≠ index := by
    rintro other place member rfl
    exact new (List.mem_map_of_mem member)
  constructor
  case keeps =>
    intro other place zone spelling member inZone keeps
    rcases List.mem_append.mp member with old | last
    · obtain ⟨name, claim⟩ := settled.keeps other place zone spelling old inZone keeps
      exact ⟨(names place (older old)).trans name, claimed claim⟩
    · obtain ⟨rfl, rfl⟩ := Prod.mk.inj (List.mem_singleton.mp last)
      obtain ⟨_, _, _, _, _, _, _, _, solid, _⟩ := kept_eq_some keeps
      rw [settleHeld_of_kept inZone keeps, State.claimed_claim _ _ _ _ solid]
      exact ⟨Assoc.get_put_self _ _ _, by simp⟩
  case waits =>
    intro other place zone member inZone lets
    rcases List.mem_append.mp member with old | last
    · exact (names place (older old)).trans (settled.waits other place zone old inZone lets)
    · obtain ⟨rfl, rfl⟩ := Prod.mk.inj (List.mem_singleton.mp last)
      rw [settleHeld_of_pending inZone lets]
      exact settled.untouched _ new
  case untouched =>
    intro place absent
    simp only [List.map_append, List.map_cons, List.map_nil, List.mem_append, List.mem_singleton,
      not_or] at absent
    exact (names place absent.2).trans (settled.untouched place absent.1)
  case pending =>
    rw [pending, settled.pending, List.filterMap_append]
    congr 1

theorem firstSettled_foldl {items : List (BackendLease × Nat)}
    (distinct : (items.map Prod.snd).Nodup) :
    FirstSettled n s items (items.foldl (settleHeld n s) {}) := by
  induction items using List.reverseRecOn with
  | nil =>
    constructor
    case keeps => simp
    case waits => simp
    case untouched => exact fun _ _ => rfl
    case pending => rfl
  | append_singleton items item ih =>
    rw [List.map_append, List.nodup_append] at distinct
    rw [List.foldl_append]
    refine (ih distinct.1).step fun member => ?_
    exact distinct.2.2 _ member item.2 (by simp) rfl

end FirstLoop

/-! ## The second loop -/

/-- A lease of the list has a name in its zone. -/
structure Has (n : Naming) (s : Store) (leases : List BackendLease) (state : State) (index : Nat)
    (lease : BackendLease) (zone : ZoneRef) (name : Text) : Prop where
  here : leases[index]? = some lease
  inZone : n.zoneFor (zoneRefs s) lease.subnetId lease.ip = some zone
  named : Assoc.get state.names index = some (some name)

/-- The names so far are claimed, differ, and are not those of records that bar them. -/
structure Apart (n : Naming) (s : Store) (leases : List BackendLease) (state : State) : Prop where
  claimed : ∀ {index lease zone name}, Has n s leases state index lease zone name →
    claimOf zone lease name ∈ state.claimed
  differ : ∀ {index lease zone name index' lease' name'},
    Has n s leases state index lease zone name → Has n s leases state index' lease' zone name' →
      lease.ip.family = lease'.ip.family → lease.ip ≠ lease'.ip →
      normalizeRecordNameForZone name zone.name ≠ normalizeRecordNameForZone name' zone.name
  clear : ∀ {index lease zone name}, Has n s leases state index lease zone name →
    ∀ record ∈ s.records, record.zoneId = zone.id → record.name = normalizeRecordNameForZone
      name zone.name → clashes n (leases.map (·.ip)) lease.ip (vendorMac lease) record = false

section SecondLoop

variable {n : Naming} {s : Store} {leases : List BackendLease} {state : State}
    {lease : BackendLease} {index : Nat}
variable {zone : ZoneRef} {ips : List Addr} {claimed : List Claim} {ip : Addr} {mac : Option Text}
    {record : Record}
variable {name : Text}

theorem isAddress_recordTypeFor (ip : Addr) : (recordTypeFor ip).isAddress = true := by
  unfold recordTypeFor
  cases ip.family with
  | v4 => rfl
  | v6 => rfl

theorem mem_recordsIn_of_clashes (member : record ∈ s.records) (inZone : record.zoneId = zone.id)
    (bars : clashes n ips ip mac record = true) : record ∈ recordsIn s zone.id := by
  simp only [clashes, Bool.or_eq_true, Bool.and_eq_true, decide_eq_true_eq] at bars
  simp only [recordsIn, List.mem_filter, Bool.and_eq_true, Bool.or_eq_true, decide_eq_true_eq]
  refine ⟨member, inZone, ?_⟩
  rcases bars with cname | ⟨⟨sameType, -⟩, -⟩
  · exact .inr cname
  · exact .inl (sameType ▸ isAddress_recordTypeFor ip)

theorem isFree_spec (free : isFree n s ips claimed zone (normalizeRecordNameForZone name zone.name)
    ip mac = true) :
    (∀ record ∈ s.records, record.zoneId = zone.id → record.name = normalizeRecordNameForZone
      name zone.name → clashes n ips ip mac record = false) ∧
    ∀ claim ∈ claimed, claim.zoneId = zone.id → claim.name = normalizeRecordNameForZone
      name zone.name → claim.type = recordTypeFor ip → claim.ip = ip := by
  simp only [isFree, Bool.and_eq_true, Bool.not_eq_true', List.any_eq_false] at free
  obtain ⟨records, claims⟩ := free
  constructor
  · intro record member inZone named
    rw [← Bool.not_eq_true]
    intro bars
    refine records record (mem_recordsIn_of_clashes member inZone bars) ?_
    simp [named, toLowerCase_normalizeRecordNameForZone, bars]
  · intro claim member inZone named sameType
    by_contra other
    exact claims claim member (by simp [inZone, named, sameType, other])

theorem recordTypeFor_congr {other : Addr} (family : ip.family = other.family) :
    recordTypeFor ip = recordTypeFor other := by
  rw [recordTypeFor, recordTypeFor, family]

theorem Has.of_put {hostname : Option Text} {index' : Nat} {lease' : BackendLease} {zone' : ZoneRef}
    {name' : Text} {after : State} (written : after.names = Assoc.put state.names index hostname)
    (differs : index' ≠ index) (has : Has n s leases after index' lease' zone' name') :
    Has n s leases state index' lease' zone' name' := by
  refine ⟨has.here, has.inZone, ?_⟩
  rw [← has.named, written, Assoc.get_put_of_ne _ _ differs]

theorem Has.of_claim {index' : Nat} {lease' : BackendLease} {zone' : ZoneRef} {name' : Text}
    (here : leases[index]? = some lease)
    (inZone : n.zoneFor (zoneRefs s) lease.subnetId lease.ip = some zone)
    (has : Has n s leases (state.claim zone index lease (some name)) index' lease' zone' name') :
    (index' = index ∧ lease' = lease ∧ zone' = zone ∧ name' = name) ∨
    Has n s leases state index' lease' zone' name' := by
  by_cases same : index' = index
  · subst same
    obtain rfl : lease' = lease := Option.some.inj (has.here.symm.trans here)
    have named : Assoc.get (state.claim zone index' lease' (some name)).names index' =
        some (some name) :=
      Assoc.get_put_self _ _ _
    exact .inl ⟨rfl, rfl, Option.some.inj (has.inZone.symm.trans inZone),
      Option.some.inj (Option.some.inj (has.named.symm.trans named))⟩
  · exact .inr (has.of_put rfl same)

theorem Apart.claim (apart : Apart n s leases state) (here : leases[index]? = some lease)
    (inZone : n.zoneFor (zoneRefs s) lease.subnetId lease.ip = some zone) (solid : name ≠ [])
    (free : isFree n s (leases.map (·.ip)) state.claimed zone
      (normalizeRecordNameForZone name zone.name) lease.ip (vendorMac lease) = true) :
      Apart n s leases (state.claim zone index lease (some name)) := by
  obtain ⟨unbarred, unclaimed⟩ := isFree_spec free
  have differs : ∀ {index' lease' name'}, Has n s leases state index' lease' zone name' →
      lease.ip.family = lease'.ip.family → lease.ip ≠ lease'.ip →
        normalizeRecordNameForZone name zone.name ≠ normalizeRecordNameForZone name' zone.name := by
    intro index' lease' name' has family other same
    exact other (unclaimed _ (apart.claimed has) rfl same.symm
      (recordTypeFor_congr family.symm)).symm
  constructor
  case claimed =>
    intro index' lease' zone' name' has
    rw [State.claimed_claim _ _ _ _ solid]
    rcases has.of_claim here inZone with ⟨-, rfl, rfl, rfl⟩ | old
    · simp
    · exact List.mem_append_left _ (apart.claimed old)
  case differ =>
    intro index₁ lease₁ zone' name₁ index₂ lease₂ name₂ first second family other
    rcases first.of_claim here inZone with ⟨-, rfl, rfl, rfl⟩ | firstOld
    · rcases second.of_claim here inZone with ⟨-, rfl, -, rfl⟩ | secondOld
      · exact absurd rfl other
      · exact differs secondOld family other
    · rcases second.of_claim here inZone with ⟨-, rfl, rfl, rfl⟩ | secondOld
      · exact (differs firstOld family.symm other.symm).symm
      · exact apart.differ firstOld secondOld family other
  case clear =>
    intro index' lease' zone' name' has record member inIt named
    rcases has.of_claim here inZone with ⟨-, rfl, rfl, rfl⟩ | old
    · exact unbarred record member inIt named
    · exact apart.clear old record member inIt named

theorem Apart.unnamed {after : State} (apart : Apart n s leases state)
    (written : after.names = Assoc.put state.names index none)
    (claimed : after.claimed = state.claimed) :
    Apart n s leases after := by
  have old : ∀ {index' lease' zone' name'}, Has n s leases after index' lease' zone' name' →
      Has n s leases state index' lease' zone' name' := by
    intro index' lease' zone' name' has
    refine has.of_put written ?_
    rintro rfl
    have named := has.named
    rw [written, Assoc.get_put_self] at named
    exact absurd (Option.some.inj named) (by simp)
  refine ⟨fun has => claimed ▸ apart.claimed (old has), fun first second => apart.differ (old first)
    (old second), fun has => apart.clear (old has)⟩

/-- A lease that waits for the second loop. -/
structure IsPending (n : Naming) (s : Store) (leases : List BackendLease) (pending : PendingLease) :
    Prop where
  here : leases[pending.index]? = some pending.lease
  inZone : n.zoneFor (zoneRefs s) pending.lease.subnetId pending.lease.ip = some pending.zone
  lets : kept n s pending.zone pending.lease = none
  solid : ∀ candidate, pending.candidate = some candidate → candidate ≠ []

theorem isPending_of_pendingOf {item : BackendLease × Nat} {pending : PendingLease}
    (member : item ∈ leases.zipIdx) (waits : pendingOf n s item = some pending) :
    IsPending n s leases pending := by
  obtain ⟨zone, inZone, rest⟩ := Option.bind_eq_some_iff.mp waits
  split at rest
  · exact absurd rest (by simp)
  · rename_i lets
    obtain rfl := Option.some.inj rest
    refine ⟨List.mem_zipIdx_iff_getElem?.mp member, inZone, by simpa using lets, ?_⟩
    intro candidate asked
    rcases Option.or_eq_some_iff.mp asked with sent | ⟨-, vendor⟩
    · exact ne_nil_of_truthy sent
    · exact ne_nil_of_truthy vendor

theorem ne_nil_of_mem_nameOptions {candidate option : Text} (solid : candidate ≠ [])
    (member : option ∈ nameOptions candidate) : option ≠ [] := by
  rcases List.mem_cons.mp member with rfl | suffixed
  · exact solid
  · obtain ⟨suffix, isSuffix, rfl⟩ := List.mem_map.mp suffixed
    obtain ⟨i, -, rfl⟩ := List.mem_map.mp isSuffix
    simp [nameSuffix]

theorem settlePending_names (pending : PendingLease) : ∃ hostname,
    (settlePending n s ips state pending).names = Assoc.put state.names pending.index hostname := by
  unfold settlePending
  split
  · exact ⟨_, rfl⟩
  · exact ⟨_, rfl⟩

theorem Apart.settlePending {pending : PendingLease} (apart : Apart n s leases state)
    (waits : IsPending n s leases pending) :
    Apart n s leases (settlePending n s (leases.map (·.ip)) state pending) := by
  unfold LeaseNames.settlePending
  cases asked : pending.candidate with
  | none => exact apart.unnamed rfl rfl
  | some candidate =>
    dsimp only
    generalize search : (nameOptions candidate).find? _ = found
    cases found with
    | none => exact apart.unnamed rfl rfl
    | some name =>
      have free := List.find?_some search
      have solid := ne_nil_of_mem_nameOptions (waits.solid _ asked)
        (List.mem_of_find?_eq_some search)
      exact apart.claim waits.here waits.inZone solid free

/-- What the second loop leaves: names apart, one entry for each lease it met, and the
others as they were. -/
theorem settlePending_foldl (todo : List PendingLease) (waits : ∀ pending ∈ todo,
    IsPending n s leases pending) :
    let done := todo.foldl (settlePending n s (leases.map (·.ip))) state
    (Apart n s leases state → Apart n s leases done) ∧
    (∀ index, (Assoc.get state.names index).isSome ∨ index ∈ todo.map (·.index) →
      (Assoc.get done.names index).isSome) ∧
    ∀ index ∉ todo.map (·.index), Assoc.get done.names index = Assoc.get state.names index := by
  induction todo generalizing state with
  | nil => simp
  | cons pending todo ih =>
    obtain ⟨apart, settled, kept⟩ :=
      @ih (LeaseNames.settlePending n s (leases.map (·.ip)) state pending) fun other member =>
        waits other (List.mem_cons_of_mem _ member)
    obtain ⟨hostname, names⟩ := @settlePending_names n s state (leases.map (·.ip)) pending
    refine ⟨fun before => apart (before.settlePending (waits pending List.mem_cons_self)), ?_, ?_⟩
    · intro index known
      refine settled index ?_
      by_cases here : index = pending.index
      · rw [names, here, Assoc.get_put_self]
        exact .inl rfl
      · rw [names, Assoc.get_put_of_ne _ _ here]
        simpa [here] using known
    · intro index absent
      rw [List.map_cons, List.mem_cons, not_or] at absent
      refine (kept index absent.2).trans ?_
      rw [names, Assoc.get_put_of_ne _ _ absent.1]

end SecondLoop

/-! ## Both loops -/

/-- The state between the loops. -/
def settleFirst (n : Naming) (s : Store) (leases : List BackendLease) : State :=
  leases.zipIdx.foldl (settleHeld n s) {}

section Both

variable {n : Naming} {s : Store} {leases : List BackendLease} {index : Nat} {lease : BackendLease}
    {zone : ZoneRef}

theorem firstSettled_settleFirst : FirstSettled n s leases.zipIdx (settleFirst n s leases) := by
  refine firstSettled_foldl ?_
  rw [List.zipIdx_map_snd]
  exact List.nodup_range'

theorem mem_sorted_pending {pending : PendingLease}
    (member : pending ∈ (settleFirst n s leases).pending.mergeSort fun left right =>
      sortsBefore left.lease.ip right.lease.ip) : IsPending n s leases pending := by
  rw [List.mem_mergeSort, firstSettled_settleFirst.pending] at member
  obtain ⟨item, isItem, waits⟩ := List.mem_filterMap.mp member
  exact isPending_of_pendingOf isItem waits

theorem settle_apart (apart : Apart n s leases (settleFirst n s leases)) :
    Apart n s leases (settle n s leases) :=
  (settlePending_foldl _ fun _ => mem_sorted_pending).1 apart

theorem settle_of_kept {spelling : Text} (here : leases[index]? = some lease)
    (inZone : n.zoneFor (zoneRefs s) lease.subnetId lease.ip = some zone)
    (keeps : kept n s zone lease = some spelling) :
    Assoc.get (settle n s leases).names index = some (some spelling) := by
  have member : (lease, index) ∈ leases.zipIdx := List.mem_zipIdx_iff_getElem?.mpr here
  rw [← (firstSettled_settleFirst.keeps lease index zone spelling member inZone keeps).1]
  refine (settlePending_foldl _ fun _ => mem_sorted_pending).2.2 index fun waiting => ?_
  obtain ⟨pending, isPending, rfl⟩ := List.mem_map.mp waiting
  have waits := mem_sorted_pending isPending
  obtain rfl : pending.lease = lease := Option.some.inj (waits.here.symm.trans here)
  obtain rfl : pending.zone = zone := Option.some.inj (waits.inZone.symm.trans inZone)
  exact absurd (keeps.symm.trans waits.lets) (by simp)

theorem settle_isSome (here : leases[index]? = some lease)
    (inZone : n.zoneFor (zoneRefs s) lease.subnetId lease.ip = some zone) :
    (Assoc.get (settle n s leases).names index).isSome := by
  cases keeps : kept n s zone lease with
  | some spelling => rw [settle_of_kept here inZone keeps, Option.isSome_some]
  | none =>
    refine (settlePending_foldl _ fun _ => mem_sorted_pending).2.1 index (.inr ?_)
    have member : (lease, index) ∈ leases.zipIdx := List.mem_zipIdx_iff_getElem?.mpr here
    refine List.mem_map.mpr ⟨⟨index, lease, zone, settleHeld.candidateOf n lease⟩, ?_, rfl⟩
    rw [List.mem_mergeSort]
    rw [firstSettled_settleFirst.pending]
    refine List.mem_filterMap.mpr ⟨_, member, ?_⟩
    simp [pendingOf, inZone, keeps]

/-- A lease as `assignLeaseNames` returns it. -/
def assignedLease (n : Naming) (s : Store) (leases : List BackendLease)
    (item : BackendLease × Nat) : BackendLease :=
  { item.1 with hostname := (Assoc.get (settle n s leases).names item.2).getD item.1.hostname }

theorem assignLeaseNames_eq : assignLeaseNames n s leases = leases.zipIdx.map
    (assignedLease n s leases) := rfl

theorem map_ip_assignLeaseNames : (assignLeaseNames n s leases).map (·.ip) = leases.map (·.ip) := by
  rw [assignLeaseNames_eq, List.map_map]
  calc leases.zipIdx.map ((·.ip) ∘ assignedLease n s leases) =
      (leases.zipIdx.map Prod.fst).map (·.ip) := by
        rw [List.map_map]
        rfl
    _ = leases.map (·.ip) := by rw [List.zipIdx_map_fst]

theorem has_of_assigned {name : Text} {item : BackendLease × Nat} (member : item ∈ leases.zipIdx)
    (inZone : n.zoneFor (zoneRefs s) item.1.subnetId item.1.ip = some zone)
    (named : (assignedLease n s leases item).hostname = some name) :
    Has n s leases (settle n s leases) item.2 item.1 zone name := by
  have here := List.mem_zipIdx_iff_getElem?.mp member
  refine ⟨here, inZone, ?_⟩
  obtain ⟨hostname, settled⟩ := Option.isSome_iff_exists.mp (settle_isSome here inZone)
  rw [assignedLease, settled] at named
  rw [settled]
  exact congrArg some named

theorem assigned_of_kept {spelling : Text} (here : leases[index]? = some lease)
    (inZone : n.zoneFor (zoneRefs s) lease.subnetId lease.ip = some zone)
    (keeps : kept n s zone lease = some spelling) :
    { lease with hostname := some spelling } ∈ assignLeaseNames n s leases := by
  rw [assignLeaseNames_eq]
  refine List.mem_map.mpr ⟨(lease, index), List.mem_zipIdx_iff_getElem?.mpr here, ?_⟩
  rw [assignedLease, settle_of_kept here inZone keeps]
  rfl

end Both

/-! ## When names are unique -/

/-- No two lease records of a zone share name and type at different addresses, and none has
the name of a `CNAME` or of another record of its type at another address. -/
structure RecordsApart (s : Store) : Prop where
  leases : ∀ record ∈ s.records, ∀ other ∈ s.records, record.source = .dhcp → other.source = .dhcp →
    record.type.isAddress = true → other.zoneId = record.zoneId → other.name = record.name →
      other.type = record.type → other.value = record.value
  others : ∀ record ∈ s.records, ∀ other ∈ s.records, record.source = .dhcp →
    record.type.isAddress = true → other.zoneId = record.zoneId → other.name = record.name →
      other.type ≠ .cname ∧
      (other.source ≠ .dhcp → other.type = record.type → other.value = record.value)

/-- Two leases do not have one name in one zone and family. -/
def NamesDiffer (n : Naming) (s : Store) (lease other : BackendLease) : Prop :=
  ∀ zone name name', n.zoneFor (zoneRefs s) lease.subnetId lease.ip = some zone →
    n.zoneFor (zoneRefs s) other.subnetId other.ip = some zone → lease.ip.family = other.ip.family →
    lease.hostname = some name → other.hostname = some name' →
      normalizeRecordNameForZone name zone.name ≠ normalizeRecordNameForZone name' zone.name

/-- No two leases of a zone and a family have one name, and no lease has the name of a
`CNAME` or of a record of its family at another address, but for its own lapsed lease's. -/
structure NamesUnique (n : Naming) (s : Store) (leases : List BackendLease) : Prop where
  differ : leases.Pairwise (NamesDiffer n s)
  clear : ∀ lease ∈ leases, ∀ zone name, n.zoneFor (zoneRefs s) lease.subnetId
    lease.ip = some zone → lease.hostname = some name → ∀ record ∈ s.records,
      record.zoneId = zone.id → record.name = normalizeRecordNameForZone name zone.name →
        record.type ≠ .cname ∧
          (record.type = recordTypeFor lease.ip → record.value ≠ lease.ip.text →
          ownLapsedName n (leases.map (·.ip)) (vendorMac lease) record = true)

/-- A lease of the list keeps the name of a record. -/
structure Keeps (n : Naming) (s : Store) (leases : List BackendLease) (lease : BackendLease)
    (zone : ZoneRef) (record : Record) : Prop where
  member : lease ∈ leases
  inZone : n.zoneFor (zoneRefs s) lease.subnetId lease.ip = some zone
  held : heldRecord s zone lease.ip = some record
  keeps : keepsHeld zone lease (toLowerCase record.name) = true

/-- A kept name that is not spelled as its record is not kept by another lease of the zone
and the family, nor that of a record that bars it. -/
def RespelledFree (n : Naming) (s : Store) (leases : List BackendLease) : Prop :=
  ∀ lease zone record, Keeps n s leases lease zone record →
    keptName n zone lease (toLowerCase record.name) ≠ record.name →
    (∀ other record', Keeps n s leases other zone record' → other.ip ≠ lease.ip →
      other.ip.family = lease.ip.family →
        keptName n zone other (toLowerCase record'.name) ≠ keptName n zone lease
        (toLowerCase record.name)) ∧
    ∀ barring ∈ s.records, barring.zoneId = zone.id →
      barring.name = keptName n zone lease (toLowerCase record.name) →
        clashes n (leases.map (·.ip)) lease.ip (vendorMac lease) barring = false

section Unique

variable {n : Naming} {s : Store} {leases : List BackendLease} {lease : BackendLease}
    {zone : ZoneRef}
variable {record : Record}

theorem clashes_eq_false {ips : List Addr} {ip : Addr} {mac : Option Text} :
    clashes n ips ip mac record = false ↔ record.type ≠ .cname ∧
      (record.type = recordTypeFor ip → record.value ≠ ip.text →
      ownLapsedName n ips mac record = true) := by
  simp only [clashes, Bool.or_eq_false_iff, decide_eq_false_iff_not, Bool.and_eq_false_iff,
    Bool.not_eq_false']
  refine and_congr_right fun _ => ?_
  constructor
  · rintro ((otherType | sameValue) | own) sameType otherValue
    · exact absurd sameType otherType
    · exact absurd otherValue sameValue
    · exact own
  · intro own
    by_cases sameType : record.type = recordTypeFor ip
    · by_cases sameValue : record.value = ip.text
      · exact .inl (.inr (not_not_intro sameValue))
      · exact .inr (own sameType sameValue)
    · exact .inl (.inl sameType)

theorem NamesDiffer.symm {other : BackendLease} (apart : NamesDiffer n s lease other) :
    NamesDiffer n s other lease := by
  intro zone name name' inZone inZone' family named named'
  exact (apart zone name' name inZone' inZone family.symm named' named).symm

theorem kept_of_has {index : Nat} {name : Text}
    (has : Has n s leases (settleFirst n s leases) index lease zone name) :
    kept n s zone lease = some name ∧ claimOf zone lease name ∈
    (settleFirst n s leases).claimed := by
  have member : (lease, index) ∈ leases.zipIdx := List.mem_zipIdx_iff_getElem?.mpr has.here
  cases keeps : kept n s zone lease with
  | none =>
    have waits := firstSettled_settleFirst.waits lease index zone member has.inZone keeps
    exact absurd (waits.symm.trans has.named) (by simp)
  | some spelling =>
    obtain ⟨named, claimed⟩ := firstSettled_settleFirst.keeps lease index zone spelling member
      has.inZone keeps
    obtain rfl : spelling = name := Option.some.inj (Option.some.inj (named.symm.trans has.named))
    exact ⟨rfl, claimed⟩

theorem keeps_of_kept {spelling : Text} (member : lease ∈ leases)
    (inZone : n.zoneFor (zoneRefs s) lease.subnetId lease.ip = some zone)
    (keeps : kept n s zone lease = some spelling) :
    ∃ record ∈ s.records, Keeps n s leases lease zone record ∧ record.zoneId = zone.id ∧
      record.source = .dhcp ∧ record.value = lease.ip.text ∧ record.type = recordTypeFor lease.ip ∧
      normalizeRecordNameForZone spelling zone.name = keptName n zone lease
      (toLowerCase record.name) := by
  obtain ⟨record, isRecord, held, inIt, source, value, type, isKept, -, same⟩ := kept_eq_some keeps
  exact ⟨record, isRecord, ⟨member, inZone, held, isKept⟩, inIt, source, value, type, same⟩

theorem RecordsApart.clear {ips : List Addr} {ip : Addr} {mac : Option Text} {barring : Record}
    (clean : RecordsApart s) (member : record ∈ s.records) (source : record.source = .dhcp)
    (value : record.value = ip.text) (type : record.type = recordTypeFor ip)
    (isBarring : barring ∈ s.records) (sameZone : barring.zoneId = record.zoneId)
    (sameName : barring.name = record.name) :
    clashes n ips ip mac barring = false := by
  have isAddress : record.type.isAddress = true := type ▸ isAddress_recordTypeFor ip
  obtain ⟨notCname, others⟩ := clean.others record member barring isBarring source isAddress
    sameZone sameName
  refine clashes_eq_false.mpr ⟨notCname, fun sameType otherValue => absurd ?_ otherValue⟩
  rw [← type] at sameType
  rw [← value]
  by_cases dhcp : barring.source = .dhcp
  · exact clean.leases record member barring isBarring source dhcp isAddress sameZone
      sameName sameType
  · exact others dhcp sameType

theorem apart_settleFirst (clean : RecordsApart s) (free : RespelledFree n s leases) :
    Apart n s leases (settleFirst n s leases) := by
  constructor
  case claimed =>
    intro index lease zone name has
    exact (kept_of_has has).2
  case differ =>
    intro index lease zone name index' lease' name' first second family other same
    obtain ⟨record, member, keeps, inIt, source, value, type, is⟩ :=
      keeps_of_kept (List.mem_of_getElem? first.here) first.inZone (kept_of_has first).1
    obtain ⟨record', member', keeps', inIt', source', value', type', is'⟩ :=
      keeps_of_kept (List.mem_of_getElem? second.here) second.inZone (kept_of_has second).1
    rw [is, is'] at same
    by_cases spelled : keptName n zone lease (toLowerCase record.name) = record.name
    · by_cases spelled' : keptName n zone lease' (toLowerCase record'.name) = record'.name
      · have sameType : record'.type = record.type := by rw [type, type',
          recordTypeFor_congr family]
        have sameValue := clean.leases record member record' member' source source'
          (type ▸ isAddress_recordTypeFor lease.ip) (inIt'.trans inIt.symm)
          (spelled'.symm.trans (same.symm.trans spelled)) sameType
        exact other (Addr.text_injective (value.symm.trans (sameValue.symm.trans value')))
      · exact (free lease' zone record' keeps' spelled').1 lease record keeps other family same
    · exact (free lease zone record keeps spelled).1 lease' record' keeps' other.symm
        family.symm same.symm
  case clear =>
    intro index lease zone name has barring isBarring inZone named
    obtain ⟨record, member, keeps, inIt, source, value, type, is⟩ :=
      keeps_of_kept (List.mem_of_getElem? has.here) has.inZone (kept_of_has has).1
    rw [is] at named
    by_cases spelled : keptName n zone lease (toLowerCase record.name) = record.name
    · exact clean.clear member source value type isBarring (inZone.trans inIt.symm)
        (named.trans spelled)
    · exact (free lease zone record keeps spelled).2 barring isBarring inZone named

theorem namesUnique_of_apart (distinct : (leases.map (·.ip)).Nodup)
    (apart : Apart n s leases (settle n s leases)) :
    NamesUnique n s (assignLeaseNames n s leases) := by
  constructor
  case differ =>
    have addresses : leases.zipIdx.Pairwise fun item other => item.1.ip ≠ other.1.ip := by
      have same : leases.zipIdx.map (fun item => item.1.ip) = leases.map (·.ip) := by
        calc leases.zipIdx.map (fun item => item.1.ip) =
            (leases.zipIdx.map Prod.fst).map (·.ip) := by
              rw [List.map_map]
              rfl
          _ = leases.map (·.ip) := by rw [List.zipIdx_map_fst]
      exact List.pairwise_map.mp (same ▸ distinct)
    rw [assignLeaseNames_eq, List.pairwise_map]
    refine addresses.imp_of_mem ?_
    intro item other member member' differs zone name name' inZone inZone' family named named'
    exact apart.differ (has_of_assigned member inZone named)
      (has_of_assigned member' inZone' named') family differs
  case clear =>
    intro assigned isAssigned zone name inZone named record member inIt sameName
    rw [map_ip_assignLeaseNames]
    rw [assignLeaseNames_eq] at isAssigned
    obtain ⟨item, isItem, rfl⟩ := List.mem_map.mp isAssigned
    exact clashes_eq_false.mp (apart.clear (has_of_assigned isItem inZone named) record member
      inIt sameName)

theorem respelledFree_of_namesUnique (unique : NamesUnique n s (assignLeaseNames n s leases)) :
    RespelledFree n s leases := by
  -- a kept name is among the assigned ones as it stands
  have assigned : ∀ {lease zone record}, Keeps n s leases lease zone record →
      { lease with hostname := some (keptSpelling n zone lease (toLowerCase record.name)) } ∈
        assignLeaseNames n s leases := by
    intro lease zone record keeps
    obtain ⟨index, here⟩ := List.mem_iff_getElem?.mp keeps.member
    exact assigned_of_kept here keeps.inZone (kept_of_heldRecord keeps.held keeps.keeps)
  intro lease zone record keeps _
  constructor
  · intro other record' keeps' differs family same
    have : Std.Symm (NamesDiffer n s) := ⟨fun _ _ apart => apart.symm⟩
    have apart := unique.differ.forall (assigned keeps') (assigned keeps)
      fun sameLease => differs (BackendLease.mk.inj sameLease).1
    refine apart zone _ _ keeps'.inZone keeps.inZone family rfl rfl ?_
    rw [normalize_keptSpelling, normalize_keptSpelling, same]
  · intro barring member inIt named
    have clear := unique.clear _ (assigned keeps) zone _ keeps.inZone rfl barring member inIt
      (named.trans normalize_keptSpelling.symm)
    rw [map_ip_assignLeaseNames] at clear
    exact clashes_eq_false.mpr clear

end Unique

/-- **When lease names are unique.** From records that keep lease names apart, and for leases
at distinct addresses, the assigned names are unique exactly when no kept name that is not
spelled as its record is taken. -/
theorem names_unique_iff (n : Naming) (s : Store) (leases : List BackendLease)
    (clean : RecordsApart s) (distinct : (leases.map (·.ip)).Nodup) :
    NamesUnique n s (assignLeaseNames n s leases) ↔ RespelledFree n s leases := by
  constructor
  · exact respelledFree_of_namesUnique
  · intro free
    exact namesUnique_of_apart distinct (settle_apart (apart_settleFirst clean free))

/-- The network `10.0.0.0/24` with the domain `z.lan`. -/
def sampleNaming : Naming where
  env :=
    { subnets :=
        { rows := [⟨1, ⟨.v4, 0x0a000000, 24, Network.ten_prefix_le_24, Network.ten_aligned_24,
            Network.ten_fits, Network.ten_unmapped⟩, { domainName := some "z.lan".toList }⟩]
          nextId := 2
          fresh := Table.fresh_singleton _
          idsDistinct := by simp
          keysDistinct := by simp }
      scopes := []
      pools := []
      reservations := []
      leases := []
      records := []
      zones := []
      settings := ⟨none, none, false⟩
      vendorHostname := fun _ => none }
  ips := .empty
  now := 0
  parseList := fun _ => none
  optionDefaults := fun _ _ => none
  fallbackName := fun _ => none

/-- The address `10.0.0.x`. -/
def sampleAddr (x : Nat) : Addr := addressAt .v4 (0x0a000000 + x)

/-- A lease record of `10.0.0.x` in the zone. -/
def sampleRecord (x : Nat) (name : Text) : Record :=
  ⟨x, 1, name, .a, (sampleAddr x).text, .dhcp, true⟩

/-- The zone `z.lan` with two lease records. -/
def sampleStore (first second : Text) : Store where
  zones := [⟨1, "z.lan".toList, .forward, true, 1⟩]
  records := [sampleRecord 1 first, sampleRecord 2 second]
  ids := by simp [sampleRecord]

/-- Two leases without a name. -/
def sampleLeases : List BackendLease :=
  [{ ip := sampleAddr 1, subnetId := some 1 }, { ip := sampleAddr 2, subnetId := some 1 }]

theorem names_unique_sample :
      (assignLeaseNames sampleNaming (sampleStore ['p', 'c'] ['t', 'v']) sampleLeases).map
      (·.hostname) = [some ['p', 'c'], some ['t', 'v']] ∧
    NamesUnique sampleNaming (sampleStore ['p', 'c'] ['t', 'v'])
      (assignLeaseNames sampleNaming (sampleStore ['p', 'c'] ['t', 'v']) sampleLeases) := by
  refine ⟨by decide +kernel, (names_unique_iff _ _ _ ⟨by decide +kernel, by decide +kernel⟩
    (by decide)).mpr ?_⟩
  rintro lease zone record ⟨member, inZone, held, -⟩ respelled
  refine absurd ?_ respelled
  rcases List.mem_cons.mp member with rfl | second
  · obtain rfl := Option.some.inj (inZone.symm.trans rfl)
    obtain rfl := Option.some.inj (held.symm.trans rfl)
    decide
  · obtain rfl := List.mem_singleton.mp second
    obtain rfl := Option.some.inj (inZone.symm.trans rfl)
    obtain rfl := Option.some.inj (held.symm.trans rfl)
    decide

/-- A record named `pc.z.lan` in the zone `z.lan` gives its lease the name `pc`, which the
next address holds. -/
theorem respelled_name_is_taken : RecordsApart (sampleStore "pc.z.lan".toList ['p', 'c']) ∧
    (sampleLeases.map (·.ip)).Nodup ∧
    ¬ NamesUnique sampleNaming (sampleStore "pc.z.lan".toList ['p', 'c'])
      (assignLeaseNames sampleNaming (sampleStore "pc.z.lan".toList ['p', 'c']) sampleLeases) := by
  refine ⟨⟨by decide, by decide⟩, by decide, fun unique => ?_⟩
  have names : assignLeaseNames sampleNaming (sampleStore "pc.z.lan".toList ['p', 'c'])
      sampleLeases =
        [{ ip := sampleAddr 1, subnetId := some 1, hostname := some "pc.z.lan".toList },
        { ip := sampleAddr 2, subnetId := some 1, hostname :=
        some ['p', 'c'] }] := by decide +kernel
  have differ := unique.differ
  rw [names, List.pairwise_pair] at differ
  exact differ ⟨1, "z.lan".toList, .forward, true⟩ _ _ (by decide) (by decide) rfl rfl rfl
    (by decide)

end LeaseNames

end Cidrella
