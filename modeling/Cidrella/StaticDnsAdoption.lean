import Cidrella.DnsHolds
import Cidrella.Lib.Keyed
import Cidrella.Lib.SettlingLoop
import Cidrella.Network

/-!
# Adopting the addresses that records claim

`reconcileStaticDnsAllocations`: every address that a manual `A` or `AAAA` record names is
brought in line with its records, at every start and whenever a network is configured. A
served record allocates the address, a record that is not served holds it.

The pass groups the records by the text of their value, and an address may be written in
several ways: `10.0.1.1` and `10.0.1.01` are two groups about one row. Where two groups want
different things of the row, every pass changes it again. `reconcile_converges_iff` says
when they do not.
-/

set_option autoImplicit false

namespace Cidrella

open Address

namespace Adoption

/-! ## The records -/

/-- An `A` or `AAAA` row of `dns_records`, its value as it is written. -/
structure AddressRecord where
  id : Nat
  zoneId : Nat
  name : Text
  value : Text
  enabled : Bool
  source : Option RecordSource
  updatedAt : Nat := 0
  deriving DecidableEq, Repr

/-- The record about an address. -/
def AddressRecord.of (record : AddressRecord) (addr : Addr) : DnsRecord where
  id := record.id
  zoneId := record.zoneId
  name := record.name
  value := addr
  enabled := record.enabled
  source := record.source
  updatedAt := record.updatedAt

/-- What the pass reads. No two records have one id. -/
structure Claims where
  env : Env
  records : List AddressRecord
  ids : (records.map AddressRecord.id).Nodup

namespace Claims

variable (claims : Claims)

/-- The zone of a record. -/
def zoneOf (record : AddressRecord) : Option DnsZone :=
  claims.env.zones.find? (·.id == record.zoneId)

/-- A manual record of a forward zone. -/
def isClaim (record : AddressRecord) : Bool :=
  (record.source = none || record.source = some .manual) && (claims.zoneOf record).any (·.forward)

/-- `served` of a record. -/
def isServed (record : AddressRecord) : Bool := record.enabled &&
    (claims.zoneOf record).any (·.enabled)

/-- The records of the query, by their ids. -/
def claimed : List AddressRecord := (claims.records.filter claims.isClaim).mergeSort (·.id ≤ ·.id)

/-- What the queries about one text read: `record.value = ?` compares texts. -/
def envAt (ip : Text) (addr : Addr) : Env :=
  { claims.env with records := (claims.records.filter (·.value = ip)).map (·.of addr) }

/-- The name a record is served as. -/
def fqdn (record : AddressRecord) : Text :=
  DnsNames.fqdnForRecordName record.name (((claims.zoneOf record).map (·.name)).getD [])

end Claims

/-- One of `byIp`: a text, the first record with it and the first that is served. -/
structure Entry where
  ip : Text
  first : AddressRecord
  served : Option AddressRecord
  deriving DecidableEq, Repr

/-- `byIp`. -/
def entries (claims : Claims) : List Entry :=
  let valid := claims.claimed.filter fun record => (addressToBig record.value).isSome
  (valid.map AddressRecord.value).eraseDups.filterMap fun ip =>
    let mine := valid.filter (·.value = ip)
    mine.head?.map fun first => ⟨ip, first, mine.find? claims.isServed⟩

/-! ## The pass -/

/-- `instanceof IpLifecycleConflictError`, of what these calls throw. -/
def isConflict : Failure → Bool
  | .unmanaged | .protectedBy _ | .transition .. | .insideScope _ => true
  | _ => false

/-- A conflict of the result. -/
structure Conflict where
  ip : Text
  recordId : Nat
  reason : Failure
  deriving DecidableEq, Repr

/-- The rows, and the result so far. -/
structure Progress where
  store : IpStore
  checked : Nat := 0
  changed : Nat := 0
  conflicts : List Conflict := []

/-- What is done about an address. -/
def settle (claims : Claims) (now : Nat) (store : IpStore) (entry : Entry) (addr : Addr)
    (before : Option IpRow) : Except Failure IpStore :=
  let env := claims.envAt entry.ip addr
  match entry.served with
  | none => store.reconcileDnsHold env now addr
  | some served =>
    let allocate := store.allocateStaticDns env now served.name addr
      (((claims.zoneOf served).map (·.name)).getD []) (some served.id)
    if IpStore.stateOf before = .gateway then
      if before.bind (·.info.hostname) ≠ some (claims.fqdn served) then allocate else .ok store
    else if IpStore.stateOf before = .unassigned || IpStore.isDnsHold before then allocate
    else .ok store

/-- What `changed` compares. -/
def visible (row : Option IpRow) : Option (AllocationState × Option Nat × Option Text) :=
  row.map fun row => (row.info.allocationState, row.info.allocationSourceId, row.info.hostname)

/-- One round of the pass. A conflict is thrown before anything is written. -/
def reconcileEntry (claims : Claims) (now : Nat) (only : Option Nat) (progress : Progress)
    (entry : Entry) :
    Except Failure Progress :=
  match addressToBig entry.ip with
  | none => .ok progress
  | some addr =>
    match claims.env.findSubnetForIp addr with
    | none => .ok progress
    | some subnet =>
      if only.any (· ≠ subnet.id) then .ok progress
      else do
        let checked := progress.checked + 1
        let before ← progress.store.findBySubnetAndIp subnet.id addr
        match settle claims now progress.store entry addr before with
        | .error failure =>
          if isConflict failure then
            .ok { progress with
              checked
              conflicts := progress.conflicts ++
                [⟨entry.ip, (entry.served.getD entry.first).id, failure⟩] }
          else .error failure
        | .ok store => do
            let after ← store.findBySubnetAndIp subnet.id addr
            .ok { progress with
              store
              checked
              changed := if visible before ≠ visible after then progress.changed + 1
                else progress.changed }

/-- `reconcileStaticDnsAllocations`. -/
def reconcileStaticDnsAllocations (claims : Claims) (now : Nat) (only : Option Nat)
    (store : IpStore) :
    Except Failure Progress :=
  (entries claims).foldlM (reconcileEntry claims now only) { store }

/-! ## What one address is like -/

/-- Who may own an address: a scope, topology, topology with a name from DNS, or a record. -/
inductive Place where
  | pooled
  | system
  | gateway
  | free
  deriving DecidableEq, Repr

/-- The place of an address in its network. -/
def placeOf (env : Env) (subnetId : Nat) (addr : Addr) : Place :=
  if (env.findEnabledScopeForIp subnetId addr).isSome then .pooled
  else
    match env.protectedAddress subnetId addr with
    | none => .free
    | some protection => if protection.dnsNameAllowed then .gateway else .system

/-- What a pass reads of a row. -/
structure Slot where
  state : AllocationState
  sourceType : Option LifecycleSource
  sourceId : Option Nat
  hostname : Option Text
  deriving DecidableEq, Repr

/-- The slot of columns. -/
def Slot.ofInfo (info : IpInfo) : Slot :=
  ⟨info.allocationState, info.allocationSourceType, info.allocationSourceId, info.hostname⟩

/-- The slot of a row, if there is one. -/
def slotOf (row : Option IpRow) : Option Slot := row.map fun row => .ofInfo row.info

/-- The state of a slot. -/
def Slot.stateOf (slot : Option Slot) : AllocationState := (slot.map Slot.state).getD .unassigned

/-- The slot is a hold. -/
def Slot.isHold (slot : Option Slot) : Bool :=
  slot.any fun slot => slot.state = .reserved && slot.sourceType = some .dns

/-- What the records of one text want: the served one's id and name, or to be held by the first. -/
structure Claimant where
  served : Option (Nat × Text)
  holder : Nat
  deriving DecidableEq, Repr

/-- What an entry wants. -/
def Entry.claimant (claims : Claims) (entry : Entry) : Claimant where
  served := entry.served.map fun served => (served.id, claims.fqdn served)
  holder := entry.first.id

/-- `allocateStaticDns` on a slot. -/
def allocate (place : Place) (id : Nat) (name : Text) (slot : Option Slot) : Option Slot :=
  match place with
  | .pooled => slot
  | .system => slot
  | .gateway =>
    if Slot.stateOf slot = .unassigned || Slot.stateOf slot = .gateway then
      some ⟨.gateway, some .topology, none, some name⟩
    else slot
  | .free =>
    if Slot.stateOf slot = .unassigned || Slot.stateOf slot = .reserved || Slot.stateOf
        slot = .staticDns then
      some ⟨.staticDns, some .dns, some id, if slot.isSome then some name else truthy (some name)⟩
    else slot

/-- What a round of the pass makes of the slot of its address. -/
def act (place : Place) (claimant : Claimant) (slot : Option Slot) : Option Slot :=
  match claimant.served with
  | none =>
    if Slot.stateOf slot ≠ .unassigned && !Slot.isHold slot then slot
    else if place = .free then
      if Slot.isHold slot && slot.any (·.sourceId = some claimant.holder) then slot
      else some ⟨.reserved, some .dns, some claimant.holder, slot.bind Slot.hostname⟩
    else if Slot.isHold slot then some ⟨.unassigned, none, none, slot.bind Slot.hostname⟩
    else slot
  | some (id, name) =>
    if Slot.stateOf slot = .gateway then
      if slot.bind Slot.hostname ≠ some name then allocate place id name slot else slot
    else if Slot.stateOf slot = .unassigned || Slot.isHold slot then allocate place id name slot
    else slot

theorem isHold_some {slot : Slot} : Slot.isHold (some slot) = true ↔
    slot.state = .reserved ∧ slot.sourceType = some .dns := by
  rw [Slot.isHold, Option.any_some, Bool.and_eq_true, decide_eq_true_eq, decide_eq_true_eq]

theorem stateOf_of_hold {slot : Option Slot} (held : Slot.isHold slot = true) :
    Slot.stateOf slot = .reserved := by
  cases slot with
  | none => cases held
  | some slot => exact (isHold_some.mp held).1

/-- Taking an address changes its state, naming a gateway its state or its name. -/
theorem allocate_cases (place : Place) (id : Nat) (name : Text) (slot : Option Slot)
    (claimable : Slot.stateOf slot = .gateway ∧ slot.bind Slot.hostname ≠ some name ∨
      Slot.stateOf slot = .unassigned ∨ Slot.isHold slot = true) :
    allocate place id name slot = slot ∨ ∃ next, allocate place id name slot = some next ∧
      (next.state ≠ Slot.stateOf slot ∨ next.hostname ≠ slot.bind Slot.hostname) := by
  have unowned : Slot.stateOf slot ≠ .staticDns := by
    rcases claimable with ⟨state, -⟩ | state | held
    · rw [state]
      decide
    · rw [state]
      decide
    · rw [stateOf_of_hold held]
      decide
  cases place with
  | pooled => exact .inl rfl
  | system => exact .inl rfl
  | gateway =>
    simp only [allocate]
    split_ifs with takes
    · refine .inr ⟨_, rfl, ?_⟩
      rcases claimable with ⟨-, name'⟩ | state | held
      · exact .inr fun same => name' same.symm
      · exact .inl (by rw [state]; nofun)
      · exact .inl (by rw [stateOf_of_hold held]; nofun)
    · exact .inl rfl
  | free =>
    rw [show allocate .free id name slot = if (Slot.stateOf slot = .unassigned ||
      Slot.stateOf slot = .reserved || Slot.stateOf slot = .staticDns) = true then
        some ⟨.staticDns, some .dns, some id, if slot.isSome then some name else truthy (some name)⟩
      else slot from rfl]
    by_cases takes : (Slot.stateOf slot = .unassigned || Slot.stateOf slot = .reserved ||
        Slot.stateOf slot = .staticDns) = true
    · rw [if_pos takes]
      exact .inr ⟨_, rfl, .inl unowned.symm⟩
    · rw [if_neg takes]
      exact .inl rfl

/-- A round that changes a slot changes its state, its source or its name. -/
theorem act_cases (place : Place) (claimant : Claimant) (slot : Option Slot) :
    act place claimant slot = slot ∨ ∃ next, act place claimant slot = some next ∧
      (next.state ≠ Slot.stateOf slot ∨ next.sourceId ≠ slot.bind Slot.sourceId ∨
        next.hostname ≠ slot.bind Slot.hostname) := by
  rw [act]
  cases claimant.served with
  | none =>
    dsimp only
    split_ifs with owned free own held
    · exact .inl rfl
    · exact .inl rfl
    · refine .inr ⟨_, rfl, ?_⟩
      cases held : Slot.isHold slot with
      | true =>
        cases slot with
        | none => cases held
        | some slot => exact .inr (.inl fun same => own (by simpa [held] using same.symm))
      | false =>
        have unassigned : Slot.stateOf slot = .unassigned := by simpa [held] using owned
        exact .inl (by rw [unassigned]; nofun)
    · exact .inr ⟨_, rfl, .inl (by rw [stateOf_of_hold held]; nofun)⟩
    · exact .inl rfl
  | some wanted =>
    obtain ⟨id, name⟩ := wanted
    dsimp only
    split_ifs with gateway differs claimable
    · rcases allocate_cases place id name slot (.inl ⟨gateway, differs⟩) with same | ⟨next, made,
        state | name'⟩
      · exact .inl same
      · exact .inr ⟨next, made, .inl state⟩
      · exact .inr ⟨next, made, .inr (.inr name')⟩
    · exact .inl rfl
    · rcases allocate_cases place id name slot (.inr (by simpa using claimable)) with
        same | ⟨next, made, state | name'⟩
      · exact .inl same
      · exact .inr ⟨next, made, .inl state⟩
      · exact .inr ⟨next, made, .inr (.inr name')⟩
    · exact .inl rfl

/-! ## When the claimants of a slot agree -/

/-- What claimants make of a slot, one after the other. -/
def settled (place : Place) (slot : Option Slot) (claimants : List Claimant) : Option Slot :=
  claimants.foldl (fun slot claimant => act place claimant slot) slot

/-- All served records give one name. -/
def OneName (claimants : List Claimant) : Prop :=
  ∀ first ∈ claimants, ∀ second ∈ claimants, ∀ one, first.served = some one →
    ∀ other, second.served = some other → one.2 = other.2

/-- The claimants of an address agree about the slot they find. A free address that none of them
serves has one holder. A gateway has one name; where the address was held, the pass that releases
it names it too. -/
def Agree (place : Place) (slot : Option Slot) (claimants : List Claimant) : Prop :=
  match place with
  | .pooled => True
  | .system => True
  | .free =>
    Slot.stateOf slot = .unassigned ∨ Slot.isHold slot = true →
      (∀ claimant ∈ claimants, claimant.served = none) → ∀ first ∈ claimants, ∀ second ∈ claimants,
      first.holder = second.holder
  | .gateway =>
    (Slot.stateOf slot = .unassigned ∨ Slot.stateOf slot = .gateway → OneName claimants) ∧
      (Slot.isHold slot = true → (∃ claimant ∈ claimants, claimant.served = none) →
        OneName claimants ∧
          (claimants.takeWhile (·.served.isSome) = [] ∨
            ∃ claimant ∈ claimants.dropWhile (·.served.isSome), claimant.served ≠ none))

section Agreement

variable {place : Place} {claimant : Claimant} {claimants : List Claimant} {slot : Option Slot}

theorem act_owned (assigned : Slot.stateOf slot ≠ .unassigned) (unheld : Slot.isHold slot = false)
    (ungated : place = .gateway → Slot.stateOf slot ≠ .gateway) :
    act place claimant slot = slot := by
  rw [act]
  cases claimant.served with
  | none =>
    dsimp only
    rw [if_pos]
    simp [assigned, unheld]
  | some wanted =>
    dsimp only
    split_ifs with gateway differs claimable
    · cases place with
      | gateway => exact absurd gateway (ungated rfl)
      | pooled => rfl
      | system => rfl
      | free =>
        simp only [allocate]
        rw [gateway, if_neg (by decide)]
    · rfl
    · simp [assigned, unheld] at claimable
    · rfl

theorem settled_of_forall (same : ∀ claimant ∈ claimants, act place claimant slot = slot) :
    settled place slot claimants = slot := by
  induction claimants with
  | nil => rfl
  | cons first rest ih =>
    obtain ⟨head, tail⟩ := List.forall_mem_cons.mp same
    rw [settled, List.foldl_cons, head]
    exact ih tail

theorem act_of_unserved (unserved : claimant.served = none) (taken : place ≠ .free) :
    act place claimant slot =
      if Slot.isHold slot then some ⟨.unassigned, none, none, slot.bind Slot.hostname⟩
      else slot := by
  rw [act, unserved]
  dsimp only
  rw [if_neg taken]
  split_ifs with owned held held
  · rw [stateOf_of_hold held, held] at owned
    cases owned
  · rfl
  · rfl
  · rfl

theorem act_hold_of_served (held : Slot.isHold slot = true) (served : claimant.served ≠ none)
    (taken : place ≠ .free) :
    act place claimant slot = slot := by
  obtain ⟨wanted, chosen⟩ := Option.ne_none_iff_exists'.mp served
  rw [act, chosen]
  dsimp only
  rw [stateOf_of_hold held, if_neg (by decide), held, if_pos (by decide)]
  cases place with
  | free => exact absurd rfl taken
  | pooled => rfl
  | system => rfl
  | gateway =>
    simp only [allocate]
    rw [stateOf_of_hold held, if_neg (by decide)]

/-- A pool and topology let go of a hold once. -/
theorem fixed_of_taken (taken : place = .pooled ∨ place = .system) :
    ∀ claimant ∈ claimants, act place claimant (settled place slot claimants) = settled place slot
    claimants := by
  have apart : place ≠ .free ∧ place ≠ .gateway := by rcases taken with rfl | rfl <;> decide
  have unheld_act : ∀ (claimant : Claimant) (slot : Option Slot), Slot.isHold slot = false →
      act place claimant slot = slot := by
    intro claimant slot unheld
    cases served : claimant.served with
    | none => rw [act_of_unserved served apart.1, unheld, if_neg (by decide)]
    | some wanted =>
      by_cases assigned : Slot.stateOf slot = .unassigned
      · rw [act, served]
        dsimp only
        rw [assigned, if_neg (by decide)]
        rcases taken with rfl | rfl <;> rfl
      · exact act_owned assigned unheld fun same => absurd same apart.2
  have run : (Slot.isHold (settled place slot claimants) = true ∧ ∀ claimant ∈ claimants,
      claimant.served ≠ none) ∨ Slot.isHold (settled place slot claimants) = false := by
    induction claimants generalizing slot with
    | nil =>
      cases held : Slot.isHold slot with
      | true => exact .inl ⟨held, List.forall_mem_nil _⟩
      | false => exact .inr held
    | cons first rest ih =>
      change (Slot.isHold (settled place (act place first slot) rest) = true ∧ _) ∨
        Slot.isHold (settled place (act place first slot) rest) = false
      by_cases served : first.served = none
      · have released : Slot.isHold (act place first slot) = false := by
          rw [act_of_unserved served apart.1]
          split_ifs with held
          · rfl
          · simpa using held
        rw [settled_of_forall fun claimant _ => unheld_act claimant _ released]
        exact .inr released
      · rcases @ih (act place first slot) with ⟨held, all⟩ | unheld
        · exact .inl ⟨held, List.forall_mem_cons.mpr ⟨served, all⟩⟩
        · exact .inr unheld
  intro claimant member
  rcases run with ⟨held, all⟩ | unheld
  · exact act_hold_of_served held (all claimant member) apart.1
  · exact unheld_act claimant _ unheld

theorem act_free_of_unserved (claimable : Slot.stateOf slot = .unassigned ∨ Slot.isHold slot = true)
    (unserved : claimant.served = none) :
    Slot.isHold (act .free claimant slot) = true ∧
      (act .free claimant slot).bind Slot.sourceId = some claimant.holder := by
  rw [act, unserved]
  dsimp only
  split_ifs with owned free own
  · rcases claimable with unassigned | held
    · simp [unassigned] at owned
    · simp [held] at owned
  · rw [Bool.and_eq_true] at own
    cases slot with
    | none => exact absurd own.1 (by decide)
    | some slot => exact ⟨own.1, by simpa using own.2⟩
  · exact ⟨rfl, rfl⟩
  · exact absurd rfl free
  · exact absurd rfl free

theorem act_free_of_served (claimable : Slot.stateOf slot = .unassigned ∨ Slot.isHold slot = true)
    (served : claimant.served ≠ none) :
    Slot.stateOf (act .free claimant slot) = .staticDns ∧
    Slot.isHold (act .free claimant slot) = false := by
  obtain ⟨wanted, chosen⟩ := Option.ne_none_iff_exists'.mp served
  have may : Slot.stateOf slot = .unassigned ∨ Slot.stateOf slot = .reserved :=
    claimable.imp_right stateOf_of_hold
  have takes : act .free claimant slot = allocate .free wanted.1 wanted.2 slot := by
    rw [act, chosen]
    dsimp only
    rw [if_neg (by rcases may with state | state <;> rw [state] <;> decide),
      if_pos (by simpa using claimable)]
  rw [takes]
  simp only [allocate]
  rw [if_pos (by rcases may with state | state <;> rw [state] <;> decide)]
  exact ⟨rfl, rfl⟩

/-- A free address is taken for good by a record that is served, or held by the last that is not. -/
theorem free_run (claimable : Slot.stateOf slot = .unassigned ∨ Slot.isHold slot = true)
    (listed : claimants ≠ []) :
    ((∃ claimant ∈ claimants, claimant.served ≠ none) ∧
        Slot.stateOf (settled .free slot claimants) = .staticDns) ∨
      (∀ claimant ∈ claimants, claimant.served = none) ∧ ∃ last ∈ claimants,
        Slot.isHold (settled .free slot claimants) = true ∧
        (settled .free slot claimants).bind Slot.sourceId = some last.holder := by
  induction claimants generalizing slot with
  | nil => exact absurd rfl listed
  | cons first rest ih =>
    change (_ ∧ Slot.stateOf (settled .free (act .free first slot) rest) = .staticDns) ∨
      (_ ∧ ∃ last ∈ first :: rest, Slot.isHold (settled .free (act .free first slot) rest) = true ∧
        (settled .free (act .free first slot) rest).bind Slot.sourceId = some last.holder)
    by_cases served : first.served = none
    · have held : Slot.isHold (act .free first slot) = true ∧
          (act .free first slot).bind Slot.sourceId = some first.holder :=
          act_free_of_unserved claimable served
      by_cases others : rest = []
      · subst others
        exact .inr ⟨by simpa using served, first, List.mem_cons_self, held⟩
      · rcases ih (.inr held.1) others with ⟨⟨claimant, member, some'⟩, state⟩ | ⟨all, last,
          member, holds⟩
        · exact .inl ⟨⟨claimant, List.mem_cons_of_mem _ member, some'⟩, state⟩
        · exact .inr ⟨List.forall_mem_cons.mpr ⟨served, all⟩, last, List.mem_cons_of_mem _ member,
            holds⟩
    · obtain ⟨taken, unheld⟩ := act_free_of_served claimable served
      have kept := @settled_of_forall .free rest (act .free first slot) fun claimant _ =>
        act_owned (by rw [taken]; nofun) unheld (fun other => absurd other (by nofun))
      rw [kept]
      exact .inl ⟨⟨first, List.mem_cons_self, served⟩, taken⟩

theorem act_free_hold_iff (held : Slot.isHold slot = true) {holder : Nat}
    (source : slot.bind Slot.sourceId = some holder) (unserved : claimant.served = none) :
    act .free claimant slot = slot ↔ claimant.holder = holder := by
  constructor
  · intro same
    have own := (act_free_of_unserved (.inr held) unserved).2
    rw [same, source] at own
    exact (Option.some.inj own).symm
  · rintro rfl
    rw [act, unserved]
    dsimp only
    rw [if_neg (by simp [held]), if_pos rfl, if_pos]
    cases slot with
    | none => cases held
    | some slot => simpa [held] using source

/-- A gateway has a name for good where the served records of its address give one name. -/
theorem act_gateway_iff {name : Text} (state : Slot.stateOf slot = .gateway)
    (named : slot.bind Slot.hostname = some name) :
    act .gateway claimant slot = slot ↔ ∀ wanted, claimant.served = some wanted →
    wanted.2 = name := by
  have unheld : Slot.isHold slot = false := by
    cases held : Slot.isHold slot with
    | false => rfl
    | true => exact absurd ((stateOf_of_hold held).symm.trans state) (by decide)
  cases served : claimant.served with
  | none =>
    refine iff_of_true ?_ (by nofun)
    rw [act_of_unserved served (by decide), unheld]
    rfl
  | some wanted =>
    rw [act, served]
    dsimp only
    rw [if_pos state, named]
    simp only [allocate]
    rw [state, if_pos (show (_ : Bool) = true from by decide)]
    constructor
    · intro same other chosen
      obtain rfl := Option.some.inj chosen
      by_contra differs
      rw [if_pos fun equal => differs (Option.some.inj equal).symm] at same
      rw [← same] at named
      exact differs (Option.some.inj named)
    · intro all
      rw [if_neg (by simp [all wanted rfl])]

theorem act_gateway_of_served (open' : Slot.stateOf slot = .unassigned ∨
    Slot.stateOf slot = .gateway) {wanted : Nat × Text} (served : claimant.served = some wanted) :
    Slot.stateOf (act .gateway claimant slot) = .gateway ∧
      (act .gateway claimant slot).bind Slot.hostname = some wanted.2 := by
  rw [act, served]
  dsimp only
  simp only [allocate]
  rcases open' with state | state
  · rw [state, if_neg (by decide), if_pos (by rfl), if_pos (by decide)]
    exact ⟨rfl, rfl⟩
  · rw [state, if_pos rfl, if_pos (show (_ : Bool) = true from by decide)]
    split_ifs with differs
    · exact ⟨rfl, rfl⟩
    · exact ⟨state, by simpa using differs⟩

theorem gateway_run (open' : Slot.stateOf slot = .unassigned ∨ Slot.stateOf slot = .gateway) :
    ((∀ claimant ∈ claimants, claimant.served = none) ∧ settled .gateway slot claimants = slot) ∨
      ∃ last ∈ claimants, ∃ wanted, last.served = some wanted ∧
        Slot.stateOf (settled .gateway slot claimants) = .gateway ∧
        (settled .gateway slot claimants).bind Slot.hostname = some wanted.2 := by
  have unheld : Slot.isHold slot = false := by
    cases held : Slot.isHold slot with
    | false => rfl
    | true => rw [stateOf_of_hold held] at open'; simp at open'
  induction claimants generalizing slot with
  | nil => exact .inl ⟨List.forall_mem_nil _, rfl⟩
  | cons first rest ih =>
    have whole : settled .gateway slot (first :: rest) = settled .gateway
        (act .gateway first slot) rest := rfl
    rw [whole]
    cases served : first.served with
    | none =>
      rw [act_of_unserved served (by decide), unheld, if_neg (by decide)]
      rcases ih open' unheld with ⟨all, same⟩ | ⟨last, member, holds⟩
      · exact .inl ⟨List.forall_mem_cons.mpr ⟨served, all⟩, same⟩
      · exact .inr ⟨last, List.mem_cons_of_mem _ member, holds⟩
    | some wanted =>
      obtain ⟨state, named⟩ := act_gateway_of_served open' served
      have still : Slot.isHold (act .gateway first slot) = false := by
        cases held : Slot.isHold (act .gateway first slot) with
        | false => rfl
        | true => exact absurd ((stateOf_of_hold held).symm.trans state) (by decide)
      rcases ih (.inr state) still with ⟨all, same⟩ | ⟨last, member, holds⟩
      · rw [same]
        exact .inr ⟨first, List.mem_cons_self, wanted, served, state, named⟩
      · exact .inr ⟨last, List.mem_cons_of_mem _ member, holds⟩

theorem fixed_gateway_iff (open' : Slot.stateOf slot = .unassigned ∨ Slot.stateOf slot = .gateway)
    {after : List Claimant} (within : ∀ claimant ∈ after, claimant ∈ claimants)
    (named : (∃ claimant ∈ claimants, claimant.served ≠ none) → ∃ claimant ∈ after,
    claimant.served ≠ none) :
    (∀ claimant ∈ claimants, act .gateway claimant (settled .gateway slot after) = settled .gateway
      slot after) ↔ OneName claimants := by
  rcases @gateway_run after slot open' with ⟨none', same⟩ | ⟨last, member, wanted, served,
    state, name⟩
  · have unserved : ∀ claimant ∈ claimants, claimant.served = none := by
      by_contra some'
      push Not at some'
      obtain ⟨claimant, member, chosen⟩ := named some'
      exact chosen (none' claimant member)
    refine iff_of_true (fun claimant member => ?_) fun first member _ _ one chosen => ?_
    · rw [same, act_of_unserved (unserved claimant member) (by decide)]
      split_ifs with held
      · rw [stateOf_of_hold held] at open'
        simp at open'
      · rfl
    · rw [unserved first member] at chosen
      cases chosen
  · simp only [act_gateway_iff state name]
    constructor
    · intro all first one second two x chosen y other
      rw [all first one x chosen, all second two y other]
    · intro one claimant listed other chosen
      exact one claimant listed last (within last member) other chosen wanted served

theorem fixed_of_owned (assigned : Slot.stateOf slot ≠ .unassigned)
    (unheld : Slot.isHold slot = false) (ungated : place = .gateway →
    Slot.stateOf slot ≠ .gateway) :
    ∀ claimant ∈ claimants, act place claimant (settled place slot claimants) = settled place slot
    claimants := by
  intro claimant _
  rw [settled_of_forall fun claimant _ => act_owned assigned unheld ungated]
  exact act_owned assigned unheld ungated

theorem free_agree_iff : (∀ claimant ∈ claimants,
    act .free claimant (settled .free slot claimants) = settled .free slot claimants) ↔
    Agree .free slot claimants := by
  rw [Agree]
  by_cases claimable : Slot.stateOf slot = .unassigned ∨ Slot.isHold slot = true
  · rw [forall_prop_of_true claimable]
    by_cases listed : claimants = []
    · subst listed
      exact iff_of_true (List.forall_mem_nil _) fun _ => List.forall_mem_nil _
    · rcases free_run claimable listed with ⟨⟨claimant, member, served⟩, state⟩ | ⟨all, last,
        within, held, source⟩
      · refine iff_of_true (fun other _ => ?_) fun none' => absurd (none' claimant member) served
        refine act_owned (by rw [state]; nofun) ?_ nofun
        cases held : Slot.isHold (settled .free slot claimants) with
        | false => rfl
        | true => exact absurd ((stateOf_of_hold held).symm.trans state) (by decide)
      · rw [forall_prop_of_true all]
        constructor
        · intro fixed first one second two
          rw [(act_free_hold_iff held source (all first one)).mp (fixed first one),
            (act_free_hold_iff held source (all second two)).mp (fixed second two)]
        · intro agree claimant member
          exact (act_free_hold_iff held source (all claimant member)).mpr
            (agree claimant member last within)
  · obtain ⟨assigned, unheld⟩ := not_or.mp claimable
    exact iff_of_true (fixed_of_owned assigned (by simpa using unheld) nofun) fun other =>
      absurd other claimable

theorem gateway_released (held : Slot.isHold slot = true) (some' : ∃ claimant ∈ claimants,
    claimant.served = none) :
    ∃ released, (Slot.stateOf released = .unassigned ∧ Slot.isHold released = false) ∧
      settled .gateway slot claimants =
        settled .gateway released (claimants.dropWhile (·.served.isSome)) := by
  induction claimants with
  | nil => exact absurd some' (by simp)
  | cons first rest ih =>
    cases served : first.served with
    | none =>
      refine ⟨some ⟨.unassigned, none, none, slot.bind Slot.hostname⟩, ⟨rfl, rfl⟩, ?_⟩
      rw [List.dropWhile_cons_of_neg (by simp [served])]
      change settled .gateway (act .gateway first slot) rest = settled .gateway
        (act .gateway first _) rest
      rw [act_of_unserved served (by decide), act_of_unserved served (by decide), held]
      rfl
    | some wanted =>
      have kept := act_hold_of_served held (show first.served ≠ none by simp [served])
        (show Place.gateway ≠ .free by decide)
      rw [List.dropWhile_cons_of_pos (by simp [served])]
      change ∃ released, _ ∧ settled .gateway (act .gateway first slot) rest = _
      rw [kept]
      refine ih ?_
      obtain ⟨claimant, member, unserved⟩ := some'
      rcases List.mem_cons.mp member with rfl | later
      · rw [served] at unserved
        cases unserved
      · exact ⟨claimant, later, unserved⟩

theorem gateway_agree_iff : (∀ claimant ∈ claimants,
    act .gateway claimant (settled .gateway slot claimants) = settled .gateway slot claimants) ↔
      Agree .gateway slot claimants := by
  rw [Agree]
  by_cases open' : Slot.stateOf slot = .unassigned ∨ Slot.stateOf slot = .gateway
  · have unheld : ¬Slot.isHold slot = true := fun held => by
      rw [stateOf_of_hold held] at open'
      simp at open'
    rw [fixed_gateway_iff open' (fun _ => id) id]
    exact ⟨fun one => ⟨fun _ => one, fun held => absurd held unheld⟩, fun both => both.1 open'⟩
  by_cases held : Slot.isHold slot = true
  · by_cases some' : ∃ claimant ∈ claimants, claimant.served = none
    · simp only [open', held, some', false_implies, true_and, forall_const]
      obtain ⟨released, ⟨state, unheld⟩, whole⟩ := gateway_released held some'
      rw [whole]
      by_cases named : ∃ claimant ∈ claimants.dropWhile (·.served.isSome), claimant.served ≠ none
      · rw [fixed_gateway_iff (.inl state) (fun claimant => (List.dropWhile_sublist _).mem)
          fun _ => named]
        exact ⟨fun one => ⟨one, .inr named⟩, And.left⟩
      · have none' : ∀ claimant ∈ claimants.dropWhile (·.served.isSome),
          claimant.served = none := by
          simpa using named
        have still : settled .gateway released (claimants.dropWhile (·.served.isSome)) =
            released := by
          rcases @gateway_run (claimants.dropWhile (·.served.isSome)) released (.inl state) with
            ⟨-, same⟩ | ⟨last, member, wanted, served, -⟩
          · exact same
          · rw [none' last member] at served
            cases served
        rw [still]
        have parts := List.takeWhile_append_dropWhile (p := (·.served.isSome)) (l := claimants)
        constructor
        · intro fixed
          -- a served record before the release finds the address free the next time
          have nobody : claimants.takeWhile (·.served.isSome) = [] := by
            refine List.eq_nil_iff_forall_not_mem.mpr fun claimant member => ?_
            have passes := List.mem_takeWhile_imp member
            obtain ⟨wanted, served⟩ := Option.isSome_iff_exists.mp passes
            have taken := (act_gateway_of_served (.inl state) served).1
            rw [fixed claimant ((List.takeWhile_sublist _).mem member), state] at taken
            cases taken
          rw [nobody, List.nil_append] at parts
          rw [parts] at none'
          refine ⟨fun first member _ _ one chosen => ?_, .inl nobody⟩
          rw [none' first member] at chosen
          cases chosen
        · rintro ⟨-, nobody | other⟩ claimant member
          · rw [nobody, List.nil_append] at parts
            rw [parts] at none'
            rw [act_of_unserved (none' claimant member) (by decide), unheld]
            rfl
          · exact absurd other named
    · refine iff_of_true ?_ ⟨fun other => absurd other open', fun _ other => absurd other some'⟩
      push Not at some'
      intro claimant member
      rw [settled_of_forall fun other within => act_hold_of_served held (some' other within)
        (by decide)]
      exact act_hold_of_served held (some' claimant member) (by decide)
  · refine iff_of_true ?_ ⟨fun other => absurd other open', fun other => absurd other held⟩
    obtain ⟨assigned, ungated⟩ := not_or.mp open'
    exact fixed_of_owned assigned (by simpa using held) fun _ => ungated

/-- **The claimants of an address leave it alone after one pass exactly when they agree.** -/
theorem agree_iff : (∀ claimant ∈ claimants,
    act place claimant (settled place slot claimants) = settled place slot claimants) ↔
    Agree place slot claimants := by
  cases place with
  | pooled => exact iff_of_true (fixed_of_taken (.inl rfl)) trivial
  | system => exact iff_of_true (fixed_of_taken (.inr rfl)) trivial
  | free => exact free_agree_iff
  | gateway => exact gateway_agree_iff

end Agreement

/-! ## What is written elsewhere -/

/-- Nothing but the row of a key is written, beside rogue marks of the address. -/
structure Elsewhere (key : IpKey) (store after : IpStore) : Prop where
  slots : ∀ other, other ≠ key → slotOf (after.table.lookup other) = slotOf
    (store.table.lookup other)
  rows : ∀ other : IpKey, other.subnetId ≠ key.subnetId ∨ other.addr ≠ key.addr →
    after.table.lookup other = store.table.lookup other

namespace Elsewhere

variable {key : IpKey} {store middle after : IpStore}

theorem trans (first : Elsewhere key store middle) (second : Elsewhere key middle after) :
    Elsewhere key store after :=
  ⟨fun other differs => (second.slots other differs).trans (first.slots other differs),
    fun other apart => (second.rows other apart).trans (first.rows other apart)⟩

theorem of_lookups (same : ∀ other, other ≠ key → after.table.lookup other =
    store.table.lookup other) :
    Elsewhere key store after := by
  refine ⟨fun other differs => congrArg slotOf (same other differs),
    fun other apart => same other ?_⟩
  rintro rfl
  exact apart.elim (fun differs => differs rfl) fun differs => differs rfl

end Elsewhere

section Effects

variable {store after : IpStore} {env : Env} {now subnetId id : Nat} {addr : Addr} {fields : Fields}

/-- What `upsert` leaves at its address and elsewhere. -/
theorem lookup_upsert (done : store.upsert env now subnetId addr fields = .ok (after, id)) :
    (∃ row, after.table.lookup ⟨subnetId, addr, none⟩ = some row ∧
      row.info = match store.table.lookup ⟨subnetId, addr, none⟩ with
        | some old => fields.apply now old.info
        | none => fields.initial now) ∧
    Elsewhere ⟨subnetId, addr, none⟩ store after := by
  obtain ⟨key, identified, cases'⟩ := upsert_cases done
  obtain rfl := identityKey_addr identified
  rcases cases' with ⟨row, found, -, rfl⟩ | ⟨absent, -, table, inserted, rfl⟩
  · have lookups : ∀ other, ((store.setInfo row.id (fields.apply now)).emitAll row.id subnetId addr
        (fields.updateEvents row.info)).table.lookup other =
          (store.table.lookup other).map fun old =>
            if old.id == row.id then { old with info := fields.apply now old.info } else old :=
                fun other => by
      rw [IpStore.emitAll_table]
      exact Table.lookup_update _ _ _ _
    constructor
    · rw [lookups, found]
      refine ⟨_, rfl, ?_⟩
      dsimp only
      rw [if_pos (beq_self_eq_true row.id)]
    · refine .of_lookups fun other differs => ?_
      rw [lookups]
      cases held : store.table.lookup other with
      | none => rfl
      | some old =>
        obtain ⟨member, rfl⟩ := Table.lookup_eq_some.mp held
        obtain ⟨own, keyed⟩ := Table.lookup_eq_some.mp found
        have apart : ¬(old.id == row.id) = true := fun same =>
          differs ((congrArg Row.key
            (store.table.eq_of_id_eq member own (beq_iff_eq.mp same))).trans keyed)
        rw [Option.map_some, if_neg apart]
  · have lookups : ∀ other,
        (IpStore.emitAll { store with table := table } store.table.nextId subnetId addr
        fields.insertEvents).table.lookup other =
          if other = ⟨subnetId, addr, none⟩ then some ⟨store.table.nextId, ⟨subnetId, addr, none⟩,
            fields.initial now⟩
          else store.table.lookup other := fun other => by
      rw [IpStore.emitAll_table]
      exact Table.lookup_insert inserted other
    constructor
    · rw [lookups, if_pos rfl, absent]
      exact ⟨_, rfl, rfl⟩
    · exact .of_lookups fun other differs => by rw [lookups, if_neg differs]

theorem slot_setCanonicalAllocation {ip : Addr} {state : AllocationState}
    {sourceType : Option LifecycleSource} {sourceId : Option Nat} (kept : fields.hostname = none)
    (done : store.setCanonicalAllocation env now subnetId ip state sourceType sourceId
    fields = .ok after) :
    slotOf (after.table.lookup ⟨subnetId, ip, none⟩) = some ⟨state, sourceType, sourceId,
      (slotOf (store.table.lookup ⟨subnetId, ip, none⟩)).bind Slot.hostname⟩ ∧
    Elsewhere ⟨subnetId, ip, none⟩ store after := by
  obtain ⟨⟨reached, id⟩, upserted, same⟩ := bind_eq_ok.mp done
  obtain rfl := Except.ok.inj same
  obtain ⟨⟨row, found, info⟩, elsewhere⟩ := lookup_upsert upserted
  refine ⟨?_, elsewhere⟩
  rw [found]
  have spreadName : ∀ base : Fields, base.hostname = none →
      (IpStore.spread base fields).hostname = none :=
    fun base none' => by rw [IpStore.spread, kept, none']; rfl
  have baseName : (IpStore.allocationFields state).hostname = none := by
    rw [IpStore.allocationFields]
    split <;> rfl
  have name := spreadName _ baseName
  cases old : store.table.lookup ⟨subnetId, ip, none⟩ with
  | none =>
    rw [old] at info
    simp [slotOf, Slot.ofInfo, info, Fields.initial, name, truthy]
  | some row =>
    rw [old] at info
    simp [slotOf, Slot.ofInfo, info, Fields.apply, name]

theorem slot_upsert_detection {source : Option DetectionSource} {old : Slot}
    (held : slotOf (store.table.lookup ⟨subnetId, addr, none⟩) = some old)
    (done : store.upsert env now subnetId addr { detectionSource := some source } = .ok
    (after, id)) :
    slotOf (after.table.lookup ⟨subnetId, addr, none⟩) = some old ∧
    Elsewhere ⟨subnetId, addr, none⟩ store after := by
  obtain ⟨⟨row, found, info⟩, elsewhere⟩ := lookup_upsert done
  refine ⟨?_, elsewhere⟩
  obtain ⟨before, there, rfl⟩ := Option.map_eq_some_iff.mp held
  rw [there] at info
  rw [found, slotOf, Option.map_some, info]
  rfl

theorem table_emitEvent (type : EventType) : (store.emitEvent subnetId addr type).table =
    store.table := by
  rw [IpStore.emitEvent]
  split <;> rfl

theorem elsewhere_clearRogue :
    (∀ other, slotOf ((store.clearRogue subnetId addr).table.lookup other) = slotOf
    (store.table.lookup other)) ∧ Elsewhere ⟨subnetId, addr, none⟩ store
    (store.clearRogue subnetId addr) := by
  have all : ∀ other, slotOf ((store.clearRogue subnetId addr).table.lookup other) =
      slotOf (store.table.lookup other) ∧ (other.subnetId ≠ subnetId ∨ other.addr ≠ addr →
        (store.clearRogue subnetId addr).table.lookup other = store.table.lookup other) := by
    intro other
    rw [IpStore.clearRogue]
    split
    · exact ⟨rfl, fun _ => rfl⟩
    · split
      · exact ⟨rfl, fun _ => rfl⟩
      · rw [IpStore.emit]
        dsimp only
        rw [Table.lookup_update]
        cases held : store.table.lookup other with
        | none => exact ⟨rfl, fun _ => rfl⟩
        | some row =>
          obtain ⟨-, rfl⟩ := Table.lookup_eq_some.mp held
          rw [Option.map_some]
          refine ⟨?_, fun apart => ?_⟩
          · split <;> rfl
          · rw [if_neg]
            rw [Bool.and_eq_true, beq_iff_eq, beq_iff_eq]
            exact fun both => apart.elim (fun differs => differs both.1) fun differs =>
              differs both.2
  exact ⟨fun other => (all other).1, fun other _ => (all other).1, fun other apart =>
    (all other).2 apart⟩

theorem slot_syncDnsToIp {subnet : SubnetRow} {recordName zoneName : Text}
    (leaf : env.findSubnetForIp addr = some subnet)
    (done : store.syncDnsToIp env now recordName addr zoneName = .ok after) :
    slotOf (after.table.lookup ⟨subnet.id, addr, none⟩) =
      (match slotOf (store.table.lookup ⟨subnet.id, addr, none⟩) with
        | some old =>
            some { old with hostname := some (DnsNames.fqdnForRecordName recordName zoneName) }
        | none => some ⟨.unassigned, none, none,
            truthy (some (DnsNames.fqdnForRecordName recordName zoneName))⟩) ∧
    Elsewhere ⟨subnet.id, addr, none⟩ store after := by
  rw [IpStore.syncDnsToIp, leaf] at done
  obtain ⟨⟨named, id⟩, upserted, same⟩ := bind_eq_ok.mp done
  obtain rfl := Except.ok.inj same
  obtain ⟨⟨row, found, info⟩, elsewhere⟩ := lookup_upsert upserted
  have cleared := @elsewhere_clearRogue named subnet.id addr
  have emitted : Elsewhere ⟨subnet.id, addr, none⟩ (named.clearRogue subnet.id addr)
      ((named.clearRogue subnet.id addr).emitEvent subnet.id addr .dnsAdded) :=
    .of_lookups fun other _ => by rw [table_emitEvent]
  refine ⟨?_, (elsewhere.trans cleared.2).trans emitted⟩
  rw [table_emitEvent, cleared.1, found]
  cases old : store.table.lookup ⟨subnet.id, addr, none⟩ with
  | none =>
    rw [old] at info
    rw [slotOf, Option.map_some, info]
    rfl
  | some before =>
    rw [old] at info
    rw [slotOf, Option.map_some, info]
    rfl

/-- What fails in `upsert` is no conflict. -/
theorem not_isConflict_upsert {failure : Failure}
    (failed : store.upsert env now subnetId addr fields = .error failure) :
    isConflict failure = false := by
  rw [IpStore.upsert] at failed
  cases identified : identityKey subnetId addr with
  | error other =>
    rw [identified] at failed
    obtain rfl := Except.error.inj failed
    rw [identityKey, canonicalIdentity] at identified
    dsimp only at identified
    split_ifs at identified <;> first | (cases identified; rfl) | cases identified
  | ok key =>
    rw [identified] at failed
    change (match store.table.lookup key with
      | some row => _
      | none => store.create env key (fields.initial now) fields.insertEvents) = _ at failed
    split at failed
    · cases failed
    · rw [IpStore.create] at failed
      split_ifs at failed
      · cases failed
        rfl
      · cases failed
        rfl
      · split at failed
        · cases failed
          rfl
        · cases failed

theorem not_isConflict_setCanonicalAllocation {state : AllocationState}
    {sourceType : Option LifecycleSource} {sourceId : Option Nat} {failure : Failure}
    (failed : store.setCanonicalAllocation env now subnetId addr state sourceType sourceId fields =
      .error failure) : isConflict failure = false := by
  rcases bind_eq_error.mp failed with first | ⟨reached, -, rest⟩
  · exact not_isConflict_upsert first
  · cases rest

theorem not_isConflict_syncDnsToIp {recordName zoneName : Text} {failure : Failure}
    (failed : store.syncDnsToIp env now recordName addr zoneName = .error failure) :
    isConflict failure = false := by
  rw [IpStore.syncDnsToIp] at failed
  split at failed
  · cases failed
  · rcases bind_eq_error.mp failed with first | ⟨named, -, rest⟩
    · exact not_isConflict_upsert first
    · cases rest

end Effects

section Settling

variable {store after : IpStore} {env : Env} {now : Nat} {addr : Addr} {subnet : SubnetRow}

theorem stateOf_slotOf (row : Option IpRow) : Slot.stateOf (slotOf row) = IpStore.stateOf row := by
  cases row <;> rfl

theorem isHold_slotOf (row : Option IpRow) : Slot.isHold (slotOf row) = IpStore.isDnsHold row := by
  cases row <;> rfl

theorem hostname_slotOf (row : Option IpRow) : (slotOf row).bind Slot.hostname = row.bind
    (·.info.hostname) := by
  cases row <;> rfl

theorem sourceId_slotOf (row : Option IpRow) (id : Nat) :
    (slotOf row).any (·.sourceId = some id) = row.any (·.info.allocationSourceId = some id) := by
  cases row <;> rfl

theorem stateOf_of_isHold {row : Option IpRow} (held : IpStore.isDnsHold row = true) :
    IpStore.stateOf row = .reserved := by
  cases row with
  | none => cases held
  | some row =>
    rw [IpStore.isDnsHold, Option.any_some, Bool.and_eq_true, decide_eq_true_eq] at held
    exact held.1

/-- What a call makes of an address: the slot that is wanted, written where it is not there yet. A
conflict writes nothing. -/
def Outcome (key : IpKey) (store : IpStore) (wanted : Option Slot)
    (result : Except Failure IpStore) : Prop :=
  (wanted = slotOf (store.table.lookup key) ∧
    (result = .ok store ∨ ∃ failure, result = .error failure ∧ isConflict failure = true)) ∨
  (wanted ≠ slotOf (store.table.lookup key) ∧
    (∀ after, result = .ok after → slotOf (after.table.lookup key) = wanted ∧
    Elsewhere key store after) ∧ ∀ failure, result = .error failure → isConflict failure = false)

theorem state_of_dnsNameAllowed {subnetId : Nat} {ip : ScopedAddr} {protection : Protection}
    (found : env.protectedAddress subnetId ip = some protection)
    (allowed : protection.dnsNameAllowed = true) :
    protection = ⟨some .gateway, true⟩ := by
  rw [Env.protectedAddress] at found
  split at found
  · cases found
  · split at found
    · cases found
      cases allowed
    · split_ifs at found <;> cases found
      · cases allowed
      · rfl

section Identified

variable (leaf : env.findSubnetForIp addr = some subnet)
  (identified : identityKey subnet.id addr = .ok ⟨subnet.id, addr, none⟩)

include leaf identified

omit leaf in
theorem assertAllocationTransition_cases {target : AllocationState} {source : LifecycleSource} :
    store.assertAllocationTransition env subnet.id addr target source = .ok () ∨
      ∃ failure, store.assertAllocationTransition env subnet.id addr target
        source = .error failure ∧ isConflict failure = true := by
  have looked : store.findBySubnetAndIp subnet.id addr =
      .ok (store.table.lookup ⟨subnet.id, addr, none⟩) := by
    rw [IpStore.findBySubnetAndIp, identified]
    rfl
  cases outcome : store.assertAllocationTransition env subnet.id addr target source with
  | ok _ => exact .inl rfl
  | error failure =>
    refine .inr ⟨failure, rfl, ?_⟩
    rw [IpStore.assertAllocationTransition, looked] at outcome
    rcases bind_eq_error.mp outcome with first | ⟨row, -, rest⟩
    · cases first
    · dsimp only at rest
      split at rest
      · rename_i protection _
        obtain rfl := Except.error.inj rest
        rw [Protection.failure]
        split <;> rfl
      · split_ifs at rest
        obtain rfl := Except.error.inj rest
        rfl

/-- A hold, by the place of its address. -/
theorem reconcileDnsHold_eq {holder : Nat}
    (free : placeOf env subnet.id addr = .free →
      ∃ record, IpStore.dnsHoldingRecord env subnet.id addr = some record ∧ record.id = holder)
    (taken : placeOf env subnet.id addr ≠ .free → IpStore.dnsHoldingRecord env subnet.id
    addr = none) :
    store.reconcileDnsHold env now addr =
      let row := store.table.lookup ⟨subnet.id, addr, none⟩
      if IpStore.stateOf row ≠ .unassigned && !IpStore.isDnsHold row then .ok store
      else if placeOf env subnet.id addr = .free then
        if IpStore.isDnsHold row && row.any (·.info.allocationSourceId = some holder) then .ok store
        else store.setCanonicalAllocation env now subnet.id addr .reserved (some .dns) (some holder)
          { reservationNote := some none, allocationEvent := some .dnsHoldTaken }
      else if IpStore.isDnsHold row then
        store.setCanonicalAllocation env now subnet.id addr .unassigned none none
          { allocationEvent := some .dnsHoldReleased }
      else .ok store := by
  have looked : store.findBySubnetAndIp subnet.id addr =
      .ok (store.table.lookup ⟨subnet.id, addr, none⟩) := by
    rw [IpStore.findBySubnetAndIp, identified]
    rfl
  rw [IpStore.reconcileDnsHold, leaf]
  dsimp only
  rw [looked]
  change (if _ then _ else _) = _
  generalize rowIs : store.table.lookup ⟨subnet.id, addr, none⟩ = row
  by_cases owned : (IpStore.stateOf row ≠ .unassigned && !IpStore.isDnsHold row) = true
  · rw [if_pos owned, if_pos owned]
  · rw [if_neg owned, if_neg owned]
    have open' : IpStore.stateOf row = .unassigned ∨ IpStore.isDnsHold row = true := by
      simp only [Bool.and_eq_true, decide_eq_true_eq, Bool.not_eq_true', not_and,
        Bool.not_eq_false] at owned
      exact or_iff_not_imp_left.mpr owned
    by_cases isFree : placeOf env subnet.id addr = .free
    · obtain ⟨record, holds, rfl⟩ := free isFree
      rw [if_pos isFree, holds]
      dsimp only
      split
      · rfl
      · have passes : store.assertAllocationTransition env subnet.id addr .reserved .dns = .ok
          () := by
          rw [assertAllocationTransition_ok_iff identified, rowIs]
          refine ⟨.inr (.inr (.inr ?_)), .inr ?_⟩
          · rw [placeOf] at isFree
            split at isFree
            · cases isFree
            · split at isFree
              · assumption
              · split at isFree <;> cases isFree
          · rcases open' with unassigned | held
            · rw [unassigned]
              rfl
            · rw [stateOf_of_isHold held]
              rfl
        rw [passes]
        rfl
    · rw [if_neg isFree, taken isFree]
      dsimp only
      by_cases held : IpStore.isDnsHold row = true
      · rw [held, if_neg (by decide), if_pos rfl]
        have passes : store.assertAllocationTransition env subnet.id addr .unassigned .dns = .ok
            () := by
          rw [assertRelease_ok_iff identified, rowIs, stateOf_of_isHold held]
          exact .inr rfl
        rw [passes]
        rfl
      · rw [Bool.not_eq_true] at held
        rw [held, if_pos (show (!false) = true from rfl), if_neg (by decide)]

/-- **A hold is taken, moved, released or left**, as the slot says. -/
theorem reconcileDnsHold_spec {claimant : Claimant} (unserved : claimant.served = none)
    (free : placeOf env subnet.id addr = .free →
      ∃ record, IpStore.dnsHoldingRecord env subnet.id addr = some record ∧
      record.id = claimant.holder)
    (taken : placeOf env subnet.id addr ≠ .free → IpStore.dnsHoldingRecord env subnet.id
    addr = none) :
    Outcome ⟨subnet.id, addr, none⟩ store
      (act (placeOf env subnet.id addr) claimant
      (slotOf (store.table.lookup ⟨subnet.id, addr, none⟩)))
      (store.reconcileDnsHold env now addr) := by
  rw [reconcileDnsHold_eq leaf identified free taken, act, unserved]
  dsimp only
  rw [stateOf_slotOf, isHold_slotOf, sourceId_slotOf]
  generalize rowIs : store.table.lookup ⟨subnet.id, addr, none⟩ = row
  by_cases owned : (IpStore.stateOf row ≠ .unassigned && !IpStore.isDnsHold row) = true
  · rw [if_pos owned, if_pos owned]
    exact .inl ⟨by rw [rowIs], .inl rfl⟩
  rw [if_neg owned, if_neg owned]
  by_cases isFree : placeOf env subnet.id addr = .free
  · rw [if_pos isFree, if_pos isFree]
    by_cases own :
      (IpStore.isDnsHold row && row.any (·.info.allocationSourceId = some claimant.holder)) = true
    · rw [if_pos own, if_pos own]
      exact .inl ⟨by rw [rowIs], .inl rfl⟩
    · rw [if_neg own, if_neg own]
      refine .inr ⟨fun same => own ?_, fun after done => ?_, fun failure failed =>
        not_isConflict_setCanonicalAllocation failed⟩
      · rw [rowIs] at same
        rw [← isHold_slotOf, ← sourceId_slotOf, ← same]
        simp [Slot.isHold]
      · have effect := slot_setCanonicalAllocation rfl done
        rw [rowIs] at effect
        exact effect
  · rw [if_neg isFree, if_neg isFree]
    by_cases held : IpStore.isDnsHold row = true
    · rw [if_pos held, if_pos held]
      refine .inr ⟨fun same => ?_, fun after done => ?_, fun failure failed =>
        not_isConflict_setCanonicalAllocation failed⟩
      · rw [rowIs] at same
        rw [← isHold_slotOf, ← same] at held
        cases held
      · have effect := slot_setCanonicalAllocation rfl done
        rw [rowIs] at effect
        exact effect
    · rw [if_neg held, if_neg held]
      exact .inl ⟨by rw [rowIs], .inl rfl⟩

/-- A free address is taken. -/
theorem allocate_free_spec {recordName zoneName : Text} {id : Nat}
    (free : env.protectedAddress subnet.id addr = none)
    (notYet : IpStore.stateOf (store.table.lookup ⟨subnet.id, addr, none⟩) ≠ .staticDns) :
    Outcome ⟨subnet.id, addr, none⟩ store
      (allocate .free id (DnsNames.fqdnForRecordName recordName zoneName)
        (slotOf (store.table.lookup ⟨subnet.id, addr, none⟩)))
      (do
        store.assertAllocationTransition env subnet.id addr .staticDns .dns
        let named ← store.syncDnsToIp env now recordName addr zoneName
        named.setCanonicalAllocation env now subnet.id addr .staticDns (some .dns) (some id)
          {}) := by
  have passes := @assertAllocationTransition_ok_iff store env subnet.id addr
    _ .staticDns .dns identified
  rw [allocate, stateOf_slotOf]
  by_cases allowed : IpStore.stateOf (store.table.lookup ⟨subnet.id, addr, none⟩) = .unassigned ∨
      IpStore.stateOf (store.table.lookup ⟨subnet.id, addr, none⟩) = .reserved
  · have may :
        canTransitionAllocation
        (IpStore.stateOf (store.table.lookup ⟨subnet.id, addr, none⟩)) .staticDns .dns = true := by
      rcases allowed with state | state <;> rw [state] <;> rfl
    rw [passes.mpr ⟨.inr (.inr (.inr free)), .inr may⟩]
    rw [if_pos (by rcases allowed with state | state <;> rw [state] <;> decide)]
    refine .inr ⟨fun same => ?_, fun after done => ?_, fun failure failed => ?_⟩
    · rw [← stateOf_slotOf, ← same] at notYet
      exact notYet rfl
    · obtain ⟨-, -, done⟩ := bind_eq_ok.mp done
      obtain ⟨named, synced, set⟩ := bind_eq_ok.mp done
      obtain ⟨first, elsewhere⟩ := slot_syncDnsToIp leaf synced
      obtain ⟨second, more⟩ := slot_setCanonicalAllocation rfl set
      refine ⟨second.trans ?_, elsewhere.trans more⟩
      rw [first]
      cases slotOf (store.table.lookup ⟨subnet.id, addr, none⟩) <;> rfl
    · rcases bind_eq_error.mp failed with first | ⟨-, -, failed⟩
      · cases first
      · rcases bind_eq_error.mp failed with first | ⟨named, -, rest⟩
        · exact not_isConflict_syncDnsToIp first
        · exact not_isConflict_setCanonicalAllocation rest
  · have refused :
        canTransitionAllocation
        (IpStore.stateOf (store.table.lookup ⟨subnet.id, addr, none⟩)) .staticDns .dns = false := by
      generalize IpStore.stateOf (store.table.lookup ⟨subnet.id, addr, none⟩) =
        state at allowed notYet
      cases state <;> first | rfl | exact absurd rfl notYet | exact absurd (.inl rfl) allowed |
        exact absurd (.inr rfl) allowed
    rcases @assertAllocationTransition_cases store env addr subnet
      identified .staticDns .dns with ok | conflict
    · have may := (passes.mp ok).2
      rw [refused] at may
      rcases may with ⟨-, target⟩ | may
      · cases target
      · cases may
    · obtain ⟨failure, refusal, isOne⟩ := conflict
      rw [refusal]
      refine .inl ⟨?_, .inr ⟨failure, rfl, isOne⟩⟩
      rw [if_neg]
      simp only [Bool.or_eq_true, decide_eq_true_eq, not_or]
      exact ⟨not_or.mp allowed, notYet⟩

/-- A gateway gets its name. -/
theorem allocate_gateway_spec {recordName zoneName : Text} {id : Nat} {note : Text}
    (changes : IpStore.stateOf (store.table.lookup ⟨subnet.id, addr, none⟩) = .gateway →
      (store.table.lookup ⟨subnet.id, addr, none⟩).bind (·.info.hostname) ≠
        some (DnsNames.fqdnForRecordName recordName zoneName)) :
    Outcome ⟨subnet.id, addr, none⟩ store
      (allocate .gateway id (DnsNames.fqdnForRecordName recordName zoneName)
        (slotOf (store.table.lookup ⟨subnet.id, addr, none⟩)))
      (do
        let protectedStore ← store.protectTopologyAddress env now subnet.id
            addr .gateway (some note)
        let named ← protectedStore.syncDnsToIp env now recordName addr zoneName
        let (after, _) ← named.upsert env now subnet.id addr
            { detectionSource := some (some .topology) }
        .ok after) := by
  have passes := @assertAllocationTransition_ok_iff store env subnet.id addr
    _ .gateway .topology identified
  have protect : store.protectTopologyAddress env now subnet.id addr .gateway (some note) = (do
      store.assertAllocationTransition env subnet.id addr .gateway .topology
      store.setCanonicalAllocation env now subnet.id addr .gateway (some .topology) none
        { reservationNote := some (some note), detectionSource := some (some .topology) }) := by
    rw [IpStore.protectTopologyAddress, if_neg (by decide)]
  rw [protect, allocate, stateOf_slotOf]
  by_cases allowed : IpStore.stateOf (store.table.lookup ⟨subnet.id, addr, none⟩) = .unassigned ∨
      IpStore.stateOf (store.table.lookup ⟨subnet.id, addr, none⟩) = .gateway
  · have may :
        canTransitionAllocation
        (IpStore.stateOf (store.table.lookup ⟨subnet.id, addr, none⟩)) .gateway .topology =
        true := by
      rcases allowed with state | state <;> rw [state] <;> rfl
    rw [passes.mpr ⟨.inr (.inr (.inl rfl)), .inr may⟩, if_pos (by simpa using allowed)]
    refine .inr ⟨fun same => ?_, fun after done => ?_, fun failure failed => ?_⟩
    · have state := congrArg Slot.stateOf same
      rw [stateOf_slotOf] at state
      refine changes state.symm ?_
      rw [← hostname_slotOf, ← same]
      rfl
    · obtain ⟨protectedStore, owned, done⟩ := bind_eq_ok.mp done
      obtain ⟨-, -, owned⟩ := bind_eq_ok.mp owned
      obtain ⟨named, synced, done⟩ := bind_eq_ok.mp done
      obtain ⟨⟨reached, other⟩, upserted, same⟩ := bind_eq_ok.mp done
      obtain rfl := Except.ok.inj same
      obtain ⟨first, elsewhere⟩ := slot_setCanonicalAllocation rfl owned
      obtain ⟨second, more⟩ := slot_syncDnsToIp leaf synced
      rw [first] at second
      obtain ⟨third, most⟩ := slot_upsert_detection second upserted
      exact ⟨third, (elsewhere.trans more).trans most⟩
    · rcases bind_eq_error.mp failed with first | ⟨protectedStore, -, failed⟩
      · rcases bind_eq_error.mp first with none' | ⟨-, -, failed⟩
        · cases none'
        · exact not_isConflict_setCanonicalAllocation failed
      · rcases bind_eq_error.mp failed with first | ⟨named, -, failed⟩
        · exact not_isConflict_syncDnsToIp first
        · rcases bind_eq_error.mp failed with first | ⟨reached, -, rest⟩
          · exact not_isConflict_upsert first
          · cases rest
  · have refused :
        canTransitionAllocation
        (IpStore.stateOf (store.table.lookup ⟨subnet.id, addr, none⟩)) .gateway .topology =
        false := by
      generalize IpStore.stateOf (store.table.lookup ⟨subnet.id, addr, none⟩) = state at allowed
      cases state <;>
        first | rfl | exact absurd (.inl rfl) allowed | exact absurd (.inr rfl) allowed
    rcases @assertAllocationTransition_cases store env addr subnet
      identified .gateway .topology with ok | conflict
    · have may := (passes.mp ok).2
      rw [refused] at may
      rcases may with ⟨-, target⟩ | may
      · cases target
      · cases may
    · obtain ⟨failure, refusal, isOne⟩ := conflict
      rw [refusal]
      refine .inl ⟨?_, .inr ⟨failure, rfl, isOne⟩⟩
      rw [if_neg]
      simpa using allowed

/-- **A served record takes the address, names the gateway, or is refused**, as the slot says. -/
theorem allocateStaticDns_spec {recordName zoneName : Text} {id : Nat}
    (changes : IpStore.stateOf (store.table.lookup ⟨subnet.id, addr, none⟩) = .gateway ∧
        (store.table.lookup ⟨subnet.id, addr, none⟩).bind (·.info.hostname) ≠
          some (DnsNames.fqdnForRecordName recordName zoneName) ∨
      IpStore.stateOf (store.table.lookup ⟨subnet.id, addr, none⟩) = .unassigned ∨
      IpStore.isDnsHold (store.table.lookup ⟨subnet.id, addr, none⟩) = true) :
    Outcome ⟨subnet.id, addr, none⟩ store
      (allocate (placeOf env subnet.id addr) id (DnsNames.fqdnForRecordName recordName zoneName)
        (slotOf (store.table.lookup ⟨subnet.id, addr, none⟩)))
      (store.allocateStaticDns env now recordName addr zoneName (some id)) := by
  have looked : store.findBySubnetAndIp subnet.id addr =
      .ok (store.table.lookup ⟨subnet.id, addr, none⟩) := by
    rw [IpStore.findBySubnetAndIp, identified]
    rfl
  rw [IpStore.allocateStaticDns, leaf]
  dsimp only
  rw [looked]
  dsimp only [Bind.bind, Except.bind]
  rw [placeOf]
  cases scope : env.findEnabledScopeForIp subnet.id addr with
  | some scopeId => exact .inl ⟨rfl, .inr ⟨_, rfl, rfl⟩⟩
  | none =>
    rw [Option.isSome_none, if_neg (by decide)]
    dsimp only
    have notYet : IpStore.stateOf (store.table.lookup ⟨subnet.id, addr, none⟩) ≠ .staticDns := by
      rcases changes with ⟨state, -⟩ | state | held
      · rw [state]
        decide
      · rw [state]
        decide
      · rw [stateOf_of_isHold held]
        decide
    cases guarded : env.protectedAddress subnet.id addr with
    | none => exact allocate_free_spec leaf identified guarded notYet
    | some protection =>
      dsimp only
      by_cases allowed : protection.dnsNameAllowed = true
      · obtain rfl := state_of_dnsNameAllowed guarded allowed
        rw [if_pos rfl]
        refine allocate_gateway_spec leaf identified fun state => ?_
        rcases changes with ⟨-, differs⟩ | unassigned | held
        · exact differs
        · rw [state] at unassigned
          cases unassigned
        · rw [stateOf_of_isHold held] at state
          cases state
      · rw [if_neg allowed]
        rcases @assertAllocationTransition_cases store env addr subnet identified .staticDns .dns
            with
          ok | ⟨failure, refusal, isOne⟩
        · have passes := (assertAllocationTransition_ok_iff identified).mp ok
          rw [guarded] at passes
          rcases passes.1 with target | target | target | target <;> cases target
        · refine .inl ⟨rfl, .inr ⟨failure, ?_, isOne⟩⟩
          split
          · rename_i same
            obtain rfl := Option.some.inj same
            exact absurd rfl allowed
          · rw [refusal]

end Identified

end Settling

/-! ## Entries -/

theorem free_iff {env : Env} {subnetId : Nat} {addr : Addr} : placeOf env subnetId addr = .free ↔
    env.protectedAddress subnetId addr = none ∧ env.findEnabledScopeForIp subnetId addr = none := by
  rw [placeOf]
  cases env.findEnabledScopeForIp subnetId addr <;> cases env.protectedAddress subnetId
    addr <;> simp
  split <;> simp

section Entries

variable {claims : Claims} {entry other : Entry} {addr : Addr}

/-- The valid records of a text, by their ids. -/
def mine (claims : Claims) (ip : Text) : List AddressRecord :=
  (claims.claimed.filter fun record => (addressToBig record.value).isSome).filter (·.value = ip)

theorem mem_mine {ip : Text} {record : AddressRecord} : record ∈ mine claims ip ↔
    record ∈ claims.records ∧ claims.isClaim record = true ∧
      (addressToBig record.value).isSome = true ∧ record.value = ip := by
  rw [mine, List.mem_filter, List.mem_filter, Claims.claimed, List.mem_mergeSort, List.mem_filter,
    decide_eq_true_eq, and_assoc, and_assoc]

theorem mem_entries : entry ∈ entries claims ↔
    (mine claims entry.ip).head? = some entry.first ∧ entry.served = (mine claims entry.ip).find?
    claims.isServed := by
  rw [entries, List.mem_filterMap]
  constructor
  · rintro ⟨ip, -, made⟩
    obtain ⟨first, found, rfl⟩ := Option.map_eq_some_iff.mp made
    exact ⟨found, rfl⟩
  · rintro ⟨first, served⟩
    have member := mem_mine.mp (List.mem_of_mem_head? first)
    refine ⟨entry.ip, List.mem_eraseDups.mpr (List.mem_map.mpr ⟨entry.first, ?_, member.2.2.2⟩), ?_⟩
    · exact (List.mem_filter.mp (List.mem_of_mem_head? first)).1
    · change ((mine claims entry.ip).head?.map fun first =>
        (⟨entry.ip, first, (mine claims entry.ip).find? claims.isServed⟩ : Entry)) = some entry
      rw [first, Option.map_some, ← served]

theorem first_mem (member : entry ∈ entries claims) : entry.first ∈ mine claims entry.ip :=
  List.mem_of_mem_head? (mem_entries.mp member).1

theorem first_le (member : entry ∈ entries claims) {record : AddressRecord}
    (listed : record ∈ mine claims entry.ip) : entry.first.id ≤ record.id := by
  have sorted : (mine claims entry.ip).Pairwise (·.id ≤ ·.id) := by
    have whole : claims.claimed.Pairwise fun left right => decide (left.id ≤ right.id) = true :=
      List.pairwise_mergeSort (fun a b c first second => by simp at first second ⊢; omega)
        (fun a b => by simp; omega) _
    have plain := whole.imp fun le => of_decide_eq_true le
    exact (plain.filter _).filter _
  obtain ⟨first, -⟩ := mem_entries.mp member
  obtain ⟨rest, split⟩ := List.head?_eq_some_iff.mp first
  rw [split] at sorted listed
  rcases List.mem_cons.mp listed with rfl | later
  · exact le_rfl
  · exact (List.pairwise_cons.mp sorted).1 record later

theorem mem_holders {ip : Text} (valid : (addressToBig ip).isSome = true) {record : DnsRecord} :
    (record ∈ (claims.envAt ip addr).records.filter fun record =>
      (claims.envAt ip addr).names addr record && !(claims.envAt ip addr).isServed record) ↔
    ∃ written ∈ mine claims ip, claims.isServed written = false ∧ record = written.of addr := by
  rw [List.mem_filter, Bool.and_eq_true, Bool.not_eq_true']
  change record ∈ (claims.records.filter (·.value = ip)).map (·.of addr) ∧ _ ↔ _
  rw [List.mem_map]
  constructor
  · rintro ⟨⟨written, listed, rfl⟩, named, idle⟩
    obtain ⟨member, text⟩ := List.mem_filter.mp listed
    rw [decide_eq_true_eq] at text
    rw [Env.names, Bool.and_eq_true, Bool.and_eq_true] at named
    exact ⟨written, mem_mine.mpr ⟨member, Bool.and_eq_true_iff.mpr ⟨named.1.2, named.2⟩,
      text ▸ valid, text⟩, idle, rfl⟩
  · rintro ⟨written, listed, idle, rfl⟩
    obtain ⟨member, claim, -, text⟩ := mem_mine.mp listed
    obtain ⟨manual, forward⟩ := Bool.and_eq_true_iff.mp claim
    refine ⟨⟨written, List.mem_filter.mpr ⟨member, decide_eq_true text⟩, rfl⟩, ?_, idle⟩
    rw [Env.names, Bool.and_eq_true, Bool.and_eq_true]
    exact ⟨⟨decide_eq_true rfl, manual⟩, forward⟩

/-- **The record that holds a free address** is the first one of its text, when none is served. -/
theorem holding_of_entry (member : entry ∈ entries claims) (unserved : entry.served = none)
    {subnetId : Nat} (free : placeOf claims.env subnetId addr = .free) :
    ∃ record, IpStore.dnsHoldingRecord (claims.envAt entry.ip addr) subnetId addr = some record ∧
      record.id = entry.first.id := by
  obtain ⟨unguarded, unpooled⟩ := free_iff.mp free
  obtain ⟨-, -, valid, text⟩ := mem_mine.mp (first_mem member)
  rw [text] at valid
  have idle : claims.isServed entry.first = false := by
    have none' := (mem_entries.mp member).2
    rw [unserved] at none'
    simpa using List.find?_eq_none.mp none'.symm entry.first (first_mem member)
  have candidate := (@mem_holders claims addr entry.ip valid _).mpr
    ⟨entry.first, first_mem member, idle, rfl⟩
  obtain ⟨record, found⟩ :=
    Option.isSome_iff_exists.mp (lowest_isSome (List.ne_nil_of_mem candidate))
  obtain ⟨chosen, least⟩ := lowest_spec found
  refine ⟨record, ?_, le_antisymm (least _ candidate) ?_⟩
  · rw [IpStore.dnsHoldingRecord]
    change (if (claims.env.protectedAddress subnetId addr).isSome = true then none
      else if (claims.env.findEnabledScopeForIp subnetId addr).isSome = true then none else _) = _
    rw [unguarded, unpooled, if_neg (by decide), if_neg (by decide)]
    exact found
  · obtain ⟨written, listed, -, rfl⟩ := (mem_holders valid).mp chosen
    exact first_le member listed

theorem holding_of_taken {ip : Text} {subnetId : Nat}
    (taken : placeOf claims.env subnetId addr ≠ .free) :
    IpStore.dnsHoldingRecord (claims.envAt ip addr) subnetId addr = none := by
  rw [IpStore.dnsHoldingRecord]
  change (if (claims.env.protectedAddress subnetId addr).isSome = true then none
    else if (claims.env.findEnabledScopeForIp subnetId addr).isSome = true then none else _) = _
  split_ifs with guarded pooled
  · rfl
  · rfl
  · exact absurd (free_iff.mpr ⟨by simpa using guarded, by simpa using pooled⟩) taken

/-- **What a round does at its address**: what its claimant wants of the slot. -/
theorem settle_spec {store : IpStore} {now : Nat} {subnet : SubnetRow}
    (member : entry ∈ entries claims) (leaf : claims.env.findSubnetForIp addr = some subnet)
    (identified : identityKey subnet.id addr = .ok ⟨subnet.id, addr, none⟩) :
    Outcome ⟨subnet.id, addr, none⟩ store
      (act (placeOf claims.env subnet.id addr) (entry.claimant claims)
        (slotOf (store.table.lookup ⟨subnet.id, addr, none⟩)))
      (settle claims now store entry addr (store.table.lookup ⟨subnet.id, addr, none⟩)) := by
  rw [settle]
  cases chosen : entry.served with
  | none =>
    have unserved : (entry.claimant claims).served = none := by rw [Entry.claimant, chosen]; rfl
    exact @reconcileDnsHold_spec _ (claims.envAt entry.ip addr) _ _ _ leaf identified _ unserved
      (holding_of_entry member chosen) holding_of_taken
  | some served =>
    have wants : (entry.claimant claims).served = some (served.id, claims.fqdn served) := by
      rw [Entry.claimant, chosen]
      rfl
    rw [act, wants]
    dsimp only
    rw [stateOf_slotOf, isHold_slotOf, hostname_slotOf]
    split_ifs with gateway differs claimable
    · exact @allocateStaticDns_spec _ (claims.envAt entry.ip addr) _ _ _ leaf identified _ _ _
        (.inl ⟨gateway, differs⟩)
    · exact .inl ⟨rfl, .inl rfl⟩
    · refine @allocateStaticDns_spec _ (claims.envAt entry.ip addr) _ _ _ leaf identified _
        _ _ (.inr ?_)
      simpa using claimable
    · exact .inl ⟨rfl, .inl rfl⟩

end Entries

/-! ## Runs -/

/-- The row an entry is about, if the pass looks at it. -/
def Entry.target (claims : Claims) (only : Option Nat) (entry : Entry) : Option IpKey := do
  let addr ← addressToBig entry.ip
  let subnet ← claims.env.findSubnetForIp addr
  if only.any (· ≠ subnet.id) then none else some ⟨subnet.id, addr, none⟩

/-- What an entry does to a slot. -/
def Entry.act (claims : Claims) (own : IpKey) (entry : Entry) (slot : Option Slot) : Option Slot :=
  Adoption.act (placeOf claims.env own.subnetId own.addr) (entry.claimant claims) slot

section Runs

variable {claims : Claims} {now later : Nat} {only : Option Nat}

/-- A slot that is written has changed in what `changed` compares. -/
theorem visible_ne {place : Place} {claimant : Claimant} {before after : Option IpRow}
    (written : slotOf after = act place claimant (slotOf before))
    (changes : act place claimant (slotOf before) ≠ slotOf before) :
    visible before ≠ visible after := by
  have shown : ∀ row, visible row = (slotOf row).map fun slot =>
      (slot.state, slot.sourceId, slot.hostname) := by
    intro row
    cases row <;> rfl
  rw [shown, shown, written]
  generalize slotOf before = slot at changes
  obtain same | ⟨next, made, differs⟩ := act_cases place claimant slot
  · exact absurd same changes
  · rw [made]
    cases slot with
    | none => nofun
    | some old =>
      intro equal
      have columns := Option.some.inj equal
      rcases differs with state | source | name
      · exact state (congrArg Prod.fst columns).symm
      · exact source (congrArg (·.2.1) columns).symm
      · exact name (congrArg (·.2.2) columns).symm

theorem target_eq_some {entry : Entry} {own : IpKey} : entry.target claims only = some own ↔
    ∃ addr subnet, addressToBig entry.ip = some addr ∧ claims.env.findSubnetForIp addr =
      some subnet ∧ ¬(only.any (· ≠ subnet.id)) = true ∧ own = ⟨subnet.id, addr, none⟩ := by
  rw [Entry.target, Option.bind_eq_bind, Option.bind_eq_some_iff]
  simp only [Option.bind_eq_bind, Option.bind_eq_some_iff]
  constructor
  · rintro ⟨addr, parsed, subnet, leaf, kept⟩
    split_ifs at kept with filtered
    exact ⟨addr, subnet, parsed, leaf, filtered, (Option.some.inj kept).symm⟩
  · rintro ⟨addr, subnet, parsed, leaf, filtered, rfl⟩
    exact ⟨addr, parsed, subnet, leaf, if_neg filtered⟩

theorem reconcileEntry_of_target {progress : Progress} {entry : Entry} {own : IpKey}
    (targeted : entry.target claims only = some own) :
    reconcileEntry claims now only progress entry = (do
      let before ← progress.store.findBySubnetAndIp own.subnetId own.addr
      match settle claims now progress.store entry own.addr before with
      | .error failure =>
        if isConflict failure then
          .ok { progress with
            checked := progress.checked + 1
            conflicts := progress.conflicts ++
              [⟨entry.ip, (entry.served.getD entry.first).id, failure⟩] }
        else .error failure
      | .ok store => do
          let after ← store.findBySubnetAndIp own.subnetId own.addr
          .ok { progress with
            store
            checked := progress.checked + 1
            changed := if visible before ≠ visible after then progress.changed + 1
                else progress.changed }) := by
  obtain ⟨addr, subnet, parsed, leaf, filtered, rfl⟩ := target_eq_some.mp targeted
  rw [reconcileEntry, parsed]
  dsimp only
  rw [leaf]
  dsimp only
  rw [if_neg filtered]

theorem identified_of_done {progress after : Progress} {entry : Entry} {own : IpKey}
    (targeted : entry.target claims only = some own)
    (done : reconcileEntry claims now only progress entry = .ok after) :
    identityKey own.subnetId own.addr = .ok own := by
  rw [reconcileEntry_of_target targeted] at done
  obtain ⟨before, found, -⟩ := bind_eq_ok.mp done
  obtain ⟨key, identified, -⟩ := bind_eq_ok.mp found
  obtain ⟨addr, subnet, -, -, -, rfl⟩ := target_eq_some.mp targeted
  obtain rfl := identityKey_addr identified
  exact identified

/-- What a round makes of the row it looks at. -/
theorem reconcileEntry_spec {progress : Progress} {entry : Entry} {own : IpKey}
    (listed : entry ∈ entries claims) (targeted : entry.target claims only = some own)
    (identified : identityKey own.subnetId own.addr = .ok own) :
    let slot := slotOf (progress.store.table.lookup own)
    (entry.act claims own slot = slot → ∃ after, reconcileEntry claims now only progress
      entry = .ok after ∧ after.store = progress.store ∧ after.changed = progress.changed) ∧
    (entry.act claims own slot ≠ slot → ∀ after, reconcileEntry claims now only progress
      entry = .ok after → slotOf (after.store.table.lookup own) = entry.act claims own slot ∧
      Elsewhere own progress.store after.store ∧ after.changed = progress.changed + 1) := by
  have shape := @reconcileEntry_of_target claims now only progress entry own targeted
  obtain ⟨addr, subnet, parsed, leaf, -, rfl⟩ := target_eq_some.mp targeted
  have looked : ∀ store : IpStore, store.findBySubnetAndIp subnet.id addr =
      .ok (store.table.lookup ⟨subnet.id, addr, none⟩) := fun store => by
    rw [IpStore.findBySubnetAndIp, identified]
    rfl
  dsimp only at shape identified ⊢
  simp only [looked] at shape
  change _ = (match settle claims now progress.store entry addr _ with
    | .error failure => _
    | .ok store => _) at shape
  rw [Entry.act]
  dsimp only
  have outcome := @settle_spec claims entry addr progress.store now subnet listed leaf identified
  generalize settle claims now progress.store entry addr
    (progress.store.table.lookup ⟨subnet.id, addr, none⟩) = result at shape outcome
  rcases outcome with ⟨same, stays⟩ | ⟨differs, done, failed⟩
  · refine ⟨fun _ => ?_, fun busy => absurd same busy⟩
    rcases stays with rfl | ⟨failure, rfl, conflict⟩
    · exact ⟨_, shape, rfl, if_neg fun changes => changes rfl⟩
    · dsimp only at shape
      rw [if_pos conflict] at shape
      exact ⟨_, shape, rfl, rfl⟩
  · refine ⟨fun idle => absurd idle differs, fun _ after ran => ?_⟩
    cases result with
    | error failure =>
      dsimp only at shape
      rw [failed failure rfl, if_neg (by decide)] at shape
      rw [shape] at ran
      cases ran
    | ok store =>
      obtain ⟨written, elsewhere⟩ := done store rfl
      obtain rfl := Except.ok.inj (shape.symm.trans ran)
      exact ⟨written, elsewhere, if_pos (visible_ne written differs)⟩

/-- **A round settles the slot of its entry.** -/
theorem settlesAt : SettlesAt (· ∈ entries claims)
    (fun entry => ∀ own, entry.target claims only = some own →
    identityKey own.subnetId own.addr = .ok own) Progress.store
    (fun store own => slotOf (store.table.lookup own)) Progress.changed
    (reconcileEntry claims now only) (Entry.target claims only) (Entry.act claims) where
  able := by
    intro progress entry after listed done own targeted
    exact identified_of_done targeted done
  aside := by
    intro progress entry listed untargeted
    refine ⟨progress, ?_, rfl, rfl⟩
    rw [reconcileEntry]
    split
    · rfl
    · split
      · rfl
      · rename_i _ addr parsed _ subnet leaf
        by_contra reached
        have targeted := @target_eq_some claims only entry ⟨subnet.id, addr, none⟩
        rw [untargeted] at targeted
        refine absurd (targeted.mpr ⟨addr, subnet, parsed, leaf, fun filtered => reached ?_, rfl⟩)
          (by nofun)
        rw [if_pos filtered]
  still := by
    intro progress entry own listed able targeted idle
    exact (reconcileEntry_spec listed targeted (able own targeted)).1 idle
  writes := by
    intro progress entry own after listed targeted busy done
    obtain ⟨written, elsewhere, counted⟩ :=
      (reconcileEntry_spec listed targeted (identified_of_done targeted done)).2 busy after done
    exact ⟨written, elsewhere.slots, counted⟩

/-- What the second run has to leave as it is. -/
def columns (row : IpRow) : AllocationState × Option LifecycleSource × Option Nat × Option Text ×
    Option DetectionSource :=
  (row.info.allocationState, row.info.allocationSourceType, row.info.allocationSourceId,
    row.info.hostname, row.info.detectionSource)

/-- A row the pass must not touch: DHCP's, topology's own, a static DNS allocation or an IP
Reservation. -/
def IsOwned (info : IpInfo) : Prop :=
  info.allocationState = .staticDhcp ∨ info.allocationState = .dynamicDhcp ∨
    info.allocationState = .slaac ∨ info.allocationState = .system ∨
    info.allocationState = .staticDns ∨ info.allocationState = .reserved ∧
    info.allocationSourceType ≠ some .dns

/-- The rows that something else owns are left. -/
def KeepsOwned (before after : IpStore) : Prop :=
  ∀ key row, CanonicalKey key → before.table.lookup key = some row → IsOwned row.info →
    after.table.lookup key = some row

/-- The claimants of a row. -/
def claimantsOf (claims : Claims) (only : Option Nat) (own : IpKey) : List Claimant :=
  ((entries claims).filter (·.target claims only = some own)).map (·.claimant claims)

/-- A second pass changes nothing, and neither pass touches what something else owns. -/
structure Converges (claims : Claims) (later : Nat) (only : Option Nat) (store after : IpStore) :
    Prop where
  again : ∃ second, reconcileStaticDnsAllocations claims later only after = .ok second ∧
    second.changed = 0 ∧ ∀ key, (second.store.table.lookup key).map columns =
    (after.table.lookup key).map columns
  kept : KeepsOwned store after
  keptAgain : ∀ second, reconcileStaticDnsAllocations claims later only after = .ok second →
    KeepsOwned after second.store

theorem act_of_isOwned {row : IpRow} (owned : IsOwned row.info) (place : Place)
    (claimant : Claimant) :
    act place claimant (slotOf (some row)) = slotOf (some row) := by
  have state : Slot.stateOf (slotOf (some row)) = row.info.allocationState := rfl
  have held : Slot.isHold (slotOf (some row)) = true ↔
      row.info.allocationState = .reserved ∧ row.info.allocationSourceType = some .dns :=
      isHold_some
  refine act_owned ?_ ?_ fun _ => ?_
  · rw [state]
    rcases owned with is | is | is | is | is | ⟨is, -⟩ <;> rw [is] <;> decide
  · rw [← Bool.not_eq_true, held]
    rintro ⟨reserved, dns⟩
    rcases owned with is | is | is | is | is | ⟨-, other⟩
    all_goals first
      | exact other dns
      | (rw [is] at reserved; cases reserved)
  · rw [state]
    rcases owned with is | is | is | is | is | ⟨is, -⟩ <;> rw [is] <;> decide

theorem eq_of_canonicalKey {own key : IpKey} (plain : own.interfaceId = none)
    (identified : identityKey own.subnetId own.addr = .ok own) (canonical : CanonicalKey key)
    (subnet : key.subnetId = own.subnetId) (addr : key.addr = own.addr) : key = own := by
  obtain ⟨_, allowed, -⟩ := bind_eq_ok.mp identified
  obtain ⟨_, there, -⟩ := bind_eq_ok.mp canonical
  have shape := identityKey_eq_ok canonical
  simp only [canonicalIdentity] at allowed there
  have global : own.addr.isV6LinkLocal = false := by
    by_contra link
    rw [Bool.not_eq_false] at link
    rw [link] at allowed
    cases allowed
  rw [addr, global] at there
  have bare : truthy (key.interfaceId.map trim) = none := by
    split_ifs at there with invalid link named
    simpa using named
  rw [bare] at shape
  rw [shape, subnet, addr]
  cases own
  cases plain
  rfl

/-- A round leaves what something else owns. -/
theorem keepsOwned_of_round {progress after : Progress} {entry : Entry}
    (listed : entry ∈ entries claims) (done : reconcileEntry claims now only progress entry = .ok
    after) : KeepsOwned progress.store after.store := by
  intro key row canonical found owned
  cases targeted : entry.target claims only with
  | none =>
    obtain ⟨same, first, kept, -⟩ := settlesAt.aside progress entry listed targeted
    obtain rfl := Except.ok.inj (first.symm.trans done)
    rw [kept]
    exact found
  | some own =>
    have identified := identified_of_done targeted done
    have spec := @reconcileEntry_spec claims now only progress entry own listed targeted identified
    by_cases idle : entry.act claims own (slotOf (progress.store.table.lookup own)) =
        slotOf (progress.store.table.lookup own)
    · obtain ⟨same, first, kept, -⟩ := spec.1 idle
      obtain rfl := Except.ok.inj (first.symm.trans done)
      rw [kept]
      exact found
    · obtain ⟨-, elsewhere, -⟩ := spec.2 idle after done
      have apart : key ≠ own := by
        rintro rfl
        rw [found] at idle
        exact idle (act_of_isOwned owned _ _)
      refine (elsewhere.rows key ?_).trans found
      by_contra both
      rw [not_or, not_not, not_not] at both
      obtain ⟨_, _, _, _, _, plain⟩ := target_eq_some.mp targeted
      exact apart (eq_of_canonicalKey (by rw [plain]) identified canonical both.1 both.2)

/-- **A pass leaves what something else owns.** -/
theorem keepsOwned {store : IpStore} {first : Progress}
    (returned : reconcileStaticDnsAllocations claims now only store = .ok first) :
    KeepsOwned store first.store := by
  refine @foldlM_invariant _ _ _ (fun progress => KeepsOwned store progress.store) _ _ _
    _ ?_ returned fun key row _ found _ => found
  intro entry listed before after kept done key row canonical found owned
  exact keepsOwned_of_round listed done key row canonical (kept key row canonical found owned) owned

theorem agree_claimantsOf_iff {own : IpKey} {slot : Option Slot} :
    (∀ entry ∈ (entries claims).filter (·.target claims only = some own),
      entry.act claims own (((entries claims).filter (·.target claims only = some own)).foldl
          (fun slot entry => entry.act claims own slot) slot) =
        ((entries claims).filter (·.target claims only = some own)).foldl
          (fun slot entry => entry.act claims own slot) slot) ↔
      Agree (placeOf claims.env own.subnetId own.addr) slot (claimantsOf claims only own) := by
  have whole : ((entries claims).filter (·.target claims only = some own)).foldl
      (fun slot entry => entry.act claims own slot) slot =
        settled (placeOf claims.env own.subnetId own.addr) slot (claimantsOf claims only own) := by
    rw [settled, claimantsOf, List.foldl_map]
    rfl
  rw [← agree_iff, whole]
  constructor
  · intro fixed claimant member
    obtain ⟨entry, within, rfl⟩ := List.mem_map.mp member
    exact fixed entry within
  · exact fun fixed entry within => fixed _ (List.mem_map_of_mem within)

/-- **The pass converges exactly when the records of every address agree** about what they find. -/
theorem reconcile_converges_iff {store : IpStore} {first : Progress}
    (returned : reconcileStaticDnsAllocations claims now only store = .ok first) :
    Converges claims later only store first.store ↔ ∀ own,
      Agree (placeOf claims.env own.subnetId own.addr) (slotOf (store.table.lookup own))
      (claimantsOf claims only own) := by
  have settlesAgain := @settlesAt claims later only
  have listed : ∀ entry ∈ entries claims, entry ∈ entries claims := fun _ => id
  have still := (@settlesAt claims now only).rerun_still_iff settlesAgain listed returned
    (show Progress.store { store := first.store } = first.store from rfl)
  refine Iff.trans ?_ (still.trans (forall_congr' fun own => agree_claimantsOf_iff))
  constructor
  · rintro ⟨⟨second, ran, quiet, -⟩, -, -⟩
    exact ⟨second, ran, quiet⟩
  · rintro ⟨second, ran, quiet⟩
    have same := (settlesAgain.idle_of_count_eq listed ran quiet).2
    refine ⟨⟨second, ran, quiet, fun key => ?_⟩, keepsOwned returned,
      fun other done => keepsOwned done⟩
    rw [same]

/-- A served record of the office's zone. -/
def officeRecord (id : Nat) (name value : Text) : AddressRecord where
  id := id
  zoneId := 1
  name := name
  value := value
  enabled := true
  source := some .manual

/-- Two records of the office's gateway, one of them with a padded octet. -/
def officeClaims : Claims where
  env := { officeEnv with zones := [⟨1, "office.lan".toList, true, true⟩] }
  records := [officeRecord 1 "router".toList "10.0.0.1".toList,
    officeRecord 2 "gw".toList "10.0.0.01".toList]
  ids := by decide

theorem claimed_office : officeClaims.claimed = officeClaims.records := by
  have every : officeClaims.records.filter officeClaims.isClaim = officeClaims.records := by decide
  rw [Claims.claimed, every]
  exact List.mergeSort_of_pairwise (by decide)

theorem entries_office : entries officeClaims =
    [⟨"10.0.0.1".toList, officeRecord 1 "router".toList "10.0.0.1".toList,
        some (officeRecord 1 "router".toList "10.0.0.1".toList)⟩,
      ⟨"10.0.0.01".toList, officeRecord 2 "gw".toList "10.0.0.01".toList,
        some (officeRecord 2 "gw".toList "10.0.0.01".toList)⟩] := by
  rw [entries, claimed_office]
  decide

theorem isOk_office : (reconcileStaticDnsAllocations officeClaims 1 none .empty).isOk = true := by
  rw [reconcileStaticDnsAllocations, entries_office]
  decide

/-- The gateway's record alone. -/
def routerClaims : Claims where
  env := officeClaims.env
  records := [officeRecord 1 "router".toList "10.0.0.1".toList]
  ids := by decide

theorem entries_router : entries routerClaims =
    [⟨"10.0.0.1".toList, officeRecord 1 "router".toList "10.0.0.1".toList,
      some (officeRecord 1 "router".toList "10.0.0.1".toList)⟩] := by
  have every : routerClaims.records.filter routerClaims.isClaim = routerClaims.records := by decide
  have claimed : routerClaims.claimed = routerClaims.records := by
    rw [Claims.claimed, every]
    exact List.mergeSort_of_pairwise (by decide)
  rw [entries, claimed]
  decide

theorem agree_of_length_le_one {place : Place} {claimants : List Claimant}
    (alone : claimants.length ≤ 1) :
    Agree place none claimants := by
  have same : ∀ first ∈ claimants, ∀ second ∈ claimants, first = second := by
    match claimants, alone with
    | [], _ => nofun
    | [claimant], _ => simp
  cases place with
  | pooled => trivial
  | system => trivial
  | free => exact fun _ _ first member second other =>
      congrArg Claimant.holder (same first member second other)
  | gateway =>
    refine ⟨fun _ first member second other one serves one' serves' => ?_, nofun⟩
    rw [same first member second other, serves'] at serves
    rw [Option.some.inj serves]

theorem reconcile_converges_iff_office : ∃ first,
    reconcileStaticDnsAllocations routerClaims 1 none .empty = .ok first ∧ first.changed = 1 ∧
      Converges routerClaims 2 none .empty first.store := by
  have counted : (reconcileStaticDnsAllocations routerClaims 1 none .empty).toOption.map
      Progress.changed = some 1 := by
    rw [reconcileStaticDnsAllocations, entries_router]
    decide
  cases returned : reconcileStaticDnsAllocations routerClaims 1 none .empty with
  | error failure =>
    rw [returned] at counted
    cases counted
  | ok first =>
    rw [returned] at counted
    refine ⟨first, rfl, Option.some.inj counted, (reconcile_converges_iff returned).mpr
      fun own => ?_⟩
    refine agree_of_length_le_one ?_
    rw [claimantsOf, List.length_map, entries_router]
    exact List.length_filter_le _ _

/-- **Each spelling of the gateway gives it its own name, in every pass.** -/
theorem padded_octet_renames_every_pass : ∃ first,
    reconcileStaticDnsAllocations officeClaims 1 none .empty = .ok first ∧
      ¬ Converges officeClaims 2 none .empty first.store := by
  have returned := eq_ok_of_isOk { store := .empty } isOk_office
  refine ⟨_, returned, fun converges => ?_⟩
  obtain ⟨second, ran, quiet, -⟩ := converges.again
  have counted :
      ((reconcileStaticDnsAllocations officeClaims 1 none .empty).toOption.bind fun first =>
      (reconcileStaticDnsAllocations officeClaims 2 none first.store).toOption.map
      Progress.changed) = some 2 := by
    simp only [reconcileStaticDnsAllocations, entries_office]
    decide
  rw [returned] at counted
  change ((reconcileStaticDnsAllocations officeClaims 2 none _).toOption.map Progress.changed) =
    some 2 at counted
  rw [ran] at counted
  have two : second.changed = 2 := Option.some.inj counted
  omega

end Runs

end Adoption

end Cidrella
