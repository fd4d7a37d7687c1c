import Cidrella.PdnsServed

/-!
# The zones there should be are acceptable

A zone that Authoritative accepts has its rrsets at or below its name, one `SOA`, at most
one `PTR` at a name, no other data beside a `CNAME`, and contents in order and without
repeats. The zones of the rows are so by the filter on their records.

The `PTR`s made afterwards do not pass that filter. They are put into the zone that covers
them, and where that zone serves a `CNAME` at the same name the result is refused. That is
the one way to fail (`desiredZones_acceptable_iff`).
-/

set_option autoImplicit false

namespace Cidrella

open Address DnsNames Text

namespace Pdns

/-! ## Names of hosts -/

/-- A name of labels as they are stored, none of them a wildcard. -/
def HostText (name : Text) : Prop := ∀ label ∈ name.splitOn '.', isLabelText label = true ∧
    label ≠ ['*']

/-- A letter of a label. -/
def isLabelChar (c : Char) : Bool := isLabelEnd c || c = '-' || c = '*'

theorem isLabelChar_plain {c : Char} (allowed : isLabelChar c = true) :
    c.toLower = c ∧ isTrimmed c = false := by
  have ascii : c.toNat < 128 := by
    simp only [isLabelChar, isLabelEnd, Char.isDigit, Bool.or_eq_true, Bool.and_eq_true,
      decide_eq_true_eq] at allowed
    rcases allowed with (((⟨-, high⟩ | ⟨-, high⟩) | rfl) | rfl) | rfl
    · exact lt_of_le_of_lt (show c.toNat ≤ 122 from high) (by decide)
    · exact lt_of_le_of_lt (show c.toNat ≤ 57 from high) (by decide)
    · decide
    · decide
    · decide
  have all : ∀ n : Fin 128, isLabelChar (Char.ofNat n) = true →
      (Char.ofNat n).toLower = Char.ofNat n ∧ isTrimmed (Char.ofNat n) = false := by decide
  have this := all ⟨c.toNat, ascii⟩
  rw [Char.ofNat_toNat] at this
  exact this allowed

theorem isLabelText_chars {label : Text} (valid : isLabelText label = true) :
    label ≠ [] ∧ ∀ c ∈ label, isLabelChar c = true := by
  rw [isLabelText, Bool.or_eq_true, decide_eq_true_eq] at valid
  rcases valid with rfl | valid
  · exact ⟨List.cons_ne_nil _ _, List.forall_mem_singleton.mpr rfl⟩
  · simp only [Bool.and_eq_true, decide_eq_true_eq, List.all_eq_true] at valid
    obtain ⟨⟨⟨⟨long, -⟩, letters⟩, -⟩, -⟩ := valid
    exact ⟨List.length_pos_iff.mp long, fun c member => Bool.or_eq_true_iff.mpr
      (.inl (letters c member))⟩

namespace HostText

variable {name : Text}

theorem chars (host : HostText name) : ∀ c ∈ name, c = '.' ∨ isLabelChar c = true := by
  intro c member
  rw [← @List.intercalate_splitOn _ name _ _ '.'] at member
  rcases mem_intercalate_singleton member with dot | ⟨label, listed, inside⟩
  · exact .inl dot
  · exact .inr ((isLabelText_chars (host label listed).1).2 c inside)

theorem normalize (host : HostText name) : normalizeDnsName name = name := by
  have plain : ∀ c ∈ name, c.toLower = c ∧ isTrimmed c = false := fun c member => by
    rcases host.chars c member with rfl | letter
    · decide
    · exact isLabelChar_plain letter
  have solid : endsWith name ['.'] = false := by
    rw [Bool.eq_false_iff]
    intro ends
    obtain ⟨front, rfl⟩ := endsWith_iff.mp ends
    have last : [] ∈ (front ++ '.' :: []).splitOn '.' := by
      rw [List.splitOn_append_cons_self, List.splitOn_nil]
      exact List.mem_append_right _ List.mem_cons_self
    exact (isLabelText_chars (host [] last).1).1 rfl
  rw [normalizeDnsName, trim_eq_self fun c member => (plain c member).2, dropFinalDot_eq_self solid]
  exact toLowerCase_eq_self fun c member => (plain c member).1

theorem absolute (host : HostText name) (short : name.length ≤ 253) :
    absoluteName name = some (name ++ ['.']) := by
  have some' : name ≠ [] := by
    rintro rfl
    exact (isLabelText_chars (host [] (by simp)).1).1 rfl
  rw [absoluteName, host.normalize]
  dsimp only
  rw [if_neg (by simpa using ⟨some', short⟩), if_pos]
  rw [Bool.and_eq_true, List.all_eq_true, List.all_eq_true]
  exact ⟨fun label member => (host label member).1,
    fun label member => decide_eq_true (host label (List.mem_of_mem_tail member)).2⟩

theorem of_inZone {zone : Text} (host : HostText name)
    (inside : inZone (name ++ ['.']) (zone ++ ['.']) = true) :
    HostText zone ∧ zone.length ≤ name.length := by
  rcases inZone_iff.mp inside with same | ⟨front, joined⟩
  · rw [List.append_cancel_right_eq] at same
    exact ⟨same ▸ host, same ▸ le_rfl⟩
  · have whole : front ++ '.' :: zone = name := by
      rw [← List.append_cancel_right_eq (front ++ '.' :: zone) ['.'] name, ← joined]
      simp
    rw [← whole] at host ⊢
    refine ⟨fun label member => host label ?_, by simp; omega⟩
    rw [List.splitOn_append_cons_self]
    exact List.mem_append_right _ member

end HostText

theorem host_labels (family : Family) (value : Nat) : ∀ label ∈ family.labels value,
    isLabelText label = true ∧ label ≠ ['*'] ∧ label.length ≤ 3 := by
  intro label member
  obtain ⟨part, listed, rfl⟩ := List.mem_map.mp member
  cases family with
  | v4 =>
    have all : ∀ part : Fin 256, isLabelText (Nat.toDigits 10 part) = true ∧
        Nat.toDigits 10 part ≠ ['*'] ∧ (Nat.toDigits 10 part).length ≤ 3 := by decide +kernel
    exact all ⟨part, lt_of_mem_groups listed⟩
  | v6 =>
    have all : ∀ part : Fin 16, isLabelText (Nat.toDigits 16 part) = true ∧
        Nat.toDigits 16 part ≠ ['*'] ∧ (Nat.toDigits 16 part).length ≤ 3 := by decide
    exact all ⟨part, lt_of_mem_groups listed⟩

theorem length_dotted {labels : List Text} (short : ∀ label ∈ labels, label.length ≤ 3) :
    (Dns.dotted labels).length ≤ 4 * labels.length := by
  induction labels with
  | nil => simp [Dns.dotted]
  | cons label labels ih =>
    have first := short label List.mem_cons_self
    have rest := ih fun other member => short other (List.mem_cons_of_mem _ member)
    cases labels with
    | nil =>
      simp [Dns.dotted] at rest ⊢
      omega
    | cons next labels =>
      simp [Dns.dotted, List.intercalate_cons_cons] at rest ⊢
      omega

/-- **A reverse name is a name of a host**, short enough to be absolute. -/
theorem host_reverseNameOf {address reverse : Text}
    (named : Dns.reverseNameOf address = some reverse) :
    HostText reverse ∧ reverse.length ≤ 253 := by
  rw [Dns.reverseNameOf_eq] at named
  obtain ⟨addr, -, rfl⟩ := Option.map_eq_some_iff.mp named
  have valid := host_labels addr.family addr.value
  have count := Family.length_labels addr.family addr.value
  have some' : (addr.family.labels addr.value).reverse ≠ [] := by
    intro none
    rw [List.reverse_eq_nil_iff.mp none] at count
    cases family : addr.family <;> rw [family] at count <;> cases count
  have ending : ∀ label ∈ addr.family.arpa.tail.splitOn '.', isLabelText label = true ∧
      label ≠ ['*'] := by
    cases addr.family <;> decide
  have dot : addr.family.arpa = '.' :: addr.family.arpa.tail := by cases addr.family <;> rfl
  constructor
  · intro label member
    rw [dot, List.splitOn_append_cons_self, List.mem_append] at member
    rcases member with front | back
    · rw [Dns.splitOn_dotted (fun label listed => Family.isLabel_of_mem_labels label
        (List.mem_reverse.mp listed)) some'] at front
      have facts := valid label (List.mem_reverse.mp front)
      exact ⟨facts.1, facts.2.1⟩
    · exact ending label back
  · have bound :=
      length_dotted fun label (member : label ∈ (addr.family.labels addr.value).reverse) =>
      (valid label (List.mem_reverse.mp member)).2.2
    rw [List.length_reverse, count] at bound
    rw [List.length_append]
    have whole : 4 * addr.family.labelCount + addr.family.arpa.length ≤ 253 := by
      cases addr.family <;> decide
    omega

/-! ## The zone a `PTR` is put into -/

/-- **A `PTR` goes into the zone that covers its owner, or into a new zone that covers it.** -/
theorem zoneForPtr_spec {out : List Zone} {network reverse : Text} (host : HostText reverse)
    (short : reverse.length ≤ 253) :
    ∃ made zoneName, zoneForPtr out network reverse (reverse ++ ['.']) = (made, zoneName) ∧
      inZone (reverse ++ ['.']) zoneName = true ∧
      ((coveringZone (out.map Zone.name) (reverse ++ ['.']) = some zoneName ∧ made = out) ∨
        (coveringZone (out.map Zone.name) (reverse ++ ['.']) = none ∧ zoneName ∉ out.map Zone.name ∧
          made = out ++ [derivedZone zoneName])) := by
  have covers := coveringZone_covers (out.map Zone.name) (reverse ++ ['.'])
  rw [zoneForPtr]
  cases best : coveringZone (out.map Zone.name) (reverse ++ ['.']) with
  | some zoneName =>
    rw [best] at covers
    exact ⟨out, zoneName, rfl, covers.2.1, .inl ⟨rfl, rfl⟩⟩
  | none =>
    rw [best] at covers
    dsimp only
    generalize names : ((parseNetwork network).map Dns.generateReverseNames).getD [] = zones
    have chosen : inZone (reverse ++ ['.']) (if isPrivateNetwork network then
        (absoluteName ((zones.find? fun name => inZone (reverse ++ ['.']) (name ++ ['.'])).getD
          reverse)).getD []
      else reverse ++ ['.']) = true := by
      split
      · cases found : zones.find? fun name => inZone (reverse ++ ['.']) (name ++ ['.']) with
        | none =>
          rw [Option.getD_none, host.absolute short]
          exact inZone_self _
        | some name =>
          have inside := List.find?_some found
          obtain ⟨valid, shorter⟩ := host.of_inZone inside
          rw [Option.getD_some, valid.absolute (shorter.trans short)]
          exact inside
      · exact inZone_self _
    generalize (if isPrivateNetwork network then
        (absoluteName ((zones.find? fun name => inZone (reverse ++ ['.']) (name ++ ['.'])).getD
          reverse)).getD []
      else reverse ++ ['.']) = zoneName at chosen ⊢
    have fresh : zoneName ∉ out.map Zone.name := fun member => by
      have outside := covers zoneName member
      rw [chosen] at outside
      cases outside
    have absent : ¬out.any (·.name = zoneName) = true := fun held => by
      obtain ⟨zone, member, named⟩ := List.any_eq_true.mp held
      exact fresh (List.mem_map.mpr ⟨zone, member, by simpa using named⟩)
    exact ⟨_, zoneName, rfl, chosen, .inr ⟨rfl, fresh, by rw [if_neg absent]⟩⟩

/-! ## Zones made beside those of the rows -/

/-- A `PTR` made for an address, at a name without one, in the zone of the rows that covers the
name or in none of these. -/
def MadePtr (model : DnsModel) (zoneName owner : Text) : Prop :=
  ∃ host ∈ servedHostsByAddress model.records, ∃ reverse target network,
    derivedPtr model.networks host = some (reverse, target, network) ∧ owner = reverse ++ ['.'] ∧
      (∀ zone ∈ rowZones model, zone.has (owner, .ptr) = false) ∧
      ∀ covering, coveringZone (rowNames model) owner = some covering → covering = zoneName

/-- What is true of the zones at every point after the rows: those of the rows have what they
had and `PTR`s, and the others have no `CNAME`. -/
structure Grown (model : DnsModel) (out : List Zone) : Prop where
  names : (out.map Zone.name).Nodup
  sound : ∀ zone ∈ out, zone.Sound
  kept : ∀ base ∈ rowZones model, ∃ zone ∈ out, zone.name = base.name ∧
    (∀ key : RrKey, key.2 ≠ .ptr → zone.get key = base.get key) ∧
    ∀ key, base.has key = true → zone.has key = true
  others : ∀ zone ∈ out, zone.name ∉ rowNames model → ∀ owner, zone.has (owner, .cname) = false
  ptrs : ∀ zone ∈ out, ∀ owner, zone.has (owner, .ptr) = true →
    (∃ base ∈ rowZones model, base.name = zone.name ∧ base.has (owner, .ptr) = true) ∨
      MadePtr model zone.name owner

namespace Grown

variable {model : DnsModel} {out : List Zone}

theorem start (model : DnsModel) : Grown model (rowZones model) where
  names := nodup_rowZones model
  sound := fun _ member => (rowZones_spec member).1
  kept := fun base member => ⟨base, member, rfl, fun _ _ => rfl, fun _ has => has⟩
  others := fun zone member outside =>
    absurd ((mem_names_rowZones zone.name).mp (List.mem_map_of_mem member)) outside
  ptrs := fun zone member _ has => .inl ⟨zone, member, rfl, has⟩

theorem has_derivedZone {name : Text} {key : RrKey} (has : (derivedZone name).has key = true) :
    key = (name, .soa) ∨ key = (name, .ns) := by
  obtain ⟨rrset, found⟩ := Option.isSome_iff_exists.mp has
  exact ((get_emptyZone name derivedSoa).2 key rrset found).1

theorem add (grown : Grown model out) {name : Text} (fresh : name ∉ out.map Zone.name) :
    Grown model (out ++ [derivedZone name]) := by
  have named : (derivedZone name).name = name := name_emptyZone name derivedSoa
  refine ⟨?_, fun zone member => ?_, fun base member => ?_, fun zone member outside owner => ?_,
    fun zone member owner has => ?_⟩
  · rw [List.map_append, List.map_singleton, named]
    exact grown.names.append (List.nodup_singleton _) (by simpa using fresh)
  · rcases List.mem_append.mp member with old | new
    · exact grown.sound zone old
    · rw [List.mem_singleton.mp new]
      exact sound_emptyZone name derivedSoa
  · obtain ⟨zone, old, facts⟩ := grown.kept base member
    exact ⟨zone, List.mem_append_left _ old, facts⟩
  · rcases List.mem_append.mp member with old | new
    · exact grown.others zone old outside owner
    · rw [List.mem_singleton.mp new, Bool.eq_false_iff]
      intro has
      rcases has_derivedZone has with same | same <;> cases congrArg Prod.snd same
  · rcases List.mem_append.mp member with old | new
    · exact grown.ptrs zone old owner has
    · rw [List.mem_singleton.mp new] at has
      rcases has_derivedZone has with same | same <;> cases congrArg Prod.snd same

/-- A `PTR` at a name without one may be put into the zone of a name. -/
theorem put (grown : Grown model out) {zoneName owner target : Text}
    (inside : inZone owner zoneName = true) (none' : ∀ zone ∈ out, zone.has (owner, .ptr) = false)
    (made : MadePtr model zoneName owner) :
    Grown model (out.map fun zone =>
      if zone.name = zoneName then zone.put owner .ptr localRecordTtl target else zone) := by
  refine ⟨?_, fun zone member => ?_, fun base member => ?_, fun zone member outside other => ?_,
    fun zone member other has => ?_⟩
  · have same : (out.map fun zone =>
        if zone.name = zoneName then zone.put owner .ptr localRecordTtl target else zone).map
          Zone.name = out.map Zone.name := by
      rw [List.map_map]
      refine List.map_congr_left fun zone _ => ?_
      rw [Function.comp_apply]
      split
      · exact Zone.name_put
      · rfl
    rw [same]
    exact grown.names
  · obtain ⟨old, listed, rfl⟩ := List.mem_map.mp member
    split
    · rename_i named
      refine (grown.sound old listed).put (by rw [named]; exact inside) (by decide) fun _ => ?_
      exact Option.isNone_iff_eq_none.mp (Option.isSome_eq_false_iff.mp (none' old listed))
    · exact grown.sound old listed
  · obtain ⟨zone, listed, named, same, more⟩ := grown.kept base member
    refine ⟨_, List.mem_map_of_mem listed, ?_⟩
    split
    · refine ⟨Zone.name_put.trans named, fun key notPtr => ?_, fun key has => ?_⟩
      · rw [Zone.get_put_of_ne fun here => notPtr (congrArg Prod.snd here)]
        exact same key notPtr
      · rw [Zone.has_put, more key has, Bool.or_true]
    · exact ⟨named, same, more⟩
  · obtain ⟨old, listed, rfl⟩ := List.mem_map.mp member
    split at outside
    · rename_i named
      rw [if_pos named, Zone.has_put, grown.others old listed (Zone.name_put ▸ outside) other,
        Bool.or_false,
        decide_eq_false]
      exact fun same => by cases congrArg Prod.snd same
    · rename_i named
      rw [if_neg named]
      exact grown.others old listed outside other
  · obtain ⟨old, listed, rfl⟩ := List.mem_map.mp member
    split at has
    · rename_i named
      rw [if_pos named, Zone.name_put]
      rw [Zone.has_put, Bool.or_eq_true, decide_eq_true_eq] at has
      rcases has with same | before
      · obtain ⟨rfl, -⟩ := Prod.mk.inj same
        rw [named]
        exact .inr made
      · exact grown.ptrs old listed other before
    · rename_i named
      rw [if_neg named]
      exact grown.ptrs old listed other has

end Grown

/-! ## The loop over the addresses -/

/-- Every address of a list has its `PTR`: one of the rows, or one in the zone of the rows that
covers it. -/
def PtrsMade (model : DnsModel) (hosts : List (Text × List HostName)) (out : List Zone) : Prop :=
  ∀ host ∈ hosts, ∀ reverse target network,
    derivedPtr model.networks host = some (reverse, target, network) →
      (∃ base ∈ rowZones model, base.has (reverse ++ ['.'], .ptr) = true) ∨
        ∀ covering, coveringZone (rowNames model) (reverse ++ ['.']) = some covering →
          ∃ zone ∈ out, zone.name = covering ∧ zone.has (reverse ++ ['.'], .ptr) = true

/-- Where the loop is after some addresses. -/
structure Deriving (model : DnsModel) (hosts : List (Text × List HostName)) (state : PtrState) :
    Prop where
  grown : Grown model state.out
  covered : ∀ zone ∈ state.out, zone.name ∉ rowNames model →
    ∃ owner, inZone owner zone.name = true ∧ coveringZone (rowNames model) owner = none
  withPtr : ∀ owner, owner ∈ state.withPtr ↔ ∃ zone ∈ state.out, zone.has (owner, .ptr) = true
  made : PtrsMade model hosts state.out

theorem mem_ptrOwners {out : List Zone} {owner : Text} :
    owner ∈ ptrOwners out ↔ ∃ zone ∈ out, zone.has (owner, .ptr) = true := by
  rw [ptrOwners, List.mem_filterMap]
  constructor
  · rintro ⟨rrset, member, named⟩
    obtain ⟨zone, listed, inside⟩ := List.mem_flatMap.mp member
    split at named
    · rename_i isPtr
      obtain rfl := Option.some.inj named
      have found := Zone.get_of_mem inside
      rw [Rrset.key, isPtr] at found
      exact ⟨zone, listed, Option.isSome_iff_exists.mpr ⟨rrset, found⟩⟩
    · cases named
  · rintro ⟨zone, listed, has⟩
    obtain ⟨rrset, found⟩ := Option.isSome_iff_exists.mp has
    obtain ⟨named, isPtr⟩ := Prod.mk.inj (Zone.key_of_get found)
    refine ⟨rrset, List.mem_flatMap.mpr ⟨zone, listed, Zone.mem_of_get found⟩, ?_⟩
    rw [if_pos isPtr, named]

namespace Deriving

variable {model : DnsModel} {hosts : List (Text × List HostName)} {state : PtrState}

theorem start (model : DnsModel) :
    Deriving model [] ⟨rowZones model, ptrOwners (rowZones model)⟩ where
  grown := Grown.start model
  covered := fun zone member outside =>
    absurd ((mem_names_rowZones zone.name).mp (List.mem_map_of_mem member)) outside
  withPtr := fun _ => mem_ptrOwners
  made := fun _ member => absurd member List.not_mem_nil

theorem mem_names (so : Deriving model hosts state) {name : Text} (member : name ∈ rowNames model) :
    name ∈ state.out.map Zone.name := by
  obtain ⟨base, listed, rfl⟩ := List.mem_map.mp ((mem_names_rowZones name).mpr member)
  obtain ⟨zone, old, named, -⟩ := so.grown.kept base listed
  exact named ▸ List.mem_map_of_mem old

/-- **A zone made for an address never covers a name that a zone of the rows covers**, so that
one stays the covering zone. -/
theorem covering_eq (so : Deriving model hosts state) {owner covering : Text}
    (best : coveringZone (rowNames model) owner = some covering) :
    coveringZone (state.out.map Zone.name) owner = some covering := by
  have covers := coveringZone_covers (rowNames model) owner
  rw [best] at covers
  obtain ⟨member, inside, longest⟩ := covers
  refine Covers.unique (coveringZone_covers _ owner) ⟨so.mem_names member, inside,
    fun name listed inName => ?_⟩
  by_cases ofRows : name ∈ rowNames model
  · exact longest name ofRows inName
  · -- Were it longer, it would be in the covering zone, and so would its first owner.
    obtain ⟨zone, old, rfl⟩ := List.mem_map.mp listed
    obtain ⟨first, inFirst, uncovered⟩ := so.covered zone old ofRows
    by_contra longer
    have within := inZone_of_length_le inside inName (Nat.le_of_not_le longer)
    have none' := coveringZone_covers (rowNames model) first
    rw [uncovered] at none'
    have outside := none' covering member
    rw [inZone_trans inFirst within] at outside
    cases outside

theorem covering_none (so : Deriving model hosts state) {owner : Text}
    (none' : coveringZone (state.out.map Zone.name) owner = none) :
    coveringZone (rowNames model) owner = none := by
  rw [Option.eq_none_iff_forall_ne_some]
  intro covering best
  rw [so.covering_eq best] at none'
  cases none'

theorem add (so : Deriving model hosts state) {owner name : Text}
    (inside : inZone owner name = true) (uncovered : coveringZone (rowNames model) owner = none)
    (fresh : name ∉ state.out.map Zone.name) :
    Deriving model hosts ⟨state.out ++ [derivedZone name], state.withPtr⟩ := by
  refine ⟨so.grown.add fresh, fun zone member outside => ?_, fun other => ?_,
    fun host member reverse target network derived => ?_⟩
  · rcases List.mem_append.mp member with old | new
    · exact so.covered zone old outside
    · rw [List.mem_singleton.mp new]
      exact ⟨owner, by rw [show (derivedZone name).name = name from name_emptyZone name derivedSoa,
        inside], uncovered⟩
  · rw [so.withPtr other]
    constructor
    · rintro ⟨zone, old, has⟩
      exact ⟨zone, List.mem_append_left _ old, has⟩
    · rintro ⟨zone, member, has⟩
      rcases List.mem_append.mp member with old | new
      · exact ⟨zone, old, has⟩
      · rw [List.mem_singleton.mp new] at has
        rcases Grown.has_derivedZone has with same | same <;> cases congrArg Prod.snd same
  · refine (so.made host member reverse target network derived).imp_right fun inCovering
      covering best => ?_
    obtain ⟨zone, old, facts⟩ := inCovering covering best
    exact ⟨zone, List.mem_append_left _ old, facts⟩

/-- Putting the `PTR` of an address. -/
theorem put (so : Deriving model hosts state) {host : Text × List HostName}
    {reverse target network zoneName : Text}
    (served : host ∈ servedHostsByAddress model.records)
    (derived : derivedPtr model.networks host = some (reverse, target, network))
    (fresh : reverse ++ ['.'] ∉ state.withPtr) (listed : zoneName ∈ state.out.map Zone.name)
    (inside : inZone (reverse ++ ['.']) zoneName = true)
    (chosen : ∀ covering, coveringZone (rowNames model) (reverse ++ ['.']) = some covering →
    covering = zoneName) :
    Deriving model (hosts ++ [host]) ⟨state.out.map fun zone => if zone.name = zoneName then
      zone.put (reverse ++ ['.']) .ptr localRecordTtl target else zone, state.withPtr ++
          [reverse ++ ['.']]⟩ := by
  have none' : ∀ zone ∈ state.out, zone.has (reverse ++ ['.'], .ptr) = false :=
    fun zone member => by
    rw [Bool.eq_false_iff]
    exact fun has => fresh ((so.withPtr _).mpr ⟨zone, member, has⟩)
  have noBase : ∀ zone ∈ rowZones model, zone.has (reverse ++ ['.'], .ptr) = false :=
    fun base member => by
    obtain ⟨zone, old, -, -, more⟩ := so.grown.kept base member
    rw [Bool.eq_false_iff]
    intro has
    have absent := none' zone old
    rw [more _ has] at absent
    cases absent
  have made : MadePtr model zoneName (reverse ++ ['.']) :=
    ⟨host, served, reverse, target, network, derived, rfl, noBase, chosen⟩
  refine ⟨so.grown.put inside none' made, fun zone member outside => ?_, fun other => ?_,
    fun other member reverse' target' network' derived' => ?_⟩
  · obtain ⟨old, before, rfl⟩ := List.mem_map.mp member
    have named : (if old.name = zoneName then old.put (reverse ++ ['.']) .ptr localRecordTtl target
        else old).name = old.name := by
      split
      · exact Zone.name_put
      · rfl
    rw [named] at outside ⊢
    exact so.covered old before outside
  · rw [List.mem_append, so.withPtr other, List.mem_singleton]
    constructor
    · rintro (⟨zone, before, has⟩ | rfl)
      · refine ⟨_, List.mem_map_of_mem before, ?_⟩
        split
        · rw [Zone.has_put, has, Bool.or_true]
        · exact has
      · obtain ⟨zone, before, named⟩ := List.mem_map.mp listed
        refine ⟨_, List.mem_map_of_mem before, ?_⟩
        rw [if_pos named, Zone.has_put, decide_eq_true rfl, Bool.true_or]
    · rintro ⟨zone, member, has⟩
      obtain ⟨old, before, rfl⟩ := List.mem_map.mp member
      split at has
      · rw [Zone.has_put, Bool.or_eq_true, decide_eq_true_eq] at has
        exact has.elim (fun same => .inr (congrArg Prod.fst same)) fun had => .inl ⟨old,
          before, had⟩
      · exact .inl ⟨old, before, has⟩
  · rcases List.mem_append.mp member with earlier | this
    · refine (so.made other earlier reverse' target' network' derived').imp_right fun inCovering =>
        ?_
      intro covering best
      obtain ⟨zone, before, named, has⟩ := inCovering covering best
      refine ⟨_, List.mem_map_of_mem before, ?_⟩
      split
      · exact ⟨Zone.name_put.trans named, by rw [Zone.has_put, has, Bool.or_true]⟩
      · exact ⟨named, has⟩
    · obtain rfl := List.mem_singleton.mp this
      rw [derived] at derived'
      obtain ⟨rfl, -⟩ := Prod.mk.inj (Option.some.inj derived')
      refine .inr fun covering best => ?_
      obtain ⟨zone, before, named⟩ := List.mem_map.mp listed
      refine ⟨_, List.mem_map_of_mem before, ?_⟩
      rw [if_pos named, Zone.name_put, Zone.has_put, decide_eq_true rfl, Bool.true_or]
      exact ⟨named.trans (chosen covering best).symm, rfl⟩

theorem skip (so : Deriving model hosts state) {host : Text × List HostName}
    (made : ∀ reverse target network, derivedPtr model.networks host =
      some (reverse, target, network) → reverse ++ ['.'] ∈ state.withPtr) :
      Deriving model (hosts ++ [host]) state := by
  refine ⟨so.grown, so.covered, so.withPtr, fun other member reverse target network derived => ?_⟩
  rcases List.mem_append.mp member with earlier | this
  · exact so.made other earlier reverse target network derived
  · rw [List.mem_singleton.mp this] at derived
    obtain ⟨zone, before, has⟩ := (so.withPtr _).mp (made reverse target network derived)
    rcases so.grown.ptrs zone before _ has with ⟨base, ofRows, -, had⟩ | ⟨-, -, -, -, -, -,
      -, -, chosen⟩
    · exact .inl ⟨base, ofRows, had⟩
    · exact .inr fun covering best => ⟨zone, before, (chosen covering best).symm, has⟩

/-- **One round of the loop.** -/
theorem step (so : Deriving model hosts state) {host : Text × List HostName}
    (served : host ∈ servedHostsByAddress model.records) :
    Deriving model (hosts ++ [host]) (derivePtr model.networks state host) := by
  rw [derivePtr]
  cases derived : derivedPtr model.networks host with
  | none => exact so.skip fun reverse target network other => by rw [derived] at other; cases other
  | some ptr =>
    obtain ⟨reverse, target, network⟩ := ptr
    dsimp only
    by_cases had : reverse ++ ['.'] ∈ state.withPtr
    · rw [if_pos had]
      refine so.skip fun other _ _ derived' => ?_
      rw [derived] at derived'
      obtain ⟨rfl, -⟩ := Prod.mk.inj (Option.some.inj derived')
      exact had
    · rw [if_neg had]
      obtain ⟨address, named⟩ : ∃ address, Dns.reverseNameOf address = some reverse := by
        obtain ⟨name, named, rest⟩ := Option.bind_eq_some_iff.mp derived
        obtain ⟨first, -, rest⟩ := Option.bind_eq_some_iff.mp rest
        obtain ⟨points, -, rest⟩ := Option.bind_eq_some_iff.mp rest
        obtain ⟨cidr, -, whole⟩ := Option.bind_eq_some_iff.mp rest
        obtain ⟨rfl, -⟩ := Prod.mk.inj (Option.some.inj whole)
        exact ⟨host.1, named⟩
      obtain ⟨valid, short⟩ := host_reverseNameOf named
      obtain ⟨made, zoneName, chosen, inside, how⟩ :=
        @zoneForPtr_spec state.out network reverse valid short
      rw [chosen]
      rcases how with ⟨best, rfl⟩ | ⟨none', fresh, rfl⟩
      · have covers := coveringZone_covers (state.out.map Zone.name) (reverse ++ ['.'])
        rw [best] at covers
        refine so.put served derived had covers.1 inside fun covering ofRows => ?_
        rw [so.covering_eq ofRows] at best
        exact Option.some.inj best
      · have uncovered := so.covering_none none'
        refine (so.add inside uncovered fresh).put served derived had ?_ inside fun covering
          ofRows => ?_
        · rw [List.map_append]
          exact List.mem_append_right _
            (List.mem_singleton.mpr (name_emptyZone zoneName derivedSoa).symm)
        · rw [uncovered] at ofRows
          cases ofRows

theorem foldl {rest : List (Text × List HostName)} (so : Deriving model hosts state)
    (served : ∀ host ∈ rest, host ∈ servedHostsByAddress model.records) :
    Deriving model (hosts ++ rest) (rest.foldl (derivePtr model.networks) state) := by
  induction rest generalizing hosts state with
  | nil => rwa [List.append_nil]
  | cons host rest ih =>
    rw [List.append_cons, List.foldl_cons]
    exact ih (so.step (served host List.mem_cons_self)) fun other member =>
      served other (List.mem_cons_of_mem _ member)

end Deriving

theorem grown_addReserved {model : DnsModel} {hosts : List (Text × List HostName)}
    (reserved : List Text) {out : List Zone} (grown : Grown model out)
    (made : PtrsMade model hosts out) :
    Grown model (reserved.foldl addReserved out) ∧
    PtrsMade model hosts (reserved.foldl addReserved out) := by
  induction reserved generalizing out with
  | nil => exact ⟨grown, made⟩
  | cons domain reserved ih =>
    rw [List.foldl_cons, addReserved]
    cases named : absoluteName domain with
    | none => exact ih grown made
    | some name =>
      dsimp only
      split
      · exact ih grown made
      · rename_i absent
        refine ih (grown.add fun member => ?_) fun host listed reverse target network derived => ?_
        · obtain ⟨zone, old, same⟩ := List.mem_map.mp member
          exact absent (List.any_eq_true.mpr ⟨zone, old, decide_eq_true same⟩)
        · refine (made host listed reverse target network derived).imp_right fun inCovering => ?_
          intro covering best
          obtain ⟨zone, old, facts⟩ := inCovering covering best
          exact ⟨zone, List.mem_append_left _ old, facts⟩

theorem exists_grown (model : DnsModel) (reserved : List Text) : ∃ out, Grown model out ∧
    PtrsMade model (servedHostsByAddress model.records) out ∧
    desiredZones model reserved = out.map Zone.sorted := by
  have loop := @Deriving.foldl model [] _ (servedHostsByAddress model.records)
    (Deriving.start model) fun _ member => member
  rw [List.nil_append] at loop
  obtain ⟨grown, made⟩ := grown_addReserved reserved loop.grown loop.made
  exact ⟨_, grown, made, rfl⟩

/-! ## The order of texts -/

theorem textLe_trans (a b c : Text) (first : textLe a b = true) (second : textLe b c = true) :
    textLe a c = true := by
  induction a generalizing b c with
  | nil => rfl
  | cons x a ih =>
    cases b with
    | nil => cases first
    | cons y b =>
      cases c with
      | nil => cases second
      | cons z c =>
        simp only [textLe, Bool.or_eq_true, Bool.and_eq_true, decide_eq_true_eq] at first second ⊢
        rcases first with less | ⟨rfl, tail⟩
        · rcases second with less' | ⟨rfl, -⟩
          · exact .inl (less.trans less')
          · exact .inl less
        · rcases second with less' | ⟨rfl, tail'⟩
          · exact .inl less'
          · exact .inr ⟨rfl, ih b c tail tail'⟩

theorem textLe_total (a b : Text) : (textLe a b || textLe b a) = true := by
  induction a generalizing b with
  | nil => rfl
  | cons x a ih =>
    cases b with
    | nil => rfl
    | cons y b =>
      have tail := ih b
      simp only [textLe, Bool.or_eq_true, Bool.and_eq_true, decide_eq_true_eq] at tail ⊢
      rcases Nat.lt_trichotomy x.toNat y.toNat with less | same | more
      · exact .inl (.inl less)
      · obtain rfl := Char.toNat_inj.mp same
        exact tail.imp (fun le => .inr ⟨rfl, le⟩) fun le => .inr ⟨rfl, le⟩
      · exact .inr (.inl more)

theorem pairwise_sortTexts (texts : List Text) : (sortTexts texts).Pairwise (textLe · ·) :=
  List.pairwise_mergeSort textLe_trans textLe_total texts

/-! ## What Authoritative accepts -/

/-- A zone that Authoritative accepts. -/
structure Zone.Acceptable (zone : Zone) : Prop where
  inside : ∀ rrset ∈ zone.rrsets, inZone rrset.name zone.name = true
  soa : ((zone.rrsets.filter (·.type = .soa)).flatMap Rrset.records).length = 1
  cname : ∀ rrset ∈ zone.rrsets, rrset.type = .cname → rrset.records.length = 1 ∧
    ∀ other ∈ zone.rrsets, other.name = rrset.name → other.type = .cname
  ptr : ∀ rrset ∈ zone.rrsets, rrset.type = .ptr → rrset.records.length = 1
  filled : ∀ rrset ∈ zone.rrsets, rrset.records ≠ []
  sorted : ∀ rrset ∈ zone.rrsets, rrset.records.Pairwise (textLe · ·)
  nodup : ∀ rrset ∈ zone.rrsets, rrset.records.Nodup

/-- Zones that Authoritative accepts. -/
def Acceptable (zones : List Zone) : Prop := ∀ zone ∈ zones, zone.Acceptable

/-- A name that has a `PTR` to be made for it, and none in a zone of the rows, has a `CNAME` in
the zone of the rows that covers it. -/
def PtrMeetsCname (model : DnsModel) : Prop :=
  ∃ host ∈ servedHostsByAddress model.records, ∃ reverse target network,
    derivedPtr model.networks host = some (reverse, target, network) ∧
      (∀ zoneName, ¬RowServes model zoneName (reverse ++ ['.']) .ptr) ∧
      ∃ zoneName, coveringZone (rowNames model) (reverse ++ ['.']) = some zoneName ∧
        RowServes model zoneName (reverse ++ ['.']) .cname

theorem records_sorted (zone : Zone) {rrset : Rrset} (member : rrset ∈ zone.sorted.rrsets) :
    ∃ before ∈ zone.rrsets, before.key = rrset.key ∧ rrset.records = sortTexts before.records := by
  obtain ⟨before, listed, rfl⟩ := List.mem_map.mp member
  exact ⟨before, listed, rfl, rfl⟩

/-- The one `SOA` of a sound zone. -/
theorem Zone.Sound.filter_soa {zone : Zone} (sound : zone.Sound) :
    ∃ rrset, zone.rrsets.filter (·.type = .soa) = [rrset] ∧ rrset.records.length = 1 := by
  obtain ⟨rrset, found, one⟩ := sound.soa
  refine ⟨rrset, ?_, one⟩
  have all : ∀ other ∈ zone.rrsets.filter (·.type = .soa), other = rrset := fun other member => by
    obtain ⟨listed, isSoa⟩ := List.mem_filter.mp member
    rw [decide_eq_true_eq] at isSoa
    have held := Zone.get_of_mem listed
    rw [Rrset.key, isSoa] at held
    rw [sound.soaOnly _ other held, found] at held
    exact (Option.some.inj held).symm
  have distinct : (zone.rrsets.filter (·.type = .soa)).Nodup := zone.distinct.of_map.filter _
  have member : rrset ∈ zone.rrsets.filter (·.type = .soa) :=
    List.mem_filter.mpr ⟨Zone.mem_of_get found,
      decide_eq_true (congrArg Prod.snd (Zone.key_of_get found))⟩
  have same := List.eq_replicate_of_mem all
  rw [same, List.nodup_replicate] at distinct
  have some' := List.length_pos_of_mem member
  rw [same, show (zone.rrsets.filter (·.type = .soa)).length = 1 by omega, List.replicate_one]

/-- **A sound zone is acceptable once sorted exactly when no data stands beside a `CNAME`.** -/
theorem acceptable_sorted_iff {zone : Zone} (sound : zone.Sound) : zone.sorted.Acceptable ↔
    zone.Exclusive := by
  constructor
  · intro acceptable owner hasCname type has
    obtain ⟨cname, found⟩ := Option.isSome_iff_exists.mp hasCname
    obtain ⟨other, held⟩ := Option.isSome_iff_exists.mp has
    obtain ⟨named, isCname⟩ := Prod.mk.inj (Zone.key_of_get found)
    obtain ⟨otherNamed, otherType⟩ := Prod.mk.inj (Zone.key_of_get held)
    have alone := (acceptable.cname _ (List.mem_map_of_mem (Zone.mem_of_get found)) isCname).2 _
      (List.mem_map_of_mem (Zone.mem_of_get held)) (otherNamed.trans named.symm)
    exact otherType.symm.trans alone
  · intro exclusive
    have get : ∀ rrset ∈ zone.sorted.rrsets, ∃ before, zone.get (rrset.name, rrset.type) =
        some before ∧ rrset.records = sortTexts before.records := fun rrset member => by
      obtain ⟨before, listed, key, sorted⟩ := records_sorted zone member
      have found := Zone.get_of_mem listed
      rw [key] at found
      exact ⟨before, found, sorted⟩
    have single : ∀ rrset ∈ zone.sorted.rrsets, rrset.type = .ptr ∨ rrset.type = .cname →
        rrset.records.length = 1 := fun rrset member alone => by
      obtain ⟨before, found, sorted⟩ := get rrset member
      rw [sorted, sortTexts, List.length_mergeSort]
      exact sound.single _ _ before alone found
    refine ⟨fun rrset member => ?_, ?_, fun rrset member isCname =>
      ⟨single rrset member (.inr isCname), fun other listed named => ?_⟩, fun rrset member isPtr =>
        single rrset member (.inl isPtr),
      fun rrset member => ?_, fun rrset member => ?_, fun rrset member => ?_⟩
    · obtain ⟨before, found, -⟩ := get rrset member
      exact sound.inside _ before found
    · obtain ⟨rrset, own, one⟩ := sound.filter_soa
      have kept : zone.sorted.rrsets.filter (·.type = .soa) =
          [{ rrset with records := sortTexts rrset.records }] := by
        change (zone.rrsets.map fun rrset =>
          { rrset with records := sortTexts rrset.records }).filter _ = _
        rw [List.filter_map]
        exact congrArg _ own
      rw [kept, List.flatMap_singleton, sortTexts, List.length_mergeSort, one]
    · obtain ⟨cname, found, -⟩ := get rrset member
      obtain ⟨before, held, -⟩ := get other listed
      rw [isCname] at found
      rw [named] at held
      exact exclusive rrset.name (Option.isSome_iff_exists.mpr ⟨cname, found⟩) other.type
        (Option.isSome_iff_exists.mpr ⟨before, held⟩)
    · obtain ⟨before, found, sorted⟩ := get rrset member
      intro empty
      rw [sorted, sortTexts] at empty
      exact sound.filled _ before found ((List.mergeSort_perm _ _).symm.trans (.of_eq empty)).eq_nil
    · obtain ⟨before, -, sorted⟩ := get rrset member
      rw [sorted]
      exact pairwise_sortTexts _
    · obtain ⟨before, found, sorted⟩ := get rrset member
      rw [sorted, sortTexts, (List.mergeSort_perm _ _).nodup_iff]
      exact sound.nodup _ before found

theorem exists_of_rowServes {model : DnsModel} {zoneName owner : Text} {type : RrType}
    (serves : RowServes model zoneName owner type) (notSoa : type ≠ .soa) (notNs : type ≠ .ns) :
    ∃ base ∈ rowZones model, base.name = zoneName ∧ base.has (owner, type) = true := by
  obtain ⟨row, last, served⟩ := serves
  have found := last
  rw [lastRow] at found
  have test := List.find?_some found
  obtain ⟨bare, started, named⟩ := (Option.any_eq_true _ _).mp test
  have ofRows : zoneName ∈ rowNames model := List.mem_filterMap.mpr
    ⟨row, List.mem_reverse.mp (List.mem_of_find?_eq_some found), by
      rw [started, Option.map_some, of_decide_eq_true named]⟩
  obtain ⟨base, listed, rfl⟩ := List.mem_map.mp ((mem_names_rowZones zoneName).mpr ofRows)
  exact ⟨base, listed, rfl, ((rowZones_spec listed).2.2 owner type notSoa notNs).mpr
    ⟨row, last, served⟩⟩

/-- **The zones are acceptable exactly when no `PTR` meets a `CNAME`.** -/
theorem desiredZones_acceptable_iff (model : DnsModel) (reserved : List Text) :
    Acceptable (desiredZones model reserved) ↔ ¬PtrMeetsCname model := by
  obtain ⟨out, grown, made, zones⟩ := exists_grown model reserved
  rw [zones]
  have exclusive : Acceptable (out.map Zone.sorted) ↔ ∀ zone ∈ out, zone.Exclusive := by
    constructor
    · intro acceptable zone member
      exact (acceptable_sorted_iff (grown.sound zone member)).mp
        (acceptable _ (List.mem_map_of_mem member))
    · intro all sorted member
      obtain ⟨zone, listed, rfl⟩ := List.mem_map.mp member
      exact (acceptable_sorted_iff (grown.sound zone listed)).mpr (all zone listed)
  rw [exclusive]
  have cnameNotPtr : RrType.cname ≠ .ptr := by decide
  constructor
  · rintro all ⟨host, served, reverse, target, network, derived, noPtr, zoneName, best, cname⟩
    rcases made host served reverse target network derived with ⟨base, ofRows, has⟩ | inCovering
    · exact noPtr base.name (((rowZones_spec ofRows).2.2 _ .ptr (by decide) (by decide)).mp has)
    · obtain ⟨zone, member, rfl, hasPtr⟩ := inCovering zoneName best
      obtain ⟨base, listed, named, hasCname⟩ := exists_of_rowServes cname (by decide) (by decide)
      obtain ⟨same, old, name', get, -⟩ := grown.kept base listed
      obtain rfl : same = zone := List.inj_on_of_nodup_map grown.names old member
        (name'.trans named)
      rw [Zone.has, ← get _ cnameNotPtr, ← Zone.has] at hasCname
      cases all same member _ hasCname .ptr hasPtr
  · intro apart zone member owner hasCname type has
    by_cases ofRows : zone.name ∈ rowNames model
    · obtain ⟨base, listed, named⟩ := List.mem_map.mp ((mem_names_rowZones zone.name).mpr ofRows)
      obtain ⟨same, old, name', get, -⟩ := grown.kept base listed
      obtain rfl : same = zone := List.inj_on_of_nodup_map grown.names old member
        (name'.trans named)
      obtain ⟨-, exclusive, serves⟩ := rowZones_spec listed
      have baseCname : base.has (owner, .cname) = true := by
        rw [Zone.has, ← get _ cnameNotPtr]
        exact hasCname
      by_cases isPtr : type = .ptr
      · subst isPtr
        rcases grown.ptrs same member owner has with ⟨other, listed', named', hasPtr⟩ | made'
        · obtain rfl : other = base :=
            List.inj_on_of_nodup_map (nodup_rowZones model) listed' listed (named'.trans named.symm)
          exact exclusive owner baseCname .ptr hasPtr
        · -- The `PTR` was made in this zone of the rows, so the zone covers its name.
          obtain ⟨host, served, reverse, target, network, derived, rfl, noBase, chosen⟩ := made'
          obtain ⟨cname, found⟩ := Option.isSome_iff_exists.mp hasCname
          have inside := (grown.sound same member).inside _ cname found
          have covers := coveringZone_covers (rowNames model) (reverse ++ ['.'])
          refine absurd ⟨host, served, reverse, target, network, derived, fun zoneName ptr => ?_,
            same.name, ?_, named ▸ (serves _ .cname (by decide) (by decide)).mp baseCname⟩ apart
          · obtain ⟨other, listed', -, hasPtr⟩ := exists_of_rowServes ptr (by decide) (by decide)
            rw [noBase other listed'] at hasPtr
            cases hasPtr
          · cases best : coveringZone (rowNames model) (reverse ++ ['.']) with
            | none =>
              rw [best] at covers
              rw [covers same.name ofRows] at inside
              cases inside
            | some covering => rw [chosen covering best]
      · refine exclusive owner baseCname type ?_
        rw [Zone.has, ← get _ isPtr]
        exact has
    · rw [grown.others zone member ofRows owner] at hasCname
      cases hasCname

/-- What the difference against the zones of a server starts from: the zones of the model have
names of their own, and each is ready to be compared. -/
def DesiredZones.ofModel (model : DnsModel) (reserved : List Text) : DesiredZones where
  zones := desiredZones model reserved
  names := by
    obtain ⟨out, grown, -, zones⟩ := exists_grown model reserved
    rw [zones, List.map_map]
    exact grown.names
  ready := by
    obtain ⟨out, grown, -, zones⟩ := exists_grown model reserved
    rw [zones]
    intro sorted member
    obtain ⟨zone, listed, rfl⟩ := List.mem_map.mp member
    refine ⟨fun rrset inside => ?_, fun rrset inside isSoa => ?_⟩
    · obtain ⟨before, -, -, contents⟩ := records_sorted zone inside
      rw [contents]
      exact pairwise_sortTexts _
    · obtain ⟨before, old, key, contents⟩ := records_sorted zone inside
      obtain ⟨soa, own, one⟩ := (grown.sound zone listed).filter_soa
      have isOwn : before ∈ zone.rrsets.filter (·.type = .soa) :=
        List.mem_filter.mpr ⟨old, decide_eq_true ((congrArg Prod.snd key).trans isSoa)⟩
      rw [own, List.mem_singleton] at isOwn
      rw [contents, sortTexts, List.length_mergeSort, isOwn, one]

/-- A forward zone of a reverse name that hands the name of an address on, and the address. -/
def handedOnModel : DnsModel where
  zones :=
    [⟨1, "example.com".toList, "ns1.example.com".toList, "admin.example.com".toList, none, none,
     none, none, none⟩, ⟨2, "1.0.10.in-addr.arpa".toList, "ns1.example.com".toList,
       "admin.example.com".toList, none, none, none, none, none⟩]
  records :=
    [{ id := 1, zoneId := 1, zoneName := "example.com".toList, zoneType := .forward, name :=
      "www".toList, type := .a
       value := "10.0.1.5".toList, fqdn := "www.example.com".toList },
     { id := 2, zoneId := 2, zoneName := "1.0.10.in-addr.arpa".toList, zoneType := .forward,
       name := "5".toList
       type := .cname, value := "5.rev.example.com".toList, fqdn :=
       "5.1.0.10.in-addr.arpa".toList }]
  networks := ["10.0.1.0/24".toList]
  ids := by decide

/-- **A `PTR` is put beside the `CNAME` that hands its name on.** -/
theorem handed_on_name_gets_a_ptr : ¬ ∀ (model : DnsModel) (reserved : List Text),
    Acceptable (desiredZones model reserved) := by
  intro all
  have both : ∃ zone ∈ ((servedHostsByAddress handedOnModel.records).foldl
      (derivePtr handedOnModel.networks) ⟨rowZones handedOnModel,
      ptrOwners (rowZones handedOnModel)⟩).out, ∃ cname ∈ zone.rrsets, ∃ ptr ∈ zone.rrsets,
      cname.type = .cname ∧ ptr.name = cname.name ∧ ptr.type = .ptr := by
    decide
  obtain ⟨zone, member, cname, listed, ptr, beside, isCname, named, isPtr⟩ := both
  have alone :=
    ((all handedOnModel [] _ (List.mem_map_of_mem member)).cname _ (List.mem_map_of_mem listed)
      isCname).2 _ (List.mem_map_of_mem beside) named
  rw [show ptr.type = RrType.cname from alone] at isPtr
  cases isPtr

end Pdns

end Cidrella
