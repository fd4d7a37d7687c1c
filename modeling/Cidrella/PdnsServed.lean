import Cidrella.PdnsDiff
import Cidrella.ReverseNames

/-!
# What the zones of the rows serve

The zone of a row has an `SOA` and an `NS` and what the row's records serve: the first
`CNAME` of a name and nothing beside it, the first `PTR` of a name, every other record once
(`zoneOfRow_spec`). Of two rows with one name the last counts, so the zones of the rows are
known by what their rows serve (`rowZones_spec`).

A name is put into the longest zone that covers it, and there is one such zone
(`Covers.unique`).
-/

set_option autoImplicit false

namespace Cidrella

open Address DnsNames

namespace Pdns

/-! ## Putting a record -/

namespace Zone

variable {zone : Zone} {owner : Text} {type : RrType} {ttl : Nat} {content : Text} {key : RrKey}
    {rrset : Rrset}

theorem get_of_mem (member : rrset ∈ zone.rrsets) : zone.get rrset.key = some rrset :=
  Keyed.lookup_of_mem zone.distinct member

theorem mem_of_get (found : zone.get key = some rrset) : rrset ∈ zone.rrsets :=
  Keyed.mem_of_lookup found

theorem key_of_get (found : zone.get key = some rrset) : rrset.key = key :=
  Keyed.key_of_lookup found

theorem get_mapRrsets (change : Rrset → Rrset) (keeps : ∀ rrset, (change rrset).key = rrset.key) :
    (zone.mapRrsets change keeps).get key = (zone.get key).map change := by
  rw [get, mapRrsets, Keyed.lookup, List.find?_map]
  refine congrArg _ (congrArg (fun test => List.find? test zone.rrsets) (funext fun rrset => ?_))
  rw [Function.comp_apply, keeps]

@[simp] theorem name_put : (zone.put owner type ttl content).name = zone.name := by
  rw [put]
  split <;> rfl

theorem get_put : (zone.put owner type ttl content).get key =
    if key = (owner, type) then
      some (((zone.get (owner, type)).map (·.add ttl content)).getD ⟨owner, type, ttl, [content]⟩)
    else zone.get key := by
  by_cases new : zone.get (owner, type) = none
  · rw [put, dif_pos new, new, get, Keyed.lookup_append]
    by_cases here : key = (owner, type)
    · rw [if_pos here, here, show Keyed.lookup Rrset.key zone.rrsets (owner, type) = none from new,
        Option.none_or]
      exact List.find?_cons_of_pos (decide_eq_true rfl)
    · have last : Keyed.lookup Rrset.key [⟨owner, type, ttl, [content]⟩] key = none :=
        Keyed.lookup_eq_none.mpr fun rrset member => by
          rw [List.mem_singleton.mp member]
          exact Ne.symm here
      rw [if_neg here, last, Option.or_none]
      rfl
  · rw [put, dif_neg new, get_mapRrsets]
    obtain ⟨rrset, found⟩ := Option.ne_none_iff_exists'.mp new
    by_cases here : key = (owner, type)
    · rw [if_pos here, here, found, Option.map_some, Option.map_some, if_pos (key_of_get found)]
      rfl
    · rw [if_neg here]
      cases held : zone.get key with
      | none => rfl
      | some other =>
        have differs : other.key ≠ (owner, type) :=
          fun same => here ((key_of_get held).symm.trans same)
        rw [Option.map_some, if_neg differs]

theorem get_put_of_ne (other : key ≠ (owner, type)) :
    (zone.put owner type ttl content).get key = zone.get key := by
  rw [get_put, if_neg other]

theorem get_put_of_none (new : zone.get (owner, type) = none) :
    (zone.put owner type ttl content).get (owner, type) = some ⟨owner, type, ttl, [content]⟩ := by
  rw [get_put, if_pos rfl, new]
  rfl

theorem has_put : (zone.put owner type ttl content).has key =
    (decide (key = (owner, type)) || zone.has key) := by
  rw [has, has, get_put]
  by_cases here : key = (owner, type)
  · rw [if_pos here, decide_eq_true here]
    rfl
  · rw [if_neg here, decide_eq_false here]
    rfl

end Zone

theorem records_add (rrset : Rrset) (ttl : Nat) (content : Text) (distinct : rrset.records.Nodup) :
    (rrset.add ttl content).records ≠ [] ∧ (rrset.add ttl content).records.Nodup := by
  rw [Rrset.add]
  split
  · rename_i listed
    exact ⟨List.ne_nil_of_mem listed, distinct⟩
  · rename_i fresh
    exact ⟨by simp, distinct.append (List.nodup_singleton _) (by simpa using fresh)⟩

/-! ## Zones in a zone -/

theorem inZone_iff {name zone : Text} : inZone name zone = true ↔ name = zone ∨
    ('.' :: zone) <:+ name := by
  rw [inZone, Bool.or_eq_true, decide_eq_true_eq, endsWith, List.isSuffixOf_iff_suffix]

theorem inZone_self (name : Text) : inZone name name = true := inZone_iff.mpr (.inl rfl)

theorem suffix_of_inZone {name zone : Text} (inside : inZone name zone = true) : zone <:+ name := by
  rcases inZone_iff.mp inside with rfl | below
  · exact List.suffix_refl name
  · exact (List.suffix_cons '.' zone).trans below

theorem inZone_trans {name middle zone : Text} (inside : inZone name middle = true)
    (within : inZone middle zone = true) : inZone name zone = true := by
  rcases inZone_iff.mp within with rfl | below
  · exact inside
  · exact inZone_iff.mpr (.inr (below.trans (suffix_of_inZone inside)))

theorem inZone_of_length_le {name short long : Text} (inShort : inZone name short = true)
    (inLong : inZone name long = true) (shorter : short.length ≤ long.length) :
    inZone long short = true := by
  have longPart := suffix_of_inZone inLong
  rcases inZone_iff.mp inShort with rfl | below
  · exact inZone_iff.mpr (.inl (longPart.eq_of_length_le shorter))
  · rcases Nat.lt_or_ge short.length long.length with less | equal
    · exact inZone_iff.mpr (.inr (List.suffix_of_suffix_length_le below longPart less))
    · have shortPart := suffix_of_inZone inShort
      have same := List.suffix_of_suffix_length_le longPart shortPart equal
      exact inZone_iff.mpr (.inl (same.eq_of_length_le shorter))

/-- What it means to be the covering zone. -/
def Covers (names : List Text) (owner : Text) : Option Text → Prop
  | none => ∀ name ∈ names, inZone owner name = false
  | some zone => zone ∈ names ∧ inZone owner zone = true ∧
      ∀ name ∈ names, inZone owner name = true → name.length ≤ zone.length

theorem coveringZone_covers (names : List Text) (owner : Text) :
    Covers names owner (coveringZone names owner) := by
  induction names using List.reverseRecOn with
  | nil => exact fun name member => absurd member List.not_mem_nil
  | append_singleton names name ih =>
    rw [coveringZone, List.foldl_append, List.foldl_cons, List.foldl_nil, ← coveringZone]
    by_cases inside : inZone owner name = true
    · cases best : coveringZone names owner with
      | none =>
        rw [best] at ih
        rw [if_pos (by simpa using inside)]
        refine ⟨by simp, inside, fun other member inOther => ?_⟩
        rcases List.mem_append.mp member with old | new
        · rw [ih other old] at inOther
          cases inOther
        · rw [List.mem_singleton.mp new]
      | some zone =>
        rw [best] at ih
        obtain ⟨member, inBest, longest⟩ := ih
        by_cases longer : zone.length < name.length
        · rw [if_pos (by simpa using ⟨inside, longer⟩)]
          refine ⟨by simp, inside, fun other listed inOther => ?_⟩
          rcases List.mem_append.mp listed with old | new
          · exact (longest other old inOther).trans longer.le
          · rw [List.mem_singleton.mp new]
        · rw [if_neg (by simpa using fun _ => longer)]
          refine ⟨List.mem_append_left _ member, inBest, fun other listed inOther => ?_⟩
          rcases List.mem_append.mp listed with old | new
          · exact longest other old inOther
          · rw [List.mem_singleton.mp new]
            exact Nat.le_of_not_lt longer
    · rw [if_neg (by simp [inside])]
      rw [Bool.not_eq_true] at inside
      cases best : coveringZone names owner with
      | none =>
        rw [best] at ih
        intro other member
        rcases List.mem_append.mp member with old | new
        · exact ih other old
        · rw [List.mem_singleton.mp new, inside]
      | some zone =>
        rw [best] at ih
        obtain ⟨member, inBest, longest⟩ := ih
        refine ⟨List.mem_append_left _ member, inBest, fun other listed inOther => ?_⟩
        rcases List.mem_append.mp listed with old | new
        · exact longest other old inOther
        · rw [List.mem_singleton.mp new, inside] at inOther
          cases inOther

theorem Covers.unique {names : List Text} {owner : Text} {best other : Option Text}
    (covers : Covers names owner best) (also : Covers names owner other) : best = other := by
  cases best with
  | none =>
    cases other with
    | none => rfl
    | some zone =>
      have outside := covers zone also.1
      rw [also.2.1] at outside
      cases outside
  | some zone =>
    cases other with
    | none =>
      have outside := also zone covers.1
      rw [covers.2.1] at outside
      cases outside
    | some zone' =>
      have shorter := covers.2.2 zone' also.1 also.2.1
      have longer := also.2.2 zone covers.1 covers.2.1
      have suffix := List.suffix_of_suffix_length_le (suffix_of_inZone covers.2.1)
        (suffix_of_inZone also.2.1) longer
      exact congrArg some (suffix.eq_of_length_le shorter)

/-! ## The zone of a row -/

/-- What a zone is however its records are chosen: rrsets at or below its name, one `SOA`, one
`PTR` and one `CNAME` at a name, contents in every rrset and none twice. -/
structure Zone.Sound (zone : Zone) : Prop where
  inside : ∀ key rrset, zone.get key = some rrset → inZone key.1 zone.name = true
  soa : ∃ rrset, zone.get (zone.name, .soa) = some rrset ∧ rrset.records.length = 1
  soaOnly : ∀ owner rrset, zone.get (owner, .soa) = some rrset → owner = zone.name
  single : ∀ owner type rrset, type = .ptr ∨ type = .cname → zone.get (owner, type) = some rrset →
    rrset.records.length = 1
  filled : ∀ key rrset, zone.get key = some rrset → rrset.records ≠ []
  nodup : ∀ key rrset, zone.get key = some rrset → rrset.records.Nodup

/-- A record keeps a zone sound when it is in the zone, is no `SOA`, and is the first of its
name if it is a `PTR` or a `CNAME`. -/
theorem Zone.Sound.put {zone : Zone} (sound : zone.Sound) {owner : Text} {type : RrType} {ttl : Nat}
    {content : Text} (inside : inZone owner zone.name = true) (notSoa : type ≠ .soa)
    (first : type = .ptr ∨ type = .cname → zone.get (owner, type) = none) :
    (zone.put owner type ttl content).Sound := by
  have soaKey : ∀ name : Text, (name, RrType.soa) ≠ (owner, type) := fun name same =>
    notSoa (congrArg Prod.snd same).symm
  refine ⟨fun key rrset found => ?_, ?_, fun other rrset found => ?_,
    fun other kind rrset alone found => ?_, fun key rrset found => ?_, fun key rrset found => ?_⟩
  · rw [Zone.name_put]
    rw [Zone.get_put] at found
    split at found
    · rename_i here
      rw [here]
      exact inside
    · exact sound.inside key rrset found
  · obtain ⟨rrset, found, one⟩ := sound.soa
    rw [Zone.name_put]
    exact ⟨rrset, by rw [Zone.get_put_of_ne (soaKey _), found], one⟩
  · rw [Zone.get_put_of_ne (soaKey other)] at found
    rw [Zone.name_put]
    exact sound.soaOnly other rrset found
  · by_cases here : (other, kind) = (owner, type)
    · obtain ⟨rfl, rfl⟩ := Prod.mk.inj here
      rw [Zone.get_put_of_none (first alone)] at found
      obtain rfl := Option.some.inj found
      rfl
    · rw [Zone.get_put_of_ne here] at found
      exact sound.single other kind rrset alone found
  · rw [Zone.get_put] at found
    split at found
    · obtain rfl := Option.some.inj found
      cases held : zone.get (owner, type) with
      | none => simp
      | some old => exact (records_add old ttl content (sound.nodup _ old held)).1
    · exact sound.filled key rrset found
  · rw [Zone.get_put] at found
    split at found
    · obtain rfl := Option.some.inj found
      cases held : zone.get (owner, type) with
      | none => simp
      | some old => exact (records_add old ttl content (sound.nodup _ old held)).2
    · exact sound.nodup key rrset found

theorem name_emptyZone (name : Text) (soa : SoaFields) : (emptyZone name soa).name = name := by
  rw [emptyZone, Zone.name_put, Zone.name_put]

/-- A new zone has an `SOA` and an `NS`, of one record each. -/
theorem get_emptyZone (name : Text) (soa : SoaFields) :
    (∃ content, (emptyZone name soa).get (name, .soa) = some ⟨name, .soa, localRecordTtl,
    [content]⟩) ∧ ∀ key rrset, (emptyZone name soa).get key = some rrset →
      (key = (name, .soa) ∨ key = (name, .ns)) ∧ rrset.records.length = 1 := by
  have nothing : ∀ key, (⟨name, [], List.nodup_nil⟩ : Zone).get key = none := fun _ => rfl
  have apart : ((name, .soa) : RrKey) ≠ (name, .ns) := fun same => by cases congrArg Prod.snd same
  constructor
  · rw [emptyZone, Zone.get_put_of_ne apart, Zone.get_put_of_none (nothing _)]
    exact ⟨_, rfl⟩
  · intro key rrset found
    rw [emptyZone, Zone.get_put, Zone.get_put_of_ne apart.symm, nothing] at found
    split at found
    · rename_i here
      obtain rfl := Option.some.inj found
      exact ⟨.inr here, rfl⟩
    · rw [Zone.get_put, nothing] at found
      split at found
      · rename_i here
        obtain rfl := Option.some.inj found
        exact ⟨.inl here, rfl⟩
      · rw [nothing] at found
        cases found

theorem sound_emptyZone (name : Text) (soa : SoaFields) : (emptyZone name soa).Sound := by
  obtain ⟨⟨content, own⟩, only⟩ := get_emptyZone name soa
  have named := name_emptyZone name soa
  refine ⟨fun key rrset found => ?_, ?_, fun owner rrset found => ?_,
    fun owner type rrset alone found => ?_, fun key rrset found => ?_, fun key rrset found => ?_⟩
  · rw [named]
    rcases (only key rrset found).1 with rfl | rfl <;> exact inZone_self name
  · rw [named]
    exact ⟨_, own, rfl⟩
  · rw [named]
    rcases (only _ rrset found).1 with same | same
    · exact congrArg Prod.fst same
    · cases congrArg Prod.snd same
  · exact (only _ rrset found).2
  · have one := (only key rrset found).2
    rintro empty
    rw [empty] at one
    cases one
  · obtain ⟨content, one⟩ := List.length_eq_one_iff.mp (only key rrset found).2
    rw [one]
    exact List.nodup_singleton _

/-- No other data stands beside a `CNAME`. -/
def Zone.Exclusive (zone : Zone) : Prop :=
  ∀ owner, zone.has (owner, .cname) = true → ∀ type, zone.has (owner, type) = true → type = .cname

/-- A row's records serve something at a name. -/
def Serves (records : List DnsRecord) (name owner : Text) (type : RrType) : Prop :=
  ∃ record ∈ records, absoluteName record.fqdn = some owner ∧
    servesAt records name owner record = true ∧ record.type = type ∧
    (recordContent record).isSome = true

theorem type_of_recordContent {record : DnsRecord} {content : Text}
    (served : recordContent record = some content) : record.type ≠ .soa ∧ record.type ≠ .ns := by
  rw [recordContent] at served
  cases type : record.type <;> simp_all

section Row

variable {records : List DnsRecord} {name : Text}

theorem putRecord_cases (zone : Zone) (record : DnsRecord) :
    (putRecord records zone record = zone ∧ (∀ owner, absoluteName record.fqdn = some owner →
      servesAt records zone.name owner record = true → (recordContent record).isSome = true →
        zone.has (owner, record.type) = true)) ∨
    ∃ owner content, absoluteName record.fqdn = some owner ∧
      servesAt records zone.name owner record = true ∧ recordContent record = some content ∧
      (record.type = .ptr → zone.get (owner, .ptr) = none) ∧
      putRecord records zone record = zone.put owner record.type (servedTtl record) content := by
  rw [putRecord]
  cases named : absoluteName record.fqdn with
  | none => exact .inl ⟨rfl, by simp⟩
  | some owner =>
    dsimp only
    by_cases serves : servesAt records zone.name owner record = true
    · rw [if_neg (by simp [serves])]
      by_cases later : (record.type = .ptr && zone.has (owner, .ptr)) = true
      · rw [if_pos later]
        rw [Bool.and_eq_true, decide_eq_true_eq] at later
        refine .inl ⟨rfl, fun other same _ _ => ?_⟩
        obtain rfl := Option.some.inj same
        rw [later.1]
        exact later.2
      · rw [if_neg later]
        cases content : recordContent record with
        | none => exact .inl ⟨rfl, by simp⟩
        | some text =>
          refine .inr ⟨owner, text, rfl, serves, rfl, fun ptr => ?_, rfl⟩
          simpa [ptr, Zone.has] using later
    · rw [if_pos (by simp [serves])]
      refine .inl ⟨rfl, fun other same served _ => ?_⟩
      obtain rfl := Option.some.inj same
      exact absurd served serves

theorem name_putRecord (zone : Zone) (record : DnsRecord) : (putRecord records zone record).name =
    zone.name := by
  rcases putRecord_cases zone record with ⟨same, -⟩ | ⟨owner, content, -, -, -, -, made⟩
  · rw [same]
  · rw [made, Zone.name_put]

theorem name_foldl_putRecord (rest : List DnsRecord) (zone : Zone) :
    (rest.foldl (putRecord records) zone).name = zone.name := by
  induction rest generalizing zone with
  | nil => rfl
  | cons record rest ih => rw [List.foldl_cons, ih, name_putRecord]

/-- **A zone has what its records serve**, beside what it started with. -/
theorem has_foldl_putRecord (rest : List DnsRecord) (zone : Zone) (owner : Text) (type : RrType) :
    (rest.foldl (putRecord records) zone).has (owner, type) = true ↔
      zone.has (owner, type) = true ∨ ∃ record ∈ rest, absoluteName record.fqdn = some owner ∧
        servesAt records zone.name owner record = true ∧ record.type = type ∧
          (recordContent record).isSome = true := by
  induction rest generalizing zone with
  | nil => simp
  | cons record rest ih =>
    rw [List.foldl_cons, ih, name_putRecord]
    rcases putRecord_cases zone record with ⟨same, had⟩ | ⟨own, content, named, serves,
      served, -, made⟩
    · rw [same]
      constructor
      · rintro (old | ⟨other, member, facts⟩)
        · exact .inl old
        · exact .inr ⟨other, List.mem_cons_of_mem _ member, facts⟩
      · rintro (old | ⟨other, member, named, serves, rfl, served⟩)
        · exact .inl old
        · rcases List.mem_cons.mp member with rfl | later
          · exact .inl (had owner named serves served)
          · exact .inr ⟨other, later, named, serves, rfl, served⟩
    · rw [made, Zone.has_put, Bool.or_eq_true, decide_eq_true_eq]
      constructor
      · rintro ((new | old) | ⟨other, member, facts⟩)
        · obtain ⟨rfl, rfl⟩ := Prod.mk.inj new
          exact .inr ⟨record, List.mem_cons_self, named, serves, rfl, by rw [served]; rfl⟩
        · exact .inl old
        · exact .inr ⟨other, List.mem_cons_of_mem _ member, facts⟩
      · rintro (old | ⟨other, member, named', serves', rfl, served'⟩)
        · exact .inl (.inr old)
        · rcases List.mem_cons.mp member with rfl | later
          · rw [named] at named'
            exact .inl (.inl (by rw [Option.some.inj named']))
          · exact .inr ⟨other, later, named', serves', rfl, served'⟩

/-- Where the loop over a row's records is: the zone is sound, nothing but a `CNAME` stands
where there is a first one, and the one of a `CNAME` that is there is behind. -/
structure Built (records : List DnsRecord) (name : Text) (rest : List DnsRecord) (zone : Zone) :
    Prop where
  named : zone.name = name
  sound : zone.Sound
  alone : ∀ owner type, zone.has (owner, type) = true → (cnameAt records name owner).isSome = true →
    type = .cname
  cname : ∀ owner, zone.has (owner, .cname) = true → ∃ id, cnameAt records name owner = some id ∧
    ∀ record ∈ rest, record.id ≠ id

theorem built_step {record : DnsRecord} {rest : List DnsRecord} {zone : Zone}
    (distinct : (records.map DnsRecord.id).Nodup) (member : record ∈ records)
    (fresh : ∀ other ∈ rest, other.id ≠ record.id)
    (built : Built records name (record :: rest) zone) :
    Built records name rest (putRecord records zone record) := by
  have weaker : ∀ owner, zone.has (owner, .cname) = true → ∃ id,
      cnameAt records name owner = some id ∧ ∀ record ∈ rest, record.id ≠ id := fun owner has => by
    obtain ⟨id, first, behind⟩ := built.cname owner has
    exact ⟨id, first, fun other listed => behind other (List.mem_cons_of_mem _ listed)⟩
  rcases putRecord_cases zone record with ⟨same, -⟩ | ⟨owner, content, named, serves, served,
    notYet, made⟩
  · rw [same]
    exact ⟨built.named, built.sound, built.alone, weaker⟩
  · rw [built.named, servesAt, Bool.and_eq_true, Bool.and_eq_true, Bool.or_eq_true] at serves
    obtain ⟨⟨inside, chosen⟩, isFirst⟩ := serves
    -- A `CNAME` that is served is the first of its name.
    have own : record.type = .cname → cnameAt records name owner = some record.id := by
      intro isCname
      have some' : (cnameAt records name owner).isSome = true := by simpa [isCname] using isFirst
      obtain ⟨id, first⟩ := Option.isSome_iff_exists.mp some'
      rw [first] at chosen
      rw [first, show id = record.id by simpa using chosen]
    have newCname : record.type = .cname → zone.get (owner, .cname) = none := by
      intro isCname
      by_contra old
      have has : zone.has (owner, .cname) = true := Option.isSome_iff_ne_none.mpr old
      obtain ⟨id, first, behind⟩ := built.cname owner has
      rw [own isCname] at first
      exact behind record List.mem_cons_self (Option.some.inj first)
    rw [made]
    refine ⟨by rw [Zone.name_put, built.named], ?_, fun other type has first => ?_,
      fun other has => ?_⟩
    · refine built.sound.put (by rw [built.named]; exact inside) (type_of_recordContent served).1 ?_
      rintro (ptr | cname)
      · rw [ptr]
        exact notYet ptr
      · rw [cname]
        exact newCname cname
    · rw [Zone.has_put, Bool.or_eq_true, decide_eq_true_eq] at has
      rcases has with new | old
      · obtain ⟨rfl, rfl⟩ := Prod.mk.inj new
        obtain ⟨id, found⟩ := Option.isSome_iff_exists.mp first
        rw [found] at chosen
        obtain rfl : id = record.id := by simpa using chosen
        obtain ⟨other, cname, same⟩ := Option.map_eq_some_iff.mp found
        have equal := List.inj_on_of_nodup_map distinct (List.mem_of_find?_eq_some cname) member
          same
        have test := List.find?_some cname
        rw [← equal]
        simp only [Bool.and_eq_true, decide_eq_true_eq] at test
        exact test.1.1
      · exact built.alone other type old first
    · rw [Zone.has_put, Bool.or_eq_true, decide_eq_true_eq] at has
      rcases has with new | old
      · obtain ⟨rfl, isCname⟩ := Prod.mk.inj new
        exact ⟨record.id, own isCname.symm, fresh⟩
      · exact weaker other old

theorem built_foldl {rest : List DnsRecord} {zone : Zone}
    (distinct : (records.map DnsRecord.id).Nodup) (members : ∀ record ∈ rest, record ∈ records)
    (ids : (rest.map DnsRecord.id).Nodup) (built : Built records name rest zone) :
    Built records name [] (rest.foldl (putRecord records) zone) := by
  induction rest generalizing zone with
  | nil => exact built
  | cons record rest ih =>
    obtain ⟨fresh, idsRest⟩ := List.nodup_cons.mp ids
    refine ih (fun other listed => members other (List.mem_cons_of_mem _ listed)) idsRest ?_
    refine built_step distinct (members record List.mem_cons_self)
      (fun other listed same => ?_) built
    exact fresh (same ▸ List.mem_map_of_mem listed)

end Row

/-- **A row's zone is sound, has no data beside a `CNAME`, and has what its records serve.** -/
theorem zoneOfRow_spec {model : DnsModel} {row : ZoneRow} {zone : Zone}
    (made : zoneOfRow model.records row = some zone) :
    zone.Sound ∧ zone.Exclusive ∧ (bareZone row).map Zone.name = some zone.name ∧
      ∀ owner type, type ≠ .soa → type ≠ .ns →
        (zone.has (owner, type) = true ↔ Serves (ofZone model.records row) zone.name
        owner type) := by
  obtain ⟨bare, started, rfl⟩ := Option.map_eq_some_iff.mp made
  obtain ⟨name, -, rest⟩ := Option.bind_eq_some_iff.mp started
  obtain ⟨ns, -, rest⟩ := Option.bind_eq_some_iff.mp rest
  obtain ⟨admin, -, rest⟩ := Option.bind_eq_some_iff.mp rest
  obtain rfl := Option.some.inj rest
  generalize (⟨ns, admin, row.soaSerial, row.soaRefresh, row.soaRetry, row.soaExpire,
    row.soaMinimumTtl⟩ :
    SoaFields) = soa at started ⊢
  have named := name_emptyZone name soa
  have foldName := @name_foldl_putRecord (ofZone model.records row) (ofZone model.records row)
    (emptyZone name soa)
  have only : ∀ owner type, (emptyZone name soa).has (owner, type) = true →
      owner = name ∧ (type = .soa ∨ type = .ns) := fun owner type has => by
    obtain ⟨rrset, found⟩ := Option.isSome_iff_exists.mp has
    rcases ((get_emptyZone name soa).2 _ rrset found).1 with same | same <;>
      obtain ⟨rfl, rfl⟩ := Prod.mk.inj same
    · exact ⟨rfl, .inl rfl⟩
    · exact ⟨rfl, .inr rfl⟩
  have distinct : ((ofZone model.records row).map DnsRecord.id).Nodup :=
    model.ids.sublist (List.filter_sublist.map _)
  have start : Built (ofZone model.records row) name (ofZone model.records row)
      (emptyZone name soa) := by
    refine ⟨named, sound_emptyZone name soa, fun owner type has first => ?_, fun owner has => ?_⟩
    · obtain ⟨rfl, -⟩ := only owner type has
      rw [cnameAt, Option.isSome_map] at first
      obtain ⟨record, found⟩ := Option.isSome_iff_exists.mp first
      have test := List.find?_some found
      simp at test
    · rcases (only owner .cname has).2 with same | same <;> cases same
  have built := built_foldl distinct (fun _ member => member) distinct start
  refine ⟨built.sound, fun owner has type other => ?_, ?_, fun owner type notSoa notNs => ?_⟩
  · obtain ⟨id, first, -⟩ := built.cname owner has
    exact built.alone owner type other (by rw [first]; rfl)
  · rw [started, Option.map_some, foldName]
  · rw [has_foldl_putRecord, foldName, Serves]
    constructor
    · rintro (old | served)
      · rcases (only owner type old).2 with rfl | rfl
        · exact absurd rfl notSoa
        · exact absurd rfl notNs
      · exact served
    · exact .inr

/-! ## The zones of the rows -/

theorem nodup_setZone {out : List Zone} {zone : Zone} (distinct : (out.map Zone.name).Nodup) :
    ((setZone out zone).map Zone.name).Nodup := by
  rw [setZone]
  split
  · have same : (out.map fun other => if other.name = zone.name then zone else other).map Zone.name
        = out.map Zone.name := by
      rw [List.map_map]
      refine List.map_congr_left fun other _ => ?_
      rw [Function.comp_apply]
      split
      · rename_i named
        exact named.symm
      · rfl
    rw [same]
    exact distinct
  · rename_i fresh
    rw [List.map_append]
    refine distinct.append (List.nodup_singleton _) fun name old new => ?_
    obtain ⟨other, member, rfl⟩ := List.mem_map.mp old
    exact fresh (List.any_eq_true.mpr ⟨other, member, by simpa using new⟩)

theorem lookup_setZone (out : List Zone) (zone : Zone) (name : Text) :
    Keyed.lookup Zone.name (setZone out zone) name =
      if name = zone.name then some zone else Keyed.lookup Zone.name out name := by
  rw [setZone]
  split
  · rename_i held
    rw [Keyed.lookup, List.find?_map]
    have same : (fun item : Zone => decide (item.name = name)) ∘
        (fun other : Zone => if other.name = zone.name then zone else other) =
          fun item => decide (item.name = name) := funext fun other => by
      rw [Function.comp_apply]
      split
      · rename_i named
        rw [named]
      · rfl
    rw [same]
    by_cases here : name = zone.name
    · obtain ⟨other, member, named⟩ := List.any_eq_true.mp held
      rw [decide_eq_true_eq] at named
      rw [if_pos here]
      cases found : out.find? fun item => decide (item.name = name) with
      | none =>
        have absent := List.find?_eq_none.mp found other member
        simp [named, here] at absent
      | some first =>
        have first' := List.find?_some found
        rw [decide_eq_true_eq] at first'
        rw [Option.map_some, if_pos (first'.trans here)]
    · rw [if_neg here, Keyed.lookup]
      cases found : out.find? fun item => decide (item.name = name) with
      | none => rfl
      | some first =>
        have first' := List.find?_some found
        rw [decide_eq_true_eq] at first'
        rw [Option.map_some, if_neg (first' ▸ here)]
  · rename_i fresh
    rw [Keyed.lookup_append]
    by_cases here : name = zone.name
    · have absent : Keyed.lookup Zone.name out name = none :=
        Keyed.lookup_eq_none.mpr fun other member same =>
          fresh (List.any_eq_true.mpr ⟨other, member, by simpa using same.trans here⟩)
      rw [if_pos here, absent, Option.none_or]
      exact List.find?_cons_of_pos (decide_eq_true here.symm)
    · have last : Keyed.lookup Zone.name [zone] name = none :=
        Keyed.lookup_eq_none.mpr fun other member => by
          rw [List.mem_singleton.mp member]
          exact Ne.symm here
      rw [if_neg here, last, Option.or_none]

/-- The last row whose zone has a name: its zone is the one that counts. -/
def lastRow (model : DnsModel) (zoneName : Text) : Option ZoneRow :=
  model.zones.reverse.find? fun row => (bareZone row).any (·.name = zoneName)

/-- The names of the rows that have a zone. -/
def rowNames (model : DnsModel) : List Text := model.zones.filterMap fun row =>
    (bareZone row).map Zone.name

/-- The row that counts for a zone serves something at a name. -/
def RowServes (model : DnsModel) (zoneName owner : Text) (type : RrType) : Prop :=
  ∃ row, lastRow model zoneName = some row ∧ Serves (ofZone model.records row) zoneName owner type

theorem name_zoneOfRow {records : List DnsRecord} {row : ZoneRow} :
    (zoneOfRow records row).map Zone.name = (bareZone row).map Zone.name := by
  rw [zoneOfRow, Option.map_map]
  refine congrArg (fun f => Option.map f (bareZone row)) (funext fun zone => ?_)
  exact name_foldl_putRecord _ zone

theorem lookup_rowZones (model : DnsModel) (name : Text) :
    Keyed.lookup Zone.name (rowZones model) name =
      (lastRow model name).bind (zoneOfRow model.records) ∧
      ((rowZones model).map Zone.name).Nodup := by
  rw [rowZones, lastRow]
  induction model.zones using List.reverseRecOn with
  | nil => exact ⟨rfl, List.nodup_nil⟩
  | append_singleton rows row ih =>
    obtain ⟨found, distinct⟩ := ih
    rw [List.foldl_append, List.foldl_cons, List.foldl_nil, List.reverse_append,
      List.reverse_singleton, List.singleton_append, List.find?_cons]
    have named := @name_zoneOfRow model.records row
    cases made : zoneOfRow model.records row with
    | none =>
      rw [made, Option.map_none] at named
      rw [Option.map_none, Option.getD_none, Option.map_eq_none_iff.mp named.symm, Option.any_none]
      exact ⟨found, distinct⟩
    | some zone =>
      rw [made, Option.map_some] at named
      obtain ⟨bare, started, same⟩ := Option.map_eq_some_iff.mp named.symm
      rw [Option.map_some, Option.getD_some, lookup_setZone, started, Option.any_some, same]
      refine ⟨?_, nodup_setZone distinct⟩
      by_cases here : name = zone.name
      · rw [if_pos here, decide_eq_true here.symm]
        exact made.symm
      · rw [if_neg here, decide_eq_false (Ne.symm here)]
        exact found

theorem nodup_rowZones (model : DnsModel) : ((rowZones model).map Zone.name).Nodup :=
  (lookup_rowZones model []).2

theorem mem_rowZones {model : DnsModel} {zone : Zone} : zone ∈ rowZones model ↔
    ∃ row, lastRow model zone.name = some row ∧ zoneOfRow model.records row = some zone := by
  have found := (lookup_rowZones model zone.name).1
  constructor
  · intro member
    rw [Keyed.lookup_of_mem (nodup_rowZones model) member] at found
    exact Option.bind_eq_some_iff.mp found.symm
  · rintro ⟨row, last, made⟩
    rw [last, Option.bind_some, made] at found
    exact Keyed.mem_of_lookup found

theorem mem_names_rowZones {model : DnsModel} (name : Text) :
    name ∈ (rowZones model).map Zone.name ↔ name ∈ rowNames model := by
  constructor
  · intro member
    obtain ⟨zone, listed, rfl⟩ := List.mem_map.mp member
    obtain ⟨row, last, made⟩ := mem_rowZones.mp listed
    have named := @name_zoneOfRow model.records row
    rw [made, Option.map_some] at named
    exact List.mem_filterMap.mpr ⟨row, List.mem_reverse.mp (List.mem_of_find?_eq_some last),
      named.symm⟩
  · intro member
    obtain ⟨row, listed, named⟩ := List.mem_filterMap.mp member
    obtain ⟨bare, started, same⟩ := Option.map_eq_some_iff.mp named
    have some' : (lastRow model name).isSome = true := by
      rw [lastRow, List.find?_isSome]
      exact ⟨row, List.mem_reverse.mpr listed, by rw [started, Option.any_some,
        decide_eq_true same]⟩
    obtain ⟨last, found⟩ := Option.isSome_iff_exists.mp some'
    have test := List.find?_some found
    obtain ⟨bare', started', same'⟩ := (Option.any_eq_true _ _).mp test
    rw [decide_eq_true_eq] at same'
    have made : zoneOfRow model.records last =
        some ((ofZone model.records last).foldl (putRecord (ofZone model.records last)) bare') := by
      rw [zoneOfRow, started', Option.map_some]
    have zoneName := @name_foldl_putRecord (ofZone model.records last)
      (ofZone model.records last) bare'
    refine List.mem_map.mpr ⟨_, mem_rowZones.mpr ⟨last, ?_, made⟩, zoneName.trans same'⟩
    rw [zoneName, same', found]

theorem rowZones_spec {model : DnsModel} {zone : Zone} (member : zone ∈ rowZones model) :
    zone.Sound ∧ zone.Exclusive ∧ ∀ owner type, type ≠ .soa → type ≠ .ns →
      (zone.has (owner, type) = true ↔ RowServes model zone.name owner type) := by
  obtain ⟨row, last, made⟩ := mem_rowZones.mp member
  obtain ⟨sound, exclusive, -, serves⟩ := zoneOfRow_spec made
  refine ⟨sound, exclusive, fun owner type notSoa notNs =>
    (serves owner type notSoa notNs).trans ?_⟩
  constructor
  · exact fun served => ⟨row, last, served⟩
  · rintro ⟨other, otherLast, served⟩
    obtain rfl := Option.some.inj (otherLast.symm.trans last)
    exact served

end Pdns

end Cidrella
