import Cidrella.PdnsZones

/-!
# What to send PowerDNS

`backends/pdns/diff.js`: the zones to create, the rrsets to replace or delete in the zones
Authoritative has, and the zones to delete, so that it holds the zones there should be. The
server is modelled by what its API shows: zones under ids of its own, each with rrsets whose
records may be disabled.

Sending the changes gives the server exactly the zones there should be, after which there
is nothing left to send, and the zones named for Recursor's cache are those of which more
than the serial changed (`diffZones_converges`).
-/

set_option autoImplicit false

namespace Cidrella

open Address DnsNames

namespace Pdns

/-! ## The API's objects -/

/-- A record of the API. -/
structure ApiRecord where
  content : Text
  disabled : Bool
  deriving DecidableEq, Repr

/-- An rrset of the API. -/
structure ApiRrset where
  name : Text
  type : RrType
  ttl : Nat
  records : List ApiRecord
  deriving DecidableEq, Repr

/-- `${rrset.name}|${rrset.type}`. -/
def ApiRrset.key (rrset : ApiRrset) : RrKey := (rrset.name, rrset.type)

/-- The contents it answers with, sorted. -/
def ApiRrset.enabled (rrset : ApiRrset) : List Text :=
  sortTexts ((rrset.records.filter fun record => !record.disabled).map ApiRecord.content)

/-- An entry of `haveRrsets`. -/
def ApiRrset.served (rrset : ApiRrset) : Rrset := ⟨rrset.name, rrset.type, rrset.ttl, rrset.enabled⟩

/-- A zone of the API. No two of its rrsets have one owner and type. -/
structure ApiZone where
  id : Nat
  name : Text
  rrsets : List ApiRrset
  distinct : (rrsets.map ApiRrset.key).Nodup
  deriving DecidableEq, Repr

/-- The zones of a server. No two have one id or one name. -/
structure Server where
  zones : List ApiZone
  ids : (zones.map ApiZone.id).Nodup
  names : (zones.map ApiZone.name).Nodup

/-- `current.get`. -/
def Server.zone? (server : Server) (name : Text) : Option ApiZone :=
  Keyed.lookup ApiZone.name server.zones name

/-! ## The difference -/

/-- `apiRrset`. -/
def apiRrset (rrset : Rrset) : ApiRrset :=
  ⟨rrset.name, rrset.type, rrset.ttl, rrset.records.map fun content => ⟨content, false⟩⟩

/-- The body of a new zone. -/
structure ZoneBody where
  name : Text
  kind : Text := "Native".toList
  soaEditApi : Text := []
  soaEdit : Text := []
  rrsets : List ApiRrset
  distinct : (rrsets.map ApiRrset.key).Nodup
  deriving DecidableEq, Repr

/-- A change of a patch, by its `changetype`. -/
inductive RrsetChange where
  | replace (rrset : ApiRrset)
  | delete (name : Text) (type : RrType)
  deriving DecidableEq, Repr

/-- A patch of a zone; `quiet` when only a serial moved. -/
structure Patch where
  id : Nat
  name : Text
  rrsets : List RrsetChange
  quiet : Bool
  deriving DecidableEq, Repr

/-- A zone to delete. -/
structure Deletion where
  id : Nat
  name : Text
  deriving DecidableEq, Repr

/-- What `diffZones` returns. -/
structure Plan where
  creates : List ZoneBody
  patches : List Patch
  deletes : List Deletion
  changedZones : List Text
  deriving DecidableEq, Repr

/-- `soaWithoutSerial`. -/
def soaWithoutSerial (content : Text) : Text := [' '].intercalate ((content.splitOn ' ').eraseIdx 2)

theorem key_apiRrset (rrset : Rrset) : (apiRrset rrset).key = rrset.key := rfl

theorem ttl_apiRrset (rrset : Rrset) : (apiRrset rrset).ttl = rrset.ttl := rfl

/-- The body that creates a zone. -/
def zoneBody (zone : Zone) : ZoneBody where
  name := zone.name
  rrsets := zone.rrsets.map apiRrset
  distinct := by
    rw [List.map_map]
    exact zone.distinct

/-- An rrset that is served as it should be. -/
def sameRrset (want got : Rrset) : Bool := got.ttl = want.ttl && got.records = want.records

/-- `serialOnly`. -/
def serialOnly (want : Rrset) (got : Option Rrset) : Bool :=
  want.type = .soa && got.any fun got =>
    got.ttl = want.ttl && got.records.length = 1 &&
      soaWithoutSerial (got.records.headD []) = soaWithoutSerial (want.records.headD [])

/-- `haveRrsets.get`. -/
def heldRrset (current : ApiZone) (key : RrKey) : Option Rrset :=
  Keyed.lookup Rrset.key (current.rrsets.map ApiRrset.served) key

/-- The rrsets of a zone that the server does not serve as they should be. -/
def changedRrsets (zone : Zone) (current : ApiZone) : List Rrset :=
  zone.rrsets.filter fun want => !(heldRrset current want.key).any (sameRrset want)

/-- The rrsets that the server serves and should not. -/
def goneRrsets (zone : Zone) (current : ApiZone) : List Rrset :=
  (current.rrsets.map ApiRrset.served).filter fun got => !zone.has got.key

/-- The changes of a zone. -/
def rrsetChanges (zone : Zone) (current : ApiZone) : List RrsetChange :=
  (changedRrsets zone current).map (fun want => .replace (apiRrset want)) ++
    (goneRrsets zone current).map fun got => .delete got.name got.type

/-- Whether only the serial of a zone moved. -/
def isQuiet (zone : Zone) (current : ApiZone) : Bool :=
  (changedRrsets zone current).all (fun want => serialOnly want (heldRrset current want.key)) &&
    (goneRrsets zone current).isEmpty

/-- The patch of a zone that the server has, if it needs one. -/
def zonePatch (zone : Zone) (current : ApiZone) : Option Patch :=
  if rrsetChanges zone current = [] then none
  else some ⟨current.id, zone.name, rrsetChanges zone current, isQuiet zone current⟩

/-- `diffZones`. -/
def diffZones (desired : List Zone) (current : Server) : Plan :=
  let creates := desired.filter fun zone => (current.zone? zone.name).isNone
  let deletes := current.zones.filter fun zone => (Keyed.lookup Zone.name desired zone.name).isNone
  { creates := creates.map zoneBody
    patches := desired.filterMap fun zone => (current.zone? zone.name).bind (zonePatch zone)
    deletes := deletes.map fun zone => ⟨zone.id, zone.name⟩
    changedZones :=
      (desired.filter fun zone =>
        match current.zone? zone.name with
        | none => true
        | some held => (zonePatch zone held).any (!·.quiet)).map Zone.name ++
      deletes.map ApiZone.name }

/-! ## What the server does with it -/

/-- A change as a change of a keyed list. -/
def RrsetChange.keyed : RrsetChange → Keyed.Change ApiRrset RrKey
  | .replace rrset => .put rrset
  | .delete name type => .drop (name, type)

/-- A zone after a patch. -/
def ApiZone.patched (zone : ApiZone) (changes : List RrsetChange) : ApiZone where
  id := zone.id
  name := zone.name
  rrsets := (changes.map RrsetChange.keyed).foldl (Keyed.step ApiRrset.key) zone.rrsets
  distinct := Keyed.nodup_foldl_step zone.distinct

namespace Server

/-- A new zone, under an id of its own. One whose name is taken is refused. -/
def create (server : Server) (body : ZoneBody) : Server :=
  if taken : body.name ∈ server.zones.map ApiZone.name then server
  else
    { zones := server.zones ++
      [⟨freshId (server.zones.map ApiZone.id), body.name, body.rrsets, body.distinct⟩]
      ids := by
        rw [List.map_append]
        refine server.ids.append (List.nodup_singleton _) ?_
        intro id old new
        obtain rfl := List.mem_singleton.mp new
        exact freshId_not_mem _ old
      names := by
        rw [List.map_append]
        refine server.names.append (List.nodup_singleton _) ?_
        intro name old new
        obtain rfl := List.mem_singleton.mp new
        exact taken old }

/-- The zone of an id, changed. -/
def patch (server : Server) (id : Nat) (changes : List RrsetChange) : Server where
  zones := server.zones.map fun zone => if zone.id = id then zone.patched changes else zone
  ids := by
    rw [List.map_map]
    refine (congrArg List.Nodup (List.map_congr_left fun zone _ => ?_)).mpr server.ids
    dsimp only [Function.comp_apply]
    split <;> rfl
  names := by
    rw [List.map_map]
    refine (congrArg List.Nodup (List.map_congr_left fun zone _ => ?_)).mpr server.names
    dsimp only [Function.comp_apply]
    split <;> rfl

/-- The zone of an id, deleted. -/
def remove (server : Server) (id : Nat) : Server where
  zones := server.zones.filter (·.id ≠ id)
  ids := server.ids.sublist (List.filter_sublist.map _)
  names := server.names.sublist (List.filter_sublist.map _)

/-- Sending all of a plan. -/
def apply (server : Server) (plan : Plan) : Server :=
  let server := plan.creates.foldl create server
  let server := plan.patches.foldl (fun server patch => server.patch patch.id patch.rrsets) server
  plan.deletes.foldl (fun server deletion => server.remove deletion.id) server

end Server

/-! ## What a zone answers -/

/-- What a zone answers: for an owner and a type the time to live and the contents. -/
abbrev Answers := RrKey → Option (Nat × List Text)

/-- What a zone there should be answers. -/
def Zone.answers (zone : Zone) : Answers := fun key =>
  (zone.get key).map fun rrset => (rrset.ttl, rrset.records)

/-- What a zone of the server answers: disabled records do not count. -/
def ApiZone.answers (zone : ApiZone) : Answers := fun key =>
  (Keyed.lookup ApiRrset.key zone.rrsets key).map fun rrset => (rrset.ttl, rrset.enabled)

/-- The fields of a content but for the third, which is the serial of an `SOA`. -/
def fieldsWithoutSerial (content : Text) : List Text := (content.splitOn ' ').eraseIdx 2

/-- Two zones, or their absence, that answer the same but for the serial. -/
def SameButSerial : Option Answers → Option Answers → Prop
  | none, none => True
  | some held, some wanted => ∀ key, held key = wanted key ∨
      (key.2 = .soa ∧ ∃ ttl got want, held key = some (ttl, [got]) ∧
        wanted key = some (ttl, [want]) ∧ fieldsWithoutSerial got = fieldsWithoutSerial want)
  | _, _ => False

/-- What `desiredZones` promises of a zone: contents in order, and one `SOA`. -/
structure Zone.Ready (zone : Zone) : Prop where
  sorted : ∀ rrset ∈ zone.rrsets, rrset.records.Pairwise (textLe · ·)
  soa : ∀ rrset ∈ zone.rrsets, rrset.type = .soa → rrset.records.length = 1

/-- The zones there should be. No two have one name. -/
structure DesiredZones where
  zones : List Zone
  names : (zones.map Zone.name).Nodup
  ready : ∀ zone ∈ zones, zone.Ready

/-- `desired.get`. -/
def DesiredZones.zone? (desired : DesiredZones) (name : Text) : Option Zone :=
  Keyed.lookup Zone.name desired.zones name

theorem soaWithoutSerial_eq_iff {left right : Text} :
    soaWithoutSerial left = soaWithoutSerial right ↔ fieldsWithoutSerial left =
    fieldsWithoutSerial right := by
  have back : ∀ content : Text, (soaWithoutSerial content).splitOn ' ' = fieldsWithoutSerial
      content := by
    intro content
    have plain : ∀ field ∈ fieldsWithoutSerial content, ' ' ∉ field := fun field member inside => by
      have part := (List.eraseIdx_sublist _ _).subset member
      exact Text.not_mem_of_mem_splitOn part inside
    have filled : fieldsWithoutSerial content ≠ [] := by
      have some' := List.splitOn_ne_nil ' ' content
      rw [fieldsWithoutSerial]
      match content.splitOn ' ', some' with
      | [_], _ => simp
      | _ :: _ :: _, _ => simp
    exact List.splitOn_intercalate ' ' plain filled
  constructor
  · intro same
    rw [← back, ← back, same]
  · intro same
    exact congrArg [' '].intercalate same

/-! ## One zone -/

theorem enabled_apiRrset {rrset : Rrset} (sorted : rrset.records.Pairwise (textLe · ·)) :
    (apiRrset rrset).enabled = rrset.records := by
  have all : ((apiRrset rrset).records.filter fun record => !record.disabled).map
      ApiRecord.content = rrset.records := by
    rw [apiRrset, List.filter_map, List.map_map]
    simp [Function.comp_def]
  rw [ApiRrset.enabled, all, sortTexts, List.mergeSort_of_pairwise sorted]

theorem heldRrset_eq (current : ApiZone) (key : RrKey) :
    heldRrset current key = (Keyed.lookup ApiRrset.key current.rrsets key).map ApiRrset.served := by
  rw [heldRrset, Keyed.lookup, List.find?_map]
  rfl

/-- An rrset is held as it should be. -/
def holdsSame (want got : ApiRrset) : Bool := got.ttl = want.ttl && got.enabled = want.enabled

section OneZone

variable {zone : Zone} {current : ApiZone} (ready : zone.Ready)

include ready

theorem keyed_rrsetChanges : (rrsetChanges zone current).map RrsetChange.keyed =
    Keyed.diff ApiRrset.key holdsSame (zone.rrsets.map apiRrset) current.rrsets := by
  have puts : (changedRrsets zone current).map apiRrset =
      (zone.rrsets.map apiRrset).filter fun want =>
        !(Keyed.lookup ApiRrset.key current.rrsets want.key).any (holdsSame want) := by
    rw [changedRrsets, List.filter_map]
    refine congrArg _ (List.filter_congr fun want member => ?_)
    have sorted := enabled_apiRrset (ready.sorted want member)
    rw [heldRrset_eq, Option.any_map, Function.comp_apply, key_apiRrset]
    refine congrArg _ (congrArg (fun test => Option.any test _) (funext fun got => ?_))
    rw [sameRrset, holdsSame, sorted]
    rfl
  have drops : (goneRrsets zone current).map Rrset.key =
      (current.rrsets.filter fun got =>
        (Keyed.lookup ApiRrset.key (zone.rrsets.map apiRrset) got.key).isNone).map
            ApiRrset.key := by
    rw [goneRrsets, List.filter_map, List.map_map]
    have same : (fun got : ApiRrset => !zone.has got.key) = fun got =>
        (Keyed.lookup ApiRrset.key (zone.rrsets.map apiRrset) got.key).isNone :=
            funext fun got => by
      rw [Keyed.lookup, List.find?_map, Option.isNone_map, Zone.has, Option.not_isSome]
      rfl
    exact congrArg (fun test => (current.rrsets.filter test).map ApiRrset.key) same
  rw [Keyed.diff, ← puts, rrsetChanges, List.map_append, List.map_map, List.map_map, List.map_map]
  refine congrArg₂ (· ++ ·) rfl ?_
  have split := congrArg (List.map (Keyed.Change.drop (α := ApiRrset))) drops
  rw [List.map_map, List.map_map] at split
  exact split

/-- **A patched zone answers as it should.** -/
theorem answers_patched : (current.patched (rrsetChanges zone current)).answers = zone.answers := by
  funext key
  have distinct : ((zone.rrsets.map apiRrset).map ApiRrset.key).Nodup := by
    rw [List.map_map]
    exact zone.distinct
  have wanted : Keyed.lookup ApiRrset.key (zone.rrsets.map apiRrset) key = (zone.get key).map
      apiRrset := by
    rw [Keyed.lookup, List.find?_map]
    rfl
  have rrsets : (current.patched (rrsetChanges zone current)).rrsets =
      (Keyed.diff ApiRrset.key holdsSame (zone.rrsets.map apiRrset) current.rrsets).foldl
        (Keyed.step ApiRrset.key) current.rrsets :=
    congrArg (List.foldl (Keyed.step ApiRrset.key) current.rrsets) (keyed_rrsetChanges ready)
  rw [ApiZone.answers, rrsets, Keyed.lookup_diff distinct current.distinct, wanted, Zone.answers]
  cases found : zone.get key with
  | none => rfl
  | some want =>
    have sorted := enabled_apiRrset (ready.sorted want (Keyed.mem_of_lookup found))
    cases held : Keyed.lookup ApiRrset.key current.rrsets key with
    | none => simp [sorted, ttl_apiRrset]
    | some got =>
      by_cases same : holdsSame (apiRrset want) got = true
      · have both := same
        rw [holdsSame, Bool.and_eq_true, decide_eq_true_eq, decide_eq_true_eq, sorted] at both
        simp [Option.filter_some, same, both, ttl_apiRrset]
      · simp [Option.filter_some, same, sorted, ttl_apiRrset]

theorem answers_of_made (made : current.rrsets = zone.rrsets.map apiRrset) :
    current.answers = zone.answers := by
  funext key
  have wanted : Keyed.lookup ApiRrset.key (zone.rrsets.map apiRrset) key = (zone.get key).map
      apiRrset := by
    rw [Keyed.lookup, List.find?_map]
    rfl
  rw [ApiZone.answers, made, wanted, Zone.answers]
  cases found : zone.get key with
  | none => rfl
  | some want =>
    have sorted := enabled_apiRrset (ready.sorted want (Keyed.mem_of_lookup found))
    rw [Option.map_some, Option.map_some, Option.map_some, sorted, ttl_apiRrset]

omit ready in
theorem rrsetChanges_of_answers (same : current.answers = zone.answers) :
    rrsetChanges zone current = [] := by
  have none' : changedRrsets zone current = [] := by
    refine List.filter_eq_nil_iff.mpr fun want member differs => ?_
    have found : zone.get want.key = some want := Keyed.lookup_of_mem zone.distinct member
    have held := congrFun same want.key
    rw [Zone.answers, found, Option.map_some, ApiZone.answers] at held
    obtain ⟨got, gotFound, answer⟩ := Option.map_eq_some_iff.mp held
    obtain ⟨ttl, contents⟩ := Prod.mk.inj answer
    rw [heldRrset_eq, gotFound, Option.map_some, Option.any_some, sameRrset,
      ApiRrset.served] at differs
    simp [ttl, contents] at differs
  have gone : goneRrsets zone current = [] := by
    refine List.filter_eq_nil_iff.mpr fun got member absent => ?_
    obtain ⟨rrset, listed, rfl⟩ := List.mem_map.mp member
    have found : Keyed.lookup ApiRrset.key current.rrsets rrset.key = some rrset :=
      Keyed.lookup_of_mem current.distinct listed
    have wanted := congrFun same rrset.key
    rw [ApiZone.answers, found, Option.map_some, Zone.answers] at wanted
    obtain ⟨want, wantFound, -⟩ := Option.map_eq_some_iff.mp wanted.symm
    have has : zone.has rrset.key = true := by rw [Zone.has, wantFound]; rfl
    rw [show rrset.served.key = rrset.key from rfl, has] at absent
    cases absent
  rw [rrsetChanges, none', gone]
  rfl

/-- **Only the serial of a zone moved exactly when it answers the same but for the serial.** -/
theorem isQuiet_iff :
    isQuiet zone current = true ↔ SameButSerial (some current.answers) (some zone.answers) := by
  rw [isQuiet, Bool.and_eq_true, List.all_eq_true, List.isEmpty_iff]
  constructor
  · rintro ⟨serials, noneGone⟩ key
    rw [ApiZone.answers, Zone.answers]
    cases wantFound : zone.get key with
    | none =>
      refine .inl ?_
      cases gotFound : Keyed.lookup ApiRrset.key current.rrsets key with
      | none => rfl
      | some got =>
        obtain rfl := Keyed.key_of_lookup gotFound
        have lost : got.served ∈ goneRrsets zone current := by
          refine List.mem_filter.mpr ⟨List.mem_map_of_mem (Keyed.mem_of_lookup gotFound), ?_⟩
          rw [show got.served.key = got.key from rfl, Zone.has, wantFound]
          rfl
        rw [noneGone] at lost
        cases lost
    | some want =>
      obtain rfl := Keyed.key_of_lookup wantFound
      have member := Keyed.mem_of_lookup wantFound
      by_cases changed : want ∈ changedRrsets zone current
      · have serial := serials want changed
        rw [serialOnly, Bool.and_eq_true, decide_eq_true_eq, heldRrset_eq, Option.any_map,
          Option.any_eq_true] at serial
        obtain ⟨soa, got, gotFound, test⟩ := serial
        simp only [Bool.and_eq_true, decide_eq_true_eq] at test
        obtain ⟨⟨ttl, one⟩, fields⟩ := test
        obtain ⟨content, gotRecords⟩ := List.length_eq_one_iff.mp one
        obtain ⟨wanted, wantRecords⟩ := List.length_eq_one_iff.mp (ready.soa want member soa)
        refine .inr ⟨soa, want.ttl, content, wanted, ?_, ?_, ?_⟩
        · rw [gotFound, Option.map_some, ← ttl]
          exact congrArg (fun records => some (got.ttl, records)) gotRecords
        · rw [Option.map_some, wantRecords]
        · rw [gotRecords, wantRecords] at fields
          exact soaWithoutSerial_eq_iff.mp fields
      · refine .inl ?_
        have kept : (heldRrset current want.key).any (sameRrset want) = true := by
          by_contra differs
          refine changed (List.mem_filter.mpr ⟨member, ?_⟩)
          rw [Bool.not_eq_true] at differs
          rw [differs]
          rfl
        rw [heldRrset_eq, Option.any_map, Option.any_eq_true] at kept
        obtain ⟨got, gotFound, same⟩ := kept
        rw [sameRrset, Bool.and_eq_true, decide_eq_true_eq, decide_eq_true_eq] at same
        rw [gotFound, Option.map_some, Option.map_some]
        exact congrArg some (Prod.ext same.1 same.2)
  · intro same
    constructor
    · intro want changed
      obtain ⟨member, differs⟩ := List.mem_filter.mp changed
      have found : zone.get want.key = some want := Keyed.lookup_of_mem zone.distinct member
      rw [heldRrset_eq] at differs ⊢
      rcases same want.key with equal | ⟨soa, ttl, content, wanted, held, wants, fields⟩
      · rw [ApiZone.answers, Zone.answers, found, Option.map_some] at equal
        obtain ⟨got, gotFound, answer⟩ := Option.map_eq_some_iff.mp equal
        obtain ⟨ttl, contents⟩ := Prod.mk.inj answer
        rw [gotFound, Option.map_some, Option.any_some, sameRrset, ApiRrset.served] at differs
        simp [ttl, contents] at differs
      · rw [ApiZone.answers] at held
        rw [Zone.answers, found, Option.map_some] at wants
        obtain ⟨got, gotFound, answer⟩ := Option.map_eq_some_iff.mp held
        obtain ⟨gotTtl, gotRecords⟩ := Prod.mk.inj answer
        obtain ⟨wantTtl, wantRecords⟩ := Prod.mk.inj (Option.some.inj wants)
        have served : got.served.records = [content] := gotRecords
        rw [serialOnly, gotFound, Option.map_some, Option.any_some, served, wantRecords,
          Bool.and_eq_true,
          decide_eq_true_eq]
        refine ⟨soa, ?_⟩
        simp only [Bool.and_eq_true, decide_eq_true_eq]
        exact ⟨⟨gotTtl.trans wantTtl.symm, rfl⟩, soaWithoutSerial_eq_iff.mpr fields⟩
    · refine List.filter_eq_nil_iff.mpr fun got member absent => ?_
      obtain ⟨rrset, listed, rfl⟩ := List.mem_map.mp member
      have found : Keyed.lookup ApiRrset.key current.rrsets rrset.key = some rrset :=
        Keyed.lookup_of_mem current.distinct listed
      have missing : zone.get rrset.key = none := by
        rw [Zone.has, Bool.not_eq_true', Option.isSome_eq_false_iff,
          Option.isNone_iff_eq_none] at absent
        exact absent
      rcases same rrset.key with equal | ⟨-, ttl, content, wanted, -, wants, -⟩
      · rw [ApiZone.answers, Zone.answers, found, missing] at equal
        cases equal
      · rw [Zone.answers, missing] at wants
        cases wants

omit ready in
theorem not_quiet_iff : (zonePatch zone current).any (!·.quiet) = true ↔
    ¬isQuiet zone current = true := by
  rw [zonePatch]
  split
  · rename_i unchanged
    rw [rrsetChanges, List.append_eq_nil_iff, List.map_eq_nil_iff, List.map_eq_nil_iff] at unchanged
    simp [isQuiet, unchanged]
  · simp

end OneZone

/-! ## All zones -/

namespace Server

variable {server : Server} {name : Text} {zone : ApiZone}

theorem name_of_zone? (found : server.zone? name = some zone) : zone.name = name :=
  Keyed.key_of_lookup found

theorem zone?_of_mem (member : zone ∈ server.zones) : server.zone? zone.name = some zone :=
  Keyed.lookup_of_mem server.names member

theorem eq_of_id {other : ApiZone} (member : zone ∈ server.zones) (listed : other ∈ server.zones)
    (same : zone.id = other.id) : zone = other :=
  List.inj_on_of_nodup_map server.ids member listed same

theorem zone?_create (body : ZoneBody) : (server.create body).zone? name =
    (server.zone? name).or (if body.name = name then
      some ⟨freshId (server.zones.map ApiZone.id), body.name, body.rrsets, body.distinct⟩
          else none) := by
  by_cases taken : body.name ∈ server.zones.map ApiZone.name
  · rw [create, dif_pos taken]
    by_cases here : body.name = name
    · obtain ⟨zone, member, named⟩ := List.mem_map.mp taken
      have found := zone?_of_mem member
      rw [named, here] at found
      rw [found, Option.some_or]
    · rw [if_neg here, Option.or_none]
  · rw [create, dif_neg taken, zone?, Keyed.lookup_append]
    refine congrArg _ ?_
    rw [Keyed.lookup, List.find?_cons]
    by_cases here : body.name = name
    · rw [decide_eq_true here, if_pos here]
    · rw [decide_eq_false here, if_neg here]
      rfl

theorem zone?_creates_of_some {creates : List ZoneBody} (found : server.zone? name = some zone) :
    (creates.foldl create server).zone? name = some zone := by
  induction creates generalizing server with
  | nil => exact found
  | cons body creates ih => exact ih (by rw [zone?_create, found, Option.some_or])

theorem zone?_creates_of_none {creates : List ZoneBody} (absent : server.zone? name = none) :
    ((creates.foldl create server).zone? name).map ApiZone.rrsets =
      (Keyed.lookup ZoneBody.name creates name).map ZoneBody.rrsets := by
  induction creates generalizing server with
  | nil => rw [List.foldl_nil, absent]; rfl
  | cons body creates ih =>
    rw [List.foldl_cons, Keyed.lookup, List.find?_cons]
    by_cases here : body.name = name
    · have made := @zone?_create server name body
      rw [absent, Option.none_or, if_pos here] at made
      rw [zone?_creates_of_some made, decide_eq_true here]
      rfl
    · rw [decide_eq_false here]
      refine ih ?_
      rw [zone?_create, absent, if_neg here]
      rfl

theorem zone?_patch (id : Nat) (changes : List RrsetChange) : (server.patch id changes).zone? name =
    (server.zone? name).map fun zone => if zone.id = id then zone.patched changes else zone := by
  rw [zone?, zone?, Keyed.lookup, patch, List.find?_map, Keyed.lookup]
  refine congrArg _ (congrArg (fun test => List.find? test server.zones) (funext fun zone => ?_))
  rw [Function.comp_apply]
  split <;> rfl

/-- A zone after patches of which one may be its own. -/
def patchedBy (patches : List Patch) (zone : ApiZone) : ApiZone :=
  zone.patched (((Keyed.lookup Patch.id patches zone.id).map Patch.rrsets).getD [])

theorem zone?_patches {patches : List Patch} (distinct : (patches.map Patch.id).Nodup) :
    (patches.foldl (fun server patch => server.patch patch.id patch.rrsets) server).zone? name =
      (server.zone? name).map (patchedBy patches) := by
  induction patches generalizing server with
  | nil =>
    have same : patchedBy [] = id := rfl
    rw [List.foldl_nil, same, Option.map_id]
    rfl
  | cons first patches ih =>
    obtain ⟨fresh, distinctRest⟩ := List.nodup_cons.mp distinct
    rw [List.foldl_cons, ih distinctRest, zone?_patch, Option.map_map]
    refine congrArg (fun change => Option.map change _) (funext fun zone => ?_)
    rw [Function.comp_apply]
    by_cases here : zone.id = first.id
    · have later : Keyed.lookup Patch.id patches zone.id = none :=
        Keyed.lookup_eq_none.mpr fun patch member same =>
          fresh (List.mem_map.mpr ⟨patch, member, same.trans here⟩)
      have own : Keyed.lookup Patch.id (first :: patches) zone.id = some first :=
        List.find?_cons_of_pos (decide_eq_true here.symm)
      rw [if_pos here, patchedBy, patchedBy, own, show (zone.patched first.rrsets).id =
        zone.id from rfl, later]
      rfl
    · have skip : Keyed.lookup Patch.id (first :: patches) zone.id = Keyed.lookup Patch.id
        patches zone.id :=
        List.find?_cons_of_neg (by simpa using Ne.symm here)
      rw [if_neg here, patchedBy, patchedBy, skip]

theorem zone?_remove (id : Nat) : (server.remove id).zone? name =
    (server.zone? name).filter fun zone => zone.id ≠ id := by
  cases found : server.zone? name with
  | none =>
    refine Keyed.lookup_eq_none.mpr fun zone member => ?_
    exact Keyed.lookup_eq_none.mp found zone (List.mem_filter.mp member).1
  | some zone =>
    obtain rfl := name_of_zone? found
    have member := Keyed.mem_of_lookup found
    by_cases here : zone.id = id
    · rw [Option.filter_some, if_neg (by simpa using here)]
      refine Keyed.lookup_eq_none.mpr fun other listed same => ?_
      obtain ⟨otherMember, kept⟩ := List.mem_filter.mp listed
      have equal := zone?_of_mem otherMember
      rw [same, found] at equal
      obtain rfl := Option.some.inj equal
      simp [here] at kept
    · rw [Option.filter_some, if_pos (by simpa using here)]
      exact Keyed.lookup_of_mem (server.remove id).names
        (List.mem_filter.mpr ⟨member, by simpa using here⟩)

theorem zone?_removes (deletes : List Deletion) :
    (deletes.foldl (fun server deletion => server.remove deletion.id) server).zone? name =
      (server.zone? name).filter fun zone => zone.id ∉ deletes.map Deletion.id := by
  induction deletes generalizing server with
  | nil =>
    rw [List.foldl_nil]
    cases server.zone? name <;> simp [Option.filter_some]
  | cons deletion deletes ih =>
    rw [List.foldl_cons, ih, zone?_remove, Option.filter_filter]
    refine congrArg (fun test => Option.filter test _) (funext fun zone => ?_)
    simp [not_or]

end Server

section Sent

variable {desired : DesiredZones} {server : Server} {name : Text}

theorem DesiredZones.zone?_of_mem {zone : Zone} (member : zone ∈ desired.zones) :
    desired.zone? zone.name = some zone := Keyed.lookup_of_mem desired.names member

theorem mem_patches {patch : Patch} : patch ∈ (diffZones desired.zones server).patches ↔
    ∃ zone ∈ desired.zones, ∃ current, server.zone? zone.name = some current ∧
      zonePatch zone current = some patch := by
  simp only [diffZones, List.mem_filterMap, Option.bind_eq_some_iff]

theorem zonePatch_eq_some {zone : Zone} {current : ApiZone} {patch : Patch}
    (made : zonePatch zone current = some patch) :
    patch.id = current.id ∧ patch.rrsets = rrsetChanges zone current ∧
    rrsetChanges zone current ≠ [] := by
  rw [zonePatch] at made
  split at made
  · cases made
  · rename_i some'
    obtain rfl := Option.some.inj made
    exact ⟨rfl, rfl, some'⟩

theorem nodup_patch_ids : ((diffZones desired.zones server).patches.map Patch.id).Nodup := by
  have names : desired.zones.Pairwise fun zone other => zone.name ≠ other.name :=
    List.pairwise_map.mp desired.names
  rw [diffZones, List.map_filterMap, List.Nodup, List.pairwise_filterMap]
  refine names.imp fun {zone other} apart id made id' made' same => ?_
  obtain ⟨patch, patched, rfl⟩ := Option.map_eq_some_iff.mp made
  obtain ⟨patch', patched', rfl⟩ := Option.map_eq_some_iff.mp made'
  obtain ⟨current, found, held⟩ := Option.bind_eq_some_iff.mp patched
  obtain ⟨current', found', held'⟩ := Option.bind_eq_some_iff.mp patched'
  rw [(zonePatch_eq_some held).1, (zonePatch_eq_some held').1] at same
  have equal := Server.eq_of_id (Keyed.mem_of_lookup found) (Keyed.mem_of_lookup found') same
  exact apart ((Server.name_of_zone? found).symm.trans (equal ▸ Server.name_of_zone? found'))

theorem patchedBy_eq {zone : Zone} {current : ApiZone} (member : zone ∈ desired.zones)
    (found : server.zone? zone.name = some current) :
    Server.patchedBy (diffZones desired.zones server).patches current =
      current.patched (rrsetChanges zone current) := by
  rw [Server.patchedBy]
  refine congrArg current.patched ?_
  by_cases unchanged : rrsetChanges zone current = []
  · have untouched : Keyed.lookup Patch.id (diffZones desired.zones server).patches
      current.id = none := by
      refine Keyed.lookup_eq_none.mpr fun patch listed same => ?_
      obtain ⟨other, otherMember, held, heldFound, made⟩ := mem_patches.mp listed
      obtain ⟨id, -, some'⟩ := zonePatch_eq_some made
      have equal := Server.eq_of_id (Keyed.mem_of_lookup heldFound) (Keyed.mem_of_lookup found)
        (id.symm.trans same)
      have named : other.name = zone.name :=
        (Server.name_of_zone? heldFound).symm.trans (equal ▸ Server.name_of_zone? found)
      obtain rfl := List.inj_on_of_nodup_map desired.names otherMember member named
      exact some' (equal ▸ unchanged)
    rw [untouched, unchanged]
    rfl
  · have listed : (⟨current.id, zone.name, rrsetChanges zone current, isQuiet zone current⟩ : Patch)
        ∈ (diffZones desired.zones server).patches := by
      refine mem_patches.mpr ⟨zone, member, current, found, ?_⟩
      rw [zonePatch, if_neg unchanged]
    have own := Keyed.lookup_of_mem nodup_patch_ids listed
    rw [show Keyed.lookup Patch.id (diffZones desired.zones server).patches current.id =
      some _ from own]
    rfl

theorem exists_zone_of_id {id : Nat}
    (listed : id ∈ (diffZones desired.zones server).patches.map Patch.id ∨
      id ∈ (diffZones desired.zones server).deletes.map Deletion.id) :
    ∃ current ∈ server.zones, current.id = id := by
  rcases listed with patched | deleted
  · obtain ⟨patch, member, rfl⟩ := List.mem_map.mp patched
    obtain ⟨zone, -, current, found, made⟩ := mem_patches.mp member
    exact ⟨current, Keyed.mem_of_lookup found, (zonePatch_eq_some made).1.symm⟩
  · obtain ⟨deletion, member, rfl⟩ := List.mem_map.mp deleted
    obtain ⟨current, gone, rfl⟩ := List.mem_map.mp member
    exact ⟨current, (List.mem_filter.mp gone).1, rfl⟩

theorem deleted_iff {current : ApiZone} (member : current ∈ server.zones) :
    current.id ∈ (diffZones desired.zones server).deletes.map Deletion.id ↔
      desired.zone? current.name = none := by
  constructor
  · intro deleted
    obtain ⟨deletion, listed, same⟩ := List.mem_map.mp deleted
    obtain ⟨other, gone, rfl⟩ := List.mem_map.mp listed
    obtain ⟨otherMember, unwanted⟩ := List.mem_filter.mp gone
    obtain rfl := Server.eq_of_id otherMember member same
    exact Option.isNone_iff_eq_none.mp unwanted
  · intro unwanted
    refine List.mem_map.mpr ⟨⟨current.id, current.name⟩, List.mem_map.mpr ⟨current, ?_, rfl⟩, rfl⟩
    exact List.mem_filter.mpr ⟨member, Option.isNone_iff_eq_none.mpr unwanted⟩

theorem lookup_creates (absent : server.zone? name = none) :
    (Keyed.lookup ZoneBody.name (diffZones desired.zones server).creates name).map ZoneBody.rrsets =
      (desired.zone? name).map fun zone => zone.rrsets.map apiRrset := by
  have kept := @Keyed.lookup_filter_key Zone Text _ Zone.name
    (fun name => (server.zone? name).isNone) desired.zones name
  rw [absent] at kept
  have made : Keyed.lookup ZoneBody.name (diffZones desired.zones server).creates name =
      (Keyed.lookup Zone.name (desired.zones.filter fun zone => (server.zone? zone.name).isNone)
        name).map zoneBody := by
    rw [diffZones, Keyed.lookup, List.find?_map]
    rfl
  rw [made, kept, Option.map_map]
  rfl

/-- **After sending a plan the server answers exactly as it should.** -/
theorem answers_apply (name : Text) :
    ((server.apply (diffZones desired.zones server)).zone? name).map ApiZone.answers =
      (desired.zone? name).map Zone.answers := by
  rw [Server.apply, Server.zone?_removes, Server.zone?_patches nodup_patch_ids]
  cases found : server.zone? name with
  | some current =>
    have member := Keyed.mem_of_lookup found
    obtain rfl := Server.name_of_zone? found
    rw [Server.zone?_creates_of_some found, Option.map_some, Option.filter_some]
    have id : (Server.patchedBy (diffZones desired.zones server).patches current).id = current.id :=
      rfl
    cases wanted : desired.zone? current.name with
    | none =>
      have deleted := (deleted_iff member).mpr wanted
      rw [if_neg (by simpa [id] using deleted)]
      rfl
    | some zone =>
      have kept : current.id ∉ (diffZones desired.zones server).deletes.map Deletion.id :=
        fun deleted => by
        rw [(deleted_iff member).mp deleted] at wanted
        cases wanted
      have zoneMember := Keyed.mem_of_lookup wanted
      have named : zone.name = current.name := Keyed.key_of_lookup wanted
      rw [if_pos (by simpa [id] using kept), patchedBy_eq zoneMember (named.symm ▸ found),
        Option.map_some, answers_patched (desired.ready zone zoneMember), Option.map_some]
  | none =>
    have made := @Server.zone?_creates_of_none server name (diffZones desired.zones server).creates
      found
    rw [lookup_creates found] at made
    cases created : ((diffZones desired.zones server).creates.foldl Server.create server).zone? name
        with
    | none =>
      rw [created, Option.map_none] at made
      rw [Option.map_eq_none_iff.mp made.symm]
      rfl
    | some current =>
      rw [created, Option.map_some] at made
      obtain ⟨zone, wanted, rrsets⟩ := Option.map_eq_some_iff.mp made.symm
      -- The id of a new zone is none of those the plan speaks of.
      have fresh : ¬∃ old ∈ server.zones, old.id = current.id := by
        rintro ⟨old, oldMember, same⟩
        have still := @Server.zone?_creates_of_some server old.name old
          (diffZones desired.zones server).creates (Server.zone?_of_mem oldMember)
        have equal := Server.eq_of_id (Keyed.mem_of_lookup still) (Keyed.mem_of_lookup created) same
        have oldFound := Server.zone?_of_mem oldMember
        rw [equal, Server.name_of_zone? created, found] at oldFound
        cases oldFound
      have unpatched : Keyed.lookup Patch.id (diffZones desired.zones server).patches
          current.id = none :=
        Keyed.lookup_eq_none.mpr fun patch listed same =>
          fresh (exists_zone_of_id (.inl (List.mem_map.mpr ⟨patch, listed, same⟩)))
      have kept : current.id ∉ (diffZones desired.zones server).deletes.map Deletion.id :=
        fun deleted =>
        fresh (exists_zone_of_id (.inr deleted))
      have same : Server.patchedBy (diffZones desired.zones server).patches current = current := by
        rw [Server.patchedBy, unpatched]
        rfl
      rw [Option.map_some, same, Option.filter_some, if_pos (by simpa using kept),
        Option.map_some, wanted, Option.map_some]
      exact congrArg some (answers_of_made (desired.ready zone (Keyed.mem_of_lookup wanted))
        rrsets.symm)

theorem diffZones_of_answers (same : ∀ name, (server.zone? name).map ApiZone.answers =
    (desired.zone? name).map Zone.answers) : diffZones desired.zones server = ⟨[], [], [], []⟩ := by
  have held : ∀ zone ∈ desired.zones, ∃ current, server.zone? zone.name = some current ∧
      zonePatch zone current = none := by
    intro zone member
    have answers := same zone.name
    rw [DesiredZones.zone?_of_mem member, Option.map_some] at answers
    obtain ⟨current, found, equal⟩ := Option.map_eq_some_iff.mp answers
    exact ⟨current, found, if_pos (rrsetChanges_of_answers equal)⟩
  have creates : (desired.zones.filter fun zone => (server.zone? zone.name).isNone) = [] := by
    refine List.filter_eq_nil_iff.mpr fun zone member => ?_
    obtain ⟨current, found, -⟩ := held zone member
    simp [found]
  have patches : (desired.zones.filterMap fun zone => (server.zone? zone.name).bind
      (zonePatch zone)) = [] := by
    refine List.filterMap_eq_nil_iff.mpr fun zone member => ?_
    obtain ⟨current, found, unpatched⟩ := held zone member
    rw [found, Option.bind_some, unpatched]
  have deletes : (server.zones.filter fun zone =>
      (Keyed.lookup Zone.name desired.zones zone.name).isNone) = [] := by
    refine List.filter_eq_nil_iff.mpr fun current member => ?_
    have answers := same current.name
    rw [Server.zone?_of_mem member, Option.map_some] at answers
    obtain ⟨zone, wanted, -⟩ := Option.map_eq_some_iff.mp answers.symm
    rw [DesiredZones.zone?] at wanted
    simp [wanted]
  have changed : (desired.zones.filter fun zone =>
      match server.zone? zone.name with
      | none => true
      | some held => (zonePatch zone held).any (!·.quiet)) = [] := by
    refine List.filter_eq_nil_iff.mpr fun zone member => ?_
    obtain ⟨current, found, unpatched⟩ := held zone member
    simp [found, unpatched]
  simp only [diffZones, creates, patches, deletes, changed, List.map_nil, List.append_nil]

/-- The zones named for the cache are those that differ in more than the serial. -/
theorem mem_changedZones : name ∈ (diffZones desired.zones server).changedZones ↔
    ¬SameButSerial ((server.zone? name).map ApiZone.answers)
    ((desired.zone? name).map Zone.answers) := by
  rw [diffZones, List.mem_append]
  constructor
  · rintro (changed | deleted)
    · obtain ⟨zone, listed, rfl⟩ := List.mem_map.mp changed
      obtain ⟨member, differs⟩ := List.mem_filter.mp listed
      rw [DesiredZones.zone?_of_mem member, Option.map_some]
      cases found : server.zone? zone.name with
      | none => exact fun same => same
      | some current =>
        rw [found] at differs
        rw [Option.map_some, ← isQuiet_iff (desired.ready zone member)]
        exact not_quiet_iff.mp differs
    · obtain ⟨current, listed, rfl⟩ := List.mem_map.mp deleted
      obtain ⟨member, unwanted⟩ := List.mem_filter.mp listed
      rw [Server.zone?_of_mem member, DesiredZones.zone?, Option.isNone_iff_eq_none.mp unwanted]
      exact fun same => same
  · intro differs
    cases wanted : desired.zone? name with
    | none =>
      cases found : server.zone? name with
      | none =>
        rw [wanted, found] at differs
        exact absurd trivial differs
      | some current =>
        obtain rfl := Server.name_of_zone? found
        have unwanted := Option.isNone_iff_eq_none.mpr wanted
        exact .inr (List.mem_map.mpr
          ⟨current, List.mem_filter.mpr ⟨Keyed.mem_of_lookup found, unwanted⟩, rfl⟩)
    | some zone =>
      have member := Keyed.mem_of_lookup wanted
      obtain rfl : zone.name = name := Keyed.key_of_lookup wanted
      refine .inl (List.mem_map.mpr ⟨zone, List.mem_filter.mpr ⟨member, ?_⟩, rfl⟩)
      cases found : server.zone? zone.name with
      | none => rfl
      | some current =>
        rw [wanted, found, Option.map_some, Option.map_some,
          ← isQuiet_iff (desired.ready zone member)] at differs
        exact not_quiet_iff.mpr differs

end Sent

/-- **What is sent makes the server hold the zones there should be, and then nothing is
left to send.** The zones named for Recursor's cache are those created, deleted, or changed
in more than the serial. -/
theorem diffZones_converges (desired : DesiredZones) (server : Server) :
    (∀ name, ((server.apply (diffZones desired.zones server)).zone? name).map ApiZone.answers =
      (desired.zone? name).map Zone.answers) ∧
    diffZones desired.zones (server.apply (diffZones desired.zones server)) = ⟨[], [], [], []⟩ ∧
    ∀ name, name ∈ (diffZones desired.zones server).changedZones ↔
      ¬SameButSerial ((server.zone? name).map ApiZone.answers)
      ((desired.zone? name).map Zone.answers) :=
  ⟨answers_apply, diffZones_of_answers answers_apply, fun _ => mem_changedZones⟩

end Pdns

end Cidrella
