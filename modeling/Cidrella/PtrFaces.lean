import Cidrella.Lib.Contest
import Cidrella.ReverseConvergence

/-!
# What the `PTR` rows of a place say

A place is a name in a reverse zone. Of its `PTR` rows the writers look at the first one,
and what they do there depends on what it says only: publishing a name writes it unless it
is refused (`faces_syncPtrForARecord`), and clearing a name leaves the bare address or takes
the row out (`faces_clearPtrForARecord`). No other place sees either.
-/

set_option autoImplicit false

namespace Cidrella

open Address DnsNames

namespace Dns

open LeaseNames

/-- What a `PTR` row says. -/
structure PtrFace where
  value : Text
  source : Source
  enabled : Bool
  deriving DecidableEq, Repr

/-- What a row says. -/
def Record.face (record : Record) : PtrFace := ⟨record.value, record.source, record.enabled⟩

/-- A name that is published for an address. -/
structure Publication where
  ip : Addr
  zone : ZoneRef
  name : Text
  source : Source
  deriving DecidableEq, Repr

namespace Publication

/-- The name in full. -/
def fqdn (publication : Publication) : Text :=
  fqdnForRecordName publication.name publication.zone.name

/-- What its `PTR` row says. -/
def face (publication : Publication) : PtrFace := ⟨publication.fqdn, publication.source, true⟩

/-- The first row of a place refuses a name. -/
def refusedBy (faces : List PtrFace) (publication : Publication) : Bool :=
  faces.head?.any fun face =>
    Store.ptrConflicts ⟨0, 0, [], .ptr, face.value, face.source, face.enabled⟩ publication.ip.text
      publication.fqdn publication.zone.name

/-- The first row of a place, or a new one, says a name. -/
def write (publication : Publication) (faces : List PtrFace) : List PtrFace :=
  publication.face :: faces.tail

theorem overwrites : Contest.Overwrites write := fun _ _ _ => rfl

end Publication

/-- Clearing a name: the first row of a place goes or says its address, when it says the name. -/
def clearFaces (goes : Bool) (address fqdn : Text) (faces : List PtrFace) : List PtrFace :=
  if faces.head?.any fun face => toLowerCase face.value = toLowerCase fqdn then
    if goes then faces.tail else ⟨trim address, .placeholder, true⟩ :: faces.tail
  else faces

namespace Store

/-- What the rows of a place say. -/
def faces (s : Store) (place : Nat × Text) : List PtrFace := (s.ptrRows place).map Record.face

/-- The place where an address answers in reverse. -/
def placeOf (s : Store) (ip : Text) : Option (Nat × Text) :=
  (s.findReversePtrLocation ip true).map fun location => (location.zone.id, location.ptrName)

/-- The `PTR` of an address goes with its name: of IPv6 addresses only allocated ones have one. -/
def ptrGoes (context : Context) (ip : Text) : Bool := isV6 ip && !isAllocatedAddress context ip

section Faces

variable {s t : Store} {context : Context} {ip : Text} {place : Nat × Text} {location : PtrLocation}
    {row : Record}
variable {publication : Publication}

theorem ptrRow_eq : s.ptrRow location = (s.ptrRows (location.zone.id, location.ptrName)).head? := by
  rw [ptrRow, ptrRows, List.head?_filter]
  refine congrArg (fun test => List.find? test s.records) (funext fun record => ?_)
  rw [Bool.and_comm (decide (record.zoneId = location.zone.id))]

theorem placeOf_eq (ip : Text) :
    s.placeOf ip = (refLocation (zoneRefs s) ip true).map fun location =>
    (location.1.id, location.2) := by
  rw [refLocation_eq, Option.map_map]
  rfl

theorem placeOf_eq_of_zoneRefs (zones : zoneRefs t = zoneRefs s) : t.placeOf ip = s.placeOf ip := by
  rw [placeOf_eq, zones, ← placeOf_eq]

theorem ptrRows_eq_cons (isRow : s.ptrRow location = some row) :
    s.ptrRows (location.zone.id, location.ptrName) = row ::
    (s.ptrRows (location.zone.id, location.ptrName)).tail := by
  rw [ptrRow_eq] at isRow
  exact (List.cons_head?_tail isRow).symm

theorem faces_eq_cons (isRow : s.ptrRow location = some row) :
    s.faces (location.zone.id, location.ptrName) = row.face ::
    (s.faces (location.zone.id, location.ptrName)).tail := by
  rw [faces, ptrRows_eq_cons isRow]
  rfl

theorem faces_eq_nil (noRow : s.ptrRow location = none) :
    s.faces (location.zone.id, location.ptrName) = [] := by
  rw [ptrRow_eq, List.head?_eq_none_iff] at noRow
  rw [faces, noRow]
  rfl

theorem id_ne_of_mem_tail (isRow : s.ptrRow location = some row) {other : Record}
    (behind : other ∈ (s.ptrRows (location.zone.id, location.ptrName)).tail) :
    other.id ≠ row.id := by
  have rows := ptrRows_eq_cons isRow
  have distinct : ((s.ptrRows (location.zone.id, location.ptrName)).map Record.id).Nodup :=
    s.ids.sublist (List.filter_sublist.map _)
  rw [rows, List.map_cons, List.nodup_cons] at distinct
  exact fun same => distinct.1 (same ▸ List.mem_map_of_mem behind)

theorem faces_writePtr (value : Text) (source : Source) :
    (s.writePtr location (s.ptrRow location) value source).faces place =
      if place = (location.zone.id, location.ptrName) then ⟨value, source, true⟩ ::
        (s.faces place).tail
      else s.faces place := by
  cases isRow : s.ptrRow location with
  | none =>
    have rows : (s.writePtr location none value source).ptrRows place = _ :=
      @ptrRows_insert s place ⟨0, location.zone.id, location.ptrName, .ptr, value, source, true⟩
    rw [faces, rows, List.map_append]
    split_ifs with there here here
    · rw [here, ← faces, faces_eq_nil isRow]
      rfl
    · exact absurd (Prod.ext there.2.1.symm there.2.2.symm) here
    · exact absurd ⟨rfl, congrArg Prod.fst here.symm, congrArg Prod.snd here.symm⟩ there
    · exact List.append_nil _
  | some row =>
    have isPtr : row ∈ s.ptrRows (location.zone.id, location.ptrName) := by
      rw [ptrRows_eq_cons isRow]
      exact List.mem_cons_self
    split_ifs with here
    · have rows : (s.writePtr location (some row) value source).ptrRows place = _ :=
        @ptrRows_update s place row.id (rewritten ⟨0, [], value, source⟩) fun _ => ⟨rfl, rfl, rfl⟩
      rw [faces, rows, here, faces, ptrRows_eq_cons isRow, List.map_cons, if_pos rfl, List.map_cons,
        List.map_cons, List.tail_cons]
      refine congrArg₂ List.cons rfl
        (congrArg _ ((List.map_congr_left fun other behind => ?_).trans (List.map_id _)))
      exact if_neg (id_ne_of_mem_tail isRow behind)
    · have rows : (s.writePtr location (some row) value source).ptrRows place = _ :=
        @ptrRows_rewrite_of_ne s (location.zone.id, location.ptrName) ⟨0, [], value, source⟩ row
          isPtr place here
      rw [faces, rows, faces]

theorem ptrRows_deleteId (id : Nat) : (s.deleteId id).ptrRows place = (s.ptrRows place).filter
    (·.id ≠ id) := by
  rw [ptrRows, deleteId, delete, List.filter_filter, ptrRows, List.filter_filter]
  refine List.filter_congr fun row _ => ?_
  rw [Bool.and_comm, ← decide_not]

theorem faces_removePtr (isRow : s.ptrRow location = some row) :
    (s.removePtr location row).faces place =
    if place = (location.zone.id, location.ptrName) then (s.faces place).tail
    else s.faces place := by
  have rows : (s.removePtr location row).ptrRows place = _ := ptrRows_deleteId row.id
  rw [faces, rows]
  split_ifs with here
  · rw [here, faces, ptrRows_eq_cons isRow, List.filter_cons_of_neg (by simp), List.map_cons,
      List.tail_cons]
    refine congrArg _ (List.filter_eq_self.mpr fun other behind => ?_)
    exact decide_eq_true (id_ne_of_mem_tail isRow behind)
  · rw [faces]
    refine congrArg _ (List.filter_eq_self.mpr fun other member => decide_eq_true
      fun same => here ?_)
    obtain ⟨isOther, -, inZone, named⟩ := mem_ptrRows.mp member
    obtain ⟨member', zoneId, -, name⟩ := ptrRow_eq_some isRow
    rw [eq_of_id_eq isOther member' same] at inZone named
    exact Prod.ext (inZone.symm.trans zoneId) (named.symm.trans name)

/-! ## The writers -/

/-- What became of the `PTR` of a name: it was written, or nothing was. -/
theorem syncPtrForARecord_result :
    let result := s.syncPtrForARecord publication.name publication.ip.text publication.zone.name
        publication.source
    (result.2 ≠ .updated ∧ result.1 = s ∧ ∀ location, s.findReversePtrLocation publication.ip.text
      true = some location → Contest.contend Publication.refusedBy Publication.write
        (s.faces (location.zone.id, location.ptrName)) publication = s.faces
        (location.zone.id, location.ptrName)) ∨
    (result.2 = .updated ∧ ∃ location, s.findReversePtrLocation publication.ip.text true =
      some location ∧ result.1 = s.writePtr location (s.ptrRow location) publication.fqdn
      publication.source ∧ Contest.contend Publication.refusedBy Publication.write
        (s.faces (location.zone.id, location.ptrName)) publication = publication.face ::
        (s.faces (location.zone.id, location.ptrName)).tail ∧
      publication.face :: (s.faces (location.zone.id, location.ptrName)).tail ≠
        s.faces (location.zone.id, location.ptrName)) := by
  dsimp only
  rw [syncPtrForARecord]
  cases found : s.findReversePtrLocation publication.ip.text true with
  | none => exact .inl ⟨nofun, rfl, nofun⟩
  | some location =>
    dsimp only
    cases isRow : s.ptrRow location with
    | none =>
      refine .inr ⟨rfl, location, rfl, by rw [isRow]; rfl, ?_, ?_⟩
      all_goals rw [faces_eq_nil isRow]
      · rfl
      · exact List.cons_ne_nil _ _
    | some existing =>
      have rows := faces_eq_cons isRow
      have refused : Publication.refusedBy (s.faces (location.zone.id, location.ptrName))
          publication = ptrConflicts existing publication.ip.text publication.fqdn
          publication.zone.name := by
        rw [rows]
        rfl
      dsimp only
      rw [Bool.not_false, Bool.true_and, ← Publication.fqdn, ← refused]
      split_ifs with conflict same
      · refine .inl ⟨nofun, rfl, fun other isOther => ?_⟩
        obtain rfl := Option.some.inj isOther
        exact if_pos conflict
      · refine .inl ⟨nofun, rfl, fun other isOther => ?_⟩
        obtain rfl := Option.some.inj isOther
        simp only [Bool.and_eq_true, decide_eq_true_eq] at same
        refine (if_neg conflict).trans ?_
        rw [Publication.write, rows, List.tail_cons, Publication.face, Record.face, same.1.1,
          same.1.2, same.2]
      · refine .inr ⟨rfl, location, rfl, by rw [isRow], if_neg conflict, fun kept => same ?_⟩
        rw [rows, List.tail_cons] at kept
        obtain ⟨value, source, enabled⟩ := PtrFace.mk.inj (List.cons.inj kept).1
        simp [← value, ← source, ← enabled]

/-- **Publishing a name** writes the first row of the address's place unless that refuses it,
and no other place. -/
theorem faces_syncPtrForARecord :
    ((s.syncPtrForARecord publication.name publication.ip.text publication.zone.name
    publication.source).1).faces place =
      if s.placeOf publication.ip.text = some place then
        Contest.contend Publication.refusedBy Publication.write (s.faces place) publication
      else s.faces place := by
  rcases @syncPtrForARecord_result s publication with ⟨-, same, kept⟩ | ⟨-, location, found,
    written, contended, -⟩
  · rw [same]
    split_ifs with here
    · obtain ⟨location, found, rfl⟩ := Option.map_eq_some_iff.mp here
      exact (kept location found).symm
    · rfl
  · rw [written, faces_writePtr, placeOf, found, Option.map_some]
    simp only [Option.some.injEq, eq_comm (a := place)]
    split_ifs with here
    · rw [← here]
      exact contended.symm
    · rfl

theorem syncPtrForARecord_updated :
    (s.syncPtrForARecord publication.name publication.ip.text publication.zone.name
      publication.source).2 = .updated ↔ ∃ place, s.placeOf publication.ip.text = some place ∧
        Contest.contend Publication.refusedBy Publication.write (s.faces place) publication ≠
        s.faces place := by
  rcases @syncPtrForARecord_result s publication with
    ⟨quiet, -, kept⟩ | ⟨updated, location, found, -, contended, differs⟩
  · refine iff_of_false quiet ?_
    rintro ⟨place, here, changed⟩
    obtain ⟨location, found, rfl⟩ := Option.map_eq_some_iff.mp here
    exact changed (kept location found)
  · refine iff_of_true updated ⟨(location.zone.id, location.ptrName), ?_, contended ▸ differs⟩
    rw [placeOf, found, Option.map_some]

theorem syncPtrForARecord_quiet
    (quiet : (s.syncPtrForARecord publication.name publication.ip.text publication.zone.name
      publication.source).2 ≠ .updated) :
    (s.syncPtrForARecord publication.name publication.ip.text publication.zone.name
    publication.source).1 = s := by
  rcases @syncPtrForARecord_result s publication with ⟨-, same, -⟩ | ⟨updated, -⟩
  · exact same
  · exact absurd updated quiet

theorem isValidAddress_of_location {enabledOnly : Bool}
    (found : s.findReversePtrLocation ip enabledOnly = some location) :
    isValidAddress ip = true := by
  obtain ⟨candidate, member, -⟩ := List.exists_of_findSome?_eq_some found
  rw [isValidAddress]
  rw [reversePtrCandidates] at member
  split at member
  · cases member
  · rename_i parsed read
    rw [read]
    rfl

/-- A `PTR` that is cleared goes or says its address. -/
theorem faces_clearPtrForIp (found : s.findReversePtrLocation ip true = some location)
    (isRow : s.ptrRow location = some row) : (s.clearPtrForIp context ip).faces place =
      if place = (location.zone.id, location.ptrName) then
        if ptrGoes context ip then (s.faces place).tail else ⟨trim ip, .placeholder, true⟩ ::
          (s.faces place).tail
      else s.faces place := by
  have address : trim ((truthy (some ip)).getD ip) = trim ip := by
    rw [truthy, Option.filter_some]
    split_ifs <;> rfl
  have valid := isValidAddress_of_location found
  rw [← isValidAddress_trim] at valid
  rw [clearPtrForIp, setPtrForIp, found]
  dsimp only
  rw [isRow, address, valid, Bool.or_true, Bool.true_and, ← ptrGoes]
  dsimp only
  by_cases goes : ptrGoes context ip = true
  · rw [if_pos goes, if_pos goes]
    exact faces_removePtr isRow
  · rw [if_neg goes, if_neg goes]
    split_ifs with same here here
    · simp only [Bool.and_eq_true, decide_eq_true_eq] at same
      rw [here, faces_eq_cons isRow, List.tail_cons, Record.face, same.1.1, same.1.2, same.2]
    · rfl
    · rw [← isRow, faces_writePtr, if_pos here]
    · rw [← isRow, faces_writePtr, if_neg here]

/-- **Clearing a name** takes the first row of the address's place out or makes it a bare
address, when it says the name, and no other place. -/
theorem faces_clearPtrForARecord (recordName zoneName : Text) :
    (s.clearPtrForARecord context recordName ip zoneName).faces place =
      if s.placeOf ip = some place then
        clearFaces (ptrGoes context ip) ip (fqdnForRecordName recordName zoneName) (s.faces place)
      else s.faces place := by
  rw [clearPtrForARecord, placeOf]
  cases found : s.findReversePtrLocation ip true with
  | none => exact (if_neg nofun).symm
  | some location =>
    rw [Option.map_some]
    simp only [Option.some.injEq, eq_comm (b := place)]
    cases isRow : s.ptrRow location with
    | none =>
      split_ifs with here
      · rw [here, faces_eq_nil isRow]
        rfl
      · rfl
    | some row =>
      have rows := faces_eq_cons isRow
      dsimp only
      split_ifs with unnamed here here
      · rw [here, rows, clearFaces, if_neg]
        simpa [Record.face] using unnamed
      · rfl
      · rw [faces_clearPtrForIp found isRow, if_pos here, clearFaces]
        refine (if_pos ?_).symm
        rw [here, rows]
        simpa [Record.face] using unnamed
      · rw [faces_clearPtrForIp found isRow, if_neg here]

end Faces

end Store

end Dns

end Cidrella
