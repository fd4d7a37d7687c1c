import Cidrella.Cidr
import Cidrella.DnsNames
import Cidrella.IpLifecycle
import Cidrella.IpToLong
import Cidrella.Lib.Assoc
import Cidrella.Lib.Crashes
import Cidrella.Lib.Keyed

/-!
# Scans that are interrupted

`models/scan-run.js` and `startScan` of `utils/scanner.js`, for IPv4 networks. A scan goes over
its addresses in batches and writes a row for each answer, then its counts. The process may end
between any two of these writes. The next one takes up every scan that was pending or running
and leaves out the addresses that have a row (`resumeInterruptedScans`), before it lets anybody
start another.

However often that happens, no address of a scan is recorded twice and a completed scan counts
the rows it has (`scans_survive_restarts`), a scan that nobody works on is done, and no network
has two scans at once but for the probes of single addresses (`one_scan_at_a_time`).
-/

set_option autoImplicit false

namespace Cidrella

namespace ScanRuns

open Address DnsNames Crashes

/-! ## Tables -/

/-- `status`. -/
inductive ScanStatus where
  | pending
  | running
  | completed
  | failed
  deriving DecidableEq

/-- `status IN ('pending', 'running')`. -/
def ScanStatus.isActive : ScanStatus → Bool
  | .pending | .running => true
  | _ => false

/-- A row of `network_scans`. -/
structure Scan where
  id : Nat
  subnetId : Nat
  topologyRevision : Nat
  status : ScanStatus := .pending
  totalIps : Nat := 0
  scannedIps : Nat := 0
  conflictsFound : Nat := 0
  error : Option Text := none
  deriving DecidableEq

/-- A row of `scan_results`. -/
structure ScanResult where
  scanId : Nat
  ip : Text
  mac : Option Text
  responded : Bool
  isConflict : Bool
  conflictReason : Option Text
  deriving DecidableEq

/-- What the rows of a scan are told apart by. -/
def ScanResult.key (result : ScanResult) : Nat × Text := (result.scanId, result.ip)

/-- Both tables in the order of their ids, and the next id. `probes` are the ids that the probe
of single addresses was given. -/
structure Tables where
  scans : List Scan := []
  results : List ScanResult := []
  nextId : Nat := 1
  probes : List Nat := []
  deriving DecidableEq

namespace Tables

/-- The rows of a scan. -/
def resultsOf (t : Tables) (scanId : Nat) : List ScanResult := t.results.filter (·.scanId = scanId)

/-- `existingResultIps`. -/
def existingResultIps (t : Tables) (scanId : Nat) : List Text :=
  ((t.resultsOf scanId).map (·.ip)).dedup

/-- `countConflicts`. -/
def countConflicts (t : Tables) (scanId : Nat) : Nat := (t.resultsOf scanId).countP (·.isConflict)

/-- `findActiveForSubnet`. -/
def findActiveForSubnet (t : Tables) (subnetId : Nat) : Option Scan :=
  t.scans.reverse.find? fun scan => scan.subnetId = subnetId && scan.status.isActive

/-- `UPDATE network_scans … WHERE id = ?`. -/
def update (t : Tables) (scanId : Nat) (set : Scan → Scan) : Tables :=
  { t with scans := t.scans.map fun scan => if scan.id = scanId then set scan else scan }

/-- `DELETE FROM scan_results WHERE scan_id IN …`. -/
def dropResults (t : Tables) (gone : Scan → Bool) : Tables :=
  { t with
    results := t.results.filter fun result =>
      !(t.scans.any fun scan => gone scan && scan.id = result.scanId) }

/-- `DELETE FROM network_scans`, which takes the rows of the scans along. -/
def delete (t : Tables) (gone : Scan → Bool) : Tables :=
  { t.dropResults gone with scans := t.scans.filter fun scan => !gone scan }

/-- The finished scans of a network, which `pruneOldScans` counts. -/
def isFinished (subnetId : Nat) (scan : Scan) : Bool :=
  scan.subnetId = subnetId && (scan.status = .completed || scan.status = .failed)

end Tables

/-- A statement of `models/scan-run.js`, or a network that goes with all its scans. -/
inductive Write where
  | createPending (subnetId topologyRevision : Nat) (probe : Bool)
  | markRunning (scanId totalIps : Nat)
  | markFailed (scanId : Nat) (error : Text)
  | insertResult (result : ScanResult)
  | updateProgress (scanId scannedIps conflictsFound : Nat)
  | markCompleted (scanId scannedIps conflictsFound : Nat)
  | deleteById (scanId : Nat)
  | pruneOldResults (subnetId keepScanId : Nat)
  | pruneOldScans (subnetId keep : Nat)
  | deleteSubnet (subnetId : Nat)

/-- What a statement does to the tables. -/
def Tables.write (t : Tables) : Write → Tables
  | .createPending subnetId topologyRevision probe =>
    { t with
      scans := t.scans ++
        [{ id := t.nextId, subnetId := subnetId, topologyRevision := topologyRevision }]
      nextId := t.nextId + 1
      probes := if probe then t.nextId :: t.probes else t.probes }
  | .markRunning scanId totalIps => t.update scanId
      ({ · with status := .running, totalIps := totalIps })
  | .markFailed scanId error => t.update scanId ({ · with status := .failed, error := some error })
  | .insertResult result => { t with results := t.results ++ [result] }
  | .updateProgress scanId scannedIps conflictsFound =>
    t.update scanId ({ · with scannedIps := scannedIps, conflictsFound := conflictsFound })
  | .markCompleted scanId scannedIps conflictsFound =>
    t.update scanId
      ({ · with status := .completed, scannedIps := scannedIps, conflictsFound := conflictsFound })
  | .deleteById scanId => t.delete (·.id = scanId)
  | .pruneOldResults subnetId keepScanId => t.dropResults fun scan =>
    scan.subnetId = subnetId && scan.status = .completed && scan.id ≠ keepScanId
  | .pruneOldScans subnetId keep =>
    let newest := ((t.scans.filter (Tables.isFinished subnetId)).reverse.take keep).map (·.id)
    t.delete fun scan => Tables.isFinished subnetId scan && scan.id ∉ newest
  | .deleteSubnet subnetId => t.delete (·.subnetId = subnetId)

/-! ## A scan at work -/

/-- What a scan reads of its network. -/
structure Subnet where
  id : Nat
  network : Network
  isV4 : network.family = .v4
  allocated : Bool
  topologyRevision : Nat
  scanEnabled : Option Bool

/-- What a scan reads of an address that is not `unassigned`. -/
structure Assignment where
  macAddress : Option Text
  allocationState : AllocationState

/-- What a scan reads at its start. -/
structure Facts where
  subnet : Option Subnet
  defaultScanEnabled : Option Text
  ipOverrides : List (Text × Bool)
  assignments : List (Text × Assignment)

/-- An answer, or that there was none. -/
structure Probe where
  ip : Text
  responded : Bool
  mac : Option Text

/-- `SCAN_BATCH_SIZE`. -/
def scanBatchSize : Nat := 10

/-- `SCAN_HISTORY_KEEP`. -/
def scanHistoryKeep : Nat := 100

/-- The variables of `startScan` between two batches. -/
structure Worker where
  scanId : Nat
  subnetId : Nat
  isTargeted : Bool
  subnetDefault : Bool
  overrideMap : List (Text × Bool)
  assignmentMap : List (Text × Assignment)
  ipsToScan : List Text
  alreadyScanned : List Text
  scannedCount : Nat
  conflictsFound : Nat
  i : Nat := 0

/-- The addresses of a network, without the first and the last of a block that has them. -/
def hostIps (net : Network) : List Text :=
  let startIpLong := if 31 ≤ net.prefixLen then net.networkBig else net.networkBig + 1
  let endIpLong := if 31 ≤ net.prefixLen then net.lastBig else net.lastBig - 1
  (List.range (endIpLong + 1 - startIpLong)).map fun offset => IpToLong.longToIp
    (startIpLong + offset)

/-- `shouldScanIp`. -/
def shouldScanIp (ipOverride : Option Bool) (subnetDefault : Bool) : Bool :=
  ipOverride.getD subnetDefault

/-- The setting of the network, else the default setting, else on. -/
def subnetDefault (scanEnabled : Option Bool) (defaultScanEnabled : Option Text) : Bool :=
  scanEnabled.getD ((defaultScanEnabled.map fun val => val = "1".toList || val = "true".toList).getD
    true)

namespace Worker

/-- The scan is to probe the address, unless it has. -/
def enabled (w : Worker) (ip : Text) : Bool :=
  w.isTargeted || shouldScanIp (Assoc.get w.overrideMap ip) w.subnetDefault

/-- The addresses of the next batch that are probed. -/
def batch (w : Worker) : List Text :=
  ((w.ipsToScan.drop w.i).take scanBatchSize).filter fun ip => ip ∉ w.alreadyScanned && w.enabled ip

/-- Why an answer is a conflict. -/
def conflictReason (w : Worker) (probe : Probe) : Option Text :=
  if !probe.responded then none
  else
    match Assoc.get w.assignmentMap probe.ip with
    | none => some "Rogue device (IP not assigned)".toList
    | some assignment =>
      match truthy assignment.macAddress, truthy probe.mac with
      | some expected, some got =>
        if macIsAuthoritative assignment.allocationState && toLowerCase expected ≠ got then
          some ("MAC mismatch (expected ".toList ++ expected ++ ", got ".toList ++
            got ++ ")".toList)
        else none
      | _, _ => none

/-- The row of an answer. -/
def resultOf (w : Worker) (probe : Probe) : ScanResult :=
  { scanId         := w.scanId
    ip             := probe.ip
    mac            := truthy probe.mac
    responded      := probe.responded
    isConflict     := (w.conflictReason probe).isSome
    conflictReason := w.conflictReason probe }

/-- The variables after the answers to a batch. -/
def recorded (w : Worker) (probes : List Probe) : Worker :=
  { w with
    i := w.i + scanBatchSize
    scannedCount := w.scannedCount + probes.length
    conflictsFound := w.conflictsFound + probes.countP fun probe =>
      (w.conflictReason probe).isSome }

end Worker

/-- `startScan` up to its first batch, for the network of a scan or for some of its addresses. -/
def startScan (t : Tables) (scanId : Nat) (facts : Facts) (targetIps : Option (List Text)) :
    Write × Option Worker :=
  match facts.subnet with
  | none => (.markFailed scanId "Subnet not found".toList, none)
  | some subnet =>
    let ipsToScan := (targetIps.map (Keyed.firsts id)).getD (hostIps subnet.network)
    let alreadyScanned := t.existingResultIps scanId
    (.markRunning scanId ipsToScan.length, some
      { scanId         := scanId
        subnetId       := subnet.id
        isTargeted     := targetIps.isSome
        subnetDefault  := subnetDefault subnet.scanEnabled facts.defaultScanEnabled
        overrideMap    := facts.ipOverrides
        assignmentMap  := facts.assignments
        ipsToScan      := ipsToScan
        alreadyScanned := alreadyScanned
        scannedCount   := alreadyScanned.length
        conflictsFound := t.countConflicts scanId })

/-- `targetIsCurrent`. -/
def targetIsCurrent (t : Tables) (scanId : Nat) (subnet : Option Subnet) : Bool :=
  t.scans.any fun scan => scan.id = scanId &&
    subnet.any fun subnet => subnet.id = scan.subnetId && subnet.allocated &&
      subnet.topologyRevision = scan.topologyRevision

/-! ## The process -/

/-- The scans at work, and those that a start has still to take up. -/
structure Memory where
  workers : List Worker := []
  toResume : List Nat := []

/-- What happens, with what is read then. -/
inductive Event where
  /-- A scan of a network, asked for or on schedule. -/
  | requested (facts : Facts)
  /-- `POST /scans/probe`. -/
  | probed (facts : Facts) (targetIps : List Text)
  | resumed (facts : Facts)
  /-- The answers to a batch are in. -/
  | batchDone (scanId : Nat) (probes : List Probe)
  /-- No batch is left. `failure` is what the observation of an answer threw. -/
  | finished (scanId : Nat) (subnet : Option Subnet) (failure : Option Text)
  /-- `deleteIfNotRunning`. -/
  | deleted (scanId : Nat)
  | subnetDeleted (subnetId : Nat)

/-- `resumeInterruptedScans` takes up these. -/
def interrupted (t : Tables) : Memory :=
  { toResume := (t.scans.filter (·.status.isActive)).map (·.id) }

/-- The worker of a scan goes on, or ends. -/
def Memory.replace (m : Memory) (scanId : Nat) (after : Option Worker) : Memory :=
  { m with workers := m.workers.filter (·.scanId ≠ scanId) ++ after.toList }

/-- A new scan is given its row and started. -/
def create (t : Tables) (m : Memory) (facts : Facts) (targetIps : Option (List Text)) :
    Option (List Write × Memory) :=
  facts.subnet.bind fun subnet =>
    if subnet.allocated && (targetIps.isSome || (t.findActiveForSubnet subnet.id).isNone) then
      let started := startScan t t.nextId facts targetIps
      some ([.createPending subnet.id subnet.topologyRevision targetIps.isSome, started.1],
        m.replace t.nextId started.2)
    else none

/-- The answers to a batch, written by its worker. A scan that is gone takes no rows. -/
def batchDone (t : Tables) (m : Memory) (w : Worker) (probes : List Probe) :
    Option (List Write × Memory) :=
  if w.ipsToScan.length ≤ w.i || probes.map (·.ip) ≠ w.batch then none
  else
    let after := w.recorded probes
    if probes = [] then some ([], m.replace w.scanId after)
    else if t.scans.any (·.id = w.scanId) then
      some (probes.map (fun probe => .insertResult (w.resultOf probe)) ++
        [.updateProgress w.scanId after.scannedCount after.conflictsFound],
        m.replace w.scanId after)
    else some ([.markFailed w.scanId "FOREIGN KEY constraint failed".toList],
      m.replace w.scanId none)

/-- The end of a scan. -/
def finish (t : Tables) (m : Memory) (w : Worker) (subnet : Option Subnet) (failure : Option Text) :
    Option (List Write × Memory) :=
  if w.i < w.ipsToScan.length then none
  else
    let ended := m.replace w.scanId none
    if targetIsCurrent t w.scanId subnet then
      match failure with
      | some error => some ([.markFailed w.scanId error], ended)
      | none =>
        some (.markCompleted w.scanId w.scannedCount w.conflictsFound ::
          if w.isTargeted then []
          else [.pruneOldResults w.subnetId w.scanId, .pruneOldScans w.subnetId scanHistoryKeep],
            ended)
    else
      some ([.markFailed w.scanId "Network topology changed during scan; results discarded".toList],
        ended)

/-- What an event writes, and what it leaves in memory. Nothing else happens before every
interrupted scan is taken up. -/
def plan (event : Event) (t : Tables) (m : Memory) : Option (List Write × Memory) :=
  match m.toResume, event with
  | scanId :: rest, .resumed facts =>
    let started := startScan t scanId facts none
    some ([started.1], { m.replace scanId started.2 with toResume := rest })
  | [], .requested facts => create t m facts none
  | [], .probed facts targetIps => if targetIps = [] then none else create t m facts
      (some targetIps)
  | [], .batchDone scanId probes =>
    (m.workers.find? (·.scanId = scanId)).bind fun w => batchDone t m w probes
  | [], .finished scanId subnet failure =>
    (m.workers.find? (·.scanId = scanId)).bind fun w => finish t m w subnet failure
  | [], .deleted scanId =>
    (t.scans.find? (·.id = scanId)).bind fun scan =>
      if scan.status = .running then none else some ([.deleteById scanId], m)
  | [], .subnetDeleted subnetId => some ([.deleteSubnet subnetId], m)
  | _, _ => none

/-- The scanner, which a new process starts by taking up what was interrupted. -/
def scanner : Program Tables Memory Write Event where
  write := Tables.write
  plan := plan
  boot := interrupted

/-! ## What the tables keep -/

/-- The counts of a scan beside its rows. Those of a completed scan may be gone. -/
def Counted (rows : List ScanResult) (scan : Scan) : Prop :=
  if scan.status = .completed then
    rows = [] ∨ (scan.scannedIps = rows.length ∧ scan.conflictsFound = rows.countP (·.isConflict))
  else scan.scannedIps ≤ rows.length ∧ scan.conflictsFound ≤ rows.countP (·.isConflict)

/-- A scan of the tables. -/
def Tables.Has (t : Tables) (scanId : Nat) : Prop := ∃ scan ∈ t.scans, scan.id = scanId

/-- What holds between any two writes. -/
structure Durable (t : Tables) : Prop where
  ids : (t.scans.map (·.id)).Nodup
  below : ∀ scan ∈ t.scans, scan.id < t.nextId
  known : ∀ result ∈ t.results, t.Has result.scanId
  once : (t.results.map ScanResult.key).Nodup
  counts : ∀ scan ∈ t.scans, Counted (t.resultsOf scan.id) scan
  single : ∀ a ∈ t.scans, ∀ b ∈ t.scans, a.status.isActive → b.status.isActive →
    a.subnetId = b.subnetId → a.id ∉ t.probes → b.id ∉ t.probes → a.id = b.id

/-- Where a statement may be made. -/
def Fine (t : Tables) : Write → Prop
  | .createPending subnetId _ probe => probe = true ∨ t.findActiveForSubnet subnetId = none
  | .markRunning scanId _ | .markFailed scanId _ => ∀ scan ∈ t.scans, scan.id = scanId →
      scan.status.isActive
  | .insertResult result => result.key ∉ t.results.map ScanResult.key ∧
      ∃ scan ∈ t.scans, scan.id = result.scanId ∧ scan.status.isActive
  | .updateProgress scanId scannedIps conflictsFound =>
    (∀ scan ∈ t.scans, scan.id = scanId → scan.status.isActive) ∧
      scannedIps = (t.resultsOf scanId).length ∧ conflictsFound = t.countConflicts scanId
  | .markCompleted scanId scannedIps conflictsFound =>
    scannedIps = (t.resultsOf scanId).length ∧ conflictsFound = t.countConflicts scanId
  | _ => True

section

variable {t : Tables}

theorem mem_update {scanId : Nat} {set : Scan → Scan} {scan : Scan} :
    scan ∈ (t.update scanId set).scans ↔
      (∃ old ∈ t.scans, old.id = scanId ∧ scan = set old) ∨
      (scan ∈ t.scans ∧ scan.id ≠ scanId) := by
  rw [Tables.update, List.mem_map]
  constructor
  · rintro ⟨old, listed, rfl⟩
    by_cases same : old.id = scanId
    · exact .inl ⟨old, listed, same, if_pos same⟩
    · rw [if_neg same]
      exact .inr ⟨listed, same⟩
  · rintro (⟨old, listed, same, rfl⟩ | ⟨listed, other⟩)
    · exact ⟨old, listed, if_pos same⟩
    · exact ⟨scan, listed, if_neg other⟩

namespace Durable

/-- A row is set to another with its id and network. -/
theorem update (durable : Durable t) {scanId : Nat} {set : Scan → Scan}
    (same : ∀ scan, (set scan).id = scan.id ∧ (set scan).subnetId = scan.subnetId)
    (active : ∀ scan ∈ t.scans, scan.id = scanId → (set scan).status.isActive →
    scan.status.isActive) (counts : ∀ scan ∈ t.scans, scan.id = scanId →
    Counted (t.resultsOf scanId) (set scan)) :
    Durable (t.update scanId set) := by
  have ids : (t.update scanId set).scans.map (·.id) = t.scans.map (·.id) := by
    rw [Tables.update, List.map_map]
    refine List.map_congr_left fun scan _ => ?_
    rw [Function.comp_apply]
    split_ifs
    · exact (same scan).1
    · rfl
  -- Each row comes from one with its id and network, and is active only where that is.
  have origin : ∀ scan ∈ (t.update scanId set).scans, ∃ old ∈ t.scans, old.id = scan.id ∧
      old.subnetId = scan.subnetId ∧ (scan.status.isActive → old.status.isActive) := by
    intro scan listed
    obtain ⟨old, member, here, rfl⟩ | ⟨member, -⟩ := mem_update.mp listed
    · exact ⟨old, member, (same old).1.symm, (same old).2.symm, active old member here⟩
    · exact ⟨scan, member, rfl, rfl, id⟩
  refine ⟨ids ▸ durable.ids, ?_, ?_, durable.once, ?_, ?_⟩
  · intro scan listed
    obtain ⟨old, member, sameId, -⟩ := origin scan listed
    exact sameId ▸ durable.below old member
  · intro result listed
    obtain ⟨scan, member, sameId⟩ := durable.known result listed
    have place : result.scanId ∈ (t.update scanId set).scans.map (·.id) := by
      rw [ids]
      exact List.mem_map.mpr ⟨scan, member, sameId⟩
    exact List.mem_map.mp place
  · intro scan listed
    obtain ⟨old, member, here, rfl⟩ | ⟨member, -⟩ := mem_update.mp listed
    · rw [(same old).1, here]
      exact counts old member here
    · exact durable.counts scan member
  · intro a listedA b listedB activeA activeB network probeA probeB
    obtain ⟨oldA, memberA, idA, networkA, wasA⟩ := origin a listedA
    obtain ⟨oldB, memberB, idB, networkB, wasB⟩ := origin b listedB
    rw [← idA, ← idB]
    exact durable.single oldA memberA oldB memberB (wasA activeA) (wasB activeB)
      (by rw [networkA, networkB, network]) (idA ▸ probeA) (idB ▸ probeB)

theorem eq_of_id (durable : Durable t) {a b : Scan} (listedA : a ∈ t.scans) (listedB : b ∈ t.scans)
    (same : a.id = b.id) : a = b :=
  List.inj_on_of_nodup_map durable.ids listedA listedB same

theorem resultsOf_dropResults (durable : Durable t) (gone : Scan → Bool) {scan : Scan}
    (member : scan ∈ t.scans) :
    (t.dropResults gone).resultsOf scan.id = if gone scan then [] else t.resultsOf scan.id := by
  have only (result : ScanResult) (here : result.scanId = scan.id) :
      (t.scans.any fun other => gone other && other.id = result.scanId) = gone scan := by
    rw [Bool.eq_iff_iff, List.any_eq_true]
    constructor
    · rintro ⟨other, listed, both⟩
      obtain ⟨goes, same⟩ := Bool.and_eq_true_iff.mp both
      rwa [durable.eq_of_id listed member ((of_decide_eq_true same).trans here)] at goes
    · exact fun goes => ⟨scan, member, by simp [goes, here]⟩
  rw [Tables.resultsOf, Tables.dropResults, List.filter_filter]
  split_ifs with goes
  · refine List.filter_eq_nil_iff.mpr fun result _ both => ?_
    obtain ⟨here, kept⟩ := Bool.and_eq_true_iff.mp both
    rw [only result (of_decide_eq_true here), goes] at kept
    exact Bool.false_ne_true kept
  · refine List.filter_congr fun result _ => ?_
    by_cases here : result.scanId = scan.id
    · simp [only result here, Bool.eq_false_iff.mpr goes]
    · simp [here]

theorem resultsOf_delete (durable : Durable t) (gone : Scan → Bool) {scan : Scan}
    (stays : scan ∈ (t.delete gone).scans) : (t.delete gone).resultsOf scan.id = t.resultsOf
    scan.id := by
  obtain ⟨member, kept⟩ := List.mem_filter.mp stays
  refine (durable.resultsOf_dropResults gone member).trans (if_neg ?_)
  rw [Bool.not_eq_true]
  simpa using kept

theorem delete (durable : Durable t) (gone : Scan → Bool) : Durable (t.delete gone) := by
  have stays {scan : Scan} (member : scan ∈ (t.delete gone).scans) : scan ∈ t.scans :=
    List.mem_of_mem_filter member
  refine ⟨durable.ids.sublist (List.filter_sublist.map _), ?_, ?_, ?_, ?_, ?_⟩
  · exact fun scan member => durable.below scan (stays member)
  · intro result listed
    obtain ⟨member, kept⟩ := List.mem_filter.mp listed
    obtain ⟨scan, inside, same⟩ := durable.known result member
    refine ⟨scan, List.mem_filter.mpr ⟨inside, ?_⟩, same⟩
    rw [Bool.not_eq_true'] at kept ⊢
    have spared := List.any_eq_false.mp kept scan inside
    simpa [same] using spared
  · exact durable.once.sublist (List.filter_sublist.map _)
  · intro scan member
    rw [durable.resultsOf_delete gone member]
    exact durable.counts scan (stays member)
  · exact fun a memberA b memberB => durable.single a (stays memberA) b (stays memberB)

theorem findActive_eq_none {subnetId : Nat} (none : t.findActiveForSubnet subnetId = none)
    {scan : Scan} (member : scan ∈ t.scans) (active : scan.status.isActive) :
    scan.subnetId ≠ subnetId := by
  intro same
  have test := List.find?_eq_none.mp none scan (List.mem_reverse.mpr member)
  simp [same, active] at test

/-- **Each statement keeps the tables** where it may be made. -/
theorem write (durable : Durable t) {change : Write} (fine : Fine t change) :
    Durable (t.write change) := by
  cases change with
  | createPending subnetId topologyRevision probe =>
    have fresh : ∀ scan ∈ t.scans, scan.id ≠ t.nextId := fun scan member =>
      (durable.below scan member).ne
    have probes (scan : Scan) (member : scan ∈ t.scans)
        (other : scan.id ∉ (t.write (.createPending subnetId topologyRevision probe)).probes) :
        scan.id ∉ t.probes := by
      refine fun inside => other ?_
      rw [Tables.write]
      dsimp only
      split_ifs
      · exact List.mem_cons_of_mem _ inside
      · exact inside
    -- Of two scans at once the new one is a probe.
    have apart (scan : Scan) (member : scan ∈ t.scans) (active : scan.status.isActive)
        (network : scan.subnetId = subnetId)
        (other : t.nextId ∉ (t.write (.createPending subnetId topologyRevision probe)).probes) :
        False := by
      obtain isProbe | none := fine
      · exact other (by simp [Tables.write, isProbe])
      · exact findActive_eq_none none member active network
    refine ⟨?_, ?_, ?_, durable.once, ?_, ?_⟩
    · rw [Tables.write, List.map_append]
      refine List.nodup_append.mpr ⟨durable.ids, List.nodup_singleton _, ?_⟩
      intro id listed other single same
      obtain ⟨scan, member, rfl⟩ := List.mem_map.mp listed
      rw [List.map_singleton, List.mem_singleton] at single
      exact fresh scan member (same.trans single)
    · intro scan listed
      rcases List.mem_append.mp listed with old | new
      · exact Nat.lt_succ_of_lt (durable.below scan old)
      · rw [List.mem_singleton.mp new]
        exact Nat.lt_succ_self _
    · intro result listed
      obtain ⟨scan, member, same⟩ := durable.known result listed
      exact ⟨scan, List.mem_append_left _ member, same⟩
    · intro scan listed
      rcases List.mem_append.mp listed with old | new
      · exact durable.counts scan old
      · rw [List.mem_singleton.mp new]
        exact ⟨Nat.zero_le _, Nat.zero_le _⟩
    · intro a listedA b listedB activeA activeB network probeA probeB
      rcases List.mem_append.mp listedA with oldA | newA <;> rcases List.mem_append.mp
        listedB with oldB | newB
      · exact durable.single a oldA b oldB activeA activeB network (probes a oldA probeA)
          (probes b oldB probeB)
      · rw [List.mem_singleton.mp newB] at network probeB
        exact (apart a oldA activeA network probeB).elim
      · rw [List.mem_singleton.mp newA] at network probeA
        exact (apart b oldB activeB network.symm probeA).elim
      · rw [List.mem_singleton.mp newA, List.mem_singleton.mp newB]
  | markRunning scanId _ | markFailed scanId _ =>
    refine durable.update (fun _ => ⟨rfl, rfl⟩) (fun scan member here _ => fine scan member here) ?_
    intro scan member here
    have counted := durable.counts scan member
    rw [here] at counted
    have active := fine scan member here
    cases status : scan.status <;> simp_all [Counted, ScanStatus.isActive]
  | insertResult result =>
    obtain ⟨fresh, scan, member, here, active⟩ := fine
    refine ⟨durable.ids, durable.below, ?_, ?_, ?_, durable.single⟩
    · intro other listed
      rcases List.mem_append.mp listed with old | new
      · exact durable.known other old
      · rw [List.mem_singleton.mp new]
        exact ⟨scan, member, here⟩
    · rw [Tables.write, List.map_append]
      refine List.nodup_append.mpr ⟨durable.once, List.nodup_singleton _, ?_⟩
      rintro key listed other single rfl
      exact fresh (List.mem_singleton.mp single ▸ listed)
    · intro other listed
      have counted := durable.counts other listed
      by_cases same : other.id = scan.id
      · rw [durable.eq_of_id listed member same] at counted ⊢
        have more : (t.write (.insertResult result)).resultsOf scan.id = t.resultsOf scan.id ++
            [result] := by
          rw [Tables.resultsOf, Tables.write, List.filter_append]
          simp [Tables.resultsOf, here]
        have going : scan.status ≠ .completed :=
          fun completed => by simp [completed, ScanStatus.isActive] at active
        rw [Counted, if_neg going] at counted ⊢
        rw [more, List.length_append, List.countP_append]
        exact ⟨Nat.le_add_right_of_le counted.1, Nat.le_add_right_of_le counted.2⟩
      · have rest : (t.write (.insertResult result)).resultsOf other.id = t.resultsOf other.id := by
          rw [Tables.resultsOf, Tables.write, List.filter_append]
          simp [Tables.resultsOf, ← here, Ne.symm same]
        rw [rest]
        exact counted
  | updateProgress scanId scannedIps conflictsFound =>
    obtain ⟨active, all, conflicts⟩ := fine
    refine durable.update (fun _ => ⟨rfl, rfl⟩) (fun _ _ _ => id) ?_
    intro scan member here
    have going : scan.status ≠ .completed := fun completed => by
      have active := active scan member here
      simp [completed, ScanStatus.isActive] at active
    rw [Counted, if_neg going]
    exact ⟨all.le, conflicts.le⟩
  | markCompleted scanId scannedIps conflictsFound =>
    obtain ⟨all, conflicts⟩ := fine
    refine durable.update (fun _ => ⟨rfl, rfl⟩) (fun _ _ _ active => ?_) ?_
    · simp [ScanStatus.isActive] at active
    · intro scan member here
      rw [Counted, if_pos rfl]
      exact .inr ⟨all, conflicts⟩
  | pruneOldResults subnetId keepScanId =>
    refine ⟨durable.ids, durable.below, ?_, ?_, ?_, durable.single⟩
    · exact fun result listed => durable.known result (List.mem_of_mem_filter listed)
    · exact durable.once.sublist (List.filter_sublist.map _)
    · intro scan member
      have rows := durable.resultsOf_dropResults (fun scan => scan.subnetId = subnetId &&
        scan.status = .completed && scan.id ≠ keepScanId) member
      rw [Tables.write, rows]
      split_ifs with goes
      · rw [Counted, if_pos (by simp_all)]
        exact .inl rfl
      · exact durable.counts scan member
  | deleteById _ | pruneOldScans _ _ | deleteSubnet _ => exact durable.delete _

end Durable

/-! ## What the process knows of them -/

/-- How far a scan has come: what is behind it is recorded, and what is ahead is not, but for
what an earlier process recorded. -/
structure Progress (rows : List ScanResult) (w : Worker) : Prop where
  scanned : w.scannedCount = rows.length
  conflicts : w.conflictsFound = rows.countP (·.isConflict)
  behind : ∀ ip ∈ w.ipsToScan.take w.i, w.enabled ip → ip ∈ rows.map (·.ip)
  already : ∀ ip ∈ w.alreadyScanned, ip ∈ rows.map (·.ip)
  ahead : ∀ ip ∈ w.ipsToScan.drop w.i, ip ∉ w.alreadyScanned → ip ∉ rows.map (·.ip)

/-- The worker of a scan. -/
structure Works (t : Tables) (w : Worker) : Prop where
  below : w.scanId < t.nextId
  distinct : w.ipsToScan.Nodup
  active : ∀ scan ∈ t.scans, scan.id = w.scanId → scan.status.isActive
  progress : t.Has w.scanId → Progress (t.resultsOf w.scanId) w

/-- What holds between the tables and the memory. -/
structure Coupled (t : Tables) (m : Memory) : Prop where
  workers : ∀ w ∈ m.workers, Works t w
  distinct : m.toResume.Nodup
  resume : ∀ scanId ∈ m.toResume, ∀ scan ∈ t.scans, scan.id = scanId → scan.status.isActive
  known : ∀ scanId ∈ m.toResume, t.Has scanId
  attended : ∀ scan ∈ t.scans, scan.status.isActive →
    scan.id ∈ m.toResume ∨ ∃ w ∈ m.workers, w.scanId = scan.id

/-- What other scans see of a change: their row is as it was, and the rows of those at work. -/
structure Frames (t after : Tables) (scanId : Nat) : Prop where
  nextId : t.nextId ≤ after.nextId
  row : ∀ scan ∈ after.scans, scan.id = scanId → scan ∈ t.scans
  rows : ∀ scan ∈ after.scans, scan.id = scanId → scan.status.isActive →
    after.resultsOf scanId = t.resultsOf scanId

theorem Frames.trans {first second third : Tables} {scanId : Nat} (one : Frames first second scanId)
    (two : Frames second third scanId) : Frames first third scanId := by
  refine ⟨one.nextId.trans two.nextId, fun scan member here => ?_,
    fun scan member here active => ?_⟩
  · exact one.row scan (two.row scan member here) here
  · rw [two.rows scan member here active]
    exact one.rows scan (two.row scan member here) here active

theorem Works.frame {after : Tables} {w : Worker} (works : Works t w)
    (frames : Frames t after w.scanId) :
    Works after w := by
  refine ⟨works.below.trans_le frames.nextId, works.distinct, ?_, ?_⟩
  · exact fun scan member here => works.active scan (frames.row scan member here) here
  · rintro ⟨scan, member, here⟩
    have before := frames.row scan member here
    rw [frames.rows scan member here (works.active scan before here)]
    exact works.progress ⟨scan, before, here⟩

theorem frames_update {scanId other : Nat} (set : Scan → Scan) (same : ∀ scan,
    (set scan).id = scan.id) (differs : other ≠ scanId) : Frames t (t.update scanId set) other := by
  refine ⟨le_rfl, fun scan member here => ?_, fun _ _ _ _ => rfl⟩
  obtain ⟨old, -, isIt, rfl⟩ | ⟨listed, -⟩ := mem_update.mp member
  · exact absurd (here.symm.trans ((same old).trans isIt)) differs
  · exact listed

theorem frames_delete (durable : Durable t) (gone : Scan → Bool) (scanId : Nat) :
    Frames t (t.delete gone) scanId := by
  refine ⟨le_rfl, fun scan member _ => List.mem_of_mem_filter member, ?_⟩
  rintro scan member rfl _
  exact durable.resultsOf_delete gone member

/-- The scan that a statement is about. -/
def Write.about (nextId : Nat) : Write → Option Nat
  | .createPending _ _ _ => some nextId
  | .markRunning scanId _ | .markFailed scanId _ | .updateProgress scanId _ _ | .markCompleted
      scanId _ _ => some scanId
  | .insertResult result => some result.scanId
  | _ => none

/-- **A statement leaves the other scans that are at work alone.** -/
theorem frames_write (durable : Durable t) (change : Write) {other : Nat}
    (differs : change.about t.nextId ≠ some other) : Frames t (t.write change) other := by
  cases change with
  | createPending subnetId topologyRevision probe =>
    refine ⟨Nat.le_succ _, fun scan member here => ?_, fun _ _ _ _ => rfl⟩
    rcases List.mem_append.mp member with old | new
    · exact old
    · rw [List.mem_singleton.mp new] at here
      exact absurd (congrArg some here) differs
  | insertResult result =>
    refine ⟨le_rfl, fun _ member _ => member, fun _ _ _ _ => ?_⟩
    have elsewhere : result.scanId ≠ other := fun same => differs (congrArg some same)
    rw [Tables.resultsOf, Tables.write, List.filter_append]
    simp [Tables.resultsOf, elsewhere]
  | pruneOldResults subnetId keepScanId =>
    refine ⟨le_rfl, fun _ member _ => member, ?_⟩
    rintro scan member rfl active
    refine (durable.resultsOf_dropResults _ member).trans (if_neg fun goes => ?_)
    cases status : scan.status <;> simp_all [ScanStatus.isActive]
  | deleteById _ | pruneOldScans _ _ | deleteSubnet _ => exact frames_delete durable _ _
  | _ => exact frames_update _ (fun _ => rfl) fun same => differs (congrArg some same.symm)

/-! ## Each event -/

theorem hostIps_nodup {net : Network} (isV4 : net.family = .v4) : (hostIps net).Nodup := by
  have bound : net.lastBig < 2 ^ 32 := by
    have bound := net.lastBig_lt
    rw [Network.bits, isV4] at bound
    exact bound
  unfold hostIps
  generalize (if 31 ≤ net.prefixLen then net.networkBig else net.networkBig + 1) = start
  refine List.Nodup.map_on (fun first inFirst second inSecond same => ?_) List.nodup_range
  have small {offset : Nat} (inside : offset ∈ List.range ((if 31 ≤ net.prefixLen then net.lastBig
      else net.lastBig - 1) + 1 - start)) : start + offset < 2 ^ 32 := by
    have inside := List.mem_range.mp inside
    split_ifs at inside <;> omega
  have parsed := congrArg parseIp same
  rw [IpToLong.longToIp_eq, IpToLong.longToIp_eq, parseIp_formatIp_v4 (small inFirst),
    parseIp_formatIp_v4 (small inSecond)] at parsed
  exact Nat.add_left_cancel (congrArg ParsedIp.value (Option.some.inj parsed))

theorem Durable.nodup_ips (durable : Durable t) (scanId : Nat) :
    ((t.resultsOf scanId).map (·.ip)).Nodup := by
  refine List.Nodup.map_on (fun first inFirst second inSecond same => ?_)
    ((List.Nodup.of_map _ durable.once).filter _)
  obtain ⟨memberFirst, hereFirst⟩ := List.mem_filter.mp inFirst
  obtain ⟨memberSecond, hereSecond⟩ := List.mem_filter.mp inSecond
  refine List.inj_on_of_nodup_map durable.once memberFirst memberSecond (Prod.ext ?_ same)
  exact (of_decide_eq_true hereFirst).trans (of_decide_eq_true hereSecond).symm

theorem Durable.startScan (durable : Durable t) (scanId : Nat) {facts : Facts} {subnet : Subnet}
    (found : facts.subnet = some subnet) (targetIps : Option (List Text)) :
    ∃ w total, startScan t scanId facts targetIps = (.markRunning scanId total, some w) ∧
      w.scanId = scanId ∧ w.ipsToScan.Nodup ∧ Progress (t.resultsOf scanId) w := by
  have distinct : ((targetIps.map (Keyed.firsts id)).getD (hostIps subnet.network)).Nodup := by
    cases targetIps with
    | none => exact hostIps_nodup subnet.isV4
    | some targetIps => simpa using Keyed.nodup_firsts id targetIps
  have once := durable.nodup_ips scanId
  rw [ScanRuns.startScan, found]
  refine ⟨_, _, rfl, rfl, distinct, ?_, rfl, ?_, ?_, ?_⟩
  · rw [Tables.existingResultIps, once.dedup, List.length_map]
  · intro ip inside
    rw [List.take_zero] at inside
    exact absurd inside List.not_mem_nil
  · exact fun ip inside => List.mem_dedup.mp inside
  · exact fun ip _ fresh recorded => fresh (List.mem_dedup.mpr recorded)

theorem Progress.recorded {rows : List ScanResult} {w : Worker} (progress : Progress rows w)
    (distinct : w.ipsToScan.Nodup) {probes : List Probe} (asked : probes.map (·.ip) = w.batch) :
    Progress (rows ++ probes.map w.resultOf) (w.recorded probes) := by
  have ips : (rows ++ probes.map w.resultOf).map (·.ip) = rows.map (·.ip) ++ w.batch := by
    rw [List.map_append, List.map_map, ← asked]
    rfl
  refine ⟨?_, ?_, ?_, ?_, ?_⟩
  · rw [List.length_append, List.length_map, ← progress.scanned]
    rfl
  · rw [List.countP_append, List.countP_map, ← progress.conflicts]
    rfl
  · intro ip inside enabled
    rw [ips, List.mem_append]
    rw [Worker.recorded, List.take_add, List.mem_append] at inside
    rcases inside with before | now
    · exact .inl (progress.behind ip before enabled)
    · by_cases known : ip ∈ w.alreadyScanned
      · exact .inl (progress.already ip known)
      · refine .inr (List.mem_filter.mpr ⟨now, ?_⟩)
        rw [decide_eq_true known, Bool.true_and]
        exact enabled
  · intro ip known
    rw [ips]
    exact List.mem_append_left _ (progress.already ip known)
  · intro ip inside fresh recorded
    rw [ips, List.mem_append] at recorded
    rw [Worker.recorded, ← List.drop_drop] at inside
    rcases recorded with before | now
    · exact progress.ahead ip (List.mem_of_mem_drop inside) fresh before
    · -- An address has one place in the list.
      have taken := (List.mem_filter.mp now).1
      have parts : (w.ipsToScan.drop w.i).Nodup := distinct.sublist (List.drop_sublist _ _)
      rw [← List.take_append_drop scanBatchSize (w.ipsToScan.drop w.i)] at parts
      exact (List.nodup_append.mp parts).2.2 ip taken ip inside rfl

theorem Progress.batch_fresh {rows : List ScanResult} {w : Worker} (progress : Progress rows w)
    {ip : Text} (asked : ip ∈ w.batch) : ip ∉ rows.map (·.ip) := by
  obtain ⟨inside, test⟩ := List.mem_filter.mp asked
  exact progress.ahead ip (List.mem_of_mem_take inside)
    (of_decide_eq_true (Bool.and_eq_true_iff.mp test).1)

theorem apply_inserts (t : Tables) (rows : List ScanResult) :
    scanner.apply t (rows.map .insertResult) = { t with results := t.results ++ rows } := by
  induction rows generalizing t with
  | nil =>
    rw [List.append_nil]
    rfl
  | cons row rows ih =>
    refine (ih (t.write (.insertResult row))).trans ?_
    rw [Tables.write, List.append_assoc]
    rfl

theorem inserts_fine {t : Tables} {rows : List ScanResult} (once : (rows.map ScanResult.key).Nodup)
    (fresh : ∀ row ∈ rows, row.key ∉ t.results.map ScanResult.key)
    (known : ∀ row ∈ rows, ∃ scan ∈ t.scans, scan.id = row.scanId ∧ scan.status.isActive) :
    scanner.AllFine Fine t (rows.map .insertResult) := by
  induction rows generalizing t with
  | nil => trivial
  | cons row rows ih =>
    obtain ⟨first, rest⟩ := List.nodup_cons.mp once
    refine ⟨⟨fresh row List.mem_cons_self, known row List.mem_cons_self⟩, ih rest ?_ ?_⟩
    · intro other later recorded
      rw [show (scanner.write t (.insertResult row)).results = t.results ++ [row] from rfl,
        List.map_append, List.mem_append, List.map_singleton, List.mem_singleton] at recorded
      rcases recorded with before | same
      · exact fresh other (List.mem_cons_of_mem _ later) before
      · exact first (same ▸ List.mem_map_of_mem later)
    · exact fun other later => known other (List.mem_cons_of_mem _ later)

/-- One scan is given another worker, or none, and is taken up. -/
theorem Coupled.replace {after : Tables} {m : Memory} (coupled : Coupled t m) {scanId : Nat}
    (next : Option Worker) {rest : List Nat} (frames : ∀ other, other ≠ scanId →
    Frames t after other) (works : ∀ w ∈ next, w.scanId = scanId ∧ Works after w)
    (attended : ∀ scan ∈ after.scans, scan.id = scanId → scan.status.isActive → next.isSome)
    (queue : m.toResume = rest ∨ m.toResume = scanId :: rest) (other : scanId ∉ rest)
    (known : ∀ id ∈ rest, after.Has id) : Coupled after { m.replace scanId next with toResume :=
    rest } := by
  have inside : ∀ id ∈ rest, id ∈ m.toResume := by
    intro id member
    rcases queue with same | same
    · exact same ▸ member
    · exact same ▸ List.mem_cons_of_mem _ member
  refine ⟨?_, ?_, ?_, known, ?_⟩
  · intro w member
    rcases List.mem_append.mp member with old | new
    · obtain ⟨listed, differs⟩ := List.mem_filter.mp old
      exact (coupled.workers w listed).frame (frames _ (of_decide_eq_true differs))
    · exact (works w (Option.mem_toList.mp new)).2
  · rcases queue with same | same
    · exact same ▸ coupled.distinct
    · exact (List.nodup_cons.mp (same ▸ coupled.distinct)).2
  · intro id member scan listed here
    have differs : id ≠ scanId := fun same => other (same ▸ member)
    exact coupled.resume id (inside id member) scan ((frames id differs).row scan listed here) here
  · intro scan listed active
    by_cases here : scan.id = scanId
    · obtain ⟨w, isIt⟩ := Option.isSome_iff_exists.mp (attended scan listed here active)
      exact .inr ⟨w, List.mem_append_right _ (by simp [isIt]), (works w isIt).1.trans here.symm⟩
    · rcases coupled.attended scan ((frames _ here).row scan listed rfl) active with waits | ⟨w,
        member, same⟩
      · rcases queue with all | all
        · exact .inl (all ▸ waits)
        · exact .inl ((List.mem_cons.mp (all ▸ waits)).resolve_left here)
      · refine .inr ⟨w, List.mem_append_left _ (List.mem_filter.mpr ⟨member, ?_⟩), same⟩
        rw [same]
        exact decide_eq_true here

theorem Coupled.goOn {after : Tables} {m : Memory} (coupled : Coupled t m) (idle : m.toResume = [])
    (scanId : Nat) (next : Option Worker) (frames : ∀ other, other ≠ scanId → Frames t after other)
    (works : ∀ w ∈ next, w.scanId = scanId ∧ Works after w)
    (attended : ∀ scan ∈ after.scans, scan.id = scanId → scan.status.isActive → next.isSome) :
    Coupled after (m.replace scanId next) := by
  have result := coupled.replace next frames works attended (.inl idle) List.not_mem_nil (by simp)
  rwa [← idle] at result

/-- A scan is started on its row: it is running then, or has failed. -/
theorem Durable.started (durable : Durable t) {scanId : Nat} (facts : Facts)
    (targetIps : Option (List Text)) (below : scanId < t.nextId) (active : ∀ scan ∈ t.scans,
    scan.id = scanId → scan.status.isActive) :
    Fine t (ScanRuns.startScan t scanId facts targetIps).1 ∧
      (∀ w ∈ (ScanRuns.startScan t scanId facts targetIps).2,
        w.scanId = scanId ∧ Works (t.write (ScanRuns.startScan t scanId facts targetIps).1) w) ∧
      (∀ scan ∈ (t.write (ScanRuns.startScan t scanId facts targetIps).1).scans, scan.id = scanId →
        scan.status.isActive → (ScanRuns.startScan t scanId facts targetIps).2.isSome) ∧
      (ScanRuns.startScan t scanId facts targetIps).1.about t.nextId = some scanId ∧
      ∀ id, t.Has id → (t.write (ScanRuns.startScan t scanId facts targetIps).1).Has id := by
  have has (set : Scan → Scan) (same : ∀ scan, (set scan).id = scan.id) (id : Nat)
      (known : t.Has id) :
      (t.update scanId set).Has id := by
    obtain ⟨scan, member, rfl⟩ := known
    by_cases here : scan.id = scanId
    · exact ⟨set scan, mem_update.mpr (.inl ⟨scan, member, here, rfl⟩), same scan⟩
    · exact ⟨scan, mem_update.mpr (.inr ⟨member, here⟩), rfl⟩
  cases found : facts.subnet with
  | none =>
    have nothing : ScanRuns.startScan t scanId facts targetIps =
        (.markFailed scanId "Subnet not found".toList, none) := by
      rw [ScanRuns.startScan, found]
    rw [nothing]
    refine ⟨active, by simp, ?_, rfl, has _ fun _ => rfl⟩
    intro scan member here active
    obtain ⟨old, -, -, rfl⟩ | ⟨-, differs⟩ := mem_update.mp member
    · simp [ScanStatus.isActive] at active
    · exact absurd here differs
  | some subnet =>
    obtain ⟨w, total, begins, same, distinct, progress⟩ := durable.startScan scanId found targetIps
    rw [begins]
    refine ⟨active, ?_, fun _ _ _ _ => rfl, rfl, has _ fun _ => rfl⟩
    rintro w ⟨⟩
    refine ⟨same, same ▸ below, distinct, ?_, fun _ => same ▸ progress⟩
    intro scan member here
    obtain ⟨old, -, -, rfl⟩ | ⟨-, differs⟩ := mem_update.mp member
    · rfl
    · exact absurd (here.trans same) differs

theorem Coupled.create {m : Memory} (durable : Durable t) (coupled : Coupled t m)
    (idle : m.toResume = []) {facts : Facts} {targetIps : Option (List Text)} {writes : List Write}
    {after : Memory} (plan : create t m facts targetIps = some (writes, after)) :
    scanner.AllFine Fine t writes ∧ Coupled (scanner.apply t writes) after := by
  obtain ⟨subnet, -, rest⟩ := Option.bind_eq_some_iff.mp plan
  split_ifs at rest with may
  obtain ⟨rfl, rfl⟩ := Prod.mk.inj (Option.some.inj rest)
  have fine : Fine t (.createPending subnet.id subnet.topologyRevision targetIps.isSome) := by
    obtain ⟨-, free⟩ := Bool.and_eq_true_iff.mp may
    exact (Bool.or_eq_true_iff.mp free).imp id Option.isNone_iff_eq_none.mp
  -- The new row is the only one with its id, and has no rows.
  have created := durable.write fine
  have isNew :
      ∀ scan ∈ (t.write (.createPending subnet.id subnet.topologyRevision targetIps.isSome)).scans,
      scan.id = t.nextId → scan.status.isActive := by
    intro scan listed here
    rcases List.mem_append.mp listed with old | new
    · exact absurd here (durable.below scan old).ne
    · rw [List.mem_singleton.mp new]
      rfl
  have same : ScanRuns.startScan
      (t.write (.createPending subnet.id subnet.topologyRevision targetIps.isSome)) t.nextId facts
      targetIps = ScanRuns.startScan t t.nextId facts targetIps := rfl
  obtain ⟨fineStart, works, attended, about, -⟩ :=
    created.started facts targetIps (Nat.lt_succ_self t.nextId) isNew
  rw [same] at fineStart works attended about
  refine ⟨⟨fine, fineStart, trivial⟩, ?_⟩
  have frames (other : Nat) (differs : other ≠ t.nextId) :
      Frames t ((t.write (.createPending subnet.id subnet.topologyRevision targetIps.isSome)).write
      (ScanRuns.startScan t t.nextId facts targetIps).1) other := by
    refine (frames_write durable _ ?_).trans (frames_write created _ ?_)
    · exact fun here => differs (Option.some.inj here).symm
    · exact fun here => differs (Option.some.inj (about.symm.trans here)).symm
  exact coupled.goOn idle _ _ frames works attended

theorem frames_inserts (t : Tables) {rows : List ScanResult} {scanId other : Nat}
    (own : ∀ row ∈ rows, row.scanId = scanId) (differs : other ≠ scanId) :
    Frames t { t with results := t.results ++ rows } other := by
  refine ⟨le_rfl, fun _ member _ => member, fun _ _ _ _ => ?_⟩
  have none : rows.filter (·.scanId = other) = [] :=
    List.filter_eq_nil_iff.mpr fun row member same =>
      differs ((of_decide_eq_true same).symm.trans (own row member))
  rw [Tables.resultsOf, List.filter_append, none, List.append_nil, Tables.resultsOf]

theorem Coupled.batchDone {m : Memory} (coupled : Coupled t m) (idle : m.toResume = [])
    {w : Worker} (member : w ∈ m.workers) {probes : List Probe} {writes : List Write}
    {after : Memory} (plan : batchDone t m w probes = some (writes, after)) :
    scanner.AllFine Fine t writes ∧ Coupled (scanner.apply t writes) after := by
  have works := coupled.workers w member
  have asked : probes.map (·.ip) = w.batch := by
    by_contra other
    rw [ScanRuns.batchDone, decide_eq_true other, Bool.or_true, if_pos rfl] at plan
    cases plan
  rw [ScanRuns.batchDone] at plan
  split_ifs at plan with _ unasked present
  · -- No address of the batch is to be probed.
    obtain ⟨rfl, rfl⟩ := Prod.mk.inj (Option.some.inj plan)
    refine ⟨trivial, coupled.goOn idle w.scanId (some (w.recorded probes)) ?_ ?_ fun _ _ _ _ => rfl⟩
    · exact fun other _ => ⟨le_rfl, fun _ member _ => member, fun _ _ _ _ => rfl⟩
    · rintro w ⟨⟩
      refine ⟨rfl, works.below, works.distinct, works.active, fun has => ?_⟩
      have progress := (works.progress has).recorded works.distinct asked
      subst unasked
      rwa [List.map_nil, List.append_nil] at progress
  · obtain ⟨rfl, rfl⟩ := Prod.mk.inj (Option.some.inj plan)
    obtain ⟨scan, listed, here⟩ := List.any_eq_true.mp present
    have here : scan.id = w.scanId := of_decide_eq_true here
    have progress := works.progress ⟨scan, listed, here⟩
    have moved := progress.recorded works.distinct asked
    have own : ∀ row ∈ probes.map w.resultOf, row.scanId = w.scanId := by
      intro row inside
      obtain ⟨probe, -, rfl⟩ := List.mem_map.mp inside
      rfl
    have rows : ({ t with results := t.results ++ probes.map w.resultOf } : Tables).resultsOf
        w.scanId = t.resultsOf w.scanId ++ probes.map w.resultOf := by
      rw [Tables.resultsOf, List.filter_append, Tables.resultsOf]
      exact congrArg _ (List.filter_eq_self.mpr fun row inside => decide_eq_true (own row inside))
    have inserts : probes.map (fun probe => Write.insertResult (w.resultOf probe)) =
        (probes.map w.resultOf).map .insertResult := by
      rw [List.map_map]
      rfl
    rw [inserts]
    have applied := apply_inserts t (probes.map w.resultOf)
    refine ⟨Program.AllFine.append (inserts_fine ?_ ?_ ?_) ?_, ?_⟩
    · have distinct : (probes.map (·.ip)).Nodup := by
        rw [asked]
        exact (works.distinct.sublist
          ((List.take_sublist _ _).trans (List.drop_sublist _ _))).filter _
      rw [List.map_map]
      exact List.Nodup.of_map Prod.snd (by rw [List.map_map]; exact distinct)
    · intro row inside recorded
      obtain ⟨probe, among, rfl⟩ := List.mem_map.mp inside
      obtain ⟨old, known, same⟩ := List.mem_map.mp recorded
      refine progress.batch_fresh (asked ▸ List.mem_map_of_mem among)
        (List.mem_map.mpr ⟨old, ?_, ?_⟩)
      · exact List.mem_filter.mpr ⟨known, decide_eq_true (congrArg Prod.fst same)⟩
      · exact congrArg Prod.snd same
    · exact fun row inside => ⟨scan, listed, here.trans (own row inside).symm,
        works.active scan listed here⟩
    · rw [applied]
      refine ⟨⟨works.active, ?_, ?_⟩, trivial⟩
      · rw [rows]
        exact moved.scanned
      · rw [Tables.countConflicts, rows]
        exact moved.conflicts
    · rw [Program.apply_append, applied]
      refine coupled.goOn idle w.scanId (some (w.recorded probes)) ?_ ?_ fun _ _ _ _ => rfl
      · exact fun other differs => (frames_inserts t own differs).trans
          (frames_update _ (fun _ => rfl) differs)
      · rintro w ⟨⟩
        refine ⟨rfl, works.below, works.distinct, ?_, fun _ => ?_⟩
        · intro scan member here
          obtain ⟨old, among, same, rfl⟩ | ⟨-, differs⟩ := mem_update.mp member
          · exact works.active old among same
          · exact absurd here differs
        · exact rows.symm ▸ moved
  · -- The scan is gone, and nothing is left to mark.
    obtain ⟨rfl, rfl⟩ := Prod.mk.inj (Option.some.inj plan)
    have absent : ¬ t.Has w.scanId := fun ⟨scan, listed, here⟩ =>
      present (List.any_eq_true.mpr ⟨scan, listed, decide_eq_true here⟩)
    refine ⟨⟨works.active, trivial⟩, coupled.goOn idle w.scanId none ?_ (by simp) ?_⟩
    · exact fun other differs => frames_update _ (fun _ => rfl) differs
    · intro scan member here
      obtain ⟨old, among, same, -⟩ | ⟨-, differs⟩ := mem_update.mp member
      · exact (absent ⟨old, among, same⟩).elim
      · exact absurd here differs

theorem Coupled.ended {m : Memory} (coupled : Coupled t m) (idle : m.toResume = []) (scanId : Nat)
    {set : Scan → Scan} (same : ∀ scan, (set scan).id = scan.id)
    (ends : ∀ scan, ¬ (set scan).status.isActive) :
    Coupled (t.update scanId set) (m.replace scanId none) := by
  refine coupled.goOn idle scanId none (fun _ differs => frames_update _ same differs) (by simp) ?_
  intro scan member here active
  obtain ⟨old, -, -, rfl⟩ | ⟨-, differs⟩ := mem_update.mp member
  · exact absurd active (ends old)
  · exact absurd here differs

theorem Coupled.frame {after : Tables} {m : Memory} (coupled : Coupled t m) (idle : m.toResume = [])
    (frames : ∀ other, Frames t after other) : Coupled after m := by
  refine ⟨fun w member => (coupled.workers w member).frame (frames _), coupled.distinct, ?_, ?_, ?_⟩
  · exact fun id member scan listed here => coupled.resume id member scan
      ((frames id).row scan listed here) here
  · simp [idle]
  · exact fun scan member active => coupled.attended scan ((frames _).row scan member rfl) active

theorem Coupled.finish {m : Memory} (durable : Durable t) (coupled : Coupled t m)
    (idle : m.toResume = []) {w : Worker} (member : w ∈ m.workers) {subnet : Option Subnet}
    {failure : Option Text} {writes : List Write} {after : Memory}
    (plan : finish t m w subnet failure = some (writes, after)) :
    scanner.AllFine Fine t writes ∧ Coupled (scanner.apply t writes) after := by
  have works := coupled.workers w member
  have failed (error : Text) : scanner.AllFine Fine t [.markFailed w.scanId error] ∧
      Coupled (t.write (.markFailed w.scanId error)) (m.replace w.scanId none) :=
    ⟨⟨works.active, trivial⟩, coupled.ended idle w.scanId (fun _ => rfl)
      fun _ => by simp [ScanStatus.isActive]⟩
  rw [ScanRuns.finish] at plan
  split at plan
  · cases plan
  · dsimp only at plan
    split at plan
    · rename_i current
      cases failure with
      | some error =>
        obtain ⟨rfl, rfl⟩ := Prod.mk.inj (Option.some.inj plan)
        exact failed error
      | none =>
        obtain ⟨rfl, rfl⟩ := Prod.mk.inj (Option.some.inj plan)
        obtain ⟨scan, listed, found⟩ := List.any_eq_true.mp current
        have progress :=
          works.progress ⟨scan, listed, of_decide_eq_true (Bool.and_eq_true_iff.mp found).1⟩
        have fine : Fine t (.markCompleted w.scanId w.scannedCount w.conflictsFound) :=
          ⟨progress.scanned, progress.conflicts⟩
        have completed := durable.write fine
        have ended : Coupled (t.write (.markCompleted w.scanId w.scannedCount w.conflictsFound))
            (m.replace w.scanId none) :=
          coupled.ended idle w.scanId (fun _ => rfl) fun _ => by simp [ScanStatus.isActive]
        split_ifs
        · exact ⟨⟨fine, trivial⟩, ended⟩
        · have may : Fine (t.write (.markCompleted w.scanId w.scannedCount w.conflictsFound))
              (.pruneOldResults w.subnetId w.scanId) := trivial
          have pruned := completed.write may
          refine ⟨⟨fine, trivial, trivial, trivial⟩, ended.frame idle fun other => ?_⟩
          exact (frames_write completed (.pruneOldResults w.subnetId w.scanId)
            (by simp [Write.about])).trans
            (frames_write pruned (.pruneOldScans w.subnetId scanHistoryKeep)
            (by simp [Write.about]))
    · obtain ⟨rfl, rfl⟩ := Prod.mk.inj (Option.some.inj plan)
      exact failed _

/-- **Every event keeps the tables, and the memory knows what they are then.** -/
theorem Coupled.event {m : Memory} (durable : Durable t) (coupled : Coupled t m) {event : Event}
    {writes : List Write} {after : Memory} (plan : plan event t m = some (writes, after)) :
    scanner.AllFine Fine t writes ∧ Coupled (scanner.apply t writes) after := by
  unfold ScanRuns.plan at plan
  split at plan
  case h_1 scanId rest facts queue =>
    obtain ⟨rfl, rfl⟩ := Prod.mk.inj (Option.some.inj plan)
    obtain ⟨scan, listed, here⟩ := coupled.known scanId (by simp [queue])
    obtain ⟨fine, works, attended, about, has⟩ := durable.started facts none
      (here ▸ durable.below scan listed) (coupled.resume scanId (by simp [queue]))
    refine ⟨⟨fine, trivial⟩, coupled.replace _ (fun other differs => frames_write durable _ ?_)
      works attended (.inr queue) (List.nodup_cons.mp (queue ▸ coupled.distinct)).1 fun id member =>
      ?_⟩
    · exact fun same => differs (Option.some.inj (about.symm.trans same)).symm
    · exact has id (coupled.known id (by simp [queue, member]))
  case h_2 idle => exact coupled.create durable idle plan
  case h_3 idle =>
    split_ifs at plan
    exact coupled.create durable idle plan
  case h_4 idle =>
    obtain ⟨w, found, plan⟩ := Option.bind_eq_some_iff.mp plan
    exact coupled.batchDone idle (List.mem_of_find?_eq_some found) plan
  case h_5 idle =>
    obtain ⟨w, found, plan⟩ := Option.bind_eq_some_iff.mp plan
    exact coupled.finish durable idle (List.mem_of_find?_eq_some found) plan
  case h_6 idle =>
    obtain ⟨scan, -, plan⟩ := Option.bind_eq_some_iff.mp plan
    split_ifs at plan
    obtain ⟨rfl, rfl⟩ := Prod.mk.inj (Option.some.inj plan)
    exact ⟨⟨trivial, trivial⟩, coupled.frame idle fun other => frames_delete durable _ other⟩
  case h_7 idle =>
    obtain ⟨rfl, rfl⟩ := Prod.mk.inj (Option.some.inj plan)
    exact ⟨⟨trivial, trivial⟩, coupled.frame idle fun other => frames_delete durable _ other⟩
  case h_8 => cases plan

theorem Durable.interrupted (durable : Durable t) : Coupled t (interrupted t) := by
  have known : ∀ id ∈ (ScanRuns.interrupted t).toResume, ∃ scan ∈ t.scans, scan.status.isActive ∧
      scan.id = id := by
    intro id member
    obtain ⟨scan, inside, same⟩ := List.mem_map.mp member
    obtain ⟨listed, active⟩ := List.mem_filter.mp inside
    exact ⟨scan, listed, active, same⟩
  refine ⟨by simp [ScanRuns.interrupted], durable.ids.sublist (List.filter_sublist.map _), ?_, ?_,
    ?_⟩
  · intro id member scan listed here
    obtain ⟨other, also, active, same⟩ := known id member
    rw [durable.eq_of_id listed also (here.trans same.symm)]
    exact active
  · intro id member
    obtain ⟨scan, listed, -, same⟩ := known id member
    exact ⟨scan, listed, same⟩
  · exact fun scan listed
      active => .inl (List.mem_map_of_mem (List.mem_filter.mpr ⟨listed, active⟩))

/-! ## Runs -/

theorem durable_start : Durable {} := by
  refine ⟨List.nodup_nil, ?_, ?_, List.nodup_nil, ?_, ?_⟩ <;> simp

theorem reached {t : Tables} {m : Memory} (run : scanner.Run ({}, {}) (t, m)) : Durable t ∧
    Coupled t m :=
  run.holds (fun _ _ durable => durable.write) (fun _ durable => durable.interrupted)
    (fun _ _ _ _ _ durable coupled plan => coupled.event durable plan)
    ⟨durable_start, by refine ⟨?_, List.nodup_nil, ?_, ?_, ?_⟩ <;> simp⟩

/-- **A scan adds up after any number of restarts**, wherever in it they come. No address of it
is recorded twice, and what is still to be probed is not recorded. Once it is completed it counts
the rows it has, or these have gone since. Whoever comes to its end has recorded every address
that was to be probed. -/
theorem scans_survive_restarts {t : Tables} {m : Memory} (run : scanner.Run ({}, {}) (t, m)) :
    (t.results.map ScanResult.key).Nodup ∧
    (∀ scan ∈ t.scans, scan.status = .completed → t.resultsOf scan.id = [] ∨
      (scan.scannedIps = (t.resultsOf scan.id).length ∧
      scan.conflictsFound = t.countConflicts scan.id)) ∧
    (∀ w ∈ m.workers, t.Has w.scanId →
      (∀ ip ∈ w.batch, (w.scanId, ip) ∉ t.results.map ScanResult.key) ∧
      (w.ipsToScan.length ≤ w.i →
        ∀ ip ∈ w.ipsToScan, w.enabled ip → (w.scanId, ip) ∈ t.results.map ScanResult.key)) := by
  obtain ⟨durable, coupled⟩ := reached run
  have recorded {scanId : Nat} {ip : Text} :
      ip ∈ (t.resultsOf scanId).map (·.ip) ↔ (scanId, ip) ∈ t.results.map ScanResult.key := by
    simp [Tables.resultsOf, ScanResult.key, and_assoc]
  refine ⟨durable.once, fun scan member completed => ?_, fun w member has =>
    ⟨fun ip asked => ?_, ?_⟩⟩
  · have counted := durable.counts scan member
    rwa [Counted, if_pos completed] at counted
  · exact fun known => ((coupled.workers w member).progress has).batch_fresh asked
      (recorded.mpr known)
  · intro done ip inside enabled
    refine recorded.mp (((coupled.workers w member).progress has).behind ip ?_ enabled)
    rwa [List.take_of_length_le done]

/-- **No scan stays in the way of the next, and no network has two.** A scan that is not done is
at work or about to be, and of the scans that are not done, those of one network are one, but for
the probes of single addresses. -/
theorem one_scan_at_a_time {t : Tables} {m : Memory} (run : scanner.Run ({}, {}) (t, m)) :
    (∀ scan ∈ t.scans, scan.status.isActive → scan.id ∈ m.toResume ∨ ∃ w ∈ m.workers,
    w.scanId = scan.id) ∧ (∀ a ∈ t.scans, ∀ b ∈ t.scans, a.status.isActive → b.status.isActive →
      a.subnetId = b.subnetId → a.id ∉ t.probes → b.id ∉ t.probes → a.id = b.id) := by
  obtain ⟨durable, coupled⟩ := reached run
  exact ⟨coupled.attended, durable.single⟩

theorem lab_prefix_le : 31 ≤ Family.v4.bits := by decide

theorem lab_aligned : 2 ^ (Family.v4.bits - 31) ∣ 0x0a000000 := by decide

/-- A network of two addresses, one of them reserved. -/
def labFacts : Facts where
  subnet := some
    { id               := 7
      network          := ⟨.v4, 0x0a000000, 31, lab_prefix_le, lab_aligned, Network.ten_fits,
      Network.ten_unmapped⟩
      isV4             := rfl
      allocated        := true
      topologyRevision := 3
      scanEnabled      := none }
  defaultScanEnabled := none
  ipOverrides := []
  assignments := [("10.0.0.1".toList, ⟨some "AA:00".toList, .staticDhcp⟩)]

/-- Its scan ends after the first of two rows, and is taken up by the next process. -/
def labEvents : List (Event × Option Nat) :=
  [(.requested labFacts, none),
    (.batchDone 1 [⟨"10.0.0.0".toList, false, none⟩,
    ⟨"10.0.0.1".toList, true, some "bb:00".toList⟩], some 1), (.resumed labFacts, none),
    (.batchDone 1 [⟨"10.0.0.1".toList, true, some "bb:00".toList⟩], none),
    (.finished 1 labFacts.subnet none, none)]

/-- What it leaves. -/
def labTables : Tables where
  scans := [⟨1, 7, 3, .completed, 2, 2, 1, none⟩]
  results := [⟨1, "10.0.0.0".toList, none, false, false, none⟩,
    ⟨1, "10.0.0.1".toList, some "bb:00".toList, true, true,
      some "MAC mismatch (expected AA:00, got bb:00)".toList⟩]
  nextId := 2

theorem exec_lab : scanner.exec ({}, {}) labEvents = some (labTables, {}) := by rfl

theorem scans_survive_restarts_lab : (labTables.results.map ScanResult.key).Nodup ∧
    ∀ scan ∈ labTables.scans, scan.status = .completed → labTables.resultsOf scan.id = [] ∨
      (scan.scannedIps = (labTables.resultsOf scan.id).length ∧
        scan.conflictsFound = labTables.countConflicts scan.id) := by
  obtain ⟨once, counts, -⟩ := scans_survive_restarts (Program.run_of_exec exec_lab)
  exact ⟨once, counts⟩

/-- A probe of an address comes while the scan is at work, and then the process ends. -/
def labProbed : List (Event × Option Nat) :=
  [(.requested labFacts, none), (.probed labFacts ["10.0.0.1".toList], none),
    (.batchDone 1 [⟨"10.0.0.0".toList, false, none⟩, ⟨"10.0.0.1".toList, true, none⟩], some 1)]

/-- The tables between the two processes. -/
def labHalf : Tables where
  scans := [⟨1, 7, 3, .running, 2, 0, 0, none⟩, ⟨2, 7, 3, .running, 1, 0, 0, none⟩]
  results := [⟨1, "10.0.0.0".toList, none, false, false, none⟩]
  probes := [2]
  nextId := 3

theorem exec_lab_half : scanner.exec ({}, {}) labProbed = some (labHalf,
    { toResume := [1, 2] }) := by rfl

/-- A second scan of the network is refused. -/
theorem one_scan_at_a_time_lab :
    scanner.exec ({}, {}) [(.requested labFacts, none), (.requested labFacts, none)] = none ∧
    (∀ scan ∈ labHalf.scans, scan.status.isActive → scan.id ∈ [1, 2] ∨
      ∃ w ∈ ([] : List Worker), w.scanId = scan.id) ∧
    (∀ a ∈ labHalf.scans, ∀ b ∈ labHalf.scans, a.status.isActive → b.status.isActive →
      a.subnetId = b.subnetId → a.id ∉ labHalf.probes → b.id ∉ labHalf.probes → a.id = b.id) :=
  ⟨rfl, one_scan_at_a_time (Program.run_of_exec exec_lab_half)⟩

end

end ScanRuns

end Cidrella
