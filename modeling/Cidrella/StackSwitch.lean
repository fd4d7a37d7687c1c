import Cidrella.LeaseServers

/-!
# Switching the server stack

`services/stack-switch.js` and the stack of `backends/index.js`. Four places name the stack:
the variable `stack`, the `backend_stack` setting, the runtime stack file, and, while a
switch runs, the marker. A switch, its rollback and a boot are lists of operations that the
machine takes one at a time. An operation works, throws, or the process dies in it, and in
the last two cases a part of its effect may be there already. A second call of `switchStack`
may come between any two operations.

`commit` writes the four places one after another with no rollback behind it, and a rollback
that fails may leave the other stack selected. From then on the places can differ, also
after a later switch that is rolled back well (`places_differ`). Where neither happens they
name one stack whenever no switch runs, and a boot brings them back to the setting in any
case (`one_stack_in_force`).
-/

set_option autoImplicit false

namespace Cidrella

open LeaseHandover

namespace StackSwitch

/-! ## Stacks -/

/-- The stack of dnsmasq alone, `DEFAULT_STACK`. -/
def dnsmasqStack : Text := "dnsmasq".toList

/-- The stack of PowerDNS, Kea and radvd. -/
def pdnsKeaStack : Text := "pdns-kea".toList

/-- The keys of `STACKS`. -/
def isStack (name : Text) : Bool := name = dnsmasqStack || name = pdnsKeaStack

/-- The properties every object inherits, which `STACKS[name]` finds too. -/
def inherited : List Text :=
  ["constructor", "hasOwnProperty", "isPrototypeOf", "propertyIsEnumerable",
    "toLocaleString", "toString", "valueOf", "__proto__", "__defineGetter__", "__defineSetter__",
    "__lookupGetter__", "__lookupSetter__"].map String.toList

/-- `stackInstalled`; an inherited property has no services that could be missing. -/
def stackInstalled (installed : Text → Bool) (name : Text) : Bool :=
  name ∈ inherited || installed name

/-- The daemons. -/
inductive Daemon where
  | dnsmasq
  | pdns
  | kea
  | radvd
  deriving DecidableEq, Repr

/-- The DHCP server of a stack. -/
inductive Dhcp where
  | dnsmasq
  | kea
  deriving DecidableEq, Repr

/-! ## The world -/

/-- `phase` of a switch. -/
inductive Phase where
  | hold
  | stage
  | quiesce
  | stop
  | read
  | import
  | start
  | verify
  | commit
  deriving DecidableEq, Repr

/-- The record `st` of a switch, with the leases and the problems of its rollback. -/
structure Switch where
  source : Text
  target : Text
  phase : Phase := .hold
  sourceStopped : Bool := false
  selected : Bool := false
  leases : Option (List CarriedLease) := none
  carried : Option (List CarriedLease) := none
  problems : Bool := false

/-- The switch marker. -/
structure Marker where
  source : Text
  target : Text
  hasSnapshot : Bool
  deriving DecidableEq, Repr

/-- What is stored, what the DHCP servers hold, and the variables of the process. A marker
file of which only a part was written is `some none`. -/
structure World where
  setting : Option Text
  legacySetting : Option Text := none
  stackFile : Option Text := none
  marker : Option (Option Marker) := none
  legacyMarker : Bool := false
  dnsmasqLeases : Register FileLine.ip := Register.empty
  keaLeases : Register KeaRow.ip := Register.empty
  stack : Text := dnsmasqStack
  keaQuiesced : Bool := false
  switchInProgress : Bool := false
  switch : Switch := { source := dnsmasqStack, target := dnsmasqStack }

/-- What the daemons do with leases: the rows they refuse, the time, and the lifetime of a
lease that comes without one. -/
structure Daemons where
  refusesRow : KeaRow → Bool := fun _ => false
  refusesLine : FileLine → Bool := fun _ => false
  now : Nat := 0
  subnetLifetime : Nat := 0

namespace Daemons

/-- Kea as a server of leases. -/
abbrev kea (daemons : Daemons) : LeaseServer := LeaseHandover.kea daemons.now daemons.subnetLifetime

/-- The rows Kea refuses when it is the target; as the source it takes its leases back. -/
def refusedRow (daemons : Daemons) (switch : Switch) (row : KeaRow) : Bool :=
  switch.target = pdnsKeaStack && daemons.refusesRow row

/-- The lines dnsmasq drops when it is the target. -/
def refusedLine (daemons : Daemons) (switch : Switch) (line : FileLine) : Bool :=
  switch.target = dnsmasqStack && daemons.refusesLine line

end Daemons

/-- What a daemon reports. -/
def World.readLeases (daemons : Daemons) (w : World) : Dhcp → List CarriedLease
  | .dnsmasq => LeaseHandover.dnsmasq.leases w.dnsmasqLeases
  | .kea => daemons.kea.leases w.keaLeases

/-- `importLeases`. -/
def World.importLeases (daemons : Daemons) (w : World) (leases : List CarriedLease) : Dhcp → World
  | .dnsmasq => { w with dnsmasqLeases := LeaseHandover.dnsmasq.load (fun _ => false) leases }
  | .kea => { w with keaLeases := daemons.kea.load (daemons.refusedRow w.switch) leases }

/-! ## Operations -/

/-- The statements of a switch, a rollback and a boot. -/
inductive Op where
  | holdHooks
  | holdLeaseSync
  | writeMarker
  | phase (phase : Phase)
  | prepare (daemon : Daemon)
  | stage (daemon : Daemon)
  | setSourceStopped
  | stopAll (daemons : List Daemon)
  | settledLeases (server : Dhcp)
  | serverIdentity (server : Dhcp)
  | writeSnapshot
  | importLeases (server : Dhcp)
  | selectStack (name : Text)
  | setSelected
  | setDhcpServing (serving : Bool)
  | applyScopes
  | applyDhcp
  | activate (daemon : Daemon)
  | restart
  | awaitRunning (daemon : Daemon)
  | missingLeases (server : Dhcp)
  | verifyZones
  | upsertSetting (name : Text)
  | deleteLegacySetting
  | writeStackFile (name : Text)
  | clearMarker
  | targetLeases (server : Dhcp)
  | tryStopAll (daemons : List Daemon)
  | importTargetLeases (server : Dhcp)
  | throwProblems
  | recordFallback
  | clearLegacyMarker
  | carryKeaLeases
  | stopOutside
  | recordInterrupted
  deriving DecidableEq, Repr

/-- What an operation that works does. -/
def perform (daemons : Daemons) (w : World) : Op → World
  | .writeMarker =>
    { w with marker := some (some ⟨w.switch.source, w.switch.target, w.switch.leases.isSome⟩) }
  | .phase phase => { w with switch := { w.switch with phase } }
  | .setSourceStopped => { w with switch := { w.switch with sourceStopped := true } }
  | .settledLeases server =>
      { w with switch := { w.switch with leases := some (w.readLeases daemons server) } }
  | .importLeases server => w.importLeases daemons (w.switch.leases.getD []) server
  | .selectStack name => { w with stack := name }
  | .setSelected => { w with switch := { w.switch with selected := true } }
  | .setDhcpServing serving => { w with keaQuiesced := !serving }
  -- dnsmasq reads its lease file when it starts.
  | .restart => { w with dnsmasqLeases := w.dnsmasqLeases.filter fun line =>
      !daemons.refusedLine w.switch line }
  | .upsertSetting name => { w with setting := some name }
  | .deleteLegacySetting => { w with legacySetting := none }
  | .writeStackFile name => { w with stackFile := some name }
  | .clearMarker => { w with marker := none }
  | .targetLeases server =>
    if w.switch.selected then
      { w with switch := { w.switch with carried := some (w.readLeases daemons server) } }
    else w
  | .importTargetLeases server =>
    match w.switch.carried with
    | some leases => w.importLeases daemons leases server
    | none => w
  | .clearLegacyMarker => { w with legacyMarker := false }
  | .carryKeaLeases => w.importLeases daemons (w.readLeases daemons .kea) .dnsmasq
  | _ => w

/-- How far an operation came that did not work: whether it had its effect nevertheless, the
text a write left, and the leases an import left in Kea. -/
structure Part where
  took : Bool := false
  text : Option Text := none
  rows : Register KeaRow.ip := Register.empty

/-- What an operation that does not work leaves behind. -/
def cut (daemons : Daemons) (part : Part) (w : World) : Op → World
  | .writeMarker => if part.took then { w with marker := some none } else w
  | .writeStackFile _ => if part.took then { w with stackFile := part.text } else w
  | .importLeases .kea => { w with keaLeases := part.rows }
  | .importTargetLeases .kea => { w with keaLeases := part.rows }
  | op => if part.took then perform daemons w op else w

/-- Assignments and the in-memory switches cannot throw, nor can what only warns. -/
def canThrow : Op → Bool
  | .phase _ | .setSourceStopped | .selectStack _ | .setSelected | .setDhcpServing
      _ | .stopOutside => false
  | _ => true

/-- The operations that throw by themselves. -/
def throws (w : World) : Op → Bool
  | .throwProblems => w.switch.problems
  | _ => false

/-- What a `catch` within the rollback makes of an operation that throws. -/
def caught (w : World) : Op → Option World
  | .targetLeases _ =>
    some (if w.switch.selected then { w with switch :=
      { w.switch with carried := w.switch.leases } } else w)
  | .tryStopAll _ => some { w with switch := { w.switch with problems := true } }
  | _ => none

/-! ## Switch, rollback and boot -/

/-- `snapshotOf`. -/
def snapshotOf : List Op := [.writeSnapshot, .writeMarker]

/-- `toPdnsKea`. -/
def toPdnsKea : List Op :=
  ([.phase .stage, .prepare .pdns, .prepare .kea, .prepare .radvd, .stage .pdns, .stage .kea,
    .stage .radvd, .phase .stop, .setSourceStopped, .stopAll [.dnsmasq],
    .phase .read, .settledLeases .dnsmasq, .serverIdentity .dnsmasq] : List Op) ++ snapshotOf ++
  ([.phase .import, .importLeases .kea,
    .phase .start, .selectStack
    pdnsKeaStack, .setSelected, .applyDhcp, .activate .pdns, .awaitRunning .kea,
    .awaitRunning .pdns, .awaitRunning .radvd, .phase .verify, .missingLeases .kea, .verifyZones] :
    List Op)

/-- `toDnsmasq`. -/
def toDnsmasq : List Op :=
  ([.phase .stage, .prepare .dnsmasq, .stage .dnsmasq,
    .phase .quiesce, .setDhcpServing false, .applyScopes, .awaitRunning .kea,
    .phase .read, .settledLeases .kea, .serverIdentity .kea] : List Op) ++ snapshotOf ++
  ([.phase .import, .importLeases .dnsmasq,
    .phase .stop, .setSourceStopped, .stopAll [.radvd, .kea, .pdns],
    .phase .start, .selectStack dnsmasqStack, .setSelected, .setDhcpServing
    true, .restart, .awaitRunning .dnsmasq, .phase .verify, .missingLeases .dnsmasq, .verifyZones] :
    List Op)

/-- `switchStack` before it commits. -/
def body (target : Text) : List Op :=
  [.holdHooks, .holdLeaseSync, .writeMarker] ++ if target = pdnsKeaStack then toPdnsKea
    else toDnsmasq

/-- `commit`. -/
def commit (name : Text) : List Op :=
  [.upsertSetting name, .deleteLegacySetting, .writeStackFile name, .clearMarker]

/-- `switchStack`. -/
def program (target : Text) : List Op := body target ++ .phase .commit :: commit target

/-- `rollBackToDnsmasq`. -/
def rollBackToDnsmasq (switch : Switch) : List Op :=
  [.targetLeases .kea, .selectStack dnsmasqStack, .setDhcpServing true, .tryStopAll
    [.radvd, .kea, .pdns]] ++
    (if switch.sourceStopped then [.importTargetLeases .dnsmasq, .restart, .awaitRunning .dnsmasq]
    else []) ++ [.throwProblems]

/-- `rollBackToPdnsKea`. -/
def rollBackToPdnsKea : List Op :=
  [.targetLeases .dnsmasq, .stopAll [.dnsmasq], .selectStack pdnsKeaStack, .setDhcpServing
    true, .activate .pdns, .activate .kea, .applyDhcp, .awaitRunning .kea, .importTargetLeases .kea]

/-- The rollback of `switchStack`. -/
def rollBack (switch : Switch) : List Op :=
  if switch.target = pdnsKeaStack then rollBackToDnsmasq switch else rollBackToPdnsKea

/-- What `selectStackAtBoot` decides: the stack, whether Kea's leases go to dnsmasq, and
whether the fallback is recorded. An empty setting counts as none. -/
def choose (installed : Text → Bool) (stored legacy : Option Text) : Text × Bool × Bool :=
  let (name, carryKea, fallback) := match stored.filter (· ≠ []) with
    | none => (dnsmasqStack, decide (legacy = some "kea".toList), false)
    | some name =>
      if isStack name || name ∈ inherited then (name, false, false) else (dnsmasqStack, false, true)
  if stackInstalled installed name then (name, carryKea, fallback)
  else (dnsmasqStack, decide (name = pdnsKeaStack), true)

/-- The stack that a setting names, or the default when it is unknown or not installed. -/
def named (installed : Text → Bool) : Option Text → Text
  | some name => if isStack name && installed name then name else dnsmasqStack
  | none => dnsmasqStack

/-- A marker that boot can read is that of a switch that did not finish. -/
def interrupted (w : World) (name : Text) : Bool :=
  match w.marker with
  | some (some marker) => marker.target ≠ name
  | _ => w.legacyMarker

/-- `selectStackAtBoot`, with the choice made. -/
def boot (w : World) (choice : Text × Bool × Bool) : List Op :=
  let (name, carryKea, fallback) := choice
  let when (condition : Bool) (op : Op) : List Op := if condition then [op] else []
  when fallback .recordFallback ++ [.clearMarker, .clearLegacyMarker] ++
    when carryKea .carryKeaLeases ++ [.selectStack name] ++ when (w.setting ≠ some name)
    (.upsertSetting name) ++ [.deleteLegacySetting, .writeStackFile name, .stopOutside] ++
    when (interrupted w name) .recordInterrupted

/-! ## The machine -/

/-- What the process is at, with the operations that are left. -/
inductive Control where
  | idle
  | switching (rest : List Op)
  | rollingBack (rest : List Op)
  | booting (name : Text) (rest : List Op)
  | down
  deriving DecidableEq, Repr

/-- How a switch that got past its preflight ended. -/
inductive Ending where
  | committed
  | unrecorded
  | rolledBack (rollbackError : Bool)
  deriving DecidableEq, Repr

/-- The world and the process. `trouble` is set by a switch that ends with a rollback error
or fails to record, until a switch commits or a boot is through. -/
structure State where
  world : World
  control : Control := .down
  lastEnding : Option Ending := none
  trouble : Bool := false

/-- What becomes of an operation. -/
inductive Fate where
  | works
  | throws (part : Part)
  | dies (part : Part)

/-- What happens: a call of `switchStack`, the next operation, leases that the DHCP servers
hand out, a start of the process. -/
inductive Event where
  | call (target : Text) (installed : Text → Bool)
  | step (fate : Fate)
  | handOut (lines : List FileLine) (rows : List KeaRow)
  | start (installed : Text → Bool)

/-- What goes on in a process that was started: neither a call nor another start. -/
def Event.goesOn : Event → Bool
  | .step _ | .handOut _ _ => true
  | _ => false

/-- `switchPreflight` finds nothing that blocks the switch. A name that is only inherited
makes it throw. -/
def passesPreflight (installed : Text → Bool) (w : World) (target : Text) : Bool :=
  isStack w.stack && isStack target && !w.switchInProgress && target ≠ w.stack &&
    installed target && installed w.stack

namespace State

/-- `switchStack`, past its preflight. -/
def begin (s : State) (target : Text) : State :=
  { s with
    world := { s.world with switchInProgress := true, switch :=
      { source := s.world.stack, target } }
    control := .switching (program target) }

/-- The end of `switchStack`, with its `finally`. -/
def finish (s : State) (w : World) (ending : Ending) : State where
  world := { w with switchInProgress := false }
  control := .idle
  lastEnding := some ending
  trouble := match ending with
    | .committed => false
    | .rolledBack false => s.trouble
    | _ => true

/-- The next operation of a switch. -/
def stepSwitch (daemons : Daemons) (s : State) (op : Op) (rest : List Op) : Fate → State
  | .works =>
    let w := perform daemons s.world op
    if rest = [] then s.finish w .committed else { s with world := w, control := .switching rest }
  | .throws part =>
    if canThrow op then
      let w := cut daemons part s.world op
      if w.switch.phase = .commit then s.finish w .unrecorded
      else { s with world := w, control := .rollingBack (rollBack w.switch ++ [.clearMarker]) }
    else s
  | .dies part => { s with world := cut daemons part s.world op, control := .down }

/-- A rollback goes on. -/
def goOn (s : State) (w : World) (rest : List Op) : State :=
  if rest = [] then s.finish w (.rolledBack false)
  else { s with world := w, control := .rollingBack rest }

/-- The next operation of a rollback. -/
def stepRollBack (daemons : Daemons) (s : State) (op : Op) (rest : List Op) : Fate → State
  | .works =>
    if throws s.world op then s.finish s.world (.rolledBack true)
    else s.goOn (perform daemons s.world op) rest
  | .throws part =>
    if canThrow op then
      match caught s.world op with
      | some w => s.goOn w rest
      | none => s.finish (cut daemons part s.world op) (.rolledBack true)
    else s
  | .dies part => { s with world := cut daemons part s.world op, control := .down }

/-- The next operation of a boot; one that throws ends the process. -/
def stepBoot (daemons : Daemons) (s : State) (name : Text) (op : Op) (rest : List Op) : Fate → State
  | .works =>
    let w := perform daemons s.world op
    if rest = [] then { world := w, control := .idle }
    else { s with world := w, control := .booting name rest }
  | .throws part => if canThrow op
      then { s with world := cut daemons part s.world op, control := .down } else s
  | .dies part => { s with world := cut daemons part s.world op, control := .down }

/-- The process starts, and boot reads the settings. -/
def start (s : State) (installed : Text → Bool) : State :=
  let choice := choose installed s.world.setting s.world.legacySetting
  let w := { s.world with stack := dnsmasqStack, keaQuiesced := false, switchInProgress := false }
  { s with world := w, control := .booting choice.1 (boot w choice) }

/-- One event. A process that is not up takes no call. -/
def apply (daemons : Daemons) (s : State) : Event → State
  | .call target installed =>
    match s.control with
    | .booting _ _ | .down => s
    | _ => if passesPreflight installed s.world target then s.begin target else s
  | .step fate =>
    match s.control with
    | .switching (op :: rest) => s.stepSwitch daemons op rest fate
    | .rollingBack (op :: rest) => s.stepRollBack daemons op rest fate
    | .booting name (op :: rest) => s.stepBoot daemons name op rest fate
    | .idle =>
      match fate with
      | .dies _ => { s with control := .down }
      | _ => s
    | _ => s
  | .handOut lines rows =>
    { s with world := { s.world with
        dnsmasqLeases := s.world.dnsmasqLeases.putAll lines, keaLeases :=
          s.world.keaLeases.putAll rows } }
  | .start installed =>
    match s.control with
    | .down => s.start installed
    | _ => s

/-- A run. -/
def run (daemons : Daemons) (s : State) (events : List Event) : State :=
  events.foldl (apply daemons) s

end State

/-! ## One stack -/

/-- The four places name one stack and no marker is left. -/
def World.Agrees (w : World) : Prop := w.setting = some w.stack ∧ w.stackFile = some w.stack ∧
    w.marker = none

instance (w : World) : Decidable w.Agrees := inferInstanceAs (Decidable (_ ∧ _ ∧ _))

/-- The setting and the stack file name a stack. -/
def World.Names (w : World) (name : Text) : Prop := w.setting = some name ∧ w.stackFile = some name

/-- The operations of a switch to a stack before its commit, and of a rollback to it: none
records a stack, and none selects another one. -/
def quiet (name : Text) : Op → Bool
  | .upsertSetting _ | .deleteLegacySetting | .writeStackFile _ | .clearMarker | .phase .commit =>
      false
  | .selectStack other => other = name
  | _ => true

/-- The part of the world that a quiet operation leaves alone. -/
def World.record (w : World) : Option Text × Option Text × Text × Text × Bool :=
  (w.setting, w.stackFile, w.switch.source, w.switch.target, w.switchInProgress)

variable (daemons : Daemons) {w : World} {op : Op} {name : Text}

theorem record_perform (silent : quiet name op = true) :
    (perform daemons w op).record = w.record := by
  cases op with
  | upsertSetting | deleteLegacySetting | writeStackFile | clearMarker => exact absurd silent nofun
  | importLeases server => cases server <;> rfl
  | importTargetLeases server =>
    unfold perform
    cases w.switch.carried with
    | none => rfl
    | some leases => cases server <;> rfl
  | targetLeases server =>
    unfold perform
    dsimp only
    split <;> rfl
  | _ => rfl

theorem record_cut (part : Part) (silent : quiet name op = true) :
    (cut daemons part w op).record = w.record := by
  have full := record_perform daemons (w := w) silent
  have either : (if part.took then perform daemons w op else w).record = w.record := by
    split
    · exact full
    · rfl
  cases op with
  | writeMarker =>
    unfold cut
    dsimp only
    split <;> rfl
  | writeStackFile => exact absurd silent nofun
  | importLeases server =>
    cases server with
    | dnsmasq => exact either
    | kea => rfl
  | importTargetLeases server =>
    cases server with
    | dnsmasq => exact either
    | kea => rfl
  | _ => exact either

/-- Only `selectStack` selects, and a quiet one the stack in question. -/
theorem stack_perform (silent : quiet name op = true) :
    (perform daemons w op).stack = w.stack ∨
    (op = .selectStack name ∧ (perform daemons w op).stack = name) := by
  cases op with
  | selectStack other =>
    obtain rfl : other = name := by simpa [quiet] using silent
    exact .inr ⟨rfl, rfl⟩
  | importLeases server => exact .inl (by cases server <;> rfl)
  | importTargetLeases server =>
    refine .inl ?_
    unfold perform
    cases w.switch.carried with
    | none => rfl
    | some leases => cases server <;> rfl
  | targetLeases server =>
    refine .inl ?_
    unfold perform
    dsimp only
    split <;> rfl
  | _ => exact .inl rfl

theorem phase_perform (silent : quiet name op = true) (early : w.switch.phase ≠ .commit) :
    (perform daemons w op).switch.phase ≠ .commit := by
  cases op with
  | phase next =>
    cases next with
    | commit => exact absurd silent nofun
    | _ => exact nofun
  | importLeases server => cases server <;> exact early
  | importTargetLeases server =>
    unfold perform
    cases w.switch.carried with
    | none => exact early
    | some leases => cases server <;> exact early
  | targetLeases server =>
    unfold perform
    dsimp only
    split <;> exact early
  | _ => exact early

/-- What an operation of a list brings about, once it is done or as long as it is to come. -/
def Due (op : Op) (rest : List Op) (fact : Prop) : Prop := op ∈ rest ∨ fact

theorem Due.next {op first : Op} {rest : List Op} {fact after : Prop}
    (due : Due op (first :: rest) fact) (done : first = op → after) (kept : fact → after) :
    Due op rest after := by
  rcases due with member | holds
  · rcases List.mem_cons.mp member with rfl | later
    · exact .inr (done rfl)
    · exact .inl later
  · exact .inr (kept holds)

theorem Due.settled {op : Op} {fact : Prop} (due : Due op [] fact) : fact :=
  due.resolve_left List.not_mem_nil

/-- A switch leads from one stack to the other. -/
def Opposite (switch : Switch) : Prop :=
  (switch.target = pdnsKeaStack ∧ switch.source = dnsmasqStack) ∨
    (switch.target = dnsmasqStack ∧ switch.source = pdnsKeaStack)

/-- A switch before its commit: nothing is recorded, and the target is selected or will be. -/
structure Before (trouble : Bool) (w : World) (rest : List Op) : Prop where
  early : w.switch.phase ≠ .commit
  opposite : Opposite w.switch
  names : trouble = false → w.Names w.switch.source
  body : ∃ ops, rest = ops ++ .phase .commit :: commit w.switch.target ∧
    (∀ op ∈ ops, quiet w.switch.target op = true) ∧
      Due (.selectStack w.switch.target) ops (w.stack = w.switch.target)

/-- A switch that commits. -/
structure Committing (w : World) (rest : List Op) : Prop where
  late : w.switch.phase = .commit
  stack : w.stack = w.switch.target
  only : ∀ op ∈ rest, op ∈ commit w.switch.target
  setting : Due (.upsertSetting w.switch.target) rest (w.setting = some w.switch.target)
  stackFile : Due (.writeStackFile w.switch.target) rest (w.stackFile = some w.switch.target)
  marker : Due .clearMarker rest (w.marker = none)

/-- A rollback to a stack. -/
structure RollingBack (trouble : Bool) (w : World) (rest : List Op) (name : Text) : Prop where
  names : trouble = false → w.Names name
  body : ∃ ops, rest = ops ++ [.clearMarker] ∧ (∀ op ∈ ops, quiet name op = true) ∧
    Due (.selectStack name) ops (w.stack = name)

/-- The operations of a boot into a stack. -/
def bootOps (name : Text) : List Op :=
  [.recordFallback, .clearMarker, .clearLegacyMarker, .carryKeaLeases, .selectStack
    name, .upsertSetting name, .deleteLegacySetting, .writeStackFile
    name, .stopOutside, .recordInterrupted]

/-- A boot into a stack. -/
structure Booting (w : World) (rest : List Op) (name : Text) : Prop where
  quietly : w.switchInProgress = false
  only : ∀ op ∈ rest, op ∈ bootOps name
  stack : Due (.selectStack name) rest (w.stack = name)
  setting : Due (.upsertSetting name) rest (w.setting = some name)
  stackFile : Due (.writeStackFile name) rest (w.stackFile = some name)
  marker : Due .clearMarker rest (w.marker = none)

/-- What holds of the state at every moment. -/
def State.Sound (s : State) : Prop :=
  match s.control with
  | .idle => s.world.switchInProgress = false ∧ (s.trouble = false → s.world.Agrees)
  | .switching rest => s.world.switchInProgress = true ∧
      (Before s.trouble s.world rest ∨ Committing s.world rest)
  | .rollingBack rest => s.world.switchInProgress = true ∧ ∃ name,
      RollingBack s.trouble s.world rest name
  | .booting name rest => Booting s.world rest name
  | .down => True

/-! ### One step -/

theorem isStack_iff {name : Text} : isStack name = true ↔ name = dnsmasqStack ∨
    name = pdnsKeaStack := by
  simp [isStack]

theorem body_quiet {target : Text} (known : isStack target = true) :
    (∀ op ∈ body target, quiet target op = true) ∧ .selectStack target ∈ body target := by
  rcases isStack_iff.mp known with rfl | rfl
  · decide
  · decide

theorem rollBack_quiet {switch : Switch} (opposite : Opposite switch) :
    (∀ op ∈ rollBack switch, quiet switch.source op = true) ∧ .selectStack switch.source ∈ rollBack
    switch := by
  rcases opposite with ⟨target, source⟩ | ⟨target, source⟩
  · rw [rollBack, if_pos target, source]
    unfold rollBackToDnsmasq
    cases switch.sourceStopped <;> decide
  · have other : switch.target ≠ pdnsKeaStack := by
      rw [target]
      decide
    rw [rollBack, if_neg other, source]
    decide

theorem names_of_record {w' : World} (same : w'.record = w.record) : w'.Names name ↔
    w.Names name := by
  simp only [World.record, Prod.mk.injEq] at same
  rw [World.Names, World.Names, same.1, same.2.1]

theorem switch_of_record {w' : World} (same : w'.record = w.record) :
    w'.switch.source = w.switch.source ∧ w'.switch.target = w.switch.target ∧
      w'.switchInProgress = w.switchInProgress := by
  simp only [World.record, Prod.mk.injEq] at same
  exact ⟨same.2.2.1, same.2.2.2.1, same.2.2.2.2⟩

theorem Due.selects {first : Op} {rest : List Op} (due : Due (.selectStack name) (first :: rest)
    (w.stack = name)) (silent : quiet name first = true) : Due (.selectStack name) rest
    ((perform daemons w first).stack = name) := by
  refine due.next ?_ ?_
  · rintro rfl
    rfl
  · intro selected
    rcases stack_perform daemons (w := w) silent with same | ⟨-, chosen⟩
    · exact same.trans selected
    · exact chosen

namespace State

variable {s : State}

theorem sound_finish_trouble {w : World} {ending : Ending} (bad : ending = .unrecorded ∨
    ending = .rolledBack true) :
    (s.finish w ending).Sound := by
  refine ⟨rfl, fun calm => ?_⟩
  rcases bad with rfl | rfl
  · exact absurd calm nofun
  · exact absurd calm nofun

theorem sound_begin {target : Text} {installed : Text → Bool} (free : s.control = .idle)
    (sound : s.Sound) (passes : passesPreflight installed s.world target = true) :
    (s.begin target).Sound := by
  unfold Sound at sound
  rw [free] at sound
  simp only [passesPreflight, Bool.and_eq_true, decide_eq_true_eq] at passes
  obtain ⟨⟨⟨⟨⟨current, known⟩, -⟩, differs⟩, -⟩, -⟩ := passes
  obtain ⟨silent, selects⟩ := body_quiet known
  refine ⟨rfl, .inl ⟨nofun, ?_, ?_, body target, rfl, silent, .inl selects⟩⟩
  · rcases isStack_iff.mp known with there | there
    · rcases isStack_iff.mp current with here | here
      · exact absurd (there.trans here.symm) differs
      · exact .inr ⟨there, here⟩
    · rcases isStack_iff.mp current with here | here
      · exact .inl ⟨there, here⟩
      · exact absurd (there.trans here.symm) differs
  · exact fun calm => ⟨(sound.2 calm).1, (sound.2 calm).2.1⟩

theorem sound_rollBack {w : World} {trouble : Bool} (running : w.switchInProgress = true)
    (opposite : Opposite w.switch) (names : trouble = false → w.Names w.switch.source)
    {lastEnding : Option Ending} :
    Sound ⟨w, .rollingBack (rollBack w.switch ++ [.clearMarker]), lastEnding, trouble⟩ := by
  obtain ⟨silent, selects⟩ := rollBack_quiet opposite
  exact ⟨running, w.switch.source, names, rollBack w.switch, rfl, silent, .inl selects⟩

theorem sound_before {op : Op} {rest : List Op} (sound : s.Sound)
    (running : s.world.switchInProgress = true) (before : Before s.trouble s.world (op :: rest))
    (fate : Fate) : (s.stepSwitch daemons op rest fate).Sound := by
  obtain ⟨early, opposite, names, ops, split, silent, selects⟩ := before
  cases ops with
  | nil =>
    -- The body is over, and the phase becomes `commit`.
    obtain ⟨rfl, rfl⟩ := List.cons.inj split
    cases fate with
    | works =>
      have all : ∀ op ∈ commit s.world.switch.target, op ∈ commit s.world.switch.target :=
        fun _ member => member
      exact ⟨running, .inr ⟨rfl, selects.settled,
        all, .inl (all _ (.head _)), .inl (all _ (.tail _ (.tail _ (.head _)))), .inl (all _
        (.tail _ (.tail _ (.tail _ (.head _)))))⟩⟩
    | throws part => exact sound
    | dies part => trivial
  | cons first ops =>
    rw [List.cons_append] at split
    obtain ⟨rfl, rfl⟩ := List.cons.inj split
    have silentOp := silent op List.mem_cons_self
    cases fate with
    | works =>
      have same := record_perform daemons (w := s.world) silentOp
      obtain ⟨source, target, progress⟩ := switch_of_record same
      have more : ops ++ .phase .commit :: commit s.world.switch.target ≠ [] := by simp
      unfold stepSwitch
      dsimp only
      rw [if_neg more]
      refine ⟨progress.trans running, .inl ⟨phase_perform daemons silentOp early, ?_, ?_, ops,
        ?_, ?_, ?_⟩⟩
      · rw [Opposite, source, target]
        exact opposite
      · rw [source, names_of_record same]
        exact names
      · rw [target]
      · rw [target]
        exact fun op member => silent op (List.mem_cons_of_mem _ member)
      · rw [target]
        exact selects.selects daemons silentOp
    | throws part =>
      have same := record_cut daemons (w := s.world) part silentOp
      obtain ⟨source, target, progress⟩ := switch_of_record same
      unfold stepSwitch
      dsimp only
      split_ifs
      · exact sound_finish_trouble (.inl rfl)
      · refine sound_rollBack (progress.trans running) ?_ ?_
        · rw [Opposite, source, target]
          exact opposite
        · rw [source, names_of_record same]
          exact names
      · exact sound
    | dies part => trivial

theorem sound_committing {op : Op} {rest : List Op} (sound : s.Sound)
    (running : s.world.switchInProgress = true) (committing : Committing s.world (op :: rest))
    (fate : Fate) : (s.stepSwitch daemons op rest fate).Sound := by
  obtain ⟨late, stack, only, setting, stackFile, marker⟩ := committing
  have member := only op List.mem_cons_self
  cases fate with
  | works =>
    have after : Committing (perform daemons s.world op) rest ∧
        (perform daemons s.world op).switchInProgress = true := by
      have later : ∀ other ∈ rest, other ∈ commit s.world.switch.target :=
        fun other inside => only other (List.mem_cons_of_mem _ inside)
      simp only [commit, List.mem_cons, List.not_mem_nil, or_false] at member
      rcases member with rfl | rfl | rfl | rfl
      · exact ⟨⟨late, stack, later, setting.next (fun _ => rfl) fun _ => rfl,
          stackFile.next nofun id, marker.next nofun id⟩, running⟩
      · exact ⟨⟨late, stack, later, setting.next nofun id, stackFile.next nofun id,
          marker.next nofun id⟩, running⟩
      · exact ⟨⟨late, stack, later, setting.next nofun id, stackFile.next (fun _ => rfl)
          fun _ => rfl, marker.next nofun id⟩, running⟩
      · exact ⟨⟨late, stack, later, setting.next nofun id, stackFile.next nofun id,
          marker.next (fun _ => rfl) fun _ => rfl⟩, running⟩
    unfold stepSwitch
    dsimp only
    split_ifs with last
    · subst last
      obtain ⟨⟨-, stack, -, setting, stackFile, marker⟩, -⟩ := after
      refine ⟨rfl, fun _ => ⟨?_, ?_, marker.settled⟩⟩
      · exact setting.settled.trans (congrArg some stack.symm)
      · exact stackFile.settled.trans (congrArg some stack.symm)
    · exact ⟨after.2, .inr after.1⟩
  | throws part =>
    have phase : (cut daemons part s.world op).switch.phase = .commit := by
      simp only [commit, List.mem_cons, List.not_mem_nil, or_false] at member
      rcases member with rfl | rfl | rfl | rfl <;>
        (unfold cut; dsimp only; split <;> exact late)
    unfold stepSwitch
    dsimp only
    split_ifs
    · exact sound_finish_trouble (.inl rfl)
    · exact sound
  | dies part => trivial

theorem sound_goOn (name : Text) {w : World} {rest : List Op} (running : w.switchInProgress = true)
    (rolling : rest ≠ [] → RollingBack s.trouble w rest name) (last : rest = [] →
    s.trouble = false → w.Agrees) :
    (s.goOn w rest).Sound := by
  unfold goOn
  split_ifs with ended
  · exact ⟨rfl, last ended⟩
  · exact ⟨running, name, rolling ended⟩

theorem sound_rollingBack {op : Op} {rest : List Op} (sound : s.Sound)
    (running : s.world.switchInProgress = true)
    (rolling : RollingBack s.trouble s.world (op :: rest) name) (fate : Fate) :
    (s.stepRollBack daemons op rest fate).Sound := by
  obtain ⟨names, ops, split, silent, selects⟩ := rolling
  cases ops with
  | nil =>
    -- Only the marker is left.
    obtain ⟨rfl, rfl⟩ := List.cons.inj split
    cases fate with
    | works =>
      refine ⟨rfl, fun calm => ⟨?_, ?_, rfl⟩⟩
      · exact (names calm).1.trans (congrArg some selects.settled.symm)
      · exact (names calm).2.trans (congrArg some selects.settled.symm)
    | throws part => exact sound_finish_trouble (s := s) (.inr rfl)
    | dies part => trivial
  | cons first ops =>
    rw [List.cons_append] at split
    obtain ⟨rfl, rfl⟩ := List.cons.inj split
    have silentOp := silent op List.mem_cons_self
    have later : ∀ op ∈ ops, quiet name op = true :=
      fun op member => silent op (List.mem_cons_of_mem _ member)
    have more : ops ++ [.clearMarker] ≠ [] := by simp
    cases fate with
    | works =>
      have same := record_perform daemons (w := s.world) silentOp
      unfold stepRollBack
      dsimp only
      split_ifs
      · exact sound_finish_trouble (.inr rfl)
      · refine sound_goOn name ((switch_of_record same).2.2.trans running)
          (fun _ => ⟨?_, ops, rfl, later, ?_⟩) fun none => absurd none more
        · rw [names_of_record same]
          exact names
        · exact selects.selects daemons silentOp
    | throws part =>
      unfold stepRollBack
      dsimp only
      split_ifs
      · cases catches : caught s.world op with
        | none => exact sound_finish_trouble (.inr rfl)
        | some w =>
          have kept : w.record = s.world.record ∧ w.stack = s.world.stack ∧
              op ≠ .selectStack name := by
            cases op with
            | targetLeases server =>
              simp only [caught, Option.some.injEq] at catches
              subst catches
              split <;> exact ⟨rfl, rfl, nofun⟩
            | tryStopAll stopped =>
              obtain rfl := Option.some.inj catches
              exact ⟨rfl, rfl, nofun⟩
            | _ => exact absurd catches nofun
          refine sound_goOn name ((switch_of_record kept.1).2.2.trans running)
            (fun _ => ⟨?_, ops, rfl, later, ?_⟩) fun none => absurd none more
          · rw [names_of_record kept.1]
            exact names
          · rw [kept.2.1]
            exact selects.next (fun here => absurd here kept.2.2) id
      · exact sound
    | dies part => trivial

theorem booting_perform {w : World} {op : Op} {rest : List Op}
    (booting : Booting w (op :: rest) name) :
    Booting (perform daemons w op) rest name := by
  obtain ⟨quietly, only, stack, setting, stackFile, marker⟩ := booting
  have later : ∀ other ∈ rest, other ∈ bootOps name :=
    fun other inside => only other (List.mem_cons_of_mem _ inside)
  have member := only op List.mem_cons_self
  simp only [bootOps, List.mem_cons, List.not_mem_nil, or_false] at member
  rcases member with rfl | rfl | rfl | rfl | rfl | rfl | rfl | rfl | rfl | rfl
  case inr.inl =>
    exact ⟨quietly, later, stack.next nofun id, setting.next nofun id, stackFile.next nofun id,
      marker.next (fun _ => rfl) fun _ => rfl⟩
  case inr.inr.inr.inr.inl =>
    exact ⟨quietly, later, stack.next (fun _ => rfl) fun _ => rfl, setting.next nofun id,
      stackFile.next nofun id, marker.next nofun id⟩
  case inr.inr.inr.inr.inr.inl =>
    exact ⟨quietly, later, stack.next nofun id, setting.next (fun _ => rfl) fun _ => rfl,
      stackFile.next nofun id, marker.next nofun id⟩
  case inr.inr.inr.inr.inr.inr.inr.inl =>
    exact ⟨quietly, later, stack.next nofun id, setting.next nofun id,
      stackFile.next (fun _ => rfl) fun _ => rfl, marker.next nofun id⟩
  all_goals
    exact ⟨quietly, later, stack.next nofun id, setting.next nofun id, stackFile.next nofun id,
      marker.next nofun id⟩

theorem agrees_of_booting {w : World} (booting : Booting w [] name) : w.stack = name ∧ w.Agrees :=
  ⟨booting.stack.settled, booting.setting.settled.trans (congrArg some booting.stack.settled.symm),
    booting.stackFile.settled.trans (congrArg some booting.stack.settled.symm),
    booting.marker.settled⟩

theorem sound_booting {op : Op} {rest : List Op} (sound : s.Sound)
    (booting : Booting s.world (op :: rest) name) (fate : Fate) :
    (s.stepBoot daemons name op rest fate).Sound := by
  cases fate with
  | works =>
    have after := booting_perform daemons booting
    unfold stepBoot
    dsimp only
    split_ifs with last
    · subst last
      exact ⟨after.quietly, fun _ => (agrees_of_booting after).2⟩
    · exact after
  | throws part =>
    unfold stepBoot
    dsimp only
    split_ifs
    · trivial
    · exact sound
  | dies part => trivial

/-- What boot decides is carried out by `boot`. -/
theorem booting_start (s : State) (installed : Text → Bool) :
    ∃ rest, (s.start installed).control = .booting
      (choose installed s.world.setting s.world.legacySetting).1 rest ∧
      Booting (s.start installed).world rest
      (choose installed s.world.setting s.world.legacySetting).1 := by
  unfold start
  dsimp only
  generalize choose installed s.world.setting s.world.legacySetting = choice
  obtain ⟨name, carryKea, fallback⟩ := choice
  have only : ∀ op ∈ boot
      { s.world with stack := dnsmasqStack, keaQuiesced := false, switchInProgress := false }
      (name, carryKea, fallback), op ∈ bootOps name := by
    intro op member
    simp only [boot, List.mem_append, List.mem_ite_nil_right, List.mem_cons, List.not_mem_nil,
      or_false] at member
    simp only [bootOps, List.mem_cons, List.not_mem_nil, or_false]
    tauto
  refine ⟨_, rfl, rfl, only, .inl (by simp [boot]),
    ?_, .inl (by simp [boot]), .inl (by simp [boot])⟩
  by_cases stored : s.world.setting = some name
  · exact .inr stored
  · exact .inl (by simp [boot, stored])

theorem sound_start (s : State) (installed : Text → Bool) : (s.start installed).Sound := by
  obtain ⟨rest, control, booting⟩ := booting_start s installed
  unfold Sound
  rw [control]
  exact booting

/-- **One event** keeps what holds of the state. -/
theorem sound_apply (sound : s.Sound) (event : Event) : (s.apply daemons event).Sound := by
  cases event with
  | call target installed =>
    cases control : s.control with
    | idle =>
      simp only [apply, control]
      split_ifs with passes
      · exact sound_begin control sound passes
      · exact sound
    | switching rest =>
      -- A second call finds `switchInProgress` set.
      have running : s.world.switchInProgress = true := by
        simp only [Sound, control] at sound
        exact sound.1
      simp only [apply, control, passesPreflight, running]
      simpa using sound
    | rollingBack rest =>
      have running : s.world.switchInProgress = true := by
        simp only [Sound, control] at sound
        exact sound.1
      simp only [apply, control, passesPreflight, running]
      simpa using sound
    | booting name rest =>
      simp only [apply, control]
      exact sound
    | down =>
      simp only [apply, control]
      exact sound
  | step fate =>
    have held := sound
    unfold Sound at held
    cases control : s.control with
    | idle =>
      simp only [apply, control]
      cases fate with
      | works => exact sound
      | throws part => exact sound
      | dies part => trivial
    | switching rest =>
      rw [control] at held
      cases rest with
      | nil =>
        simp only [apply, control]
        exact sound
      | cons op rest =>
        simp only [apply, control]
        rcases held.2 with before | committing
        · exact sound_before daemons sound held.1 before fate
        · exact sound_committing daemons sound held.1 committing fate
    | rollingBack rest =>
      rw [control] at held
      cases rest with
      | nil =>
        simp only [apply, control]
        exact sound
      | cons op rest =>
        simp only [apply, control]
        obtain ⟨running, name, rolling⟩ := held
        exact sound_rollingBack daemons sound running rolling fate
    | booting name rest =>
      rw [control] at held
      cases rest with
      | nil =>
        simp only [apply, control]
        exact sound
      | cons op rest =>
        simp only [apply, control]
        exact sound_booting daemons sound held fate
    | down =>
      simp only [apply, control]
      exact sound
  | handOut lines rows =>
    unfold Sound at sound ⊢
    cases control : s.control with
    | idle =>
      rw [control] at sound
      simp only [apply, control]
      exact sound
    | switching rest =>
      rw [control] at sound
      simp only [apply, control]
      rcases sound with ⟨running, before | committing⟩
      · exact ⟨running, .inl ⟨before.early, before.opposite, before.names, before.body⟩⟩
      · exact ⟨running, .inr ⟨committing.late, committing.stack, committing.only,
          committing.setting, committing.stackFile, committing.marker⟩⟩
    | rollingBack rest =>
      rw [control] at sound
      simp only [apply, control]
      obtain ⟨running, name, rolling⟩ := sound
      exact ⟨running, name, rolling.names, rolling.body⟩
    | booting name rest =>
      rw [control] at sound
      simp only [apply, control]
      exact ⟨sound.quietly, sound.only, sound.stack, sound.setting, sound.stackFile, sound.marker⟩
    | down => simp only [apply, control]
  | start installed =>
    cases control : s.control with
    | down =>
      simp only [apply, control]
      exact sound_start s installed
    | _ =>
      simp only [apply, control]
      exact sound

theorem sound_run (sound : s.Sound) (events : List Event) : (s.run daemons events).Sound := by
  induction events generalizing s with
  | nil => exact sound
  | cons event events ih => exact ih (sound_apply daemons sound event)

/-- A process that boots into a stack, or has booted into it, or has died again. -/
def BootsInto (s : State) (name : Text) : Prop :=
  match s.control with
  | .booting other rest => other = name ∧ Booting s.world rest name
  | .idle => s.world.stack = name ∧ s.world.Agrees
  | .down => True
  | _ => False

theorem bootsInto_apply (boots : s.BootsInto name) {event : Event} (goesOn : event.goesOn = true) :
    (s.apply daemons event).BootsInto name := by
  cases event with
  | call target installed => exact absurd goesOn nofun
  | start installed => exact absurd goesOn nofun
  | handOut lines rows =>
    unfold BootsInto at boots ⊢
    cases control : s.control with
    | booting other rest =>
      rw [control] at boots
      simp only [apply, control]
      obtain ⟨same, booting⟩ := boots
      exact ⟨same, booting.quietly, booting.only, booting.stack, booting.setting, booting.stackFile,
        booting.marker⟩
    | down => simp only [apply, control]
    | _ =>
      rw [control] at boots
      simp only [apply, control]
      exact boots
  | step fate =>
    have held := boots
    unfold BootsInto at held
    cases control : s.control with
    | idle =>
      simp only [apply, control]
      cases fate with
      | dies part => trivial
      | _ => exact boots
    | booting other rest =>
      rw [control] at held
      obtain ⟨rfl, booting⟩ := held
      cases rest with
      | nil =>
        simp only [apply, control]
        exact boots
      | cons op rest =>
        simp only [apply, control]
        unfold stepBoot
        cases fate with
        | works =>
          have after := booting_perform daemons booting
          dsimp only
          split_ifs with last
          · subst last
            exact agrees_of_booting after
          · exact ⟨rfl, after⟩
        | throws part =>
          dsimp only
          split_ifs
          · trivial
          · exact boots
        | dies part => trivial
    | down =>
      simp only [apply, control]
      exact boots
    | _ =>
      rw [control] at held
      exact held.elim

theorem bootsInto_run (boots : s.BootsInto name) {events : List Event}
    (goOn : ∀ event ∈ events, event.goesOn = true) : (s.run daemons events).BootsInto name := by
  induction events generalizing s with
  | nil => exact boots
  | cons event events ih =>
    exact ih (bootsInto_apply daemons boots (goOn event List.mem_cons_self))
      fun other member => goOn other (List.mem_cons_of_mem _ member)

end State

theorem choose_eq_named (installed : Text → Bool) {stored : Option Text} (legacy : Option Text)
    (own : ∀ name, stored = some name → name ∉ inherited) :
    (choose installed stored legacy).1 = named installed stored := by
  have default : ∀ rest : Bool × Bool,
      (if stackInstalled installed dnsmasqStack then (dnsmasqStack, rest)
        else (dnsmasqStack, decide (dnsmasqStack = pdnsKeaStack), true)).1 = dnsmasqStack := by
    intro rest
    split <;> rfl
  cases stored with
  | none => exact default _
  | some name =>
    have strange := own name rfl
    unfold choose named stackInstalled
    by_cases empty : name = []
    · subst empty
      exact default _
    · have kept : (some name).filter (fun name => decide (name ≠ [])) = some name :=
        Option.filter_some_pos (decide_eq_true empty)
      rw [kept]
      by_cases known : isStack name = true
      · by_cases there : installed name = true
        · simp [known, there]
        · simp [known, there, strange]
      · simp only [known, strange, decide_false, Bool.or_self, Bool.false_and,
          Bool.false_eq_true, if_false]
        exact default _

/-- **One stack is in force**: after every run in which no switch since the last boot or commit
ended with a rollback error or failed to record, the places agree whenever no switch runs; and
a boot, whatever went before it, ends with the stack of the setting and with places that agree. -/
theorem one_stack_in_force (daemons : Daemons) (stored : World) (before : List Event) :
    let s := State.run daemons { world := stored } before
    (s.control = .idle → s.trouble = false → s.world.Agrees) ∧
      ∀ installed events, (∀ event ∈ events, event.goesOn = true) →
        (∀ name, s.world.setting = some name → name ∉ inherited) →
          let s' := (s.start installed).run daemons events
          s'.control = .idle → s'.world.stack = named installed s.world.setting ∧
              s'.world.Agrees := by
  intro s
  constructor
  · intro idle calm
    have sound : s.Sound := State.sound_run daemons (s := { world := stored }) trivial before
    unfold State.Sound at sound
    rw [idle] at sound
    exact sound.2 calm
  · intro installed events goOn own s' idle
    obtain ⟨rest, control, booting⟩ := State.booting_start s installed
    have boots : (s.start installed).BootsInto (named installed s.world.setting) := by
      rw [← choose_eq_named installed s.world.legacySetting own]
      unfold State.BootsInto
      rw [control]
      exact ⟨rfl, booting⟩
    have done : s'.BootsInto (named installed s.world.setting) :=
      State.bootsInto_run daemons boots goOn
    unfold State.BootsInto at done
    rw [idle] at done
    exact done

/-! ### Runs -/

/-- So many operations that work. -/
def works (n : Nat) : List Event := List.replicate n (.step .works)

/-- An operation that throws and leaves nothing. -/
def throwing : Event := .step (.throws {})

/-- Every stack is installed. -/
def everywhere (_ : Text) : Bool := true

/-- A process that is started with nothing stored but a setting, boots, and goes on. -/
abbrev bootAndRun (setting : Text) (events : List Event) : State :=
  State.run {} { world := { setting := some setting } } (.start everywhere :: works 7 ++ events)

/-- A switch whose commit throws in its first write. -/
def unrecordedSwitch : List Event := .call pdnsKeaStack everywhere :: works 32 ++ [throwing]

/-- A switch to dnsmasq that fails once it has selected it, and whose rollback fails to stop
dnsmasq; then a switch back that fails at once and is rolled back. -/
def switchAfterRollbackError : List Event :=
  .call dnsmasqStack everywhere :: works 25 ++ [throwing] ++ works 1 ++ [throwing] ++
    .call pdnsKeaStack everywhere :: throwing :: works 6

/-- A switch that fails to record, and a process that dies after it. -/
def crashAfterSwitch : List Event := unrecordedSwitch ++ [.step (.dies {})]

theorem one_stack_in_force_sample :
    (bootAndRun dnsmasqStack (.call pdnsKeaStack everywhere :: works 36)).world.Agrees ∧
      (((bootAndRun dnsmasqStack crashAfterSwitch).start everywhere).run {}
      (works 8)).world.Agrees := by
  constructor
  · have idle :
      (bootAndRun dnsmasqStack (.call pdnsKeaStack everywhere :: works 36)).control = .idle := by
      decide
    have calm : (bootAndRun dnsmasqStack (.call pdnsKeaStack everywhere :: works 36)).trouble =
        false := by
      decide
    exact (one_stack_in_force {} { setting := some dnsmasqStack }
      (.start everywhere :: works 7 ++ .call pdnsKeaStack everywhere :: works 36)).1 idle calm
  · have free : ∀ name, (bootAndRun dnsmasqStack crashAfterSwitch).world.setting = some name →
      name ∉ inherited := by
      have stored : (bootAndRun dnsmasqStack crashAfterSwitch).world.setting =
          some dnsmasqStack := by decide
      rw [stored]
      rintro name ⟨⟩
      decide
    have idle : (((bootAndRun dnsmasqStack crashAfterSwitch).start everywhere).run {}
        (works 8)).control = .idle := by
      decide
    exact ((one_stack_in_force {} { setting := some dnsmasqStack }
      (.start everywhere :: works 7 ++ crashAfterSwitch)).2 everywhere (works 8) (by decide)
      free idle).2

/-- **The places can differ** after a switch that was put back without a rollback error: when it
failed to record, or when one before it had a rollback error. And a setting that is a property
of every object is taken for a stack. -/
theorem places_differ :
    (let s := bootAndRun dnsmasqStack unrecordedSwitch;
      s.control = .idle ∧ s.lastEnding = some .unrecorded ∧ s.world.stack = pdnsKeaStack ∧
        s.world.setting = some dnsmasqStack ∧ ¬ s.world.Agrees) ∧
    (let s := bootAndRun pdnsKeaStack switchAfterRollbackError;
      s.control = .idle ∧ s.lastEnding = some (.rolledBack false) ∧ s.world.stack = dnsmasqStack ∧
        s.world.setting = some pdnsKeaStack ∧ ¬ s.world.Agrees) ∧
    (let s := bootAndRun "constructor".toList [];
      s.control = .idle ∧ s.world.stack = "constructor".toList ∧
        s.world.stack ≠ named everywhere (some "constructor".toList)) := by
  decide

end StackSwitch

end Cidrella
