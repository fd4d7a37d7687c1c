import Cidrella.StackSwitch

/-!
# The leases of a switch that is rolled back

What the source server holds after a switch of `services/stack-switch.js` failed and was
rolled back. As long as the target was not selected the source keeps its table. After that
its table is written anew with what the target reports, or with the leases read at the start
when the target does not answer. A lease the target refused is not among what it reports, so
it is lost with the failure of a later step (`refused_lease_is_lost`), and so is one that the
target reports in another form.
-/

set_option autoImplicit false

namespace Cidrella

open LeaseHandover LeaseServer

namespace StackSwitch

variable (daemons : Daemons)

/-! ## Operations that work -/

/-- The world after operations that work. -/
def after (ops : List Op) (w : World) : World := ops.foldl (perform daemons) w

theorem after_cons (op : Op) (ops : List Op) (w : World) :
    after daemons (op :: ops) w = after daemons ops (perform daemons w op) := rfl

theorem after_append (ops more : List Op) (w : World) :
    after daemons (ops ++ more) w = after daemons more (after daemons ops w) := List.foldl_append

theorem view_after {β : Type} (view : World → β) {ops : List Op}
    (keeps : ∀ op ∈ ops, ∀ w, view (perform daemons w op) = view w) (w : World) :
    view (after daemons ops w) = view w := by
  induction ops generalizing w with
  | nil => rfl
  | cons op ops ih =>
    rw [after_cons, ih fun other member => keeps other (List.mem_cons_of_mem _ member)]
    exact keeps op List.mem_cons_self w

namespace State

theorem run_cons (s : State) (event : Event) (events : List Event) :
    s.run daemons (event :: events) = (s.apply daemons event).run daemons events := rfl

theorem run_append (s : State) (events more : List Event) :
    s.run daemons (events ++ more) = (s.run daemons events).run daemons more := List.foldl_append

theorem run_works_idle {s : State} (idle : s.control = .idle) (n : Nat) :
    s.run daemons (works n) = s := by
  induction n with
  | zero => rfl
  | succ n ih =>
    have same : s.apply daemons (.step .works) = s := by simp only [apply, idle]
    show (s.apply daemons (.step .works)).run daemons (works n) = s
    rw [same, ih]

theorem run_works_switching {s : State} {ops : List Op} {k : Nat}
    (control : s.control = .switching ops) (short : k < ops.length) :
    s.run daemons (works k) =
      { s with world := after daemons (ops.take k) s.world, control := .switching (ops.drop k)
      } := by
  induction k generalizing s ops with
  | zero =>
    show s = { s with world := s.world, control := .switching ops }
    rw [← control]
  | succ k ih =>
    cases ops with
    | nil => exact absurd short (Nat.not_lt_zero _)
    | cons op rest =>
      have later : k < rest.length := Nat.lt_of_succ_lt_succ short
      have more : rest ≠ [] := List.ne_nil_of_length_pos (Nat.zero_lt_of_lt later)
      have next : s.apply daemons (.step .works) =
          { s with world := perform daemons s.world op, control := .switching rest } := by
        simp only [apply, control, stepSwitch, if_neg more]
      show (s.apply daemons (.step .works)).run daemons (works k) = _
      rw [next, ih rfl later]
      rfl

theorem run_works_rollingBack {s : State} {ops : List Op} {m : Nat}
    (control : s.control = .rollingBack ops) (filled : ops ≠ [])
    (idle : (s.run daemons (works m)).control = .idle)
    (ending : (s.run daemons (works m)).lastEnding = some (.rolledBack false)) :
    (s.run daemons (works m)).world = { after daemons ops s.world with switchInProgress :=
    false } := by
  induction m generalizing s ops with
  | zero => cases control.symm.trans idle
  | succ m ih =>
    cases ops with
    | nil => exact absurd rfl filled
    | cons op rest =>
      have step : s.run daemons (works (m + 1)) =
          (s.stepRollBack daemons op rest .works).run daemons (works m) := by
        show (s.apply daemons (.step .works)).run daemons (works m) = _
        simp only [apply, control]
      rw [step] at idle ending ⊢
      unfold stepRollBack at idle ending ⊢
      dsimp only at idle ending ⊢
      split_ifs at idle ending ⊢ with bad
      · rw [run_works_idle daemons rfl] at ending
        cases ending
      · unfold goOn at idle ending ⊢
        split_ifs at idle ending ⊢ with last
        · subst last
          rw [run_works_idle daemons rfl]
          rfl
        · exact ih rfl last idle ending

theorem run_works_through {s : State} {ops : List Op} {k : Nat}
    (control : s.control = .switching ops) (filled : ops ≠ []) (long : ops.length ≤ k) :
    (s.run daemons (works k)).control = .idle := by
  induction k generalizing s ops with
  | zero => exact absurd (List.eq_nil_of_length_eq_zero (Nat.le_zero.mp long)) filled
  | succ k ih =>
    cases ops with
    | nil => exact absurd rfl filled
    | cons op rest =>
      show ((s.apply daemons (.step .works)).run daemons (works k)).control = .idle
      by_cases last : rest = []
      · have next : s.apply daemons (.step .works) = s.finish
          (perform daemons s.world op) .committed := by
          simp only [apply, control, stepSwitch, if_pos last]
        rw [next, run_works_idle daemons rfl]
        rfl
      · have next : s.apply daemons (.step .works) =
            { s with world := perform daemons s.world op, control := .switching rest } := by
          simp only [apply, control, stepSwitch, if_neg last]
        rw [next]
        exact ih rfl last (Nat.le_of_succ_le_succ long)

/-- A switch that throws after so many operations. -/
def failed (s : State) (target : Text) (installed : Text → Bool) (k : Nat) (part : Part) : State :=
  s.run daemons (.call target installed :: works k ++ [.step (.throws part)])

/-- **A switch that is rolled back** had passed its preflight, and an operation threw that can. -/
theorem failed_eq {s : State} {target : Text} {installed : Text → Bool} {k : Nat} {part : Part}
    {ops : List Op} (idle : s.control = .idle)
    (rolls : (s.failed daemons target installed k part).control = .rollingBack ops) :
    isStack target = true ∧ ∃ op, (program target)[k]? = some op ∧ canThrow op = true ∧
      (s.failed daemons target installed k part).world =
        cut daemons part (after daemons ((program target).take k) (s.begin target).world) op ∧
      ops = rollBack (s.failed daemons target installed k part).world.switch ++ [.clearMarker] := by
  have called : s.apply daemons (.call target installed) =
      if passesPreflight installed s.world target then s.begin target else s := by
    simp only [apply, idle]
  unfold failed at rolls ⊢
  rw [List.cons_append, run_cons, called, run_append] at rolls ⊢
  by_cases passes : passesPreflight installed s.world target = true
  · rw [if_pos passes] at rolls ⊢
    have known : isStack target = true := by
      simp only [passesPreflight, Bool.and_eq_true] at passes
      exact passes.1.1.1.1.2
    refine ⟨known, ?_⟩
    by_cases short : k < (program target).length
    · have begun : (s.begin target).control = .switching (program target) := rfl
      rw [run_works_switching daemons begun short] at rolls ⊢
      rw [List.drop_eq_getElem_cons short] at rolls ⊢
      refine ⟨(program target)[k], List.getElem?_eq_getElem short, ?_⟩
      simp only [run, List.foldl_cons, List.foldl_nil, apply, stepSwitch] at rolls ⊢
      split_ifs at rolls ⊢ with can late
      · cases rolls
      · exact ⟨can, rfl, (Control.rollingBack.inj rolls).symm⟩
    · -- The switch is through, and nothing is left to throw.
      have through := run_works_through daemons (s := s.begin target) (k := k) rfl
        (List.append_ne_nil_of_right_ne_nil _ (List.cons_ne_nil _ _)) (Nat.le_of_not_lt short)
      simp only [run, List.foldl_cons, List.foldl_nil] at rolls through
      simp only [apply, through] at rolls
      cases rolls
  · rw [if_neg passes, run_works_idle daemons idle] at rolls
    simp only [run, List.foldl_cons, List.foldl_nil, apply, idle] at rolls
    cases rolls

/-- What a rollback knows of the target's leases. -/
def readBack (w : World) (server : Dhcp) (readable : Bool) : World :=
  if readable then perform daemons w (.targetLeases server)
  else (caught w (.targetLeases server)).getD w

/-- The rollback of a failed switch: servers hand out leases, the target answers or not, and the
other operations work. -/
def restored (s : State) (lines : List FileLine) (rows : List KeaRow) (readable : Bool) (m : Nat) :
    State :=
  s.run daemons
    (.handOut lines rows :: .step (if readable then .works else .throws {}) :: works m)

theorem restored_world {s : State} (server : Dhcp) (rest : List Op) {lines : List FileLine}
    {rows : List KeaRow} {readable : Bool} {m : Nat}
    (control : s.control = .rollingBack (.targetLeases server :: rest)) (filled : rest ≠ [])
    (idle : (s.restored daemons lines rows readable m).control = .idle)
    (ending : (s.restored daemons lines rows readable m).lastEnding = some (.rolledBack false)) :
    (s.restored daemons lines rows readable m).world =
      { after daemons rest (readBack daemons (s.apply daemons (.handOut lines rows)).world server
      readable) with
        switchInProgress := false } := by
  have next : (s.apply daemons (.handOut lines rows)).apply daemons
      (.step (if readable then .works else .throws {})) =
      { s.apply daemons (.handOut lines rows) with
        world := readBack daemons (s.apply daemons (.handOut lines rows)).world server readable
        control := .rollingBack rest } := by
    cases readable with
    | true =>
      simp only [apply, control, stepRollBack, throws, goOn, if_neg filled, if_true,
        Bool.false_eq_true, if_false]
      rfl
    | false =>
      simp only [apply, control, stepRollBack, canThrow, caught, goOn, if_neg filled, if_true,
        Bool.false_eq_true, if_false]
      rfl
  have split : s.restored daemons lines rows readable m =
      ((s.apply daemons (.handOut lines rows)).apply daemons
        (.step (if readable then .works else .throws {}))).run daemons (works m) := rfl
  rw [split, next] at idle ending ⊢
  exact run_works_rollingBack daemons rfl filled idle ending

end State

/-! ## The tables when a switch fails -/

/-- The table of a server. -/
def World.table (w : World) : Dhcp → Register FileLine.ip ⊕ Register KeaRow.ip
  | .dnsmasq => .inl w.dnsmasqLeases
  | .kea => .inr w.keaLeases

/-- The operations that leave the table of a server alone and do not pass the selection. -/
def spares (server : Dhcp) : Op → Bool
  | .importLeases other | .importTargetLeases other => other ≠ server
  | .restart | .carryKeaLeases => server ≠ .dnsmasq
  | .setSelected | .targetLeases _ => false
  | _ => true

/-- The table of a server, whether the target is selected, what the rollback carries, and the
target. -/
def World.sparedView (w : World) (server : Dhcp) :
    (Register FileLine.ip ⊕ Register KeaRow.ip) × Bool × Option (List CarriedLease) × Text :=
  (w.table server, w.switch.selected, w.switch.carried, w.switch.target)

theorem sparedView_perform {server : Dhcp} {op : Op} (spared : spares server op = true)
    (w : World) :
    (perform daemons w op).sparedView server = w.sparedView server := by
  cases op with
  | importLeases other => cases server <;> cases other <;> first | rfl | exact absurd spared nofun
  | importTargetLeases other =>
    unfold perform
    cases w.switch.carried with
    | none => rfl
    | some leases => cases server <;> cases other <;> first | rfl | exact absurd spared nofun
  | restart => cases server <;> first | rfl | exact absurd spared nofun
  | carryKeaLeases => cases server <;> first | rfl | exact absurd spared nofun
  | setSelected | targetLeases => exact absurd spared nofun
  | _ => cases server <;> rfl

theorem sparedView_cut {server : Dhcp} {op : Op} (part : Part) (spared : spares server op = true)
    (w : World) :
    (cut daemons part w op).sparedView server = w.sparedView server := by
  have either : (if part.took then perform daemons w op else w).sparedView server = w.sparedView
      server := by
    split
    · exact sparedView_perform daemons spared w
    · rfl
  cases op with
  | writeMarker =>
    unfold cut
    dsimp only
    split <;> (cases server <;> rfl)
  | writeStackFile =>
    unfold cut
    dsimp only
    split <;> (cases server <;> rfl)
  | importLeases other =>
    cases other with
    | dnsmasq => exact either
    | kea => cases server <;> first | rfl | exact absurd spared nofun
  | importTargetLeases other =>
    cases other with
    | dnsmasq => exact either
    | kea => cases server <;> first | rfl | exact absurd spared nofun
  | _ => exact either

/-- The operations that leave both tables and the record of the leases alone. -/
def settles : Op → Bool
  | .importLeases _ | .importTargetLeases
      _ | .restart | .carryKeaLeases | .setSelected | .setSourceStopped
  | .settledLeases _ => false
  | _ => true

/-- What a switch has brought about when the target is selected. -/
structure Handed where
  dnsmasqLeases : Register FileLine.ip
  keaLeases : Register KeaRow.ip
  selected : Bool
  sourceStopped : Bool
  leases : Option (List CarriedLease)
  target : Text

/-- What a switch has brought about. -/
def World.handed (w : World) : Handed where
  dnsmasqLeases := w.dnsmasqLeases
  keaLeases := w.keaLeases
  selected := w.switch.selected
  sourceStopped := w.switch.sourceStopped
  leases := w.switch.leases
  target := w.switch.target

theorem handed_perform {op : Op} (settled : settles op = true) (w : World) :
    (perform daemons w op).handed = w.handed := by
  cases op with
  | targetLeases other =>
    unfold perform
    dsimp only
    split <;> rfl
  | importLeases | importTargetLeases | restart | carryKeaLeases | setSelected | setSourceStopped
  | settledLeases =>
    exact absurd settled nofun
  | _ => rfl

theorem handed_cut {op : Op} (part : Part) (settled : settles op = true) (w : World) :
    (cut daemons part w op).handed = w.handed := by
  have either : (if part.took then perform daemons w op else w).handed = w.handed := by
    split
    · exact handed_perform daemons settled w
    · rfl
  cases op with
  | writeMarker | writeStackFile =>
    unfold cut
    dsimp only
    split <;> rfl
  | importLeases | importTargetLeases => exact absurd settled nofun
  | _ => exact either

/-- The operations before the target is selected. -/
def selecting (target : Text) : List Op := (program target).takeWhile (· ≠ .setSelected)

/-- The operations after the target is selected. -/
def serving (target : Text) : List Op := ((program target).dropWhile (· ≠ .setSelected)).tail

/-- The server a switch leaves. -/
def sourceOf (target : Text) : Dhcp := if target = pdnsKeaStack then .dnsmasq else .kea

theorem program_split {target : Text} (known : isStack target = true) :
    program target = selecting target ++ .setSelected :: serving target := by
  rcases isStack_iff.mp known with rfl | rfl
  · decide
  · decide

theorem selecting_spares {target : Text} (known : isStack target = true) :
    ∀ op ∈ selecting target, spares (sourceOf target) op = true := by
  rcases isStack_iff.mp known with rfl | rfl
  · decide
  · decide

theorem serving_settles : ∀ op ∈ serving pdnsKeaStack, settles op = true := by decide

theorem refusedRow_of_target {switch : Switch} (target : switch.target = pdnsKeaStack) :
    daemons.refusedRow switch = daemons.refusesRow := by
  funext row
  simp [Daemons.refusedRow, target]

theorem refusedRow_of_source {switch : Switch} (target : switch.target = dnsmasqStack) :
    daemons.refusedRow switch = fun _ => false := by
  funext row
  have other : dnsmasqStack ≠ pdnsKeaStack := by decide
  simp [Daemons.refusedRow, target, other]

theorem refusedLine_of_target {switch : Switch} (target : switch.target = dnsmasqStack) :
    daemons.refusedLine switch = daemons.refusesLine := by
  funext line
  simp [Daemons.refusedLine, target]

theorem refusedLine_of_source {switch : Switch} (target : switch.target = pdnsKeaStack) :
    daemons.refusedLine switch = fun _ => false := by
  funext line
  have other : pdnsKeaStack ≠ dnsmasqStack := by decide
  simp [Daemons.refusedLine, target, other]

theorem handed_pdnsKea (s : State) :
    (after daemons (selecting pdnsKeaStack ++ [.setSelected]) (s.begin pdnsKeaStack).world).handed =
      { dnsmasqLeases := s.world.dnsmasqLeases
        keaLeases := daemons.kea.load daemons.refusesRow (dnsmasq.leases s.world.dnsmasqLeases)
        selected := true
        sourceStopped := true
        leases := some (dnsmasq.leases s.world.dnsmasqLeases)
        target := pdnsKeaStack } := by
  have ops : selecting pdnsKeaStack ++ [.setSelected] =
      ([.holdHooks, .holdLeaseSync, .writeMarker, .phase .stage, .prepare .pdns, .prepare .kea,
        .prepare .radvd, .stage .pdns, .stage .kea, .stage .radvd, .phase .stop,
        .setSourceStopped, .stopAll [.dnsmasq], .phase .read, .settledLeases .dnsmasq,
        .serverIdentity .dnsmasq, .writeSnapshot, .writeMarker, .phase .import, .importLeases .kea,
        .phase .start, .selectStack pdnsKeaStack, .setSelected] :
        List Op) := by decide
  rw [ops]
  simp only [after, List.foldl_cons, List.foldl_nil, perform, State.begin, World.importLeases,
    World.readLeases, World.handed, Option.getD_some]
  rw [refusedRow_of_target daemons rfl]

theorem handed_dnsmasq (s : State) :
    (after daemons (selecting dnsmasqStack ++ [.setSelected]) (s.begin dnsmasqStack).world).handed =
      { dnsmasqLeases := dnsmasq.load (fun _ => false) (daemons.kea.leases s.world.keaLeases)
        keaLeases := s.world.keaLeases
        selected := true
        sourceStopped := true
        leases := some (daemons.kea.leases s.world.keaLeases)
        target := dnsmasqStack } := by
  have ops : selecting dnsmasqStack ++ [.setSelected] =
      ([.holdHooks, .holdLeaseSync, .writeMarker, .phase .stage, .prepare .dnsmasq, .stage .dnsmasq,
        .phase .quiesce, .setDhcpServing false, .applyScopes, .awaitRunning .kea, .phase .read,
        .settledLeases .kea, .serverIdentity .kea, .writeSnapshot, .writeMarker, .phase .import,
        .importLeases .dnsmasq, .phase .stop, .setSourceStopped, .stopAll [.radvd, .kea, .pdns],
        .phase .start, .selectStack dnsmasqStack, .setSelected] : List Op) := by decide
  rw [ops]
  simp only [after, List.foldl_cons, List.foldl_nil, perform, State.begin, World.importLeases,
    World.readLeases, World.handed, Option.getD_some]

/-! ## The rollback -/

theorem rollBackToDnsmasq_leases {switch : Switch} {w : World}
    (target : w.switch.target = pdnsKeaStack) :
    (after daemons ((rollBackToDnsmasq switch).tail ++ [.clearMarker]) w).dnsmasqLeases =
      match switch.sourceStopped, w.switch.carried with
      | true, some leases => dnsmasq.load (fun _ => false) leases
      | _, _ => w.dnsmasqLeases := by
  unfold rollBackToDnsmasq
  cases switch.sourceStopped with
  | false => rfl
  | true =>
    cases carried : w.switch.carried with
    | none =>
      simp only [if_true, List.cons_append, List.nil_append, List.tail_cons, after, List.foldl_cons,
        List.foldl_nil, perform, carried]
      rw [refusedLine_of_source daemons target]
      exact Register.filter_true _
    | some leases =>
      simp only [if_true, List.cons_append, List.nil_append, List.tail_cons, after, List.foldl_cons,
        List.foldl_nil, perform, carried, World.importLeases]
      rw [refusedLine_of_source daemons target]
      exact Register.filter_true _

theorem rollBackToPdnsKea_leases {w : World} (target : w.switch.target = dnsmasqStack) :
    (after daemons (rollBackToPdnsKea.tail ++ [.clearMarker]) w).keaLeases =
      match w.switch.carried with
      | some leases => daemons.kea.load (fun _ => false) leases
      | none => w.keaLeases := by
  unfold rollBackToPdnsKea
  cases carried : w.switch.carried with
  | none =>
    simp only [List.cons_append, List.nil_append, List.tail_cons, after, List.foldl_cons,
      List.foldl_nil, perform, carried]
  | some leases =>
    simp only [List.cons_append, List.nil_append, List.tail_cons, after, List.foldl_cons,
      List.foldl_nil, perform, carried, World.importLeases]
    rw [refusedRow_of_source daemons target]
    rfl

/-! ## What the source holds -/

theorem position {target : Text} {k : Nat} {op : Op} (known : isStack target = true)
    (here : (program target)[k]? = some op) (can : canThrow op = true) :
    (.setSelected ∉ (program target).take k ∧
      (∀ earlier ∈ (program target).take k, spares (sourceOf target) earlier = true) ∧
        spares (sourceOf target) op = true) ∨
    ∃ j, (program target).take k = (selecting target ++ [.setSelected]) ++ (serving target).take j ∧
      (serving target)[j]? = some op := by
  have spared := selecting_spares known
  rw [program_split known] at here ⊢
  rcases Nat.lt_trichotomy k (selecting target).length with before | same | later
  · left
    rw [List.getElem?_append_left before] at here
    rw [List.take_append_of_le_length before.le]
    refine ⟨?_, fun earlier member => spared earlier (List.mem_of_mem_take member),
      spared op (List.mem_of_getElem? here)⟩
    intro member
    have bad := spared _ (List.mem_of_mem_take member)
    exact absurd bad nofun
  · subst same
    rw [List.getElem?_append_right le_rfl, Nat.sub_self, List.getElem?_cons_zero] at here
    obtain rfl := Option.some.inj here
    exact absurd can nofun
  · right
    obtain ⟨j, rfl⟩ := Nat.exists_eq_add_of_lt later
    refine ⟨j, ?_, ?_⟩
    · rw [List.take_append, List.take_of_length_le (by omega),
        show (selecting target).length + j + 1 - (selecting target).length = j + 1 by omega,
          List.take_succ_cons]
      simp
    · rw [List.getElem?_append_right (by omega),
        show (selecting target).length + j + 1 - (selecting target).length = j + 1 by omega] at here
      simpa using here

/-- dnsmasq has read the lease file it was given. -/
def hasRead (target : Text) (k : Nat) (part : Part) : Bool :=
  .restart ∈ (program target).take k || ((program target)[k]? = some .restart && part.took)

/-- A lease of the source that the target takes, and that is the same lease when the source has
taken it back. -/
def comesHome (target : Text) (read : Bool) (lease : CarriedLease) : Bool :=
  if target = pdnsKeaStack then comesBack dnsmasq daemons.kea daemons.refusesRow lease
  else comesBack daemons.kea dnsmasq (fun line => read && daemons.refusesLine line) lease

/-- The addresses of leases that were handed out meanwhile. -/
def handedOut (lines : List FileLine) (rows : List KeaRow) : List Text :=
  lines.map FileLine.ip ++ rows.map KeaRow.ip

/-- The source of a switch holds a lease, at its address for its client and under its name. -/
def HoldsAgain (target : Text) (w : World) (lease : CarriedLease) : Prop :=
  ∃ held ∈ w.readLeases daemons (sourceOf target), held.Same lease

instance (target : Text) (w : World) (lease : CarriedLease) :
    Decidable (HoldsAgain daemons target w lease) :=
  inferInstanceAs (Decidable (∃ held ∈ w.readLeases daemons (sourceOf target), held.Same lease))

theorem spared_of_early {s : State} {target : Text} {k : Nat} {op : Op} (part : Part)
    (earlier : ∀ other ∈ (program target).take k, spares (sourceOf target) other = true)
    (here : spares (sourceOf target) op = true) :
    (cut daemons part (after daemons ((program target).take k) (s.begin target).world)
        op).sparedView (sourceOf target) = (s.world.table (sourceOf target), false, none,
        target) := by
  rw [sparedView_cut daemons part here,
    view_after daemons (fun w => w.sparedView (sourceOf target))
      fun other member w => sparedView_perform daemons (earlier other member) w]
  cases sourceOf target <;> rfl

theorem handed_late_pdnsKea {s : State} {j : Nat} {op : Op} (part : Part)
    (here : (serving pdnsKeaStack)[j]? = some op) :
    (cut daemons part (after daemons ((selecting pdnsKeaStack ++ [.setSelected]) ++
      (serving pdnsKeaStack).take j) (s.begin pdnsKeaStack).world) op).handed =
      { dnsmasqLeases := s.world.dnsmasqLeases
        keaLeases := daemons.kea.load daemons.refusesRow (dnsmasq.leases s.world.dnsmasqLeases)
        selected := true
        sourceStopped := true
        leases := some (dnsmasq.leases s.world.dnsmasqLeases)
        target := pdnsKeaStack } := by
  rw [handed_cut daemons part (serving_settles op (List.mem_of_getElem? here)), after_append,
    view_after daemons World.handed
      fun other member w => handed_perform daemons
      (serving_settles other (List.mem_of_mem_take member)) w]
  exact handed_pdnsKea daemons s

/-- dnsmasq has the leases in its file when the target is selected, and drops those it refuses
when it is started. -/
theorem handed_late_dnsmasq {s : State} {k j : Nat} {op : Op} (part : Part)
    (can : canThrow op = true) (split : (program dnsmasqStack).take k = (selecting dnsmasqStack ++
    [.setSelected]) ++ (serving dnsmasqStack).take j) (placed :
    (program dnsmasqStack)[k]? = some op) (here : (serving dnsmasqStack)[j]? = some op) :
    ∃ file : Register FileLine.ip,
      Given dnsmasq (fun line => hasRead dnsmasqStack k part && daemons.refusesLine line)
        (daemons.kea.leases s.world.keaLeases) file ∧
      (cut daemons part (after daemons ((program dnsmasqStack).take k) (s.begin dnsmasqStack).world)
      op).handed =
        { dnsmasqLeases := file
          keaLeases := s.world.keaLeases
          selected := true
          sourceStopped := true
          leases := some (daemons.kea.leases s.world.keaLeases)
          target := dnsmasqStack } := by
  have whole : Given dnsmasq (fun _ => false) (daemons.kea.leases s.world.keaLeases)
      (dnsmasq.load (fun _ => false) (daemons.kea.leases s.world.keaLeases)) :=
      given_load (nodup_leases _)
  have list : serving dnsmasqStack = .setDhcpServing true :: .restart :: (serving dnsmasqStack).drop
      2 := by decide
  have settled : ∀ other ∈ (serving dnsmasqStack).drop 2, settles other = true := by decide
  have notYet : .restart ∉ selecting dnsmasqStack ++ [.setSelected] := by decide
  have start := handed_dnsmasq daemons s
  rw [split]
  generalize (serving dnsmasqStack).drop 2 = rest at list settled
  rw [list] at here split ⊢
  rw [after_append]
  generalize after daemons (selecting dnsmasqStack ++ [.setSelected]) (s.begin dnsmasqStack).world =
    w at start
  have target : w.switch.target = dnsmasqStack := congrArg Handed.target start
  have file : w.dnsmasqLeases = dnsmasq.load (fun _ => false)
      (daemons.kea.leases s.world.keaLeases) :=
    congrArg Handed.dnsmasqLeases start
  -- What the restart makes of the file.
  have dropped : Given dnsmasq daemons.refusesLine (daemons.kea.leases s.world.keaLeases)
      (w.dnsmasqLeases.filter fun line => !daemons.refusesLine line) := by
    rw [file]
    exact whole.filter
  have restarted : (perform daemons (perform daemons w (.setDhcpServing true)) .restart).handed =
      { w.handed with dnsmasqLeases := w.dnsmasqLeases.filter fun line =>
      !daemons.refusesLine line } := by
    show ({ w.handed with
      dnsmasqLeases := w.dnsmasqLeases.filter fun line => !daemons.refusedLine w.switch line } :
        Handed) = _
    rw [refusedLine_of_target daemons target]
  match j, here with
  | 0, here =>
    obtain rfl := Option.some.inj here
    exact absurd can nofun
  | 1, here =>
    obtain rfl := Option.some.inj here
    have read : hasRead dnsmasqStack k part = part.took := by
      have fresh : .restart ∉ (program dnsmasqStack).take k := by
        rw [split]
        simpa using notYet
      unfold hasRead
      rw [placed]
      simp [fresh]
    have cutting : ∀ w, cut daemons part w .restart = if part.took then perform daemons w .restart
        else w :=
      fun _ => rfl
    have one : after daemons ((.setDhcpServing true :: .restart :: rest : List Op).take 1) w =
        perform daemons w (.setDhcpServing true) := rfl
    rw [cutting, read, one]
    cases part.took with
    | true =>
      rw [if_pos rfl, restarted, start]
      refine ⟨w.dnsmasqLeases.filter fun line => !daemons.refusesLine line, ?_, rfl⟩
      simpa only [Bool.true_and] using dropped
    | false =>
      rw [if_neg Bool.false_ne_true, handed_perform daemons rfl, start]
      refine ⟨dnsmasq.load (fun _ => false) (daemons.kea.leases s.world.keaLeases), ?_, rfl⟩
      simpa only [Bool.false_and] using whole
  | j + 2, here =>
    have last : settles op = true := settled op (List.mem_of_getElem? here)
    have read : hasRead dnsmasqStack k part = true := by
      unfold hasRead
      rw [split]
      simp
    refine ⟨w.dnsmasqLeases.filter fun line => !daemons.refusesLine line, ?_, ?_⟩
    · simpa only [read, Bool.true_and] using dropped
    · rw [handed_cut daemons part last]
      show (after daemons (rest.take j)
        (perform daemons (perform daemons w (.setDhcpServing true)) .restart)).handed = _
      rw [view_after daemons World.handed
        fun other member w => handed_perform daemons (settled other (List.mem_of_mem_take member))
        w]
      exact restarted.trans (by rw [start])

theorem readBack_early {w : World} (unselected : w.switch.selected = false) (server : Dhcp)
    (readable : Bool) :
    State.readBack daemons w server readable = w := by
  unfold State.readBack
  cases readable with
  | true => simp only [if_true, perform, unselected, Bool.false_eq_true, if_false]
  | false => simp only [caught, unselected, Bool.false_eq_true, if_false, Option.getD_some]

theorem readBack_late {w : World} (selected : w.switch.selected = true) (server : Dhcp)
    (readable : Bool) :
    State.readBack daemons w server readable =
      { w with switch := { w.switch with
          carried := if readable then some (w.readLeases daemons server) else w.switch.leases }
              } := by
  unfold State.readBack
  cases readable with
  | true => simp only [if_true, perform, selected]
  | false => simp only [caught, selected, Bool.false_eq_true, if_false, if_true, Option.getD_some]

theorem holds_putAll {server : LeaseServer} {table : server.Table} {lease : CarriedLease}
    (member : lease ∈ server.leases table) {own : List server.Row}
    (free : lease.ip ∉ own.map server.ip) :
    server.Holds (table.putAll own) lease := by
  obtain ⟨row, inside, read⟩ := mem_leases.mp member
  have elsewhere : server.ip row ∉ own.map server.ip := server.ip_of_read read ▸ free
  exact holds_of_mem
    (mem_leases.mpr ⟨row, (Register.mem_putAll_of_not_mem elsewhere).mpr inside, read⟩)

theorem holdsAgain_dnsmasq {w : World} {lease : CarriedLease} :
    HoldsAgain daemons pdnsKeaStack w lease ↔ dnsmasq.Holds w.dnsmasqLeases lease := Iff.rfl

theorem holdsAgain_kea {w : World} {lease : CarriedLease} :
    HoldsAgain daemons dnsmasqStack w lease ↔ daemons.kea.Holds w.keaLeases lease := Iff.rfl

section Rollback

variable {daemons} {s f : State} {installed : Text → Bool} {k : Nat} {part : Part}
  {lines : List FileLine} {rows : List KeaRow} {readable : Bool} {m : Nat} {ops : List Op}
  {lease : CarriedLease}

theorem file_restored (target : f.world.switch.target = pdnsKeaStack)
    (rolls : f.control = .rollingBack (rollBack f.world.switch ++ [.clearMarker]))
    (done : (f.restored daemons lines rows readable m).control = .idle)
    (ending : (f.restored daemons lines rows readable m).lastEnding = some (.rolledBack false)) :
    (f.restored daemons lines rows readable m).world.dnsmasqLeases =
      match f.world.switch.sourceStopped,
        (State.readBack daemons (f.apply daemons (.handOut lines rows)).world .kea
        readable).switch.carried with
      | true, some leases => dnsmasq.load (fun _ => false) leases
      | _, _ => f.world.dnsmasqLeases.putAll lines := by
  have final := State.restored_world daemons .kea ((rollBackToDnsmasq f.world.switch).tail ++
    [.clearMarker]) (rolls.trans (by rw [rollBack, if_pos target]; rfl)) (by simp) done ending
  have kept : (State.readBack daemons (f.apply daemons (.handOut lines rows)).world .kea
      readable).switch.target = pdnsKeaStack ∧
      (State.readBack daemons (f.apply daemons (.handOut lines rows)).world .kea
        readable).dnsmasqLeases = f.world.dnsmasqLeases.putAll lines := by
    cases selected : f.world.switch.selected with
    | true => rw [readBack_late daemons (w := (f.apply daemons (.handOut lines rows)).world)
        selected]; exact ⟨target, rfl⟩
    | false =>
      rw [readBack_early daemons (w := (f.apply daemons (.handOut lines rows)).world) selected]
      exact ⟨target, rfl⟩
  rw [final]
  show (after daemons _ _).dnsmasqLeases = _
  rw [rollBackToDnsmasq_leases daemons kept.1, kept.2]

theorem rows_restored (target : f.world.switch.target = dnsmasqStack)
    (rolls : f.control = .rollingBack (rollBack f.world.switch ++ [.clearMarker]))
    (done : (f.restored daemons lines rows readable m).control = .idle)
    (ending : (f.restored daemons lines rows readable m).lastEnding = some (.rolledBack false)) :
    (f.restored daemons lines rows readable m).world.keaLeases =
      match (State.readBack daemons (f.apply daemons (.handOut lines rows)).world .dnsmasq
          readable).switch.carried with
      | some leases => daemons.kea.load (fun _ => false) leases
      | none => f.world.keaLeases.putAll rows := by
  have other : f.world.switch.target ≠ pdnsKeaStack := by
    rw [target]
    decide
  have final := State.restored_world daemons .dnsmasq (rollBackToPdnsKea.tail ++ [.clearMarker])
    (rolls.trans (by rw [rollBack, if_neg other]; rfl)) (by simp) done ending
  have kept : (State.readBack daemons (f.apply daemons (.handOut lines rows)).world .dnsmasq
      readable).switch.target = dnsmasqStack ∧
      (State.readBack daemons (f.apply daemons (.handOut lines rows)).world .dnsmasq
        readable).keaLeases = f.world.keaLeases.putAll rows := by
    cases selected : f.world.switch.selected with
    | true =>
      rw [readBack_late daemons (w := (f.apply daemons (.handOut lines rows)).world) selected]
      exact ⟨target, rfl⟩
    | false =>
      rw [readBack_early daemons (w := (f.apply daemons (.handOut lines rows)).world) selected]
      exact ⟨target, rfl⟩
  rw [final]
  show (after daemons _ _).keaLeases = _
  rw [rollBackToPdnsKea_leases daemons kept.1, kept.2]

/-- A lease of dnsmasq after a failed switch to PowerDNS and Kea. -/
theorem holdsAgain_pdnsKea (idle : s.control = .idle)
    (rolls : (s.failed daemons pdnsKeaStack installed k part).control = .rollingBack ops)
    (done : ((s.failed daemons pdnsKeaStack installed k part).restored daemons lines rows readable
    m).control = .idle)
      (ending : ((s.failed daemons pdnsKeaStack installed k part).restored daemons lines rows
      readable m).lastEnding = some (.rolledBack false))
    (member : lease ∈ s.world.readLeases daemons (sourceOf pdnsKeaStack))
    (free : lease.ip ∉ handedOut lines rows) :
    HoldsAgain daemons pdnsKeaStack
        ((s.failed daemons pdnsKeaStack installed k part).restored daemons lines rows readable
        m).world lease ↔
      .setSelected ∉ (program pdnsKeaStack).take k ∨ readable = false ∨
        comesHome daemons pdnsKeaStack (hasRead pdnsKeaStack k part) lease = true := by
  obtain ⟨known, op, placed, can, world, rfl⟩ := State.failed_eq daemons idle rolls
  have fromLines : lease.ip ∉ lines.map FileLine.ip :=
    fun there => free (List.mem_append_left _ there)
  have fromRows : lease.ip ∉ rows.map KeaRow.ip := fun there => free (List.mem_append_right _ there)
  generalize s.failed daemons pdnsKeaStack installed k part = f at rolls done ending world ⊢
  rw [holdsAgain_dnsmasq]
  rcases position known placed can with ⟨early, earlier, here⟩ | ⟨j, split, here⟩
  · -- The target was not selected, and the lease file is what it was.
    have spared := spared_of_early daemons (s := s) part earlier here
    rw [← world] at spared
    simp only [World.sparedView, Prod.mk.injEq] at spared
    obtain ⟨table, unselected, carried, target⟩ := spared
    have file : f.world.dnsmasqLeases = s.world.dnsmasqLeases := Sum.inl.inj table
    have nothing : (f.apply daemons (.handOut lines rows)).world.switch.carried = none := carried
    have held : dnsmasq.Holds (f.restored daemons lines rows readable m).world.dnsmasqLeases
        lease := by
      rw [file_restored target rolls done ending,
        readBack_early daemons (w := (f.apply daemons (.handOut lines rows)).world) unselected,
        nothing, file]
      cases f.world.switch.sourceStopped with
      | true => exact holds_putAll member fromLines
      | false => exact holds_putAll member fromLines
    exact ⟨fun _ => .inl early, fun _ => held⟩
  · -- The file was written anew, from what Kea reports or from what was read at the start.
    have handed := handed_late_pdnsKea daemons (s := s) part here
    rw [← split, ← world] at handed
    have target : f.world.switch.target = pdnsKeaStack := congrArg Handed.target handed
    have stopped : f.world.switch.sourceStopped = true := congrArg Handed.sourceStopped handed
    have selected : (f.apply daemons (.handOut lines rows)).world.switch.selected = true :=
      congrArg Handed.selected handed
    have there : .setSelected ∈ (program pdnsKeaStack).take k := by
      rw [split]
      simp
    rw [file_restored target rolls done ending, readBack_late daemons selected, stopped]
    cases readable with
    | true =>
      have reported : (f.apply daemons (.handOut lines rows)).world.keaLeases =
          (daemons.kea.load daemons.refusesRow (dnsmasq.leases s.world.dnsmasqLeases)).putAll
          rows :=
        congrArg (Register.putAll · rows) (congrArg Handed.keaLeases handed)
      have distinct : ((dnsmasq.leases s.world.dnsmasqLeases).map CarriedLease.ip).Nodup :=
        nodup_leases _
      have given : Given daemons.kea daemons.refusesRow (dnsmasq.leases s.world.dnsmasqLeases)
          (daemons.kea.load daemons.refusesRow (dnsmasq.leases s.world.dnsmasqLeases)) :=
          given_load distinct
      have taken := holds_taken_back _ given rows member fromRows
      rw [← reported] at taken
      simp only [there, not_true_eq_false, Bool.true_eq_false, false_or]
      exact taken
    | false =>
      have read : (f.apply daemons (.handOut lines rows)).world.switch.leases =
          some (dnsmasq.leases s.world.dnsmasqLeases) := congrArg Handed.leases handed
      have again : dnsmasq.Holds
          (dnsmasq.load (fun _ => false) (dnsmasq.leases s.world.dnsmasqLeases)) lease :=
        holds_reloaded _ member
      simp only [Bool.false_eq_true, if_false, read]
      exact ⟨fun _ => .inr (.inl trivial), fun _ => again⟩

/-- A lease of Kea after a failed switch to dnsmasq. -/
theorem holdsAgain_toDnsmasq (idle : s.control = .idle)
    (rolls : (s.failed daemons dnsmasqStack installed k part).control = .rollingBack ops)
    (done : ((s.failed daemons dnsmasqStack installed k part).restored daemons lines rows readable
    m).control = .idle)
      (ending : ((s.failed daemons dnsmasqStack installed k part).restored daemons lines rows
      readable m).lastEnding = some (.rolledBack false))
    (member : lease ∈ s.world.readLeases daemons (sourceOf dnsmasqStack))
    (free : lease.ip ∉ handedOut lines rows) :
    HoldsAgain daemons dnsmasqStack
        ((s.failed daemons dnsmasqStack installed k part).restored daemons lines rows readable
        m).world lease ↔
      .setSelected ∉ (program dnsmasqStack).take k ∨ readable = false ∨
        comesHome daemons dnsmasqStack (hasRead dnsmasqStack k part) lease = true := by
  obtain ⟨known, op, placed, can, world, rfl⟩ := State.failed_eq daemons idle rolls
  have fromLines : lease.ip ∉ lines.map FileLine.ip :=
    fun there => free (List.mem_append_left _ there)
  have fromRows : lease.ip ∉ rows.map KeaRow.ip := fun there => free (List.mem_append_right _ there)
  have source : lease ∈ daemons.kea.leases s.world.keaLeases := member
  generalize s.failed daemons dnsmasqStack installed k part = f at rolls done ending world ⊢
  rw [holdsAgain_kea]
  rcases position known placed can with ⟨early, earlier, here⟩ | ⟨j, split, here⟩
  · -- The target was not selected, and Kea has the leases it had.
    have spared := spared_of_early daemons (s := s) part earlier here
    rw [← world] at spared
    simp only [World.sparedView, Prod.mk.injEq] at spared
    obtain ⟨table, unselected, carried, target⟩ := spared
    have same : f.world.keaLeases = s.world.keaLeases := Sum.inr.inj table
    have nothing : (f.apply daemons (.handOut lines rows)).world.switch.carried = none := carried
    have held : daemons.kea.Holds (f.restored daemons lines rows readable m).world.keaLeases
        lease := by
      rw [rows_restored target rolls done ending,
        readBack_early daemons (w := (f.apply daemons (.handOut lines rows)).world) unselected,
        nothing, same]
      exact holds_putAll source fromRows
    exact ⟨fun _ => .inl early, fun _ => held⟩
  · -- Kea's leases are added anew, as dnsmasq reports them or as they were read at the start.
    obtain ⟨file, given, handed⟩ := handed_late_dnsmasq daemons (s := s) part can split placed here
    rw [← world] at handed
    have target : f.world.switch.target = dnsmasqStack := congrArg Handed.target handed
    have selected : (f.apply daemons (.handOut lines rows)).world.switch.selected = true :=
      congrArg Handed.selected handed
    have there : .setSelected ∈ (program dnsmasqStack).take k := by
      rw [split]
      simp
    rw [rows_restored target rolls done ending, readBack_late daemons selected]
    cases readable with
    | true =>
      have reported : (f.apply daemons (.handOut lines rows)).world.readLeases daemons .dnsmasq =
          dnsmasq.leases (file.putAll lines) :=
        congrArg (fun file => dnsmasq.leases (Register.putAll file lines))
          (congrArg Handed.dnsmasqLeases handed)
      have taken := holds_taken_back _ given lines source fromLines
      simp only [there, not_true_eq_false, Bool.true_eq_false, false_or, reported, if_true]
      exact taken
    | false =>
      have read : (f.apply daemons (.handOut lines rows)).world.switch.leases =
          some (daemons.kea.leases s.world.keaLeases) := congrArg Handed.leases handed
      have again : daemons.kea.Holds
          (daemons.kea.load (fun _ => false) (daemons.kea.leases s.world.keaLeases)) lease :=
        holds_reloaded _ source
      simp only [Bool.false_eq_true, if_false, read]
      exact ⟨fun _ => .inr (.inl trivial), fun _ => again⟩

end Rollback

/-- **A failed switch keeps the leases of the source** exactly if it failed before the target was
selected, or the target could not be read, or each lease that the target has not replaced is one
it takes and reports so that it comes home the same. -/
theorem failed_switch_keeps_leases_iff {s : State} {target : Text} {installed : Text → Bool}
    {k : Nat} {part : Part} {lines : List FileLine} {rows : List KeaRow} {readable : Bool} {m : Nat}
    {ops : List Op} (idle : s.control = .idle)
    (rolls : (s.failed daemons target installed k part).control = .rollingBack ops)
    (done : ((s.failed daemons target installed k part).restored daemons lines rows readable
      m).control = .idle)
      (ending : ((s.failed daemons target installed k part).restored daemons lines rows readable
      m).lastEnding = some (.rolledBack false)) :
    (∀ lease ∈ s.world.readLeases daemons (sourceOf target), lease.ip ∉ handedOut lines rows →
      HoldsAgain daemons target
        ((s.failed daemons target installed k part).restored daemons lines rows readable m).world
        lease) ↔
      .setSelected ∉ (program target).take k ∨ readable = false ∨
        ∀ lease ∈ s.world.readLeases daemons (sourceOf target), lease.ip ∉ handedOut lines rows →
          comesHome daemons target (hasRead target k part) lease = true := by
  have each : ∀ lease ∈ s.world.readLeases daemons (sourceOf target),
      lease.ip ∉ handedOut lines rows → (HoldsAgain daemons target
        ((s.failed daemons target installed k part).restored daemons lines rows readable m).world
        lease ↔ .setSelected ∉ (program target).take k ∨ readable = false ∨
          comesHome daemons target (hasRead target k part) lease = true) := by
    intro lease member free
    rcases isStack_iff.mp (State.failed_eq daemons idle rolls).1 with rfl | rfl
    · exact holdsAgain_toDnsmasq idle rolls done ending member free
    · exact holdsAgain_pdnsKea idle rolls done ending member free
  constructor
  · intro all
    by_cases early : .setSelected ∉ (program target).take k
    · exact .inl early
    · by_cases unread : readable = false
      · exact .inr (.inl unread)
      · refine .inr (.inr fun lease member free => ?_)
        exact (((each lease member free).mp (all lease member free)).resolve_left
          early).resolve_left unread
  · intro either lease member free
    refine (each lease member free).mpr ?_
    rcases either with early | unread | home
    · exact .inl early
    · exact .inr (.inl unread)
    · exact .inr (.inr (home lease member free))

theorem oneLine_sampleLease {hostname : LeaseHandover.Word} (unbroken : '\n' ∉ hostname.text) :
    (LeaseHandover.sampleLease hostname).OneLine where
  filled := (by decide : sampleAddress ≠ [])
  solid := DnsNames.solid_of_all
    (by decide : (sampleAddress.all fun c => !Address.isTrimmed c) = true)
  ids := List.forall_mem_singleton.mpr
    (DnsNames.solid_of_all (by decide : (sampleMac.text.all fun c => !Address.isTrimmed c) = true))
  names := List.forall_mem_singleton.mpr unbroken

/-- A lease of Kea whose name is two words is read from dnsmasq's file under the first of them,
with the second for its client id. -/
example : comesHome {} dnsmasqStack false ⟨LeaseHandover.sampleLease frontDesk,
    oneLine_sampleLease (by decide)⟩ = false := by decide

/-- The words of a line of dnsmasq's lease file. -/
def sampleWords : LeaseLine where
  expiry := 0
  identity := sampleMac
  ip := sampleAddress
  hostname := printer
  clientId := some star

theorem oneLine_sampleWords :
    InOneLine sampleWords.ip (sampleWords.identity :: sampleWords.clientId.toList)
    [sampleWords.hostname] where
  filled := by decide
  solid := DnsNames.solid_of_all (by decide)
  ids := by
    simp only [sampleWords, Option.toList_some, List.forall_mem_cons]
    exact ⟨DnsNames.solid_of_all (by decide), DnsNames.solid_of_all (by decide),
      fun _ member => absurd member List.not_mem_nil⟩
  names := List.forall_mem_singleton.mpr (by decide)

/-- A line of dnsmasq's lease file. -/
def sampleLine : FileLine := ⟨sampleWords, oneLine_sampleWords⟩

/-- A process whose dnsmasq has one lease. -/
def sampleState : State where
  world := { setting := some dnsmasqStack, dnsmasqLeases := Register.empty.put sampleLine }
  control := .idle

/-- The rollback of a switch to PowerDNS and Kea after dnsmasq was stopped. -/
def sampleRollBack : List Op :=
  [.targetLeases .kea, .selectStack dnsmasqStack, .setDhcpServing true, .tryStopAll
    [.radvd, .kea, .pdns], .importTargetLeases .dnsmasq, .restart, .awaitRunning .dnsmasq,
    .throwProblems, .clearMarker]

theorem failed_switch_keeps_leases_sample :
    sampleState.world.readLeases {} .dnsmasq ≠ [] ∧
      ∀ lease ∈ sampleState.world.readLeases {} .dnsmasq, lease.ip ∉ handedOut [] [] →
        HoldsAgain {} pdnsKeaStack
          ((sampleState.failed {} pdnsKeaStack everywhere 30 {}).restored {} [] [] true 8).world
          lease := by
  have rolls : (sampleState.failed {} pdnsKeaStack everywhere 30 {}).control = .rollingBack
      sampleRollBack := by
    decide
  have done : ((sampleState.failed {} pdnsKeaStack everywhere 30 {}).restored {} []
      [] true 8).control = .idle := by
    decide
  have ending :
      ((sampleState.failed {} pdnsKeaStack everywhere 30 {}).restored {} [] [] true 8).lastEnding =
      some (.rolledBack false) := by decide
  have home : ∀ lease ∈ sampleState.world.readLeases {} (sourceOf pdnsKeaStack),
      lease.ip ∉ handedOut [] [] → comesHome {} pdnsKeaStack (hasRead pdnsKeaStack 30 {}) lease =
      true := by decide
  exact ⟨by decide, (failed_switch_keeps_leases_iff {} rfl rolls done ending).mpr
    (.inr (.inr home))⟩

/-- **A lease that the target refuses is lost** when a later step fails: Kea refuses the lease of
dnsmasq, the zones do not answer, and dnsmasq is given back what Kea reports. -/
theorem refused_lease_is_lost :
    let daemons : Daemons := { refusesRow := fun _ => true }
    let failed := sampleState.failed daemons pdnsKeaStack everywhere 30 {}
    let restored := failed.restored daemons [] [] true 8
    (program pdnsKeaStack)[30]? = some .verifyZones ∧ failed.control = .rollingBack sampleRollBack ∧
      restored.control = .idle ∧ restored.lastEnding = some (.rolledBack false) ∧
        ∃ lease ∈ sampleState.world.readLeases daemons .dnsmasq,
          lease.ip ∉ handedOut [] [] ∧ ¬ HoldsAgain daemons pdnsKeaStack restored.world lease := by
  decide

end StackSwitch

end Cidrella
