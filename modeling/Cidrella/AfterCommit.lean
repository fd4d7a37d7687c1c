import Cidrella.Lib.Executions

/-!
# After-commit hooks

`utils/after-commit.js` and `models/configuration-generation.js`. A hook that is asked for
is enqueued in the database and fired; firing sets `running` and queues a microtask, and the
microtask runs the handler, which returns or gives a promise. While a hook runs or a hold is
on, firing only sets `pending`, and whoever comes last fires again.

Two writes of the status stand outside what the code guards: when `markApplying` throws, or
`markFailed` after a handler that gave no promise, `running` stays set for ever
(`registration_is_lost`). Where neither throws, every registration is followed by a run, and
the other guarantees need neither condition (`hooks_single_flight_and_lossless`).
-/

set_option autoImplicit false

namespace Cidrella

namespace AfterCommit

/-! ## The stored generations -/

/-- The hook names. -/
inductive Hook where
  | regenerateDns
  | regenerateDhcp
  | regenerateDnsmasqConf
  deriving DecidableEq, Repr

/-- `HOOK_ORDER`. -/
def hookOrder : List Hook := [.regenerateDns, .regenerateDhcp, .regenerateDnsmasqConf]

/-- `listGenerations`: `ORDER BY hook_name`. -/
def listGenerations : List Hook := [.regenerateDhcp, .regenerateDns, .regenerateDnsmasqConf]

/-- `configuration_generations.status`. -/
inductive Status where
  | pending
  | applying
  | applied
  | failed
  deriving DecidableEq, Repr

/-- A row of `configuration_generations`; what is `applied` is what was asked for. -/
structure Generation where
  desired : Nat
  applied : Nat
  status : Status
  current : status = .applied → desired ≤ applied

namespace Generation

/-- The row that the migration inserts. -/
def initial : Generation := ⟨0, 0, .applied, fun _ => le_refl 0⟩

/-- `enqueueGeneration`. -/
def enqueue (row : Generation) : Generation :=
  ⟨row.desired + 1, row.applied, .pending, nofun⟩

/-- `markApplying`. -/
def markApplying (row : Generation) : Generation :=
  ⟨row.desired, row.applied, .applying, nofun⟩

/-- `markApplied`. -/
def markApplied (row : Generation) (generation : Nat) : Generation where
  desired := row.desired
  applied := max row.applied generation
  status := if generation < row.desired then .pending else .applied
  current := by
    split
    · exact nofun
    · rename_i covered
      exact fun _ => (Nat.le_of_not_lt covered).trans (le_max_right _ _)

/-- `markFailed`. -/
def markFailed (row : Generation) : Generation :=
  ⟨row.desired, row.applied, .failed, nofun⟩

/-- The row asks for a run after a restart. -/
def needsRun (row : Generation) : Prop := row.applied < row.desired ∨ row.status ≠ .applied

instance (row : Generation) : Decidable row.needsRun :=
  inferInstanceAs (Decidable (row.applied < row.desired ∨ row.status ≠ .applied))

end Generation

/-! ## The state -/

/-- An entry of `hookState`. -/
structure HookState where
  running : Bool := false
  pending : Bool := false
  deriving DecidableEq, Repr

/-- A handler that runs, with the generation it read. -/
structure HandlerRun where
  hook : Hook
  generation : Nat
  deriving DecidableEq, Repr

/-- A call of `holdHooks`: it waits for the running hooks, then its caller has the release,
then it was released. -/
inductive Hold where
  | waiting
  | resolved
  | released
  deriving DecidableEq, Repr

/-- The rows, the flags, the microtasks that wait, the handlers that run, the calls of
`holdHooks`, and their counter. -/
structure State where
  generations : Hook → Generation
  hooks : Hook → HookState := fun _ => {}
  microtasks : List Hook := []
  handlerRuns : List HandlerRun := []
  holders : List Hold := []
  holds : Nat := 0

namespace State

def setHook (s : State) (hook : Hook) (flags : HookState) : State :=
  { s with hooks := Function.update s.hooks hook flags }

def updateGeneration (s : State) (hook : Hook) (update : Generation → Generation) : State :=
  { s with generations := Function.update s.generations hook (update (s.generations hook)) }

/-- `fireHook` up to `queueMicrotask`. -/
def fireHook (s : State) (hook : Hook) : State :=
  if (s.hooks hook).running ∨ 0 < s.holds then
    s.setHook hook { s.hooks hook with pending := true }
  else
    { s.setHook hook { running := true, pending := false } with microtasks :=
      s.microtasks ++ [hook] }

/-- `finish`. -/
def finish (s : State) (hook : Hook) : State :=
  let s := s.setHook hook { s.hooks hook with running := false }
  if (s.hooks hook).pending then s.fireHook hook else s

/-- The microtask up to the call of the handler. -/
def startRun (s : State) (hook : Hook) (markApplyingThrows : Bool) : State :=
  let s := { s with microtasks := s.microtasks.erase hook }
  if markApplyingThrows then s
  else
    let s := s.updateGeneration hook Generation.markApplying
    { s with handlerRuns := s.handlerRuns ++ [⟨hook, (s.generations hook).desired⟩] }

end State

/-- How a handler ends: whether it gave a promise, whether it (or the promise) succeeded, and
which of the writes that follow throw. A hook without a handler fails without a promise. -/
structure Outcome where
  promised : Bool
  succeeded : Bool
  markAppliedThrows : Bool := false
  markFailedThrows : Bool := false
  deriving DecidableEq, Repr

/-- The run is recorded as applied. -/
def Outcome.applies (outcome : Outcome) : Bool := outcome.succeeded && !outcome.markAppliedThrows

namespace State

/-- What follows when a handler has returned or its promise has settled. Without a promise,
what `fail` throws leaves the microtask before it comes to `finish`. -/
def settle (s : State) (run : HandlerRun) (outcome : Outcome) : State :=
  let s := { s with handlerRuns := s.handlerRuns.erase run }
  if outcome.applies then
    (s.updateGeneration run.hook (·.markApplied run.generation)).finish run.hook
  else if !outcome.markFailedThrows then
    (s.updateGeneration run.hook Generation.markFailed).finish run.hook
  else if outcome.promised then s.finish run.hook
  else s

/-- `enqueueGeneration` and `fireHook`. -/
def register (s : State) (hook : Hook) : State :=
  (s.updateGeneration hook Generation.enqueue).fireHook hook

/-- The loop of the `finish` listener; an `enqueueGeneration` that throws ends it. -/
def registerAll (s : State) (queue : List Hook) (enqueueThrows : Option Hook) : List Hook → State
  | [] => s
  | hook :: rest =>
    if hook ∈ queue then
      if enqueueThrows = some hook then s else (s.register hook).registerAll queue
        enqueueThrows rest
    else s.registerAll queue enqueueThrows rest

/-- The `finish` listener of a response. -/
def requestFinished (s : State) (queue : List Hook) (statusCode : Nat)
    (enqueueThrows : Option Hook) : State :=
  if 400 ≤ statusCode then s else s.registerAll queue enqueueThrows hookOrder

/-- `resumePendingRegeneration`. -/
def resumePendingRegeneration (s : State) : State :=
  listGenerations.foldl (fun s hook => if (s.generations hook).needsRun then s.fireHook hook else s)
    s

/-- `holdHooks` up to its wait. -/
def holdHooks (s : State) : State :=
  { s with holders := s.holders ++ [.waiting], holds := s.holds + 1 }

/-- A call of `holdHooks` resolves. -/
def holdResolves (s : State) (holder : Nat) : State :=
  { s with holders := s.holders.set holder .resolved }

/-- What the last release fires. -/
def firePending (s : State) : State :=
  hookOrder.foldl (fun s hook => if (s.hooks hook).pending then s.fireHook hook else s) s

/-- The release of a hold; a second call does nothing. -/
def release (s : State) (holder : Nat) : State :=
  if s.holders[holder]? = some .resolved then
    let s := { s with holders := s.holders.set holder .released, holds := s.holds - 1 }
    if 0 < s.holds then s else s.firePending
  else s

end State

/-! ## Events -/

/-- What can come next. `other` is any callback that has nothing to do with hooks. -/
inductive Event where
  | requestFinished (queue : List Hook) (statusCode : Nat) (enqueueThrows : Option Hook)
  | queueRegen (hook : Hook)
  | resumePendingRegeneration
  | microtask (hook : Hook) (markApplyingThrows : Bool)
  | settled (run : HandlerRun) (outcome : Outcome)
  | holdHooks
  | holdResolves (holder : Nat)
  | release (holder : Nat)
  | other
  deriving DecidableEq, Repr

namespace State

def apply (s : State) : Event → State
  | .requestFinished queue statusCode enqueueThrows => s.requestFinished queue statusCode
      enqueueThrows
  | .queueRegen hook => s.register hook
  | .resumePendingRegeneration => s.resumePendingRegeneration
  | .microtask hook markApplyingThrows => s.startRun hook markApplyingThrows
  | .settled run outcome => s.settle run outcome
  | .holdHooks => s.holdHooks
  | .holdResolves holder => s.holdResolves holder
  | .release holder => s.release holder
  | .other => s

/-- A microtask that waits, a handler that runs, a hold that waits while no hook runs, and a
hold whose caller has the release. -/
def Possible (s : State) : Event → Prop
  | .microtask hook _ => hook ∈ s.microtasks
  | .settled run _ => run ∈ s.handlerRuns
  | .holdResolves holder => s.holders[holder]? = some .waiting ∧ ∀ hook ∈ hookOrder,
      (s.hooks hook).running = false
  | .release holder => s.holders[holder]? = some .resolved ∨ s.holders[holder]? = some .released
  | _ => True

instance (s : State) : (event : Event) → Decidable (s.Possible event)
  | .microtask hook _ => inferInstanceAs (Decidable (hook ∈ s.microtasks))
  | .settled run _ => inferInstanceAs (Decidable (run ∈ s.handlerRuns))
  | .holdResolves holder => inferInstanceAs (Decidable
      (s.holders[holder]? = some .waiting ∧ ∀ hook ∈ hookOrder, (s.hooks hook).running = false))
  | .release holder => inferInstanceAs (Decidable
      (s.holders[holder]? = some .resolved ∨ s.holders[holder]? = some .released))
  | .requestFinished _ _ _ | .queueRegen _ | .resumePendingRegeneration | .holdHooks | .other =>
    inferInstanceAs (Decidable True)

/-- The event asks for a run of the hook. -/
def Registers (s : State) (event : Event) (hook : Hook) : Prop :=
  match event with
  | .requestFinished queue statusCode _ => statusCode < 400 ∧ hook ∈ queue
  | .queueRegen asked => asked = hook
  | .resumePendingRegeneration => (s.generations hook).needsRun
  | _ => False

end State

/-- The module when the process has started, over whatever rows the last one left. -/
def machine : Machine State Event where
  starts s := ∃ generations, s = { generations }
  possible := State.Possible
  apply := State.apply

instance (s : State) (event : Event) : Decidable (machine.possible s event) :=
  inferInstanceAs (Decidable (s.Possible event))

/-! ## What firing changes -/

namespace State

section Fire

variable {s : State} {hook other : Hook}

theorem fireHook_cases (s : State) (hook : Hook) :
    (((s.hooks hook).running = true ∨ 0 < s.holds) ∧
      s.fireHook hook = s.setHook hook { s.hooks hook with pending := true }) ∨
    ((s.hooks hook).running = false ∧ s.holds = 0 ∧ s.fireHook hook =
      { s.setHook hook { running := true, pending := false } with microtasks := s.microtasks ++
      [hook] }) := by
  unfold fireHook
  split
  · rename_i deferred
    exact .inl ⟨deferred, rfl⟩
  · rename_i free
    obtain ⟨rests, released⟩ := not_or.mp free
    exact .inr ⟨by simpa using rests, Nat.eq_zero_of_not_pos released, rfl⟩

@[simp] theorem fireHook_generations : (s.fireHook hook).generations = s.generations := by
  unfold fireHook
  split <;> rfl

@[simp] theorem fireHook_handlerRuns : (s.fireHook hook).handlerRuns = s.handlerRuns := by
  unfold fireHook
  split <;> rfl

@[simp] theorem fireHook_holders : (s.fireHook hook).holders = s.holders := by
  unfold fireHook
  split <;> rfl

@[simp] theorem fireHook_holds : (s.fireHook hook).holds = s.holds := by
  unfold fireHook
  split <;> rfl

theorem fireHook_hooks_of_ne (distinct : other ≠ hook) :
    (s.fireHook hook).hooks other = s.hooks other := by
  unfold fireHook
  split <;> exact Function.update_of_ne distinct _ _

theorem setHook_self (flags : HookState) : (s.setHook hook flags).hooks hook = flags := by
  unfold setHook
  exact Function.update_self hook flags s.hooks

theorem setHook_of_ne (distinct : other ≠ hook) (flags : HookState) :
    (s.setHook hook flags).hooks other = s.hooks other := by
  unfold setHook
  exact Function.update_of_ne distinct flags s.hooks

@[simp] theorem finish_generations : (s.finish hook).generations = s.generations := by
  unfold finish
  dsimp only
  split
  · rw [fireHook_generations]
    rfl
  · rfl

@[simp] theorem finish_handlerRuns : (s.finish hook).handlerRuns = s.handlerRuns := by
  unfold finish
  dsimp only
  split
  · rw [fireHook_handlerRuns]
    rfl
  · rfl

theorem mem_hookOrder (hook : Hook) : hook ∈ hookOrder := by
  cases hook <;> decide

/-! ## One run at a time, and none under a hold -/

/-- The microtasks and handler runs of a hook. -/
def busy (s : State) (hook : Hook) : Nat :=
  s.microtasks.count hook + (s.handlerRuns.map HandlerRun.hook).count hook

/-- At most one run of a hook is under way, and only while it is `running`; the counter
counts the holds that were not released; and nothing runs once a hold has resolved. -/
structure Steady (s : State) : Prop where
  busy : ∀ hook, s.busy hook ≤ (s.hooks hook).running.toNat
  counted : s.holds = s.holders.countP (· ≠ .released)
  quiet : .resolved ∈ s.holders → s.microtasks = [] ∧ s.handlerRuns = []

theorem Steady.held (steady : Steady s) (resolved : .resolved ∈ s.holders) : 0 < s.holds := by
  rw [steady.counted]
  exact List.countP_pos_iff.mpr ⟨.resolved, resolved, by decide⟩

theorem busy_fired (s : State) (hook other : Hook) (flags : HookState) :
    { s.setHook hook flags with microtasks := s.microtasks ++ [hook] }.busy other =
      s.busy other + if hook = other then 1 else 0 := by
  unfold busy
  simp only [List.count_append, List.count_singleton, beq_iff_eq]
  exact Nat.add_right_comm _ _ _

theorem Steady.fireHook (steady : Steady s) (hook : Hook) : Steady (s.fireHook hook) := by
  refine ⟨?_, by simpa using steady.counted, ?_⟩
  · intro other
    have before := steady.busy other
    rcases fireHook_cases s hook with ⟨_, fired⟩ | ⟨rests, _, fired⟩
    · rw [fired]
      by_cases same : other = hook
      · subst same
        rw [setHook_self]
        exact before
      · rw [setHook_of_ne same]
        exact before
    · rw [fired, busy_fired]
      by_cases same : other = hook
      · subst same
        rw [rests] at before
        rw [if_pos rfl, Nat.le_zero.mp before,
            show ({ s.setHook other { running := true, pending := false } with
          microtasks := s.microtasks ++ [other] } : State).hooks other = _ from setHook_self _]
        exact le_refl 1
      · rw [if_neg (Ne.symm same), show ({ s.setHook hook { running := true, pending := false } with
          microtasks := s.microtasks ++ [hook] } : State).hooks other = _ from setHook_of_ne same _]
        exact before
  · intro resolved
    rw [fireHook_holders] at resolved
    have held := steady.held resolved
    rcases fireHook_cases s hook with ⟨_, fired⟩ | ⟨_, released, _⟩
    · rw [fired]
      exact steady.quiet resolved
    · exact absurd released held.ne'

/-- A hook with nothing under way need not be `running`. -/
theorem Steady.rest (steady : Steady s) (idle : s.busy hook = 0) :
    Steady (s.setHook hook { s.hooks hook with running := false }) := by
  refine ⟨?_, steady.counted, steady.quiet⟩
  intro other
  by_cases same : other = hook
  · subst same
    exact (Nat.le_of_eq idle).trans (Nat.zero_le _)
  · rw [setHook_of_ne same]
    exact steady.busy other

theorem Steady.finish (steady : Steady s) (idle : s.busy hook = 0) : Steady (s.finish hook) := by
  unfold State.finish
  dsimp only
  split
  · exact (steady.rest idle).fireHook hook
  · exact steady.rest idle

theorem Steady.updateGeneration (steady : Steady s) (update : Generation → Generation) :
    Steady (s.updateGeneration hook update) :=
  ⟨steady.busy, steady.counted, steady.quiet⟩

theorem Steady.register (steady : Steady s) (hook : Hook) : Steady (s.register hook) :=
  (steady.updateGeneration _).fireHook hook

theorem registerAll_keeps (kept : State → Prop) (register : ∀ s hook, kept s →
    kept (s.register hook)) (queue : List Hook) (enqueueThrows : Option Hook) (order : List Hook)
    (now : kept s) :
    kept (s.registerAll queue enqueueThrows order) := by
  induction order generalizing s with
  | nil => exact now
  | cons hook rest ih =>
    unfold registerAll
    split
    · split
      · exact now
      · exact ih (register s hook now)
    · exact ih now

theorem requestFinished_keeps (kept : State → Prop) (register : ∀ s hook, kept s →
    kept (s.register hook)) (queue : List Hook) (statusCode : Nat) (enqueueThrows : Option Hook)
    (now : kept s) :
    kept (s.requestFinished queue statusCode enqueueThrows) := by
  unfold requestFinished
  split
  · exact now
  · exact registerAll_keeps kept register queue enqueueThrows hookOrder now

theorem foldl_fireHook_keeps (kept : State → Prop) (fire : ∀ s hook, kept s →
    kept (s.fireHook hook)) (test : State → Hook → Bool) (order : List Hook) (now : kept s) :
    kept (order.foldl (fun s hook => if test s hook then s.fireHook hook else s) s) := by
  induction order generalizing s with
  | nil => exact now
  | cons hook rest ih =>
    refine ih ?_
    dsimp only
    split
    · exact fire s hook now
    · exact now

theorem resumePendingRegeneration_keeps (kept : State → Prop) (fire : ∀ s hook, kept s →
    kept (s.fireHook hook)) (now : kept s) : kept s.resumePendingRegeneration := by
  have keeps := foldl_fireHook_keeps kept fire (fun s hook => decide (s.generations hook).needsRun)
    listGenerations now
  simp only [decide_eq_true_eq] at keeps
  exact keeps

theorem firePending_keeps (kept : State → Prop) (fire : ∀ s hook, kept s → kept (s.fireHook hook))
    (now : kept s) : kept s.firePending :=
  foldl_fireHook_keeps kept fire (fun s hook => (s.hooks hook).pending) hookOrder now

theorem busy_startRun (waits : hook ∈ s.microtasks) (other : Hook) :
    (s.startRun hook false).busy other = s.busy other := by
  have erased : (s.microtasks.erase hook).count other = s.microtasks.count other - if hook = other
      then 1 else 0 := by
    rw [List.count_erase]
    simp only [beq_iff_eq]
  have inside := List.count_pos_iff.mpr waits
  simp only [startRun, busy, Bool.false_eq_true, if_false, updateGeneration, List.map_append,
    List.count_append, List.map_cons, List.map_nil, List.count_singleton, erased, beq_iff_eq]
  by_cases same : hook = other
  · subst same
    simp only [if_true]
    omega
  · simp only [same, if_false]
    rfl

theorem busy_startRun_le (waits : hook ∈ s.microtasks) (throws : Bool) (other : Hook) :
    (s.startRun hook throws).busy other ≤ s.busy other := by
  cases throws with
  | false => exact (busy_startRun waits other).le
  | true => exact Nat.add_le_add_right (List.Sublist.count_le _ List.erase_sublist) _

theorem Steady.startRun (steady : Steady s) (waits : hook ∈ s.microtasks) (throws : Bool) :
    Steady (s.startRun hook throws) := by
  have flags : (s.startRun hook throws).hooks = s.hooks := by cases throws <;> rfl
  have holders : (s.startRun hook throws).holders = s.holders := by cases throws <;> rfl
  have holds : (s.startRun hook throws).holds = s.holds := by cases throws <;> rfl
  refine ⟨?_, ?_, ?_⟩
  · intro other
    rw [flags]
    exact (busy_startRun_le waits throws other).trans (steady.busy other)
  · rw [holds, holders]
    exact steady.counted
  · intro resolved
    rw [holders] at resolved
    exact absurd waits (by rw [(steady.quiet resolved).1]; exact List.not_mem_nil)

theorem Steady.leaves (steady : Steady s) {run : HandlerRun} (runs : run ∈ s.handlerRuns) :
    Steady { s with handlerRuns := s.handlerRuns.erase run } ∧
      { s with handlerRuns := s.handlerRuns.erase run }.busy run.hook = 0 := by
  have fewer : ∀ hook, ((s.handlerRuns.erase run).map HandlerRun.hook).count hook ≤
      (s.handlerRuns.map HandlerRun.hook).count hook :=
    fun hook => List.Sublist.count_le _ (List.Sublist.map _ List.erase_sublist)
  refine ⟨⟨?_, steady.counted, ?_⟩, ?_⟩
  · intro hook
    exact (Nat.add_le_add_left (fewer hook) _).trans (steady.busy hook)
  · intro resolved
    exact absurd runs (by rw [(steady.quiet resolved).2]; exact List.not_mem_nil)
  · have all := (List.perm_cons_erase runs).map HandlerRun.hook
    have counts := all.count_eq run.hook
    rw [List.map_cons, List.count_cons_self] at counts
    have most := (steady.busy run.hook).trans (Bool.toNat_le _)
    simp only [State.busy] at most ⊢
    omega

theorem Steady.settle (steady : Steady s) {run : HandlerRun} (runs : run ∈ s.handlerRuns)
    (outcome : Outcome) :
    Steady (s.settle run outcome) := by
  obtain ⟨left, idle⟩ := steady.leaves runs
  unfold State.settle
  dsimp only
  split
  · exact (left.updateGeneration _).finish idle
  · split
    · exact (left.updateGeneration _).finish idle
    · split
      · exact left.finish idle
      · exact left

theorem Steady.release (steady : Steady s) (holder : Nat) : Steady (s.release holder) := by
  unfold State.release
  split
  · rename_i resolved
    obtain ⟨inside, isIt⟩ := List.getElem?_eq_some_iff.mp resolved
    have quiet := steady.quiet (isIt ▸ List.getElem_mem inside)
    have released : Steady { s with holders := s.holders.set holder .released, holds :=
      s.holds - 1 } := by
      refine ⟨steady.busy, ?_, fun _ => quiet⟩
      dsimp only
      rw [steady.counted, List.countP_set inside, isIt]
      simp
    dsimp only
    split
    · exact released
    · exact firePending_keeps Steady (fun s hook steady => steady.fireHook hook) released
  · exact steady

theorem not_running_of_possible {holder : Nat} (possible : s.Possible (.holdResolves holder))
    (hook : Hook) :
    (s.hooks hook).running = false := possible.2 hook (mem_hookOrder hook)

theorem Steady.holdResolves (steady : Steady s) {holder : Nat}
    (possible : s.Possible (.holdResolves holder)) :
    Steady (s.holdResolves holder) := by
  obtain ⟨inside, isIt⟩ := List.getElem?_eq_some_iff.mp possible.1
  have none : ∀ hook, s.busy hook = 0 := by
    intro hook
    have most := steady.busy hook
    rw [not_running_of_possible possible hook] at most
    exact Nat.le_zero.mp most
  refine ⟨steady.busy, ?_, ?_⟩
  · unfold State.holdResolves
    dsimp only
    rw [steady.counted, List.countP_set inside, isIt]
    have positive : 0 < s.holders.countP (· ≠ .released) :=
      List.countP_pos_iff.mpr ⟨.waiting, isIt ▸ List.getElem_mem inside, by decide⟩
    simp only [ne_eq, reduceCtorEq, not_false_eq_true, decide_true, if_true] at positive ⊢
    omega
  · intro _
    refine ⟨List.eq_nil_iff_forall_not_mem.mpr ?_, List.eq_nil_iff_forall_not_mem.mpr ?_⟩
    · intro hook waits
      have positive := List.count_pos_iff.mpr waits
      exact absurd (none hook) (Nat.add_pos_left positive _).ne'
    · intro run runs
      have positive := List.count_pos_iff.mpr (List.mem_map_of_mem (f := HandlerRun.hook) runs)
      exact absurd (none run.hook) (Nat.add_pos_right _ positive).ne'

theorem Steady.apply (steady : Steady s) {event : Event} (possible : s.Possible event) :
    Steady (s.apply event) := by
  cases event with
  | requestFinished queue statusCode enqueueThrows =>
    exact requestFinished_keeps Steady (fun s hook steady => steady.register hook) queue statusCode
      enqueueThrows steady
  | queueRegen hook => exact steady.register hook
  | resumePendingRegeneration =>
    exact resumePendingRegeneration_keeps Steady (fun s hook steady => steady.fireHook hook) steady
  | microtask hook throws => exact steady.startRun possible throws
  | settled run outcome => exact steady.settle possible outcome
  | holdHooks =>
    refine ⟨steady.busy, ?_, ?_⟩
    · simp only [State.apply, State.holdHooks, List.countP_append, steady.counted]
      rfl
    · intro resolved
      rcases List.mem_append.mp resolved with old | new
      · exact steady.quiet old
      · cases List.mem_singleton.mp new
  | holdResolves holder => exact steady.holdResolves possible
  | release holder => exact steady.release holder
  | other => exact steady

/-! ## A hook that was asked for -/

/-- A pending hook has someone who will fire it: its run, or the last release. -/
def Waits (s : State) (hook : Hook) : Prop :=
  (s.hooks hook).pending = true → (s.hooks hook).running = true ∨ 0 < s.holds

/-- A hook that is `running` has a microtask or a handler under way. -/
def Works (s : State) (hook : Hook) : Prop := (s.hooks hook).running = true → 0 < s.busy hook

/-- A run of the hook is still to start. -/
def Due (s : State) (hook : Hook) : Prop := hook ∈ s.microtasks ∨ (s.hooks hook).pending = true

theorem waits_fireHook (s : State) (hook : Hook) : (s.fireHook hook).Waits hook := by
  rcases fireHook_cases s hook with ⟨deferred, fired⟩ | ⟨_, _, fired⟩
  · intro _
    rw [fired, setHook_self]
    exact deferred
  · intro pending
    rw [fired] at pending
    exact absurd (pending.symm.trans (congrArg HookState.pending (setHook_self (s := s) _)))
      (by decide)

theorem Waits.fireHook (waits : s.Waits hook) (other : Hook) : (s.fireHook other).Waits hook := by
  by_cases same : hook = other
  · exact same ▸ waits_fireHook s hook
  · unfold Waits at waits ⊢
    rw [fireHook_hooks_of_ne same, fireHook_holds]
    exact waits

theorem Waits.setHook (waits : s.Waits hook) {other : Hook} (distinct : hook ≠ other)
    (flags : HookState) :
    (s.setHook other flags).Waits hook := by
  unfold Waits at waits ⊢
  rw [setHook_of_ne distinct]
  exact waits

theorem Waits.finish (waits : ∀ hook, s.Waits hook) (hook other : Hook) :
    (s.finish hook).Waits other := by
  unfold State.finish
  dsimp only
  split
  · by_cases same : other = hook
    · exact same ▸ waits_fireHook _ _
    · exact ((waits other).setHook same _).fireHook hook
  · rename_i quiet
    by_cases same : other = hook
    · subst same
      exact fun pending => absurd pending quiet
    · exact (waits other).setHook same _

theorem waits_firePending (released : s.holds = 0) (hook : Hook) : s.firePending.Waits hook := by
  -- a hook that is not pending, or runs, stays so while others are fired, and firing makes it so
  have settles : ∀ order : List Hook, ∀ s : State, s.holds = 0 → (hook ∈ order ∨ s.Waits hook) →
      (order.foldl (fun s hook => if (s.hooks hook).pending then s.fireHook hook else s) s).Waits
      hook := by
    intro order
    induction order with
    | nil => exact fun s _ waits => waits.resolve_left List.not_mem_nil
    | cons first rest ih =>
      intro s none waits
      refine ih _ ?_ ?_
      · dsimp only
        split
        · rw [fireHook_holds]
          exact none
        · exact none
      · dsimp only
        by_cases same : hook = first
        · subst same
          right
          split
          · exact waits_fireHook s hook
          · rename_i quiet
            exact fun pending => absurd pending quiet
        · rcases waits with inside | waits
          · exact .inl ((List.mem_cons.mp inside).resolve_left same)
          · right
            split
            · exact waits.fireHook first
            · exact waits
  exact settles hookOrder s released (.inl (mem_hookOrder hook))

theorem Waits.updateGeneration (waits : s.Waits hook) (other : Hook) (update : Generation →
    Generation) :
    (s.updateGeneration other update).Waits hook := waits

theorem Waits.apply (waits : ∀ hook, s.Waits hook) (event : Event) (hook : Hook) :
    (s.apply event).Waits hook := by
  cases event with
  | requestFinished queue statusCode enqueueThrows =>
    exact requestFinished_keeps (fun s => s.Waits hook)
      (fun s other waits => (waits.updateGeneration other _).fireHook other) queue statusCode
      enqueueThrows (waits hook)
  | queueRegen other => exact ((waits hook).updateGeneration other _).fireHook other
  | resumePendingRegeneration =>
    exact resumePendingRegeneration_keeps (fun s => s.Waits hook)
      (fun s other waits => waits.fireHook other) (waits hook)
  | microtask other throws => cases throws <;> exact waits hook
  | settled run outcome =>
    have left : ∀ hook, Waits { s with handlerRuns := s.handlerRuns.erase run } hook := waits
    simp only [State.apply, State.settle]
    split
    · exact Waits.finish (fun hook => (left hook).updateGeneration run.hook _) run.hook hook
    · split
      · exact Waits.finish (fun hook => (left hook).updateGeneration run.hook _) run.hook hook
      · split
        · exact Waits.finish left run.hook hook
        · exact left hook
  | holdHooks => exact fun _ => .inr (Nat.succ_pos _)
  | holdResolves holder => exact waits hook
  | release holder =>
    simp only [State.apply, State.release]
    split
    · split
      · rename_i held
        exact fun _ => .inr held
      · rename_i released
        exact waits_firePending (Nat.eq_zero_of_not_pos released) hook
    · exact waits hook
  | other => exact waits hook

theorem Works.fireHook (works : s.Works hook) (other : Hook) : (s.fireHook other).Works hook := by
  rcases fireHook_cases s other with ⟨_, fired⟩ | ⟨_, _, fired⟩
  · rw [fired]
    intro running
    refine works ?_
    by_cases same : hook = other
    · subst same
      rw [setHook_self] at running
      exact running
    · rw [setHook_of_ne same] at running
      exact running
  · rw [fired]
    intro running
    rw [busy_fired]
    by_cases same : other = hook
    · rw [if_pos same]
      exact Nat.succ_pos _
    · rw [if_neg same]
      have unchanged := congrArg HookState.running (setHook_of_ne (s := s) (Ne.symm same)
        { running := true, pending := false })
      exact works (unchanged.symm.trans running)

theorem Works.finish (works : other ≠ hook → s.Works other) : (s.finish hook).Works other := by
  have rests : (s.setHook hook { s.hooks hook with running := false }).Works other := by
    intro running
    by_cases same : other = hook
    · subst same
      rw [setHook_self] at running
      cases running
    · rw [setHook_of_ne same] at running
      exact works same running
  unfold State.finish
  dsimp only
  split
  · exact rests.fireHook hook
  · exact rests

theorem due_fireHook (s : State) (hook : Hook) : (s.fireHook hook).Due hook := by
  rcases fireHook_cases s hook with ⟨_, fired⟩ | ⟨_, _, fired⟩
  · rw [fired]
    refine .inr ?_
    rw [setHook_self]
  · rw [fired]
    exact .inl (List.mem_append_right _ (List.mem_singleton_self hook))

theorem Due.fireHook (due : s.Due hook) (other : Hook) : (s.fireHook other).Due hook := by
  by_cases same : hook = other
  · exact same ▸ due_fireHook s hook
  · rcases due with waits | pending
    · left
      rcases fireHook_cases s other with ⟨_, fired⟩ | ⟨_, _, fired⟩
      · rw [fired]
        exact waits
      · rw [fired]
        exact List.mem_append_left _ waits
    · right
      rw [fireHook_hooks_of_ne same]
      exact pending

theorem Due.finish (due : s.Due hook) (other : Hook) : (s.finish other).Due hook := by
  have rests : (s.setHook other { s.hooks other with running := false }).Due hook := by
    refine due.imp_right ?_
    intro pending
    by_cases same : hook = other
    · subst same
      rw [setHook_self]
      exact pending
    · rw [setHook_of_ne same]
      exact pending
  unfold State.finish
  dsimp only
  split
  · exact rests.fireHook other
  · exact rests

/-! ## When nothing that is not guarded throws -/

/-- `enqueueGeneration` does not throw in a request that asks for its hook, `markApplying`
does not throw, `markFailed` does not throw after a handler without a promise, and no
handler runs when `resumePendingRegeneration` is called. -/
def Unbroken (s : State) : Event → Prop
  | .requestFinished queue statusCode enqueueThrows => statusCode < 400 → ∀ hook ∈ queue,
      enqueueThrows ≠ some hook
  | .microtask _ markApplyingThrows => markApplyingThrows = false
  | .settled _ outcome => (outcome.promised || outcome.applies || !outcome.markFailedThrows) = true
  | .resumePendingRegeneration => s.handlerRuns = []
  | _ => True

theorem settle_of_unbroken {run : HandlerRun} {outcome : Outcome}
    (unbroken : s.Unbroken (.settled run outcome)) : ∃ update, s.settle run outcome =
      ({ s with handlerRuns := s.handlerRuns.erase run }.updateGeneration run.hook update).finish
      run.hook := by
  have same : ∀ s : State, s.updateGeneration run.hook (fun row => row) = s := by
    intro s
    unfold updateGeneration
    rw [Function.update_eq_self]
  unfold settle
  dsimp only
  split
  · exact ⟨_, rfl⟩
  · rename_i fails
    split
    · exact ⟨_, rfl⟩
    · rename_i throws
      have promised : outcome.promised = true := by
        have some_holds : (outcome.promised || outcome.applies || !outcome.markFailedThrows) =
            true := unbroken
        simpa [fails, throws] using some_holds
      rw [if_pos promised]
      exact ⟨fun row => row, by rw [same]⟩

theorem busy_erase_of_ne {run : HandlerRun} (distinct : hook ≠ run.hook) :
    { s with handlerRuns := s.handlerRuns.erase run }.busy hook = s.busy hook := by
  by_cases runs : run ∈ s.handlerRuns
  · have counts := ((List.perm_cons_erase runs).map HandlerRun.hook).count_eq hook
    rw [List.map_cons, List.count_cons_of_ne (Ne.symm distinct)] at counts
    simp only [State.busy]
    omega
  · rw [List.erase_of_not_mem runs]

theorem Works.apply (works : ∀ hook, s.Works hook) {event : Event} (possible : s.Possible event)
    (unbroken : s.Unbroken event) (hook : Hook) : (s.apply event).Works hook := by
  have registers : ∀ s other, Works s hook → (s.register other).Works hook := by
    intro s other works
    exact Works.fireHook (s := s.updateGeneration other Generation.enqueue) works other
  cases event with
  | requestFinished queue statusCode enqueueThrows =>
    exact requestFinished_keeps (fun s => s.Works hook) registers queue statusCode enqueueThrows
      (works hook)
  | queueRegen other => exact registers s other (works hook)
  | resumePendingRegeneration =>
    exact resumePendingRegeneration_keeps (fun s => s.Works hook)
      (fun s other works => works.fireHook other) (works hook)
  | microtask other throws =>
    obtain rfl : throws = false := unbroken
    intro running
    rw [State.apply, busy_startRun possible]
    exact works hook running
  | settled run outcome =>
    obtain ⟨update, settled⟩ := settle_of_unbroken unbroken
    rw [State.apply, settled]
    refine Works.finish ?_
    intro distinct running
    have same : { s with handlerRuns := s.handlerRuns.erase run }.busy hook = s.busy hook :=
      busy_erase_of_ne distinct
    exact (works hook running).trans_eq same.symm
  | holdHooks => exact works hook
  | holdResolves holder => exact works hook
  | release holder =>
    simp only [State.apply, State.release]
    split
    · split
      · exact works hook
      · exact firePending_keeps (fun s => s.Works hook)
          (fun s other works => works.fireHook other) (works hook)
    · exact works hook
  | other => exact works hook

theorem Due.apply (due : s.Due hook) {event : Event} (unbroken : s.Unbroken event)
    (notStarted : event ≠ .microtask hook false) : (s.apply event).Due hook := by
  have registers : ∀ s other, Due s hook → (s.register other).Due hook := by
    intro s other due
    exact Due.fireHook (s := s.updateGeneration other Generation.enqueue) due other
  cases event with
  | requestFinished queue statusCode enqueueThrows =>
    exact requestFinished_keeps (fun s => s.Due hook) registers queue statusCode enqueueThrows due
  | queueRegen other => exact registers s other due
  | resumePendingRegeneration =>
    exact resumePendingRegeneration_keeps (fun s => s.Due hook)
      (fun s other due => due.fireHook other) due
  | microtask other throws =>
    obtain rfl : throws = false := unbroken
    refine due.imp_left ?_
    intro waits
    have distinct : hook ≠ other := fun same => notStarted (by rw [same])
    exact (List.mem_erase_of_ne distinct).mpr waits
  | settled run outcome =>
    obtain ⟨update, settled⟩ := settle_of_unbroken unbroken
    rw [State.apply, settled]
    exact Due.finish (s := { s with handlerRuns := s.handlerRuns.erase run }.updateGeneration
      run.hook update) due run.hook
  | holdHooks => exact due
  | holdResolves holder => exact due
  | release holder =>
    simp only [State.apply, State.release]
    split
    · split
      · exact due
      · exact firePending_keeps (fun s => s.Due hook) (fun s other due => due.fireHook other) due
    · exact due
  | other => exact due

theorem due_register (s : State) (hook : Hook) : (s.register hook).Due hook := due_fireHook _ hook

theorem due_registerAll {queue : List Hook} {enqueueThrows : Option Hook} (asked : hook ∈ queue)
    (works : ∀ hook ∈ queue, enqueueThrows ≠ some hook) {order : List Hook}
    (inside : hook ∈ order) :
    (s.registerAll queue enqueueThrows order).Due hook := by
  have registers : ∀ s other, Due s hook → (s.register other).Due hook := by
    intro s other due
    exact Due.fireHook (s := s.updateGeneration other Generation.enqueue) due other
  induction order generalizing s with
  | nil => cases inside
  | cons first rest ih =>
    unfold registerAll
    by_cases same : hook = first
    · subst same
      rw [if_pos asked, if_neg (works hook asked)]
      exact registerAll_keeps (fun s => s.Due hook) registers queue enqueueThrows rest
        (due_register s hook)
    · have later := (List.mem_cons.mp inside).resolve_left same
      split
      · rename_i queued
        rw [if_neg (works first queued)]
        exact ih later
      · exact ih later

theorem due_resume (needs : (s.generations hook).needsRun) :
    s.resumePendingRegeneration.Due hook := by
  have fires : ∀ order : List Hook, ∀ s : State, (s.generations hook).needsRun →
      (hook ∈ order ∨ s.Due hook) →
      (order.foldl (fun s hook => if (s.generations hook).needsRun then s.fireHook hook else s)
      s).Due hook := by
    intro order
    induction order with
    | nil => exact fun s _ due => due.resolve_left List.not_mem_nil
    | cons first rest ih =>
      intro s needs due
      refine ih _ ?_ ?_
      · dsimp only
        split
        · rw [fireHook_generations]
          exact needs
        · exact needs
      · dsimp only
        by_cases same : hook = first
        · subst same
          rw [if_pos needs]
          exact .inr (due_fireHook s hook)
        · rcases due with inside | due
          · exact .inl ((List.mem_cons.mp inside).resolve_left same)
          · right
            split
            · exact due.fireHook first
            · exact due
  refine fires listGenerations s needs (.inl ?_)
  cases hook <;> decide

theorem due_of_registers {event : Event} (registers : s.Registers event hook)
    (unbroken : s.Unbroken event) :
    (s.apply event).Due hook := by
  cases event with
  | requestFinished queue statusCode enqueueThrows =>
    obtain ⟨successful, asked⟩ := registers
    simp only [State.apply, State.requestFinished, Nat.not_le.mpr successful, if_false]
    exact due_registerAll asked (unbroken successful) (mem_hookOrder hook)
  | queueRegen asked =>
    obtain rfl : asked = hook := registers
    exact due_register s asked
  | resumePendingRegeneration => exact due_resume registers
  | microtask _ _ => cases registers
  | settled _ _ => cases registers
  | holdHooks => cases registers
  | holdResolves _ => cases registers
  | release _ => cases registers
  | other => cases registers

/-! ## What becomes of the rows -/

theorem updateGeneration_self (update : Generation → Generation) :
    (s.updateGeneration hook update).generations hook = update (s.generations hook) := by
  unfold updateGeneration
  exact Function.update_self hook _ s.generations

theorem updateGeneration_of_ne (distinct : other ≠ hook) (update : Generation → Generation) :
    (s.updateGeneration hook update).generations other = s.generations other := by
  unfold updateGeneration
  exact Function.update_of_ne distinct _ s.generations

theorem register_generations_self : (s.register hook).generations hook =
    (s.generations hook).enqueue := by
  unfold register
  rw [fireHook_generations, updateGeneration_self]

theorem register_generations_of_ne (distinct : other ≠ hook) :
    (s.register hook).generations other = s.generations other := by
  unfold register
  rw [fireHook_generations, updateGeneration_of_ne distinct]

theorem resume_generations : s.resumePendingRegeneration.generations = s.generations :=
  resumePendingRegeneration_keeps (fun later => later.generations = s.generations)
    (fun _ _ same => fireHook_generations.trans same) rfl

theorem firePending_generations : s.firePending.generations = s.generations :=
  firePending_keeps (fun later => later.generations = s.generations)
    (fun _ _ same => fireHook_generations.trans same) rfl

theorem firePending_handlerRuns : s.firePending.handlerRuns = s.handlerRuns :=
  firePending_keeps (fun later => later.handlerRuns = s.handlerRuns)
    (fun _ _ same => fireHook_handlerRuns.trans same) rfl

theorem registerAll_generations_of_not_mem {queue : List Hook} {enqueueThrows : Option Hook}
    {order : List Hook} (absent : hook ∉ queue ∨ hook ∉ order) :
    (s.registerAll queue enqueueThrows order).generations hook = s.generations hook := by
  induction order generalizing s with
  | nil => rfl
  | cons first rest ih =>
    have later : hook ∉ queue ∨ hook ∉ rest := absent.imp_right fun out inside =>
      out (List.mem_cons_of_mem _ inside)
    unfold registerAll
    split
    · rename_i queued
      have distinct : hook ≠ first := by
        rintro rfl
        rcases absent with out | out
        · exact out queued
        · exact out List.mem_cons_self
      split
      · rfl
      · rw [ih later, register_generations_of_ne distinct]
    · exact ih later

theorem registerAll_generations {queue : List Hook} {enqueueThrows : Option Hook}
    (asked : hook ∈ queue) (works : ∀ hook ∈ queue, enqueueThrows ≠ some hook) {order : List Hook}
    (inside : hook ∈ order) (distinct : order.Nodup) :
    (s.registerAll queue enqueueThrows order).generations hook = (s.generations hook).enqueue := by
  induction order generalizing s with
  | nil => cases inside
  | cons first rest ih =>
    obtain ⟨once, distinct⟩ := List.nodup_cons.mp distinct
    unfold registerAll
    by_cases same : hook = first
    · subst same
      rw [if_pos asked, if_neg (works hook asked), registerAll_generations_of_not_mem (.inr once),
        register_generations_self]
    · have later := (List.mem_cons.mp inside).resolve_left same
      split
      · rename_i queued
        rw [if_neg (works first queued), ih later distinct, register_generations_of_ne same]
      · exact ih later distinct

/-- What an event does to a hook's row: a registration by a request or by `queueRegen`
enqueues it, the hook's own run marks it, and nothing else touches it. -/
theorem generations_apply {event : Event} (unbroken : s.Unbroken event) (hook : Hook) :
    (s.Registers event hook ∧ event ≠ .resumePendingRegeneration ∧
      (s.apply event).generations hook = (s.generations hook).enqueue) ∨
    (event = .microtask hook false ∧ (s.apply event).generations hook =
    (s.generations hook).markApplying) ∨
      (∃ run outcome, event = .settled run outcome ∧ run.hook = hook ∧
        ((outcome.applies = true ∧ (s.apply event).generations hook =
          (s.generations hook).markApplied run.generation) ∨
          (outcome.applies = false ∧
          ((s.apply event).generations hook = (s.generations hook).markFailed ∨
          (s.apply event).generations hook = s.generations hook)))) ∨
    ((s.apply event).generations hook = s.generations hook ∧
      (s.Registers event hook → event = .resumePendingRegeneration) ∧
      ∀ run outcome, event = .settled run outcome → run.hook ≠ hook) := by
  cases event with
  | requestFinished queue statusCode enqueueThrows =>
    by_cases failed : 400 ≤ statusCode
    · refine .inr (.inr (.inr ⟨?_, fun registers => absurd registers.1 (Nat.not_lt.mpr failed),
        nofun⟩))
      simp only [apply, requestFinished, failed, if_true]
    by_cases asked : hook ∈ queue
    · refine .inl ⟨⟨Nat.lt_of_not_le failed, asked⟩, nofun, ?_⟩
      simp only [apply, requestFinished, failed, if_false]
      exact registerAll_generations asked (unbroken (Nat.lt_of_not_le failed))
        (mem_hookOrder hook) (by decide)
    · refine .inr (.inr (.inr ⟨?_, fun registers => absurd registers.2 asked, nofun⟩))
      simp only [apply, requestFinished, failed, if_false]
      exact registerAll_generations_of_not_mem (.inl asked)
  | queueRegen asked =>
    by_cases same : hook = asked
    · subst same
      exact .inl ⟨rfl, nofun, register_generations_self⟩
    · exact .inr (.inr (.inr ⟨register_generations_of_ne same, fun isIt => absurd isIt.symm same,
        nofun⟩))
  | resumePendingRegeneration =>
    exact .inr (.inr (.inr ⟨congrFun resume_generations hook, fun _ => rfl, nofun⟩))
  | microtask started throws =>
    obtain rfl : throws = false := unbroken
    by_cases same : hook = started
    · subst same
      exact .inr (.inl ⟨rfl, updateGeneration_self _⟩)
    · exact .inr (.inr (.inr ⟨updateGeneration_of_ne same _, nofun, nofun⟩))
  | settled run outcome =>
    by_cases same : hook = run.hook
    · subst same
      refine .inr (.inr (.inl ⟨run, outcome, rfl, rfl, ?_⟩))
      by_cases applies : outcome.applies = true
      · refine .inl ⟨applies, ?_⟩
        simp only [apply, settle, applies, if_true, finish_generations]
        exact updateGeneration_self _
      · refine .inr ⟨by simpa using applies, ?_⟩
        simp only [apply, settle, applies, Bool.false_eq_true, if_false]
        split
        · rw [finish_generations]
          exact .inl (updateGeneration_self _)
        · split
          · rw [finish_generations]
            exact .inr rfl
          · exact .inr rfl
    · refine .inr (.inr (.inr ⟨?_, nofun, ?_⟩))
      · obtain ⟨update, settled⟩ := settle_of_unbroken unbroken
        rw [apply, settled, finish_generations]
        exact updateGeneration_of_ne same _
      · rintro settled _ ⟨⟩
        exact Ne.symm same
  | holdHooks => exact .inr (.inr (.inr ⟨rfl, nofun, nofun⟩))
  | holdResolves holder => exact .inr (.inr (.inr ⟨rfl, nofun, nofun⟩))
  | release holder =>
    refine .inr (.inr (.inr ⟨?_, nofun, nofun⟩))
    simp only [apply, release]
    split
    · split
      · rfl
      · rw [firePending_generations]
    · rfl
  | other => exact .inr (.inr (.inr ⟨rfl, nofun, nofun⟩))

theorem desired_apply_le {event : Event} (unbroken : s.Unbroken event) (hook : Hook) :
    (s.generations hook).desired ≤ ((s.apply event).generations hook).desired := by
  rcases generations_apply unbroken hook with
    ⟨_, _, enqueued⟩ | ⟨_, marked⟩ | ⟨_, _, _, _, ⟨_, marked⟩ | ⟨_, marked | marked⟩⟩ | ⟨same, _, _⟩
  · rw [enqueued]
    exact Nat.le_succ _
  · rw [marked]
    exact le_refl _
  · rw [marked]
    exact le_refl _
  · rw [marked]
    exact le_refl _
  · rw [marked]
  · rw [same]

theorem desired_lt_apply {event : Event} (unbroken : s.Unbroken event)
    (registers : s.Registers event hook) (live : event ≠ .resumePendingRegeneration) :
    (s.generations hook).desired < ((s.apply event).generations hook).desired := by
  rcases generations_apply unbroken hook with
    ⟨_, _, enqueued⟩ | ⟨started, _⟩ | ⟨_, _, settled, _⟩ | ⟨_, resumed, _⟩
  · rw [enqueued]
    exact Nat.lt_succ_self _
  · rw [started] at registers
    cases registers
  · rw [settled] at registers
    cases registers
  · exact absurd (resumed registers) live

/-- A handler that runs ran before, or its microtask has just come. -/
theorem mem_handlerRuns_apply {event : Event} {run : HandlerRun}
    (runs : run ∈ (s.apply event).handlerRuns) :
    run ∈ s.handlerRuns ∨ (event = .microtask run.hook false ∧
      run.generation = ((s.apply event).generations run.hook).desired) := by
  cases event with
  | requestFinished queue statusCode enqueueThrows =>
    have same : (s.requestFinished queue statusCode enqueueThrows).handlerRuns = s.handlerRuns :=
      requestFinished_keeps (fun later => later.handlerRuns = s.handlerRuns)
        (fun _ _ same => fireHook_handlerRuns.trans same) queue statusCode enqueueThrows rfl
    exact .inl (same ▸ runs)
  | queueRegen asked =>
    have same : (s.register asked).handlerRuns = s.handlerRuns := fireHook_handlerRuns
    exact .inl (same ▸ runs)
  | resumePendingRegeneration =>
    have same : s.resumePendingRegeneration.handlerRuns = s.handlerRuns :=
      resumePendingRegeneration_keeps (fun later => later.handlerRuns = s.handlerRuns)
        (fun _ _ same => fireHook_handlerRuns.trans same) rfl
    exact .inl (same ▸ runs)
  | microtask started throws =>
    cases throws with
    | true => exact .inl runs
    | false =>
      rcases List.mem_append.mp runs with old | new
      · exact .inl old
      · obtain rfl := List.mem_singleton.mp new
        exact .inr ⟨rfl, rfl⟩
  | settled settledRun outcome =>
    have fewer : run ∈ s.handlerRuns.erase settledRun := by
      simp only [apply, settle] at runs
      split at runs
      · rwa [finish_handlerRuns] at runs
      · split at runs
        · rwa [finish_handlerRuns] at runs
        · split at runs
          · rwa [finish_handlerRuns] at runs
          · exact runs
    exact .inl (List.mem_of_mem_erase fewer)
  | holdHooks => exact .inl runs
  | holdResolves holder => exact .inl runs
  | release holder =>
    simp only [apply, release] at runs
    split at runs
    · split at runs
      · exact .inl runs
      · rw [firePending_handlerRuns] at runs
        exact .inl runs
    · exact .inl runs
  | other => exact .inl runs

theorem settled_leaves (steady : Steady s) {run : HandlerRun} (runs : run ∈ s.handlerRuns)
    {outcome : Outcome} (unbroken : s.Unbroken (.settled run outcome)) :
    ∀ other ∈ (s.settle run outcome).handlerRuns, other.hook ≠ run.hook := by
  obtain ⟨_, idle⟩ := steady.leaves runs
  obtain ⟨update, settled⟩ := settle_of_unbroken unbroken
  intro other member same
  rw [settled, finish_handlerRuns] at member
  have positive := List.count_pos_iff.mpr (List.mem_map_of_mem (f := HandlerRun.hook) member)
  rw [same] at positive
  exact absurd idle (Nat.add_pos_right _ positive).ne'

end Fire

end State

/-! ## The guarantees -/

/-- No two runs of a hook overlap. -/
def SingleFlight (execution : Execution machine) : Prop :=
  ∀ n hook, ((execution.state n).handlerRuns.map HandlerRun.hook).count hook ≤ 1

/-- No hook starts, or runs, while a caller of `holdHooks` has the release. -/
def RespectsHolds (execution : Execution machine) : Prop :=
  ∀ n, .resolved ∈ (execution.state n).holders →
    (∀ hook throws, execution.event n ≠ .microtask hook throws) ∧
    (execution.state n).handlerRuns = []

/-- Microtasks come, handlers settle, and there are times at which all holds are released. -/
structure Fair (execution : Execution machine) : Prop where
  microtasks : ∀ n, ∀ hook ∈ (execution.state n).microtasks, ∃ m, n ≤ m ∧
    ∃ throws, execution.event m = .microtask hook throws
  handlers : ∀ n, ∀ run ∈ (execution.state n).handlerRuns, ∃ m, n ≤ m ∧
    ∃ outcome, execution.event m = .settled run outcome
  releases : ∀ n, ∃ m, n ≤ m ∧ ∀ hold ∈ (execution.state m).holders, hold = .released

/-- Every registration is followed by the start of a run. -/
def FollowsUp (execution : Execution machine) : Prop :=
  ∀ n hook, (execution.state n).Registers (execution.event n) hook →
    ∃ m, n < m ∧ execution.event m = .microtask hook false

/-- Whenever a row says `applied`, a run that started after every registration of its hook
has succeeded. -/
def StatusTruthful (execution : Execution machine) : Prop :=
  ∀ n hook, ((execution.state n).generations hook).status = .applied →
    ∀ i, i < n → (execution.state i).Registers (execution.event i) hook →
      ∃ j k run outcome, i < j ∧ j < k ∧ k < n ∧ execution.event j = .microtask hook false ∧
        (∀ l, j < l → l < k → execution.event l ≠ .microtask hook false) ∧
        execution.event k = .settled run outcome ∧ run.hook = hook ∧ outcome.succeeded = true

section Guarantees

variable (execution : Execution machine)

theorem steady (n : ℕ) : State.Steady (execution.state n) := by
  refine execution.always State.Steady ?_ ?_ n
  · rintro _ ⟨generations, rfl⟩
    exact ⟨fun _ => le_refl 0, rfl, nofun⟩
  · exact fun n now => now.apply (execution.possible n)

theorem waits (n : ℕ) (hook : Hook) : (execution.state n).Waits hook := by
  refine execution.always (fun s => ∀ hook, s.Waits hook) ?_ ?_ n hook
  · rintro _ ⟨generations, rfl⟩ hook pending
    cases pending
  · exact fun n now hook => State.Waits.apply now (execution.event n) hook

/-- **No two runs of a hook overlap, whatever throws.** -/
theorem singleFlight : SingleFlight execution := by
  intro n hook
  have most := ((steady execution n).busy hook).trans (Bool.toNat_le _)
  exact (Nat.le_add_left _ _).trans most

theorem respectsHolds : RespectsHolds execution := by
  intro n resolved
  have quiet := (steady execution n).quiet resolved
  refine ⟨?_, quiet.2⟩
  intro hook throws started
  have possible := execution.possible n
  rw [started] at possible
  have waiting : hook ∈ (execution.state n).microtasks := possible
  rw [quiet.1] at waiting
  cases waiting

variable {execution}
variable (unbroken : ∀ n, (execution.state n).Unbroken (execution.event n))

include unbroken

theorem works (n : ℕ) (hook : Hook) : (execution.state n).Works hook := by
  refine execution.always (fun s => ∀ hook, s.Works hook) ?_ ?_ n hook
  · rintro _ ⟨generations, rfl⟩ hook running
    cases running
  · exact fun n now hook => State.Works.apply now (execution.possible n) (unbroken n) hook

theorem eventually_idle (fair : Fair execution) {start : ℕ} {hook : Hook}
    (never : ∀ n, start ≤ n → execution.event n ≠ .microtask hook false) :
    ∃ n, start ≤ n ∧ ∀ m, n ≤ m → ∀ run ∈ (execution.state m).handlerRuns, run.hook ≠ hook := by
  have stays : ∀ n, start ≤ n → (∀ run ∈ (execution.state n).handlerRuns, run.hook ≠ hook) →
      ∀ m, n ≤ m → ∀ run ∈ (execution.state m).handlerRuns, run.hook ≠ hook := by
    intro n later none m after
    refine execution.holds_until (fun s => ∀ run ∈ s.handlerRuns, run.hook ≠ hook)
      (fun _ => False) none ?_ after fun _ _ _ => id
    intro k past _ none run runs
    rcases State.mem_handlerRuns_apply runs with old | ⟨started, _⟩
    · exact none run old
    · rintro rfl
      exact never k (later.trans past) started
  by_cases idle : ∀ run ∈ (execution.state start).handlerRuns, run.hook ≠ hook
  · exact ⟨start, le_refl start, stays start (le_refl start) idle⟩
  · push Not at idle
    obtain ⟨run, runs, rfl⟩ := idle
    obtain ⟨m, later, outcome, settled⟩ := fair.handlers start run runs
    have possible := execution.possible m
    have guarded := unbroken m
    rw [settled] at possible guarded
    refine ⟨m + 1, later.trans (Nat.le_succ m), stays (m + 1) (later.trans (Nat.le_succ m)) ?_⟩
    rw [execution.next, settled]
    exact State.settled_leaves (steady execution m) possible guarded

/-- As long as no run starts the hook stays due, and then neither a microtask nor a run nor
a hold is left that could keep it from starting. -/
theorem followsUp (fair : Fair execution) : FollowsUp execution := by
  intro n hook registers
  by_contra noRun
  push Not at noRun
  have never : ∀ m, n + 1 ≤ m → execution.event m ≠ .microtask hook false :=
    fun m later => noRun m later
  have due : ∀ m, n + 1 ≤ m → (execution.state m).Due hook := by
    intro m later
    refine execution.holds_until (fun s => s.Due hook)
      (fun k => execution.event k = .microtask hook false) ?_ ?_ later fun k past _ => never k past
    · rw [execution.next]
      exact State.due_of_registers registers (unbroken n)
    · intro k _ notStarted due
      exact due.apply (unbroken k) notStarted
  have pending : ∀ m, n + 1 ≤ m → hook ∉ (execution.state m).microtasks := by
    intro m later queued
    obtain ⟨k, past, throws, started⟩ := fair.microtasks m hook queued
    have guarded := unbroken k
    rw [started] at guarded
    obtain rfl : throws = false := guarded
    exact never k (later.trans past) started
  obtain ⟨quiet, afterwards, idle⟩ := eventually_idle unbroken fair never
  obtain ⟨m, later, released⟩ := fair.releases quiet
  have from_start := afterwards.trans later
  have free : (execution.state m).holds = 0 := by
    rw [(steady execution m).counted, List.countP_eq_zero]
    intro hold member
    simp [released hold member]
  have asked := (due m from_start).resolve_left (pending m from_start)
  have running := (waits execution m hook asked).resolve_right (free ▸ Nat.lt_irrefl 0)
  have busy := works unbroken m hook running
  rcases Nat.add_pos_iff_pos_or_pos.mp busy with queued | runs
  · exact pending m from_start (List.count_pos_iff.mp queued)
  · obtain ⟨run, member, same⟩ := List.mem_map.mp (List.count_pos_iff.mp runs)
    exact idle m later run member same

/-- A handler that runs has a start, none of its hook came since, and as long as its
generation is the one asked for nothing was registered since. -/
theorem run_origin (n : ℕ) : ∀ run ∈ (execution.state n).handlerRuns, ∃ j, j < n ∧
    execution.event j = .microtask run.hook false ∧
    (∀ l, j < l → l < n → execution.event l ≠ .microtask run.hook false) ∧
    run.generation ≤ ((execution.state n).generations run.hook).desired ∧
    (((execution.state n).generations run.hook).desired ≤ run.generation →
      ∀ i, j < i → i < n → ¬ (execution.state i).Registers (execution.event i) run.hook) := by
  induction n with
  | zero =>
    obtain ⟨generations, start⟩ := execution.starts
    rw [start]
    exact nofun
  | succ n ih =>
    rw [execution.next]
    intro run runs
    rcases State.mem_handlerRuns_apply runs with old | ⟨started, generation⟩
    · obtain ⟨j, before, start, none, covered, quiet⟩ := ih run old
      have notAgain : execution.event n ≠ .microtask run.hook false := by
        intro again
        have possible := execution.possible n
        rw [again] at possible
        have queued : 0 < (execution.state n).microtasks.count run.hook :=
          List.count_pos_iff.mpr possible
        have runs := List.count_pos_iff.mpr (List.mem_map_of_mem (f := HandlerRun.hook) old)
        have most := ((steady execution n).busy run.hook).trans (Bool.toNat_le _)
        unfold State.busy at most
        omega
      have grows := State.desired_apply_le (unbroken n) run.hook
      refine ⟨j, Nat.lt_succ_of_lt before, start, ?_, covered.trans grows, ?_⟩
      · intro l after below
        rcases Nat.lt_succ_iff_lt_or_eq.mp below with earlier | rfl
        · exact none l after earlier
        · exact notAgain
      · intro current i after below registers
        rcases Nat.lt_succ_iff_lt_or_eq.mp below with earlier | rfl
        · exact quiet (grows.trans current) i after earlier registers
        · by_cases resumed : execution.event i = .resumePendingRegeneration
          · have guarded := unbroken i
            rw [resumed] at guarded
            have noRun : (execution.state i).handlerRuns = [] := guarded
            rw [noRun] at old
            cases old
          · have strictly := State.desired_lt_apply (unbroken i) registers resumed
            exact absurd (strictly.trans_le current) (Nat.not_lt.mpr covered)
    · refine ⟨n, Nat.lt_succ_self n, started, ?_, generation.le, ?_⟩
      · exact fun l after below => absurd (Nat.lt_of_lt_of_le after (Nat.le_of_lt_succ below))
          (Nat.lt_irrefl n)
      · exact fun _ i after below => absurd (Nat.lt_of_lt_of_le after (Nat.le_of_lt_succ below))
          (Nat.lt_irrefl n)

theorem statusTruthful : StatusTruthful execution := by
  intro n hook
  induction n with
  | zero => exact fun _ i before => absurd before (Nat.not_lt_zero i)
  | succ n ih =>
    rw [execution.next]
    intro applied i before registers
    rcases State.generations_apply (unbroken n) hook with
      ⟨_, _, enqueued⟩ | ⟨_, marked⟩ | ⟨run, outcome, settled, isIt, changed⟩ | ⟨same, resumed, _⟩
    · cases show Status.pending = .applied from (congrArg Generation.status enqueued).symm.trans
        applied
    · cases show Status.applying = .applied from (congrArg Generation.status marked).symm.trans
        applied
    · subst isIt
      have possible := execution.possible n
      rw [settled] at possible
      rcases changed with ⟨applies, marked⟩ | ⟨_, marked | marked⟩
      · obtain ⟨j, earlier, start, none, _, quiet⟩ := run_origin unbroken n run possible
        have current : ((execution.state n).generations run.hook).desired ≤ run.generation := by
          have status := (congrArg Generation.status marked).symm.trans applied
          by_contra behind
          simp only [Generation.markApplied, Nat.lt_of_not_le behind, if_true,
            reduceCtorEq] at status
        have first : i < j := by
          have notLast : i ≠ n := by
            rintro rfl
            rw [settled] at registers
            cases registers
          have notStart : i ≠ j := by
            rintro rfl
            rw [start] at registers
            cases registers
          by_contra late
          have inside := Nat.lt_of_le_of_ne (Nat.le_of_lt_succ before) notLast
          exact quiet current i (Nat.lt_of_le_of_ne (Nat.le_of_not_lt late) notStart.symm)
            inside registers
        have succeeded : outcome.succeeded = true := (Bool.and_eq_true_iff.mp applies).1
        exact ⟨j, n, run, outcome, first, earlier, Nat.lt_succ_self n, start, none, settled,
          rfl, succeeded⟩
      · cases show Status.failed = .applied from (congrArg Generation.status marked).symm.trans
          applied
      · have notLast : i ≠ n := by
          rintro rfl
          rw [settled] at registers
          cases registers
        have status := (congrArg Generation.status marked).symm.trans applied
        obtain ⟨j, k, run', outcome', found⟩ :=
          ih status i (Nat.lt_of_le_of_ne (Nat.le_of_lt_succ before) notLast) registers
        exact ⟨j, k, run', outcome', found.1, found.2.1, Nat.lt_succ_of_lt found.2.2.1, found.2.2.2⟩
    · have status : ((execution.state n).generations hook).status = .applied :=
        (congrArg Generation.status same).symm.trans applied
      have notLast : i ≠ n := by
        -- a restart asks for no run of a row that says `applied`
        rintro rfl
        have resumes := resumed registers
        rw [resumes] at registers
        rcases registers with behind | unapplied
        · exact absurd (((execution.state i).generations hook).current status)
            (Nat.not_le.mpr behind)
        · exact unapplied status
      obtain ⟨j, k, run, outcome, found⟩ :=
        ih status i (Nat.lt_of_le_of_ne (Nat.le_of_lt_succ before) notLast) registers
      exact ⟨j, k, run, outcome, found.1, found.2.1, Nat.lt_succ_of_lt found.2.2.1, found.2.2.2⟩

/-- **When nothing throws that is not guarded, hooks are single-flight and lossless: runs of
a hook never overlap, none starts under a resolved hold, every registration is followed by
a run, and `applied` says the truth.** -/
theorem hooks_single_flight_and_lossless : SingleFlight execution ∧ RespectsHolds execution ∧
    (Fair execution → FollowsUp execution) ∧ StatusTruthful execution :=
  ⟨singleFlight execution, respectsHolds execution, followsUp unbroken, statusTruthful unbroken⟩

end Guarantees

/-! ## Finite runs, and a registration that is lost -/

/-- A process that has just been installed. -/
def installed : State := { generations := fun _ => .initial }

/-- Some events, and then nothing more. -/
def runOf (events : List Event) (can : Execution.CanRun machine installed events) :
    Execution machine :=
  Execution.ofEvents installed events .other ⟨_, rfl⟩ can fun _ => ⟨trivial, rfl⟩

/-- The event is the hook's microtask. -/
def Event.starts (event : Event) (hook : Hook) : Bool :=
  match event with
  | .microtask started _ => started = hook
  | _ => false

/-- The event is the end of the run. -/
def Event.settles (event : Event) (run : HandlerRun) : Bool :=
  match event with
  | .settled ended _ => ended = run
  | _ => false

/-- A finite run is fair when all that was begun comes to its end in it. -/
theorem fair_runOf {events : List Event} {can : Execution.CanRun machine installed events}
    (microtasks : ∀ n, n < events.length + 1 →
      ∀ hook ∈ (Execution.after machine installed events n).microtasks, ∃ event ∈ events.drop n,
      event.starts hook = true)
    (handlers : ∀ n, n < events.length + 1 →
      ∀ run ∈ (Execution.after machine installed events n).handlerRuns, ∃ event ∈ events.drop n,
      event.settles run = true)
    (releases : ∀ hold ∈ (Execution.after machine installed events events.length).holders,
    hold = .released) :
    Fair (runOf events can) := by
  refine ⟨?_, ?_, ?_⟩
  · intro n hook waits
    have member : hook ∈ (Execution.after machine installed events n).microtasks := waits
    rcases Nat.lt_or_ge n (events.length + 1) with inside | past
    · obtain ⟨event, toCome, starts⟩ := microtasks n inside hook member
      obtain ⟨m, later, isIt⟩ := Execution.event_of_mem_drop toCome
      cases event with
      | microtask started throws =>
        obtain rfl : started = hook := of_decide_eq_true starts
        exact ⟨m, later, throws, isIt⟩
      | _ => cases starts
    · rw [Execution.after_of_length_le ((Nat.le_succ _).trans past)] at member
      obtain ⟨event, toCome, _⟩ := microtasks events.length (Nat.lt_succ_self _) hook member
      rw [List.drop_length] at toCome
      cases toCome
  · intro n run runs
    have member : run ∈ (Execution.after machine installed events n).handlerRuns := runs
    rcases Nat.lt_or_ge n (events.length + 1) with inside | past
    · obtain ⟨event, toCome, settles⟩ := handlers n inside run member
      obtain ⟨m, later, isIt⟩ := Execution.event_of_mem_drop toCome
      cases event with
      | settled ended outcome =>
        obtain rfl : ended = run := of_decide_eq_true settles
        exact ⟨m, later, outcome, isIt⟩
      | _ => cases settles
    · rw [Execution.after_of_length_le ((Nat.le_succ _).trans past)] at member
      obtain ⟨event, toCome, _⟩ := handlers events.length (Nat.lt_succ_self _) run member
      rw [List.drop_length] at toCome
      cases toCome
  · intro n
    refine ⟨max n events.length, le_max_left _ _, ?_⟩
    have ended : (runOf events can).state (max n events.length) =
        Execution.after machine installed events events.length :=
      Execution.after_of_length_le (le_max_right _ _)
    rw [ended]
    exact releases

/-- A request changes DNS data, its hook runs and succeeds, and a switch holds the hooks. -/
def sampleEvents : List Event :=
  [.requestFinished [.regenerateDns] 200 none, .microtask .regenerateDns false,
    .settled ⟨.regenerateDns, 1⟩ ⟨true, true, false, false⟩, .holdHooks, .holdResolves
    0, .release 0]

theorem sample_canRun : Execution.CanRun machine installed sampleEvents := by decide

theorem hooks_single_flight_and_lossless_sample :
    SingleFlight (runOf sampleEvents sample_canRun) ∧
    RespectsHolds (runOf sampleEvents sample_canRun) ∧
    FollowsUp (runOf sampleEvents sample_canRun) ∧
    StatusTruthful (runOf sampleEvents sample_canRun) := by
  have unbroken : ∀ n, ((runOf sampleEvents sample_canRun).state n).Unbroken
      ((runOf sampleEvents sample_canRun).event n) := by
    intro n
    rcases Nat.lt_or_ge n 6 with inside | past
    · interval_cases n
      · exact fun _ hook _ => nofun
      · rfl
      · rfl
      · trivial
      · trivial
      · trivial
    · have rests : (runOf sampleEvents sample_canRun).event n = .other :=
        List.getD_eq_default sampleEvents .other past
      rw [rests]
      trivial
  have fair : Fair (runOf sampleEvents sample_canRun) :=
    fair_runOf (by decide) (by decide) (by decide)
  obtain ⟨single, holds, follows, truthful⟩ := hooks_single_flight_and_lossless unbroken
  exact ⟨single, holds, follows fair, truthful⟩

/-- `markApplying` throws, and someone asks again. -/
def stuckEvents : List Event :=
  [.queueRegen .regenerateDns, .microtask .regenerateDns true, .queueRegen .regenerateDns]

theorem stuck_canRun : Execution.CanRun machine installed stuckEvents := by decide

/-- A handler throws and `markFailed` does too, and someone asks again. -/
def unmarkedEvents : List Event :=
  [.queueRegen .regenerateDns, .microtask .regenerateDns false,
    .settled ⟨.regenerateDns, 1⟩ ⟨false, false, false, true⟩, .queueRegen .regenerateDns]

theorem unmarked_canRun : Execution.CanRun machine installed unmarkedEvents := by decide

/-- **A write of the status that throws outside the guards loses every later registration:
its hook stays `running` with nothing under way, whatever settles and is released.** -/
theorem registration_is_lost :
    (∃ execution : Execution machine, Fair execution ∧ ¬ FollowsUp execution) ∧
    ∃ execution : Execution machine, Fair execution ∧
      (∀ n hook, execution.event n ≠ .microtask hook true) ∧ ¬ FollowsUp execution := by
  -- after the last event nothing happens any more
  have noMore : ∀ {events : List Event} {can : Execution.CanRun machine installed events}
      {last m : ℕ}, events.length = last + 1 → last < m → (runOf events can).event m = .other :=
    fun length past => List.getD_eq_default _ _ (length ▸ past)
  refine ⟨⟨runOf stuckEvents stuck_canRun, fair_runOf (by decide) (by decide) (by decide), ?_⟩,
    ⟨runOf unmarkedEvents unmarked_canRun, fair_runOf (by decide) (by decide) (by decide),
      ?_, ?_⟩⟩
  · intro follows
    obtain ⟨m, later, started⟩ := follows 2 .regenerateDns rfl
    cases (noMore rfl later).symm.trans started
  · intro n hook started
    rcases Nat.lt_or_ge n 4 with inside | past
    · interval_cases n <;> cases started
    · cases (noMore rfl past).symm.trans started
  · intro follows
    obtain ⟨m, later, started⟩ := follows 3 .regenerateDns rfl
    cases (noMore rfl later).symm.trans started

end AfterCommit

end Cidrella
