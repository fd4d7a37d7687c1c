import Cidrella.Lib.Executions

/-!
# One lease sync at a time

`runLeaseSync`, `holdLeaseSync` and `startLeaseSync` of `services/dhcp-lease-sync.js`. A run
is the `async` loop behind `running`; within it one call of `syncLeasesNow` follows another
as long as `syncAgain` was set and no hold is on. What a notification asks for is kept in
`syncAgain` while a run goes on, in `skippedWhileHeld` while a hold is on, and passes from the
one to the other when the run ends under a hold. A failed sync is only logged.
-/

set_option autoImplicit false

namespace Cidrella

namespace LeaseSync

/-- A call of `holdLeaseSync`: it waits for the run it found, then its caller has the
release, then it was released. -/
inductive Hold where
  | waiting (run : Option Nat)
  | resolved
  | released
  deriving DecidableEq, Repr

/-- The module's variables; `running` is the number of the run. Beside them the calls of
`syncLeasesNow` under way, and how many runs and syncs have begun. -/
structure State where
  syncDb : Bool := false
  running : Option Nat := none
  syncAgain : Bool := false
  holds : Nat := 0
  skippedWhileHeld : Bool := false
  holders : List Hold := []
  underWay : Nat := 0
  runs : Nat := 0
  begun : Nat := 0
  deriving DecidableEq, Repr

namespace State

/-- The loop's body up to the `await` of `syncLeasesNow`. -/
def beginSync (s : State) : State :=
  { s with syncAgain := false, underWay := s.underWay + 1, begun := s.begun + 1 }

/-- `runLeaseSync`. -/
def runLeaseSync (s : State) : State :=
  if 0 < s.holds then { s with skippedWhileHeld := true }
  else if s.running.isSome then { s with syncAgain := true }
  else { s with running := some s.runs, runs := s.runs + 1 }.beginSync

/-- The loop from the `await` of `syncLeasesNow` on, whether it succeeded or failed. -/
def settled (s : State) : State :=
  let s := { s with underWay := s.underWay - 1 }
  if s.syncAgain ∧ s.holds = 0 then s.beginSync
  else if s.syncAgain then { s with syncAgain := false, skippedWhileHeld := true, running := none }
  else { s with running := none }

/-- `holdLeaseSync` up to its `await`. -/
def holdLeaseSync (s : State) : State :=
  { s with holds := s.holds + 1, holders := s.holders ++ [.waiting s.running] }

/-- A call of `holdLeaseSync` resolves. -/
def holdResolves (s : State) (holder : Nat) : State :=
  { s with holders := s.holders.set holder .resolved }

/-- The release of a hold; a second call does nothing. -/
def release (s : State) (holder : Nat) : State :=
  if s.holders[holder]? = some .resolved then
    let s := { s with holders := s.holders.set holder .released, holds := s.holds - 1 }
    if s.holds = 0 ∧ s.skippedWhileHeld then
      let s := { s with skippedWhileHeld := false }
      if s.syncDb then s.runLeaseSync else s
    else s
  else s

end State

/-- What can come next: a start, a notification of the watcher, the backend or the apply, a
sync that settles, a hold, or a callback that has nothing to do with leases. -/
inductive Event where
  | start
  | notified
  | settled (failed : Bool)
  | hold
  | holdResolves (holder : Nat)
  | release (holder : Nat)
  | other
  deriving DecidableEq, Repr

namespace State

def apply (s : State) : Event → State
  | .start => { s with syncDb := true }.runLeaseSync
  | .notified => s.runLeaseSync
  | .settled _ => s.settled
  | .hold => s.holdLeaseSync
  | .holdResolves holder => s.holdResolves holder
  | .release holder => s.release holder
  | .other => s

/-- Notifications are subscribed to at the start, a sync settles that is under way, and a
hold resolves once the run it waits for has ended. -/
def Possible (s : State) : Event → Prop
  | .notified => s.syncDb = true
  | .settled _ => 0 < s.underWay
  | .holdResolves holder => ∃ run, s.holders[holder]? = some (.waiting run) ∧
      (run = none ∨ s.running ≠ run)
  | .release holder => s.holders[holder]? = some .resolved ∨ s.holders[holder]? = some .released
  | _ => True

/-! ## What always holds -/

/-- One sync is under way exactly while a run goes on. Only a run can be asked to sync again
and only a hold can have skipped a sync, the counter counts the holds that were not released,
a hold waits for the run that goes on, and nothing runs once a hold has resolved. -/
structure Sound (s : State) : Prop where
  one : s.underWay = if s.running.isSome then 1 else 0
  again : s.syncAgain = true → s.running.isSome = true
  skipped : s.skippedWhileHeld = true → 0 < s.holds
  counted : s.holds = s.holders.countP (· ≠ .released)
  waits : ∀ run, .waiting run ∈ s.holders → s.running.isSome = true → s.running = run
  quiet : .resolved ∈ s.holders → s.running = none

section Sound

variable {s : State}

theorem Sound.held (sound : Sound s) {hold : Hold} (member : hold ∈ s.holders)
    (on : hold ≠ .released) :
    0 < s.holds := by
  rw [sound.counted]
  exact List.countP_pos_iff.mpr ⟨hold, member, by simpa using on⟩

/-- With no hold on, no call of `holdLeaseSync` waits or has resolved. -/
theorem Sound.released (sound : Sound s) (none : s.holds = 0) {hold : Hold}
    (member : hold ∈ s.holders) :
    hold = .released := by
  by_contra on
  exact absurd none (sound.held member on).ne'

theorem Sound.runLeaseSync (sound : Sound s) : Sound s.runLeaseSync := by
  unfold State.runLeaseSync
  split
  · rename_i held
    exact { sound with skipped := fun _ => held }
  · rename_i none
    have free := Nat.eq_zero_of_not_pos none
    split
    · rename_i running
      exact { sound with again := fun _ => running }
    · rename_i idle
      refine ⟨?_, nofun, sound.skipped, sound.counted, ?_, ?_⟩
      · have rests := sound.one
        rw [if_neg idle] at rests
        simp [beginSync, rests]
      · exact fun run member => nomatch sound.released free member
      · exact fun member => nomatch sound.released free member

theorem Sound.settled (sound : Sound s) (underWay : 0 < s.underWay) : Sound s.settled := by
  have running : s.running.isSome = true := by
    by_contra idle
    rw [sound.one, if_neg idle] at underWay
    cases underWay
  have one : s.underWay = 1 := by rw [sound.one, if_pos running]
  unfold State.settled
  dsimp only
  split
  · refine ⟨?_, nofun, sound.skipped, sound.counted, sound.waits, sound.quiet⟩
    simp [beginSync, one, running]
  · rename_i stops
    split
    · rename_i again
      refine ⟨by simp [one], nofun, ?_, sound.counted, fun _ _ => nofun, fun _ => rfl⟩
      intro _
      exact Nat.pos_of_ne_zero fun free => stops ⟨again, free⟩
    · rename_i done
      exact ⟨by simp [one], fun again => absurd again done, sound.skipped, sound.counted,
        fun _ _ => nofun, fun _ => rfl⟩

theorem Sound.holdLeaseSync (sound : Sound s) : Sound s.holdLeaseSync := by
  refine ⟨sound.one, sound.again, fun _ => Nat.succ_pos _, ?_, ?_, ?_⟩
  · simp [State.holdLeaseSync, sound.counted]
  · intro run member running
    rcases List.mem_append.mp member with old | new
    · exact sound.waits run old running
    · cases List.mem_singleton.mp new
      rfl
  · intro member
    rcases List.mem_append.mp member with old | new
    · exact sound.quiet old
    · cases List.mem_singleton.mp new

theorem Sound.holdResolves (sound : Sound s) {holder : Nat}
    (possible : s.Possible (.holdResolves holder)) :
    Sound (s.holdResolves holder) := by
  obtain ⟨run, waiting, ended⟩ := possible
  obtain ⟨inside, isIt⟩ := List.getElem?_eq_some_iff.mp waiting
  have member : .waiting run ∈ s.holders := isIt ▸ List.getElem_mem inside
  have idle : s.running = none := by
    cases running : s.running with
    | none => rfl
    | some current =>
      have same := sound.waits run member (by rw [running]; rfl)
      rcases ended with none | other
      · rw [none, running] at same
        cases same
      · exact absurd same other
  refine ⟨sound.one, sound.again, sound.skipped, ?_, ?_, fun _ => idle⟩
  · have positive : 0 < s.holders.countP (· ≠ .released) :=
      List.countP_pos_iff.mpr ⟨_, member, rfl⟩
    unfold State.holdResolves
    dsimp only
    rw [sound.counted, List.countP_set inside, isIt]
    simp only [ne_eq, reduceCtorEq, not_false_eq_true, decide_true, if_true] at positive ⊢
    omega
  · intro other _ running
    have stillRunning : s.running.isSome = true := running
    rw [idle] at stillRunning
    cases stillRunning

theorem Sound.release (sound : Sound s) (holder : Nat) : Sound (s.release holder) := by
  unfold State.release
  split
  · rename_i resolved
    obtain ⟨inside, isIt⟩ := List.getElem?_eq_some_iff.mp resolved
    have idle := sound.quiet (isIt ▸ List.getElem_mem inside)
    have freed : ∀ skipped, (skipped = true → 0 < s.holds - 1) → Sound
        { s with holders := s.holders.set holder .released, holds :=
        s.holds - 1, skippedWhileHeld := skipped } := by
      intro skipped held
      refine ⟨sound.one, sound.again, held, ?_, ?_, fun _ => idle⟩
      · dsimp only
        rw [sound.counted, List.countP_set inside, isIt]
        simp
      · intro run _ running
        have stillRunning : s.running.isSome = true := running
        rw [idle] at stillRunning
        cases stillRunning
    dsimp only
    split
    · split
      · exact (freed false nofun).runLeaseSync
      · exact freed false nofun
    · rename_i stays
      refine freed s.skippedWhileHeld ?_
      intro skipped
      exact Nat.pos_of_ne_zero fun free => stays ⟨free, skipped⟩
  · exact sound

theorem Sound.apply (sound : Sound s) {event : Event} (possible : s.Possible event) :
    Sound (s.apply event) := by
  cases event with
  | start => exact Sound.runLeaseSync ⟨sound.one, sound.again, sound.skipped, sound.counted,
      sound.waits, sound.quiet⟩
  | notified => exact sound.runLeaseSync
  | settled failed => exact sound.settled possible
  | hold => exact sound.holdLeaseSync
  | holdResolves holder => exact sound.holdResolves possible
  | release holder => exact sound.release holder
  | other => exact sound

/-! ## A sync that was asked for -/

/-- A sync is still to begin. -/
def Due (s : State) : Prop := s.syncAgain = true ∨ s.skippedWhileHeld = true

theorem begun_le_runLeaseSync : s.begun ≤ s.runLeaseSync.begun := by
  unfold runLeaseSync
  split
  · exact le_refl _
  · split
    · exact le_refl _
    · exact Nat.le_succ _

theorem begun_le_apply (event : Event) : s.begun ≤ (s.apply event).begun := by
  cases event with
  | start => exact begun_le_runLeaseSync (s := { s with syncDb := true })
  | notified => exact begun_le_runLeaseSync
  | settled failed =>
    simp only [apply, settled]
    split
    · exact Nat.le_succ _
    · split <;> exact le_refl _
  | hold => exact le_refl _
  | holdResolves holder => exact le_refl _
  | release holder =>
    simp only [apply, release]
    split
    · split
      · split
        · exact begun_le_runLeaseSync (s := { s with
            holders := s.holders.set holder .released, holds := s.holds - 1, skippedWhileHeld :=
              false })
        · exact le_refl _
      · exact le_refl _
    · exact le_refl _
  | other => exact le_refl _

theorem syncDb_runLeaseSync : s.runLeaseSync.syncDb = s.syncDb := by
  unfold runLeaseSync
  split
  · rfl
  · split <;> rfl

theorem syncDb_apply (started : s.syncDb = true) (event : Event) :
    (s.apply event).syncDb = true := by
  cases event with
  | start => exact syncDb_runLeaseSync
  | notified => exact syncDb_runLeaseSync.trans started
  | settled failed =>
    simp only [apply, settled]
    split
    · exact started
    · split <;> exact started
  | hold => exact started
  | holdResolves holder => exact started
  | release holder =>
    simp only [apply, release]
    split
    · split
      · rw [syncDb_runLeaseSync]
        exact started
      · exact started
    · exact started
  | other => exact started

theorem runLeaseSync_due : s.begun < s.runLeaseSync.begun ∨ s.runLeaseSync.Due := by
  unfold runLeaseSync
  split
  · exact .inr (.inr rfl)
  · split
    · exact .inr (.inl rfl)
    · exact .inl (Nat.lt_succ_self _)

theorem Due.apply (due : s.Due) (sound : Sound s) (started : s.syncDb = true) (event : Event) :
    s.begun < (s.apply event).begun ∨ (s.apply event).Due := by
  cases event with
  | start => exact runLeaseSync_due (s := { s with syncDb := true })
  | notified => exact runLeaseSync_due
  | settled failed =>
    simp only [State.apply, State.settled]
    split
    · exact .inl (Nat.lt_succ_self _)
    · split
      · exact .inr (.inr rfl)
      · exact .inr due
  | hold => exact .inr due
  | holdResolves holder => exact .inr due
  | release holder =>
    simp only [State.apply, State.release]
    split
    · rename_i resolved
      obtain ⟨inside, isIt⟩ := List.getElem?_eq_some_iff.mp resolved
      have idle := sound.quiet (isIt ▸ List.getElem_mem inside)
      split
      · rename_i free
        left
        -- the last hold is gone and no run goes on, so one begins
        have notHeld : ¬ 0 < s.holds - 1 := Nat.not_lt.mpr free.1.le
        have notRunning : ¬ s.running.isSome = true := by rw [idle]; decide
        simp only [State.runLeaseSync, notHeld, notRunning, if_false]
        exact Nat.lt_succ_self _
      · exact .inr due
    · exact .inr due
  | other => exact .inr due

/-- A run goes on only if it did before or a sync begins. -/
theorem running_apply (event : Event) (running : (s.apply event).running.isSome = true) :
    s.running.isSome = true ∨ s.begun < (s.apply event).begun := by
  have runs : ∀ s : State, s.runLeaseSync.running.isSome = true →
      s.running.isSome = true ∨ s.begun < s.runLeaseSync.begun := by
    intro s
    unfold runLeaseSync
    split
    · exact .inl
    · split
      · exact .inl
      · exact fun _ => .inr (Nat.lt_succ_self _)
  cases event with
  | start => exact runs { s with syncDb := true } running
  | notified => exact runs s running
  | settled failed =>
    simp only [apply, settled] at running ⊢
    split at running
    · exact .inl running
    · split at running <;> cases running
  | hold => exact .inl running
  | holdResolves holder => exact .inl running
  | release holder =>
    simp only [apply, release] at running ⊢
    split
    · rename_i resolved
      rw [if_pos resolved] at running
      split
      · rename_i free
        rw [if_pos free] at running
        split
        · rename_i started
          rw [if_pos started] at running
          exact runs _ running
        · rename_i unstarted
          rw [if_neg unstarted] at running
          exact .inl running
      · rename_i held
        rw [if_neg held] at running
        exact .inl running
    · rename_i unresolved
      rw [if_neg unresolved] at running
      exact .inl running
  | other => exact .inl running

end Sound

end State

/-! ## The guarantees -/

/-- The module before `startLeaseSync`. -/
def machine : Machine State Event where
  starts s := s = {}
  possible := State.Possible
  apply := State.apply

/-- At most one sync is under way. -/
def OneAtATime (execution : Execution machine) : Prop := ∀ n, (execution.state n).underWay ≤ 1

/-- While a caller of `holdLeaseSync` has the release no sync is under way and none begins. -/
def RespectsHolds (execution : Execution machine) : Prop :=
  ∀ n, .resolved ∈ (execution.state n).holders → (execution.state n).underWay = 0 ∧
    (.resolved ∈ (execution.state (n + 1)).holders → (execution.state (n + 1)).begun =
    (execution.state n).begun)

/-- Syncs settle, and there are times at which all holds are released. -/
structure Fair (execution : Execution machine) : Prop where
  settles : ∀ n, 0 < (execution.state n).underWay → ∃ m, n ≤ m ∧ ∃ failed,
    execution.event m = .settled failed
  releases : ∀ n, ∃ m, n ≤ m ∧ ∀ hold ∈ (execution.state m).holders, hold = .released

/-- After every notification a sync begins. -/
def FollowsUp (execution : Execution machine) : Prop :=
  ∀ n, execution.event n = .start ∨ execution.event n = .notified →
    ∃ m, n < m ∧ (execution.state n).begun < (execution.state m).begun

section Guarantees

variable (execution : Execution machine)

theorem sound (n : ℕ) : State.Sound (execution.state n) := by
  refine execution.always State.Sound ?_ ?_ n
  · rintro _ rfl
    exact ⟨rfl, nofun, nofun, rfl, fun _ => nofun, fun _ => rfl⟩
  · exact fun n now => now.apply (execution.possible n)

theorem begun_mono {n m : ℕ} (later : n ≤ m) : (execution.state n).begun ≤
    (execution.state m).begun := by
  induction m, later using Nat.le_induction with
  | base => exact le_refl _
  | succ m later ih =>
    rw [execution.next]
    exact ih.trans (State.begun_le_apply (execution.event m))

/-- A sync begins under no hold. -/
theorem holds_of_begins {s : State} {event : Event} (begins : s.begun < (s.apply event).begun) :
    (s.apply event).holds = 0 := by
  have runs : ∀ s : State, s.begun < s.runLeaseSync.begun → s.runLeaseSync.holds = 0 := by
    intro s
    unfold State.runLeaseSync
    split
    · exact fun same => absurd same (Nat.lt_irrefl _)
    · rename_i none
      split
      · exact fun same => absurd same (Nat.lt_irrefl _)
      · exact fun _ => Nat.eq_zero_of_not_pos none
  cases event with
  | start => exact runs { s with syncDb := true } begins
  | notified => exact runs s begins
  | settled failed =>
    simp only [State.apply, State.settled] at begins ⊢
    split at begins
    · rename_i goesOn
      rw [if_pos goesOn]
      exact goesOn.2
    · split at begins <;> exact absurd begins (Nat.lt_irrefl _)
  | hold => exact absurd begins (Nat.lt_irrefl _)
  | holdResolves holder => exact absurd begins (Nat.lt_irrefl _)
  | release holder =>
    simp only [State.apply, State.release] at begins ⊢
    split at begins
    · rename_i resolved
      rw [if_pos resolved]
      split at begins
      · rename_i free
        rw [if_pos free]
        split at begins
        · rename_i started
          rw [if_pos started]
          exact runs _ begins
        · exact absurd begins (Nat.lt_irrefl _)
      · exact absurd begins (Nat.lt_irrefl _)
    · exact absurd begins (Nat.lt_irrefl _)
  | other => exact absurd begins (Nat.lt_irrefl _)

theorem oneAtATime : OneAtATime execution := by
  intro n
  rw [(sound execution n).one]
  split <;> decide

theorem respectsHolds : RespectsHolds execution := by
  intro n resolved
  refine ⟨?_, ?_⟩
  · rw [(sound execution n).one, (sound execution n).quiet resolved]
    rfl
  · intro stays
    by_contra changed
    have begins := Nat.lt_of_le_of_ne (begun_mono execution (Nat.le_succ n)) (Ne.symm changed)
    have free : (execution.state (n + 1)).holds = 0 := by
      rw [execution.next] at begins ⊢
      exact holds_of_begins begins
    exact absurd free ((sound execution (n + 1)).held stays (by decide)).ne'

variable {execution}

/-- When no sync begins any more, there is a time after which no run goes on. -/
theorem eventually_idle (fair : Fair execution) {start : ℕ}
    (never : ∀ n, start ≤ n → ¬ (execution.state n).begun < (execution.state (n + 1)).begun) :
    ∃ n, start ≤ n ∧ ∀ m, n ≤ m → (execution.state m).running.isSome = false := by
  have stays : ∀ n, start ≤ n → (execution.state n).running.isSome = false →
      ∀ m, n ≤ m → (execution.state m).running.isSome = false := by
    intro n later idle m after
    refine execution.holds_until (fun s => s.running.isSome = false) (fun _ => False) idle ?_
      after fun _ _ _ => id
    intro k past _ idle
    rw [Bool.eq_false_iff]
    intro running
    rcases State.running_apply (execution.event k) running with before | begins
    · rw [idle] at before
      cases before
    · exact never k (later.trans past) (by rw [execution.next]; exact begins)
  cases running : (execution.state start).running.isSome with
  | false => exact ⟨start, le_refl start, stays start (le_refl start) running⟩
  | true =>
    have underWay : 0 < (execution.state start).underWay := by
      rw [(sound execution start).one, if_pos running]
      exact Nat.one_pos
    obtain ⟨m, later, failed, settled⟩ := fair.settles start underWay
    refine ⟨m + 1, later.trans (Nat.le_succ m), stays (m + 1) (later.trans (Nat.le_succ m)) ?_⟩
    have ends := never m later
    rw [execution.next, settled] at ends ⊢
    change ¬ (execution.state m).begun < (execution.state m).settled.begun at ends
    change (execution.state m).settled.running.isSome = false
    unfold State.settled at ends ⊢
    dsimp only at ends ⊢
    split at ends
    · exact absurd (Nat.lt_succ_self _) ends
    · rename_i stops
      rw [if_neg stops]
      split <;> rfl

/-- As long as no sync begins one stays due, and then no run and no hold is left that could
keep it from beginning. -/
theorem followsUp (fair : Fair execution) : FollowsUp execution := by
  intro n asked
  by_contra noSync
  push Not at noSync
  have same : ∀ m, n ≤ m → (execution.state m).begun = (execution.state n).begun := by
    intro m later
    rcases Nat.lt_or_eq_of_le later with after | rfl
    · exact Nat.le_antisymm (noSync m after) (begun_mono execution later)
    · rfl
  have never : ∀ m, n ≤ m → ¬ (execution.state m).begun < (execution.state (m + 1)).begun := by
    intro m later
    rw [same m later, same (m + 1) (later.trans (Nat.le_succ m))]
    exact Nat.lt_irrefl _
  have begins : (execution.state (n + 1)).syncDb = true ∧ (execution.state (n + 1)).Due := by
    have none := never n (le_refl n)
    have possible := execution.possible n
    rw [execution.next] at none ⊢
    rcases asked with started | notified
    · rw [started] at none ⊢
      exact ⟨State.syncDb_runLeaseSync,
        (State.runLeaseSync_due (s := { execution.state n with syncDb := true })).resolve_left none⟩
    · rw [notified] at none possible ⊢
      have subscribed : (execution.state n).syncDb = true := possible
      exact ⟨State.syncDb_runLeaseSync.trans subscribed, State.runLeaseSync_due.resolve_left none⟩
  have due : ∀ m, n + 1 ≤ m → (execution.state m).syncDb = true ∧ (execution.state m).Due ∧
      (execution.state m).Sound := by
    intro m later
    refine execution.holds_until (fun s => s.syncDb = true ∧ s.Due ∧ s.Sound)
      (fun k => (execution.state k).begun < (execution.state (k + 1)).begun)
      ⟨begins.1, begins.2, sound execution (n + 1)⟩ ?_ later
      fun k past _ => never k ((Nat.le_succ n).trans past)
    intro k _ none now
    rw [execution.next] at none
    exact ⟨State.syncDb_apply now.1 _, (now.2.1.apply now.2.2 now.1 _).resolve_left none,
      now.2.2.apply (execution.possible k)⟩
  obtain ⟨quiet, afterwards, idle⟩ := eventually_idle fair never
  obtain ⟨m, later, released⟩ := fair.releases (max quiet (n + 1))
  obtain ⟨_, asksAgain | skipped, now⟩ := due m ((le_max_right _ _).trans later)
  · have running := now.again asksAgain
    rw [idle m ((le_max_left _ _).trans later)] at running
    cases running
  · have held := now.skipped skipped
    rw [now.counted] at held
    obtain ⟨hold, member, on⟩ := List.countP_pos_iff.mp held
    simp [released hold member] at on

/-- **In every order of notifications, syncs and holds, at most one sync is under way, none
is under way or begins while a hold's caller has the release, and after every notification a
sync begins once the one under way has settled and all holds are released.** -/
theorem lease_sync_loses_no_change (execution : Execution machine) :
    OneAtATime execution ∧ RespectsHolds execution ∧ (Fair execution → FollowsUp execution) :=
  ⟨oneAtATime execution, respectsHolds execution, followsUp⟩

end Guarantees

/-- A hold, with a notification while its caller has the release. -/
def heldEvents : List Event :=
  [.start, .settled false, .hold, .holdResolves 0, .notified, .release 0, .settled true]

theorem held_canRun : Execution.CanRun machine {} heldEvents :=
  ⟨trivial, Nat.one_pos, trivial, ⟨none, rfl, .inl rfl⟩, rfl, .inl rfl, Nat.one_pos, trivial⟩

/-- The run of these events, after which nothing happens. -/
def heldRun : Execution machine :=
  Execution.ofEvents {} heldEvents .other rfl held_canRun fun _ => ⟨trivial, rfl⟩

theorem heldRun_ended {n : ℕ} (past : 7 ≤ n) :
    heldRun.state n = Execution.after machine {} heldEvents 7 := Execution.after_of_length_le past

theorem fair_heldRun : Fair heldRun := by
  refine ⟨fun n under => ?_, fun n => ⟨max n 7, le_max_left _ _, ?_⟩⟩
  · rcases Nat.lt_or_ge n 7 with inside | past
    · rcases Nat.lt_or_ge n 2 with first | later
      · exact ⟨1, Nat.le_of_lt_succ first, false, rfl⟩
      · exact ⟨6, Nat.le_of_lt_succ inside, true, rfl⟩
    · rw [heldRun_ended past] at under
      exact absurd under (by decide)
  · rw [heldRun_ended (le_max_right _ _)]
    decide

theorem lease_sync_loses_no_change_held :
    (heldRun.state 5).skippedWhileHeld = true ∧ RespectsHolds heldRun ∧ FollowsUp heldRun := by
  obtain ⟨-, holds, follows⟩ := lease_sync_loses_no_change heldRun
  exact ⟨rfl, holds, follows fair_heldRun⟩

end LeaseSync

end Cidrella
