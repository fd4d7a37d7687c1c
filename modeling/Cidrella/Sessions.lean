import Mathlib.Data.List.Nodup
import Mathlib.Tactic

/-!
# Sign-in sessions over time

`models/session.js`, the session check of `auth/middleware.js`, and the requests and jobs
that write `sessions`: signing in, `/activity`, `/logout`, `/change-password`, the account
changes of `routes/users.js`, and the pruning. A request that has passed the check waits
before its handler goes on, so anything may come between the two. Times are milliseconds
and stored times are whole seconds.

What every event may do to the rows is said once (`Follows`): a row keeps its id, its limit
and its end, and a new row has an id that was never given out. From it follow that a
session that was refused is refused for ever, and that only `/activity` moves the idle end.
-/

set_option autoImplicit false

namespace Cidrella

namespace Sessions

/-! ## Rows -/

/-- `sessions.end_reason`. -/
inductive EndReason where
  | logout
  | idle
  | expired
  | passwordChanged
  | passwordReset
  | roleChanged
  | userDeleted
  | revoked
  | restore
  deriving DecidableEq, Repr

/-- `SESSION_LIFETIME_MS`. -/
def sessionLifetimeMs : Nat := 24 * 60 * 60 * 1000

/-- `IDLE_TIMEOUT_CHOICES`. -/
def idleTimeoutChoices : List Nat := [0, 15, 30, 60]

/-- The setting in minutes as a limit in milliseconds; 0 is no limit. -/
def idleTimeoutMs (minutes : Nat) : Nat :=
  if minutes ∈ idleTimeoutChoices then minutes * 60 * 1000 else 0

/-- What is stored of a time: its whole seconds. -/
def sqlTime (ms : Nat) : Nat := ms / 1000

/-- A stored time in milliseconds. -/
def parseSqlTime (stored : Nat) : Nat := stored * 1000

/-- A row of `sessions`. -/
structure Session where
  id : Nat
  userId : Option Nat
  createdAt : Nat
  lastActivityAt : Nat
  expiresAt : Nat
  endedAt : Option Nat := none
  endReason : Option EndReason := none
  deriving DecidableEq, Repr

/-- `sessionEndReason`: why a session no longer counts. -/
def sessionEndReason (session : Option Session) (now idleMs : Nat) : Option EndReason :=
  match session with
  | none => some .revoked
  | some session =>
    if session.endedAt.isSome then some (session.endReason.getD .revoked)
    else if parseSqlTime session.expiresAt ≤ now then some .expired
    else if 0 < idleMs ∧ parseSqlTime session.lastActivityAt + idleMs ≤ now then some .idle
    else none

namespace Session

/-- The update behind `endSession` and `endUserSessions`: only where `ended_at IS NULL`. -/
def finish (session : Session) (reason : EndReason) (now : Nat) : Session :=
  if session.endedAt.isSome then session
  else { session with endedAt := some (sqlTime now), endReason := some reason }

/-- The update of `touchSession`: only where `ended_at IS NULL`. -/
def touch (session : Session) (now : Nat) : Session :=
  if session.endedAt.isSome then session else { session with lastActivityAt := sqlTime now }

/-- `ON DELETE SET NULL`. -/
def disown (session : Session) (userId : Nat) : Session :=
  if session.userId = some userId then { session with userId := none } else session

end Session

/-! ## The state and the handlers -/

/-- A signed login token: the session it names, its user, and its `exp` in seconds. -/
structure Token where
  sessionId : Nat
  userId : Nat
  exp : Nat
  deriving DecidableEq, Repr

/-- `req.user` of a request that the middleware let through; a service account has no
session. -/
structure Caller where
  userId : Nat
  sessionId : Option Nat
  deriving DecidableEq, Repr

/-- The users, the rows, the tokens given out, the requests that wait, the ids that
`randomBytes` has given out, and the time. -/
structure State where
  users : List Nat
  sessions : List Session := []
  tokens : List Token := []
  waiting : List Caller := []
  issued : List Nat := []
  clock : Nat := 0
  deriving DecidableEq, Repr

/-- What the session check answers. -/
inductive Answer where
  | accepted
  | sessionEnded (reason : Option EndReason)
  | noSuchUser
  deriving DecidableEq, Repr

namespace State

/-- `getSession`. -/
def getSession (s : State) (id : Nat) : Option Session :=
  s.sessions.find? fun session => session.id = id

/-- An `UPDATE` of the rows. -/
def updateSessions (s : State) (update : Session → Session) : State :=
  { s with sessions := s.sessions.map update }

/-- `createSession`, for a user that exists. -/
def createSession (s : State) (id userId now : Nat) : State :=
  { s with
    sessions := s.sessions ++ [⟨id, some userId, sqlTime now, sqlTime now,
      sqlTime (now + sessionLifetimeMs), none, none⟩]
    issued := id :: s.issued }

/-- `generateToken`: the library counts `expiresIn` from the second it signs in. -/
def generateToken (s : State) (sessionId userId signed : Nat) : State :=
  { s with tokens := s.tokens ++ [⟨sessionId, userId, sqlTime signed + sessionLifetimeMs / 1000⟩] }

/-- `touchSession`. -/
def touchSession (s : State) (id now : Nat) : State :=
  s.updateSessions fun session => if session.id = id then session.touch now else session

/-- `endSession`. -/
def endSession (s : State) (id : Nat) (reason : EndReason) (now : Nat) : State :=
  s.updateSessions fun session => if session.id = id then session.finish reason now else session

/-- `endUserSessions`. -/
def endUserSessions (s : State) (userId : Nat) (reason : EndReason) (except : Option Nat)
    (now : Nat) : State :=
  s.updateSessions fun session =>
    if session.userId = some userId ∧ some session.id ≠ except then session.finish reason now
    else session

/-- The retention in days: `parseInt(days, 10) || 7`. -/
def retentionDays (days : Option Int) : Int :=
  match days with
  | none => 7
  | some days => if days = 0 then 7 else days

/-- `pruneSessions`. With a negative number of days the modifier is not one, and nothing
compares with its `NULL`. -/
def pruneSessions (s : State) (days : Option Int) (now : Nat) : State :=
  { s with sessions := s.sessions.filter fun session =>
      !(0 < retentionDays days &&
        ((session.endedAt.getD session.expiresAt : Nat) : Int) < (sqlTime now : Int) - retentionDays
        days * 86400) }

/-- `authMiddleware` with a login token that carries the server's signature. The library
looks at `exp` first. -/
def authMiddleware (s : State) (idleMs : Nat) (token : Token) (now : Nat) : State × Answer :=
  if token.exp ≤ sqlTime now then (s, .sessionEnded (some .expired))
  else
    let session := s.getSession token.sessionId
    match sessionEndReason session now idleMs with
    | some reason =>
      (s.endSession token.sessionId reason now, .sessionEnded (session.map fun _ => reason))
    | none =>
      if token.userId ∉ s.users ∨ session.bind Session.userId ≠ some token.userId
        then (s, .noSuchUser)
      else ({ s with waiting := s.waiting ++ [⟨token.userId, some token.sessionId⟩] }, .accepted)

/-- Signing in, after its checks: the row's user must exist. -/
def signIn (s : State) (userId id now signed : Nat) : State :=
  if userId ∈ s.users then (s.createSession id userId now).generateToken id userId signed else s

/-- `POST /activity` after the middleware and the rate limiter. -/
def activity (s : State) (caller : Caller) (now : Nat) : State :=
  match caller.sessionId with
  | none => s
  | some id => s.touchSession id now

/-- `POST /logout`. -/
def logout (s : State) (caller : Caller) (now : Nat) : State :=
  match caller.sessionId with
  | none => s
  | some id => s.endSession id .logout now

/-- `POST /change-password` after `bcrypt.hash`: the caller's session carries on with a
fresh token while its row is there and not ended, and a new one begins otherwise. -/
def changePassword (s : State) (caller : Caller) (id now signed : Nat) : State :=
  let s := s.endUserSessions caller.userId .passwordChanged caller.sessionId now
  match caller.sessionId.bind s.getSession with
  | some current =>
    if current.endedAt.isNone then s.generateToken current.id caller.userId signed
    else s.signIn caller.userId id now signed
  | none => s.signIn caller.userId id now signed

/-- `DELETE /:id`. -/
def deleteUser (s : State) (userId now : Nat) : State :=
  let s := s.endUserSessions userId .userDeleted none now
  { s with
    users := s.users.filter (· ≠ userId)
    sessions := s.sessions.map (·.disown userId) }

end State

/-! ## Events -/

/-- A request at the middleware, a handler that goes on, an account change, or a pruning. -/
inductive Event where
  | signIn (userId id : Nat)
  | request (token : Token)
  | apiRequest (userId : Nat)
  | activity (caller : Caller)
  | logout (caller : Caller)
  | changePassword (caller : Caller) (id : Nat)
  | resetPassword (userId : Nat)
  | updateRole (userId : Nat)
  | deleteUser (userId : Nat)
  | createUser (userId : Nat)
  | prune (days : Option Int)
  deriving DecidableEq, Repr

/-- The event is `POST /activity` of the session. -/
def Event.Reports (event : Event) (id : Nat) : Prop :=
  match event with
  | .activity caller => caller.sessionId = some id
  | _ => False

namespace State

/-- What an event does that starts at `now` and is done at `done`. -/
def apply (idleMs : Nat) (s : State) (now done : Nat) : Event → State
  | .signIn userId id => s.signIn userId id now done
  | .request token => (s.authMiddleware idleMs token now).1
  | .apiRequest userId => { s with waiting := s.waiting ++ [⟨userId, none⟩] }
  | .activity caller => { s with waiting := s.waiting.erase caller }.activity caller now
  | .logout caller => { s with waiting := s.waiting.erase caller }.logout caller now
  | .changePassword caller id =>
    { s with waiting := s.waiting.erase caller }.changePassword caller id now done
  | .resetPassword userId => s.endUserSessions userId .passwordReset none now
  | .updateRole userId => s.endUserSessions userId .roleChanged none now
  | .deleteUser userId => s.deleteUser userId now
  | .createUser userId => { s with users := s.users ++ [userId] }
  | .prune days => s.pruneSessions days now

/-- What can happen: a token was given out, a request that goes on was let through, and an
id of a new session was never given out before. -/
def Possible (s : State) : Event → Prop
  | .signIn _ id => id ∉ s.issued
  | .request token => token ∈ s.tokens
  | .activity caller => caller ∈ s.waiting
  | .logout caller => caller ∈ s.waiting
  | .changePassword caller id => caller ∈ s.waiting ∧ id ∉ s.issued
  | _ => True

/-- The state once an event is done. -/
def after (idleMs : Nat) (s : State) (now done : Nat) (event : Event) : State :=
  { s with clock := done }.apply idleMs now done event

/-- Events in any order at times that do not decrease. -/
inductive Run (idleMs : Nat) : State → List Event → State → Prop where
  | nil (s : State) : Run idleMs s [] s
  | cons {s last : State} {event : Event} {events : List Event} {now done : Nat}
      (possible : s.Possible event) (later : s.clock ≤ now) (ends : now ≤ done)
      (rest : Run idleMs (s.after idleMs now done event) events last) :
      Run idleMs s (event :: events) last

/-! ## What an event may do to the rows -/

/-- What never changes in a row: its id, its limit, its end once it has one, and its owner
but for being deleted. -/
structure Kept (before after : Session) : Prop where
  id : after.id = before.id
  expiresAt : after.expiresAt = before.expiresAt
  ended : before.endedAt.isSome → after.endedAt = before.endedAt ∧
    after.endReason = before.endReason
  owner : after.userId = before.userId ∨ after.userId = none

theorem Kept.refl (session : Session) : Kept session session :=
  ⟨rfl, rfl, fun _ => ⟨rfl, rfl⟩, .inl rfl⟩

theorem Kept.trans {first second third : Session} (start : Kept first second)
    (rest : Kept second third) :
    Kept first third := by
  refine ⟨rest.id.trans start.id, rest.expiresAt.trans start.expiresAt, ?_, ?_⟩
  · intro ended
    obtain ⟨at', reason⟩ := start.ended ended
    obtain ⟨at'', reason'⟩ := rest.ended (at' ▸ ended)
    exact ⟨at''.trans at', reason'.trans reason⟩
  · rcases rest.owner with same | gone
    · rw [same]
      exact start.owner
    · exact .inr gone

theorem kept_finish (session : Session) (reason : EndReason) (now : Nat) :
    Kept session (session.finish reason now) := by
  unfold Session.finish
  split
  · exact .refl session
  · rename_i live
    exact ⟨rfl, rfl, fun ended => absurd ended live, .inl rfl⟩

theorem kept_touch (session : Session) (now : Nat) : Kept session (session.touch now) := by
  unfold Session.touch
  split
  · exact .refl session
  · rename_i live
    exact ⟨rfl, rfl, fun ended => absurd ended live, .inl rfl⟩

theorem kept_disown (session : Session) (userId : Nat) : Kept session (session.disown userId) := by
  unfold Session.disown
  split
  · exact ⟨rfl, rfl, fun _ => ⟨rfl, rfl⟩, .inr rfl⟩
  · exact .refl session

theorem lastActivityAt_finish (session : Session) (reason : EndReason) (now : Nat) :
    (session.finish reason now).lastActivityAt = session.lastActivityAt := by
  unfold Session.finish
  split <;> rfl

theorem lastActivityAt_disown (session : Session) (userId : Nat) :
    (session.disown userId).lastActivityAt = session.lastActivityAt := by
  unfold Session.disown
  split <;> rfl

/-- What happened between two states, when only the sessions in `moves` were active: a row
was there and is kept, or has an id that is new. -/
structure Follows (moves : Nat → Prop) (s later : State) : Prop where
  rows : ∀ row ∈ later.sessions, row.id ∉ s.issued ∨
    ∃ before ∈ s.sessions, Kept before row ∧
    (moves row.id ∨ row.lastActivityAt = before.lastActivityAt)
  issued : s.issued ⊆ later.issued
  clock : s.clock ≤ later.clock

section Follows

variable {moves : Nat → Prop} {s later last : State}

theorem Follows.refl (s : State) : Follows moves s s :=
  ⟨fun row member => .inr ⟨row, member, .refl row, .inr rfl⟩, List.Subset.refl _, le_refl _⟩

theorem Follows.trans (start : Follows moves s later) (rest : Follows moves later last) :
    Follows moves s last := by
  refine ⟨?_, List.Subset.trans start.issued rest.issued, start.clock.trans rest.clock⟩
  intro row member
  rcases rest.rows row member with fresh | ⟨middle, inside, keptRest, movedRest⟩
  · exact .inl fun old => fresh (start.issued old)
  rcases start.rows middle inside with fresh | ⟨before, there, keptStart, movedStart⟩
  · exact .inl (keptRest.id ▸ fresh)
  · refine .inr ⟨before, there, keptStart.trans keptRest, ?_⟩
    rcases movedRest with moved | same
    · exact .inl moved
    rcases movedStart with moved | same'
    · exact .inl (keptRest.id ▸ moved)
    · exact .inr (same.trans same')

theorem Follows.mono {wider : Nat → Prop} (follows : Follows moves s later)
    (fewer : ∀ id, moves id → wider id) :
    Follows wider s later := by
  refine ⟨?_, follows.issued, follows.clock⟩
  intro row member
  rcases follows.rows row member with fresh | ⟨before, there, kept, moved⟩
  · exact .inl fresh
  · exact .inr ⟨before, there, kept, moved.imp_left (fewer row.id)⟩

theorem Follows.congr {other : State} (follows : Follows moves s later)
    (sessions : other.sessions = later.sessions) (issued : other.issued = later.issued)
    (clock : later.clock ≤ other.clock) : Follows moves s other :=
  ⟨sessions ▸ follows.rows, issued ▸ follows.issued, follows.clock.trans clock⟩

theorem follows_updateSessions {update : Session → Session}
    (kept : ∀ session, Kept session (update session)) (moved : ∀ session, moves session.id ∨
    (update session).lastActivityAt = session.lastActivityAt) :
    Follows moves s (s.updateSessions update) := by
  refine ⟨?_, List.Subset.refl _, le_refl _⟩
  intro row member
  obtain ⟨before, there, rfl⟩ := List.mem_map.mp member
  exact .inr ⟨before, there, kept before, (kept before).id ▸ moved before⟩

theorem follows_endSession (id : Nat) (reason : EndReason) (now : Nat) :
    Follows moves s (s.endSession id reason now) := by
  apply follows_updateSessions
  · intro session
    split
    · exact kept_finish session reason now
    · exact .refl session
  · intro session
    split
    · exact .inr (lastActivityAt_finish session reason now)
    · exact .inr rfl

theorem follows_endUserSessions (userId : Nat) (reason : EndReason) (except : Option Nat)
    (now : Nat) :
    Follows moves s (s.endUserSessions userId reason except now) := by
  apply follows_updateSessions
  · intro session
    split
    · exact kept_finish session reason now
    · exact .refl session
  · intro session
    split
    · exact .inr (lastActivityAt_finish session reason now)
    · exact .inr rfl

theorem follows_touchSession {id : Nat} (active : moves id) (now : Nat) :
    Follows moves s (s.touchSession id now) := by
  apply follows_updateSessions
  · intro session
    split
    · exact kept_touch session now
    · exact .refl session
  · intro session
    split
    · rename_i same
      exact .inl (same ▸ active)
    · exact .inr rfl

theorem follows_signIn {userId id : Nat} (unused : id ∉ s.issued) (now signed : Nat) :
    Follows moves s (s.signIn userId id now signed) := by
  unfold signIn
  split
  · refine ⟨?_, List.subset_cons_self _ _, le_refl _⟩
    intro row member
    rcases List.mem_append.mp member with old | new
    · exact .inr ⟨row, old, .refl row, .inr rfl⟩
    · rw [List.mem_singleton.mp new]
      exact .inl unused
  · exact .refl s

theorem follows_authMiddleware (idleMs : Nat) (token : Token) (now : Nat) :
    Follows moves s (s.authMiddleware idleMs token now).1 := by
  unfold authMiddleware
  split
  · exact .refl s
  · dsimp only
    split
    · exact follows_endSession _ _ _
    · split
      · exact .refl s
      · exact (Follows.refl s).congr rfl rfl (le_refl _)

theorem follows_changePassword (caller : Caller) {id : Nat} (unused : id ∉ s.issued)
    (now signed : Nat) :
    Follows moves s (s.changePassword caller id now signed) := by
  have ended :
      Follows moves s (s.endUserSessions caller.userId .passwordChanged caller.sessionId now) :=
    follows_endUserSessions _ _ _ _
  have begins : Follows moves s
      ((s.endUserSessions caller.userId .passwordChanged caller.sessionId now).signIn caller.userId
      id now signed) :=
    ended.trans (follows_signIn (by exact unused) now signed)
  unfold changePassword
  dsimp only
  split
  · split
    · exact ended.congr rfl rfl (le_refl _)
    · exact begins
  · exact begins

theorem follows_activity {caller : Caller} (active : ∀ id, caller.sessionId = some id → moves id)
    (now : Nat) :
    Follows moves s (s.activity caller now) := by
  unfold activity
  split
  · exact .refl s
  · rename_i id named
    exact follows_touchSession (active id named) now

theorem follows_logout (caller : Caller) (now : Nat) : Follows moves s (s.logout caller now) := by
  unfold logout
  split
  · exact .refl s
  · exact follows_endSession _ _ _

theorem follows_pruneSessions (days : Option Int) (now : Nat) :
    Follows moves s (s.pruneSessions days now) :=
  ⟨fun row member => .inr ⟨row, List.mem_of_mem_filter member, .refl row, .inr rfl⟩,
    List.Subset.refl _, le_refl _⟩

theorem follows_deleteUser (userId now : Nat) : Follows moves s (s.deleteUser userId now) := by
  have ended : Follows moves s (s.endUserSessions userId .userDeleted none now) :=
    follows_endUserSessions _ _ _ _
  have disowned : Follows moves (s.endUserSessions userId .userDeleted none now)
      ((s.endUserSessions userId .userDeleted none now).updateSessions (·.disown userId)) :=
    follows_updateSessions (fun session => kept_disown session userId)
      fun session => .inr (lastActivityAt_disown session userId)
  exact (ended.trans disowned).congr rfl rfl (le_refl _)

theorem follows_apply (idleMs now done : Nat) {event : Event} (possible : s.Possible event) :
    Follows event.Reports s (s.apply idleMs now done event) := by
  have leaves : ∀ {moves : Nat → Prop} (caller : Caller),
      Follows moves s { s with waiting := s.waiting.erase caller } :=
    fun caller => (Follows.refl s).congr rfl rfl (le_refl _)
  cases event with
  | signIn userId id => exact follows_signIn possible now done
  | request token => exact follows_authMiddleware idleMs token now
  | apiRequest userId => exact (Follows.refl s).congr rfl rfl (le_refl _)
  | activity caller => exact (leaves caller).trans (follows_activity (fun id named => named) now)
  | logout caller => exact (leaves caller).trans (follows_logout caller now)
  | changePassword caller id =>
    exact (leaves caller).trans (follows_changePassword caller (by exact possible.2) now done)
  | resetPassword userId => exact follows_endUserSessions _ _ _ _
  | updateRole userId => exact follows_endUserSessions _ _ _ _
  | deleteUser userId => exact follows_deleteUser userId now
  | createUser userId => exact (Follows.refl s).congr rfl rfl (le_refl _)
  | prune days => exact follows_pruneSessions days now

theorem follows_after {idleMs now done : Nat} {event : Event} (possible : s.Possible event)
    (inOrder : s.clock ≤ done) : Follows event.Reports s (s.after idleMs now done event) := by
  have passes : Follows event.Reports s { s with clock := done } :=
    (Follows.refl s).congr rfl rfl inOrder
  refine passes.trans (follows_apply idleMs now done ?_)
  cases event <;> exact possible

theorem Run.follows {idleMs : Nat} {events : List Event} (run : Run idleMs s events last) :
    Follows (fun id => ∃ event ∈ events, event.Reports id) s last := by
  induction run with
  | nil s => exact .refl s
  | @cons s last event events now done possible inOrder ends rest ih =>
    have first : Follows event.Reports s (s.after idleMs now done event) :=
      follows_after possible (inOrder.trans ends)
    exact (first.mono fun id reports => ⟨event, List.mem_cons_self, reports⟩).trans
      (ih.mono fun id reported => by
        obtain ⟨event, inside, reports⟩ := reported
        exact ⟨event, List.mem_cons_of_mem _ inside, reports⟩)

end Follows

/-! ## What holds of the rows and the tokens -/

/-- Ids are given out once, a token lasts as long as its row and names its row's owner, and
an owner exists. -/
structure Sound (s : State) : Prop where
  distinct : (s.sessions.map Session.id).Nodup
  rowsIssued : ∀ row ∈ s.sessions, row.id ∈ s.issued
  tokensIssued : ∀ token ∈ s.tokens, token.sessionId ∈ s.issued
  lifetime : ∀ row ∈ s.sessions, row.expiresAt ≤ sqlTime s.clock + sessionLifetimeMs / 1000
  limit : ∀ token ∈ s.tokens, ∀ row ∈ s.sessions, row.id = token.sessionId →
    row.expiresAt ≤ token.exp
  owner : ∀ token ∈ s.tokens, ∀ row ∈ s.sessions, row.id = token.sessionId →
    row.userId = some token.userId ∨ row.userId = none
  exists_owner : ∀ row ∈ s.sessions, ∀ userId, row.userId = some userId → userId ∈ s.users
  callers : ∀ caller ∈ s.waiting, ∀ id, caller.sessionId = some id →
    ∃ token ∈ s.tokens, token.sessionId = id ∧ token.userId = caller.userId

section Sound

variable {s : State}

theorem sqlTime_mono {start later : Nat} (inOrder : start ≤ later) :
    sqlTime start ≤ sqlTime later :=
  Nat.div_le_div_right inOrder

theorem sqlTime_lifetime (now : Nat) :
    sqlTime (now + sessionLifetimeMs) = sqlTime now + sessionLifetimeMs / 1000 := by
  unfold sqlTime sessionLifetimeMs
  omega

theorem Sound.passes (sound : Sound s) {done : Nat} (inOrder : s.clock ≤ done) :
    Sound { s with clock := done } :=
  { sound with
    lifetime := fun row member =>
      (sound.lifetime row member).trans (Nat.add_le_add_right (sqlTime_mono inOrder) _) }

theorem Sound.rows (sound : Sound s) {sessions : List Session}
    (distinct : (sessions.map Session.id).Nodup) (kept : ∀ row ∈ sessions, ∃ before ∈ s.sessions,
    Kept before row) :
    Sound { s with sessions := sessions } where
  distinct := distinct
  rowsIssued row member := by
    obtain ⟨before, there, kept⟩ := kept row member
    exact kept.id ▸ sound.rowsIssued before there
  tokensIssued := sound.tokensIssued
  lifetime row member := by
    obtain ⟨before, there, kept⟩ := kept row member
    exact kept.expiresAt ▸ sound.lifetime before there
  limit token given row member named := by
    obtain ⟨before, there, kept⟩ := kept row member
    exact kept.expiresAt ▸ sound.limit token given before there (kept.id.symm.trans named)
  owner token given row member named := by
    obtain ⟨before, there, kept⟩ := kept row member
    rcases kept.owner with same | gone
    · rw [same]
      exact sound.owner token given before there (kept.id.symm.trans named)
    · exact .inr gone
  exists_owner row member userId owned := by
    obtain ⟨before, there, kept⟩ := kept row member
    rcases kept.owner with same | gone
    · exact sound.exists_owner before there userId (same.symm.trans owned)
    · cases gone.symm.trans owned
  callers := sound.callers

theorem map_id_of_kept {update : Session → Session}
    (kept : ∀ session, Kept session (update session)) (sessions : List Session) :
    (sessions.map update).map Session.id = sessions.map Session.id := by
  rw [List.map_map]
  exact List.map_congr_left fun session _ => (kept session).id

theorem Sound.updateSessions (sound : Sound s) {update : Session → Session}
    (kept : ∀ session, Kept session (update session)) : Sound (s.updateSessions update) := by
  refine sound.rows ?_ ?_
  · rw [map_id_of_kept kept]
    exact sound.distinct
  · intro row member
    obtain ⟨before, there, rfl⟩ := List.mem_map.mp member
    exact ⟨before, there, kept before⟩

theorem Sound.endSession (sound : Sound s) (id : Nat) (reason : EndReason) (now : Nat) :
    Sound (s.endSession id reason now) := by
  apply sound.updateSessions
  intro session
  split
  · exact kept_finish session reason now
  · exact .refl session

theorem Sound.endUserSessions (sound : Sound s) (userId : Nat) (reason : EndReason)
    (except : Option Nat) (now : Nat) : Sound (s.endUserSessions userId reason except now) := by
  apply sound.updateSessions
  intro session
  split
  · exact kept_finish session reason now
  · exact .refl session

theorem Sound.touchSession (sound : Sound s) (id now : Nat) : Sound (s.touchSession id now) := by
  apply sound.updateSessions
  intro session
  split
  · exact kept_touch session now
  · exact .refl session

theorem Sound.createSession (sound : Sound s) {id userId now : Nat} (unused : id ∉ s.issued)
    (known : userId ∈ s.users) (already : now ≤ s.clock) :
    Sound (s.createSession id userId now) where
  distinct := by
    simp only [State.createSession, List.map_append, List.map_cons, List.map_nil]
    refine List.nodup_append.mpr ⟨sound.distinct, List.nodup_singleton _, ?_⟩
    intro old member new isNew same
    obtain ⟨row, inside, rfl⟩ := List.mem_map.mp member
    rw [List.mem_singleton.mp isNew] at same
    exact unused (same ▸ sound.rowsIssued row inside)
  rowsIssued row member := by
    rcases List.mem_append.mp member with old | new
    · exact List.mem_cons_of_mem _ (sound.rowsIssued row old)
    · rw [List.mem_singleton.mp new]
      exact List.mem_cons_self
  tokensIssued token given := List.mem_cons_of_mem _ (sound.tokensIssued token given)
  lifetime row member := by
    rcases List.mem_append.mp member with old | new
    · exact sound.lifetime row old
    · rw [List.mem_singleton.mp new]
      exact (sqlTime_lifetime now).le.trans (Nat.add_le_add_right (sqlTime_mono already) _)
  limit token given row member named := by
    rcases List.mem_append.mp member with old | new
    · exact sound.limit token given row old named
    · rw [List.mem_singleton.mp new] at named
      obtain rfl : id = token.sessionId := named
      exact absurd (sound.tokensIssued token given) unused
  owner token given row member named := by
    rcases List.mem_append.mp member with old | new
    · exact sound.owner token given row old named
    · rw [List.mem_singleton.mp new] at named
      obtain rfl : id = token.sessionId := named
      exact absurd (sound.tokensIssued token given) unused
  exists_owner row member owner owned := by
    rcases List.mem_append.mp member with old | new
    · exact sound.exists_owner row old owner owned
    · rw [List.mem_singleton.mp new] at owned
      exact Option.some.inj owned ▸ known
  callers := sound.callers

theorem Sound.generateToken (sound : Sound s) {sessionId userId signed : Nat}
    (issued : sessionId ∈ s.issued) (already : s.clock ≤ signed)
    (owner : ∀ row ∈ s.sessions, row.id = sessionId → row.userId = some userId ∨
    row.userId = none) :
    Sound (s.generateToken sessionId userId signed) where
  distinct := sound.distinct
  rowsIssued := sound.rowsIssued
  tokensIssued token given := by
    rcases List.mem_append.mp given with old | new
    · exact sound.tokensIssued token old
    · rw [List.mem_singleton.mp new]
      exact issued
  lifetime := sound.lifetime
  limit token given row member named := by
    rcases List.mem_append.mp given with old | new
    · exact sound.limit token old row member named
    · rw [List.mem_singleton.mp new]
      exact (sound.lifetime row member).trans (Nat.add_le_add_right (sqlTime_mono already) _)
  owner token given row member named := by
    rcases List.mem_append.mp given with old | new
    · exact sound.owner token old row member named
    · rw [List.mem_singleton.mp new] at named ⊢
      exact owner row member named
  exists_owner := sound.exists_owner
  callers caller waits id named := by
    obtain ⟨token, given, same⟩ := sound.callers caller waits id named
    exact ⟨token, List.mem_append_left _ given, same⟩

theorem Sound.signIn (sound : Sound s) {userId id now signed : Nat} (unused : id ∉ s.issued)
    (already : now ≤ s.clock) (signs : s.clock ≤ signed) :
    Sound (s.signIn userId id now signed) := by
  unfold State.signIn
  split
  · rename_i known
    refine (sound.createSession unused known already).generateToken List.mem_cons_self signs ?_
    intro row member named
    rcases List.mem_append.mp member with old | new
    · exact absurd (named ▸ sound.rowsIssued row old) unused
    · rw [List.mem_singleton.mp new]
      exact .inl rfl
  · exact sound

theorem Sound.waiting (sound : Sound s) {waiting : List Caller}
    (callers : ∀ caller ∈ waiting, caller ∈ s.waiting ∨
      ∀ id, caller.sessionId = some id → ∃ token ∈ s.tokens, token.sessionId = id ∧
      token.userId = caller.userId) :
    Sound { s with waiting := waiting } :=
  { sound with
    callers := fun caller waits id named => (callers caller waits).elim
      (fun old => sound.callers caller old id named) fun new => new id named }

theorem Sound.authMiddleware (sound : Sound s) {token : Token} (given : token ∈ s.tokens)
    (idleMs now : Nat) :
    Sound (s.authMiddleware idleMs token now).1 := by
  unfold State.authMiddleware
  split
  · exact sound
  · dsimp only
    split
    · exact sound.endSession _ _ _
    · split
      · exact sound
      · refine sound.waiting ?_
        intro caller waits
        rcases List.mem_append.mp waits with old | new
        · exact .inl old
        · rw [List.mem_singleton.mp new]
          exact .inr fun id named => ⟨token, given, Option.some.inj named, rfl⟩

theorem mem_of_getSession {id : Nat} {session : Session} (found : s.getSession id = some session) :
    session ∈ s.sessions ∧ session.id = id :=
  ⟨List.mem_of_find?_eq_some found, by simpa using List.find?_some found⟩

theorem not_mem_of_getSession {id : Nat} (missing : s.getSession id = none) {row : Session}
    (member : row ∈ s.sessions) : row.id ≠ id := by
  have unequal := List.find?_eq_none.mp missing row member
  simpa using unequal

theorem Sound.changePassword (sound : Sound s) {caller : Caller}
    (signedIn : ∀ id, caller.sessionId = some id →
      ∃ token ∈ s.tokens, token.sessionId = id ∧ token.userId = caller.userId)
    {id now signed : Nat} (unused : id ∉ s.issued) (already : now ≤ s.clock)
    (signs : s.clock ≤ signed) :
    Sound (s.changePassword caller id now signed) := by
  have ended := sound.endUserSessions caller.userId .passwordChanged caller.sessionId now
  have begins :
      Sound ((s.endUserSessions caller.userId .passwordChanged caller.sessionId now).signIn
      caller.userId id now signed) := ended.signIn unused already signs
  unfold State.changePassword
  dsimp only
  split
  · rename_i current found
    split
    · obtain ⟨sessionId, named, found⟩ := Option.bind_eq_some_iff.mp found
      obtain ⟨member, same⟩ := mem_of_getSession found
      obtain ⟨token, given, sameId, sameUser⟩ := signedIn sessionId named
      refine ended.generateToken (ended.rowsIssued current member) signs ?_
      intro row inside isIt
      rw [← sameUser]
      exact ended.owner token given row inside (by rw [isIt, same, sameId])
    · exact begins
  · exact begins

theorem Sound.pruneSessions (sound : Sound s) (days : Option Int) (now : Nat) :
    Sound (s.pruneSessions days now) := by
  refine sound.rows ?_ ?_
  · exact sound.distinct.sublist (List.Sublist.map _ List.filter_sublist)
  · intro row member
    exact ⟨row, List.mem_of_mem_filter member, .refl row⟩

theorem Sound.deleteUser (sound : Sound s) (userId now : Nat) :
    Sound (s.deleteUser userId now) := by
  have ended := sound.endUserSessions userId .userDeleted none now
  have disowned := ended.updateSessions fun session => kept_disown session userId
  refine { disowned with exists_owner := ?_ }
  intro row member owner owned
  refine List.mem_filter.mpr ⟨disowned.exists_owner row member owner owned, ?_⟩
  obtain ⟨before, _, rfl⟩ := List.mem_map.mp member
  unfold Session.disown at owned
  split at owned
  · cases owned
  · rename_i other
    simp only [decide_eq_true_eq]
    rintro rfl
    exact other owned

theorem Sound.apply (sound : Sound s) {idleMs now done : Nat} {event : Event}
    (possible : s.Possible event) (already : now ≤ s.clock) (ends : s.clock ≤ done) :
    Sound (s.apply idleMs now done event) := by
  have leaves : ∀ caller, Sound { s with waiting := s.waiting.erase caller } := by
    intro caller
    exact sound.waiting fun _ waits => .inl (List.mem_of_mem_erase waits)
  cases event with
  | signIn userId id => exact sound.signIn possible already ends
  | request token => exact sound.authMiddleware possible idleMs now
  | apiRequest userId =>
    refine sound.waiting ?_
    intro caller waits
    rcases List.mem_append.mp waits with old | new
    · exact .inl old
    · rw [List.mem_singleton.mp new]
      exact .inr fun id named => nomatch named
  | activity caller =>
    simp only [State.apply, State.activity]
    split
    · exact leaves caller
    · exact (leaves caller).touchSession _ _
  | logout caller =>
    simp only [State.apply, State.logout]
    split
    · exact leaves caller
    · exact (leaves caller).endSession _ _ _
  | changePassword caller id =>
    exact (leaves caller).changePassword (sound.callers caller possible.1) possible.2 already ends
  | resetPassword userId => exact sound.endUserSessions _ _ _ _
  | updateRole userId => exact sound.endUserSessions _ _ _ _
  | deleteUser userId => exact sound.deleteUser userId now
  | createUser userId =>
    exact { sound with
      exists_owner := fun row member owner owned =>
        List.mem_append_left _ (sound.exists_owner row member owner owned) }
  | prune days => exact sound.pruneSessions days now

theorem Sound.after (sound : Sound s) {idleMs now done : Nat} {event : Event}
    (possible : s.Possible event) (inOrder : s.clock ≤ now) (ends : now ≤ done) :
    Sound (s.after idleMs now done event) := by
  refine (sound.passes (inOrder.trans ends)).apply ?_ ends (le_refl done)
  cases event <;> exact possible

theorem Sound.run {idleMs : Nat} {events : List Event} {last : State} (sound : Sound s)
    (run : Run idleMs s events last) : Sound last := by
  induction run with
  | nil s => exact sound
  | cons possible inOrder ends rest ih => exact ih (sound.after possible inOrder ends)

/-- The database before anyone has signed in. -/
def signedOut (users : List Nat) : State := { users }

theorem sound_signedOut (users : List Nat) : Sound (signedOut users) := by
  constructor <;> simp [signedOut]

end Sound

/-! ## Refused once, refused for ever -/

/-- The session is over: its row is gone, ended, past its limit, or without its user. -/
def Over (s : State) (id : Nat) : Prop :=
  id ∈ s.issued ∧ ∀ row ∈ s.sessions, row.id = id →
    row.endedAt.isSome ∨ parseSqlTime row.expiresAt ≤ s.clock ∨ row.userId = none

section Over

variable {s later : State} {moves : Nat → Prop} {idleMs now done : Nat} {token : Token}

theorem Over.follows {id : Nat} (isOver : Over s id) (follows : Follows moves s later) :
    Over later id := by
  refine ⟨follows.issued isOver.1, ?_⟩
  intro row member same
  rcases follows.rows row member with fresh | ⟨before, there, kept, _⟩
  · exact absurd (same ▸ isOver.1) fresh
  rcases isOver.2 before there (kept.id.symm.trans same) with ended | expired | gone
  · exact .inl ((kept.ended ended).1 ▸ ended)
  · exact .inr (.inl (kept.expiresAt ▸ expired.trans follows.clock))
  · rcases kept.owner with owner | disowned
    · exact .inr (.inr (owner.trans gone))
    · exact .inr (.inr disowned)

theorem sessionEndReason_of_ended {session : Session} (ended : session.endedAt.isSome) :
    sessionEndReason (some session) now idleMs ≠ none := by
  simp [sessionEndReason, ended]

theorem sessionEndReason_of_expired {session : Session}
    (expired : parseSqlTime session.expiresAt ≤ now) :
    sessionEndReason (some session) now idleMs ≠ none := by
  unfold sessionEndReason
  dsimp only
  split_ifs <;> exact nofun

theorem sessionEndReason_of_idle {session : Session} (limited : 0 < idleMs)
    (idle : parseSqlTime session.lastActivityAt + idleMs ≤ now) :
    sessionEndReason (some session) now idleMs ≠ none := by
  unfold sessionEndReason
  dsimp only
  split_ifs
  · exact nofun
  · exact nofun
  · exact nofun
  · rename_i active
    exact absurd ⟨limited, idle⟩ active

theorem refused_of_reason (ends : sessionEndReason (s.getSession token.sessionId) now
    idleMs ≠ none) :
    (s.authMiddleware idleMs token now).2 ≠ .accepted := by
  obtain ⟨reason, why⟩ := Option.ne_none_iff_exists'.mp ends
  unfold authMiddleware
  split
  · exact nofun
  · simp only [why]
    exact nofun

theorem answer_of_clock (s : State) (idleMs : Nat) (token : Token) (now done : Nat) :
    ({ s with clock := done }.authMiddleware idleMs token now).2 =
    (s.authMiddleware idleMs token now).2 := by
  have same : { s with clock := done }.getSession token.sessionId = s.getSession token.sessionId :=
    rfl
  unfold authMiddleware
  split
  · rfl
  · cases why : sessionEndReason (s.getSession token.sessionId) now idleMs with
    | some reason => simp only [same, why]
    | none =>
      simp only [same, why]
      split <;> rfl

theorem refused_of_over (isOver : Over s token.sessionId) (inOrder : s.clock ≤ now) :
    (s.authMiddleware idleMs token now).2 ≠ .accepted := by
  cases found : s.getSession token.sessionId with
  | none => exact refused_of_reason (by rw [found]; simp [sessionEndReason])
  | some row =>
    obtain ⟨member, same⟩ := mem_of_getSession found
    rcases isOver.2 row member same with ended | expired | gone
    · exact refused_of_reason (by rw [found]; exact sessionEndReason_of_ended ended)
    · exact refused_of_reason
        (by rw [found]; exact sessionEndReason_of_expired (expired.trans inOrder))
    · unfold authMiddleware
      split
      · exact nofun
      · simp only [found, Option.bind_some, gone]
        split
        · exact nofun
        · rw [if_pos (.inr (by simp))]
          exact nofun

/-- After `endSession` the row has an end. -/
theorem ended_of_endSession {id : Nat} {reason : EndReason} {row : Session}
    (member : row ∈ (s.endSession id reason now).sessions) (same : row.id = id) :
    row.endedAt.isSome := by
  obtain ⟨before, _, rfl⟩ := List.mem_map.mp member
  split at same
  · rename_i isIt
    rw [if_pos isIt]
    unfold Session.finish
    split
    · assumption
    · rfl
  · contradiction

theorem over_of_refused (sound : Sound s) (given : token ∈ s.tokens) (ends : now ≤ s.clock)
    (refused : (s.authMiddleware idleMs token now).2 ≠ .accepted) :
    Over (s.authMiddleware idleMs token now).1 token.sessionId := by
  have issued := sound.tokensIssued token given
  unfold authMiddleware at refused ⊢
  by_cases expired : token.exp ≤ sqlTime now
  · -- the token's `exp` is not before the row's limit
    rw [if_pos expired]
    refine ⟨issued, ?_⟩
    intro row member same
    have limit := (sound.limit token given row member same).trans expired
    exact .inr (.inl ((Nat.mul_le_of_le_div 1000 row.expiresAt now limit).trans ends))
  · rw [if_neg expired] at refused ⊢
    cases why : sessionEndReason (s.getSession token.sessionId) now idleMs with
    | some reason =>
      simp only [why]
      refine ⟨issued, ?_⟩
      intro row member same
      exact .inl (ended_of_endSession member same)
    | none =>
      simp only [why] at refused ⊢
      split at refused
      · rename_i stranger
        rw [if_pos stranger]
        refine ⟨issued, ?_⟩
        intro row member same
        refine .inr (.inr ((sound.owner token given row member same).resolve_left ?_))
        intro owned
        cases found : s.getSession token.sessionId with
        | none => exact not_mem_of_getSession found member same
        | some first =>
          obtain ⟨inside, isIt⟩ := mem_of_getSession found
          obtain rfl : first = row :=
            List.inj_on_of_nodup_map sound.distinct inside member (isIt.trans same.symm)
          rcases stranger with unknown | other
          · exact unknown (sound.exists_owner first member token.userId owned)
          · exact other (by rw [found]; exact owned)
      · exact absurd rfl refused

/-- **A session that the middleware has refused is refused at every later time, whatever
happens; an end once set is never changed; and nothing but `POST /activity` of the session
postpones its idle end.** -/
theorem ended_session_never_works_again {minutes : Nat} {users : List Nat} {events : List Event}
    (run : Run (idleTimeoutMs minutes) (signedOut users) events s) :
    (∀ token ∈ s.tokens, ∀ now done, s.clock ≤ now → now ≤ done →
      (s.authMiddleware (idleTimeoutMs minutes) token now).2 ≠ .accepted →
      ∀ events last, Run (idleTimeoutMs minutes)
        (s.after (idleTimeoutMs minutes) now done (.request token)) events last →
      ∀ other ∈ last.tokens, other.sessionId = token.sessionId → ∀ time, last.clock ≤ time →
        (last.authMiddleware (idleTimeoutMs minutes) other time).2 ≠ .accepted) ∧
    (∀ row ∈ s.sessions, row.endedAt.isSome → ∀ events last,
      Run (idleTimeoutMs minutes) s events last → ∀ after ∈ last.sessions, after.id = row.id →
        after.endedAt = row.endedAt ∧ after.endReason = row.endReason) ∧
    ∀ row ∈ s.sessions, ∀ events last, Run (idleTimeoutMs minutes) s events last →
      (∀ event ∈ events, ¬ event.Reports row.id) →
      (∀ after ∈ last.sessions, after.id = row.id → after.lastActivityAt = row.lastActivityAt) ∧
      (0 < idleTimeoutMs minutes → ∀ token ∈ last.tokens, token.sessionId = row.id → ∀ time,
        last.clock ≤ time → parseSqlTime row.lastActivityAt + idleTimeoutMs minutes ≤ time →
        (last.authMiddleware (idleTimeoutMs minutes) token time).2 ≠ .accepted) := by
  have sound := (sound_signedOut users).run run
  -- a row of a later state with the id of a row of this one has come from it
  have origin : ∀ row ∈ s.sessions, ∀ {events last}, Run (idleTimeoutMs minutes) s events last →
      ∀ after ∈ last.sessions, after.id = row.id →
        Kept row after ∧ ((∃ event ∈ events, event.Reports row.id) ∨
        after.lastActivityAt = row.lastActivityAt) := by
    intro row member events last rest after inside same
    rcases rest.follows.rows after inside with fresh | ⟨before, there, kept, moved⟩
    · exact absurd (same ▸ sound.rowsIssued row member) fresh
    · obtain rfl : before = row :=
        List.inj_on_of_nodup_map sound.distinct there member (kept.id.symm.trans same)
      exact ⟨kept, same ▸ moved⟩
  refine ⟨?_, ?_, ?_⟩
  · intro token given now done inOrder ends refused events last rest other _ named time later
    have isOver := over_of_refused (sound.passes (inOrder.trans ends)) given ends
      ((answer_of_clock s _ token now done).symm ▸ refused)
    exact refused_of_over (named ▸ isOver.follows rest.follows) later
  · intro row member ended events last rest after inside same
    exact (origin row member rest after inside same).1.ended ended
  · intro row member events last rest quiet
    have still : ∀ after ∈ last.sessions, after.id = row.id →
        after.lastActivityAt = row.lastActivityAt := by
      intro after inside same
      refine (origin row member rest after inside same).2.resolve_left ?_
      rintro ⟨event, occurred, reports⟩
      exact quiet event occurred reports
    refine ⟨still, ?_⟩
    intro limited token _ named time _ idle
    apply refused_of_reason
    cases found : last.getSession token.sessionId with
    | none => simp [sessionEndReason]
    | some after =>
      obtain ⟨inside, same⟩ := mem_of_getSession found
      refine sessionEndReason_of_idle limited ?_
      rw [still after inside (same.trans named)]
      exact idle

/-- Someone signs in and leaves; a quarter of an hour later the session is idle, and it
stays over. -/
theorem ended_session_never_works_again_sample : ∃ s : State,
    (s.authMiddleware (idleTimeoutMs 15) ⟨7, 1, 86400⟩ 900000).2 = .sessionEnded (some .idle) ∧
    ∀ events last, Run (idleTimeoutMs 15)
      (s.after (idleTimeoutMs 15) 900000 900001 (.request ⟨7, 1, 86400⟩)) events last →
      ∀ other ∈ last.tokens, other.sessionId = 7 → ∀ time, last.clock ≤ time →
        (last.authMiddleware (idleTimeoutMs 15) other time).2 ≠ .accepted := by
  have run : Run (idleTimeoutMs 15) (signedOut [1]) [.signIn 1 7]
      ((signedOut [1]).after (idleTimeoutMs 15) 0 0 (.signIn 1 7)) :=
    .cons (by decide : 7 ∉ []) (le_refl 0) (le_refl 0) (.nil _)
  refine ⟨(signedOut [1]).after (idleTimeoutMs 15) 0 0 (.signIn 1 7), by decide, ?_⟩
  exact (ended_session_never_works_again run).1 ⟨7, 1, 86400⟩ (by decide) 900000 900001
    (by decide) (by decide) (by decide)

end Over

end State

end Sessions

end Cidrella
