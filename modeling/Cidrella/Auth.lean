import Cidrella.Totp

/-!
# Signing in and changing passwords

`auth/routes.js`, `routes/users.js` and `models/session.js`, for one user: `login`,
`login/totp`, `change-password` and `reset-password`, cut where they wait for bcrypt. A
handler goes on with the row it read before it waited, so whatever came in between is not
seen. Every session keeps what it rests on and the password hash in force when it was
created; once a password has changed, a session that rests on the old one is one whose
login or challenge was overtaken by the change (`sessions_rest_on_password`).
-/

set_option autoImplicit false

namespace Cidrella

namespace Auth

/-- What bcrypt and the platform's hashes compute. -/
structure Crypto where
  compare : Text → Text → Bool
  hmacSha1 : Bytes → Bytes → Bytes
  sha256 : Text → Text

/-- A row of `users`, as far as signing in reads it. -/
structure User where
  passwordHash : Text
  mustChangePassword : Bool := false
  service : Bool := false
  totpEnabled : Bool := false
  totpSecret : Option Text := none
  totpLastStep : Option Nat := none
  deriving DecidableEq, Repr

/-- A row of `user_backup_codes`. -/
structure BackupCode where
  codeHash : Text
  used : Bool := false
  deriving DecidableEq, Repr

/-- A signed challenge. The token names the user only; the password that earned it and how
often the password had changed by then are noted beside it. -/
structure Challenge where
  password : Text
  changes : Nat
  deriving DecidableEq, Repr

/-- A login that waits for bcrypt, with the row it read. -/
structure Login where
  password : Text
  user : User
  deriving DecidableEq, Repr

/-- A password change that waits for bcrypt, with the row it read and the caller's session. -/
structure PasswordChange where
  sessionId : Option Nat
  currentPassword : Text
  newPassword : Text
  user : User
  deriving DecidableEq, Repr

/-- What a session rests on. -/
inductive Origin where
  | login (password : Text)
  | totp (challenge : Challenge)
  | replacement (change : PasswordChange)
  deriving DecidableEq, Repr

/-- A row of `sessions`, with the hash in force and the number of changes when it was created. -/
structure Session where
  id : Nat
  origin : Origin
  hashInForce : Text
  changes : Nat
  ended : Bool := false
  deriving DecidableEq, Repr

/-- One user's rows, the requests that wait, the challenges given out, and how often the
password has changed. -/
structure State where
  user : User
  backupCodes : List BackupCode := []
  sessions : List Session := []
  logins : List Login := []
  comparing : List PasswordChange := []
  hashing : List PasswordChange := []
  resetting : List Text := []
  challenges : List Challenge := []
  changes : Nat := 0
  deriving DecidableEq, Repr

namespace State

/-! ## The handlers -/

/-- `createSession`. -/
def createSession (s : State) (origin : Origin) : State :=
  { s with sessions := s.sessions ++
    [⟨s.sessions.length, origin, s.user.passwordHash, s.changes, false⟩] }

/-- `endSession`. -/
def endSession (s : State) (id : Nat) : State :=
  { s with sessions := s.sessions.map fun session =>
      if session.id = id then { session with ended := true } else session }

/-- `endUserSessions`. -/
def endUserSessions (s : State) (except : Option Nat) : State :=
  { s with sessions := s.sessions.map fun session =>
      if some session.id = except then session else { session with ended := true } }

/-- `POST /login` up to `bcrypt.compare`. -/
def startLogin (s : State) (password : Text) : State :=
  if password = [] || 1024 < password.length then s
  else { s with logins := s.logins ++ [⟨password, s.user⟩] }

/-- `POST /login` after `bcrypt.compare`: all it knows of the user is the row it read. -/
def finishLogin (crypto : Crypto) (s : State) (login : Login) : State :=
  let s := { s with logins := s.logins.erase login }
  if !crypto.compare login.password login.user.passwordHash then s
  else if login.user.service then s
  else if login.user.totpEnabled then
    { s with challenges := s.challenges ++ [⟨login.password, s.changes⟩] }
  else s.createSession (.login login.password)

/-- `consumeBackupCode`: the rows of the code that are not used become used, and it counts
when there was one. -/
def consumeBackupCode (s : State) (hash : Text) : State × Bool :=
  let isIt := fun code : BackupCode => code.codeHash = hash && !code.used
  ({ s with backupCodes := s.backupCodes.map fun code => if isIt code then { code with used :=
    true } else code }, s.backupCodes.countP isIt = 1)

/-- `POST /login/totp` with a challenge that is genuine and has not expired. -/
def loginTotp (crypto : Crypto) (s : State) (challenge : Challenge) (code : Text) (nowMs : Nat) :
    State :=
  match s.user.totpSecret with
  | none => s
  | some secret =>
    if !s.user.totpEnabled || secret = [] || code = [] then s
    else if Totp.looksLikeBackupCode code then
      let (spent, consumed) := s.consumeBackupCode (crypto.sha256 (Totp.normalizeBackupCode code))
      if consumed then spent.createSession (.totp challenge) else spent
    else
      match Totp.verifyTotp crypto.hmacSha1 secret code nowMs s.user.totpLastStep with
      | none => s
      | some step =>
        { s with user := { s.user with totpLastStep := some step } }.createSession (.totp challenge)

/-- `POST /change-password` up to `bcrypt.compare`. -/
def startChangePassword (s : State) (sessionId : Option Nat) (currentPassword newPassword : Text) :
    State :=
  if currentPassword = [] || newPassword = [] then s
  else { s with comparing := s.comparing ++ [⟨sessionId, currentPassword, newPassword, s.user⟩] }

/-- `POST /change-password` from `bcrypt.compare` to `bcrypt.hash`. -/
def compareCurrentPassword (crypto : Crypto) (s : State) (change : PasswordChange) : State :=
  let s := { s with comparing := s.comparing.erase change }
  if !crypto.compare change.currentPassword change.user.passwordHash then s
  else { s with hashing := s.hashing ++ [change] }

/-- `POST /change-password` after `bcrypt.hash`. -/
def changePassword (s : State) (change : PasswordChange) (hash : Text) : State :=
  let s := { s with
    hashing := s.hashing.erase change
    user := { s.user with passwordHash := hash, mustChangePassword := false }
    changes := s.changes + 1 }
  let s := s.endUserSessions change.sessionId
  let current := s.sessions.find? fun session => some session.id = change.sessionId
  if current.any fun session => !session.ended then s else s.createSession (.replacement change)

/-- `POST /:id/reset-password` up to `bcrypt.hash`. -/
def startResetPassword (s : State) (password : Text) : State :=
  { s with resetting := s.resetting ++ [password] }

/-- `POST /:id/reset-password` after `bcrypt.hash`. -/
def resetPassword (s : State) (password hash : Text) : State :=
  { s with
    resetting := s.resetting.erase password
    user := { s.user with passwordHash := hash, mustChangePassword := true }
    changes := s.changes + 1 }.endUserSessions none

end State

/-- A request, or a request that goes on after it waited. -/
inductive Event where
  | login (password : Text)
  | loginCompared (login : Login)
  | loginTotp (challenge : Challenge) (code : Text) (nowMs : Nat)
  | changePassword (sessionId : Option Nat) (currentPassword newPassword : Text)
  | changeCompared (change : PasswordChange)
  | changeHashed (change : PasswordChange) (hash : Text)
  | resetPassword (password : Text)
  | resetHashed (password hash : Text)
  | sessionEnds (id : Nat)
  deriving DecidableEq, Repr

namespace State

/-- What an event does. -/
def apply (crypto : Crypto) (s : State) : Event → State
  | .login password => s.startLogin password
  | .loginCompared login => s.finishLogin crypto login
  | .loginTotp challenge code nowMs => s.loginTotp crypto challenge code nowMs
  | .changePassword sessionId currentPassword newPassword =>
    s.startChangePassword sessionId currentPassword newPassword
  | .changeCompared change => s.compareCurrentPassword crypto change
  | .changeHashed change hash => s.changePassword change hash
  | .resetPassword password => s.startResetPassword password
  | .resetHashed password hash => s.resetPassword password hash
  | .sessionEnds id => s.endSession id

/-- What can happen: a request goes on that waits, a challenge that was given out is
presented, a password is hashed to a hash that bcrypt matches with it, and a caller has a
live session or none. -/
def Possible (crypto : Crypto) (s : State) : Event → Prop
  | .loginCompared login => login ∈ s.logins
  | .loginTotp challenge _ _ => challenge ∈ s.challenges
  | .changePassword sessionId _ _ =>
    ∀ id ∈ sessionId, ∃ session ∈ s.sessions, session.id = id ∧ session.ended = false
  | .changeCompared change => change ∈ s.comparing
  | .changeHashed change hash => change ∈ s.hashing ∧ crypto.compare change.newPassword hash = true
  | .resetHashed password hash => password ∈ s.resetting ∧ crypto.compare password hash = true
  | _ => True

instance (crypto : Crypto) (s : State) : (event : Event) → Decidable (s.Possible crypto event)
  | .loginCompared login => inferInstanceAs (Decidable (login ∈ s.logins))
  | .loginTotp challenge _ _ => inferInstanceAs (Decidable (challenge ∈ s.challenges))
  | .changePassword sessionId _ _ => inferInstanceAs (Decidable
      (∀ id ∈ sessionId, ∃ session ∈ s.sessions, session.id = id ∧ session.ended = false))
  | .changeCompared change => inferInstanceAs (Decidable (change ∈ s.comparing))
  | .changeHashed change hash => inferInstanceAs (Decidable
      (change ∈ s.hashing ∧ crypto.compare change.newPassword hash = true))
  | .resetHashed password hash => inferInstanceAs (Decidable
      (password ∈ s.resetting ∧ crypto.compare password hash = true))
  | .login _ | .resetPassword _ | .sessionEnds _ => inferInstanceAs (Decidable True)

/-- Which events a run lets happen in a state. -/
abbrev Admits := State → Event → Prop

/-- One event. -/
inductive Step (crypto : Crypto) (admits : Admits) : State → State → Prop where
  | event (s : State) (event : Event) (possible : s.Possible crypto event)
      (allowed : admits s event) :
      Step crypto admits s (s.apply crypto event)

/-- Events in any order. -/
def Run (crypto : Crypto) (admits : Admits) : State → State → Prop :=
  Relation.ReflTransGen (Step crypto admits)

/-- The state after some events, when all of them can and may happen. -/
def replay (crypto : Crypto) (admits : Admits) [∀ s event, Decidable (admits s event)] :
    State → List Event → Option State
  | s, [] => some s
  | s, event :: events =>
    if s.Possible crypto event ∧ admits s event then replay crypto admits
      (s.apply crypto event) events
    else none

/-! ## What a session rests on -/

/-- The session rests on the password in force when it was created: its login gave a
password that matches the hash in force, or its challenge was earned by such a password
after the last change, or it was made by the change itself. -/
def Rests (crypto : Crypto) (session : Session) : Prop :=
  match session.origin with
  | .login password => crypto.compare password session.hashInForce = true
  | .totp challenge => challenge.changes = session.changes ∧
      crypto.compare challenge.password session.hashInForce = true
  | .replacement change => crypto.compare change.newPassword session.hashInForce = true

/-- The code is one that `POST /login/totp` takes: a backup code that is left, or the code of a
step that was not used. -/
def takesCode (crypto : Crypto) (s : State) (code : Text) (nowMs : Nat) : Bool :=
  if Totp.looksLikeBackupCode code then
    (s.consumeBackupCode (crypto.sha256 (Totp.normalizeBackupCode code))).2
  else s.user.totpSecret.any fun secret =>
    (Totp.verifyTotp crypto.hmacSha1 secret code nowMs s.user.totpLastStep).isSome

/-- No change overtakes: a login whose password is right finds the hash it read still in force,
and a challenge that comes with a right code was given out since the last change. -/
def undisturbed (crypto : Crypto) : Admits
  | s, .loginCompared login =>
    crypto.compare login.password login.user.passwordHash = true →
      login.user.passwordHash = s.user.passwordHash
  | s, .loginTotp challenge code nowMs => s.takesCode crypto code nowMs = true →
      challenge.changes = s.changes
  | _, _ => True

instance (crypto : Crypto) (s : State) : (event : Event) → Decidable (undisturbed crypto s event)
  | .loginCompared login => inferInstanceAs
      (Decidable (_ → login.user.passwordHash = s.user.passwordHash))
  | .loginTotp challenge _ _ => inferInstanceAs (Decidable (_ → challenge.changes = s.changes))
  | .login _ | .changePassword _ _ _ | .changeCompared _ | .changeHashed _ _ | .resetPassword _
  | .resetHashed _ _ | .sessionEnds _ => inferInstanceAs (Decidable True)

/-- Sessions rest on what was in force, and a challenge given out since the last change was
earned by the password in force. -/
structure Sound (crypto : Crypto) (s : State) : Prop where
  sessions : ∀ session ∈ s.sessions, Rests crypto session
  challenges : ∀ challenge ∈ s.challenges, challenge.changes ≤ s.changes ∧
    (challenge.changes = s.changes → crypto.compare challenge.password s.user.passwordHash = true)

section Sound

variable {crypto : Crypto} {s : State}

theorem Rests.ended {session : Session} (rests : Rests crypto session) :
    Rests crypto { session with ended := true } := rests

theorem Sound.congr {after : State} (sound : Sound crypto s)
    (sessions : after.sessions = s.sessions) (challenges : after.challenges = s.challenges)
    (changes : after.changes = s.changes) (hash : after.user.passwordHash = s.user.passwordHash) :
    Sound crypto after := by
  refine ⟨?_, ?_⟩
  · rw [sessions]
    exact sound.sessions
  · rw [challenges, changes, hash]
    exact sound.challenges

theorem Sound.createSession (sound : Sound crypto s) {origin : Origin}
    (rests : Rests crypto ⟨s.sessions.length, origin, s.user.passwordHash, s.changes, false⟩) :
    Sound crypto (s.createSession origin) := by
  refine ⟨?_, sound.challenges⟩
  intro session member
  rcases List.mem_append.mp member with old | new
  · exact sound.sessions session old
  · rw [List.mem_singleton.mp new]
    exact rests

theorem Sound.endSession (sound : Sound crypto s) (id : Nat) : Sound crypto (s.endSession id) := by
  refine ⟨?_, sound.challenges⟩
  intro session member
  obtain ⟨before, inside, rfl⟩ := List.mem_map.mp member
  split
  · exact (sound.sessions before inside).ended
  · exact sound.sessions before inside

theorem Sound.endUserSessions (sound : Sound crypto s) (except : Option Nat) :
    Sound crypto (s.endUserSessions except) := by
  refine ⟨?_, sound.challenges⟩
  intro session member
  obtain ⟨before, inside, rfl⟩ := List.mem_map.mp member
  split
  · exact sound.sessions before inside
  · exact (sound.sessions before inside).ended

theorem Sound.change (sound : Sound crypto s) (user : User) (hashing : List PasswordChange)
    (resetting : List Text) :
    Sound crypto { s with user := user, hashing := hashing, resetting := resetting, changes :=
    s.changes + 1 } := by
  refine ⟨sound.sessions, ?_⟩
  intro challenge member
  have old := (sound.challenges challenge member).1
  exact ⟨Nat.le_succ_of_le old, fun same => absurd same (Nat.ne_of_lt (Nat.lt_succ_of_le old))⟩

theorem of_not_not_compare {password hash : Text}
    (accepted : ¬ (!crypto.compare password hash) = true) :
    crypto.compare password hash = true := by
  simpa using accepted

theorem Sound.finishLogin (sound : Sound crypto s) {login : Login}
    (still : crypto.compare login.password login.user.passwordHash = true →
      login.user.passwordHash = s.user.passwordHash) :
      Sound crypto (s.finishLogin crypto login) := by
  unfold State.finishLogin
  dsimp only
  split_ifs with wrong service totp
  · exact sound.congr rfl rfl rfl rfl
  · exact sound.congr rfl rfl rfl rfl
  · refine ⟨sound.sessions, ?_⟩
    intro challenge member
    rcases List.mem_append.mp member with old | new
    · exact sound.challenges challenge old
    · rw [List.mem_singleton.mp new]
      have right := of_not_not_compare wrong
      exact ⟨le_refl _, fun _ => still right ▸ right⟩
  · refine Sound.createSession ?_ ?_
    · exact sound.congr rfl rfl rfl rfl
    · have right := of_not_not_compare wrong
      exact (still right ▸ right : crypto.compare login.password s.user.passwordHash = true)

theorem Sound.loginTotp (sound : Sound crypto s) {challenge : Challenge}
    (given : challenge ∈ s.challenges) {code : Text} {nowMs : Nat}
    (since : s.takesCode crypto code nowMs = true → challenge.changes = s.changes) :
    Sound crypto (s.loginTotp crypto challenge code nowMs) := by
  have rests (right : s.takesCode crypto code nowMs = true) :
      challenge.changes = s.changes ∧ crypto.compare challenge.password s.user.passwordHash =
      true :=
    ⟨since right, (sound.challenges challenge given).2 (since right)⟩
  unfold State.loginTotp
  split
  · exact sound
  · rename_i secret stored
    split_ifs with refused backup
    · exact sound
    · dsimp only
      split_ifs with consumed
      · refine Sound.createSession ?_ (rests ?_)
        · exact sound.congr rfl rfl rfl rfl
        · rw [takesCode, if_pos backup, consumed]
      · exact sound.congr rfl rfl rfl rfl
    · split
      · exact sound
      · rename_i step verified
        refine Sound.createSession ?_ (rests ?_)
        · exact sound.congr rfl rfl rfl rfl
        · rw [takesCode, if_neg backup, stored, Option.any_some, verified, Option.isSome_some]

theorem Sound.changePassword (sound : Sound crypto s) (change : PasswordChange) {hash : Text}
    (hashed : crypto.compare change.newPassword hash = true) :
    Sound crypto (s.changePassword change hash) := by
  have changed := (sound.change { s.user with passwordHash := hash, mustChangePassword := false }
    (s.hashing.erase change) s.resetting).endUserSessions change.sessionId
  unfold State.changePassword
  dsimp only
  split
  · exact changed
  · exact changed.createSession hashed

theorem Sound.apply (sound : Sound crypto s) {event : Event} (possible : s.Possible crypto event)
    (allowed : undisturbed crypto s event) : Sound crypto (s.apply crypto event) := by
  cases event with
  | login password =>
    rw [State.apply, State.startLogin]
    split <;> exact sound.congr rfl rfl rfl rfl
  | loginCompared login => exact sound.finishLogin allowed
  | loginTotp challenge code nowMs => exact sound.loginTotp possible allowed
  | changePassword sessionId currentPassword newPassword =>
    rw [State.apply, State.startChangePassword]
    split <;> exact sound.congr rfl rfl rfl rfl
  | changeCompared change =>
    simp only [State.apply, compareCurrentPassword]
    split <;> exact sound.congr rfl rfl rfl rfl
  | changeHashed change hash => exact sound.changePassword change possible.2
  | resetPassword password => exact sound.congr rfl rfl rfl rfl
  | resetHashed password hash => exact (sound.change _ s.hashing _).endUserSessions none
  | sessionEnds id => exact sound.endSession id

/-- The account before anyone has signed in. -/
def signedOut (user : User) (backupCodes : List BackupCode) : State := { user, backupCodes }

theorem sound_signedOut (user : User) (backupCodes : List BackupCode) :
    Sound crypto (signedOut user backupCodes) :=
  ⟨fun _ member => absurd member List.not_mem_nil, fun _ member => absurd member List.not_mem_nil⟩

theorem Run.sound {user : User} {backupCodes : List BackupCode}
    (run : Run crypto (undisturbed crypto) (signedOut user backupCodes) s) : Sound crypto s := by
  induction run with
  | refl => exact sound_signedOut user backupCodes
  | tail _ step sound =>
    cases step with
    | event event possible allowed => exact sound.apply possible allowed

/-- **In every order of logins, challenges, changes and resets in which no change overtakes
a right login that waits or a challenge that is answered, every session rests on the password
that was in force when it was created.** -/
theorem sessions_rest_on_password {user : User} {backupCodes : List BackupCode}
    (run : Run crypto (undisturbed crypto) (signedOut user backupCodes) s) :
    ∀ session ∈ s.sessions, Rests crypto session := run.sound.sessions

end Sound

/-! ## Overtaken -/

theorem run_of_replay {crypto : Crypto} {admits : Admits} [∀ s event, Decidable (admits s event)]
    (events : List Event) {s after : State} (done : replay crypto admits s events = some after) :
    Run crypto admits s after := by
  induction events generalizing s with
  | nil =>
    obtain rfl := Option.some.inj done
    exact .refl
  | cons event events ih =>
    unfold replay at done
    split at done
    · rename_i fine
      exact .head (.event s event fine.1 fine.2) (ih done)
    · cases done

/-- Hashes that show the password, for the runs below. -/
def plain : Crypto where
  compare password hash := password = hash
  hmacSha1 _ _ := List.replicate 20 0
  sha256 text := text

/-- A user with the password `old`, with or without two factors. -/
def sampleUser (totpEnabled : Bool) : User where
  passwordHash := ['o', 'l', 'd']
  totpEnabled := totpEnabled
  totpSecret := some ['A', 'A']

/-- Someone signs in, an administrator resets the password while a wrong login waits, and someone
signs in with the new one. -/
def sampleEvents : List Event :=
  [.login ['o', 'l', 'd'], .loginCompared ⟨['o', 'l', 'd'], sampleUser false⟩, .login
    ['b', 'a', 'd'], .resetPassword ['n', 'e', 'w'], .resetHashed ['n', 'e', 'w'] ['n', 'e', 'w'],
    .loginCompared ⟨['b', 'a', 'd'], sampleUser false⟩, .login ['n', 'e', 'w'], .loginCompared
      ⟨['n', 'e', 'w'],
      { sampleUser false with passwordHash := ['n', 'e', 'w'], mustChangePassword := true }⟩]

theorem sessions_rest_on_password_sample : ∃ s : State, s.sessions =
      [⟨0, .login ['o', 'l', 'd'], ['o', 'l', 'd'], 0, true⟩,
      ⟨1, .login ['n', 'e', 'w'], ['n', 'e', 'w'], 1, false⟩] ∧
    ∀ session ∈ s.sessions, Rests plain session := by
  have run : ∃ s : State, Run plain (undisturbed plain) (signedOut (sampleUser false) []) s ∧
      s.sessions = [⟨0, .login ['o', 'l', 'd'], ['o', 'l', 'd'], 0, true⟩,
        ⟨1, .login ['n', 'e', 'w'], ['n', 'e', 'w'], 1, false⟩] :=
    ⟨_, run_of_replay sampleEvents rfl, rfl⟩
  obtain ⟨s, run, sessions⟩ := run
  exact ⟨s, sessions, sessions_rest_on_password run⟩

/-- Anything possible may happen. -/
def anyEvent : Admits := fun _ _ => True

instance (s : State) (event : Event) : Decidable (anyEvent s event) :=
  inferInstanceAs (Decidable True)

/-- **A login that waits while the password is reset is let in with the old password, and
so is a challenge that the old password has earned.** -/
theorem overtaken_login_is_let_in :
    (∃ s, Run plain anyEvent (signedOut (sampleUser false) []) s ∧
      ∃ session ∈ s.sessions, 0 < session.changes ∧ session.ended = false ∧ ¬ Rests plain session) ∧
    ∃ s, Run plain anyEvent (signedOut (sampleUser true) []) s ∧
      ∃ session ∈ s.sessions, 0 < session.changes ∧ session.ended = false ∧
      ¬ Rests plain session := by
  let old : Text := ['o', 'l', 'd']
  let new : Text := ['n', 'e', 'w']
  refine ⟨⟨_, run_of_replay [.login old, .resetPassword new, .resetHashed new new,
      .loginCompared ⟨old, sampleUser false⟩] rfl, ⟨0, .login old, new, 1, false⟩, ?_, ?_, rfl, ?_⟩,
    ⟨_, run_of_replay [.login old, .loginCompared ⟨old, sampleUser true⟩, .resetPassword new,
      .resetHashed new new, .loginTotp ⟨old, 0⟩ ['0', '0', '0', '0', '0', '0'] 60000]
      rfl, ⟨0, .totp ⟨old, 0⟩, new, 1, false⟩, ?_, ?_, rfl, ?_⟩⟩
  · decide
  · decide
  · simp [Rests, plain, old, new]
  · decide
  · decide
  · simp [Rests, plain, old, new]

end State

end Auth

end Cidrella
