import ProjectManagement.TaskSessions

/-!
Concurrent sign-ins, token rotations and password changes, statement by statement. A bulk `UPDATE` is two
steps: the rows it finds when it starts, and the write, which waits for their locks and looks at each of
them again.
-/

namespace ProjectManagement

open Library

inductive AuthRequest
  | login (email password : String)
  | refresh (token : String)
  | changePassword (p : ChangePassword)

inductive AuthPhase
  | start
  | verified (user : User)
  | found (record : RefreshToken)
  | owned (record : RefreshToken) (user : User)
  | issued (record : RefreshToken) (pair : TokenPair)
  | succeeded (record : RefreshToken) (pair : TokenPair) (successor : Option Uuid)
  | replayed (familyId : Uuid)
  | suspected (familyId : Uuid) (ids : List Uuid)
  | killed
  | confirmed (user : User) (hashed : String)
  | listed (user : User) (hashed : String) (ids : List Uuid)
  | ended (user : User) (hashed : String)
  | saved (user : User)
  | answered (pair : TokenPair)
  | signedIn (pair : TokenPair)
  | changed (user : User)
  | failed (e : Raised)

section Statements

variable (D : Deployment) (c : Call)

def authenticate (email password : String) : App User := do
  let found ← UserRepository.getByEmail D email
  let user ← Tx.orRaise (found.filter (fun u => verifyPassword D password u.hashedPassword))
    (.app (unauthorizedError "Incorrect email or password" .invalidCredentials))
  Tx.refuseIf (user.isActive = false) (.app (unauthorizedError "Account is inactive" .inactiveAccount))
  pure user

def lookUp (token : String) : App RefreshToken := do
  let found ← RefreshTokenRepository.getByHash (hashRefreshToken D token)
  Tx.orRaise found (.app (unauthorizedError "Invalid refresh token" .invalidToken))

def activeOwner (record : RefreshToken) : App User := do
  let owner ← UserRepository.get record.userId
  Tx.orRaise (owner.filter User.isActive) (.app (unauthorizedError "Account is inactive" .inactiveAccount))

/-- A password change up to its first write. -/
def confirmPassword (p : ChangePassword) : App (User × String) := do
  let user ← getCurrentUser c
  validated p.errors
  Tx.refuseIf (verifyPassword D p.currentPassword user.hashedPassword = false)
    (.app (unauthorizedError "Current password is incorrect" .invalidCredentials))
  enforcePasswordPolicy D p.newPassword
  let hashed ← hashPassword D c p.newPassword
  pure (user, hashed)

def pairFor (user : User) : TokenPair := ⟨createAccessToken D c user.id user.role, generateRefreshToken c⟩

def issueStatement (userId familyId : Uuid) : Write Db RowKey :=
  ⟨[.refreshToken c.fresh.id], replay (Db.insertRefreshToken D.engine (AuthService.issuedToken D c userId familyId))⟩

/-- The revocation of one row: `revoked` and `replaced_by_id` are the columns that have changed. -/
def replaceRow (record : RefreshToken) (successor : Option Uuid) (r : RefreshToken) : RefreshToken :=
  { r with
    revoked := true
    replacedById := if successor = record.replacedById then r.replacedById else successor }

theorem key_replaceRow (record : RefreshToken) (successor : Option Uuid) (r : RefreshToken) :
    Keyed.key (replaceRow record successor r) = Keyed.key r := rfl

def replaceIn (record : RefreshToken) (successor : Option Uuid) (ts : Table RefreshToken) : Table RefreshToken :=
  ts.updateWhere (fun r => r.id == record.id) (replaceRow record successor) (key_replaceRow record successor)

def replaceStatement (record : RefreshToken) (successor : Option Uuid) : Write Db RowKey :=
  ⟨[.refreshToken record.id], fun d => { d with refreshTokens := replaceIn record successor d.refreshTokens }⟩

def unrevoked (p : RefreshToken → Bool) (d : Db) : List Uuid :=
  (d.refreshTokens.rows.filter fun t => p t && !t.revoked).map RefreshToken.id

def revokeStatement (p : RefreshToken → Bool) (ids : List Uuid) : Write Db RowKey :=
  ⟨ids.map .refreshToken, fun d => { d with
    refreshTokens := RefreshTokenRepository.revokeWhere (fun t => p t && ids.contains t.id) d.refreshTokens }⟩

def passwordStatement (user : User) (hashed : String) : Write Db RowKey :=
  ⟨[.user user.id], fun d => { d with
    users := d.users.updateWhere (fun u => u.id == user.id)
      (fun u => { u with hashedPassword := hashed, updatedAt := c.stamp D }) fun _ => rfl }⟩

/-- The `INSERT` of a new token, checked against what its transaction sees. -/
def issue (user : User) (familyId : Uuid) (next : TokenPair → AuthPhase) (d : Db) : Action Db RowKey AuthPhase :=
  match Db.insertRefreshToken D.engine (AuthService.issuedToken D c user.id familyId) d with
  | .ok _ => .write (issueStatement D c user.id familyId) (next (pairFor D c user))
  | .error e => .rollback (.failed e)

def AuthPhase.next (request : AuthRequest) : AuthPhase → Db → Action Db RowKey AuthPhase
  | start, d =>
    match request with
    | .login email password =>
      match read (authenticate D email password) d with
      | .ok user => .read (verified user)
      | .error e => .rollback (failed e)
    | .refresh token =>
      match read (lookUp D token) d with
      | .ok record =>
        if record.revoked = true then .read (replayed record.familyId)
        else if RefreshTokenRepository.isValid c record = false then
          .rollback (failed (.app (unauthorizedError "Refresh token expired" .invalidToken)))
        else .read (found record)
      | .error e => .rollback (failed e)
    | .changePassword p =>
      match read (confirmPassword D c p) d with
      | .ok (user, hashed) => .read (confirmed user hashed)
      | .error e => .rollback (failed e)
  | verified user, d => issue D c user c.fresh.familyId answered d
  | found record, d =>
    match read (activeOwner record) d with
    | .ok user => .read (owned record user)
    | .error e => .rollback (failed e)
  | owned record user, d => issue D c user record.familyId (issued record) d
  | issued record pair, d =>
    match read (RefreshTokenRepository.getByHash (hashRefreshToken D pair.refreshToken)) d with
    | .ok successor => .read (succeeded record pair (successor.map RefreshToken.id))
    | .error e => .rollback (failed e)
  | succeeded record pair successor, _ => .write (replaceStatement record successor) (answered pair)
  | replayed familyId, d => .read (suspected familyId (unrevoked (fun t => t.familyId == familyId) d))
  | suspected familyId ids, _ => .write (revokeStatement (fun t => t.familyId == familyId) ids) killed
  | killed, _ => .commit (failed (.app AuthService.reuseDetected))
  | confirmed user hashed, d => .read (listed user hashed (unrevoked (fun t => t.userId == user.id) d))
  | listed user hashed ids, _ => .write (revokeStatement (fun t => t.userId == user.id) ids) (ended user hashed)
  | ended user hashed, _ =>
    if hashed = user.hashedPassword then .read (saved user)
    else .write (passwordStatement D c user hashed) (saved user)
  | saved user, _ => .commit (changed user)
  | answered pair, _ => .commit (signedIn pair)
  | signedIn _, _ => .stop
  | changed _, _ => .stop
  | failed _, _ => .stop

end Statements

section Requests

variable {ι : Type} [DecidableEq ι] (D : Deployment) (calls : ι → Call) (requests : ι → AuthRequest)

abbrev AuthSessions (ι : Type) := Sessions ι Db RowKey AuthPhase

abbrev authStatements (i : ι) : AuthPhase → Db → Action Db RowKey AuthPhase := AuthPhase.next D (calls i) (requests i)

/-- The requests run from `d` under a schedule, which lists whose statement comes next. -/
def runAuth (d : Db) (schedule : List ι) : AuthSessions ι :=
  (Sessions.start d .start).play (authStatements D calls requests) schedule

end Requests

/-! The statements on a state in which they meet no constraint. -/

section Specs

variable {D : Deployment} {c : Call} {b : Db} {u : User} {record : RefreshToken} {userId familyId : Uuid} {successor : Option Uuid}

structure Issuable (D : Deployment) (c : Call) (userId : Uuid) (b : Db) : Prop where
  fresh : ∀ t ∈ b.refreshTokens.rows, t.id ≠ c.fresh.id ∧ t.tokenHash ≠ hashRefreshToken D (generateRefreshToken c)
  user : ∃ v ∈ b.users.rows, v.id = userId

theorem Issuable.insert (h : Issuable D c userId b) (familyId : Uuid) : ∃ ts,
    ts.rows = b.refreshTokens.rows ++ [AuthService.issuedToken D c userId familyId] ∧
      Db.insertRefreshToken D.engine (AuthService.issuedToken D c userId familyId) b = .ok { b with refreshTokens := ts } := by
  obtain ⟨u, hu, hid⟩ := h.user
  exact Db.insertRefreshToken_of_new h.fresh hu hid

theorem Issuable.issue_eq (h : Issuable D c u.id b) (next : TokenPair → AuthPhase) :
    issue D c u familyId next b = .write (issueStatement D c u.id familyId) (next (pairFor D c u)) := by
  obtain ⟨ts, -, hinsert⟩ := h.insert familyId
  rw [issue, hinsert]

theorem Issuable.run_issue (h : Issuable D c userId b) (familyId : Uuid) : ∃ ts,
    ts.rows = b.refreshTokens.rows ++ [AuthService.issuedToken D c userId familyId] ∧
      (issueStatement D c userId familyId).run b = { b with refreshTokens := ts } := by
  obtain ⟨ts, hrows, hinsert⟩ := h.insert familyId
  exact ⟨ts, hrows, by simp only [issueStatement, replay, hinsert]⟩

theorem mem_replaceIn {ts : Table RefreshToken} {t : RefreshToken} : t ∈ (replaceIn record successor ts).rows ↔
    (t ∈ ts.rows ∧ t.id ≠ record.id) ∨ ∃ t' ∈ ts.rows, t'.id = record.id ∧ replaceRow record successor t' = t := by
  rw [replaceIn, Table.mem_updateWhere]
  simp only [beq_eq_false_iff_ne, beq_iff_eq]

inductive SessionWrite (D : Deployment) (c : Call) : Write Db RowKey → Prop
  | issue (userId familyId : Uuid) : SessionWrite D c (issueStatement D c userId familyId)
  | replace (record : RefreshToken) (successor : Option Uuid) : SessionWrite D c (replaceStatement record successor)
  | revoke (p : RefreshToken → Bool) (ids : List Uuid) : SessionWrite D c (revokeStatement p ids)

/-- Ids and hashes: those from before, and those of the request itself. -/
def KnownRow (D : Deployment) (c : Call) (b : Db) (t : RefreshToken) : Prop :=
  (∃ t' ∈ b.refreshTokens.rows, t'.id = t.id ∧ t'.tokenHash = t.tokenHash) ∨
    t.id = c.fresh.id ∧ t.tokenHash = hashRefreshToken D (generateRefreshToken c)

theorem SessionWrite.run {w : Write Db RowKey} (h : SessionWrite D c w) :
    (w.run b).users = b.users ∧ ∀ t ∈ (w.run b).refreshTokens.rows, KnownRow D c b t := by
  cases h with
  | issue userId familyId =>
    simp only [issueStatement, replay]
    cases hi : Db.insertRefreshToken D.engine (AuthService.issuedToken D c userId familyId) b with
    | error e => exact ⟨rfl, fun t ht => Or.inl ⟨t, ht, rfl, rfl⟩⟩
    | ok b' =>
      obtain ⟨-, ts, hrows, rfl⟩ := Db.insertRefreshToken_ok hi
      refine ⟨rfl, fun t ht => ?_⟩
      rw [hrows, List.mem_append, List.mem_singleton] at ht
      rcases ht with ht | rfl
      · exact Or.inl ⟨t, ht, rfl, rfl⟩
      · exact Or.inr ⟨rfl, rfl⟩
  | replace record successor =>
    refine ⟨rfl, fun t ht => ?_⟩
    rcases mem_replaceIn.mp ht with ⟨ht, -⟩ | ⟨t', ht', -, rfl⟩
    · exact Or.inl ⟨t, ht, rfl, rfl⟩
    · exact Or.inl ⟨t', ht', rfl, rfl⟩
  | revoke p ids =>
    refine ⟨rfl, fun t ht => ?_⟩
    rcases RefreshTokenRepository.of_mem_revokeWhere ht with ⟨ht, -⟩ | ⟨t', ht', -, rfl⟩
    · exact Or.inl ⟨t, ht, rfl, rfl⟩
    · exact Or.inl ⟨t', ht', rfl, rfl⟩

theorem SessionWrite.run_all {ws : List (Write Db RowKey)} (h : ∀ w ∈ ws, SessionWrite D c w) :
    (ws.foldl (fun d w => w.run d) b).users = b.users ∧
      ∀ t ∈ (ws.foldl (fun d w => w.run d) b).refreshTokens.rows, KnownRow D c b t := by
  induction ws generalizing b with
  | nil => exact ⟨rfl, fun t ht => Or.inl ⟨t, ht, rfl, rfl⟩⟩
  | cons w ws ih =>
    obtain ⟨husers, hrows⟩ := (h w List.mem_cons_self).run (b := b)
    obtain ⟨husers', hrows'⟩ := ih (b := w.run b) fun w' hw' => h w' (List.mem_cons_of_mem w hw')
    refine ⟨husers'.trans husers, fun t ht => ?_⟩
    rcases hrows' t ht with ⟨t', ht', hid, hhash⟩ | hown
    · rcases hrows t' ht' with ⟨t'', ht'', hid', hhash'⟩ | ⟨hid', hhash'⟩
      · exact Or.inl ⟨t'', ht'', hid'.trans hid, hhash'.trans hhash⟩
      · exact Or.inr ⟨hid.symm.trans hid', hhash.symm.trans hhash'⟩
    · exact Or.inr hown

end Specs

end ProjectManagement
