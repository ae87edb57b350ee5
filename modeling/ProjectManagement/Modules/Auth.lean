import ProjectManagement.Modules.Users

/-! The auth module: refresh-token repository, service, the current user and the role check. -/

namespace ProjectManagement

open Library

variable (D : Deployment) (c : Call)

/-- `OAuth2PasswordRequestForm`: a field sent empty counts as missing. -/
def loginErrors (username password : String) : List ErrorDetail :=
  requiredField "username" username ++ requiredField "password" password

structure UserRegister where
  email : String
  password : String
  fullName : String

def UserRegister.errors (p : UserRegister) : List ErrorDetail :=
  stringLength "password" 8 128 p.password ++ stringLength "full_name" 1 255 p.fullName

structure ChangePassword where
  currentPassword : String
  newPassword : String

def ChangePassword.errors (p : ChangePassword) : List ErrorDetail :=
  stringLength "new_password" 8 128 p.newPassword

structure TokenPair where
  accessToken : AccessToken
  refreshToken : String
  deriving DecidableEq, Repr

namespace RefreshTokenRepository

def withHash (tokenHash : String) (d : Db) : List RefreshToken :=
  d.refreshTokens.rows.filter (fun t => t.tokenHash == tokenHash)

def getByHash (tokenHash : String) : App (Option RefreshToken) :=
  Tx.select fun d => scalarOneOrNone (withHash tokenHash d)

def add (t : RefreshToken) : App Unit := Tx.execute (Db.insertRefreshToken D.engine t)

def revoked (token : RefreshToken) (replacedBy : Option Uuid) : RefreshToken :=
  { token with revoked := true, replacedById := replacedBy }

def revoke (token : RefreshToken) (replacedBy : Option Uuid) : App Unit :=
  Tx.execute fun d => .ok { d with refreshTokens := d.refreshTokens.put (revoked token replacedBy) }

/-- `UPDATE refresh_tokens SET revoked = true WHERE ... AND revoked IS false`. -/
def revokeWhere (p : RefreshToken → Bool) (ts : Table RefreshToken) : Table RefreshToken :=
  ts.updateWhere (fun t => p t && !t.revoked) (fun t => { t with revoked := true }) (fun _ => rfl)

def revokeFamily (familyId : Uuid) : App Unit :=
  Tx.execute fun d => .ok { d with refreshTokens := revokeWhere (fun t => t.familyId == familyId) d.refreshTokens }

def revokeAllForUser (userId : Uuid) : App Unit :=
  Tx.execute fun d => .ok { d with refreshTokens := revokeWhere (fun t => t.userId == userId) d.refreshTokens }

def isValid (token : RefreshToken) : Bool := !token.revoked && c.now < token.expiresAt

end RefreshTokenRepository

namespace AuthService

def registerWith (insert : User → Db → Except Raised Db) (p : UserRegister) : App User := do
  enforcePasswordPolicy D p.password
  let existing ← UserRepository.getByEmail D p.email
  Tx.refuseIf (existing.isSome = true) (.app (conflictError "Email already registered" .duplicateEmail))
  let hashed ← hashPassword D c p.password
  let user := newUser D c p.email hashed p.fullName .employee
  UserRepository.addWith insert user
  pure user

abbrev register (p : UserRegister) : App User := registerWith D c (Db.insertUser D.engine) p

/-- The row `_issue_pair` adds. -/
def issuedToken (userId familyId : Uuid) : RefreshToken where
  id := c.fresh.id
  tokenHash := hashRefreshToken D (generateRefreshToken c)
  userId := userId
  familyId := familyId
  expiresAt := c.now + D.settings.refreshTokenExpireDays * 86400 * 1000000
  revoked := false
  replacedById := none

def issuePair (user : User) (familyId : Uuid) : App TokenPair := do
  RefreshTokenRepository.add D (issuedToken D c user.id familyId)
  pure ⟨createAccessToken D c user.id user.role, generateRefreshToken c⟩

def login (email password : String) : App (TokenPair × User) := do
  let found ← UserRepository.getByEmail D email
  let user ← Tx.orRaise (found.filter (fun u => verifyPassword D password u.hashedPassword))
    (.app (unauthorizedError "Incorrect email or password" .invalidCredentials))
  Tx.refuseIf (user.isActive = false) (.app (unauthorizedError "Account is inactive" .inactiveAccount))
  let pair ← issuePair D c user c.fresh.familyId
  pure (pair, user)

def reuseDetected : AppException :=
  unauthorizedError "Refresh token reuse detected; all sessions revoked" .tokenReuseDetected

/-- `refresh` once the token is known not to be revoked. -/
def rotate (record : RefreshToken) : App TokenPair := do
  Tx.refuseIf (RefreshTokenRepository.isValid c record = false)
    (.app (unauthorizedError "Refresh token expired" .invalidToken))
  let owner ← UserRepository.get record.userId
  let user ← Tx.orRaise (owner.filter User.isActive)
    (.app (unauthorizedError "Account is inactive" .inactiveAccount))
  let pair ← issuePair D c user record.familyId
  let newRecord ← RefreshTokenRepository.getByHash (hashRefreshToken D pair.refreshToken)
  RefreshTokenRepository.revoke record (newRecord.map RefreshToken.id)
  pure pair

def refresh (refreshToken : String) : App TokenPair := do
  let found ← RefreshTokenRepository.getByHash (hashRefreshToken D refreshToken)
  let record ← Tx.orRaise found (.app (unauthorizedError "Invalid refresh token" .invalidToken))
  if record.revoked = true then do
    -- the family dies for good: the commit comes before the error that rolls back
    RefreshTokenRepository.revokeFamily record.familyId
    Tx.commit
    Tx.raise (.app reuseDetected)
  else rotate D c record

def logout (refreshToken : String) : App Unit := do
  let record ← RefreshTokenRepository.getByHash (hashRefreshToken D refreshToken)
  Tx.forSome (record.filter (fun r => !r.revoked)) (RefreshTokenRepository.revoke · none)

def changePasswordWith (put : User → Db → Except Raised Db) (user : User) (p : ChangePassword) : App Unit := do
  Tx.refuseIf (verifyPassword D p.currentPassword user.hashedPassword = false)
    (.app (unauthorizedError "Current password is incorrect" .invalidCredentials))
  enforcePasswordPolicy D p.newPassword
  let hashed ← hashPassword D c p.newPassword
  RefreshTokenRepository.revokeAllForUser user.id
  let _ ← UserRepository.flushWith D c put user { user with hashedPassword := hashed }

abbrev changePassword (user : User) (p : ChangePassword) : App Unit :=
  changePasswordWith D c (Db.putUser D.engine) user p

end AuthService

/-- The bearer scheme answers a request without a token by itself. -/
def getCurrentUser : App User := do
  let token ← Tx.orRaise c.bearer (.http 401 "Not authenticated")
  let payload ← Tx.orRaise (decodeAccessToken c token)
    (.app (unauthorizedError "Invalid or expired token" .invalidToken))
  let userId ← Tx.orRaise payload.sub (.app (unauthorizedError "Invalid token subject" .invalidToken))
  let user ← UserRepository.get userId
  Tx.orRaise (user.filter User.isActive) (.app (unauthorizedError "Account not found or inactive" .inactiveAccount))

/-- `RequireRole(UserRole.admin)`. -/
def requireAdmin (user : User) : App Unit :=
  Tx.refuseIf (user.role ≠ .admin) (.app (forbiddenError "Admin access required"))

section Specs

variable {D c} {s t : Session Db Blobs} {d : Db} {u : User}

namespace RefreshTokenRepository

theorem withHash_eq_singleton {tokenHash : String} {r : RefreshToken} (h : withHash tokenHash d = [r]) :
    r ∈ d.refreshTokens.rows ∧ r.tokenHash = tokenHash := by
  have hr : r ∈ withHash tokenHash d := by simp [h]
  simpa [withHash] using hr

@[simp] theorem succeeds_getByHash {tokenHash : String} {o : Option RefreshToken} :
    (getByHash tokenHash).Succeeds s o t ↔ scalarOneOrNone (withHash tokenHash s.working) = .ok o ∧ t = s := by
  simp only [getByHash, Tx.succeeds_select]

@[simp] theorem succeeds_add {r : RefreshToken} {x : Unit} :
    (add D r).Succeeds s x t ↔
      ∃ d, Db.insertRefreshToken D.engine r s.working = .ok d ∧ t = { s with working := d } := by
  simp only [add, Tx.succeeds_execute]

@[simp] theorem succeeds_revoke {r : RefreshToken} {replacedBy : Option Uuid} {x : Unit} :
    (revoke r replacedBy).Succeeds s x t ↔ t = { s with
      working := { s.working with refreshTokens := s.working.refreshTokens.put (revoked r replacedBy) } } := by
  simp [revoke]

@[simp] theorem succeeds_revokeAllForUser {id : Uuid} {x : Unit} :
    (revokeAllForUser id).Succeeds s x t ↔ t = { s with working := { s.working with
      refreshTokens := revokeWhere (fun t => t.userId == id) s.working.refreshTokens } } := by
  simp [revokeAllForUser]

theorem of_mem_revokeWhere {p : RefreshToken → Bool} {ts : Table RefreshToken} {r : RefreshToken}
    (h : r ∈ (revokeWhere p ts).rows) : r ∈ ts.rows ∧ (p r = true → r.revoked = true) ∨
      ∃ y ∈ ts.rows, p y = true ∧ r = { y with revoked := true } := by
  rcases Table.mem_updateWhere.mp h with ⟨hr, hp⟩ | ⟨y, hy, hp, rfl⟩
  · refine Or.inl ⟨hr, fun hpr => ?_⟩
    simpa [hpr] using hp
  · simp only [Bool.and_eq_true] at hp
    exact Or.inr ⟨y, hy, hp.1, rfl⟩

theorem filter_revokeWhere {p q : RefreshToken → Bool} {ts : Table RefreshToken}
    (hq : ∀ r, q { r with revoked := true } = q r) :
    (revokeWhere p ts).rows.filter q =
      (ts.rows.filter q).map (fun r => if p r && !r.revoked then { r with revoked := true } else r) :=
  Table.filter_updateWhere hq

theorem filter_revokeWhere_of_not {p q : RefreshToken → Bool} {ts : Table RefreshToken}
    (hq : ∀ r, q { r with revoked := true } = q r)
    (hp : ∀ r ∈ ts.rows, q r = true → (p r && !r.revoked) = false) :
    (revokeWhere p ts).rows.filter q = ts.rows.filter q :=
  Table.filter_updateWhere_of_not hq hp

theorem revokeWhere_changes {p : RefreshToken → Bool} {ts : Table RefreshToken}
    {A : Option RefreshToken → Option RefreshToken → Prop}
    (h : ∀ r ∈ ts.rows, p r = true → A (some r) (some { r with revoked := true })) :
    ts.Changes (revokeWhere p ts) A := by
  apply Table.Changes.updateWhere
  intro r hr hp
  rw [Bool.and_eq_true] at hp
  exact h r hr hp.1

instance {tokenHash : String} : Tx.ReadOnly (getByHash tokenHash) := by unfold getByHash; infer_instance
instance {r : RefreshToken} : Tx.Contained (add D r) := by unfold add; infer_instance
instance {r : RefreshToken} {o : Option Uuid} : Tx.Contained (revoke r o) := by unfold revoke; infer_instance
instance {id : Uuid} : Tx.Contained (revokeFamily id) := by unfold revokeFamily; infer_instance
instance {id : Uuid} : Tx.Contained (revokeAllForUser id) := by unfold revokeAllForUser; infer_instance

end RefreshTokenRepository

namespace AuthService

instance {insert : User → Db → Except Raised Db} {p : UserRegister} : Tx.Contained (registerWith D c insert p) := by
  unfold registerWith; infer_instance
instance {id : Uuid} : Tx.Contained (issuePair D c u id) := by unfold issuePair; infer_instance
instance {email password : String} : Tx.Contained (login D c email password) := by unfold login; infer_instance
instance {r : RefreshToken} : Tx.Contained (rotate D c r) := by unfold rotate; infer_instance
instance {token : String} : Tx.Contained (logout D token) := by unfold logout; infer_instance
instance {put : User → Db → Except Raised Db} {p : ChangePassword} : Tx.Contained (changePasswordWith D c put u p) := by
  unfold changePasswordWith; infer_instance

end AuthService

/-- The account a request acts for: the live, active subject of a valid access token. -/
structure CurrentUser (c : Call) (d : Db) (u : User) : Prop where
  token : ∃ payload, c.bearer.bind (decodeAccessToken c) = some payload ∧ payload.sub = some u.id
  found : UserRepository.find u.id d = some u
  active : u.isActive = true

theorem CurrentUser.mem {v : User} (h : CurrentUser c d v) : v ∈ d.users.rows :=
  (UserRepository.find_eq_some.mp h.found).1

theorem CurrentUser.unique {v : User} (h : CurrentUser c d u) (h' : CurrentUser c d v) : u = v := by
  obtain ⟨⟨payload, hp, hs⟩, hf, -⟩ := h
  obtain ⟨⟨payload', hp', hs'⟩, hf', -⟩ := h'
  obtain rfl := Option.some.inj (hp.symm.trans hp')
  have hid : u.id = v.id := Option.some.inj (hs.symm.trans hs')
  rw [hid] at hf
  exact Option.some.inj (hf.symm.trans hf')

@[simp] theorem succeeds_getCurrentUser :
    (getCurrentUser c).Succeeds s u t ↔ CurrentUser c s.working u ∧ t = s := by
  simp only [getCurrentUser, Tx.succeeds_bind, Tx.succeeds_orRaise, UserRepository.succeeds_get]
  constructor
  · rintro ⟨token, _, ⟨hb, rfl⟩, payload, _, ⟨hp, rfl⟩, id, _, ⟨hs, rfl⟩, o, _, ⟨rfl, rfl⟩, ho, rfl⟩
    obtain ⟨hf, ha⟩ := Option.filter_eq_some_iff.mp ho
    have hid := (UserRepository.find_eq_some.mp hf).2.2
    subst hid
    exact ⟨⟨⟨payload, by simp [hb, hp], hs⟩, hf, ha⟩, rfl⟩
  · rintro ⟨⟨⟨payload, hb, hs⟩, hf, ha⟩, rfl⟩
    obtain ⟨token, ht, hp⟩ := Option.bind_eq_some_iff.mp hb
    exact ⟨token, t, ⟨ht, rfl⟩, payload, t, ⟨hp, rfl⟩, u.id, t, ⟨hs, rfl⟩, some u, t, ⟨hf.symm, rfl⟩,
      Option.filter_eq_some_iff.mpr ⟨rfl, ha⟩, rfl⟩

@[simp] theorem succeeds_requireAdmin {x : Unit} : (requireAdmin u).Succeeds s x t ↔ u.role = .admin ∧ t = s := by
  simp only [requireAdmin, Tx.succeeds_refuseIf, ne_eq, not_not]

instance : Tx.ReadOnly (getCurrentUser c) := by unfold getCurrentUser; infer_instance
instance : Tx.ReadOnly (requireAdmin u) := by unfold requireAdmin; infer_instance

end Specs

end ProjectManagement
