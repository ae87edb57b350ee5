import ProjectManagement.Library.UniqueIndex
import ProjectManagement.System
import ProjectManagement.TaskSessions

/-!
Concurrent requests that write accounts, statement by statement. A statement waits for the rows and for the entries of
`uq_users_email_active` that another transaction has touched; its constraints are checked once it has them.
-/

namespace ProjectManagement

open Library

inductive AccountKey
  | user (id : Uuid)
  | email (address : String)
  deriving DecidableEq

inductive UserChange
  | update (payload : UserUpdate)
  | role (payload : UserRoleUpdate)
  | delete

inductive AccountRequest
  | register (payload : UserRegister)
  | createUser (payload : UserCreate)
  | change (userId : Uuid) (change : UserChange)

namespace AccountRequest

def request : AccountRequest → Request
  | register p => .register p
  | createUser p => .createUser p
  | change id (.update p) => .updateUser id p
  | change id (.role p) => .updateRole id p
  | change id .delete => .deleteUser id

def response (u : User) : AccountRequest → ApiResponse
  | register _ => { statusCode := 201, message := some "Registration successful", data := .user (UserOut.modelValidate u) }
  | createUser _ => { statusCode := 201, message := some "User created", data := .user (UserOut.modelValidate u) }
  | change _ (.update _) => { message := some "User updated", data := .user (UserOut.modelValidate u) }
  | change _ (.role _) => { message := some "Role updated", data := .user (UserOut.modelValidate u) }
  | change _ .delete => noContent

end AccountRequest

/-- The columns a flush writes: those that differ from what was loaded, and `updated_at`. -/
def userSetClause (loaded row r : User) : User :=
  { r with
    email := if row.email = loaded.email then r.email else row.email
    fullName := if row.fullName = loaded.fullName then r.fullName else row.fullName
    role := if row.role = loaded.role then r.role else row.role
    isActive := if row.isActive = loaded.isActive then r.isActive else row.isActive
    deletedAt := if row.deletedAt = loaded.deletedAt then r.deletedAt else row.deletedAt
    updatedAt := row.updatedAt }

theorem key_userSetClause (loaded row r : User) : Keyed.key (userSetClause loaded row r) = Keyed.key r := rfl

inductive AccountPhase
  | start
  | admitted (payload : UserCreate)
  | enlisted (user : User)
  | claimed (user : User)
  | entitled (actor : User) (userId : Uuid) (change : UserChange)
  | found (user : User) (change : UserChange)
  | changed (user row : User) (change : UserChange)
  | seized (user row : User) (change : UserChange)
  | aligned (user row : User) (change : UserChange)
  | flushed (user : User) (change : UserChange)
  | answered (user : User)
  | done (response : ApiResponse)
  | failed (e : Raised)

section Statements

variable (D : Deployment) (c : Call)

/-- A sign-up up to its `INSERT`: one look-up, and the hash. -/
def signUp (email password fullName : String) (role : UserRole) : App User := do
  enforcePasswordPolicy D password
  let existing ← UserRepository.getByEmail D email
  Tx.refuseIf (existing.isSome = true) (.app (conflictError "Email already registered" .duplicateEmail))
  let hashed ← hashPassword D c password
  pure (newUser D c email hashed fullName role)

def enlist (p : UserRegister) : App User := do
  validated p.errors
  signUp D c p.email p.password p.fullName .employee

def administrate (p : UserCreate) : App Unit := do
  let actor ← getCurrentUser c
  requireAdmin actor
  validated p.errors

/-- The caller, and the checks that need no other row. -/
def entitle (userId : Uuid) : UserChange → App User
  | .update p => do
    let actor ← getCurrentUser c
    validated p.errors
    Tx.refuseIf (actor.role ≠ .admin ∧ actor.id ≠ userId) (.app (forbiddenError "You can only update your own profile"))
    pure actor
  | .role _ => do
    let actor ← getCurrentUser c
    requireAdmin actor
    pure actor
  | .delete => do
    let actor ← getCurrentUser c
    requireAdmin actor
    Tx.refuseIf (userId = actor.id) (.app (forbiddenError "You cannot delete your own account"))
    pure actor

def loadUser (actor : User) (userId : Uuid) (change : UserChange) : App User := do
  let found ← UserRepository.get userId
  let user ← Tx.orRaise found (.app (notFoundError "User not found"))
  match change with
  | .update p =>
    Tx.refuseIf (p.isActive.isSet = true ∧ actor.role ≠ .admin)
      (.app (forbiddenError "Only admins can change account status"))
  | .role _ => pure ()
  | .delete => pure ()
  pure user

/-- What the session holds for a row it finds: of the caller, whom it has loaded before, the columns it loaded then. -/
def remembered (actor found : User) : User := if found.id = actor.id then actor else found

def target (actor : User) (userId : Uuid) (change : UserChange) : App User := do
  let user ← loadUser actor userId change
  pure (remembered actor user)

/-- The row in memory, before the flush. -/
def alter (user : User) : UserChange → App User
  | .update p => do
    UserService.checkEmail D p.email user
    Tx.ofExcept (p.setattrs user)
  | .role p => pure { user with role := p.role }
  | .delete => pure { user with deletedAt := some c.now }

def insertIn (user : User) (d : Db) : Db :=
  match d.users.insert? user with
  | some users => { d with users := users }
  | none => d

def updateIn (loaded row : User) (d : Db) : Db :=
  { d with
    users := d.users.updateWhere (fun u => u.id == loaded.id) (userSetClause loaded row) (key_userSetClause loaded row) }

def await (keys : List AccountKey) : Write Db AccountKey := ⟨keys, id⟩

def insertStatement (user : User) : Write Db AccountKey := ⟨[.user user.id, .email user.email], insertIn user⟩

/-- `UPDATE users SET ... WHERE id = ...`, on the row as it is now. -/
def updateUserStatement (loaded row current : User) : Write Db AccountKey :=
  ⟨[.user loaded.id, .email current.email, .email (userSetClause loaded row current).email], updateIn loaded row⟩

def AccountPhase.next (request : AccountRequest) : AccountPhase → Db → Action Db AccountKey AccountPhase
  | start, d =>
    match request with
    | .register p =>
      match read (enlist D c p) d with
      | .ok user => .read (enlisted user)
      | .error e => .rollback (failed e)
    | .createUser p =>
      match read (administrate c p) d with
      | .ok _ => .read (admitted p)
      | .error e => .rollback (failed e)
    | .change userId change =>
      match read (entitle c userId change) d with
      | .ok actor => .read (entitled actor userId change)
      | .error e => .rollback (failed e)
  | admitted p, d =>
    match read (signUp D c p.email p.password p.fullName p.role) d with
    | .ok user => .read (enlisted user)
    | .error e => .rollback (failed e)
  | enlisted user, _ => .write (await [.user user.id, .email user.email]) (claimed user)
  | claimed user, d =>
    match Db.insertUser D.engine user d with
    | .ok _ => .write (insertStatement user) (answered user)
    | .error e => .rollback (failed e)
  | entitled actor userId change, d =>
    match read (target actor userId change) d with
    | .ok user => .read (found user change)
    | .error e => .rollback (failed e)
  | found user change, d =>
    match read (alter D c user change) d with
    | .ok row => if row = user then .read (flushed user change) else .read (changed user (UserRepository.stamped D c row) change)
    | .error e => .rollback (failed e)
  | changed user row change, _ => .write (await [.user user.id]) (seized user row change)
  | seized user row change, d =>
    match d.users.lookup user.id with
    | some r => .write (await [.email r.email, .email (userSetClause user row r).email]) (aligned user row change)
    | none => .rollback (failed .staleData)
  | aligned user row change, d =>
    match d.users.lookup user.id with
    | some r =>
      match Db.putUser D.engine (userSetClause user row r) d with
      | .ok _ => .write (updateUserStatement user row r) (flushed row change)
      | .error e => .rollback (failed e)
    | none => .rollback (failed .staleData)
  | flushed user change, d =>
    match change with
    | .delete => .read (answered user)
    | .update _ | .role _ =>
      match d.users.lookup user.id with
      | some r => .read (answered r)
      | none => .rollback (failed .unexpected)
  | answered user, _ => .commit (done (request.response user))
  | done _, _ => .stop
  | failed _, _ => .stop

end Statements

section Requests

variable {ι : Type} [DecidableEq ι] (D : Deployment) (calls : ι → Call) (requests : ι → AccountRequest)

abbrev AccountSessions (ι : Type) := Sessions ι Db AccountKey AccountPhase

abbrev accountStatements (i : ι) : AccountPhase → Db → Action Db AccountKey AccountPhase :=
  AccountPhase.next D (calls i) (requests i)

/-- The requests run from `d` under a schedule, which lists whose statement comes next. -/
def runAccounts (d : Db) (schedule : List ι) : AccountSessions ι :=
  (Sessions.start d .start).play (accountStatements D calls requests) schedule

end Requests

/-! The statements of a request are those of its route, in the same order. -/

section Routes

variable {D : Deployment} {c : Call}

theorem handle_register (p : UserRegister) : handle D c (.register p) = (do
    let user ← enlist D c p
    UserRepository.add D user
    pure (AccountRequest.response user (.register p))) := by
  simp only [handle, Routes.registerWith, AuthService.registerWith, enlist, signUp, bind_assoc, pure_bind, AccountRequest.response]

theorem handle_createUser (p : UserCreate) : handle D c (.createUser p) = (do
    administrate c p
    let user ← signUp D c p.email p.password p.fullName p.role
    UserRepository.add D user
    pure (AccountRequest.response user (.createUser p))) := by
  simp only [handle, Routes.createUserWith, UserService.createUserWith, administrate, signUp, bind_assoc, pure_bind,
    AccountRequest.response]

theorem find_of_entitle {userId : Uuid} {change : UserChange} {actor : User} {s t : Session Db Blobs}
    (h : (entitle c userId change).Succeeds s actor t) : UserRepository.find actor.id t.working = some actor := by
  have hcaller : CurrentUser c s.working actor ∧ t = s := by
    cases change <;>
      simp only [entitle, Tx.succeeds_bind, succeeds_getCurrentUser, succeeds_validated, succeeds_requireAdmin, Tx.succeeds_refuseIf,
        Tx.succeeds_pure] at h
    · obtain ⟨_, _, ⟨caller, rfl⟩, -, _, ⟨-, rfl⟩, -, _, ⟨-, rfl⟩, rfl, rfl⟩ := h
      exact ⟨caller, rfl⟩
    · obtain ⟨_, _, ⟨caller, rfl⟩, -, _, ⟨-, rfl⟩, rfl, rfl⟩ := h
      exact ⟨caller, rfl⟩
    · obtain ⟨_, _, ⟨caller, rfl⟩, -, _, ⟨-, rfl⟩, -, _, ⟨-, rfl⟩, rfl, rfl⟩ := h
      exact ⟨caller, rfl⟩
  obtain ⟨caller, rfl⟩ := hcaller
  exact caller.found

theorem find_of_loadUser {actor user : User} {userId : Uuid} {change : UserChange} {s t : Session Db Blobs}
    (h : (loadUser actor userId change).Succeeds s user t) : UserRepository.find user.id s.working = some user := by
  have hfound : UserRepository.find userId s.working = some user := by
    cases change <;>
      simp only [loadUser, Tx.succeeds_bind, UserRepository.succeeds_get, Tx.succeeds_orRaise, Tx.succeeds_refuseIf,
        Tx.succeeds_pure] at h
    · obtain ⟨_, _, ⟨rfl, rfl⟩, _, _, ⟨found, rfl⟩, -, _, -, rfl, -⟩ := h
      exact found
    · obtain ⟨_, _, ⟨rfl, rfl⟩, _, _, ⟨found, rfl⟩, rfl, -⟩ := h
      exact found
    · obtain ⟨_, _, ⟨rfl, rfl⟩, _, _, ⟨found, rfl⟩, rfl, -⟩ := h
      exact found
  rwa [(UserRepository.find_eq_some.mp hfound).2.2]

/-- Alone, a caller finds himself as he was loaded. -/
theorem remembered_of_loadUser {actor user : User} {userId : Uuid} {change : UserChange} {s t : Session Db Blobs}
    (loaded : UserRepository.find actor.id s.working = some actor) (h : (loadUser actor userId change).Succeeds s user t) :
    remembered actor user = user := by
  unfold remembered
  split
  · next hid =>
    have hfind := find_of_loadUser h
    rw [hid, loaded] at hfind
    exact Option.some.inj hfind
  · rfl

theorem handle_loadUser (userId : Uuid) (change : UserChange) : handle D c (AccountRequest.change userId change).request = (do
    let actor ← entitle c userId change
    let user ← loadUser actor userId change
    let row ← alter D c user change
    let saved ← UserRepository.flush D c user row
    pure (AccountRequest.response saved (.change userId change))) := by
  cases change with
  | update p =>
    simp only [AccountRequest.request, handle, Routes.updateUserWith, UserService.updateUserWith, entitle, loadUser, alter, bind_assoc,
      pure_bind, AccountRequest.response]
  | role p =>
    simp only [AccountRequest.request, handle, Routes.updateRoleWith, UserService.updateRoleWith, entitle, loadUser, alter, bind_assoc,
      pure_bind, AccountRequest.response]
  | delete =>
    simp only [AccountRequest.request, handle, Routes.deleteUserWith, UserService.deleteUserWith, UserRepository.deleteWith, entitle,
      loadUser, alter, bind_assoc, pure_bind, AccountRequest.response]

theorem handle_change (userId : Uuid) (change : UserChange) : handle D c (AccountRequest.change userId change).request = (do
    let actor ← entitle c userId change
    let user ← target actor userId change
    let row ← alter D c user change
    let saved ← UserRepository.flush D c user row
    pure (AccountRequest.response saved (.change userId change))) := by
  rw [handle_loadUser]
  apply Tx.bind_congr_of_succeeds
  intro s actor t entitled
  simp only [target, bind_assoc, pure_bind]
  -- both sides go on from the row that was found
  rw [Tx.bind_apply, Tx.bind_apply]
  rcases hfound : loadUser actor userId change t with ⟨e | user, t'⟩
  · rfl
  · simp only [remembered_of_loadUser (find_of_entitle entitled) hfound]

end Routes

/-! The index. -/

def activeEmails : UniqueIndex Db AccountKey User String where
  table := Db.users
  live := User.live
  column := User.email
  row := .user
  entry := .email

section Specs

variable {D : Deployment} {c : Call} {request : AccountRequest} {d d' : Db} {u loaded row r : User} {id : Uuid}
  {p q : AccountPhase} {w : Write Db AccountKey}

theorem users_insertIn (u : User) (d : Db) : (insertIn u d).users = d.users.inserted u := by
  unfold insertIn Table.inserted
  cases d.users.insert? u <;> rfl

theorem lookup_insertIn (u : User) (d : Db) (id : Uuid) : (insertIn u d).users.lookup id =
    if id = u.id then some ((d.users.lookup id).getD u) else d.users.lookup id := by
  rw [users_insertIn]
  exact Table.lookup_inserted

theorem lookup_updateIn (loaded row : User) (d : Db) (id : Uuid) : (updateIn loaded row d).users.lookup id =
    if id = loaded.id then (d.users.lookup id).map (userSetClause loaded row) else d.users.lookup id := by
  rw [updateIn, Table.lookup_updateWhere]
  cases hl : d.users.lookup id with
  | none => simp
  | some v =>
    obtain ⟨-, rfl⟩ := Table.lookup_eq_some.mp hl
    by_cases hid : v.id = loaded.id
    · simp [hid, Keyed.key]
    · simp [hid, Keyed.key]

theorem Db.of_not_emailTaken (h : d.emailTaken u = false) (hlive : u.live = true) :
    ∀ v ∈ d.users.rows, v.live = true → v.id ≠ u.id → v.email ≠ u.email := by
  intro v hv hl hid hemail
  simp only [Db.emailTaken, hlive, Bool.true_and, List.any_eq_false] at h
  exact h v hv (by simp [hl, hemail, hid])

theorem guarded_insert (h : Db.insertUser D.engine u d = .ok d') : activeEmails.Guarded d (insertStatement u) := by
  obtain ⟨hnew, hfree, -⟩ := Db.insertUser_ok h
  have hlookup : d.users.lookup u.id = none := Table.lookup_eq_none.mpr hnew
  have touches : activeEmails.Touches (insertStatement u).run u.id fun o => some (o.getD u) := fun d id => lookup_insertIn u d id
  apply touches.guarded
  · simp [insertStatement, activeEmails]
  · intro x hx _
    simp only [activeEmails, hlookup, Option.getD_none, Option.some.injEq] at hx
    simp [insertStatement, activeEmails, hx]
  · intro x hx hlive
    simp only [activeEmails, hlookup, Option.getD_none, Option.some.injEq] at hx
    subst hx
    exact Db.of_not_emailTaken hfree hlive

theorem guarded_update (hr : d.users.lookup loaded.id = some r) (h : Db.putUser D.engine (userSetClause loaded row r) d = .ok d') :
    activeEmails.Guarded d (updateUserStatement loaded row r) := by
  obtain ⟨hfree, -⟩ := Db.putUser_ok h
  obtain ⟨-, hid⟩ := Table.lookup_eq_some.mp hr
  have touches : activeEmails.Touches (updateUserStatement loaded row r).run loaded.id (Option.map (userSetClause loaded row)) :=
    fun d id => lookup_updateIn loaded row d id
  apply touches.guarded
  · simp [updateUserStatement, activeEmails]
  · intro x hx _
    simp only [activeEmails, hr, Option.map_some, Option.some.injEq] at hx
    simp [updateUserStatement, activeEmails, ← hx]
  · intro x hx hlive v hv hl hne
    simp only [activeEmails, hr, Option.map_some, Option.some.injEq] at hx
    subst hx
    refine Db.of_not_emailTaken hfree hlive v hv hl fun hsame => hne ?_
    exact hsame.trans hid

theorem AccountPhase.guarded (h : AccountPhase.next D c request p d = .write w q) : activeEmails.Guarded d w := by
  cases p with
  | enlisted user =>
    obtain ⟨rfl, -⟩ := Action.write.inj h
    exact UniqueIndex.guarded_of_idle fun _ => rfl
  | claimed user =>
    simp only [AccountPhase.next] at h
    split at h
    · next hinsert =>
      obtain ⟨rfl, -⟩ := Action.write.inj h
      exact guarded_insert hinsert
    · exact absurd h (by simp)
  | changed user row =>
    obtain ⟨rfl, -⟩ := Action.write.inj h
    exact UniqueIndex.guarded_of_idle fun _ => rfl
  | seized user row =>
    simp only [AccountPhase.next] at h
    split at h
    · obtain ⟨rfl, -⟩ := Action.write.inj h
      exact UniqueIndex.guarded_of_idle fun _ => rfl
    · exact absurd h (by simp)
  | aligned user row =>
    simp only [AccountPhase.next] at h
    split at h
    · next r hr =>
      split at h
      · next hput =>
        obtain ⟨rfl, -⟩ := Action.write.inj h
        exact guarded_update hr hput
      · exact absurd h (by simp)
    · exact absurd h (by simp)
  | start =>
    simp only [AccountPhase.next] at h
    split at h
    · split at h <;> exact absurd h (by simp)
    · split at h <;> exact absurd h (by simp)
    · split at h <;> exact absurd h (by simp)
  | admitted p =>
    simp only [AccountPhase.next] at h
    split at h <;> exact absurd h (by simp)
  | entitled actor userId change =>
    simp only [AccountPhase.next] at h
    split at h <;> exact absurd h (by simp)
  | found user change =>
    simp only [AccountPhase.next] at h
    split at h
    · split at h <;> exact absurd h (by simp)
    · exact absurd h (by simp)
  | flushed user change =>
    simp only [AccountPhase.next] at h
    split at h
    · exact absurd h (by simp)
    · split at h <;> exact absurd h (by simp)
    · split at h <;> exact absurd h (by simp)
  | answered user => exact absurd h (by simp [AccountPhase.next])
  | done response => exact absurd h (by simp [AccountPhase.next])
  | failed e => exact absurd h (by simp [AccountPhase.next])

end Specs

/-- Whatever the accounts that are created, changed and deleted at the same time, and whoever's statement comes next: no
two live accounts share an address, in what is committed and in what any of the transactions sees. -/
theorem emails_apart_in_every_schedule {ι : Type} [DecidableEq ι] {D : Deployment} {calls : ι → Call} {requests : ι → AccountRequest}
    {d : Db} (h : d.users.Identifies User.live User.email) (schedule : List ι) :
    (runAccounts D calls requests d schedule).committed.users.Identifies User.live User.email ∧
      ∀ i, ((runAccounts D calls requests d schedule).view i).users.Identifies User.live User.email := by
  have hmaintained : activeEmails.Maintained (runAccounts D calls requests d schedule) :=
    UniqueIndex.maintained_play (fun _ _ _ _ _ => AccountPhase.guarded) h schedule
  exact ⟨hmaintained.committed, hmaintained.view⟩

/-- A registration, and an administrator who changes to the same address. -/
def rivals : Bool → AccountRequest
  | false => .register ⟨"a@b.c", "Passw0rd", "A"⟩
  | true => .change 16 (.update { email := .value "a@b.c" })

theorem emails_apart_in_every_schedule_sample :
    (runAccounts .postgresql (fun b => if b then Call.sample 4 (some 16) else Call.sample 5 none) rivals
      (playFrom .postgresql World.initial oneTask).1
      [false, true, false, true, true, false, true, true, false, true, true, true]).committed.users.Identifies User.live User.email := by
  refine (emails_apart_in_every_schedule ?_ _).1
  exact Table.identifies_iff_nodup.mpr (by decide +kernel)

end ProjectManagement
