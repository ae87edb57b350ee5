import ProjectManagement.Api

/-!
What one request may do: an inversion of `step`, with everything the guards of the route have
established and the state it leaves.
-/

namespace ProjectManagement

open Library

def Request.reads : Request → Bool
  | .me | .listUsers _ | .getUser _ | .listProjects _ | .getProject _ | .listProjectTasks .. | .kanbanBoard _
  | .getTask _ | .listComments .. | .listFiles _ | .downloadFile _ | .listNotifications _ | .dashboard
  | .projectAnalytics _ => true
  | _ => false

section Statements

variable (D : Deployment) (c : Call)

/-- The rows a request that publishes `event` leaves in the feed. -/
def Notified (event : Option DomainEvent) (old new : Table Notification) : Prop :=
  new.rows = old.rows ++ (event.map (DomainEvent.notification D c)).toList

def taskCreatedEvent (actor : User) (p : TaskCreate) (project : Project) : Option DomainEvent :=
  (notifiedAssignee true none p.assigneeId actor).map fun assignee =>
    .taskAssigned c.fresh.id p.title project.name assignee actor.id

def taskUpdatedEvent (d : Db) (actor : User) (p : TaskUpdate) (old new : Task) : Option DomainEvent :=
  (notifiedAssignee p.assigneeId.isSet old.assigneeId new.assigneeId actor).map fun assignee =>
    .taskAssigned new.id new.title (((ProjectRepository.find new.projectId d).map Project.name).getD "")
      assignee actor.id

/-- The row an accepted status update leaves, before the flush. -/
def statusUpdated (d : Db) (p : TaskStatusUpdate) (r : Task) : Task :=
  { r with status := p.status, position := p.position.getD (TaskRepository.nextPosition r.projectId p.status d) }

end Statements

inductive Effect (D : Deployment) : Input → World → Outcome → World → Prop
  | rejected {i w e} : Effect D i w (.error e) w
  | answered {i w a} (reads : i.request.reads = true) : Effect D i w (.ok a) w
  | registered {c d b a p hashed users} (errors : p.errors = []) (policy : passwordProblems D p.password = [])
      (free : UserRepository.withEmail p.email d = [])
      (hash : D.bcrypt.hashpw p.password.toUTF8 c.fresh.salt = some hashed)
      (rows : users.rows = d.users.rows ++ [newUser D c p.email hashed p.fullName .employee]) :
      Effect D ⟨c, .register p⟩ (d, b) (.ok a) ({ d with users := users }, b)
  | loggedIn {c d b a email password u tokens} (account : UserRepository.withEmail email d = [u])
      (verified : verifyPassword D password u.hashedPassword = true) (active : u.isActive = true)
      (hash : ∀ r ∈ d.refreshTokens.rows, r.tokenHash ≠ hashRefreshToken D c.fresh.refreshToken)
      (rows : tokens.rows = d.refreshTokens.rows ++ [AuthService.issuedToken D c u.id c.fresh.familyId]) :
      Effect D ⟨c, .login email password⟩ (d, b) (.ok a) ({ d with refreshTokens := tokens }, b)
  | rotated {c d b a token r u} {tokens : Table RefreshToken}
      (presented : RefreshTokenRepository.withHash (hashRefreshToken D token) d = [r])
      (valid : RefreshTokenRepository.isValid c r = true)
      (owner : UserRepository.find r.userId d = some u) (active : u.isActive = true)
      (hash : ∀ x ∈ d.refreshTokens.rows, x.tokenHash ≠ hashRefreshToken D c.fresh.refreshToken)
      (rows : tokens.rows = d.refreshTokens.rows ++ [AuthService.issuedToken D c r.userId r.familyId]) :
      Effect D ⟨c, .refresh token⟩ (d, b) (.ok a)
        ({ d with refreshTokens := tokens.put (RefreshTokenRepository.revoked r (some c.fresh.id)) }, b)
  | reuseDetected {c d b token r}
      (presented : RefreshTokenRepository.withHash (hashRefreshToken D token) d = [r])
      (revoked : r.revoked = true) :
      Effect D ⟨c, .refresh token⟩ (d, b) (.error (.app AuthService.reuseDetected))
        ({ d with refreshTokens :=
          RefreshTokenRepository.revokeWhere (fun t => t.familyId == r.familyId) d.refreshTokens }, b)
  | loggedOut {c d b a token r} (presented : RefreshTokenRepository.withHash (hashRefreshToken D token) d = [r])
      (live : r.revoked = false) :
      Effect D ⟨c, .logout token⟩ (d, b) (.ok a)
        ({ d with refreshTokens := d.refreshTokens.put (RefreshTokenRepository.revoked r none) }, b)
  | nothingToLogOut {c w a token}
      (presented : ∀ r ∈ RefreshTokenRepository.withHash (hashRefreshToken D token) w.1, r.revoked = true) :
      Effect D ⟨c, .logout token⟩ w (.ok a) w
  | passwordChanged {c d b a p u hashed} (caller : CurrentUser c d u) (errors : p.errors = [])
      (verified : verifyPassword D p.currentPassword u.hashedPassword = true)
      (policy : passwordProblems D p.newPassword = [])
      (hash : D.bcrypt.hashpw p.newPassword.toUTF8 c.fresh.salt = some hashed) :
      Effect D ⟨c, .changePassword p⟩ (d, b) (.ok a)
        ({ d with
            users := d.users.put (afterFlush (UserRepository.stamped D c) u { u with hashedPassword := hashed })
            refreshTokens := RefreshTokenRepository.revokeWhere (fun t => t.userId == u.id) d.refreshTokens }, b)
  | userCreated {c d b a p actor hashed users} (caller : CurrentUser c d actor) (admin : actor.role = .admin)
      (errors : p.errors = []) (policy : passwordProblems D p.password = [])
      (free : UserRepository.withEmail p.email d = [])
      (hash : D.bcrypt.hashpw p.password.toUTF8 c.fresh.salt = some hashed)
      (rows : users.rows = d.users.rows ++ [newUser D c p.email hashed p.fullName p.role]) :
      Effect D ⟨c, .createUser p⟩ (d, b) (.ok a) ({ d with users := users }, b)
  | userUpdated {c d b a id p actor u v} (caller : CurrentUser c d actor) (errors : p.errors = [])
      (allowed : actor.role = .admin ∨ actor.id = id) (found : UserRepository.find id d = some u)
      (status : p.isActive.isSet = true → actor.role = .admin) (free : UserService.EmailFree D d p u)
      (sent : p.setattrs u = .ok v) :
      Effect D ⟨c, .updateUser id p⟩ (d, b) (.ok a)
        ({ d with users := d.users.put (afterFlush (UserRepository.stamped D c) u v) }, b)
  | roleUpdated {c d b a id p actor u} (caller : CurrentUser c d actor) (admin : actor.role = .admin)
      (found : UserRepository.find id d = some u) :
      Effect D ⟨c, .updateRole id p⟩ (d, b) (.ok a)
        ({ d with users := d.users.put (afterFlush (UserRepository.stamped D c) u { u with role := p.role }) }, b)
  | userDeleted {c d b a id actor u} (caller : CurrentUser c d actor) (admin : actor.role = .admin)
      (other : id ≠ actor.id) (found : UserRepository.find id d = some u) :
      Effect D ⟨c, .deleteUser id⟩ (d, b) (.ok a)
        ({ d with users :=
          d.users.put (afterFlush (UserRepository.stamped D c) u { u with deletedAt := some c.now }) }, b)
  | projectCreated {c d b a p actor projects} (caller : CurrentUser c d actor) (admin : actor.role = .admin)
      (errors : p.errors = []) (rows : projects.rows = d.projects.rows ++ [newProject D c p actor]) :
      Effect D ⟨c, .createProject p⟩ (d, b) (.ok a) ({ d with projects := projects }, b)
  | projectUpdated {c d b a id p actor q q'} (caller : CurrentUser c d actor) (admin : actor.role = .admin)
      (errors : p.errors = []) (found : ProjectRepository.find id d = some q) (sent : p.setattrs q = .ok q') :
      Effect D ⟨c, .updateProject id p⟩ (d, b) (.ok a)
        ({ d with projects := d.projects.put (afterFlush (ProjectRepository.stamped D c) q q') }, b)
  | projectDeleted {c d b a id actor q} (caller : CurrentUser c d actor) (admin : actor.role = .admin)
      (found : ProjectRepository.find id d = some q) :
      Effect D ⟨c, .deleteProject id⟩ (d, b) (.ok a)
        ({ d with projects :=
          d.projects.put (afterFlush (ProjectRepository.stamped D c) q { q with deletedAt := some c.now }) }, b)
  | memberAdded {c d b a id p actor q u members notifications} (caller : CurrentUser c d actor)
      (admin : actor.role = .admin) (found : ProjectRepository.find id d = some q)
      (user : UserRepository.find p.userId d = some u) (new : ProjectRepository.memberRows id p.userId d = [])
      (rows : members.rows = d.projectMembers.rows ++ [⟨c.fresh.id, id, p.userId, p.role⟩])
      (notified : Notified D c (some (.memberAddedToProject id q.name p.userId actor.id)) d.notifications
        notifications) :
      Effect D ⟨c, .addMember id p⟩ (d, b) (.ok a)
        ({ d with projectMembers := members, notifications := notifications }, b)
  | memberRemoved {c d b a id userId actor m} (caller : CurrentUser c d actor) (admin : actor.role = .admin)
      (member : ProjectRepository.memberRows id userId d = [m]) :
      Effect D ⟨c, .removeMember id userId⟩ (d, b) (.ok a)
        ({ d with projectMembers := d.projectMembers.deleteWhere (fun r => r.id == m.id) }, b)
  | taskCreated {c d b a p actor q tasks notifications} (caller : CurrentUser c d actor) (errors : p.errors = [])
      (access : MayAccess d p.projectId actor) (project : ProjectRepository.find p.projectId d = some q)
      (rows : tasks.rows = d.tasks.rows ++
        [newTask D c p (TaskRepository.nextPosition p.projectId p.status d) actor])
      (notified : Notified D c (taskCreatedEvent c actor p q) d.notifications notifications) :
      Effect D ⟨c, .createTask p⟩ (d, b) (.ok a) ({ d with tasks := tasks, notifications := notifications }, b)
  | taskUpdated {c d b a id p actor r r' notifications} (caller : CurrentUser c d actor)
      (task : Accessible d actor id r) (errors : p.errors = []) (sent : p.setattrs r = .ok r')
      (notified : Notified D c (taskUpdatedEvent d actor p r (afterFlush (TaskRepository.stamped D c) r r'))
        d.notifications notifications) :
      Effect D ⟨c, .updateTask id p⟩ (d, b) (.ok a)
        ({ d with
            tasks := d.tasks.put (afterFlush (TaskRepository.stamped D c) r r')
            notifications := notifications }, b)
  | taskStatusUpdated {c d b a id p actor r} (caller : CurrentUser c d actor) (task : Accessible d actor id r) :
      Effect D ⟨c, .updateTaskStatus id p⟩ (d, b) (.ok a)
        ({ d with tasks := d.tasks.put (afterFlush (TaskRepository.stamped D c) r (statusUpdated d p r)) }, b)
  | taskDeleted {c d b a id actor r} (caller : CurrentUser c d actor) (task : Accessible d actor id r) :
      Effect D ⟨c, .deleteTask id⟩ (d, b) (.ok a)
        ({ d with tasks :=
          d.tasks.put (afterFlush (TaskRepository.stamped D c) r { r with deletedAt := some c.now }) }, b)
  | commentCreated {c d b a id p actor r comments} (caller : CurrentUser c d actor) (task : Accessible d actor id r)
      (errors : p.errors = []) (rows : comments.rows = d.comments.rows ++ [newComment D c id p actor]) :
      Effect D ⟨c, .createComment id p⟩ (d, b) (.ok a) ({ d with comments := comments }, b)
  | commentUpdated {c d b a id p actor m r} (caller : CurrentUser c d actor) (errors : p.errors = [])
      (found : CommentRepository.find id d = some m) (task : Accessible d actor m.taskId r)
      (owned : actor.role = .admin ∨ m.userId = actor.id) :
      Effect D ⟨c, .updateComment id p⟩ (d, b) (.ok a)
        ({ d with comments :=
          d.comments.put (afterFlush (CommentRepository.stamped D c) m { m with content := p.content }) }, b)
  | commentDeleted {c d b a id actor m r} (caller : CurrentUser c d actor)
      (found : CommentRepository.find id d = some m) (task : Accessible d actor m.taskId r)
      (owned : actor.role = .admin ∨ m.userId = actor.id) :
      Effect D ⟨c, .deleteComment id⟩ (d, b) (.ok a)
        ({ d with comments :=
          d.comments.put (afterFlush (CommentRepository.stamped D c) m { m with deletedAt := some c.now }) }, b)
  | fileUploaded {c d b b' a id file actor r stored files} (caller : CurrentUser c d actor)
      (task : Accessible d actor id r)
      (saved : D.backend.save (keyFor c.fresh.uuid4 (textOr file.filename "")) file D.settings.maxUploadSizeBytes b =
        (.ok stored, b'))
      (names : ∀ f ∈ d.fileAttachments.rows, f.storedFilename ≠ stored.key)
      (rows : files.rows = d.fileAttachments.rows ++ [newAttachment D c id file stored actor]) :
      Effect D ⟨c, .uploadFile id file⟩ (d, b) (.ok a) ({ d with fileAttachments := files }, b')
  | uploadFailed {c d b e id file actor r} (caller : CurrentUser c d actor) (task : Accessible d actor id r) :
      Effect D ⟨c, .uploadFile id file⟩ (d, b) (.error e)
        (d, (D.backend.save (keyFor c.fresh.uuid4 (textOr file.filename "")) file
          D.settings.maxUploadSizeBytes b).2)
  | notificationRead {c d b a id u n} (caller : CurrentUser c d u) (found : NotificationRepository.find id d = some n)
      (own : n.userId = u.id) :
      Effect D ⟨c, .markRead id⟩ (d, b) (.ok a)
        ({ d with notifications := d.notifications.put { n with isRead := true } }, b)
  | allNotificationsRead {c d b a u} (caller : CurrentUser c d u) :
      Effect D ⟨c, .markAllRead⟩ (d, b) (.ok a)
        ({ d with notifications := NotificationRepository.readAll u.id d.notifications }, b)

section Steps

variable {D : Deployment} {c : Call} {i : Input} {w : World}

theorem Effect.of_readOnly {m : App ApiResponse} [Tx.ReadOnly m] (hi : i.request.reads = true) :
    Effect D i w (m.run w).1 (m.run w).2 := by
  rw [Tx.run_readOnly]
  cases (m.run w).1 with
  | error e => exact .rejected
  | ok a => exact .answered hi

/-- A route that stays inside its transaction: only its successful runs matter. -/
theorem Effect.of_contained {m : App ApiResponse} [Tx.Contained m]
    (h : ∀ a t, m.Succeeds ⟨w.1, w.1, w.2⟩ a t → Effect D i w (.ok a) (t.working, w.2)) :
    Effect D i w (m.run w).1 (m.run w).2 := by
  rcases hr : m.run w with ⟨o, v⟩
  cases o with
  | error e =>
    rw [Tx.run_error hr]
    exact .rejected
  | ok a =>
    obtain ⟨t, ht, rfl⟩ := Tx.run_ok.mp hr
    have := (Tx.Contained.succeeds ht).2
    simp only at this ⊢
    rw [this]
    exact h a t ht

end Steps

namespace Routes

variable {D : Deployment} {c : Call} {w : World}

/-! Auth. -/

instance {insert : User → Db → Except Raised Db} {p : UserRegister} : Tx.Contained (registerWith D c insert p) := by
  unfold registerWith; infer_instance
instance {email password : String} : Tx.Contained (login D c email password) := by unfold login; infer_instance
instance {token : String} : Tx.Contained (logout D token) := by unfold logout; infer_instance
instance : Tx.ReadOnly (me c) := by unfold me; infer_instance
instance {put : User → Db → Except Raised Db} {p : ChangePassword} : Tx.Contained (changePasswordWith D c put p) := by
  unfold changePasswordWith; infer_instance

theorem register_effect {p : UserRegister} :
    Effect D ⟨c, .register p⟩ w ((register D c p).run w).1 ((register D c p).run w).2 := by
  apply Effect.of_contained
  intro a t h
  simp only [registerWith, AuthService.registerWith, Tx.succeeds_bind, succeeds_validated, succeeds_enforcePasswordPolicy,
    UserRepository.succeeds_getByEmail, Tx.succeeds_refuseIf, Bool.not_eq_true, Option.isSome_eq_false_iff,
    Option.isNone_iff_eq_none, succeeds_hashPassword, UserRepository.succeeds_addWith, Tx.succeeds_pure,
    exists_eq_right_right', exists_const, ↓existsAndEq, and_true, true_and] at h
  obtain ⟨errors, hashed, ⟨policy, free, hash, d', hd, rfl⟩, -⟩ := h
  obtain ⟨_, _, users, rows, rfl⟩ := Db.insertUser_ok hd
  exact .registered errors policy (UserRepository.oneWithEmail_none.mp free).2 hash rows

theorem login_effect {email password : String} :
    Effect D ⟨c, .login email password⟩ w ((login D c email password).run w).1 ((login D c email password).run w).2 := by
  apply Effect.of_contained
  intro a t h
  simp only [login, AuthService.login, AuthService.issuePair, Tx.succeeds_bind, succeeds_validated, UserRepository.succeeds_getByEmail,
    Tx.succeeds_orRaise, Option.filter_eq_some_iff, Tx.succeeds_refuseIf, Bool.not_eq_false,
    RefreshTokenRepository.succeeds_add, Tx.succeeds_pure, exists_eq_right_right', exists_const, ↓existsAndEq,
    and_true, true_and, Prod.exists, Prod.mk.injEq] at h
  obtain ⟨-, u, ⟨account, verified, active, d', hd, rfl⟩, -⟩ := h
  obtain ⟨fresh, tokens, rows, rfl⟩ := Db.insertRefreshToken_ok hd
  exact .loggedIn (UserRepository.oneWithEmail_some.mp account).2 verified active (fun r hr => (fresh r hr).2) rows

theorem withHash_issued {d : Db} {r : RefreshToken} {ts : Table RefreshToken}
    (fresh : ∀ x ∈ d.refreshTokens.rows, x.tokenHash ≠ r.tokenHash) (rows : ts.rows = d.refreshTokens.rows ++ [r]) :
    RefreshTokenRepository.withHash r.tokenHash { d with refreshTokens := ts } = [r] := by
  have hnil : d.refreshTokens.rows.filter (fun x => x.tokenHash == r.tokenHash) = [] := by
    rw [List.filter_eq_nil_iff]
    intro x hx
    simpa using fresh x hx
  simp [RefreshTokenRepository.withHash, rows, hnil]

def refreshed (D : Deployment) (c : Call) (record : RefreshToken) : App ApiResponse := do
  let pair ← AuthService.rotate D c record
  pure { message := some "Token refreshed", data := .tokens pair }

instance {r : RefreshToken} : Tx.Contained (refreshed D c r) := by unfold refreshed; infer_instance

theorem refresh_run {token : String} :
    (refresh D c token).run w =
      match scalarOneOrNone (RefreshTokenRepository.withHash (hashRefreshToken D token) w.1) with
      | .error e => (.error e, w)
      | .ok none => (.error (.app (unauthorizedError "Invalid refresh token" .invalidToken)), w)
      | .ok (some r) =>
        if r.revoked = true then
          (.error (.app AuthService.reuseDetected),
            { w.1 with refreshTokens :=
              RefreshTokenRepository.revokeWhere (fun t => t.familyId == r.familyId) w.1.refreshTokens }, w.2)
        else (refreshed D c r).run w := by
  rcases hp : scalarOneOrNone (RefreshTokenRepository.withHash (hashRefreshToken D token) w.1) with e | _ | r
  · simp [refresh, AuthService.refresh, Tx.run, bind, RefreshTokenRepository.getByHash, Tx.select, hp]
  · simp [refresh, AuthService.refresh, Tx.run, bind, RefreshTokenRepository.getByHash, Tx.select, hp, Tx.orRaise,
      Tx.ofExcept]
  · cases hr : r.revoked with
    | true =>
      simp [refresh, AuthService.refresh, Tx.run, bind, RefreshTokenRepository.getByHash, Tx.select, hp, hr,
        Tx.orRaise, Tx.ofExcept, RefreshTokenRepository.revokeFamily, Tx.execute, Tx.commit, Tx.raise]
    | false =>
      simp [refresh, AuthService.refresh, refreshed, Tx.run, bind, RefreshTokenRepository.getByHash, Tx.select, hp, hr,
        Tx.orRaise, Tx.ofExcept]

theorem refreshed_effect {token : String} {r : RefreshToken}
    (presented : RefreshTokenRepository.withHash (hashRefreshToken D token) w.1 = [r]) :
    Effect D ⟨c, .refresh token⟩ w ((refreshed D c r).run w).1 ((refreshed D c r).run w).2 := by
  apply Effect.of_contained
  intro a t h
  simp only [refreshed, AuthService.rotate, AuthService.issuePair, Tx.succeeds_bind, Bool.not_eq_false,
    Tx.succeeds_refuseIf, UserRepository.succeeds_get, Tx.succeeds_orRaise, Option.filter_eq_some_iff,
    RefreshTokenRepository.succeeds_getByHash, RefreshTokenRepository.succeeds_add, Tx.succeeds_pure,
    exists_eq_right_right', RefreshTokenRepository.succeeds_revoke, exists_eq_left, exists_const, ↓existsAndEq,
    and_true] at h
  obtain ⟨u, d', o, ⟨valid, ⟨owner, active⟩, hd, ho, rfl⟩, -⟩ := h
  obtain ⟨fresh, tokens, rows, rfl⟩ := Db.insertRefreshToken_ok hd
  have hid : u.id = r.userId := (UserRepository.find_eq_some.mp owner).2.2
  have hissued := withHash_issued (fun x hx => (fresh x hx).2) rows
  obtain rfl : some (AuthService.issuedToken D c u.id r.familyId) = o :=
    Except.ok.inj ((scalarOneOrNone_some.mpr hissued).symm.trans ho)
  exact .rotated presented valid owner active (fun x hx => (fresh x hx).2) (hid ▸ rows)

theorem refresh_effect {token : String} :
    Effect D ⟨c, .refresh token⟩ w ((refresh D c token).run w).1 ((refresh D c token).run w).2 := by
  rw [refresh_run]
  rcases hp : scalarOneOrNone (RefreshTokenRepository.withHash (hashRefreshToken D token) w.1) with e | _ | r
  · exact .rejected
  · exact .rejected
  · have presented := scalarOneOrNone_some.mp hp
    cases hr : r.revoked with
    | true =>
      simp only [hr, if_true]
      exact .reuseDetected presented hr
    | false =>
      simp only [hr, Bool.false_eq_true, if_false]
      exact refreshed_effect presented

theorem logout_effect {token : String} :
    Effect D ⟨c, .logout token⟩ w ((logout D token).run w).1 ((logout D token).run w).2 := by
  apply Effect.of_contained
  intro a t h
  simp only [logout, AuthService.logout, Tx.succeeds_bind, RefreshTokenRepository.succeeds_getByHash,
    Tx.succeeds_forSome, Option.filter_eq_none_iff, Bool.not_eq_eq_eq_not, Bool.not_true, Bool.not_eq_false,
    Option.filter_eq_some_iff, RefreshTokenRepository.succeeds_revoke, ↓existsAndEq, and_true, Tx.succeeds_pure,
    exists_eq_right_right', exists_const] at h
  obtain ⟨⟨o, presented, ⟨revoked, rfl⟩ | ⟨r, ⟨rfl, live⟩, rfl⟩⟩, -⟩ := h
  · refine .nothingToLogOut fun r hr => revoked r ?_
    cases o with
    | none => simp [scalarOneOrNone_none.mp presented] at hr
    | some x =>
      rw [scalarOneOrNone_some.mp presented, List.mem_singleton] at hr
      rw [hr]
  · exact .loggedOut (scalarOneOrNone_some.mp presented) live

theorem changePassword_effect {p : ChangePassword} :
    Effect D ⟨c, .changePassword p⟩ w ((changePassword D c p).run w).1 ((changePassword D c p).run w).2 := by
  apply Effect.of_contained
  intro a t h
  simp only [changePasswordWith, AuthService.changePasswordWith, Tx.succeeds_bind, succeeds_getCurrentUser, succeeds_validated,
    Tx.succeeds_refuseIf, Bool.not_eq_false, succeeds_enforcePasswordPolicy, succeeds_hashPassword,
    RefreshTokenRepository.succeeds_revokeAllForUser, Tx.succeeds_pure, true_and, exists_eq_right', exists_eq_left,
    exists_const, ↓existsAndEq, and_true, exists_eq_right_right'] at h
  obtain ⟨u, caller, errors, ⟨verified, policy, hashed, hash, v, hf⟩, -⟩ := h
  obtain ⟨rfl, -, rfl⟩ := UserRepository.succeeds_flush (UserRepository.find_eq_some.mp caller.found).1 hf
  exact .passwordChanged caller errors verified policy hash

/-! Users. -/

instance {sorter : Sorter User} {params : PageParams} : Tx.ReadOnly (listUsersWith D c sorter params) := by
  unfold listUsersWith; infer_instance
instance {insert : User → Db → Except Raised Db} {p : UserCreate} : Tx.Contained (createUserWith D c insert p) := by
  unfold createUserWith; infer_instance
instance {id : Uuid} : Tx.ReadOnly (getUser c id) := by unfold getUser; infer_instance
instance {put : User → Db → Except Raised Db} {id : Uuid} {p : UserUpdate} : Tx.Contained (updateUserWith D c put id p) := by
  unfold updateUserWith; infer_instance
instance {put : User → Db → Except Raised Db} {id : Uuid} {p : UserRoleUpdate} : Tx.Contained (updateRoleWith D c put id p) := by
  unfold updateRoleWith; infer_instance
instance {put : User → Db → Except Raised Db} {id : Uuid} : Tx.Contained (deleteUserWith D c put id) := by
  unfold deleteUserWith; infer_instance

theorem createUser_effect {p : UserCreate} :
    Effect D ⟨c, .createUser p⟩ w ((createUser D c p).run w).1 ((createUser D c p).run w).2 := by
  apply Effect.of_contained
  intro a t h
  simp only [createUserWith, UserService.createUserWith, Tx.succeeds_bind, succeeds_getCurrentUser, succeeds_requireAdmin,
    succeeds_validated, succeeds_enforcePasswordPolicy, UserRepository.succeeds_getByEmail, Tx.succeeds_refuseIf,
    Bool.not_eq_true, Option.isSome_eq_false_iff, Option.isNone_iff_eq_none, succeeds_hashPassword,
    UserRepository.succeeds_addWith, Tx.succeeds_pure, exists_eq_right_right', exists_const, ↓existsAndEq, and_true,
    true_and] at h
  obtain ⟨actor, caller, admin, errors, hashed, ⟨policy, free, hash, d', hd, rfl⟩, -⟩ := h
  obtain ⟨_, _, users, rows, rfl⟩ := Db.insertUser_ok hd
  exact .userCreated caller admin errors policy (UserRepository.oneWithEmail_none.mp free).2 hash rows

theorem updateUser_effect {id : Uuid} {p : UserUpdate} :
    Effect D ⟨c, .updateUser id p⟩ w ((updateUser D c id p).run w).1 ((updateUser D c id p).run w).2 := by
  apply Effect.of_contained
  intro a t h
  simp only [updateUserWith, UserService.updateUserWith, ne_eq, Tx.succeeds_bind, succeeds_getCurrentUser, succeeds_validated,
    Tx.succeeds_refuseIf, not_and, Decidable.not_not, UserRepository.succeeds_get, Tx.succeeds_orRaise,
    UserService.succeeds_checkEmail, Tx.succeeds_ofExcept, ↓existsAndEq, and_true, exists_const, exists_eq_left,
    Tx.succeeds_pure, exists_eq_right_right'] at h
  obtain ⟨actor, caller, errors, v, ⟨allowed, u, found, status, free, u', sent, hf⟩, -⟩ := h
  obtain ⟨rfl, -, rfl⟩ := UserRepository.succeeds_flush (UserRepository.find_eq_some.mp found).1 hf
  exact .userUpdated caller errors (or_iff_not_imp_left.mpr allowed) found status free sent

theorem updateRole_effect {id : Uuid} {p : UserRoleUpdate} :
    Effect D ⟨c, .updateRole id p⟩ w ((updateRole D c id p).run w).1 ((updateRole D c id p).run w).2 := by
  apply Effect.of_contained
  intro a t h
  simp only [updateRoleWith, UserService.updateRoleWith, Tx.succeeds_bind, succeeds_getCurrentUser, succeeds_requireAdmin,
    UserRepository.succeeds_get, Tx.succeeds_orRaise, ↓existsAndEq, and_true, exists_eq_left, Tx.succeeds_pure,
    exists_eq_right_right', exists_const] at h
  obtain ⟨actor, caller, admin, v, ⟨u, found, hf⟩, -⟩ := h
  obtain ⟨rfl, -, rfl⟩ := UserRepository.succeeds_flush (UserRepository.find_eq_some.mp found).1 hf
  exact .roleUpdated caller admin found

theorem deleteUser_effect {id : Uuid} :
    Effect D ⟨c, .deleteUser id⟩ w ((deleteUser D c id).run w).1 ((deleteUser D c id).run w).2 := by
  apply Effect.of_contained
  intro a t h
  simp only [deleteUserWith, UserService.deleteUserWith, UserRepository.deleteWith, Tx.succeeds_bind, succeeds_getCurrentUser,
    succeeds_requireAdmin, Tx.succeeds_refuseIf, UserRepository.succeeds_get, Tx.succeeds_orRaise, Tx.succeeds_pure,
    true_and, exists_eq_right', ↓existsAndEq, and_true, exists_eq_left, exists_const, exists_eq_right_right'] at h
  obtain ⟨actor, caller, admin, ⟨other, u, found, v, hf⟩, -⟩ := h
  obtain ⟨rfl, -, rfl⟩ := UserRepository.succeeds_flush (UserRepository.find_eq_some.mp found).1 hf
  exact .userDeleted caller admin other found

/-! Projects. -/

instance {message : Option String} {r : Project × List LoadedMember} : Tx.ReadOnly (projectDetail message r) := by
  unfold projectDetail; infer_instance
instance {sorter : Sorter Project} {params : PageParams} : Tx.ReadOnly (listProjectsWith D c sorter params) := by
  unfold listProjectsWith; infer_instance
instance {p : ProjectCreate} : Tx.Contained (createProject D c p) := by unfold createProject; infer_instance
instance {id : Uuid} : Tx.ReadOnly (getProject c id) := by unfold getProject; infer_instance
instance {id : Uuid} {p : ProjectUpdate} : Tx.Contained (updateProject D c id p) := by
  unfold updateProject; infer_instance
instance {id : Uuid} : Tx.Contained (deleteProject D c id) := by unfold deleteProject; infer_instance
instance {id : Uuid} {p : MemberAdd} : Tx.Contained (addMember D c id p) := by unfold addMember; infer_instance
instance {id userId : Uuid} : Tx.Contained (removeMember c id userId) := by unfold removeMember; infer_instance

theorem createProject_effect {p : ProjectCreate} :
    Effect D ⟨c, .createProject p⟩ w ((createProject D c p).run w).1 ((createProject D c p).run w).2 := by
  apply Effect.of_contained
  intro a t h
  simp only [createProject, ProjectService.createProject, Tx.succeeds_bind, succeeds_getCurrentUser,
    succeeds_requireAdmin, succeeds_validated, ProjectRepository.succeeds_add, Tx.succeeds_pure,
    exists_eq_right_right', exists_const, ↓existsAndEq, and_true] at h
  obtain ⟨actor, caller, admin, errors, ⟨d', hd, rfl⟩, -⟩ := h
  obtain ⟨_, projects, rows, rfl⟩ := Db.insertProject_ok hd
  exact .projectCreated caller admin errors rows

theorem updateProject_effect {id : Uuid} {p : ProjectUpdate} :
    Effect D ⟨c, .updateProject id p⟩ w ((updateProject D c id p).run w).1 ((updateProject D c id p).run w).2 := by
  apply Effect.of_contained
  intro a t h
  simp only [updateProject, ProjectService.updateProject, Tx.succeeds_bind, succeeds_getCurrentUser,
    succeeds_requireAdmin, succeeds_validated, ProjectRepository.succeeds_get, Tx.succeeds_orRaise,
    Tx.succeeds_ofExcept, ↓existsAndEq, and_true, exists_eq_left, exists_const] at h
  obtain ⟨actor, caller, admin, errors, r, s, ⟨q, found, q', sent, q'', u, hf, hd⟩, ht⟩ := h
  obtain rfl := Tx.ReadOnly.succeeds hd
  obtain rfl := Tx.ReadOnly.succeeds ht
  obtain ⟨rfl, rfl⟩ := ProjectRepository.succeeds_flush (ProjectRepository.find_eq_some.mp found).1 hf
  exact .projectUpdated caller admin errors found sent

theorem deleteProject_effect {id : Uuid} :
    Effect D ⟨c, .deleteProject id⟩ w ((deleteProject D c id).run w).1 ((deleteProject D c id).run w).2 := by
  apply Effect.of_contained
  intro a t h
  simp only [deleteProject, ProjectService.deleteProject, ProjectRepository.delete, Tx.succeeds_bind,
    succeeds_getCurrentUser, succeeds_requireAdmin, ProjectRepository.succeeds_get, Tx.succeeds_orRaise,
    Tx.succeeds_pure, true_and, exists_eq_right', ↓existsAndEq, and_true, exists_eq_left, exists_eq_right_right',
    exists_const] at h
  obtain ⟨actor, caller, admin, ⟨q, found, q', hf⟩, -⟩ := h
  obtain ⟨rfl, rfl⟩ := ProjectRepository.succeeds_flush (ProjectRepository.find_eq_some.mp found).1 hf
  exact .projectDeleted caller admin found

theorem addMember_effect {id : Uuid} {p : MemberAdd} :
    Effect D ⟨c, .addMember id p⟩ w ((addMember D c id p).run w).1 ((addMember D c id p).run w).2 := by
  apply Effect.of_contained
  intro a t h
  simp only [addMember, ProjectService.addMember, Tx.succeeds_bind, succeeds_getCurrentUser, succeeds_requireAdmin,
    ProjectRepository.succeeds_get, Tx.succeeds_orRaise, UserRepository.succeeds_get, Tx.succeeds_refuseIf,
    ProjectRepository.succeeds_isMember, Bool.not_eq_true, ProjectRepository.succeeds_addMember,
    EventBus.succeeds_publish, ProjectRepository.succeeds_getMember, exists_eq_right_right', exists_eq_right,
    exists_const, ↓existsAndEq, and_true, Bool.exists_bool, true_and, Bool.true_eq_false, false_and, and_false,
    or_false, exists_eq_left, Tx.succeeds_pure] at h
  obtain ⟨actor, caller, admin, l, q, d', d'', ⟨found, user, new, hm, hn, -⟩, _, ⟨-, rfl⟩, -⟩ := h
  obtain ⟨_, members, rows, rfl⟩ := Db.insertProjectMember_ok hm
  obtain ⟨_, notifications, notified, rfl⟩ := Db.insertNotification_ok hn
  obtain ⟨u, user⟩ := Option.ne_none_iff_exists'.mp user
  exact .memberAdded caller admin found user (ProjectRepository.isMember_eq_false.mp new) rows notified

theorem removeMember_effect {id userId : Uuid} :
    Effect D ⟨c, .removeMember id userId⟩ w ((removeMember c id userId).run w).1
      ((removeMember c id userId).run w).2 := by
  apply Effect.of_contained
  intro a t h
  simp only [removeMember, ProjectService.removeMember, Tx.succeeds_bind, succeeds_getCurrentUser,
    succeeds_requireAdmin, ProjectRepository.succeeds_getMember, Tx.succeeds_orRaise,
    ProjectRepository.succeeds_removeMember, ↓existsAndEq, and_true, true_and, Tx.succeeds_pure,
    exists_eq_right_right', exists_const] at h
  obtain ⟨actor, caller, admin, ⟨l, hl, rfl⟩, -⟩ := h
  obtain ⟨m, member, rfl⟩ := ProjectRepository.getMember_eq_some.mp hl
  exact .memberRemoved caller admin member

/-! Tasks. -/

instance {id : Uuid} : Tx.ReadOnly (accessibleTask c id) := by unfold accessibleTask; infer_instance
instance {sorter : Sorter Task} {id : Uuid} {params : PageParams} : Tx.ReadOnly (listProjectTasksWith D c sorter id params) := by
  unfold listProjectTasksWith; infer_instance
instance {id : Uuid} : Tx.ReadOnly (kanbanBoard D c id) := by unfold kanbanBoard; infer_instance
instance {p : TaskCreate} : Tx.Contained (createTask D c p) := by unfold createTask; infer_instance
instance {id : Uuid} : Tx.ReadOnly (getTask c id) := by unfold getTask; infer_instance
instance {id : Uuid} {p : TaskUpdate} : Tx.Contained (updateTask D c id p) := by unfold updateTask; infer_instance
instance {id : Uuid} {p : TaskStatusUpdate} : Tx.Contained (updateTaskStatus D c id p) := by
  unfold updateTaskStatus; infer_instance
instance {id : Uuid} : Tx.Contained (deleteTask D c id) := by unfold deleteTask; infer_instance

@[simp] theorem succeeds_accessibleTask {id : Uuid} {r : User × LoadedTask} {s t : Session Db Blobs} :
    (accessibleTask c id).Succeeds s r t ↔
      ∃ actor task, CurrentUser c s.working actor ∧ Accessible s.working actor id task ∧
        r = (actor, s.working.loadTask task) ∧ t = s := by
  simp only [accessibleTask, Tx.succeeds_bind, succeeds_getCurrentUser, succeeds_getAccessibleTask, Tx.succeeds_pure]
  constructor
  · rintro ⟨actor, _, ⟨caller, rfl⟩, _, _, ⟨task, ht, rfl, rfl⟩, rfl, rfl⟩
    exact ⟨actor, task, caller, ht, rfl, rfl⟩
  · rintro ⟨actor, task, caller, ht, rfl, rfl⟩
    exact ⟨actor, _, ⟨caller, rfl⟩, _, _, ⟨task, ht, rfl, rfl⟩, rfl, rfl⟩

theorem createTask_effect {p : TaskCreate} :
    Effect D ⟨c, .createTask p⟩ w ((createTask D c p).run w).1 ((createTask D c p).run w).2 := by
  apply Effect.of_contained
  intro a t h
  simp only [createTask, TaskService.createTask, TaskService.notifyAssignment, Tx.succeeds_bind,
    succeeds_getCurrentUser, succeeds_validated, Tx.succeeds_refuseIf, Bool.not_eq_false,
    ProjectRepository.succeeds_get, Tx.succeeds_orRaise, Tx.succeeds_query, TaskRepository.succeeds_add,
    Tx.succeeds_forSome, EventBus.succeeds_publish, TaskRepository.succeeds_get, exists_eq_right_right',
    exists_eq_right, Option.some_eq_map_iff, exists_const, ↓existsAndEq, and_true, exists_eq_left, Tx.succeeds_pure,
    Bool.exists_bool, Bool.false_eq_true, false_and, and_false, exists_false, succeeds_mayAccess_true, true_and,
    false_or] at h
  obtain ⟨actor, caller, errors, access, q, d', task, ⟨project, hd, hn, -⟩, -⟩ := h
  obtain ⟨_, tasks, rows, rfl⟩ := Db.insertTask_ok hd
  rcases hn with ⟨hnone, rfl⟩ | ⟨assignee, hsome, d'', hd', rfl⟩
  · have hnone : notifiedAssignee true none p.assigneeId actor = none := hnone
    refine .taskCreated caller errors access project rows ?_
    simp [Notified, taskCreatedEvent, hnone]
  · have hsome : notifiedAssignee true none p.assigneeId actor = some assignee := hsome
    obtain ⟨_, notifications, notified, rfl⟩ := Db.insertNotification_ok hd'
    refine .taskCreated caller errors access project rows ?_
    simp only [Notified, taskCreatedEvent, hsome, Option.map_some, Option.toList_some]
    exact notified

theorem updateTask_effect {id : Uuid} {p : TaskUpdate} :
    Effect D ⟨c, .updateTask id p⟩ w ((updateTask D c id p).run w).1 ((updateTask D c id p).run w).2 := by
  apply Effect.of_contained
  intro a t h
  simp only [updateTask, TaskService.updateTask, TaskService.notifyAssignment, Tx.succeeds_bind,
    succeeds_accessibleTask, succeeds_validated, Tx.succeeds_ofExcept, Tx.succeeds_forSome,
    ProjectRepository.succeeds_get, EventBus.succeeds_publish, TaskRepository.succeeds_reload, Db.loadTask_row,
    exists_eq_left, exists_const, ↓existsAndEq, and_true, Tx.succeeds_pure] at h
  obtain ⟨actor, r, ⟨caller, task⟩, errors, r', o, u, _, ⟨sent, hf, hn, -⟩, -⟩ := h
  obtain ⟨rfl, rfl⟩ := TaskRepository.succeeds_flush task.mem hf
  rcases hn with ⟨hnone, rfl⟩ | ⟨assignee, hsome, d', hd, rfl⟩
  · refine .taskUpdated caller task errors sent ?_
    simp [Notified, taskUpdatedEvent, hnone]
  · obtain ⟨_, notifications, notified, rfl⟩ := Db.insertNotification_ok hd
    refine .taskUpdated caller task errors sent ?_
    simp only [Notified, taskUpdatedEvent, hsome, Option.map_some, Option.toList_some]
    exact notified

theorem updateTaskStatus_effect {id : Uuid} {p : TaskStatusUpdate} :
    Effect D ⟨c, .updateTaskStatus id p⟩ w ((updateTaskStatus D c id p).run w).1
      ((updateTaskStatus D c id p).run w).2 := by
  apply Effect.of_contained
  intro a t h
  simp only [updateTaskStatus, TaskService.updateStatus, Tx.succeeds_bind, succeeds_accessibleTask,
    Tx.succeeds_query, TaskRepository.succeeds_reload, Db.loadTask_row, exists_eq_left, ↓existsAndEq, and_true, Tx.succeeds_pure] at h
  obtain ⟨actor, r, ⟨caller, task⟩, o, _, ⟨hf, -⟩, -⟩ := h
  obtain ⟨rfl, rfl⟩ := TaskRepository.succeeds_flush task.mem hf
  exact .taskStatusUpdated caller task

theorem deleteTask_effect {id : Uuid} :
    Effect D ⟨c, .deleteTask id⟩ w ((deleteTask D c id).run w).1 ((deleteTask D c id).run w).2 := by
  apply Effect.of_contained
  intro a t h
  simp only [deleteTask, TaskService.deleteTask, TaskRepository.delete, Tx.succeeds_bind, succeeds_accessibleTask,
    Db.loadTask_row, Tx.succeeds_pure, true_and, exists_eq_right', ↓existsAndEq, and_true, exists_const] at h
  obtain ⟨actor, r, ⟨caller, task⟩, ⟨o, hf⟩, -⟩ := h
  obtain ⟨rfl, rfl⟩ := TaskRepository.succeeds_flush task.mem hf
  exact .taskDeleted caller task

/-! Comments. -/

instance {id : Uuid} {params : PageParams} : Tx.ReadOnly (listComments D c id params) := by
  unfold listComments; infer_instance
instance {id : Uuid} {p : CommentPayload} : Tx.Contained (createComment D c id p) := by
  unfold createComment; infer_instance
instance {id : Uuid} {actor : User} : Tx.ReadOnly (accessibleComment id actor) := by
  unfold accessibleComment; infer_instance
instance {id : Uuid} {p : CommentPayload} : Tx.Contained (updateComment D c id p) := by
  unfold updateComment; infer_instance
instance {id : Uuid} : Tx.Contained (deleteComment D c id) := by unfold deleteComment; infer_instance

@[simp] theorem succeeds_accessibleComment {id : Uuid} {actor : User} {l : LoadedComment} {s t : Session Db Blobs} :
    (accessibleComment id actor).Succeeds s l t ↔
      ∃ m r, CommentRepository.find id s.working = some m ∧ Accessible s.working actor m.taskId r ∧
        l = s.working.loadComment m ∧ t = s := by
  simp only [accessibleComment, Tx.succeeds_bind, CommentService.succeeds_get, succeeds_getAccessibleTask,
    Tx.succeeds_pure]
  constructor
  · rintro ⟨_, _, ⟨m, hm, rfl, rfl⟩, _, _, ⟨r, hr, rfl, rfl⟩, rfl, rfl⟩
    exact ⟨m, r, hm, hr, rfl, rfl⟩
  · rintro ⟨m, r, hm, hr, rfl, rfl⟩
    exact ⟨_, _, ⟨m, hm, rfl, rfl⟩, _, _, ⟨r, hr, rfl, rfl⟩, rfl, rfl⟩

theorem createComment_effect {id : Uuid} {p : CommentPayload} :
    Effect D ⟨c, .createComment id p⟩ w ((createComment D c id p).run w).1 ((createComment D c id p).run w).2 := by
  apply Effect.of_contained
  intro a t h
  simp only [createComment, CommentService.create, Tx.succeeds_bind, succeeds_accessibleTask, Db.loadTask_row,
    Tx.succeeds_pure, ↓existsAndEq, and_true, succeeds_validated, CommentRepository.succeeds_add,
    CommentRepository.succeeds_get, Tx.succeeds_orRaise, exists_const] at h
  obtain ⟨actor, r, ⟨caller, task⟩, errors, m, d', ⟨hd, -⟩, _, -, -, rfl⟩ := h
  obtain ⟨_, comments, rows, rfl⟩ := Db.insertComment_ok hd
  rw [task.id_eq] at rows
  exact .commentCreated caller task errors rows

theorem updateComment_effect {id : Uuid} {p : CommentPayload} :
    Effect D ⟨c, .updateComment id p⟩ w ((updateComment D c id p).run w).1 ((updateComment D c id p).run w).2 := by
  apply Effect.of_contained
  intro a t h
  simp only [updateComment, CommentService.update, Tx.succeeds_bind, succeeds_getCurrentUser, succeeds_validated,
    succeeds_accessibleComment, Db.loadComment_row, Tx.succeeds_pure, exists_eq_right_right', ↓existsAndEq, and_true,
    CommentService.succeeds_getOwned, Tx.succeeds_orRaise, exists_const] at h
  obtain ⟨actor, caller, errors, _, r, ⟨found', task⟩, _, m, o, ⟨⟨found, owned⟩, hf⟩, -⟩ := h
  obtain rfl := Option.some.inj (found.symm.trans found')
  obtain ⟨rfl, rfl⟩ := CommentRepository.succeeds_flush (CommentRepository.find_eq_some.mp found).1 hf
  exact .commentUpdated caller errors found task owned

theorem deleteComment_effect {id : Uuid} :
    Effect D ⟨c, .deleteComment id⟩ w ((deleteComment D c id).run w).1 ((deleteComment D c id).run w).2 := by
  apply Effect.of_contained
  intro a t h
  simp only [deleteComment, CommentService.delete, CommentRepository.delete, Tx.succeeds_bind,
    succeeds_getCurrentUser, succeeds_accessibleComment, Db.loadComment_row, Tx.succeeds_pure, exists_eq_right_right',
    ↓existsAndEq, and_true, CommentService.succeeds_getOwned] at h
  obtain ⟨actor, caller, _, r, ⟨found', task⟩, m, o, ⟨⟨found, owned⟩, hf⟩, -⟩ := h
  obtain rfl := Option.some.inj (found.symm.trans found')
  obtain ⟨rfl, rfl⟩ := CommentRepository.succeeds_flush (CommentRepository.find_eq_some.mp found).1 hf
  exact .commentDeleted caller found task owned

/-! Files. -/

instance {id : Uuid} : Tx.ReadOnly (listFiles D c id) := by unfold listFiles; infer_instance
instance {id : Uuid} {file : UploadFile} : Tx.Uncommitted (uploadFile D c id file) := by
  unfold uploadFile; infer_instance
instance {id : Uuid} : Tx.ReadOnly (downloadFile D c id) := by unfold downloadFile; infer_instance

theorem uploadFile_blobs (D : Deployment) (c : Call) (w : World) (id : Uuid) (file : UploadFile) :
    (∃ e, (uploadFile D c id file).run w = (.error e, w)) ∨
      ∃ actor r, CurrentUser c w.1 actor ∧ Accessible w.1 actor id r ∧
        ((uploadFile D c id file).run w).2.2 =
          (D.backend.save (keyFor c.fresh.uuid4 (textOr file.filename "")) file D.settings.maxUploadSizeBytes w.2).2 := by
  unfold uploadFile
  rcases Tx.run_bind_readOnly (m := accessibleTask c id) w with h | ⟨r, hr, h⟩
  · exact Or.inl h
  · obtain ⟨actor, task, caller, ht, rfl, -⟩ := succeeds_accessibleTask.mp hr
    refine Or.inr ⟨actor, task, caller, ht, ?_⟩
    rw [h, Tx.run_outside, Tx.bind_outside]
    unfold FileService.upload
    rw [Tx.bind_outside]
    rfl

theorem uploadFile_effect {id : Uuid} {file : UploadFile} :
    Effect D ⟨c, .uploadFile id file⟩ w ((uploadFile D c id file).run w).1 ((uploadFile D c id file).run w).2 := by
  rcases hr : (uploadFile D c id file).run w with ⟨e | a, v⟩
  · rcases uploadFile_blobs D c w id file with ⟨e', h⟩ | ⟨actor, r, caller, task, h⟩
    · obtain ⟨he, rfl⟩ := Prod.mk.inj (hr.symm.trans h)
      exact .rejected
    · rw [hr] at h
      obtain ⟨v1, v2⟩ := v
      obtain rfl : v1 = w.1 := Tx.run_error_fst hr
      obtain rfl := h
      exact .uploadFailed caller task
  · obtain ⟨t, h, rfl⟩ := Tx.run_ok.mp hr
    simp only [uploadFile, FileService.upload, FileService.save, Tx.succeeds_bind, succeeds_accessibleTask,
      Db.loadTask_row, Tx.succeeds_pure, ↓existsAndEq, and_true, Tx.succeeds_external, FileRepository.succeeds_add,
      FileRepository.succeeds_get, Tx.succeeds_orRaise, exists_const] at h
    obtain ⟨actor, r, ⟨caller, task⟩, _, stored, b', d', ⟨saved, hd, -⟩, _, -, -, rfl⟩ := h
    obtain ⟨names, files, rows, rfl⟩ := Db.insertFileAttachment_ok hd
    rw [task.id_eq] at rows
    exact .fileUploaded caller task saved (fun f hf => (names f hf).2) rows

/-! Notifications and reports. -/

instance {params : PageParams} : Tx.ReadOnly (listNotifications D c params) := by
  unfold listNotifications; infer_instance
instance {id : Uuid} : Tx.Contained (markRead c id) := by unfold markRead; infer_instance
instance : Tx.Contained (markAllRead c) := by unfold markAllRead; infer_instance
instance : Tx.ReadOnly (dashboard D c) := by unfold dashboard; infer_instance
instance {id : Uuid} : Tx.ReadOnly (projectAnalytics c id) := by unfold projectAnalytics; infer_instance

theorem markRead_effect {id : Uuid} :
    Effect D ⟨c, .markRead id⟩ w ((markRead c id).run w).1 ((markRead c id).run w).2 := by
  apply Effect.of_contained
  intro a t h
  simp only [markRead, NotificationService.markRead, NotificationRepository.get, ne_eq, Tx.succeeds_bind,
    succeeds_getCurrentUser, Tx.succeeds_query, Tx.succeeds_orRaise, Tx.succeeds_refuseIf, Decidable.not_not,
    Tx.succeeds_execute, Except.ok.injEq, exists_eq_left', Tx.succeeds_pure, exists_eq_left, exists_const,
    ↓existsAndEq, and_true, exists_eq_right_right', true_and] at h
  obtain ⟨u, caller, n, ⟨found, own, rfl⟩, -⟩ := h
  exact .notificationRead caller found own

theorem markAllRead_effect :
    Effect D ⟨c, .markAllRead⟩ w ((markAllRead c).run w).1 ((markAllRead c).run w).2 := by
  apply Effect.of_contained
  intro a t h
  simp only [markAllRead, NotificationService.markAllRead, NotificationRepository.markAllRead, Tx.succeeds_bind,
    succeeds_getCurrentUser, Tx.succeeds_execute, Except.ok.injEq, exists_eq_left', Tx.succeeds_pure, exists_eq_left,
    exists_const, ↓existsAndEq, and_true] at h
  obtain ⟨u, caller, -, rfl⟩ := h
  exact .allNotificationsRead caller

end Routes

theorem step_effect (D : Deployment) (i : Input) (w : World) : Effect D i w (outcome D i w) (next D i w) := by
  rcases i with ⟨c, request⟩
  cases request with
  | register p => exact Routes.register_effect
  | login username password => exact Routes.login_effect
  | refresh token => exact Routes.refresh_effect
  | logout token => exact Routes.logout_effect
  | me => exact Effect.of_readOnly (m := Routes.me c) rfl
  | changePassword p => exact Routes.changePassword_effect
  | listUsers params => exact Effect.of_readOnly (m := Routes.listUsers D c params) rfl
  | createUser p => exact Routes.createUser_effect
  | getUser id => exact Effect.of_readOnly (m := Routes.getUser c id) rfl
  | updateUser id p => exact Routes.updateUser_effect
  | updateRole id p => exact Routes.updateRole_effect
  | deleteUser id => exact Routes.deleteUser_effect
  | listProjects params => exact Effect.of_readOnly (m := Routes.listProjects D c params) rfl
  | createProject p => exact Routes.createProject_effect
  | getProject id => exact Effect.of_readOnly (m := Routes.getProject c id) rfl
  | updateProject id p => exact Routes.updateProject_effect
  | deleteProject id => exact Routes.deleteProject_effect
  | addMember id p => exact Routes.addMember_effect
  | removeMember id userId => exact Routes.removeMember_effect
  | listProjectTasks id params => exact Effect.of_readOnly (m := Routes.listProjectTasks D c id params) rfl
  | kanbanBoard id => exact Effect.of_readOnly (m := Routes.kanbanBoard D c id) rfl
  | createTask p => exact Routes.createTask_effect
  | getTask id => exact Effect.of_readOnly (m := Routes.getTask c id) rfl
  | updateTask id p => exact Routes.updateTask_effect
  | updateTaskStatus id p => exact Routes.updateTaskStatus_effect
  | deleteTask id => exact Routes.deleteTask_effect
  | listComments id params => exact Effect.of_readOnly (m := Routes.listComments D c id params) rfl
  | createComment id p => exact Routes.createComment_effect
  | updateComment id p => exact Routes.updateComment_effect
  | deleteComment id => exact Routes.deleteComment_effect
  | listFiles id => exact Effect.of_readOnly (m := Routes.listFiles D c id) rfl
  | uploadFile id file => exact Routes.uploadFile_effect
  | downloadFile id => exact Effect.of_readOnly (m := Routes.downloadFile D c id) rfl
  | listNotifications params => exact Effect.of_readOnly (m := Routes.listNotifications D c params) rfl
  | markRead id => exact Routes.markRead_effect
  | markAllRead => exact Routes.markAllRead_effect
  | dashboard => exact Effect.of_readOnly (m := Routes.dashboard D c) rfl
  | projectAnalytics id => exact Effect.of_readOnly (m := Routes.projectAnalytics c id) rfl

theorem Effect.of_reads {i : Input} {w w' : World} {o : Outcome} (effect : Effect D i w o w') (h : i.request.reads = true) : w' = w := by
  cases effect with
  | rejected => rfl
  | answered => rfl
  | nothingToLogOut => rfl
  | _ => exact absurd h (by simp [Request.reads])

end ProjectManagement
