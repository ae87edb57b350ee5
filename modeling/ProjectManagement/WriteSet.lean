import ProjectManagement.System

/-! What a request of an employee can write. -/

namespace ProjectManagement

open Library

variable {D : Deployment} {i : Input} {u : User} {d d' : Db}

def IsMember (d : Db) (projectId userId : Uuid) : Prop :=
  ∃ m ∈ d.projectMembers.rows, m.projectId = projectId ∧ m.userId = userId

theorem MayAccess.isMember {projectId : Uuid} (h : MayAccess d projectId u) (he : u.role = .employee) :
    IsMember d projectId u.id := by
  rcases h with h | ⟨m, hm⟩
  · rw [he] at h
    exact absurd h (by simp)
  · obtain ⟨hm, hp, hu⟩ := ProjectRepository.memberRows_eq_singleton hm
    exact ⟨m, hm, hp, hu⟩

def InOwnProject (d : Db) (userId taskId : Uuid) : Prop :=
  ∃ t ∈ d.tasks.rows, t.id = taskId ∧ IsMember d t.projectId userId

section Allowed

variable (D : Deployment) (i : Input) (d : Db) (u : User)

inductive UserWrite : Option User → Option User → Prop
  | own {email hashedPassword fullName : String} {updatedAt : Time} :
      UserWrite (some u) (some { u with
        email := email, hashedPassword := hashedPassword, fullName := fullName, updatedAt := updatedAt })
  | registered {v : User} (request : ∃ p, i.request = .register p ∧ v.email = p.email) (role : v.role = .employee) :
      UserWrite none (some v)

inductive TokenWrite : Option RefreshToken → Option RefreshToken → Prop
  | own {old new : RefreshToken} (before : old.userId = u.id) (after : new.userId = u.id) :
      TokenWrite (some old) (some new)
  | loggedIn {email password : String} {v : User} {new : RefreshToken} (request : i.request = .login email password)
      (account : v ∈ d.users.rows) (named : v.email = email)
      (password : verifyPassword D password v.hashedPassword = true) (owner : new.userId = v.id) :
      TokenWrite none (some new)
  | presented {token : String} {r : RefreshToken} {old : Option RefreshToken} {new : RefreshToken}
      (request : i.request = .refresh token ∨ i.request = .logout token) (row : r ∈ d.refreshTokens.rows)
      (hash : r.tokenHash = hashRefreshToken D token) (before : ∀ t ∈ old, t.familyId = r.familyId)
      (after : new.familyId = r.familyId) : TokenWrite old (some new)

inductive TaskWrite : Option Task → Option Task → Prop
  | created {t : Task} (member : IsMember d t.projectId u.id) (author : t.createdBy = u.id) : TaskWrite none (some t)
  | changed {t t' : Task} (member : IsMember d t.projectId u.id) (project : t'.projectId = t.projectId)
      (author : t'.createdBy = t.createdBy) : TaskWrite (some t) (some t')

inductive CommentWrite : Option Comment → Option Comment → Prop
  | created {m : Comment} (task : InOwnProject d u.id m.taskId) (author : m.userId = u.id) :
      CommentWrite none (some m)
  | changed {m m' : Comment} (task : InOwnProject d u.id m.taskId) (author : m.userId = u.id)
      (sameTask : m'.taskId = m.taskId) (sameAuthor : m'.userId = m.userId) : CommentWrite (some m) (some m')

inductive FileWrite : Option FileAttachment → Option FileAttachment → Prop
  | created {f : FileAttachment} (task : InOwnProject d u.id f.taskId) (uploader : f.uploadedBy = u.id) :
      FileWrite none (some f)

inductive NotificationWrite : Option Notification → Option Notification → Prop
  | inserted {n : Notification} : NotificationWrite none (some n)
  | read {n : Notification} (own : n.userId = u.id) : NotificationWrite (some n) (some { n with isRead := true })

end Allowed

structure WriteSet (D : Deployment) (i : Input) (u : User) (d d' : Db) : Prop where
  users : d.users.Changes d'.users (UserWrite i u)
  refreshTokens : d.refreshTokens.Changes d'.refreshTokens (TokenWrite D i d u)
  tasks : d.tasks.Changes d'.tasks (TaskWrite d u)
  comments : d.comments.Changes d'.comments (CommentWrite d u)
  fileAttachments : d.fileAttachments.Changes d'.fileAttachments (FileWrite d u)
  notifications : d.notifications.Changes d'.notifications (NotificationWrite u)
  projects : d'.projects = d.projects
  projectMembers : d'.projectMembers = d.projectMembers

theorem WriteSet.refl : WriteSet D i u d d where
  users := .refl
  refreshTokens := .refl
  tasks := .refl
  comments := .refl
  fileAttachments := .refl
  notifications := .refl
  projects := rfl
  projectMembers := rfl

theorem CurrentUser.not_admin {c : Call} {actor : User} (h : CurrentUser c d u) (he : u.role = .employee)
    (h' : CurrentUser c d actor) (admin : actor.role = .admin) : False := by
  rw [← h.unique h', he] at admin
  exact absurd admin (by simp)

theorem Accessible.inOwnProject {r : Task} {id : Uuid} (h : Accessible d u id r) (he : u.role = .employee) :
    InOwnProject d u.id id :=
  ⟨r, h.mem, h.id_eq, h.access.isMember he⟩

theorem own_put_changes {c : Call} {v : User} (hu : u ∈ d.users.rows)
    (hv : v = { u with email := v.email, hashedPassword := v.hashedPassword, fullName := v.fullName }) :
    d.users.Changes (d.users.put (afterFlush (UserRepository.stamped D c) u v)) (UserWrite i u) := by
  apply Table.Changes.put hu (UserRepository.afterFlush_id (by rw [hv]))
  rcases afterFlush_cases (UserRepository.stamped D c) u v with h | h
  · rw [h, hv]
    exact .own
  · rw [h, hv]
    exact .own

theorem notified_changes {c : Call} {event : Option DomainEvent} {ns : Table Notification}
    (h : Notified D c event d.notifications ns) : d.notifications.Changes ns (NotificationWrite u) := by
  cases event with
  | none =>
    have : ns = d.notifications := Table.ext (by simpa [Notified] using h)
    rw [this]
    exact .refl
  | some e => exact .append h .inserted

theorem task_put_changes {c : Call} {id : Uuid} {r r' : Task} (he : u.role = .employee) (task : Accessible d u id r)
    (hid : r'.id = r.id) (project : r'.projectId = r.projectId) (author : r'.createdBy = r.createdBy) :
    d.tasks.Changes (d.tasks.put (afterFlush (TaskRepository.stamped D c) r r')) (TaskWrite d u) := by
  apply Table.Changes.put task.mem (TaskRepository.afterFlush_id hid)
  exact .changed (task.access.isMember he) ((afterFlush_column Task.projectId rfl).trans project)
    ((afterFlush_column Task.createdBy rfl).trans author)

theorem comment_put_changes {c : Call} {r : Task} {m m' : Comment} (he : u.role = .employee)
    (hm : m ∈ d.comments.rows) (task : Accessible d u m.taskId r) (owned : u.role = .admin ∨ m.userId = u.id)
    (hid : m'.id = m.id) (sameTask : m'.taskId = m.taskId) (sameAuthor : m'.userId = m.userId) :
    d.comments.Changes (d.comments.put (afterFlush (CommentRepository.stamped D c) m m')) (CommentWrite d u) := by
  have author : m.userId = u.id := by
    rcases owned with h | h
    · rw [he] at h
      exact absurd h (by simp)
    · exact h
  apply Table.Changes.put hm (CommentRepository.afterFlush_id hid)
  exact .changed (task.inOwnProject he) author ((afterFlush_column Comment.taskId rfl).trans sameTask)
    ((afterFlush_column Comment.userId rfl).trans sameAuthor)

theorem employee_writes {w : World} (caller : CurrentUser i.call w.1 u) (he : u.role = .employee) :
    WriteSet D i u w.1 (next D i w).1 := by
  have base : ∀ d, WriteSet D i u d d := fun _ => .refl
  have effect := step_effect D i w
  generalize outcome D i w = o at effect
  generalize next D i w = w' at effect ⊢
  cases effect with
  | rejected => exact .refl
  | answered reads => exact .refl
  | registered errors policy free hash rows =>
    exact { base _ with users := .append rows (.registered ⟨_, rfl, rfl⟩ rfl) }
  | loggedIn account verified active hash rows =>
    have hmem : _ ∈ UserRepository.withEmail _ _ := account ▸ List.mem_singleton.mpr rfl
    simp only [UserRepository.withEmail, List.mem_filter, Bool.and_eq_true, beq_iff_eq] at hmem
    exact { base _ with refreshTokens := .append rows (.loggedIn rfl hmem.1 hmem.2.2 verified rfl) }
  | rotated presented valid owner active hash rows =>
    obtain ⟨hr, hrh⟩ := RefreshTokenRepository.withHash_eq_singleton presented
    refine { base _ with refreshTokens := .append_put rows hr rfl ?_ ?_ }
    · exact .presented (Or.inl rfl) hr hrh (by simp) rfl
    · exact .presented (Or.inl rfl) hr hrh (by simp) rfl
  | reuseDetected presented revoked =>
    obtain ⟨hr, hrh⟩ := RefreshTokenRepository.withHash_eq_singleton presented
    refine { base _ with refreshTokens := RefreshTokenRepository.revokeWhere_changes fun t ht hf => ?_ }
    rw [beq_iff_eq] at hf
    exact .presented (Or.inl rfl) hr hrh (by simpa using hf) hf
  | loggedOut presented live =>
    obtain ⟨hr, hrh⟩ := RefreshTokenRepository.withHash_eq_singleton presented
    exact { base _ with
      refreshTokens := .put hr rfl (.presented (Or.inr rfl) hr hrh (by simp) rfl) }
  | nothingToLogOut presented => exact .refl
  | passwordChanged caller' errors verified policy hash =>
    obtain rfl := caller.unique caller'
    refine { base _ with
      users := own_put_changes caller.mem rfl
      refreshTokens := RefreshTokenRepository.revokeWhere_changes fun t ht hu => ?_ }
    rw [beq_iff_eq] at hu
    exact .own hu hu
  | userCreated caller' admin errors policy free hash rows => exact (caller.not_admin he caller' admin).elim
  | userUpdated caller' errors allowed found status free sent =>
    obtain rfl := caller.unique caller'
    have hid : u.id = _ := allowed.resolve_left (by rw [he]; simp)
    obtain ⟨hmem, -, hfound⟩ := UserRepository.find_eq_some.mp found
    obtain rfl := Table.eq_of_key _ hmem caller.mem (hfound.trans hid.symm)
    have hv := UserUpdate.setattrs_of_not_isSet sent fun hs => absurd (status hs) (by rw [he]; simp)
    refine { base _ with users := own_put_changes caller.mem ?_ }
    rw [hv]
  | roleUpdated caller' admin found => exact (caller.not_admin he caller' admin).elim
  | userDeleted caller' admin other found => exact (caller.not_admin he caller' admin).elim
  | projectCreated caller' admin errors rows => exact (caller.not_admin he caller' admin).elim
  | projectUpdated caller' admin errors found sent => exact (caller.not_admin he caller' admin).elim
  | projectDeleted caller' admin found => exact (caller.not_admin he caller' admin).elim
  | memberAdded caller' admin found user new rows notified => exact (caller.not_admin he caller' admin).elim
  | memberRemoved caller' admin member => exact (caller.not_admin he caller' admin).elim
  | taskCreated caller' errors access project rows notified =>
    obtain rfl := caller.unique caller'
    exact { base _ with
      tasks := .append rows (.created (access.isMember he) rfl)
      notifications := notified_changes notified }
  | taskUpdated caller' task errors sent notified =>
    obtain rfl := caller.unique caller'
    obtain ⟨hid, hproject, hauthor, -⟩ := TaskUpdate.setattrs_keeps sent
    exact { base _ with
      tasks := task_put_changes he task hid hproject hauthor
      notifications := notified_changes notified }
  | taskStatusUpdated caller' task =>
    obtain rfl := caller.unique caller'
    exact { base _ with tasks := task_put_changes he task rfl rfl rfl }
  | taskDeleted caller' task =>
    obtain rfl := caller.unique caller'
    exact { base _ with tasks := task_put_changes he task rfl rfl rfl }
  | commentCreated caller' task errors rows =>
    obtain rfl := caller.unique caller'
    exact { base _ with comments := .append rows (.created (task.inOwnProject he) rfl) }
  | commentUpdated caller' errors found task owned =>
    obtain rfl := caller.unique caller'
    exact { base _ with
      comments := comment_put_changes he (CommentRepository.find_eq_some.mp found).1 task owned rfl rfl rfl }
  | commentDeleted caller' found task owned =>
    obtain rfl := caller.unique caller'
    exact { base _ with
      comments := comment_put_changes he (CommentRepository.find_eq_some.mp found).1 task owned rfl rfl rfl }
  | fileUploaded caller' task saved names rows =>
    obtain rfl := caller.unique caller'
    exact { base _ with fileAttachments := .append rows (.created (task.inOwnProject he) rfl) }
  | uploadFailed caller' task => exact .refl
  | notificationRead caller' found own =>
    obtain rfl := caller.unique caller'
    exact { base _ with
      notifications := .put (NotificationRepository.find_eq_some.mp found).1 rfl (.read own) }
  | allNotificationsRead caller' =>
    obtain rfl := caller.unique caller'
    exact { base _ with
      notifications := NotificationRepository.readAll_changes fun n hn own _ => .read own }

def Unprivileged (e : Event) (w : World) : Prop :=
  ∃ i, e = .request i ∧ ∀ u, CurrentUser i.call w.1 u → u.role = .employee

/-- What privileges hang on is as it was: roles, account states, projects, memberships. -/
structure SamePrivileges (d d' : Db) : Prop where
  users : ∀ v ∈ d.users.rows, ∃ v' ∈ d'.users.rows,
    v'.id = v.id ∧ v'.role = v.role ∧ v'.isActive = v.isActive ∧ v'.deletedAt = v.deletedAt
  projects : d'.projects = d.projects
  projectMembers : d'.projectMembers = d.projectMembers

theorem SamePrivileges.of_users {d d' : Db} (users : d'.users = d.users) (projects : d'.projects = d.projects)
    (projectMembers : d'.projectMembers = d.projectMembers) : SamePrivileges d d' :=
  ⟨fun v hv => ⟨v, by rw [users]; exact hv, rfl, rfl, rfl, rfl⟩, projects, projectMembers⟩

theorem SamePrivileges.refl (d : Db) : SamePrivileges d d := .of_users rfl rfl rfl

theorem SamePrivileges.trans {d₁ d₂ d₃ : Db} (h : SamePrivileges d₁ d₂) (k : SamePrivileges d₂ d₃) :
    SamePrivileges d₁ d₃ := by
  refine ⟨fun v hv => ?_, k.projects.trans h.projects, k.projectMembers.trans h.projectMembers⟩
  obtain ⟨v₂, hv₂, hid, hrole, hactive, hdeleted⟩ := h.users v hv
  obtain ⟨v₃, hv₃, hid', hrole', hactive', hdeleted'⟩ := k.users v₂ hv₂
  exact ⟨v₃, hv₃, hid'.trans hid, hrole'.trans hrole, hactive'.trans hactive, hdeleted'.trans hdeleted⟩

theorem WriteSet.samePrivileges (h : WriteSet D i u d d') : SamePrivileges d d' := by
  refine ⟨fun v hv => ?_, h.projects, h.projectMembers⟩
  have hold : d.users.lookup v.id = some v := Table.lookup_eq_some.mpr ⟨hv, rfl⟩
  rcases h.users v.id with hsame | hwrite
  · rw [hold] at hsame
    exact ⟨v, (Table.lookup_eq_some.mp hsame).1, rfl, rfl, rfl, rfl⟩
  · rw [hold] at hwrite
    generalize hnew : d'.users.lookup v.id = new at hwrite
    cases hwrite with
    | own => exact ⟨_, (Table.lookup_eq_some.mp hnew).1, rfl, rfl, rfl, rfl⟩

theorem anonymous_samePrivileges {w : World} (h : ∀ u, ¬CurrentUser i.call w.1 u) :
    SamePrivileges w.1 (next D i w).1 := by
  have effect := step_effect D i w
  generalize outcome D i w = o at effect
  generalize next D i w = w' at effect ⊢
  cases effect with
  | registered errors policy free hash rows =>
    exact ⟨fun v hv => ⟨v, by simp [rows, hv], rfl, rfl, rfl, rfl⟩, rfl, rfl⟩
  | rejected => exact .refl _
  | answered reads => exact .refl _
  | loggedIn => exact .of_users rfl rfl rfl
  | rotated => exact .of_users rfl rfl rfl
  | reuseDetected => exact .of_users rfl rfl rfl
  | loggedOut => exact .of_users rfl rfl rfl
  | nothingToLogOut => exact .refl _
  | passwordChanged caller | userCreated caller | userUpdated caller | roleUpdated caller | userDeleted caller
  | projectCreated caller | projectUpdated caller | projectDeleted caller | memberAdded caller
  | memberRemoved caller | taskCreated caller | taskUpdated caller | taskStatusUpdated caller | taskDeleted caller
  | commentCreated caller | commentUpdated caller | commentDeleted caller | fileUploaded caller
  | uploadFailed caller | notificationRead caller | allNotificationsRead caller => exact absurd caller (h _)

theorem unprivileged_step {e : Event} {w : World} (h : Unprivileged e w) :
    SamePrivileges w.1 (nextWorld D e w).1 := by
  obtain ⟨i, rfl, hrole⟩ := h
  by_cases caller : ∃ u, CurrentUser i.call w.1 u
  · obtain ⟨u, caller⟩ := caller
    exact (employee_writes caller (hrole u caller)).samePrivileges
  · exact anonymous_samePrivileges fun u hu => caller ⟨u, hu⟩

theorem Execution.samePrivileges {w w' : World} {es : List Event} (run : Execution D Unprivileged w es w') :
    SamePrivileges w.1 w'.1 :=
  run.relates (I := fun _ => True) (R := fun w w' => SamePrivileges w.1 w'.1) (fun w => .refl w.1)
    (fun _ _ _ => .trans) (fun _ _ h _ => ⟨trivial, unprivileged_step h⟩) trivial

/-- The write set of an employee, and what it means for a run without administrators. -/
theorem employee_write_set (D : Deployment) :
    (∀ (w : World) (i : Input) (u : User), CurrentUser i.call w.1 u → u.role = .employee →
      WriteSet D i u w.1 (next D i w).1) ∧
      ∀ (w w' : World) (es : List Event), Execution D Unprivileged w es w' → SamePrivileges w.1 w'.1 :=
  ⟨fun _ _ _ caller he => employee_writes caller he, fun _ _ _ run => run.samePrivileges⟩

def oneEmployee : World :=
  playFrom .sample World.initial (sampleRequests 1 [(none, .register ⟨"a@b.c", "Passw0rd", "A"⟩)])

def employeeRow : User := ⟨16, "a@b.c", ":Passw0rd", "A", .employee, true, 1000000, 1000000, none⟩

def newName : Input := ⟨Call.sample 2 (some 16), .updateUser 16 { fullName := .value "B" }⟩

theorem employee_write_set_sample :
    WriteSet .sample newName employeeRow oneEmployee.1 (next .sample newName oneEmployee).1 := by
  have caller : CurrentUser newName.call oneEmployee.1 employeeRow :=
    ⟨⟨_, rfl, rfl⟩, by decide +kernel, rfl⟩
  exact (employee_write_set .sample).1 oneEmployee newName employeeRow caller rfl

end ProjectManagement
