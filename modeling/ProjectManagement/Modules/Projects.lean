import ProjectManagement.Modules.Notifications

/-! The projects module: repository, membership policy and service. -/

namespace ProjectManagement

open Library

variable (D : Deployment) (c : Call)

structure ProjectOut where
  id : Uuid
  name : String
  description : Option String
  status : ProjectStatus
  startDate : Option Date
  endDate : Option Date
  createdBy : Uuid
  createdAt : Time
  updatedAt : Time
  deriving DecidableEq, Repr

def ProjectOut.modelValidate (p : Project) : ProjectOut :=
  ⟨p.id, p.name, p.description, p.status, p.startDate, p.endDate, p.createdBy, p.createdAt, p.updatedAt⟩

structure MemberOut where
  id : Uuid
  userId : Uuid
  role : MemberRole
  user : UserOut
  deriving DecidableEq, Repr

structure ProjectDetailOut where
  project : ProjectOut
  members : List MemberOut
  deriving DecidableEq, Repr

structure ProjectCreate where
  name : String
  description : Option String := none
  status : ProjectStatus := .planning
  startDate : Option Date := none
  endDate : Option Date := none

def ProjectCreate.errors (p : ProjectCreate) : List ErrorDetail := stringLength "name" 1 255 p.name

structure ProjectUpdate where
  name : Field String := .unset
  description : Field String := .unset
  status : Field ProjectStatus := .unset
  startDate : Field Date := .unset
  endDate : Field Date := .unset

def ProjectUpdate.errors (p : ProjectUpdate) : List ErrorDetail := p.name.check (stringLength "name" 1 255)

structure MemberAdd where
  userId : Uuid
  role : MemberRole := .contributor

/-- A member row with its `user` relationship loaded; the relationship ignores soft deletion. -/
structure LoadedMember where
  row : ProjectMember
  user : Option User

/-- A member without a user row does not validate. -/
def MemberOut.modelValidate (m : LoadedMember) : Option MemberOut :=
  m.user.map fun u => ⟨m.row.id, m.row.userId, m.row.role, UserOut.modelValidate u⟩

/-- `selectinload` of a many-to-one relationship to `users`. -/
def Db.relatedUser (d : Db) (userId : Uuid) : Option User := d.users.rows.find? (fun u => u.id == userId)

def Db.loadMember (d : Db) (m : ProjectMember) : LoadedMember := ⟨m, d.relatedUser m.userId⟩

@[simp] theorem Db.loadMember_row (d : Db) (m : ProjectMember) : (d.loadMember m).row = m := rfl

namespace ProjectRepository

def find (projectId : Uuid) (d : Db) : Option Project :=
  d.projects.rows.find? (fun p => p.live && p.id == projectId)

def get (projectId : Uuid) : App (Option Project) := Tx.query (find projectId)

def getWithMembers (projectId : Uuid) : App (Option (Project × List LoadedMember)) :=
  Tx.query fun d => (find projectId d).map fun p =>
    (p, (d.projectMembers.rows.filter (fun m => m.projectId == p.id)).map d.loadMember)

def add (p : Project) : App Unit := Tx.execute (Db.insertProject D.engine p)

def stamped (p : Project) : Project := { p with updatedAt := c.stamp D }

def flush (old new : Project) : App Project :=
  if new = old then pure old
  else do
    Tx.execute (Db.putProject D.engine (stamped D c new))
    pure (stamped D c new)

def delete (p : Project) : App Project := flush D c p { p with deletedAt := some c.now }

/-- With a user, one row per membership the join finds. -/
def listQuery (userId : Option Uuid) (search : Option String) (d : Db) : List Project :=
  searched search (fun s p => ilike D.lower D.engine s p.name)
    (match userId with
      | none => d.projects.rows.filter Project.live
      | some u => (d.projects.rows.filter Project.live).flatMap fun p =>
          (d.projectMembers.rows.filter (fun m => m.projectId == p.id && m.userId == u)).map fun _ => p)

def memberRows (projectId userId : Uuid) (d : Db) : List ProjectMember :=
  d.projectMembers.rows.filter (fun m => m.projectId == projectId && m.userId == userId)

def getMember (projectId userId : Uuid) : App (Option LoadedMember) :=
  Tx.select fun d => (scalarOneOrNone (memberRows projectId userId d)).map (Option.map d.loadMember)

def isMember (projectId userId : Uuid) : App Bool :=
  Tx.select fun d => (scalarOneOrNone (memberRows projectId userId d)).map Option.isSome

def addMember (m : ProjectMember) : App Unit := Tx.execute (Db.insertProjectMember D.engine m)

def removeMember (m : ProjectMember) : App Unit :=
  Tx.execute fun d => .ok { d with projectMembers := d.projectMembers.deleteWhere (fun r => r.id == m.id) }

end ProjectRepository

/-- `ProjectAccessPolicy.__call__`. -/
def projectAccessPolicy (minMemberRole : Option MemberRole) (projectId : Uuid) (user : User) : App Project := do
  let found ← ProjectRepository.get projectId
  let project ← Tx.orRaise found (.app (notFoundError "Project not found"))
  if user.role = .admin then pure project
  else do
    let found ← ProjectRepository.getMember projectId user.id
    let member ← Tx.orRaise found (.app (forbiddenError "You are not a member of this project"))
    Tx.refuseIf (minMemberRole = some .lead ∧ member.row.role ≠ .lead)
      (.app (forbiddenError "Project lead access required"))
    pure project

def requireProjectView (projectId : Uuid) (user : User) : App Project := projectAccessPolicy none projectId user

def ProjectUpdate.setattrs (p : ProjectUpdate) (old : Project) : Except Raised Project :=
  if p.name.isNull ∨ p.status.isNull then .error .integrity
  else .ok { old with
    name := p.name.assignNotNull old.name
    description := p.description.assign old.description
    status := p.status.assignNotNull old.status
    startDate := p.startDate.assign old.startDate
    endDate := p.endDate.assign old.endDate }

def newProject (p : ProjectCreate) (actor : User) : Project :=
  ⟨c.fresh.id, p.name, p.description, p.status, p.startDate, p.endDate, actor.id, c.stamp D, c.stamp D, none⟩

namespace ProjectService

def listProjectsWith (sorter : Sorter Project) (actor : User) (params : PageParams) : App (List Project × PaginationMeta) :=
  Tx.select fun d =>
    let terms :=
      if params.sort = none then [desc fun p => .number p.createdAt]
      else applySort params
        [("name", fun p => .text p.name), ("status", fun p => .text p.status.value),
          ("start_date", fun p => .ofOption p.startDate), ("end_date", fun p => .ofOption p.endDate),
          ("created_at", fun p => .number p.createdAt)]
        (fun p => .number p.createdAt)
    paginateSearched D.engine params (sorter terms
      (ProjectRepository.listQuery D (if actor.role = .admin then none else some actor.id) params.search d))

abbrev listProjects (actor : User) (params : PageParams) : App (List Project × PaginationMeta) :=
  listProjectsWith D (orderBy D.engine) actor params

def getProjectDetail (projectId : Uuid) : App (Project × List LoadedMember) := do
  let found ← ProjectRepository.getWithMembers projectId
  Tx.orRaise found (.app (notFoundError "Project not found"))

def createProject (p : ProjectCreate) (actor : User) : App Project := do
  ProjectRepository.add D (newProject D c p actor)
  pure (newProject D c p actor)

def updateProject (projectId : Uuid) (p : ProjectUpdate) : App (Project × List LoadedMember) := do
  let found ← ProjectRepository.get projectId
  let project ← Tx.orRaise found (.app (notFoundError "Project not found"))
  let changed ← Tx.ofExcept (p.setattrs project)
  let _ ← ProjectRepository.flush D c project changed
  getProjectDetail projectId

def deleteProject (projectId : Uuid) : App Unit := do
  let found ← ProjectRepository.get projectId
  let project ← Tx.orRaise found (.app (notFoundError "Project not found"))
  let _ ← ProjectRepository.delete D c project

def addMember (projectId : Uuid) (p : MemberAdd) (actor : User) : App LoadedMember := do
  let found ← ProjectRepository.get projectId
  let project ← Tx.orRaise found (.app (notFoundError "Project not found"))
  let user ← UserRepository.get p.userId
  Tx.refuseIf (user = none) (.app (notFoundError "User not found"))
  let already ← ProjectRepository.isMember projectId p.userId
  Tx.refuseIf (already = true) (.app (conflictError "User is already a member of this project" .alreadyMember))
  ProjectRepository.addMember D ⟨c.fresh.id, projectId, p.userId, p.role⟩
  EventBus.publish D c (.memberAddedToProject projectId project.name p.userId actor.id)
  let loaded ← ProjectRepository.getMember projectId p.userId
  Tx.orRaise loaded .unexpected -- `assert loaded is not None`

def removeMember (projectId userId : Uuid) : App Unit := do
  let found ← ProjectRepository.getMember projectId userId
  let member ← Tx.orRaise found (.app (notFoundError "Member not found"))
  ProjectRepository.removeMember member.row

end ProjectService

section Specs

variable {D c} {s t : Session Db Blobs} {d d' : Db} {p q : Project} {m : ProjectMember} {actor : User}
  {id projectId userId : Uuid} {x : Unit}

namespace ProjectRepository

theorem find_eq_some : find id d = some p ↔ p ∈ d.projects.rows ∧ p.live = true ∧ p.id = id :=
  Table.find?_eq_some

@[simp] theorem succeeds_get {o : Option Project} : (get id).Succeeds s o t ↔ o = find id s.working ∧ t = s := by
  simp only [get, Tx.succeeds_query]

@[simp] theorem succeeds_getMember {o : Option LoadedMember} :
    (getMember projectId userId).Succeeds s o t ↔
      (scalarOneOrNone (memberRows projectId userId s.working)).map (Option.map s.working.loadMember) = .ok o ∧
        t = s := by
  simp only [getMember, Tx.succeeds_select]

@[simp] theorem succeeds_isMember {b : Bool} :
    (isMember projectId userId).Succeeds s b t ↔
      (scalarOneOrNone (memberRows projectId userId s.working)).map Option.isSome = .ok b ∧ t = s := by
  simp only [isMember, Tx.succeeds_select]

theorem isMember_eq_true :
    (scalarOneOrNone (memberRows projectId userId d)).map Option.isSome = .ok true ↔
      ∃ m, memberRows projectId userId d = [m] := by
  generalize memberRows projectId userId d = rows
  rcases rows with _ | ⟨a, _ | ⟨b, l⟩⟩ <;> simp [scalarOneOrNone, Except.map]

theorem isMember_eq_false :
    (scalarOneOrNone (memberRows projectId userId d)).map Option.isSome = .ok false ↔
      memberRows projectId userId d = [] := by
  generalize memberRows projectId userId d = rows
  rcases rows with _ | ⟨a, _ | ⟨b, l⟩⟩ <;> simp [scalarOneOrNone, Except.map]

theorem getMember_eq_some {l : LoadedMember} :
    (scalarOneOrNone (memberRows projectId userId d)).map (Option.map d.loadMember) = .ok (some l) ↔
      ∃ m, memberRows projectId userId d = [m] ∧ l = d.loadMember m := by
  generalize memberRows projectId userId d = rows
  rcases rows with _ | ⟨a, _ | ⟨b, l⟩⟩ <;> simp [scalarOneOrNone, Except.map, eq_comm]

theorem memberRows_eq_singleton (h : memberRows projectId userId d = [m]) :
    m ∈ d.projectMembers.rows ∧ m.projectId = projectId ∧ m.userId = userId := by
  have hm : m ∈ memberRows projectId userId d := by simp [h]
  simpa [memberRows] using hm

@[simp] theorem succeeds_add :
    (add D p).Succeeds s x t ↔
      ∃ d, Db.insertProject D.engine p s.working = .ok d ∧ t = { s with working := d } := by
  simp only [add, Tx.succeeds_execute]

@[simp] theorem succeeds_addMember :
    (addMember D m).Succeeds s x t ↔
      ∃ d, Db.insertProjectMember D.engine m s.working = .ok d ∧ t = { s with working := d } := by
  simp only [addMember, Tx.succeeds_execute]

@[simp] theorem succeeds_removeMember :
    (removeMember m).Succeeds s x t ↔ t = { s with working := { s.working with
      projectMembers := s.working.projectMembers.deleteWhere (fun r => r.id == m.id) } } := by
  simp [removeMember]

theorem afterFlush_id (h : q.id = p.id) : (afterFlush (stamped D c) p q).id = p.id :=
  (afterFlush_column Project.id rfl).trans h

theorem afterFlush_deleted (live : p.live = true) :
    afterFlush (stamped D c) p { p with deletedAt := some c.now } = stamped D c { p with deletedAt := some c.now } := by
  apply afterFlush_of_ne
  intro he
  have : (some c.now).isNone = true := (congrArg Project.live he).trans live
  exact absurd this (by simp)

theorem find_flushed (found : find id d = some p) (sameId : q.id = p.id) (sameLive : q.live = p.live)
    (projects : d'.projects = d.projects.put (afterFlush (stamped D c) p q)) :
    find id d' = some (afterFlush (stamped D c) p q) := by
  rw [find, projects]
  exact find?_afterFlush found rfl rfl sameId sameLive

theorem flush_iff {r : Project} (hp : p ∈ s.working.projects.rows) : (flush D c p q).Succeeds s r t ↔
    r = afterFlush (stamped D c) p q ∧ (q ≠ p → ∃ d, Db.putProject D.engine (stamped D c q) s.working = .ok d) ∧
      t = { s with working := { s.working with projects := s.working.projects.put r } } :=
  succeeds_flushed_row (f := fun projects => { s.working with projects := projects }) hp rfl fun _ => Db.putProject_ok

theorem succeeds_flush {r : Project} (hp : p ∈ s.working.projects.rows) (h : (flush D c p q).Succeeds s r t) :
    r = afterFlush (stamped D c) p q ∧
      t = { s with working := { s.working with projects := s.working.projects.put r } } := by
  obtain ⟨hr, -, ht⟩ := (flush_iff hp).mp h
  exact ⟨hr, ht⟩

instance : Tx.ReadOnly (get id) := by unfold get; infer_instance
instance : Tx.ReadOnly (getWithMembers id) := by unfold getWithMembers; infer_instance
instance : Tx.ReadOnly (getMember projectId userId) := by unfold getMember; infer_instance
instance : Tx.ReadOnly (isMember projectId userId) := by unfold isMember; infer_instance
instance : Tx.Contained (add D p) := by unfold add; infer_instance
instance : Tx.Contained (flush D c p q) := by unfold flush; infer_instance
instance : Tx.Contained (delete D c p) := by unfold delete; infer_instance
instance : Tx.Contained (addMember D m) := by unfold addMember; infer_instance
instance : Tx.Contained (removeMember m) := by unfold removeMember; infer_instance

end ProjectRepository

/-- Who may work in a project: an admin, or a member. -/
def MayAccess (d : Db) (projectId : Uuid) (user : User) : Prop :=
  user.role = .admin ∨ ∃ m, ProjectRepository.memberRows projectId user.id d = [m]

@[simp] theorem succeeds_requireProjectView :
    (requireProjectView projectId actor).Succeeds s p t ↔
      ProjectRepository.find projectId s.working = some p ∧ MayAccess s.working projectId actor ∧ t = s := by
  simp only [requireProjectView, projectAccessPolicy, Tx.succeeds_bind, ProjectRepository.succeeds_get,
    Tx.succeeds_orRaise, MayAccess]
  by_cases ha : actor.role = .admin
  · simp only [ha, if_true, Tx.succeeds_pure, true_or, true_and]
    constructor
    · rintro ⟨_, _, ⟨rfl, rfl⟩, _, _, ⟨hf, rfl⟩, rfl, rfl⟩
      exact ⟨hf, rfl⟩
    · rintro ⟨hf, rfl⟩
      exact ⟨_, _, ⟨rfl, rfl⟩, p, _, ⟨hf, rfl⟩, rfl, rfl⟩
  · simp only [ha, if_false, false_or, Tx.succeeds_bind, ProjectRepository.succeeds_getMember, Tx.succeeds_orRaise,
      Tx.succeeds_refuseIf, Tx.succeeds_pure, reduceCtorEq, false_and, not_false_eq_true, true_and]
    constructor
    · rintro ⟨_, _, ⟨rfl, rfl⟩, _, _, ⟨hf, rfl⟩, o, _, ⟨ho, rfl⟩, l, _, ⟨rfl, rfl⟩, _, _, rfl, rfl, rfl⟩
      obtain ⟨m, hm, _⟩ := ProjectRepository.getMember_eq_some.mp ho
      exact ⟨hf, ⟨m, hm⟩, rfl⟩
    · rintro ⟨hf, ⟨m, hm⟩, rfl⟩
      exact ⟨_, _, ⟨rfl, rfl⟩, p, _, ⟨hf, rfl⟩, _, _,
        ⟨ProjectRepository.getMember_eq_some.mpr ⟨m, hm, rfl⟩, rfl⟩, _, _, ⟨rfl, rfl⟩, (), _, rfl, rfl, rfl⟩

instance {r : Option MemberRole} : Tx.ReadOnly (projectAccessPolicy r projectId actor) := by
  unfold projectAccessPolicy; infer_instance
instance : Tx.ReadOnly (requireProjectView projectId actor) := by unfold requireProjectView; infer_instance

namespace ProjectUpdate

variable {u : ProjectUpdate}

/-- The row `setattrs` leaves. -/
def applied (u : ProjectUpdate) (p : Project) : Project := { p with
  name := u.name.assignNotNull p.name
  description := u.description.assign p.description
  status := u.status.assignNotNull p.status
  startDate := u.startDate.assign p.startDate
  endDate := u.endDate.assign p.endDate }

theorem setattrs_eq_ok : u.setattrs p = .ok q ↔ (u.name ≠ .null ∧ u.status ≠ .null) ∧ q = u.applied p := by
  simp only [setattrs, Field.isNull_eq_true]
  split
  · next hnull => simp only [reduceCtorEq, false_iff]; tauto
  · next hnull => simp only [Except.ok.injEq]; tauto

theorem setattrs_error (h : u.name = .null ∨ u.status = .null) : u.setattrs p = .error .integrity := by
  simp only [setattrs, Field.isNull_eq_true]
  exact if_pos h

theorem setattrs_keeps (h : u.setattrs p = .ok q) : q.id = p.id ∧ q.live = p.live := by
  obtain ⟨-, rfl⟩ := setattrs_eq_ok.mp h
  exact ⟨rfl, rfl⟩

end ProjectUpdate

namespace ProjectService

instance {sorter : Sorter Project} {params : PageParams} : Tx.ReadOnly (listProjectsWith D sorter actor params) := by
  unfold listProjectsWith; infer_instance
instance : Tx.ReadOnly (getProjectDetail id) := by unfold getProjectDetail; infer_instance
instance {u : ProjectCreate} : Tx.Contained (createProject D c u actor) := by unfold createProject; infer_instance
instance {u : ProjectUpdate} : Tx.Contained (updateProject D c id u) := by unfold updateProject; infer_instance
instance : Tx.Contained (deleteProject D c id) := by unfold deleteProject; infer_instance
set_option synthInstance.maxSize 512 in
instance {u : MemberAdd} : Tx.Contained (addMember D c id u actor) := by unfold addMember; infer_instance
instance : Tx.Contained (removeMember projectId userId) := by unfold removeMember; infer_instance

end ProjectService

end Specs

end ProjectManagement
