import ProjectManagement.Modules.Projects

/-! The tasks module: repository, the access check shared by task, comment and file routes, service. -/

namespace ProjectManagement

open Library

variable (D : Deployment) (c : Call)

structure TaskOut where
  id : Uuid
  projectId : Uuid
  title : String
  description : Option String
  status : TaskStatus
  priority : TaskPriority
  assigneeId : Option Uuid
  assignee : Option UserOut
  dueDate : Option Date
  position : ℚ
  createdBy : Uuid
  version : ℕ
  createdAt : Time
  updatedAt : Time
  deriving DecidableEq

structure TaskCreate where
  projectId : Uuid
  title : String
  description : Option String := none
  status : TaskStatus := .todo
  priority : TaskPriority := .medium
  assigneeId : Option Uuid := none
  dueDate : Option Date := none

def TaskCreate.errors (p : TaskCreate) : List ErrorDetail := stringLength "title" 1 255 p.title

structure TaskUpdate where
  title : Field String := .unset
  description : Field String := .unset
  priority : Field TaskPriority := .unset
  assigneeId : Field Uuid := .unset
  dueDate : Field Date := .unset

def TaskUpdate.errors (p : TaskUpdate) : List ErrorDetail := p.title.check (stringLength "title" 1 255)

structure TaskStatusUpdate where
  status : TaskStatus
  position : Option ℚ := none

structure KanbanBoard where
  todo : List TaskOut
  inProgress : List TaskOut
  inReview : List TaskOut
  done : List TaskOut
  deriving DecidableEq

/-- A task of the session with its `assignee` relationship as loaded. The identity map keeps the
relationship when the row is selected again, also after `assignee_id` has changed. -/
structure LoadedTask where
  row : Task
  assignee : Option User

def TaskOut.modelValidate (t : LoadedTask) : TaskOut :=
  ⟨t.row.id, t.row.projectId, t.row.title, t.row.description, t.row.status, t.row.priority, t.row.assigneeId,
    t.assignee.map UserOut.modelValidate, t.row.dueDate, t.row.position, t.row.createdBy, t.row.version,
    t.row.createdAt, t.row.updatedAt⟩

def Db.loadTask (d : Db) (t : Task) : LoadedTask := ⟨t, t.assigneeId.bind d.relatedUser⟩

@[simp] theorem Db.loadTask_row (d : Db) (t : Task) : (d.loadTask t).row = t := rfl

def positionStep : ℚ := 1000

namespace TaskRepository

def find (taskId : Uuid) (d : Db) : Option Task := d.tasks.rows.find? (fun t => t.live && t.id == taskId)

def get (taskId : Uuid) : App (Option LoadedTask) := Tx.query fun d => (find taskId d).map d.loadTask

/-- `get` for a task the session already holds. -/
def reload (t : LoadedTask) : App LoadedTask := do
  let found ← Tx.query (find t.row.id)
  let row ← Tx.orRaise found .unexpected -- `assert loaded is not None`
  pure ⟨row, t.assignee⟩

def listForProjectQuery (projectId : Uuid) (search : Option String) (d : Db) : List Task :=
  searched search (fun s t => ilike D.lower D.engine s t.title)
    (d.tasks.rows.filter (fun t => t.live && t.projectId == projectId))

/-- The board order: status, position, id. -/
def boardOrder : List (OrderTerm Task) :=
  [asc fun t => .text t.status.value, asc fun t => .number t.position, asc fun t => .number t.id.toNat]

def listForProject (projectId : Uuid) (d : Db) : List Task :=
  orderBy D.engine boardOrder (listForProjectQuery D projectId none d)

def column (projectId : Uuid) (status : TaskStatus) (d : Db) : List Task :=
  d.tasks.rows.filter (fun t => t.projectId == projectId && t.status == status && t.live)

/-- `(max or 0.0) + POSITION_STEP`. Positions are exact and finite here; the column is a double, which rounds the sum, and a
request may also send it an infinity. -/
def nextPosition (projectId : Uuid) (status : TaskStatus) (d : Db) : ℚ :=
  (((column projectId status d).map Task.position).max?.getD 0) + positionStep

def add (t : Task) : App Unit := Tx.execute (Db.insertTask D.engine t)

/-- The columns a versioned flush writes by itself. -/
def stamped (t : Task) : Task := { t with version := t.version + 1, updatedAt := c.stamp D }

def flush (old new : Task) : App Task :=
  if new = old then pure old
  else do
    Tx.execute (Db.putTask D.engine old.version (stamped D c new))
    pure (stamped D c new)

def delete (t : Task) : App Task := flush D c t { t with deletedAt := some c.now }

end TaskRepository

/-- The short-circuit of `role != admin and not await is_member(...)`. -/
def mayAccess (projectId : Uuid) (user : User) : App Bool :=
  if user.role = .admin then pure true else ProjectRepository.isMember projectId user.id

def getAccessibleTask (taskId : Uuid) (user : User) : App LoadedTask := do
  let found ← TaskRepository.get taskId
  let task ← Tx.orRaise found (.app (notFoundError "Task not found"))
  let allowed ← mayAccess task.row.projectId user
  Tx.refuseIf (allowed = false) (.app (forbiddenError "You are not a member of this project"))
  pure task

def TaskUpdate.setattrs (p : TaskUpdate) (t : Task) : Except Raised Task :=
  if p.title.isNull ∨ p.priority.isNull then .error .integrity
  else .ok { t with
    title := p.title.assignNotNull t.title
    description := p.description.assign t.description
    priority := p.priority.assignNotNull t.priority
    assigneeId := p.assigneeId.assign t.assigneeId
    dueDate := p.dueDate.assign t.dueDate }

def newTask (p : TaskCreate) (position : ℚ) (actor : User) : Task :=
  ⟨c.fresh.id, p.projectId, p.title, p.description, p.status, p.priority, p.assigneeId, p.dueDate, position,
    actor.id, 1, c.stamp D, c.stamp D, none⟩

/-- The assignee to notify: a new one, other than the actor. -/
def notifiedAssignee (assigneeSet : Bool) (previous new : Option Uuid) (actor : User) : Option Uuid :=
  if assigneeSet ∧ new ≠ previous ∧ new ≠ some actor.id then new else none

namespace TaskService

def listForProjectWith (sorter : Sorter Task) (projectId : Uuid) (params : PageParams) : App (List LoadedTask × PaginationMeta) :=
  Tx.select fun d => do
    let terms :=
      if params.sort = none then TaskRepository.boardOrder
      else applySort params
        [("title", fun t => .text t.title), ("priority", fun t => .text t.priority.value),
          ("due_date", fun t => .ofOption t.dueDate), ("created_at", fun t => .number t.createdAt),
          ("position", fun t => .number t.position)]
        (fun t => .text t.status.value)
    let page ← paginateSearched D.engine params
      (sorter terms (TaskRepository.listForProjectQuery D projectId params.search d))
    return (page.1.map d.loadTask, page.2)

abbrev listForProject (projectId : Uuid) (params : PageParams) : App (List LoadedTask × PaginationMeta) :=
  listForProjectWith D (orderBy D.engine) projectId params

/-- The grouping loop: every task goes to the column of its status. -/
def kanbanBoard (projectId : Uuid) : App (TaskStatus → List LoadedTask) :=
  Tx.query fun d =>
    (TaskRepository.listForProject D projectId d).foldl
      (fun board t status => if t.status = status then board status ++ [d.loadTask t] else board status)
      (fun _ => [])

def notifyAssignment (task : Task) (assigneeId : Uuid) (projectName : String) (actor : User) : App Unit :=
  EventBus.publish D c (.taskAssigned task.id task.title projectName assigneeId actor.id)

def createTask (p : TaskCreate) (actor : User) : App LoadedTask := do
  let found ← ProjectRepository.get p.projectId
  let project ← Tx.orRaise found (.app (notFoundError "Project not found"))
  let position ← Tx.query (TaskRepository.nextPosition p.projectId p.status)
  let task := newTask D c p position actor
  TaskRepository.add D task
  Tx.forSome (notifiedAssignee true none task.assigneeId actor)
    (fun assignee => notifyAssignment D c task assignee project.name actor)
  let loaded ← TaskRepository.get task.id
  Tx.orRaise loaded .unexpected -- `assert loaded is not None`

def updateTask (task : LoadedTask) (p : TaskUpdate) (actor : User) : App LoadedTask := do
  let changed ← Tx.ofExcept (p.setattrs task.row)
  let row ← TaskRepository.flush D c task.row changed
  Tx.forSome (notifiedAssignee p.assigneeId.isSet task.row.assigneeId row.assigneeId actor) fun assignee => do
    let project ← ProjectRepository.get row.projectId
    notifyAssignment D c row assignee ((project.map Project.name).getD "") actor
  TaskRepository.reload ⟨row, task.assignee⟩

/-- The position is read before the flush, so the moved task still counts where it was. -/
def updateStatus (task : LoadedTask) (p : TaskStatusUpdate) : App LoadedTask := do
  let next ← Tx.query (TaskRepository.nextPosition task.row.projectId p.status)
  let row ← TaskRepository.flush D c task.row
    { task.row with status := p.status, position := p.position.getD next }
  TaskRepository.reload ⟨row, task.assignee⟩

def deleteTask (task : LoadedTask) : App Unit := do
  let _ ← TaskRepository.delete D c task.row

end TaskService

section Specs

variable {D c} {s t : Session Db Blobs} {d d' : Db} {r r' : Task} {l : LoadedTask} {actor : User}
  {id projectId : Uuid} {x : Unit}

namespace TaskRepository

theorem find_eq_some : find id d = some r ↔ r ∈ d.tasks.rows ∧ r.live = true ∧ r.id = id :=
  Table.find?_eq_some

@[simp] theorem succeeds_get {o : Option LoadedTask} :
    (get id).Succeeds s o t ↔ o = (find id s.working).map s.working.loadTask ∧ t = s := by
  simp only [get, Tx.succeeds_query]

@[simp] theorem succeeds_reload {o : LoadedTask} :
    (reload l).Succeeds s o t ↔ ∃ r, find l.row.id s.working = some r ∧ o = ⟨r, l.assignee⟩ ∧ t = s := by
  simp only [reload, Tx.succeeds_bind, Tx.succeeds_query, Tx.succeeds_orRaise, Tx.succeeds_pure]
  constructor
  · rintro ⟨_, _, ⟨rfl, rfl⟩, r, _, ⟨hr, rfl⟩, rfl, rfl⟩
    exact ⟨r, hr, rfl, rfl⟩
  · rintro ⟨r, hr, rfl, rfl⟩
    exact ⟨_, _, ⟨rfl, rfl⟩, r, _, ⟨hr, rfl⟩, rfl, rfl⟩

@[simp] theorem succeeds_add :
    (add D r).Succeeds s x t ↔ ∃ d, Db.insertTask D.engine r s.working = .ok d ∧ t = { s with working := d } := by
  simp only [add, Tx.succeeds_execute]

theorem afterFlush_assigneeId : (afterFlush (stamped D c) r r').assigneeId = r'.assigneeId :=
  afterFlush_column Task.assigneeId rfl

theorem afterFlush_id (h : r'.id = r.id) : (afterFlush (stamped D c) r r').id = r.id :=
  (afterFlush_column Task.id rfl).trans h

theorem find_flushed (found : find id d = some r) (sameId : r'.id = r.id) (sameLive : r'.live = r.live)
    (tasks : d'.tasks = d.tasks.put (afterFlush (stamped D c) r r')) : find id d' = some (afterFlush (stamped D c) r r') := by
  rw [find, tasks]
  exact find?_afterFlush found rfl rfl sameId sameLive

theorem flush_iff {o : Task} (hr : r ∈ s.working.tasks.rows) : (flush D c r r').Succeeds s o t ↔
    o = afterFlush (stamped D c) r r' ∧
      (r' ≠ r → ∃ d, Db.putTask D.engine r.version (stamped D c r') s.working = .ok d) ∧
      t = { s with working := { s.working with tasks := s.working.tasks.put o } } :=
  succeeds_flushed_row (f := fun tasks => { s.working with tasks := tasks }) hr rfl fun _ => Db.putTask_ok

theorem succeeds_flush {o : Task} (hr : r ∈ s.working.tasks.rows) (h : (flush D c r r').Succeeds s o t) :
    o = afterFlush (stamped D c) r r' ∧
      t = { s with working := { s.working with tasks := s.working.tasks.put o } } := by
  obtain ⟨ho, -, ht⟩ := (flush_iff hr).mp h
  exact ⟨ho, ht⟩

instance : Tx.ReadOnly (get id) := by unfold get; infer_instance
instance : Tx.ReadOnly (reload l) := by unfold reload; infer_instance
instance : Tx.Contained (add D r) := by unfold add; infer_instance
instance : Tx.Contained (flush D c r r') := by unfold flush; infer_instance
instance : Tx.Contained (delete D c r) := by unfold delete; infer_instance

end TaskRepository

@[simp] theorem succeeds_mayAccess_true :
    (mayAccess projectId actor).Succeeds s true t ↔ MayAccess s.working projectId actor ∧ t = s := by
  unfold mayAccess MayAccess
  by_cases ha : actor.role = .admin
  · simp [ha]
  · simp [ha, ProjectRepository.isMember_eq_true]

structure Accessible (d : Db) (user : User) (taskId : Uuid) (r : Task) : Prop where
  found : TaskRepository.find taskId d = some r
  access : MayAccess d r.projectId user

theorem Accessible.mem (h : Accessible d actor id r) : r ∈ d.tasks.rows := (TaskRepository.find_eq_some.mp h.found).1

theorem Accessible.live (h : Accessible d actor id r) : r.live = true :=
  (TaskRepository.find_eq_some.mp h.found).2.1

theorem Accessible.id_eq (h : Accessible d actor id r) : r.id = id := (TaskRepository.find_eq_some.mp h.found).2.2

instance : Tx.ReadOnly (mayAccess projectId actor) := by unfold mayAccess; infer_instance

@[simp] theorem succeeds_getAccessibleTask :
    (getAccessibleTask id actor).Succeeds s l t ↔
      ∃ r, Accessible s.working actor id r ∧ l = s.working.loadTask r ∧ t = s := by
  simp only [getAccessibleTask, Tx.succeeds_bind, TaskRepository.succeeds_get, Tx.succeeds_orRaise,
    Tx.succeeds_refuseIf, Tx.succeeds_pure, Bool.not_eq_false]
  constructor
  · rintro ⟨_, _, ⟨rfl, rfl⟩, l', _, ⟨hl, rfl⟩, b, u, hb, _, _, ⟨rfl, rfl⟩, rfl, rfl⟩
    obtain ⟨r, hr, rfl⟩ := Option.map_eq_some_iff.mp hl
    obtain ⟨hm, rfl⟩ := succeeds_mayAccess_true.mp hb
    exact ⟨r, ⟨hr, hm⟩, rfl, rfl⟩
  · rintro ⟨r, ⟨hr, hm⟩, rfl, rfl⟩
    exact ⟨_, _, ⟨rfl, rfl⟩, _, _, ⟨by rw [hr]; rfl, rfl⟩, true, _, succeeds_mayAccess_true.mpr ⟨hm, rfl⟩, (), _,
      ⟨rfl, rfl⟩, rfl, rfl⟩

instance : Tx.ReadOnly (getAccessibleTask id actor) := by unfold getAccessibleTask; infer_instance

namespace TaskUpdate

variable {p : TaskUpdate}

/-- The row `setattrs` leaves. -/
def applied (p : TaskUpdate) (t : Task) : Task := { t with
  title := p.title.assignNotNull t.title
  description := p.description.assign t.description
  priority := p.priority.assignNotNull t.priority
  assigneeId := p.assigneeId.assign t.assigneeId
  dueDate := p.dueDate.assign t.dueDate }

theorem setattrs_eq_ok : p.setattrs r = .ok r' ↔ (p.title ≠ .null ∧ p.priority ≠ .null) ∧ r' = p.applied r := by
  simp only [setattrs, Field.isNull_eq_true]
  split
  · next hnull => simp only [reduceCtorEq, false_iff]; tauto
  · next hnull => simp only [Except.ok.injEq]; tauto

theorem setattrs_error (h : p.title = .null ∨ p.priority = .null) : p.setattrs r = .error .integrity := by
  simp only [setattrs, Field.isNull_eq_true]
  exact if_pos h

theorem setattrs_keeps (h : p.setattrs r = .ok r') :
    r'.id = r.id ∧ r'.projectId = r.projectId ∧ r'.createdBy = r.createdBy ∧ r'.deletedAt = r.deletedAt ∧
      r'.version = r.version := by
  obtain ⟨-, rfl⟩ := setattrs_eq_ok.mp h
  exact ⟨rfl, rfl, rfl, rfl, rfl⟩

end TaskUpdate

namespace TaskService

instance {sorter : Sorter Task} {params : PageParams} : Tx.ReadOnly (listForProjectWith D sorter projectId params) := by
  unfold listForProjectWith; infer_instance
instance : Tx.ReadOnly (kanbanBoard D projectId) := by unfold kanbanBoard; infer_instance
instance {name : String} : Tx.Contained (notifyAssignment D c r id name actor) := by
  unfold notifyAssignment; infer_instance
instance {p : TaskCreate} : Tx.Contained (createTask D c p actor) := by unfold createTask; infer_instance
instance {p : TaskUpdate} : Tx.Contained (updateTask D c l p actor) := by unfold updateTask; infer_instance
instance {p : TaskStatusUpdate} : Tx.Contained (updateStatus D c l p) := by unfold updateStatus; infer_instance
instance : Tx.Contained (deleteTask D c l) := by unfold deleteTask; infer_instance

end TaskService

end Specs

end ProjectManagement
