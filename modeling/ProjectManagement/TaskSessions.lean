import ProjectManagement.Effects
import ProjectManagement.Library.ReadCommitted

/-!
Concurrent requests that write one task, statement by statement: load, flush, notification, reload,
commit.
-/

namespace ProjectManagement

open Library

inductive RowKey
  | task (id : Uuid)
  | notification (id : Uuid)
  | refreshToken (id : Uuid)
  | user (id : Uuid)
  deriving DecidableEq

def read {α : Type} (m : App α) (d : Db) : Except Raised α := m.answer (d, fun _ => none)

/-- A checked statement, replayed when its transaction commits. -/
def replay (f : Db → Except Raised Db) (d : Db) : Db :=
  match f d with
  | .ok d' => d'
  | .error _ => d

inductive TaskRequest
  | update (payload : TaskUpdate)
  | updateStatus (payload : TaskStatusUpdate)
  | delete

inductive TaskChange
  | update (payload : TaskUpdate)
  | move (status : TaskStatus) (position : ℚ)
  | delete (time : Time)

def TaskChange.apply : TaskChange → Task → Except Raised Task
  | update p, t => p.setattrs t
  | move status position, t => .ok { t with status := status, position := position }
  | delete time, t => .ok { t with deletedAt := some time }

namespace TaskRequest

def errors : TaskRequest → List ErrorDetail
  | update p => p.errors
  | updateStatus _ => []
  | delete => []

/-- A status update without a position computes one from what it sees. -/
def change (c : Call) (t : Task) (d : Db) : TaskRequest → TaskChange
  | update p => .update p
  | updateStatus p => .move p.status (p.position.getD (TaskRepository.nextPosition t.projectId p.status d))
  | delete => .delete c.now

def event (d : Db) (actor : User) (old new : Task) : TaskRequest → Option DomainEvent
  | update p => taskUpdatedEvent d actor p old new
  | updateStatus _ => none
  | delete => none

def reloads : TaskRequest → Bool
  | update _ => true
  | updateStatus _ => true
  | delete => false

end TaskRequest

/-- The columns a flush writes: those that differ from what was loaded, the version, `updated_at`. -/
def setClause (loaded row r : Task) : Task :=
  { r with
    title := if row.title = loaded.title then r.title else row.title
    description := if row.description = loaded.description then r.description else row.description
    status := if row.status = loaded.status then r.status else row.status
    priority := if row.priority = loaded.priority then r.priority else row.priority
    assigneeId := if row.assigneeId = loaded.assigneeId then r.assigneeId else row.assigneeId
    dueDate := if row.dueDate = loaded.dueDate then r.dueDate else row.dueDate
    position := if row.position = loaded.position then r.position else row.position
    deletedAt := if row.deletedAt = loaded.deletedAt then r.deletedAt else row.deletedAt
    version := row.version
    updatedAt := row.updatedAt }

theorem key_setClause (loaded row r : Task) : Keyed.key (setClause loaded row r) = Keyed.key r := rfl

/-- `UPDATE tasks SET ... WHERE id = ... AND version = ...`. -/
def updateTaskRow (loaded row : Task) (d : Db) : Db :=
  { d with
    tasks := d.tasks.updateWhere (fun r => r.id == loaded.id && r.version == loaded.version) (setClause loaded row)
      (key_setClause loaded row) }

inductive TaskPhase
  | start
  | loaded (actor : User) (task : Task)
  | ready (actor : User) (task : Task) (change : TaskChange)
  | flushed (actor : User) (task : Task) (change : TaskChange) (row : Task)
  | published (task : Task) (change : TaskChange) (row : Task) (event : Option DomainEvent)
  | answered (task : Task) (change : TaskChange) (row : Task) (event : Option DomainEvent)
  | done (change : TaskChange) (wrote : Bool) (event : Option DomainEvent)
  | failed (e : Raised)

section Statements

variable (D : Deployment) (id : Uuid) (c : Call) (request : TaskRequest)

def loadTask : App (User × LoadedTask) := do
  let r ← Routes.accessibleTask c id
  validated request.errors
  pure r

def updateStatement (loaded row : Task) : Write Db RowKey := ⟨[.task loaded.id], updateTaskRow loaded row⟩

def notifyStatement (event : DomainEvent) : Write Db RowKey :=
  ⟨[.notification (event.notification D c).id], replay (Db.insertNotification D.engine (event.notification D c))⟩

def TaskPhase.next : TaskPhase → Db → Action Db RowKey TaskPhase
  | start, d =>
    match read (loadTask id c request) d with
    | .ok (actor, t) => .read (loaded actor t.row)
    | .error e => .rollback (failed e)
  | loaded actor t, d => .read (ready actor t (request.change c t d))
  | ready actor t change, d =>
    match change.apply t with
    | .error e => .rollback (failed e)
    | .ok new =>
      if new = t then .read (flushed actor t change t)
      else match Db.putTask D.engine t.version (TaskRepository.stamped D c new) d with
        | .error e => .rollback (failed e)
        | .ok _ => .write (updateStatement t (TaskRepository.stamped D c new))
            (flushed actor t change (TaskRepository.stamped D c new))
  | flushed actor t change row, d =>
    match request.event d actor t row with
    | none => .read (published t change row none)
    | some event =>
      match Db.insertNotification D.engine (event.notification D c) d with
      | .error e => .rollback (failed e)
      | .ok _ => .write (notifyStatement D c event) (published t change row (some event))
  | published t change row event, d =>
    if request.reloads = true ∧ TaskRepository.find row.id d = none then .rollback (failed .unexpected)
    else .read (answered t change row event)
  | answered t change row event, _ => .commit (done change (row ≠ t) event)
  | done _ _ _, _ => .stop
  | failed _, _ => .stop

end Statements

section Requests

variable {ι : Type} [DecidableEq ι] (D : Deployment) (id : Uuid) (calls : ι → Call) (requests : ι → TaskRequest)

abbrev statements (i : ι) : TaskPhase → Db → Action Db RowKey TaskPhase := TaskPhase.next D id (calls i) (requests i)

abbrev TaskSessions (ι : Type) := Sessions ι Db RowKey TaskPhase

def runTasks (d : Db) (schedule : List ι) : TaskSessions ι :=
  (Sessions.start d .start).play (statements D id calls requests) schedule

end Requests

end ProjectManagement
