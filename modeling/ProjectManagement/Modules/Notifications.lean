import ProjectManagement.Modules.Auth

/-! Domain events, the handlers registered at start-up, and the notification feed. -/

namespace ProjectManagement

open Library

variable (D : Deployment) (c : Call)

inductive DomainEvent
  | memberAddedToProject (projectId : Uuid) (projectName : String) (userId actorId : Uuid)
  | taskAssigned (taskId : Uuid) (taskTitle projectName : String) (assigneeId actorId : Uuid)
  deriving DecidableEq, Repr

structure NotificationOut where
  id : Uuid
  type : NotificationType
  title : String
  message : String
  isRead : Bool
  createdAt : Time
  deriving DecidableEq, Repr

def NotificationOut.modelValidate (n : Notification) : NotificationOut :=
  ⟨n.id, n.type, n.title, n.message, n.isRead, n.createdAt⟩

namespace NotificationRepository

def add (n : Notification) : App Unit := Tx.execute (Db.insertNotification D.engine n)

def find (notificationId : Uuid) (d : Db) : Option Notification :=
  d.notifications.rows.find? (fun n => n.id == notificationId)

def get (notificationId : Uuid) : App (Option Notification) := Tx.query (find notificationId)

def listForUserQuery (userId : Uuid) (d : Db) : List Notification :=
  orderBy D.engine [desc fun n => .number n.createdAt] (d.notifications.rows.filter (fun n => n.userId == userId))

/-- `UPDATE notifications SET is_read = true WHERE user_id = ... AND is_read IS false`. -/
def readAll (userId : Uuid) (ns : Table Notification) : Table Notification :=
  ns.updateWhere (fun n => n.userId == userId && !n.isRead) (fun n => { n with isRead := true }) (fun _ => rfl)

def markAllRead (userId : Uuid) : App Unit :=
  Tx.execute fun d => .ok { d with notifications := readAll userId d.notifications }

end NotificationRepository

namespace NotificationService

def listForUser (userId : Uuid) (params : PageParams) : App (List Notification × PaginationMeta) :=
  Tx.select fun d => paginate params (NotificationRepository.listForUserQuery D userId d)

def markRead (notificationId userId : Uuid) : App Notification := do
  let found ← NotificationRepository.get notificationId
  let notification ← Tx.orRaise found (.app (notFoundError "Notification not found"))
  Tx.refuseIf (notification.userId ≠ userId) (.app (forbiddenError "Not your notification"))
  let read := { notification with isRead := true }
  Tx.execute fun d => .ok { d with notifications := d.notifications.put read }
  pure read

def markAllRead (userId : Uuid) : App Unit := NotificationRepository.markAllRead userId

def newNotification (userId : Uuid) (title message : String) (type : NotificationType) : Notification :=
  ⟨c.fresh.notificationId, userId, type, title, message, false, c.stamp D⟩

def create (userId : Uuid) (title message : String) (type : NotificationType) : App Unit :=
  NotificationRepository.add D (newNotification D c userId title message type)

end NotificationService

def addedMessage (projectName : String) : String :=
  "You have been added to project \"" ++ projectName ++ "\"."

def assignedMessage (taskTitle projectName : String) : String :=
  "You have been assigned \"" ++ taskTitle ++ "\" in project \"" ++ projectName ++ "\"."

/-- The failed branch is `assert isinstance(event, MemberAddedToProject)`. -/
def onMemberAdded : DomainEvent → App Unit
  | .memberAddedToProject _ projectName userId _ =>
    NotificationService.create D c userId "Added to project" (addedMessage projectName) .projectMembership
  | _ => Tx.raise .unexpected

def onTaskAssigned : DomainEvent → App Unit
  | .taskAssigned _ taskTitle projectName assigneeId _ =>
    NotificationService.create D c assigneeId "New task assigned" (assignedMessage taskTitle projectName)
      .taskAssignment
  | _ => Tx.raise .unexpected

namespace EventBus

/-- The bus after `register`: the handlers under the event's type. -/
def handlers : DomainEvent → List (DomainEvent → App Unit)
  | .memberAddedToProject .. => [onMemberAdded D c]
  | .taskAssigned .. => [onTaskAssigned D c]

def dispatch (event : DomainEvent) : List (DomainEvent → App Unit) → App Unit
  | [] => pure ()
  | handler :: rest => do
    handler event
    dispatch event rest

def publish (event : DomainEvent) : App Unit := dispatch event (handlers D c event)

end EventBus

def DomainEvent.notification : DomainEvent → Notification
  | .memberAddedToProject _ projectName userId _ =>
    NotificationService.newNotification D c userId "Added to project" (addedMessage projectName) .projectMembership
  | .taskAssigned _ taskTitle projectName assigneeId _ =>
    NotificationService.newNotification D c assigneeId "New task assigned" (assignedMessage taskTitle projectName)
      .taskAssignment

section Specs

variable {D c} {s t : Session Db Blobs} {d : Db} {n : Notification} {id userId : Uuid} {x : Unit}

namespace NotificationRepository

theorem find_eq_some : find id d = some n ↔ n ∈ d.notifications.rows ∧ n.id = id :=
  Table.find?_key_eq_some

@[simp] theorem succeeds_add :
    (add D n).Succeeds s x t ↔
      ∃ d, Db.insertNotification D.engine n s.working = .ok d ∧ t = { s with working := d } := by
  simp only [add, Tx.succeeds_execute]

theorem readAll_changes {ns : Table Notification} {A : Option Notification → Option Notification → Prop}
    (h : ∀ n ∈ ns.rows, n.userId = userId → n.isRead = false → A (some n) (some { n with isRead := true })) :
    ns.Changes (readAll userId ns) A := by
  apply Table.Changes.updateWhere
  intro n hn hp
  rw [Bool.and_eq_true, beq_iff_eq, Bool.not_eq_true'] at hp
  exact h n hn hp.1 hp.2

instance : Tx.Contained (add D n) := by unfold add; infer_instance
instance : Tx.ReadOnly (get id) := by unfold get; infer_instance
instance : Tx.Contained (markAllRead id) := by unfold markAllRead; infer_instance

end NotificationRepository

namespace NotificationService

instance {params : PageParams} : Tx.ReadOnly (listForUser D userId params) := by unfold listForUser; infer_instance
instance : Tx.Contained (markRead id userId) := by unfold markRead; infer_instance
instance : Tx.Contained (markAllRead id) := by unfold markAllRead; infer_instance
instance {title message : String} {type : NotificationType} :
    Tx.Contained (create D c userId title message type) := by unfold create; infer_instance

end NotificationService

namespace EventBus

theorem publish_eq (event : DomainEvent) :
    publish D c event = (do NotificationRepository.add D (event.notification D c); pure ()) := by
  cases event <;> rfl

@[simp] theorem succeeds_publish {event : DomainEvent} :
    (publish D c event).Succeeds s x t ↔
      ∃ d, Db.insertNotification D.engine (event.notification D c) s.working = .ok d ∧
        t = { s with working := d } := by
  simp [publish_eq]

instance {event : DomainEvent} : Tx.Contained (publish D c event) := by rw [publish_eq]; infer_instance

end EventBus

end Specs

end ProjectManagement
