import ProjectManagement.System

/-!
The notification feed as a history: what the successful requests of a run have announced, in order, and who may mark it
read.
-/

namespace ProjectManagement

open Library

variable {D : Deployment} {c : Call} {i : Input} {o : Outcome} {w w' : World} {d d' : Db} {u : User} {id : Uuid}

def Call.subject (c : Call) : Option Uuid := c.bearer.bind AccessToken.sub

theorem CurrentUser.subject (h : CurrentUser c d u) : c.subject = some u.id := by
  obtain ⟨payload, hp, hs⟩ := h.token
  obtain ⟨token, ht, hdecode⟩ := Option.bind_eq_some_iff.mp hp
  unfold decodeAccessToken at hdecode
  split at hdecode
  · obtain rfl := Option.some.inj hdecode
    simp [Call.subject, ht, hs]
  · simp at hdecode

def assigneeOf (taskId : Uuid) (d : Db) : Option Uuid := (d.tasks.lookup taskId).bind Task.assigneeId

/-- What a request announces, and to whom: an addition to a project; a task created for, or handed over to, somebody other
than the caller. -/
def entered (i : Input) (d d' : Db) (o : Outcome) : Option (Uuid × NotificationType) :=
  match i.request, o with
  | .addMember _ p, .ok _ => some (p.userId, .projectMembership)
  | .createTask p, .ok _ => (p.assigneeId.filter (fun a => some a ≠ i.call.subject)).map (·, .taskAssignment)
  | .updateTask id _, .ok _ =>
    ((assigneeOf id d').filter (fun a => some a ≠ assigneeOf id d ∧ some a ≠ i.call.subject)).map (·, .taskAssignment)
  | _, _ => none

def Event.entered (D : Deployment) (w : World) : Event → Option (Uuid × NotificationType)
  | request i => ProjectManagement.entered i w.1 (next D i w).1 (outcome D i w)
  | seedAdmin .. => none

def history (D : Deployment) : World → List Event → List (Uuid × NotificationType)
  | _, [] => []
  | w, e :: es => (e.entered D w).toList ++ history D (nextWorld D e w) es

def Notification.entry (n : Notification) : Uuid × NotificationType := (n.userId, n.type)

def feed (d : Db) : List (Uuid × NotificationType) := d.notifications.rows.map Notification.entry

theorem Notified.feed {event : Option DomainEvent} {notifications : Table Notification}
    (h : Notified D c event d.notifications notifications) :
    notifications.rows.map Notification.entry =
      feed d ++ (event.map fun e => (e.notification D c).entry).toList := by
  rw [h, List.map_append]
  cases event with
  | none => rfl
  | some e => rfl

theorem notifiedAssignee_eq_filter {assigneeSet : Bool} {previous new : Option Uuid}
    (h : assigneeSet = false → new = previous) : notifiedAssignee assigneeSet previous new u =
      new.filter (fun a => some a ≠ previous ∧ some a ≠ some u.id) := by
  cases assigneeSet with
  | false =>
    obtain rfl := h rfl
    cases new <;> simp [notifiedAssignee, Option.filter]
  | true => cases new <;> simp [notifiedAssignee, Option.filter]

theorem taskCreatedEvent_entry {p : TaskCreate} {q : Project} (caller : CurrentUser c d u) :
    (taskCreatedEvent c u p q).map (fun e => (e.notification D c).entry) =
      (p.assigneeId.filter (fun a => some a ≠ c.subject)).map (·, .taskAssignment) := by
  rw [taskCreatedEvent, notifiedAssignee_eq_filter (by simp), caller.subject, Option.map_map]
  simp only [ne_eq, reduceCtorEq, not_false_eq_true, true_and]
  rfl

theorem TaskUpdate.setattrs_assigneeId {p : TaskUpdate} {r r' : Task} (h : p.setattrs r = .ok r')
    (hunset : p.assigneeId.isSet = false) : r'.assigneeId = r.assigneeId := by
  obtain ⟨-, rfl⟩ := setattrs_eq_ok.mp h
  cases hp : p.assigneeId with
  | unset => simp [applied, hp, Field.assign]
  | null => simp [hp, Field.isSet] at hunset
  | value a => simp [hp, Field.isSet] at hunset

theorem assigneeOf_of_mem {r : Task} {tasks : Table Task} (h : d.tasks = tasks) (hr : r ∈ tasks.rows) (hid : r.id = id) :
    assigneeOf id d = r.assigneeId := by
  have hlookup : d.tasks.lookup id = some r := by
    rw [h]
    exact Table.lookup_eq_some.mpr ⟨hr, hid⟩
  simp [assigneeOf, hlookup]

theorem taskUpdatedEvent_entry {p : TaskUpdate} {r r' : Task} (caller : CurrentUser c d u) (sent : p.setattrs r = .ok r') :
    (taskUpdatedEvent d u p r (afterFlush (TaskRepository.stamped D c) r r')).map (fun e => (e.notification D c).entry) =
      (r'.assigneeId.filter (fun a => some a ≠ r.assigneeId ∧ some a ≠ c.subject)).map (·, .taskAssignment) := by
  rw [taskUpdatedEvent, TaskRepository.afterFlush_assigneeId, notifiedAssignee_eq_filter (TaskUpdate.setattrs_assigneeId sent),
    caller.subject, Option.map_map]
  rfl

theorem entered_of_reads (h : i.request.reads = true) : entered i d d' o = none := by
  rcases i with ⟨c, request⟩
  cases request with
  | addMember id p => simp [Request.reads] at h
  | createTask p => simp [Request.reads] at h
  | updateTask id p => simp [Request.reads] at h
  | _ => rfl

theorem Effect.feed (h : Effect D i w o w') : feed w'.1 = feed w.1 ++ (entered i w.1 w'.1 o).toList := by
  cases h with
  | rejected => simp [entered]
  | uploadFailed caller task => simp [entered]
  | answered reads =>
    rw [entered_of_reads reads]
    exact (List.append_nil _).symm
  | memberAdded caller admin found user new rows notified => exact notified.feed
  | taskCreated caller errors access project rows notified => exact notified.feed.trans (by rw [taskCreatedEvent_entry caller]; rfl)
  | @taskUpdated c d b a id p actor r r' notifications caller task errors sent notified =>
    have hid : (afterFlush (TaskRepository.stamped D c) r r').id = id :=
      (TaskRepository.afterFlush_id (TaskUpdate.setattrs_keeps sent).1).trans task.id_eq
    have hbefore : assigneeOf id d = r.assigneeId := assigneeOf_of_mem rfl task.mem task.id_eq
    have hafter : assigneeOf id { d with
        tasks := d.tasks.put (afterFlush (TaskRepository.stamped D c) r r'), notifications := notifications } =
        r'.assigneeId :=
      (assigneeOf_of_mem rfl (Table.mem_put_self task.mem (task.id_eq.trans hid.symm)) hid).trans
        TaskRepository.afterFlush_assigneeId
    refine notified.feed.trans ?_
    rw [taskUpdatedEvent_entry caller sent]
    simp only [entered, hbefore, hafter]
  | @notificationRead c d b a id u n caller found own =>
    obtain ⟨hn, -⟩ := NotificationRepository.find_eq_some.mp found
    have hput : (d.notifications.put { n with isRead := true }).rows.map Notification.entry = feed d := by
      apply Table.map_put
      intro x hx hid
      obtain rfl : x = n := d.notifications.eq_of_key hx hn hid
      rfl
    exact hput.trans (List.append_nil _).symm
  | @allNotificationsRead c d b a u caller =>
    have hread : (NotificationRepository.readAll u.id d.notifications).rows.map Notification.entry = feed d :=
      Table.map_updateWhere fun _ => rfl
    exact hread.trans (List.append_nil _).symm
  | _ => exact (List.append_nil _).symm

theorem feed_step (e : Event) : feed (nextWorld D e w).1 = feed w.1 ++ (e.entered D w).toList := by
  cases e with
  | request i => exact (step_effect D i w).feed
  | seedAdmin c email password fullName =>
    rcases seedAdmin_next (D := D) (w := w) c email password fullName with h | ⟨hashed, users, -, -, -, h⟩
    · rw [h]
      exact (List.append_nil _).symm
    · rw [h]
      exact (List.append_nil _).symm

theorem Execution.feed {ok : Event → World → Prop} {es : List Event} (run : Execution D ok w es w') :
    feed w'.1 = feed w.1 ++ history D w es := by
  induction run with
  | nil w => simp [history]
  | @cons e w es w' h rest ih => rw [ih, feed_step, history, List.append_assoc]

/-- What a request may do to a row of the feed: enter it, unread, or mark it read for its owner. -/
inductive FeedWrite (i : Input) (d : Db) : Option Notification → Option Notification → Prop
  | entered {n : Notification} (unread : n.isRead = false) : FeedWrite i d none (some n)
  | read {n : Notification} {u : User} (caller : CurrentUser i.call d u) (own : n.userId = u.id)
      (unread : n.isRead = false) (request : i.request = .markRead n.id ∨ i.request = .markAllRead) :
      FeedWrite i d (some n) (some { n with isRead := true })

theorem Notified.feedWrite {event : Option DomainEvent} {notifications : Table Notification}
    (h : Notified D c event d.notifications notifications) :
    d.notifications.Changes notifications (FeedWrite i d) := by
  cases event with
  | none =>
    obtain rfl : notifications = d.notifications := Table.ext (h.trans (List.append_nil _))
    exact .refl
  | some e =>
    apply Table.Changes.append h
    cases e with
    | memberAddedToProject => exact .entered rfl
    | taskAssigned => exact .entered rfl

theorem Effect.feedWrite (h : Effect D i w o w') : w.1.notifications.Changes w'.1.notifications (FeedWrite i w.1) := by
  cases h with
  | memberAdded caller admin found user new rows notified => exact notified.feedWrite
  | taskCreated caller errors access project rows notified => exact notified.feedWrite
  | taskUpdated caller task errors sent notified => exact notified.feedWrite
  | @notificationRead c d b a id u n caller found own =>
    obtain ⟨hn, rfl⟩ := NotificationRepository.find_eq_some.mp found
    cases hread : n.isRead with
    | true =>
      have hsame : { n with isRead := true } = n := by rw [← hread]
      rw [hsame, Table.put_of_mem hn]
      exact .refl
    | false => exact .put hn rfl (.read caller own hread (Or.inl rfl))
  | @allNotificationsRead c d b a u caller =>
    exact NotificationRepository.readAll_changes fun n _ own unread => .read caller own unread (Or.inr rfl)
  | _ => exact .refl

/-- Every user's notifications are what the run has announced to him, in order; a request enters at most unread rows, and
only the owner's own requests mark one read. -/
theorem notification_feed {ok : Event → World → Prop} {es : List Event} (run : Execution D ok World.initial es w) :
    (∀ userId, (w.1.notifications.rows.filter (fun n => n.userId = userId)).map Notification.type =
      ((history D World.initial es).filter (fun x => x.1 = userId)).map Prod.snd) ∧
      ∀ i, w.1.notifications.Changes (next D i w).1.notifications (FeedWrite i w.1) := by
  constructor
  · intro userId
    have hfeed : feed w.1 = history D World.initial es := run.feed.trans (List.nil_append _)
    rw [← hfeed, feed, List.filter_map, List.map_map]
    rfl
  · intro i
    exact (step_effect D i w).feedWrite

def assignments : List Event :=
  oneTask ++ sampleRequests 4
    [(none, .register ⟨"a@b.c", "Passw0rd", "A"⟩), (some 16, .addMember 32 { userId := 64 }),
      (some 16, .createTask { projectId := 32, title := "U", assigneeId := some 64 }),
      (some 16, .updateTask 48 { assigneeId := .value 64 }), (some 16, .updateTask 48 { assigneeId := .value 64 }),
      (some 64, .markAllRead)]

theorem notification_feed_sample :
    ((playFrom .sample World.initial assignments).1.notifications.rows.filter (fun n => n.userId = 64)).map
      Notification.type = [.projectMembership, .taskAssignment, .taskAssignment] :=
  ((notification_feed (execution_of_freshRun (by decide +kernel) (fun _ => rfl) rfl)).1 64).trans (by decide +kernel)

end ProjectManagement
