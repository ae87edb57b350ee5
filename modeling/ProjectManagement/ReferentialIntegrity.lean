import ProjectManagement.Library.References
import ProjectManagement.RefreshFamilies
import ProjectManagement.Schema
import ProjectManagement.Tombstones

/-!
The foreign keys of the schema. SQLite does not enforce them, so that there they hold because of what the
services look up before they write; the assignee of a task and the recipient of a notice about it are not
looked up.
-/

namespace ProjectManagement

open Library

variable {D : Deployment} {i : Input} {o : Outcome} {e : Event} {w w' : World} {d d' : Db}

/-- The rows of `d` refer to rows of `target`. -/
structure Referential (d target : Db) : Prop where
  projectCreators : d.projects.Refers (fun q => some q.createdBy) target.users
  memberProjects : d.projectMembers.Refers (fun m => some m.projectId) target.projects
  memberUsers : d.projectMembers.Refers (fun m => some m.userId) target.users
  taskProjects : d.tasks.Refers (fun r => some r.projectId) target.projects
  taskCreators : d.tasks.Refers (fun r => some r.createdBy) target.users
  commentTasks : d.comments.Refers (fun m => some m.taskId) target.tasks
  commentAuthors : d.comments.Refers (fun m => some m.userId) target.users
  fileTasks : d.fileAttachments.Refers (fun f => some f.taskId) target.tasks
  fileUploaders : d.fileAttachments.Refers (fun f => some f.uploadedBy) target.users
  tokenUsers : d.refreshTokens.Refers (fun t => some t.userId) target.users

theorem Referential.preserved {target : Db} (h : Referential d target) (preserved : Preserved target d') : Referential d d' where
  projectCreators := h.projectCreators.keeps preserved.users
  memberProjects := h.memberProjects.keeps preserved.projects
  memberUsers := h.memberUsers.keeps preserved.users
  taskProjects := h.taskProjects.keeps preserved.projects
  taskCreators := h.taskCreators.keeps preserved.users
  commentTasks := h.commentTasks.keeps preserved.tasks
  commentAuthors := h.commentAuthors.keeps preserved.users
  fileTasks := h.fileTasks.keeps preserved.tasks
  fileUploaders := h.fileUploaders.keeps preserved.users
  tokenUsers := h.tokenUsers.keeps preserved.users

theorem Referential.initial : Referential World.initial.1 World.initial.1 where
  projectCreators := .empty
  memberProjects := .empty
  memberUsers := .empty
  taskProjects := .empty
  taskCreators := .empty
  commentTasks := .empty
  commentAuthors := .empty
  fileTasks := .empty
  fileUploaders := .empty
  tokenUsers := .empty

theorem CurrentUser.has {c : Call} {u : User} (h : CurrentUser c d u) : d.users.Has u.id := ⟨u, h.mem, rfl⟩

theorem Accessible.has {actor : User} {id : Uuid} {r : Task} (h : Accessible d actor id r) : d.tasks.Has id :=
  ⟨r, h.mem, (TaskRepository.find_eq_some.mp h.found).2.2⟩

theorem Referential.put_task {c : Call} {r : Task} (h : Referential d d) (r' : Task) (hr : r ∈ d.tasks.rows)
    (hproject : r'.projectId = r.projectId) (hcreator : r'.createdBy = r.createdBy) :
    (d.tasks.put (afterFlush (TaskRepository.stamped D c) r r')).Refers (fun r => some r.projectId) d.projects ∧
      (d.tasks.put (afterFlush (TaskRepository.stamped D c) r r')).Refers (fun r => some r.createdBy) d.users := by
  constructor
  · refine h.taskProjects.put_same hr (congrArg some ?_)
    rw [afterFlush_column Task.projectId rfl, hproject]
  · refine h.taskCreators.put_same hr (congrArg some ?_)
    rw [afterFlush_column Task.createdBy rfl, hcreator]

theorem Referential.put_comment {c : Call} {m : Comment} (h : Referential d d) (m' : Comment) (hm : m ∈ d.comments.rows)
    (htask : m'.taskId = m.taskId) (hauthor : m'.userId = m.userId) :
    (d.comments.put (afterFlush (CommentRepository.stamped D c) m m')).Refers (fun m => some m.taskId) d.tasks ∧
      (d.comments.put (afterFlush (CommentRepository.stamped D c) m m')).Refers (fun m => some m.userId) d.users := by
  constructor
  · refine h.commentTasks.put_same hm (congrArg some ?_)
    rw [afterFlush_column Comment.taskId rfl, htask]
  · refine h.commentAuthors.put_same hm (congrArg some ?_)
    rw [afterFlush_column Comment.userId rfl, hauthor]

theorem Referential.put_project {c : Call} {q q' : Project} (h : Referential d d) (hq : q ∈ d.projects.rows)
    (hcreator : q'.createdBy = q.createdBy) :
    (d.projects.put (afterFlush (ProjectRepository.stamped D c) q q')).Refers (fun q => some q.createdBy) d.users := by
  refine h.projectCreators.put_same hq (congrArg some ?_)
  rw [afterFlush_column Project.createdBy rfl, hcreator]

theorem Referential.revoke {p : RefreshToken → Bool} (h : Referential d d) :
    (RefreshTokenRepository.revokeWhere p d.refreshTokens).Refers (fun t => some t.userId) d.users :=
  Table.Refers.updateWhere h.tokenUsers fun _ => rfl

theorem ProjectUpdate.setattrs_createdBy {p : ProjectUpdate} {q q' : Project} (h : p.setattrs q = .ok q') : q'.createdBy = q.createdBy := by
  obtain ⟨-, rfl⟩ := setattrs_eq_ok.mp h
  rfl

/-- What a request writes refers to rows that were there before it. -/
theorem Effect.referential (effect : Effect D i w o w') (h : Referential w.1 w.1) : Referential w'.1 w.1 := by
  cases effect with
  | loggedIn account verified active hash rows =>
    obtain ⟨hu, -⟩ := List.mem_filter.mp (account ▸ List.mem_singleton_self _)
    exact { h with tokenUsers := h.tokenUsers.append rows fun k hk => ⟨_, hu, Option.some.inj hk⟩ }
  | @rotated c d b a token r u tokens presented valid owner active hash rows =>
    obtain ⟨hr, -⟩ := RefreshTokenRepository.withHash_eq_singleton presented
    have hadded := h.tokenUsers.append rows fun k hk => h.tokenUsers r hr k hk
    refine { h with tokenUsers := hadded.put_same (r := r) ?_ rfl }
    rw [rows]
    exact List.mem_append_left _ hr
  | reuseDetected presented revoked => exact { h with tokenUsers := h.revoke }
  | loggedOut presented live =>
    exact { h with
      tokenUsers := h.tokenUsers.put_same (RefreshTokenRepository.withHash_eq_singleton presented).1 rfl }
  | passwordChanged caller errors verified policy hash => exact { h with tokenUsers := h.revoke }
  | projectCreated caller admin errors rows =>
    exact { h with projectCreators := h.projectCreators.append rows fun k hk => Option.some.inj hk ▸ caller.has }
  | projectUpdated caller admin errors found sent =>
    exact { h with
      projectCreators := h.put_project (ProjectRepository.find_eq_some.mp found).1 (ProjectUpdate.setattrs_createdBy sent) }
  | projectDeleted caller admin found =>
    exact { h with projectCreators := h.put_project (ProjectRepository.find_eq_some.mp found).1 rfl }
  | memberAdded caller admin found user new rows notified =>
    obtain ⟨hq, -, hproject⟩ := ProjectRepository.find_eq_some.mp found
    obtain ⟨hu, -, huser⟩ := UserRepository.find_eq_some.mp user
    exact { h with
      memberProjects := h.memberProjects.append rows fun k hk => ⟨_, hq, hproject.trans (Option.some.inj hk)⟩
      memberUsers := h.memberUsers.append rows fun k hk => ⟨_, hu, huser.trans (Option.some.inj hk)⟩ }
  | memberRemoved caller admin member =>
    exact { h with
      memberProjects := h.memberProjects.deleteWhere
      memberUsers := h.memberUsers.deleteWhere }
  | taskCreated caller errors access project rows notified =>
    obtain ⟨hq, -, hproject⟩ := ProjectRepository.find_eq_some.mp project
    exact { h with
      taskProjects := h.taskProjects.append rows fun k hk => ⟨_, hq, hproject.trans (Option.some.inj hk)⟩
      taskCreators := h.taskCreators.append rows fun k hk => Option.some.inj hk ▸ caller.has }
  | taskUpdated caller task errors sent notified =>
    obtain ⟨-, hproject, hcreator, -⟩ := TaskUpdate.setattrs_keeps sent
    obtain ⟨hprojects, hcreators⟩ := h.put_task _ task.mem hproject hcreator
    exact { h with taskProjects := hprojects, taskCreators := hcreators }
  | @taskStatusUpdated c d b a id p actor r caller task =>
    obtain ⟨hprojects, hcreators⟩ := h.put_task (D := D) (c := c) (statusUpdated d p r) task.mem rfl rfl
    exact { h with taskProjects := hprojects, taskCreators := hcreators }
  | @taskDeleted c d b a id actor r caller task =>
    obtain ⟨hprojects, hcreators⟩ := h.put_task (D := D) (c := c) { r with deletedAt := some c.now } task.mem rfl rfl
    exact { h with taskProjects := hprojects, taskCreators := hcreators }
  | commentCreated caller task errors rows =>
    exact { h with
      commentTasks := h.commentTasks.append rows fun k hk => Option.some.inj hk ▸ task.has
      commentAuthors := h.commentAuthors.append rows fun k hk => Option.some.inj hk ▸ caller.has }
  | @commentUpdated c d b a id p actor m r caller errors found task owned =>
    obtain ⟨htasks, hauthors⟩ := h.put_comment (D := D) (c := c) { m with content := p.content }
      (CommentRepository.find_eq_some.mp found).1 rfl rfl
    exact { h with commentTasks := htasks, commentAuthors := hauthors }
  | @commentDeleted c d b a id actor m r caller found task owned =>
    obtain ⟨htasks, hauthors⟩ := h.put_comment (D := D) (c := c) { m with deletedAt := some c.now }
      (CommentRepository.find_eq_some.mp found).1 rfl rfl
    exact { h with commentTasks := htasks, commentAuthors := hauthors }
  | fileUploaded caller task saved names rows =>
    exact { h with
      fileTasks := h.fileTasks.append rows fun k hk => Option.some.inj hk ▸ task.has
      fileUploaders := h.fileUploaders.append rows fun k hk => Option.some.inj hk ▸ caller.has }
  | _ => exact { h with }

theorem Referential.step (h : Referential w.1 w.1) : Referential (nextWorld D e w).1 (nextWorld D e w).1 := by
  suffices h : Referential (nextWorld D e w).1 w.1 from h.preserved (nextWorld_preserved D e w)
  refine nextWorld_cases (P := fun w' => Referential w'.1 w.1) e ?_ h fun users u _ _ _ => { h with }
  rintro i o w' rfl effect
  exact effect.referential h

/-! The recipients of notices. -/

/-- A notice about a membership goes to an account that was looked up. -/
def Notice (D : Deployment) (users : Table User) (n : Notification) : Prop :=
  n.type = .projectMembership ∨ D.engine.enforcesForeignKeys = true → users.Has n.userId

def Notices (D : Deployment) (d : Db) (users : Table User) : Prop := ∀ n ∈ d.notifications.rows, Notice D users n

theorem Notified.forall {c : Call} {event : Option DomainEvent} {old new : Table Notification} {P : Notification → Prop}
    (h : Notified D c event old new) (hold : ∀ n ∈ old.rows, P n) (hnew : ∀ e, event = some e → P (e.notification D c)) :
    ∀ n ∈ new.rows, P n := by
  intro n hn
  rw [h, List.mem_append] at hn
  rcases hn with hn | hn
  · exact hold n hn
  · obtain ⟨e, he, rfl⟩ := Option.map_eq_some_iff.mp (Option.mem_toList.mp hn)
    exact hnew e he

theorem forall_readAll {userId : Uuid} {ns : Table Notification} {P : Notification → Prop} (h : ∀ n ∈ ns.rows, P n)
    (read : ∀ n, P n → P { n with isRead := true }) : ∀ n ∈ (NotificationRepository.readAll userId ns).rows, P n := by
  intro n hn
  rw [NotificationRepository.readAll, Table.mem_updateWhere] at hn
  rcases hn with ⟨hn, -⟩ | ⟨n', hn', -, rfl⟩
  · exact h n hn
  · exact read n' (h n' hn')

theorem notice_taskAssigned {c : Call} {users : Table User} {taskId assigneeId actorId : Uuid} {title name : String}
    (h : D.engine.enforcesForeignKeys = true → users.Has assigneeId) :
    Notice D users ((DomainEvent.taskAssigned taskId title name assigneeId actorId).notification D c) := by
  rintro (hmember | hfk)
  · exact absurd hmember (by simp [DomainEvent.notification, NotificationService.newNotification])
  · exact h hfk

theorem notifiedAssignee_eq_some {assigneeSet : Bool} {previous new : Option Uuid} {actor : User} {id : Uuid}
    (h : notifiedAssignee assigneeSet previous new actor = some id) : new = some id ∧ new ≠ previous := by
  unfold notifiedAssignee at h
  split at h
  · next hset => exact ⟨h, hset.2.1⟩
  · exact absurd h (by simp)

theorem Notices.step (h : Notices D w.1 w.1.users) : Notices D (nextWorld D e w).1 w.1.users := by
  cases e with
  | seedAdmin c email password fullName =>
    rcases seedAdmin_next (D := D) (w := w) c email password fullName with hw | ⟨_, _, -, -, -, hw⟩
    · rw [hw]
      exact h
    · rw [hw]
      exact h
  | request i =>
    have effect := step_effect D i w
    change Notices D (next D i w).1 w.1.users
    generalize ok : outcome D i w = o at effect
    generalize next D i w = w' at effect
    cases effect with
    | memberAdded caller admin found user new rows notified =>
      refine notified.forall h fun e he => ?_
      obtain rfl := Option.some.inj he
      obtain ⟨hu, -, hid⟩ := UserRepository.find_eq_some.mp user
      exact fun _ => ⟨_, hu, hid⟩
    | taskCreated caller errors access project rows notified =>
      refine notified.forall h fun e he => ?_
      obtain ⟨assignee, hassignee, rfl⟩ := Option.map_eq_some_iff.mp he
      obtain ⟨hsome, -⟩ := notifiedAssignee_eq_some hassignee
      exact notice_taskAssigned fun fk => assignee_known (createTask_checked ok).2 fk assignee hsome
    | @taskUpdated c d b a id p actor r r' notifications caller task errors sent notified =>
      refine notified.forall h fun e he => ?_
      obtain ⟨assignee, hassignee, rfl⟩ := Option.map_eq_some_iff.mp he
      obtain ⟨hsome, hnew⟩ := notifiedAssignee_eq_some hassignee
      rw [TaskRepository.afterFlush_assigneeId] at hsome hnew
      rcases updateTask_checked ok task.found sent with rfl | ⟨-, hknown⟩
      · exact absurd rfl hnew
      · exact notice_taskAssigned fun fk => assignee_known hknown fk assignee hsome
    | @notificationRead c d b a id u n caller found own =>
      exact Table.forall_put h (h n (NotificationRepository.find_eq_some.mp found).1)
    | allNotificationsRead caller => exact forall_readAll h fun _ hn => hn
    | _ => exact h

theorem Notices.keeps {users : Table User} (h : Notices D d users) (preserved : users.Keeps User.live d'.users) : Notices D d d'.users :=
  fun n hn hnotice => (h n hn hnotice).keeps preserved

/-! The whole schema. -/

/-- What is guaranteed whatever the engine, and what only an engine that enforces foreign keys guarantees. -/
structure Integrity (D : Deployment) (d : Db) : Prop extends Referential d d where
  assignees : D.engine.enforcesForeignKeys = true → d.tasks.Refers Task.assigneeId d.users
  notices : Notices D d d.users
  successors : ∀ t ∈ d.refreshTokens.rows, ∀ id, t.replacedById = some id →
    ∃ s ∈ d.refreshTokens.rows, s.id = id ∧ s.familyId = t.familyId ∧ s.userId = t.userId

theorem FamilyInv.successor {ts : Table RefreshToken} (inv : FamilyInv ts) {t : RefreshToken} (ht : t ∈ ts.rows) {id : Uuid}
    (h : t.replacedById = some id) : ∃ s ∈ ts.rows, s.id = id ∧ s.familyId = t.familyId ∧ s.userId = t.userId := by
  have hmem : t ∈ family t.familyId ts := mem_family.mpr ⟨ht, rfl⟩
  have hchain := inv.chain t.familyId
  rcases List.eq_nil_or_concat (family t.familyId ts) with hnil | ⟨l, x, hl⟩
  · rw [hnil] at hmem
    exact absurd hmem (by simp)
  · rw [List.concat_eq_append] at hl
    rw [hl] at hchain hmem
    rcases List.mem_append.mp hmem with hmem | hmem
    · obtain ⟨s, hs, hnext⟩ := hchain.interior hmem
      obtain ⟨hs, hfamily⟩ := mem_family.mp (hl ▸ hs)
      exact ⟨s, hs, Option.some.inj (hnext.symm.trans h), hfamily, inv.owner s hs t ht hfamily⟩
    · rw [List.mem_singleton.mp hmem, hchain.last] at h
      exact absurd h (by simp)

theorem Reachable.referential (h : Reachable D w) : Referential w.1 w.1 := by
  obtain ⟨es, run⟩ := h
  exact run.invariant (I := fun w => Referential w.1 w.1) (fun _ _ _ h => h.step) .initial

/-- No reference of a reachable database dangles. -/
theorem references_hold (h : Reachable D w) : Integrity D w.1 := by
  have notices : Notices D w.1 w.1.users := by
    obtain ⟨es, run⟩ := h
    apply run.invariant (I := fun w => Notices D w.1 w.1.users)
      fun e w _ h => h.step.keeps (nextWorld_preserved D e w).users
    simp [Notices, World.initial, Db.empty, Table.empty]
  refine { h.referential with assignees := ?_, notices := notices, successors := ?_ }
  · exact fun fk r hr id hid => h.schema.assignees fk r hr id hid
  · exact fun t ht id hid => h.familyInv.successor ht hid

/-- A member of the project signs in twice over, is given the task, comments on it and attaches a file. -/
def busy : List Event :=
  oneTask ++ sampleRequests 4 [(none, .register ⟨"a@b.c", "Passw0rd", "A"⟩), (none, .login "a@b.c" "Passw0rd"),
    (some 16, .addMember 32 { userId := 64 }), (none, .refresh "rrrrr"), (some 16, .updateTask 48 { assigneeId := .value 64 }),
    (some 64, .createComment 48 ⟨"a"⟩)]

def attachment : Event :=
  .request ⟨Call.sample 10 (some 64), .uploadFile 48 ⟨some "a.txt", some "text/plain", [1, 2, 3]⟩⟩

theorem references_hold_sample :
    let d := (nextWorld .postgresql attachment (playFrom .postgresql World.initial busy)).1
    (d.projectMembers.rows.length, d.comments.rows.length, d.fileAttachments.rows.length, d.notifications.rows.length) =
        (1, 1, 1, 2) ∧
      (d.refreshTokens.rows.map fun t => (t.userId, t.replacedById)) = [(64, some 112), (64, none)] ∧
      d.tasks.rows.map Task.assigneeId = [some 64] ∧ Integrity .postgresql d := by
  have fresh : freshRun .postgresql World.initial busy = true := by decide +kernel
  obtain ⟨blobs, files⟩ := playFrom_of_freshRun fresh
  have families : FreshFamily attachment (playFrom .postgresql World.initial busy) := by
    unfold FreshFamily
    decide +kernel
  have run : Execution .postgresql FreshIds World.initial (busy ++ [attachment])
      (nextWorld .postgresql attachment (playFrom .postgresql World.initial busy)) := by
    refine (execution_of_freshRun fresh (fun _ => rfl) rfl).append (.single ⟨families, fun name => ⟨?_, ?_⟩⟩)
    · rw [blobs]
      rfl
    · rw [files]
      simp [World.initial, Db.empty, Table.empty]
  exact ⟨by decide +kernel, by decide +kernel, by decide +kernel, references_hold ⟨_, run⟩⟩

end ProjectManagement
