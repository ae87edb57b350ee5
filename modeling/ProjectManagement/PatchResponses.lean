import ProjectManagement.PageWalk

/-!
What a `PATCH` answers with, and what the next `GET` reads. A handler answers from the objects of its session, the `GET` from
the rows.
-/

namespace ProjectManagement

open Library

variable {D : Deployment} {c : Call} {i : Input} {w w' : World} {a : ApiResponse} {id : Uuid} {d : Db}

/-! The `GET`s. -/

theorem getTask_data (ok : outcome D ⟨c, .getTask id⟩ w = .ok a) :
    ∃ r, TaskRepository.find id w.1 = some r ∧ a.data = .task (TaskOut.modelValidate (w.1.loadTask r)) := by
  obtain ⟨t, h, -⟩ := succeeds_of_outcome ok
  simp only [handle, Routes.getTask, Tx.succeeds_bind, Routes.succeeds_accessibleTask, Tx.succeeds_pure] at h
  obtain ⟨_, _, ⟨actor, r, caller, task, rfl, rfl⟩, rfl, rfl⟩ := h
  exact ⟨r, task.found, rfl⟩

theorem getTask_ok {u : User} {r : Task} (caller : CurrentUser c w.1 u) (task : Accessible w.1 u id r) :
    outcome D ⟨c, .getTask id⟩ w = .ok { data := .task (TaskOut.modelValidate (w.1.loadTask r)) } := by
  have hread : (Routes.accessibleTask c id).Succeeds ⟨w.1, w.1, w.2⟩ (u, w.1.loadTask r) ⟨w.1, w.1, w.2⟩ :=
    Routes.succeeds_accessibleTask.mpr ⟨u, r, caller, task, rfl, rfl⟩
  have hroute : (Routes.getTask c id).Succeeds ⟨w.1, w.1, w.2⟩ { data := .task (TaskOut.modelValidate (w.1.loadTask r)) }
      ⟨w.1, w.1, w.2⟩ := hread.bind (Tx.succeeds_pure.mpr ⟨rfl, rfl⟩)
  exact congrArg Prod.fst (Tx.run_of_succeeds hroute)

theorem getUser_data {u : User} (ok : outcome D ⟨c, .getUser id⟩ w = .ok a) (found : UserRepository.find id w.1 = some u) :
    a.data = .user (UserOut.modelValidate u) := by
  obtain ⟨t, h, -⟩ := succeeds_of_outcome ok
  simp only [handle, Routes.getUser, UserService.getUser, Tx.succeeds_bind, succeeds_getCurrentUser, Tx.succeeds_refuseIf,
    UserRepository.succeeds_get, Tx.succeeds_orRaise, Tx.succeeds_pure] at h
  obtain ⟨actor, _, ⟨caller, rfl⟩, u', _, ⟨_, _, ⟨-, rfl⟩, o, _, ⟨rfl, rfl⟩, found', rfl⟩, rfl, rfl⟩ := h
  obtain rfl := Option.some.inj (found.symm.trans found')
  rfl

theorem getUser_ok {actor u : User} (caller : CurrentUser c w.1 actor) (allowed : actor.role = .admin ∨ actor.id = id)
    (found : UserRepository.find id w.1 = some u) : ∃ a, outcome D ⟨c, .getUser id⟩ w = .ok a := by
  have hroute : ∃ a, (Routes.getUser c id).Succeeds ⟨w.1, w.1, w.2⟩ a ⟨w.1, w.1, w.2⟩ := by
    simp only [Routes.getUser, UserService.getUser, Tx.succeeds_bind, succeeds_getCurrentUser, Tx.succeeds_refuseIf,
      UserRepository.succeeds_get, Tx.succeeds_orRaise, Tx.succeeds_pure]
    exact ⟨_, actor, _, ⟨caller, rfl⟩, u, _, ⟨(), _, ⟨by simpa [or_iff_not_imp_left] using allowed, rfl⟩, _, _, ⟨rfl, rfl⟩, found, rfl⟩,
      rfl, rfl⟩
  obtain ⟨a, hroute⟩ := hroute
  exact ⟨a, congrArg Prod.fst (Tx.run_of_succeeds hroute)⟩

def IsDetail (d : Db) (id : Uuid) (data : Data) : Prop :=
  ∃ q members, ProjectRepository.find id d = some q ∧
    ((d.projectMembers.rows.filter (fun m => m.projectId == q.id)).map d.loadMember).mapM MemberOut.modelValidate = some members ∧
    data = .projectDetail ⟨ProjectOut.modelValidate q, members⟩

theorem IsDetail.unique {data data' : Data} (h : IsDetail d id data) (h' : IsDetail d id data') : data = data' := by
  obtain ⟨q, members, found, valid, rfl⟩ := h
  obtain ⟨q', members', found', valid', rfl⟩ := h'
  obtain rfl := Option.some.inj (found.symm.trans found')
  obtain rfl := Option.some.inj (valid.symm.trans valid')
  rfl

theorem succeeds_detail {message : Option String} {s t : Session Db Blobs}
    (h : (do
      let r ← ProjectService.getProjectDetail id
      Routes.projectDetail message r : App ApiResponse).Succeeds s a t) : IsDetail s.working id a.data ∧ t = s := by
  simp only [ProjectService.getProjectDetail, ProjectRepository.getWithMembers, Routes.projectDetail, Tx.succeeds_bind,
    Tx.succeeds_query, Tx.succeeds_orRaise, Tx.succeeds_pure] at h
  obtain ⟨r, _, ⟨_, _, ⟨rfl, rfl⟩, hr, rfl⟩, members, _, ⟨valid, rfl⟩, rfl, rfl⟩ := h
  obtain ⟨q, found, rfl⟩ := Option.map_eq_some_iff.mp hr
  exact ⟨⟨q, members, found, valid, rfl⟩, rfl⟩

theorem getProject_data (ok : outcome D ⟨c, .getProject id⟩ w = .ok a) : IsDetail w.1 id a.data := by
  obtain ⟨t, h, -⟩ := succeeds_of_outcome ok
  simp only [handle, Routes.getProject] at h
  rw [Tx.succeeds_bind] at h
  obtain ⟨actor, _, hactor, h⟩ := h
  rw [Tx.succeeds_bind] at h
  obtain ⟨q, _, hview, h⟩ := h
  obtain ⟨-, rfl⟩ := succeeds_getCurrentUser.mp hactor
  obtain ⟨-, -, rfl⟩ := succeeds_requireProjectView.mp hview
  exact (succeeds_detail h).1

theorem getProject_ok {u : User} {data : Data} (caller : CurrentUser c w.1 u) (admin : u.role = .admin)
    (detail : IsDetail w.1 id data) : ∃ a, outcome D ⟨c, .getProject id⟩ w = .ok a := by
  obtain ⟨q, members, found, valid, -⟩ := detail
  have hroute : ∃ a, (Routes.getProject c id).Succeeds ⟨w.1, w.1, w.2⟩ a ⟨w.1, w.1, w.2⟩ := by
    simp only [Routes.getProject, ProjectService.getProjectDetail, ProjectRepository.getWithMembers, Routes.projectDetail,
      Tx.succeeds_bind, succeeds_getCurrentUser, succeeds_requireProjectView, Tx.succeeds_query, Tx.succeeds_orRaise,
      Tx.succeeds_pure]
    exact ⟨_, u, _, ⟨caller, rfl⟩, q, _, ⟨found, Or.inl admin, rfl⟩, _, _, ⟨_, _, ⟨rfl, rfl⟩, congrArg (Option.map _) found, rfl⟩,
      members, _, ⟨valid, rfl⟩, rfl, rfl⟩
  obtain ⟨a, hroute⟩ := hroute
  exact ⟨a, congrArg Prod.fst (Tx.run_of_succeeds hroute)⟩

/-! The `PATCH`es. -/

/-- A task loaded for a user, flushed and selected again by the same user. -/
structure Reselected (c : Call) (d d' : Db) (u : User) (id : Uuid) (r r' : Task) : Prop where
  caller : CurrentUser c d u
  task : Accessible d u id r
  callerAfter : CurrentUser c d' u
  taskAfter : Accessible d' u id r'
  users : d'.users = d.users

theorem reselected {u : User} {r r₁ r' : Task} (caller : CurrentUser c d u) (task : Accessible d u id r)
    (sameId : r₁.id = r.id) (sameProject : r₁.projectId = r.projectId) {d' : Db}
    (tasks : d'.tasks = d.tasks.put (afterFlush (TaskRepository.stamped D c) r r₁)) (users : d'.users = d.users)
    (members : d'.projectMembers = d.projectMembers)
    (found : TaskRepository.find (afterFlush (TaskRepository.stamped D c) r r₁).id d' = some r') :
    Reselected c d d' u id r r' ∧ r' = afterFlush (TaskRepository.stamped D c) r r₁ := by
  have hid : (afterFlush (TaskRepository.stamped D c) r r₁).id = r.id := TaskRepository.afterFlush_id sameId
  obtain ⟨hmem, -, hkey⟩ := TaskRepository.find_eq_some.mp found
  have hrow : r' = afterFlush (TaskRepository.stamped D c) r r₁ := by
    apply d'.tasks.eq_of_key hmem
    · rw [tasks]
      exact Table.mem_put_self task.mem hid.symm
    · exact hkey
  refine ⟨⟨caller, task, ?_, ?_, users⟩, hrow⟩
  · refine ⟨caller.token, ?_, caller.active⟩
    rw [UserRepository.find, users]
    exact caller.found
  · constructor
    · rw [← task.id_eq, ← hid]
      exact found
    · rw [hrow, afterFlush_column Task.projectId rfl, sameProject, MayAccess, ProjectRepository.memberRows, members]
      exact task.access

theorem updateTask_data {p : TaskUpdate} (ok : outcome D ⟨c, .updateTask id p⟩ w = .ok a) :
    ∃ u r r', Reselected c w.1 (next D ⟨c, .updateTask id p⟩ w).1 u id r r' ∧
      r'.assigneeId = p.assigneeId.assign r.assigneeId ∧
      a.data = .task (TaskOut.modelValidate ⟨r', r.assigneeId.bind w.1.relatedUser⟩) := by
  obtain ⟨t, h, hnext⟩ := succeeds_of_outcome ok
  rw [hnext]
  simp only [handle, Routes.updateTask, TaskService.updateTask, TaskService.notifyAssignment, Tx.succeeds_bind,
    Routes.succeeds_accessibleTask, succeeds_validated, Tx.succeeds_ofExcept, Tx.succeeds_forSome,
    ProjectRepository.succeeds_get, EventBus.succeeds_publish, TaskRepository.succeeds_reload, Db.loadTask_row,
    exists_eq_left, exists_const, ↓existsAndEq, and_true, Tx.succeeds_pure] at h
  obtain ⟨u, r, ⟨caller, task⟩, -, r₁, o, s, r', ⟨sent, hf, hn, found⟩, rfl⟩ := h
  obtain ⟨rfl, rfl⟩ := TaskRepository.succeeds_flush task.mem hf
  obtain ⟨hid, hproject, -⟩ := TaskUpdate.setattrs_keeps sent
  have hassignee : r₁.assigneeId = p.assigneeId.assign r.assigneeId := by
    obtain ⟨-, rfl⟩ := TaskUpdate.setattrs_eq_ok.mp sent
    rfl
  have hrows : t.working.tasks = w.1.tasks.put (afterFlush (TaskRepository.stamped D c) r r₁) ∧
      t.working.users = w.1.users ∧ t.working.projectMembers = w.1.projectMembers := by
    rcases hn with ⟨-, rfl⟩ | ⟨assignee, -, d', hd, rfl⟩
    · exact ⟨rfl, rfl, rfl⟩
    · obtain ⟨-, notifications, -, rfl⟩ := Db.insertNotification_ok hd
      exact ⟨rfl, rfl, rfl⟩
  obtain ⟨patched, hrow⟩ := reselected caller task hid hproject hrows.1 hrows.2.1 hrows.2.2 found
  refine ⟨u, r, r', patched, ?_, rfl⟩
  rw [hrow, TaskRepository.afterFlush_assigneeId, hassignee]

theorem updateTaskStatus_data {p : TaskStatusUpdate} (ok : outcome D ⟨c, .updateTaskStatus id p⟩ w = .ok a) :
    ∃ u r r', Reselected c w.1 (next D ⟨c, .updateTaskStatus id p⟩ w).1 u id r r' ∧ r'.assigneeId = r.assigneeId ∧
      a.data = .task (TaskOut.modelValidate ⟨r', r.assigneeId.bind w.1.relatedUser⟩) := by
  obtain ⟨t, h, hnext⟩ := succeeds_of_outcome ok
  rw [hnext]
  simp only [handle, Routes.updateTaskStatus, TaskService.updateStatus, Tx.succeeds_bind, Routes.succeeds_accessibleTask,
    Tx.succeeds_query, TaskRepository.succeeds_reload, Db.loadTask_row, exists_eq_left, ↓existsAndEq, and_true,
    Tx.succeeds_pure] at h
  obtain ⟨u, r, ⟨caller, task⟩, o, r', ⟨hf, found⟩, rfl⟩ := h
  obtain ⟨rfl, ht⟩ := TaskRepository.succeeds_flush task.mem hf
  have hrows : t.working.tasks = w.1.tasks.put (afterFlush (TaskRepository.stamped D c) r (statusUpdated w.1 p r)) ∧
      t.working.users = w.1.users ∧ t.working.projectMembers = w.1.projectMembers := by
    rw [ht]
    exact ⟨rfl, rfl, rfl⟩
  obtain ⟨patched, hrow⟩ := reselected caller task (by rfl) (by rfl) hrows.1 hrows.2.1 hrows.2.2 found
  refine ⟨u, r, r', patched, ?_, rfl⟩
  rw [hrow, TaskRepository.afterFlush_assigneeId]
  rfl

theorem updateProject_data {p : ProjectUpdate} (ok : outcome D ⟨c, .updateProject id p⟩ w = .ok a) :
    IsDetail (next D ⟨c, .updateProject id p⟩ w).1 id a.data ∧
      ∃ u, CurrentUser c (next D ⟨c, .updateProject id p⟩ w).1 u ∧ u.role = .admin := by
  have effect := step_effect D ⟨c, .updateProject id p⟩ w
  rw [ok] at effect
  have caller : ∃ u, CurrentUser c (next D ⟨c, .updateProject id p⟩ w).1 u ∧ u.role = .admin := by
    generalize next D ⟨c, .updateProject id p⟩ w = w' at effect
    cases effect with
    | answered reads => simp [Request.reads] at reads
    | projectUpdated caller admin => exact ⟨_, ⟨caller.token, caller.found, caller.active⟩, admin⟩
  refine ⟨?_, caller⟩
  obtain ⟨t, h, hnext⟩ := succeeds_of_outcome ok
  rw [hnext]
  simp only [handle, Routes.updateProject, ProjectService.updateProject, Tx.succeeds_bind] at h
  obtain ⟨_, _, -, _, _, -, _, _, -, r, s, ⟨_, _, -, _, _, -, _, _, -, _, s', -, hdetail⟩, hroute⟩ := h
  obtain ⟨detail, rfl⟩ := succeeds_detail (hdetail.bind hroute)
  exact detail

/-- After a `PATCH` of an account its caller, if he may still log in, has the role and the id he had. -/
theorem caller_after {actor actor' u v : User} {d' : Db} (caller : CurrentUser c d actor)
    (users : d'.users = d.users.put (afterFlush (UserRepository.stamped D c) u v)) (sameId : v.id = u.id)
    (after : CurrentUser c d' actor') : actor'.id = actor.id ∧ (actor'.role = actor.role ∨ actor'.id = u.id) := by
  have hid : actor'.id = actor.id := by
    obtain ⟨payload, hpayload, hsub⟩ := caller.token
    obtain ⟨payload', hpayload', hsub'⟩ := after.token
    obtain rfl := Option.some.inj (hpayload.symm.trans hpayload')
    exact Option.some.inj (hsub'.symm.trans hsub)
  have hrow : (afterFlush (UserRepository.stamped D c) u v).id = u.id := UserRepository.afterFlush_id sameId
  refine ⟨hid, ?_⟩
  have hmem := after.mem
  rw [users] at hmem
  rcases Table.of_mem_put hmem with rfl | ⟨hmem, -⟩
  · exact Or.inr hrow
  · exact Or.inl (congrArg User.role (d.users.eq_of_key hmem caller.mem hid))

theorem updateUser_data {p : UserUpdate} (ok : outcome D ⟨c, .updateUser id p⟩ w = .ok a) :
    ∃ u, UserRepository.find id (next D ⟨c, .updateUser id p⟩ w).1 = some u ∧ a.data = .user (UserOut.modelValidate u) ∧
      ∀ actor, CurrentUser c (next D ⟨c, .updateUser id p⟩ w).1 actor → actor.role = .admin ∨ actor.id = id := by
  obtain ⟨t, h, hnext⟩ := succeeds_of_outcome ok
  rw [hnext]
  simp only [handle, Routes.updateUserWith, UserService.updateUserWith, ne_eq, Tx.succeeds_bind, succeeds_getCurrentUser,
    succeeds_validated, Tx.succeeds_refuseIf, UserRepository.succeeds_get, Tx.succeeds_orRaise,
    UserService.succeeds_checkEmail, Tx.succeeds_ofExcept, ↓existsAndEq, and_true, exists_const, exists_eq_left,
    Tx.succeeds_pure] at h
  obtain ⟨actor, caller, -, v, ⟨allowed, u, found, -, -, u', sent, hf⟩, rfl⟩ := h
  obtain ⟨hu, -, rfl⟩ := UserRepository.find_eq_some.mp found
  obtain ⟨rfl, -, ht⟩ := UserRepository.succeeds_flush hu hf
  obtain ⟨hid, hlive, -⟩ := UserUpdate.setattrs_keeps sent
  have husers : t.working.users = w.1.users.put (afterFlush (UserRepository.stamped D c) u u') := by rw [ht]
  refine ⟨_, UserRepository.find_flushed found hid hlive husers, rfl, fun actor' after => ?_⟩
  obtain ⟨hactor, hrole | hself⟩ := caller_after caller husers hid after
  · have hadmin : actor.role = .admin ∨ actor.id = u.id := by
      by_contra hne
      rw [not_or] at hne
      exact allowed hne
    rw [hrole, hactor]
    exact hadmin
  · exact Or.inr hself

theorem updateRole_data {p : UserRoleUpdate} (ok : outcome D ⟨c, .updateRole id p⟩ w = .ok a) :
    ∃ u, UserRepository.find id (next D ⟨c, .updateRole id p⟩ w).1 = some u ∧ a.data = .user (UserOut.modelValidate u) ∧
      ∀ actor, CurrentUser c (next D ⟨c, .updateRole id p⟩ w).1 actor → actor.role = .admin ∨ actor.id = id := by
  obtain ⟨t, h, hnext⟩ := succeeds_of_outcome ok
  rw [hnext]
  simp only [handle, Routes.updateRoleWith, UserService.updateRoleWith, Tx.succeeds_bind, succeeds_getCurrentUser,
    succeeds_requireAdmin, UserRepository.succeeds_get, Tx.succeeds_orRaise, ↓existsAndEq, and_true, exists_eq_left,
    exists_const, Tx.succeeds_pure] at h
  obtain ⟨actor, caller, admin, v, ⟨u, found, hf⟩, rfl⟩ := h
  obtain ⟨hu, -, rfl⟩ := UserRepository.find_eq_some.mp found
  obtain ⟨rfl, -, ht⟩ := UserRepository.succeeds_flush hu hf
  have husers : t.working.users = w.1.users.put (afterFlush (UserRepository.stamped D c) u { u with role := p.role }) := by rw [ht]
  refine ⟨_, UserRepository.find_flushed found (by rfl) (by rfl) husers, rfl, fun actor' after => ?_⟩
  obtain ⟨-, hrole | hself⟩ := caller_after caller husers (by rfl) after
  · exact Or.inl (hrole.trans admin)
  · exact Or.inr hself

theorem updateComment_data {p : CommentPayload} (ok : outcome D ⟨c, .updateComment id p⟩ w = .ok a) :
    ∃ m out, CommentRepository.find id (next D ⟨c, .updateComment id p⟩ w).1 = some m ∧
      CommentOut.modelValidate ((next D ⟨c, .updateComment id p⟩ w).1.loadComment m) = some out ∧ a.data = .comment out := by
  obtain ⟨t, h, hnext⟩ := succeeds_of_outcome ok
  rw [hnext]
  simp only [handle, Routes.updateComment, CommentService.update, Tx.succeeds_bind, succeeds_getCurrentUser, succeeds_validated,
    Routes.succeeds_accessibleComment, Db.loadComment_row, Tx.succeeds_pure, ↓existsAndEq, and_true,
    CommentService.succeeds_getOwned, Tx.succeeds_orRaise, exists_const] at h
  obtain ⟨actor, -, -, _, _, ⟨-, -⟩, out, m, m', ⟨⟨found, -⟩, hf⟩, valid, rfl⟩ := h
  obtain ⟨rfl, ht⟩ := CommentRepository.succeeds_flush (CommentRepository.find_eq_some.mp found).1 hf
  have huser : (afterFlush (CommentRepository.stamped D c) m { m with content := p.content }).userId = m.userId :=
    afterFlush_column Comment.userId rfl
  refine ⟨afterFlush (CommentRepository.stamped D c) m { m with content := p.content }, out, ?_, ?_, rfl⟩
  · apply CommentRepository.find_flushed found
    · rfl
    · rfl
    · rw [ht]
  · rw [← valid, ht, Db.loadComment, Db.loadComment, huser]
    rfl

/-! The comment list. -/

theorem listComments_data {taskId : Uuid} {params : PageParams} (ok : outcome D ⟨c, .listComments taskId params⟩ w = .ok a) :
    ∃ outs page, a.data = .comments outs ∧ (Listing.comments taskId).stored D params w.1 = .ok page ∧
      (page.1.map fun m => CommentOut.modelValidate (w.1.loadComment m)) = outs.map some := by
  obtain ⟨t, h, -⟩ := succeeds_of_outcome ok
  simp only [handle, Routes.listComments, Tx.succeeds_bind, Routes.succeeds_accessibleTask, succeeds_validated,
    Tx.succeeds_orRaise, Tx.succeeds_pure, Db.loadTask_row, exists_const, ↓existsAndEq, and_true] at h
  obtain ⟨actor, r, ⟨-, task⟩, -, items, outs, hlist, loaded, rfl⟩ := h
  have answer := (listForTask_stored D params w r.id).symm.trans (Tx.answer_eq_ok.mpr ⟨t, hlist⟩)
  rw [task.id_eq] at answer
  cases hpage : (Listing.comments taskId).stored D params w.1 with
  | error e => simp [hpage, Except.map] at answer
  | ok page =>
    rw [hpage] at answer
    obtain rfl := Except.ok.inj answer
    rw [mapM_eq_some, Prod.map_fst, List.map_map] at loaded
    exact ⟨outs, page, rfl, rfl, loaded⟩

/-- The pages of a task's comments: one of them has the comment, and under its id none has anything else. -/
def ListsComment (D : Deployment) (w : World) (out : CommentOut) : Prop :=
  ∀ params : PageParams, params.errors = [] →
    (∃ page, 0 < page ∧ ∀ c a, outcome D ⟨c, .listComments out.taskId { params with page := page }⟩ w = .ok a →
      ∃ outs, a.data = .comments outs ∧ out ∈ outs) ∧
    ∀ c a outs, outcome D ⟨c, .listComments out.taskId params⟩ w = .ok a → a.data = .comments outs →
      ∀ other ∈ outs, other.id = out.id → other = out

theorem CommentOut.modelValidate_row {l : LoadedComment} {out : CommentOut} (h : CommentOut.modelValidate l = some out) :
    out.id = l.row.id ∧ out.taskId = l.row.taskId := by
  obtain ⟨u, -, rfl⟩ := Option.map_eq_some_iff.mp h
  exact ⟨rfl, rfl⟩

theorem listsComment {m : Comment} {out : CommentOut} (found : CommentRepository.find id w.1 = some m)
    (valid : CommentOut.modelValidate (w.1.loadComment m) = some out) : ListsComment D w out := by
  obtain ⟨hmem, hlive, hid⟩ := CommentRepository.find_eq_some.mp found
  obtain ⟨hout, htask⟩ := CommentOut.modelValidate_row valid
  have hrow : m ∈ (Listing.comments out.taskId).rows D {} w.1 := by
    apply List.mem_filter.mpr
    simp [hmem, hlive, htask]
  intro params accepted
  constructor
  · have hall : AllPages (CommentService.listForTask D out.taskId) params w _ :=
      (allPages_iff (fun params => listForTask_stored D params w out.taskId) (size_pos accepted)).mpr ⟨rfl, rfl⟩
    obtain ⟨page, answers, hitems⟩ := hall
    have hloaded : w.1.loadComment m ∈ (List.range' 1 (page 1).2.pages).flatMap fun n => (page n).1 := by
      rw [← hitems]
      exact List.mem_map.mpr ⟨m, mem_orderBy.mpr hrow, rfl⟩
    obtain ⟨n, hn, hpage⟩ := List.mem_flatMap.mp hloaded
    rw [List.mem_range'_1] at hn
    refine ⟨n, hn.1, fun c a ok => ?_⟩
    obtain ⟨outs, answered, hdata, hanswered, hlist⟩ := listComments_data ok
    refine ⟨outs, hdata, ?_⟩
    have answer := (listForTask_stored D { params with page := n } w out.taskId).symm.trans (answers n hn.1 (by omega))
    rw [hanswered] at answer
    rw [← Except.ok.inj answer] at hpage
    obtain ⟨m', hm', hsame⟩ := List.mem_map.mp hpage
    have hsome : some out ∈ outs.map some := by
      rw [← hlist]
      exact List.mem_map.mpr ⟨m', hm', (congrArg CommentOut.modelValidate hsame).trans valid⟩
    simpa using hsome
  · intro c a outs ok data other hother sameId
    obtain ⟨outs', answered, hdata, hanswered, hlist⟩ := listComments_data ok
    obtain rfl := Data.comments.inj (data.symm.trans hdata)
    have hsome : some other ∈ outs.map some := List.mem_map.mpr ⟨other, hother, rfl⟩
    rw [← hlist] at hsome
    obtain ⟨m', hm', hvalid⟩ := List.mem_map.mp hsome
    have hrow' : m' ∈ w.1.comments.rows := by
      rw [(Listing.stored_eq_ok.mp hanswered).2.2, fst_pageOf] at hm'
      exact (List.mem_filter.mp (mem_orderBy.mp ((page_sublist _ _ _).subset hm'))).1
    have hkey : m'.id = m.id := (CommentOut.modelValidate_row hvalid).1.symm.trans (sameId.trans hout)
    obtain rfl := w.1.comments.eq_of_key hrow' hmem hkey
    exact Option.some.inj (hvalid.symm.trans valid)

/-- In the state a task `PATCH` leaves, its caller may read the task, and whoever does reads what the `PATCH` answered. -/
structure ShowsTask (D : Deployment) (c : Call) (w : World) (id : Uuid) (data : Data) : Prop where
  readable : ∃ a, outcome D ⟨c, .getTask id⟩ w = .ok a
  reads : ∀ c a, outcome D ⟨c, .getTask id⟩ w = .ok a → a.data = data
  nested : ∀ t, data = .task t → t.assignee = (t.assigneeId.bind w.1.relatedUser).map UserOut.modelValidate

/-- The caller's own `GET`, unless he has locked himself out, succeeds, and whoever's does reads the data. -/
structure ReadBack (D : Deployment) (c : Call) (w : World) (get : Request) (data : Data) : Prop where
  readable : ∀ u, CurrentUser c w.1 u → ∃ a, outcome D ⟨c, get⟩ w = .ok a
  reads : ∀ c a, outcome D ⟨c, get⟩ w = .ok a → a.data = data

/-- What a `PATCH` has answered with is what a `GET` reads in the state after it. -/
def ShowsStored (D : Deployment) (c : Call) (w : World) (data : Data) : Request → Prop
  | .updateTask id _ | .updateTaskStatus id _ => ShowsTask D c w id data
  | .updateProject id _ => (∃ u, CurrentUser c w.1 u) ∧ ReadBack D c w (.getProject id) data
  | .updateUser id _ | .updateRole id _ => ReadBack D c w (.getUser id) data
  | .updateComment id _ => ∃ out, data = .comment out ∧ out.id = id ∧ ListsComment D w out
  | _ => True

/-- The assignee stays, or neither the old nor the new `assignee_id` names a user. -/
def AssigneeKept (d : Db) (r : Task) (p : TaskUpdate) : Prop :=
  p.assigneeId.assign r.assigneeId = r.assigneeId ∨
    (p.assigneeId.assign r.assigneeId).bind d.relatedUser = none ∧ r.assigneeId.bind d.relatedUser = none

theorem assigneeKept_iff {r : Task} {p : TaskUpdate} : AssigneeKept d r p ↔
    (r.assigneeId.bind d.relatedUser).map UserOut.modelValidate =
      ((p.assigneeId.assign r.assigneeId).bind d.relatedUser).map UserOut.modelValidate := by
  have hkey : ∀ o : Option Uuid, ∀ out, (o.bind d.relatedUser).map UserOut.modelValidate = some out → o = some out.id := by
    intro o out h
    obtain ⟨u, hu, rfl⟩ := Option.map_eq_some_iff.mp h
    obtain ⟨k, rfl, hk⟩ := Option.bind_eq_some_iff.mp hu
    exact congrArg some (Table.find?_key_eq_some.mp hk).2.symm
  constructor
  · rintro (hsame | ⟨hnew, hold⟩)
    · rw [hsame]
    · rw [hnew, hold]
  · intro h
    cases hold : (r.assigneeId.bind d.relatedUser).map UserOut.modelValidate with
    | none => exact Or.inr ⟨Option.map_eq_none_iff.mp (h.symm.trans hold), Option.map_eq_none_iff.mp hold⟩
    | some out => exact Or.inl ((hkey _ out (h.symm.trans hold)).trans (hkey _ out hold).symm)

theorem Reselected.shows_iff {u : User} {r r' : Task} {o : Option User} (h : Reselected c w.1 w'.1 u id r r') :
    ShowsTask D c w' id (.task (TaskOut.modelValidate ⟨r', o⟩)) ↔
      o.map UserOut.modelValidate = (r'.assigneeId.bind w.1.relatedUser).map UserOut.modelValidate := by
  have husers : w'.1.relatedUser = w.1.relatedUser := by
    funext k
    rw [Db.relatedUser, Db.relatedUser, h.users]
  rw [← husers]
  constructor
  · intro shows
    have hread : Data.task (TaskOut.modelValidate (w'.1.loadTask r')) = .task (TaskOut.modelValidate ⟨r', o⟩) :=
      shows.reads c _ (getTask_ok h.callerAfter h.taskAfter)
    exact (congrArg TaskOut.assignee (Data.task.inj hread)).symm
  · intro same
    refine ⟨⟨_, getTask_ok h.callerAfter h.taskAfter⟩, ?_, ?_⟩
    · intro c' a ok
      obtain ⟨r₁, found, data⟩ := getTask_data ok
      obtain rfl := Option.some.inj (h.taskAfter.found.symm.trans found)
      rw [data, Db.loadTask, TaskOut.modelValidate, TaskOut.modelValidate, same]
    · intro t ht
      obtain rfl := Data.task.inj ht
      exact same

/-- A `PATCH` answers with what it stored, unless it gives a task another assignee. -/
theorem showsStored_iff {r : Request} (ok : outcome D ⟨c, r⟩ w = .ok a) :
    ShowsStored D c (next D ⟨c, r⟩ w) a.data r ↔
      ∀ id p t, r = .updateTask id p → TaskRepository.find id w.1 = some t → AssigneeKept w.1 t p := by
  cases r with
  | updateTask id p =>
    obtain ⟨u, r, r', patched, hassignee, hdata⟩ := updateTask_data ok
    rw [hdata, ShowsStored, patched.shows_iff, hassignee, ← assigneeKept_iff]
    constructor
    · intro h id' p' t hr found
      obtain ⟨rfl, rfl⟩ := Request.updateTask.inj hr
      obtain rfl := Option.some.inj (patched.task.found.symm.trans found)
      exact h
    · intro h
      exact h id p r rfl patched.task.found
  | updateTaskStatus id p =>
    obtain ⟨u, r, r', patched, hassignee, hdata⟩ := updateTaskStatus_data ok
    rw [hdata, ShowsStored, patched.shows_iff, hassignee]
    simp
  | updateProject id p =>
    obtain ⟨detail, actor, caller, admin⟩ := updateProject_data ok
    simp only [ShowsStored, reduceCtorEq, false_implies, implies_true, iff_true]
    refine ⟨⟨actor, caller⟩, fun _ _ => getProject_ok caller admin detail, fun c' b ok' => ?_⟩
    exact (getProject_data ok').unique detail
  | updateUser id p =>
    obtain ⟨u, found, hdata, allowed⟩ := updateUser_data ok
    simp only [ShowsStored, reduceCtorEq, false_implies, implies_true, iff_true]
    refine ⟨fun actor caller => getUser_ok caller (allowed actor caller) found, fun c' b ok' => ?_⟩
    rw [hdata, getUser_data ok' found]
  | updateRole id p =>
    obtain ⟨u, found, hdata, allowed⟩ := updateRole_data ok
    simp only [ShowsStored, reduceCtorEq, false_implies, implies_true, iff_true]
    refine ⟨fun actor caller => getUser_ok caller (allowed actor caller) found, fun c' b ok' => ?_⟩
    rw [hdata, getUser_data ok' found]
  | updateComment id p =>
    obtain ⟨m, out, found, valid, hdata⟩ := updateComment_data ok
    simp only [ShowsStored, reduceCtorEq, false_implies, implies_true, iff_true]
    refine ⟨out, hdata, ?_, listsComment found valid⟩
    rw [(CommentOut.modelValidate_row valid).1]
    exact (CommentRepository.find_eq_some.mp found).2.2
  | _ => simp [ShowsStored]

def registered : World := playFrom .sample World.initial (oneTask ++ sampleRequests 4 [(none, .register ⟨"a@b.c", "Passw0rd", "A"⟩)])

theorem showsStored_iff_sample : Reachable .sample registered ∧ ∃ a,
    outcome .sample ⟨Call.sample 5 (some 16), .updateTask 48 { title := .value "U" }⟩ registered = .ok a ∧
    ShowsStored .sample (Call.sample 5 (some 16))
      (next .sample ⟨Call.sample 5 (some 16), .updateTask 48 { title := .value "U" }⟩ registered) a.data
      (.updateTask 48 { title := .value "U" }) := by
  obtain ⟨a, ok⟩ := exists_of_isOk (o := outcome .sample ⟨Call.sample 5 (some 16), .updateTask 48 { title := .value "U" }⟩
    registered) (by decide +kernel)
  refine ⟨reachable_of_freshRun (by decide +kernel), a, ok, (showsStored_iff ok).mpr ?_⟩
  intro id p t h found
  obtain ⟨rfl, rfl⟩ := Request.updateTask.inj h
  exact Or.inl rfl

/-- The new assignee's id comes back with the assignee of before, nobody. -/
theorem assignee_stale : Reachable .sample registered ∧ ∃ a t,
    outcome .sample ⟨Call.sample 5 (some 16), .updateTask 48 { assigneeId := .value 64 }⟩ registered = .ok a ∧
    a.data = .task t ∧ t.assigneeId = some 64 ∧ t.assignee = none ∧
    ¬ShowsStored .sample (Call.sample 5 (some 16))
      (next .sample ⟨Call.sample 5 (some 16), .updateTask 48 { assigneeId := .value 64 }⟩ registered) a.data
      (.updateTask 48 { assigneeId := .value 64 }) := by
  have hdata : ∃ a t, outcome .sample ⟨Call.sample 5 (some 16), .updateTask 48 { assigneeId := .value 64 }⟩ registered = .ok a ∧
      a.data = .task t ∧ t.assigneeId = some 64 ∧ t.assignee = none := ⟨_, _, by rfl, by rfl, by rfl, by rfl⟩
  obtain ⟨a, t, ok, data, hid, hassignee⟩ := hdata
  refine ⟨reachable_of_freshRun (by decide +kernel), a, t, ok, data, hid, hassignee, fun shows => ?_⟩
  have hnested := shows.nested t data
  rw [hid, hassignee] at hnested
  exact absurd (congrArg Option.isSome hnested) (by decide +kernel)

end ProjectManagement
