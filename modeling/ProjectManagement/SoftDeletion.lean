import ProjectManagement.System

/-!
Soft deletion and the hierarchy project, task, comment or attachment. A loader checks the row it
loads and, on the way to a task, nothing above it; so the subtree of a project is hidden only while
no project is deleted over a live task.
-/

namespace ProjectManagement

open Library

variable {D : Deployment} {i : Input} {w w' : World} {d d' : Db} {o : Outcome} {e : Event}

def LiveProject (d : Db) (projectId : Uuid) : Prop := ∃ q ∈ d.projects.rows, q.id = projectId ∧ q.live = true

def LiveTask (d : Db) (taskId : Uuid) : Prop :=
  ∃ t ∈ d.tasks.rows, t.id = taskId ∧ t.live = true ∧ LiveProject d t.projectId

def LiveComment (d : Db) (commentId : Uuid) : Prop :=
  ∃ m ∈ d.comments.rows, m.id = commentId ∧ m.live = true ∧ LiveTask d m.taskId

def LiveFile (d : Db) (fileId : Uuid) : Prop := ∃ f ∈ d.fileAttachments.rows, f.id = fileId ∧ LiveTask d f.taskId

/-- The row an endpoint is about and all its ancestors are live. -/
def TargetLive (d : Db) : Request → Prop
  | .listProjectTasks id _ | .kanbanBoard id | .projectAnalytics id => LiveProject d id
  | .createTask p => LiveProject d p.projectId
  | .getTask id | .updateTask id _ | .updateTaskStatus id _ | .deleteTask id | .listComments id _
  | .createComment id _ | .listFiles id | .uploadFile id _ => LiveTask d id
  | .updateComment id _ | .deleteComment id => LiveComment d id
  | .downloadFile id => LiveFile d id
  | _ => True

def Found (d : Db) : Request → Prop
  | .listProjectTasks id _ | .kanbanBoard id | .projectAnalytics id => ∃ q, ProjectRepository.find id d = some q
  | .createTask p => ∃ q, ProjectRepository.find p.projectId d = some q
  | .getTask id | .updateTask id _ | .updateTaskStatus id _ | .deleteTask id | .listComments id _
  | .createComment id _ | .listFiles id | .uploadFile id _ => ∃ t, TaskRepository.find id d = some t
  | .updateComment id _ | .deleteComment id =>
    ∃ m t, CommentRepository.find id d = some m ∧ TaskRepository.find m.taskId d = some t
  | .downloadFile id =>
    ∃ f t, FileRepository.find id d = some f ∧ TaskRepository.find f.taskId d = some t
  | _ => True

section Loaders

variable {c : Call} {a : ApiResponse}

theorem found_of_accessibleTask {f : User × LoadedTask → App ApiResponse} {id : Uuid}
    (h : (Routes.accessibleTask c id >>= f).run w = (.ok a, w')) : ∃ t, TaskRepository.find id w.1 = some t := by
  obtain ⟨t, ht, -⟩ := Tx.run_ok.mp h
  obtain ⟨_, _, hr, -⟩ := Tx.succeeds_bind.mp ht
  obtain ⟨actor, task, -, accessible, -⟩ := Routes.succeeds_accessibleTask.mp hr
  exact ⟨task, accessible.found⟩

theorem found_of_requireProjectView {f : Project → App ApiResponse} {id : Uuid}
    (h : (do
      let actor ← getCurrentUser c
      let project ← requireProjectView id actor
      f project).run w = (.ok a, w')) : ∃ q, ProjectRepository.find id w.1 = some q := by
  obtain ⟨t, ht, -⟩ := Tx.run_ok.mp h
  simp only [Tx.succeeds_bind, succeeds_getCurrentUser, succeeds_requireProjectView] at ht
  obtain ⟨actor, _, ⟨-, rfl⟩, q, _, ⟨hq, -, rfl⟩, -⟩ := ht
  exact ⟨q, hq⟩

theorem ok_found (h : outcome D i w = .ok a) : Found w.1 i.request := by
  rcases i with ⟨c, request⟩
  have run : (handle D c request).run w = (.ok a, next D ⟨c, request⟩ w) := Prod.ext h rfl
  cases request with
  | listProjectTasks id params => exact found_of_requireProjectView run
  | kanbanBoard id => exact found_of_requireProjectView run
  | projectAnalytics id => exact found_of_requireProjectView run
  | createTask p =>
    have effect := step_effect D ⟨c, .createTask p⟩ w
    rw [h] at effect
    generalize next D ⟨c, .createTask p⟩ w = w' at effect
    cases effect with
    | answered reads => exact absurd reads (by simp [Request.reads])
    | taskCreated caller errors access project rows notified => exact ⟨_, project⟩
  | getTask id => exact found_of_accessibleTask run
  | updateTask id p => exact found_of_accessibleTask run
  | updateTaskStatus id p => exact found_of_accessibleTask run
  | deleteTask id => exact found_of_accessibleTask run
  | listComments id params => exact found_of_accessibleTask run
  | createComment id p => exact found_of_accessibleTask run
  | listFiles id => exact found_of_accessibleTask run
  | uploadFile id file => exact found_of_accessibleTask run
  | updateComment id p =>
    obtain ⟨t, ht, -⟩ := succeeds_of_outcome h
    simp only [handle, Routes.updateComment, Tx.succeeds_bind, succeeds_getCurrentUser, succeeds_validated,
      Routes.succeeds_accessibleComment] at ht
    obtain ⟨actor, _, ⟨-, rfl⟩, _, _, ⟨-, rfl⟩, _, _, ⟨m, r, hm, hr, -, rfl⟩, -⟩ := ht
    exact ⟨m, r, hm, hr.found⟩
  | deleteComment id =>
    obtain ⟨t, ht, -⟩ := succeeds_of_outcome h
    simp only [handle, Routes.deleteComment, Tx.succeeds_bind, succeeds_getCurrentUser,
      Routes.succeeds_accessibleComment] at ht
    obtain ⟨actor, _, ⟨-, rfl⟩, _, _, ⟨m, r, hm, hr, -, rfl⟩, -⟩ := ht
    exact ⟨m, r, hm, hr.found⟩
  | downloadFile id =>
    obtain ⟨t, ht, -⟩ := succeeds_of_outcome h
    simp only [handle, Routes.downloadFile, Tx.succeeds_bind, succeeds_getCurrentUser,
      FileService.succeeds_getAttachment, succeeds_getAccessibleTask] at ht
    obtain ⟨actor, _, ⟨-, rfl⟩, _, _, ⟨f, hf, rfl, rfl⟩, _, _, ⟨r, hr, -⟩, -⟩ := ht
    exact ⟨f, r, hf, hr.found⟩
  | _ => trivial

end Loaders

section Changes

/-- The event is a `delete_project` that the state grants. -/
def Deletes (e : Event) (d : Db) (projectId : Uuid) : Prop :=
  ∃ c actor, e = .request ⟨c, .deleteProject projectId⟩ ∧ CurrentUser c d actor ∧ actor.role = .admin ∧
    LiveProject d projectId

inductive ProjectChange (e : Event) (d : Db) : Option Project → Option Project → Prop
  | created {q : Project} (live : q.live = true) : ProjectChange e d none (some q)
  | updated {q q' : Project} (live : q'.live = q.live) : ProjectChange e d (some q) (some q')
  | deleted {q q' : Project} (request : Deletes e d q.id) (hidden : q'.live = false) :
      ProjectChange e d (some q) (some q')

inductive TaskRowChange (e : Event) (d : Db) : Option Task → Option Task → Prop
  | created {t : Task} {c : Call} {p : TaskCreate} (request : e = .request ⟨c, .createTask p⟩)
      (project : LiveProject d t.projectId) : TaskRowChange e d none (some t)
  | updated {t t' : Task} (live : t.live = true) (project : t'.projectId = t.projectId) :
      TaskRowChange e d (some t) (some t')

theorem Effect.projectChanges (h : Effect D i w o w') :
    w.1.projects.Changes w'.1.projects (ProjectChange (.request i) w.1) := by
  cases h with
  | projectCreated caller admin errors rows => exact .append rows (.created rfl)
  | @projectUpdated c d b a id p actor q q' caller admin errors found sent =>
    obtain ⟨hq, -, -⟩ := ProjectRepository.find_eq_some.mp found
    apply Table.Changes.put hq (ProjectRepository.afterFlush_id (ProjectUpdate.setattrs_keeps sent).1)
    exact .updated ((afterFlush_column Project.live rfl).trans (ProjectUpdate.setattrs_keeps sent).2)
  | @projectDeleted c d b a id actor q caller admin found =>
    obtain ⟨hq, live, rfl⟩ := ProjectRepository.find_eq_some.mp found
    simp only [ProjectRepository.afterFlush_deleted live]
    exact .put hq rfl (.deleted ⟨c, actor, rfl, caller, admin, q, hq, rfl, live⟩ rfl)
  | _ => exact .refl

theorem task_put_change {c : Call} {actor : User} {id : Uuid} {t t' : Task} (task : Accessible d actor id t)
    (hid : t'.id = t.id) (project : t'.projectId = t.projectId) :
    d.tasks.Changes (d.tasks.put (afterFlush (TaskRepository.stamped D c) t t')) (TaskRowChange e d) := by
  apply Table.Changes.put task.mem (TaskRepository.afterFlush_id hid)
  exact .updated task.live ((afterFlush_column Task.projectId rfl).trans project)

theorem Effect.taskChanges (h : Effect D i w o w') :
    w.1.tasks.Changes w'.1.tasks (TaskRowChange (.request i) w.1) := by
  cases h with
  | taskCreated caller errors access project rows notified =>
    obtain ⟨hq, live, hid⟩ := ProjectRepository.find_eq_some.mp project
    exact .append rows (.created rfl ⟨_, hq, hid, live⟩)
  | taskUpdated caller task errors sent notified =>
    obtain ⟨hid, hproject, -⟩ := TaskUpdate.setattrs_keeps sent
    exact task_put_change task hid hproject
  | taskStatusUpdated caller task => exact task_put_change task rfl rfl
  | taskDeleted caller task => exact task_put_change task rfl rfl
  | _ => exact .refl

theorem nextWorld_projectChanges (D : Deployment) (e : Event) (w : World) :
    w.1.projects.Changes (nextWorld D e w).1.projects (ProjectChange e w.1) := by
  refine nextWorld_cases (P := fun w' => w.1.projects.Changes w'.1.projects (ProjectChange e w.1)) e ?_ .refl ?_
  · rintro i o w' rfl h
    exact h.projectChanges
  · exact fun users u _ _ _ => .refl

theorem nextWorld_taskChanges (D : Deployment) (e : Event) (w : World) :
    w.1.tasks.Changes (nextWorld D e w).1.tasks (TaskRowChange e w.1) := by
  refine nextWorld_cases (P := fun w' => w.1.tasks.Changes w'.1.tasks (TaskRowChange e w.1)) e ?_ .refl ?_
  · rintro i o w' rfl h
    exact h.taskChanges
  · exact fun users u _ _ _ => .refl

theorem liveProject_iff {projectId : Uuid} :
    LiveProject d projectId ↔ ∃ q, d.projects.lookup projectId = some q ∧ q.live = true := by
  unfold LiveProject
  constructor
  · rintro ⟨q, hq, hid, live⟩
    exact ⟨q, Table.lookup_eq_some.mpr ⟨hq, hid⟩, live⟩
  · rintro ⟨q, hq, live⟩
    obtain ⟨hq, hid⟩ := Table.lookup_eq_some.mp hq
    exact ⟨q, hq, hid, live⟩

theorem LiveProject.step {projectId : Uuid} (h : LiveProject w.1 projectId) (hd : ¬Deletes e w.1 projectId) :
    LiveProject (nextWorld D e w).1 projectId := by
  obtain ⟨q, hq, live⟩ := liveProject_iff.mp h
  have hid : q.id = projectId := (Table.lookup_eq_some.mp hq).2
  rw [liveProject_iff]
  rcases nextWorld_projectChanges D e w projectId with hsame | hchange
  · exact ⟨q, hsame.trans hq, live⟩
  · rw [hq] at hchange
    generalize hnew : (nextWorld D e w).1.projects.lookup projectId = new at hchange
    cases hchange with
    | updated hlive => exact ⟨_, rfl, hlive.trans live⟩
    | deleted request _ => exact absurd (hid ▸ request) hd

end Changes

def Undermines (e : Event) (w : World) : Prop :=
  ∃ projectId, Deletes e w.1 projectId ∧ ∃ t ∈ w.1.tasks.rows, t.live = true ∧ t.projectId = projectId

def Covered (d : Db) : Prop := ∀ t ∈ d.tasks.rows, t.live = true → LiveProject d t.projectId

theorem Covered.targetLive {r : Request} (inv : Covered d) (h : Found d r) : TargetLive d r := by
  have live : ∀ {id t}, TaskRepository.find id d = some t → LiveTask d id := by
    intro id t ht
    obtain ⟨ht, hlive, hid⟩ := TaskRepository.find_eq_some.mp ht
    exact ⟨t, ht, hid, hlive, inv t ht hlive⟩
  have project : ∀ {id q}, ProjectRepository.find id d = some q → LiveProject d id := by
    intro id q hq
    obtain ⟨hq, hlive, hid⟩ := ProjectRepository.find_eq_some.mp hq
    exact ⟨q, hq, hid, hlive⟩
  have comment : ∀ {id m t}, CommentRepository.find id d = some m → TaskRepository.find m.taskId d = some t →
      LiveComment d id := by
    intro id m t hm ht
    obtain ⟨hm, hlive, hid⟩ := CommentRepository.find_eq_some.mp hm
    exact ⟨m, hm, hid, hlive, live ht⟩
  cases r with
  | listProjectTasks | kanbanBoard | projectAnalytics | createTask =>
    obtain ⟨q, hq⟩ := h
    exact project hq
  | getTask | updateTask | updateTaskStatus | deleteTask | listComments | createComment | listFiles | uploadFile =>
    obtain ⟨t, ht⟩ := h
    exact live ht
  | updateComment | deleteComment =>
    obtain ⟨m, t, hm, ht⟩ := h
    exact comment hm ht
  | downloadFile =>
    obtain ⟨f, t, hf, ht⟩ := h
    obtain ⟨hf, hid⟩ := FileRepository.find_eq_some.mp hf
    exact ⟨f, hf, hid, live ht⟩
  | _ => trivial

theorem Covered.step (inv : Covered w.1) (safe : ¬Undermines e w) : Covered (nextWorld D e w).1 := by
  intro t ht live
  have hlookup : (nextWorld D e w).1.tasks.lookup t.id = some t := Table.lookup_eq_some.mpr ⟨ht, rfl⟩
  -- a task that was there before the step and is live keeps its project from being deleted by it
  have old : ∀ {s : Task}, w.1.tasks.lookup t.id = some s → s.live = true → s.projectId = t.projectId →
      LiveProject (nextWorld D e w).1 t.projectId := by
    intro s hs hlive hproject
    obtain ⟨hs, -⟩ := Table.lookup_eq_some.mp hs
    rw [← hproject]
    exact (inv s hs hlive).step fun hd => safe ⟨_, hd, s, hs, hlive, rfl⟩
  rcases nextWorld_taskChanges D e w t.id with hsame | hchange
  · exact old (hsame.symm.trans hlookup) live rfl
  · rw [hlookup] at hchange
    generalize hold : w.1.tasks.lookup t.id = before at hchange
    cases hchange with
    | created request project =>
      apply project.step
      rintro ⟨c, actor, he, -⟩
      rw [request] at he
      simp at he
    | updated hlive hproject => exact old hold hlive hproject.symm

theorem Covered.initial : Covered World.initial.1 := by
  intro t ht
  exact absurd ht (by simp [World.initial, Db.empty, Table.empty])

def Gone (projectId : Uuid) (d : Db) : Prop :=
  (∃ q ∈ d.projects.rows, q.id = projectId ∧ q.live = false) ∧
    ∀ t ∈ d.tasks.rows, t.projectId = projectId → t.live = false

theorem Gone.not_live {projectId : Uuid} (h : Gone projectId d) : ¬LiveProject d projectId := by
  rintro ⟨q, hq, hid, live⟩
  obtain ⟨⟨q', hq', hid', dead⟩, -⟩ := h
  rw [d.projects.eq_of_key hq hq' (hid.trans hid'.symm), dead] at live
  exact absurd live (by simp)

theorem Gone.step {projectId : Uuid} (h : Gone projectId w.1) : Gone projectId (nextWorld D e w).1 := by
  have hnot := h.not_live
  obtain ⟨⟨q, hq, rfl, dead⟩, htasks⟩ := h
  have hlookup : w.1.projects.lookup q.id = some q := Table.lookup_eq_some.mpr ⟨hq, rfl⟩
  constructor
  · rcases nextWorld_projectChanges D e w q.id with hsame | hchange
    · obtain ⟨hq, hid⟩ := Table.lookup_eq_some.mp (hsame.trans hlookup)
      exact ⟨q, hq, hid, dead⟩
    · rw [hlookup] at hchange
      generalize hnew : (nextWorld D e w).1.projects.lookup q.id = new at hchange
      cases hchange with
      | updated hlive =>
        obtain ⟨hq', hid⟩ := Table.lookup_eq_some.mp hnew
        exact ⟨_, hq', hid, hlive.trans dead⟩
      | deleted request hidden =>
        obtain ⟨hq', hid⟩ := Table.lookup_eq_some.mp hnew
        exact ⟨_, hq', hid, hidden⟩
  · intro t ht hproject
    have ht' : (nextWorld D e w).1.tasks.lookup t.id = some t := Table.lookup_eq_some.mpr ⟨ht, rfl⟩
    rcases nextWorld_taskChanges D e w t.id with hsame | hchange
    · exact htasks t (Table.lookup_eq_some.mp (hsame.symm.trans ht')).1 hproject
    · rw [ht'] at hchange
      generalize hold : w.1.tasks.lookup t.id = before at hchange
      cases hchange with
      | created request project =>
        rw [hproject] at project
        exact absurd project hnot
      | updated live project =>
        have := htasks _ (Table.lookup_eq_some.mp hold).1 (project.symm.trans hproject)
        rw [this] at live
        exact absurd live (by simp)

def Concerns (projectId : Uuid) (d : Db) : Request → Prop
  | .getTask id | .updateTask id _ | .updateTaskStatus id _ | .deleteTask id | .listComments id _
  | .createComment id _ | .listFiles id | .uploadFile id _ => ∃ t ∈ d.tasks.rows, t.id = id ∧ t.projectId = projectId
  | .updateComment id _ | .deleteComment id =>
    ∃ m ∈ d.comments.rows, m.id = id ∧ ∃ t ∈ d.tasks.rows, t.id = m.taskId ∧ t.projectId = projectId
  | .downloadFile id =>
    ∃ f ∈ d.fileAttachments.rows, f.id = id ∧ ∃ t ∈ d.tasks.rows, t.id = f.taskId ∧ t.projectId = projectId
  | _ => False

theorem Gone.find_eq_none {projectId id : Uuid} (h : Gone projectId d)
    (ht : ∃ t ∈ d.tasks.rows, t.id = id ∧ t.projectId = projectId) : TaskRepository.find id d = none := by
  obtain ⟨t, ht, hid, hproject⟩ := ht
  cases hf : TaskRepository.find id d with
  | none => rfl
  | some s =>
    obtain ⟨hs, live, hsid⟩ := TaskRepository.find_eq_some.mp hf
    rw [d.tasks.eq_of_key hs ht (hsid.trans hid.symm), h.2 t ht hproject] at live
    exact absurd live (by simp)

theorem Gone.not_found {projectId : Uuid} {r : Request} (h : Gone projectId d) (hr : Concerns projectId d r) :
    ¬Found d r := by
  cases r with
  | getTask | updateTask | updateTaskStatus | deleteTask | listComments | createComment | listFiles | uploadFile =>
    rintro ⟨t, ht⟩
    rw [h.find_eq_none hr] at ht
    exact absurd ht (by simp)
  | updateComment | deleteComment =>
    rintro ⟨m, t, hm, ht⟩
    obtain ⟨m', hm', hid, htask⟩ := hr
    obtain ⟨hm, -, hmid⟩ := CommentRepository.find_eq_some.mp hm
    rw [d.comments.eq_of_key hm hm' (hmid.trans hid.symm), h.find_eq_none htask] at ht
    exact absurd ht (by simp)
  | downloadFile =>
    rintro ⟨f, t, hf, ht⟩
    obtain ⟨f', hf', hid, htask⟩ := hr
    obtain ⟨hf, hfid⟩ := FileRepository.find_eq_some.mp hf
    rw [d.fileAttachments.eq_of_key hf hf' (hfid.trans hid.symm), h.find_eq_none htask] at ht
    exact absurd ht (by simp)
  | _ => exact hr.elim

section NotFound

variable {c : Call} {u : User} {projectId id : Uuid}

theorem accessibleTask_missing {f : User × LoadedTask → App ApiResponse} (caller : CurrentUser c w.1 u)
    (missing : TaskRepository.find id w.1 = none) :
    ((Routes.accessibleTask c id >>= f).run w).1 = .error (.app (notFoundError "Task not found")) := by
  have hu : getCurrentUser c ⟨w.1, w.1, w.2⟩ = (.ok u, ⟨w.1, w.1, w.2⟩) := succeeds_getCurrentUser.mpr ⟨caller, rfl⟩
  simp [Tx.run, Tx.bind_apply, Routes.accessibleTask, hu, getAccessibleTask, TaskRepository.get, Tx.query, Tx.select,
    missing, Tx.orRaise, Tx.ofExcept]

theorem accessibleComment_missing (gone : Gone projectId w.1)
    (hr : Concerns projectId w.1 (.deleteComment id)) :
    ∃ detail, Routes.accessibleComment id u ⟨w.1, w.1, w.2⟩ =
      (.error (.app (notFoundError detail)), ⟨w.1, w.1, w.2⟩) := by
  obtain ⟨m, hm, hid, htask⟩ := hr
  cases hf : CommentRepository.find id w.1 with
  | none =>
    refine ⟨"Comment not found", ?_⟩
    simp [Routes.accessibleComment, CommentService.get, CommentRepository.get, Tx.bind_apply, Tx.query, Tx.select, hf,
      Tx.orRaise, Tx.ofExcept]
  | some m' =>
    obtain ⟨hm', -, hid'⟩ := CommentRepository.find_eq_some.mp hf
    obtain rfl := w.1.comments.eq_of_key hm hm' (hid.trans hid'.symm)
    refine ⟨"Task not found", ?_⟩
    simp [Routes.accessibleComment, CommentService.get, CommentRepository.get, Tx.bind_apply, Tx.query, Tx.select, hf,
      Tx.orRaise, Tx.ofExcept, getAccessibleTask, TaskRepository.get, gone.find_eq_none htask]

theorem concerned_not_found (caller : CurrentUser i.call w.1 u) (errors : i.request.errors = [])
    (gone : Gone projectId w.1) (hr : Concerns projectId w.1 i.request) :
    ∃ detail, outcome D i w = .error (.app (notFoundError detail)) := by
  rcases i with ⟨c, request⟩
  have hu : getCurrentUser c ⟨w.1, w.1, w.2⟩ = (.ok u, ⟨w.1, w.1, w.2⟩) := succeeds_getCurrentUser.mpr ⟨caller, rfl⟩
  cases request with
  | getTask id => exact ⟨_, accessibleTask_missing caller (gone.find_eq_none hr)⟩
  | updateTask id p => exact ⟨_, accessibleTask_missing caller (gone.find_eq_none hr)⟩
  | updateTaskStatus id p => exact ⟨_, accessibleTask_missing caller (gone.find_eq_none hr)⟩
  | deleteTask id => exact ⟨_, accessibleTask_missing caller (gone.find_eq_none hr)⟩
  | listComments id params => exact ⟨_, accessibleTask_missing caller (gone.find_eq_none hr)⟩
  | createComment id p => exact ⟨_, accessibleTask_missing caller (gone.find_eq_none hr)⟩
  | listFiles id => exact ⟨_, accessibleTask_missing caller (gone.find_eq_none hr)⟩
  | uploadFile id file => exact ⟨_, accessibleTask_missing caller (gone.find_eq_none hr)⟩
  | updateComment id p =>
    obtain ⟨detail, h⟩ := accessibleComment_missing (u := u) gone hr
    have hv : p.errors = [] := errors
    exact ⟨detail, by simp [outcome, step, handle, Routes.updateComment, Tx.run, Tx.bind_apply, hu, validated,
      Tx.refuseIf, Tx.ofExcept, hv, h]⟩
  | deleteComment id =>
    obtain ⟨detail, h⟩ := accessibleComment_missing (u := u) gone hr
    exact ⟨detail, by simp [outcome, step, handle, Routes.deleteComment, Tx.run, Tx.bind_apply, hu, h]⟩
  | downloadFile id =>
    obtain ⟨f, hf, hid, htask⟩ := hr
    have hfile : FileRepository.find id w.1 = some f := FileRepository.find_eq_some.mpr ⟨hf, hid⟩
    refine ⟨"Task not found", ?_⟩
    simp [outcome, step, handle, Routes.downloadFile, Tx.run, Tx.bind_apply, hu, FileService.getAttachment,
      FileRepository.get, Tx.query, Tx.select, hfile, Tx.orRaise, Tx.ofExcept, getAccessibleTask, TaskRepository.get,
      gone.find_eq_none htask]
  | _ => exact hr.elim

theorem concerned_refused (gone : Gone projectId w.1) (hr : Concerns projectId w.1 i.request) :
    ∃ err, outcome D i w = .error err ∧ next D i w = w ∧
      ((∃ u, CurrentUser i.call w.1 u) → i.request.errors = [] → err.response.statusCode = 404) := by
  have hnot := gone.not_found hr
  cases ho : outcome D i w with
  | ok a => exact absurd (ok_found ho) hnot
  | error err =>
    refine ⟨err, rfl, ?_, ?_⟩
    · have effect := step_effect D i w
      generalize outcome D i w = o at effect ho
      generalize next D i w = w' at effect ⊢
      subst ho
      cases effect with
      | rejected => rfl
      | reuseDetected presented revoked => exact hr.elim
      | uploadFailed caller task => exact absurd ⟨_, task.found⟩ hnot
    · rintro ⟨u, caller⟩ errors
      obtain ⟨detail, h⟩ := concerned_not_found (D := D) caller errors gone hr
      obtain rfl := Except.error.inj (ho.symm.trans h)
      rfl

end NotFound

section Runs

variable {c : Call} {a : ApiResponse} {projectId : Uuid}

theorem gone_of_deleted (h : outcome D ⟨c, .deleteProject projectId⟩ w = .ok a)
    (safe : ¬Undermines (.request ⟨c, .deleteProject projectId⟩) w) :
    Gone projectId (next D ⟨c, .deleteProject projectId⟩ w).1 := by
  have effect := step_effect D ⟨c, .deleteProject projectId⟩ w
  rw [h] at effect
  generalize next D ⟨c, .deleteProject projectId⟩ w = w' at effect ⊢
  cases effect with
  | answered reads => exact absurd reads (by simp [Request.reads])
  | @projectDeleted _ d b _ _ actor q caller admin found =>
    obtain ⟨hq, live, rfl⟩ := ProjectRepository.find_eq_some.mp found
    have hdeletes : Deletes (.request ⟨c, .deleteProject q.id⟩) d q.id :=
      ⟨c, actor, rfl, caller, admin, q, hq, rfl, live⟩
    simp only [ProjectRepository.afterFlush_deleted live]
    refine ⟨⟨ProjectRepository.stamped D c { q with deletedAt := some c.now }, Table.mem_put_self hq rfl, rfl, rfl⟩,
      fun t ht hproject => ?_⟩
    by_contra hlive
    exact safe ⟨q.id, hdeletes, t, ht, by simpa using hlive, hproject⟩

theorem undermined {i : Input} (h : Undermines (.request i) w) (ho : outcome D i w = .ok a) :
    ∃ j b, outcome D j (next D i w) = .ok b ∧ ¬TargetLive (next D i w).1 j.request := by
  obtain ⟨projectId, ⟨c, actor, he, caller, admin, -⟩, t, ht, live, hproject⟩ := h
  obtain rfl := Event.request.inj he
  refine ⟨⟨c, .getTask t.id⟩, ?_⟩
  have effect := step_effect D ⟨c, .deleteProject projectId⟩ w
  rw [ho] at effect
  generalize next D ⟨c, .deleteProject projectId⟩ w = w' at effect ⊢
  cases effect with
  | answered reads => exact absurd reads (by simp [Request.reads])
  | @projectDeleted _ d b _ _ actor' q caller' admin' found =>
    obtain ⟨hq, hlive, rfl⟩ := ProjectRepository.find_eq_some.mp found
    simp only [ProjectRepository.afterFlush_deleted hlive]
    generalize hd' : ({ d with projects := d.projects.put (ProjectRepository.stamped D c
      { q with deletedAt := some c.now }) } : Db) = d'
    have hfind : TaskRepository.find t.id d' = some t :=
      TaskRepository.find_eq_some.mpr ⟨by rw [← hd']; exact ht, live, rfl⟩
    have hcaller : CurrentUser c d' actor := by
      rw [← hd']
      exact ⟨caller.token, caller.found, caller.active⟩
    have hread : (Routes.accessibleTask c t.id).Succeeds ⟨d', d', b⟩ (actor, d'.loadTask t) ⟨d', d', b⟩ :=
      Routes.succeeds_accessibleTask.mpr ⟨actor, t, hcaller, ⟨hfind, Or.inl admin⟩, rfl, rfl⟩
    refine ⟨{ data := .task (TaskOut.modelValidate (d'.loadTask t)) }, ?_, ?_⟩
    · have hrun : (Routes.getTask c t.id).run (d', b) =
          (.ok { data := .task (TaskOut.modelValidate (d'.loadTask t)) }, d', b) :=
        Tx.run_ok.mpr ⟨⟨d', d', b⟩, hread.bind (Tx.succeeds_pure.mpr ⟨rfl, rfl⟩), rfl⟩
      exact congrArg Prod.fst hrun
    · rintro ⟨t', ht', hid, -, q', hq', hq'id, hq'live⟩
      have hsame : t' = t := d.tasks.eq_of_key (by rw [← hd'] at ht'; exact ht') ht hid
      rw [hsame, hproject] at hq'id
      simp only [← hd'] at hq'
      rcases Table.of_mem_put hq' with rfl | ⟨-, hne⟩
      · exact absurd hq'live (by simp [Project.live, ProjectRepository.stamped])
      · exact hne hq'id

theorem covered_of_run {es : List Event} (run : Execution D (fun e w => ¬Undermines e w) World.initial es w) :
    Covered w.1 :=
  run.invariant (I := fun w => Covered w.1) (fun _ _ safe inv => inv.step safe) Covered.initial

theorem gone_of_run {es : List Event} {ok : Event → World → Prop} (run : Execution D ok w es w')
    (h : Gone projectId w.1) : Gone projectId w'.1 :=
  run.invariant (I := fun w => Gone projectId w.1) (fun _ _ _ inv => inv.step) h

end Runs

/-- While no project is deleted over a live task, soft deletion hides the whole subtree; the first such deletion
makes an endpoint succeed below a deleted project. -/
theorem subtree_hidden (D : Deployment) :
    (∀ es w, Execution D (fun e w => ¬Undermines e w) World.initial es w →
      (∀ i a, outcome D i w = .ok a → TargetLive w.1 i.request) ∧
        ∀ c projectId a, outcome D ⟨c, .deleteProject projectId⟩ w = .ok a →
          ¬Undermines (.request ⟨c, .deleteProject projectId⟩) w →
          ∀ es' w', Execution D (fun e w => ¬Undermines e w) (next D ⟨c, .deleteProject projectId⟩ w) es' w' →
          ∀ i, Concerns projectId w'.1 i.request → ∃ err, outcome D i w' = .error err ∧ next D i w' = w' ∧
            ((∃ u, CurrentUser i.call w'.1 u) → i.request.errors = [] → err.response.statusCode = 404)) ∧
      ∀ i w a, Undermines (.request i) w → outcome D i w = .ok a →
        ∃ j b, outcome D j (next D i w) = .ok b ∧ ¬TargetLive (next D i w).1 j.request := by
  refine ⟨fun es w run => ⟨fun i a ho => (covered_of_run run).targetLive (ok_found ho), ?_⟩,
    fun i w a h ho => undermined h ho⟩
  intro c projectId a ho safe es' w' run' i hr
  exact concerned_refused (gone_of_run run' (gone_of_deleted ho safe)) hr

theorem subtree_hidden_sample :
    TargetLive (playFrom .sample World.initial oneTask).1 (.getTask 48) := by
  have run : Execution .sample (fun e w => ¬Undermines e w) World.initial oneTask
      (playFrom .sample World.initial oneTask) := by
    refine .cons ?_ (.cons ?_ (.cons ?_ (.nil _)))
    · rintro ⟨p, ⟨c, actor, he, -⟩, -⟩
      simp at he
    · rintro ⟨p, ⟨c, actor, he, -⟩, -⟩
      simp at he
    · rintro ⟨p, ⟨c, actor, he, -⟩, -⟩
      simp at he
  obtain ⟨a, ho⟩ := exists_of_isOk (o := outcome .sample ⟨Call.sample 4 (some 16), .getTask 48⟩
    (playFrom .sample World.initial oneTask)) (by decide +kernel)
  exact ((subtree_hidden .sample).1 oneTask _ run).1 _ a ho

instance {d : Db} {projectId : Uuid} : Decidable (LiveProject d projectId) :=
  inferInstanceAs (Decidable (∃ q ∈ d.projects.rows, q.id = projectId ∧ q.live = true))

instance {d : Db} {taskId : Uuid} : Decidable (LiveTask d taskId) :=
  inferInstanceAs (Decidable (∃ t ∈ d.tasks.rows, t.id = taskId ∧ t.live = true ∧ LiveProject d t.projectId))

/-- The same project deleted over its task: the task is still served. -/
theorem deleted_project_serves_task :
    ∃ w, Reachable .sample w ∧ (outcome .sample ⟨Call.sample 5 (some 16), .getTask 48⟩ w).isOk = true ∧
      ¬TargetLive w.1 (.getTask 48) := by
  refine ⟨playFrom .sample World.initial (oneTask ++ sampleRequests 4 [(some 16, .deleteProject 32)]), ?_, ?_, ?_⟩
  · exact reachable_of_freshRun (by decide +kernel)
  · decide +kernel
  · change ¬LiveTask _ 48
    decide +kernel

end ProjectManagement
