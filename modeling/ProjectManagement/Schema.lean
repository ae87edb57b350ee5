import ProjectManagement.EmailUniqueness

/-!
What the stored rows keep to: the lengths of their columns, the texts the engine takes, and the references that are followed
without a check.
-/

namespace ProjectManagement

open Library

variable {D : Deployment} {c : Call} {e : Event} {w : World} {d : Db} {a : ApiResponse} {id : Uuid}

def Known (users : Table User) (id : Uuid) : Prop := ∃ u ∈ users.rows, u.id = id

def Project.texts (q : Project) : List String := q.name :: q.description.toList

def Task.texts (r : Task) : List String := r.title :: r.description.toList

structure Schema (D : Deployment) (d : Db) : Prop where
  users : Indexed.Sound D d.users
  names : ∀ q ∈ d.projects.rows, q.name.length ≤ 255
  titles : ∀ r ∈ d.tasks.rows, r.title.length ≤ 255
  projectTexts : ∀ q ∈ d.projects.rows, holdsNul D.engine q.texts = false
  taskTexts : ∀ r ∈ d.tasks.rows, holdsNul D.engine r.texts = false
  members : ∀ m ∈ d.projectMembers.rows, Known d.users m.userId
  assignees : D.engine.enforcesForeignKeys = true → ∀ r ∈ d.tasks.rows, ∀ id, r.assigneeId = some id → Known d.users id

theorem dangling_eq_false {engine : Engine} {users : Table User} :
    dangling engine users id = false ↔ (engine.enforcesForeignKeys = true → Known users id) := by
  cases h : engine.enforcesForeignKeys with
  | false => simp [dangling, h]
  | true => simp [dangling, h, Known]

theorem Field.assignNotNull_length {f : Field String} {field old : String} {low high : ℕ}
    (errors : f.check (stringLength field low high) = []) (hold : old.length ≤ high) : (f.assignNotNull old).length ≤ high := by
  cases f with
  | unset => exact hold
  | null => exact hold
  | value s => exact (stringLength_eq_nil.mp errors).2

theorem Indexed.Wrote.known {t t' : Table User} (h : Wrote D t t') (hid : Known t id) : Known t' id := by
  obtain ⟨u, hu, rfl⟩ := hid
  cases h with
  | unchanged => exact ⟨u, hu, rfl⟩
  | added free fits rows => exact ⟨u, by rw [rows]; exact List.mem_append_left _ hu, rfl⟩
  | @changed r v found live id fits free =>
    by_cases hv : u.id = v.id
    · exact ⟨v, Table.mem_put_self hu hv, hv.symm⟩
    · exact ⟨u, Table.mem_put.mpr (Or.inl ⟨hu, hv⟩), rfl⟩

theorem nextWorld_wrote : Indexed.Wrote D w.1.users (nextWorld D e w).1.users := by
  rw [← Indexed.nextWorld_true]
  exact Indexed.nextWorld_wrote

theorem names_step (names : ∀ q ∈ w.1.projects.rows, q.name.length ≤ 255) :
    ∀ q ∈ (nextWorld D e w).1.projects.rows, q.name.length ≤ 255 := by
  refine nextWorld_cases (P := fun w' => ∀ q ∈ w'.1.projects.rows, q.name.length ≤ 255) e ?_ names fun _ _ _ _ _ => names
  rintro i o w' rfl effect
  cases effect with
  | projectCreated caller admin errors rows =>
    apply Table.forall_append names rows
    exact (stringLength_eq_nil.mp errors).2
  | @projectUpdated c d b a id p actor q q' caller admin errors found sent =>
    apply Table.forall_put names
    rw [afterFlush_column (fun q : Project => q.name.length) rfl]
    have hold := names q (ProjectRepository.find_eq_some.mp found).1
    obtain ⟨-, rfl⟩ := ProjectUpdate.setattrs_eq_ok.mp sent
    exact Field.assignNotNull_length errors hold
  | @projectDeleted c d b a id actor q caller admin found =>
    apply Table.forall_put names
    rw [afterFlush_column (fun q : Project => q.name.length) rfl]
    exact names q (ProjectRepository.find_eq_some.mp found).1
  | _ => exact names

theorem titles_step (titles : ∀ r ∈ w.1.tasks.rows, r.title.length ≤ 255) :
    ∀ r ∈ (nextWorld D e w).1.tasks.rows, r.title.length ≤ 255 := by
  refine nextWorld_cases (P := fun w' => ∀ r ∈ w'.1.tasks.rows, r.title.length ≤ 255) e ?_ titles fun _ _ _ _ _ => titles
  rintro i o w' rfl effect
  cases effect with
  | taskCreated caller errors access project rows =>
    apply Table.forall_append titles rows
    exact (stringLength_eq_nil.mp errors).2
  | taskUpdated caller task errors sent =>
    apply Table.forall_put titles
    rw [afterFlush_column (fun r : Task => r.title.length) rfl]
    have hold := titles _ task.mem
    obtain ⟨-, rfl⟩ := TaskUpdate.setattrs_eq_ok.mp sent
    exact Field.assignNotNull_length errors hold
  | @taskStatusUpdated c d b a id p actor r caller task =>
    apply Table.forall_put titles
    rw [afterFlush_column (fun r : Task => r.title.length) rfl]
    exact titles r task.mem
  | @taskDeleted c d b a id actor r caller task =>
    apply Table.forall_put titles
    rw [afterFlush_column (fun r : Task => r.title.length) rfl]
    exact titles r task.mem
  | _ => exact titles

theorem members_step (members : ∀ m ∈ w.1.projectMembers.rows, Known w.1.users m.userId) :
    ∀ m ∈ (nextWorld D e w).1.projectMembers.rows, Known w.1.users m.userId := by
  refine nextWorld_cases (P := fun w' => ∀ m ∈ w'.1.projectMembers.rows, Known w.1.users m.userId) e ?_ members
    fun _ _ _ _ _ => members
  rintro i o w' rfl effect
  cases effect with
  | @memberAdded c d b a id p actor q u rows' notifications caller admin found user new rows notified =>
    apply Table.forall_append members rows
    obtain ⟨hu, -, hid⟩ := UserRepository.find_eq_some.mp user
    exact ⟨u, hu, hid⟩
  | memberRemoved caller admin member =>
    intro m hm
    exact members m (Table.mem_deleteWhere.mp hm).1
  | _ => exact members

/-! Texts and foreign keys are checked by the statement that writes the row. -/

theorem Db.insertTask_checked {engine : Engine} {r : Task} {d' : Db} (h : insertTask engine r d = .ok d') :
    holdsNul engine r.texts = false ∧ r.assigneeId.any (dangling engine d.users) = false := by
  obtain ⟨hall, -⟩ := checked_ok h
  simp only [List.forall_mem_cons] at hall
  exact ⟨(unstorable_eq_false.mp hall.1).2, hall.2.2.1⟩

theorem Db.putTask_checked {engine : Engine} {loaded : ℕ} {r : Task} {d' : Db} (h : putTask engine loaded r d = .ok d') :
    holdsNul engine r.texts = false ∧ r.assigneeId.any (dangling engine d.users) = false := by
  obtain ⟨hall, -⟩ := checked_ok h
  simp only [List.forall_mem_cons] at hall
  exact ⟨hall.1, hall.2.2.2.1⟩

theorem Db.insertProject_checked {engine : Engine} {q : Project} {d' : Db} (h : insertProject engine q d = .ok d') :
    holdsNul engine q.texts = false :=
  (unstorable_eq_false.mp ((checked_ok h).1 _ List.mem_cons_self)).2

theorem Db.putProject_checked {engine : Engine} {q : Project} {d' : Db} (h : putProject engine q d = .ok d') :
    holdsNul engine q.texts = false :=
  (unstorable_eq_false.mp ((checked_ok h).1 _ List.mem_cons_self)).2

theorem assignee_known {o : Option Uuid} (h : o.any (dangling D.engine d.users) = false) (fk : D.engine.enforcesForeignKeys = true) :
    ∀ id, o = some id → Known d.users id := by
  rintro id rfl
  exact dangling_eq_false.mp h fk

theorem createTask_checked {p : TaskCreate} (ok : outcome D ⟨c, .createTask p⟩ w = .ok a) :
    holdsNul D.engine (p.title :: p.description.toList) = false ∧ p.assigneeId.any (dangling D.engine w.1.users) = false := by
  obtain ⟨t, h, -⟩ := succeeds_of_outcome ok
  simp only [handle, Routes.createTask, TaskService.createTask, Tx.succeeds_bind, succeeds_getCurrentUser, succeeds_validated,
    Tx.succeeds_refuseIf, ProjectRepository.succeeds_get, Tx.succeeds_orRaise, Tx.succeeds_query,
    TaskRepository.succeeds_add, exists_eq_left, exists_const, ↓existsAndEq, and_true, Tx.succeeds_pure] at h
  obtain ⟨actor, -, -, _, u, hu, -, _, ⟨_, -, d, stored, -⟩, -⟩ := h
  obtain rfl := Tx.ReadOnly.succeeds hu
  exact Db.insertTask_checked stored

theorem flush_checked {r r' o : Task} {s t : Session Db Blobs} (h : (TaskRepository.flush D c r r').Succeeds s o t) :
    r' = r ∨ holdsNul D.engine r'.texts = false ∧
      r'.assigneeId.any (dangling D.engine s.working.users) = false := by
  by_cases hsame : r' = r
  · exact Or.inl hsame
  · simp only [TaskRepository.flush, hsame, if_false, Tx.succeeds_bind, Tx.succeeds_execute] at h
    obtain ⟨_, _, ⟨d, stored, -⟩, -⟩ := h
    have hchecked := Db.putTask_checked stored
    exact Or.inr hchecked

theorem updateTask_checked {p : TaskUpdate} {r r' : Task} (ok : outcome D ⟨c, .updateTask id p⟩ w = .ok a)
    (found : TaskRepository.find id w.1 = some r) (sent : p.setattrs r = .ok r') :
    r' = r ∨ holdsNul D.engine r'.texts = false ∧
      r'.assigneeId.any (dangling D.engine w.1.users) = false := by
  obtain ⟨t, h, -⟩ := succeeds_of_outcome ok
  simp only [handle, Routes.updateTask, TaskService.updateTask, Tx.succeeds_bind, Routes.succeeds_accessibleTask,
    succeeds_validated, Tx.succeeds_ofExcept, Db.loadTask_row, exists_const, ↓existsAndEq, and_true,
    Tx.succeeds_pure] at h
  obtain ⟨_, r₁, ⟨-, task⟩, -, _, ⟨r₂, sent', _, _, hf, -⟩, -⟩ := h
  obtain rfl := Option.some.inj (found.symm.trans task.found)
  obtain rfl := Except.ok.inj (sent.symm.trans sent')
  exact flush_checked hf

theorem createProject_checked {p : ProjectCreate} (ok : outcome D ⟨c, .createProject p⟩ w = .ok a) :
    holdsNul D.engine (p.name :: p.description.toList) = false := by
  obtain ⟨t, h, -⟩ := succeeds_of_outcome ok
  simp only [handle, Routes.createProject, ProjectService.createProject, Tx.succeeds_bind, succeeds_getCurrentUser,
    succeeds_requireAdmin, succeeds_validated, ProjectRepository.succeeds_add, Tx.succeeds_pure, exists_eq_right_right',
    exists_const, ↓existsAndEq, and_true] at h
  obtain ⟨actor, -, -, -, ⟨d, stored, -⟩, -⟩ := h
  exact Db.insertProject_checked stored

theorem updateProject_checked {p : ProjectUpdate} {q q' : Project} (ok : outcome D ⟨c, .updateProject id p⟩ w = .ok a)
    (found : ProjectRepository.find id w.1 = some q) (sent : p.setattrs q = .ok q') :
    q' = q ∨ holdsNul D.engine q'.texts = false := by
  obtain ⟨t, h, -⟩ := succeeds_of_outcome ok
  simp only [handle, Routes.updateProject, ProjectService.updateProject, Tx.succeeds_bind, succeeds_getCurrentUser,
    succeeds_requireAdmin, succeeds_validated, ProjectRepository.succeeds_get, Tx.succeeds_orRaise, Tx.succeeds_ofExcept,
    ↓existsAndEq, and_true, exists_eq_left, exists_const] at h
  obtain ⟨_, -, -, -, _, _, ⟨q₁, found', q₂, sent', _, _, hf, -⟩, -⟩ := h
  obtain rfl := Option.some.inj (found.symm.trans found')
  obtain rfl := Except.ok.inj (sent.symm.trans sent')
  by_cases hsame : q' = q
  · exact Or.inl hsame
  · obtain ⟨d', stored⟩ := ((ProjectRepository.flush_iff (ProjectRepository.find_eq_some.mp found).1).mp hf).2.1 hsame
    have hchecked := Db.putProject_checked stored
    exact Or.inr hchecked

/-- The texts that are stored stay ones the engine takes. -/
theorem texts_step (schema : Schema D w.1) :
    (∀ q ∈ (nextWorld D e w).1.projects.rows, holdsNul D.engine q.texts = false) ∧
      ∀ r ∈ (nextWorld D e w).1.tasks.rows, holdsNul D.engine r.texts = false := by
  obtain ⟨-, -, -, projects, tasks, -, -⟩ := schema
  cases e with
  | seedAdmin c email password fullName =>
    rcases seedAdmin_next (D := D) (w := w) c email password fullName with h | ⟨_, _, -, -, -, h⟩
    · rw [h]
      exact ⟨projects, tasks⟩
    · rw [h]
      exact ⟨projects, tasks⟩
  | request i =>
    have effect := step_effect D i w
    change (∀ q ∈ (next D i w).1.projects.rows, _) ∧ ∀ r ∈ (next D i w).1.tasks.rows, _
    generalize ok : outcome D i w = o at effect
    generalize next D i w = w' at effect
    cases effect with
    | projectCreated caller admin errors rows =>
      refine ⟨?_, tasks⟩
      apply Table.forall_append projects rows
      exact createProject_checked ok
    | @projectUpdated c d b a id p actor q q' caller admin errors found sent =>
      refine ⟨Table.forall_put projects ?_, tasks⟩
      rw [afterFlush_column Project.texts rfl]
      rcases updateProject_checked ok found sent with rfl | htexts
      · exact projects q' (ProjectRepository.find_eq_some.mp found).1
      · exact htexts
    | @projectDeleted c d b a id actor q caller admin found =>
      refine ⟨Table.forall_put projects ?_, tasks⟩
      rw [afterFlush_column Project.texts rfl]
      exact projects q (ProjectRepository.find_eq_some.mp found).1
    | taskCreated caller errors access project rows =>
      refine ⟨projects, ?_⟩
      apply Table.forall_append tasks rows
      exact (createTask_checked ok).1
    | @taskUpdated c d b a id p actor r r' notifications caller task errors sent notified =>
      refine ⟨projects, Table.forall_put tasks ?_⟩
      rw [afterFlush_column Task.texts rfl]
      rcases updateTask_checked ok task.found sent with rfl | ⟨htexts, -⟩
      · exact tasks r' task.mem
      · exact htexts
    | @taskStatusUpdated c d b a id p actor r caller task =>
      refine ⟨projects, Table.forall_put tasks ?_⟩
      rw [afterFlush_column Task.texts rfl]
      exact tasks r task.mem
    | @taskDeleted c d b a id actor r caller task =>
      refine ⟨projects, Table.forall_put tasks ?_⟩
      rw [afterFlush_column Task.texts rfl]
      exact tasks r task.mem
    | _ => exact ⟨projects, tasks⟩

theorem assignees_step (fk : D.engine.enforcesForeignKeys = true)
    (assignees : ∀ r ∈ w.1.tasks.rows, ∀ id, r.assigneeId = some id → Known w.1.users id) :
    ∀ r ∈ (nextWorld D e w).1.tasks.rows, ∀ id, r.assigneeId = some id → Known w.1.users id := by
  cases e with
  | seedAdmin c email password fullName =>
    rcases seedAdmin_next (D := D) (w := w) c email password fullName with h | ⟨_, _, -, -, -, h⟩
    · rw [h]
      exact assignees
    · rw [h]
      exact assignees
  | request i =>
    have effect := step_effect D i w
    change ∀ r ∈ (next D i w).1.tasks.rows, ∀ id, r.assigneeId = some id → Known w.1.users id
    generalize ok : outcome D i w = o at effect
    generalize next D i w = w' at effect
    cases effect with
    | taskCreated caller errors access project rows =>
      apply Table.forall_append assignees rows
      exact assignee_known (createTask_checked ok).2 fk
    | @taskUpdated c d b a id p actor r r' notifications caller task errors sent notified =>
      apply Table.forall_put assignees
      rw [TaskRepository.afterFlush_assigneeId]
      rcases updateTask_checked ok task.found sent with rfl | ⟨-, hknown⟩
      · exact assignees r' task.mem
      · exact assignee_known hknown fk
    | @taskStatusUpdated c d b a id p actor r caller task =>
      apply Table.forall_put assignees
      rw [TaskRepository.afterFlush_assigneeId]
      exact assignees r task.mem
    | @taskDeleted c d b a id actor r caller task =>
      apply Table.forall_put assignees
      rw [TaskRepository.afterFlush_assigneeId]
      exact assignees r task.mem
    | _ => exact assignees

theorem Schema.step (schema : Schema D w.1) : Schema D (nextWorld D e w).1 where
  users := nextWorld_wrote.sound schema.users
  names := names_step schema.names
  titles := titles_step schema.titles
  projectTexts := (texts_step schema).1
  taskTexts := (texts_step schema).2
  members := fun m hm => nextWorld_wrote.known (members_step schema.members m hm)
  assignees := fun fk r hr id hid => nextWorld_wrote.known (assignees_step fk (schema.assignees fk) r hr id hid)

theorem schema_initial : Schema D World.initial.1 := by
  have hprojects : World.initial.1.projects.rows = [] := rfl
  have htasks : World.initial.1.tasks.rows = [] := rfl
  have hmembers : World.initial.1.projectMembers.rows = [] := rfl
  exact ⟨Indexed.sound_initial, by simp [hprojects], by simp [htasks], by simp [hprojects], by simp [htasks], by simp [hmembers],
    by simp [htasks]⟩

theorem Reachable.schema (h : Reachable D w) : Schema D w.1 := by
  obtain ⟨es, run⟩ := h
  exact run.invariant (I := fun w => Schema D w.1) (fun _ _ _ schema => schema.step) schema_initial

end ProjectManagement
