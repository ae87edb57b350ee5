import ProjectManagement.SoftDeletion
import ProjectManagement.Tombstones

/-!
Assignment and access. Nothing ties the assignee of a task to its project: a task can be given to anyone, and a membership, an
account or a role is taken away without a look at the tasks it was needed for.
-/

namespace ProjectManagement

open Library

variable {D : Deployment} {c : Call} {i : Input} {o : Outcome} {e : Event} {w w' : World} {d d' : Db} {u : User}
  {projectId a : Uuid}

/-- The id belongs to a live user who may work in the project. -/
def WorksIn (d : Db) (projectId userId : Uuid) : Prop :=
  ∃ u, UserRepository.find userId d = some u ∧ MayAccess d projectId u

def Assigned (d : Db) : Prop :=
  ∀ t ∈ d.tasks.rows, t.live = true → LiveProject d t.projectId → ∀ a, t.assigneeId = some a → WorksIn d t.projectId a

def HoldsTask (d : Db) (projectId userId : Uuid) : Prop :=
  LiveProject d projectId ∧ ∃ t ∈ d.tasks.rows, t.live = true ∧ t.projectId = projectId ∧ t.assigneeId = some userId

/-- A task is given to somebody without access to it, or the access of an assignee is taken away. -/
inductive Strands : Event → World → Prop
  | created {c : Call} {d : Db} {b : Blobs} {p : TaskCreate} {a : Uuid} (project : LiveProject d p.projectId)
      (assignee : p.assigneeId = some a) (outsider : ¬WorksIn d p.projectId a) :
      Strands (.request ⟨c, .createTask p⟩) (d, b)
  | updated {c : Call} {d : Db} {b : Blobs} {p : TaskUpdate} {t : Task} {a : Uuid} (task : t ∈ d.tasks.rows)
      (project : LiveProject d t.projectId) (assignee : p.assigneeId = .value a) (outsider : ¬WorksIn d t.projectId a) :
      Strands (.request ⟨c, .updateTask t.id p⟩) (d, b)
  | memberRemoved {c : Call} {d : Db} {b : Blobs} {projectId userId : Uuid} (holds : HoldsTask d projectId userId)
      (employee : ∀ u, UserRepository.find userId d = some u → u.role ≠ .admin) :
      Strands (.request ⟨c, .removeMember projectId userId⟩) (d, b)
  | userDeleted {c : Call} {d : Db} {b : Blobs} {projectId userId : Uuid} (holds : HoldsTask d projectId userId) :
      Strands (.request ⟨c, .deleteUser userId⟩) (d, b)
  | demoted {c : Call} {d : Db} {b : Blobs} {projectId userId : Uuid} {p : UserRoleUpdate}
      (holds : HoldsTask d projectId userId) (role : p.role ≠ .admin)
      (outsider : ∀ m, ProjectRepository.memberRows projectId userId d ≠ [m]) :
      Strands (.request ⟨c, .updateRole userId p⟩) (d, b)

/-! What keeps a user working in a project. -/

theorem WorksIn.append_user {users : Table User} (h : WorksIn d projectId a) (rows : users.rows = d.users.rows ++ [u]) :
    WorksIn { d with users := users } projectId a := by
  obtain ⟨v, found, access⟩ := h
  obtain ⟨hv, hlive⟩ := UserRepository.find_eq_some.mp found
  exact ⟨v, UserRepository.find_eq_some.mpr ⟨by simp [rows, hv], hlive⟩, access⟩

theorem WorksIn.put_user {v : User} (h : WorksIn d projectId a) (hu : u ∈ d.users.rows) (hid : v.id = u.id)
    (live : u.id = a → u.live = true → v.live = true)
    (access : u.id = a → MayAccess d projectId u → MayAccess d projectId v) :
    WorksIn { d with users := d.users.put v } projectId a := by
  obtain ⟨x, found, hx⟩ := h
  obtain ⟨hmem, hlive, rfl⟩ := UserRepository.find_eq_some.mp found
  by_cases hxu : x.id = u.id
  · obtain rfl : x = u := d.users.eq_of_key hmem hu hxu
    exact ⟨v, UserRepository.find_eq_some.mpr ⟨Table.mem_put_self hu hid.symm, live rfl hlive, hid⟩, access rfl hx⟩
  · exact ⟨x, UserRepository.find_eq_some.mpr ⟨Table.mem_put.mpr (Or.inl ⟨hmem, fun h => hxu (h.trans hid)⟩), hlive, rfl⟩, hx⟩

theorem WorksIn.of_put {v : User} (h : WorksIn { d with users := d.users.put v } projectId u.id) (hid : v.id = u.id) :
    v.live = true ∧ MayAccess d projectId v := by
  obtain ⟨x, found, access⟩ := h
  obtain ⟨hx, hlive, hxid⟩ := UserRepository.find_eq_some.mp found
  rcases Table.of_mem_put hx with rfl | ⟨-, hne⟩
  · exact ⟨hlive, access⟩
  · exact absurd (hxid.trans hid.symm) hne

theorem mayAccess_of_eq {v : User} (hid : v.id = u.id) (role : v.role = u.role) (h : MayAccess d projectId u) :
    MayAccess d projectId v := by
  unfold MayAccess at h ⊢
  rwa [hid, role]

theorem WorksIn.flush_user {v : User} (h : WorksIn d projectId a) (hu : u ∈ d.users.rows) (hid : v.id = u.id)
    (live : v.live = u.live) (role : v.role = u.role) :
    WorksIn { d with users := d.users.put (afterFlush (UserRepository.stamped D c) u v) } projectId a := by
  apply h.put_user hu (UserRepository.afterFlush_id hid)
  · intro _ hlive
    exact ((afterFlush_column User.live rfl).trans live).trans hlive
  · intro _
    apply mayAccess_of_eq (UserRepository.afterFlush_id hid)
    exact (afterFlush_column User.role rfl).trans role

theorem WorksIn.add_member {m : ProjectMember} {members : Table ProjectMember} (h : WorksIn d projectId a)
    (rows : members.rows = d.projectMembers.rows ++ [m])
    (new : ProjectRepository.memberRows m.projectId m.userId d = []) :
    WorksIn { d with projectMembers := members } projectId a := by
  obtain ⟨v, found, access⟩ := h
  refine ⟨v, found, ?_⟩
  rcases access with hadmin | ⟨m', hm'⟩
  · exact Or.inl hadmin
  · have hne : ¬(m.projectId = projectId ∧ m.userId = v.id) := by
      rintro ⟨rfl, huser⟩
      rw [huser, hm'] at new
      exact absurd new (by simp)
    refine Or.inr ⟨m', ?_⟩
    simp only [ProjectRepository.memberRows] at hm' ⊢
    rw [rows, List.filter_append, hm']
    simpa using hne

theorem WorksIn.remove_member {m : ProjectMember} (h : WorksIn d projectId a) (hm : m ∈ d.projectMembers.rows)
    (other : ¬(m.projectId = projectId ∧ m.userId = a) ∨ ∃ u, UserRepository.find a d = some u ∧ u.role = .admin) :
    WorksIn { d with projectMembers := d.projectMembers.deleteWhere (fun r => r.id == m.id) } projectId a := by
  obtain ⟨v, found, access⟩ := h
  refine ⟨v, found, ?_⟩
  have hid := (UserRepository.find_eq_some.mp found).2.2
  rcases access with hadmin | ⟨m', hm'⟩
  · exact Or.inl hadmin
  · rcases other with hne | ⟨u, hu, hadmin⟩
    · refine Or.inr ⟨m', ?_⟩
      obtain ⟨hmem, hproject, huser⟩ := ProjectRepository.memberRows_eq_singleton hm'
      have hkept : m'.id ≠ m.id := by
        intro hmm
        obtain rfl : m' = m := d.projectMembers.eq_of_key hmem hm hmm
        exact hne ⟨hproject, huser.trans hid⟩
      simp only [ProjectRepository.memberRows, Table.deleteWhere] at hm' ⊢
      rw [List.filter_filter, List.filter_congr (q := _) (fun x _ => Bool.and_comm _ _), ← List.filter_filter, hm']
      simpa using hkept
    · obtain rfl := Option.some.inj (found.symm.trans hu)
      exact Or.inl hadmin

/-! One step. A task row that is new or written over has a live project that was there, and an assignee who works there. -/

def TaskProjects (d : Db) : Prop := ∀ t ∈ d.tasks.rows, ∃ q ∈ d.projects.rows, q.id = t.projectId

theorem TaskProjects.step (h : TaskProjects w.1) : TaskProjects (nextWorld D e w).1 := by
  have kept : ∀ {projectId : Uuid}, (∃ q ∈ w.1.projects.rows, q.id = projectId) →
      ∃ q ∈ (nextWorld D e w).1.projects.rows, q.id = projectId := by
    rintro _ ⟨q, hq, rfl⟩
    obtain ⟨q', hq', hid, -⟩ := (nextWorld_preserved D e w).projects q hq
    exact ⟨q', hq', hid⟩
  intro t ht
  have hlookup : (nextWorld D e w).1.tasks.lookup t.id = some t := Table.lookup_eq_some.mpr ⟨ht, rfl⟩
  rcases nextWorld_taskChanges D e w t.id with hsame | hchange
  · exact kept (h t (Table.lookup_eq_some.mp (hsame.symm.trans hlookup)).1)
  · rw [hlookup] at hchange
    generalize hold : w.1.tasks.lookup t.id = old at hchange
    cases hchange with
    | created request project =>
      obtain ⟨q, hq, hid, -⟩ := project
      exact kept ⟨q, hq, hid⟩
    | updated live project =>
      rw [project]
      exact kept (h _ (Table.lookup_eq_some.mp hold).1)

theorem LiveProject.before (h : LiveProject (nextWorld D e w).1 projectId) (known : ∃ q ∈ w.1.projects.rows, q.id = projectId) :
    LiveProject w.1 projectId := by
  obtain ⟨q, hq, live⟩ := liveProject_iff.mp h
  obtain ⟨q', hq', hid⟩ := known
  have hlookup : w.1.projects.lookup projectId = some q' := Table.lookup_eq_some.mpr ⟨hq', hid⟩
  rw [liveProject_iff]
  rcases nextWorld_projectChanges D e w projectId with hsame | hchange
  · exact ⟨q, hsame.symm.trans hq, live⟩
  · rw [hq, hlookup] at hchange
    cases hchange with
    | updated hlive => exact ⟨q', hlookup, hlive.symm.trans live⟩
    | deleted request hidden =>
      rw [hidden] at live
      exact absurd live (by simp)

theorem Assigned.flush_task {r r' : Task} (h : Assigned d) (hproject : r'.projectId = r.projectId)
    (assignee : r'.live = true → LiveProject d r.projectId → ∀ a, r'.assigneeId = some a → WorksIn d r.projectId a) :
    Assigned { d with tasks := d.tasks.put (afterFlush (TaskRepository.stamped D c) r r') } := by
  intro t ht live project a ha
  rcases Table.of_mem_put ht with rfl | ⟨ht, -⟩
  · have hlive : r'.live = true := (afterFlush_column Task.live rfl).symm.trans live
    have hassignee : r'.assigneeId = some a := (afterFlush_column Task.assigneeId rfl).symm.trans ha
    have hsame : (afterFlush (TaskRepository.stamped D c) r r').projectId = r.projectId :=
      (afterFlush_column Task.projectId rfl).trans hproject
    rw [hsame] at project ⊢
    exact assignee hlive project a hassignee
  · exact h t ht live project a ha

theorem TaskUpdate.setattrs_assignee {p : TaskUpdate} {r r' : Task} (h : p.setattrs r = .ok r') (ha : r'.assigneeId = some a) :
    r.assigneeId = some a ∨ p.assigneeId = .value a := by
  obtain ⟨-, rfl⟩ := setattrs_eq_ok.mp h
  cases hp : p.assigneeId with
  | unset => exact Or.inl (by simpa [applied, hp, Field.assign] using ha)
  | null => simp [applied, hp, Field.assign] at ha
  | value x => exact Or.inr (by simpa [applied, hp, Field.assign] using ha)

theorem TaskUpdate.setattrs_named {p : TaskUpdate} {r r' : Task} (h : p.setattrs r = .ok r') (ha : p.assigneeId = .value a) :
    r'.assigneeId = some a := by
  obtain ⟨-, rfl⟩ := setattrs_eq_ok.mp h
  simp [applied, ha, Field.assign]

theorem Effect.assigned (effect : Effect D i w o w') (h : Assigned w.1)
    (before : ∀ t ∈ w.1.tasks.rows, LiveProject w'.1 t.projectId → LiveProject w.1 t.projectId)
    (safe : ∀ answer, o = .ok answer → ¬Strands (.request i) w) : Assigned w'.1 := by
  cases effect with
  | registered errors policy free hash rows =>
    exact fun t ht live project a ha => (h t ht live project a ha).append_user rows
  | userCreated caller admin errors policy free hash rows =>
    exact fun t ht live project a ha => (h t ht live project a ha).append_user rows
  | passwordChanged caller errors verified policy hash =>
    exact fun t ht live project a ha => (h t ht live project a ha).flush_user caller.mem rfl rfl rfl
  | userUpdated caller errors allowed found status free sent =>
    obtain ⟨hid, hlive, hrole⟩ := UserUpdate.setattrs_keeps sent
    have hu := (UserRepository.find_eq_some.mp found).1
    exact fun t ht live project a ha => (h t ht live project a ha).flush_user hu hid hlive hrole
  | @roleUpdated c d b _ id p actor u caller admin found =>
    intro t ht live project a ha
    obtain ⟨hu, hlive, rfl⟩ := UserRepository.find_eq_some.mp found
    have hid : (afterFlush (UserRepository.stamped D c) u { u with role := p.role }).id = u.id := UserRepository.afterFlush_id rfl
    apply (h t ht live project a ha).put_user hu hid
    · intro _ _
      exact (afterFlush_column User.live rfl).trans hlive
    · rintro rfl access
      by_cases hrole : p.role = .admin
      · exact Or.inl ((afterFlush_column User.role rfl).trans hrole)
      · -- a demoted assignee is a member, or the step strands his task
        by_contra hnot
        refine safe _ rfl (.demoted ⟨project, t, ht, live, rfl, ha⟩ hrole fun m hm => hnot (Or.inr ⟨m, ?_⟩))
        rw [hid]
        exact hm
  | @userDeleted c d b _ id actor u caller admin other found =>
    intro t ht live project a ha
    obtain ⟨hu, hlive, rfl⟩ := UserRepository.find_eq_some.mp found
    have hne : u.id ≠ a := by
      rintro rfl
      exact safe _ rfl (.userDeleted ⟨project, t, ht, live, rfl, ha⟩)
    have hid := UserRepository.afterFlush_id (D := D) (c := c) (u := u) (v := { u with deletedAt := some c.now }) rfl
    exact (h t ht live project a ha).put_user hu hid (fun h => absurd h hne) fun h => absurd h hne
  | memberAdded caller admin found user new rows notified =>
    exact fun t ht live project a ha => (h t ht live project a ha).add_member rows new
  | @memberRemoved c d b _ id userId actor m caller admin member =>
    intro t ht live project a ha
    obtain ⟨hm, rfl, rfl⟩ := ProjectRepository.memberRows_eq_singleton member
    apply (h t ht live project a ha).remove_member hm
    by_cases hsame : m.projectId = t.projectId ∧ m.userId = a
    · right
      by_contra hnot
      obtain ⟨hproject, rfl⟩ := hsame
      exact safe _ rfl (.memberRemoved ⟨hproject ▸ project, t, ht, live, hproject.symm, ha⟩
        fun u hu hadmin => hnot ⟨u, hu, hadmin⟩)
    · exact Or.inl hsame
  | projectCreated caller admin errors rows => exact fun t ht live project => h t ht live (before t ht project)
  | projectUpdated caller admin errors found sent => exact fun t ht live project => h t ht live (before t ht project)
  | projectDeleted caller admin found => exact fun t ht live project => h t ht live (before t ht project)
  | @taskCreated c d b _ p actor q tasks notifications caller errors access project rows notified =>
    intro t ht live hproject a ha
    rw [rows, List.mem_append, List.mem_singleton] at ht
    rcases ht with ht | rfl
    · exact h t ht live hproject a ha
    · by_contra hnot
      exact safe _ rfl (.created hproject ha hnot)
  | @taskUpdated c d b _ id p actor r r' notifications caller task errors sent notified =>
    obtain ⟨-, hproject, -⟩ := TaskUpdate.setattrs_keeps sent
    refine h.flush_task hproject fun _ live a ha => ?_
    obtain rfl := task.id_eq
    rcases TaskUpdate.setattrs_assignee sent ha with hold | hnew
    · exact h r task.mem task.live live a hold
    · by_contra hnot
      exact safe _ rfl (.updated task.mem live hnew hnot)
  | taskStatusUpdated caller task =>
    exact h.flush_task rfl fun _ live a ha => h _ task.mem task.live live a ha
  | taskDeleted caller task =>
    exact h.flush_task rfl fun _ live a ha => h _ task.mem task.live live a ha
  | _ => exact h

def Granted (D : Deployment) (e : Event) (w : World) : Prop := ∃ i answer, e = .request i ∧ outcome D i w = .ok answer

theorem Assigned.step (h : Assigned w.1) (projects : TaskProjects w.1) (safe : Strands e w → ¬Granted D e w) :
    Assigned (nextWorld D e w).1 := by
  cases e with
  | request i =>
    apply (step_effect D i w).assigned h
    · exact fun t ht live => LiveProject.before (e := .request i) live (projects t ht)
    · exact fun answer granted strands => safe strands ⟨i, answer, rfl, granted⟩
  | seedAdmin c email password fullName =>
    rcases seedAdmin_next (D := D) (w := w) c email password fullName with hw | ⟨hashed, users, -, -, rows, hw⟩ <;> rw [hw]
    · exact h
    · exact fun t ht live project a ha => (h t ht live project a ha).append_user rows

theorem Execution.assigned {es : List Event} (run : Execution D (fun e w => Strands e w → ¬Granted D e w) World.initial es w) :
    Assigned w.1 := by
  have inv : TaskProjects w.1 ∧ Assigned w.1 := by
    apply run.invariant (I := fun w => TaskProjects w.1 ∧ Assigned w.1)
    · exact fun e w safe h => ⟨h.1.step, h.2.step h.1 safe⟩
    · constructor
      · exact fun t ht => absurd ht (by simp [World.initial, Db.empty, Table.empty])
      · exact fun t ht => absurd ht (by simp [World.initial, Db.empty, Table.empty])
  exact inv.2

/-! A granted step that strands does so: the assignee of a live task has no access to it. -/

theorem Strands.not_assigned {answer : ApiResponse} (h : Strands (.request i) w) (granted : outcome D i w = .ok answer) :
    ¬Assigned (next D i w).1 := by
  intro assigned
  have effect := step_effect D i w
  rw [granted] at effect
  generalize next D i w = w' at effect assigned
  cases h with
  | @created c d b p a project assignee outsider =>
    cases effect with
    | answered reads => simp [Request.reads] at reads
    | @taskCreated _ _ _ _ _ actor q tasks notifications caller errors access found rows notified =>
      let t := newTask D c p (TaskRepository.nextPosition p.projectId p.status d) actor
      have ht : t ∈ tasks.rows := by
        rw [rows]
        exact List.mem_append_right _ (List.mem_singleton_self _)
      exact outsider (assigned t ht rfl project a assignee)
  | @updated c d b p t a task project assignee outsider =>
    cases effect with
    | answered reads => simp [Request.reads] at reads
    | @taskUpdated _ _ _ _ _ _ actor r r' notifications caller accessible errors sent notified =>
      obtain rfl : r = t := d.tasks.eq_of_key accessible.mem task accessible.id_eq
      obtain ⟨hid, hproject, -, hdeleted, -⟩ := TaskUpdate.setattrs_keeps sent
      have hafter := TaskRepository.afterFlush_id (D := D) (c := c) hid
      have hlive : (afterFlush (TaskRepository.stamped D c) r r').live = true := by
        rw [afterFlush_column Task.live rfl, Task.live, hdeleted]
        exact accessible.live
      have hproject : (afterFlush (TaskRepository.stamped D c) r r').projectId = r.projectId :=
        (afterFlush_column Task.projectId rfl).trans hproject
      have hassignee : (afterFlush (TaskRepository.stamped D c) r r').assigneeId = some a :=
        TaskRepository.afterFlush_assigneeId.trans (TaskUpdate.setattrs_named sent assignee)
      have works := assigned _ (Table.mem_put_self task hafter.symm) hlive (hproject ▸ project) a hassignee
      rw [hproject] at works
      exact absurd works outsider
  | @memberRemoved c d b projectId userId holds employee =>
    obtain ⟨project, t, ht, live, rfl, ha⟩ := holds
    cases effect with
    | answered reads => simp [Request.reads] at reads
    | @memberRemoved _ _ _ _ _ _ actor m caller admin member =>
      obtain ⟨u, found, access⟩ := assigned t ht live project userId ha
      rcases access with hadmin | ⟨m', hm'⟩
      · exact employee u found hadmin
      · have hid := (UserRepository.find_eq_some.mp found).2.2
        obtain ⟨hmem, hproject, huser⟩ := ProjectRepository.memberRows_eq_singleton hm'
        obtain ⟨hmem, hne⟩ := Table.mem_deleteWhere.mp hmem
        have hrow : m' ∈ ProjectRepository.memberRows t.projectId userId d :=
          List.mem_filter.mpr ⟨hmem, by simp [hproject, huser, hid]⟩
        rw [member, List.mem_singleton] at hrow
        simp [hrow] at hne
  | @userDeleted c d b projectId userId holds =>
    obtain ⟨project, t, ht, live, rfl, ha⟩ := holds
    cases effect with
    | answered reads => simp [Request.reads] at reads
    | @userDeleted _ _ _ _ _ actor u caller admin other found =>
      obtain ⟨hu, hlive, rfl⟩ := UserRepository.find_eq_some.mp found
      obtain ⟨hdead, -⟩ := (assigned t ht live project u.id ha).of_put (UserRepository.afterFlush_id rfl)
      rw [afterFlush_column User.live rfl] at hdead
      exact absurd hdead (by simp [User.live])
  | @demoted c d b projectId userId p holds role outsider =>
    obtain ⟨project, t, ht, live, rfl, ha⟩ := holds
    cases effect with
    | answered reads => simp [Request.reads] at reads
    | @roleUpdated _ _ _ _ _ _ actor u caller admin found =>
      obtain ⟨hu, hlive, rfl⟩ := UserRepository.find_eq_some.mp found
      have hid : (afterFlush (UserRepository.stamped D c) u { u with role := p.role }).id = u.id := UserRepository.afterFlush_id rfl
      obtain ⟨-, access⟩ := (assigned t ht live project u.id ha).of_put hid
      rcases access with hadmin | ⟨m, hm⟩
      · exact role ((afterFlush_column User.role rfl).symm.trans hadmin)
      · rw [hid] at hm
        exact outsider m hm

/-- In a run with no granted step that strands somebody, whoever a live task of a live project is
assigned to exists, may work in the project and can open the task. Each such step ends this. -/
theorem assignment_access {es : List Event} (run : Execution D (fun e w => Strands e w → ¬Granted D e w) World.initial es w) :
    (∀ t ∈ w.1.tasks.rows, t.live = true → LiveProject w.1 t.projectId → ∀ a, t.assigneeId = some a →
      ∃ u, UserRepository.find a w.1 = some u ∧ MayAccess w.1 t.projectId u ∧
        ∃ loaded, (getAccessibleTask t.id u).answer w = .ok loaded) ∧
      ∀ i answer, Strands (.request i) w → outcome D i w = .ok answer → ¬Assigned (next D i w).1 := by
  refine ⟨fun t ht live project a ha => ?_, fun i answer h granted => h.not_assigned granted⟩
  obtain ⟨u, found, access⟩ := run.assigned t ht live project a ha
  have accessible : Accessible w.1 u t.id t := ⟨TaskRepository.find_eq_some.mpr ⟨ht, live, rfl⟩, access⟩
  exact ⟨u, found, access, _, Tx.answer_eq_ok.mpr ⟨_, succeeds_getAccessibleTask.mpr ⟨t, accessible, rfl, rfl⟩⟩⟩

def memberAssigned : List Event :=
  oneTask ++ sampleRequests 4
    [(none, .register ⟨"a@b.c", "Passw0rd", "A"⟩), (some 16, .addMember 32 { userId := 64 }),
      (some 16, .createTask { projectId := 32, title := "U", assigneeId := some 64 })]

def Event.mayStrand : Event → Bool
  | request ⟨_, .createTask p⟩ => p.assigneeId.isSome
  | request ⟨_, .updateTask ..⟩ => true
  | request ⟨_, .removeMember ..⟩ => true
  | request ⟨_, .deleteUser _⟩ => true
  | request ⟨_, .updateRole ..⟩ => true
  | _ => false

theorem Strands.mayStrand (h : Strands e w) : e.mayStrand = true := by
  cases h with
  | created project assignee outsider => simp [Event.mayStrand, assignee]
  | _ => rfl

theorem Strands.of_createTask {p : TaskCreate} (h : Strands (.request ⟨c, .createTask p⟩) w) :
    ∃ a, p.assigneeId = some a ∧ ¬WorksIn w.1 p.projectId a := by
  cases h with
  | created project assignee outsider => exact ⟨_, assignee, outsider⟩

theorem assignment_access_sample : ∃ w, Execution .sample (fun e w => Strands e w → ¬Granted .sample e w) World.initial memberAssigned w ∧
    ∃ t ∈ w.1.tasks.rows, t.assigneeId = some 64 ∧ ∃ u, UserRepository.find 64 w.1 = some u ∧
      ∃ loaded, (getAccessibleTask t.id u).answer w = .ok loaded := by
  let before := playFrom .sample World.initial (memberAssigned.take 5)
  have works : WorksIn before.1 32 64 := by
    refine ⟨newUser .sample (Call.sample 4 none) "a@b.c" ":Passw0rd" "A" .employee, by decide +kernel, Or.inr ?_⟩
    exact ⟨⟨80, 32, 64, .contributor⟩, by decide +kernel⟩
  have run : Execution .sample (fun e w => Strands e w → ¬Granted .sample e w) World.initial memberAssigned
      (playFrom .sample World.initial memberAssigned) := by
    have quiet : ∀ {e w}, e.mayStrand = false → Strands e w → ¬Granted .sample e w :=
      fun he h => absurd h.mayStrand (by simp [he])
    refine .cons (quiet rfl) (.cons (quiet rfl) (.cons (quiet rfl) (.cons (quiet rfl) (.cons (quiet rfl)
      (.cons (fun h => ?_) (.nil _))))))
    obtain ⟨a, ha, outsider⟩ := h.of_createTask
    obtain rfl : 64 = a := Option.some.inj ha
    exact absurd works outsider
  have hassigned : ((playFrom .sample World.initial memberAssigned).1.tasks.rows.any
      fun t => t.live && t.projectId == 32 && t.assigneeId == some 64) = true := by decide +kernel
  have live : LiveProject (playFrom .sample World.initial memberAssigned).1 32 := by decide +kernel
  obtain ⟨t, ht, hkeys⟩ := List.any_eq_true.mp hassigned
  simp only [Bool.and_eq_true, beq_iff_eq] at hkeys
  obtain ⟨⟨hlive, hproject⟩, ha⟩ := hkeys
  obtain ⟨u, found, -, opened⟩ := (assignment_access run).1 t ht hlive (hproject ▸ live) 64 ha
  exact ⟨_, run, t, ht, ha, u, found, opened⟩

/-- A task is given to somebody who is no member of its project. -/
theorem assignee_locked_out : ∃ w, Reachable .sample w ∧ ∃ t ∈ w.1.tasks.rows, t.live = true ∧ LiveProject w.1 t.projectId ∧
    ∃ u, t.assigneeId = some u.id ∧ UserRepository.find u.id w.1 = some u ∧
      ∃ error, (getAccessibleTask t.id u).answer w = .error error := by
  let es := oneTask ++ sampleRequests 4
    [(none, .register ⟨"a@b.c", "Passw0rd", "A"⟩),
      (some 16, .createTask { projectId := 32, title := "U", assigneeId := some 64 })]
  let w := playFrom .sample World.initial es
  let u := newUser .sample (Call.sample 4 none) "a@b.c" ":Passw0rd" "A" .employee
  have hassigned : (w.1.tasks.rows.any
      fun t => t.live && t.projectId == 32 && t.assigneeId == some 64 && t.id == 80) = true := by decide +kernel
  have live : LiveProject w.1 32 := by decide +kernel
  obtain ⟨t, ht, hkeys⟩ := List.any_eq_true.mp hassigned
  simp only [Bool.and_eq_true, beq_iff_eq] at hkeys
  obtain ⟨⟨⟨hlive, hproject⟩, ha⟩, hid⟩ := hkeys
  have hrefused : ((getAccessibleTask 80 u).answer w).isOk = false := by decide +kernel
  refine ⟨w, reachable_of_freshRun (by decide +kernel), t, ht, hlive, hproject ▸ live, u, ha, by decide +kernel, ?_⟩
  rw [hid]
  cases h : (getAccessibleTask 80 u).answer w with
  | error error => exact ⟨error, rfl⟩
  | ok loaded =>
    rw [h] at hrefused
    exact absurd hrefused (by simp [Except.isOk, Except.toBool])

end ProjectManagement
