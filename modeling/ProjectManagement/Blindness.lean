import ProjectManagement.Visibility

/-!
The access checks and the services of an employee, from two states alike: the checks refuse on both
sides or let the same visible row through, and on visible rows every service acts alike.
-/

namespace ProjectManagement

open Library Library.Tx

variable {S : Secret} {u : Uuid} {D : Deployment} {c : Call} {actor : User} {id projectId taskId : Uuid}

/-- A request authenticated as `u`, or as nobody. -/
def ActsAs (u : Uuid) (c : Call) : Prop :=
  ∀ payload id, c.bearer.bind (decodeAccessToken c) = some payload → payload.sub = some id → id = u

def IsEmployee (u : Uuid) (v : User) : Prop := v.id = u ∧ v.role = .employee

theorem IsEmployee.not_admin {v : User} (h : IsEmployee u v) : v.role ≠ .admin := by
  rw [h.2]
  decide

section Access

theorem getUser_seen : SeenAlike S u (fun o => ∀ v, o = some v → v.id = id ∧ (v.id = u → v.role = .employee))
    (UserRepository.get id) := by
  refine .query fun d d' h => ⟨by simp only [UserRepository.find, h.users], fun v hv => ?_⟩
  obtain ⟨hmem, -, hid⟩ := UserRepository.find_eq_some.mp hv
  exact ⟨hid, h.employee v hmem⟩

theorem getCurrentUser_seen (hc : ActsAs u c) : SeenAlike S u (IsEmployee u) (getCurrentUser c) := by
  unfold getCurrentUser
  refine SeenAlike.orRaise.bind fun token htoken => SeenAlike.orRaise.bind fun payload hpayload =>
    SeenAlike.orRaise.bind fun sub hsub => getUser_seen.bind fun o ho => ?_
  refine SeenAlike.orRaise.mono ?_
  rintro v _ ⟨rfl, hv⟩
  obtain ⟨hid, hrole⟩ := ho v (Option.filter_eq_some_iff.mp hv).1
  have hu : v.id = u := hid.trans (hc payload sub (by rw [htoken]; exact hpayload) hsub)
  exact ⟨rfl, hu, hrole hu⟩

theorem adminOnly_seen {α : Type} (hc : ActsAs u c) {f : User → App α} :
    Unseeing S u (do let actor ← getCurrentUser c; requireAdmin actor; f actor) := by
  refine ⟨(getCurrentUser_seen hc).bind fun actor hactor => .bind_of_false ?_⟩
  exact (Agree.refuseIf_of_iff Iff.rfl).mono fun _ _ h => h hactor.not_admin

theorem mayAccess_seen (hactor : IsEmployee u actor) :
    SeenAlike S u (fun b => b = true → ¬S.project projectId) (mayAccess projectId actor) := by
  unfold mayAccess
  rw [if_neg hactor.not_admin]
  refine .select fun d d' h => ?_
  have hmembers := h.member
  simp only [ProjectRepository.memberRows, h.members] at hmembers ⊢
  cases ho : (scalarOneOrNone (ProjectRepository.memberRows projectId actor.id d')).map Option.isSome with
  | error e =>
    simp only [ProjectRepository.memberRows] at ho
    rw [ho]
    exact .error e
  | ok b =>
    have hb := ho
    simp only [ProjectRepository.memberRows] at hb
    rw [hb]
    refine .ok ⟨rfl, ?_⟩
    rintro rfl
    obtain ⟨m, hm⟩ := ProjectRepository.isMember_eq_true.mp ho
    obtain ⟨hmem, rfl, huser⟩ := ProjectRepository.memberRows_eq_singleton hm
    exact hmembers m hmem (huser.trans hactor.1)

/-- A task found on both sides: the same one, or two versions of a hidden one. -/
def TaskPair (S : Secret) (a b : LoadedTask) : Prop :=
  a.row.projectId = b.row.projectId ∧ (¬S.project a.row.projectId → a = b ∧ ¬S.task a.row.id)

theorem getTask_seen :
    Agree (DbAlike S u) (BlobsAlike S) (Option.Rel (TaskPair S)) (TaskRepository.get id) (TaskRepository.get id) := by
  refine .query fun d d' h => ?_
  rw [h.loadTask]
  refine optionRel_map (h.findTask id) fun t t' ht htt' => ?_
  have hmem := (TaskRepository.find_eq_some.mp ht).1
  rcases htt' with rfl | hidden
  · exact ⟨rfl, fun hopen => ⟨rfl, fun hs => hopen (h.secretTask t hmem hs)⟩⟩
  · exact ⟨hidden.projectId, fun hopen => absurd (h.secretTask t hmem hidden.secret) hopen⟩

theorem getAccessibleTask_seen (id : Uuid) (hactor : IsEmployee u actor) :
    SeenAlike S u (fun t => ¬S.project t.row.projectId ∧ ¬S.task t.row.id) (getAccessibleTask id actor) := by
  unfold getAccessibleTask
  refine Agree.bind getTask_seen fun a b hab => (Agree.orRaise hab).bind fun t s hts => ?_
  obtain ⟨hproject, hopen⟩ := hts
  rw [← hproject]
  refine (mayAccess_seen hactor).bind fun allowed hallowed => ?_
  refine (Agree.refuseIf_of_iff Iff.rfl).bind fun _ _ hok => ?_
  have hvisible := hallowed (by simpa using hok)
  obtain ⟨rfl, htask⟩ := hopen hvisible
  exact .pure ⟨rfl, hvisible, htask⟩

theorem getTaskOf_seen (hactor : IsEmployee u actor) :
    SeenAlike S u (fun _ => ¬S.task taskId) (getAccessibleTask taskId actor) := by
  intro s t hst
  obtain ⟨hres, hafter⟩ := getAccessibleTask_seen (S := S) taskId hactor s t hst
  refine ⟨?_, hafter⟩
  rcases hres.cases with ⟨l, _, hl, hl', rfl, -, hvisible⟩ | ⟨e, he, he'⟩
  · have hrun : (getAccessibleTask taskId actor).Succeeds s l (getAccessibleTask taskId actor s).2 := Prod.ext hl rfl
    obtain ⟨r, access, rfl, -⟩ := succeeds_getAccessibleTask.mp hrun
    rw [hl, hl', ← access.id_eq]
    exact .ok ⟨rfl, hvisible⟩
  · rw [he, he']
    exact .error e

theorem accessibleTask_seen (hc : ActsAs u c) :
    SeenAlike S u (fun r => IsEmployee u r.1 ∧ ¬S.project r.2.row.projectId ∧ ¬S.task r.2.row.id)
      (Routes.accessibleTask c id) := by
  refine (getCurrentUser_seen hc).bind fun actor hactor => (getAccessibleTask_seen id hactor).bind fun t ht => ?_
  exact .pure ⟨rfl, hactor, ht⟩

theorem getMember_seen (hactor : IsEmployee u actor) :
    SeenAlike S u (fun o => o ≠ none → ¬S.project projectId) (ProjectRepository.getMember projectId actor.id) := by
  refine .select fun d d' h => ?_
  have hload : d.loadMember = d'.loadMember := by
    funext m
    simp only [Db.loadMember, h.relatedUser]
  have hrows : ProjectRepository.memberRows projectId actor.id d = ProjectRepository.memberRows projectId actor.id d' := by
    simp only [ProjectRepository.memberRows, h.members]
  have hmembers := h.member
  rw [hload, ← hrows]
  cases ho : scalarOneOrNone (ProjectRepository.memberRows projectId actor.id d) with
  | error e => exact .error e
  | ok o =>
    refine .ok ⟨rfl, fun hsome => ?_⟩
    cases o with
    | none => exact absurd rfl hsome
    | some m =>
      obtain ⟨hmem, rfl, huser⟩ := ProjectRepository.memberRows_eq_singleton (scalarOneOrNone_some.mp ho)
      exact hmembers m hmem (huser.trans hactor.1)

theorem requireProjectView_seen (hactor : IsEmployee u actor) :
    SeenAlike S u (fun _ => ¬S.project projectId) (requireProjectView projectId actor) := by
  unfold requireProjectView projectAccessPolicy
  have hfind : Agree (DbAlike S u) (BlobsAlike S) (Option.Rel fun p q => S.project projectId ∨ p = q)
      (ProjectRepository.get projectId) (ProjectRepository.get projectId) := by
    refine .query fun d d' h => optionRel_of_some (h.findProject projectId) fun p q hp hpq => ?_
    obtain ⟨-, -, rfl⟩ := ProjectRepository.find_eq_some.mp hp
    exact hpq.elim Or.inr fun hidden => Or.inl hidden.secret
  refine hfind.bind fun a b hab => (Agree.orRaise hab).bind fun p q hpq => ?_
  rw [if_neg hactor.not_admin, if_neg hactor.not_admin]
  refine (getMember_seen hactor).bind fun o ho => SeenAlike.orRaise.bind fun m hm => ?_
  have hvisible := ho (by rw [hm]; simp)
  refine SeenAlike.refuseIf.bind fun _ _ => ?_
  obtain rfl := hpq.resolve_left hvisible
  exact .pure ⟨rfl, hvisible⟩

end Access

section Services

/-! Accounts, sessions and notifications are the same on both sides. -/

instance {email hashed name : String} :
    Unseeing S u (UserRepository.add D (newUser D c email hashed name .employee)) :=
  ⟨.execute fun _ _ h => insertUser_alike rfl h⟩

instance {password : String} : Unseeing S u (hashPassword D c password) := by unfold hashPassword; infer_instance

instance {password : String} : Unseeing S u (enforcePasswordPolicy D password) := by
  unfold enforcePasswordPolicy; infer_instance

instance {errors : List ErrorDetail} : Unseeing S u (validated errors) := by unfold validated; infer_instance

instance {p : UserRegister} : Unseeing S u (AuthService.register D c p) := by
  unfold AuthService.register AuthService.registerWith; infer_instance

instance {v : User} : Unseeing S u (AuthService.issuePair D c v id) := by unfold AuthService.issuePair; infer_instance

instance {email password : String} : Unseeing S u (AuthService.login D c email password) := by
  unfold AuthService.login; infer_instance

instance {r : RefreshToken} : Unseeing S u (AuthService.rotate D c r) := by unfold AuthService.rotate; infer_instance

instance {token : String} : Unseeing S u (AuthService.refresh D c token) := by
  unfold AuthService.refresh; infer_instance

instance {token : String} : Unseeing S u (AuthService.logout D token) := by unfold AuthService.logout; infer_instance

theorem changePassword_seen {p : ChangePassword} (hactor : IsEmployee u actor) :
    Unseeing S u (AuthService.changePassword D c actor p) := by
  have hflush : ∀ hashed, Unseeing S u (UserRepository.flush D c actor { actor with hashedPassword := hashed }) :=
    fun hashed => ⟨flushUser_alike fun _ => hactor.2⟩
  unfold AuthService.changePassword AuthService.changePasswordWith
  infer_instance

instance : Unseeing S u (UserService.getUser id actor) := by unfold UserService.getUser; infer_instance

instance {email : Field String} : Unseeing S u (UserService.checkEmail D email actor) := by
  unfold UserService.checkEmail
  cases email <;> infer_instance

theorem updateUser_seen {p : UserUpdate} (id : Uuid) (hactor : IsEmployee u actor) :
    Unseeing S u (UserService.updateUser D c id p actor) := by
  refine ⟨SeenAlike.refuseIf.bind fun _ _ => getUser_seen.bind fun o ho => SeenAlike.orRaise.bind fun v hv =>
    SeenAlike.refuseIf.bind fun _ hstatus => SeenAlike.of_unseeing.bind fun _ _ => ?_⟩
  obtain ⟨-, hrole⟩ := ho v hv
  refine SeenAlike.ofExcept.bind fun v' hsent => flushUser_alike fun hid => ?_
  have hunset : ¬p.isActive.isSet = true := fun hset => hstatus ⟨hset, hactor.not_admin⟩
  rw [UserUpdate.setattrs_of_not_isSet hsent hunset] at hid ⊢
  exact hrole hid

instance {params : PageParams} : Unseeing S u (NotificationService.listForUser D id params) :=
  .select fun d d' h => by simp only [NotificationRepository.listForUserQuery, h.notifications]

instance {n : Notification} : Unseeing S u (Tx.execute fun d =>
    .ok { d with notifications := d.notifications.put n } : App Unit) :=
  notifications_alike (f := fun ns => ns.put n)

instance : Unseeing S u (NotificationService.markRead id taskId) := by
  unfold NotificationService.markRead; infer_instance

instance : Unseeing S u (NotificationService.markAllRead id) :=
  notifications_alike (f := NotificationRepository.readAll id)

/-! Projects. -/

theorem findProject_eq {d d' : Db} (h : DbAlike S u d d') (hopen : ¬S.project projectId) :
    ProjectRepository.find projectId d = ProjectRepository.find projectId d' := by
  refine eq_of_optionRel (h.findProject projectId) fun p q hp hpq => ?_
  obtain ⟨-, -, rfl⟩ := ProjectRepository.find_eq_some.mp hp
  exact hpq.resolve_right fun hidden => hopen hidden.secret

theorem getProject_seen (hopen : ¬S.project projectId) : Unseeing S u (ProjectRepository.get projectId) :=
  .query fun _ _ h => findProject_eq h hopen

theorem listQuery_eq {d d' : Db} {search : Option String} (h : DbAlike S u d d') :
    ProjectRepository.listQuery D (some u) search d = ProjectRepository.listQuery D (some u) search d' := by
  have hmembers := h.member
  rw [h.members] at hmembers
  have hlive : Alike S.HiddenProject (d.projects.rows.filter Project.live) (d'.projects.rows.filter Project.live) :=
    h.projects.filter_alike fun a b hab => by simp only [Project.live, hab.deletedAt]
  simp only [ProjectRepository.listQuery, h.members]
  congr 1
  apply hlive.flatMap
  have hnone : ∀ p : Project, S.project p.id →
      d'.projectMembers.rows.filter (fun m => m.projectId == p.id && m.userId == u) = [] := by
    intro p hp
    simp only [List.filter_eq_nil_iff, Bool.and_eq_true, beq_iff_eq, not_and]
    intro m hm hproject huser
    exact hmembers m hm huser (hproject ▸ hp)
  intro a b hab
  rw [hnone a hab.secret, hnone b (hab.id ▸ hab.secret)]
  exact ⟨rfl, rfl⟩

theorem listProjects_seen (params : PageParams) (hactor : IsEmployee u actor) :
    Unseeing S u (ProjectService.listProjects D actor params) := by
  refine .select fun d d' h => ?_
  simp only [if_neg hactor.not_admin, hactor.1, listQuery_eq h]

theorem getProjectDetail_seen (hopen : ¬S.project projectId) :
    Unseeing S u (ProjectService.getProjectDetail projectId) := by
  have hget : Unseeing S u (ProjectRepository.getWithMembers projectId) := by
    refine .query fun d d' h => ?_
    have hload : d.loadMember = d'.loadMember := by
      funext m
      simp only [Db.loadMember, h.relatedUser]
    rw [findProject_eq h hopen, h.members, hload]
  unfold ProjectService.getProjectDetail
  infer_instance

/-! Tasks. -/

theorem column_eq {d d' : Db} {status : TaskStatus} (h : DbAlike S u d d') (hopen : ¬S.project projectId) :
    TaskRepository.column projectId status d = TaskRepository.column projectId status d' := by
  apply h.taskRows
  intro t ht
  have hne : t.projectId ≠ projectId := fun he => hopen (he ▸ ht)
  simp [hne]

theorem nextPosition_seen (status : TaskStatus) (hopen : ¬S.project projectId) :
    Unseeing S u (Tx.query (TaskRepository.nextPosition projectId status) : App ℚ) :=
  .query fun d d' h => by simp only [TaskRepository.nextPosition, column_eq h hopen]

theorem listForProjectQuery_eq {d d' : Db} {search : Option String} (h : DbAlike S u d d') (hopen : ¬S.project projectId) :
    TaskRepository.listForProjectQuery D projectId search d = TaskRepository.listForProjectQuery D projectId search d' := by
  unfold TaskRepository.listForProjectQuery
  rw [h.taskRows]
  intro t ht
  have hne : t.projectId ≠ projectId := fun he => hopen (he ▸ ht)
  simp [hne]

theorem listForProject_seen (params : PageParams) (hopen : ¬S.project projectId) :
    Unseeing S u (TaskService.listForProject D projectId params) :=
  .select fun d d' h => by simp only [listForProjectQuery_eq h hopen, h.loadTask]

theorem kanbanBoard_seen (hopen : ¬S.project projectId) : Unseeing S u (TaskService.kanbanBoard D projectId) :=
  .query fun d d' h => by simp only [TaskRepository.listForProject, listForProjectQuery_eq h hopen, h.loadTask]

theorem findTask_eq {d d' : Db} (h : DbAlike S u d d') (hopen : ¬S.task id) :
    TaskRepository.find id d = TaskRepository.find id d' := by
  refine eq_of_optionRel (h.findTask id) fun t t' ht htt' => ?_
  obtain ⟨-, -, rfl⟩ := TaskRepository.find_eq_some.mp ht
  exact htt'.resolve_right fun hidden => hopen hidden.secret

theorem reload_seen {t : LoadedTask} (hopen : ¬S.task t.row.id) : Unseeing S u (TaskRepository.reload t) := by
  have hfind : Unseeing S u (Tx.query (TaskRepository.find t.row.id) : App (Option Task)) :=
    .query fun d d' h => findTask_eq h hopen
  unfold TaskRepository.reload
  infer_instance

theorem addTask_seen {t : Task} : SeenAlike S u (fun _ => ¬S.task t.id) (TaskRepository.add D t) := by
  refine .unit (.execute_of (fun _ _ h => insertTask_alike h) fun d d' a h ha hs => ?_)
  obtain ⟨hnew, -⟩ := Db.insertTask_ok ha
  obtain ⟨x, hx, hid⟩ := h.secretTask_mem _ hs
  exact hnew x hx hid

theorem createTask_seen {p : TaskCreate} (actor : User) (hopen : ¬S.project p.projectId) :
    Unseeing S u (TaskService.createTask D c p actor) := by
  have hproject := getProject_seen (S := S) (u := u) hopen
  have hposition := nextPosition_seen (S := S) (u := u) p.status hopen
  refine ⟨SeenAlike.of_unseeing.bind fun _ _ => SeenAlike.orRaise.bind fun project _ =>
    SeenAlike.of_unseeing.bind fun position _ => addTask_seen.bind fun _ hnew => ?_⟩
  have hget : Unseeing S u (TaskRepository.get (newTask D c p position actor).id) :=
    .query fun d d' h => by rw [findTask_eq h hnew, h.loadTask]
  unfold TaskService.notifyAssignment
  exact Blind.agree

theorem flushTask_seen {t : Task} (t' : Task) (hopen : ¬S.task t.id) (hid : t'.id = t.id) (hproject : t'.projectId = t.projectId) :
    SeenAlike S u (fun r => r.id = t.id ∧ r.projectId = t.projectId) (TaskRepository.flush D c t t') := by
  refine .ite (fun _ => .pure ⟨rfl, rfl, rfl⟩) fun _ => .bind (.execute fun d d' h => ?_) fun _ _ _ =>
    .pure ⟨rfl, hid, hproject⟩
  exact putTask_alike (t := TaskRepository.stamped D c t') (fun hs => hopen (hid ▸ hs)) h

theorem updateTask_seen {t : LoadedTask} {p : TaskUpdate} (actor : User) (hopen : ¬S.project t.row.projectId) (htask : ¬S.task t.row.id) :
    Unseeing S u (TaskService.updateTask D c t p actor) := by
  refine ⟨SeenAlike.ofExcept.bind fun t' hsent => ?_⟩
  obtain ⟨hid, hproject, -⟩ := TaskUpdate.setattrs_keeps hsent
  refine (flushTask_seen t' htask hid hproject).bind fun row hrow => ?_
  have hvisible : ¬S.project row.projectId := by
    rw [hrow.2]
    exact hopen
  have hget := getProject_seen (S := S) (u := u) hvisible
  have hreload := reload_seen (S := S) (u := u) (t := ⟨row, t.assignee⟩) (by rw [hrow.1]; exact htask)
  unfold TaskService.notifyAssignment
  exact Blind.agree

theorem updateStatus_seen {t : LoadedTask} {p : TaskStatusUpdate} (hopen : ¬S.project t.row.projectId)
    (htask : ¬S.task t.row.id) : Unseeing S u (TaskService.updateStatus D c t p) := by
  have hposition := nextPosition_seen (S := S) (u := u) p.status hopen
  refine ⟨SeenAlike.of_unseeing.bind fun next _ => ?_⟩
  let moved : Task := { t.row with status := p.status, position := p.position.getD next }
  refine (flushTask_seen moved htask rfl rfl).bind fun row hrow => ?_
  exact (reload_seen (t := ⟨row, t.assignee⟩) (by rw [hrow.1]; exact htask)).agree

theorem deleteTask_seen {t : LoadedTask} (htask : ¬S.task t.row.id) :
    Unseeing S u (TaskService.deleteTask D c t) := by
  let deleted : Task := { t.row with deletedAt := some c.now }
  exact ⟨(flushTask_seen deleted htask rfl rfl).bind fun _ _ => .pure rfl⟩

/-! Comments and files of a visible task. -/

theorem listComments_seen (params : PageParams) (hopen : ¬S.task taskId) :
    Unseeing S u (CommentService.listForTask D taskId params) := by
  refine .select fun d d' h => ?_
  have hrows : CommentRepository.listForTaskQuery D taskId d = CommentRepository.listForTaskQuery D taskId d' := by
    unfold CommentRepository.listForTaskQuery
    rw [h.commentRows]
    intro m hm
    have hne : m.taskId ≠ taskId := fun he => hopen (he ▸ hm)
    simp [hne]
  simp only [hrows, h.loadComment]

theorem createComment_seen {p : CommentPayload} (actor : User) (hopen : ¬S.task taskId) :
    Unseeing S u (CommentService.create D c taskId p actor) := by
  unfold CommentService.create CommentRepository.add CommentRepository.get
  rw [← bind_assoc]
  refine ⟨.bind (Q := Eq) (.execute_bind_query (fun d d' h => insertComment_alike h) fun d a b ha hab => ?_) fun x _ hx => ?_⟩
  · obtain ⟨-, rows, hrows, rfl⟩ := Db.insertComment_ok ha
    have hfind := CommentRepository.find_eq_some (d := { d with comments := rows })
      (m := newComment D c taskId p actor) |>.mpr ⟨by simp [hrows], rfl, rfl⟩
    rw [hab.loadComment, eq_of_optionRel (hab.findComment _) fun m n hm hmn => ?_]
    obtain rfl := Option.some.inj (hfind.symm.trans hm)
    exact hmn.resolve_right fun hidden => hopen hidden.secret
  · rw [hx]
    exact Blind.agree

theorem getComment_seen :
    Agree (DbAlike S u) (BlobsAlike S)
      (fun a b => a.row.taskId = b.row.taskId ∧ (¬S.task a.row.taskId → a = b)) (CommentService.get id)
      (CommentService.get id) := by
  refine Agree.bind (Q := Option.Rel fun a b => a.row.taskId = b.row.taskId ∧ (¬S.task a.row.taskId → a = b))
    (.query fun d d' h => ?_) fun _ _ hab => .orRaise hab
  rw [h.loadComment]
  refine optionRel_map (h.findComment id) fun m n _ hmn => ?_
  rcases hmn with rfl | hidden
  · exact ⟨rfl, fun _ => rfl⟩
  · exact ⟨hidden.taskId, fun hopen => absurd hidden.secret hopen⟩

theorem accessibleComment_seen (hactor : IsEmployee u actor) :
    SeenAlike S u (fun _ => True) (Routes.accessibleComment id actor) := by
  refine getComment_seen.bind fun a b hab => ?_
  obtain ⟨htask, hopen⟩ := hab
  rw [← htask]
  exact (getTaskOf_seen hactor).bind fun _ hvisible => .pure ⟨hopen hvisible, trivial⟩

/-- The services read the comment again; it is the one that was checked. -/
theorem accessibleComment_read_again {β : Type} {k : LoadedComment → App β} :
    (do let _ ← Routes.accessibleComment id actor; let m ← CommentService.get id; k m) =
      (do let m ← Routes.accessibleComment id actor; k m) := by
  unfold Routes.accessibleComment
  simp only [bind_assoc, pure_bind]
  exact Tx.bind_read_again (m := CommentService.get id) (g := fun m => getAccessibleTask m.row.taskId actor)

theorem ownComment_seen {β : Type} {k : LoadedComment → App β} (hactor : IsEmployee u actor)
    (hk : ∀ m, Unseeing S u (k m)) :
    Unseeing S u (do let _ ← Routes.accessibleComment id actor; let m ← CommentService.getOwned id actor; k m) := by
  have hread : Unseeing S u (Routes.accessibleComment id actor) :=
    ⟨(accessibleComment_seen hactor).mono fun _ _ h => h.1⟩
  unfold CommentService.getOwned
  simp only [bind_assoc]
  rw [accessibleComment_read_again]
  infer_instance

theorem updateComment_seen {p : CommentPayload} (id : Uuid) (hactor : IsEmployee u actor) :
    Unseeing S u (do let _ ← Routes.accessibleComment id actor; CommentService.update D c id p actor) := by
  have hflush : ∀ m m', Unseeing S u (CommentRepository.flush D c m m') := fun m m' => ⟨flushComment_alike⟩
  exact ownComment_seen hactor fun m => inferInstance

theorem deleteComment_seen (id : Uuid) (hactor : IsEmployee u actor) :
    Unseeing S u (do let _ ← Routes.accessibleComment id actor; CommentService.delete D c id actor) := by
  have hflush : ∀ m m', Unseeing S u (CommentRepository.flush D c m m') := fun m m' => ⟨flushComment_alike⟩
  unfold CommentService.delete CommentRepository.delete
  exact ownComment_seen hactor fun m => inferInstance

theorem listFiles_seen (hopen : ¬S.task taskId) : Unseeing S u (FileService.listForTask D taskId) := by
  refine .query fun d d' h => ?_
  have hrows : FileRepository.listForTask D taskId d = FileRepository.listForTask D taskId d' := by
    unfold FileRepository.listForTask
    rw [h.fileRows]
    intro f hf
    have hne : f.taskId ≠ taskId := fun he => hopen (he ▸ hf)
    simp [hne]
  simp only [hrows, h.loadFile]

/-- The name an upload draws is taken by a hidden file on both sides or on neither. -/
def EvenNames (S : Secret) (c : Call) : Prop :=
  ∀ name, S.key (keyFor c.fresh.uuid4 name) → S.shared (keyFor c.fresh.uuid4 name)

theorem save_seen {file : UploadFile} (names : EvenNames S c) :
    SeenAlike S u (fun stored => S.key stored.key → S.shared stored.key) (FileService.save D c file) := by
  refine .external fun b b' h => ?_
  obtain ⟨hres, hafter⟩ := save_alike D.backend file D.settings.maxUploadSizeBytes
    (names (textOr file.filename "")) h
  refine ⟨?_, hafter⟩
  rw [← hres]
  rcases hsave : D.backend.save (keyFor c.fresh.uuid4 (textOr file.filename "")) file D.settings.maxUploadSizeBytes b
    with ⟨e | stored, b''⟩
  · exact .error e
  · refine .ok ⟨rfl, ?_⟩
    change S.key stored.key → S.shared stored.key
    rw [Backend.save_key hsave]
    exact names _

theorem upload_seen (file : UploadFile) (actor : User) (names : EvenNames S c) (hopen : ¬S.task taskId) :
    Unseeing S u (FileService.upload D c taskId file actor) := by
  refine ⟨(save_seen names).bind fun stored hstored => ?_⟩
  unfold FileRepository.add FileRepository.get
  rw [← bind_assoc]
  let f := newAttachment D c taskId file stored actor
  refine .bind (Q := Eq) (.execute_bind_query (fun d d' h => insertFile_alike (f := f) hstored h)
    fun d a b ha hab => ?_) fun x _ hx => ?_
  · obtain ⟨-, rows, hrows, rfl⟩ := Db.insertFileAttachment_ok ha
    have hfind := FileRepository.find_eq_some (d := { d with fileAttachments := rows }) (f := f) |>.mpr
      ⟨by simp [hrows, f], rfl⟩
    rw [hab.loadFile, eq_of_optionRel (hab.findFile _) fun g g' hg hgg' => ?_]
    obtain rfl := Option.some.inj (hfind.symm.trans hg)
    exact hgg'.resolve_right fun hidden => hopen hidden.secret
  · rw [hx]
    exact Blind.agree

theorem resolveDownloadPath_seen {f : FileAttachment} (hkey : ¬S.key f.storedFilename) :
    Unseeing S u (FileService.resolveDownloadPath D f) := by
  refine ⟨.bind (Q := Eq) (.external fun b b' h => ⟨.ok ?_, h⟩) fun x _ hx => hx ▸ Blind.agree⟩
  have hbytes := h.same f.storedFilename hkey
  cases D.backend with
  | «local» => exact hbytes
  | s3 => rfl
  | azure => rfl

theorem getAttachment_seen :
    Agree (DbAlike S u) (BlobsAlike S)
      (fun a b => a.row.taskId = b.row.taskId ∧ (¬S.task a.row.taskId → a = b ∧ ¬S.key a.row.storedFilename))
      (FileService.getAttachment id) (FileService.getAttachment id) := by
  refine Agree.bind (Q := Option.Rel fun a b => a.row.taskId = b.row.taskId ∧
    (¬S.task a.row.taskId → a = b ∧ ¬S.key a.row.storedFilename)) (.query fun d d' h => ?_) fun _ _ hab => .orRaise hab
  rw [h.loadFile]
  refine optionRel_map (h.findFile id) fun f g hf hfg => ?_
  rcases hfg with rfl | hidden
  · exact ⟨rfl, fun hopen => ⟨rfl, h.openKey f (FileRepository.find_eq_some.mp hf).1 hopen⟩⟩
  · exact ⟨hidden.taskId, fun hopen => absurd hidden.secret hopen⟩

/-! Reports. -/

theorem liveTasks_eq {d d' : Db} (h : DbAlike S u d d') (hopen : ¬S.project projectId) :
    AnalyticsRepository.liveTasks (some projectId) d = AnalyticsRepository.liveTasks (some projectId) d' := by
  apply h.taskRows
  intro t ht
  have hne : t.projectId ≠ projectId := fun he => hopen (he ▸ ht)
  simp [hne]

theorem projectAnalytics_seen (hopen : ¬S.project projectId) :
    Unseeing S u (AnalyticsService.projectAnalytics c projectId) := by
  refine .query fun d d' h => ?_
  have hlive := liveTasks_eq h hopen
  have htotal : AnalyticsRepository.countTasks (some projectId) d = AnalyticsRepository.countTasks (some projectId) d' :=
    congrArg List.length hlive
  have hdone : AnalyticsRepository.completedCount projectId d = AnalyticsRepository.completedCount projectId d' := by
    unfold AnalyticsRepository.completedCount
    rw [hlive]
  have hmembers : AnalyticsRepository.tasksPerMember projectId d = AnalyticsRepository.tasksPerMember projectId d' := by
    unfold AnalyticsRepository.tasksPerMember
    rw [hlive, h.users]
  have hoverdue : AnalyticsRepository.countOverdue c (some projectId) d = AnalyticsRepository.countOverdue c (some projectId) d' := by
    unfold AnalyticsRepository.countOverdue
    rw [hlive]
  simp only [AnalyticsRepository.tasksByStatus, AnalyticsRepository.tasksByPriority, htotal, hdone, hmembers, hoverdue,
    hlive]

end Services

end ProjectManagement
