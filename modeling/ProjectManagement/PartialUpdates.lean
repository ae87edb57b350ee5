import ProjectManagement.PageWalk
import ProjectManagement.Registration
import ProjectManagement.Served

/-!
Partial updates. A field that is not sent keeps its column; the schemas also let through a `null` for every field, and the
columns behind some of them are `NOT NULL`. PostgreSQL refuses a text with a NUL in it, and the response fails on an account
whose address is none.
-/

namespace ProjectManagement

open Library

inductive PartialUpdate
  | task (id : Uuid) (p : TaskUpdate)
  | project (id : Uuid) (p : ProjectUpdate)
  | user (id : Uuid) (p : UserUpdate)

def PartialUpdate.request : PartialUpdate → Request
  | task id p => .updateTask id p
  | project id p => .updateProject id p
  | user id p => .updateUser id p

/-- A payload that has passed its schema, for a live row, from someone allowed to send it. -/
inductive Sent (E : EmailStr) (c : Call) (d : Db) : PartialUpdate → Prop
  | task {id p actor r} (caller : CurrentUser c d actor) (target : Accessible d actor id r) (accepted : p.errors = []) :
      Sent E c d (.task id p)
  | project {id p actor q} (caller : CurrentUser c d actor) (admin : actor.role = .admin)
      (target : ProjectRepository.find id d = some q) (accepted : p.errors = []) : Sent E c d (.project id p)
  | user {id p actor u} (caller : CurrentUser c d actor)
      (allowed : actor.role = .admin ∨ actor.id = id ∧ p.isActive.isSet = false)
      (target : UserRepository.find id d = some u) (accepted : p.errors = [])
      (email : ∀ e, p.email = .value e → ∃ typed, E.validate typed = .ok e) : Sent E c d (.user id p)

/-! The row after an update: every field that is sent, `null` included, and nothing else. -/

structure TaskUpdate.Stored (p : TaskUpdate) (r r' : Task) : Prop where
  title : some r'.title = p.title.assign (some r.title)
  description : r'.description = p.description.assign r.description
  priority : some r'.priority = p.priority.assign (some r.priority)
  assigneeId : r'.assigneeId = p.assigneeId.assign r.assigneeId
  dueDate : r'.dueDate = p.dueDate.assign r.dueDate
  fits : r'.title.length ≤ 255
  others : r' = { r with
    title := r'.title, description := r'.description, priority := r'.priority, assigneeId := r'.assigneeId,
    dueDate := r'.dueDate, version := r'.version, updatedAt := r'.updatedAt }

structure ProjectUpdate.Stored (p : ProjectUpdate) (q q' : Project) : Prop where
  name : some q'.name = p.name.assign (some q.name)
  description : q'.description = p.description.assign q.description
  status : some q'.status = p.status.assign (some q.status)
  startDate : q'.startDate = p.startDate.assign q.startDate
  endDate : q'.endDate = p.endDate.assign q.endDate
  fits : q'.name.length ≤ 255
  others : q' = { q with
    name := q'.name, description := q'.description, status := q'.status, startDate := q'.startDate, endDate := q'.endDate,
    updatedAt := q'.updatedAt }

structure UserUpdate.Stored (p : UserUpdate) (u u' : User) : Prop where
  email : some u'.email = p.email.assign (some u.email)
  fullName : some u'.fullName = p.fullName.assign (some u.fullName)
  isActive : some u'.isActive = p.isActive.assign (some u.isActive)
  fits : u'.email.length ≤ 255 ∧ u'.fullName.length ≤ 255
  others : u' = { u with email := u'.email, fullName := u'.fullName, isActive := u'.isActive, updatedAt := u'.updatedAt }

def PartialUpdate.Stored (d d' : Db) : PartialUpdate → Prop
  | task id p => ∃ r r', TaskRepository.find id d = some r ∧ TaskRepository.find id d' = some r' ∧ p.Stored r r'
  | project id p => ∃ q q', ProjectRepository.find id d = some q ∧ ProjectRepository.find id d' = some q' ∧ p.Stored q q'
  | user id p => ∃ u u', UserRepository.find id d = some u ∧ UserRepository.find id d' = some u' ∧ p.Stored u u'

def documentedCodes : List ErrorCode := [.duplicateEmail, .forbidden, .notFound, .staleVersion]

def Raised.Documented (e : Raised) : Prop := ∃ code ∈ documentedCodes, e.response.errors.map ErrorDetail.code = [code]

/-- The update is stored, or refused with one of the documented codes. -/
def Applies (E : EmailStr) (D : Deployment) (c : Call) (w : World) (u : PartialUpdate) : Prop :=
  match servedOutcome E D ⟨c, u.request⟩ w with
  | .ok _ => u.Stored w.1 (servedNext E D ⟨c, u.request⟩ w).1
  | .error e => e.Documented

/-- No `null` for a `NOT NULL` column, no assignee that a foreign key refuses, no text the engine does not take; of a user also
the columns that stay. -/
def PartialUpdate.Storable (D : Deployment) (d : Db) : PartialUpdate → Prop
  | task _ p => p.title ≠ .null ∧ p.priority ≠ .null ∧
      (D.engine.enforcesForeignKeys = true → ∀ id, p.assigneeId = .value id → Known d.users id) ∧
      holdsNul D.engine (p.title.sent.toList ++ p.description.sent.toList) = false
  | project _ p => p.name ≠ .null ∧ p.status ≠ .null ∧
      holdsNul D.engine (p.name.sent.toList ++ p.description.sent.toList) = false
  | user id p => ∀ u, UserRepository.find id d = some u → UserService.EmailFree D d p u →
      (p.email ≠ .null ∧ p.fullName ≠ .null ∧ p.isActive ≠ .null) ∧ holdsNul D.engine p.fullName.sent.toList = false ∧
        (p.email = .unset → u.email.length ≤ 255) ∧ (p.fullName = .unset → u.fullName.length ≤ 255)

/-- The addresses the response repeats: the assignee from before, the members, the account that is updated. -/
def PartialUpdate.Shown (E : EmailStr) (D : Deployment) (d : Db) : PartialUpdate → Prop
  | task id _ => ∀ r u, TaskRepository.find id d = some r → r.assigneeId.bind d.relatedUser = some u → E.accepts u.email = true
  | project id _ => ∀ m ∈ d.projectMembers.rows, m.projectId = id → ∀ u, d.relatedUser m.userId = some u →
      E.accepts u.email = true
  | user id p => ∀ u, UserRepository.find id d = some u → UserService.EmailFree D d p u → p.email = .unset →
      E.accepts u.email = true

variable {E : EmailStr} {D : Deployment} {c : Call} {w : World} {id : Uuid} {a : ApiResponse} {actor : User} {d : Db}

theorem Field.some_assignNotNull {α : Type} {f : Field α} (h : f ≠ .null) (old : α) :
    some (f.assignNotNull old) = f.assign (some old) := by
  cases f with
  | unset => rfl
  | null => exact absurd rfl h
  | value a => rfl

theorem integrity_undocumented : ¬Raised.integrity.Documented := by
  rintro ⟨code, hcode, h⟩
  obtain rfl : ErrorCode.conflict = code := by simpa [Raised.response] using h
  exact absurd hcode (by decide)

theorem unexpected_undocumented : ¬Raised.unexpected.Documented := by
  rintro ⟨code, hcode, h⟩
  obtain rfl : ErrorCode.internalError = code := by simpa [Raised.response] using h
  exact absurd hcode (by decide)

theorem applies_of_error {u : PartialUpdate} {e : Raised} (h : outcome D ⟨c, u.request⟩ w = .error e) :
    Applies E D c w u ↔ e.Documented := by
  rw [Applies, (served_of_error h).1]

theorem applies_of_ok {u : PartialUpdate} (ok : outcome D ⟨c, u.request⟩ w = .ok a) : Applies E D c w u ↔
    u.Stored w.1 (next D ⟨c, u.request⟩ w).1 ∧ ∀ v ∈ a.data.accounts, E.accepts v.email = true := by
  cases hshown : a.data.accounts.all (fun v => E.accepts v.email) with
  | false =>
    rw [Applies, (served_of_refused ok hshown).1, ← List.all_eq_true, hshown]
    simp [unexpected_undocumented]
  | true =>
    obtain ⟨data, valid⟩ := Option.isSome_iff_exists.mp (Data.isSome_validated.trans hshown)
    obtain ⟨hok, hnext⟩ := served_of_validated ok valid
    rw [Applies, hok, hnext]
    exact (and_iff_left (List.all_eq_true.mp hshown)).symm

theorem applies_iff_of {u : PartialUpdate}
    (refused : ¬u.Storable D w.1 → ∃ e, outcome D ⟨c, u.request⟩ w = .error e ∧ ¬e.Documented)
    (accepted : u.Storable D w.1 → ∃ a, outcome D ⟨c, u.request⟩ w = .ok a ∧
      u.Stored w.1 (next D ⟨c, u.request⟩ w).1 ∧ ((∀ v ∈ a.data.accounts, E.accepts v.email = true) ↔ u.Shown E D w.1)) :
    Applies E D c w u ↔ u.Storable D w.1 ∧ u.Shown E D w.1 := by
  by_cases storable : u.Storable D w.1
  · obtain ⟨a, ok, stored, shown⟩ := accepted storable
    rw [applies_of_ok ok, shown]
    exact ⟨fun h => ⟨storable, h.2⟩, fun h => ⟨stored, h.2⟩⟩
  · obtain ⟨e, h, undocumented⟩ := refused storable
    rw [applies_of_error h]
    exact ⟨fun documented => absurd documented undocumented, fun h => absurd h.1 storable⟩

/-! Tasks. -/

section Tasks

variable {p : TaskUpdate} {r r' : Task}

theorem TaskUpdate.setattrs_ok (title : p.title ≠ .null) (priority : p.priority ≠ .null) : p.setattrs r = .ok (p.applied r) :=
  setattrs_eq_ok.mpr ⟨⟨title, priority⟩, rfl⟩

theorem TaskUpdate.applied_title (accepted : p.errors = []) (hold : r.title.length ≤ 255) : (p.applied r).title.length ≤ 255 :=
  Field.assignNotNull_length accepted hold

theorem TaskUpdate.applied_stored (title : p.title ≠ .null) (priority : p.priority ≠ .null) (accepted : p.errors = [])
    (hold : r.title.length ≤ 255) : p.Stored r (p.applied r) where
  title := Field.some_assignNotNull title _
  description := rfl
  priority := Field.some_assignNotNull priority _
  assigneeId := rfl
  dueDate := rfl
  fits := applied_title accepted hold
  others := rfl

theorem Field.holdsNul_assignNotNull {engine : Engine} {f : Field String} {old : String} (hold : holdsNul engine [old] = false) :
    holdsNul engine [f.assignNotNull old] = holdsNul engine f.sent.toList := by
  cases f with
  | unset => simpa [assignNotNull, sent, holdsNul] using hold
  | null => simpa [assignNotNull, sent, holdsNul] using hold
  | value s => rfl

theorem Field.holdsNul_assign {engine : Engine} {f : Field String} {old : Option String} (hold : holdsNul engine old.toList = false) :
    holdsNul engine (f.assign old).toList = holdsNul engine f.sent.toList := by
  cases f with
  | unset => simpa [assign, sent, holdsNul] using hold
  | null => rfl
  | value s => rfl

theorem TaskUpdate.applied_texts {engine : Engine} (hold : holdsNul engine r.texts = false) :
    holdsNul engine (p.applied r).texts = false ↔ holdsNul engine (p.title.sent.toList ++ p.description.sent.toList) = false := by
  obtain ⟨htitle, hdescription⟩ := holdsNul_cons.mp hold
  rw [Task.texts, holdsNul_cons, applied, Field.holdsNul_assignNotNull htitle, Field.holdsNul_assign hdescription, holdsNul_append]

theorem TaskUpdate.Stored.flushed (h : p.Stored r r') : p.Stored r (afterFlush (TaskRepository.stamped D c) r r') := by
  rcases afterFlush_cases (TaskRepository.stamped D c) r r' with hrow | hrow
  · rw [hrow]
    exact h
  · rw [hrow]
    exact ⟨h.title, h.description, h.priority, h.assigneeId, h.dueDate, h.fits,
      congrArg (TaskRepository.stamped D c) h.others⟩

theorem TaskRepository.versioned {s : Session Db Blobs} (hr : r ∈ s.working.tasks.rows) (sameId : r'.id = r.id) :
    s.working.tasks.rows.any (fun x => x.id == (stamped D c r').id && x.version == r.version) = true :=
  List.any_eq_true.mpr ⟨r, hr, by simp [stamped, sameId]⟩

theorem TaskRepository.flush_ok {s : Session Db Blobs} (hr : r ∈ s.working.tasks.rows) (sameId : r'.id = r.id)
    (title : r'.title.length ≤ 255) (texts : holdsNul D.engine r'.texts = false)
    (assignee : r'.assigneeId.any (dangling D.engine s.working.users) = false) :
    (TaskRepository.flush D c r r').Succeeds s (afterFlush (stamped D c) r r')
      { s with working := { s.working with tasks := s.working.tasks.put (afterFlush (stamped D c) r r') } } := by
  refine (flush_iff hr).mpr ⟨rfl, fun _ => ⟨_, checked_eq_ok.mpr ⟨?_, rfl⟩⟩, rfl⟩
  simp only [List.forall_mem_cons, List.not_mem_nil, false_imp_iff, implies_true, and_true]
  exact ⟨texts, by rw [versioned hr sameId]; rfl, tooLong_of_le title, assignee⟩

theorem TaskRepository.flush_refused {s : Session Db Blobs} (hr : r ∈ s.working.tasks.rows) (sameId : r'.id = r.id)
    (differs : r' ≠ r) (title : r'.title.length ≤ 255)
    (refused : holdsNul D.engine r'.texts = true ∨ r'.assigneeId.any (dangling D.engine s.working.users) = true) :
    ∃ e, (TaskRepository.flush D c r r').Raises s e s ∧ ¬e.Documented := by
  obtain ⟨e, hput, undocumented⟩ : ∃ e, Db.putTask D.engine r.version (stamped D c r') s.working = .error e ∧ ¬e.Documented := by
    cases hnul : holdsNul D.engine r'.texts with
    | true =>
      have htexts : holdsNul D.engine ([(stamped D c r').title] ++ (stamped D c r').description.toList) = true := hnul
      refine ⟨.unexpected, ?_, unexpected_undocumented⟩
      rw [Db.putTask, checked, htexts]
      rfl
    | false =>
      have htexts : holdsNul D.engine ([(stamped D c r').title] ++ (stamped D c r').description.toList) = false := hnul
      have hlong : tooLong D.engine [(stamped D c r').title] = false := tooLong_of_le title
      have hdangling : (stamped D c r').assigneeId.any (dangling D.engine s.working.users) = true :=
        refused.resolve_left (by simp [hnul])
      refine ⟨.integrity, ?_, integrity_undocumented⟩
      rw [Db.putTask, checked, htexts, versioned hr sameId, hlong, hdangling]
      rfl
  refine ⟨e, ?_, undocumented⟩
  rw [flush, if_neg differs]
  exact (Tx.raises_execute hput).bind

theorem insertNotification_new {n : Notification} (new : ∀ m ∈ d.notifications.rows, m.id ≠ n.id) (title : n.title.length ≤ 255)
    (user : dangling D.engine d.users n.userId = false) :
    ∃ notifications, Db.insertNotification D.engine n d = .ok { d with notifications := notifications } := by
  obtain ⟨notifications, hinsert, -⟩ := Table.insert?_of_new new
  refine ⟨notifications, checked_eq_ok.mpr ⟨?_, congrArg (Option.map _) hinsert⟩⟩
  simp only [List.forall_mem_cons, List.not_mem_nil, false_imp_iff, implies_true, and_true]
  exact ⟨tooLong_of_le title, user⟩

theorem updateTask_raises {e : Raised} (caller : CurrentUser c w.1 actor) (target : Accessible w.1 actor id r)
    (accepted : p.errors = [])
    (raises : (TaskService.updateTask D c (w.1.loadTask r) p actor).Raises ⟨w.1, w.1, w.2⟩ e ⟨w.1, w.1, w.2⟩) :
    outcome D ⟨c, .updateTask id p⟩ w = .error e := by
  have hroute : (handle D c (.updateTask id p)).Raises ⟨w.1, w.1, w.2⟩ e ⟨w.1, w.1, w.2⟩ := by
    refine (Routes.succeeds_accessibleTask.mpr ⟨actor, r, caller, target, rfl, rfl⟩).bind_raises ?_
    refine Tx.Succeeds.bind_raises (a := ()) (succeeds_validated.mpr ⟨accepted, rfl⟩) ?_
    exact raises.bind
  exact congrArg Prod.fst (Tx.run_of_raises hroute)

theorem notifyAssigned_ok {s : Session Db Blobs} {o : Option Uuid} {row : Task}
    (known : ∀ assignee, o = some assignee → dangling D.engine s.working.users assignee = false)
    (new : ∀ n ∈ s.working.notifications.rows, n.id ≠ c.fresh.notificationId) :
    ∃ d', (Tx.forSome o fun assignee => do
        let project ← ProjectRepository.get row.projectId
        TaskService.notifyAssignment D c row assignee ((project.map Project.name).getD "") actor : App Unit).Succeeds s ()
      { s with working := d' } ∧ d'.tasks = s.working.tasks := by
  cases o with
  | none => exact ⟨s.working, Tx.succeeds_forSome.mpr (Or.inl ⟨rfl, rfl⟩), rfl⟩
  | some assignee =>
    let name := ((ProjectRepository.find row.projectId s.working).map Project.name).getD ""
    let event : DomainEvent := .taskAssigned row.id row.title name assignee actor.id
    obtain ⟨notifications, hinsert⟩ : ∃ notifications, Db.insertNotification D.engine (event.notification D c) s.working =
        .ok { s.working with notifications := notifications } := by
      apply insertNotification_new new
      · exact (by decide : "New task assigned".length ≤ 255)
      · exact known assignee rfl
    refine ⟨{ s.working with notifications := notifications }, Tx.succeeds_forSome.mpr (Or.inr ⟨assignee, rfl, ?_⟩), rfl⟩
    refine (ProjectRepository.succeeds_get.mpr ⟨rfl, rfl⟩).bind ?_
    exact EventBus.succeeds_publish.mpr ⟨_, hinsert, rfl⟩

theorem sent_assignee (schema : Schema D w.1) (hr : r ∈ w.1.tasks.rows) :
    (p.assigneeId.assign r.assigneeId).any (dangling D.engine w.1.users) = false ↔
      (D.engine.enforcesForeignKeys = true → ∀ id, p.assigneeId = .value id → Known w.1.users id) := by
  cases hp : p.assigneeId with
  | unset =>
    simp only [Field.assign, reduceCtorEq, false_imp_iff, implies_true, iff_true]
    cases ha : r.assigneeId with
    | none => rfl
    | some id => exact dangling_eq_false.mpr fun fk => schema.assignees fk r hr id ha
  | null => simp [Field.assign]
  | value id =>
    rw [Field.assign, Option.any_some, dangling_eq_false]
    simp

theorem updateTask_ok (schema : Schema D w.1) (caller : CurrentUser c w.1 actor) (target : Accessible w.1 actor id r)
    (accepted : p.errors = []) (new : ∀ n ∈ w.1.notifications.rows, n.id ≠ c.fresh.notificationId)
    (storable : (PartialUpdate.task id p).Storable D w.1) : ∃ a, outcome D ⟨c, .updateTask id p⟩ w = .ok a ∧
      a.data.accounts = ((r.assigneeId.bind w.1.relatedUser).map UserOut.modelValidate).toList := by
  obtain ⟨title, priority, assignee, texts⟩ := storable
  have sent : p.setattrs r = .ok (p.applied r) := TaskUpdate.setattrs_ok title priority
  have hassignee : (p.applied r).assigneeId.any (dangling D.engine w.1.users) = false :=
    (sent_assignee schema target.mem).mpr assignee
  have htitle : (p.applied r).title.length ≤ 255 := TaskUpdate.applied_title accepted (schema.titles r target.mem)
  have htexts : holdsNul D.engine (p.applied r).texts = false :=
    (TaskUpdate.applied_texts (schema.taskTexts r target.mem)).mpr texts
  generalize p.applied r = r' at sent hassignee htitle htexts
  obtain ⟨hid, -, -, hdeleted, -⟩ := TaskUpdate.setattrs_keeps sent
  have hflush : (TaskRepository.flush D c r r').Succeeds ⟨w.1, w.1, w.2⟩ _ _ :=
    TaskRepository.flush_ok target.mem hid htitle htexts hassignee
  have hrow : (afterFlush (TaskRepository.stamped D c) r r').assigneeId = r'.assigneeId := TaskRepository.afterFlush_assigneeId
  have hfind : ∀ d' : Db, d'.tasks = w.1.tasks.put (afterFlush (TaskRepository.stamped D c) r r') →
      TaskRepository.find (afterFlush (TaskRepository.stamped D c) r r').id d' =
        some (afterFlush (TaskRepository.stamped D c) r r') := by
    intro d' hd'
    rw [TaskRepository.afterFlush_id hid, target.id_eq]
    exact TaskRepository.find_flushed target.found hid (congrArg Option.isNone hdeleted) hd'
  generalize afterFlush (TaskRepository.stamped D c) r r' = row at hflush hrow hfind
  have hknown : ∀ assignee, notifiedAssignee p.assigneeId.isSet r.assigneeId row.assigneeId actor = some assignee →
      dangling D.engine w.1.users assignee = false := by
    intro assignee hnotified
    unfold notifiedAssignee at hnotified
    split at hnotified
    · rw [hrow] at hnotified
      rw [hnotified] at hassignee
      exact hassignee
    · simp at hnotified
  let flushed : Session Db Blobs := ⟨w.1, { w.1 with tasks := w.1.tasks.put row }, w.2⟩
  obtain ⟨d', hnotify, htasks⟩ := @notifyAssigned_ok D c actor flushed _ row hknown new
  have hreload : (TaskRepository.reload ⟨row, (w.1.loadTask r).assignee⟩).Succeeds ⟨w.1, d', w.2⟩ _ _ :=
    TaskRepository.succeeds_reload.mpr ⟨row, hfind d' htasks, rfl, rfl⟩
  have hservice : (TaskService.updateTask D c (w.1.loadTask r) p actor).Succeeds ⟨w.1, w.1, w.2⟩ _ ⟨w.1, d', w.2⟩ :=
    (Tx.succeeds_ofExcept.mpr ⟨sent, rfl⟩).bind (hflush.bind (hnotify.bind hreload))
  have hroute : (handle D c (.updateTask id p)).Succeeds ⟨w.1, w.1, w.2⟩ _ ⟨w.1, d', w.2⟩ :=
    (Routes.succeeds_accessibleTask.mpr ⟨actor, r, caller, target, rfl, rfl⟩).bind
      (Tx.Succeeds.seq (succeeds_validated.mpr ⟨accepted, rfl⟩)
      (hservice.bind (Tx.succeeds_pure.mpr ⟨rfl, rfl⟩)))
  exact ⟨_, congrArg Prod.fst (Tx.run_of_succeeds hroute), rfl⟩

theorem updateTask_refused (schema : Schema D w.1) (caller : CurrentUser c w.1 actor) (target : Accessible w.1 actor id r)
    (accepted : p.errors = []) (unfit : ¬(PartialUpdate.task id p).Storable D w.1) :
    ∃ e, outcome D ⟨c, .updateTask id p⟩ w = .error e ∧ ¬e.Documented := by
  by_cases hnull : p.title = .null ∨ p.priority = .null
  · refine ⟨.integrity, updateTask_raises caller target accepted ?_, integrity_undocumented⟩
    rw [TaskService.updateTask, Db.loadTask_row, TaskUpdate.setattrs_error hnull]
    exact Tx.raises_ofExcept.bind
  · obtain ⟨title, priority⟩ := not_or.mp hnull
    have sent : p.setattrs r = .ok (p.applied r) := TaskUpdate.setattrs_ok title priority
    have hold : holdsNul D.engine r.texts = false := schema.taskTexts r target.mem
    have hkept : r.assigneeId.any (dangling D.engine w.1.users) = false :=
      (sent_assignee (p := {}) schema target.mem).mpr (by simp)
    have hunfit : holdsNul D.engine (p.applied r).texts = true ∨
        (p.assigneeId.assign r.assigneeId).any (dangling D.engine w.1.users) = true := by
      by_contra hfits
      simp only [not_or, Bool.not_eq_true] at hfits
      have htexts := (TaskUpdate.applied_texts hold).mp hfits.1
      exact unfit ⟨title, priority, (sent_assignee schema target.mem).mp hfits.2, htexts⟩
    -- the row that is stored has neither a text nor an assignee that is refused
    have differs : p.applied r ≠ r := by
      intro hsame
      have hassignee : p.assigneeId.assign r.assigneeId = r.assigneeId := congrArg Task.assigneeId hsame
      rw [hsame, hassignee, hold, hkept] at hunfit
      simp at hunfit
    have htitle : (p.applied r).title.length ≤ 255 := TaskUpdate.applied_title accepted (schema.titles r target.mem)
    obtain ⟨e, raises, undocumented⟩ :=
      @TaskRepository.flush_refused D c r (p.applied r) ⟨w.1, w.1, w.2⟩ target.mem rfl differs htitle hunfit
    refine ⟨e, updateTask_raises caller target accepted ?_, undocumented⟩
    exact Tx.Succeeds.bind_raises (Tx.succeeds_ofExcept.mpr ⟨sent, rfl⟩) raises.bind

theorem updateTask_stored (schema : Schema D w.1) (storable : (PartialUpdate.task id p).Storable D w.1)
    (ok : outcome D ⟨c, .updateTask id p⟩ w = .ok a) :
    (PartialUpdate.task id p).Stored w.1 (next D ⟨c, .updateTask id p⟩ w).1 := by
  obtain ⟨title, priority, -⟩ := storable
  have effect := step_effect D ⟨c, .updateTask id p⟩ w
  rw [ok] at effect
  generalize next D ⟨c, .updateTask id p⟩ w = w' at effect
  cases effect with
  | answered reads => simp [Request.reads] at reads
  | @taskUpdated c d b a id p actor r r' notifications caller task errors sent notified =>
    obtain ⟨-, rfl⟩ := TaskUpdate.setattrs_eq_ok.mp sent
    refine ⟨r, _, task.found, TaskRepository.find_flushed task.found ?_ ?_ rfl, ?_⟩
    · rfl
    · rfl
    · exact (TaskUpdate.applied_stored title priority errors (schema.titles r task.mem)).flushed

end Tasks

/-! Projects. -/

section Projects

variable {p : ProjectUpdate} {q q' : Project}

theorem ProjectUpdate.setattrs_ok (name : p.name ≠ .null) (status : p.status ≠ .null) : p.setattrs q = .ok (p.applied q) :=
  setattrs_eq_ok.mpr ⟨⟨name, status⟩, rfl⟩

theorem ProjectUpdate.applied_name (accepted : p.errors = []) (hold : q.name.length ≤ 255) : (p.applied q).name.length ≤ 255 :=
  Field.assignNotNull_length accepted hold

theorem ProjectUpdate.applied_stored (name : p.name ≠ .null) (status : p.status ≠ .null) (accepted : p.errors = [])
    (hold : q.name.length ≤ 255) : p.Stored q (p.applied q) where
  name := Field.some_assignNotNull name _
  description := rfl
  status := Field.some_assignNotNull status _
  startDate := rfl
  endDate := rfl
  fits := applied_name accepted hold
  others := rfl

theorem ProjectUpdate.applied_texts {engine : Engine} (hold : holdsNul engine q.texts = false) :
    holdsNul engine (p.applied q).texts = false ↔ holdsNul engine (p.name.sent.toList ++ p.description.sent.toList) = false := by
  obtain ⟨hname, hdescription⟩ := holdsNul_cons.mp hold
  rw [Project.texts, holdsNul_cons, applied, Field.holdsNul_assignNotNull hname, Field.holdsNul_assign hdescription, holdsNul_append]

theorem ProjectUpdate.Stored.flushed (h : p.Stored q q') : p.Stored q (afterFlush (ProjectRepository.stamped D c) q q') := by
  rcases afterFlush_cases (ProjectRepository.stamped D c) q q' with hrow | hrow
  · rw [hrow]
    exact h
  · rw [hrow]
    exact ⟨h.name, h.description, h.status, h.startDate, h.endDate, h.fits, congrArg (ProjectRepository.stamped D c) h.others⟩

theorem ProjectRepository.flush_ok {s : Session Db Blobs} (hq : q ∈ s.working.projects.rows) (name : q'.name.length ≤ 255)
    (texts : holdsNul D.engine q'.texts = false) :
    (ProjectRepository.flush D c q q').Succeeds s (afterFlush (stamped D c) q q')
      { s with working := { s.working with projects := s.working.projects.put (afterFlush (stamped D c) q q') } } := by
  refine (flush_iff hq).mpr ⟨rfl, fun _ => ⟨_, checked_eq_ok.mpr ⟨?_, rfl⟩⟩, rfl⟩
  simp only [List.forall_mem_cons, List.not_mem_nil, false_imp_iff, implies_true, and_true]
  exact unstorable_of_le name texts

theorem ProjectRepository.flush_refused {s : Session Db Blobs} (differs : q' ≠ q) (texts : holdsNul D.engine q'.texts = true) :
    (ProjectRepository.flush D c q q').Raises s .unexpected s := by
  have hput : Db.putProject D.engine (stamped D c q') s.working = .error .unexpected := by
    have hunstorable : unstorable D.engine [(stamped D c q').name] (stamped D c q').description.toList = true := by
      rw [unstorable, show holdsNul D.engine ([(stamped D c q').name] ++ (stamped D c q').description.toList) = true from texts,
        Bool.or_true]
    rw [Db.putProject, checked, hunstorable]
    rfl
  rw [flush, if_neg differs]
  exact (Tx.raises_execute hput).bind

theorem exists_memberOuts {rows : List ProjectMember} (known : ∀ m ∈ rows, Known d.users m.userId) :
    ∃ outs, (rows.map d.loadMember).mapM MemberOut.modelValidate = some outs := by
  apply exists_mapM
  intro l hl
  obtain ⟨m, hm, rfl⟩ := List.mem_map.mp hl
  obtain ⟨u, hu, hid⟩ := known m hm
  have hrelated : d.relatedUser m.userId = some u := Table.find?_key_eq_some.mpr ⟨hu, hid⟩
  exact ⟨⟨m.id, m.userId, m.role, UserOut.modelValidate u⟩, by rw [MemberOut.modelValidate, Db.loadMember, hrelated]; rfl⟩

theorem memberOuts_users {rows : List ProjectMember} {outs : List MemberOut} {P : String → Prop}
    (h : (rows.map d.loadMember).mapM MemberOut.modelValidate = some outs) :
    (∀ v ∈ outs.map MemberOut.user, P v.email) ↔ ∀ m ∈ rows, ∀ u, d.relatedUser m.userId = some u → P u.email := by
  have houts := mapM_eq_some.mp h
  have hmem : ∀ o, o ∈ outs ↔ ∃ m ∈ rows, MemberOut.modelValidate (d.loadMember m) = some o := by
    intro o
    rw [← List.mem_map_of_injective (Option.some_injective MemberOut), ← houts]
    simp
  constructor
  · intro hall m hm u hu
    have ho : (⟨m.id, m.userId, m.role, UserOut.modelValidate u⟩ : MemberOut) ∈ outs :=
      (hmem _).mpr ⟨m, hm, by rw [MemberOut.modelValidate, Db.loadMember, hu]; rfl⟩
    exact hall _ (List.mem_map_of_mem ho)
  · intro hall v hv
    obtain ⟨o, ho, rfl⟩ := List.mem_map.mp hv
    obtain ⟨m, hm, hout⟩ := (hmem o).mp ho
    obtain ⟨u, hu, rfl⟩ := Option.map_eq_some_iff.mp hout
    exact hall m hm u hu

theorem updateProject_ok (schema : Schema D w.1) (caller : CurrentUser c w.1 actor) (admin : actor.role = .admin)
    (target : ProjectRepository.find id w.1 = some q) (accepted : p.errors = [])
    (storable : (PartialUpdate.project id p).Storable D w.1) : ∃ a, outcome D ⟨c, .updateProject id p⟩ w = .ok a ∧
      ((∀ v ∈ a.data.accounts, E.accepts v.email = true) ↔ (PartialUpdate.project id p).Shown E D w.1) := by
  obtain ⟨name, status, texts⟩ := storable
  obtain ⟨hq, -, -⟩ := ProjectRepository.find_eq_some.mp target
  have sent : p.setattrs q = .ok (p.applied q) := ProjectUpdate.setattrs_ok name status
  have hlength : (p.applied q).name.length ≤ 255 := ProjectUpdate.applied_name accepted (schema.names q hq)
  have htexts : holdsNul D.engine (p.applied q).texts = false :=
    (ProjectUpdate.applied_texts (schema.projectTexts q hq)).mpr texts
  generalize p.applied q = q' at sent hlength htexts
  obtain ⟨hid, hlive⟩ := ProjectUpdate.setattrs_keeps sent
  have hflush : (ProjectRepository.flush D c q q').Succeeds ⟨w.1, w.1, w.2⟩ _ _ :=
    ProjectRepository.flush_ok hq hlength htexts
  have hfind : ProjectRepository.find id
      { w.1 with projects := w.1.projects.put (afterFlush (ProjectRepository.stamped D c) q q') } =
        some (afterFlush (ProjectRepository.stamped D c) q q') := ProjectRepository.find_flushed target hid hlive rfl
  have hrow : (afterFlush (ProjectRepository.stamped D c) q q').id = id := (ProjectRepository.find_eq_some.mp hfind).2.2
  generalize afterFlush (ProjectRepository.stamped D c) q q' = row at hflush hfind hrow
  let d' : Db := { w.1 with projects := w.1.projects.put row }
  have hknown : ∀ m ∈ d'.projectMembers.rows.filter (fun m => m.projectId == row.id), Known d'.users m.userId :=
    fun m hm => schema.members m (List.mem_filter.mp hm).1
  obtain ⟨outs, houts⟩ := exists_memberOuts hknown
  have hdetail : (ProjectService.getProjectDetail id).Succeeds ⟨w.1, d', w.2⟩ _ ⟨w.1, d', w.2⟩ :=
    (Tx.succeeds_query.mpr ⟨rfl, rfl⟩).bind
      (Tx.succeeds_orRaise.mpr ⟨Option.map_eq_some_iff.mpr ⟨row, hfind, rfl⟩, rfl⟩)
  let members := (d'.projectMembers.rows.filter (fun m => m.projectId == row.id)).map d'.loadMember
  have hservice : (ProjectService.updateProject D c id p).Succeeds ⟨w.1, w.1, w.2⟩ (row, members) ⟨w.1, d', w.2⟩ := by
    refine (ProjectRepository.succeeds_get.mpr ⟨rfl, rfl⟩).bind ?_
    refine (Tx.succeeds_orRaise.mpr ⟨target, rfl⟩).bind ?_
    refine (Tx.succeeds_ofExcept.mpr ⟨sent, rfl⟩).bind ?_
    exact hflush.bind hdetail
  have hroute : (handle D c (.updateProject id p)).Succeeds ⟨w.1, w.1, w.2⟩ _ ⟨w.1, d', w.2⟩ :=
    (succeeds_getCurrentUser.mpr ⟨caller, rfl⟩).bind
      (Tx.Succeeds.seq (succeeds_requireAdmin.mpr ⟨admin, rfl⟩)
      (Tx.Succeeds.seq (succeeds_validated.mpr ⟨accepted, rfl⟩)
      (hservice.bind
      ((Tx.succeeds_orRaise.mpr ⟨houts, rfl⟩).bind
      (Tx.succeeds_pure.mpr ⟨rfl, rfl⟩)))))
  have husers := memberOuts_users (P := fun email => E.accepts email = true) houts
  refine ⟨_, congrArg Prod.fst (Tx.run_of_succeeds hroute), husers.trans ?_⟩
  simp only [List.mem_filter, and_imp, beq_iff_eq, hrow]
  rfl

theorem updateProject_raises {e : Raised} (caller : CurrentUser c w.1 actor) (admin : actor.role = .admin) (accepted : p.errors = [])
    (raises : (ProjectService.updateProject D c id p).Raises ⟨w.1, w.1, w.2⟩ e ⟨w.1, w.1, w.2⟩) :
    outcome D ⟨c, .updateProject id p⟩ w = .error e := by
  have hroute : (handle D c (.updateProject id p)).Raises ⟨w.1, w.1, w.2⟩ e ⟨w.1, w.1, w.2⟩ := by
    refine (succeeds_getCurrentUser.mpr ⟨caller, rfl⟩).bind_raises ?_
    refine Tx.Succeeds.bind_raises (a := ()) (succeeds_requireAdmin.mpr ⟨admin, rfl⟩) ?_
    refine Tx.Succeeds.bind_raises (a := ()) (succeeds_validated.mpr ⟨accepted, rfl⟩) ?_
    exact raises.bind
  exact congrArg Prod.fst (Tx.run_of_raises hroute)

theorem updateProject_refused (schema : Schema D w.1) (caller : CurrentUser c w.1 actor) (admin : actor.role = .admin)
    (target : ProjectRepository.find id w.1 = some q) (accepted : p.errors = [])
    (unfit : ¬(PartialUpdate.project id p).Storable D w.1) :
    ∃ e, outcome D ⟨c, .updateProject id p⟩ w = .error e ∧ ¬e.Documented := by
  by_cases hnull : p.name = .null ∨ p.status = .null
  · refine ⟨.integrity, updateProject_raises caller admin accepted ?_, integrity_undocumented⟩
    refine (ProjectRepository.succeeds_get.mpr ⟨rfl, rfl⟩).bind_raises ?_
    refine (Tx.succeeds_orRaise.mpr ⟨target, rfl⟩).bind_raises ?_
    rw [ProjectUpdate.setattrs_error hnull]
    exact Tx.raises_ofExcept.bind
  · obtain ⟨name, status⟩ := not_or.mp hnull
    have hold : holdsNul D.engine q.texts = false := schema.projectTexts q (ProjectRepository.find_eq_some.mp target).1
    have htexts : holdsNul D.engine (p.applied q).texts = true := by
      by_contra hfits
      exact unfit ⟨name, status, (ProjectUpdate.applied_texts hold).mp (Bool.not_eq_true _ ▸ hfits)⟩
    have differs : p.applied q ≠ q := by
      intro hsame
      rw [hsame, hold] at htexts
      exact absurd htexts (by decide)
    refine ⟨.unexpected, updateProject_raises caller admin accepted ?_, unexpected_undocumented⟩
    refine (ProjectRepository.succeeds_get.mpr ⟨rfl, rfl⟩).bind_raises ?_
    refine (Tx.succeeds_orRaise.mpr ⟨target, rfl⟩).bind_raises ?_
    refine (Tx.succeeds_ofExcept.mpr ⟨ProjectUpdate.setattrs_ok name status, rfl⟩).bind_raises ?_
    exact (ProjectRepository.flush_refused differs htexts).bind

theorem updateProject_stored (schema : Schema D w.1) (storable : (PartialUpdate.project id p).Storable D w.1)
    (ok : outcome D ⟨c, .updateProject id p⟩ w = .ok a) :
    (PartialUpdate.project id p).Stored w.1 (next D ⟨c, .updateProject id p⟩ w).1 := by
  obtain ⟨name, status, -⟩ := storable
  have effect := step_effect D ⟨c, .updateProject id p⟩ w
  rw [ok] at effect
  generalize next D ⟨c, .updateProject id p⟩ w = w' at effect
  cases effect with
  | answered reads => simp [Request.reads] at reads
  | @projectUpdated c d b a id p actor q q' caller admin errors found sent =>
    obtain ⟨-, rfl⟩ := ProjectUpdate.setattrs_eq_ok.mp sent
    have hold := schema.names q (ProjectRepository.find_eq_some.mp found).1
    refine ⟨q, _, found, ProjectRepository.find_flushed found ?_ ?_ rfl, ?_⟩
    · rfl
    · rfl
    · exact (ProjectUpdate.applied_stored name status errors hold).flushed

end Projects

/-! Users. -/

section Users

variable {p : UserUpdate} {u v : User}

theorem UserUpdate.setattrs_ok (notNull : p.email ≠ .null ∧ p.fullName ≠ .null ∧ p.isActive ≠ .null) :
    p.setattrs u = .ok (p.applied u) := setattrs_eq_ok.mpr ⟨notNull, rfl⟩

theorem UserUpdate.Stored.flushed (h : p.Stored u v) : p.Stored u (afterFlush (UserRepository.stamped D c) u v) := by
  rcases afterFlush_cases (UserRepository.stamped D c) u v with hrow | hrow
  · rw [hrow]
    exact h
  · rw [hrow]
    exact ⟨h.email, h.fullName, h.isActive, h.fits, congrArg (UserRepository.stamped D c) h.others⟩

theorem Field.length_iff {f : Field String} {old : String} (h : f ≠ .null) (sent : ∀ s, f = .value s → s.length ≤ 255) :
    (f.assignNotNull old).length ≤ 255 ↔ (f = .unset → old.length ≤ 255) := by
  cases f with
  | unset => simp [assignNotNull]
  | null => exact absurd rfl h
  | value s => simpa [assignNotNull] using sent s rfl

theorem Field.unstorable_assignNotNull {engine : Engine} {f : Field String} {old : String}
    (hold : unstorable engine [old] [] = false) (sent : ∀ s, f = .value s → unstorable engine [s] [] = false) :
    unstorable engine [f.assignNotNull old] [] = false := by
  cases f with
  | unset => exact hold
  | null => exact hold
  | value s => exact sent s rfl

theorem EmailStr.storable {typed address : String} {engine : Engine} (h : E.validate typed = .ok address) :
    unstorable engine [address] [] = false := by
  apply unstorable_of_le ((E.bounded typed address h).trans (by decide))
  simp [holdsNul, E.printable typed address h]

theorem emailTaken_of_free (sound : Indexed.Sound D d.users) (found : u ∈ d.users.rows) (live : u.live = true)
    (sameId : v.id = u.id) (free : v.email ≠ u.email → Indexed.Free v.email d.users) : d.emailTaken v = false := by
  by_cases hsame : v.email = u.email
  · simp only [Db.emailTaken, Bool.and_eq_false_iff, List.any_eq_false]
    refine Or.inr fun x hx => ?_
    simp only [Bool.and_eq_true, beq_iff_eq, bne_iff_ne, ne_eq, not_and, not_not, and_imp]
    intro hlive hemail
    rw [sound.distinct x hx hlive u found live (hemail.trans hsame), sameId]
  · exact Indexed.not_emailTaken (free hsame)

theorem UserRepository.flush_ok {s : Session Db Blobs} (hu : u ∈ s.working.users.rows) (fits : Indexed.Fits D v)
    (free : s.working.emailTaken v = false) :
    (UserRepository.flush D c u v).Succeeds s (afterFlush (stamped D c) u v)
      { s with working := { s.working with users := s.working.users.put (afterFlush (stamped D c) u v) } } := by
  refine (flush_iff hu).mpr ⟨rfl, fun _ => ⟨_, checked_eq_ok.mpr ⟨?_, rfl⟩⟩, rfl⟩
  simp only [List.forall_mem_cons, List.not_mem_nil, false_imp_iff, implies_true, and_true]
  exact ⟨fits, free⟩

theorem UserRepository.flush_refused {s : Session Db Blobs} (differs : v ≠ u) (text : holdsNul D.engine [v.fullName] = true) :
    (UserRepository.flush D c u v).Raises s .unexpected s := by
  have hput : Db.putUser D.engine (stamped D c v) s.working = .error .unexpected := by
    have hunstorable : unstorable D.engine [(stamped D c v).email, (stamped D c v).fullName] [] = true := by
      by_contra hfits
      have hname := (unstorable_cons.mp (Bool.not_eq_true _ ▸ hfits)).2
      exact absurd ((unstorable_eq_false.mp hname).2.symm.trans text) (by decide)
    rw [Db.putUser, checked, hunstorable]
    rfl
  rw [flush, flushWith, if_neg differs]
  exact (Tx.raises_execute hput).bind

/-- The checks before the email is looked up, passed. -/
structure Admitted (c : Call) (d : Db) (id : Uuid) (p : UserUpdate) (actor u : User) : Prop where
  caller : CurrentUser c d actor
  allowed : actor.role = .admin ∨ actor.id = id
  status : ¬(p.isActive.isSet = true ∧ actor.role ≠ .admin)
  target : UserRepository.find id d = some u
  accepted : p.errors = []

theorem Admitted.fullName_length (admitted : Admitted c d id p actor u) : ∀ s, p.fullName = .value s → s.length ≤ 255 := by
  intro s hs
  have hchecked := admitted.accepted
  rw [UserUpdate.errors, hs] at hchecked
  exact (stringLength_eq_nil.mp hchecked).2

theorem Admitted.raises {e : Raised} (admitted : Admitted c w.1 id p actor u)
    (h : (do
      UserService.checkEmail D p.email u
      let changed ← Tx.ofExcept (p.setattrs u)
      UserRepository.flush D c u changed : App User).Raises ⟨w.1, w.1, w.2⟩ e ⟨w.1, w.1, w.2⟩) :
    outcome D ⟨c, .updateUser id p⟩ w = .error e := by
  have hservice : (UserService.updateUser D c id p actor).Raises ⟨w.1, w.1, w.2⟩ e ⟨w.1, w.1, w.2⟩ := by
    refine Tx.Succeeds.bind_raises (a := ())
      (Tx.succeeds_refuseIf.mpr ⟨by simpa [or_iff_not_imp_left] using admitted.allowed, rfl⟩) ?_
    refine (UserRepository.succeeds_get.mpr ⟨rfl, rfl⟩).bind_raises ?_
    refine (Tx.succeeds_orRaise.mpr ⟨admitted.target, rfl⟩).bind_raises ?_
    exact Tx.Succeeds.bind_raises (a := ()) (Tx.succeeds_refuseIf.mpr ⟨admitted.status, rfl⟩) h
  have hroute : (handle D c (.updateUser id p)).Raises ⟨w.1, w.1, w.2⟩ e ⟨w.1, w.1, w.2⟩ := by
    refine (succeeds_getCurrentUser.mpr ⟨admitted.caller, rfl⟩).bind_raises ?_
    refine Tx.Succeeds.bind_raises (a := ()) (succeeds_validated.mpr ⟨admitted.accepted, rfl⟩) ?_
    exact hservice.bind
  exact congrArg Prod.fst (Tx.run_of_raises hroute)

theorem Admitted.duplicate (admitted : Admitted c w.1 id p actor u) (sound : Indexed.Sound D w.1.users)
    (email : ∀ e, p.email = .value e → unstorable D.engine [e] [] = false) (taken : ¬UserService.EmailFree D w.1 p u) :
    outcome D ⟨c, .updateUser id p⟩ w = .error Indexed.emailTaken := by
  simp only [UserService.EmailFree, not_forall] at taken
  obtain ⟨e, hsent, hdiffers, hfound⟩ := taken
  rcases sound.withEmail_cases e with hfree | ⟨v, hv⟩
  · exact absurd (Indexed.oneWithEmail_of_free (email e hsent) hfree) hfound
  · apply admitted.raises
    rw [hsent]
    exact (Indexed.raises_checkEmail hdiffers hv).bind

theorem Admitted.integrity (admitted : Admitted c w.1 id p actor u) (free : UserService.EmailFree D w.1 p u)
    (hnull : ¬(p.email ≠ .null ∧ p.fullName ≠ .null ∧ p.isActive ≠ .null)) :
    outcome D ⟨c, .updateUser id p⟩ w = .error .integrity := by
  apply admitted.raises
  refine Tx.Succeeds.bind_raises (a := ()) (UserService.succeeds_checkEmail.mpr ⟨free, rfl⟩) ?_
  rw [UserUpdate.setattrs_error hnull]
  exact Tx.raises_ofExcept.bind

theorem Admitted.unexpected (admitted : Admitted c w.1 id p actor u) (sound : Indexed.Sound D w.1.users)
    (free : UserService.EmailFree D w.1 p u) (notNull : p.email ≠ .null ∧ p.fullName ≠ .null ∧ p.isActive ≠ .null)
    (text : holdsNul D.engine p.fullName.sent.toList = true) : outcome D ⟨c, .updateUser id p⟩ w = .error .unexpected := by
  have hold : holdsNul D.engine [u.fullName] = false :=
    Indexed.holdsNul_of_fits (unstorable_cons.mp (sound.fits u (UserRepository.find_eq_some.mp admitted.target).1)).2
  have hname : holdsNul D.engine [(p.applied u).fullName] = true := (Field.holdsNul_assignNotNull hold).trans text
  have differs : p.applied u ≠ u := by
    intro hsame
    rw [hsame, hold] at hname
    exact absurd hname (by decide)
  apply admitted.raises
  refine Tx.Succeeds.bind_raises (a := ()) (UserService.succeeds_checkEmail.mpr ⟨free, rfl⟩) ?_
  refine (Tx.succeeds_ofExcept.mpr ⟨UserUpdate.setattrs_ok notNull, rfl⟩).bind_raises ?_
  exact UserRepository.flush_refused differs hname

theorem Admitted.stores (admitted : Admitted c w.1 id p actor u) (sound : Indexed.Sound D w.1.users)
    (free : UserService.EmailFree D w.1 p u) (email : ∀ e, p.email = .value e → unstorable D.engine [e] [] = false)
    (notNull : p.email ≠ .null ∧ p.fullName ≠ .null ∧ p.isActive ≠ .null)
    (text : holdsNul D.engine p.fullName.sent.toList = false) :
    ∃ a, outcome D ⟨c, .updateUser id p⟩ w = .ok a ∧
      UserRepository.find id (next D ⟨c, .updateUser id p⟩ w).1 =
        some (afterFlush (UserRepository.stamped D c) u (p.applied u)) ∧
      a.data.accounts = [UserOut.modelValidate (afterFlush (UserRepository.stamped D c) u (p.applied u))] := by
  obtain ⟨hu, live, -⟩ := UserRepository.find_eq_some.mp admitted.target
  obtain ⟨hemail, hname⟩ := unstorable_cons.mp (sound.fits u hu)
  have sent : p.setattrs u = .ok (p.applied u) := UserUpdate.setattrs_ok notNull
  have hfullName : ∀ s, p.fullName = .value s → unstorable D.engine [s] [] = false := by
    intro s hs
    rw [hs] at text
    exact unstorable_of_le (admitted.fullName_length s hs) text
  have hfits : Indexed.Fits D (p.applied u) := unstorable_cons.mpr
    ⟨Field.unstorable_assignNotNull hemail email, Field.unstorable_assignNotNull hname hfullName⟩
  have hflush : (UserRepository.flush D c u (p.applied u)).Succeeds ⟨w.1, w.1, w.2⟩ _ _ :=
    UserRepository.flush_ok hu hfits (emailTaken_of_free sound hu live rfl (Indexed.setattrs_free sent free))
  let row := afterFlush (UserRepository.stamped D c) u (p.applied u)
  let d' : Db := { w.1 with users := w.1.users.put row }
  have hservice : (UserService.updateUser D c id p actor).Succeeds ⟨w.1, w.1, w.2⟩ row ⟨w.1, d', w.2⟩ := by
    refine Tx.Succeeds.seq
      (Tx.succeeds_refuseIf.mpr ⟨by simpa [or_iff_not_imp_left] using admitted.allowed, rfl⟩) ?_
    refine (UserRepository.succeeds_get.mpr ⟨rfl, rfl⟩).bind ?_
    refine (Tx.succeeds_orRaise.mpr ⟨admitted.target, rfl⟩).bind ?_
    refine Tx.Succeeds.seq (Tx.succeeds_refuseIf.mpr ⟨admitted.status, rfl⟩) ?_
    refine Tx.Succeeds.seq (UserService.succeeds_checkEmail.mpr ⟨free, rfl⟩) ?_
    exact (Tx.succeeds_ofExcept.mpr ⟨sent, rfl⟩).bind hflush
  have hroute : (handle D c (.updateUser id p)).Succeeds ⟨w.1, w.1, w.2⟩ _ ⟨w.1, d', w.2⟩ :=
    (succeeds_getCurrentUser.mpr ⟨admitted.caller, rfl⟩).bind
      (Tx.Succeeds.seq (succeeds_validated.mpr ⟨admitted.accepted, rfl⟩)
      (hservice.bind (Tx.succeeds_pure.mpr ⟨rfl, rfl⟩)))
  have hrun := Tx.run_of_succeeds hroute
  refine ⟨_, congrArg Prod.fst hrun, ?_, rfl⟩
  have hnext : (next D ⟨c, .updateUser id p⟩ w).1 = d' := congrArg (fun x => x.2.1) hrun
  rw [hnext]
  exact UserRepository.find_flushed admitted.target rfl rfl rfl

theorem UserUpdate.stored_iff (notNull : p.email ≠ .null ∧ p.fullName ≠ .null ∧ p.isActive ≠ .null)
    (email : ∀ e, p.email = .value e → e.length ≤ 255) (fullName : ∀ s, p.fullName = .value s → s.length ≤ 255) :
    p.Stored u (afterFlush (UserRepository.stamped D c) u (p.applied u)) ↔
      (p.email = .unset → u.email.length ≤ 255) ∧ (p.fullName = .unset → u.fullName.length ≤ 255) := by
  obtain ⟨hemail, hname, hactive⟩ := notNull
  rw [← Field.length_iff hemail email, ← Field.length_iff hname fullName]
  constructor
  · intro stored
    have hfits := stored.fits
    rw [afterFlush_column User.email rfl, afterFlush_column User.fullName rfl] at hfits
    exact hfits
  · intro hfits
    have stored : p.Stored u (p.applied u) := ⟨Field.some_assignNotNull hemail _, Field.some_assignNotNull hname _,
      Field.some_assignNotNull hactive _, hfits, rfl⟩
    exact stored.flushed

theorem UserUpdate.accepts_applied (notNull : p.email ≠ .null) (email : ∀ e, p.email = .value e → E.validate e = .ok e) :
    E.accepts (afterFlush (UserRepository.stamped D c) u (p.applied u)).email = true ↔
      (p.email = .unset → E.accepts u.email = true) := by
  rw [afterFlush_column User.email rfl, applied]
  cases hsent : p.email with
  | unset => simp [Field.assignNotNull]
  | null => exact absurd hsent notNull
  | value e => simp [Field.assignNotNull, EmailStr.accepts, email e hsent, Except.isOk, Except.toBool]

theorem Admitted.answers_iff (admitted : Admitted c w.1 id p actor u) (sound : Indexed.Sound D w.1.users)
    (email : ∀ e, p.email = .value e → E.validate e = .ok e) : Applies E D c w (.user id p) ↔
      (PartialUpdate.user id p).Storable D w.1 ∧ (PartialUpdate.user id p).Shown E D w.1 := by
  have hemail : ∀ e, p.email = .value e → unstorable D.engine [e] [] = false := fun e he => EmailStr.storable (email e he)
  have htarget : ∀ P : User → Prop, (∀ u', UserRepository.find id w.1 = some u' → P u') ↔ P u := by
    intro P
    rw [admitted.target]
    simp
  rw [PartialUpdate.Storable, PartialUpdate.Shown, htarget, htarget]
  by_cases free : UserService.EmailFree D w.1 p u
  · simp only [free, true_imp_iff]
    by_cases notNull : p.email ≠ .null ∧ p.fullName ≠ .null ∧ p.isActive ≠ .null
    · cases text : holdsNul D.engine p.fullName.sent.toList with
      | true =>
        rw [applies_of_error (admitted.unexpected sound free notNull text)]
        simp [unexpected_undocumented]
      | false =>
        obtain ⟨a, ok, found, shown⟩ := admitted.stores sound free hemail notNull text
        have hstored : (PartialUpdate.user id p).Stored w.1 (next D ⟨c, (PartialUpdate.user id p).request⟩ w).1 ↔
            p.Stored u (afterFlush (UserRepository.stamped D c) u (p.applied u)) := by
          refine ⟨?_, fun stored => ⟨u, _, admitted.target, found, stored⟩⟩
          rintro ⟨u₁, u', target, found', stored⟩
          obtain rfl := Option.some.inj (admitted.target.symm.trans target)
          obtain rfl := Option.some.inj (found.symm.trans found')
          exact stored
        have happlies : Applies E D c w (.user id p) ↔ _ := applies_of_ok ok
        rw [happlies, shown, hstored, UserUpdate.stored_iff notNull
          (fun e he => (E.bounded e e (email e he)).trans (by decide)) admitted.fullName_length, List.forall_mem_singleton]
        rw [show (UserOut.modelValidate _).email = (afterFlush (UserRepository.stamped D c) u (p.applied u)).email from rfl,
          UserUpdate.accepts_applied notNull.1 email]
        simp [notNull]
    · rw [applies_of_error (admitted.integrity free notNull)]
      simp [integrity_undocumented, notNull]
  · rw [applies_of_error (admitted.duplicate sound hemail free)]
    simp only [free, false_imp_iff, and_self, iff_true]
    exact ⟨.duplicateEmail, by decide, rfl⟩

end Users

/-- A partial update that has passed its schema is stored, or refused as documented, exactly when what it leaves fits the columns
and every account of its response has an address. -/
theorem applies_iff {u : PartialUpdate} (reachable : ServedReachable E D w)
    (new : ∀ n ∈ w.1.notifications.rows, n.id ≠ c.fresh.notificationId) (sent : Sent E c w.1 u) :
    Applies E D c w u ↔ u.Storable D w.1 ∧ u.Shown E D w.1 := by
  have schema := reachable.schema
  cases sent with
  | @task id p actor r caller target accepted =>
    refine applies_iff_of (updateTask_refused schema caller target accepted) fun storable => ?_
    obtain ⟨a, ok, shown⟩ := updateTask_ok schema caller target accepted new storable
    refine ⟨a, ok, updateTask_stored schema storable ok, ?_⟩
    have hfound : ∀ P : Task → Prop, (∀ r', TaskRepository.find id w.1 = some r' → P r') ↔ P r := by
      intro P
      rw [target.found]
      simp
    simp only [shown, PartialUpdate.Shown, forall_comm (α := User), hfound]
    cases r.assigneeId.bind w.1.relatedUser <;> simp [UserOut.modelValidate]
  | @project id p actor q caller admin target accepted =>
    refine applies_iff_of (updateProject_refused schema caller admin target accepted) fun storable => ?_
    obtain ⟨a, ok, shown⟩ := @updateProject_ok E D c w id actor p q schema caller admin target accepted storable
    exact ⟨a, ok, updateProject_stored schema storable ok, shown⟩
  | @user id p actor u caller allowed target accepted email =>
    have hstatus : ¬(p.isActive.isSet = true ∧ actor.role ≠ .admin) := by
      rintro ⟨hset, hrole⟩
      rcases allowed with hadmin | ⟨-, hunset⟩
      · exact hrole hadmin
      · exact absurd (hset.symm.trans hunset) (by decide)
    have admitted : Admitted c w.1 id p actor u := ⟨caller, allowed.imp_right And.left, hstatus, target, accepted⟩
    apply admitted.answers_iff schema.users
    intro e he
    obtain ⟨typed, htyped⟩ := email e he
    exact E.settled typed e htyped

theorem admin_calls : CurrentUser (Call.sample 4 (some 16)) (playFrom .sample World.initial oneTask).1 seededAdmin ∧
    UserRepository.find 16 (playFrom .sample World.initial oneTask).1 = some seededAdmin :=
  ⟨⟨⟨⟨true, some 16, "", "access", 0, 1000⟩, by decide +kernel, rfl⟩, by decide +kernel, rfl⟩, by decide +kernel⟩

theorem applies_iff_sample : Applies .sample .sample (Call.sample 4 (some 16)) (playFrom .sample World.initial oneTask)
    (.user 16 { email := .value "root@ats.com" }) := by
  obtain ⟨caller, found⟩ := admin_calls
  have sent : Sent .sample (Call.sample 4 (some 16)) (playFrom .sample World.initial oneTask).1
      (.user 16 { email := .value "root@ats.com" }) := by
    refine .user caller (Or.inl rfl) found (by decide) fun e he => ?_
    obtain rfl := Field.value.inj he
    exact ⟨"root@ATS.com", by decide +kernel⟩
  have reachable : ServedReachable .sample .sample (playFrom .sample World.initial oneTask) :=
    servedReachable_of_freshRun (by decide +kernel) (by decide +kernel)
  refine (applies_iff reachable (by decide +kernel) sent).mpr ⟨?_, ?_⟩
  · intro u found' _
    obtain rfl := Option.some.inj (found.symm.trans found')
    decide +kernel
  · intro u found' _ unset
    exact absurd unset (by simp)

/-- A title may be sent as `null`, and the column refuses it. -/
theorem null_title_refused : ServedReachable .sample .sample (playFrom .sample World.initial oneTask) ∧
    Sent .sample (Call.sample 4 (some 16)) (playFrom .sample World.initial oneTask).1 (.task 48 { title := .null }) ∧
    servedOutcome .sample .sample ⟨Call.sample 4 (some 16), .updateTask 48 { title := .null }⟩
      (playFrom .sample World.initial oneTask) = .error .integrity ∧
    ¬Applies .sample .sample (Call.sample 4 (some 16)) (playFrom .sample World.initial oneTask)
      (.task 48 { title := .null }) := by
  have refused : outcome .sample ⟨Call.sample 4 (some 16), .updateTask 48 { title := .null }⟩
      (playFrom .sample World.initial oneTask) = .error .integrity := by decide +kernel
  have target : Accessible (playFrom .sample World.initial oneTask).1 seededAdmin 48
      (newTask .sample (Call.sample 3 none) { projectId := 32, title := "T" } 1000 seededAdmin) :=
    ⟨by decide +kernel, Or.inl rfl⟩
  refine ⟨servedReachable_of_freshRun (by decide +kernel) (by decide +kernel), .task admin_calls.1 target (by decide),
    (served_of_error refused).1, fun applies => ?_⟩
  exact integrity_undocumented ((applies_of_error refused).mp applies)

end ProjectManagement
