import ProjectManagement.OptimisticLocking

/-!
Two clients that have read the same version of a task: the guard compares only what the request itself
has loaded, so it holds back the second of two requests exactly when both have loaded the task before
the first of them commits.
-/

namespace ProjectManagement

open Library

variable {D : Deployment} {id : Uuid} {c : Call} {request : TaskRequest} {d d' : Db} {b : Blobs} {actor : User}
  {t row : Task} {event : Option DomainEvent}

def TaskRequest.route (id : Uuid) : TaskRequest → Request
  | update p => .updateTask id p
  | updateStatus p => .updateTaskStatus id p
  | delete => .deleteTask id

def taskWrites (D : Deployment) (c : Call) (t row : Task) (event : Option DomainEvent) : List (Write Db RowKey) :=
  updateStatement t row :: (event.map (notifyStatement D c)).toList

/-- A request that finds no obstacle on its way from `d` to `d'`: it loads `t` and leaves `row`. -/
structure TaskRun (D : Deployment) (id : Uuid) (c : Call) (request : TaskRequest) (d d' : Db) (actor : User)
    (t row : Task) (event : Option DomainEvent) : Prop where
  loads : read (loadTask id c request) d = .ok (actor, d.loadTask t)
  applies : ∃ new, (request.change c t d).apply t = .ok new ∧ new ≠ t ∧ row = TaskRepository.stamped D c new
  flushes : ∃ e, Db.putTask D.engine t.version row d = .ok e
  event_eq : event = request.event (updateTaskRow t row d) actor t row
  fits : ∀ e, event = some e → Fits D c e (updateTaskRow t row d)
  reloads : request.reloads = true → TaskRepository.find row.id d' ≠ none
  result : d' = (taskWrites D c t row event).foldl (fun d w => w.run d) d

/-! A route that succeeds and changes the task runs so. -/

theorem updateTaskRow_eq (ht : t ∈ d.tasks.rows) (hid : row.id = t.id) (hset : setClause t row t = row) :
    updateTaskRow t row d = { d with tasks := d.tasks.put row } := by
  have htables : (updateTaskRow t row d).tasks = d.tasks.put row := by
    apply Table.ext
    apply List.map_congr_left
    intro r hr
    by_cases hrt : r.id = t.id
    · have hsame : r = t := d.tasks.eq_of_key hr ht hrt
      subst hsame
      simp [hset, hid]
    · simp [hrt, hid]
  rw [← htables]
  rfl

theorem read_of_accessible (caller : CurrentUser c d actor) (task : Accessible d actor id t) (errors : request.errors = []) :
    read (loadTask id c request) d = .ok (actor, d.loadTask t) := by
  apply Tx.answer_eq_ok.mpr
  refine ⟨⟨d, d, fun _ => none⟩, ?_⟩
  simp only [loadTask, Tx.succeeds_bind, Routes.succeeds_accessibleTask, succeeds_validated, Tx.succeeds_pure]
  exact ⟨_, _, ⟨actor, t, caller, task, rfl, rfl⟩, (), _, ⟨errors, rfl⟩, rfl, rfl⟩

theorem succeeds_flush_of_ne {s s' : Session Db Blobs} {old new o : Task} (h : new ≠ old) :
    (TaskRepository.flush D c old new).Succeeds s o s' ↔
      ∃ e, Db.putTask D.engine old.version (TaskRepository.stamped D c new) s.working = .ok e ∧
        o = TaskRepository.stamped D c new ∧ s' = { s with working := e } := by
  refine succeeds_flushed.trans ?_
  simp only [h, false_and, false_or, ne_eq, not_false_eq_true, true_and]
  constructor
  · rintro ⟨rfl, e, he, rfl⟩
    exact ⟨e, he, rfl, rfl⟩
  · rintro ⟨e, he, rfl, rfl⟩
    exact ⟨rfl, e, he, rfl⟩

theorem ne_of_flush {s s' : Session Db Blobs} {old new o : Task} (h : (TaskRepository.flush D c old new).Succeeds s o s')
    (changed : s'.working.tasks.lookup id ≠ s.working.tasks.lookup id) : new ≠ old := by
  rcases succeeds_flushed.mp h with ⟨-, -, rfl⟩ | ⟨hne, -⟩
  · exact absurd rfl changed
  · exact hne

theorem taskRun_of_statements (caller : CurrentUser c d actor) (task : Accessible d actor id t)
    (errors : request.errors = []) {new : Task} (happly : (request.change c t d).apply t = .ok new) (hne : new ≠ t)
    (hput : ∃ e, Db.putTask D.engine t.version (TaskRepository.stamped D c new) d = .ok e)
    (hevent : event = request.event { d with tasks := d.tasks.put (TaskRepository.stamped D c new) } actor t
      (TaskRepository.stamped D c new))
    (hnotified : (event = none ∧ d' = { d with tasks := d.tasks.put (TaskRepository.stamped D c new) }) ∨
      ∃ e, event = some e ∧ Db.insertNotification D.engine (e.notification D c)
        { d with tasks := d.tasks.put (TaskRepository.stamped D c new) } = .ok d')
    (hreloads : request.reloads = true → TaskRepository.find (TaskRepository.stamped D c new).id d' ≠ none) :
    TaskRun D id c request d d' actor t (TaskRepository.stamped D c new) event := by
  obtain ⟨hid, hproject, hby, hat, -⟩ := TaskChange.apply_keeps happly
  have hset : setClause t (TaskRepository.stamped D c new) t = TaskRepository.stamped D c new :=
    setClause_self hid hproject hby hat
  have hrow : updateTaskRow t (TaskRepository.stamped D c new) d =
      { d with tasks := d.tasks.put (TaskRepository.stamped D c new) } := updateTaskRow_eq task.mem hid hset
  refine ⟨read_of_accessible caller task errors, ⟨new, happly, hne, rfl⟩, hput, ?_, ?_, hreloads, ?_⟩
  · rw [hrow]
    exact hevent
  · intro e he
    rw [hrow]
    rcases hnotified with ⟨hnone, -⟩ | ⟨e', hsome, hinsert⟩
    · simp [hnone] at he
    · obtain rfl : e' = e := Option.some.inj (hsome.symm.trans he)
      exact ⟨d', hinsert⟩
  · rcases hnotified with ⟨rfl, rfl⟩ | ⟨e, rfl, hinsert⟩
    · simp [taskWrites, updateStatement, hrow]
    · simp [taskWrites, updateStatement, notifyStatement, hrow, replay, hinsert]

theorem taskRun_of_updateTask {p : TaskUpdate} {a : ApiResponse} {s : Session Db Blobs}
    (h : (Routes.updateTask D c id p).Succeeds ⟨d, d, b⟩ a s)
    (hchanged : s.working.tasks.lookup id ≠ d.tasks.lookup id) :
    ∃ actor t row event, TaskRun D id c (.update p) d s.working actor t row event := by
  simp only [Routes.updateTask, TaskService.updateTask, TaskService.notifyAssignment, Tx.succeeds_bind,
    Routes.succeeds_accessibleTask, succeeds_validated, Tx.succeeds_ofExcept, Tx.succeeds_forSome,
    ProjectRepository.succeeds_get, EventBus.succeeds_publish, TaskRepository.succeeds_reload, Db.loadTask_row,
    exists_eq_left, exists_const, ↓existsAndEq, and_true, Tx.succeeds_pure] at h
  obtain ⟨actor, t, ⟨caller, task⟩, errors, new, row, u, found, ⟨sent, hflush, hnotified, hfound⟩, -⟩ := h
  have hkept : s.working.tasks = u.working.tasks := by
    rcases hnotified with ⟨-, rfl⟩ | ⟨assignee, -, e, he, rfl⟩
    · rfl
    · obtain ⟨-, ns, -, rfl⟩ := Db.insertNotification_ok he
      rfl
  rw [hkept] at hchanged
  have hne : new ≠ t := ne_of_flush hflush hchanged
  obtain ⟨e, hput, rfl, rfl⟩ := (succeeds_flush_of_ne hne).mp hflush
  obtain rfl := Db.putTask_ok hput
  have hvalid : (TaskRequest.update p).errors = [] := errors
  have happly : ((TaskRequest.update p).change c t d).apply t = .ok new := sent
  refine ⟨actor, t, _, _, taskRun_of_statements caller task hvalid happly hne ⟨_, hput⟩ rfl ?_ (fun _ => by simp [hfound])⟩
  simp only [TaskRequest.event, taskUpdatedEvent]
  rcases hnotified with ⟨hnone, rfl⟩ | ⟨assignee, hsome, e, he, rfl⟩
  · exact Or.inl ⟨by rw [hnone]; rfl, rfl⟩
  · exact Or.inr ⟨_, by rw [hsome]; rfl, he⟩

theorem taskRun_of_updateTaskStatus {p : TaskStatusUpdate} {a : ApiResponse} {s : Session Db Blobs}
    (h : (Routes.updateTaskStatus D c id p).Succeeds ⟨d, d, b⟩ a s)
    (hchanged : s.working.tasks.lookup id ≠ d.tasks.lookup id) :
    ∃ actor t row event, TaskRun D id c (.updateStatus p) d s.working actor t row event := by
  simp only [Routes.updateTaskStatus, TaskService.updateStatus, Tx.succeeds_bind, Routes.succeeds_accessibleTask,
    Tx.succeeds_query, TaskRepository.succeeds_reload, Db.loadTask_row, exists_eq_left, ↓existsAndEq, and_true,
    Tx.succeeds_pure] at h
  obtain ⟨actor, t, ⟨caller, task⟩, row, found, ⟨hflush, hfound⟩, -⟩ := h
  have hne : { t with status := p.status, position := p.position.getD (TaskRepository.nextPosition t.projectId p.status d) } ≠ t :=
    ne_of_flush hflush hchanged
  obtain ⟨e, hput, rfl, rfl⟩ := (succeeds_flush_of_ne hne).mp hflush
  obtain rfl := Db.putTask_ok hput
  have happly : ((TaskRequest.updateStatus p).change c t d).apply t = .ok _ := rfl
  exact ⟨actor, t, _, none, taskRun_of_statements caller task rfl happly hne ⟨_, hput⟩ rfl (Or.inl ⟨rfl, rfl⟩)
    (fun _ => by simp [hfound])⟩

theorem taskRun_of_deleteTask {a : ApiResponse} {s : Session Db Blobs}
    (h : (Routes.deleteTask D c id).Succeeds ⟨d, d, b⟩ a s)
    (hchanged : s.working.tasks.lookup id ≠ d.tasks.lookup id) :
    ∃ actor t row event, TaskRun D id c .delete d s.working actor t row event := by
  simp only [Routes.deleteTask, TaskService.deleteTask, TaskRepository.delete, Tx.succeeds_bind,
    Routes.succeeds_accessibleTask, Db.loadTask_row, Tx.succeeds_pure, true_and, exists_eq_right', ↓existsAndEq, and_true,
    exists_const] at h
  obtain ⟨actor, t, ⟨caller, task⟩, ⟨row, hflush⟩, -⟩ := h
  have hne : { t with deletedAt := some c.now } ≠ t := ne_of_flush hflush hchanged
  obtain ⟨e, hput, rfl, rfl⟩ := (succeeds_flush_of_ne hne).mp hflush
  obtain rfl := Db.putTask_ok hput
  have happly : (TaskRequest.delete.change c t d).apply t = .ok _ := rfl
  exact ⟨actor, t, _, none, taskRun_of_statements caller task rfl happly hne ⟨_, hput⟩ rfl (Or.inl ⟨rfl, rfl⟩)
    (fun h => by simp [TaskRequest.reloads] at h)⟩

structure ChangesTask (D : Deployment) (id : Uuid) (c : Call) (request : TaskRequest) (w : World) : Prop where
  accepted : ∃ a, outcome D ⟨c, request.route id⟩ w = .ok a
  changed : (next D ⟨c, request.route id⟩ w).1.tasks.lookup id ≠ w.1.tasks.lookup id

theorem ChangesTask.taskRun {w : World} (h : ChangesTask D id c request w) :
    ∃ actor t row event, TaskRun D id c request w.1 (next D ⟨c, request.route id⟩ w).1 actor t row event := by
  obtain ⟨⟨a, ha⟩, hchanged⟩ := h
  obtain ⟨s, hs, hw⟩ := succeeds_of_outcome ha
  rw [hw] at hchanged ⊢
  cases request with
  | update p => exact taskRun_of_updateTask hs hchanged
  | updateStatus p => exact taskRun_of_updateTaskStatus hs hchanged
  | delete => exact taskRun_of_deleteTask hs hchanged

/-! Up to its commit such a request is somewhere on its way. -/

inductive OnWay (D : Deployment) (c : Call) (request : TaskRequest) (d : Db) (actor : User) (t row : Task)
    (event : Option DomainEvent) : TaskPhase → List (Write Db RowKey) → Prop
  | start : OnWay D c request d actor t row event .start []
  | loaded : OnWay D c request d actor t row event (.loaded actor t) []
  | ready : OnWay D c request d actor t row event (.ready actor t (request.change c t d)) []
  | flushed : OnWay D c request d actor t row event (.flushed actor t (request.change c t d) row) [updateStatement t row]
  | published : OnWay D c request d actor t row event (.published t (request.change c t d) row event)
      (taskWrites D c t row event)
  | answered : OnWay D c request d actor t row event (.answered t (request.change c t d) row event)
      (taskWrites D c t row event)

theorem TaskRun.row_id (h : TaskRun D id c request d d' actor t row event) : row.id = t.id := by
  obtain ⟨new, happly, -, rfl⟩ := h.applies
  exact (TaskChange.apply_keeps happly).1

theorem TaskRun.row_ne (h : TaskRun D id c request d d' actor t row event) : row ≠ t := by
  obtain ⟨new, happly, -, rfl⟩ := h.applies
  obtain ⟨-, -, -, -, hversion⟩ := TaskChange.apply_keeps happly
  exact stamped_ne hversion

theorem TaskRun.next_onWay (h : TaskRun D id c request d d' actor t row event) {p : TaskPhase} {ws : List (Write Db RowKey)}
    (hp : OnWay D c request d actor t row event p ws) :
    (∃ q, TaskPhase.next D id c request p (ws.foldl (fun d w => w.run d) d) = .read q ∧
      OnWay D c request d actor t row event q ws) ∨
    (∃ w q, TaskPhase.next D id c request p (ws.foldl (fun d w => w.run d) d) = .write w q ∧
      OnWay D c request d actor t row event q (ws ++ [w])) ∨
    (p = .answered t (request.change c t d) row event ∧ ws = taskWrites D c t row event ∧
      TaskPhase.next D id c request p (ws.foldl (fun d w => w.run d) d) = .commit (.done (request.change c t d) true event)) := by
  cases hp with
  | start =>
    refine Or.inl ⟨_, ?_, .loaded⟩
    simp only [List.foldl_nil, TaskPhase.next, h.loads, Db.loadTask_row]
  | loaded => exact Or.inl ⟨_, rfl, .ready⟩
  | ready =>
    obtain ⟨new, happly, hne, rfl⟩ := h.applies
    obtain ⟨e, hput⟩ := h.flushes
    refine Or.inr (Or.inl ⟨updateStatement t (TaskRepository.stamped D c new), _, ?_, .flushed⟩)
    simp only [List.foldl_nil, TaskPhase.next, happly, if_neg hne, hput]
  | flushed =>
    have hview : [updateStatement t row].foldl (fun d w => w.run d) d = updateTaskRow t row d := rfl
    rw [hview]
    cases event with
    | none =>
      refine Or.inl ⟨_, ?_, .published⟩
      simp only [TaskPhase.next, ← h.event_eq]
    | some e =>
      obtain ⟨e', hinsert⟩ := h.fits e rfl
      refine Or.inr (Or.inl ⟨notifyStatement D c e, _, ?_, .published⟩)
      simp only [TaskPhase.next, ← h.event_eq, hinsert]
  | published =>
    refine Or.inl ⟨_, ?_, .answered⟩
    rw [← h.result]
    exact if_neg fun hgone => h.reloads hgone.1 hgone.2
  | answered =>
    refine Or.inr (Or.inr ⟨rfl, rfl, ?_⟩)
    simp [TaskPhase.next, h.row_ne]

theorem TaskRun.onWay (h : TaskRun D id c request d d' actor t row event) {p : TaskPhase} {ws : List (Write Db RowKey)}
    (ha : Sessions.Alone (TaskPhase.next D id c request) d .start [] p ws) : OnWay D c request d actor t row event p ws := by
  refine ha.invariant_next (fun p ws hway => ?_) .start
  rcases h.next_onWay hway with hread | hwrite | ⟨-, -, hcommit⟩
  · exact Or.inl hread
  · exact Or.inr (Or.inl hwrite)
  · exact Or.inr (Or.inr (by rw [hcommit]; rfl))

/-! A request that has loaded a version which is no longer the committed one gets to the flush and fails. -/

inductive Late (c : Call) (request : TaskRequest) (d d' : Db) (actor : User) (t : Task) : TaskPhase → Prop
  | loaded : Late c request d d' actor t (.loaded actor t)
  | ready {seen : Db} (h : seen = d ∨ seen = d') : Late c request d d' actor t (.ready actor t (request.change c t seen))
  | failed : Late c request d d' actor t (.failed .staleData)

theorem OnWay.unflushed {p : TaskPhase} {ws : List (Write Db RowKey)} (h : OnWay D c request d actor t row event p ws)
    (hno : updateStatement t row ∉ ws) : ws = [] ∧ (p = .start ∨ p ≠ .start ∧ ∀ d', Late c request d d' actor t p) := by
  cases h with
  | start => exact ⟨rfl, Or.inl rfl⟩
  | loaded => exact ⟨rfl, Or.inr ⟨by simp, fun d' => .loaded⟩⟩
  | ready => exact ⟨rfl, Or.inr ⟨by simp, fun d' => .ready (Or.inl rfl)⟩⟩
  | flushed => exact absurd List.mem_cons_self hno
  | published => exact absurd List.mem_cons_self hno
  | answered => exact absurd List.mem_cons_self hno

theorem Late.next {r : Task} (hr : d'.tasks.lookup id = some r) (hid : t.id = r.id) (hstale : t.version ≠ r.version)
    (happly : ∀ seen, seen = d ∨ seen = d' → ∃ new, (request.change c t seen).apply t = .ok new ∧ new ≠ t ∧
      staleError D new = .staleData) {p : TaskPhase}
    (hp : Late c request d d' actor t p) :
    (∃ q, TaskPhase.next D id c request p d' = .read q ∧ Late c request d d' actor t q) ∨
      TaskPhase.next D id c request p d' = .rollback (.failed .staleData) ∨
      (p = .failed .staleData ∧ TaskPhase.next D id c request p d' = .stop) := by
  cases hp with
  | loaded => exact Or.inl ⟨_, rfl, .ready (Or.inr rfl)⟩
  | ready h =>
    obtain ⟨new, hnew, hne, hstored⟩ := happly _ h
    obtain ⟨hnewId, -⟩ := TaskChange.apply_keeps hnew
    have hput : Db.putTask D.engine t.version (TaskRepository.stamped D c new) d' =
        .error (staleError D (TaskRepository.stamped D c new)) := putTask_stale hr (hnewId.trans hid) hstale
    rw [staleError_stamped, hstored] at hput
    refine Or.inr (Or.inl ?_)
    simp only [TaskPhase.next, hnew, if_neg hne, hput]
  | failed => exact Or.inr (Or.inr ⟨rfl, rfl⟩)

theorem Late.alone {r : Task} (hr : d'.tasks.lookup id = some r) (hid : t.id = r.id) (hstale : t.version ≠ r.version)
    (happly : ∀ seen, seen = d ∨ seen = d' → ∃ new, (request.change c t seen).apply t = .ok new ∧ new ≠ t ∧
      staleError D new = .staleData)
    {p q : TaskPhase} {ws : List (Write Db RowKey)} (hp : Late c request d d' actor t p)
    (ha : Sessions.Alone (TaskPhase.next D id c request) d' p [] q ws) : Late c request d d' actor t q ∧ ws = [] := by
  refine ha.invariant (I := fun p ws => Late c request d d' actor t p ∧ ws = []) (fun p ws q vs hI hstep => ?_) ⟨hp, rfl⟩
  obtain ⟨hlate, rfl⟩ := hI
  rcases hlate.next (D := D) hr hid hstale happly with ⟨q', hnext, hq'⟩ | hnext | ⟨-, hnext⟩ <;>
    simp only [List.foldl_nil, hnext] at hstep
  · obtain ⟨rfl, rfl⟩ := Prod.mk.inj (Option.some.inj hstep)
    exact ⟨hq', rfl⟩
  · obtain ⟨rfl, rfl⟩ := Prod.mk.inj (Option.some.inj hstep)
    exact ⟨.failed, rfl⟩
  · simp [Sessions.after] at hstep

/-! Two clients. -/

section Clients

variable {calls : Bool → Call} {requests : Bool → TaskRequest} {w : World} {schedule : List Bool} {i : Bool}

def sent (id : Uuid) (calls : Bool → Call) (requests : Bool → TaskRequest) (i : Bool) : Input :=
  ⟨calls i, (requests i).route id⟩

/-- Both requests change the task: sent first, sent after the other, and when the other commits between the load
and the choice of a position. -/
structure BothChange (D : Deployment) (id : Uuid) (calls : Bool → Call) (requests : Bool → TaskRequest) (w : World) : Prop where
  first : ∀ i, ChangesTask D id (calls i) (requests i) w
  second : ∀ i, ChangesTask D id (calls i) (requests i) (next D (sent id calls requests !i) w)
  between : ∀ i t, w.1.tasks.lookup id = some t →
    ((requests i).change (calls i) t (next D (sent id calls requests !i) w).1).apply t ≠ .ok t

/-- Both requests have loaded the task before the first of them commits. -/
def Overlap (D : Deployment) (id : Uuid) (calls : Bool → Call) (requests : Bool → TaskRequest) (d : Db)
    (schedule : List Bool) : Prop :=
  ∃ before after, schedule = before ++ after ∧ (runTasks D id calls requests d before).commits = [] ∧
    ∀ i, (runTasks D id calls requests d before).phase i ≠ .start

def TaskPhase.finished : TaskPhase → Bool
  | done _ _ _ => true
  | failed _ => true
  | _ => false

def TaskPhase.wrote : TaskPhase → Bool
  | done _ wrote _ => wrote
  | _ => false

theorem OnWay.not_finished {p : TaskPhase} {ws : List (Write Db RowKey)}
    (h : OnWay D c request d actor t row event p ws) : p.finished = false := by
  cases h <;> rfl

theorem TaskPhase.next_ne_start {p q : TaskPhase} (h : (TaskPhase.next D id c request p d).goal = some q) : q ≠ .start := by
  rintro rfl
  cases p <;> simp only [TaskPhase.next] at h <;> (repeat' split at h) <;> simp [Action.goal] at h

theorem phase_ne_start_of_append {before after : List Bool}
    (h : (runTasks D id calls requests d before).phase i ≠ .start) :
    (runTasks D id calls requests d (before ++ after)).phase i ≠ .start := by
  have hkeep : ∀ j, j = i →
      ((runTasks D id calls requests d before).play (statements D id calls requests) after).phase j ≠ .start :=
    Sessions.play_phase_invariant (P := fun j p => j = i → p ≠ .start)
      (fun j p d' q _ hq _ => TaskPhase.next_ne_start hq) (fun j hj => hj ▸ h) after
  rw [runTasks, Sessions.play_append]
  exact hkeep i rfl

theorem not_overlap {before after : List Bool} (hi : (runTasks D id calls requests d before).phase i = .start)
    (hcommit : ∀ more, more ≠ [] → more <+: after → (runTasks D id calls requests d (before ++ more)).commits ≠ []) :
    ¬Overlap D id calls requests d (before ++ after) := by
  rintro ⟨before', after', heq, hcommits, hloaded⟩
  rcases List.append_eq_append_iff.mp heq with ⟨more, rfl, hmore⟩ | ⟨more, rfl, hmore⟩
  · by_cases hnil : more = []
    · rw [hnil, List.append_nil] at hloaded
      exact hloaded i hi
    · exact hcommit more hnil ⟨after', hmore.symm⟩ hcommits
  · exact phase_ne_start_of_append (hloaded i) hi

variable {s : TaskSessions Bool} {j : Bool}

theorem next_of_commit {p q : TaskPhase} (h : TaskPhase.next D id c request p d = .commit q) :
    TaskPhase.next D id c request q d' = .stop := by
  cases p <;> simp only [TaskPhase.next] at h <;> (repeat' split at h) <;> simp at h
  subst h
  rfl

theorem others_stop {change : TaskChange} {wrote : Bool} (hother : s.phase (!j) = .done change wrote event) :
    ∀ i, i ≠ j → ∀ d, statements D id calls requests i (s.phase i) d = .stop := by
  intro i hi d
  obtain rfl : i = !j := Bool.eq_not_of_ne hi
  rw [hother]
  rfl

theorem second_succeeds (h : TaskRun D id (calls j) (requests j) s.committed d' actor t row event) (hphase : s.phase j = .start)
    (hpending : s.pending j = []) {change : TaskChange} {wrote : Bool} {event' : Option DomainEvent}
    (hother : s.phase (!j) = .done change wrote event') {after : List Bool}
    (hend : ((s.play (statements D id calls requests) after).phase j).finished = true) :
    ((s.play (statements D id calls requests) after).phase j).wrote = true := by
  rcases Sessions.play_last (others_stop (D := D) hother) (fun _ _ _ h _ => next_of_commit h) after with
    ⟨-, halone⟩ | ⟨p, ws, q, halone, hq, -, hfinal⟩ <;> rw [hphase, hpending] at halone
  · rw [(h.onWay halone).not_finished] at hend
    exact absurd hend (by simp)
  · obtain ⟨q', hnext, -⟩ | ⟨w, q', hnext, -⟩ | ⟨-, -, hnext⟩ := h.next_onWay (h.onWay halone)
    · exact absurd (hq.symm.trans hnext) (by simp)
    · exact absurd (hq.symm.trans hnext) (by simp)
    · obtain rfl := Action.commit.inj (hq.symm.trans hnext)
      rw [hfinal]
      rfl

theorem second_refused {r : Task} (hlate : Late (calls j) (requests j) d s.committed actor t (s.phase j)) (hpending : s.pending j = [])
    (hr : s.committed.tasks.lookup id = some r) (hid : t.id = r.id) (hstale : t.version ≠ r.version)
    (happly : ∀ seen, seen = d ∨ seen = s.committed →
      ∃ new, ((requests j).change (calls j) t seen).apply t = .ok new ∧ new ≠ t ∧ staleError D new = .staleData)
    {change : TaskChange} {wrote : Bool} (hother : s.phase (!j) = .done change wrote event) {after : List Bool}
    (hend : ((s.play (statements D id calls requests) after).phase j).finished = true) :
    (s.play (statements D id calls requests) after).phase j = .failed .staleData ∧
      (s.play (statements D id calls requests) after).committed = s.committed := by
  rcases Sessions.play_last (others_stop (D := D) hother) (fun _ _ _ h _ => next_of_commit h) after with
    ⟨hcommitted, halone⟩ | ⟨p, ws, q, halone, hq, -, -⟩ <;> rw [hpending] at halone
  · obtain ⟨hphase, -⟩ := hlate.alone hr hid hstale happly halone
    refine ⟨?_, hcommitted⟩
    generalize (s.play (statements D id calls requests) after).phase j = p at hphase hend ⊢
    cases hphase with
    | loaded => simp [TaskPhase.finished] at hend
    | ready h => simp [TaskPhase.finished] at hend
    | failed => rfl
  · obtain ⟨hphase, rfl⟩ := hlate.alone hr hid hstale happly halone
    rcases hphase.next (D := D) hr hid hstale happly with ⟨q', hnext, -⟩ | hnext | ⟨-, hnext⟩
    · exact absurd (hq.symm.trans hnext) (by simp)
    · exact absurd (hq.symm.trans hnext) (by simp)
    · exact absurd (hq.symm.trans hnext) (by simp)

theorem TaskRun.lookup (h : TaskRun D id c request d d' actor t row event) :
    t.id = id ∧ d.tasks.lookup id = some t ∧ d'.tasks.lookup id = some row ∧ row.version = t.version + 1 := by
  obtain ⟨-, -, t', task, ht⟩ := loaded_of_read h.loads
  obtain rfl : t = t' := congrArg LoadedTask.row ht
  have hlookup : d.tasks.lookup id = some t := Table.lookup_eq_some.mpr ⟨task.mem, task.id_eq⟩
  obtain ⟨new, happly, -, hrow⟩ := h.applies
  obtain ⟨hid, hproject, hby, hat, hversion⟩ := TaskChange.apply_keeps happly
  have hset : setClause t row t = row := by
    rw [hrow]
    exact setClause_self hid hproject hby hat
  refine ⟨task.id_eq, hlookup, ?_, by rw [hrow, ← hversion]; rfl⟩
  have htasks : d'.tasks = (updateTaskRow t row d).tasks := by
    rw [h.result]
    cases event with
    | none => rfl
    | some e =>
      obtain ⟨ns, -, hreplay⟩ := replay_notification (h.fits e rfl)
      have htasks : (replay (Db.insertNotification D.engine (e.notification D c)) (updateTaskRow t row d)).tasks =
          (updateTaskRow t row d).tasks := by rw [hreplay]
      exact htasks
  rw [htasks, lookup_updateTaskRow, hlookup]
  simp [hset]

/-- What a request sees decides at most the position. -/
theorem TaskRequest.change_applies {new : Task} (h : (request.change c t d).apply t = .ok new) (seen : Db) :
    ∃ new', (request.change c t seen).apply t = .ok new' ∧ new'.title = new.title ∧ new'.description = new.description := by
  cases request with
  | update p => exact ⟨new, h, rfl, rfl⟩
  | updateStatus p =>
    obtain rfl := Except.ok.inj h
    exact ⟨_, rfl, rfl, rfl⟩
  | delete =>
    obtain rfl := Except.ok.inj h
    exact ⟨_, rfl, rfl, rfl⟩

/-- `s` is the state after the first commit, made by `i` right after `before`. -/
structure FirstCommit (D : Deployment) (id : Uuid) (calls : Bool → Call) (requests : Bool → TaskRequest) (w : World)
    (before : List Bool) (i : Bool) (s : TaskSessions Bool) : Prop where
  none : (runTasks D id calls requests w.1 before).commits = []
  begun : (runTasks D id calls requests w.1 before).phase i ≠ .start
  commits : s.commits = [i]
  committed : s.committed = (next D (sent id calls requests i) w).1
  ended : ∃ change event, s.phase i = .done change true event
  phase : s.phase (!i) = (runTasks D id calls requests w.1 before).phase !i
  pending : s.pending (!i) = []
  other : s.phase (!i) = .start ∨ s.phase (!i) ≠ .start ∧ ∃ actor t, w.1.tasks.lookup id = some t ∧
    Late (calls !i) (requests !i) w.1 s.committed actor t (s.phase !i)

theorem first_commit (h : ∀ i, ChangesTask D id (calls i) (requests i) w)
    (hend : ∀ i, ((runTasks D id calls requests w.1 schedule).phase i).finished = true) :
    ∃ before i after s, schedule = before ++ i :: after ∧
      (∀ more, runTasks D id calls requests w.1 (before ++ i :: more) = s.play (statements D id calls requests) more) ∧
      FirstCommit D id calls requests w before i s := by
  choose actor t row event hrun using fun i => (h i).taskRun
  have hway : ∀ l, (runTasks D id calls requests w.1 l).commits = [] →
      (runTasks D id calls requests w.1 l).committed = w.1 ∧ ∀ i, OnWay D (calls i) (requests i) w.1 (actor i) (t i) (row i)
        (event i) ((runTasks D id calls requests w.1 l).phase i) ((runTasks D id calls requests w.1 l).pending i) := by
    intro l hl
    obtain ⟨hcommitted, halone⟩ := Sessions.play_alone (s := Sessions.start w.1 TaskPhase.start) hl
    exact ⟨hcommitted, fun i => (hrun i).onWay (halone i)⟩
  have hcommit : (runTasks D id calls requests w.1 schedule).commits ≠ [] := by
    intro hnone
    have hfinished := hend true
    rw [((hway schedule hnone).2 true).not_finished] at hfinished
    exact absurd hfinished (by simp)
  obtain ⟨before, i, after, p, rfl, hbefore, hp⟩ :=
    Sessions.exists_first_commit (s := Sessions.start w.1 TaskPhase.start) hcommit
  rw [← runTasks] at hbefore hp
  obtain ⟨hcommitted, honWay⟩ := hway before hbefore
  -- a commit is at the end of its request's way
  have hnext := (hrun i).next_onWay (honWay i)
  rw [Sessions.view, hcommitted, statements] at hp
  rw [hp] at hnext
  obtain ⟨q, hq, -⟩ | ⟨w', q, hq, -⟩ | ⟨hanswered, hpending, hq⟩ := hnext
  · simp at hq
  · simp at hq
  obtain rfl := Action.commit.inj hq
  generalize hs : (runTasks D id calls requests w.1 before).step (statements D id calls requests) i = s
  have hstep : s = (runTasks D id calls requests w.1 before).perform i
      (.commit (.done ((requests i).change (calls i) (t i) w.1) true (event i))) := by
    rw [← hs, Sessions.step, Sessions.view, hcommitted]
    exact congrArg _ hp
  have hphase : s.phase (!i) = (runTasks D id calls requests w.1 before).phase !i := by
    rw [hstep]
    exact Sessions.phase_perform_ne (by simp)
  have hpendingOther : s.pending (!i) = (runTasks D id calls requests w.1 before).pending !i := by
    rw [hstep]
    exact Sessions.pending_perform_ne (by simp)
  -- the other session has no write of the row, for it would hold the same lock
  have hlocked : (runTasks D id calls requests w.1 before).Locked :=
    Sessions.play_invariant (fun s i (h : s.Locked) => h.step) Sessions.locked_start before
  have hexclusive : updateStatement (t !i) (row !i) ∉ s.pending !i := by
    rw [hpendingOther]
    intro hw
    have hwi : updateStatement (t i) (row i) ∈ (runTasks D id calls requests w.1 before).pending i := by
      rw [hpending]
      exact List.mem_cons_self
    have hclash := hlocked.eq_of_pending (k := .task id) hw hwi (by simp [updateStatement, (hrun !i).lookup.1])
      (by simp [updateStatement, (hrun i).lookup.1])
    simp at hclash
  have hother := honWay !i
  rw [← hphase, ← hpendingOther] at hother
  obtain ⟨hunwritten, hearly⟩ := hother.unflushed hexclusive
  have hended : s.phase i = .done ((requests i).change (calls i) (t i) w.1) true (event i) := by
    rw [hstep, Sessions.perform]
    exact Sessions.phase_close
  refine ⟨before, i, after, s, rfl, fun more => ?_, hbefore, by simp [hanswered], ?_, ?_, ⟨_, _, hended⟩, hphase, ?_, ?_⟩
  · rw [← hs]
    exact Sessions.play_append
  · rw [hstep, Sessions.perform, hbefore]
    rfl
  · rw [hstep, Sessions.perform, Sessions.view, hcommitted, hpending]
    exact (hrun i).result.symm
  · exact hunwritten
  · rcases hearly with hstart | ⟨hbegun, hlate⟩
    · exact Or.inl hstart
    · exact Or.inr ⟨hbegun, _, _, (hrun !i).lookup.2.1, hlate _⟩

variable {before after : List Bool}

theorem FirstCommit.kept (hs : FirstCommit D id calls requests w before i s) :
    ((s.play (statements D id calls requests) after).phase i).wrote = true := by
  obtain ⟨change, event, hended⟩ := hs.ended
  rw [Sessions.play_phase_of_stop (fun _ => rfl) hended]
  rfl

theorem FirstCommit.both_write (hs : FirstCommit D id calls requests w before i s)
    (h : ChangesTask D id (calls !i) (requests !i) (next D (sent id calls requests i) w)) (hstart : s.phase (!i) = .start)
    (hend : ((s.play (statements D id calls requests) after).phase !i).finished = true) (k : Bool) :
    ((s.play (statements D id calls requests) after).phase k).wrote = true := by
  obtain ⟨actor, t, row, event, hrun⟩ := h.taskRun
  obtain ⟨change, event', hended⟩ := hs.ended
  rw [← hs.committed] at hrun
  by_cases hk : k = i
  · rw [hk]
    exact hs.kept
  · obtain rfl : k = !i := Bool.eq_not_of_ne hk
    exact second_succeeds hrun hstart hs.pending (by rw [Bool.not_not]; exact hended) hend

theorem FirstCommit.refused (hs : FirstCommit D id calls requests w before i s)
    (h : BothChange D id calls requests w) (hstarted : s.phase (!i) ≠ .start)
    (hend : ((s.play (statements D id calls requests) after).phase !i).finished = true) :
    (s.play (statements D id calls requests) after).phase (!i) = .failed .staleData ∧
      (s.play (statements D id calls requests) after).committed = s.committed := by
  obtain ⟨-, actor, t, hlookup, hlate⟩ := hs.other.resolve_left hstarted
  obtain ⟨change, event, hended⟩ := hs.ended
  obtain ⟨_, t', row, _, hfirst⟩ := (h.first i).taskRun
  obtain ⟨-, hlookup', hrow, hversion⟩ := hfirst.lookup
  obtain rfl : t' = t := Option.some.inj (hlookup'.symm.trans hlookup)
  obtain ⟨_, t'', row', _, hsecond⟩ := (h.first !i).taskRun
  obtain rfl : t'' = t' := Option.some.inj (hsecond.lookup.2.1.symm.trans hlookup)
  have happly : ∀ seen, seen = w.1 ∨ seen = s.committed →
      ∃ new, ((requests !i).change (calls !i) t'' seen).apply t'' = .ok new ∧ new ≠ t'' ∧
        staleError D new = .staleData := by
    obtain ⟨new, hnew, hne, hrow'⟩ := hsecond.applies
    obtain ⟨e, hput⟩ := hsecond.flushes
    rw [hrow'] at hput
    have hstored : staleError D new = .staleData := staleError_stamped.symm.trans (staleError_of_putTask hput)
    rintro seen (rfl | rfl)
    · exact ⟨new, hnew, hne, hstored⟩
    · obtain ⟨new', hnew', htitle, hdescription⟩ := TaskRequest.change_applies hnew s.committed
      refine ⟨new', hnew', fun he => ?_, by rwa [staleError, htitle, hdescription]⟩
      have hbetween := h.between (!i) t'' hlookup
      rw [Bool.not_not, ← hs.committed, hnew', he] at hbetween
      exact hbetween rfl
  have hr : s.committed.tasks.lookup id = some row := by
    rw [hs.committed]
    exact hrow
  have hstale : t''.version ≠ row.version := by omega
  exact second_refused hlate hs.pending hr hfirst.row_id.symm hstale happly (by rw [Bool.not_not]; exact hended) hend

end Clients

/-- Of two requests that both change the task, one is refused as stale and the other takes effect if and only if both
have loaded the task before the first of them commits. -/
theorem overlap_decides {calls : Bool → Call} {requests : Bool → TaskRequest} {w : World}
    (h : BothChange D id calls requests w) (schedule : List Bool)
    (hend : ∀ i, ((runTasks D id calls requests w.1 schedule).phase i).finished = true) :
    (∃ i, (runTasks D id calls requests w.1 schedule).phase i = .failed .staleData ∧
      ((runTasks D id calls requests w.1 schedule).phase !i).wrote = true ∧
      (runTasks D id calls requests w.1 schedule).committed = (next D (sent id calls requests !i) w).1) ↔
      Overlap D id calls requests w.1 schedule := by
  obtain ⟨before, i, after, s, rfl, hsplit, hs⟩ := first_commit h.first hend
  have hendOther := hend !i
  rw [hsplit] at hendOther ⊢
  by_cases hstart : s.phase (!i) = .start
  · have hsecond := h.second !i
    rw [Bool.not_not] at hsecond
    have hwrote := hs.both_write hsecond hstart hendOther
    constructor
    · rintro ⟨k, hfailed, -⟩
      have hk := hwrote k
      rw [hfailed] at hk
      exact absurd hk (by simp [TaskPhase.wrote])
    · intro hoverlap
      refine absurd hoverlap (not_overlap (hs.phase ▸ hstart) ?_)
      intro more hne hprefix
      obtain ⟨more', rfl⟩ : ∃ more', more = i :: more' := by
        cases more with
        | nil => exact absurd rfl hne
        | cons k more' => exact ⟨more', by rw [(List.cons_prefix_cons.mp hprefix).1]⟩
      obtain ⟨l, hl⟩ := Sessions.commits_play (statements D id calls requests) s more'
      rw [hsplit, hl, hs.commits]
      simp
  · obtain ⟨hfailed, hunchanged⟩ := hs.refused h hstart hendOther
    refine iff_of_true ⟨!i, hfailed, ?_, ?_⟩ ⟨before, i :: after, rfl, hs.none, fun k => ?_⟩
    · rw [Bool.not_not]
      exact hs.kept
    · rw [Bool.not_not, hunchanged]
      exact hs.committed
    · by_cases hk : k = i
      · rw [hk]
        exact hs.begun
      · obtain rfl : k = !i := Bool.eq_not_of_ne hk
        rw [← hs.phase]
        exact hstart

theorem changesTask_of {w : World} (haccepted : (outcome D ⟨c, request.route id⟩ w).isOk = true)
    (hchanged : (next D ⟨c, request.route id⟩ w).1.tasks.lookup id ≠ w.1.tasks.lookup id) : ChangesTask D id c request w :=
  ⟨exists_of_isOk haccepted, hchanged⟩

theorem contested_bothChange : BothChange .postgresql 48 contenders retitleOrMove contested where
  first i := by
    cases i with
    | true => exact changesTask_of (by decide +kernel) (by decide +kernel)
    | false => exact changesTask_of (by decide +kernel) (by decide +kernel)
  second i := by
    cases i with
    | true => exact changesTask_of (by decide +kernel) (by decide +kernel)
    | false => exact changesTask_of (by decide +kernel) (by decide +kernel)
  between i t ht := by
    have hplain : (contested.1.tasks.lookup 48).map (fun t => (t.title, t.status)) = some ("T", .todo) := by decide +kernel
    rw [ht, Option.map_some, Option.some.injEq, Prod.mk.injEq] at hplain
    intro he
    cases i with
    | true =>
      have htitle : "U" = t.title := congrArg Task.title (Except.ok.inj he)
      rw [hplain.1] at htitle
      exact absurd htitle (by decide)
    | false =>
      have hstatus : TaskStatus.inProgress = t.status := congrArg Task.status (Except.ok.inj he)
      rw [hplain.2] at hstatus
      exact absurd hstatus (by decide)

theorem overlap_decides_sample :
    (∃ i, (runTasks .postgresql 48 contenders retitleOrMove contested.1
        [true, false, true, false, true, true, true, true, false]).phase i = .failed .staleData ∧
      ((runTasks .postgresql 48 contenders retitleOrMove contested.1
        [true, false, true, false, true, true, true, true, false]).phase !i).wrote = true ∧
      (runTasks .postgresql 48 contenders retitleOrMove contested.1
        [true, false, true, false, true, true, true, true, false]).committed =
          (next .postgresql (sent 48 contenders retitleOrMove !i) contested).1) ↔
      Overlap .postgresql 48 contenders retitleOrMove contested.1 [true, false, true, false, true, true, true, true, false] :=
  overlap_decides contested_bothChange _ fun i => by cases i <;> decide +kernel

/-- Both clients have read version 1; the second request is sent when the first has been answered, and succeeds. -/
theorem later_request_succeeds :
    Reachable .postgresql contested ∧ (contested.1.tasks.lookup 48).map Task.version = some 1 ∧
      BothChange .postgresql 48 contenders retitleOrMove contested ∧
      ∀ i, ((runTasks .postgresql 48 contenders retitleOrMove contested.1
        (List.replicate 6 true ++ List.replicate 6 false)).phase i).wrote = true := by
  refine ⟨reachable_of_freshRun (by decide +kernel), by decide +kernel, contested_bothChange, fun i => ?_⟩
  cases i <;> decide +kernel

end ProjectManagement
