import ProjectManagement.System
import ProjectManagement.TaskSessions

/-!
Optimistic locking: whatever the schedule, the requests that commit a write take effect one after the
other, in the order of their commits; a write based on an older version fails.
-/

namespace ProjectManagement

open Library

variable {ι : Type} [DecidableEq ι] {D : Deployment} {id : Uuid} {c : Call} {calls : ι → Call}
  {requests : ι → TaskRequest} {d : Db}

namespace TaskChange

def write (D : Deployment) (c : Call) (change : TaskChange) (t : Task) : Task :=
  match change.apply t with
  | .ok new => afterFlush (TaskRepository.stamped D c) t new
  | .error _ => t

theorem apply_keeps {change : TaskChange} {t new : Task} (h : change.apply t = .ok new) :
    new.id = t.id ∧ new.projectId = t.projectId ∧ new.createdBy = t.createdBy ∧ new.createdAt = t.createdAt ∧
      new.version = t.version := by
  cases change with
  | update p =>
    simp only [apply, TaskUpdate.setattrs] at h
    split at h
    · simp at h
    · obtain rfl := Except.ok.inj h
      exact ⟨rfl, rfl, rfl, rfl, rfl⟩
  | move status position =>
    obtain rfl := Except.ok.inj h
    exact ⟨rfl, rfl, rfl, rfl, rfl⟩
  | delete time =>
    obtain rfl := Except.ok.inj h
    exact ⟨rfl, rfl, rfl, rfl, rfl⟩

theorem write_of_ne {change : TaskChange} {t new : Task} (h : change.apply t = .ok new) (hne : new ≠ t) :
    change.write D c t = TaskRepository.stamped D c new := by
  rw [write, h]
  exact afterFlush_of_ne hne

theorem write_of_eq {change : TaskChange} {t : Task} (h : change.apply t = .ok t) : change.write D c t = t := by
  rw [write, h]
  exact if_pos rfl

end TaskChange

theorem stamped_ne {t new : Task} (h : new.version = t.version) : TaskRepository.stamped D c new ≠ t := by
  intro he
  have hv : new.version + 1 = t.version := congrArg Task.version he
  omega

theorem setClause_self {loaded row : Task} (hid : row.id = loaded.id) (hproject : row.projectId = loaded.projectId)
    (hby : row.createdBy = loaded.createdBy) (hat : row.createdAt = loaded.createdAt) :
    setClause loaded row loaded = row := by
  have pick : ∀ {α : Type} [DecidableEq α] (a b : α), (if a = b then b else a) = a := by
    intro α _ a b
    split
    · rename_i h
      exact h.symm
    · rfl
  cases row
  simp only at hid hproject hby hat
  simp only [setClause, pick, hid, hproject, hby, hat]

theorem lookup_updateTaskRow {loaded row : Task} : (updateTaskRow loaded row d).tasks.lookup id =
    (d.tasks.lookup id).map fun r => if r.id == loaded.id && r.version == loaded.version then setClause loaded row r else r := by
  show (d.tasks.updateWhere _ _ (key_setClause loaded row)).lookup id = _
  rw [Table.lookup_updateWhere]

/-! What a request still has to commit, and what its session knows of the row. -/

/-- The pending `UPDATE` of a session that loaded `t` and holds `row`. -/
def rowWrites (t row : Task) : List (Write Db RowKey) := if row = t then [] else [updateStatement t row]

namespace TaskPhase

variable (D c)

def pending : TaskPhase → List (Write Db RowKey)
  | flushed _ t _ row => rowWrites t row
  | published t _ row event => rowWrites t row ++ (event.map (notifyStatement D c)).toList
  | answered t _ row event => rowWrites t row ++ (event.map (notifyStatement D c)).toList
  | _ => []

def ended : TaskPhase → Bool
  | done _ _ _ => true
  | _ => false

def written : TaskPhase → Option TaskChange
  | done change true _ => some change
  | _ => none

def carried : TaskPhase → Option TaskChange
  | ready _ _ change => some change
  | flushed _ _ change _ => some change
  | published _ change _ _ => some change
  | answered _ change _ _ => some change
  | done change _ _ => some change
  | _ => none

def notified : TaskPhase → Option DomainEvent
  | done _ _ event => event
  | _ => none

end TaskPhase

/-- A loaded task: an earlier version, or the committed row itself. -/
structure Seen (t r : Task) : Prop where
  id : t.id = r.id
  version : t.version ≤ r.version
  same : t.version = r.version → t = r

/-- A flushed task: as the change leaves it, and a net change was flushed to the committed row. -/
structure Flushed (D : Deployment) (c : Call) (t : Task) (change : TaskChange) (row r : Task) : Prop where
  id : t.id = r.id
  applied : ∃ new, change.apply t = .ok new
  row_eq : row = change.write D c t
  base : row ≠ t → t = r

def Fits (D : Deployment) (c : Call) (event : DomainEvent) (d : Db) : Prop :=
  ∃ d', Db.insertNotification D.engine (event.notification D c) d = .ok d'

def TaskPhase.Ok (D : Deployment) (c : Call) (d : Db) (r : Task) : TaskPhase → Prop
  | loaded _ t => Seen t r
  | ready _ t _ => Seen t r
  | flushed _ t change row => Flushed D c t change row r
  | published t change row event => Flushed D c t change row r ∧ ∀ e, event = some e → Fits D c e d
  | answered t change row event => Flushed D c t change row r ∧ ∀ e, event = some e → Fits D c e d
  | start => True
  | done _ _ _ => True
  | failed _ => True

theorem Flushed.write_ne {t row r : Task} {change : TaskChange} (h : Flushed D c t change row r) (hne : row ≠ t) :
    ∃ new, change.apply t = .ok new ∧ row = TaskRepository.stamped D c new := by
  obtain ⟨new, hnew⟩ := h.applied
  refine ⟨new, hnew, ?_⟩
  by_cases he : new = t
  · subst he
    exact absurd (h.row_eq.trans (TaskChange.write_of_eq hnew)) hne
  · rw [h.row_eq, TaskChange.write_of_ne hnew he]

theorem fits_iff {event : DomainEvent} : Fits D c event d ↔
    tooLong D.engine [(event.notification D c).title] = false ∧
      dangling D.engine d.users (event.notification D c).userId = false ∧
      ∀ n ∈ d.notifications.rows, n.id ≠ (event.notification D c).id := by
  unfold Fits Db.insertNotification
  constructor
  · rintro ⟨d', h⟩
    obtain ⟨hc, hr⟩ := checked_eq_ok.mp h
    obtain ⟨t, ht, -⟩ := Option.map_eq_some_iff.mp hr
    exact ⟨hc _ List.mem_cons_self, hc _ (List.mem_cons_of_mem _ List.mem_cons_self), (Table.insert?_eq_some.mp ht).1⟩
  · rintro ⟨hlong, huser, hid⟩
    obtain ⟨t, ht, -⟩ := Table.insert?_of_new hid
    exact ⟨{ d with notifications := t }, checked_eq_ok.mpr ⟨by simp [hlong, huser], congrArg (Option.map _) ht⟩⟩

/-! The invariant of every schedule. -/

section Serial

variable (D : Deployment) (calls : ι → Call)

def writes (s : TaskSessions ι) : List (ι × TaskChange) :=
  s.commits.filterMap fun i => (s.phase i).written.map (Prod.mk i)

def announced (s : TaskSessions ι) : List Notification :=
  s.commits.filterMap fun i => (s.phase i).notified.map (DomainEvent.notification D (calls i))

def serial (r : Task) (changes : List (ι × TaskChange)) : Task :=
  changes.foldl (fun r p => p.2.write D (calls p.1) r) r

variable (id : Uuid) (requests : ι → TaskRequest) (d : Db)

/-- The request made the change of its payload when it had loaded the task; a position of its own choice is the one it
computed from what it saw at that moment. -/
def Sets (schedule : List ι) (i : ι) (change : TaskChange) : Prop :=
  ∃ before after actor t, schedule = before ++ i :: after ∧
    (runTasks D id calls requests d before).phase i = .loaded actor t ∧
    change = (requests i).change (calls i) t ((runTasks D id calls requests d before).view i)

end Serial

omit [DecidableEq ι] in
theorem serial_append {r : Task} {changes more : List (ι × TaskChange)} :
    serial D calls r (changes ++ more) = serial D calls (serial D calls r changes) more := List.foldl_append

/-- `r` is the committed row of the task and `first` the row at the start. -/
structure Orderly (D : Deployment) (id : Uuid) (calls : ι → Call) (d : Db) (first : Task) (r : Task)
    (s : TaskSessions ι) : Prop where
  locked : s.Locked
  pending : ∀ i, s.pending i = (s.phase i).pending D (calls i)
  ended : ∀ i, i ∈ s.commits ↔ (s.phase i).ended = true
  once : s.commits.Nodup
  row : s.committed.tasks.lookup id = some r
  history : r = serial D calls first (writes s)
  version : r.version = first.version + (writes s).length
  feed : s.committed.notifications.rows = d.notifications.rows ++ announced D calls s
  frame : s.committed = { d with tasks := s.committed.tasks, notifications := s.committed.notifications }
  phases : ∀ i, (s.phase i).Ok D (calls i) s.committed r

section Invariant

variable {s : TaskSessions ι} {first r : Task} {i : ι}

omit [DecidableEq ι] in
theorem writes_congr {s' : TaskSessions ι} (hc : s'.commits = s.commits) (hp : ∀ j ∈ s.commits, s'.phase j = s.phase j) :
    writes s' = writes s := by
  unfold writes
  rw [hc]
  exact List.filterMap_congr fun j hj => by rw [hp j hj]

omit [DecidableEq ι] in
theorem announced_congr {s' : TaskSessions ι} (hc : s'.commits = s.commits)
    (hp : ∀ j ∈ s.commits, s'.phase j = s.phase j) : announced D calls s' = announced D calls s := by
  unfold announced
  rw [hc]
  exact List.filterMap_congr fun j hj => by rw [hp j hj]

omit [DecidableEq ι] in
theorem orderly_start (h : d.tasks.lookup id = some first) :
    Orderly D id calls d first first (Sessions.start d .start : TaskSessions ι) where
  locked := Sessions.locked_start
  pending _ := rfl
  ended _ := by simp [Sessions.start, TaskPhase.ended]
  once := List.nodup_nil
  row := h
  history := rfl
  version := rfl
  feed := (List.append_nil _).symm
  frame := rfl
  phases _ := trivial

theorem Orderly.quiet (h : Orderly D id calls d first r s) {act : ι → TaskPhase → Db → Action Db RowKey TaskPhase}
    {a : Action Db RowKey TaskPhase} (ha : act i (s.phase i) (s.view i) = a) (hquiet : ∀ p, a ≠ .commit p)
    (hrunning : (s.phase i).ended = false) (hended : ((s.perform i a).phase i).ended = false)
    (hpending : (s.perform i a).pending i = ((s.perform i a).phase i).pending D (calls i))
    (hok : ((s.perform i a).phase i).Ok D (calls i) s.committed r) :
    Orderly D id calls d first r (s.step act i) := by
  have hlocked : (s.step act i).Locked := h.locked.step
  unfold Sessions.step at hlocked ⊢
  rw [ha] at hlocked ⊢
  have hcommits := Sessions.commits_perform (s := s) (i := i) hquiet
  have hcommitted := Sessions.committed_perform (s := s) (i := i) hquiet
  have hphase : ∀ j ∈ s.commits, (s.perform i a).phase j = s.phase j := fun j hj =>
    Sessions.phase_perform_ne fun he => by
      rw [he] at hj
      exact absurd ((h.ended i).mp hj) (by simp [hrunning])
  refine ⟨hlocked, fun j => ?_, fun j => ?_, ?_, ?_, ?_, ?_, ?_, ?_, fun j => ?_⟩
  · by_cases hj : j = i
    · rw [hj]
      exact hpending
    · rw [Sessions.pending_perform_ne hj, Sessions.phase_perform_ne hj]
      exact h.pending j
  · by_cases hj : j = i
    · rw [hj, hcommits, h.ended, hrunning, hended]
    · rw [hcommits, Sessions.phase_perform_ne hj]
      exact h.ended j
  · rw [hcommits]
    exact h.once
  · rw [hcommitted]
    exact h.row
  · rw [writes_congr hcommits hphase]
    exact h.history
  · rw [writes_congr hcommits hphase]
    exact h.version
  · rw [hcommitted, announced_congr hcommits hphase]
    exact h.feed
  · rw [hcommitted]
    exact h.frame
  · rw [hcommitted]
    by_cases hj : j = i
    · rw [hj]
      exact hok
    · rw [Sessions.phase_perform_ne hj]
      exact h.phases j

/-! The commit. -/

omit [DecidableEq ι] in
theorem writes_commit {s' : TaskSessions ι} {t row : Task} {change : TaskChange} {event : Option DomainEvent}
    (hcommits : s'.commits = s.commits ++ [i]) (hold : ∀ j ∈ s.commits, s'.phase j = s.phase j)
    (hself : s'.phase i = .done change (row ≠ t) event) :
    writes s' = writes s ++ if row = t then [] else [(i, change)] := by
  unfold writes
  rw [hcommits, List.filterMap_append, List.filterMap_congr fun j hj => by rw [hold j hj]]
  congr 1
  by_cases hrow : row = t <;> simp [hself, hrow, TaskPhase.written]

omit [DecidableEq ι] in
theorem announced_commit {s' : TaskSessions ι} {wrote : Bool} {change : TaskChange} {event : Option DomainEvent}
    (hcommits : s'.commits = s.commits ++ [i]) (hold : ∀ j ∈ s.commits, s'.phase j = s.phase j)
    (hself : s'.phase i = .done change wrote event) : announced D calls s' = announced D calls s ++
      (event.map (DomainEvent.notification D (calls i))).toList := by
  unfold announced
  rw [hcommits, List.filterMap_append, List.filterMap_congr fun j hj => by rw [hold j hj]]
  congr 1
  cases event <;> simp [hself, TaskPhase.notified]

theorem fits_congr {event : DomainEvent} {d d' : Db} (hu : d'.users = d.users) (hn : d'.notifications = d.notifications) :
    Fits D c event d' ↔ Fits D c event d := by rw [fits_iff, fits_iff, hu, hn]

theorem replay_notification {event : DomainEvent} (h : Fits D c event d) :
    ∃ ns : Table Notification, ns.rows = d.notifications.rows ++ [event.notification D c] ∧
      replay (Db.insertNotification D.engine (event.notification D c)) d = { d with notifications := ns } := by
  obtain ⟨d', hd⟩ := h
  obtain ⟨-, ns, hrows, rfl⟩ := Db.insertNotification_ok hd
  exact ⟨ns, hrows, by rw [replay, hd]⟩

theorem Flushed.keeps {t row r : Task} {change : TaskChange} (h : Flushed D c t change row r) (hne : row ≠ t) :
    row.id = t.id ∧ row.version = t.version + 1 ∧ setClause t row t = row := by
  obtain ⟨new, hnew, rfl⟩ := h.write_ne hne
  obtain ⟨hid, hproject, hby, hat, hversion⟩ := TaskChange.apply_keeps hnew
  exact ⟨hid, congrArg (· + 1) hversion, setClause_self hid hproject hby hat⟩

omit [DecidableEq ι] in
theorem Orderly.view (h : Orderly D id calls d first r s) {t row : Task} {change : TaskChange}
    {event : Option DomainEvent} (hp : s.phase i = .answered t change row event) :
    ∃ ts ns, s.view i = { d with tasks := ts, notifications := ns } ∧
      ts.lookup id = some (if row = t then r else row) ∧
      ns.rows = s.committed.notifications.rows ++ (event.map (DomainEvent.notification D (calls i))).toList := by
  have hok := h.phases i
  rw [hp] at hok
  obtain ⟨hflushed, hfits⟩ := hok
  have hview : s.view i = (event.map (notifyStatement D (calls i))).toList.foldl (fun d w => w.run d)
      ((rowWrites t row).foldl (fun d w => w.run d) s.committed) := by
    rw [Sessions.view, h.pending, hp, TaskPhase.pending, List.foldl_append]
  -- the row first, then the notification
  obtain ⟨ts, hts, hlookup⟩ : ∃ ts, (rowWrites t row).foldl (fun d w => w.run d) s.committed =
      { s.committed with tasks := ts } ∧ ts.lookup id = some (if row = t then r else row) := by
    by_cases hrow : row = t
    · refine ⟨s.committed.tasks, ?_, ?_⟩
      · simp [rowWrites, hrow]
      · rw [h.row, if_pos hrow]
    · obtain rfl := hflushed.base hrow
      obtain ⟨-, -, hset⟩ := hflushed.keeps hrow
      refine ⟨(updateTaskRow t row s.committed).tasks, ?_, ?_⟩
      · simp [rowWrites, hrow, updateStatement, updateTaskRow]
      · rw [lookup_updateTaskRow, h.row, if_neg hrow]
        simp [hset]
  rw [hts, h.frame] at hview
  cases event with
  | none => exact ⟨ts, _, hview, hlookup, (List.append_nil _).symm⟩
  | some e =>
    have husers : s.committed.users = d.users := by rw [h.frame]
    have hfit : Fits D (calls i) e { d with tasks := ts, notifications := s.committed.notifications } := by
      have hcongr : Fits D (calls i) e { d with tasks := ts, notifications := s.committed.notifications } ↔
          Fits D (calls i) e s.committed := fits_congr husers.symm rfl
      exact hcongr.mpr (hfits e rfl)
    obtain ⟨ns, hns, hreplay⟩ := replay_notification hfit
    refine ⟨ts, ns, ?_, hlookup, hns⟩
    rw [hview]
    exact hreplay

theorem Seen.after_commit {t' t row r : Task} {change : TaskChange} (hs : Seen t' r) (h : Flushed D c t change row r) :
    Seen t' (if row = t then r else row) := by
  by_cases hrow : row = t
  · rwa [if_pos hrow]
  · obtain ⟨hid, hversion, -⟩ := h.keeps hrow
    rw [if_neg hrow]
    have hlater : t'.version < row.version := by
      have hle := hs.version
      rw [← h.base hrow] at hle
      omega
    exact ⟨hs.id.trans (h.id.symm.trans hid.symm), hlater.le, fun he => absurd he hlater.ne⟩

theorem Flushed.after_commit {c' : Call} {t' row' t row r : Task} {change' change : TaskChange}
    (hf : Flushed D c' t' change' row' r) (h : Flushed D c t change row r) (alone : row' ≠ t' → row = t) :
    Flushed D c' t' change' row' (if row = t then r else row) := by
  by_cases hrow : row = t
  · rwa [if_pos hrow]
  · obtain ⟨hid, -, -⟩ := h.keeps hrow
    rw [if_neg hrow]
    exact ⟨hf.id.trans (h.id.symm.trans hid.symm), hf.applied, hf.row_eq, fun hne => absurd (alone hne) hrow⟩

omit [DecidableEq ι] in
/-- The row lock: of two sessions with a net change to the task only one has flushed it. -/
theorem Orderly.unchanged_of_flushed (h : Orderly D id calls d first r s) {j : ι} (hj : j ≠ i) {t row t' row' : Task}
    (hi : ∀ w ∈ rowWrites t row, w ∈ s.pending i) (hw : ∀ w ∈ rowWrites t' row', w ∈ s.pending j) (hid : t'.id = t.id)
    (hne : row' ≠ t') : row = t := by
  by_contra hrow
  have hpi : updateStatement t row ∈ s.pending i := hi _ (by simp [rowWrites, hrow])
  have hpj : updateStatement t' row' ∈ s.pending j := hw _ (by simp [rowWrites, hne])
  have hij := h.locked.eq_of_pending (k := .task t.id) hpj hpi (by simp [updateStatement, hid]) (by simp [updateStatement])
  exact hj hij

omit [DecidableEq ι] in
theorem Orderly.fits_after_commit (h : Orderly D id calls d first r s) {j : ι} (hj : j ≠ i) {e : DomainEvent}
    {event : Option DomainEvent} {ts : Table Task} {ns : Table Notification}
    (hi : ∀ w ∈ (event.map (notifyStatement D (calls i))).toList, w ∈ s.pending i)
    (hw : notifyStatement D (calls j) e ∈ s.pending j) (hf : Fits D (calls j) e s.committed)
    (hns : ns.rows = s.committed.notifications.rows ++ (event.map (DomainEvent.notification D (calls i))).toList) :
    Fits D (calls j) e { d with tasks := ts, notifications := ns } := by
  have husers : s.committed.users = d.users := by rw [h.frame]
  rw [fits_iff] at hf ⊢
  refine ⟨hf.1, husers ▸ hf.2.1, fun n hn => ?_⟩
  rw [hns, List.mem_append] at hn
  rcases hn with hn | hn
  · exact hf.2.2 n hn
  · cases event with
    | none => simp at hn
    | some e' =>
      simp only [Option.map_some, Option.toList_some, List.mem_singleton] at hn
      subst hn
      intro hid
      have hpi : notifyStatement D (calls i) e' ∈ s.pending i := hi _ (by simp)
      exact hj (h.locked.eq_of_pending (k := .notification (e'.notification D (calls i)).id) hw hpi
        (by simp [notifyStatement, hid]) (by simp [notifyStatement]))

omit [DecidableEq ι] in
/-- A commit leaves every other session where it was. -/
theorem Orderly.phase_after_commit (h : Orderly D id calls d first r s) {j : ι} (hj : j ≠ i) {t row : Task} {change : TaskChange}
    {event : Option DomainEvent} (hp : s.phase i = .answered t change row event) {ts : Table Task} {ns : Table Notification}
    (hns : ns.rows = s.committed.notifications.rows ++ (event.map (DomainEvent.notification D (calls i))).toList) :
    (s.phase j).Ok D (calls j) { d with tasks := ts, notifications := ns } (if row = t then r else row) := by
  have hok := h.phases i
  have hpi := h.pending i
  rw [hp] at hok hpi
  obtain ⟨hflushed, -⟩ := hok
  have hrow : ∀ w ∈ rowWrites t row, w ∈ s.pending i := fun w hw => hpi ▸ List.mem_append_left _ hw
  have hevent : ∀ w ∈ (event.map (notifyStatement D (calls i))).toList, w ∈ s.pending i :=
    fun w hw => hpi ▸ List.mem_append_right _ hw
  have hokj := h.phases j
  have hpj := h.pending j
  have hmoved : ∀ {t' change' row'}, Flushed D (calls j) t' change' row' r →
      (∀ w ∈ rowWrites t' row', w ∈ s.pending j) → Flushed D (calls j) t' change' row' (if row = t then r else row) :=
    fun hf hw => hf.after_commit hflushed (h.unchanged_of_flushed hj hrow hw (hf.id.trans hflushed.id.symm))
  generalize s.phase j = p at hokj hpj ⊢
  cases p with
  | start => trivial
  | loaded actor t' => exact Seen.after_commit hokj hflushed
  | ready actor t' change' => exact Seen.after_commit hokj hflushed
  | flushed actor t' change' row' => exact hmoved hokj fun w hw => hpj ▸ hw
  | published t' change' row' event' | answered t' change' row' event' =>
    refine ⟨hmoved hokj.1 fun w hw => hpj ▸ List.mem_append_left _ hw, fun e he => ?_⟩
    refine h.fits_after_commit hj hevent ?_ (hokj.2 e he) hns
    rw [hpj, he]
    exact List.mem_append_right _ (by simp)
  | done change' wrote event' => trivial
  | failed e => trivial

theorem Orderly.commit (h : Orderly D id calls d first r s) {act : ι → TaskPhase → Db → Action Db RowKey TaskPhase}
    {t row : Task} {change : TaskChange} {event : Option DomainEvent} (hp : s.phase i = .answered t change row event)
    (ha : act i (s.phase i) (s.view i) = .commit (.done change (row ≠ t) event)) :
    Orderly D id calls d first (if row = t then r else row) (s.step act i) := by
  have hlocked : (s.step act i).Locked := h.locked.step
  have hok := h.phases i
  rw [hp] at hok
  obtain ⟨hflushed, -⟩ := hok
  obtain ⟨ts, ns, hview, hlookup, hns⟩ := h.view hp
  have hnot : i ∉ s.commits := fun hi => by
    have := (h.ended i).mp hi
    rw [hp] at this
    exact absurd this (by simp [TaskPhase.ended])
  unfold Sessions.step at hlocked ⊢
  rw [ha] at hlocked ⊢
  generalize hs' : s.perform i (.commit (.done change (row ≠ t) event)) = s' at hlocked ⊢
  have hself : s'.phase i = .done change (row ≠ t) event := by rw [← hs']; simp [Sessions.perform, Sessions.close]
  have hother : ∀ j, j ≠ i → s'.phase j = s.phase j := fun j hj => hs' ▸ Sessions.phase_perform_ne hj
  have hcommits : s'.commits = s.commits ++ [i] := by rw [← hs']; rfl
  have hcommitted : s'.committed = { d with tasks := ts, notifications := ns } := by rw [← hs']; exact hview
  have hold : ∀ j ∈ s.commits, s'.phase j = s.phase j := fun j hj => hother j fun he => hnot (he ▸ hj)
  have hwrites := writes_commit hcommits hold hself
  have hannounced : announced D calls s' = announced D calls s ++
      (event.map (DomainEvent.notification D (calls i))).toList := announced_commit hcommits hold hself
  refine ⟨hlocked, fun j => ?_, fun j => ?_, ?_, ?_, ?_, ?_, ?_, ?_, fun j => ?_⟩
  · by_cases hj : j = i
    · rw [hj, hself, ← hs']
      simp [Sessions.perform, Sessions.close, TaskPhase.pending]
    · rw [hother j hj, ← hs', Sessions.pending_perform_ne hj]
      exact h.pending j
  · by_cases hj : j = i
    · rw [hj, hself, hcommits]
      simp [TaskPhase.ended]
    · rw [hother j hj, hcommits, List.mem_append, List.mem_singleton, h.ended j]
      simp [hj]
  · rw [hcommits]
    exact h.once.append (List.nodup_singleton i) (by simpa using hnot)
  · rw [hcommitted]
    exact hlookup
  · rw [hwrites, serial_append, ← h.history]
    by_cases hrow : row = t
    · simp [hrow, serial]
    · simp only [hrow, if_false, serial, List.foldl_cons, List.foldl_nil]
      rw [hflushed.row_eq, hflushed.base hrow]
  · rw [hwrites, List.length_append]
    by_cases hrow : row = t
    · simp [hrow, h.version]
    · obtain ⟨-, hversion, -⟩ := hflushed.keeps hrow
      rw [hflushed.base hrow, h.version] at hversion
      simp only [hrow, if_false, List.length_singleton]
      omega
  · rw [hcommitted, hannounced, ← List.append_assoc, ← h.feed]
    exact hns
  · rw [hcommitted]
  · by_cases hj : j = i
    · rw [hj, hself]
      trivial
    · rw [hother j hj, hcommitted]
      exact h.phase_after_commit hj hp hns

/-! The other statements. -/

theorem loaded_of_read {request : TaskRequest} {actor : User} {t : LoadedTask}
    (h : read (loadTask id c request) d = .ok (actor, t)) :
    CurrentUser c d actor ∧ request.errors = [] ∧ ∃ row, Accessible d actor id row ∧ t = d.loadTask row := by
  obtain ⟨u, hu⟩ := Tx.answer_eq_ok.mp h
  simp only [loadTask, Tx.succeeds_bind, Routes.succeeds_accessibleTask, succeeds_validated, Tx.succeeds_pure] at hu
  obtain ⟨_, _, ⟨actor', row, caller, task, rfl, rfl⟩, _, _, ⟨errors, rfl⟩, he, -⟩ := hu
  obtain ⟨rfl, rfl⟩ := Prod.mk.inj he
  exact ⟨caller, errors, row, task, rfl⟩

theorem seen_of_read {request : TaskRequest} {actor : User} {t : LoadedTask} (hr : d.tasks.lookup id = some r)
    (h : read (loadTask id c request) d = .ok (actor, t)) : Seen t.row r := by
  obtain ⟨-, -, row, task, rfl⟩ := loaded_of_read h
  have hrow : d.tasks.lookup id = some row := Table.lookup_eq_some.mpr ⟨task.mem, task.id_eq⟩
  obtain rfl : row = r := Option.some.inj (hrow.symm.trans hr)
  exact ⟨rfl, le_refl _, fun _ => rfl⟩

theorem Seen.eq_of_putTask {t row r : Task} {d' : Db} (h : Seen t r) (hr : d.tasks.lookup id = some r) (hid : row.id = t.id)
    (hput : Db.putTask D.engine t.version row d = .ok d') : t = r := by
  obtain ⟨hc, -⟩ := checked_eq_ok.mp hput
  have hmatch := hc _ (List.mem_cons_of_mem _ List.mem_cons_self)
  simp only [Bool.not_eq_false', List.any_eq_true, Bool.and_eq_true, beq_iff_eq] at hmatch
  obtain ⟨x, hx, hxid, hxv⟩ := hmatch
  obtain ⟨hmem, hkey⟩ := Table.lookup_eq_some.mp hr
  have hsame : x = r := d.tasks.eq_of_key hx hmem (hxid.trans (hid.trans h.id))
  exact h.same (by rw [← hxv, hsame])

section Statements

variable {act : ι → TaskPhase → Db → Action Db RowKey TaskPhase} {p : TaskPhase}

theorem Orderly.select (h : Orderly D id calls d first r s) (ha : act i (s.phase i) (s.view i) = .read p)
    (hrunning : (s.phase i).ended = false) (hended : p.ended = false)
    (hpending : p.pending D (calls i) = (s.phase i).pending D (calls i)) (hok : p.Ok D (calls i) s.committed r) :
    Orderly D id calls d first r (s.step act i) := by
  apply h.quiet ha (by simp) hrunning <;> simp only [Sessions.perform, Sessions.phase_goTo]
  · exact hended
  · rw [hpending]
    exact h.pending i
  · exact hok

theorem Orderly.rollback (h : Orderly D id calls d first r s) {e : Raised}
    (ha : act i (s.phase i) (s.view i) = .rollback (.failed e)) (hrunning : (s.phase i).ended = false) :
    Orderly D id calls d first r (s.step act i) := by
  apply h.quiet ha (by simp) hrunning <;> simp only [Sessions.perform, Sessions.phase_close, Sessions.pending_close]
  · rfl
  · rfl
  · trivial

theorem Orderly.update (h : Orderly D id calls d first r s) {w : Write Db RowKey}
    (ha : act i (s.phase i) (s.view i) = .write w p) (hrunning : (s.phase i).ended = false) (hended : p.ended = false)
    (hpending : p.pending D (calls i) = (s.phase i).pending D (calls i) ++ [w])
    (hok : p.Ok D (calls i) s.committed r) : Orderly D id calls d first r (s.step act i) := by
  cases hb : s.blocked i w.keys with
  | true =>
    rw [Sessions.step, ha, Sessions.perform_blocked hb]
    exact h
  | false =>
    have hphase := Sessions.phase_perform_write (p := p) hb
    apply h.quiet ha (by simp) hrunning
    · rw [hphase]
      exact hended
    · rw [Sessions.pending_perform_write hb, hphase, hpending, h.pending]
    · rw [hphase]
      exact hok

theorem Orderly.stop (h : Orderly D id calls d first r s) (ha : act i (s.phase i) (s.view i) = .stop) :
    Orderly D id calls d first r (s.step act i) := by
  rw [Sessions.step, ha]
  exact h

end Statements

omit [DecidableEq ι] in
theorem Orderly.view_unwritten (h : Orderly D id calls d first r s) (hp : (s.phase i).pending D (calls i) = []) :
    s.view i = s.committed := Sessions.view_of_pending_nil ((h.pending i).trans hp)

omit [DecidableEq ι] in
theorem Orderly.view_flushed (h : Orderly D id calls d first r s) {t row : Task}
    (hp : (s.phase i).pending D (calls i) = rowWrites t row) :
    (s.view i).users = s.committed.users ∧ (s.view i).notifications = s.committed.notifications := by
  rw [Sessions.view, h.pending, hp]
  by_cases hrow : row = t
  · simp [rowWrites, hrow]
  · simp [rowWrites, hrow, updateStatement, updateTaskRow]

theorem Orderly.step (h : Orderly D id calls d first r s) (i : ι) : ∃ r',
    Orderly D id calls d first r' (s.step (statements D id calls requests) i) := by
  have hok := h.phases i
  cases hp : s.phase i with
  | start =>
    have hview : s.view i = s.committed := h.view_unwritten (by rw [hp]; rfl)
    cases hread : read (loadTask id (calls i) (requests i)) s.committed with
    | error e => exact ⟨r, h.rollback (e := e) (by rw [hp, hview, statements, TaskPhase.next, hread]) (by rw [hp]; rfl)⟩
    | ok loaded =>
      have hseen := seen_of_read h.row hread
      exact ⟨r, h.select (p := .loaded loaded.1 loaded.2.row) (by rw [hp, hview, statements, TaskPhase.next, hread])
        (by rw [hp]; rfl) rfl (by rw [hp]; rfl) hseen⟩
  | loaded actor t =>
    rw [hp] at hok
    exact ⟨r, h.select (p := .ready actor t ((requests i).change (calls i) t (s.view i))) (by rw [hp, statements, TaskPhase.next])
      (by rw [hp]; rfl) rfl (by rw [hp]; rfl) hok⟩
  | ready actor t change =>
    have hview : s.view i = s.committed := h.view_unwritten (by rw [hp]; rfl)
    rw [hp] at hok
    have hseen : Seen t r := hok
    cases happly : change.apply t with
    | error e =>
      exact ⟨r, h.rollback (e := e) (by rw [hp, statements, TaskPhase.next, happly]) (by rw [hp]; rfl)⟩
    | ok new =>
      by_cases hnew : new = t
      · subst hnew
        refine ⟨r, h.select (p := .flushed actor new change new) ?_ (by rw [hp]; rfl) rfl ?_ ?_⟩
        · rw [hp, statements, TaskPhase.next, happly]
          exact if_pos rfl
        · rw [hp]
          simp [TaskPhase.pending, rowWrites]
        · exact ⟨hseen.id, ⟨new, happly⟩, (TaskChange.write_of_eq happly).symm, fun hne => absurd rfl hne⟩
      · obtain ⟨hid, -, -, -, hversion⟩ := TaskChange.apply_keeps happly
        have hstamped : (TaskRepository.stamped D (calls i) new).id = t.id := hid
        cases hput : Db.putTask D.engine t.version (TaskRepository.stamped D (calls i) new) s.committed with
        | error e =>
          refine ⟨r, h.rollback (e := e) ?_ (by rw [hp]; rfl)⟩
          rw [hp, hview]
          simp only [TaskPhase.next, happly, if_neg hnew, hput]
        | ok d' =>
          refine ⟨r, h.update (w := updateStatement t (TaskRepository.stamped D (calls i) new))
            (p := .flushed actor t change (TaskRepository.stamped D (calls i) new)) ?_ (by rw [hp]; rfl) rfl ?_ ?_⟩
          · rw [hp, hview]
            simp only [TaskPhase.next, happly, if_neg hnew, hput]
          · rw [hp]
            simp [TaskPhase.pending, rowWrites, stamped_ne hversion]
          · exact ⟨hseen.id, ⟨new, happly⟩, (TaskChange.write_of_ne happly hnew).symm,
              fun _ => hseen.eq_of_putTask h.row hstamped hput⟩
  | flushed actor t change row =>
    rw [hp] at hok
    have hflushed : Flushed D (calls i) t change row r := hok
    cases hevent : (requests i).event (s.view i) actor t row with
    | none =>
      refine ⟨r, h.select (p := .published t change row none) ?_ (by rw [hp]; rfl) rfl ?_ ⟨hflushed, by simp⟩⟩
      · rw [hp]
        simp only [TaskPhase.next, hevent]
      · rw [hp]
        simp [TaskPhase.pending]
    | some event =>
      cases hinsert : Db.insertNotification D.engine (event.notification D (calls i)) (s.view i) with
      | error e =>
        refine ⟨r, h.rollback (e := e) ?_ (by rw [hp]; rfl)⟩
        rw [hp]
        simp only [TaskPhase.next, hevent, hinsert]
      | ok d' =>
        have hunsent : (s.phase i).pending D (calls i) = rowWrites t row := by rw [hp]; rfl
        obtain ⟨husers, hnotifications⟩ := h.view_flushed hunsent
        have hfits : Fits D (calls i) event s.committed := (fits_congr husers hnotifications).mp ⟨d', hinsert⟩
        refine ⟨r, h.update (w := notifyStatement D (calls i) event) (p := .published t change row (some event)) ?_
          (by rw [hp]; rfl) rfl ?_ ⟨hflushed, fun e he => ?_⟩⟩
        · rw [hp]
          simp only [TaskPhase.next, hevent, hinsert]
        · rw [hp]
          simp [TaskPhase.pending]
        · obtain rfl := Option.some.inj he
          exact hfits
  | published t change row event =>
    rw [hp] at hok
    by_cases hgone : (requests i).reloads = true ∧ TaskRepository.find row.id (s.view i) = none
    · refine ⟨r, h.rollback (e := .unexpected) ?_ (by rw [hp]; rfl)⟩
      rw [hp, statements, TaskPhase.next, if_pos hgone]
    · refine ⟨r, h.select (p := .answered t change row event) ?_ (by rw [hp]; rfl) rfl (by rw [hp]; rfl) hok⟩
      rw [hp, statements, TaskPhase.next, if_neg hgone]
  | answered t change row event => exact ⟨_, h.commit hp (by rw [hp, statements, TaskPhase.next])⟩
  | done change wrote event => exact ⟨r, h.stop (by rw [hp, statements, TaskPhase.next])⟩
  | failed e => exact ⟨r, h.stop (by rw [hp, statements, TaskPhase.next])⟩

theorem orderly_run (h : d.tasks.lookup id = some first) (schedule : List ι) :
    ∃ r, Orderly D id calls d first r (runTasks D id calls requests d schedule) := by
  apply Sessions.play_invariant (I := fun s => ∃ r, Orderly D id calls d first r s)
  · rintro s i ⟨r, hs⟩
    exact hs.step i
  · exact ⟨first, orderly_start h⟩

/-! What a request writes is what its payload says. -/

theorem TaskPhase.carried_next {request : TaskRequest} {p q : TaskPhase} {d : Db} {change : TaskChange}
    (hq : (TaskPhase.next D id c request p d).goal = some q) (hchange : q.carried = some change) :
    p.carried = some change ∨ ∃ actor t, p = .loaded actor t ∧ change = request.change c t d := by
  cases p with
  | start =>
    simp only [TaskPhase.next] at hq
    split at hq <;> obtain rfl := Option.some.inj hq <;> simp [TaskPhase.carried] at hchange
  | loaded actor t =>
    obtain rfl := Option.some.inj hq
    exact Or.inr ⟨actor, t, rfl, (Option.some.inj hchange).symm⟩
  | ready actor t change' =>
    simp only [TaskPhase.next] at hq
    split at hq
    · obtain rfl := Option.some.inj hq
      simp [TaskPhase.carried] at hchange
    · split at hq
      · obtain rfl := Option.some.inj hq
        exact Or.inl hchange
      · split at hq
        · obtain rfl := Option.some.inj hq
          simp [TaskPhase.carried] at hchange
        · obtain rfl := Option.some.inj hq
          exact Or.inl hchange
  | flushed actor t change' row =>
    simp only [TaskPhase.next] at hq
    split at hq
    · obtain rfl := Option.some.inj hq
      exact Or.inl hchange
    · split at hq
      · obtain rfl := Option.some.inj hq
        simp [TaskPhase.carried] at hchange
      · obtain rfl := Option.some.inj hq
        exact Or.inl hchange
  | published t change' row event =>
    simp only [TaskPhase.next] at hq
    split at hq
    · obtain rfl := Option.some.inj hq
      simp [TaskPhase.carried] at hchange
    · obtain rfl := Option.some.inj hq
      exact Or.inl hchange
  | answered t change' row event =>
    obtain rfl := Option.some.inj hq
    exact Or.inl hchange
  | done change' wrote event => simp [TaskPhase.next, Action.goal] at hq
  | failed e => simp [TaskPhase.next, Action.goal] at hq

theorem Sets.append {schedule more : List ι} {change : TaskChange} (h : Sets D calls id requests d schedule i change) :
    Sets D calls id requests d (schedule ++ more) i change := by
  obtain ⟨before, after, actor, t, rfl, hphase, hchange⟩ := h
  exact ⟨before, after ++ more, actor, t, by simp, hphase, hchange⟩

theorem sets_of_carried (schedule : List ι) (i : ι) {change : TaskChange}
    (h : ((runTasks D id calls requests d schedule).phase i).carried = some change) :
    Sets D calls id requests d schedule i change := by
  induction schedule using List.reverseRecOn with
  | nil => simp [runTasks, Sessions.start, TaskPhase.carried] at h
  | append_singleton schedule j ih =>
    rw [runTasks, Sessions.play_append, Sessions.play_cons, Sessions.play_nil, ← runTasks, Sessions.step] at h
    by_cases hij : i = j
    · subst hij
      rcases Sessions.phase_perform_self (s := runTasks D id calls requests d schedule) (i := i)
        (statements D id calls requests i ((runTasks D id calls requests d schedule).phase i)
          ((runTasks D id calls requests d schedule).view i)) with hsame | hgoal
      · rw [hsame] at h
        exact (ih h).append
      · rcases TaskPhase.carried_next hgoal h with hbefore | ⟨actor, t, hloaded, hchange⟩
        · exact (ih hbefore).append
        · exact ⟨schedule, [], actor, t, rfl, hloaded, hchange⟩
    · rw [Sessions.phase_perform_ne hij] at h
      exact (ih h).append

/-! A change based on a version that is no longer committed. -/

/-- PostgreSQL looks at the texts of an `UPDATE` before it looks for the row. -/
def staleError (D : Deployment) (row : Task) : Raised :=
  if holdsNul D.engine ([row.title] ++ row.description.toList) then .unexpected else .staleData

theorem staleError_stamped {row : Task} : staleError D (TaskRepository.stamped D c row) = staleError D row := rfl

theorem staleError_of_putTask {loaded : ℕ} {row : Task} {d' : Db} (h : Db.putTask D.engine loaded row d = .ok d') :
    staleError D row = .staleData := by
  obtain ⟨hc, -⟩ := checked_eq_ok.mp h
  have htexts := hc _ List.mem_cons_self
  simp only at htexts
  rw [staleError, htexts]
  rfl

theorem putTask_stale {t row r : Task} (hr : d.tasks.lookup id = some r) (hid : row.id = r.id)
    (hstale : t.version ≠ r.version) : Db.putTask D.engine t.version row d = .error (staleError D row) := by
  have hnone : d.tasks.rows.any (fun x => x.id == row.id && x.version == t.version) = false := by
    apply List.any_eq_false.mpr
    intro x hx
    obtain ⟨hmem, hkey⟩ := Table.lookup_eq_some.mp hr
    simp only [Bool.and_eq_true, beq_iff_eq, not_and]
    intro hxid hversion
    have hsame : x = r := d.tasks.eq_of_key hx hmem (hxid.trans hid)
    exact hstale (hversion.symm.trans (congrArg Task.version hsame))
  unfold staleError
  cases hnul : holdsNul D.engine ([row.title] ++ row.description.toList) <;>
    simp only [Db.putTask, checked, hnul, hnone, List.find?_cons, Bool.not_false, if_true, Bool.false_eq_true, if_false]

theorem Orderly.stale (h : Orderly D id calls d first r s) {actor : User} {t new : Task} {change : TaskChange}
    (hp : s.phase i = .ready actor t change) (happly : change.apply t = .ok new) (hchanged : new ≠ t)
    (hstale : t.version ≠ r.version) :
    s.step (statements D id calls requests) i = s.close i (.failed (staleError D new)) := by
  have hview : s.view i = s.committed := h.view_unwritten (by rw [hp]; rfl)
  have hok := h.phases i
  rw [hp] at hok
  have hseen : Seen t r := hok
  obtain ⟨hid, -⟩ := TaskChange.apply_keeps happly
  have hput : Db.putTask D.engine t.version (TaskRepository.stamped D (calls i) new) s.committed =
      .error (staleError D (TaskRepository.stamped D (calls i) new)) := putTask_stale h.row (hid.trans hseen.id) hstale
  rw [Sessions.step, hp, hview]
  simp only [TaskPhase.next, happly, if_neg hchanged, hput, staleError_stamped]
  rfl

omit [DecidableEq ι] in
theorem Orderly.mem_writes (h : Orderly D id calls d first r s) {change : TaskChange} :
    (i, change) ∈ writes s ↔ ∃ event, s.phase i = .done change true event := by
  simp only [writes, List.mem_filterMap, Option.map_eq_some_iff, Prod.mk.injEq]
  constructor
  · rintro ⟨j, -, change', hwritten, rfl, rfl⟩
    generalize s.phase j = p at hwritten ⊢
    cases p with
    | done change'' wrote event =>
      cases wrote with
      | true => exact ⟨event, by rw [Option.some.inj hwritten]⟩
      | false => simp [TaskPhase.written] at hwritten
    | _ => simp [TaskPhase.written] at hwritten
  · rintro ⟨event, hp⟩
    exact ⟨i, (h.ended i).mpr (by rw [hp]; rfl), change, by rw [hp]; rfl, rfl, rfl⟩

omit [DecidableEq ι] in
theorem Orderly.nodup_writes (h : Orderly D id calls d first r s) : (writes s).Nodup := by
  apply List.Nodup.filterMap ?_ h.once
  intro i j p hi hj
  obtain ⟨_, _, hfst⟩ := Option.map_eq_some_iff.mp hi
  obtain ⟨_, _, hfst'⟩ := Option.map_eq_some_iff.mp hj
  exact (congrArg Prod.fst hfst).trans (congrArg Prod.fst hfst').symm

end Invariant

/-- Every schedule of any requests on one task amounts to the requests that committed a write, one after the other;
and a flush on a version that is no longer the committed one fails for good. -/
theorem no_lost_update {first : Task} (h : d.tasks.lookup id = some first) (schedule : List ι) :
    let s := runTasks D id calls requests d schedule
    ∃ r, s.committed.tasks.lookup id = some r ∧ r = serial D calls first (writes s) ∧
      r.version = first.version + (writes s).length ∧ (writes s).Nodup ∧
      (∀ i change, (i, change) ∈ writes s ↔ ∃ event, s.phase i = .done change true event) ∧
      (∀ i change, (i, change) ∈ writes s → Sets D calls id requests d schedule i change) ∧
      s.committed = { d with tasks := s.committed.tasks, notifications := s.committed.notifications } ∧
      s.committed.notifications.rows = d.notifications.rows ++ announced D calls s ∧
      ∀ i actor t change new, s.phase i = .ready actor t change → change.apply t = .ok new → new ≠ t →
        t.version ≠ r.version → (runTasks D id calls requests d (schedule ++ [i])).committed = s.committed ∧
          ∀ more, let s' := runTasks D id calls requests d (schedule ++ i :: more)
            s'.phase i = .failed (staleError D new) ∧ i ∉ s'.commits := by
  intro s
  obtain ⟨r, hs⟩ := orderly_run (D := D) h schedule
  refine ⟨r, hs.row, hs.history, hs.version, hs.nodup_writes, fun i change => hs.mem_writes, fun i change hi => ?_,
    hs.frame, hs.feed, ?_⟩
  · obtain ⟨event, hp⟩ := hs.mem_writes.mp hi
    exact sets_of_carried schedule i (by rw [hp]; rfl)
  · intro i actor t change new hp happly hchanged hstale
    have hstep : s.step (statements D id calls requests) i = s.close i (.failed (staleError D new)) :=
      hs.stale hp happly hchanged hstale
    refine ⟨?_, fun more => ?_⟩
    · rw [runTasks, Sessions.play_append, Sessions.play_cons, Sessions.play_nil, ← runTasks, hstep]
      rfl
    · intro s'
      have hfailed : s'.phase i = .failed (staleError D new) := by
        show (Sessions.play _ _ (schedule ++ i :: more)).phase i = _
        rw [Sessions.play_append, Sessions.play_cons, ← runTasks, hstep]
        exact Sessions.play_phase_of_stop (fun _ => rfl) Sessions.phase_close
      obtain ⟨r', hs'⟩ := orderly_run (D := D) h (schedule ++ i :: more)
      refine ⟨hfailed, fun hi => ?_⟩
      have hended := (hs'.ended i).mp hi
      rw [hfailed] at hended
      exact absurd hended (by simp [TaskPhase.ended])

def contested : World := playFrom .postgresql World.initial oneTask

def retitleOrMove : Bool → TaskRequest
  | true => .update { title := .value "U" }
  | false => .updateStatus ⟨.inProgress, none⟩

def contenders (client : Bool) : Call := Call.sample (if client then 4 else 5) (some 16)

theorem no_lost_update_sample :
    let s := runTasks .postgresql 48 contenders retitleOrMove contested.1 [true, false, true, false, true, true, true, true, false]
    ∃ r, s.committed.tasks.lookup 48 = some r ∧ r.version = 1 + (writes s).length := by
  intro s
  have hversion : (contested.1.tasks.lookup 48).map Task.version = some 1 := by decide +kernel
  obtain ⟨first, hfirst, hone⟩ := Option.map_eq_some_iff.mp hversion
  obtain ⟨r, hr, -, hlast, -⟩ := @no_lost_update Bool _ .postgresql 48 contenders retitleOrMove contested.1 first hfirst
    [true, false, true, false, true, true, true, true, false]
  exact ⟨r, hr, hone ▸ hlast⟩

end ProjectManagement
