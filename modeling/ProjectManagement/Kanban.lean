import ProjectManagement.PageWalk

/-!
The board and the list of a project's tasks: two queries over the same rows. What a create or a move does to every column.
-/

namespace ProjectManagement

open Library

variable {D : Deployment} {c : Call} {w : World} {d d' : Db} {projectId taskId : Uuid} {status : TaskStatus} {a b t u : Task}

/-! The order of the board. -/

def Task.Before (a b : Task) : Prop := a.position < b.position ∨ a.position = b.position ∧ a.id < b.id

theorem boardOrder_status {nullsFirst : Bool} (h : rowLe nullsFirst TaskRepository.boardOrder a b = true) :
    a.status.value ≤ b.status.value := by
  rw [TaskRepository.boardOrder, rowLe_cons] at h
  simpa [OrderTerm.le, asc, Cell.le] using h.1

theorem boardOrder_column {nullsFirst : Bool} (hstatus : a.status = b.status) (hid : a.id ≠ b.id)
    (h : rowLe nullsFirst TaskRepository.boardOrder a b = true) : a.Before b := by
  simp only [TaskRepository.boardOrder, rowLe_cons, OrderTerm.le, asc, Cell.le, hstatus, decide_eq_true_eq,
    Nat.cast_le] at h
  have hrefl : b.status.value ≤ b.status.value := String.le_refl _
  obtain ⟨hposition, htie⟩ := h.2 hrefl
  rcases lt_or_eq_of_le hposition with hlt | heq
  · exact Or.inl hlt
  · have hle : a.id.toNat ≤ b.id.toNat := (htie heq.ge).1
    have hne : a.id.toNat ≠ b.id.toNat := fun he => hid (BitVec.eq_of_toNat_eq he)
    exact Or.inr ⟨heq, BitVec.lt_def.mpr (by omega)⟩

theorem filter_orderBy {ρ : Type} (e : Engine) (terms : List (OrderTerm ρ)) (p : ρ → Bool) (rows : List ρ) :
    (orderBy e terms rows).filter p = orderBy e terms (rows.filter p) :=
  (totalPreorder_rowLe e.nullsFirst terms).filter_insertionSort p rows

/-! The columns. -/

def boardColumn (D : Deployment) (projectId : Uuid) (d : Db) (status : TaskStatus) : List Task :=
  (TaskRepository.listForProject D projectId d).filter (fun t => t.status = status)

theorem foldl_group {α : Type} (f : Task → α) (rows : List Task) (board : TaskStatus → List α) (status : TaskStatus) :
    rows.foldl (fun board t status => if t.status = status then board status ++ [f t] else board status) board status =
      board status ++ (rows.filter (fun t => t.status = status)).map f := by
  induction rows generalizing board with
  | nil => simp
  | cons t rows ih =>
    rw [List.foldl_cons, ih]
    by_cases ht : t.status = status
    · simp [ht]
    · simp [ht]

theorem kanbanBoard_answer : (TaskService.kanbanBoard D projectId).answer w =
    .ok (fun status => (boardColumn D projectId w.1 status).map w.1.loadTask) := by
  have hboard : ∀ status, ((TaskRepository.listForProject D projectId w.1).foldl
      (fun board t status => if t.status = status then board status ++ [w.1.loadTask t] else board status)
      (fun _ => [])) status = (boardColumn D projectId w.1 status).map w.1.loadTask :=
    fun status => foldl_group w.1.loadTask _ _ status
  exact congrArg Except.ok (funext hboard)

theorem boardColumn_eq : boardColumn D projectId d status =
    orderBy D.engine TaskRepository.boardOrder (TaskRepository.column projectId status d) := by
  rw [boardColumn, TaskRepository.listForProject, filter_orderBy, TaskRepository.listForProjectQuery, searched, List.filter_filter]
  congr 1
  apply List.filter_congr
  intro t _
  rw [Bool.eq_iff_iff]
  simp only [Bool.and_eq_true, decide_eq_true_eq, beq_iff_eq]
  tauto

theorem perm_boardColumn : (boardColumn D projectId d status).Perm (TaskRepository.column projectId status d) := by
  rw [boardColumn_eq]
  exact perm_orderBy _ _ _

theorem mem_column : t ∈ TaskRepository.column projectId status d ↔
    t ∈ d.tasks.rows ∧ t.live = true ∧ t.projectId = projectId ∧ t.status = status := by
  simp only [TaskRepository.column, List.mem_filter, Bool.and_eq_true, beq_iff_eq]
  tauto

theorem mem_boardColumn : t ∈ boardColumn D projectId d status ↔
    t ∈ d.tasks.rows ∧ t.live = true ∧ t.projectId = projectId ∧ t.status = status :=
  perm_boardColumn.mem_iff.trans mem_column

theorem nodup_boardColumn : (boardColumn D projectId d status).Nodup :=
  perm_boardColumn.nodup_iff.mpr ((List.Nodup.of_map _ d.tasks.nodup).filter _)

theorem boardColumn_sorted : (boardColumn D projectId d status).Pairwise Task.Before := by
  have sorted := pairwise_orderBy D.engine TaskRepository.boardOrder (TaskRepository.column projectId status d)
  rw [← boardColumn_eq] at sorted
  refine (sorted.and nodup_boardColumn).imp_of_mem fun {a b} ha hb hab => ?_
  obtain ⟨ha, -, -, hsa⟩ := mem_boardColumn.mp ha
  obtain ⟨hb, -, -, hsb⟩ := mem_boardColumn.mp hb
  exact boardOrder_column (hsa.trans hsb.symm) (fun hid => hab.2 (d.tasks.eq_of_key ha hb hid)) hab.1

structure OrderedPartition (D : Deployment) (projectId : Uuid) (w : World) (board : TaskStatus → List LoadedTask) : Prop where
  once : ∀ t ∈ w.1.tasks.rows, t.live = true → t.projectId = projectId →
    ∀ status, ((board status).map LoadedTask.row).count t = if status = t.status then 1 else 0
  only : ∀ status, ∀ l ∈ board status, l.row ∈ w.1.tasks.rows ∧ l.row.live = true ∧ l.row.projectId = projectId ∧
    l.row.status = status
  sorted : ∀ status, ((board status).map LoadedTask.row).Pairwise Task.Before
  list : ∀ params : PageParams, 0 < params.size → params.sort = none → params.search = none →
    ∃ items, AllPages (TaskService.listForProject D projectId) params w items ∧
      ∀ status, board status = items.filter (fun l => l.row.status = status)

theorem map_row_loadTask (rows : List Task) : (rows.map d.loadTask).map LoadedTask.row = rows := by
  rw [List.map_map]
  exact List.map_id _

theorem kanbanBoard_orderedPartition (D : Deployment) (projectId : Uuid) (w : World) :
    ∃ board, (TaskService.kanbanBoard D projectId).answer w = .ok board ∧ OrderedPartition D projectId w board := by
  refine ⟨_, kanbanBoard_answer, ?_⟩
  constructor
  · intro t ht live project status
    rw [map_row_loadTask]
    split
    · next hstatus =>
      exact List.count_eq_one_of_mem nodup_boardColumn (mem_boardColumn.mpr ⟨ht, live, project, hstatus.symm⟩)
    · next hstatus =>
      exact List.count_eq_zero.mpr fun hmem => hstatus (mem_boardColumn.mp hmem).2.2.2.symm
  · intro status l hl
    obtain ⟨t, ht, rfl⟩ := List.mem_map.mp hl
    exact mem_boardColumn.mp ht
  · intro status
    rw [map_row_loadTask]
    exact boardColumn_sorted
  · intro params hsize hsort hsearch
    have hpages := (allPages_iff (fun params => listForProject_stored D params w projectId) hsize).mpr
      ⟨Listing.refuses_of_unsearched hsearch, rfl⟩
    refine ⟨_, hpages, fun status => ?_⟩
    have hlist : orderBy D.engine ((Listing.tasks projectId).terms params) ((Listing.tasks projectId).rows D params w.1) =
        TaskRepository.listForProject D projectId w.1 := by
      simp only [Listing.terms, Listing.rows, hsort, hsearch, if_true, TaskRepository.listForProject]
    rw [hlist, boardColumn, List.filter_map]
    rfl

/-! What a create or a move does. -/

def others (taskId : Uuid) (rows : List Task) : List Task := rows.filter (fun t => t.id != taskId)

/-- Every other row, and every board but for this one task, is as it was. -/
structure Undisturbed (D : Deployment) (taskId : Uuid) (w w' : World) : Prop where
  rows : others taskId w'.1.tasks.rows = others taskId w.1.tasks.rows
  boards : ∀ projectId, ∃ board board', (TaskService.kanbanBoard D projectId).answer w = .ok board ∧
    (TaskService.kanbanBoard D projectId).answer w' = .ok board' ∧
    ∀ status, others taskId ((board' status).map LoadedTask.row) = others taskId ((board status).map LoadedTask.row)

def LastInColumn (D : Deployment) (taskId projectId : Uuid) (status : TaskStatus) (w : World) : Prop :=
  ∃ board before t, (TaskService.kanbanBoard D projectId).answer w = .ok board ∧
    (board status).map LoadedTask.row = before ++ [t] ∧ t.id = taskId ∧ ∀ u ∈ before, u.position < t.position

theorem others_boardColumn : others taskId (boardColumn D projectId d status) =
    orderBy D.engine TaskRepository.boardOrder
      ((others taskId d.tasks.rows).filter (fun t => t.projectId == projectId && t.status == status && t.live)) := by
  rw [boardColumn_eq, others, filter_orderBy, TaskRepository.column, others, List.filter_filter, List.filter_filter]
  congr 1
  apply List.filter_congr
  intro t _
  rw [Bool.and_comm]

theorem undisturbed_of_rows {w w' : World} (h : others taskId w'.1.tasks.rows = others taskId w.1.tasks.rows) :
    Undisturbed D taskId w w' := by
  refine ⟨h, fun projectId => ⟨_, _, kanbanBoard_answer, kanbanBoard_answer, fun status => ?_⟩⟩
  rw [map_row_loadTask, map_row_loadTask, others_boardColumn, others_boardColumn, h]

theorem mem_others : t ∈ others taskId d.tasks.rows ↔ t ∈ d.tasks.rows ∧ t.id ≠ taskId := by
  simp [others, List.mem_filter]

theorem lastInColumn_of_beyond (ht : t ∈ w.1.tasks.rows) (live : t.live = true)
    (beyond : ∀ u ∈ TaskRepository.column t.projectId t.status w.1, u.id ≠ t.id → u.position < t.position) :
    LastInColumn D t.id t.projectId t.status w := by
  have hmem : t ∈ boardColumn D t.projectId w.1 t.status := mem_boardColumn.mpr ⟨ht, live, rfl, rfl⟩
  obtain ⟨before, after, hcolumn⟩ := List.append_of_mem hmem
  have sorted : (before ++ t :: after).Pairwise Task.Before := hcolumn ▸ boardColumn_sorted
  have nodup : (before ++ t :: after).Nodup := hcolumn ▸ nodup_boardColumn
  have hbeyond : ∀ u ∈ before ++ t :: after, u ≠ t → u.position < t.position := by
    intro u hu hne
    have hu' : u ∈ TaskRepository.column t.projectId t.status w.1 := perm_boardColumn.mem_iff.mp (hcolumn ▸ hu)
    exact beyond u hu' fun hid => hne (w.1.tasks.eq_of_key (mem_column.mp hu').1 ht hid)
  obtain ⟨-, hlater, hearlier⟩ := List.pairwise_append.mp sorted
  have hafter : after = [] := by
    apply List.eq_nil_iff_forall_not_mem.mpr
    intro u hu
    have hne : u ≠ t := by
      rintro rfl
      exact (List.nodup_cons.mp (List.nodup_append.mp nodup).2.1).1 hu
    have hlt := hbeyond u (by simp [hu]) hne
    rcases (List.pairwise_cons.mp hlater).1 u hu with h | ⟨h, -⟩
    · exact lt_asymm hlt h
    · exact absurd h hlt.ne'
  refine ⟨_, before, t, kanbanBoard_answer, ?_, rfl, fun u hu => ?_⟩
  · rw [map_row_loadTask, hcolumn, hafter]
  · have hne : u ≠ t := by
      rintro rfl
      exact (List.nodup_append.mp nodup).2.2 u hu u (by simp) rfl
    exact hbeyond u (by simp [hu]) hne

theorem lt_nextPosition (h : t ∈ TaskRepository.column projectId status d) :
    t.position < TaskRepository.nextPosition projectId status d := by
  have hmem : t.position ∈ (TaskRepository.column projectId status d).map Task.position := List.mem_map_of_mem h
  obtain ⟨m, hmax⟩ := Option.isSome_iff_exists.mp (List.isSome_max?_of_mem hmem)
  have hle : t.position ≤ m := (List.max?_eq_some_iff.mp hmax).2 _ hmem
  rw [TaskRepository.nextPosition, hmax, Option.getD_some, positionStep]
  linarith

theorem others_append (hid : t.id = taskId) (rows : List Task) : others taskId (rows ++ [t]) = others taskId rows := by
  simp [others, hid]

theorem others_put (hid : t.id = taskId) : others taskId (d.tasks.put t).rows = others taskId d.tasks.rows := by
  apply Table.filter_put
  · intro u _ hu
    simp only [key_task] at hu
    simp [hu, hid]
  · simp [hid]

theorem createTask_places {p : TaskCreate} {answer : ApiResponse} (ok : outcome D ⟨c, .createTask p⟩ w = .ok answer) :
    LastInColumn D c.fresh.id p.projectId p.status (next D ⟨c, .createTask p⟩ w) ∧
      Undisturbed D c.fresh.id w (next D ⟨c, .createTask p⟩ w) := by
  have effect := step_effect D ⟨c, .createTask p⟩ w
  rw [ok] at effect
  generalize next D ⟨c, .createTask p⟩ w = w' at effect
  cases effect with
  | answered reads => simp [Request.reads] at reads
  | @taskCreated _ d b _ _ actor q tasks notifications caller errors access project rows notified =>
    let task := newTask D c p (TaskRepository.nextPosition p.projectId p.status d) actor
    have hrows : others c.fresh.id tasks.rows = others c.fresh.id d.tasks.rows := by
      rw [rows]
      exact others_append (t := task) rfl _
    constructor
    · apply lastInColumn_of_beyond (t := task)
      · simp [rows, task]
      · rfl
      · intro u hu hne
        obtain ⟨hu, live, hproject, hstatus⟩ := mem_column.mp hu
        have hold : u ∈ d.tasks.rows := (mem_others.mp (hrows ▸ mem_others.mpr ⟨hu, hne⟩)).1
        exact lt_nextPosition (mem_column.mpr ⟨hold, live, hproject, hstatus⟩)
    · exact undisturbed_of_rows hrows

theorem updateTaskStatus_places {p : TaskStatusUpdate} {answer : ApiResponse}
    (ok : outcome D ⟨c, .updateTaskStatus taskId p⟩ w = .ok answer) :
    (p.position = none → ∃ t ∈ w.1.tasks.rows, t.id = taskId ∧
        LastInColumn D taskId t.projectId p.status (next D ⟨c, .updateTaskStatus taskId p⟩ w)) ∧
      Undisturbed D taskId w (next D ⟨c, .updateTaskStatus taskId p⟩ w) := by
  have effect := step_effect D ⟨c, .updateTaskStatus taskId p⟩ w
  rw [ok] at effect
  generalize next D ⟨c, .updateTaskStatus taskId p⟩ w = w' at effect
  cases effect with
  | answered reads => simp [Request.reads] at reads
  | @taskStatusUpdated _ d b _ _ _ actor r caller task =>
    let moved := afterFlush (TaskRepository.stamped D c) r (statusUpdated d p r)
    have hid : moved.id = taskId := (afterFlush_column Task.id rfl).trans task.id_eq
    have hrows : others taskId (d.tasks.put moved).rows = others taskId d.tasks.rows := others_put hid
    refine ⟨fun hposition => ⟨r, task.mem, task.id_eq, ?_⟩, undisturbed_of_rows hrows⟩
    have hproject : moved.projectId = r.projectId := afterFlush_column Task.projectId rfl
    have hstatus : moved.status = p.status := afterFlush_column Task.status rfl
    have hnext : moved.position = TaskRepository.nextPosition r.projectId p.status d := by
      rw [show moved.position = (statusUpdated d p r).position from afterFlush_column Task.position rfl, statusUpdated, hposition]
      rfl
    rw [← hid, ← hproject, ← hstatus]
    apply lastInColumn_of_beyond
    · exact Table.mem_put_self task.mem (hid.trans task.id_eq.symm).symm
    · exact (afterFlush_column Task.live rfl).trans task.live
    · intro u hu hne
      obtain ⟨hu, live, huproject, hustatus⟩ := mem_column.mp hu
      have hold : u ∈ d.tasks.rows := (mem_others.mp (hrows ▸ mem_others.mpr ⟨hu, hid ▸ hne⟩)).1
      rw [hnext]
      exact lt_nextPosition (mem_column.mpr ⟨hold, live, huproject.trans hproject, hustatus.trans hstatus⟩)

/-- Appended to a column, by its creation or by a move without a position, a task stands last there; nothing else moves. -/
theorem append_last_undisturbed (D : Deployment) (c : Call) (w : World) :
    (∀ p answer, outcome D ⟨c, .createTask p⟩ w = .ok answer →
      LastInColumn D c.fresh.id p.projectId p.status (next D ⟨c, .createTask p⟩ w) ∧
        Undisturbed D c.fresh.id w (next D ⟨c, .createTask p⟩ w)) ∧
    (∀ taskId p answer, outcome D ⟨c, .updateTaskStatus taskId p⟩ w = .ok answer →
      (p.position = none → ∃ t ∈ w.1.tasks.rows, t.id = taskId ∧
        LastInColumn D taskId t.projectId p.status (next D ⟨c, .updateTaskStatus taskId p⟩ w)) ∧
      Undisturbed D taskId w (next D ⟨c, .updateTaskStatus taskId p⟩ w)) :=
  ⟨fun _ _ ok => createTask_places ok, fun _ _ _ ok => updateTaskStatus_places ok⟩

/-- Two boards; the review column of the first holds two cards, one of them put down at a position of its own. -/
def twoBoards : List Event :=
  oneTask ++ sampleRequests 4
    [(some 16, .createTask { projectId := 32, title := "U", status := .inReview }),
      (some 16, .createTask { projectId := 32, title := "V", status := .inReview }),
      (some 16, .updateTaskStatus 80 { status := .inReview, position := some 2500 }),
      (some 16, .createTask { projectId := 32, title := "W" }), (some 16, .createProject { name := "Q" }),
      (some 16, .createTask { projectId := 128, title := "X", status := .inReview })]

/-- The cards of a project's column, each with its position, as the board shows them. -/
def cards (D : Deployment) (projectId : Uuid) (status : TaskStatus) (w : World) : List (Uuid × ℚ) :=
  (boardColumn D projectId w.1 status).map fun t => (t.id, t.position)

theorem append_last_undisturbed_sample :
    let w := playFrom .sample World.initial twoBoards
    let moved := next .sample ⟨Call.sample 10 (some 16), .updateTaskStatus 48 { status := .inReview }⟩ w
    let created := next .sample ⟨Call.sample 10 (some 16), .createTask { projectId := 32, title := "Y", status := .inReview }⟩ w
    cards .sample 32 .todo w = [(48, 1000), (112, 2000)] ∧ cards .sample 32 .inReview w = [(64, 1000), (80, 2500)] ∧
      cards .sample 128 .inReview w = [(144, 1000)] ∧
      (LastInColumn .sample 48 32 .inReview moved ∧ Undisturbed .sample 48 w moved) ∧
      LastInColumn .sample 160 32 .inReview created ∧ Undisturbed .sample 160 w created ∧
      cards .sample 32 .inReview moved = [(64, 1000), (80, 2500), (48, 3500)] ∧
      cards .sample 32 .inReview created = [(64, 1000), (80, 2500), (160, 3500)] := by
  intro w moved created
  have placed := append_last_undisturbed .sample (Call.sample 10 (some 16)) w
  obtain ⟨movedAnswer, moves⟩ := exists_of_isOk (show (outcome .sample
    ⟨Call.sample 10 (some 16), .updateTaskStatus 48 { status := .inReview }⟩ w).isOk = true by decide +kernel)
  obtain ⟨createdAnswer, creates⟩ := exists_of_isOk (show (outcome .sample
    ⟨Call.sample 10 (some 16), .createTask { projectId := 32, title := "Y", status := .inReview }⟩ w).isOk = true by
      decide +kernel)
  obtain ⟨last, undisturbed⟩ := placed.2 48 { status := .inReview } movedAnswer moves
  obtain ⟨t, ht, hid, last⟩ := last rfl
  have hproject : ∀ t ∈ w.1.tasks.rows, t.id = 48 → t.projectId = 32 := by decide +kernel
  obtain ⟨newLast, othersStay⟩ := placed.1 { projectId := 32, title := "Y", status := .inReview } createdAnswer creates
  exact ⟨by decide +kernel, by decide +kernel, by decide +kernel, ⟨hproject t ht hid ▸ last, undisturbed⟩, newLast, othersStay,
    by decide +kernel, by decide +kernel⟩

end ProjectManagement
