import ProjectManagement.Kanban

/-!
Orders by an enum column. The database compares the stored names, which are not declared in alphabetical order.
-/

namespace ProjectManagement

open Library AnalyticsRepository

variable {D : Deployment} {w : World} {d : Db} {projectId : Uuid} {params : PageParams}

def TaskStatus.rank (s : TaskStatus) : ℕ := TaskStatus.members.idxOf s

def TaskPriority.severity (p : TaskPriority) : ℕ := TaskPriority.members.idxOf p

def severityLe : SortOrder → TaskPriority → TaskPriority → Prop
  | .asc, p, p' => p.severity ≤ p'.severity
  | .desc, p, p' => p'.severity ≤ p.severity

/-- The default list goes through the board column by column, and a list by priority through the severities, whatever order
the database gives the ties on each page. -/
structure DeclaredOrder (D : Deployment) (projectId : Uuid) (w : World) : Prop where
  board : ∀ params : PageParams, 0 < params.size → params.sort = none → params.search = none → ∃ items board,
    AllPages (TaskService.listForProject D projectId) params w items ∧
    (TaskService.kanbanBoard D projectId).answer w = .ok board ∧ items = TaskStatus.members.flatMap board
  priority : ∀ params : PageParams, 0 < params.size → params.sort = some "priority" → ∀ answer : ℕ → List Task,
    (∀ page, Resolves (rowLe D.engine.nullsFirst ((Listing.tasks projectId).terms params))
      ((Listing.tasks projectId).rows D params w.1) (answer page)) →
    ((List.range' 1 (pageOf params ((Listing.tasks projectId).rows D params w.1)).2.pages).flatMap fun page =>
      (pageOf { params with page := page } (answer page)).1).Pairwise fun a b => severityLe params.order a.priority b.priority

/-- No two live tasks of the project whose statuses or priorities the alphabet puts the other way. -/
structure NamedInOrder (d : Db) (projectId : Uuid) : Prop where
  statuses : ∀ t ∈ liveTasks (some projectId) d, ∀ t' ∈ liveTasks (some projectId) d,
    t.status = t'.status ∨ t.status = .inProgress ∧ t'.status = .inReview ∨ t.status = .inReview ∧ t'.status = .inProgress
  priorities : ∀ t ∈ liveTasks (some projectId) d, ∀ t' ∈ liveTasks (some projectId) d,
    t.priority = .high → t'.priority ≠ .low ∧ t'.priority ≠ .medium

theorem status_name_rank (s s' : TaskStatus) :
    (s = s' ∨ s = .inProgress ∧ s' = .inReview ∨ s = .inReview ∧ s' = .inProgress) ↔
      (s.value ≤ s'.value → s.rank ≤ s'.rank) ∧ (s'.value ≤ s.value → s'.rank ≤ s.rank) := by
  cases s <;> cases s' <;> decide

theorem priority_name_severity (p p' : TaskPriority) :
    (p.value ≤ p'.value → p.severity ≤ p'.severity) ↔ (p = .high → p' ≠ .low ∧ p' ≠ .medium) := by
  cases p <;> cases p' <;> decide

def nameLe : SortOrder → TaskPriority → TaskPriority → Prop
  | .asc, p, p' => p.value ≤ p'.value
  | .desc, p, p' => p'.value ≤ p.value

theorem nameLe_antisymm {order : SortOrder} (p p' : TaskPriority) (h : nameLe order p p') (h' : nameLe order p' p) : p = p' := by
  cases order with
  | asc => exact TaskPriority.value_injective (String.le_antisymm h h')
  | desc => exact TaskPriority.value_injective (String.le_antisymm h' h)

theorem severityLe_refl (order : SortOrder) (p : TaskPriority) : severityLe order p p := by
  cases order with
  | asc => exact Nat.le_refl _
  | desc => exact Nat.le_refl _

theorem mem_listForProject {t : Task} : t ∈ TaskRepository.listForProject D projectId d ↔ t ∈ liveTasks (some projectId) d := by
  rw [TaskRepository.listForProject, mem_orderBy]
  rfl

theorem listForProject_eq_board : TaskRepository.listForProject D projectId d =
    (TaskStatus.members.flatMap (boardColumn D projectId d)) ↔
      ∀ t ∈ liveTasks (some projectId) d, ∀ t' ∈ liveTasks (some projectId) d,
        t.status = t'.status ∨ t.status = .inProgress ∧ t'.status = .inReview ∨ t.status = .inReview ∧ t'.status = .inProgress := by
  have sorted : (TaskRepository.listForProject D projectId d).Pairwise (fun a b => a.status.value ≤ b.status.value) :=
    (pairwise_orderBy _ _ _).imp boardOrder_status
  have ties : ∀ a b : Task, a.status.value ≤ b.status.value → b.status.value ≤ a.status.value → a.status.rank ≤ b.status.rank := by
    intro a b hab hba
    rw [TaskStatus.value_injective (String.le_antisymm hab hba)]
  have listed : ∀ t ∈ TaskRepository.listForProject D projectId d, t.status ∈ TaskStatus.members := by
    intro t _
    cases t.status <;> decide
  have groups := eq_flatMap_groups (by decide) listed
  refine groups.trans ((pairwise_iff_of_sorted sorted (fun _ => Nat.le_refl _) ties).trans ?_)
  simp only [status_name_rank, mem_listForProject]
  constructor
  · exact fun h t ht t' ht' => ⟨h t ht t' ht', h t' ht' t ht⟩
  · exact fun h t ht t' ht' => (h t ht t' ht').1

theorem board_inOrder (board : ∀ params : PageParams, 0 < params.size → params.sort = none → params.search = none →
    ∃ items board, AllPages (TaskService.listForProject D projectId) params w items ∧
      (TaskService.kanbanBoard D projectId).answer w = .ok board ∧ items = TaskStatus.members.flatMap board) :
    TaskRepository.listForProject D projectId w.1 = TaskStatus.members.flatMap (boardColumn D projectId w.1) := by
  obtain ⟨items, board, pages, hboard, heq⟩ := board {} (by decide) rfl rfl
  obtain ⟨-, hitems⟩ := (allPages_iff (fun params => listForProject_stored D params w projectId) (by decide)).mp pages
  obtain rfl := Except.ok.inj (kanbanBoard_answer.symm.trans hboard)
  rw [heq, ← List.map_flatMap] at hitems
  have hrows := congrArg (List.map LoadedTask.row) hitems
  rw [map_row_loadTask, map_row_loadTask] at hrows
  exact hrows.symm

theorem board_of_inOrder (h : TaskRepository.listForProject D projectId w.1 =
      TaskStatus.members.flatMap (boardColumn D projectId w.1))
    (hsize : 0 < params.size) (hsort : params.sort = none) (hsearch : params.search = none) :
    ∃ items board, AllPages (TaskService.listForProject D projectId) params w items ∧
      (TaskService.kanbanBoard D projectId).answer w = .ok board ∧ items = TaskStatus.members.flatMap board := by
  have hpages := (allPages_iff (fun params => listForProject_stored D params w projectId) hsize).mpr
    ⟨Listing.refuses_of_unsearched hsearch, rfl⟩
  refine ⟨_, _, hpages, kanbanBoard_answer, ?_⟩
  have hlist : orderBy D.engine ((Listing.tasks projectId).terms params) ((Listing.tasks projectId).rows D params w.1) =
      TaskRepository.listForProject D projectId w.1 := by
    simp only [Listing.terms, Listing.rows, hsort, hsearch, if_true, TaskRepository.listForProject]
  rw [hlist, h, List.map_flatMap]

/-! Sorted by priority. -/

theorem rowLe_priority {nullsFirst : Bool} (hsort : params.sort = some "priority") (a b : Task) :
    rowLe nullsFirst ((Listing.tasks projectId).terms params) a b = true ↔ nameLe params.order a.priority b.priority := by
  have hterms : (Listing.tasks projectId).terms params = [⟨fun t => .text t.priority.value, params.order⟩] := by
    simp [Listing.terms, applySort, hsort, List.lookup_cons]
  rw [hterms, rowLe_cons]
  cases ho : params.order with
  | asc => simp [OrderTerm.le, Cell.le, nameLe, rowLe]
  | desc => simp [OrderTerm.le, Cell.le, nameLe, rowLe]

theorem priority_walk (hsize : 0 < params.size) (hsort : params.sort = some "priority") {answer : ℕ → List Task}
    (answers : ∀ page, Resolves (rowLe D.engine.nullsFirst ((Listing.tasks projectId).terms params))
      ((Listing.tasks projectId).rows D params d) (answer page)) :
    (((List.range' 1 (pageOf params ((Listing.tasks projectId).rows D params d)).2.pages).flatMap fun page =>
      (pageOf { params with page := page } (answer page)).1).Pairwise fun a b => severityLe params.order a.priority b.priority) ↔
    ∀ t ∈ (Listing.tasks projectId).rows D params d, ∀ t' ∈ (Listing.tasks projectId).rows D params d,
      nameLe params.order t.priority t'.priority → severityLe params.order t.priority t'.priority := by
  have sorted : ∀ page, (answer page).Pairwise (fun a b => nameLe params.order a.priority b.priority) :=
    fun page => (answers page).sorted.imp (rowLe_priority hsort _ _).mp
  have hkeys : ∀ page, (answer page).map Task.priority = (answer 0).map Task.priority := fun page =>
    map_eq_of_sorted nameLe_antisymm (sorted page) (sorted 0) ((answers page).perm.trans (answers 0).perm.symm)
  have hlength : ((answer 0).map Task.priority).length ≤
      (pageOf params ((Listing.tasks projectId).rows D params d)).2.pages * params.size := by
    rw [List.length_map, (answers 0).perm.length_eq]
    exact length_le_pages_mul hsize _
  rw [pages_eq_walk, ← List.pairwise_map, map_walk (fun k => hkeys (k + 1)) hlength, List.pairwise_map,
    pairwise_iff_of_sorted (sorted 0) (fun t => severityLe_refl _ _) fun a b hab hba => ?_]
  · simp only [(answers 0).perm.mem_iff]
  · rw [nameLe_antisymm _ _ hab hba]
    exact severityLe_refl _ _

theorem priorities_inOrder (priority : ∀ params : PageParams, 0 < params.size → params.sort = some "priority" →
    ∀ answer : ℕ → List Task, (∀ page, Resolves (rowLe D.engine.nullsFirst ((Listing.tasks projectId).terms params))
      ((Listing.tasks projectId).rows D params d) (answer page)) →
    ((List.range' 1 (pageOf params ((Listing.tasks projectId).rows D params d)).2.pages).flatMap fun page =>
      (pageOf { params with page := page } (answer page)).1).Pairwise fun a b => severityLe params.order a.priority b.priority)
    {t t' : Task} (ht : t ∈ liveTasks (some projectId) d) (ht' : t' ∈ liveTasks (some projectId) d) (high : t.priority = .high) :
    t'.priority ≠ .low ∧ t'.priority ≠ .medium := by
  have hwalk := (priority_walk (by decide) rfl fun _ => stored_resolves).mp
    (priority { sort := some "priority" } (by decide) rfl _ fun _ => stored_resolves)
  exact (priority_name_severity _ _).mp (hwalk t ht t' ht') high

theorem NamedInOrder.severityLe (h : NamedInOrder d projectId) {t t' : Task} (ht : t ∈ liveTasks (some projectId) d)
    (ht' : t' ∈ liveTasks (some projectId) d) {order : SortOrder} (name : nameLe order t.priority t'.priority) :
    severityLe order t.priority t'.priority := by
  cases order with
  | asc => exact (priority_name_severity _ _).mpr (h.priorities t ht t' ht') name
  | desc => exact (priority_name_severity _ _).mpr (h.priorities t' ht' t ht) name

/-- The lists follow the declared orders exactly when no two live tasks of the project have names the alphabet turns round. -/
theorem declaredOrder_iff (D : Deployment) (projectId : Uuid) (w : World) :
    DeclaredOrder D projectId w ↔ NamedInOrder w.1 projectId := by
  constructor
  · intro h
    constructor
    · exact listForProject_eq_board.mp (board_inOrder h.board)
    · exact fun t ht t' ht' high => priorities_inOrder h.priority ht ht' high
  · intro h
    constructor
    · intro params hsize hsort hsearch
      exact board_of_inOrder (listForProject_eq_board.mpr h.statuses) hsize hsort hsearch
    · intro params hsize hsort answer answers
      rw [priority_walk hsize hsort answers]
      intro t ht t' ht' name
      exact h.severityLe (of_mem_searched ht) (of_mem_searched ht') name

def todoAndDone : World := playFrom .sample World.initial
  (oneTask ++ sampleRequests 4 [(some 16, .createTask { projectId := 32, title := "U", status := .done })])

/-- With one task to do and one done, the list starts with the done one and the board with the other. -/
theorem list_against_board : Reachable .sample todoAndDone ∧ ¬DeclaredOrder .sample 32 todoAndDone := by
  refine ⟨reachable_of_freshRun (by decide +kernel), fun h => ?_⟩
  have hboard := board_inOrder h.board
  exact absurd hboard (by decide +kernel)

end ProjectManagement
