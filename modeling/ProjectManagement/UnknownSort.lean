import ProjectManagement.Kanban

/-!
Sort keys outside the whitelist. `apply_sort` falls back on its default column, but the lists of projects and of tasks replace
that default only where there is no key at all. Rows that tie under an `ORDER BY` come as the database likes, and alike for two
requests that end in the same statement.
-/

namespace ProjectManagement

open Library

variable {D : Deployment} {c : Call} {w : World} {d : Db} {params : PageParams} {key : String} {projectId : Uuid} {ρ : Type}

/-- A database: what it makes of an `ORDER BY`, the ties in any order. -/
structure TieBreak (e : Engine) (ρ : Type) where
  sorter : Sorter ρ
  resolves : ∀ terms rows, Resolves (rowLe e.nullsFirst terms) rows (sorter terms rows)

/-- The one of the model, the ties as they are stored. -/
def TieBreak.stored (e : Engine) (ρ : Type) : TieBreak e ρ :=
  ⟨orderBy e, fun terms rows => ⟨perm_orderBy e terms rows, pairwise_orderBy e terms rows⟩⟩

/-- The list endpoints with whitelisted sorting, by their rows. -/
inductive SortedList : Type → Type
  | users : SortedList User
  | projects : SortedList Project
  | projectTasks (projectId : Uuid) : SortedList Task

namespace SortedList

def request (params : PageParams) : SortedList ρ → Request
  | users => .listUsers params
  | projects => .listProjects params
  | projectTasks projectId => .listProjectTasks projectId params

def sortable : SortedList ρ → List String
  | users => ["email", "full_name", "created_at", "role"]
  | projects => ["name", "status", "start_date", "end_date", "created_at"]
  | projectTasks _ => ["title", "priority", "due_date", "created_at", "position"]

/-- The handler, over a database of its own. -/
def respond (D : Deployment) (c : Call) (sorter : Sorter ρ) (params : PageParams) (l : SortedList ρ) : App ApiResponse :=
  match l with
  | users => Routes.listUsersWith D c sorter params
  | projects => Routes.listProjectsWith D c sorter params
  | projectTasks projectId => Routes.listProjectTasksWith D c sorter projectId params

theorem respond_orderBy (l : SortedList ρ) : l.respond D c (orderBy D.engine) params = handle D c (l.request params) := by
  cases l <;> rfl

/-- Whatever the database, the key makes no difference to the response. -/
def Indifferent (D : Deployment) (c : Call) (params : PageParams) (key : String) (w : World) (l : SortedList ρ) : Prop :=
  ∀ T : TieBreak D.engine ρ, ((l.respond D c T.sorter { params with sort := some key }).run w).1 =
    ((l.respond D c T.sorter { params with sort := none }).run w).1

end SortedList

instance (a b : Task) : Decidable (a.Before b) := inferInstanceAs (Decidable (_ ∨ _))

def Task.StatusBefore : SortOrder → Task → Task → Prop
  | .asc, s, t => s.status ≠ t.status ∧ s.status.value ≤ t.status.value
  | .desc, s, t => s.status ≠ t.status ∧ t.status.value ≤ s.status.value

instance (order : SortOrder) (s t : Task) : Decidable (Task.StatusBefore order s t) := by
  cases order <;> exact inferInstanceAs (Decidable (_ ∧ _))

/-- The place of a task in the order of the board, where no two tie. -/
def Task.boardPlace (rows : List Task) (t : Task) : ℕ :=
  rows.countP (fun s => Task.StatusBefore .asc s t ∨ s.status = t.status ∧ s.Before t)

/-! Where the default of `apply_sort` and the default of the list put the same rows on the page: no row that may come there ties
with another, and each has as many rows before it under the one as under the other. -/

def ProjectsAgree (params : PageParams) (rows : List Project) : Prop :=
  params.order = .desc ∨ ∀ p ∈ rows,
    rows.countP (fun q => p.createdAt < q.createdAt) / params.size ≤ params.page - 1 →
    params.page - 1 ≤ (rows.countP (fun q => p.createdAt ≤ q.createdAt) - 1) / params.size →
    rows.countP (fun q => q.createdAt = p.createdAt) = 1 ∧
      rows.countP (fun q => q.createdAt < p.createdAt) = rows.countP (fun q => p.createdAt < q.createdAt)

def TasksAgree (params : PageParams) (rows : List Task) : Prop :=
  ∀ t ∈ rows, t.boardPlace rows / params.size = params.page - 1 →
    rows.countP (fun s => s.status = t.status) = 1 ∧
      rows.countP (fun s => Task.StatusBefore params.order s t) = t.boardPlace rows

/-- The condition on a list that is answered; a refusal does not look at the sort key. -/
def SortedList.DefaultsAgree (D : Deployment) (c : Call) (params : PageParams) (d : Db) (l : SortedList ρ) : Prop :=
  match l with
  | users => True
  | projects => ∀ actor, CurrentUser c d actor → params.errors = [] → holdsNul D.engine params.search.toList = false →
      ProjectsAgree params (projectRows D actor params d)
  | projectTasks projectId => ∀ actor, CurrentUser c d actor → ∀ p, ProjectRepository.find projectId d = some p →
      MayAccess d projectId actor → params.errors = [] → holdsNul D.engine params.search.toList = false →
        TasksAgree params (TaskRepository.listForProjectQuery D projectId params.search d)

theorem applySort_unknown {ρ : Type} {sortable : List (String × (ρ → Cell))} {default : ρ → Cell}
    (unknown : key ∉ sortable.map Prod.fst) :
    applySort { params with sort := some key } sortable default = [⟨default, params.order⟩] := by
  have hlookup : sortable.lookup key = none := by
    apply List.lookup_eq_none_iff.mpr
    intro entry hentry
    rw [bne_iff_ne]
    rintro rfl
    exact unknown (List.mem_map_of_mem hentry)
  simp only [applySort, Option.getD_some, hlookup, Option.getD_none]

theorem users_terms (unknown : key ∉ SortedList.users.sortable) :
    Listing.users.terms { params with sort := some key } = Listing.users.terms { params with sort := none } := by
  simp only [Listing.terms]
  rw [applySort_unknown (by exact unknown)]
  rfl

theorem projects_terms {user : User} (unknown : key ∉ SortedList.projects.sortable) :
    (Listing.projects user).terms { params with sort := some key } = [⟨fun p => .number p.createdAt, params.order⟩] := by
  simp only [Listing.terms, projectTerms, reduceCtorEq, if_false]
  exact applySort_unknown (by exact unknown)

theorem tasks_terms (unknown : key ∉ (SortedList.projectTasks projectId).sortable) :
    (Listing.tasks projectId).terms { params with sort := some key } = [⟨fun t => .text t.status.value, params.order⟩] := by
  simp only [Listing.terms, reduceCtorEq, if_false]
  exact applySort_unknown (by exact unknown)

/-! The counts of the condition are those of the orders. -/

theorem rowLe_singleton {nullsFirst : Bool} (t : OrderTerm ρ) (a b : ρ) : rowLe nullsFirst [t] a b = t.le nullsFirst a b := by
  simp [rowLe]

section CreatedAt

variable {nullsFirst : Bool} {rows : List Project} {p : Project}

theorem before_newest : before (rowLe nullsFirst [desc fun p : Project => .number p.createdAt]) rows p =
    rows.countP (fun q => p.createdAt < q.createdAt) := by
  apply List.countP_congr
  intro q _
  simp [rowLe_singleton, OrderTerm.le, desc, Cell.le]

theorem upTo_newest : upTo (rowLe nullsFirst [desc fun p : Project => .number p.createdAt]) rows p =
    rows.countP (fun q => p.createdAt ≤ q.createdAt) := by
  simp [upTo, rowLe_singleton, OrderTerm.le, desc, Cell.le]

theorem before_oldest : before (rowLe nullsFirst [asc fun p : Project => .number p.createdAt]) rows p =
    rows.countP (fun q => q.createdAt < p.createdAt) := by
  apply List.countP_congr
  intro q _
  simp [rowLe_singleton, OrderTerm.le, asc, Cell.le]

theorem createdAt_ties (order : SortOrder) :
    rows.countP (fun q => rowLe nullsFirst [⟨fun p : Project => .number p.createdAt, order⟩] p q &&
      rowLe nullsFirst [⟨fun p : Project => .number p.createdAt, order⟩] q p) =
        rows.countP (fun q => q.createdAt = p.createdAt) := by
  apply List.countP_congr
  intro q _
  cases order with
  | asc => simp [rowLe_singleton, OrderTerm.le, Cell.le, le_antisymm_iff, and_comm]
  | desc => simp [rowLe_singleton, OrderTerm.le, Cell.le, le_antisymm_iff]

end CreatedAt

theorem not_value_le_iff {s t : TaskStatus} : ¬t.value ≤ s.value ↔ s ≠ t ∧ s.value ≤ t.value := by
  cases s <;> cases t <;> decide

theorem value_tie_iff {s t : TaskStatus} : s.value ≤ t.value ∧ t.value ≤ s.value ↔ s = t := by
  cases s <;> cases t <;> decide

section Status

variable {nullsFirst : Bool} {order : SortOrder} {s t : Task}

theorem statusBefore_iff : OrderTerm.le nullsFirst ⟨fun t => .text t.status.value, order⟩ t s = false ↔
    Task.StatusBefore order s t := by
  cases order with
  | asc => simp only [OrderTerm.le, Cell.le, decide_eq_false_iff_not, not_value_le_iff, Task.StatusBefore]
  | desc => simp only [OrderTerm.le, Cell.le, decide_eq_false_iff_not, not_value_le_iff, Task.StatusBefore, ne_comm]

theorem status_tie_iff : OrderTerm.le nullsFirst ⟨fun t => .text t.status.value, order⟩ t s = true ∧
    OrderTerm.le nullsFirst ⟨fun t => .text t.status.value, order⟩ s t = true ↔ s.status = t.status := by
  cases order with
  | asc =>
    simp only [OrderTerm.le, Cell.le, decide_eq_true_eq, value_tie_iff]
    exact eq_comm
  | desc => simp only [OrderTerm.le, Cell.le, decide_eq_true_eq, value_tie_iff]

theorem before_status (rows : List Task) :
    before (rowLe nullsFirst [⟨fun t => .text t.status.value, order⟩]) rows t =
      rows.countP (fun s => Task.StatusBefore order s t) := by
  apply List.countP_congr
  intro s _
  simp only [rowLe_singleton, Bool.not_eq_true', statusBefore_iff, decide_eq_true_eq]

theorem status_ties (rows : List Task) :
    rows.countP (fun s => rowLe nullsFirst [⟨fun t => .text t.status.value, order⟩] t s &&
      rowLe nullsFirst [⟨fun t => .text t.status.value, order⟩] s t) = rows.countP (fun s => s.status = t.status) := by
  apply List.countP_congr
  intro s _
  simp only [rowLe_singleton, Bool.and_eq_true, status_tie_iff, decide_eq_true_eq]

theorem before_iff : rowLe nullsFirst [asc fun t : Task => .number t.position, asc fun t => .number t.id.toNat] t s = false ↔
    s.Before t := by
  rw [← Bool.not_eq_true, rowLe_cons, rowLe_singleton]
  simp only [OrderTerm.le, asc, Cell.le, decide_eq_true_eq, Nat.cast_le, Task.Before, BitVec.lt_def]
  rcases lt_trichotomy s.position t.position with hlt | heq | hgt
  · simp [hlt, not_le_of_gt hlt]
  · simp [heq]
  · simp [not_lt_of_gt hgt, hgt.ne', hgt.le, not_le_of_gt hgt]

theorem boardBefore_iff : rowLe nullsFirst TaskRepository.boardOrder t s = false ↔
    Task.StatusBefore .asc s t ∨ s.status = t.status ∧ s.Before t := by
  rw [TaskRepository.boardOrder, ← Bool.not_eq_true, rowLe_cons, not_and_or, Bool.not_eq_true, asc, statusBefore_iff]
  refine or_congr_right' fun hstatus => ?_
  -- no task of an earlier status, so one of the same status or of a later one
  have hle : OrderTerm.le nullsFirst (asc fun t : Task => .text t.status.value) t s = true :=
    (Bool.not_eq_false _).mp <| mt statusBefore_iff.mp hstatus
  have htie : s.status = t.status ↔ OrderTerm.le nullsFirst (asc fun t : Task => .text t.status.value) s t = true :=
    status_tie_iff.symm.trans (and_iff_right hle)
  rw [Classical.not_imp, Bool.not_eq_true, before_iff, htie]
  rfl

end Status

theorem before_board {nullsFirst : Bool} {rows : List Task} {t : Task} :
    before (rowLe nullsFirst TaskRepository.boardOrder) rows t = t.boardPlace rows := by
  apply List.countP_congr
  intro s _
  simp only [Bool.not_eq_true', boardBefore_iff, decide_eq_true_eq]

/-- Under the order of the board a task has one place. -/
theorem upTo_board {nullsFirst : Bool} {rows : List Task} {t : Task} (nodup : rows.Nodup) (ht : t ∈ rows)
    (ids : ∀ s ∈ rows, s.id = t.id → s = t) :
    upTo (rowLe nullsFirst TaskRepository.boardOrder) rows t = t.boardPlace rows + 1 := by
  have pre := totalPreorder_rowLe nullsFirst TaskRepository.boardOrder
  have hties : rows.countP (fun s => rowLe nullsFirst TaskRepository.boardOrder t s &&
      rowLe nullsFirst TaskRepository.boardOrder s t) = rows.count t := by
    apply List.countP_congr
    intro s hs
    rw [Bool.and_eq_true, beq_iff_eq]
    constructor
    · rintro ⟨hle, hle'⟩
      exact ids s hs (boardOrder_id hle' hle)
    · rintro rfl
      exact ⟨pre.refl s, pre.refl s⟩
  rw [upTo_eq_add pre, hties, before_board, List.count_eq_one_of_mem nodup ht]

/-! The pages of two statements over the same rows. -/

theorem eq_of_map_eq {β : Type} {f : ρ → β} {l l' : List ρ} (inj : ∀ a ∈ l, ∀ b ∈ l', f a = f b → a = b)
    (h : l.map f = l'.map f) : l = l' := by
  induction l generalizing l' with
  | nil => exact (List.map_eq_nil_iff.mp h.symm).symm
  | cons a l ih =>
    cases l' with
    | nil => simp at h
    | cons b l' =>
      obtain ⟨hab, hrest⟩ := List.cons.inj h
      rw [inj a List.mem_cons_self b List.mem_cons_self hab,
        ih (fun a ha b hb => inj a (List.mem_cons_of_mem _ ha) b (List.mem_cons_of_mem _ hb)) hrest]

/-- The items as a response shows them. -/
def shownAs {β : Type} (f : ρ → β) (page : Except Raised (List ρ × PaginationMeta)) : Except Raised (List β × PaginationMeta) :=
  page.map (Prod.map (List.map f) id)

theorem paginate_shownAs_eq_iff {β : Type} {f : ρ → β} {rows l l' : List ρ} (hl : l.Perm rows) (hl' : l'.Perm rows)
    (inj : ∀ a ∈ rows, ∀ b ∈ rows, f a = f b → a = b) :
    shownAs f (paginate params l) = shownAs f (paginate params l') ↔
      page params.size (params.page - 1) l = page params.size (params.page - 1) l' := by
  have hlength := hl.length_eq.trans hl'.length_eq.symm
  have hmem : ∀ {l : List ρ}, l.Perm rows → ∀ x ∈ page params.size (params.page - 1) l, x ∈ rows := fun h x hx =>
    h.mem_iff.mp ((page_sublist _ _ _).subset hx)
  have hmeta : (pageOf params l).2 = (pageOf params l').2 := by simp only [pageOf, hlength]
  unfold paginate
  rw [hlength]
  by_cases inRange : params.InRange l'.length
  · rw [if_pos inRange, if_pos inRange]
    simp only [shownAs, Except.map, Except.ok.injEq, Prod.ext_iff, Prod.map_fst, Prod.map_snd, hmeta, and_true, fst_pageOf]
    exact ⟨eq_of_map_eq fun a ha b hb => inj a (hmem hl a ha) b (hmem hl' b hb), congrArg (List.map f)⟩
  · rw [if_neg inRange, if_neg inRange]
    -- so far out there is nothing on the page
    have hfar : l'.length ≤ (params.page - 1) * params.size := by
      rw [PageParams.InRange, not_or, Nat.not_lt, Nat.not_lt] at inRange
      exact inRange.2
    refine iff_of_true rfl ?_
    rw [page, page, List.drop_eq_nil_of_le (hlength ▸ hfar), List.drop_eq_nil_of_le hfar]

/-- Two statements show the same page under every database exactly when each row that may come there has one place under
either, the same. -/
theorem tieBreaks_agree_iff {β : Type} {e : Engine} {terms terms' : List (OrderTerm ρ)} {rows : List ρ} {f : ρ → β}
    (differ : terms ≠ terms') (nodup : rows.Nodup) (hsize : 0 < params.size)
    (inj : ∀ a ∈ rows, ∀ b ∈ rows, f a = f b → a = b) :
    (∀ T : TieBreak e ρ, shownAs f (paginate params (T.sorter terms rows)) = shownAs f (paginate params (T.sorter terms' rows))) ↔
      ∀ x ∈ rows, before (rowLe e.nullsFirst terms') rows x / params.size ≤ params.page - 1 →
        params.page - 1 ≤ (upTo (rowLe e.nullsFirst terms') rows x - 1) / params.size →
          upTo (rowLe e.nullsFirst terms) rows x = before (rowLe e.nullsFirst terms) rows x + 1 ∧
            upTo (rowLe e.nullsFirst terms') rows x = before (rowLe e.nullsFirst terms') rows x + 1 ∧
              before (rowLe e.nullsFirst terms) rows x = before (rowLe e.nullsFirst terms') rows x := by
  rw [← pages_agree_iff (totalPreorder_rowLe _ terms) (totalPreorder_rowLe _ terms') hsize nodup]
  constructor
  · intro h l l' hl hl'
    classical
    -- the database that resolves the two statements so, and no other
    let sorter : Sorter ρ := fun t r =>
      if t = terms ∧ r = rows then l else if t = terms' ∧ r = rows then l' else orderBy e t r
    let T : TieBreak e ρ := ⟨sorter, fun t r => by
      simp only [sorter]
      split
      · next heq => rw [heq.1, heq.2]; exact hl
      · split
        · next heq => rw [heq.1, heq.2]; exact hl'
        · exact (TieBreak.stored e ρ).resolves t r⟩
    have hT := h T
    have hterms : T.sorter terms rows = l := if_pos ⟨rfl, rfl⟩
    have hterms' : T.sorter terms' rows = l' :=
      (if_neg fun heq => differ heq.1.symm).trans (if_pos ⟨rfl, rfl⟩)
    rw [hterms, hterms'] at hT
    exact (paginate_shownAs_eq_iff hl.perm hl'.perm inj).mp hT
  · intro h T
    have hresolves := T.resolves terms rows
    have hresolves' := T.resolves terms' rows
    exact (paginate_shownAs_eq_iff hresolves.perm hresolves'.perm inj).mpr (h _ _ hresolves hresolves')

/-! The responses to two requests that differ in the sort key alone. -/

variable {s s' : Option String}

theorem response_eq_iff {β γ : Type} {f : ρ → β} (respond : List β → PaginationMeta → γ)
    (inj : ∀ items items' info info', respond items info = respond items' info' → items = items' ∧ info = info')
    {page page' : Except Raised (List ρ × PaginationMeta)} :
    page.map (fun r => respond (r.1.map f) r.2) = page'.map (fun r => respond (r.1.map f) r.2) ↔
      shownAs f page = shownAs f page' := by
  cases page with
  | error e => cases page' <;> simp [shownAs, Except.map]
  | ok page =>
    cases page' with
    | error e => simp [shownAs, Except.map]
    | ok page' =>
      simp only [shownAs, Except.map, Except.ok.injEq, Prod.ext_iff, Prod.map_fst, Prod.map_snd, id_eq]
      exact ⟨inj _ _ _ _, fun ⟨hitems, hinfo⟩ => by rw [hitems, hinfo]⟩

theorem listProjects_eq_iff {sorter : Sorter Project} : ((Routes.listProjectsWith D c sorter { params with sort := s }).run w).1 =
    ((Routes.listProjectsWith D c sorter { params with sort := s' }).run w).1 ↔
      ∀ actor, CurrentUser c w.1 actor → params.errors = [] → holdsNul D.engine params.search.toList = false →
        shownAs ProjectOut.modelValidate (paginate params (sorter
            ((Listing.projects actor).terms { params with sort := s }) (projectRows D actor params w.1))) =
          shownAs ProjectOut.modelValidate (paginate params (sorter
            ((Listing.projects actor).terms { params with sort := s' }) (projectRows D actor params w.1))) := by
  have herrors : ∀ s, PageParams.errors { params with sort := s } = params.errors := fun _ => rfl
  have hanswer : ∀ s actor, (ProjectService.listProjectsWith D sorter actor { params with sort := s }).answer w =
      if holdsNul D.engine params.search.toList then .error .unexpected
      else paginate params (sorter ((Listing.projects actor).terms { params with sort := s }) (projectRows D actor params w.1)) :=
    fun _ _ => rfl
  simp only [Routes.listProjectsWith, herrors, Tx.run_bind_eq_iff, succeeds_getCurrentUser, succeeds_validated, and_true]
  refine forall₂_congr fun actor _ => ?_
  rw [forall_const]
  refine imp_congr_right fun _ => ?_
  rw [Tx.run_bind_pure, Tx.run_bind_pure, hanswer, hanswer]
  cases holdsNul D.engine params.search.toList with
  | true => simp
  | false =>
    simp only [Bool.false_eq_true, if_false, true_imp_iff]
    apply response_eq_iff fun items info => ({ data := .projects items, pagination := some info } : ApiResponse)
    simp

theorem listProjectTasks_eq_iff {sorter : Sorter Task} :
    ((Routes.listProjectTasksWith D c sorter projectId { params with sort := s }).run w).1 =
      ((Routes.listProjectTasksWith D c sorter projectId { params with sort := s' }).run w).1 ↔
      ∀ actor, CurrentUser c w.1 actor → ∀ p, ProjectRepository.find projectId w.1 = some p → MayAccess w.1 projectId actor →
        params.errors = [] → holdsNul D.engine params.search.toList = false →
          shownAs (fun t => TaskOut.modelValidate (w.1.loadTask t)) (paginate params (sorter
              ((Listing.tasks projectId).terms { params with sort := s })
              (TaskRepository.listForProjectQuery D projectId params.search w.1))) =
            shownAs (fun t => TaskOut.modelValidate (w.1.loadTask t)) (paginate params (sorter
              ((Listing.tasks projectId).terms { params with sort := s' })
              (TaskRepository.listForProjectQuery D projectId params.search w.1))) := by
  have herrors : ∀ s, PageParams.errors { params with sort := s } = params.errors := fun _ => rfl
  have hanswer : ∀ s, (TaskService.listForProjectWith D sorter projectId { params with sort := s }).answer w =
      if holdsNul D.engine params.search.toList then .error .unexpected
      else (paginate params (sorter ((Listing.tasks projectId).terms { params with sort := s })
        (TaskRepository.listForProjectQuery D projectId params.search w.1))).map (fun r => (r.1.map w.1.loadTask, r.2)) := by
    intro s
    simp only [TaskService.listForProjectWith, Tx.answer, Tx.select, paginateSearched]
    cases holdsNul D.engine params.search.toList <;> rfl
  simp only [Routes.listProjectTasksWith, herrors, Tx.run_bind_eq_iff, succeeds_getCurrentUser, succeeds_requireProjectView,
    succeeds_validated, and_true]
  refine forall₂_congr fun actor _ => forall_congr' fun p => ?_
  rw [and_imp]
  refine imp_congr_right fun _ => imp_congr_right fun _ => ?_
  rw [forall_const]
  refine imp_congr_right fun _ => ?_
  rw [Tx.run_bind_pure, Tx.run_bind_pure, hanswer, hanswer]
  cases holdsNul D.engine params.search.toList with
  | true => simp
  | false =>
    have hloaded : ∀ page : Except Raised (List Task × PaginationMeta),
        (page.map fun r => (r.1.map w.1.loadTask, r.2)).map
            (fun r => ({ data := .tasks (r.1.map TaskOut.modelValidate), pagination := some r.2 } : ApiResponse)) =
          page.map fun r => { data := .tasks (r.1.map fun t => TaskOut.modelValidate (w.1.loadTask t)), pagination := some r.2 } := by
      intro page
      cases page <;> simp [Except.map, Function.comp_def]
    simp only [Bool.false_eq_true, if_false, true_imp_iff, hloaded]
    apply response_eq_iff fun items info => ({ data := .tasks items, pagination := some info } : ApiResponse)
    simp

theorem listUsers_indifferent (unknown : key ∉ SortedList.users.sortable) : SortedList.users.Indifferent D c params key w := by
  intro T
  have hlist : UserService.listUsersWith D T.sorter { params with sort := some key } =
      UserService.listUsersWith D T.sorter { params with sort := none } := by
    refine congrArg Tx.select (funext fun d => ?_)
    exact congrArg (fun terms => paginateSearched D.engine params (T.sorter terms (UserRepository.listQuery D params.search d)))
      (users_terms unknown)
  have herrors : ∀ s, PageParams.errors { params with sort := s } = params.errors := fun _ => rfl
  simp only [SortedList.respond, Routes.listUsersWith, herrors, hlist]

theorem mem_of_mem_projectRows {user : User} {p : Project} (h : p ∈ projectRows D user params d) : p ∈ d.projects.rows := by
  have h := of_mem_searched h
  by_cases hadmin : user.role = .admin
  · simp only [hadmin, if_true] at h
    exact (List.mem_filter.mp h).1
  · simp only [hadmin, if_false, List.mem_flatMap, List.mem_map] at h
    obtain ⟨q, hq, -, -, rfl⟩ := h
    exact (List.mem_filter.mp hq).1

theorem projects_indifferent_iff (unique : UniqueMembers w.1) (unknown : key ∉ SortedList.projects.sortable) :
    SortedList.projects.Indifferent D c params key w ↔ SortedList.projects.DefaultsAgree D c params w.1 := by
  have hdefault : ∀ actor, (Listing.projects actor).terms { params with sort := none } =
      [desc fun p => .number p.createdAt] := fun _ => rfl
  simp only [SortedList.Indifferent, SortedList.respond, listProjects_eq_iff, SortedList.DefaultsAgree, projects_terms unknown,
    hdefault]
  rw [forall_comm]
  refine forall_congr' fun actor => ?_
  rw [forall_comm]
  refine imp_congr_right fun _ => ?_
  rw [forall_comm]
  refine imp_congr_right fun accepted => ?_
  rw [forall_comm]
  refine imp_congr_right fun _ => ?_
  have ids : ∀ p ∈ projectRows D actor params w.1, ∀ q ∈ projectRows D actor params w.1,
      ProjectOut.modelValidate p = ProjectOut.modelValidate q → p = q := fun p hp q hq h =>
    w.1.projects.eq_of_key (mem_of_mem_projectRows hp) (mem_of_mem_projectRows hq) (congrArg ProjectOut.id h)
  rw [ProjectsAgree]
  cases horder : params.order with
  | desc => exact iff_of_true (fun _ => rfl) (Or.inl rfl)
  | asc =>
    have differ : [⟨fun p : Project => .number p.createdAt, .asc⟩] ≠ [desc fun p : Project => .number p.createdAt] := by
      intro h
      exact absurd (congrArg (List.map OrderTerm.order) h) (by decide)
    have halone : ∀ p : Project, ∀ order, upTo (rowLe D.engine.nullsFirst [⟨fun p : Project => .number p.createdAt, order⟩])
        (projectRows D actor params w.1) p = before (rowLe D.engine.nullsFirst [⟨fun p : Project => .number p.createdAt, order⟩])
          (projectRows D actor params w.1) p + 1 ↔
            (projectRows D actor params w.1).countP (fun q => q.createdAt = p.createdAt) = 1 := by
      intro p order
      rw [upTo_eq_add (totalPreorder_rowLe _ _), createdAt_ties order, Nat.add_left_cancel_iff]
    rw [tieBreaks_agree_iff differ (nodup_projectRows unique) (size_pos accepted) ids, or_iff_right (by decide)]
    refine forall₂_congr fun p _ => ?_
    rw [halone p .asc, desc, halone p .desc, ← desc, ← asc, before_newest, upTo_newest, before_oldest, and_self_left]

theorem tasks_indifferent_iff (unknown : key ∉ (SortedList.projectTasks projectId).sortable) :
    (SortedList.projectTasks projectId).Indifferent D c params key w ↔
      (SortedList.projectTasks projectId).DefaultsAgree D c params w.1 := by
  have hdefault : (Listing.tasks projectId).terms { params with sort := none } = TaskRepository.boardOrder := rfl
  simp only [SortedList.Indifferent, SortedList.respond, listProjectTasks_eq_iff, SortedList.DefaultsAgree, tasks_terms unknown,
    hdefault]
  rw [forall_comm]
  refine forall_congr' fun actor => ?_
  rw [forall_comm]
  refine imp_congr_right fun _ => ?_
  rw [forall_comm]
  refine forall_congr' fun p => ?_
  rw [forall_comm]
  refine imp_congr_right fun _ => ?_
  rw [forall_comm]
  refine imp_congr_right fun _ => ?_
  rw [forall_comm]
  refine imp_congr_right fun accepted => ?_
  rw [forall_comm]
  refine imp_congr_right fun _ => ?_
  have nodup : (TaskRepository.listForProjectQuery D projectId params.search w.1).Nodup :=
    nodup_searched ((List.Nodup.of_map _ w.1.tasks.nodup).filter _)
  have ids : ∀ s ∈ TaskRepository.listForProjectQuery D projectId params.search w.1,
      ∀ t ∈ TaskRepository.listForProjectQuery D projectId params.search w.1, s.id = t.id → s = t := fun s hs t ht hid =>
    w.1.tasks.eq_of_key (List.mem_filter.mp (of_mem_searched hs)).1 (List.mem_filter.mp (of_mem_searched ht)).1 hid
  have differ : [⟨fun t : Task => .text t.status.value, params.order⟩] ≠ TaskRepository.boardOrder := by
    intro h
    exact absurd (congrArg List.length h) (by simp [TaskRepository.boardOrder])
  rw [tieBreaks_agree_iff differ nodup (size_pos accepted) fun s hs t ht h => ids s hs t ht (congrArg TaskOut.id h)]
  refine forall₂_congr fun t ht => ?_
  rw [upTo_board nodup ht fun s hs hid => ids s hs t ht hid, before_board, before_status,
    upTo_eq_add (totalPreorder_rowLe _ _), status_ties, before_status, Nat.add_left_cancel_iff, Nat.add_sub_cancel]
  constructor
  · intro h hpage
    obtain ⟨halone, -, hsame⟩ := h hpage.le hpage.ge
    exact ⟨halone, hsame⟩
  · intro h hle hge
    obtain ⟨halone, hsame⟩ := h (Nat.le_antisymm hle hge)
    exact ⟨halone, rfl, hsame⟩

/-- A sort key outside the whitelist is no key at all, whatever the database makes of ties, exactly when the two defaults agree
on the page. -/
theorem unknown_sort_iff (params : PageParams) (key : String) {l : SortedList ρ} (unique : UniqueMembers w.1)
    (unknown : key ∉ l.sortable) : l.Indifferent D c params key w ↔ l.DefaultsAgree D c params w.1 := by
  cases l with
  | users => exact iff_of_true (listUsers_indifferent unknown) trivial
  | projects => exact projects_indifferent_iff unique unknown
  | projectTasks projectId => exact tasks_indifferent_iff unknown

theorem unknown_sort_iff_sample :
    SortedList.projects.Indifferent .sample (Call.sample 5 (some 16)) { order := .desc } "" twoPlanned := by
  have reachable : Reachable .sample twoPlanned := reachable_of_freshRun (by decide +kernel)
  exact (unknown_sort_iff { order := .desc } "" (l := .projects) reachable.uniqueMembers (by decide)).mpr
    fun _ _ _ _ => Or.inl rfl

/-- Under an unknown key the older project comes first, without a key the newer one. -/
theorem unknown_sort_reverses : Reachable .sample twoPlanned ∧ "bogus" ∉ SortedList.projects.sortable ∧
    outcome .sample ⟨Call.sample 5 (some 16), SortedList.projects.request { sort := some "bogus" }⟩ twoPlanned ≠
      outcome .sample ⟨Call.sample 5 (some 16), SortedList.projects.request {}⟩ twoPlanned ∧
    ¬SortedList.projects.Indifferent .sample (Call.sample 5 (some 16)) {} "bogus" twoPlanned := by
  have differ : outcome .sample ⟨Call.sample 5 (some 16), SortedList.projects.request { sort := some "bogus" }⟩ twoPlanned ≠
      outcome .sample ⟨Call.sample 5 (some 16), SortedList.projects.request {}⟩ twoPlanned := by decide +kernel
  refine ⟨reachable_of_freshRun (by decide +kernel), by decide, differ, fun indifferent => differ ?_⟩
  exact indifferent (TieBreak.stored _ _)

end ProjectManagement
