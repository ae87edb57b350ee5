import ProjectManagement.System

/-!
Who sees a project: the list of projects, the access policy and the inline check of task creation agree, because a project
and a user have at most one membership row.
-/

namespace ProjectManagement

open Library

variable {D : Deployment} {c : Call} {i : Input} {o : Outcome} {w w' : World} {d : Db} {u : User} {projectId userId : Uuid}
  {params : PageParams}

def UniqueMembers (d : Db) : Prop :=
  ∀ m ∈ d.projectMembers.rows, ∀ m' ∈ d.projectMembers.rows,
    m.projectId = m'.projectId → m.userId = m'.userId → m = m'

theorem Effect.uniqueMembers (effect : Effect D i w o w') (h : UniqueMembers w.1) : UniqueMembers w'.1 := by
  cases effect with
  | @memberAdded c d b a id p actor q u members notifications caller admin found user new rows notified =>
    have hnew : ∀ m ∈ d.projectMembers.rows, ¬(m.projectId = id ∧ m.userId = p.userId) := by
      intro m hm
      simpa using List.filter_eq_nil_iff.mp new m hm
    intro m hm m' hm' hproject huser
    simp only [rows, List.mem_append, List.mem_singleton] at hm hm'
    rcases hm with hm | rfl <;> rcases hm' with hm' | rfl
    · exact h m hm m' hm' hproject huser
    · exact absurd ⟨hproject, huser⟩ (hnew m hm)
    · exact absurd ⟨hproject.symm, huser.symm⟩ (hnew m' hm')
    · rfl
  | memberRemoved caller admin member =>
    intro m hm m' hm'
    exact h m (Table.mem_deleteWhere.mp hm).1 m' (Table.mem_deleteWhere.mp hm').1
  | _ => exact h

theorem Reachable.uniqueMembers (h : Reachable D w) : UniqueMembers w.1 := by
  obtain ⟨es, run⟩ := h
  apply run.invariant (I := fun w => UniqueMembers w.1) ?_ (by simp [UniqueMembers, World.initial, Db.empty, Table.empty])
  intro e w _ hw
  apply nextWorld_cases (P := fun w => UniqueMembers w.1) e
  · exact fun i o w' _ effect => effect.uniqueMembers hw
  · exact hw
  · exact fun users u _ _ _ => hw

theorem UniqueMembers.memberRows {m : ProjectMember} (h : UniqueMembers d) (hm : m ∈ d.projectMembers.rows) :
    ProjectRepository.memberRows m.projectId m.userId d = [m] := by
  apply d.projectMembers.filter_eq_singleton hm
  intro m' hm'
  rw [Bool.and_eq_true, beq_iff_eq, beq_iff_eq]
  constructor
  · rintro ⟨hproject, huser⟩
    exact h m' hm' m hm hproject huser
  · rintro rfl
    exact ⟨rfl, rfl⟩

theorem UniqueMembers.memberRows_cases (h : UniqueMembers d) :
    ProjectRepository.memberRows projectId userId d = [] ∨ ∃ m, ProjectRepository.memberRows projectId userId d = [m] := by
  cases hrows : ProjectRepository.memberRows projectId userId d with
  | nil => exact Or.inl rfl
  | cons m ms =>
    have hm : m ∈ ProjectRepository.memberRows projectId userId d := by
      rw [hrows]
      exact List.mem_cons_self
    obtain ⟨hmem, hkeys⟩ := List.mem_filter.mp hm
    rw [Bool.and_eq_true, beq_iff_eq, beq_iff_eq] at hkeys
    obtain ⟨rfl, rfl⟩ := hkeys
    exact Or.inr ⟨m, hrows ▸ h.memberRows hmem⟩

def projectTerms (params : PageParams) : List (OrderTerm Project) :=
  if params.sort = none then [desc fun p => .number p.createdAt]
  else applySort params
    [("name", fun p => .text p.name), ("status", fun p => .text p.status.value),
      ("start_date", fun p => .ofOption p.startDate), ("end_date", fun p => .ofOption p.endDate),
      ("created_at", fun p => .number p.createdAt)]
    (fun p => .number p.createdAt)

def projectRows (D : Deployment) (u : User) (params : PageParams) (d : Db) : List Project :=
  ProjectRepository.listQuery D (if u.role = .admin then none else some u.id) params.search d

def OnSomePage (D : Deployment) (u : User) (params : PageParams) (w : World) (projectId : Uuid) : Prop :=
  ∃ page items info, (ProjectService.listProjects D u { params with page := page }).answer w = .ok (items, info) ∧
    1 ≤ page ∧ page ≤ info.pages ∧ projectId ∈ items.map Project.id

theorem answer_listProjects {items : List Project} {info : PaginationMeta} :
    (ProjectService.listProjects D u params).answer w = .ok (items, info) ↔ holdsNul D.engine params.search.toList = false ∧
      params.InRange (projectRows D u params w.1).length ∧
      (items, info) = pageOf params (orderBy D.engine (projectTerms params) (projectRows D u params w.1)) := by
  rw [← (perm_orderBy D.engine (projectTerms params) (projectRows D u params w.1)).length_eq, ← paginate_eq_ok]
  exact paginateSearched_eq_ok

theorem onSomePage_iff (unsearched : params.search = none) (hsize : 0 < params.size) :
    OnSomePage D u params w projectId ↔ projectId ∈ (projectRows D u params w.1).map Project.id := by
  have hperm := perm_orderBy D.engine (projectTerms params) (projectRows D u params w.1)
  have hanswer : ∀ n items info,
      (ProjectService.listProjects D u { params with page := n }).answer w = .ok (items, info) ↔
        ({ params with page := n } : PageParams).InRange (orderBy D.engine (projectTerms params) (projectRows D u params w.1)).length ∧
        (items, info) =
          pageOf { params with page := n } (orderBy D.engine (projectTerms params) (projectRows D u params w.1)) := by
    intro n items info
    have nul : holdsNul D.engine params.search.toList = false := by simp [unsearched, holdsNul]
    rw [answer_listProjects, hperm.length_eq]
    exact ⟨fun h => h.2, fun h => ⟨nul, h⟩⟩
  rw [← (hperm.map Project.id).mem_iff]
  simp only [OnSomePage, hanswer]
  generalize orderBy D.engine (projectTerms params) (projectRows D u params w.1) = rows
  have hpages := length_le_pages_mul hsize rows
  have hall : (List.range (pageOf params rows).2.pages).flatMap (fun k => page params.size k rows) = rows := by
    rw [flatMap_page, List.take_of_length_le hpages]
  constructor
  · rintro ⟨k, items, info, ⟨-, hitems⟩, -, -, hmem⟩
    obtain rfl : items = page params.size (k - 1) rows := congrArg Prod.fst hitems
    exact (List.Sublist.map _ (page_sublist _ _ _)).subset hmem
  · intro hmem
    obtain ⟨p, hp, rfl⟩ := List.mem_map.mp hmem
    rw [← hall, List.mem_flatMap] at hp
    obtain ⟨k, hk, hp⟩ := hp
    exact ⟨k + 1, page params.size k rows, { (pageOf params rows).2 with page := k + 1 },
      ⟨inRange_of_le_pages hsize (by omega) (List.mem_range.mp hk), rfl⟩, by omega, List.mem_range.mp hk, List.mem_map_of_mem hp⟩

theorem filter_flatMap_copies {ρ : Type} {q : ρ → Bool} {f : ρ → List ρ} (h : ∀ a, ∀ b ∈ f a, b = a) (l : List ρ) :
    (l.flatMap f).filter q = (l.filter q).flatMap f := by
  induction l with
  | nil => rfl
  | cons a l ih =>
    rw [List.flatMap_cons, List.filter_append, ih]
    cases hq : q a with
    | true =>
      have hall : (f a).filter q = f a := List.filter_eq_self.mpr fun b hb => by rw [h a b hb, hq]
      rw [hall, List.filter_cons_of_pos hq, List.flatMap_cons]
    | false =>
      have hnone : (f a).filter q = [] := List.filter_eq_nil_iff.mpr fun b hb => by simp [h a b hb, hq]
      rw [hnone, List.filter_cons_of_neg (by simp [hq]), List.nil_append]

theorem filter_live_id : (d.projects.rows.filter Project.live).filter (fun q => q.id == projectId) =
    (ProjectRepository.find projectId d).toList := by
  rw [List.filter_filter]
  cases hfind : ProjectRepository.find projectId d with
  | none =>
    apply List.filter_eq_nil_iff.mpr
    intro q hq
    simpa [and_comm] using List.find?_eq_none.mp hfind q hq
  | some p =>
    obtain ⟨hp, live, rfl⟩ := ProjectRepository.find_eq_some.mp hfind
    apply d.projects.filter_eq_singleton hp
    intro q hq
    rw [Bool.and_eq_true, beq_iff_eq]
    constructor
    · rintro ⟨hid, -⟩
      exact d.projects.eq_of_key hq hp hid
    · rintro rfl
      exact ⟨rfl, live⟩

theorem filter_projectRows (hsearch : params.search = none) :
    (projectRows D u params d).filter (fun q => q.id == projectId) =
      (ProjectRepository.find projectId d).toList.flatMap fun p =>
        if u.role = .admin then [p] else (ProjectRepository.memberRows projectId u.id d).map fun _ => p := by
  by_cases hadmin : u.role = .admin
  · simp only [projectRows, ProjectRepository.listQuery, searched, hsearch, hadmin, if_true, filter_live_id,
      List.flatMap_singleton']
  · simp only [projectRows, ProjectRepository.listQuery, searched, hsearch, hadmin, if_false]
    rw [filter_flatMap_copies (fun p q hq => by obtain ⟨_, -, rfl⟩ := List.mem_map.mp hq; rfl), filter_live_id]
    cases hfind : ProjectRepository.find projectId d with
    | none => rfl
    | some p =>
      obtain ⟨-, -, rfl⟩ := ProjectRepository.find_eq_some.mp hfind
      rfl

theorem count_projectRows (hsearch : params.search = none) (unique : UniqueMembers d) :
    ((∃ p, ProjectRepository.find projectId d = some p) ∧ MayAccess d projectId u →
        ((projectRows D u params d).map Project.id).count projectId = 1) ∧
      (projectId ∈ (projectRows D u params d).map Project.id →
        (∃ p, ProjectRepository.find projectId d = some p) ∧ MayAccess d projectId u) := by
  have hcount : ((projectRows D u params d).map Project.id).count projectId =
      ((projectRows D u params d).filter (fun q => q.id == projectId)).length := by
    rw [List.count, List.countP_map, List.countP_eq_length_filter]
    rfl
  constructor
  · rintro ⟨⟨p, found⟩, access⟩
    rw [hcount, filter_projectRows hsearch, found]
    rcases access with hadmin | ⟨m, hm⟩
    · simp [hadmin]
    · by_cases hadmin : u.role = .admin
      · simp [hadmin]
      · simp [hadmin, hm]
  · intro hmem
    obtain ⟨q, hq, hid⟩ := List.mem_map.mp hmem
    have hfilter : q ∈ (projectRows D u params d).filter (fun q => q.id == projectId) :=
      List.mem_filter.mpr ⟨hq, by simpa using hid⟩
    rw [filter_projectRows hsearch, List.mem_flatMap] at hfilter
    obtain ⟨p, hp, hq⟩ := hfilter
    refine ⟨⟨p, Option.mem_toList.mp hp⟩, ?_⟩
    by_cases hadmin : u.role = .admin
    · exact Or.inl hadmin
    · rw [if_neg hadmin] at hq
      obtain ⟨m, hm, -⟩ := List.mem_map.mp hq
      exact Or.inr (unique.memberRows_cases.resolve_left (List.ne_nil_of_mem hm))

theorem policy_iff : (∃ p, (requireProjectView projectId u).answer w = .ok p) ↔
    (∃ p, ProjectRepository.find projectId w.1 = some p) ∧ MayAccess w.1 projectId u := by
  simp only [Tx.answer_eq_ok, succeeds_requireProjectView]
  constructor
  · rintro ⟨p, t, found, access, -⟩
    exact ⟨⟨p, found⟩, access⟩
  · rintro ⟨⟨p, found⟩, access⟩
    exact ⟨p, _, found, access, rfl⟩

theorem insertTask_of_new {r : Task} {p : Project} (new : ∀ t ∈ d.tasks.rows, t.id ≠ r.id) (title : r.title.length ≤ 255)
    (text : holdsNul D.engine (r.title :: r.description.toList) = false) (project : p ∈ d.projects.rows ∧ p.id = r.projectId)
    (assignee : r.assigneeId = none)
    (author : u ∈ d.users.rows ∧ u.id = r.createdBy) :
    ∃ d', Db.insertTask D.engine r d = .ok d' ∧ d'.tasks.rows = d.tasks.rows ++ [r] := by
  obtain ⟨tasks, htasks, rows⟩ := Table.insert?_of_new new
  refine ⟨{ d with tasks := tasks }, ?_, rows⟩
  have htexts := unstorable_of_le title text
  apply checked_eq_ok.mpr
  simp [htexts, dangling_of_mem project.1 project.2, dangling_of_mem author.1 author.2, assignee, htasks]

theorem createTask_iff {p : TaskCreate} (caller : CurrentUser c w.1 u) (valid : p.errors = []) (unassigned : p.assigneeId = none)
    (text : holdsNul D.engine (p.title :: p.description.toList) = false) (new : ∀ t ∈ w.1.tasks.rows, t.id ≠ c.fresh.id) :
    (∃ a, outcome D ⟨c, .createTask p⟩ w = .ok a) ↔
      (∃ q, ProjectRepository.find p.projectId w.1 = some q) ∧ MayAccess w.1 p.projectId u := by
  constructor
  · rintro ⟨a, ha⟩
    have effect := step_effect D ⟨c, .createTask p⟩ w
    rw [ha] at effect
    generalize next D ⟨c, .createTask p⟩ w = w' at effect
    cases effect with
    | answered reads => simp [Request.reads] at reads
    | taskCreated caller' errors access project rows notified =>
      rw [caller.unique caller']
      exact ⟨⟨_, project⟩, access⟩
  · rintro ⟨⟨q, found⟩, access⟩
    obtain ⟨hq, -, hqid⟩ := ProjectRepository.find_eq_some.mp found
    have title : p.title.length ≤ 255 := (stringLength_eq_nil.mp valid).2
    obtain ⟨d', hinsert, rows⟩ := insertTask_of_new (D := D) (d := w.1)
      (r := newTask D c p (TaskRepository.nextPosition p.projectId p.status w.1) u) new title text ⟨hq, hqid⟩ unassigned
      ⟨caller.mem, rfl⟩
    have hmem : newTask D c p (TaskRepository.nextPosition p.projectId p.status w.1) u ∈ d'.tasks.rows := by
      rw [rows]
      exact List.mem_append_right _ (List.mem_singleton_self _)
    have hfind := TaskRepository.find_eq_some.mpr ⟨hmem, rfl, rfl⟩
    have hstep : ∃ a, (Routes.createTask D c p).Succeeds ⟨w.1, w.1, w.2⟩ a ⟨w.1, d', w.2⟩ := by
      simp only [Routes.createTask, TaskService.createTask, Tx.succeeds_bind, succeeds_getCurrentUser, succeeds_validated,
        Tx.succeeds_refuseIf, ProjectRepository.succeeds_get, Tx.succeeds_orRaise, Tx.succeeds_query,
        TaskRepository.succeeds_add, TaskRepository.succeeds_get, Tx.succeeds_pure]
      exact ⟨_, u, _, ⟨caller, rfl⟩, (), _, ⟨valid, rfl⟩, true, _, succeeds_mayAccess_true.mpr ⟨access, rfl⟩, (), _,
        ⟨by simp, rfl⟩, _, _, ⟨_, _, ⟨rfl, rfl⟩, q, _, ⟨found, rfl⟩, _, _, ⟨rfl, rfl⟩, (), _, ⟨_, hinsert, rfl⟩, (), _,
        Tx.succeeds_forSome.mpr (Or.inl ⟨by simp [notifiedAssignee, newTask, unassigned], rfl⟩), _, _, ⟨rfl, rfl⟩,
        congrArg (Option.map _) hfind, rfl⟩, rfl, rfl⟩
    obtain ⟨a, hstep⟩ := hstep
    exact ⟨a, congrArg Prod.fst (Tx.run_of_succeeds hstep)⟩

/-- The list of projects, the access policy and the creation of a task agree on every project, and the list has a project it
shows exactly once. -/
theorem project_visibility {p : TaskCreate} (reachable : Reachable D w) (caller : CurrentUser c w.1 u)
    (accepted : params.errors = []) (unsearched : params.search = none) (valid : p.errors = [])
    (text : holdsNul D.engine (p.title :: p.description.toList) = false) (unassigned : p.assigneeId = none)
    (new : ∀ t ∈ w.1.tasks.rows, t.id ≠ c.fresh.id) :
    (OnSomePage D u params w p.projectId ↔ ∃ q, (requireProjectView p.projectId u).answer w = .ok q) ∧
      ((∃ q, (requireProjectView p.projectId u).answer w = .ok q) ↔ ∃ a, outcome D ⟨c, .createTask p⟩ w = .ok a) ∧
      (OnSomePage D u params w p.projectId →
        ∃ rows, (rows.map Project.id).count p.projectId = 1 ∧
          ∀ page, ({ params with page := page } : PageParams).InRange rows.length →
            ∃ items info, (ProjectService.listProjects D u { params with page := page }).answer w = .ok (items, info) ∧
            items = Library.page params.size (page - 1) rows ∧ info.total = rows.length) := by
  have count : ((∃ q, ProjectRepository.find p.projectId w.1 = some q) ∧ MayAccess w.1 p.projectId u →
        ((projectRows D u params w.1).map Project.id).count p.projectId = 1) ∧
      (p.projectId ∈ (projectRows D u params w.1).map Project.id →
        (∃ q, ProjectRepository.find p.projectId w.1 = some q) ∧ MayAccess w.1 p.projectId u) :=
    count_projectRows unsearched reachable.uniqueMembers
  have listed : OnSomePage D u params w p.projectId ↔ p.projectId ∈ (projectRows D u params w.1).map Project.id :=
    onSomePage_iff unsearched (size_pos accepted)
  refine ⟨?_, ?_, ?_⟩
  · rw [listed, policy_iff]
    constructor
    · exact count.2
    · intro h
      exact List.count_pos_iff.mp (by rw [count.1 h]; omega)
  · rw [policy_iff, createTask_iff caller valid unassigned text new]
  · intro h
    have hperm := perm_orderBy D.engine (projectTerms params) (projectRows D u params w.1)
    let rows := orderBy D.engine (projectTerms params) (projectRows D u params w.1)
    refine ⟨rows, ?_, fun page hpage => ⟨(pageOf { params with page := page } rows).1,
      (pageOf { params with page := page } rows).2, ?_, rfl, rfl⟩⟩
    · rw [(hperm.map Project.id).count_eq]
      exact count.1 (count.2 (listed.mp h))
    · rw [hperm.length_eq] at hpage
      exact answer_listProjects.mpr ⟨by simp [unsearched, holdsNul], hpage, rfl⟩

def oneMember : List Event :=
  oneTask ++ sampleRequests 4 [(none, .register ⟨"a@b.c", "Passw0rd", "A"⟩), (some 16, .addMember 32 { userId := 64 })]

theorem project_visibility_sample : ∃ w u, Reachable .sample w ∧ u.role = .employee ∧ OnSomePage .sample u {} w 32 := by
  let member : User := newUser .sample (Call.sample 4 none) "a@b.c" ":Passw0rd" "A" .employee
  have caller : CurrentUser (Call.sample 6 (some 64)) (playFrom .sample World.initial oneMember).1 member :=
    ⟨⟨⟨true, some 64, "", "access", 0, 1000⟩, by decide +kernel, rfl⟩, by decide +kernel, rfl⟩
  have reachable : Reachable .sample (playFrom .sample World.initial oneMember) := reachable_of_freshRun (by decide +kernel)
  let params : PageParams := {}
  have agree := project_visibility (p := { projectId := 32, title := "T" }) reachable caller (show params.errors = [] by decide) rfl
    (by decide) (by decide) rfl (by decide +kernel)
  obtain ⟨a, ha⟩ := exists_of_isOk (o := outcome .sample ⟨Call.sample 6 (some 64), .createTask { projectId := 32, title := "T" }⟩
    (playFrom .sample World.initial oneMember)) (by decide +kernel)
  exact ⟨_, member, reachable, rfl, agree.1.mpr (agree.2.1.mpr ⟨a, ha⟩)⟩

end ProjectManagement
