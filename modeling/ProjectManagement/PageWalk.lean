import ProjectManagement.Library.Sorting
import ProjectManagement.ProjectVisibility

/-!
Walking through the pages of a list. Every page is a query of its own, and rows that tie under its `ORDER BY` may come in any
order.
-/

namespace ProjectManagement

open Library

/-- The paginated lists, each with what its path names. -/
inductive Listing : Type → Type
  | projects (user : User) : Listing Project
  | users : Listing User
  | tasks (projectId : Uuid) : Listing Task
  | comments (taskId : Uuid) : Listing Comment
  | notifications (userId : Uuid) : Listing Notification

namespace Listing

variable {ρ : Type}

def terms (params : PageParams) : Listing ρ → List (OrderTerm ρ)
  | projects _ => projectTerms params
  | users => applySort params
    [("email", fun u => .text u.email), ("full_name", fun u => .text u.fullName),
      ("created_at", fun u => .number u.createdAt), ("role", fun u => .text u.role.value)]
    (fun u => .number u.createdAt)
  | tasks _ =>
    if params.sort = none then TaskRepository.boardOrder
    else applySort params
      [("title", fun t => .text t.title), ("priority", fun t => .text t.priority.value),
        ("due_date", fun t => .ofOption t.dueDate), ("created_at", fun t => .number t.createdAt),
        ("position", fun t => .number t.position)]
      (fun t => .text t.status.value)
  | comments _ => [asc fun m => .number m.createdAt]
  | notifications _ => [desc fun n => .number n.createdAt]

def rows (D : Deployment) (params : PageParams) (d : Db) : Listing ρ → List ρ
  | projects user => projectRows D user params d
  | users => UserRepository.listQuery D params.search d
  | tasks projectId => TaskRepository.listForProjectQuery D projectId params.search d
  | comments taskId => d.comments.rows.filter (fun m => m.live && m.taskId == taskId)
  | notifications userId => d.notifications.rows.filter (fun n => n.userId == userId)

/-- A term that the database refuses, in a list that is searched. -/
def refuses (D : Deployment) (params : PageParams) : Listing ρ → Bool
  | projects _ => holdsNul D.engine params.search.toList
  | users => holdsNul D.engine params.search.toList
  | tasks _ => holdsNul D.engine params.search.toList
  | comments _ => false
  | notifications _ => false

theorem refuses_of_unsearched {D : Deployment} {params : PageParams} {l : Listing ρ} (unsearched : params.search = none) :
    l.refuses D params = false := by
  cases l <;> simp [refuses, unsearched, holdsNul]

/-- The answer of the model: the rows in the stored order wherever they tie. -/
def stored (D : Deployment) (params : PageParams) (d : Db) (l : Listing ρ) : Except Raised (List ρ × PaginationMeta) :=
  if l.refuses D params then .error .unexpected
  else paginate params (orderBy D.engine (l.terms params) (l.rows D params d))

theorem stored_eq_ok {D : Deployment} {params : PageParams} {d : Db} {l : Listing ρ} {page : List ρ × PaginationMeta} :
    l.stored D params d = .ok page ↔ l.refuses D params = false ∧ params.InRange (l.rows D params d).length ∧
      page = pageOf params (orderBy D.engine (l.terms params) (l.rows D params d)) := by
  rw [← (perm_orderBy D.engine (l.terms params) (l.rows D params d)).length_eq, ← paginate_eq_ok]
  cases h : l.refuses D params <;> simp [stored, h]

end Listing

section Services

variable (D : Deployment) (params : PageParams) (w : World)

theorem listProjects_stored (user : User) : (ProjectService.listProjects D user params).answer w =
    (Listing.projects user).stored D params w.1 := rfl

theorem listUsers_stored : (UserService.listUsers D params).answer w = Listing.users.stored D params w.1 := rfl

theorem listForProject_stored (projectId : Uuid) : (TaskService.listForProject D projectId params).answer w =
    ((Listing.tasks projectId).stored D params w.1).map (Prod.map (List.map w.1.loadTask) id) := rfl

theorem listForTask_stored (taskId : Uuid) : (CommentService.listForTask D taskId params).answer w =
    ((Listing.comments taskId).stored D params w.1).map (Prod.map (List.map w.1.loadComment) id) := rfl

theorem listForUser_stored (userId : Uuid) : (NotificationService.listForUser D userId params).answer w =
    (Listing.notifications userId).stored D params w.1 := rfl

end Services

section Walk

variable {D : Deployment} {params : PageParams} {d : Db} {ρ : Type} {l : Listing ρ}

/-- Whatever order the database gives the ties on each page, pages `1` to `pages` together are the matching rows. -/
def WalksAll (D : Deployment) (params : PageParams) (d : Db) (l : Listing ρ) : Prop :=
  ∀ answer : ℕ → List ρ, (∀ page, Resolves (rowLe D.engine.nullsFirst (l.terms params)) (l.rows D params d) (answer page)) →
    ((List.range' 1 (pageOf params (l.rows D params d)).2.pages).flatMap fun page =>
      (pageOf { params with page := page } (answer page)).1).Perm (l.rows D params d)

theorem pairwise_orderBy (e : Engine) (terms : List (OrderTerm ρ)) (rows : List ρ) :
    (orderBy e terms rows).Pairwise (fun a b => rowLe e.nullsFirst terms a b = true) :=
  (totalPreorder_rowLe e.nullsFirst terms).pairwise_insertionSort rows

theorem stored_resolves : Resolves (rowLe D.engine.nullsFirst (l.terms params)) (l.rows D params d)
    (orderBy D.engine (l.terms params) (l.rows D params d)) :=
  ⟨perm_orderBy D.engine _ _, pairwise_orderBy D.engine _ _⟩

theorem nodup_searched {search : Option String} {matching : String → ρ → Bool} {rows : List ρ} (h : rows.Nodup) :
    (searched search matching rows).Nodup := by
  unfold searched
  split
  · split
    · exact h
    · exact h.filter _
  · exact h

theorem nodup_projectRows {user : User} (unique : UniqueMembers d) : (projectRows D user params d).Nodup := by
  have hlive : (d.projects.rows.filter Project.live).Nodup := (List.Nodup.of_map _ d.projects.nodup).filter _
  apply nodup_searched
  by_cases hadmin : user.role = .admin
  · simpa only [hadmin, if_true] using hlive
  · simp only [hadmin, if_false]
    rw [List.nodup_flatMap]
    constructor
    · intro p _
      have hrows : ProjectRepository.memberRows p.id user.id d = [] ∨ _ := unique.memberRows_cases
      unfold ProjectRepository.memberRows at hrows
      rcases hrows with hnone | ⟨m, hone⟩
      · simp [hnone]
      · simp [hone]
    · apply hlive.imp
      intro p q hne r hr hr'
      obtain ⟨-, -, rfl⟩ := List.mem_map.mp hr
      obtain ⟨-, -, rfl⟩ := List.mem_map.mp hr'
      exact hne rfl

theorem nodup_rows (unique : UniqueMembers d) : (l.rows D params d).Nodup := by
  cases l with
  | projects user => exact nodup_projectRows unique
  | users => exact nodup_searched ((List.Nodup.of_map _ d.users.nodup).filter _)
  | tasks projectId => exact nodup_searched ((List.Nodup.of_map _ d.tasks.nodup).filter _)
  | comments taskId => exact (List.Nodup.of_map _ d.comments.nodup).filter _
  | notifications userId => exact (List.Nodup.of_map _ d.notifications.nodup).filter _

theorem pages_eq_walk (answer : ℕ → List ρ) (n : ℕ) :
    ((List.range' 1 n).flatMap fun page => (pageOf { params with page := page } (answer page)).1) =
      walk params.size n (fun k => answer (k + 1)) := by
  rw [List.range'_eq_map_range, List.flatMap_map, walk]
  congr 1
  funext k
  simp only [fst_pageOf, Nat.add_comm 1 k, Nat.add_sub_cancel]

theorem flatMap_pages (hsize : 0 < params.size) (rows : List ρ) :
    ((List.range' 1 (pageOf params rows).2.pages).flatMap fun page => (pageOf { params with page } rows).1) = rows := by
  rw [pages_eq_walk, walk, flatMap_page]
  exact List.take_of_length_le (length_le_pages_mul hsize rows)

/-- What a page has to be in a result of `pages` pages: full but for the last one, and empty after it. -/
structure IsPage (params : PageParams) (rows : List ρ) (pages : ℕ) (page : List ρ × PaginationMeta) : Prop where
  info : page.2 = ⟨params.page, params.size, rows.length, pages⟩
  full : params.page < pages → page.1.length = params.size
  last : params.page = pages → 1 ≤ page.1.length ∧ page.1.length ≤ params.size
  beyond : pages < params.page → page.1 = []

/-- The page asked for is what it has to be, and the pages, as few as there can be, cut the result into consecutive pieces. -/
def Tiles (params : PageParams) (rows : List ρ) : Prop :=
  ∃ pages, IsLeast { n | rows.length ≤ n * params.size } pages ∧
    (∃ page, paginate params rows = .ok page ∧ IsPage params rows pages page) ∧
    ∃ page : ℕ → List ρ × PaginationMeta,
      (∀ n, 1 ≤ n → n ≤ pages →
        paginate { params with page := n } rows = .ok (page n) ∧ IsPage { params with page := n } rows pages (page n)) ∧
      ((List.range' 1 pages).flatMap fun n => (page n).1) = rows

theorem length_pageOf (rows : List ρ) :
    (pageOf params rows).1.length = min params.size (rows.length - (params.page - 1) * params.size) := by
  simp only [pageOf, PageParams.offset, List.length_take, List.length_drop]

theorem isPage_pageOf (size : 1 ≤ params.size) (page : 1 ≤ params.page) (rows : List ρ) :
    IsPage params rows (pageOf params rows).2.pages (pageOf params rows) := by
  have hpages : ∀ n, (pageOf params rows).2.pages ≤ n ↔ rows.length ≤ n * params.size := fun n => pages_le_iff size rows
  constructor
  · rfl
  · intro hbefore
    have hmore : params.page * params.size < rows.length :=
      Nat.not_le.mp fun h => Nat.not_le.mpr hbefore ((hpages params.page).mpr h)
    have hstart : (params.page - 1) * params.size + params.size = params.page * params.size := by
      rw [← Nat.succ_mul, Nat.succ_eq_add_one, Nat.sub_add_cancel page]
    rw [length_pageOf]
    omega
  · intro hlast
    have hmore : (params.page - 1) * params.size < rows.length := Nat.not_le.mp fun h => by
      have hle := (hpages (params.page - 1)).mpr h
      omega
    rw [length_pageOf]
    omega
  · intro hafter
    have hend : rows.length ≤ (params.page - 1) * params.size := (hpages (params.page - 1)).mp (by omega)
    rw [← List.length_eq_zero_iff, length_pageOf]
    omega

theorem Tiles.inRange {rows : List ρ} (tiles : Tiles params rows) : params.InRange rows.length := by
  obtain ⟨pages, -, ⟨answer, served, -⟩, -⟩ := tiles
  exact (paginate_eq_ok.mp served).1

/-- The pages of any ordered result tile it, as far as the offset is one the driver can bind. -/
theorem pages_tile (params : PageParams) (size : 1 ≤ params.size) (page : 1 ≤ params.page) (rows : List ρ) :
    Tiles params rows ↔ params.InRange rows.length := by
  refine ⟨Tiles.inRange, fun inRange => ?_⟩
  have hpages : ∀ n, (pageOf params rows).2.pages ≤ n ↔ rows.length ≤ n * params.size := fun n => pages_le_iff size rows
  refine ⟨(pageOf params rows).2.pages, ⟨(hpages _).mp (Nat.le_refl _), fun n hn => (hpages n).mpr hn⟩,
    ⟨pageOf params rows, paginate_eq_ok.mpr ⟨inRange, rfl⟩, isPage_pageOf size page rows⟩,
    fun n => pageOf { params with page := n } rows, fun n hn hle => ⟨?_, ?_⟩, flatMap_pages size rows⟩
  · exact paginate_eq_ok.mpr ⟨inRange_of_le_pages size hn hle, rfl⟩
  · exact @isPage_pageOf { params with page := n } ρ size hn rows

theorem pages_tile_sample : Tiles { page := 3, size := 10 } (List.range 25) :=
  (pages_tile { page := 3, size := 10 } (by decide) (by decide) (List.range 25)).mpr (by decide)

/-- A page so far out that its offset has no 64 bits: the statement cannot be sent. -/
theorem far_page_fails : ¬Tiles { page := 500000000000000000, size := 20 } (List.range 25) ∧
    Reachable .sample (playFrom .sample World.initial oneTask) ∧
    outcome .sample ⟨Call.sample 4 (some 16), .listProjects { page := 500000000000000000, size := 20 }⟩
      (playFrom .sample World.initial oneTask) = .error .unexpected :=
  ⟨fun tiles => absurd tiles.inRange (by decide), reachable_of_freshRun (by decide +kernel), by decide +kernel⟩

/-- What the pages `1` to `pages` of a list hold together, each asked for after the other in one state. -/
def AllPages {α : Type} (list : PageParams → App (List α × PaginationMeta)) (params : PageParams) (w : World)
    (items : List α) : Prop :=
  ∃ page : ℕ → List α × PaginationMeta,
    (∀ n, 1 ≤ n → n ≤ max 1 (page 1).2.pages → (list { params with page := n }).answer w = .ok (page n)) ∧
    items = (List.range' 1 (page 1).2.pages).flatMap fun n => (page n).1

theorem allPages_iff {ρ α : Type} {D : Deployment} {w : World} {l : Listing ρ} {params : PageParams} {f : ρ → α} {items : List α}
    {list : PageParams → App (List α × PaginationMeta)}
    (stored : ∀ params, (list params).answer w = (l.stored D params w.1).map (Prod.map (List.map f) id)) (hsize : 0 < params.size) :
    AllPages list params w items ↔
      l.refuses D params = false ∧ items = (orderBy D.engine (l.terms params) (l.rows D params w.1)).map f := by
  have hpage : ∀ n, l.stored D { params with page := n } w.1 = if l.refuses D params then .error .unexpected
      else paginate { params with page := n } (orderBy D.engine (l.terms params) (l.rows D params w.1)) := by
    intro n
    cases l <;> rfl
  generalize orderBy D.engine (l.terms params) (l.rows D params w.1) = rows at hpage
  have hanswer : ∀ n page, (list { params with page := n }).answer w = .ok page ↔ l.refuses D params = false ∧
      ({ params with page := n } : PageParams).InRange rows.length ∧
      page = (pageOf { params with page := n } rows).map (List.map f) id := by
    intro n page
    rw [stored, hpage]
    cases l.refuses D params with
    | true => simp [Except.map]
    | false =>
      simp only [Bool.false_eq_true, if_false, true_and]
      cases hp : paginate { params with page := n } rows with
      | error e =>
        have hout : ¬({ params with page := n } : PageParams).InRange rows.length := fun h => by
          simp [paginate, h] at hp
        simp [Except.map, hout]
      | ok p =>
        obtain ⟨inRange, rfl⟩ := paginate_eq_ok.mp hp
        simp [Except.map, inRange, eq_comm]
  have hitems : (List.range' 1 (pageOf params rows).2.pages).flatMap
      (fun n => (pageOf { params with page := n } rows).1.map f) = rows.map f := by
    rw [← List.map_flatMap, flatMap_pages hsize]
  constructor
  · rintro ⟨page, answers, rfl⟩
    obtain ⟨readable, -, hfirst⟩ := (hanswer 1 _).mp (answers 1 (Nat.le_refl _) (Nat.le_max_left _ _))
    have hcount : (page 1).2.pages = (pageOf params rows).2.pages := by
      rw [hfirst]
      rfl
    refine ⟨readable, ?_⟩
    rw [← hitems, hcount]
    apply List.flatMap_congr
    intro n hn
    obtain ⟨h1, h2⟩ := List.mem_range'_1.mp hn
    rw [((hanswer n _).mp (answers n h1 (by omega))).2.2]
    rfl
  · rintro ⟨readable, rfl⟩
    refine ⟨fun n => (pageOf { params with page := n } rows).map (List.map f) id, fun n hn hle => ?_, hitems.symm⟩
    refine (hanswer n _).mpr ⟨readable, ?_, rfl⟩
    rcases le_max_iff.mp hle with hone | hpages
    · obtain rfl : n = 1 := by omega
      exact Or.inl (by simp [PageParams.offset])
    · exact inRange_of_le_pages hsize hn hpages

theorem walksAll_eq_walk (accepted : params.errors = []) (nodup : (l.rows D params d).Nodup) : WalksAll D params d l ↔
    ∀ r ∈ l.rows D params d, OnOnePage (rowLe D.engine.nullsFirst (l.terms params)) params.size (l.rows D params d) r := by
  have hsize := size_pos accepted
  have pre := totalPreorder_rowLe D.engine.nullsFirst (l.terms params)
  have hpages := length_le_pages_mul hsize (l.rows D params d)
  rw [← walk_perm_iff pre hsize hpages nodup]
  constructor
  · intro h answer answers
    have hwalk := h (fun page => answer (page - 1)) fun page => answers (page - 1)
    rwa [pages_eq_walk] at hwalk
  · intro h answer answers
    rw [pages_eq_walk]
    exact h _ fun k => answers (k + 1)

theorem boardOrder_id {nullsFirst : Bool} {r r' : Task} (hle : rowLe nullsFirst TaskRepository.boardOrder r r' = true)
    (hle' : rowLe nullsFirst TaskRepository.boardOrder r' r = true) : r.id = r'.id := by
  simp only [TaskRepository.boardOrder, rowLe_cons] at hle hle'
  -- equal in status and position, the two are compared by id, in both directions
  have hlast := ((hle.2 hle'.1).2 (hle'.2 hle.1).1).1
  have hlast' := ((hle'.2 hle.1).2 (hle.2 hle'.1).1).1
  simp only [OrderTerm.le, asc, Cell.le, decide_eq_true_eq, Nat.cast_le] at hlast hlast'
  exact BitVec.eq_of_toNat_eq (Nat.le_antisymm hlast hlast')

/-- The default order of a project's tasks ends with their ids, which no two of them share: its pages are always walked. -/
theorem board_walksAll {projectId : Uuid} (accepted : params.errors = []) (unsorted : params.sort = none) :
    WalksAll D params d (.tasks projectId) := by
  have nodup : ((Listing.tasks projectId).rows D params d).Nodup :=
    nodup_searched ((List.Nodup.of_map _ d.tasks.nodup).filter _)
  refine (walksAll_eq_walk accepted nodup).mpr fun r hr => ?_
  apply onOnePage_of_unique (totalPreorder_rowLe _ _) nodup hr
  intro r' hr' hle hle'
  have hid : r.id = r'.id := by
    simp only [Listing.terms, unsorted, if_true] at hle hle'
    exact boardOrder_id hle hle'
  exact d.tasks.eq_of_key (List.mem_filter.mp (of_mem_searched hr')).1 (List.mem_filter.mp (of_mem_searched hr)).1 hid.symm

/-- The pages of a list are walked without loss or repetition exactly when no group of rows that tie under its order
crosses a page boundary. -/
theorem walksAll_iff (unique : UniqueMembers d) (accepted : params.errors = []) :
    (l.rows D params d).Nodup ∧ (WalksAll D params d l ↔
      ∀ r ∈ l.rows D params d, OnOnePage (rowLe D.engine.nullsFirst (l.terms params)) params.size (l.rows D params d) r) :=
  ⟨nodup_rows unique, walksAll_eq_walk accepted (nodup_rows unique)⟩

end Walk

def twoPlanned : World := playFrom .sample World.initial (oneTask ++ sampleRequests 4 [(some 16, .createProject { name := "Q" })])

def seededAdmin : User := newUser .sample (Call.sample 1 none) "admin@ats.com" ":Admin@12345" "System Administrator" .admin

theorem walksAll_iff_sample :
    WalksAll .sample { sort := some "name", size := 1 } twoPlanned.1 (.projects seededAdmin) := by
  have reachable : Reachable .sample twoPlanned := reachable_of_freshRun (by decide +kernel)
  exact (walksAll_iff reachable.uniqueMembers (by decide)).2.mpr (by decide +kernel)

/-- Sorted by status and one to a page, the same project may come on both pages. -/
theorem page_repeated : Reachable .sample twoPlanned ∧ UserRepository.find 16 twoPlanned.1 = some seededAdmin ∧
    ¬WalksAll .sample { sort := some "status", size := 1 } twoPlanned.1 (.projects seededAdmin) := by
  refine ⟨reachable_of_freshRun (by decide +kernel), by decide +kernel, fun h => ?_⟩
  let rows := (Listing.projects seededAdmin).rows .sample { sort := some "status", size := 1 } twoPlanned.1
  have hwalk := h (fun page => if page = 1 then rows else rows.reverse) fun page => ?_
  · exact absurd hwalk (by decide +kernel)
  · by_cases hpage : page = 1
    · rw [if_pos hpage]
      exact ⟨.refl _, by decide +kernel⟩
    · rw [if_neg hpage]
      exact ⟨List.reverse_perm _, by decide +kernel⟩

end ProjectManagement
