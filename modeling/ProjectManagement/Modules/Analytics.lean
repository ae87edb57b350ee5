import ProjectManagement.Modules.Tasks

/-! Reports: the dashboard and the per-project figures. -/

namespace ProjectManagement

open Library

variable (D : Deployment) (c : Call)

structure DashboardReport where
  totalProjects : ℕ
  totalTasks : ℕ
  totalUsers : ℕ
  projectsByStatus : List (String × ℕ)
  tasksByStatus : List (String × ℕ)
  tasksByPriority : List (String × ℕ)
  overdueTasks : ℕ
  recentProjects : List ProjectOut
  recentTasks : List TaskOut
  upcomingDeadlines : List TaskOut
  deriving DecidableEq

structure ProjectAnalytics where
  projectId : Uuid
  totalTasks : ℕ
  tasksByStatus : List (String × ℕ)
  tasksByPriority : List (String × ℕ)
  tasksPerMember : List (String × ℕ)
  completionPercent : ℚ
  overdueTasks : ℕ
  deriving DecidableEq

/-- `dict[k] = v` on a dictionary in insertion order. -/
def dictSet (d : List (String × ℕ)) (k : String) (v : ℕ) : List (String × ℕ) :=
  if d.any (fun p => p.1 == k) then d.map (fun p => if p.1 = k then (k, v) else p) else d ++ [(k, v)]

namespace AnalyticsRepository

def countProjects (d : Db) : ℕ := (d.projects.rows.filter Project.live).length

/-- The live tasks the counts range over, of one project or of all. -/
def liveTasks (projectId : Option Uuid) (d : Db) : List Task :=
  d.tasks.rows.filter (fun t => t.live && projectId.all (fun p => t.projectId == p))

def countTasks (projectId : Option Uuid) (d : Db) : ℕ := (liveTasks projectId d).length

def countUsers (d : Db) : ℕ := (d.users.rows.filter User.live).length

/-- A zero-filled dictionary updated with the rows of a `GROUP BY`, which has none for an absent member. -/
def groupedCounts {ρ κ : Type} [DecidableEq κ] (members : List κ) (value : κ → String) (column : ρ → κ)
    (rows : List ρ) : List (String × ℕ) :=
  ((members.filter (fun k => rows.any (fun r => column r = k))).foldl
    (fun counts k => dictSet counts (value k) (rows.filter (fun r => column r = k)).length)
    (members.map (fun k => (value k, 0))))

def projectsByStatus (d : Db) : List (String × ℕ) :=
  groupedCounts ProjectStatus.members ProjectStatus.value Project.status (d.projects.rows.filter Project.live)

def tasksByStatus (projectId : Option Uuid) (d : Db) : List (String × ℕ) :=
  groupedCounts TaskStatus.members TaskStatus.value Task.status (liveTasks projectId d)

def tasksByPriority (projectId : Option Uuid) (d : Db) : List (String × ℕ) :=
  groupedCounts TaskPriority.members TaskPriority.value Task.priority (liveTasks projectId d)

def countOverdue (projectId : Option Uuid) (d : Db) : ℕ :=
  ((liveTasks projectId d).filter (fun t => t.dueDate.any (· < c.today) && t.status != .done)).length

def recentProjects (d : Db) : List Project :=
  (orderBy D.engine [desc fun p => .number p.createdAt] (d.projects.rows.filter Project.live)).take 5

def recentTasks (d : Db) : List Task :=
  (orderBy D.engine [desc fun t => .number t.createdAt] (liveTasks none d)).take 5

def upcomingDeadlines (d : Db) : List Task :=
  (orderBy D.engine [asc fun t => .ofOption t.dueDate]
    ((liveTasks none d).filter (fun t => t.dueDate.any (c.today ≤ ·) && t.status != .done))).take 5

/-- Counts per user id, folded into a dictionary keyed by the full name. -/
def tasksPerMember (projectId : Uuid) (d : Db) : List (String × ℕ) :=
  ((d.users.rows.map (fun u => (u, (liveTasks (some projectId) d).filter (fun t => t.assigneeId == some u.id))))
    |>.filter (fun p => !p.2.isEmpty)).foldl (fun counts p => dictSet counts p.1.fullName p.2.length) []

def completedCount (projectId : Uuid) (d : Db) : ℕ :=
  ((liveTasks (some projectId) d).filter (fun t => t.status == .done)).length

end AnalyticsRepository

/-- `round(x, 1)`: to one decimal, a tie to the even digit. -/
def roundToTenth (x : ℚ) : ℚ :=
  let n := ⌊x * 10⌋
  let rest := x * 10 - n
  (if rest < 1 / 2 then n else if 1 / 2 < rest then n + 1 else if n % 2 = 0 then n else n + 1 : ℤ) / 10

namespace AnalyticsService

open AnalyticsRepository

def dashboard : App DashboardReport :=
  Tx.query fun d =>
    { totalProjects := countProjects d
      totalTasks := countTasks none d
      totalUsers := countUsers d
      projectsByStatus := projectsByStatus d
      tasksByStatus := tasksByStatus none d
      tasksByPriority := tasksByPriority none d
      overdueTasks := countOverdue c none d
      recentProjects := (recentProjects D d).map ProjectOut.modelValidate
      recentTasks := (recentTasks D d).map (fun t => TaskOut.modelValidate (d.loadTask t))
      upcomingDeadlines := (upcomingDeadlines D c d).map (fun t => TaskOut.modelValidate (d.loadTask t)) }

def projectAnalytics (projectId : Uuid) : App ProjectAnalytics :=
  Tx.query fun d =>
    let total := countTasks (some projectId) d
    { projectId := projectId
      totalTasks := total
      tasksByStatus := tasksByStatus (some projectId) d
      tasksByPriority := tasksByPriority (some projectId) d
      tasksPerMember := tasksPerMember projectId d
      completionPercent := if total = 0 then 0 else roundToTenth (completedCount projectId d / total * 100)
      overdueTasks := countOverdue c (some projectId) d }

end AnalyticsService

instance : Tx.ReadOnly (AnalyticsService.dashboard D c) := by unfold AnalyticsService.dashboard; infer_instance
instance {projectId : Uuid} : Tx.ReadOnly (AnalyticsService.projectAnalytics c projectId) := by
  unfold AnalyticsService.projectAnalytics; infer_instance

end ProjectManagement
