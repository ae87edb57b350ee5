import ProjectManagement.SoftDeletion

/-!
The dashboard and the projects. Both reports count live tasks; a project's report is given only while the project is live, and
the dashboard does not ask.
-/

namespace ProjectManagement

open Library AnalyticsRepository

variable {D : Deployment} {c : Call} {w : World} {d : Db}

/-! Counting by groups. -/

theorem countP_add_of_disjoint {ρ : Type} {p q : ρ → Bool} (h : ∀ r, ¬(p r = true ∧ q r = true)) (rows : List ρ) :
    rows.countP p + rows.countP q = rows.countP (fun r => p r || q r) := by
  induction rows with
  | nil => rfl
  | cons r rows ih =>
    have hr := h r
    simp only [List.countP_cons, ← ih]
    cases hp : p r <;> cases hq : q r <;> simp [hp, hq] at hr ⊢ <;> omega

theorem sum_countP_groups {ρ γ : Type} [DecidableEq γ] (group : ρ → γ) (p : ρ → Bool) (rows : List ρ) {groups : List γ}
    (nodup : groups.Nodup) : (groups.map fun g => rows.countP (fun r => p r && group r == g)).sum =
      rows.countP (fun r => p r && decide (group r ∈ groups)) := by
  induction groups with
  | nil => simp
  | cons g groups ih =>
    obtain ⟨hg, nodup⟩ := List.nodup_cons.mp nodup
    rw [List.map_cons, List.sum_cons, ih nodup, countP_add_of_disjoint]
    · congr 1
      funext r
      rw [← Bool.and_or_distrib_left]
      rw [Bool.eq_iff_iff]
      simp
    · intro r
      simp only [Bool.and_eq_true, beq_iff_eq, decide_eq_true_eq]
      rintro ⟨⟨-, rfl⟩, -, hmem⟩
      exact hg hmem

def countOf (counts : List (String × ℕ)) (key : String) : ℕ := (counts.lookup key).getD 0

def liveProjects (d : Db) : List Project := d.projects.rows.filter Project.live

structure SumOfProjects (projects : List Project) (report : DashboardReport) (figures : Project → ProjectAnalytics) : Prop where
  totalProjects : report.totalProjects = projects.length
  totalTasks : report.totalTasks = (projects.map fun q => (figures q).totalTasks).sum
  overdueTasks : report.overdueTasks = (projects.map fun q => (figures q).overdueTasks).sum
  tasksByStatus : ∀ key n, (key, n) ∈ report.tasksByStatus →
    n = (projects.map fun q => countOf (figures q).tasksByStatus key).sum
  tasksByPriority : ∀ key n, (key, n) ∈ report.tasksByPriority →
    n = (projects.map fun q => countOf (figures q).tasksByPriority key).sum

def DashboardAdds (D : Deployment) (c : Call) (w : World) : Prop :=
  ∃ report figures, (AnalyticsService.dashboard D c).answer w = .ok report ∧
    (∀ q ∈ liveProjects w.1, (AnalyticsService.projectAnalytics c q.id).answer w = .ok (figures q)) ∧
    SumOfProjects (liveProjects w.1) report figures

theorem sum_liveTasks (p : Task → Bool) (d : Db) : ((liveProjects d).map fun q => (liveTasks (some q.id) d).countP p).sum =
    (liveTasks none d).countP (fun t => p t && decide (t.projectId ∈ (liveProjects d).map Project.id)) := by
  have nodup : ((liveProjects d).map Project.id).Nodup := d.projects.nodup.sublist (List.filter_sublist.map _)
  rw [← sum_countP_groups Task.projectId p _ nodup, List.map_map]
  congr 1
  apply List.map_congr_left
  intro q _
  simp only [Function.comp_apply, liveTasks, List.countP_filter, Option.all_some, Option.all_none, Bool.and_true]
  congr 1
  funext t
  cases p t <;> cases t.live <;> simp

theorem mem_liveProjects {projectId : Uuid} : projectId ∈ (liveProjects d).map Project.id ↔ LiveProject d projectId := by
  simp only [liveProjects, LiveProject, List.mem_map, List.mem_filter]
  constructor
  · rintro ⟨q, ⟨hq, live⟩, hid⟩
    exact ⟨q, hq, hid, live⟩
  · rintro ⟨q, hq, hid, live⟩
    exact ⟨q, ⟨hq, live⟩, hid⟩

theorem Covered.sum_liveTasks (h : Covered d) (p : Task → Bool) :
    (liveTasks none d).countP p = ((liveProjects d).map fun q => (liveTasks (some q.id) d).countP p).sum := by
  rw [ProjectManagement.sum_liveTasks]
  apply List.countP_congr
  intro t ht
  obtain ⟨ht, live⟩ := List.mem_filter.mp ht
  have hproject := mem_liveProjects.mpr (h t ht (by simpa using live))
  simp [hproject]

theorem covered_of_sum (h : (liveTasks none d).length = ((liveProjects d).map fun q => (liveTasks (some q.id) d).length).sum) :
    Covered d := by
  have hcount : (liveTasks none d).countP (fun t => true && decide (t.projectId ∈ (liveProjects d).map Project.id)) =
      (liveTasks none d).length := by
    rw [h, ← sum_liveTasks (fun _ => true)]
    simp
  intro t ht live
  have hlive : t ∈ liveTasks none d := List.mem_filter.mpr ⟨ht, by simpa using live⟩
  have hproject := List.countP_eq_length.mp hcount t hlive
  exact mem_liveProjects.mp (by simpa using hproject)

theorem DashboardAdds.covered (h : DashboardAdds D c w) : Covered w.1 := by
  obtain ⟨report, figures, hreport, hfigures, adds⟩ := h
  apply covered_of_sum
  have htotal : report.totalTasks = (liveTasks none w.1).length := congrArg DashboardReport.totalTasks (Except.ok.inj hreport).symm
  rw [← htotal, adds.totalTasks]
  congr 1
  apply List.map_congr_left
  intro q hq
  exact congrArg ProjectAnalytics.totalTasks (Except.ok.inj (hfigures q hq)).symm

end ProjectManagement
