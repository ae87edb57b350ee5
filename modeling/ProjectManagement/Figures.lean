import ProjectManagement.Dashboard

/-!
The figures of a report against each other, and the counts of a project's members, which are kept by name.
-/

namespace ProjectManagement

open Library AnalyticsRepository

variable {D : Deployment} {c : Call} {w : World} {d : Db}

section Groups

variable {ρ κ : Type} [DecidableEq κ] {members : List κ} {value : κ → String} {column : ρ → κ} {rows : List ρ}

end Groups

/-! The tasks the two counts of due dates range over. -/

/-- The upcoming deadlines without their limit. -/
def upcoming (D : Deployment) (c : Call) (d : Db) : List Task :=
  orderBy D.engine [asc fun t => .ofOption t.dueDate]
    ((liveTasks none d).filter (fun t => t.dueDate.any (c.today ≤ ·) && t.status != .done))

/-- Division that raises on zero. -/
def checkedDiv (a b : ℚ) : Option ℚ := if b = 0 then none else some (a / b)

def completionPercent (completed total : ℕ) : Option ℚ :=
  if total = 0 then some 0 else (checkedDiv completed total).map fun q => roundToTenth (q * 100)

/-- What the dashboard and the report of a project have in common. -/
structure Figures where
  total : ℕ
  byStatus : List (String × ℕ)
  byPriority : List (String × ℕ)
  overdueTasks : ℕ

def DashboardReport.figures (report : DashboardReport) : Figures :=
  ⟨report.totalTasks, report.tasksByStatus, report.tasksByPriority, report.overdueTasks⟩

def ProjectAnalytics.figures (report : ProjectAnalytics) : Figures :=
  ⟨report.totalTasks, report.tasksByStatus, report.tasksByPriority, report.overdueTasks⟩

theorem lookup_cons_ite (p : String × ℕ) (counts : List (String × ℕ)) (k : String) :
    (p :: counts).lookup k = if k = p.1 then some p.2 else counts.lookup k := by
  obtain ⟨key, n⟩ := p
  by_cases hk : k = key
  · simp [hk]
  · have hne : (k == key) = false := by simpa using hk
    simp [List.lookup_cons, hne, hk]

theorem lookup_map_values (counts : List (String × ℕ)) (f : String → ℕ → ℕ) (k : String) :
    (counts.map fun p => (p.1, f p.1 p.2)).lookup k = (counts.lookup k).map (f k) := by
  induction counts with
  | nil => rfl
  | cons p counts ih =>
    rw [List.map_cons, lookup_cons_ite, lookup_cons_ite, ih]
    by_cases hk : k = p.1
    · simp [hk]
    · simp [hk]

theorem isSome_lookup (counts : List (String × ℕ)) (k : String) : (counts.lookup k).isSome = counts.any (fun p => p.1 == k) := by
  induction counts with
  | nil => rfl
  | cons p counts ih =>
    rw [lookup_cons_ite, List.any_cons, ← ih]
    by_cases hk : k = p.1
    · simp [hk]
    · have hne : (p.1 == k) = false := by simpa using Ne.symm hk
      simp [hk, hne]

theorem lookup_dictSet (counts : List (String × ℕ)) (k k' : String) (v : ℕ) :
    (dictSet counts k v).lookup k' = if k' = k then some v else counts.lookup k' := by
  unfold dictSet
  split
  · next hany =>
    have hmap : (counts.map fun p => if p.1 = k then (k, v) else p) = counts.map fun p => (p.1, if p.1 = k then v else p.2) := by
      apply List.map_congr_left
      intro p _
      by_cases hp : p.1 = k
      · simp [hp]
      · simp [hp]
    rw [← isSome_lookup] at hany
    obtain ⟨n, hn⟩ := Option.isSome_iff_exists.mp hany
    rw [hmap, lookup_map_values counts fun key n => if key = k then v else n]
    by_cases hk : k' = k
    · simp [hk, hn]
    · simp [hk]
  · next hany =>
    rw [← isSome_lookup] at hany
    have hnone : counts.lookup k = none := Option.not_isSome_iff_eq_none.mp hany
    rw [List.lookup_append, lookup_cons_ite, List.lookup_nil]
    by_cases hk : k' = k
    · simp [hk, hnone]
    · simp [hk]

theorem lookup_foldl_dictSet (entries counts : List (String × ℕ)) (k : String) :
    (entries.foldl (fun counts p => dictSet counts p.1 p.2) counts).lookup k = (entries.reverse.lookup k).or (counts.lookup k) := by
  induction entries generalizing counts with
  | nil => rfl
  | cons p entries ih =>
    rw [List.foldl_cons, ih, lookup_dictSet, List.reverse_cons, List.lookup_append, lookup_cons_ite, Option.or_assoc]
    by_cases hk : k = p.1
    · simp [hk]
    · simp [hk]

theorem foldl_dictSet_of_nodup (entries counts : List (String × ℕ)) (nodup : ((counts ++ entries).map Prod.fst).Nodup) :
    entries.foldl (fun counts p => dictSet counts p.1 p.2) counts = counts ++ entries := by
  induction entries generalizing counts with
  | nil => simp
  | cons p entries ih =>
    have hnew : ¬counts.any (fun q => q.1 == p.1) = true := by
      intro hany
      obtain ⟨q, hq, hkey⟩ := List.any_eq_true.mp hany
      rw [List.map_append, List.nodup_append] at nodup
      exact nodup.2.2 q.1 (List.mem_map_of_mem hq) p.1 (by simp) (by simpa using hkey)
    have happend : counts ++ p :: entries = (counts ++ [p]) ++ entries := by simp
    rw [happend] at nodup
    rw [List.foldl_cons, dictSet, if_neg hnew, ih _ nodup, happend]

theorem mem_of_lookup {counts : List (String × ℕ)} {k : String} {n : ℕ} (h : counts.lookup k = some n) : (k, n) ∈ counts := by
  induction counts with
  | nil => simp at h
  | cons p counts ih =>
    rw [lookup_cons_ite] at h
    by_cases hk : k = p.1
    · rw [if_pos hk] at h
      obtain rfl := Option.some.inj h
      rw [hk]
      exact List.mem_cons_self
    · rw [if_neg hk] at h
      exact List.mem_cons_of_mem _ (ih h)

theorem countOf_eq_sum {ρ : Type} {rows : List ρ} {name : ρ → String} {f : ρ → ℕ} (nodup : (rows.map name).Nodup) (k : String) :
    countOf (rows.map fun r => (name r, f r)) k = ((rows.filter (fun r => name r = k)).map f).sum := by
  induction rows with
  | nil => rfl
  | cons r rows ih =>
    obtain ⟨hr, nodup⟩ := List.nodup_cons.mp nodup
    rw [List.map_cons, countOf, lookup_cons_ite]
    by_cases hk : k = name r
    · have hnone : rows.filter (fun r' => name r' = k) = [] := by
        apply List.filter_eq_nil_iff.mpr
        intro r' hr' he
        have he : name r' = k := by simpa using he
        exact hr (List.mem_map.mpr ⟨r', hr', he.trans hk⟩)
      rw [if_pos hk, List.filter_cons_of_pos (by simp [hk]), hnone]
      simp
    · rw [if_neg hk, List.filter_cons_of_neg (by simpa using Ne.symm hk), ← ih nodup, countOf]

section Members

variable {projectId : Uuid} {u v : User}

def assignedCount (projectId : Uuid) (d : Db) (u : User) : ℕ :=
  (liveTasks (some projectId) d).countP (fun t => t.assigneeId == some u.id)

/-- Every task assigned to a user is counted, and the entry of a name counts the tasks of its bearers. -/
structure MembersCounted (projectId : Uuid) (d : Db) : Prop where
  total : ((tasksPerMember projectId d).map Prod.snd).sum =
    (liveTasks (some projectId) d).countP (fun t => d.users.rows.any fun u => t.assigneeId == some u.id)
  entry : ∀ name, countOf (tasksPerMember projectId d) name =
    (liveTasks (some projectId) d).countP (fun t => d.users.rows.any fun u => t.assigneeId == some u.id && u.fullName == name)

def memberEntries (projectId : Uuid) (d : Db) : List (String × ℕ) :=
  (d.users.rows.filter (fun u => 0 < assignedCount projectId d u)).map fun u => (u.fullName, assignedCount projectId d u)

theorem tasksPerMember_eq :
    tasksPerMember projectId d = (memberEntries projectId d).foldl (fun counts p => dictSet counts p.1 p.2) [] := by
  have hassigned : ∀ u : User, ((liveTasks (some projectId) d).filter (fun t => t.assigneeId == some u.id)).length =
      assignedCount projectId d u := fun u => List.countP_eq_length_filter.symm
  have hempty : ∀ u : User, (!((liveTasks (some projectId) d).filter (fun t => t.assigneeId == some u.id)).isEmpty) =
      decide (0 < assignedCount projectId d u) := by
    intro u
    rw [Bool.eq_iff_iff, decide_eq_true_eq, ← hassigned]
    simp [List.length_pos_iff]
  simp only [tasksPerMember, memberEntries, List.filter_map, List.foldl_map, Function.comp_def, hassigned, hempty]

theorem sum_assignees (p : User → Bool) :
    (((d.users.rows.filter (fun u => 0 < assignedCount projectId d u)).filter p).map (assignedCount projectId d)).sum =
      (liveTasks (some projectId) d).countP (fun t => d.users.rows.any fun u => t.assigneeId == some u.id && p u) := by
  have hdrop : ∀ users : List User, ((users.filter (fun u => 0 < assignedCount projectId d u)).map (assignedCount projectId d)).sum =
      (users.map (assignedCount projectId d)).sum := by
    intro users
    induction users with
    | nil => rfl
    | cons u users ih =>
      by_cases hu : 0 < assignedCount projectId d u
      · rw [List.filter_cons_of_pos (by simpa using hu), List.map_cons, List.sum_cons, ih, List.map_cons, List.sum_cons]
      · rw [List.filter_cons_of_neg (by simpa using hu), ih, List.map_cons, List.sum_cons]
        omega
  have nodup : ((d.users.rows.filter p).map fun u => some u.id).Nodup := by
    have hids : ((d.users.rows.filter p).map User.id).Nodup := d.users.nodup.sublist (List.filter_sublist.map _)
    simpa [Function.comp_def] using hids.map (Option.some_injective _)
  have hgroups := sum_countP_groups Task.assigneeId (fun _ => true) (liveTasks (some projectId) d) nodup
  rw [List.filter_comm, hdrop]
  rw [List.map_map] at hgroups
  simp only [Bool.true_and, Function.comp_def, beq_eq_decide] at hgroups
  have hcounts : (d.users.rows.filter p).map (assignedCount projectId d) =
      (d.users.rows.filter p).map fun u => (liveTasks (some projectId) d).countP (fun t => decide (t.assigneeId = some u.id)) := by
    apply List.map_congr_left
    intro u _
    exact List.countP_congr fun t _ => by simp
  rw [hcounts, hgroups]
  apply List.countP_congr
  intro t _
  simp only [decide_eq_true_eq, List.mem_map, List.mem_filter, List.any_eq_true, Bool.and_eq_true, beq_iff_eq]
  constructor
  · rintro ⟨u, ⟨hu, hp⟩, he⟩
    exact ⟨u, hu, he.symm, hp⟩
  · rintro ⟨u, hu, he, hp⟩
    exact ⟨u, ⟨hu, hp⟩, he.symm⟩

theorem assignedCount_pos : 0 < assignedCount projectId d u ↔ ∃ t ∈ liveTasks (some projectId) d, t.assigneeId = some u.id := by
  rw [assignedCount, List.countP_pos_iff]
  simp

/-- The bearers of one name with tasks of the project are one user. -/
def NamesDistinct (projectId : Uuid) (d : Db) : Prop :=
  ∀ u ∈ d.users.rows, ∀ v ∈ d.users.rows, (∃ t ∈ liveTasks (some projectId) d, t.assigneeId = some u.id) →
    (∃ t ∈ liveTasks (some projectId) d, t.assigneeId = some v.id) → u.fullName = v.fullName → u = v

theorem NamesDistinct.nodup (h : NamesDistinct projectId d) :
    ((d.users.rows.filter (fun u => 0 < assignedCount projectId d u)).map User.fullName).Nodup := by
  apply List.Nodup.map_on
  · intro u hu v hv hname
    obtain ⟨hu, hpos⟩ := List.mem_filter.mp hu
    obtain ⟨hv, hpos'⟩ := List.mem_filter.mp hv
    exact h u hu v hv (assignedCount_pos.mp (by simpa using hpos)) (assignedCount_pos.mp (by simpa using hpos')) hname
  · exact (List.Nodup.of_map _ d.users.nodup).filter _

theorem NamesDistinct.membersCounted (h : NamesDistinct projectId d) : MembersCounted projectId d := by
  have hentries : tasksPerMember projectId d = memberEntries projectId d := by
    rw [tasksPerMember_eq, foldl_dictSet_of_nodup]
    · simp
    · rw [List.nil_append, memberEntries, List.map_map]
      exact h.nodup
  constructor
  · have hsum := @sum_assignees d projectId fun _ => true
    rw [List.filter_true] at hsum
    simp only [Bool.and_true] at hsum
    rw [hentries, memberEntries, List.map_map, ← hsum]
    rfl
  · intro name
    rw [hentries, memberEntries, countOf_eq_sum h.nodup, sum_assignees]
    simp only [Bool.beq_eq_decide_eq]

theorem countOf_tasksPerMember (hu : u ∈ d.users.rows) (hpos : 0 < assignedCount projectId d u) :
    ∃ v ∈ d.users.rows, v.fullName = u.fullName ∧
      countOf (tasksPerMember projectId d) u.fullName = assignedCount projectId d v := by
  have hentry : (u.fullName, assignedCount projectId d u) ∈ memberEntries projectId d :=
    List.mem_map_of_mem (f := fun u => (u.fullName, assignedCount projectId d u)) (List.mem_filter.mpr ⟨hu, by simpa using hpos⟩)
  have hsome : ((memberEntries projectId d).reverse.lookup u.fullName).isSome = true := by
    rw [isSome_lookup]
    exact List.any_eq_true.mpr ⟨_, List.mem_reverse.mpr hentry, by simp⟩
  obtain ⟨n, hn⟩ := Option.isSome_iff_exists.mp hsome
  obtain ⟨v, hv, hkey⟩ := List.mem_map.mp (List.mem_reverse.mp (mem_of_lookup hn))
  obtain ⟨hname, rfl⟩ := Prod.mk.inj hkey
  refine ⟨v, (List.mem_filter.mp hv).1, hname, ?_⟩
  rw [tasksPerMember_eq, countOf, lookup_foldl_dictSet, hn]
  rfl

theorem assignedCount_add_le (hu : u ∈ d.users.rows) (hv : v ∈ d.users.rows) (hne : u ≠ v) (hname : v.fullName = u.fullName) :
    assignedCount projectId d u + assignedCount projectId d v ≤
      (liveTasks (some projectId) d).countP
        (fun t => d.users.rows.any fun w => t.assigneeId == some w.id && w.fullName == u.fullName) := by
  rw [assignedCount, assignedCount, countP_add_of_disjoint]
  · apply List.countP_mono_left
    intro t _ ht
    rcases Bool.or_eq_true_iff.mp ht with ht | ht
    · exact List.any_eq_true.mpr ⟨u, hu, by simpa using ht⟩
    · exact List.any_eq_true.mpr ⟨v, hv, by simpa [hname] using ht⟩
  · intro t
    rw [beq_iff_eq, beq_iff_eq]
    rintro ⟨h, h'⟩
    exact hne (d.users.eq_of_key hu hv (Option.some.inj (h.symm.trans h')))

theorem MembersCounted.namesDistinct (h : MembersCounted projectId d) : NamesDistinct projectId d := by
  intro u hu v hv hasTask hasTask' hname
  by_contra hne
  have hpos : 0 < assignedCount projectId d u := assignedCount_pos.mpr hasTask
  have hpos' : 0 < assignedCount projectId d v := assignedCount_pos.mpr hasTask'
  obtain ⟨w, hw, hwname, hcount⟩ := countOf_tasksPerMember hu hpos
  rw [h.entry] at hcount
  -- the entry is the count of one bearer, and there is another
  by_cases hwu : w = u
  · have hle : assignedCount projectId d u + assignedCount projectId d v ≤ _ := assignedCount_add_le hu hv hne hname.symm
    rw [hcount, hwu] at hle
    omega
  · have hle : assignedCount projectId d u + assignedCount projectId d w ≤ _ := assignedCount_add_le hu hw (Ne.symm hwu) hwname
    rw [hcount] at hle
    omega

/-- The counts per member lose no task exactly when no two users with tasks of the project bear one name. -/
theorem membersCounted_iff (projectId : Uuid) (w : World) : MembersCounted projectId w.1 ↔ NamesDistinct projectId w.1 :=
  ⟨fun h => h.namesDistinct, fun h => h.membersCounted⟩

def namesakes : World := playFrom .sample World.initial (oneTask ++ sampleRequests 4
  [(none, .register ⟨"a@b.c", "Passw0rd", "A"⟩), (none, .register ⟨"b@b.c", "Passw0rd", "A"⟩),
    (some 16, .addMember 32 { userId := 64 }), (some 16, .addMember 32 { userId := 80 }),
    (some 16, .createTask { projectId := 32, title := "U", assigneeId := some 64 }),
    (some 16, .createTask { projectId := 32, title := "V", assigneeId := some 80 })])

/-- Two members by the name of A have a task each, and A is reported with one. -/
theorem namesake_overwritten : Reachable .sample namesakes ∧ ¬MembersCounted 32 namesakes.1 := by
  refine ⟨reachable_of_freshRun (by decide +kernel), fun h => ?_⟩
  exact absurd h.total (by decide +kernel)

end Members

end ProjectManagement
