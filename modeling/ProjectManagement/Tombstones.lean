import ProjectManagement.System

/-!
Records over whole runs: no request loses one, and none writes a soft-deleted one. The only rows that go are
memberships, and only `remove_member` takes them.
-/

namespace ProjectManagement

open Library

variable {D : Deployment} {i : Input} {w w' : World} {d d' : Db} {o : Outcome} {e : Event}

def undeletable {ρ : Type} (_ : ρ) : Bool := true

structure Preserved (d d' : Db) : Prop where
  users : d.users.Keeps User.live d'.users
  projects : d.projects.Keeps Project.live d'.projects
  tasks : d.tasks.Keeps Task.live d'.tasks
  comments : d.comments.Keeps Comment.live d'.comments
  fileAttachments : d.fileAttachments.Keeps undeletable d'.fileAttachments
  notifications : d.notifications.Keeps undeletable d'.notifications
  refreshTokens : d.refreshTokens.Keeps undeletable d'.refreshTokens

theorem Preserved.refl : Preserved d d where
  users := .refl
  projects := .refl
  tasks := .refl
  comments := .refl
  fileAttachments := .refl
  notifications := .refl
  refreshTokens := .refl

theorem Preserved.trans {d'' : Db} (h : Preserved d d') (h' : Preserved d' d'') : Preserved d d'' where
  users := h.users.trans h'.users
  projects := h.projects.trans h'.projects
  tasks := h.tasks.trans h'.tasks
  comments := h.comments.trans h'.comments
  fileAttachments := h.fileAttachments.trans h'.fileAttachments
  notifications := h.notifications.trans h'.notifications
  refreshTokens := h.refreshTokens.trans h'.refreshTokens

theorem Notified.keeps {c : Call} {event : Option DomainEvent} {old new : Table Notification} (h : Notified D c event old new) :
    old.Keeps undeletable new := by
  cases event with
  | none =>
    have hsame : new = old := Table.ext (by simpa [Notified] using h)
    rw [hsame]
    exact .refl
  | some e => exact .append h

theorem revokeWhere_keeps {p : RefreshToken → Bool} {ts : Table RefreshToken} :
    ts.Keeps undeletable (RefreshTokenRepository.revokeWhere p ts) := by
  apply Table.Keeps.updateWhere
  intro t _
  rfl

theorem readAll_keeps {userId : Uuid} {ns : Table Notification} :
    ns.Keeps undeletable (NotificationRepository.readAll userId ns) := by
  apply Table.Keeps.updateWhere
  intro n _
  rfl

theorem Accessible.keeps_put {c : Call} {actor : User} {id : Uuid} {t t' : Task} (task : Accessible d actor id t)
    (hid : t'.id = t.id) : d.tasks.Keeps Task.live (d.tasks.put (afterFlush (TaskRepository.stamped D c) t t')) :=
  .put task.mem task.live (TaskRepository.afterFlush_id hid)

theorem Effect.preserved (h : Effect D i w o w') : Preserved w.1 w'.1 := by
  have base : ∀ d, Preserved d d := fun _ => .refl
  cases h with
  | registered errors policy free hash rows => exact { base _ with users := .append rows }
  | loggedIn account verified active hash rows => exact { base _ with refreshTokens := .append rows }
  | @rotated c d b a token r u tokens presented valid owner active hash rows =>
    have hr : r ∈ tokens.rows := by
      rw [rows]
      exact List.mem_append_left _ (RefreshTokenRepository.withHash_eq_singleton presented).1
    refine { base _ with refreshTokens := ?_ }
    exact (Table.Keeps.append rows).trans (.put hr rfl rfl)
  | reuseDetected presented revoked => exact { base _ with refreshTokens := revokeWhere_keeps }
  | loggedOut presented live =>
    exact { base _ with refreshTokens := .put (RefreshTokenRepository.withHash_eq_singleton presented).1 rfl rfl }
  | passwordChanged caller errors verified policy hash =>
    obtain ⟨hu, live, -⟩ := UserRepository.find_eq_some.mp caller.found
    exact { base _ with
      users := .put hu live (UserRepository.afterFlush_id rfl)
      refreshTokens := revokeWhere_keeps }
  | userCreated caller admin errors policy free hash rows => exact { base _ with users := .append rows }
  | userUpdated caller errors allowed found status free sent =>
    obtain ⟨hu, live, -⟩ := UserRepository.find_eq_some.mp found
    exact { base _ with users := .put hu live (UserRepository.afterFlush_id (UserUpdate.setattrs_keeps sent).1) }
  | roleUpdated caller admin found =>
    obtain ⟨hu, live, -⟩ := UserRepository.find_eq_some.mp found
    exact { base _ with users := .put hu live (UserRepository.afterFlush_id rfl) }
  | userDeleted caller admin other found =>
    obtain ⟨hu, live, -⟩ := UserRepository.find_eq_some.mp found
    exact { base _ with users := .put hu live (UserRepository.afterFlush_id rfl) }
  | projectCreated caller admin errors rows => exact { base _ with projects := .append rows }
  | projectUpdated caller admin errors found sent =>
    obtain ⟨hq, live, -⟩ := ProjectRepository.find_eq_some.mp found
    exact { base _ with projects := .put hq live (ProjectRepository.afterFlush_id (ProjectUpdate.setattrs_keeps sent).1) }
  | projectDeleted caller admin found =>
    obtain ⟨hq, live, -⟩ := ProjectRepository.find_eq_some.mp found
    exact { base _ with projects := .put hq live (ProjectRepository.afterFlush_id rfl) }
  | memberAdded caller admin found user new rows notified => exact { base _ with notifications := notified.keeps }
  | memberRemoved caller admin member => exact { base _ with }
  | taskCreated caller errors access project rows notified =>
    exact { base _ with tasks := .append rows, notifications := notified.keeps }
  | taskUpdated caller task errors sent notified =>
    exact { base _ with tasks := task.keeps_put (TaskUpdate.setattrs_keeps sent).1, notifications := notified.keeps }
  | taskStatusUpdated caller task => exact { base _ with tasks := task.keeps_put rfl }
  | taskDeleted caller task => exact { base _ with tasks := task.keeps_put rfl }
  | commentCreated caller task errors rows => exact { base _ with comments := .append rows }
  | commentUpdated caller errors found task owned =>
    obtain ⟨hm, live, -⟩ := CommentRepository.find_eq_some.mp found
    exact { base _ with comments := .put hm live (CommentRepository.afterFlush_id rfl) }
  | commentDeleted caller found task owned =>
    obtain ⟨hm, live, -⟩ := CommentRepository.find_eq_some.mp found
    exact { base _ with comments := .put hm live (CommentRepository.afterFlush_id rfl) }
  | fileUploaded caller task saved names rows => exact { base _ with fileAttachments := .append rows }
  | notificationRead caller found own =>
    obtain ⟨hn, -⟩ := NotificationRepository.find_eq_some.mp found
    exact { base _ with notifications := .put hn rfl rfl }
  | allNotificationsRead caller => exact { base _ with notifications := readAll_keeps }
  | _ => exact .refl

theorem nextWorld_preserved (D : Deployment) (e : Event) (w : World) : Preserved w.1 (nextWorld D e w).1 := by
  refine nextWorld_cases (P := fun w' => Preserved w.1 w'.1) e ?_ .refl ?_
  · rintro i o w' rfl h
    exact h.preserved
  · exact fun users u _ _ rows => { Preserved.refl with users := .append rows }

theorem Execution.preserved {ok : Event → World → Prop} {es : List Event} (run : Execution D ok w es w') :
    Preserved w.1 w'.1 :=
  run.relates (I := fun _ => True) (R := fun w w' => Preserved w.1 w'.1) (fun _ => .refl) (fun _ _ _ => .trans)
    (fun e w _ _ => ⟨trivial, nextWorld_preserved D e w⟩) trivial

/-! What the repositories of the soft-deleted entities return. -/

section Queries

variable (D : Deployment) (d : Db)

inductive UserRepository.Returns (u : User) : Prop
  | get {userId : Uuid} (h : UserRepository.find userId d = some u)
  | getByEmail {email : String} (h : u ∈ UserRepository.withEmail email d)
  | listQuery {search : Option String} (h : u ∈ UserRepository.listQuery D search d)

/-- `get_with_members` selects its project as `get` does. -/
inductive ProjectRepository.Returns (q : Project) : Prop
  | get {projectId : Uuid} (h : ProjectRepository.find projectId d = some q)
  | listQuery {userId : Option Uuid} {search : Option String} (h : q ∈ ProjectRepository.listQuery D userId search d)

inductive TaskRepository.Returns (t : Task) : Prop
  | get {taskId : Uuid} (h : TaskRepository.find taskId d = some t)
  | listForProjectQuery {projectId : Uuid} {search : Option String}
      (h : t ∈ TaskRepository.listForProjectQuery D projectId search d)
  | listForProject {projectId : Uuid} (h : t ∈ TaskRepository.listForProject D projectId d)

inductive CommentRepository.Returns (m : Comment) : Prop
  | get {commentId : Uuid} (h : CommentRepository.find commentId d = some m)
  | listForTaskQuery {taskId : Uuid} (h : m ∈ CommentRepository.listForTaskQuery D taskId d)

end Queries

theorem UserRepository.Returns.live {u : User} (h : UserRepository.Returns D d u) : u.live = true := by
  cases h with
  | get h => exact (UserRepository.find_eq_some.mp h).2.1
  | getByEmail h =>
    have hu := (List.mem_filter.mp h).2
    exact (Bool.and_eq_true_iff.mp hu).1
  | listQuery h => exact (List.mem_filter.mp (of_mem_searched h)).2

theorem ProjectRepository.Returns.live {q : Project} (h : ProjectRepository.Returns D d q) : q.live = true := by
  cases h with
  | get h => exact (ProjectRepository.find_eq_some.mp h).2.1
  | @listQuery userId search h =>
    have hq := of_mem_searched h
    cases userId with
    | none => exact (List.mem_filter.mp hq).2
    | some u =>
      obtain ⟨q', hq', hmem⟩ := List.mem_flatMap.mp hq
      obtain ⟨-, -, rfl⟩ := List.mem_map.mp hmem
      exact (List.mem_filter.mp hq').2

theorem TaskRepository.Returns.live {t : Task} (h : TaskRepository.Returns D d t) : t.live = true := by
  have hlist : ∀ {projectId search}, t ∈ TaskRepository.listForProjectQuery D projectId search d → t.live = true := by
    intro projectId search ht
    have ht := (List.mem_filter.mp (of_mem_searched ht)).2
    exact (Bool.and_eq_true_iff.mp ht).1
  cases h with
  | get h => exact (TaskRepository.find_eq_some.mp h).2.1
  | listForProjectQuery h => exact hlist h
  | listForProject h => exact hlist (mem_orderBy.mp h)

theorem CommentRepository.Returns.live {m : Comment} (h : CommentRepository.Returns D d m) : m.live = true := by
  cases h with
  | get h => exact (CommentRepository.find_eq_some.mp h).2.1
  | listForTaskQuery h =>
    have hm := (List.mem_filter.mp (mem_orderBy.mp h)).2
    exact (Bool.and_eq_true_iff.mp hm).1

/-! Memberships. -/

def Removes (D : Deployment) (e : Event) (w : World) (m : ProjectMember) : Prop :=
  ∃ c a, e = .request ⟨c, .removeMember m.projectId m.userId⟩ ∧ outcome D ⟨c, .removeMember m.projectId m.userId⟩ w = .ok a

theorem nextWorld_members {m : ProjectMember} (hm : m ∈ w.1.projectMembers.rows) :
    m ∈ (nextWorld D e w).1.projectMembers.rows ∨ Removes D e w m := by
  cases e with
  | seedAdmin c email password fullName =>
    left
    rcases seedAdmin_next (D := D) (w := w) c email password fullName with h | ⟨hashed, users, -, -, -, h⟩ <;> rw [h]
    · exact hm
    · exact hm
  | request i =>
    have effect := step_effect D i w
    simp only [nextWorld, Removes, Event.request.injEq]
    generalize hnext : next D i w = w' at effect ⊢
    generalize houtcome : outcome D i w = o at effect
    cases effect with
    | memberAdded caller admin found user new rows notified =>
      left
      rw [rows]
      exact List.mem_append_left _ hm
    | @memberRemoved c d b a id userId actor m' caller admin member =>
      by_cases hid : m.id = m'.id
      · obtain ⟨hm', hproject, huser⟩ := ProjectRepository.memberRows_eq_singleton member
        obtain rfl : m = m' := d.projectMembers.eq_of_key hm hm' hid
        subst hproject huser
        exact Or.inr ⟨c, a, rfl, houtcome⟩
      · exact Or.inl (Table.mem_deleteWhere.mpr ⟨hm, by simpa using hid⟩)
    | _ => exact Or.inl hm

theorem Execution.members {ok : Event → World → Prop} {es : List Event} (run : Execution D ok w es w') {m : ProjectMember}
    (hm : m ∈ w.1.projectMembers.rows) : m ∈ w'.1.projectMembers.rows ∨
      ∃ before e after v, es = before ++ e :: after ∧ Execution D ok w before v ∧ Removes D e v m := by
  induction run with
  | nil w => exact Or.inl hm
  | @cons e w es w' hok rest ih =>
    rcases nextWorld_members (D := D) (e := e) hm with hkept | hremoved
    · rcases ih hkept with hkept | ⟨before, e', after, v, rfl, hrun, hremoved⟩
      · exact Or.inl hkept
      · exact Or.inr ⟨e :: before, e', after, v, rfl, .cons hok hrun, hremoved⟩
    · exact Or.inr ⟨[], e, es, w, rfl, .nil w, hremoved⟩

/-- In every run no record is lost but by `remove_member`, and a soft-deleted row stays exactly as it is, out of reach of
its repository. -/
theorem tombstones_frozen {ok : Event → World → Prop} {es : List Event} (run : Execution D ok w es w') :
    Preserved w.1 w'.1 ∧
    (∀ m ∈ w.1.projectMembers.rows, m ∈ w'.1.projectMembers.rows ∨
      ∃ before e after v, es = before ++ e :: after ∧ Execution D ok w before v ∧ Removes D e v m) ∧
    (∀ u ∈ w.1.users.rows, u.deletedAt.isSome → u ∈ w'.1.users.rows ∧ ¬UserRepository.Returns D w'.1 u) ∧
    (∀ q ∈ w.1.projects.rows, q.deletedAt.isSome → q ∈ w'.1.projects.rows ∧ ¬ProjectRepository.Returns D w'.1 q) ∧
    (∀ t ∈ w.1.tasks.rows, t.deletedAt.isSome → t ∈ w'.1.tasks.rows ∧ ¬TaskRepository.Returns D w'.1 t) ∧
    ∀ m ∈ w.1.comments.rows, m.deletedAt.isSome → m ∈ w'.1.comments.rows ∧ ¬CommentRepository.Returns D w'.1 m := by
  have kept := run.preserved
  have dead : ∀ {o : Option Time}, o.isSome → o.isNone = false := fun h => by simpa [Option.isSome_iff_ne_none] using h
  refine ⟨kept, fun m hm => run.members hm, fun u hu hdel => ?_, fun q hq hdel => ?_, fun t ht hdel => ?_, fun m hm hdel => ?_⟩
  · refine ⟨kept.users.mem hu (dead hdel), fun h => ?_⟩
    exact absurd (h.live.symm.trans (dead hdel)) (by simp)
  · refine ⟨kept.projects.mem hq (dead hdel), fun h => ?_⟩
    exact absurd (h.live.symm.trans (dead hdel)) (by simp)
  · refine ⟨kept.tasks.mem ht (dead hdel), fun h => ?_⟩
    exact absurd (h.live.symm.trans (dead hdel)) (by simp)
  · refine ⟨kept.comments.mem hm (dead hdel), fun h => ?_⟩
    exact absurd (h.live.symm.trans (dead hdel)) (by simp)

theorem tombstones_frozen_sample : ∃ w w', Reachable .sample w ∧ Execution .sample (fun _ _ => True) w
    (sampleRequests 5 [(some 16, .getTask 48)]) w' ∧
    ∃ t ∈ w.1.tasks.rows, t.deletedAt.isSome ∧ t ∈ w'.1.tasks.rows ∧ ¬TaskRepository.Returns .sample w'.1 t := by
  have run : ∀ w, Execution .sample (fun _ _ => True) w (sampleRequests 5 [(some 16, .getTask 48)])
      (nextWorld .sample (.request ⟨Call.sample 5 (some 16), .getTask 48⟩) w) := fun w => .single trivial
  refine ⟨playFrom .sample World.initial (oneTask ++ sampleRequests 4 [(some 16, .deleteTask 48)]), _,
    reachable_of_freshRun (by decide +kernel), run _, ?_⟩
  have hdeleted : ((playFrom .sample World.initial (oneTask ++ sampleRequests 4 [(some 16, .deleteTask 48)])).1.tasks.rows.any
      fun t => t.deletedAt.isSome) = true := by decide +kernel
  obtain ⟨t, ht, hdel⟩ := List.any_eq_true.mp hdeleted
  obtain ⟨-, -, -, -, htasks, -⟩ := tombstones_frozen (run _)
  exact ⟨t, ht, hdel, htasks t ht hdel⟩

end ProjectManagement
