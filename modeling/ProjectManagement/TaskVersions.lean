import ProjectManagement.Library.Refinement
import ProjectManagement.System

/-!
The version of a task, over a whole run: it counts the writes of the row, so that it names its contents.
-/

namespace ProjectManagement

open Library

variable {D : Deployment} {i : Input} {o : Outcome} {e : Event} {w w' : World} {d : Db} {es : List Event} {id : Uuid}

/-- The version of a row that is not there yet is 0. -/
def versionOf (row : Option Task) : ℕ := (row.map Task.version).getD 0

/-- What a request does to a task row that it does not leave alone. -/
inductive RowWrite : Option Task → Option Task → Prop
  | created {r : Task} (version : r.version = 1) : RowWrite none (some r)
  | rewritten {r r' : Task} (version : r' ≠ r → r'.version = r.version + 1) (project : r'.projectId = r.projectId)
      (creator : r'.createdBy = r.createdBy) (createdAt : r'.createdAt = r.createdAt) : RowWrite (some r) (some r')

theorem Accessible.writes {c : Call} {actor : User} {r r' : Task} (task : Accessible d actor id r) (hid : r'.id = r.id)
    (project : r'.projectId = r.projectId) (creator : r'.createdBy = r.createdBy) (createdAt : r'.createdAt = r.createdAt)
    (version : r'.version = r.version) : d.tasks.Changes (d.tasks.put (afterFlush (TaskRepository.stamped D c) r r')) RowWrite := by
  apply Table.Changes.put task.mem (TaskRepository.afterFlush_id hid)
  apply RowWrite.rewritten
  · intro hne
    by_cases hsame : r' = r
    · exact absurd (if_pos hsame) hne
    · rw [afterFlush_of_ne hsame, ← version]
      rfl
  · exact (afterFlush_column Task.projectId rfl).trans project
  · exact (afterFlush_column Task.createdBy rfl).trans creator
  · exact (afterFlush_column Task.createdAt rfl).trans createdAt

theorem Effect.taskWrites (effect : Effect D i w o w') : w.1.tasks.Changes w'.1.tasks RowWrite := by
  cases effect with
  | taskCreated caller errors access project rows notified => exact .append rows (.created rfl)
  | taskUpdated caller task errors sent notified =>
    obtain ⟨-, rfl⟩ := TaskUpdate.setattrs_eq_ok.mp sent
    exact task.writes rfl rfl rfl rfl rfl
  | taskStatusUpdated caller task => exact task.writes rfl rfl rfl rfl rfl
  | taskDeleted caller task => exact task.writes rfl rfl rfl rfl rfl
  | _ => exact .refl

theorem nextWorld_taskWrites (D : Deployment) (e : Event) (w : World) : w.1.tasks.Changes (nextWorld D e w).1.tasks RowWrite := by
  refine nextWorld_cases (P := fun w' => w.1.tasks.Changes w'.1.tasks RowWrite) e ?_ .refl fun _ _ _ _ _ => .refl
  rintro i o w' rfl effect
  exact effect.taskWrites

/-- The columns no request writes. -/
def Task.fixed (r : Task) : Uuid × Uuid × Time := (r.projectId, r.createdBy, r.createdAt)

theorem versionOf_step (h : (nextWorld D e w).1.tasks.lookup id ≠ w.1.tasks.lookup id) :
    versionOf ((nextWorld D e w).1.tasks.lookup id) = versionOf (w.1.tasks.lookup id) + 1 := by
  rcases nextWorld_taskWrites D e w id with hsame | hwrite
  · exact absurd hsame h
  · generalize (nextWorld D e w).1.tasks.lookup id = new at h hwrite ⊢
    generalize w.1.tasks.lookup id = old at h hwrite ⊢
    cases hwrite with
    | created version => exact version
    | rewritten version => exact version fun heq => h (congrArg some heq)

theorem fixed_step {r : Task} (h : w.1.tasks.lookup id = some r) :
    ∃ r', (nextWorld D e w).1.tasks.lookup id = some r' ∧ r'.fixed = r.fixed := by
  rcases nextWorld_taskWrites D e w id with hsame | hwrite
  · exact ⟨r, hsame.trans h, rfl⟩
  · rw [h] at hwrite
    generalize (nextWorld D e w).1.tasks.lookup id = new at hwrite ⊢
    cases hwrite with
    | rewritten version project creator createdAt => exact ⟨_, rfl, by simp only [Task.fixed, project, creator, createdAt]⟩

theorem Execution.fixed {ok : Event → World → Prop} (run : Execution D ok w es w') {r : Task} (h : w.1.tasks.lookup id = some r) :
    ∃ r', w'.1.tasks.lookup id = some r' ∧ r'.fixed = r.fixed := by
  induction run generalizing r with
  | nil w => exact ⟨r, h, rfl⟩
  | cons _ _ ih =>
    obtain ⟨s, hs, hfixed⟩ := fixed_step h
    obtain ⟨r', hr', hfixed'⟩ := ih hs
    exact ⟨r', hr', hfixed'.trans hfixed⟩

/-- Whether the event changes the task's row. -/
def writesTask (D : Deployment) (id : Uuid) (e : Event) (w : World) : Bool :=
  decide ((nextWorld D e w).1.tasks.lookup id ≠ w.1.tasks.lookup id)

/-- From any state of a run to a later one, the version has grown by the number of events that changed the row; where it has
not grown, the row is the same in every column. -/
theorem version_names_contents {ok : Event → World → Prop} (run : Execution D ok w es w') (id : Uuid) :
    versionOf (w'.1.tasks.lookup id) =
        versionOf (w.1.tasks.lookup id) + (labels (nextWorld D) (writesTask D id) w es).count true ∧
      (versionOf (w'.1.tasks.lookup id) = versionOf (w.1.tasks.lookup id) → w'.1.tasks.lookup id = w.1.tasks.lookup id) ∧
      ∀ r, w.1.tasks.lookup id = some r → ∃ r', w'.1.tasks.lookup id = some r' ∧ r'.fixed = r.fixed := by
  obtain ⟨hcount, hsame⟩ := run.counts (fun w => w.1.tasks.lookup id) fun _ _ _ => versionOf_step
  exact ⟨hcount, hsame, fun r hr => run.fixed hr⟩

def taskEdits : List Event :=
  sampleRequests 4 [(some 16, .updateTaskStatus 48 ⟨.done, none⟩), (some 16, .updateTask 48 { title := .value "T" }),
    (some 16, .updateTask 48 { title := .value "U" }), (some 16, .deleteTask 48)]

theorem version_names_contents_sample :
    versionOf ((playFrom .sample (playFrom .sample World.initial oneTask) taskEdits).1.tasks.lookup 48) = 4 := by
  have run : Execution .sample FreshIds (playFrom .sample World.initial oneTask) taskEdits
      (playFrom .sample (playFrom .sample World.initial oneTask) taskEdits) :=
    execution_of_reached (by decide +kernel) (by decide +kernel)
  rw [(version_names_contents run 48).1]
  decide +kernel

end ProjectManagement
