import ProjectManagement.Kanban
import ProjectManagement.Library.Board
import ProjectManagement.Library.Refinement

/-!
The boards of all projects over a run. An accepted request places one card, takes one off, or leaves every board as it is;
where no position is sent, the columns are queues.
-/

namespace ProjectManagement

open Library

variable {D : Deployment} {c : Call} {i : Input} {e : Event} {w : World} {d d' : Db} {t r n : Task} {k : Uuid × TaskStatus}
  {a : Card ℚ Uuid} {es : List Event}

instance : Ranked Uuid where
  rank := BitVec.toNat
  injective _ _ := BitVec.eq_of_toNat_eq

def Task.card (t : Task) : Card ℚ Uuid := ⟨t.position, t.id⟩

theorem Task.Before.card {t u : Task} (h : t.Before u) : t.card.Before u.card := by
  rcases h with hlt | ⟨heq, hid⟩
  · exact Or.inl hlt
  · exact Or.inr ⟨heq, BitVec.lt_def.mp hid⟩

def boards (D : Deployment) (d : Db) (k : Uuid × TaskStatus) : Column ℚ Uuid where
  cards := (boardColumn D k.1 d k.2).map Task.card
  sorted := List.pairwise_map.mpr (boardColumn_sorted.imp Task.Before.card)

def Task.shows (t : Task) (k : Uuid × TaskStatus) (a : Card ℚ Uuid) : Prop :=
  t.live = true ∧ (t.projectId, t.status) = k ∧ t.card = a

theorem mem_boards : a ∈ (boards D d k).cards ↔ ∃ t ∈ d.tasks.rows, t.shows k a := by
  obtain ⟨projectId, status⟩ := k
  simp only [boards, List.mem_map, mem_boardColumn, Task.shows, Prod.mk.injEq]
  constructor
  · rintro ⟨t, ⟨ht, live, project, status⟩, card⟩
    exact ⟨t, ht, live, ⟨project, status⟩, card⟩
  · rintro ⟨t, ht, live, ⟨project, status⟩, card⟩
    exact ⟨t, ⟨ht, live, project, status⟩, card⟩

/-- The position behind a column's last card. -/
def behind (last : Option ℚ) : ℚ := last.getD 0 + positionStep

theorem lt_behind (x : ℚ) : x < behind (some x) := by
  simp only [behind, Option.getD_some, positionStep]
  linarith

theorem nextPosition_eq (projectId : Uuid) (status : TaskStatus) (d : Db) :
    TaskRepository.nextPosition projectId status d = behind (boards D d (projectId, status)).last := by
  have hmem : ∀ x, x ∈ (TaskRepository.column projectId status d).map Task.position ↔
      ∃ a ∈ (boards D d (projectId, status)).cards, a.position = x := by
    intro x
    rw [← (perm_boardColumn (D := D).map Task.position).mem_iff, boards, List.mem_map]
    constructor
    · rintro ⟨t, ht, rfl⟩
      exact ⟨t.card, List.mem_map_of_mem ht, rfl⟩
    · rintro ⟨a, ha, rfl⟩
      obtain ⟨t, ht, rfl⟩ := List.mem_map.mp ha
      exact ⟨t, ht, rfl⟩
  rw [TaskRepository.nextPosition, behind]
  congr 2
  cases hlast : (boards D d (projectId, status)).last with
  | none =>
    have hnil : (boards D d (projectId, status)).cards = [] := by
      rw [Column.last, Option.map_eq_none_iff] at hlast
      exact List.getLast?_eq_none_iff.mp hlast
    apply List.max?_eq_none_iff.mpr
    apply List.eq_nil_iff_forall_not_mem.mpr
    intro x hx
    obtain ⟨a, ha, -⟩ := (hmem x).mp hx
    rw [hnil] at ha
    exact List.not_mem_nil ha
  | some y =>
    apply List.max?_eq_some_iff.mpr
    constructor
    · obtain ⟨a, ha, rfl⟩ := Option.map_eq_some_iff.mp hlast
      exact (hmem _).mpr ⟨a, List.mem_of_getLast? ha, rfl⟩
    · intro x hx
      obtain ⟨a, ha, rfl⟩ := (hmem x).mp hx
      obtain ⟨z, hz, hle⟩ := Column.position_le_last ha
      obtain rfl := Option.some.inj (hlast.symm.trans hz)
      exact hle

/-! The moves. -/

def Input.boardMove (i : Input) (d : Db) : BoardMove (Uuid × TaskStatus) Uuid ℚ :=
  match i.request with
  | .createTask p => .placed i.call.fresh.id (p.projectId, p.status) none
  | .updateTaskStatus id p =>
    match TaskRepository.find id d with
    | some t => .placed id (t.projectId, p.status) p.position
    | none => .idle
  | .deleteTask id => .removed id
  | _ => .idle

def boardMove (D : Deployment) (e : Event) (w : World) : BoardMove (Uuid × TaskStatus) Uuid ℚ :=
  match e with
  | .request i => if (outcome D i w).isOk then i.boardMove w.1 else .idle
  | .seedAdmin .. => .idle

theorem boardMove_of_reads (reads : i.request.reads = true) : i.boardMove d = .idle := by
  obtain ⟨c, request⟩ := i
  cases request <;> first | rfl | exact absurd reads (by simp [Request.reads])

theorem shows_afterFlush : (afterFlush (TaskRepository.stamped D c) r n).shows k a ↔ n.shows k a := by
  rcases afterFlush_cases (TaskRepository.stamped D c) r n with hrow | hrow
  · rw [hrow]
  · rw [hrow]
    rfl

theorem mem_boards_flush (hr : r ∈ d.tasks.rows) (hid : n.id = r.id)
    (tasks : d'.tasks = d.tasks.put (afterFlush (TaskRepository.stamped D c) r n)) :
    a ∈ (boards D d' k).cards ↔ n.shows k a ∨ a ∈ (boards D d k).cards ∧ a.task ≠ n.id := by
  have hrow : (afterFlush (TaskRepository.stamped D c) r n).id = n.id := afterFlush_column Task.id rfl
  rw [mem_boards, mem_boards, tasks]
  constructor
  · rintro ⟨t, ht, shown⟩
    rcases Table.of_mem_put ht with rfl | ⟨ht, hne⟩
    · exact Or.inl (shows_afterFlush.mp shown)
    · refine Or.inr ⟨⟨t, ht, shown⟩, ?_⟩
      rw [← shown.2.2, ← hrow]
      exact hne
  · rintro (shown | ⟨⟨t, ht, shown⟩, hne⟩)
    · exact ⟨_, Table.mem_put_self hr (hrow.trans hid).symm, shows_afterFlush.mpr shown⟩
    · refine ⟨t, Table.mem_put.mpr (Or.inl ⟨ht, ?_⟩), shown⟩
      rw [← shown.2.2] at hne
      exact fun heq => hne (heq.trans hrow)

/-- A row is written over that stays where it was on its board. -/
theorem boards_flush_same (hr : r ∈ d.tasks.rows) (hid : n.id = r.id)
    (tasks : d'.tasks = d.tasks.put (afterFlush (TaskRepository.stamped D c) r n))
    (same : ∀ k a, n.shows k a ↔ r.shows k a) : boards D d' = boards D d := by
  funext k
  apply Column.ext_mem
  intro a
  rw [mem_boards_flush hr hid tasks, same, mem_boards, hid]
  constructor
  · rintro (shown | ⟨shown, -⟩)
    · exact ⟨r, hr, shown⟩
    · exact shown
  · rintro ⟨t, ht, shown⟩
    by_cases htask : a.task = r.id
    · obtain rfl : t = r := d.tasks.eq_of_key ht hr ((congrArg Card.task shown.2.2).trans htask)
      exact Or.inl shown
    · exact Or.inr ⟨⟨t, ht, shown⟩, htask⟩

theorem boards_added (new : ∀ t ∈ d.tasks.rows, t.id ≠ r.id) (rows : d'.tasks.rows = d.tasks.rows ++ [r]) :
    a ∈ (boards D d' k).cards ↔ r.shows k a ∨ a ∈ (boards D d k).cards ∧ a.task ≠ r.id := by
  rw [mem_boards, mem_boards, rows]
  constructor
  · rintro ⟨t, ht, shown⟩
    rcases List.mem_append.mp ht with ht | ht
    · exact Or.inr ⟨⟨t, ht, shown⟩, fun htask => new t ht ((congrArg Card.task shown.2.2).trans htask)⟩
    · obtain rfl := List.mem_singleton.mp ht
      exact Or.inl shown
  · rintro (shown | ⟨⟨t, ht, shown⟩, -⟩)
    · exact ⟨r, by simp, shown⟩
    · exact ⟨t, List.mem_append_left _ ht, shown⟩

/-- One card is placed, where its row says. -/
theorem boards_placed {p : Option ℚ} (hmem : ∀ k a, a ∈ (boards D d' k).cards ↔
      r.shows k a ∨ a ∈ (boards D d k).cards ∧ a.task ≠ r.id)
    (live : r.live = true) (hposition : r.position = p.getD (TaskRepository.nextPosition r.projectId r.status d)) :
    boards D d' = (BoardMove.placed r.id (r.projectId, r.status) p).apply behind (boards D d) := by
  funext k
  apply Column.ext_mem
  intro a
  rw [hmem, BoardMove.apply]
  by_cases hk : k = (r.projectId, r.status)
  · subst hk
    rw [if_pos rfl, Column.mem_place, ← nextPosition_eq, ← hposition]
    apply or_congr_left
    constructor
    · rintro ⟨-, -, rfl⟩
      rfl
    · rintro rfl
      exact ⟨live, rfl, rfl⟩
  · rw [if_neg hk, Column.mem_without]
    constructor
    · rintro (⟨-, heq, -⟩ | h)
      · exact absurd heq.symm hk
      · exact h
    · exact Or.inr

theorem boards_step : boards D (nextWorld D e w).1 = (boardMove D e w).apply behind (boards D w.1) := by
  cases e with
  | seedAdmin c email password fullName =>
    rcases seedAdmin_next (D := D) (w := w) c email password fullName with hw | ⟨hashed, users, -, -, -, hw⟩
    · rw [hw]
      rfl
    · rw [hw]
      rfl
  | request i =>
    have effect := step_effect D i w
    change boards D (next D i w).1 = _
    rw [boardMove]
    generalize outcome D i w = o at effect ⊢
    generalize next D i w = w' at effect ⊢
    cases effect with
    | rejected => rfl
    | answered reads =>
      rw [boardMove_of_reads reads, ite_self]
      rfl
    | @taskCreated c d b a p actor q tasks notifications caller errors access project rows notified =>
      have new : ∀ t ∈ d.tasks.rows, t.id ≠ c.fresh.id := by
        have nodup := tasks.nodup
        rw [rows, List.map_append, List.nodup_append] at nodup
        intro t ht
        exact nodup.2.2 _ (List.mem_map_of_mem ht) _ (by simp [newTask])
      exact boards_placed (r := newTask D c p (TaskRepository.nextPosition p.projectId p.status d) actor) (p := none)
        (fun k a => boards_added new rows) rfl rfl
    | @taskUpdated c d b a id p actor r r' notifications caller task errors sent notified =>
      obtain ⟨-, rfl⟩ := TaskUpdate.setattrs_eq_ok.mp sent
      exact boards_flush_same (n := p.applied r) task.mem rfl rfl fun k a => Iff.rfl
    | @taskStatusUpdated c d b a id p actor r caller task =>
      have hmove : Input.boardMove ⟨c, .updateTaskStatus id p⟩ d = .placed id (r.projectId, p.status) p.position := by
        simp only [Input.boardMove, task.found]
      change _ = (Input.boardMove ⟨c, .updateTaskStatus id p⟩ d).apply behind (boards D d)
      rw [hmove, ← task.id_eq]
      exact boards_placed (r := statusUpdated d p r) (fun k a => mem_boards_flush task.mem rfl rfl) task.live rfl
    | @taskDeleted c d b a id actor r caller task =>
      funext k
      apply Column.ext_mem
      intro a
      change _ ↔ a ∈ ((boards D d k).without id).cards
      rw [Column.mem_without, mem_boards_flush (n := { r with deletedAt := some c.now }) task.mem rfl rfl, task.id_eq]
      constructor
      · rintro (⟨live, -⟩ | h)
        · exact absurd live (by simp [Task.live])
        · exact h
      · exact Or.inr
    | _ => rfl

theorem boards_reached (es : List Event) : boards D (playFrom D World.initial es).1 =
    (labels (nextWorld D) (boardMove D) World.initial es).foldl (fun b m => m.apply behind b) fun _ => Column.empty := by
  have hinitial : boards D World.initial.1 = fun _ => Column.empty := rfl
  rw [← hinitial]
  exact foldl_labels (fun w : World => boards D w.1) (fun _ _ => boards_step) World.initial es

theorem kanbanBoard_cards (projectId : Uuid) (w : World) : ∃ board, (TaskService.kanbanBoard D projectId).answer w = .ok board ∧
    ∀ status, (board status).map (fun l => l.row.card) = (boards D w.1 (projectId, status)).cards := by
  refine ⟨_, kanbanBoard_answer, fun status => ?_⟩
  rw [List.map_map]
  rfl

def Event.positions : Event → Bool
  | request ⟨_, .updateTaskStatus _ p⟩ => p.position.isSome
  | _ => false

theorem positioned_boardMove (h : e.positions = false) : (boardMove D e w).positioned = false := by
  cases e with
  | seedAdmin c email password fullName => rfl
  | request i =>
    obtain ⟨c, request⟩ := i
    rw [boardMove]
    split
    · cases request with
      | updateTaskStatus id p =>
        have hnone : p.position = none := by simpa [Event.positions] using h
        simp only [Input.boardMove, hnone]
        split
        · rfl
        · rfl
      | _ => rfl
    · rfl

/-- Where no position is sent, a column shows the tasks that have last come to it, in the order in which they have. -/
theorem columns_in_arrival_order (h : ∀ e ∈ es, e.positions = false) (projectId : Uuid) :
    ∃ board, (TaskService.kanbanBoard D projectId).answer (playFrom D World.initial es) = .ok board ∧
      ∀ status, (board status).map (fun l => l.row.id) =
        ((latest ((labels (nextWorld D) (boardMove D) World.initial es).filterMap BoardMove.arrival)).filter fun a =>
          a.2 = some (projectId, status)).map Prod.fst := by
  obtain ⟨board, answer, shown⟩ := kanbanBoard_cards (D := D) projectId (playFrom D World.initial es)
  refine ⟨board, answer, fun status => ?_⟩
  have hpositioned : ∀ m ∈ labels (nextWorld D) (boardMove D) World.initial es, m.positioned = false := by
    intro m hm
    obtain ⟨e, he, w, rfl⟩ := of_mem_labels hm
    exact positioned_boardMove (h e he)
  rw [← BoardMove.tasks_foldl lt_behind hpositioned, ← boards_reached, Column.tasks, ← shown, List.map_map]
  rfl

def movedAround : List Event :=
  oneTask ++ sampleRequests 4
    [(some 16, .createTask { projectId := 32, title := "U" }), (some 16, .updateTaskStatus 48 { status := .done }),
      (some 16, .createTask { projectId := 32, title := "V" }), (some 16, .updateTaskStatus 48 { status := .todo })]

theorem columns_in_arrival_order_sample :
    ∃ board, (TaskService.kanbanBoard .sample 32).answer (playFrom .sample World.initial movedAround) = .ok board ∧
      (board .todo).map (fun l => l.row.id) = [64, 96, 48] := by
  obtain ⟨board, answer, columns⟩ :=
    columns_in_arrival_order (D := .sample) (show ∀ e ∈ movedAround, e.positions = false by decide) 32
  exact ⟨board, answer, (columns .todo).trans (by decide +kernel)⟩

end ProjectManagement
