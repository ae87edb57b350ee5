import ProjectManagement.FeedScroll
import ProjectManagement.Library.LiveRows
import ProjectManagement.Library.Refinement
import ProjectManagement.PatchResponses

/-!
The comments over a run: an accepted request adds one at the end of its thread, rewrites one in its place, or takes one off. The
pages of a task show its thread.
-/

namespace ProjectManagement

open Library

variable {D : Deployment} {c : Call} {i : Input} {e : Event} {w w' : World} {d : Db} {m : Comment} {taskId : Uuid} {params : PageParams}
  {a : ApiResponse} {es : List Event}

structure Post where
  taskId : Uuid
  author : Uuid
  content : String
  deriving DecidableEq

def Comment.post (m : Comment) : Post := ⟨m.taskId, m.userId, m.content⟩

def posts (d : Db) : List (Uuid × Post) := liveRows Comment.live Comment.post d.comments

def Input.threadMove (i : Input) : ListMove Uuid Post :=
  match i.request, i.call.subject with
  | .createComment taskId p, some author => .added i.call.fresh.id ⟨taskId, author, p.content⟩
  | .updateComment id p, _ => .changed id fun post => { post with content := p.content }
  | .deleteComment id, _ => .removed id
  | _, _ => .idle

def threadMove (D : Deployment) (e : Event) (w : World) : ListMove Uuid Post :=
  match e with
  | .request i => if (outcome D i w).isOk then i.threadMove else .idle
  | .seedAdmin .. => .idle

theorem threadMove_of_reads (reads : i.request.reads = true) : i.threadMove = .idle := by
  obtain ⟨c, request⟩ := i
  cases request <;> first | rfl | exact absurd reads (by simp [Request.reads])

theorem posts_step : posts (nextWorld D e w).1 = (threadMove D e w).apply (posts w.1) := by
  cases e with
  | seedAdmin c email password fullName =>
    rcases seedAdmin_next (D := D) (w := w) c email password fullName with hw | ⟨hashed, users, -, -, -, hw⟩
    · rw [hw]
      rfl
    · rw [hw]
      rfl
  | request i =>
    have effect := step_effect D i w
    change posts (next D i w).1 = _
    rw [threadMove]
    generalize outcome D i w = o at effect ⊢
    generalize next D i w = w' at effect ⊢
    cases effect with
    | rejected => rfl
    | answered reads =>
      rw [threadMove_of_reads reads, ite_self]
      rfl
    | @commentCreated c d b a id p actor r comments caller task errors rows =>
      have hmove : Input.threadMove ⟨c, .createComment id p⟩ = .added c.fresh.id ⟨id, actor.id, p.content⟩ := by
        simp only [Input.threadMove, caller.subject]
      change _ = (Input.threadMove ⟨c, .createComment id p⟩).apply (posts d)
      rw [hmove]
      exact liveRows_append rows rfl
    | @commentUpdated c d b a id p actor m r caller errors found task owned =>
      obtain ⟨hm, live, rfl⟩ := CommentRepository.find_eq_some.mp found
      apply liveRows_put hm
      · exact CommentRepository.afterFlush_id rfl
      · exact live
      · exact (afterFlush_column Comment.live rfl).trans live
      · exact afterFlush_column Comment.post rfl
    | @commentDeleted c d b a id actor m r caller found task owned =>
      obtain ⟨hm, live, rfl⟩ := CommentRepository.find_eq_some.mp found
      apply liveRows_put_dead
      · exact CommentRepository.afterFlush_id rfl
      · exact afterFlush_column Comment.live rfl
    | _ => rfl

/-- Whose comments a request may write. -/
theorem threadMove_allowed (D : Deployment) (i : Input) (w : World) :
    match threadMove D (.request i) w with
    | .idle => True
    | .added _ post => ∃ actor r, CurrentUser i.call w.1 actor ∧ post.author = actor.id ∧ Accessible w.1 actor post.taskId r
    | .changed id _ | .removed id => ∃ actor post r, CurrentUser i.call w.1 actor ∧ (id, post) ∈ posts w.1 ∧
        (actor.role = .admin ∨ post.author = actor.id) ∧ Accessible w.1 actor post.taskId r := by
  have effect := step_effect D i w
  rw [threadMove]
  generalize outcome D i w = o at effect ⊢
  generalize next D i w = w' at effect
  have stored : ∀ {d : Db} {id : Uuid} {m : Comment}, CommentRepository.find id d = some m → (id, m.post) ∈ posts d := by
    intro d id m found
    obtain ⟨hm, live, hid⟩ := CommentRepository.find_eq_some.mp found
    exact mem_liveRows.mpr ⟨m, hm, live, hid, rfl⟩
  cases effect with
  | rejected => trivial
  | answered reads =>
    rw [threadMove_of_reads reads, ite_self]
    trivial
  | @commentCreated c d b a id p actor r comments caller task errors rows =>
    have hmove : Input.threadMove ⟨c, .createComment id p⟩ = .added c.fresh.id ⟨id, actor.id, p.content⟩ := by
      simp only [Input.threadMove, caller.subject]
    simp only [Except.isOk, Except.toBool, if_true, hmove]
    exact ⟨actor, r, caller, rfl, task⟩
  | @commentUpdated c d b a id p actor m r caller errors found task owned =>
    exact ⟨actor, m.post, r, caller, stored found, owned, task⟩
  | @commentDeleted c d b a id actor m r caller found task owned =>
    exact ⟨actor, m.post, r, caller, stored found, owned, task⟩
  | _ => trivial

/-! The pages. -/

/-- The clock has moved on since the last comment. -/
def CommentsTick (D : Deployment) (e : Event) (w : World) : Prop := ∀ m ∈ w.1.comments.rows, m.createdAt < e.call.stamp D

def commentTimes (d : Db) : List Time := d.comments.rows.map Comment.createdAt

theorem commentTimes_step (D : Deployment) (e : Event) (w : World) : commentTimes (nextWorld D e w).1 = commentTimes w.1 ∨
    commentTimes (nextWorld D e w).1 = commentTimes w.1 ++ [e.call.stamp D] := by
  apply nextWorld_cases (P := fun w' => commentTimes w'.1 = commentTimes w.1 ∨
    commentTimes w'.1 = commentTimes w.1 ++ [e.call.stamp D]) e
  · rintro i o w' rfl effect
    have changed : ∀ {c : Call} {d : Db} {id : Uuid} {m m' : Comment}, CommentRepository.find id d = some m → m'.id = m.id →
        m'.createdAt = m.createdAt →
        (d.comments.put (afterFlush (CommentRepository.stamped D c) m m')).rows.map Comment.createdAt = commentTimes d := by
      intro c d id m m' found hid htime
      apply Table.map_put
      intro x hx hkey
      obtain ⟨hm, -⟩ := CommentRepository.find_eq_some.mp found
      obtain rfl : x = m := d.comments.eq_of_key hx hm (hkey.trans (CommentRepository.afterFlush_id hid))
      rw [afterFlush_column Comment.createdAt rfl, htime]
    cases effect with
    | commentCreated caller task errors rows =>
      right
      rw [commentTimes, rows, List.map_append]
      rfl
    | commentUpdated caller errors found task owned => exact Or.inl (changed found rfl rfl)
    | commentDeleted caller found task owned => exact Or.inl (changed found rfl rfl)
    | _ => exact Or.inl rfl
  · exact Or.inl rfl
  · exact fun _ _ _ _ _ => Or.inl rfl

def CommentsInOrder (d : Db) : Prop := (commentTimes d).Pairwise (· < ·)

theorem CommentsInOrder.step (h : CommentsInOrder w.1) (ticks : CommentsTick D e w) : CommentsInOrder (nextWorld D e w).1 := by
  rcases commentTimes_step D e w with hsame | hnew
  · rw [CommentsInOrder, hsame]
    exact h
  · rw [CommentsInOrder, hnew]
    apply List.pairwise_append.mpr
    refine ⟨h, List.pairwise_singleton _ _, ?_⟩
    intro x hx y hy
    obtain ⟨m, hm, rfl⟩ := List.mem_map.mp hx
    rw [List.mem_singleton.mp hy]
    exact ticks m hm

theorem CommentsInOrder.oldestFirst (h : CommentsInOrder d) : CommentRepository.listForTaskQuery D taskId d =
    d.comments.rows.filter fun m => m.live && m.taskId == taskId := by
  apply List.Pairwise.insertionSort_eq
  apply List.Pairwise.imp _ ((List.pairwise_map.mp h).filter _)
  intro m n hmn
  have hlt : (m.createdAt : ℚ) < n.createdAt := by exact_mod_cast hmn
  simp [rowLe, OrderTerm.le, asc, Cell.le, hlt.le, not_le.mpr hlt]

theorem CommentsInOrder.thread (h : CommentsInOrder d) : (CommentRepository.listForTaskQuery D taskId d).map (fun m => (m.id, m.post)) =
    (posts d).filter fun x => x.2.taskId == taskId := by
  rw [h.oldestFirst, posts, liveRows, List.filter_map, List.filter_filter]
  congr 1
  apply List.filter_congr
  intro m _
  exact Bool.and_comm _ _

def CommentOut.post (o : CommentOut) : Uuid × Post := (o.id, ⟨o.taskId, o.userId, o.content⟩)

theorem succeeds_listForTask {s t : Session Db Blobs} {listed : List LoadedComment × PaginationMeta} :
    (CommentService.listForTask D taskId params).Succeeds s listed t ↔
      params.InRange (CommentRepository.listForTaskQuery D taskId s.working).length ∧
      listed = ((pageOf params (CommentRepository.listForTaskQuery D taskId s.working)).1.map s.working.loadComment,
        (pageOf params (CommentRepository.listForTaskQuery D taskId s.working)).2) ∧ t = s := by
  simp only [CommentService.listForTask, Tx.succeeds_select]
  constructor
  · rintro ⟨hpage, rfl⟩
    cases hp : paginate params (CommentRepository.listForTaskQuery D taskId t.working) with
    | error e =>
      rw [hp] at hpage
      cases hpage
    | ok page =>
      rw [hp] at hpage
      obtain ⟨inRange, rfl⟩ := paginate_eq_ok.mp hp
      exact ⟨inRange, (Except.ok.inj hpage).symm, rfl⟩
  · rintro ⟨inRange, rfl, rfl⟩
    rw [paginate_eq_ok.mpr ⟨inRange, rfl⟩]
    exact ⟨rfl, rfl⟩

theorem listComments_thread (order : CommentsInOrder w.1) (ok : outcome D ⟨c, .listComments taskId params⟩ w = .ok a) :
    ∃ outs info, a.data = .comments outs ∧ a.pagination = some info ∧
      info.total = ((posts w.1).filter fun x => x.2.taskId == taskId).length ∧
      outs.map CommentOut.post = page params.size (params.page - 1) ((posts w.1).filter fun x => x.2.taskId == taskId) := by
  obtain ⟨t, h, -⟩ := succeeds_of_outcome ok
  simp only [handle, Routes.listComments, Tx.succeeds_bind, Routes.succeeds_accessibleTask, succeeds_validated,
    succeeds_listForTask, Tx.succeeds_orRaise, Tx.succeeds_pure, Db.loadTask_row, exists_const, ↓existsAndEq, and_true] at h
  obtain ⟨actor, r, ⟨-, task⟩, -, -, outs, loaded, rfl, -⟩ := h
  rw [task.id_eq] at loaded ⊢
  refine ⟨outs, _, rfl, rfl, ?_, ?_⟩
  · rw [← order.thread (D := D), List.length_map]
    rfl
  · have hposts : ∀ {l : List Comment} {outs : List CommentOut}, (l.map fun m => CommentOut.modelValidate (w.1.loadComment m)) =
        outs.map some → outs.map CommentOut.post = l.map fun m => (m.id, m.post) := by
      intro l
      induction l with
      | nil =>
        intro outs houts
        rw [List.map_nil, eq_comm, List.map_eq_nil_iff] at houts
        rw [houts]
        rfl
      | cons m l ih =>
        rintro (_ | ⟨out, outs⟩) houts
        · exact absurd houts (by simp)
        · rw [List.map_cons, List.map_cons, List.cons.injEq] at houts
          rw [List.map_cons, List.map_cons, ih houts.2]
          obtain ⟨u, -, rfl⟩ := Option.map_eq_some_iff.mp houts.1
          rfl
    rw [mapM_eq_some, List.map_map] at loaded
    rw [hposts loaded, fst_pageOf, map_page, order.thread]

/-- The threads of a run are those of its accepted requests, each the caller's own or an administrator's; and the pages of a task
show its thread, as long as the clock moves on after a comment. -/
theorem threads_refined (run : Execution D (CommentsTick D) World.initial es w) :
    posts w.1 = (labels (nextWorld D) (threadMove D) World.initial es).foldl (fun l m => m.apply l) [] ∧
      (∀ c taskId params a, outcome D ⟨c, .listComments taskId params⟩ w = .ok a → ∃ outs info, a.data = .comments outs ∧
        a.pagination = some info ∧ info.total = ((posts w.1).filter fun x => x.2.taskId == taskId).length ∧
        outs.map CommentOut.post = page params.size (params.page - 1) ((posts w.1).filter fun x => x.2.taskId == taskId)) ∧
      ∀ i w, match threadMove D (.request i) w with
        | .idle => True
        | .added _ post => ∃ actor r, CurrentUser i.call w.1 actor ∧ post.author = actor.id ∧ Accessible w.1 actor post.taskId r
        | .changed id _ | .removed id => ∃ actor post r, CurrentUser i.call w.1 actor ∧ (id, post) ∈ posts w.1 ∧
            (actor.role = .admin ∨ post.author = actor.id) ∧ Accessible w.1 actor post.taskId r := by
  have order : CommentsInOrder w.1 := by
    apply run.invariant (I := fun w => CommentsInOrder w.1) fun _ _ ticks h => h.step ticks
    simp [CommentsInOrder, commentTimes, World.initial, Db.empty, Table.empty]
  refine ⟨?_, fun c taskId params a ok => listComments_thread order ok, threadMove_allowed D⟩
  rw [run.eq_foldl]
  exact foldl_labels (fun w : World => posts w.1) (fun _ _ => posts_step) World.initial es

def discussed : List Event :=
  oneTask ++ sampleRequests 4
    [(some 16, .createComment 48 ⟨"a"⟩), (some 16, .createComment 48 ⟨"b"⟩), (some 16, .updateComment 64 ⟨"c"⟩),
      (some 16, .createComment 48 ⟨"d"⟩), (some 16, .deleteComment 80)]

theorem threads_refined_sample : ∃ a outs,
    outcome .sample ⟨Call.sample 9 (some 16), .listComments 48 {}⟩ (playFrom .sample World.initial discussed) = .ok a ∧
      a.data = .comments outs ∧ outs.map CommentOut.post = [(64, ⟨48, 16, "c"⟩), (112, ⟨48, 16, "d"⟩)] := by
  have run : Execution .sample (CommentsTick .sample) World.initial discussed (playFrom .sample World.initial discussed) := by
    have halong : along .sample (fun e w => w.1.comments.rows.all fun m => m.createdAt < e.call.stamp .sample) World.initial discussed =
        true := by decide +kernel
    apply (execution_of_along halong).mono
    intro e w ticks m hm
    simpa using List.all_eq_true.mp ticks m hm
  obtain ⟨a, ok⟩ := exists_of_isOk (o := outcome .sample ⟨Call.sample 9 (some 16), .listComments 48 {}⟩
    (playFrom .sample World.initial discussed)) (by decide +kernel)
  obtain ⟨outs, -, hdata, -, -, hposts⟩ := (threads_refined run).2.1 _ _ _ _ ok
  refine ⟨a, outs, ok, hdata, hposts.trans ?_⟩
  decide +kernel

end ProjectManagement
