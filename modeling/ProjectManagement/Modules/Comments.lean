import ProjectManagement.Modules.Tasks

/-! Comments: repository, service and the routes that reach a comment through its task. -/

namespace ProjectManagement

open Library

variable (D : Deployment) (c : Call)

structure CommentOut where
  id : Uuid
  taskId : Uuid
  userId : Uuid
  content : String
  user : UserOut
  createdAt : Time
  updatedAt : Time
  deriving DecidableEq, Repr

/-- The schema of both `CommentCreate` and `CommentUpdate`. -/
structure CommentPayload where
  content : String

def CommentPayload.errors (p : CommentPayload) : List ErrorDetail := minLength "content" 1 p.content

structure LoadedComment where
  row : Comment
  user : Option User

/-- A comment without a user row does not validate. -/
def CommentOut.modelValidate (m : LoadedComment) : Option CommentOut :=
  m.user.map fun u => ⟨m.row.id, m.row.taskId, m.row.userId, m.row.content, UserOut.modelValidate u,
    m.row.createdAt, m.row.updatedAt⟩

def Db.loadComment (d : Db) (m : Comment) : LoadedComment := ⟨m, d.relatedUser m.userId⟩

@[simp] theorem Db.loadComment_row (d : Db) (m : Comment) : (d.loadComment m).row = m := rfl

namespace CommentRepository

def find (commentId : Uuid) (d : Db) : Option Comment :=
  d.comments.rows.find? (fun m => m.live && m.id == commentId)

def get (commentId : Uuid) : App (Option LoadedComment) :=
  Tx.query fun d => (find commentId d).map d.loadComment

def listForTaskQuery (taskId : Uuid) (d : Db) : List Comment :=
  orderBy D.engine [asc fun m => .number m.createdAt]
    (d.comments.rows.filter (fun m => m.live && m.taskId == taskId))

def add (m : Comment) : App Unit := Tx.execute (Db.insertComment D.engine m)

def stamped (m : Comment) : Comment := { m with updatedAt := c.stamp D }

def flush (old new : Comment) : App Comment :=
  if new = old then pure old
  else do
    Tx.execute (Db.putComment D.engine (stamped D c new))
    pure (stamped D c new)

def delete (m : Comment) : App Comment := flush D c m { m with deletedAt := some c.now }

end CommentRepository

def newComment (taskId : Uuid) (p : CommentPayload) (actor : User) : Comment :=
  ⟨c.fresh.id, taskId, actor.id, p.content, c.stamp D, c.stamp D, none⟩

namespace CommentService

def listForTask (taskId : Uuid) (params : PageParams) : App (List LoadedComment × PaginationMeta) :=
  Tx.select fun d => do
    let page ← paginate params (CommentRepository.listForTaskQuery D taskId d)
    return (page.1.map d.loadComment, page.2)

def create (taskId : Uuid) (p : CommentPayload) (actor : User) : App LoadedComment := do
  let comment := newComment D c taskId p actor
  CommentRepository.add D comment
  let loaded ← CommentRepository.get comment.id
  Tx.orRaise loaded .unexpected -- `assert loaded is not None`

def get (commentId : Uuid) : App LoadedComment := do
  let found ← CommentRepository.get commentId
  Tx.orRaise found (.app (notFoundError "Comment not found"))

def getOwned (commentId : Uuid) (actor : User) : App LoadedComment := do
  let comment ← get commentId
  Tx.refuseIf (actor.role ≠ .admin ∧ comment.row.userId ≠ actor.id)
    (.app (forbiddenError "You can only modify your own comments"))
  pure comment

def update (commentId : Uuid) (p : CommentPayload) (actor : User) : App LoadedComment := do
  let comment ← getOwned commentId actor
  let row ← CommentRepository.flush D c comment.row { comment.row with content := p.content }
  pure ⟨row, comment.user⟩

def delete (commentId : Uuid) (actor : User) : App Uuid := do
  let comment ← getOwned commentId actor
  let _ ← CommentRepository.delete D c comment.row
  pure comment.row.taskId

end CommentService

section Specs

variable {D c} {s t : Session Db Blobs} {d d' : Db} {m m' : Comment} {l : LoadedComment} {actor : User}
  {id taskId : Uuid} {x : Unit}

namespace CommentRepository

theorem find_eq_some : find id d = some m ↔ m ∈ d.comments.rows ∧ m.live = true ∧ m.id = id :=
  Table.find?_eq_some

@[simp] theorem succeeds_get {o : Option LoadedComment} :
    (get id).Succeeds s o t ↔ o = (find id s.working).map s.working.loadComment ∧ t = s := by
  simp only [get, Tx.succeeds_query]

@[simp] theorem succeeds_add :
    (add D m).Succeeds s x t ↔
      ∃ d, Db.insertComment D.engine m s.working = .ok d ∧ t = { s with working := d } := by
  simp only [add, Tx.succeeds_execute]

theorem afterFlush_id (h : m'.id = m.id) : (afterFlush (stamped D c) m m').id = m.id :=
  (afterFlush_column Comment.id rfl).trans h

theorem find_flushed (found : find id d = some m) (sameId : m'.id = m.id) (sameLive : m'.live = m.live)
    (comments : d'.comments = d.comments.put (afterFlush (stamped D c) m m')) :
    find id d' = some (afterFlush (stamped D c) m m') := by
  rw [find, comments]
  exact find?_afterFlush found rfl rfl sameId sameLive

theorem flush_iff {o : Comment} (hm : m ∈ s.working.comments.rows) : (flush D c m m').Succeeds s o t ↔
    o = afterFlush (stamped D c) m m' ∧ (m' ≠ m → ∃ d, Db.putComment D.engine (stamped D c m') s.working = .ok d) ∧
      t = { s with working := { s.working with comments := s.working.comments.put o } } :=
  succeeds_flushed_row (f := fun comments => { s.working with comments := comments }) hm rfl
    fun _ hd => Db.putComment_ok hd

theorem succeeds_flush {o : Comment} (hm : m ∈ s.working.comments.rows) (h : (flush D c m m').Succeeds s o t) :
    o = afterFlush (stamped D c) m m' ∧
      t = { s with working := { s.working with comments := s.working.comments.put o } } := by
  obtain ⟨ho, -, ht⟩ := (flush_iff hm).mp h
  exact ⟨ho, ht⟩

instance : Tx.ReadOnly (get id) := by unfold get; infer_instance
instance : Tx.Contained (add D m) := by unfold add; infer_instance
instance : Tx.Contained (flush D c m m') := by unfold flush; infer_instance
instance : Tx.Contained (delete D c m) := by unfold delete; infer_instance

end CommentRepository

namespace CommentService

@[simp] theorem succeeds_get :
    (get id).Succeeds s l t ↔
      ∃ m, CommentRepository.find id s.working = some m ∧ l = s.working.loadComment m ∧ t = s := by
  simp only [get, Tx.succeeds_bind, CommentRepository.succeeds_get, Tx.succeeds_orRaise]
  constructor
  · rintro ⟨_, _, ⟨rfl, rfl⟩, hl, rfl⟩
    obtain ⟨m, hm, rfl⟩ := Option.map_eq_some_iff.mp hl
    exact ⟨m, hm, rfl, rfl⟩
  · rintro ⟨m, hm, rfl, rfl⟩
    exact ⟨_, _, ⟨rfl, rfl⟩, by rw [hm]; rfl, rfl⟩

@[simp] theorem succeeds_getOwned :
    (getOwned id actor).Succeeds s l t ↔
      ∃ m, CommentRepository.find id s.working = some m ∧ (actor.role = .admin ∨ m.userId = actor.id) ∧
        l = s.working.loadComment m ∧ t = s := by
  simp only [getOwned, Tx.succeeds_bind, succeeds_get, Tx.succeeds_refuseIf, Tx.succeeds_pure, ne_eq, not_and,
    not_not, ← or_iff_not_imp_left]
  constructor
  · rintro ⟨_, _, ⟨m, hm, rfl, rfl⟩, _, _, ⟨ho, rfl⟩, rfl, rfl⟩
    exact ⟨m, hm, ho, rfl, rfl⟩
  · rintro ⟨m, hm, ho, rfl, rfl⟩
    exact ⟨_, _, ⟨m, hm, rfl, rfl⟩, (), _, ⟨ho, rfl⟩, rfl, rfl⟩

instance {params : PageParams} : Tx.ReadOnly (listForTask D taskId params) := by unfold listForTask; infer_instance
instance : Tx.ReadOnly (get id) := by unfold get; infer_instance
instance : Tx.ReadOnly (getOwned id actor) := by unfold getOwned; infer_instance
instance {p : CommentPayload} : Tx.Contained (create D c taskId p actor) := by unfold create; infer_instance
instance {p : CommentPayload} : Tx.Contained (update D c id p actor) := by unfold update; infer_instance
instance : Tx.Contained (delete D c id actor) := by unfold delete; infer_instance

end CommentService

end Specs

end ProjectManagement
