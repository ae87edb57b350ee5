import ProjectManagement.Api
import ProjectManagement.Library.Relational

/-!
Two states that a user cannot tell apart, and the statements that keep them so: each repository
function acts alike on both, on the rows the user may see.
-/

namespace ProjectManagement

open Library Library.Tx

/-- What stays hidden from a user: projects, the tasks in them, and the names under which the files of those tasks are
stored on one side or the other; `shared` are the names taken on both. -/
structure Secret where
  project : Uuid → Prop
  task : Uuid → Prop
  key : String → Prop
  shared : String → Prop

namespace Secret

variable (S : Secret)

structure HiddenProject (p q : Project) : Prop where
  secret : S.project p.id
  id : p.id = q.id
  deletedAt : p.deletedAt = q.deletedAt

structure HiddenTask (t s : Task) : Prop where
  secret : S.task t.id
  id : t.id = s.id
  projectId : t.projectId = s.projectId
  deletedAt : t.deletedAt = s.deletedAt

structure HiddenComment (m n : Comment) : Prop where
  secret : S.task m.taskId
  id : m.id = n.id
  taskId : m.taskId = n.taskId
  deletedAt : m.deletedAt = n.deletedAt

structure HiddenFile (f g : FileAttachment) : Prop where
  secret : S.task f.taskId
  id : f.id = g.id
  taskId : f.taskId = g.taskId
  key : S.key f.storedFilename
  key' : S.key g.storedFilename

end Secret

/-- Two databases alike but for the hidden rows of the employee `u`, who is a member of no hidden project. -/
structure DbAlike (S : Secret) (u : Uuid) (d d' : Db) : Prop where
  users : d.users = d'.users
  members : d.projectMembers = d'.projectMembers
  notifications : d.notifications = d'.notifications
  refreshTokens : d.refreshTokens = d'.refreshTokens
  projects : Alike S.HiddenProject d.projects.rows d'.projects.rows
  tasks : Alike S.HiddenTask d.tasks.rows d'.tasks.rows
  comments : Alike S.HiddenComment d.comments.rows d'.comments.rows
  files : Alike S.HiddenFile d.fileAttachments.rows d'.fileAttachments.rows
  employee : ∀ v ∈ d.users.rows, v.id = u → v.role = .employee
  member : ∀ m ∈ d.projectMembers.rows, m.userId = u → ¬S.project m.projectId
  secretTask : ∀ t ∈ d.tasks.rows, S.task t.id → S.project t.projectId
  secretTask_mem : ∀ id, S.task id → ∃ t ∈ d.tasks.rows, t.id = id
  openKey : ∀ f ∈ d.fileAttachments.rows, ¬S.task f.taskId → ¬S.key f.storedFilename
  sharedKey : ∀ key, S.shared key →
    (∃ f ∈ d.fileAttachments.rows, f.storedFilename = key) ∧ ∃ f ∈ d'.fileAttachments.rows, f.storedFilename = key

/-- Two stores with the same bytes under every name that is not hidden. -/
structure BlobsAlike (S : Secret) (b b' : Blobs) : Prop where
  same : ∀ key, ¬S.key key → b key = b' key
  present : ∀ key, S.shared key → (b key).isSome = (b' key).isSome

abbrev SeenAlike {α : Type} (S : Secret) (u : Uuid) (P : α → Prop) (m : App α) : Prop :=
  Agree (DbAlike S u) (BlobsAlike S) (fun a b => a = b ∧ P a) m m

abbrev Unseeing {α : Type} (S : Secret) (u : Uuid) (m : App α) : Prop := Blind (DbAlike S u) (BlobsAlike S) m

section Rules

variable {S : Secret} {u : Uuid} {α β : Type} {P : α → Prop} {Q : α → α → Prop} {R : β → β → Prop}

theorem SeenAlike.bind {m : App α} {f g : α → App β} (hm : SeenAlike S u P m)
    (hf : ∀ a, P a → Agree (DbAlike S u) (BlobsAlike S) R (f a) (g a)) :
    Agree (DbAlike S u) (BlobsAlike S) R (m >>= f) (m >>= g) := by
  refine Agree.bind hm ?_
  rintro a _ ⟨rfl, h⟩
  exact hf a h

theorem SeenAlike.unit {m : App Unit} {p : Prop} (h : Agree (DbAlike S u) (BlobsAlike S) (fun _ _ => p) m m) :
    SeenAlike S u (fun _ => p) m := h.mono fun _ _ hp => ⟨rfl, hp⟩

theorem SeenAlike.refuseIf {c : Prop} [Decidable c] {e : Raised} :
    SeenAlike S u (fun _ => ¬c) (Tx.refuseIf c e : App Unit) := .unit (.refuseIf_of_iff Iff.rfl)

theorem SeenAlike.orRaise {o : Option α} {e : Raised} : SeenAlike S u (fun a => o = some a) (Tx.orRaise o e : App α) := by
  cases o with
  | none => exact .raise e
  | some a => exact .pure ⟨rfl, rfl⟩

theorem SeenAlike.ofExcept {x : Except Raised α} : SeenAlike S u (fun a => x = .ok a) (Tx.ofExcept x : App α) := by
  cases x with
  | error e => exact .raise e
  | ok a => exact .pure ⟨rfl, rfl⟩

theorem SeenAlike.of_unseeing {m : App α} [h : Unseeing S u m] : SeenAlike S u (fun _ => True) m :=
  h.agree.mono fun _ _ he => ⟨he, trivial⟩

theorem checked_alike_of {constraints constraints' : List (Bool × Raised)} {x y : Option Db} (hc : constraints = constraints')
    (hr : (∀ c ∈ constraints, c.1 = false) → Option.Rel (DbAlike S u) x y) :
    ResultRel (DbAlike S u) (checked constraints x) (checked constraints' y) := by
  subst hc
  unfold checked
  cases hfind : constraints.find? Prod.fst with
  | some c => exact .error c.2
  | none =>
    have hrel := hr fun c hc => by simpa using List.find?_eq_none.mp hfind c hc
    cases hrel with
    | none => exact .error Raised.integrity
    | some h => exact .ok h

theorem checked_alike {constraints constraints' : List (Bool × Raised)} {x y : Option Db} (hc : constraints = constraints')
    (hr : Option.Rel (DbAlike S u) x y) : ResultRel (DbAlike S u) (checked constraints x) (checked constraints' y) :=
  checked_alike_of hc fun _ => hr

end Rules

section Alike

variable {S : Secret} {u : Uuid} {D : Deployment} {c : Call} {e : Engine} {d d' : Db} {id taskId projectId : Uuid}

theorem option_map_rel {α β : Type} {r : β → β → Prop} {o : Option α} {f g : α → β} (h : ∀ a, r (f a) (g a)) :
    Option.Rel r (o.map f) (o.map g) := by
  cases o with
  | none => exact .none
  | some a => exact .some (h a)

/-! Users, tokens and notifications: tables equal on both sides. -/

theorem DbAlike.withUsers {t : Table User} (h : DbAlike S u d d') (ht : ∀ v ∈ t.rows, v.id = u → v.role = .employee) :
    DbAlike S u { d with users := t } { d' with users := t } := { h with users := rfl, employee := ht }

theorem insertUser_alike {v : User} (hv : v.role = .employee) (h : DbAlike S u d d') :
    ResultRel (DbAlike S u) (Db.insertUser e v d) (Db.insertUser e v d') := by
  apply checked_alike
  · simp only [Db.emailTaken, h.users]
  · have hold := h.employee
    rw [h.users] at hold ⊢
    cases hi : d'.users.insert? v with
    | none => exact .none
    | some t =>
      refine .some (h.withUsers fun x hx hid => ?_)
      rw [(Table.insert?_eq_some.mp hi).2, List.mem_append, List.mem_singleton] at hx
      rcases hx with hx | rfl
      · exact hold x hx hid
      · exact hv

theorem putUser_alike {v : User} (hv : v.id = u → v.role = .employee) (h : DbAlike S u d d') :
    ResultRel (DbAlike S u) (Db.putUser e v d) (Db.putUser e v d') := by
  apply checked_alike
  · simp only [Db.emailTaken, h.users]
  · have hold := h.employee
    rw [h.users] at hold ⊢
    refine .some (h.withUsers fun x hx hid => ?_)
    rcases Table.of_mem_put hx with rfl | ⟨hx, -⟩
    · exact hv hid
    · exact hold x hx hid

theorem flushUser_alike {v w : User} (hw : w.id = u → w.role = .employee) :
    Agree (DbAlike S u) (BlobsAlike S) Eq (UserRepository.flush D c v w) (UserRepository.flush D c v w) := by
  refine .ite (fun _ => .pure rfl) fun _ => .bind (.execute fun d d' h => ?_) fun _ _ _ => .pure rfl
  exact putUser_alike (v := UserRepository.stamped D c w) hw h

instance : Unseeing S u (UserRepository.get id) := .query fun d d' h => by simp only [UserRepository.find, h.users]

instance {email : String} : Unseeing S u (UserRepository.getByEmail D email) :=
  .select fun d d' h => by simp only [UserRepository.oneWithEmail, UserRepository.withEmail, h.users]

theorem DbAlike.withTokens {t : Table RefreshToken} (h : DbAlike S u d d') :
    DbAlike S u { d with refreshTokens := t } { d' with refreshTokens := t } := { h with refreshTokens := rfl }

theorem tokens_alike {f : Table RefreshToken → Table RefreshToken} :
    Unseeing S u (Tx.execute fun d => .ok { d with refreshTokens := f d.refreshTokens } : App Unit) :=
  ⟨.execute fun d d' h => by rw [h.refreshTokens]; exact .ok h.withTokens⟩

instance {tokenHash : String} : Unseeing S u (RefreshTokenRepository.getByHash tokenHash) :=
  .select fun d d' h => by simp only [RefreshTokenRepository.withHash, h.refreshTokens]

instance {t : RefreshToken} {o : Option Uuid} : Unseeing S u (RefreshTokenRepository.revoke t o) :=
  tokens_alike (f := fun ts => ts.put (RefreshTokenRepository.revoked t o))

instance : Unseeing S u (RefreshTokenRepository.revokeFamily id) :=
  tokens_alike (f := RefreshTokenRepository.revokeWhere fun t => t.familyId == id)

instance : Unseeing S u (RefreshTokenRepository.revokeAllForUser id) :=
  tokens_alike (f := RefreshTokenRepository.revokeWhere fun t => t.userId == id)

instance {t : RefreshToken} : Unseeing S u (RefreshTokenRepository.add D t) := by
  refine ⟨.execute fun d d' h => checked_alike ?_ ?_⟩
  · simp only [h.refreshTokens, h.users]
  · rw [h.refreshTokens]
    exact option_map_rel fun _ => h.withTokens

theorem DbAlike.withNotifications {t : Table Notification} (h : DbAlike S u d d') :
    DbAlike S u { d with notifications := t } { d' with notifications := t } := { h with notifications := rfl }

theorem notifications_alike {f : Table Notification → Table Notification} :
    Unseeing S u (Tx.execute fun d => .ok { d with notifications := f d.notifications } : App Unit) :=
  ⟨.execute fun d d' h => by rw [h.notifications]; exact .ok h.withNotifications⟩

instance : Unseeing S u (NotificationRepository.get id) :=
  .query fun d d' h => by simp only [NotificationRepository.find, h.notifications]

instance {n : Notification} : Unseeing S u (NotificationRepository.add D n) := by
  refine ⟨.execute fun d d' h => checked_alike ?_ ?_⟩
  · simp only [h.users]
  · rw [h.notifications]
    exact option_map_rel fun _ => h.withNotifications

instance {event : DomainEvent} : Unseeing S u (EventBus.publish D c event) := by
  rw [EventBus.publish_eq]
  infer_instance

/-! Membership. -/

instance : Unseeing S u (ProjectRepository.isMember projectId id) :=
  .select fun d d' h => by simp only [ProjectRepository.memberRows, h.members]

instance : Unseeing S u (ProjectRepository.getMember projectId id) :=
  .select fun d d' h => by
    have hload : d.loadMember = d'.loadMember := by
      funext m
      simp only [Db.loadMember, Db.relatedUser, h.users]
    simp only [ProjectRepository.memberRows, h.members, hload]

/-! Projects, tasks, comments, files: equal where they can be seen. -/

theorem DbAlike.projectRows {p : Project → Bool} (h : DbAlike S u d d') (hp : ∀ q, S.project q.id → p q = false) :
    d.projects.rows.filter p = d'.projects.rows.filter p :=
  h.projects.filter fun a b hab => ⟨hp a hab.secret, hp b (hab.id ▸ hab.secret)⟩

theorem DbAlike.taskRows {p : Task → Bool} (h : DbAlike S u d d')
    (hp : ∀ t, S.project t.projectId → p t = false) : d.tasks.rows.filter p = d'.tasks.rows.filter p := by
  have hsecret := h.secretTask
  have halike : Alike (fun t s => S.HiddenTask t s ∧ S.project t.projectId) d.tasks.rows d'.tasks.rows := by
    refine (List.forall₂_iff_get.mpr ?_)
    obtain ⟨hlen, hget⟩ := List.forall₂_iff_get.mp h.tasks
    refine ⟨hlen, fun i hi hi' => ?_⟩
    exact (hget i hi hi').imp id fun hidden => ⟨hidden, hsecret _ (List.get_mem _ _) hidden.secret⟩
  exact halike.filter fun a b hab => ⟨hp a hab.2, hp b (hab.1.projectId ▸ hab.2)⟩

theorem DbAlike.commentRows {p : Comment → Bool} (h : DbAlike S u d d') (hp : ∀ m, S.task m.taskId → p m = false) :
    d.comments.rows.filter p = d'.comments.rows.filter p :=
  h.comments.filter fun a b hab => ⟨hp a hab.secret, hp b (hab.taskId ▸ hab.secret)⟩

theorem DbAlike.fileRows {p : FileAttachment → Bool} (h : DbAlike S u d d') (hp : ∀ f, S.task f.taskId → p f = false) :
    d.fileAttachments.rows.filter p = d'.fileAttachments.rows.filter p :=
  h.files.filter fun a b hab => ⟨hp a hab.secret, hp b (hab.taskId ▸ hab.secret)⟩

theorem DbAlike.findProject (h : DbAlike S u d d') (id : Uuid) :
    Option.Rel (fun p q => p = q ∨ S.HiddenProject p q) (ProjectRepository.find id d) (ProjectRepository.find id d') :=
  h.projects.find? fun a b hab => by simp only [Project.live, hab.id, hab.deletedAt]

theorem DbAlike.findTask (h : DbAlike S u d d') (id : Uuid) :
    Option.Rel (fun t s => t = s ∨ S.HiddenTask t s) (TaskRepository.find id d) (TaskRepository.find id d') :=
  h.tasks.find? fun a b hab => by simp only [Task.live, hab.id, hab.deletedAt]

theorem DbAlike.findComment (h : DbAlike S u d d') (id : Uuid) :
    Option.Rel (fun m n => m = n ∨ S.HiddenComment m n) (CommentRepository.find id d) (CommentRepository.find id d') :=
  h.comments.find? fun a b hab => by simp only [Comment.live, hab.id, hab.deletedAt]

theorem DbAlike.findFile (h : DbAlike S u d d') (id : Uuid) :
    Option.Rel (fun f g => f = g ∨ S.HiddenFile f g) (FileRepository.find id d) (FileRepository.find id d') :=
  h.files.find? fun a b hab => by simp only [hab.id]

theorem DbAlike.relatedUser (h : DbAlike S u d d') : d.relatedUser = d'.relatedUser := by
  funext id
  simp only [Db.relatedUser, h.users]

theorem DbAlike.loadTask (h : DbAlike S u d d') : d.loadTask = d'.loadTask := by
  funext t
  simp only [Db.loadTask, h.relatedUser]

theorem DbAlike.loadComment (h : DbAlike S u d d') : d.loadComment = d'.loadComment := by
  funext m
  simp only [Db.loadComment, h.relatedUser]

theorem DbAlike.loadFile (h : DbAlike S u d d') : d.loadFile = d'.loadFile := by
  funext f
  simp only [Db.loadFile, h.relatedUser]

theorem DbAlike.dangling_projects (h : DbAlike S u d d') (id : Uuid) :
    dangling e d.projects id = dangling e d'.projects id := by
  simp only [dangling, key_project]
  rw [h.projects.any fun a b hab => by rw [hab.id]]

theorem DbAlike.dangling_tasks (h : DbAlike S u d d') (id : Uuid) : dangling e d.tasks id = dangling e d'.tasks id := by
  simp only [dangling, key_task]
  rw [h.tasks.any fun a b hab => by rw [hab.id]]

/-! Writes to rows that can be seen. -/

theorem insertTask_alike {t : Task} (h : DbAlike S u d d') :
    ResultRel (DbAlike S u) (Db.insertTask e t d) (Db.insertTask e t d') := by
  apply checked_alike
  · simp only [h.dangling_projects, h.users]
  · refine optionRel_map (h.tasks.insert? t fun a b hab => hab.id) fun ts us _ hrows => ?_
    obtain ⟨hts, hus, hnew⟩ := hrows
    have hmem : ∀ x, x ∈ ts.rows ↔ x ∈ d.tasks.rows ∨ x = t := by simp [hts]
    refine { h with tasks := ?_, secretTask := fun x hx hs => ?_, secretTask_mem := fun id hs => ?_ }
    · rw [hts, hus]
      exact h.tasks.append t
    · rcases (hmem x).mp hx with hx | rfl
      · exact h.secretTask x hx hs
      · obtain ⟨y, hy, hid⟩ := h.secretTask_mem _ hs
        exact absurd hid (hnew y hy)
    · obtain ⟨y, hy, hid⟩ := h.secretTask_mem id hs
      exact ⟨y, (hmem y).mpr (Or.inl hy), hid⟩

theorem putTask_alike {loaded : ℕ} {t : Task} (ht : ¬S.task t.id) (h : DbAlike S u d d') :
    ResultRel (DbAlike S u) (Db.putTask e loaded t d) (Db.putTask e loaded t d') := by
  apply checked_alike
  · have hversion := h.tasks.any (p := fun r => r.id == t.id && r.version == loaded) fun a b hab => by
      have ha : (a.id == t.id) = false := beq_eq_false_iff_ne.mpr fun he => ht (he ▸ hab.secret)
      simp only [← hab.id, ha, Bool.false_and]
    simp only [h.users, hversion]
  · refine .some { h with tasks := h.tasks.put t fun a b hab => hab.id, secretTask := fun x hx hs => ?_, secretTask_mem := fun id hs => ?_ }
    · rcases Table.of_mem_put hx with rfl | ⟨hx, -⟩
      · exact absurd hs ht
      · exact h.secretTask x hx hs
    · obtain ⟨y, hy, rfl⟩ := h.secretTask_mem id hs
      refine ⟨y, Table.mem_put.mpr (Or.inl ⟨hy, fun he => ht ?_⟩), rfl⟩
      exact (show y.id = t.id from he) ▸ hs

instance {t : Task} : Unseeing S u (TaskRepository.add D t) := ⟨.execute fun _ _ h => insertTask_alike h⟩

theorem insertComment_alike {m : Comment} (h : DbAlike S u d d') :
    ResultRel (DbAlike S u) (Db.insertComment e m d) (Db.insertComment e m d') := by
  apply checked_alike
  · simp only [h.dangling_tasks, h.users]
  · refine optionRel_map (h.comments.insert? m fun a b hab => hab.id) fun ms ns _ hrows => { h with comments := ?_ }
    rw [hrows.1, hrows.2.1]
    exact h.comments.append m

theorem flushComment_alike {m m' : Comment} :
    Agree (DbAlike S u) (BlobsAlike S) Eq (CommentRepository.flush D c m m') (CommentRepository.flush D c m m') := by
  refine .ite (fun _ => .pure rfl) fun _ => .bind (.execute fun d d' h => ?_) fun _ _ _ => .pure rfl
  exact checked_alike rfl (.some { h with comments := h.comments.put _ fun a b hab => hab.id })

theorem insertFile_alike {f : FileAttachment} (hkey : S.key f.storedFilename → S.shared f.storedFilename)
    (h : DbAlike S u d d') :
    ResultRel (DbAlike S u) (Db.insertFileAttachment e f d) (Db.insertFileAttachment e f d') := by
  apply checked_alike_of
  · have hnames : d.fileAttachments.rows.any (fun r => r.storedFilename == f.storedFilename) =
        d'.fileAttachments.rows.any (fun r => r.storedFilename == f.storedFilename) := by
      by_cases hs : S.key f.storedFilename
      · obtain ⟨⟨g, hg, hname⟩, g', hg', hname'⟩ := h.sharedKey _ (hkey hs)
        have taken : ∀ {rows : List FileAttachment} {x}, x ∈ rows → x.storedFilename = f.storedFilename →
            rows.any (fun r => r.storedFilename == f.storedFilename) = true := fun hx he =>
          List.any_eq_true.mpr ⟨_, hx, beq_iff_eq.mpr he⟩
        rw [taken hg hname, taken hg' hname']
      · apply h.files.any
        intro a b hab
        have ha : a.storedFilename ≠ f.storedFilename := fun he => hs (he ▸ hab.key)
        have hb : b.storedFilename ≠ f.storedFilename := fun he => hs (he ▸ hab.key')
        simp [ha, hb]
    simp only [h.dangling_tasks, h.users, hnames]
  · intro hc
    have hfree : d.fileAttachments.rows.any (fun r => r.storedFilename == f.storedFilename) = false :=
      hc (_, .integrity) (by simp)
    have hopen : ¬S.key f.storedFilename := fun hs => by
      obtain ⟨⟨g, hg, hname⟩, -⟩ := h.sharedKey _ (hkey hs)
      exact absurd hname (by simpa using List.any_eq_false.mp hfree g hg)
    refine optionRel_map (h.files.insert? f fun a b hab => hab.id) fun fs gs _ hrows =>
      { h with files := ?_, openKey := fun x hx hs => ?_, sharedKey := fun key hs => ?_ }
    · rw [hrows.1, hrows.2.1]
      exact h.files.append f
    · rw [hrows.1, List.mem_append, List.mem_singleton] at hx
      rcases hx with hx | rfl
      · exact h.openKey x hx hs
      · exact hopen
    · obtain ⟨⟨g, hg, hname⟩, g', hg', hname'⟩ := h.sharedKey key hs
      rw [hrows.1, hrows.2.1]
      exact ⟨⟨g, List.mem_append_left _ hg, hname⟩, g', List.mem_append_left _ hg', hname'⟩

theorem save_alike (backend : Backend) {key : String} (upload : UploadFile) (maxSizeBytes : ℕ) {b b' : Blobs}
    (hkey : S.key key → S.shared key) (h : BlobsAlike S b b') :
    (backend.save key upload maxSizeBytes b).1 = (backend.save key upload maxSizeBytes b').1 ∧
      BlobsAlike S (backend.save key upload maxSizeBytes b).2 (backend.save key upload maxSizeBytes b').2 := by
  have hpresent : (b key).isSome = (b' key).isSome := by
    by_cases hs : S.key key
    · exact h.present key (hkey hs)
    · rw [h.same key hs]
  have hupdate : ∀ v, BlobsAlike S (Function.update b key v) (Function.update b' key v) := by
    intro v
    constructor <;> intro k hk <;> by_cases hk' : k = key
    · simp [hk']
    · simpa [hk'] using h.same k hk
    · simp [hk']
    · simpa [hk'] using h.present k hk
  cases backend with
  | «local» =>
    simp only [Backend.save, LocalStorage.save]
    split
    · exact ⟨rfl, h⟩
    · split
      · exact ⟨rfl, hupdate _⟩
      · exact ⟨rfl, hupdate _⟩
  | s3 =>
    simp only [Backend.save, S3Storage.save]
    split
    · exact ⟨rfl, h⟩
    · exact ⟨rfl, hupdate _⟩
  | azure =>
    simp only [Backend.save, AzureBlobStorage.save, hpresent]
    split
    · exact ⟨rfl, h⟩
    · split
      · exact ⟨rfl, h⟩
      · exact ⟨rfl, hupdate _⟩

end Alike

end ProjectManagement
